import EntityQuery.Proofs.Query.Contents

/-!
# Queries that were built are rendered

In a settled query every path is written, since its aliases end and its node is there. What
is left to fail is a call of a function that is not known, and a count of what is no
collection. `text_outcome` says that a query built from plain expressions fails in no other
way, and names the call that is the cause.
-/

namespace EntityQuery

open Outcome (FailsOnly failsOnly_ok failsOnly_of_ok failsOnly_bind failsOnly_mapM)

namespace Renderer

/-- What is rendered, and calls of that. -/
inductive Writes (r : Renderer) : Expression → Prop
  | text {e : Expression} {t : String} (h : r.render e = .ok t) : Writes r e
  | call {f : String} {as : List Expression} (h : ∀ a ∈ as, Writes r a) : Writes r (.call f as)

/-- FUNCTION without arguments, or with the name of a function that is not registered where
dynamic calls are not understood. -/
def Refuses (r : Renderer) (f : String) (as : List Expression) (name : String) : Prop :=
  CallForm.ofFunction f = .dynamic ∧
    (as = [] ∧ name = Expression.plain (.call f as) ∨
      Expression.dynamicName? as = some name ∧ r.functions.contains name = false ∧
        r.profile.dynamicCalls = false)

variable {r : Renderer}

/-- The cause is a call that occurs in what is rendered. -/
theorem Writes.failsOnly {e : Expression} (h : r.Writes e) :
    FailsOnly (fun fault => ∃ f as name, Expression.Occurs (.call f as) e ∧
      r.Refuses f as name ∧ fault = .functionUnknown name) (r.render e) := by
  induction h with
  | text h => exact failsOnly_of_ok h
  | @call f as _ ih =>
    have inside : ∀ a ∈ as, FailsOnly (fun fault => ∃ g bs name,
        Expression.Occurs (.call g bs) (.call f as) ∧ r.Refuses g bs name ∧
          fault = .functionUnknown name) (r.render a) :=
      fun a ha => (ih a ha).mono fun fault ⟨g, bs, name, occurs, rest⟩ =>
        ⟨g, bs, name, .argument ha occurs, rest⟩
    rw [render]
    cases hform : CallForm.ofFunction f with
    | outer =>
      cases as with
      | nil => exact failsOnly_ok ""
      | cons a rest => exact inside a List.mem_cons_self
    | dynamic =>
      have others : FailsOnly _ (r.renderRest as) :=
        r.renderRest_eq as ▸ failsOnly_mapM fun a ha => inside a (List.mem_of_mem_tail ha)
      dsimp only
      cases hname : Expression.dynamicName? as with
      | none =>
        obtain rfl := Expression.eq_nil_of_dynamicName?_none hname
        intro fault hfault
        cases hfault
        exact ⟨f, [], _, .here, ⟨hform, Or.inl ⟨rfl, rfl⟩⟩, rfl⟩
      | some name =>
        dsimp only
        split
        · exact failsOnly_bind others fun texts _ => failsOnly_ok _
        split
        · exact failsOnly_bind others fun texts _ => failsOnly_ok _
        · rename_i unregistered static
          intro fault hfault
          cases hfault
          exact ⟨f, as, name, .here,
            ⟨hform, Or.inr ⟨hname, by simpa using unregistered, by simpa using static⟩⟩, rfl⟩
    | ordinary =>
      rw [renderList_eq]
      exact failsOnly_bind (failsOnly_mapM inside) fun texts _ => failsOnly_ok _

/-- A count of paths that are written is rendered. -/
theorem render_counting {a b c : Path} {x y z : String} (ha : r.path a = .ok x)
    (hb : r.path b = .ok y) (hc : r.path c = .ok z) (entity label : String)
    (joins : List (String × String)) : ∃ t, r.render
      (.subquery (.call "COUNT" [.path a]) entity label joins [(.path b, .path c)]) = .ok t := by
  have form : CallForm.ofFunction "COUNT" = .ordinary := by decide
  simp only [render, form, renderList, renderEqualities, ha, hb, hc]
  exact ⟨_, rfl⟩

end Renderer

namespace SizeExpansion
variable {w : SizeExpansion}

/-- Every call in what is expanded was there, and its arguments stayed or were expanded. -/
theorem occurs_of_expand {e c : Expression} (h : w.expand e = .ok c) {g : String}
    {bs : List Expression} (occurs : Expression.Occurs (.call g bs) c) :
    ∃ as, Expression.Occurs (.call g as) e ∧ (bs = as ∨ as.mapM w.expand = .ok bs) := by
  rcases occurs_expand h occurs with before | ⟨f, as, cs, same, outer, hcs⟩ |
    ⟨f, p, i, -, -, -, counted⟩
  · exact ⟨bs, before, Or.inl rfl⟩
  · cases same
    exact ⟨as, outer, Or.inr hcs⟩
  · obtain ⟨owner, entity, collection, -, -, same⟩ := size_ok counted
    cases same

end SizeExpansion

namespace Schema

theorem entity_failsOnly (s : Schema) (name : String) :
    FailsOnly (fun err => ∃ fault, err = .schema fault) (s.entity name) := by
  rw [entity]
  split
  · exact failsOnly_ok _
  · exact fun err h => ⟨_, (Except.error.inj h).symm⟩

theorem attributeOf_failsOnly (s : Schema) (entity name : String) :
    FailsOnly (fun err => ∃ fault, err = .schema fault) (s.attributeOf entity name) := by
  refine failsOnly_bind (s.entity_failsOnly entity) fun e _ => ?_
  split
  · exact failsOnly_ok _
  · exact fun err h => ⟨_, (Except.error.inj h).symm⟩

end Schema

namespace Query
variable {q : Query}

/-- A path that reads a node has one that is there. -/
def Reaches (q : Query) (p : Path) : Prop :=
  ∀ i, p.node = some i → ∃ n, q.forest.nodes[i]? = some n

theorem Knows.reaches {p : Path} (h : q.Knows p) : q.Reaches p := fun _ => h.exists_node

theorem reaches_of_free {p : Path} (h : p.node = none) : q.Reaches p := by
  intro i hi
  cases h.symm.trans hi

namespace Settled

/-- What aliases lead to reads a node that is there. -/
theorem reaches_of_leads (s : q.Settled) {n : Nat} {p r : Path} (h : q.scope.Leads n p r)
    (hp : q.Reaches p) : q.Reaches r := by
  induction h with
  | bound => exact hp
  | computed => exact hp
  | next _ halias _ ih =>
    cases s.alias_known halias with
    | path known => exact ih known.reaches

theorem standsFor_reaches (s : q.Settled) {p : Path} (h : q.Reaches p) :
    ∃ r, q.renderer.standsFor p = .ok r ∧ q.Reaches r := by
  rw [Renderer.standsFor]
  split
  · rcases AliasScope.resolve_cases s.grounded le_rfl p with same | ⟨a, n, r, -, ha, leads, hr⟩
    · exact ⟨p, same, h⟩
    · cases s.alias_known ha with
      | path known => exact ⟨r, hr, s.reaches_of_leads leads known.reaches⟩
  · exact ⟨p, rfl, h⟩

theorem path_written (s : q.Settled) {p : Path} (h : q.Reaches p) :
    ∃ t, q.renderer.path p = .ok t := by
  obtain ⟨r, hr, reaches⟩ := s.standsFor_reaches h
  rw [Renderer.path_eq, hr]
  show ∃ t, q.renderer.written r = .ok t
  cases hnode : r.node with
  | none =>
    rw [Renderer.written, hnode]
    exact ⟨r.text, rfl⟩
  | some i =>
    obtain ⟨n, hn⟩ := reaches i hnode
    exact ⟨_, Renderer.written_bound hnode (JoinForest.node_ok_iff.mpr hn)⟩

theorem writes_path (s : q.Settled) {p : Path} (h : q.Reaches p) : q.renderer.Writes (.path p) := by
  obtain ⟨t, ht⟩ := s.path_written h
  exact .text ht

theorem writes (s : q.Settled) {e : Expression} (built : e.Built q.Knows) :
    q.renderer.Writes e := by
  induction built with
  | path known => exact s.writes_path known.reaches
  | call _ ih => exact .call ih
  | parameter name value =>
    have written : ∃ t, q.renderer.parameter (some name) value = .ok t := by
      rw [Renderer.parameter]
      split
      · exact ⟨_, rfl⟩
      · exact ⟨_, rfl⟩
    obtain ⟨t, ht⟩ := written
    exact .text ht
  | literal l => exact .text rfl

/-- The subquery that counts a collection has no call that could be refused. -/
theorem writes_counting (s : q.Settled) {i : Nat} {n : ForestNode}
    (hn : q.forest.nodes[i]? = some n) (owner : ForestNode) (entity : Entity)
    (collection : String) :
    q.renderer.Writes (q.sizeExpansion.counting i owner entity collection) := by
  have free : ∀ text, ∃ t, q.renderer.path (.ofText text) = .ok t :=
    fun text => s.path_written (reaches_of_free rfl)
  have owned : ∀ text field, ∃ t, q.renderer.path (.bound text i field) = .ok t :=
    fun text field => s.path_written fun j hj => ⟨n, Option.some.inj hj ▸ hn⟩
  obtain ⟨_, hcounted⟩ := free (q.scope.generate s!"{owner.label}_{collection}")
  let base := q.scope.generate s!"{owner.label}_base"
  obtain ⟨_, hleft⟩ := free s!"{base}.{entity.id}"
  obtain ⟨_, hright⟩ := owned s!"{owner.label}.{entity.id}" (some entity.id)
  obtain ⟨_, ht⟩ := Renderer.render_counting hcounted hleft hright entity.name
    (q.scope.generate s!"{owner.label}_base") [(_, q.scope.generate s!"{owner.label}_{collection}")]
  exact .text ht

theorem writes_expanded (s : q.Settled) {e c : Expression} (built : e.Built q.Knows)
    (h : q.sizeExpansion.expand e = .ok c) : q.renderer.Writes c := by
  induction built generalizing c with
  | path known =>
    cases h
    exact s.writes (.path known)
  | @call f as args ih =>
    rcases q.sizeExpansion.expand_call f as with ⟨p, i, rfl, -, hnode, eq⟩ | ⟨-, eq⟩ | ⟨-, eq⟩
    · rw [eq] at h
      cases args (.path p) List.mem_cons_self with
      | path known =>
        obtain ⟨n, hn⟩ := known.reaches i hnode
        obtain ⟨owner, entity, collection, -, -, rfl⟩ := SizeExpansion.size_ok h
        exact s.writes_counting hn owner entity collection
    · rw [eq] at h
      cases h
      exact s.writes (.call args)
    · rw [eq] at h
      obtain ⟨bs, hbs, h⟩ := Outcome.bind_ok_iff.mp h
      cases h
      refine .call fun b hb => ?_
      obtain ⟨a, ha, hab⟩ := Outcome.mem_of_mapM_ok hbs hb
      exact ih a ha hab
  | parameter name value =>
    cases h
    exact s.writes (.parameter name value)
  | literal l =>
    cases h
    exact s.writes (.literal l)

end Settled

/-- A node itself, or a field of one that is no collection of its entity. -/
def Uncounted (q : Query) (p : Path) : Prop :=
  ∃ i n, p.node = some i ∧ q.forest.nodes[i]? = some n ∧
    (p.field = none ∧ p.text = n.label ∨
      ∃ field, p.field = some field ∧ p.text = n.label ++ "." ++ field ∧
        ∀ a, q.basis.schema.attributeOf n.entity field = .ok a → a.collection? = none)

theorem size_failsOnly {p : Path} {i : Nat} (known : q.Knows p) (hnode : p.node = some i) :
    FailsOnly (fun err => (∃ fault, err = .schema fault) ∧ q.Uncounted p)
      (q.sizeExpansion.size p i) := by
  cases known with
  | item free => cases free.symm.trans hnode
  | @node j n bound hn whole text =>
    obtain rfl := Option.some.inj (bound.symm.trans hnode)
    rw [SizeExpansion.size, whole]
    refine failsOnly_bind (failsOnly_of_ok (JoinForest.node_ok_iff.mpr hn)) fun owner howner => ?_
    exact fun err h => ⟨⟨_, (Except.error.inj h).symm⟩, j, n, bound, hn, Or.inl ⟨whole, text⟩⟩
  | @field j n field bound hn part text =>
    obtain rfl := Option.some.inj (bound.symm.trans hnode)
    rw [SizeExpansion.size, part]
    refine failsOnly_bind (failsOnly_of_ok (JoinForest.node_ok_iff.mpr hn)) fun owner howner => ?_
    obtain rfl : owner = n := Except.ok.inj (howner.symm.trans (JoinForest.node_ok_iff.mpr hn))
    have blame : (∀ a, q.basis.schema.attributeOf owner.entity field = .ok a →
        a.collection? = none) → q.Uncounted p :=
      fun none => ⟨j, owner, bound, hn, Or.inr ⟨field, part, text, none⟩⟩
    refine failsOnly_bind ?entity fun entity _ => failsOnly_bind ?named fun a ha => ?counted
    case entity =>
      refine fun err h => ⟨Schema.entity_failsOnly _ _ err h, blame fun a ha => ?_⟩
      obtain ⟨entity, hentity, -⟩ := Outcome.bind_ok_iff.mp ha
      cases h.symm.trans hentity
    case named =>
      refine fun err h => ⟨Schema.attributeOf_failsOnly _ _ _ err h, blame fun a ha => ?_⟩
      cases h.symm.trans ha
    case counted =>
      split
      · exact failsOnly_ok _
      · rename_i single
        refine fun err h => ⟨⟨_, (Except.error.inj h).symm⟩, blame fun b hb => ?_⟩
        obtain rfl : a = b := Except.ok.inj (ha.symm.trans hb)
        simpa using single

/-- The cause is a call of SIZE that occurs in what is expanded. -/
theorem expand_failsOnly {e : Expression} (built : e.Built q.Knows) :
    FailsOnly (fun err => (∃ fault, err = .schema fault) ∧ ∃ f p,
      Expression.Occurs (.call f [.path p]) e ∧ Text.sameLetters f "SIZE" = true ∧ q.Uncounted p)
      (q.sizeExpansion.expand e) := by
  induction built with
  | path => exact failsOnly_ok _
  | @call f as args ih =>
    rcases q.sizeExpansion.expand_call f as with ⟨p, i, rfl, size, hnode, eq⟩ | ⟨-, eq⟩ | ⟨-, eq⟩
    · rw [eq]
      cases args (.path p) List.mem_cons_self with
      | path known =>
        exact (size_failsOnly known hnode).mono fun err ⟨schema, uncounted⟩ =>
          ⟨schema, f, p, .here, size, uncounted⟩
    · rw [eq]
      exact failsOnly_ok _
    · rw [eq]
      refine failsOnly_bind (failsOnly_mapM fun a ha => ?_) fun bs _ => failsOnly_ok _
      exact (ih a ha).mono fun err ⟨schema, g, p, occurs, rest⟩ =>
        ⟨schema, g, p, .argument ha occurs, rest⟩
  | parameter => exact failsOnly_ok _
  | literal => exact failsOnly_ok _

/-- What the expressions of a query and its nodes can fail with is in `P`. -/
structure FaultsIn (q : Query) (P : QueryError → Prop) : Prop where
  transform : ∀ clause e, q.Holds clause e → FailsOnly P (q.sizeExpansion.transform clause e)
  render : ∀ clause e c, q.Holds clause e → q.sizeExpansion.transform clause e = .ok c →
    FailsOnly P (q.renderer.render c)
  above : ∀ n ∈ q.forest.nodes, FailsOnly P (q.forest.rootAbove n.id)
  joined : ∀ n ∈ q.forest.nodes, FailsOnly P (q.joinedText n)

namespace FaultsIn
variable {P : QueryError → Prop}

theorem clauseText (s : q.FaultsIn P) {clause : Clause} {e : Expression}
    (he : q.Holds clause e) : FailsOnly P (q.clauseText clause e) :=
  failsOnly_bind (s.transform clause e he) fun c hc => s.render clause e c he hc

theorem predicateText (s : q.FaultsIn P) {clause : Clause} {p : Predicate}
    (left : q.Holds clause p.left) (right : q.Holds clause p.right) :
    FailsOnly P (q.predicateText clause p) := by
  refine failsOnly_bind ?expanded fun sides hsides => ?rendered
  case expanded =>
    refine failsOnly_bind (s.transform clause p.left left) fun _ _ => ?_
    exact failsOnly_bind (s.transform clause p.right right) fun _ _ => failsOnly_ok _
  case rendered =>
    obtain ⟨l, hl, h⟩ := Outcome.bind_ok_iff.mp hsides
    obtain ⟨r, hr, h⟩ := Outcome.bind_ok_iff.mp h
    cases h
    refine failsOnly_bind (s.render clause p.left l left hl) fun _ _ => ?_
    exact failsOnly_bind (s.render clause p.right r right hr) fun _ _ => failsOnly_ok _

theorem joinUnder (s : q.FaultsIn P) (root : Nat) {n : ForestNode} (hn : n ∈ q.forest.nodes) :
    FailsOnly P (q.joinUnder root n) := by
  rw [Query.joinUnder]
  split
  · exact failsOnly_ok _
  refine failsOnly_bind (s.above n hn) fun _ _ => ?_
  split
  · refine failsOnly_bind (s.joined n hn) fun _ _ => ?_
    refine failsOnly_bind (failsOnly_mapM fun p hp => ?_) fun _ _ => failsOnly_ok _
    exact s.predicateText ⟨n, hn, p, hp, Or.inl rfl⟩ ⟨n, hn, p, hp, Or.inr rfl⟩
  · exact failsOnly_ok _

theorem selectText (s : q.FaultsIn P) : FailsOnly P q.selectText := by
  rw [Query.selectText]
  split
  · exact failsOnly_ok _
  refine failsOnly_bind (failsOnly_mapM fun i hi => ?_) fun _ _ => failsOnly_ok _
  refine failsOnly_bind (s.clauseText ⟨i, hi, rfl⟩) fun _ _ => ?_
  split
  · exact failsOnly_ok _
  · exact failsOnly_ok _

theorem fromText (s : q.FaultsIn P) : FailsOnly P q.fromText := by
  refine failsOnly_bind (failsOnly_mapM fun root _ => ?_) fun _ _ => failsOnly_ok _
  refine failsOnly_bind (failsOnly_mapM fun n hn => ?_) fun _ _ => failsOnly_ok _
  exact s.joinUnder root.id hn

theorem text (s : q.FaultsIn P) : FailsOnly P q.text := by
  have conditions : ∀ p ∈ q.conditions, FailsOnly P (q.predicateText .restriction p) :=
    fun p hp => s.predicateText ⟨p, hp, Or.inl rfl⟩ ⟨p, hp, Or.inr rfl⟩
  have groups : ∀ e ∈ q.groups, FailsOnly P (q.clauseText .groupBy e) :=
    fun e he => s.clauseText he
  have orders : ∀ o ∈ q.orders, FailsOnly P (q.orderText o) := fun o ho =>
    failsOnly_bind (s.clauseText ⟨o, ho, rfl⟩) fun _ _ => failsOnly_ok _
  refine failsOnly_bind s.selectText fun _ _ => ?_
  refine failsOnly_bind s.fromText fun _ _ => ?_
  refine failsOnly_bind (failsOnly_mapM conditions) fun _ _ => ?_
  refine failsOnly_bind (failsOnly_mapM groups) fun _ _ => ?_
  exact failsOnly_bind (failsOnly_mapM orders) fun _ _ => failsOnly_ok _

end FaultsIn

/-- Some FUNCTION call in the query has no argument, or names, by its arguments as they are
rendered, a function that is not registered where dynamic calls are not understood. -/
def CallsUnknown (q : Query) (name : String) : Prop :=
  ∃ clause e f as bs, q.Holds clause e ∧ Expression.Occurs (.call f as) e ∧
    (bs = as ∨ as.mapM q.sizeExpansion.expand = .ok bs) ∧ q.renderer.Refuses f bs name

/-- Outside the select clause, some SIZE call has one argument, which is no collection. -/
def CountsOther (q : Query) : Prop :=
  ∃ clause e f p, clause ≠ .select ∧ q.Holds clause e ∧ Expression.Occurs (.call f [.path p]) e ∧
    Text.sameLetters f "SIZE" = true ∧ q.Uncounted p

/-- One of the two reasons for which rendering may fail. -/
def Explains (q : Query) (err : QueryError) : Prop :=
  (∃ name, err = .functionUnknown name ∧ q.CallsUnknown name) ∨
    (∃ fault, err = .schema fault) ∧ q.CountsOther

namespace Settled

theorem transform_failsOnly (s : q.Settled) {clause : Clause} {e : Expression}
    (he : q.Holds clause e) : FailsOnly q.Explains (q.sizeExpansion.transform clause e) := by
  rw [SizeExpansion.transform]
  split
  · exact failsOnly_ok _
  · rename_i other
    exact (expand_failsOnly (s.known clause e he)).mono fun err ⟨schema, f, p, occurs, rest⟩ =>
      Or.inr ⟨schema, clause, e, f, p, other, he, occurs, rest⟩

theorem render_failsOnly (s : q.Settled) {clause : Clause} {e c : Expression}
    (he : q.Holds clause e) (hc : q.sizeExpansion.transform clause e = .ok c) :
    FailsOnly q.Explains (q.renderer.render c) := by
  have built := s.known clause e he
  rw [SizeExpansion.transform] at hc
  split at hc
  · cases hc
    exact (s.writes built).failsOnly.mono fun err ⟨f, as, name, occurs, refuses, same⟩ =>
      Or.inl ⟨name, same, clause, e, f, as, as, he, occurs, Or.inl rfl, refuses⟩
  · refine (s.writes_expanded built hc).failsOnly.mono ?_
    rintro err ⟨f, bs, name, occurs, refuses, rfl⟩
    obtain ⟨as, outer, stay⟩ := SizeExpansion.occurs_of_expand hc occurs
    exact Or.inl ⟨name, rfl, clause, e, f, as, bs, he, outer, stay, refuses⟩

theorem joinedText_ok (s : q.Settled) {n : ForestNode} (hn : n ∈ q.forest.nodes) :
    ∃ t, q.joinedText n = .ok t := by
  obtain ⟨i, hi⟩ := List.mem_iff_getElem?.mp hn
  rw [joinedText]
  cases horigin : n.origin with
  | root => exact ⟨_, rfl⟩
  | entity parent => exact ⟨_, rfl⟩
  | relation parent r =>
    obtain ⟨m, -, hm, -⟩ := s.wired.relations i n parent r hi horigin
    exact ⟨_, Outcome.bind_ok_iff.mpr ⟨m, JoinForest.node_ok_iff.mpr hm, rfl⟩⟩

theorem faultsIn (s : q.Settled) : q.FaultsIn q.Explains where
  transform _ _ he := s.transform_failsOnly he
  render _ _ _ he hc := s.render_failsOnly he hc
  above n hn := by
    obtain ⟨root, hroot⟩ := s.wired.ranked.rootAbove_ok hn
    exact failsOnly_of_ok hroot
  joined n hn := by
    obtain ⟨t, ht⟩ := s.joinedText_ok hn
    exact failsOnly_of_ok ht

end Settled

/-- A query built from plain expressions is rendered, unless it calls an unknown function or
counts what is no collection. -/
theorem text_outcome {basis : QueryBasis} {entity label : String} {first : Query}
    (h : start basis entity label = .ok first) {steps : List QueryStep}
    (plain : ∀ s ∈ steps, s.Plain) :
    let q := first.run steps
    (∃ t, q.text = .ok t) ∨
      (∃ name, q.text = .error (.functionUnknown name) ∧ q.CallsUnknown name) ∨
      (∃ fault, q.text = .error (.schema fault) ∧ q.CountsOther) := by
  intro q
  have settled : q.Settled := settled_run h plain
  cases htext : q.text with
  | ok t => exact Or.inl ⟨t, rfl⟩
  | error err =>
    rcases settled.faultsIn.text err htext with ⟨name, rfl, calls⟩ | ⟨⟨fault, rfl⟩, counts⟩
    · exact Or.inr (Or.inl ⟨name, rfl, calls⟩)
    · exact Or.inr (Or.inr ⟨fault, rfl, counts⟩)

/-- Contacts are joined and restricted by text, and the order is by the size of a document,
which is no collection. -/
theorem text_outcome_documents :
    let steps : List QueryStep :=
      [.join "d.contacts" "c" .left false, .select (.call "KEY" [.ofPathText "c"]) (some "role"),
        .restrict (.text "c.name = :name"), .orderBy (.call "SIZE" [.ofPathText "d"]) true]
    let q := ofDocuments.run steps
    start .ofDocuments "Document" "d" = .ok ofDocuments ∧ (∀ s ∈ steps, s.Plain) ∧
      ((∃ t, q.text = .ok t) ∨
        (∃ name, q.text = .error (.functionUnknown name) ∧ q.CallsUnknown name) ∨
        (∃ fault, q.text = .error (.schema fault) ∧ q.CountsOther)) ∧
      q.text = .error (.schema (.sizeOfAlias "d")) := by
  intro steps q
  have plain : ∀ s ∈ steps, s.Plain := by
    have argument : ∀ text, ∀ a ∈ [Expression.ofPathText text], a.Plain := by
      intro text a ha
      obtain rfl := List.mem_singleton.mp ha
      exact Expression.plain_ofPathText text
    intro s hs
    simp only [steps, List.mem_cons, List.not_mem_nil, or_false] at hs
    rcases hs with rfl | rfl | rfl | rfl
    · trivial
    · exact .call (argument "c")
    · trivial
    · exact .call (argument "d")
  exact ⟨start_ofDocuments, plain, text_outcome start_ofDocuments plain, by decide +kernel⟩

end Query

end EntityQuery
