import EntityQuery.Proofs.Query.Declarations
import EntityQuery.Proofs.Query.Landing

/-!
# What ON conditions refer to

A condition is bound when it is given to a node, and may read every node that is there by then. The
text goes root by root, so a condition may stand before an alias that it refers to: it was given to
a node after later joins, or its join is below a root that has a later one. If every step works at
the end of the text, each alias is declared where it is referred to.
-/

namespace EntityQuery

/-- The node of a bound path. -/
def Expression.node? : Expression → Option Nat
  | .path p => p.node
  | _ => none

namespace Renderer
variable {r : Renderer}

/-- A call that is written has the arguments that are rendered written. -/
theorem rendered_arguments {f : String} {as : List Expression} {t : String}
    (h : r.render (.call f as) = .ok t) :
    ∃ texts, (r.arguments f as).mapM r.render = .ok texts := by
  rw [render] at h
  rw [arguments]
  cases form : CallForm.ofFunction f with
  | outer =>
    rw [form] at h
    cases as with
    | nil => exact ⟨[], rfl⟩
    | cons first rest =>
      refine ⟨[t], Outcome.mapM_ok_iff.mpr ?_⟩
      exact .cons h .nil
  | dynamic =>
    rw [form] at h
    dsimp only at h ⊢
    cases name : Expression.dynamicName? as with
    | none => exact ⟨[], rfl⟩
    | some function =>
      rw [name] at h
      dsimp only at h ⊢
      have rest : ∃ texts, as.tail.mapM r.render = .ok texts := by
        rw [← renderRest_eq]
        split at h
        · obtain ⟨texts, htexts, -⟩ := Outcome.bind_ok_iff.mp h
          exact ⟨texts, htexts⟩
        split at h
        · obtain ⟨texts, htexts, -⟩ := Outcome.bind_ok_iff.mp h
          exact ⟨texts, htexts⟩
        · cases h
      split
      · exact rest
      · exact ⟨[], rfl⟩
  | ordinary =>
    rw [form] at h
    obtain ⟨texts, htexts, -⟩ := Outcome.bind_ok_iff.mp h
    rw [renderList_eq] at htexts
    exact ⟨texts, htexts⟩

/-- What is rendered is rendered in all its parts. -/
theorem rendered_parts {e : Expression} {t : String} (h : r.render e = .ok t) {a : Expression}
    (ha : a ∈ r.parts e) : ∃ u, r.render a = .ok u := by
  cases e with
  | call f as =>
    obtain ⟨texts, htexts⟩ := rendered_arguments h
    exact Outcome.exists_of_mapM_ok htexts ha
  | subquery selected entity label joins conditions =>
    obtain ⟨item, hitem, h⟩ := Outcome.bind_ok_iff.mp h
    obtain ⟨texts, htexts, -⟩ := Outcome.bind_ok_iff.mp h
    rw [renderEqualities_eq] at htexts
    rcases List.mem_cons.mp ha with rfl | ha
    · exact ⟨item, hitem⟩
    · obtain ⟨c, hc, side⟩ := List.mem_flatMap.mp ha
      obtain ⟨u, hu⟩ := Outcome.exists_of_mapM_ok htexts hc
      obtain ⟨x, hx, hu⟩ := Outcome.bind_ok_iff.mp hu
      obtain ⟨y, hy, -⟩ := Outcome.bind_ok_iff.mp hu
      rcases List.mem_pair.mp side with rfl | rfl
      · exact ⟨x, hx⟩
      · exact ⟨y, hy⟩
  | _ => cases ha

theorem Reaches.rendered {p : Path} {e : Expression} (h : r.Reaches p e) {t : String}
    (he : r.render e = .ok t) : ∃ u, r.path p = .ok u := by
  induction h generalizing t with
  | path => exact ⟨t, he⟩
  | @part _ a _ _ split _ _ ih =>
    obtain ⟨u, hu⟩ := rendered_parts he (a := a) (by simp [split])
    exact ih hu

/-- Rendering comes to no other paths than those that an expression is built of. -/
theorem Reaches.of_built {K : Path → Prop} {p : Path} {e : Expression} (h : r.Reaches p e)
    (built : e.Built K) : K p := by
  induction built with
  | path known =>
    cases h with
    | path => exact known
    | part split => simp [parts] at split
  | @call f as _ ih =>
    cases h with
    | @part _ a _ _ split _ inner =>
      have rendered : a ∈ r.arguments f as := by
        show a ∈ r.parts (.call f as)
        simp [split]
      exact ih a (mem_of_mem_arguments rendered) inner
  | parameter =>
    cases h with
    | part split => simp [parts] at split
  | literal =>
    cases h with
    | part split => simp [parts] at split

theorem standsFor_bound (r : Renderer) {p : Path} {i : Nat} (bound : p.node = some i) :
    r.standsFor p = .ok p := by
  rw [standsFor, AliasScope.resolve, AliasScope.follow_bound bound]
  split <;> rfl

/-- A path that names no alias of a path stays. -/
theorem standsFor_unnamed (r : Renderer) {p : Path} (free : p.node = none)
    (unnamed : ∀ a, r.scope.find? p.text ≠ some (.item (.path a))) : r.standsFor p = .ok p := by
  have none : r.scope.pathOf? p.text = none := by
    apply Option.eq_none_iff_forall_ne_some.mpr
    intro a named
    exact unnamed a (AliasScope.pathOf?_eq_some_iff.mp named)
  have ended : r.scope.follow 1 p = some p := by
    simp only [AliasScope.follow, free, none]
  rw [standsFor, AliasScope.resolve_of_follow ended]
  split <;> rfl

/-- What a path stands for is no node but where its aliases lead. -/
theorem node_of_leads {k : Nat} {p x y : Path} {i : Nat} (leads : r.scope.Leads k p x)
    (stands : r.standsFor p = .ok y) (bound : y.node = some i) : x.node = some i := by
  rw [standsFor] at stands
  split at stands
  · rw [AliasScope.resolve_of_follow (AliasScope.follow_of_leads leads (Nat.lt_succ_self k))]
      at stands
    cases stands
    exact bound
  · cases stands
    rw [leads.eq_of_bound bound, bound]

end Renderer

namespace Query
variable {q r : Query}

/-- A condition of the node reads the node numbered `i`, by itself or by an alias. -/
def RefersTo (q : Query) (n : ForestNode) (i : Nat) : Prop :=
  ∃ p ∈ n.on, ∃ side, (side = p.left ∨ side = p.right) ∧ ∃ expanded,
    q.sizeExpansion.transform .join side = .ok expanded ∧ ∃ a x,
      q.renderer.Reaches a expanded ∧ q.renderer.standsFor a = .ok x ∧ x.node = some i

theorem refersTo_of_node? {n : ForestNode} {p : Predicate} (hp : p ∈ n.on) {i : Nat}
    (h : p.right.node? = some i) : q.RefersTo n i := by
  cases right : p.right with
  | path a =>
    rw [right] at h
    exact ⟨p, hp, .path a, .inr right.symm, .path a, rfl, a, a, .path,
      Renderer.standsFor_bound _ h, h⟩
  | _ =>
    rw [right] at h
    cases h

/-- No condition stands before an alias that it refers to. -/
def LooksBack (q : Query) : Prop :=
  ∀ m ∈ q.forest.nodes, ∀ n ∈ q.forest.nodes, q.RefersTo n m.id → q.NoLater m n

theorem side_rendered {clause : Clause} {p : Predicate} {t : String}
    (h : q.predicateText clause p = .ok t) {side expanded : Expression}
    (hside : side = p.left ∨ side = p.right)
    (expands : q.sizeExpansion.transform clause side = .ok expanded) :
    ∃ u, q.renderer.render expanded = .ok u := by
  obtain ⟨sides, hsides, h⟩ := Outcome.bind_ok_iff.mp h
  obtain ⟨left, hleft, hsides⟩ := Outcome.bind_ok_iff.mp hsides
  obtain ⟨right, hright, hsides⟩ := Outcome.bind_ok_iff.mp hsides
  cases hsides
  obtain ⟨x, hx, h⟩ := Outcome.bind_ok_iff.mp h
  obtain ⟨y, hy, -⟩ := Outcome.bind_ok_iff.mp h
  rcases hside with rfl | rfl
  · cases hleft.symm.trans expands
    exact ⟨x, hx⟩
  · cases hright.symm.trans expands
    exact ⟨y, hy⟩

/-- What a rendered condition refers to is there. -/
theorem refersTo_joined {n : ForestNode} {t : String} (h : q.joinText n = .ok t) {i : Nat}
    (refers : q.RefersTo n i) : ∃ m, q.forest.nodes[i]? = some m := by
  obtain ⟨p, hp, side, hside, expanded, expands, a, x, reaches, stands, bound⟩ := refers
  obtain ⟨_, -, h⟩ := Outcome.bind_ok_iff.mp h
  obtain ⟨texts, htexts, -⟩ := Outcome.bind_ok_iff.mp h
  obtain ⟨u, hu⟩ := Outcome.exists_of_mapM_ok htexts hp
  obtain ⟨v, hv⟩ := side_rendered hu hside expands
  obtain ⟨w, hw⟩ := reaches.rendered hv
  rw [Renderer.path_eq, stands] at hw
  change q.renderer.written x = .ok w at hw
  rw [Renderer.written, bound] at hw
  obtain ⟨m, hm, -⟩ := Outcome.bind_ok_iff.mp hw
  exact ⟨m, JoinForest.node_ok_iff.mp hm⟩

/-! Which nodes an expression reads. -/

/-- The aliases of the path lead to no node numbered `bound` or above. -/
def ReadsBelow (q : Query) (bound : Nat) (p : Path) : Prop :=
  ∃ k x, q.scope.Leads k p x ∧ ∀ i, x.node = some i → i < bound

/-- The path stands for no node numbered `bound` or above. -/
def StandsBelow (q : Query) (bound : Nat) (p : Path) : Prop :=
  ∀ x i, q.renderer.standsFor p = .ok x → x.node = some i → i < bound

variable {bound : Nat} {p : Path}

theorem ReadsBelow.mono (h : q.ReadsBelow bound p) (ext : q.Extends r) {more : Nat}
    (le : bound ≤ more) : r.ReadsBelow more p := by
  obtain ⟨k, x, leads, below⟩ := h
  refine ⟨k, x, leads.mono ext.scope, ?_⟩
  intro i hi
  have less := below i hi
  omega

theorem ReadsBelow.standsBelow (h : q.ReadsBelow bound p) : q.StandsBelow bound p := by
  obtain ⟨k, x, leads, below⟩ := h
  intro y i stands hi
  exact below i (Renderer.node_of_leads leads stands hi)

/-- What is known reads the nodes that are there. -/
theorem Settled.readsBelow (s : q.Settled) (known : q.Knows p) :
    q.ReadsBelow q.forest.size p := by
  have inside : ∀ {x : Path}, q.Reaches x → ∀ i, x.node = some i → i < q.forest.size := by
    intro x reaches i hi
    obtain ⟨n, hn⟩ := reaches i hi
    exact (List.getElem?_eq_some_iff.mp hn).1
  cases hnode : p.node with
  | some i => exact ⟨0, p, .bound (by simp [hnode]), inside known.reaches⟩
  | none =>
    cases known with
    | node there => cases hnode.symm.trans there
    | field there => cases hnode.symm.trans there
    | item _ named =>
      obtain ⟨k, x, -, leads⟩ := AliasScope.exists_leads hnode named fun a same =>
        s.grounded _ a (same ▸ named)
      exact ⟨k, x, leads, inside (s.reaches_of_leads leads (reaches_of_free hnode))⟩

theorem standsBelow_bound {i : Nat} (there : p.node = some i) (less : i < bound) :
    q.StandsBelow bound p := by
  intro x j stands hj
  cases (Renderer.standsFor_bound _ there).symm.trans stands
  cases there.symm.trans hj
  exact less

theorem StandsBelow.lt_of_bound (h : q.StandsBelow bound p) {i : Nat} (there : p.node = some i) :
    i < bound := h p i (Renderer.standsFor_bound _ there) there

theorem standsBelow_unnamed (free : p.node = none)
    (unnamed : ∀ a, q.scope.find? p.text ≠ some (.item (.path a))) :
    q.StandsBelow bound p := by
  intro x i stands hi
  cases (Renderer.standsFor_unnamed q.renderer free unnamed).symm.trans stands
  rw [free] at hi
  cases hi

/-- A subquery that counts reads the node that it counts for. -/
theorem standsBelow_counting (s : q.Selected) (o : InOrder q.items) {i : Nat} (less : i < bound)
    (owner : ForestNode) (entity : Entity) (collection : String)
    (reaches : q.renderer.Reaches p (q.sizeExpansion.counting i owner entity collection)) :
    q.StandsBelow bound p := by
  let joined := q.scope.generate s!"{owner.label}_{collection}"
  let base := q.scope.generate s!"{owner.label}_base"
  have counted : q.StandsBelow bound (.ofText joined) := by
    apply standsBelow_unnamed rfl
    intro a named
    have free := AliasScope.isAvailable_iff.mp (q.scope.isAvailable_generate
      s!"{owner.label}_{collection}")
    rw [Path.text_ofText, free] at named
    cases named
  -- no alias has a dot
  have key : q.StandsBelow bound (.ofText s!"{base}.{entity.id}") := by
    apply standsBelow_unnamed rfl
    intro a named
    rw [Path.text_ofText] at named
    have identifier := o.identifiers _ ((s.items _ _).mp named) _ rfl
    have dotted : '.' ∈ (base ++ "." ++ entity.id).toList := by simp
    exact Text.ne_dot_of_isIdentifier identifier '.' dotted rfl
  have own : q.StandsBelow bound (.bound s!"{owner.label}.{entity.id}" i (some entity.id)) :=
    standsBelow_bound rfl less
  cases reaches with
  | @part _ a _ _ split _ inner =>
    have part : a ∈ q.renderer.parts (q.sizeExpansion.counting i owner entity collection) := by
      simp [split]
    rcases List.mem_cons.mp part with rfl | part
    · refine inner.of_built (.call ?_)
      intro e he
      obtain rfl := List.mem_singleton.mp he
      exact .path counted
    · rcases List.mem_pair.mp part with rfl | rfl
      · exact inner.of_built (.path key)
      · exact inner.of_built (.path own)

theorem standsBelow_expand (s : q.Selected) (o : InOrder q.items) {e c : Expression}
    (built : e.Built (q.StandsBelow bound)) (h : q.sizeExpansion.expand e = .ok c)
    (reaches : q.renderer.Reaches p c) : q.StandsBelow bound p := by
  induction built generalizing c with
  | path below =>
    cases h
    exact reaches.of_built (.path below)
  | @call f as args ih =>
    rcases q.sizeExpansion.expand_call f as with ⟨a, i, rfl, -, there, eq⟩ | ⟨-, eq⟩ | ⟨-, eq⟩
    · rw [eq] at h
      obtain ⟨owner, entity, collection, -, -, rfl⟩ := SizeExpansion.size_ok h
      cases args (.path a) List.mem_cons_self with
      | path below =>
        exact standsBelow_counting s o (below.lt_of_bound there) owner entity collection reaches
    · rw [eq] at h
      cases h
      exact reaches.of_built (.call args)
    · rw [eq] at h
      obtain ⟨bs, hbs, h⟩ := Outcome.bind_ok_iff.mp h
      cases h
      cases reaches with
      | @part _ b _ _ split _ inner =>
        have rendered : b ∈ q.renderer.arguments f bs := by
          show b ∈ q.renderer.parts (.call f bs)
          simp [split]
        obtain ⟨a, ha, hab⟩ := Outcome.mem_of_mapM_ok hbs (Renderer.mem_of_mem_arguments rendered)
        exact ih a ha hab inner
  | parameter name value =>
    cases h
    exact reaches.of_built (.parameter name value)
  | literal l =>
    cases h
    exact reaches.of_built (.literal l)

/-! Queries that are built at their end. -/

/-- Is the alias that of a node below the newest root? -/
def belowNewest (q : Query) (label : String) : Bool :=
  match q.nodeOf label >>= q.forest.rootAbove with
  | .ok k => q.forest.roots.all fun root => root.id ≤ k
  | .error _ => true

/-- Does the step work at the end of the text? It joins to what is below the newest root, or gives
its condition to the newest node. -/
def advances (q : Query) : QueryStep → Bool
  | .join path _ _ _ => q.belowNewest (Text.headAndRest path).1
  | .joinEntity base _ _ _ _ => q.belowNewest base
  | .on label _ =>
    match q.nodeOf label with
    | .ok i => i + 1 == q.forest.size
    | .error _ => true
  | _ => true

/-- Does each step that is taken work at the end of the text? -/
def forward (q : Query) : List QueryStep → Bool
  | [] => true
  | s :: rest =>
    match q.step s with
    | .ok r => q.advances s && r.forward rest
    | .error _ => q.forward rest

/-- No root was added between the root of a node and the node, and the conditions of a node read no
later one. -/
structure Upright (q : Query) : Prop where
  roots : ∀ i k, q.forest.EndsAt i k → ∀ j, q.forest.EndsAt j j → j < i → j ≤ k
  reads : ∀ (i : Nat) (n : ForestNode), q.forest.nodes[i]? = some n →
    ∀ p ∈ n.on, p.All fun e => e.Built (q.ReadsBelow (i + 1))

theorem belowNewest_spec (w : Wired q.basis.schema q.forest.nodes q.scope) {label : String}
    {i k : Nat} (hi : q.scope.find? label = some (.join i)) (hk : q.forest.EndsAt i k)
    (newest : q.belowNewest label = true) {j : Nat} (hj : q.forest.EndsAt j j) : j ≤ k := by
  obtain ⟨n, hn, -⟩ := w.joins label i hi
  have above : q.forest.rootAbove i = .ok k := by
    have number := w.numbered i n hn
    have found := w.ranked.rootAbove_ok_iff (List.mem_of_getElem? hn) (k := k)
    rw [number] at found
    exact found.mpr hk
  obtain ⟨root, hroot, top⟩ := hj.exists_root
  have all : q.forest.roots.all (fun root => root.id ≤ k) = true := by
    have found : (q.nodeOf label >>= q.forest.rootAbove) = .ok k := by
      rw [nodeOf_ok_iff.mpr hi]
      exact above
    rw [belowNewest, found] at newest
    exact newest
  have le := List.all_eq_true.mp all root
    (List.mem_filter.mpr ⟨List.mem_of_getElem? hroot, top⟩)
  rw [w.numbered j root hroot] at le
  simpa using le

/-- The way up from an old node is as it was. -/
theorem Extends.endsAt (h : q.Extends r) (w : Wired r.basis.schema r.forest.nodes r.scope)
    {i k : Nat} (ends : r.forest.EndsAt i k) (old : i < q.forest.size) : q.forest.EndsAt i k := by
  have before : ∀ {i : Nat} {n : ForestNode}, r.forest.nodes[i]? = some n → i < q.forest.size →
      ∃ m, q.forest.nodes[i]? = some m ∧ m.parent? = n.parent? := by
    intro i n hn inside
    obtain ⟨m, hm⟩ : ∃ m, q.forest.nodes[i]? = some m := ⟨_, List.getElem?_eq_getElem inside⟩
    obtain ⟨k, hk, same⟩ := h.node hm
    cases hn.symm.trans hk
    have origin := (ForestNode.bare_eq_iff.mp same).2.2.2.1
    exact ⟨m, hm, by rw [ForestNode.parent?, ForestNode.parent?, origin]⟩
  induction ends with
  | root hn top =>
    obtain ⟨m, hm, same⟩ := before hn old
    exact .root hm (same.trans top)
  | up hn above _ ih =>
    obtain ⟨m, hm, same⟩ := before hn old
    have less := w.ordered _ _ _ hn above
    exact .up hm (same.trans above) (ih (by omega))

theorem size_step (w : Wired q.basis.schema q.forest.nodes q.scope) {s : QueryStep}
    (h : q.step s = .ok r) : r.forest.size ≤ q.forest.size + 1 := by
  rw [← JoinForest.length_bare, ← JoinForest.length_bare]
  rcases bare_step w h with ⟨-, same⟩ | ⟨-, n, -, same⟩
  · rw [same]
    omega
  · rw [same, List.length_append]
    exact Nat.le_refl _

theorem size_of_quiet (w : Wired q.basis.schema q.forest.nodes q.scope) {s : QueryStep}
    (h : q.step s = .ok r) (quiet : s.addsNode = false) : r.forest.size = q.forest.size := by
  rcases bare_step w h with ⟨-, same⟩ | ⟨adds, -⟩
  · rw [← JoinForest.length_bare, same, JoinForest.length_bare]
  · rw [quiet] at adds
    cases adds

/-- A step that advances joins its node below the newest root. -/
theorem newest_of_advances (w : Wired q.basis.schema q.forest.nodes q.scope) {s : QueryStep}
    (h : q.step s = .ok r) (advances : q.advances s = true) {n : ForestNode}
    (hn : r.forest.nodes[q.forest.size]? = some n) {parent : Nat} (above : n.parent? = some parent)
    {k : Nat} (hk : q.forest.EndsAt parent k) {j : Nat} (hj : q.forest.EndsAt j j) : j ≤ k := by
  have last : ∀ {label entity : String} {origin : JoinOrigin} {mode : JoinMode} {fetch : Bool},
      (q.putNode label entity origin mode fetch).forest.nodes[q.forest.size]? = some n →
        n.origin = origin := by
    intro label entity origin mode fetch found
    cases (getElem?_putNode ..).symm.trans found
    rfl
  cases s with
  | root entity label =>
    obtain ⟨-, -, -, rfl⟩ := withRoot_ok_iff.mp h
    rw [ForestNode.parent?, last hn] at above
    cases above
  | join path label mode fetch =>
    obtain ⟨base, i, m, a, entity, rfl, identifier, -, -, hi, -, -, -, -, rfl⟩ := join_ok_iff.mp h
    rw [ForestNode.parent?, last hn] at above
    cases above
    have head := Text.headAndRest_dot (Text.ne_dot_of_isIdentifier identifier) a.name
    rw [Query.advances, head] at advances
    exact belowNewest_spec w hi hk advances hj
  | joinEntity base entity label mode on =>
    obtain ⟨i, m, p, bound, -, -, hi, -, -, -, rfl⟩ := joinEntity_ok_iff.mp h
    rw [nodes_joinEntity, JoinForest.size, List.getElem?_concat_length] at hn
    cases hn
    cases above
    exact belowNewest_spec w hi hk advances hj
  | _ =>
    have inside : q.forest.size < r.forest.size := (List.getElem?_eq_some_iff.mp hn).1
    have same := size_of_quiet w h rfl
    omega

theorem Upright.roots_step (u : q.Upright) (w : Wired q.basis.schema q.forest.nodes q.scope)
    (after : Wired r.basis.schema r.forest.nodes r.scope) {s : QueryStep} (h : q.step s = .ok r)
    (advances : q.advances s = true) {i k j : Nat} (hi : r.forest.EndsAt i k)
    (hj : r.forest.EndsAt j j) (less : j < i) : j ≤ k := by
  have ext := Extends.of_step h
  have grown := size_step w h
  obtain ⟨n, hn⟩ := hi.exists_node
  have inside : i < r.forest.size := (List.getElem?_eq_some_iff.mp hn).1
  have former := ext.endsAt after hj (by omega)
  by_cases old : i < q.forest.size
  · exact u.roots i k (ext.endsAt after hi old) j former less
  · obtain rfl : i = q.forest.size := by omega
    cases hi with
    | root => exact less.le
    | up found above rest =>
      have below := after.ordered _ _ _ found above
      have upward := ext.endsAt after rest below
      exact newest_of_advances w h advances found above upward former

/-- A step that advances gives a condition to no node but the newest. -/
theorem size_of_conditions (w : Wired q.basis.schema q.forest.nodes q.scope) {s : QueryStep}
    (h : q.step s = .ok r) (advances : q.advances s = true) {i : Nat} {n : ForestNode}
    (hn : q.forest.nodes[i]? = some n) (given : s.conditionsOf n.label ≠ []) :
    r.forest.size ≤ i + 1 := by
  have named := w.named i n hn
  cases s with
  | joinEntity base entity label mode on =>
    obtain ⟨-, -, -, -, -, -, -, -, free, -, -⟩ := joinEntity_ok_iff.mp h
    have own : label = n.label := QueryStep.label_eq_of_given given
    rw [own, named] at free
    cases free
  | on label c =>
    have own : label = n.label := QueryStep.label_eq_of_given given
    rw [Query.advances, own, nodeOf_ok_iff.mpr named] at advances
    have newest : i + 1 = q.forest.size := by simpa using advances
    have same := size_of_quiet w h rfl
    omega
  | _ => exact absurd rfl given

theorem Upright.reads_step (u : q.Upright) (s : q.Settled) (after : r.Settled) {step : QueryStep}
    (plain : step.Plain) (h : q.step step = .ok r) (advances : q.advances step = true) {i : Nat}
    {n : ForestNode} (hn : r.forest.nodes[i]? = some n) {p : Predicate} (hp : p ∈ n.on) :
    p.All fun e => e.Built (r.ReadsBelow (i + 1)) := by
  have ext := Extends.of_step h
  -- what is bound now reads no node behind the last, which is this one
  have fresh : ∀ {label : String} {added : List Predicate}, r.forest.size ≤ i + 1 →
      (step.conditionsOf label).mapM r.readCondition = .ok added → p ∈ added →
      p.All fun e => e.Built (r.ReadsBelow (i + 1)) := by
    intro label added last read there
    obtain ⟨c, hc, bound⟩ := Outcome.mem_of_mapM_ok read there
    have plainly : c.Plain := by
      cases step with
      | joinEntity base entity other mode on =>
        rw [QueryStep.conditionsOf] at hc
        split at hc
        · exact plain c hc
        · cases hc
      | on other condition =>
        rw [QueryStep.conditionsOf] at hc
        split at hc
        · obtain rfl := List.mem_singleton.mp hc
          exact plain
        · cases hc
      | _ => cases hc
    have binds := readCondition_binds bound plainly.all
    have reads : ∀ e, r.Binds Expression.Plain e → e.Built (r.ReadsBelow (i + 1)) := by
      intro e he
      refine (after.binds_built he).mono ?_
      intro a known
      exact (after.readsBelow known).mono (.refl r) last
    exact ⟨reads _ binds.1, reads _ binds.2⟩
  rcases on_step s.wired h hn with ⟨m, added, hm, rfl, read⟩ | ⟨free, read⟩
  · rcases List.mem_append.mp hp with old | new
    · obtain ⟨left, right⟩ := u.reads i m hm p old
      have kept : ∀ a, q.ReadsBelow (i + 1) a → r.ReadsBelow (i + 1) a :=
        fun a reads => reads.mono ext (Nat.le_refl _)
      exact ⟨left.mono kept, right.mono kept⟩
    · refine fresh (size_of_conditions s.wired h advances hm ?_) read new
      obtain ⟨c, hc, -⟩ := Outcome.mem_of_mapM_ok read new
      exact List.ne_nil_of_mem hc
  · have grown := size_step s.wired h
    have new : ¬ i < q.forest.size := by
      intro old
      obtain ⟨m, hm⟩ : ∃ m, q.forest.nodes[i]? = some m := ⟨_, List.getElem?_eq_getElem old⟩
      obtain ⟨k, hk, same⟩ := ext.node hm
      cases hn.symm.trans hk
      rw [(ForestNode.bare_eq_iff.mp same).2.1, s.wired.named i m hm] at free
      cases free
    exact fresh (by omega) read hp

theorem Settled.step (s : q.Settled) {step : QueryStep} (plain : step.Plain)
    (h : q.step step = .ok r) : r.Settled :=
  grown_keeps (fun _ _ s grows => grows.settled s) s (step_grows plain.all h)

theorem Upright.step (u : q.Upright) (s : q.Settled) {step : QueryStep} (plain : step.Plain)
    (h : q.step step = .ok r) (advances : q.advances step = true) : r.Upright := by
  have after := s.step plain h
  constructor
  · intro i k hi j hj less
    exact u.roots_step s.wired after.wired h advances hi hj less
  · intro i n hn p hp
    exact u.reads_step s after plain h advances hn hp

theorem Upright.run (u : q.Upright) (s : q.Settled) {steps : List QueryStep}
    (plain : ∀ step ∈ steps, step.Plain) (forward : q.forward steps = true) :
    (q.run steps).Upright ∧ (q.run steps).Settled := by
  induction steps generalizing q with
  | nil => exact ⟨u, s⟩
  | cons step rest ih =>
    obtain ⟨first, others⟩ := List.forall_mem_cons.mp plain
    rw [Query.run, List.foldl_cons, attempt]
    rw [Query.forward] at forward
    cases h : q.step step with
    | error err =>
      rw [h] at forward
      exact ih u s others forward
    | ok r =>
      rw [h] at forward
      obtain ⟨advances, onward⟩ := Bool.and_eq_true_iff.mp forward
      exact ih (u.step s first h advances) (s.step first h) others onward

theorem upright_empty (basis : QueryBasis) : (empty basis).Upright where
  roots i k h := by
    cases h with
    | root hn => cases hn
    | up hn => cases hn
  reads i n hn := by cases hn

theorem upright_of_start {basis : QueryBasis} {entity label : String} {first : Query}
    (h : start basis entity label = .ok first) {steps : List QueryStep}
    (plain : ∀ step ∈ steps, step.Plain) (forward : first.forward steps = true) :
    (first.run steps).Upright := by
  have started : (empty basis).step (.root entity label) = .ok first := h
  have rooted : QueryStep.Plain (.root entity label) := trivial
  have settled : first.Settled := (settled_empty basis).step rooted started
  have upright : first.Upright :=
    (upright_empty basis).step (settled_empty basis) rooted started rfl
  exact (upright.run settled plain forward).1

theorem Upright.looksBack (u : q.Upright) (w : Wired q.basis.schema q.forest.nodes q.scope)
    (s : q.Selected) (o : InOrder q.items) : q.LooksBack := by
  intro m hm n hn refers
  obtain ⟨i, hi⟩ := List.mem_iff_getElem?.mp hn
  have number := w.numbered i n hi
  have below : m.id < i + 1 := by
    obtain ⟨p, hp, side, hside, expanded, expands, a, x, reaches, stands, bound⟩ := refers
    obtain ⟨left, right⟩ := u.reads i n hi p hp
    have built : side.Built (q.ReadsBelow (i + 1)) := by
      rcases hside with rfl | rfl
      · exact left
      · exact right
    have stays := built.mono fun a reads => ReadsBelow.standsBelow reads
    exact standsBelow_expand s o stays expands reaches x m.id stands bound
  obtain ⟨k, hk⟩ := w.ranked.exists_endsAt hm
  obtain ⟨l, hl⟩ := w.ranked.exists_endsAt hn
  apply (noLater_iff w hm hn hk hl).mpr
  have top := hk.le w
  by_cases inner : k < n.id
  · obtain ⟨root, hroot, isRoot⟩ := hk.exists_root
    have own : q.forest.EndsAt k k := .root hroot (ForestNode.parent?_eq_none_iff.mpr isRoot)
    have order := u.roots n.id l hl k own inner
    omega
  · have same : m.id = n.id := by omega
    rw [same] at hk
    have roots := hk.unique hl
    omega

/-- The FROM clause declares every node once, among them all that its conditions refer to, and
where it does is given by the order in which roots and nodes were added. -/
structure Arranges (q : Query) : Prop where
  text : q.fromText = (q.segments.mapM q.segmentText).map (String.intercalate ", ")
  once : q.declared.Nodup ∧ ∀ n, n ∈ q.declared ↔ n ∈ q.forest.nodes
  referred : ∀ n ∈ q.forest.nodes, ∀ t, q.joinText n = .ok t →
    ∀ i, q.RefersTo n i → ∃ m ∈ q.declared, m.id = i
  place : ∀ m ∈ q.forest.nodes, ∀ n ∈ q.forest.nodes, ∃ k l,
    q.forest.EndsAt m.id k ∧ q.forest.EndsAt n.id l ∧
      (q.NoLater m n ↔ k < l ∨ k = l ∧ m.id ≤ n.id)

theorem arranges (w : Wired q.basis.schema q.forest.nodes q.scope) : q.Arranges where
  text := (lists_below w).text
  once := ⟨declared_nodup w, fun _ => mem_declared w⟩
  referred n _ t ht i refers := by
    obtain ⟨m, hm⟩ := refersTo_joined ht refers
    exact ⟨m, (mem_declared w).mpr (List.mem_of_getElem? hm), w.numbered i m hm⟩
  place m hm n hn := by
    obtain ⟨k, hk⟩ := w.ranked.exists_endsAt hm
    obtain ⟨l, hl⟩ := w.ranked.exists_endsAt hn
    exact ⟨k, l, hk, hl, noLater_iff w hm hn hk hl⟩

/-- Of every query that is built: an alias that a condition refers to is declared no later than the
condition stands exactly if its root is an earlier one, or it is the same and the alias was added
no later. It is so wherever each step works at the end of the text. -/
theorem references_run {basis : QueryBasis} {entity label : String} {first : Query}
    (h : start basis entity label = .ok first) (steps : List QueryStep) :
    let q := first.run steps
    q.Arranges ∧ ((∀ s ∈ steps, s.Plain) → first.forward steps = true → q.LooksBack) := by
  intro q
  have w := wired_of_start h steps
  refine ⟨arranges w, ?_⟩
  intro plain forward
  have upright : q.Upright := upright_of_start h plain forward
  exact upright.looksBack w (selected_of_start h steps) (inOrder_of_start h steps)

/-- A second root comes after the joins of the first, and an entity is joined to what stands
before. -/
theorem references_run_documents :
    let steps : List QueryStep :=
      [.join "d.owner" "o" .left false, .on "o" (.text "o.name = d.name"), .root "Person" "p",
        .joinEntity "p" "Document" "e" .left [.text "e.owner = o"], .on "d" (.text "d.id = e.id"),
        .on "e" (.predicate (.equality (.call "SIZE" [.ofPathText "d.partners"]) (.literal (.int 1))))]
    let q := ofDocuments.run steps
    start .ofDocuments "Document" "d" = .ok ofDocuments ∧ (∀ s ∈ steps, s.Plain) ∧
      ofDocuments.forward steps = true ∧ q.Arranges ∧ q.LooksBack ∧
      q.fromText = .ok ("Document d LEFT JOIN d.owner o ON o.name = d.name, " ++
        "Person p LEFT JOIN Document e ON e.owner = o AND (SELECT COUNT(d_partners) " ++
        "FROM Document d_base LEFT JOIN d_base.partners d_partners WHERE d_base.id = d.id) = 1") := by
  intro steps q
  have counted : Expression.Plain (.call "SIZE" [.ofPathText "d.partners"]) := by
    refine .call ?_
    intro e he
    obtain rfl := List.mem_singleton.mp he
    exact Expression.plain_ofPathText "d.partners"
  have plain : ∀ s ∈ steps, s.Plain := by
    simp only [steps, List.forall_mem_cons]
    refine ⟨trivial, trivial, trivial, fun c hc => List.mem_singleton.mp hc ▸ trivial, trivial,
      ⟨counted, .literal _⟩, ?_⟩
    intro s hs
    cases hs
  have forward : ofDocuments.forward steps = true := by decide +kernel
  obtain ⟨arranges, looksBack⟩ := references_run start_ofDocuments steps
  exact ⟨start_ofDocuments, plain, forward, arranges, looksBack plain forward, by decide +kernel⟩

/-- A condition that reads a later node below the same root stands before the alias of it. -/
theorem not_looksBack (w : Wired q.basis.schema q.forest.nodes q.scope) {i j k : Nat}
    (later : i < j) (hi : q.forest.rootAbove i = .ok k) (hj : q.forest.rootAbove j = .ok k)
    (read : q.forest.nodes[i]?.any (fun n => n.on.any fun p => p.right.node? == some j) = true) :
    ¬ q.LooksBack := by
  intro looksBack
  have first := JoinForest.endsAt_of_rootWithin hi
  have second := JoinForest.endsAt_of_rootWithin hj
  obtain ⟨n, hn⟩ := first.exists_node
  obtain ⟨m, hm⟩ := second.exists_node
  have refers : q.RefersTo n m.id := by
    rw [hn] at read
    obtain ⟨p, hp, node⟩ := List.any_eq_true.mp read
    rw [w.numbered j m hm]
    exact refersTo_of_node? hp (by simpa using node)
  rw [← w.numbered i n hn] at first
  rw [← w.numbered j m hm] at second
  have place := (noLater_iff w (List.mem_of_getElem? hm) (List.mem_of_getElem? hn) second first).mp
    (looksBack m (List.mem_of_getElem? hm) n (List.mem_of_getElem? hn) refers)
  rw [w.numbered i n hn, w.numbered j m hm] at place
  omega

/-- A condition that is given late refers to a later join of the same root. -/
theorem references_late :
    let steps : List QueryStep :=
      [.join "d.owner" "o" .left false, .join "d.partners" "s" .left false,
        .on "o" (.text "o.name = s.name")]
    let q := ofDocuments.run steps
    start .ofDocuments "Document" "d" = .ok ofDocuments ∧
      q.text = .ok ("SELECT d FROM Document d LEFT JOIN d.owner o ON o.name = s.name " ++
        "LEFT JOIN d.partners s") ∧ ¬ q.LooksBack := by
  intro steps q
  have w := wired_of_start start_ofDocuments steps
  have late : ¬ (ofDocuments.run steps).LooksBack :=
    not_looksBack w (Nat.lt_succ_self 1) (k := 0) (by decide +kernel) (by decide +kernel)
      (by decide +kernel)
  exact ⟨start_ofDocuments, by decide +kernel, late⟩

end Query
end EntityQuery
