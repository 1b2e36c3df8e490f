import EntityQuery.Proofs.Query.Renaming

/-!
# The text of a query with marked aliases

A mark is written before every join alias and nowhere else. So the query of simple expressions
whose aliases have the mark in their names is written in the same way: its nodes have the names
that the other one writes, and its select aliases lead to the same nodes.
-/

namespace EntityQuery

theorem Condition.simple_text (s : String) :
    (text s).All (Expression.Simple fun p => p.node = none) :=
  all_text .literal (fun name value => .parameter (some name) value) (fun _ => .path rfl) s

namespace Query
variable {q r : Query}

theorem bind_simple (w : Wired q.basis.schema q.forest.nodes q.scope) {e b : Expression}
    (simple : e.Simple fun p => p.node = none) (h : q.bind e = .ok b) : b.Simple q.Knows := by
  induction simple generalizing b with
  | path free =>
    obtain ⟨c, rfl, known⟩ := bind_path_known w free h
    exact .path known
  | @call f as size dynamic inside ih =>
    obtain ⟨bs, rfl, hbs⟩ := bind_call_ok h
    refine .call size ?called fun c hc => ?argument
    case called =>
      intro form b hb
      obtain ⟨a, ha, hab⟩ := Outcome.head_of_mapM_ok hbs hb
      obtain ⟨s, rfl⟩ := dynamic form a ha
      cases hab
      exact ⟨s, rfl⟩
    case argument =>
      obtain ⟨a, ha, hac⟩ := Outcome.mem_of_mapM_ok hbs hc
      -- An argument that is a path is marked before it is bound.
      cases inside a ha with
      | @path p free =>
        obtain ⟨d, rfl, known⟩ := bind_path_known w ((Wrapping.node_mark _ p).trans free) hac
        exact .path known
      | _ => exact ih _ ha hac
  | parameter name value =>
    cases h
    exact .parameter name value
  | element base index =>
    cases h
    exact .element base index
  | literal l =>
    cases h
    exact .literal l

/-- Nodes, aliases and items fit together, and what the query holds is simple and known. -/
structure Simple (q : Query) : Prop where
  wired : Wired q.basis.schema q.forest.nodes q.scope
  selected : q.Selected
  known : ∀ clause e, q.Holds clause e → e.Simple q.Knows

theorem simple_empty (basis : QueryBasis) : (empty basis).Simple where
  wired := wired_empty basis
  selected := selected_empty basis
  known _ _ h := absurd h not_holds_empty

theorem Grows.simple (h : Grows (Expression.Simple fun p => p.node = none) q r) (s : q.Simple) :
    r.Simple where
  wired := h.wired s.wired
  selected := h.selected s.selected
  known clause e he := by
    have ext := Extends.of_grows h
    rcases h.holds he with old | ⟨source, simple, binds⟩
    · exact (s.known clause e old).mono fun _ => ext.knows
    · exact (bind_simple s.wired simple binds).mono fun _ => ext.knows

theorem simple_build {basis : QueryBasis} {steps : List QueryStep}
    (h : (empty basis).build steps = .ok q)
    (simple : ∀ s ∈ steps, s.All (Expression.Simple fun p => p.node = none)) : q.Simple := by
  have grown := run_grows (empty basis) simple
  rw [run_of_build h] at grown
  exact grown_keeps (fun _ _ s grows => grows.simple s) (simple_empty basis) grown

theorem clauseText_simple {K : Path → Prop} {e : Expression} (h : e.Simple K) (clause : Clause) :
    q.clauseText clause e = q.renderer.render e := by
  rw [clauseText, SizeExpansion.transform, SizeExpansion.expand_simple h]
  split <;> rfl

theorem predicateText_simple {K : Path → Prop} {p : Predicate} (h : p.All (Expression.Simple K))
    (clause : Clause) : q.predicateText clause p = q.renderer.renderCondition p := by
  have same : ∀ {e : Expression}, e.Simple K → q.sizeExpansion.transform clause e = .ok e := by
    intro e he
    rw [SizeExpansion.transform, SizeExpansion.expand_simple he]
    split <;> rfl
  rw [predicateText, Predicate.mapSides, same h.1, same h.2]
  rfl

namespace Simple

theorem alias_known (s : q.Simple) {label : String} {p : Path}
    (h : q.scope.pathOf? label = some p) : q.Knows p := by
  have item := (s.selected.items label _).mp (AliasScope.pathOf?_eq_some_iff.mp h)
  cases s.known .select _ ⟨_, item, rfl⟩ with
  | path known => exact known

theorem follow_known (s : q.Simple) {fuel : Nat} {p x : Path} (known : q.Knows p)
    (h : q.scope.follow fuel p = some x) : q.Knows x := by
  induction fuel generalizing p with
  | zero => cases h
  | succ fuel ih =>
    rw [AliasScope.follow] at h
    split at h
    · rename_i a _ ha
      split at h
      · exact ih (s.alias_known ha) h
      · cases h
        exact known
    · cases h
      exact known

theorem standsFor_known (s : q.Simple) {p x : Path} (known : q.Knows p)
    (h : q.renderer.standsFor p = .ok x) : q.Knows x := by
  rw [Renderer.standsFor] at h
  split at h
  · rw [AliasScope.resolve] at h
    split at h
    · rename_i followed
      cases h
      exact s.follow_known known followed
    · cases h
  · cases h
    exact known

end Simple

namespace Renamed
variable {m : Marking} (h : q.Renamed m r)
include h

theorem marked {label : String} (joined : label ∈ m.joins) :
    r.marked (m.rename label) = q.marked label := by
  rw [Query.marked, Query.marked, h.basis, h.mark, Marking.rename_join joined]
  exact String.empty_append

theorem text_item {p : Path} {e : Expression} (he : q.scope.find? p.text = some (.item e)) :
    (p.rename m.rename).text = p.text := by
  rw [Path.text_rename, Marking.renameHead_item (h.labels _ _ he)]

theorem pathOf? {label : String} {e : Expression} (he : q.scope.find? label = some (.item e)) :
    r.scope.pathOf? label = (q.scope.pathOf? label).map (Path.rename m.rename) := by
  rw [AliasScope.pathOf?, AliasScope.pathOf?, h.find_item he, he]
  cases e <;> rfl

/-- Aliases lead on in the same steps. -/
theorem follow (s : q.Simple) {p : Path} (known : q.Knows p) (fuel : Nat) :
    r.scope.follow fuel (p.rename m.rename) =
      (q.scope.follow fuel p).map (Path.rename m.rename) := by
  induction fuel generalizing p with
  | zero => rfl
  | succ fuel ih =>
    -- Only an alias of an item leads on, and to a path that is known again.
    cases known with
    | node bound | field bound =>
      have still : (p.rename m.rename).node = _ := (Path.node_rename p).trans bound
      rw [AliasScope.follow_bound bound, AliasScope.follow_bound still]
      rfl
    | item free he =>
      rw [AliasScope.follow, AliasScope.follow, Path.node_rename, free, h.text_item he,
        h.pathOf? he]
      cases ha : q.scope.pathOf? p.text with
      | none => rfl
      | some a =>
        have onward : ((a.rename m.rename).node.isSome || (a.rename m.rename).text != p.text) =
            (a.node.isSome || a.text != p.text) := by
          rw [Path.node_rename]
          cases s.alias_known ha with
          | node bound | field bound => simp only [bound, Option.isSome_some, Bool.true_or]
          | item _ next => rw [h.text_item next]
        simp only [Option.map_some, onward]
        split
        · exact ih (s.alias_known ha)
        · rfl

theorem resolve (s : q.Simple) {p : Path} (known : q.Knows p) :
    r.scope.resolve (p.rename m.rename) = (q.scope.resolve p).map (Path.rename m.rename) := by
  rw [AliasScope.resolve, AliasScope.resolve, h.size, h.follow s known]
  cases hx : q.scope.follow (q.scope.size + 1) p with
  | some x => rfl
  | none =>
    cases known with
    | node bound | field bound => cases (AliasScope.follow_bound bound _).symm.trans hx
    | item free he => exact congrArg (Except.error ∘ QueryError.aliasEndless) (h.text_item he)

/-- The renderers differ in aliases, nodes and the mark. -/
theorem renderer :
    r.renderer = { q.renderer with scope := r.scope, forest := r.forest, aliasMark := none } := by
  rw [Query.renderer, h.basis, h.parameters]
  rfl

theorem standsFor (s : q.Simple) {p : Path} (known : q.Knows p) :
    r.renderer.standsFor (p.rename m.rename) =
      (q.renderer.standsFor p).map (Path.rename m.rename) := by
  have resolves : r.renderer.resolveAliases = q.renderer.resolveAliases := by
    rw [h.renderer]
  rw [Renderer.standsFor, Renderer.standsFor, resolves]
  split
  · exact h.resolve s known
  · rfl

theorem label_joined (s : q.Simple) {i : Nat} {n : ForestNode}
    (hn : q.forest.nodes[i]? = some n) : n.label ∈ m.joins :=
  h.joins n.label i (s.wired.named i n hn)

theorem boundPath {p : Path} {n : ForestNode} (joined : n.label ∈ m.joins) :
    r.renderer.boundPath (p.rename m.rename) (n.rename m.rename) = q.renderer.boundPath p n := by
  have label : r.renderer.aliasMark.getD "" ++ (n.rename m.rename).label =
      q.renderer.aliasMark.getD "" ++ n.label := h.marked joined
  have value : r.renderer.valueFunction? (p.rename m.rename) (n.rename m.rename) =
      q.renderer.valueFunction? p n := by
    have profile : r.renderer.profile = q.renderer.profile := by rw [h.renderer]
    rw [Renderer.valueFunction?, Renderer.valueFunction?, Path.keyed_rename, Path.field_rename,
      Path.wrapped_rename, profile]
    rfl
  rw [Renderer.boundPath, Renderer.boundPath, label, value, Path.field_rename]

theorem written (s : q.Simple) {p : Path} (known : q.Knows p) :
    r.renderer.written (p.rename m.rename) = q.renderer.written p := by
  cases known with
  | node bound hn | field bound hn =>
    rw [Renderer.written_bound bound (JoinForest.node_ok_iff.mpr hn),
      Renderer.written_bound ((Path.node_rename p).trans bound)
        (JoinForest.node_ok_iff.mpr (h.node hn)), h.boundPath (h.label_joined s hn)]
  | item free he =>
    rw [Renderer.written, Renderer.written, Path.node_rename, free, h.text_item he]

theorem mirrors (s : q.Simple) : r.renderer.Mirrors q.renderer m.rename q.Knows where
  profile := by rw [h.renderer]
  functions := by rw [h.renderer]
  parameters := by rw [h.renderer]
  path p known := by
    rw [Renderer.path_eq, Renderer.path_eq, h.standsFor s known]
    cases hx : q.renderer.standsFor p with
    | error e => rfl
    | ok x => exact h.written s (s.standsFor_known known hx)

/-! Each part of the text is the same. -/

open Outcome (SameOk)

theorem clauseText (s : q.Simple) (clause : Clause) {e : Expression} (he : q.Holds clause e) :
    SameOk (r.clauseText clause (e.rename m.rename)) (q.clauseText clause e) := by
  have simple := s.known clause e he
  have renamed : (e.rename m.rename).Simple fun _ => True := simple.rename fun _ _ => trivial
  rw [clauseText_simple simple, clauseText_simple renamed]
  exact (h.mirrors s).render simple

theorem predicateText (s : q.Simple) (clause : Clause) {p : Predicate}
    (left : q.Holds clause p.left) (right : q.Holds clause p.right) :
    SameOk (r.predicateText clause (p.rename m.rename)) (q.predicateText clause p) := by
  have simple : p.All (Expression.Simple q.Knows) :=
    ⟨s.known clause p.left left, s.known clause p.right right⟩
  have renamed : (p.rename m.rename).All (Expression.Simple fun _ => True) :=
    ⟨simple.1.rename fun _ _ => trivial, simple.2.rename fun _ _ => trivial⟩
  rw [predicateText_simple simple, predicateText_simple renamed]
  refine ((h.mirrors s).render simple.1).bind fun x => ?_
  exact ((h.mirrors s).render simple.2).bind fun y => .of_eq rfl

theorem itemText (s : q.Simple) {i : SelectedItem} (hi : i ∈ q.items) :
    SameOk (r.itemText (i.rename m.rename)) (q.itemText i) :=
  (h.clauseText s .select ⟨i, hi, rfl⟩).bind fun _ => .of_eq rfl

theorem roots : r.forest.roots = q.forest.roots.map (ForestNode.rename m.rename) := by
  rw [h.forest, JoinForest.roots_map]
  exact fun _ => rfl

theorem marked_root (s : q.Simple) {n : ForestNode} (hn : n ∈ q.forest.roots) :
    r.marked (n.rename m.rename).label = q.marked n.label := by
  obtain ⟨i, hi⟩ := List.mem_iff_getElem?.mp (List.mem_filter.mp hn).1
  exact h.marked (h.label_joined s hi)

theorem selectText (s : q.Simple) : SameOk r.selectText q.selectText := by
  have labels : r.forest.roots.map (fun n => r.marked n.label) =
      q.forest.roots.map fun n => q.marked n.label := by
    rw [h.roots, List.map_map]
    exact List.map_congr_left fun n hn => h.marked_root s hn
  rw [Query.selectText, Query.selectText, labels, h.items, List.isEmpty_map]
  split
  · exact .of_eq rfl
  · exact (SameOk.mapM_map fun i hi => h.itemText s hi).bind fun texts => .of_eq rfl

theorem joinedText (s : q.Simple) {i : Nat} {n : ForestNode} (hn : q.forest.nodes[i]? = some n) :
    r.joinedText (n.rename m.rename) = q.joinedText n := by
  have origin : (n.rename m.rename).origin = n.origin := rfl
  rw [Query.joinedText, Query.joinedText, origin]
  cases horigin : n.origin with
  | root => rfl
  | entity parent => rfl
  | relation parent relation =>
    obtain ⟨p, -, hp, -⟩ := s.wired.relations i n parent relation hn horigin
    have label := h.marked (h.label_joined s hp)
    dsimp only
    rw [JoinForest.node_ok_iff.mpr hp, JoinForest.node_ok_iff.mpr (h.node hp)]
    exact congrArg (fun t => Except.ok s!"{t}.{relation.name}") label

theorem joinText (s : q.Simple) {i : Nat} {n : ForestNode} (hn : q.forest.nodes[i]? = some n) :
    SameOk (r.joinText (n.rename m.rename)) (q.joinText n) := by
  have mem := List.mem_of_getElem? hn
  have conditions : SameOk
      ((n.on.map (Predicate.rename m.rename)).mapM (r.predicateText .join))
      (n.on.mapM (q.predicateText .join)) :=
    .mapM_map fun p hp =>
      h.predicateText s .join ⟨n, mem, p, hp, Or.inl rfl⟩ ⟨n, mem, p, hp, Or.inr rfl⟩
  have label : r.marked (n.rename m.rename).label = q.marked n.label :=
    h.marked (h.label_joined s hn)
  rw [Query.joinText, Query.joinText, h.joinedText s hn, label]
  exact (SameOk.of_eq rfl).bind fun joined => conditions.bind fun on => .of_eq rfl

theorem joinUnder (s : q.Simple) (root : Nat) {n : ForestNode} (hn : n ∈ q.forest.nodes) :
    SameOk (r.joinUnder root (n.rename m.rename)) (q.joinUnder root n) := by
  obtain ⟨i, hi⟩ := List.mem_iff_getElem?.mp hn
  have above : r.forest.rootAbove (n.rename m.rename).id = q.forest.rootAbove n.id := by
    rw [h.forest]
    exact q.forest.rootWithin_map (f := ForestNode.rename m.rename) (fun _ => rfl) _ _
  have isRoot : (n.rename m.rename).isRoot = n.isRoot := rfl
  rw [Query.joinUnder, Query.joinUnder, above, isRoot]
  split
  · exact .of_eq rfl
  · refine (SameOk.of_eq rfl).bind fun top => ?_
    split
    · exact h.joinText s hi
    · exact .of_eq rfl

theorem rootText (s : q.Simple) {root : ForestNode} (hroot : root ∈ q.forest.roots) :
    SameOk (r.rootText (root.rename m.rename)) (q.rootText root) := by
  have joins : SameOk (r.forest.nodes.mapM (r.joinUnder root.id))
      (q.forest.nodes.mapM (q.joinUnder root.id)) := by
    rw [h.forest]
    exact .mapM_map fun n hn => h.joinUnder s root.id hn
  rw [Query.rootText, Query.rootText, h.marked_root s hroot]
  exact joins.bind fun texts => .of_eq rfl

theorem fromText (s : q.Simple) : SameOk r.fromText q.fromText := by
  rw [Query.fromText, Query.fromText, h.roots]
  exact (SameOk.mapM_map fun n hn => h.rootText s hn).bind fun texts => .of_eq rfl

theorem orderText (s : q.Simple) {o : Expression × Bool} (ho : o ∈ q.orders) :
    SameOk (r.orderText (o.1.rename m.rename, o.2)) (q.orderText o) :=
  (h.clauseText s .orderBy ⟨o, ho, rfl⟩).bind fun _ => .of_eq rfl

theorem text (s : q.Simple) : SameOk r.text q.text := by
  have conditions : SameOk (r.conditions.mapM (r.predicateText .restriction))
      (q.conditions.mapM (q.predicateText .restriction)) := by
    rw [h.conditions]
    exact .mapM_map fun p hp =>
      h.predicateText s .restriction ⟨p, hp, Or.inl rfl⟩ ⟨p, hp, Or.inr rfl⟩
  have groups : SameOk (r.groups.mapM (r.clauseText .groupBy))
      (q.groups.mapM (q.clauseText .groupBy)) := by
    rw [h.groups]
    exact .mapM_map fun e he => h.clauseText s .groupBy he
  have orders : SameOk (r.orders.mapM r.orderText) (q.orders.mapM q.orderText) := by
    rw [h.orders]
    exact .mapM_map fun o ho => h.orderText s ho
  rw [Query.text, Query.text]
  refine (h.selectText s).bind fun items => (h.fromText s).bind fun roots => ?_
  refine conditions.bind fun restricted => groups.bind fun grouped => ?_
  exact orders.bind fun ordered => .of_eq rfl

end Renamed

/-- To mark the join aliases of a query is to build it with marked names: the renamed steps do not
fail either, and both queries have the same text or none. -/
theorem text_marked {basis : QueryBasis} {mark : String} (marked : basis.aliasMark = some mark)
    {steps : List QueryStep} {q : Query} (built : (empty basis).build steps = .ok q)
    (simple : ∀ s ∈ steps, s.All (Expression.Simple fun p => p.node = none))
    (identifier : ∀ a ∈ joinAliases steps, Text.isIdentifier (mark ++ a) = true)
    (apart : ∀ a ∈ joinAliases steps, mark ++ a ∉ itemAliases steps) :
    ∃ r, (empty { basis with aliasMark := none }).build
        (steps.map (·.rename (withMark mark (joinAliases steps)))) = .ok r ∧
      ∀ t, q.text = .ok t ↔ r.text = .ok t := by
  let m : Marking := .ofBuild built identifier apart
  obtain ⟨r, hr, renamed⟩ := (renamed_empty (m := m) marked).build (fun _ ha => ha)
    (fun _ ha => ha) built
  exact ⟨r, hr, fun t => (renamed.text (simple_build built simple) t).symm⟩

/-- Contacts and persons are joined to documents, and a select alias is used in two clauses. -/
theorem text_marked_documents :
    let basis : QueryBasis := { QueryBasis.ofDocuments with aliasMark := some "x_" }
    let steps : List QueryStep :=
      [.root "Document" "d", .join "d.contacts" "c" .left false,
        .on "c" (.text "c.name = :name"),
        .joinEntity "d" "Person" "p" .inner [.text "p.id = d.id"],
        .selectByPath "c.name" (some "n"),
        .select (.call "FUNCTION" [.literal (.text "initials"), .ofPathText "p.name"]) none,
        .groupBy (.ofPathText "n"), .orderBy (.ofPathText "n") false]
    let q := (empty basis).run steps
    basis.aliasMark = some "x_" ∧ (empty basis).build steps = .ok q ∧
      (∀ s ∈ steps, s.All (Expression.Simple fun p => p.node = none)) ∧
      (∀ a ∈ joinAliases steps, Text.isIdentifier ("x_" ++ a) = true) ∧
      (∀ a ∈ joinAliases steps, "x_" ++ a ∉ itemAliases steps) ∧
      (∃ r, (empty { basis with aliasMark := none }).build
          (steps.map (·.rename (withMark "x_" (joinAliases steps)))) = .ok r ∧
        ∀ t, q.text = .ok t ↔ r.text = .ok t) ∧
      q.text = .ok ("SELECT VALUE(x_c).name AS n, initials(x_p.name) FROM Document x_d " ++
        "LEFT JOIN x_d.contacts x_c ON VALUE(x_c).name = :name " ++
        "JOIN Person x_p ON x_p.id = x_d.id GROUP BY VALUE(x_c).name " ++
        "ORDER BY VALUE(x_c).name DESC") := by
  intro basis steps q
  have built : (empty basis).build steps = .ok q := build_eq_run (by decide +kernel)
  have simple : ∀ s ∈ steps, s.All (Expression.Simple fun p => p.node = none) := by
    intro s hs
    simp only [steps, List.mem_cons, List.not_mem_nil, or_false] at hs
    rcases hs with rfl | rfl | rfl | rfl | rfl | rfl | rfl | rfl
    · trivial
    · trivial
    · exact Condition.simple_text _
    · exact List.forall_mem_singleton.mpr (Condition.simple_text _)
    · exact .path rfl
    · refine .call (by decide) ?_ ?_
      · intro _ a ha
        obtain rfl := Option.some.inj ha
        exact ⟨_, rfl⟩
      · exact List.forall_mem_cons.mpr ⟨.literal _, List.forall_mem_singleton.mpr (.path rfl)⟩
    · exact .path rfl
    · exact .path rfl
  have identifier : ∀ a ∈ joinAliases steps, Text.isIdentifier ("x_" ++ a) = true := by
    decide +kernel
  have apart : ∀ a ∈ joinAliases steps, "x_" ++ a ∉ itemAliases steps := by decide +kernel
  exact ⟨rfl, built, simple, identifier, apart,
    text_marked rfl built simple identifier apart, by decide +kernel⟩

end Query
end EntityQuery
