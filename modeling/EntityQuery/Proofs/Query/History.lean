import EntityQuery.Proofs.Query.Wiring

/-!
# Where the nodes and their conditions come from

A query forgets the steps that built it. Its nodes are those that the successful steps added, in
the same order, and the conditions of a node are those that the steps gave to its alias, in the
same order: each step adds at the end, and no step takes anything away.
-/

namespace EntityQuery

namespace QueryStep

def addsNode : QueryStep → Bool
  | .root .. | .join .. | .joinEntity .. => true
  | _ => false

/-- The conditions that a step gives to the node of an alias. -/
def conditionsOf (label : String) : QueryStep → List Condition
  | .joinEntity _ _ l _ conditions => if l = label then conditions else []
  | .on l c => if l = label then [c] else []
  | _ => []

/-- The two steps that give conditions give them to the alias that they name. -/
theorem label_eq_of_given {l label : String} {conditions : List Condition}
    (given : (if l = label then conditions else []) ≠ []) : l = label := by
  by_contra other
  exact given (if_neg other)

/-- `n` is what the step adds to the nodes. -/
def Makes (nodes : List ForestNode) : QueryStep → ForestNode → Prop
  | .root entity label, n => n.origin = .root ∧ n.entity = entity ∧ n.label = label
  | .join path label mode fetch, n => ∃ i parent relation, nodes[i]? = some parent ∧
      n.origin = .relation i relation ∧ path = parent.label ++ "." ++ relation.name ∧
      n.label = label ∧ n.mode = mode ∧ n.fetch = fetch
  | .joinEntity base entity label mode _, n => ∃ i parent, nodes[i]? = some parent ∧
      n.origin = .entity i ∧ parent.label = base ∧ n.entity = entity ∧ n.label = label ∧
      n.mode = mode ∧ n.fetch = false
  | _, _ => False

theorem Makes.append {nodes : List ForestNode} {s : QueryStep} {n : ForestNode}
    (h : s.Makes nodes n) (more : List ForestNode) : s.Makes (nodes ++ more) n := by
  have old : ∀ {i : Nat} {m : ForestNode}, nodes[i]? = some m → (nodes ++ more)[i]? = some m := by
    intro i m hm
    obtain ⟨hi, -⟩ := List.getElem?_eq_some_iff.mp hm
    rw [List.getElem?_append_left hi, hm]
  cases s with
  | root => exact h
  | join =>
    obtain ⟨i, parent, relation, hparent, rest⟩ := h
    exact ⟨i, parent, relation, old hparent, rest⟩
  | joinEntity =>
    obtain ⟨i, parent, hparent, rest⟩ := h
    exact ⟨i, parent, old hparent, rest⟩
  | _ => exact h

end QueryStep

namespace Query
variable {q r : Query} {s : QueryStep}

/-- The steps that succeed, one after the other. -/
def taken (q : Query) : List QueryStep → List QueryStep
  | [] => []
  | s :: rest =>
    match q.step s with
    | .ok r => s :: r.taken rest
    | .error _ => q.taken rest

/-- The nodes are those that the steps add, and each has the conditions that they give to its
alias. -/
structure History (q : Query) (steps : List QueryStep) : Prop where
  nodes : List.Forall₂ (QueryStep.Makes q.forest.bare) (steps.filter QueryStep.addsNode)
    q.forest.bare
  conditions : ∀ n ∈ q.forest.nodes,
    (steps.flatMap (·.conditionsOf n.label)).mapM q.readCondition = .ok n.on
  named : ∀ label, q.scope.find? label = none → steps.flatMap (·.conditionsOf label) = []

/-- A step that gives no condition and adds no node leaves the forest as it is. -/
theorem forest_step (quiet : s.addsNode = false) (silent : ∀ label, s.conditionsOf label = [])
    (h : q.step s = .ok r) : r.forest = q.forest := by
  cases s with
  | root | join | joinEntity => cases quiet
  | on label c => simpa [QueryStep.conditionsOf] using silent label
  | select e label =>
    obtain ⟨b, -, -, rfl⟩ := select_ok_iff.mp h
    cases label <;> rfl
  | selectByPath text label =>
    rw [step, selectByPath_eq] at h
    obtain ⟨b, -, -, rfl⟩ := select_ok_iff.mp h
    cases label <;> rfl
  | restrict c =>
    obtain ⟨p, -, rfl⟩ := restrict_ok_iff.mp h
    rfl
  | groupBy e =>
    obtain ⟨b, -, rfl⟩ := groupBy_ok_iff.mp h
    rfl
  | orderBy e ascending =>
    obtain ⟨b, -, rfl⟩ := orderBy_ok_iff.mp h
    rfl
  | parameter name value =>
    obtain ⟨-, rfl⟩ := assign_ok_iff.mp h
    rfl
  | skip | take =>
    cases h
    rfl

/-- What a step adds to the nodes. -/
theorem bare_step (w : Wired q.basis.schema q.forest.nodes q.scope) (h : q.step s = .ok r) :
    (s.addsNode = false ∧ r.forest.bare = q.forest.bare) ∨
      (s.addsNode = true ∧ ∃ n, s.Makes q.forest.bare n ∧
        r.forest.bare = q.forest.bare ++ [n]) := by
  have labelled : ∀ {base : String} {i : Nat} {n : ForestNode},
      q.scope.find? base = some (.join i) → q.forest.nodes[i]? = some n → n.label = base := by
    intro base i n hi hn
    obtain ⟨m, hm, label⟩ := w.joins base i hi
    cases hn.symm.trans hm
    exact label
  cases s with
  | root entity label =>
    obtain ⟨-, -, -, rfl⟩ := withRoot_ok_iff.mp h
    exact Or.inr ⟨rfl, _, ⟨rfl, rfl, rfl⟩, bare_putNode ..⟩
  | join path label mode fetch =>
    obtain ⟨base, i, n, a, entity, rfl, -, -, -, hi, hn, -, -, -, rfl⟩ := join_ok_iff.mp h
    refine Or.inr ⟨rfl, _, ⟨i, n.bare, .ofAttribute a, JoinForest.bare_getElem? hn, rfl, ?_, rfl,
      rfl, rfl⟩, bare_putNode ..⟩
    show base ++ "." ++ a.name = n.label ++ "." ++ a.name
    rw [labelled hi hn]
  | joinEntity base entity label mode conditions =>
    obtain ⟨i, n, p, bound, -, -, hi, hn, -, -, rfl⟩ := joinEntity_ok_iff.mp h
    refine Or.inr ⟨rfl, ⟨q.forest.size, label, entity, .entity i, mode, false, []⟩,
      ⟨i, n.bare, JoinForest.bare_getElem? hn, rfl, ?_, rfl, rfl, rfl, rfl⟩, ?_⟩
    · show n.label = base
      exact labelled hi hn
    · rw [JoinForest.bare, nodes_joinEntity, List.map_append]
      rfl
  | on label c =>
    obtain ⟨i, n, p, -, -, hn, -, rfl⟩ := on_ok_iff.mp h
    exact Or.inl ⟨rfl, bare_putConditions hn [p]⟩
  | _ =>
    have same := forest_step rfl (fun _ => rfl) h
    exact Or.inl ⟨rfl, congrArg JoinForest.bare same⟩

/-- What a step adds to the conditions of each node, old or new. -/
theorem on_step (w : Wired q.basis.schema q.forest.nodes q.scope) (h : q.step s = .ok r)
    {j : Nat} {m : ForestNode} (hm : r.forest.nodes[j]? = some m) :
    (∃ n added, q.forest.nodes[j]? = some n ∧ m = { n with on := n.on ++ added } ∧
        (s.conditionsOf n.label).mapM r.readCondition = .ok added) ∨
      q.scope.find? m.label = none ∧
        (s.conditionsOf m.label).mapM r.readCondition = .ok m.on := by
  -- A node that stays as it is takes no condition, as no other node has its label.
  have stays : ∀ {n : ForestNode}, q.forest.nodes[j]? = some n → s.conditionsOf n.label = [] →
      ∃ k added, q.forest.nodes[j]? = some k ∧ n = { k with on := k.on ++ added } ∧
        (s.conditionsOf k.label).mapM r.readCondition = .ok added := by
    intro n hn silent
    refine ⟨n, [], hn, ?_, by rw [silent]; rfl⟩
    rw [List.append_nil]
  cases s with
  | root entity label =>
    obtain ⟨-, -, free, rfl⟩ := withRoot_ok_iff.mp h
    rcases getElem?_append_singleton hm with hm | ⟨-, rfl⟩
    · exact Or.inl (stays hm rfl)
    · exact Or.inr ⟨free, rfl⟩
  | join path label mode fetch =>
    obtain ⟨base, i, n, a, entity, -, -, -, -, -, -, -, -, free, rfl⟩ := join_ok_iff.mp h
    rcases getElem?_append_singleton hm with hm | ⟨-, rfl⟩
    · exact Or.inl (stays hm rfl)
    · exact Or.inr ⟨free, rfl⟩
  | joinEntity base entity label mode conditions =>
    obtain ⟨i, n, p, bound, -, -, -, -, free, hbound, rfl⟩ := joinEntity_ok_iff.mp h
    rw [nodes_joinEntity] at hm
    rcases getElem?_append_singleton hm with old | ⟨-, rfl⟩
    · refine Or.inl (stays old (if_neg ?_))
      rintro rfl
      rw [w.named j m old] at free
      cases free
    · refine Or.inr ⟨free, ?_⟩
      have last := q.getElem?_putNode label entity (.entity i) mode false
      have ext := Extends.putConditions last (p :: bound)
      rw [QueryStep.conditionsOf, if_pos rfl]
      exact Outcome.mapM_ok_iff.mpr
        (Outcome.forall₂_of_mapM_ok hbound fun c _ b hb => ext.readCondition hb)
  | on label c =>
    obtain ⟨i, n, p, hi, hp, hn, -, rfl⟩ := on_ok_iff.mp h
    have own : n.label = label := by
      obtain ⟨k, hk, named⟩ := w.joins label i hi
      cases hn.symm.trans hk
      exact named
    change (q.forest.nodes.set i { n with on := n.on ++ [p] })[j]? = some m at hm
    by_cases same : i = j
    · subst same
      rw [List.getElem?_set_self (List.getElem?_eq_some_iff.mp hn).1] at hm
      obtain rfl := Option.some.inj hm
      refine Or.inl ⟨n, [p], hn, rfl, ?_⟩
      have read := (Extends.putConditions hn [p]).readCondition hp
      rw [QueryStep.conditionsOf, if_pos own.symm]
      exact Outcome.mapM_ok_iff.mpr (.cons read .nil)
    · rw [List.getElem?_set_ne same] at hm
      refine Or.inl (stays hm (if_neg ?_))
      intro named
      have first := w.named j m hm
      rw [← named, hi] at first
      cases first
      exact same rfl
  | _ =>
    have same := forest_step rfl (fun _ => rfl) h
    rw [same] at hm
    exact Or.inl (stays hm rfl)

/-- The alias to whose node a step gives conditions is taken. -/
theorem taken_of_conditions (h : q.step s = .ok r) {label : String}
    (given : s.conditionsOf label ≠ []) : r.scope.find? label ≠ none := by
  cases s with
  | joinEntity base entity l mode conditions =>
    obtain ⟨i, n, p, bound, -, -, -, -, -, -, rfl⟩ := joinEntity_ok_iff.mp h
    obtain rfl : l = label := QueryStep.label_eq_of_given given
    show (q.scope.put l (.join q.forest.size)).find? l ≠ none
    rw [AliasScope.find?_put_self]
    exact nofun
  | on l c =>
    obtain ⟨i, n, p, hi, -, -, -, rfl⟩ := on_ok_iff.mp h
    obtain rfl : l = label := QueryStep.label_eq_of_given given
    show q.scope.find? l ≠ none
    rw [hi]
    exact nofun
  | _ => exact absurd rfl given

theorem History.step {before : List QueryStep} (history : q.History before)
    (w : Wired q.basis.schema q.forest.nodes q.scope) (h : q.step s = .ok r) :
    r.History (before ++ [s]) where
  nodes := by
    rcases bare_step w h with ⟨quiet, same⟩ | ⟨adds, n, makes, same⟩
    · rw [List.filter_append, List.filter_singleton, quiet, same]
      simpa using history.nodes
    · rw [List.filter_append, List.filter_singleton, adds, same]
      refine List.rel_append (history.nodes.imp fun _ _ old => old.append [n]) ?_
      exact .cons (makes.append [n]) .nil
  conditions m hm := by
    have ext := Extends.of_step h
    obtain ⟨j, hj⟩ := List.mem_iff_getElem?.mp hm
    rw [List.flatMap_append, List.flatMap_singleton]
    rcases on_step w h hj with ⟨n, added, hn, rfl, hadded⟩ | ⟨free, hon⟩
    · have old := history.conditions n (List.mem_of_getElem? hn)
      have kept := Outcome.forall₂_of_mapM_ok old fun c _ p hp => ext.readCondition hp
      exact Outcome.mapM_ok_iff.mpr (List.rel_append kept (Outcome.mapM_ok_iff.mp hadded))
    · rw [history.named m.label free, List.nil_append]
      exact hon
  named label free := by
    have ext := Extends.of_step h
    rw [List.flatMap_append, List.flatMap_singleton, List.append_eq_nil_iff]
    constructor
    · refine history.named label ?_
      cases known : q.scope.find? label with
      | none => rfl
      | some t =>
        rw [ext.scope label t known] at free
        cases free
    · by_contra given
      exact taken_of_conditions h given free

theorem History.run {before : List QueryStep} (history : q.History before)
    (w : Wired q.basis.schema q.forest.nodes q.scope) (steps : List QueryStep) :
    (q.run steps).History (before ++ q.taken steps) := by
  induction steps generalizing q before with
  | nil => simpa [Query.run, taken] using history
  | cons s rest ih =>
    rw [Query.run, List.foldl_cons, attempt, taken]
    cases h : q.step s with
    | error e => exact ih history w
    | ok r =>
      have wired : Wired r.basis.schema r.forest.nodes r.scope :=
        grown_keeps (I := fun q => Wired q.basis.schema q.forest.nodes q.scope)
          (fun _ _ w grows => grows.wired w) w (step_grows s.all_true h)
      have longer := ih (history.step w h) wired
      rwa [List.append_assoc] at longer

theorem history_empty (basis : QueryBasis) : (empty basis).History [] where
  nodes := .nil
  conditions _ hn := by cases hn
  named _ _ := rfl

/-- The history of a query is its first root and the steps that succeeded. -/
theorem history_run {basis : QueryBasis} {entity label : String} {first : Query}
    (h : start basis entity label = .ok first) (steps : List QueryStep) :
    (first.run steps).History (.root entity label :: first.taken steps) := by
  have started : (empty basis).step (.root entity label) = .ok first := h
  have wired : Wired first.basis.schema first.forest.nodes first.scope :=
    (withRoot_grows (P := fun _ => True) h).wired (wired_empty basis)
  exact ((history_empty basis).step (wired_empty basis) started).run wired steps

end Query
end EntityQuery
