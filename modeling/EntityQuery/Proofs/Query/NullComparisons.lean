import EntityQuery.Proofs.Expression.NullText
import EntityQuery.Proofs.Predicate.Pairing
import EntityQuery.Proofs.Query.Contents

/-!
# The comparisons that a query writes

Every condition that a query requires was read from a condition of a step and bound, so that it
compares with NULL as it was made to. The text of a condition has NULL on the right exactly where
the right side is an expression that is written so. The subqueries that the expansion of SIZE
brings in compare with fields.
-/

namespace EntityQuery

/-- The conditions that a step brings in. -/
def QueryStep.conditions : QueryStep → List Condition
  | .joinEntity _ _ _ _ conditions => conditions
  | .on _ c | .restrict c => [c]
  | .root .. | .join .. | .select .. | .selectByPath .. | .groupBy _ | .orderBy .. | .parameter ..
  | .skip _ | .take _ => []

/-- The expressions of a condition; a text holds none yet. -/
def Condition.expressions : Condition → List Expression
  | text _ => []
  | predicate p => [p.left, p.right]

/-- The expressions that a step brings in, those in conditions included. -/
def QueryStep.expressions : QueryStep → List Expression
  | .select e _ | .groupBy e | .orderBy e _ => [e]
  | s => s.conditions.flatMap Condition.expressions

section Leaves
variable {P : Expression → Prop} (literal : ∀ l, P (.literal l))
  (parameter : ∀ name value, P (.parameter (some name) value)) (path : ∀ text, P (.ofPathText text))
include literal parameter path

/-- What holds of leaves and of all expressions in a condition holds of both its sides. -/
theorem Condition.all_of_expressions {c : Condition} (h : ∀ x ∈ c.expressions, P x) :
    c.All P := by
  cases c with
  | text s => exact all_text literal parameter path s
  | predicate p =>
    intro q read
    cases read
    exact ⟨h _ (by simp [expressions]), h _ (by simp [expressions])⟩

theorem QueryStep.all_of_expressions {s : QueryStep} (h : ∀ x ∈ s.expressions, P x) :
    s.All P := by
  have condition : ∀ c ∈ s.conditions, (∀ x ∈ c.expressions, x ∈ s.expressions) → c.All P :=
    fun c _ sub => Condition.all_of_expressions literal parameter path fun x hx => h x (sub x hx)
  cases s with
  | joinEntity base entity label mode on =>
    exact fun c hc => condition c hc fun x hx => List.mem_flatMap.mpr ⟨c, hc, hx⟩
  | on label c =>
    have here : c ∈ (QueryStep.on label c).conditions := List.mem_singleton_self c
    exact condition c here fun x hx => List.mem_flatMap.mpr ⟨c, here, hx⟩
  | restrict c =>
    have here : c ∈ (QueryStep.restrict c).conditions := List.mem_singleton_self c
    exact condition c here fun x hx => List.mem_flatMap.mpr ⟨c, here, hx⟩
  | select e label => exact h e (List.mem_singleton_self e)
  | groupBy e => exact h e (List.mem_singleton_self e)
  | orderBy e ascending => exact h e (List.mem_singleton_self e)
  | selectByPath text => exact path text
  | _ => trivial

end Leaves

/-- Is the expression a subquery? -/
inductive Expression.IsSubquery : Expression → Prop
  | subquery (selected : Expression) (entity label : String) (joins : List (String × String))
      (conditions : List (Expression × Expression)) :
      IsSubquery (.subquery selected entity label joins conditions)

/-- The condition is made by one of the constructors of predicates. -/
def Condition.Made (c : Condition) : Prop := ∀ p, c.read = .ok p → p.Made

theorem Condition.made_text (s : String) : (text s).Made := fun _ h => .parse h

namespace Query
variable {q r : Query} {p : Predicate}

/-- The predicate is a condition of WHERE or of ON, that is of the given clause. -/
def Requires (q : Query) : Clause → Predicate → Prop
  | .restriction, p => p ∈ q.conditions
  | .join, p => ∃ n ∈ q.forest.nodes, p ∈ n.on
  | _, _ => False

theorem requires_putNode {label entity : String} {origin : JoinOrigin} {mode : JoinMode}
    {fetch : Bool} {clause : Clause}
    (h : (q.putNode label entity origin mode fetch).Requires clause p) : q.Requires clause p := by
  cases clause with
  | join =>
    obtain ⟨n, hn, hp⟩ := h
    rcases List.mem_append.mp hn with old | new
    · exact ⟨n, old, hp⟩
    · obtain rfl := List.mem_singleton.mp new
      cases hp
  | _ => exact h

theorem requires_putConditions {i : Nat} {n : ForestNode} {on : List Predicate}
    (hn : q.forest.nodes[i]? = some n) {clause : Clause}
    (h : (q.putConditions i n on).Requires clause p) : q.Requires clause p ∨ p ∈ on := by
  cases clause with
  | join =>
    obtain ⟨m, hm, hp⟩ := h
    rcases List.mem_or_eq_of_mem_set hm with old | rfl
    · exact Or.inl ⟨m, old, hp⟩
    · rcases List.mem_append.mp hp with old | new
      · exact Or.inl ⟨n, List.mem_of_getElem? hn, old⟩
      · exact Or.inr new
  | _ => exact Or.inl h

/-- A step requires what was required before and what its own conditions are bound to. -/
theorem requires_step {s : QueryStep} (h : q.step s = .ok r) {clause : Clause}
    (hp : r.Requires clause p) :
    q.Requires clause p ∨ ∃ c ∈ s.conditions, ∃ m : Query, m.readCondition c = .ok p := by
  cases s with
  | root entity label =>
    obtain ⟨-, -, -, rfl⟩ := withRoot_ok_iff.mp h
    exact Or.inl (requires_putNode hp)
  | join path label mode fetch =>
    obtain ⟨base, i, n, a, entity, -, -, -, -, -, -, -, -, -, rfl⟩ := join_ok_iff.mp h
    exact Or.inl (requires_putNode hp)
  | joinEntity base entity label mode on =>
    obtain ⟨i, n, b, bound, -, -, -, -, -, read, rfl⟩ := joinEntity_ok_iff.mp h
    rcases requires_putConditions (getElem?_putNode ..) hp with old | new
    · exact Or.inl (requires_putNode old)
    · obtain ⟨c, hc, reads⟩ := Outcome.mem_of_mapM_ok read new
      exact Or.inr ⟨c, hc, _, reads⟩
  | on label c =>
    obtain ⟨i, n, b, -, read, hn, -, rfl⟩ := on_ok_iff.mp h
    rcases requires_putConditions hn hp with old | new
    · exact Or.inl old
    · obtain rfl := List.mem_singleton.mp new
      exact Or.inr ⟨c, List.mem_singleton_self c, q, read⟩
  | restrict c =>
    obtain ⟨b, read, rfl⟩ := restrict_ok_iff.mp h
    cases clause with
    | restriction =>
      rcases List.mem_append.mp hp with old | new
      · exact Or.inl old
      · obtain rfl := List.mem_singleton.mp new
        exact Or.inr ⟨c, List.mem_singleton_self c, q, read⟩
    | _ => exact Or.inl hp
  | select e label =>
    obtain ⟨b, -, -, rfl⟩ := select_ok_iff.mp h
    exact Or.inl (by cases label <;> cases clause <;> exact hp)
  | selectByPath text label =>
    rw [step, selectByPath_eq] at h
    obtain ⟨b, -, -, rfl⟩ := select_ok_iff.mp h
    exact Or.inl (by cases label <;> cases clause <;> exact hp)
  | groupBy e =>
    obtain ⟨b, -, rfl⟩ := groupBy_ok_iff.mp h
    exact Or.inl (by cases clause <;> exact hp)
  | orderBy e ascending =>
    obtain ⟨b, -, rfl⟩ := orderBy_ok_iff.mp h
    exact Or.inl (by cases clause <;> exact hp)
  | parameter name value =>
    obtain ⟨-, rfl⟩ := assign_ok_iff.mp h
    exact Or.inl (by cases clause <;> exact hp)
  | skip n =>
    cases h
    exact Or.inl (by cases clause <;> exact hp)
  | take n =>
    cases h
    exact Or.inl (by cases clause <;> exact hp)

/-- What a run of steps requires was required before or comes from a condition of a step. -/
theorem requires_run {steps : List QueryStep} {clause : Clause}
    (hp : (q.run steps).Requires clause p) : q.Requires clause p ∨
      ∃ s ∈ steps, ∃ c ∈ s.conditions, ∃ m : Query, m.readCondition c = .ok p := by
  induction steps generalizing q with
  | nil => exact Or.inl hp
  | cons s rest ih =>
    rcases ih hp with before | ⟨t, ht, later⟩
    · rw [attempt] at before
      split at before
      · rename_i taken
        rcases requires_step taken before with old | new
        · exact Or.inl old
        · exact Or.inr ⟨s, List.mem_cons_self, new⟩
      · exact Or.inl before
    · exact Or.inr ⟨t, List.mem_cons_of_mem s ht, later⟩

theorem not_requires_start {basis : QueryBasis} {entity label : String} {clause : Clause}
    (h : start basis entity label = .ok q) : ¬ q.Requires clause p := by
  obtain ⟨-, -, -, rfl⟩ := withRoot_ok_iff.mp h
  intro hp
  have before := requires_putNode hp
  cases clause with
  | restriction => cases before
  | join =>
    obtain ⟨n, hn, -⟩ := before
    cases hn
  | _ => exact before

/-! Subqueries are carried into a query as they are given. -/

section Subqueries
variable {S e b : Expression}

/-- A subquery of a bound expression was in it before: binding goes past subqueries. -/
theorem occurs_of_bind (subquery : S.IsSubquery) (h : q.bind e = .ok b) (inner : S.Occurs b) :
    S.Occurs e := by
  induction e using Expression.byParts generalizing b with
  | call f as ih =>
    obtain ⟨bs, rfl, bound⟩ := bind_call_ok h
    rcases Expression.occurs_call_iff.mp inner with rfl | ⟨c, hc, within⟩
    · cases subquery
    · obtain ⟨a, ha, hac⟩ := Outcome.mem_of_mapM_ok bound hc
      refine .argument ha ?_
      cases a with
      | path p =>
        obtain ⟨x, -, made⟩ := Outcome.bind_ok_iff.mp hac
        cases made
        cases within
        cases subquery
      | _ => exact ih _ ha hac within
  | path p =>
    obtain ⟨x, -, made⟩ := Outcome.bind_ok_iff.mp h
    cases made
    cases inner
    cases subquery
  | _ =>
    cases h
    exact inner

/-- A subquery that an expression has for its clause was in it before or counts a collection,
which it finds by comparing with a field. -/
theorem occurs_of_transform {clause : Clause} (h : q.sizeExpansion.transform clause e = .ok b)
    {selected : Expression} {entity label : String} {joins : List (String × String)}
    {conditions : List (Expression × Expression)}
    (inner : (Expression.subquery selected entity label joins conditions).Occurs b) :
    (Expression.subquery selected entity label joins conditions).Occurs e ∨
      ∀ c ∈ conditions, q.renderer.render c.2 ≠ .ok "NULL" := by
  rw [SizeExpansion.transform] at h
  split at h
  · cases h
    exact Or.inl inner
  rcases SizeExpansion.occurs_expand h inner with before | ⟨f, as, bs, same, -⟩ |
    ⟨f, p, i, -, -, -, counts⟩
  · exact Or.inl before
  · cases same
  · obtain ⟨owner, counted, collection, -, -, same⟩ := SizeExpansion.size_ok counts
    cases same
    refine Or.inr fun c hc => ?_
    obtain rfl := List.mem_singleton.mp hc
    rw [Renderer.render]
    exact Renderer.path_field_ne_null rfl rfl

/-- The expression was brought in by a step, itself or within another. -/
def Given (steps : List QueryStep) (e : Expression) : Prop :=
  ∃ s ∈ steps, ∃ x ∈ s.expressions, e.Occurs x

/-- The subqueries that a query holds were given to it. -/
theorem given_of_holds {basis : QueryBasis} {entity label : String} {first : Query}
    (started : start basis entity label = .ok first) {steps : List QueryStep} {clause : Clause}
    (held : (first.run steps).Holds clause e) (subquery : S.IsSubquery) (inner : S.Occurs e) :
    Given steps S := by
  let P : Expression → Prop := fun e => ∀ S : Expression, S.IsSubquery → S.Occurs e → Given steps S
  have leaf : ∀ e : Expression, ¬ e.IsSubquery → (∀ f as, e ≠ .call f as) → P e := by
    intro e other single S subquery inner
    cases inner with
    | here => exact absurd subquery other
    | argument ha h => exact absurd rfl (single _ _)
  have all : ∀ s ∈ steps, s.All P := fun s hs =>
    QueryStep.all_of_expressions (fun _ => leaf _ nofun nofun) (fun _ _ => leaf _ nofun nofun)
      (fun _ => leaf _ nofun nofun) fun x hx S _ inner => ⟨s, hs, x, hx, inner⟩
  refine grown_keeps (I := fun q : Query => ∀ clause e, q.Holds clause e → P e) ?_ ?_
    (start_grows started all) clause e held S subquery inner
  · intro q r before grows clause e he
    rcases grows.holds he with old | ⟨source, given, bound⟩
    · exact before clause e old
    · exact fun S subquery inner => given S subquery (occurs_of_bind subquery bound inner)
  · exact fun clause e he => absurd he not_holds_empty

end Subqueries

/-! The conditions as they are written. -/

theorem predicateText_ok {clause : Clause} {text : String}
    (h : q.predicateText clause p = .ok text) : ∃ b left right,
      p.mapSides (q.sizeExpansion.transform clause) = .ok b ∧
      q.renderer.render b.left = .ok left ∧ q.renderer.render b.right = .ok right ∧
      text = left ++ " " ++ b.comparison.text ++ " " ++ right := by
  obtain ⟨b, expanded, written⟩ := Outcome.bind_ok_iff.mp h
  obtain ⟨left, hleft, rest⟩ := Outcome.bind_ok_iff.mp written
  obtain ⟨right, hright, made⟩ := Outcome.bind_ok_iff.mp rest
  cases made
  exact ⟨b, left, right, expanded, hleft, hright, rfl⟩

/-- Where a required predicate comes from. -/
theorem source_of_requires {basis : QueryBasis} {entity label : String} {first : Query}
    (started : start basis entity label = .ok first) {steps : List QueryStep} {clause : Clause}
    (hp : (first.run steps).Requires clause p) : ∃ s ∈ steps, ∃ c ∈ s.conditions, ∃ source,
      c.read = .ok source ∧ source.Carried p := by
  rcases requires_run hp with before | ⟨s, hs, c, hc, m, read⟩
  · exact absurd before (not_requires_start started)
  · obtain ⟨source, reads, bound⟩ := Outcome.bind_ok_iff.mp read
    exact ⟨s, hs, c, hc, source, reads, .bind m .refl bound⟩

/-- The text of a condition is put together from its sides, with calls of SIZE expanded, and ends
in NULL exactly if the right one is an expression that is written so. -/
theorem right_of_predicateText {clause : Clause} {text : String}
    (h : q.predicateText clause p = .ok text) : ∃ b left right,
      p.mapSides (q.sizeExpansion.transform clause) = .ok b ∧ (b.Paired ↔ p.Paired) ∧
      text = left ++ " " ++ p.comparison.text ++ " " ++ right ∧
      (right = "NULL" ↔ q.renderer.WritesNull b.right) := by
  obtain ⟨b, left, right, expanded, -, hright, rfl⟩ := predicateText_ok h
  have same := (Predicate.Carried.expand _ clause .refl expanded).sameNull
  refine ⟨b, left, right, expanded, same.paired_iff, by rw [same.comparison], ?_⟩
  rw [← Renderer.render_null_iff, hright, Except.ok.injEq]

/-- Where no equality was made with NULL and no right side but NULL is written so, a condition
has NULL on the right of its text exactly if its operator is IS or IS NOT. -/
theorem right_null_iff {basis : QueryBasis} {entity label : String} {first : Query}
    (started : start basis entity label = .ok first) {steps : List QueryStep}
    (made : ∀ s ∈ steps, ∀ c ∈ s.conditions, ∀ source, c.read = .ok source →
      source.Made ∧ ¬ source.EqualsNull) {clause : Clause}
    (required : (first.run steps).Requires clause p) {text : String}
    (written : (first.run steps).predicateText clause p = .ok text)
    (only : ∀ b, p.mapSides ((first.run steps).sizeExpansion.transform clause) = .ok b →
      (first.run steps).renderer.WritesNull b.right → b.right = .literal .null) :
    ∃ left right, text = left ++ " " ++ p.comparison.text ++ " " ++ right ∧
      (right = "NULL" ↔ p.comparison = .is ∨ p.comparison = .isNot) := by
  obtain ⟨s, hs, c, hc, source, read, carried⟩ := source_of_requires started required
  obtain ⟨known, fair⟩ := made s hs c hc source read
  have paired := (Predicate.paired_of_carried_iff known carried).mpr fair
  obtain ⟨b, left, right, expanded, same, whole, null⟩ := right_of_predicateText written
  have sides := (Predicate.Carried.expand _ clause .refl expanded).sameNull
  refine ⟨left, right, whole, ?_⟩
  have expandedPaired : b.right = .literal .null ↔ b.comparison = .is ∨ b.comparison = .isNot :=
    same.mpr paired
  rw [null, ← sides.comparison, ← expandedPaired]
  constructor
  · exact only b expanded
  · intro literal
    rw [literal]
    exact .null

/-- Of every condition that a query requires the operator is one of nine, and NULL stands on its
right exactly if the operator asks for it, unless it was made as an equality with NULL. Its text
ends in NULL exactly if its right side is an expression that is written so. A subquery that the
query writes was given to it or compares with no NULL. -/
theorem null_comparisons {basis : QueryBasis} {entity label : String} {first : Query}
    (started : start basis entity label = .ok first) {steps : List QueryStep}
    (made : ∀ s ∈ steps, ∀ c ∈ s.conditions, c.Made) :
    let q := first.run steps
    (∀ clause p, q.Requires clause p → p.comparison.text ∈ Comparison.texts ∧
      (∃ s ∈ steps, ∃ c ∈ s.conditions, ∃ source, c.read = .ok source ∧ source.Carried p ∧
        (p.Paired ↔ ¬ source.EqualsNull)) ∧
      ∀ text, q.predicateText clause p = .ok text → ∃ b left right,
        p.mapSides (q.sizeExpansion.transform clause) = .ok b ∧ (b.Paired ↔ p.Paired) ∧
        text = left ++ " " ++ p.comparison.text ++ " " ++ right ∧
        (right = "NULL" ↔ q.renderer.WritesNull b.right)) ∧
    ∀ clause e b, q.Holds clause e → q.sizeExpansion.transform clause e = .ok b →
      ∀ selected entity label joins conditions,
        (Expression.subquery selected entity label joins conditions).Occurs b →
          Given steps (.subquery selected entity label joins conditions) ∨
            ∀ c ∈ conditions, q.renderer.render c.2 ≠ .ok "NULL" := by
  intro q
  constructor
  · intro clause p required
    obtain ⟨s, hs, c, hc, source, read, carried⟩ := source_of_requires started required
    have paired := Predicate.paired_of_carried_iff (made s hs c hc source read) carried
    exact ⟨Comparison.text_mem _, ⟨s, hs, c, hc, source, read, carried, paired⟩,
      fun text => right_of_predicateText⟩
  · intro clause e b held expanded selected entity label joins conditions inner
    rcases occurs_of_transform expanded inner with before | other
    · exact Or.inl (given_of_holds started held (.subquery ..) before)
    · exact Or.inr other

/-- A condition that is read from text, and an equality that was made with NULL. -/
theorem null_comparisons_documents :
    let steps : List QueryStep := [.restrict (.text "d.owner is not null"),
      .restrict (.predicate (.equality (.ofPathText "d.name") (.literal .null)))]
    (ofDocuments.run steps).conditions.length = 2 ∧
      ∀ clause p, (ofDocuments.run steps).Requires clause p →
        p.comparison.text ∈ Comparison.texts := by
  intro steps
  have made : ∀ s ∈ steps, ∀ c ∈ s.conditions, c.Made := by
    intro s hs c hc
    rcases List.mem_cons.mp hs with rfl | hs
    · obtain rfl := List.mem_singleton.mp hc
      exact Condition.made_text _
    · obtain rfl := List.mem_singleton.mp hs
      obtain rfl := List.mem_singleton.mp hc
      intro p read
      cases read
      exact .equality _ _
  obtain ⟨conditions, -⟩ := null_comparisons start_ofDocuments made
  exact ⟨by decide +kernel, fun clause p required => (conditions clause p required).1⟩

/-- An equality that is made with NULL is written as one. -/
theorem null_comparisons_equality :
    let p : Predicate := .equality (.ofPathText "d.name") (.literal .null)
    p.Made ∧ ¬ p.Paired ∧ (ofDocuments.run [.restrict (.predicate p)]).text =
      .ok "SELECT d FROM Document d WHERE d.name = NULL" := by
  intro p
  exact ⟨.equality _ _, Predicate.not_paired_of_equalsNull ⟨_, rfl⟩, by decide +kernel⟩

end Query
end EntityQuery
