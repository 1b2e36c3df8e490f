import EntityQuery.Predicate.Parser
import EntityQuery.Proofs.Expression.Calls

/-!
# NULL and the operators that ask for it

The constructors of predicates from an operator and from text let NULL stand on the right of IS
and IS NOT, and only there; the constructor of equalities takes any right side. Binding and the
expansion of SIZE change neither the operator nor whether NULL stands on the right, so what a
predicate was made as decides for all that it becomes.
-/

namespace EntityQuery

namespace Comparison

def texts : List String := ["=", "!=", "<>", "<", "<=", ">", ">=", "IS", "IS NOT"]

theorem text_mem (c : Comparison) : c.text ∈ texts := by
  cases c <;> decide

theorem withNull_iff {c : Comparison} : c.withNull = true ↔ c = .is ∨ c = .isNot := by
  cases c <;> decide

end Comparison

theorem Expression.isNullLiteral_iff {e : Expression} :
    e.isNullLiteral = true ↔ e = .literal .null := by
  constructor
  · intro h
    unfold isNullLiteral at h
    split at h
    · rfl
    · cases h
  · rintro rfl
    rfl

namespace Predicate
variable {p m : Predicate}

/-- NULL stands on the right exactly if the operator is IS or IS NOT. -/
def Paired (p : Predicate) : Prop :=
  p.right = .literal .null ↔ p.comparison = .is ∨ p.comparison = .isNot

/-- An equality with NULL. -/
def EqualsNull (p : Predicate) : Prop := ∃ left, p = .equality left (.literal .null)

/-- The ways in which a predicate is made. -/
inductive Made : Predicate → Prop
  | ofOperator {left right : Expression} {operator : String} {p : Predicate}
      (h : ofOperator left operator right = .ok p) : Made p
  | equality (left right : Expression) : Made (.equality left right)
  | parse {text : String} {p : Predicate} (h : parse text = .ok p) : Made p

/-- `Carried m p`: `p` is what becomes of `m` when it is bound in queries and when calls of SIZE
are expanded in it. -/
inductive Carried (m : Predicate) : Predicate → Prop
  | refl : Carried m m
  | bind {p b : Predicate} (q : Query) (before : Carried m p) (h : q.bindCondition p = .ok b) :
      Carried m b
  | expand {p b : Predicate} (w : SizeExpansion) (clause : Clause) (before : Carried m p)
      (h : p.mapSides (w.transform clause) = .ok b) : Carried m b

theorem paired_iff_withNull :
    p.Paired ↔ (p.right.isNullLiteral = p.comparison.withNull) := by
  rw [Bool.eq_iff_iff, Expression.isNullLiteral_iff, Comparison.withNull_iff, Paired]

theorem compare_ok_iff {left right : Expression} {c : Comparison} :
    compare left c right = .ok p ↔ p = ⟨left, c, right⟩ ∧ p.Paired := by
  rw [compare, paired_iff_withNull]
  constructor
  · intro h
    split at h
    · cases h
    · cases h
    · rename_i required forbidden
      cases h
      refine ⟨rfl, ?_⟩
      cases hc : c.withNull with
      | true => simpa [hc] using required
      | false => simpa [hc] using forbidden
  · rintro ⟨rfl, paired⟩
    dsimp only at paired
    rw [paired]
    cases c.withNull <;> rfl

theorem paired_of_ofOperator {left right : Expression} {operator : String}
    (h : ofOperator left operator right = .ok p) : p.Paired := by
  obtain ⟨c, -, compared⟩ := Outcome.bind_ok_iff.mp h
  exact (compare_ok_iff.mp compared).2

theorem paired_of_parse {text : String} (h : parse text = .ok p) : p.Paired := by
  rw [parse] at h
  split at h
  · cases h
  dsimp only at h
  split at h
  · cases h
  obtain ⟨left, -, rest⟩ := Outcome.bind_ok_iff.mp h
  obtain ⟨right, -, made⟩ := Outcome.bind_ok_iff.mp rest
  exact paired_of_ofOperator made

theorem not_paired_of_equalsNull (h : p.EqualsNull) : ¬ p.Paired := by
  obtain ⟨left, rfl⟩ := h
  simp [Paired, equality]

/-- The constructor of equalities alone does not look at its right side. -/
theorem Made.paired_iff (h : m.Made) : m.Paired ↔ ¬ m.EqualsNull := by
  cases h with
  | ofOperator made =>
    have paired := paired_of_ofOperator made
    exact iff_of_true paired fun equals => not_paired_of_equalsNull equals paired
  | parse made =>
    have paired := paired_of_parse made
    exact iff_of_true paired fun equals => not_paired_of_equalsNull equals paired
  | equality left right =>
    constructor
    · exact fun paired equals => not_paired_of_equalsNull equals paired
    · intro other
      have null : right ≠ .literal .null := fun null => other ⟨left, by rw [null]⟩
      have equal : (Predicate.equality left right).comparison = .equal := rfl
      exact iff_of_false null (by simp [equal])

/-- What stays when a predicate is changed: its operator, and whether NULL stands on the right. -/
structure SameNull (m p : Predicate) : Prop where
  comparison : p.comparison = m.comparison
  right : p.right = .literal .null ↔ m.right = .literal .null

theorem sameNull_mapSides {f : Expression → Except QueryError Expression}
    (keeps : ∀ e b, f e = .ok b → (b = .literal .null ↔ e = .literal .null))
    (h : m.mapSides f = .ok p) : SameNull m p := by
  obtain ⟨left, -, rest⟩ := Outcome.bind_ok_iff.mp h
  obtain ⟨right, changed, made⟩ := Outcome.bind_ok_iff.mp rest
  cases made
  exact ⟨rfl, keeps _ _ changed⟩

end Predicate

theorem Query.bind_null_iff {q : Query} {e b : Expression} (h : q.bind e = .ok b) :
    b = .literal .null ↔ e = .literal .null := by
  cases e with
  | path p =>
    obtain ⟨c, -, made⟩ := Outcome.bind_ok_iff.mp h
    cases made
    simp
  | call f as =>
    obtain ⟨bs, rfl, -⟩ := bind_call_ok h
    simp
  | _ =>
    cases h
    rfl

theorem SizeExpansion.transform_null_iff {w : SizeExpansion} {clause : Clause} {e b : Expression}
    (h : w.transform clause e = .ok b) : b = .literal .null ↔ e = .literal .null := by
  rw [transform] at h
  split at h
  · cases h
    rfl
  cases e with
  | call f as =>
    rcases w.expand_call f as with ⟨p, i, -, -, -, eq⟩ | ⟨-, eq⟩ | ⟨-, eq⟩
    · obtain ⟨owner, entity, collection, -, -, rfl⟩ := size_ok (eq.symm.trans h)
      simp [counting]
    · cases eq.symm.trans h
      simp
    · obtain ⟨bs, -, made⟩ := Outcome.bind_ok_iff.mp (eq.symm.trans h)
      cases made
      simp
  | _ =>
    cases h
    rfl

namespace Predicate
variable {p m : Predicate}

theorem Carried.sameNull (h : Carried m p) : SameNull m p := by
  induction h with
  | refl => exact ⟨rfl, Iff.rfl⟩
  | bind q _ h ih =>
    have step := sameNull_mapSides (fun _ _ => Query.bind_null_iff) h
    exact ⟨step.comparison.trans ih.comparison, step.right.trans ih.right⟩
  | expand w clause _ h ih =>
    have step := sameNull_mapSides (fun _ _ => SizeExpansion.transform_null_iff) h
    exact ⟨step.comparison.trans ih.comparison, step.right.trans ih.right⟩

theorem SameNull.paired_iff (h : SameNull m p) : p.Paired ↔ m.Paired := by
  rw [Paired, Paired, h.comparison, h.right]

/-- A predicate that was made and carried on is paired unless it was made as an equality with
NULL. -/
theorem paired_of_carried_iff (made : m.Made) (h : Carried m p) : p.Paired ↔ ¬ m.EqualsNull :=
  h.sameNull.paired_iff.trans made.paired_iff

end Predicate
end EntityQuery
