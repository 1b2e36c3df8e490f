import EntityQuery.Dialect.SetOperation
import EntityQuery.Proofs.Text.Parentheses

/-!
# The operands of an ordered or limited set operation

Where an order or a limit follows, every operand is to stand between parentheses of its own, so
that it is plain what is ordered and limited. An operand that begins with a parenthesis is taken
for one that does. It is none if that parenthesis is closed before its end, as in a set operation
of operands between parentheses.
-/

namespace EntityQuery

namespace Dialect

/-- An operand begins with a part between parentheses and goes on behind it. -/
def GoesOn (operand : String) : Prop :=
  ∃ group rest, Text.Enclosed group ∧ rest ≠ "" ∧ operand = group ++ rest

theorem not_enclosed_of_goesOn {operand : String} (h : GoesOn operand) :
    ¬ Text.Enclosed operand := by
  obtain ⟨group, rest, enclosed, more, rfl⟩ := h
  intro whole
  rw [Text.Enclosed, Text.behindGroup_append enclosed rest] at whole
  exact more (by simpa using whole)

theorem head?_of_goesOn {operand : String} (h : GoesOn operand) :
    operand.toList.head? = some '(' := by
  obtain ⟨group, rest, enclosed, -, rfl⟩ := h
  obtain ⟨t, -, rfl⟩ := Text.exists_of_enclosed enclosed
  simp

/-! How an operand is written. -/

theorem operandText_of_open {operand : String} (h : operand.toList.head? = some '(') :
    postgres.operandText true operand = operand := by
  simp [operandText, h]

theorem operandText_of_not_open {operand : String} (h : operand.toList.head? ≠ some '(') :
    postgres.operandText true operand = "(" ++ operand ++ ")" := by
  have groups : (postgres.groupsOperands && true && operand.toList.head? != some '(') = true := by
    simpa [postgres] using h
  rw [operandText, if_pos groups]
  rfl

/-- A balanced operand is written as a unit unless it goes on behind its first group. -/
theorem enclosed_operandText_iff {operand : String} (balanced : Text.Balanced operand) :
    Text.Enclosed (postgres.operandText true operand) ↔ ¬ GoesOn operand := by
  by_cases first : operand.toList.head? = some '('
  · rw [operandText_of_open first]
    constructor
    · exact fun whole goesOn => not_enclosed_of_goesOn goesOn whole
    · intro ends
      obtain ⟨group, rest, enclosed, rfl⟩ := Text.exists_enclosed_append balanced first
      by_cases more : rest = ""
      · rwa [more, String.append_empty]
      · exact absurd ⟨group, rest, enclosed, more, rfl⟩ ends
  · rw [operandText_of_not_open first]
    constructor
    · exact fun _ goesOn => first (head?_of_goesOn goesOn)
    · exact fun _ => Text.enclosed_parentheses balanced

theorem combine_postgres (r : SetRequest) (text : String) :
    postgres.combine r text =
      ⟨text ++ opening r.subquery ++ postgres.setText r ++ closing r.subquery, .ok ()⟩ := by
  have supported : postgres.supports r.operation = true := rfl
  rw [combine, if_pos supported]

/-- What is written of a balanced operand begins with a group if it begins with a parenthesis. -/
theorem exists_group_of_written {operand : String} {tail : Bool} (balanced : Text.Balanced operand)
    (first : (postgres.operandText tail operand).toList.head? = some '(') :
    ∃ group rest, Text.Enclosed group ∧ postgres.operandText tail operand = group ++ rest := by
  rw [operandText] at first ⊢
  split at first
  · rename_i grouped
    rw [if_pos grouped]
    refine ⟨"(" ++ operand ++ ")", "", Text.enclosed_parentheses balanced, ?_⟩
    rw [String.append_empty]
    rfl
  · rename_i bare
    rw [if_neg bare]
    exact Text.exists_enclosed_append balanced first

/-- A set operation of several operands goes on behind the first, if that one begins with a
parenthesis. -/
theorem goesOn_combine {r : SetRequest} {first second : String} {more : List String}
    (several : r.operands = first :: second :: more) (bare : r.subquery = false)
    (balanced : Text.Balanced first)
    (opens : (postgres.operandText r.hasTail first).toList.head? = some '(') :
    GoesOn (postgres.combine r "").text := by
  obtain ⟨group, rest, enclosed, written⟩ := exists_group_of_written balanced opens
  refine ⟨group, rest ++ s!"\n{r.operation.keyword}\n" ++
    String.intercalate s!"\n{r.operation.keyword}\n"
      ((second :: more).map (postgres.operandText r.hasTail)) ++
    orderText r.orderBy ++ postgres.optionalLimit r.limit r.offset, enclosed, ?_, ?_⟩
  · -- The operator is written on a line of its own.
    intro empty
    simp only [String.append_eq_empty_iff] at empty
    obtain ⟨⟨⟨⟨-, ⟨newline, -⟩, -⟩, -⟩, -⟩, -⟩ := empty
    exact absurd newline (by decide)
  · rw [combine_postgres, setText, several, bare, List.map_cons, List.map_cons, written]
    simp [opening, closing, String.append_assoc]

/-- An ordered or limited set operation of balanced operands succeeds, and writes the operands in
their order. What it writes of an operand is a unit exactly if the operand does not begin with a
group and go on behind it. So it is none for an operand that is a set operation of several
operands itself, unless that is a subquery or begins with a bare operand. -/
theorem grouped_operands {r : SetRequest} (given : r.operands ≠ []) (tail : r.hasTail = true)
    (balanced : ∀ operand ∈ r.operands, Text.Balanced operand) (text : String) :
    let written := r.operands.map (postgres.operandText true)
    (postgres.combine r text).outcome = .ok () ∧
      (postgres.combine r text).text =
        text ++ opening r.subquery ++ String.intercalate s!"\n{r.operation.keyword}\n" written ++
          orderText r.orderBy ++ postgres.optionalLimit r.limit r.offset ++ closing r.subquery ∧
      (∀ operand ∈ r.operands,
        Text.Enclosed (postgres.operandText true operand) ↔ ¬ GoesOn operand) ∧
      ∀ (inner : SetRequest) (first second : String) (more : List String),
        inner.operands = first :: second :: more → inner.subquery = false →
          Text.Balanced first →
          (postgres.operandText inner.hasTail first).toList.head? = some '(' →
            ¬ Text.Enclosed (postgres.operandText true (postgres.combine inner "").text) := by
  intro written
  have some_operand : r.operands.isEmpty = false := by simpa using given
  refine ⟨by rw [combine_postgres], ?_, ?_, ?_⟩
  · rw [combine_postgres, setText, some_operand, tail]
    simp [written, String.append_assoc]
  · exact fun operand h => enclosed_operandText_iff (balanced operand h)
  · intro inner first second more several bare closed opens
    have goesOn := goesOn_combine several bare closed opens
    rw [operandText_of_open (head?_of_goesOn goesOn)]
    exact not_enclosed_of_goesOn goesOn

/-- A bare operand and one that is a unit already, under a limit. -/
theorem grouped_operands_limit :
    let r : SetRequest := ⟨.union, false, ["select a", "(select b)"], [], some "3", none⟩
    r.hasTail = true ∧ (postgres.combine r "").text = "(select a)\nUNION\n(select b) limit 3" ∧
      ∀ operand ∈ r.operands, Text.Balanced operand ∧
        (Text.Enclosed (postgres.operandText true operand) ↔ ¬ GoesOn operand) := by
  intro r
  have balanced : ∀ operand ∈ r.operands, Text.Balanced operand := by decide
  obtain ⟨-, text, units, -⟩ := grouped_operands (r := r) (by decide) rfl balanced ""
  refine ⟨rfl, text.trans (by decide), fun operand h => ⟨balanced operand h, units operand h⟩⟩

/-- A union of operands between parentheses stands as it is in front of a limit. -/
theorem grouped_operands_nested :
    let union := "(select a)\nUNION\n(select b)"
    let r : SetRequest := ⟨.except, false, [union, "select c"], [], some "3", none⟩
    Text.Balanced union ∧
      (postgres.combine r "").text =
        "(select a)\nUNION\n(select b)\nEXCEPT\n(select c) limit 3" ∧
      ¬ Text.Enclosed (postgres.operandText true union) := by
  decide

end Dialect
end EntityQuery
