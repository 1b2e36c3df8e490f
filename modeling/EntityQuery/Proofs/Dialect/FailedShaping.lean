import EntityQuery.Dialect.SetOperation
import EntityQuery.Proofs.Text.Occurrence

/-!
# What a failed shaping leaves of the statement

A set operation that the dialect lacks leaves the text as it was, and so does a new state
without returned columns. Where the rows of the new state are to be asked of the modified table
and that table cannot be found, what was written before is left in place of the statement.
-/

namespace EntityQuery

namespace StatementKind

/-- No table can be read off the text: a query modifies none, and elsewhere the keyword is
missing, in whatever letter case. -/
def Tableless (kind : StatementKind) (sql : String) : Prop :=
  ∀ keyword ∈ kind.tableKeyword?, ¬ Text.Stands keyword sql

/-- The error of a text off which no table can be read. -/
def tableError (kind : StatementKind) (sql : String) : QueryError :=
  match kind.tableKeyword? with
  | none => .statementUnsupported kind
  | some keyword => .configuration (.keywordMissing keyword kind sql)

theorem modifiedTable_error_iff {kind : StatementKind} {sql : String} {err : QueryError} :
    kind.modifiedTable sql = .error err ↔ kind.Tableless sql ∧ err = kind.tableError sql := by
  rw [modifiedTable, Tableless, tableError]
  cases kind.tableKeyword? with
  | none => simp [eq_comm]
  | some keyword =>
    have found : Text.cutBefore keyword.toList sql.toList = none ↔ ¬ Text.Stands keyword sql :=
      Text.cutBefore_none_iff_not_stands
    cases hcut : Text.cutBefore keyword.toList sql.toList with
    | none =>
      have missing := found.mp hcut
      simp [hcut, missing, eq_comm]
    | some around =>
      have stands : ¬ ¬ Text.Stands keyword sql := fun h => by simp [found.mpr h] at hcut
      simp [hcut, stands]

/-- The keywords are words of letters, so none stands in what is put behind a modification,
nor half in it. -/
theorem tableless_returning_iff {kind : StatementKind} {sql : String} :
    kind.Tableless (sql ++ " returning *") ↔ kind.Tableless sql := by
  have apart : ∀ keyword ∈ kind.tableKeyword?, ' ' ∉ (Text.lower keyword).toList ∧
      ¬ (Text.lower keyword).toList <:+: "returning *".toList := by
    cases kind <;> decide
  refine forall₂_congr fun keyword hkeyword => not_congr ?_
  obtain ⟨solid, other⟩ := apart keyword hkeyword
  have split : (Text.lower (sql ++ " returning *")).toList =
      (Text.lower sql).toList ++ ' ' :: "returning *".toList := by
    rw [Text.lower_append, String.toList_append]
    rfl
  rw [Text.Stands, Text.Stands, split, Text.infix_append_cons_iff solid, or_iff_left other]

end StatementKind

namespace Dialect
variable {d : Dialect} {sql : String}

/-- What stands before the rows of the modified table. -/
def beforeTable (r : ShapeRequest) (state : String) (columns : List String) : String :=
  opening r.subquery ++
    if r.kind = .delete then "" else selectFrom columns state ++ "\nunion\n"

theorem shapeNewState_fails_iff {r : ShapeRequest} {state : String} {columns : List String}
    {err : QueryError} :
    (shapeNewState r state columns sql).outcome = .error err ↔
      r.kind.Tableless sql ∧ err = r.kind.tableError (sql ++ " returning *") := by
  rw [← StatementKind.tableless_returning_iff, ← StatementKind.modifiedTable_error_iff,
    shapeNewState]
  cases r.kind.modifiedTable (sql ++ " returning *") with
  | error e => simp
  | ok table => simp

theorem text_of_shapeNewState_fails {r : ShapeRequest} {state : String} {columns : List String}
    {err : QueryError} (h : (shapeNewState r state columns sql).outcome = .error err) :
    (shapeNewState r state columns sql).text = beforeTable r state columns := by
  rw [shapeNewState] at h ⊢
  cases hTable : r.kind.modifiedTable (sql ++ " returning *") with
  | error e => rfl
  | ok table => simp [hTable] at h

/-- The failures of shaping, each with its error and the text that it leaves. -/
inductive Refuses (d : Dialect) (r : ShapeRequest) (sql : String) : QueryError → String → Prop
  | noColumns {state : String} (modifies : d.modifiesInWith = true)
      (new : r.newState = some state) (unknown : r.returning = none) :
      Refuses d r sql (.configuration (.returningMissing state)) sql
  | noTable {state : String} {columns : List String} (modifies : d.modifiesInWith = true)
      (new : r.newState = some state) (known : r.returning = some columns)
      (tableless : r.kind.Tableless sql) :
      Refuses d r sql (r.kind.tableError (sql ++ " returning *")) (beforeTable r state columns)

theorem refuses_iff {r : ShapeRequest} {err : QueryError} {left : String} :
    d.Refuses r sql err left ↔
      (d.shape r sql).outcome = .error err ∧ (d.shape r sql).text = left := by
  constructor
  · intro h
    cases h with
    | noColumns modifies new unknown => simp [shape, modifies, new, unknown]
    | @noTable state columns modifies new known tableless =>
      have fails : (shapeNewState r state columns sql).outcome = .error _ :=
        shapeNewState_fails_iff.mpr ⟨tableless, rfl⟩
      simpa [shape, modifies, new, known] using ⟨fails, text_of_shapeNewState_fails fails⟩
  · rintro ⟨fails, rfl⟩
    cases modifies : d.modifiesInWith with
    | false => simp [shape, modifies, shapePlain] at fails
    | true =>
      cases new : r.newState with
      | none => simp [shape, modifies, new, shapePlain] at fails
      | some state =>
        cases known : r.returning with
        | none =>
          simp only [shape, modifies, new, known, Except.error.injEq] at fails ⊢
          subst fails
          exact .noColumns modifies new known
        | some columns =>
          simp only [shape, modifies, new, known] at fails ⊢
          rw [text_of_shapeNewState_fails fails]
          obtain ⟨tableless, rfl⟩ := shapeNewState_fails_iff.mp fails
          exact .noTable modifies new known tableless

theorem combine_text_of_fails {r : SetRequest} {err : QueryError}
    (h : (d.combine r sql).outcome = .error err) : (d.combine r sql).text = sql := by
  rw [combine] at h ⊢
  by_cases supported : d.supports r.operation = true
  · simp [supported] at h
  · simp [supported]

/-- A set operation that fails leaves the text alone. Shaping fails and leaves another text
exactly where the dialect rebuilds a new state of known columns, no table can be read off the
statement, and what is written before the table is not the statement itself. -/
theorem failed_shaping (d : Dialect) (sql : String) :
    (∀ (r : SetRequest) err, (d.combine r sql).outcome = .error err →
      (d.combine r sql).text = sql) ∧
    ∀ (r : ShapeRequest) left,
      (∃ err, (d.shape r sql).outcome = .error err) ∧ (d.shape r sql).text = left ∧ left ≠ sql ↔
        ∃ state columns, d.modifiesInWith = true ∧ r.newState = some state ∧
          r.returning = some columns ∧ r.kind.Tableless sql ∧
          left = beforeTable r state columns ∧ left ≠ sql := by
  refine ⟨fun r err => combine_text_of_fails, fun r left => ?_⟩
  constructor
  · rintro ⟨⟨err, fails⟩, text, changed⟩
    cases refuses_iff.mpr ⟨fails, text⟩ with
    | noColumns => exact absurd rfl changed
    | noTable modifies new known tableless =>
      exact ⟨_, _, modifies, new, known, tableless, rfl, changed⟩
  · rintro ⟨state, columns, modifies, new, known, tableless, rfl, changed⟩
    obtain ⟨fails, text⟩ := refuses_iff.mp (.noTable modifies new known tableless)
    exact ⟨⟨_, fails⟩, text, changed⟩

/-- A query has no modified table, which comes out after the statement is gone. -/
theorem failed_shaping_overwrites :
    let r : ShapeRequest :=
      { ShapeRequest.ofKind .select with
        subquery := true, newState := some "n_cte", returning := some ["id"] }
    (postgres.shape r "select 1").outcome = .error (.statementUnsupported .select) ∧
      (postgres.shape r "select 1").text = "(select id from n_cte\nunion\n" ∧
      (postgres.shape r "select 1").text ≠ "select 1" := by
  decide

end Dialect

end EntityQuery
