import EntityQuery.Dialect.Shaping
import EntityQuery.Proofs.Text.Occurrence
import Mathlib.Data.List.TakeWhile

/-!
# The new state of a modification

Where a new state is asked for, the modification itself becomes a table of its own, and in its
place the rows of that table are put together with those of the modified table, or taken from
them where rows were deleted. The modified table is read off the text of the statement: the
keyword is no part of the word before it, which no search reaches over, and the name ends with
the first character that it cannot have. So it does no harm that a name or a remainder holds
keywords.
-/

namespace EntityQuery

namespace StatementKind

/-- The statements that modify a table, with the keywords in any letter case and anything behind
the table. -/
inductive Modifies (table : String) : StatementKind → String → Prop
  | update {verb : String} (written : Text.lower verb = "update") (rest : String) :
      Modifies table .update (verb ++ " " ++ table ++ " " ++ rest)
  | deleteAll {verb keyword : String} (written : Text.lower verb = "delete")
      (source : Text.lower keyword = "from") :
      Modifies table .delete (verb ++ " " ++ keyword ++ " " ++ table)
  | delete {verb keyword : String} (written : Text.lower verb = "delete")
      (source : Text.lower keyword = "from") (rest : String) :
      Modifies table .delete (verb ++ " " ++ keyword ++ " " ++ table ++ " " ++ rest)
  | insertColumns {verb keyword : String} (written : Text.lower verb = "insert")
      (target : Text.lower keyword = "into") (rest : String) :
      Modifies table .insert (verb ++ " " ++ keyword ++ " " ++ table ++ "(" ++ rest)
  | insertRows {verb keyword : String} (written : Text.lower verb = "insert")
      (target : Text.lower keyword = "into") (rest : String) :
      Modifies table .insert (verb ++ " " ++ keyword ++ " " ++ table ++ " " ++ rest)

/-! The name behind the keyword. -/

/-- The characters that end the name of a table. -/
def endsTable (kind : StatementKind) (c : Char) : Bool := c == ' ' || (kind == insert && c == '(')

theorem tableAfter_eq_takeWhile (kind : StatementKind) (cs : List Char) :
    kind.tableAfter cs = (cs.drop 1).takeWhile fun c => !kind.endsTable c := by
  rw [tableAfter]
  by_cases hkind : kind = insert
  · rw [if_pos hkind, List.takeWhile_takeWhile]
    congr 1
    funext c
    rw [Bool.eq_iff_iff]
    simp [endsTable, hkind, and_comm]
  · rw [if_neg hkind]
    congr 1
    funext c
    simp [endsTable, hkind, bne]

/-- A name is read up to the first character that ends it. -/
theorem takeWhile_endsTable {kind : StatementKind} {name rest : List Char}
    (whole : ∀ b ∈ name, kind.endsTable b = false)
    (ends : ∀ c ∈ rest.head?, kind.endsTable c = true) :
    ((name ++ rest).takeWhile fun c => !kind.endsTable c) = name := by
  refine Text.takeWhile_append_of_stops (fun b hb => ?_) fun c hc => ?_
  · rw [whole b hb]
    rfl
  · rw [ends c hc]
    rfl

theorem tableAfter_name {kind : StatementKind} {name rest : List Char} {c : Char}
    (whole : ∀ b ∈ name, kind.endsTable b = false) (ends : kind.endsTable c = true) :
    kind.tableAfter (' ' :: (name ++ c :: rest)) = name := by
  rw [tableAfter_eq_takeWhile, List.drop_one, List.tail_cons]
  refine takeWhile_endsTable whole fun b first => ?_
  obtain rfl := Option.some.inj first
  exact ends

/-! The keyword. -/

theorem keyword_small {kind : StatementKind} {keyword : String}
    (h : kind.tableKeyword? = some keyword) :
    keyword.toList.map Char.toLower = keyword.toList ∧ ' ' ∉ keyword.toList := by
  cases kind with
  | select => cases h
  | _ =>
    cases h
    decide

section Keyword
variable {kind : StatementKind} {word keyword : String}
  (hkeyword : kind.tableKeyword? = some keyword) (same : Text.lower word = keyword)
include hkeyword same

/-- A text that begins with the keyword is cut before it. -/
theorem cutBefore_word (behind : List Char) :
    Text.cutBefore keyword.toList (word.toList ++ behind) = some ([], word.toList ++ behind) := by
  refine Text.cutBefore_of_starts ?_
  rw [(keyword_small hkeyword).1, List.map_append, ← Text.toList_lower, same]
  exact List.prefix_append _ _

/-- One word stands before the keyword, and does not hold it. -/
theorem cutBefore_second {verb : String}
    (missing : ¬ keyword.toList <:+: (Text.lower verb).toList) (behind : List Char) :
    Text.cutBefore keyword.toList (verb.toList ++ ' ' :: (word.toList ++ behind)) =
      some (verb.toList ++ [' '], word.toList ++ behind) := by
  obtain ⟨letters, solid⟩ := keyword_small hkeyword
  have apart : (' ' : Char).toLower ∉ keyword.toList.map Char.toLower := by rwa [letters]
  have outside : ¬ keyword.toList.map Char.toLower <:+: verb.toList.map Char.toLower := by
    rwa [letters, ← Text.toList_lower]
  rw [Text.cutBefore_append_cons apart outside, cutBefore_word hkeyword same behind]
  rfl

/-- The name behind the keyword is the modified table. -/
theorem modifiedTable_of_cut {table sql : String} {front rest : List Char} {c : Char}
    (whole : ∀ b ∈ table.toList, kind.endsTable b = false) (ends : kind.endsTable c = true)
    (cut : Text.cutBefore keyword.toList sql.toList =
      some (front, word.toList ++ ' ' :: (table.toList ++ c :: rest))) :
    kind.modifiedTable sql = .ok table := by
  have length : keyword.length = word.toList.length := by
    rw [← same, ← String.length_toList, Text.toList_lower, List.length_map]
  rw [modifiedTable, hkeyword]
  simp only [cut]
  rw [length, List.drop_left, tableAfter_name whole ends, String.ofList_toList]

end Keyword

/-- Whatever stands behind a statement after a space, its table is read off. -/
theorem modifiedTable_of_modifies {kind : StatementKind} {table sql : String}
    (h : Modifies table kind sql) (whole : ∀ b ∈ table.toList, kind.endsTable b = false)
    (more : String) : kind.modifiedTable (sql ++ " " ++ more) = .ok table := by
  cases h with
  | update written rest =>
    have keyword : tableKeyword? .update = some "update" := rfl
    have cut := cutBefore_word keyword written
      (' ' :: (table.toList ++ ' ' :: (rest.toList ++ ' ' :: more.toList)))
    exact modifiedTable_of_cut keyword written whole rfl (by simpa using cut)
  | deleteAll written source =>
    have keyword : tableKeyword? .delete = some "from" := rfl
    have cut := cutBefore_second keyword source (by rw [written]; decide)
      (' ' :: (table.toList ++ ' ' :: more.toList))
    exact modifiedTable_of_cut keyword source whole rfl (by simpa using cut)
  | delete written source rest =>
    have keyword : tableKeyword? .delete = some "from" := rfl
    have cut := cutBefore_second keyword source (by rw [written]; decide)
      (' ' :: (table.toList ++ ' ' :: (rest.toList ++ ' ' :: more.toList)))
    exact modifiedTable_of_cut keyword source whole rfl (by simpa using cut)
  | insertColumns written target rest =>
    have keyword : tableKeyword? .insert = some "into" := rfl
    have cut := cutBefore_second keyword target (by rw [written]; decide)
      (' ' :: (table.toList ++ '(' :: (rest.toList ++ ' ' :: more.toList)))
    exact modifiedTable_of_cut keyword target whole rfl (by simpa using cut)
  | insertRows written target rest =>
    have keyword : tableKeyword? .insert = some "into" := rfl
    have cut := cutBefore_second keyword target (by rw [written]; decide)
      (' ' :: (table.toList ++ ' ' :: (rest.toList ++ ' ' :: more.toList)))
    exact modifiedTable_of_cut keyword target whole rfl (by simpa using cut)

end StatementKind

namespace Dialect

/-- The rows that stand in the place of a modification. -/
def newRows (kind : StatementKind) (ofState ofTable : String) : String :=
  if kind = .delete then " " ++ ofTable ++ "\nexcept\n" ++ ofState
  else ofState ++ "\nunion\n " ++ ofTable

theorem shapeNewState_of_table {r : ShapeRequest} {table sql : String}
    (found : r.kind.modifiedTable (sql ++ " returning *") = .ok table) (state : String)
    (columns : List String) :
    shapeNewState r state columns sql =
      ⟨opening r.subquery ++
          newRows r.kind (selectFrom columns state) (selectFrom columns table) ++
          closing r.subquery,
        .ok [(state, sql ++ " returning *")]⟩ := by
  rw [shapeNewState, newRows]
  simp only [found]
  by_cases hkind : r.kind = .delete
  · simp [hkind, String.append_assoc]
  · simp [hkind, String.append_assoc]

/-- The state that a modification leaves is shaped into its rows, under the name of the new table,
together with those of the modified table, or into the rows of the modified table without those
that were deleted. The one table to be defined is the modification, which returns all columns.
The name of the modified table has no space in it, and in an insert no parenthesis is opened in
it; it may hold keywords, as may what follows it. -/
theorem shape_new_state {r : ShapeRequest} {table sql state : String} {columns : List String}
    (modifies : StatementKind.Modifies table r.kind sql) (solid : ' ' ∉ table.toList)
    (closed : r.kind = .insert → '(' ∉ table.toList) (new : r.newState = some state)
    (known : r.returning = some columns) :
    let list := String.intercalate "," columns
    let ofState := s!"select {list} from {state}"
    let ofTable := s!"select {list} from {table}"
    let rows :=
      if r.kind = .delete then s!" {ofTable}\nexcept\n{ofState}"
      else s!"{ofState}\nunion\n {ofTable}"
    (postgres.shape r sql).outcome = .ok [(state, s!"{sql} returning *")] ∧
      (postgres.shape r sql).text = if r.subquery then s!"({rows})" else rows := by
  intro list ofState ofTable rows
  have whole : ∀ b ∈ table.toList, r.kind.endsTable b = false := by
    intro b hb
    have space : b ≠ ' ' := fun h => solid (h ▸ hb)
    have parenthesis : r.kind = .insert → b ≠ '(' := fun hkind h => closed hkind (h ▸ hb)
    simpa [StatementKind.endsTable, space] using parenthesis
  have found : r.kind.modifiedTable (sql ++ " returning *") = .ok table := by
    have behind := StatementKind.modifiedTable_of_modifies modifies whole "returning *"
    rwa [String.append_assoc] at behind
  have shaped : postgres.shape r sql = shapeNewState r state columns sql := by
    simp only [shape, postgres, new, known]
  have sameRows : newRows r.kind (selectFrom columns state) (selectFrom columns table) = rows := by
    rw [newRows]
    by_cases hkind : r.kind = .delete
    · simp only [rows, if_pos hkind]
      rfl
    · simp only [rows, if_neg hkind]
      rfl
  rw [shaped, shapeNewState_of_table found, sameRows]
  cases r.subquery with
  | true => exact ⟨rfl, rfl⟩
  | false => exact ⟨rfl, by simp [opening, closing]⟩

/-- The table is named after keywords, and the query behind it holds all three of them. -/
theorem shape_new_state_insert :
    let r : ShapeRequest :=
      { ShapeRequest.ofKind .insert with
        subquery := true, newState := some "p_new", returning := some ["id", "name"] }
    let sql := "INSERT Into from_into(id, name) select id, update from into where id in (1)"
    StatementKind.Modifies "from_into" .insert sql ∧
      (postgres.shape r sql).outcome = .ok [("p_new", sql ++ " returning *")] ∧
      (postgres.shape r sql).text =
        "(select id,name from p_new\nunion\n select id,name from from_into)" := by
  intro r sql
  have verb : Text.lower "INSERT" = "insert" := by decide
  have target : Text.lower "Into" = "into" := by decide
  have modifies : StatementKind.Modifies "from_into" .insert sql :=
    .insertColumns verb target "id, name) select id, update from into where id in (1)"
  have solid : ' ' ∉ "from_into".toList ∧ '(' ∉ "from_into".toList := by decide
  exact ⟨modifies, shape_new_state (r := r) modifies solid.1 (fun _ => solid.2) rfl rfl⟩

end Dialect
end EntityQuery
