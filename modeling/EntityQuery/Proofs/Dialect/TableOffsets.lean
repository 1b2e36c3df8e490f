import EntityQuery.Proofs.Dialect.FailedShaping
import EntityQuery.Proofs.Dialect.NewState
import EntityQuery.Proofs.Text.Bytes

/-!
# Reading the table off the bytes of a statement

The table that a statement modifies can be read off its text by byte offsets alone: the keyword is
searched byte by byte, and the name is sliced out between two offsets. Every slice begins and ends
at boundaries of characters, so on every text this reads what the search by characters reads: the
part of the text between one character behind the first keyword and the first character that ends
the name of a table.
-/

namespace EntityQuery

namespace StatementKind

/-- What stands behind the keyword, cut by byte offsets, or nothing if a slice cuts through a
character. -/
def nameAfter? (kind : StatementKind) (after : String) : Option String := do
  let rest ← Text.behindFirst? after
  let space := (Text.firstAt? (· == ' ') rest.toList).getD rest.utf8ByteSize
  let stop ←
    if kind = insert then do
      let word ← Text.slice? rest 0 space
      some ((Text.firstAt? (· == '(') word.toList).getD space)
    else some space
  Text.slice? rest 0 stop

/-- The table, read off by byte offsets. -/
def scanTable? (kind : StatementKind) (sql : String) : Option (Except QueryError String) :=
  match kind.tableKeyword? with
  | none => some (.error (.statementUnsupported kind))
  | some keyword =>
    match Text.byteOffset? sql keyword with
    | none => some (.error (.configuration (.keywordMissing keyword kind sql)))
    | some position => do
      let after ← Text.slice? sql (position + keyword.utf8ByteSize) sql.utf8ByteSize
      let name ← kind.nameAfter? after
      some (.ok name)

/-- The table stands behind the first place of the keyword and one character, or at the end of the
text, and goes on to the first character that ends it. -/
structure TableAt (kind : StatementKind) (sql table front written separator rest : String) :
    Prop where
  whole : sql = front ++ (written ++ (separator ++ (table ++ rest)))
  keyword : kind.tableKeyword? = some (Text.lower written)
  first : ∀ i < front.utf8ByteSize, Text.standsAt (Text.lower written) sql i = false
  separated : separator.length = 1 ∨ separator = "" ∧ table = "" ∧ rest = ""
  inside : ∀ c ∈ table.toList, kind.endsTable c = false
  ends : ∀ c ∈ rest.toList.head?, kind.endsTable c = true

theorem keyword_ascii {kind : StatementKind} {keyword : String}
    (h : kind.tableKeyword? = some keyword) : Text.IsAscii keyword ∧ keyword ≠ "" := by
  cases kind with
  | select => cases h
  | _ =>
    cases h
    exact ⟨by decide, by decide⟩

theorem nameAfter?_eq (kind : StatementKind) (after : String) :
    kind.nameAfter? after = some (String.ofList (kind.tableAfter after.toList)) := by
  rw [nameAfter?, Text.behindFirst?_eq, tableAfter]
  generalize after.toList.drop 1 = rest
  have space : (Text.firstAt? (· == ' ') rest).getD (String.ofList rest).utf8ByteSize =
      (String.ofList (rest.takeWhile (· != ' '))).utf8ByteSize := Text.getD_firstAt? _ rest
  have word : rest.takeWhile (· != ' ') <+: rest := List.takeWhile_prefix _
  simp only [Option.bind_eq_bind, Option.bind_some, String.toList_ofList]
  rw [space]
  generalize rest.takeWhile (· != ' ') = before at word
  by_cases hkind : kind = insert
  · have paren : (Text.firstAt? (· == '(') before).getD (String.ofList before).utf8ByteSize =
        (String.ofList (before.takeWhile (· != '('))).utf8ByteSize := Text.getD_firstAt? _ before
    rw [if_pos hkind, if_pos hkind, Text.slice?_prefix word, Option.bind_some]
    show Text.slice? _ 0 ((Text.firstAt? _ (String.ofList before).toList).getD _) = _
    rw [String.toList_ofList, paren]
    exact Text.slice?_prefix ((List.takeWhile_prefix _).trans word)
  · rw [if_neg hkind, if_neg hkind]
    exact Text.slice?_prefix word

/-- The slices by byte offsets give what the characters give. -/
theorem scanTable?_eq (kind : StatementKind) (sql : String) :
    kind.scanTable? sql = some (kind.modifiedTable sql) := by
  rw [scanTable?, modifiedTable]
  cases hkeyword : kind.tableKeyword? with
  | none => rfl
  | some keyword =>
    obtain ⟨ascii, nonempty⟩ := keyword_ascii hkeyword
    dsimp only
    rw [Text.byteOffset?_eq_offsetOf ascii nonempty, Text.offsetOf]
    cases cut : Text.cutBefore keyword.toList sql.toList with
    | none => rfl
    | some parts =>
      obtain ⟨front, behind⟩ := parts
      rw [← String.toList_ofList (l := front), ← String.toList_ofList (l := behind)] at cut
      obtain ⟨rfl, starts, -⟩ := (Text.cutBefore_eq_some_iff_bytes ascii nonempty).mp cut
      obtain ⟨written, after, parts, -, size, dropped⟩ := Text.exists_written ascii starts
      have cutAfter := Text.slice?_rest (String.ofList front ++ written) after
      rw [String.append_assoc, ← parts, @String.utf8ByteSize_append _ written, size] at cutAfter
      rw [String.toList_ofList] at dropped
      simp only [Option.map_some, Option.bind_eq_bind, cutAfter, Option.bind_some, nameAfter?_eq,
        dropped]

theorem modifiedTable_ok_iff_cut {kind : StatementKind} {sql table : String} :
    kind.modifiedTable sql = .ok table ↔ ∃ keyword front behind,
      kind.tableKeyword? = some keyword ∧
      Text.cutBefore keyword.toList sql.toList = some (front, behind) ∧
      table = String.ofList (kind.tableAfter (behind.drop keyword.length)) := by
  rw [modifiedTable]
  constructor
  · intro h
    split at h
    · cases h
    rename_i keyword hkeyword
    split at h
    · cases h
    rename_i front behind cut
    cases h
    exact ⟨keyword, front, behind, hkeyword, cut, rfl⟩
  · rintro ⟨keyword, front, behind, hkeyword, cut, rfl⟩
    simp only [hkeyword, cut]

/-- The name is taken whole if nothing in it ends it and what follows does. -/
theorem tableAfter_append {kind : StatementKind} {separator table rest : String}
    (separated : separator.length = 1 ∨ separator = "" ∧ table = "" ∧ rest = "")
    (inside : ∀ c ∈ table.toList, kind.endsTable c = false)
    (ends : ∀ c ∈ rest.toList.head?, kind.endsTable c = true) :
    kind.tableAfter (separator ++ (table ++ rest)).toList = table.toList := by
  rw [tableAfter_eq_takeWhile]
  rcases separated with one | ⟨rfl, rfl, rfl⟩
  · rw [String.toList_append, List.drop_left' (by rw [String.length_toList, one]),
      String.toList_append, takeWhile_endsTable inside ends]
  · rfl

/-- What is read is where the table stands. -/
theorem modifiedTable_ok_iff {kind : StatementKind} {sql table : String} :
    kind.modifiedTable sql = .ok table ↔
      ∃ front written separator rest, kind.TableAt sql table front written separator rest := by
  rw [modifiedTable_ok_iff_cut]
  constructor
  · rintro ⟨keyword, front, behind, hkeyword, cut, rfl⟩
    obtain ⟨ascii, nonempty⟩ := keyword_ascii hkeyword
    rw [← String.toList_ofList (l := front), ← String.toList_ofList (l := behind)] at cut
    obtain ⟨rfl, starts, first⟩ := (Text.cutBefore_eq_some_iff_bytes ascii nonempty).mp cut
    obtain ⟨written, after, parts, lowered, -, dropped⟩ := Text.exists_written ascii starts
    have spelled : Text.lower written = keyword := by
      rw [lowered, ← String.toList_inj, Text.toList_lower, (keyword_small hkeyword).1]
    rw [String.toList_ofList] at dropped
    rw [dropped, tableAfter_eq_takeWhile]
    refine ⟨String.ofList front, written, String.ofList (after.toList.take 1),
      String.ofList ((after.toList.drop 1).dropWhile fun c => !kind.endsTable c),
      ?whole, ?keyword, ?first, ?separated, ?inside, ?ends⟩
    case whole =>
      rw [parts, ← String.toList_inj]
      simp only [String.toList_append, String.toList_ofList, List.takeWhile_append_dropWhile,
        List.take_append_drop]
    case keyword => rw [spelled, hkeyword]
    case first => rwa [spelled]
    case separated =>
      cases after.toList with
      | nil => exact Or.inr ⟨rfl, rfl, rfl⟩
      | cons c cs => exact Or.inl (String.length_ofList)
    case inside =>
      intro c hc
      rw [String.toList_ofList] at hc
      simpa using List.mem_takeWhile_imp hc
    case ends =>
      intro c hc
      rw [String.toList_ofList] at hc
      have stops := List.head?_dropWhile_not (fun c => !kind.endsTable c) (after.toList.drop 1)
      rw [hc] at stops
      simpa using stops
  · rintro ⟨front, written, separator, rest, stands⟩
    obtain ⟨rfl, hkeyword, first, separated, inside, ends⟩ := stands
    obtain ⟨ascii, nonempty⟩ := keyword_ascii hkeyword
    have length : (Text.lower written).length = written.toList.length := by
      rw [← String.length_toList, Text.toList_lower, List.length_map]
    have starts : Text.startsWithLetters (Text.lower written).toList
        (written ++ (separator ++ (table ++ rest))).toList = true := by
      rw [Text.startsWithLetters_iff, (keyword_small hkeyword).1, String.toList_append,
        List.map_append, ← Text.toList_lower]
      exact List.prefix_append _ _
    have cut := (Text.cutBefore_eq_some_iff_bytes ascii nonempty).mpr ⟨rfl, starts, first⟩
    refine ⟨_, _, _, hkeyword, cut, ?_⟩
    rw [length, String.toList_append, List.drop_left, tableAfter_append separated inside ends,
      String.ofList_toList]

/-- No table is read of a query, nor where the keyword is at no byte. -/
theorem modifiedTable_error_iff_bytes {kind : StatementKind} {sql : String} {e : QueryError} :
    kind.modifiedTable sql = .error e ↔ kind = select ∧ e = .statementUnsupported select ∨
      ∃ keyword, kind.tableKeyword? = some keyword ∧
        (∀ i, Text.standsAt keyword sql i = false) ∧
        e = .configuration (.keywordMissing keyword kind sql) := by
  rw [modifiedTable_error_iff, Tableless, tableError]
  cases hkeyword : kind.tableKeyword? with
  | none =>
    have query : kind = select := by
      cases kind with
      | select => rfl
      | _ => cases hkeyword
    simp [query]
  | some keyword =>
    have other : kind ≠ select := by
      rintro rfl
      cases hkeyword
    obtain ⟨ascii, nonempty⟩ := keyword_ascii hkeyword
    have absent : ¬ Text.Stands keyword sql ↔ ∀ i, Text.standsAt keyword sql i = false :=
      Text.cutBefore_none_iff_not_stands.symm.trans
        (Text.cutBefore_eq_none_iff_bytes ascii nonempty)
    simp [other, absent]

/-- On every text, the slices by byte offsets cut between characters and read what is read by
characters: an error for a query and where the keyword is at no byte, in whatever letter case, and
otherwise the part of the text that stands one character behind the first keyword and goes on to the
first character that ends the name of a table, or to the end. -/
theorem modifiedTable_scans (kind : StatementKind) (sql : String) :
    kind.scanTable? sql = some (kind.modifiedTable sql) ∧
      (∀ e, kind.modifiedTable sql = .error e ↔ kind = select ∧ e = .statementUnsupported select ∨
        ∃ keyword, kind.tableKeyword? = some keyword ∧
          (∀ i, Text.standsAt keyword sql i = false) ∧
          e = .configuration (.keywordMissing keyword kind sql)) ∧
      ∀ table, kind.modifiedTable sql = .ok table ↔ ∃ front written separator rest,
        kind.TableAt sql table front written separator rest :=
  ⟨scanTable?_eq kind sql, fun _ => modifiedTable_error_iff_bytes, fun _ => modifiedTable_ok_iff⟩

/-- Behind the keyword stands a character of two bytes, and two more in the name. -/
theorem modifiedTable_scans_accents :
    delete.scanTable? "delete FROMété where id = 1" = some (.ok "té") := by
  obtain ⟨scans, -, reads⟩ := modifiedTable_scans delete "delete FROMété where id = 1"
  rw [scans, (reads "té").mpr]
  exact ⟨"delete ", "FROM", "é", " where id = 1", by decide, by decide, by decide +kernel,
    by decide, by simp [endsTable], by simp [endsTable]⟩

end StatementKind
end EntityQuery
