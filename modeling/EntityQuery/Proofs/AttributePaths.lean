import EntityQuery.Proofs.Schema
import EntityQuery.Proofs.Text.Paths

/-!
# Paths of attributes

A path leads from attribute to attribute, the first of the entity where it starts and each further
one of the entity that the one before it leads to. The last one may be of any kind, and whether it
is a list with indexes is asked only of text that is a path.
-/

namespace EntityQuery

/-- A list that has a column for its indexes, its own or one of its join table. -/
def Attribute.KeepsIndexes (a : Attribute) : Prop :=
  ∃ target index table, a.mapping = .plural .list target index table ∧
    ((∃ column, index = some column) ∨
      ∃ t columns, table = some t ∧ t.keyColumns = some columns ∧ columns ≠ [])

theorem JoinTable.hasKeys_iff {t : JoinTable} :
    t.hasKeys = true ↔ ∃ columns, t.keyColumns = some columns ∧ columns ≠ [] := by
  rw [hasKeys]
  cases t.keyColumns with
  | none => simp
  | some columns => cases columns <;> simp

theorem Attribute.listsByIndex_iff {a : Attribute} : a.listsByIndex = true ↔ a.KeepsIndexes := by
  rw [listsByIndex, KeepsIndexes]
  obtain ⟨name, mapping⟩ := a
  cases mapping with
  | basic column => simp [collection?]
  | association target => simp [collection?]
  | plural collection target index table =>
    cases collection with
    | list =>
      have columns : (index.isSome || table.any JoinTable.hasKeys) = true ↔
          (∃ column, index = some column) ∨
            ∃ t columns, table = some t ∧ t.keyColumns = some columns ∧ columns ≠ [] := by
        rw [Bool.or_eq_true, Option.isSome_iff_exists, Option.any_eq_true]
        simp only [JoinTable.hasKeys_iff, exists_and_left]
      simpa [collection?, isIndexed] using columns
    | _ => simp [collection?]

namespace Schema
variable {s : Schema} {entity path name : String} {segments : List String} {as : List Attribute}

/-- The segments name the attributes. -/
inductive Leads (s : Schema) : String → List String → List Attribute → Prop where
  | last {entity name : String} {a : Attribute} (found : s.attributeOf entity name = .ok a) :
      Leads s entity [name] [a]
  | onward {entity target name : String} {rest : List String} {a : Attribute} {as : List Attribute}
      (found : s.attributeOf entity name = .ok a) (reached : a.target? = some target)
      (below : Leads s target rest as) : Leads s entity (name :: rest) (a :: as)

/-- The text is a path, and it leads along the attributes. -/
structure Resolves (s : Schema) (entity path : String) (as : List Attribute) : Prop where
  identifiers : ∀ segment ∈ Text.segments path, Text.isIdentifier segment = true
  leads : s.Leads entity (Text.segments path) as

theorem resolves_iff :
    s.Resolves entity path as ↔
      Text.checkPath path = .ok () ∧ s.Leads entity (Text.segments path) as := by
  rw [Text.checkPath_ok_iff]
  exact ⟨fun h => ⟨h.identifiers, h.leads⟩, fun h => ⟨h.1, h.2⟩⟩

theorem walk_ok_iff {rest : List String} :
    s.walk path entity (name :: rest) = .ok as ↔ s.Leads entity (name :: rest) as := by
  induction rest generalizing entity name as with
  | nil =>
    rw [walk, Outcome.bind_ok_iff]
    constructor
    · rintro ⟨a, found, made⟩
      cases made
      exact .last found
    · intro h
      cases h with
      | last found => exact ⟨_, found, rfl⟩
      | onward _ _ below => cases below
  | cons next rest ih =>
    rw [walk, Outcome.bind_ok_iff]
    · constructor
      · rintro ⟨a, found, h⟩
        cases reached : a.target? with
        | none =>
          rw [reached] at h
          cases h
        | some target =>
          rw [reached] at h
          obtain ⟨below, walked, made⟩ := Outcome.bind_ok_iff.mp h
          cases made
          exact .onward found reached (ih.mp walked)
      · intro h
        cases h with
        | onward found reached below =>
          refine ⟨_, found, ?_⟩
          rw [reached]
          exact Outcome.bind_ok_iff.mpr ⟨_, ih.mpr below, rfl⟩
    · rintro ⟨⟩

theorem attributesAlong_ok_iff :
    s.attributesAlong entity path = .ok as ↔ s.Resolves entity path as := by
  rw [attributesAlong, Outcome.bind_ok_iff]
  have walks : s.walk path entity (Text.segments path) = .ok as ↔
      s.Leads entity (Text.segments path) as := by
    cases parts : Text.segments path with
    | nil => exact absurd parts (Text.segments_ne_nil path)
    | cons name rest => exact walk_ok_iff
  constructor
  · rintro ⟨_, checked, walked⟩
    exact ⟨Text.checkPath_ok_iff.mp checked, walks.mp walked⟩
  · rintro ⟨identifiers, leads⟩
    exact ⟨(), Text.checkPath_ok_iff.mpr identifiers, walks.mpr leads⟩

/-- `b` is an attribute of the entity that `a` leads to. -/
def LeadsTo (s : Schema) (a b : Attribute) : Prop :=
  ∃ target, a.target? = some target ∧ s.attributeOf target b.name = .ok b

/-- Where names lead: to attributes of these names, the first one of the entity and each further
one of the entity that the one before it leads to. -/
theorem leads_iff {names : List String} :
    s.Leads entity names as ↔ as ≠ [] ∧ as.map Attribute.name = names ∧
      (∀ a ∈ as.head?, s.attributeOf entity a.name = .ok a) ∧ as.IsChain s.LeadsTo := by
  constructor
  · intro h
    induction h with
    | @last entity name a found =>
      have named := attributeOf_name found
      exact ⟨by simp, by simp [named], by simpa [named] using found, .singleton a⟩
    | @onward entity target name rest a as found reached below ih =>
      obtain ⟨nonempty, names, first, chain⟩ := ih
      have named := attributeOf_name found
      refine ⟨by simp, by simp [named, names], by simpa [named] using found, ?_⟩
      cases as with
      | nil => exact absurd rfl nonempty
      | cons b as => exact .cons_cons ⟨target, reached, first b rfl⟩ chain
  · rintro ⟨nonempty, rfl, first, chain⟩
    induction as generalizing entity with
    | nil => exact absurd rfl nonempty
    | cons a as ih =>
      have found := first a rfl
      cases as with
      | nil => exact .last found
      | cons b as =>
        obtain ⟨⟨target, reached, next⟩, chain⟩ := List.isChain_cons_cons.mp chain
        refine .onward found reached (ih (by simp) ?_ chain)
        rintro c ⟨⟩
        exact next

/-- Names lead on from where the names before them end. -/
theorem leads_append_iff {names more : List String} (nonempty : names ≠ [])
    (others : more ≠ []) :
    s.Leads entity (names ++ more) as ↔ ∃ bs b target cs, s.Leads entity names bs ∧
      bs.getLast? = some b ∧ b.target? = some target ∧ s.Leads target more cs ∧
      as = bs ++ cs := by
  constructor
  · intro h
    induction names generalizing entity as with
    | nil => exact absurd rfl nonempty
    | cons name rest ih =>
      cases rest with
      | nil =>
        cases h with
        | last found => exact absurd rfl others
        | @onward _ target _ _ a as found reached below =>
          exact ⟨[a], a, target, as, .last found, rfl, reached, below, rfl⟩
      | cons next rest =>
        cases h with
        | @onward _ target _ _ a as found reached below =>
          obtain ⟨bs, b, onward, cs, leads, last, on, further, rfl⟩ := ih (by simp) below
          refine ⟨a :: bs, b, onward, cs, .onward found reached leads, ?_, on, further, rfl⟩
          rw [List.getLast?_cons, last, Option.getD_some]
  · rintro ⟨bs, b, target, cs, leads, last, reached, below, rfl⟩
    induction leads with
    | last found =>
      cases last
      exact .onward found reached below
    | @onward entity next name rest a as found onward leads ih =>
      obtain ⟨some, -⟩ := leads_iff.mp leads
      rw [List.getLast?_cons, List.getLast?_eq_some_getLast some] at last
      refine .onward found onward (ih (by rintro rfl; cases leads) ?_)
      rw [List.getLast?_eq_some_getLast some]
      exact last

theorem attributesAlong_name_iff (identifier : Text.isIdentifier name = true) :
    s.attributesAlong entity name = .ok as ↔
      ∃ a, s.attributeOf entity name = .ok a ∧ as = [a] := by
  rw [attributesAlong_ok_iff, resolves_iff, Text.segments_of_isIdentifier identifier,
    and_iff_right (Text.checkPath_of_isIdentifier identifier)]
  constructor
  · intro leads
    cases leads with
    | last found => exact ⟨_, found, rfl⟩
    | onward _ _ below => cases below
  · rintro ⟨a, found, rfl⟩
    exact .last found

/-- A path leads on from where the path before it ends. -/
theorem attributesAlong_append_iff {more : String} :
    s.attributesAlong entity (path ++ "." ++ more) = .ok as ↔ ∃ bs b target cs,
      s.attributesAlong entity path = .ok bs ∧ bs.getLast? = some b ∧
      b.target? = some target ∧ s.attributesAlong target more = .ok cs ∧ as = bs ++ cs := by
  have parts := @leads_append_iff s entity as _ _ (Text.segments_ne_nil path)
    (Text.segments_ne_nil more)
  simp only [attributesAlong_ok_iff, resolves_iff, Text.checkPath_append_iff, Text.segments_append,
    parts]
  constructor
  · rintro ⟨⟨valid, other⟩, bs, b, target, cs, leads, last, reached, below, rfl⟩
    exact ⟨bs, b, target, cs, ⟨valid, leads⟩, last, reached, ⟨other, below⟩, rfl⟩
  · rintro ⟨bs, b, target, cs, ⟨valid, leads⟩, last, reached, ⟨other, below⟩, rfl⟩
    exact ⟨⟨valid, other⟩, bs, b, target, cs, leads, last, reached, below, rfl⟩

theorem Resolves.unique {bs : List Attribute} (h : s.Resolves entity path as)
    (other : s.Resolves entity path bs) : as = bs := by
  have same := attributesAlong_ok_iff.mpr h
  rw [attributesAlong_ok_iff.mpr other] at same
  exact (Except.ok.inj same).symm

theorem listsByIndex_of_resolves (h : s.Resolves entity path as) :
    s.listsByIndex entity path = .ok (as.getLast?.any Attribute.listsByIndex) := by
  rw [listsByIndex, Text.checkPath_ok_iff.mpr h.identifiers]
  show (s.attributesAlong entity path >>= fun as => _) = _
  rw [attributesAlong_ok_iff.mpr h]
  rfl

end Schema
end EntityQuery
