import EntityQuery.Proofs.View.ObjectPath

/-!
# Access that fails

Reading, writing and creating along a path fail together: where a value without fields stands before
the end of the path. Until then nothing was made, for below what is made there is no such value, so
that the object is left as it was.
-/

namespace EntityQuery
namespace ObjectPath
variable {s : String} {rest p : List String} {value object : Value} {fields : Catalog Value}

/-- The segments name fields, each inside the one before, and the last of them holds the value. -/
inductive Reaches : Value → List String → Value → Prop where
  | here (v : Value) : Reaches v [] v
  | inside {fields : Catalog Value} {s : String} {rest : List String} {next v : Value}
      (found : Catalog.find? s fields = some next) (below : Reaches next rest v) :
      Reaches (.object fields) (s :: rest) v

/-- A proper part of the path leads to a value that is neither null nor an object. -/
def Blocked (p : List String) (object : Value) : Prop :=
  ∃ q v, q <+: p ∧ q ≠ p ∧ Reaches object q v ∧ v.kind ≠ .null ∧ v.kind ≠ .object

theorem fields?_eq_none_iff :
    fields? object = none ↔ object.kind ≠ .null ∧ object.kind ≠ .object := by
  cases object <;> simp [fields?, Value.kind]

theorem not_blocked_nil : ¬ Blocked [] object := by
  rintro ⟨q, -, part, proper, -⟩
  exact proper (List.prefix_nil.mp part)

theorem not_blocked_null : ¬ Blocked p .null := by
  rintro ⟨q, v, -, -, reached, present, -⟩
  cases reached
  exact present rfl

theorem blocked_scalar (h : fields? object = none) : Blocked (s :: rest) object :=
  ⟨[], object, List.nil_prefix, (List.cons_ne_nil s rest).symm, .here object,
    fields?_eq_none_iff.mp h⟩

/-- The value of the first segment is blocked for the rest, where a missing one counts as null. -/
theorem blocked_cons (h : fields? object = some fields) :
    Blocked (s :: rest) object ↔ Blocked rest ((Catalog.find? s fields).getD .null) := by
  cases object with
  | null =>
    cases h
    exact iff_of_false not_blocked_null not_blocked_null
  | object held =>
    cases h
    constructor
    · rintro ⟨q, v, part, proper, reached, present, scalar⟩
      cases reached with
      | here => exact absurd rfl scalar
      | @inside _ t onward _ _ found below =>
        obtain ⟨rfl, shorter⟩ := List.cons_prefix_cons.mp part
        rw [found]
        exact ⟨onward, v, shorter, fun whole => proper (whole ▸ rfl), below, present, scalar⟩
    · intro blocked
      cases found : Catalog.find? s fields with
      | none =>
        rw [found] at blocked
        exact absurd blocked not_blocked_null
      | some next =>
        rw [found] at blocked
        obtain ⟨q, v, part, proper, reached, present, scalar⟩ := blocked
        refine ⟨s :: q, v, List.cons_prefix_cons.mpr ⟨rfl, part⟩, ?_, .inside found reached, present,
          scalar⟩
        exact fun whole => proper (List.cons.inj whole).2
  | _ => cases h

theorem get_error_iff : (∃ e, get ⟨p⟩ object = .error e) ↔ Blocked p object := by
  induction p generalizing object with
  | nil =>
    rw [get_nil]
    exact iff_of_false nofun not_blocked_nil
  | cons s rest ih =>
    cases found : fields? object with
    | none => exact iff_of_true ⟨_, get_scalar found⟩ (blocked_scalar found)
    | some fields => rw [get_cons found, blocked_cons found, ih]

theorem outcome_replace_error_iff :
    (∃ e, (replace value p object).outcome = .error e) ↔ Blocked p object := by
  rw [← get_error_iff]
  have together : (replace value p object).outcome = .ok () ↔ ∃ r, get ⟨p⟩ object = .ok r :=
    outcome_replace_iff
  cases read : get ⟨p⟩ object with
  | error e =>
    cases written : (replace value p object).outcome with
    | error f => exact iff_of_true ⟨f, rfl⟩ ⟨e, rfl⟩
    | ok u =>
      obtain ⟨r, success⟩ := together.mp written
      rw [read] at success
      cases success
  | ok r =>
    rw [together.mpr ⟨r, read⟩]
    exact iff_of_false nofun nofun

/-- Below the first segment nothing was changed, so that what is put back there is what was there. A
missing field cannot be the cause, for nothing fails below null. -/
theorem object_replace_of_error {e : ViewError}
    (h : (replace value p object).outcome = .error e) : (replace value p object).object = object := by
  induction p generalizing object with
  | nil => cases h
  | cons s rest ih =>
    cases found : fields? object with
    | none => rw [replace_scalar found]
    | some fields =>
      rw [replace_cons found] at h ⊢
      have same := ih h
      cases next : Catalog.find? s fields with
      | none =>
        rw [next] at h
        exact absurd (outcome_replace_error_iff.mp ⟨e, h⟩) not_blocked_null
      | some v =>
        rw [next, Option.getD_some] at same
        rw [Option.getD_some, same, Catalog.insert_of_find? next, eq_object_of_find? found next]

/-! Values that are made. -/

section Create
variable {text : String} {default : Option Value}

theorem set_error_iff :
    (∃ e, ((ofText text).set value object).outcome = .error e) ↔
      Blocked (Text.segments text) object := by
  rw [set_ofText, outcome_replace_error_iff]

theorem object_set_of_error {e : ViewError}
    (h : ((ofText text).set value object).outcome = .error e) :
    ((ofText text).set value object).object = object := by
  rw [set_ofText] at h ⊢
  exact object_replace_of_error h

/-- Reading decides whether anything is made, and it fails where writing would. -/
theorem getOrCreate_of_error {e : ViewError} (h : (ofText text).get object = .error e) :
    (ofText text).getOrCreate default object = ⟨object, .error e⟩ := by
  simp only [getOrCreate, h]

theorem getOrCreate_of_some (h : (ofText text).get object = .ok (some value)) :
    (ofText text).getOrCreate default object = ⟨object, .ok value⟩ := by
  simp only [getOrCreate, h]

theorem getOrCreate_of_none (h : (ofText text).get object = .ok none) :
    (ofText text).getOrCreate none object = ⟨object, .ok .null⟩ := by
  simp only [getOrCreate, h]

/-- The default is stored where nothing was read. -/
theorem getOrCreate_default (h : (ofText text).get object = .ok none) :
    (ofText text).getOrCreate (some value) object =
      ⟨((ofText text).set value object).object, .ok value⟩ := by
  have done : ((ofText text).set value object).outcome = .ok () := by
    rw [set_ofText]
    exact outcome_replace_iff.mpr ⟨none, h⟩
  simp only [getOrCreate, h, done]
  rfl

theorem getOrCreate_error_iff :
    (∃ e, ((ofText text).getOrCreate default object).outcome = .error e) ↔
      Blocked (Text.segments text) object := by
  rw [← get_error_iff]
  change _ ↔ ∃ e, (ofText text).get object = .error e
  cases read : (ofText text).get object with
  | error e =>
    rw [getOrCreate_of_error read]
    exact iff_of_true ⟨e, rfl⟩ ⟨e, rfl⟩
  | ok r =>
    refine iff_of_false ?_ nofun
    cases r with
    | some v =>
      rw [getOrCreate_of_some read]
      exact nofun
    | none =>
      cases default with
      | none =>
        rw [getOrCreate_of_none read]
        exact nofun
      | some v =>
        rw [getOrCreate_default read]
        exact nofun

theorem object_getOrCreate_of_error {e : ViewError}
    (h : ((ofText text).getOrCreate default object).outcome = .error e) :
    ((ofText text).getOrCreate default object).object = object := by
  have blocked := getOrCreate_error_iff.mp ⟨e, h⟩
  obtain ⟨f, read⟩ := get_error_iff.mpr blocked
  rw [getOrCreate_of_error read]

/-- A value that was made is read the next time. A null that was made is not read, and is made again
where it is. -/
theorem getOrCreate_again
    (h : ((ofText text).getOrCreate default object).outcome = .ok value) :
    (ofText text).getOrCreate default ((ofText text).getOrCreate default object).object =
      ⟨((ofText text).getOrCreate default object).object, .ok value⟩ := by
  cases read : (ofText text).get object with
  | error e =>
    rw [getOrCreate_of_error read] at h
    cases h
  | ok r =>
    cases r with
    | some v =>
      rw [getOrCreate_of_some read] at h ⊢
      cases h
      exact getOrCreate_of_some read
    | none =>
      cases default with
      | none =>
        rw [getOrCreate_of_none read] at h ⊢
        cases h
        exact getOrCreate_of_none read
      | some v =>
        rw [getOrCreate_default read] at h ⊢
        cases h
        have done : (replace value (Text.segments text) object).outcome = .ok () :=
          outcome_replace_iff.mpr ⟨none, read⟩
        have after : (ofText text).get ((ofText text).set value object).object =
            .ok (if value.isNull then none else some value) := by
          rw [set_ofText]
          exact (get_replace done).trans get_nil
        cases void : value.isNull with
        | false =>
          rw [void] at after
          exact getOrCreate_of_some after
        | true =>
          rw [void] at after
          rw [getOrCreate_default after, set_ofText, set_ofText, replace_replace done]

end Create

/-- Reading, writing any value, and creating with or without a default fail in the same cases, where
a proper part of the path leads to a value that is neither null nor an object. Whatever fails leaves
the object as it was, and where creating succeeded it gives the same value again and changes
nothing more. -/
theorem access_agrees (text : String) (object : Value) :
    let path := ofText text
    let blocked := Blocked (Text.segments text) object
    ((∃ e, path.getIfPresent (some object) = .error e) ↔ blocked) ∧
      (∀ v, (∃ e, (path.set v object).outcome = .error e) ↔ blocked) ∧
      (∀ default, (∃ e, (path.getOrCreate default object).outcome = .error e) ↔ blocked) ∧
      (blocked → (∀ v, (path.set v object).object = object) ∧
        ∀ default, (path.getOrCreate default object).object = object) ∧
      ∀ default v, (path.getOrCreate default object).outcome = .ok v →
        path.getOrCreate default (path.getOrCreate default object).object =
          ⟨(path.getOrCreate default object).object, .ok v⟩ := by
  intro path blocked
  refine ⟨get_error_iff, fun v => set_error_iff, fun default => getOrCreate_error_iff,
    fun stops => ⟨fun v => ?_, fun default => ?_⟩, fun default v => getOrCreate_again⟩
  · obtain ⟨e, failed⟩ := set_error_iff.mpr stops
    exact object_set_of_error failed
  · obtain ⟨e, failed⟩ := getOrCreate_error_iff.mpr stops
    exact object_getOrCreate_of_error failed

/-- A text has no fields, and a null owner gets an address. -/
theorem access_agrees_name :
    let object := Value.object [("name", .text "Doc"), ("owner", .null)]
    let first := ofText "name.first"
    let address := ofText "owner.address"
    let made := address.getOrCreate (some (.list [])) object
    Blocked (Text.segments "name.first") object ∧
      (∃ e, first.getIfPresent (some object) = .error e) ∧
      (first.set (.text "x") object).object = object ∧
      (first.getOrCreate (some .null) object).object = object ∧
      made.outcome = .ok (.list []) ∧
      made.object =
        .object [("name", .text "Doc"), ("owner", .object [("address", .list [])])] ∧
      address.getOrCreate (some (.list [])) made.object = ⟨made.object, .ok (.list [])⟩ := by
  intro object first address made
  have segments : Text.segments "name.first" = ["name", "first"] := by decide +kernel
  have blocked : Blocked (Text.segments "name.first") object :=
    segments ▸ ⟨["name"], .text "Doc", by decide, by decide, .inside rfl (.here _), nofun, nofun⟩
  obtain ⟨reads, -, -, stays, -⟩ := access_agrees "name.first" object
  obtain ⟨-, -, -, -, again⟩ := access_agrees "owner.address" object
  have done : made.outcome = .ok (.list []) := by rfl
  exact ⟨blocked, reads.mpr blocked, (stays blocked).1 _, (stays blocked).2 _, done, by rfl,
    again _ _ done⟩

end ObjectPath
end EntityQuery
