import EntityQuery.Proofs.Text.Paths
import EntityQuery.View.ObjectPath

/-!
# Reading and writing along paths

A value that was written at a path is read there, a second write leaves nothing of the first, and a
value that was read is there already. Writing fails exactly where reading does, and what it changes
is not seen from paths that go another way.
-/

namespace EntityQuery

namespace ObjectPath
variable {s : String} {rest p q : List String} {value other object : Value}
  {fields : Catalog Value}

/-- Puts the value where the segments lead, and without any in place of the whole. -/
def replace (value : Value) : List String → Value → Written Unit
  | [], _ => ⟨value, .ok ()⟩
  | s :: rest, object =>
    match fields? object with
    | none => ⟨object, .error (.access (.write value s object.kind))⟩
    | some fields =>
      let written := replace value rest ((Catalog.find? s fields).getD .null)
      ⟨.object (Catalog.insert s written.object fields), written.outcome⟩

theorem replace_cons (h : fields? object = some fields) :
    replace value (s :: rest) object =
      ⟨.object (Catalog.insert s
        (replace value rest ((Catalog.find? s fields).getD .null)).object fields),
        (replace value rest ((Catalog.find? s fields).getD .null)).outcome⟩ := by
  rw [replace, h]

theorem replace_scalar (h : fields? object = none) :
    replace value (s :: rest) object =
      ⟨object, .error (.access (.write value s object.kind))⟩ := by
  rw [replace, h]

theorem setWithin_eq (h : p ≠ []) : setWithin value p object = replace value p object := by
  induction p generalizing object with
  | nil => exact absurd rfl h
  | cons s rest ih =>
    rw [setWithin]
    cases found : fields? object with
    | none => rw [replace_scalar found]
    | some fields =>
      rw [replace_cons found]
      cases rest with
      | nil => rfl
      | cons t rest => rw [← ih (List.cons_ne_nil t rest)]; rfl

theorem get_nil : get ⟨[]⟩ value = .ok (if value.isNull then none else some value) := by
  cases h : value.isNull <;> simp [get, descend, h, bind, Except.bind, Option.filter]

theorem get_null : get ⟨p⟩ .null = .ok none := by
  cases p with
  | nil => rfl
  | cons s rest => rfl

theorem get_cons (h : fields? object = some fields) :
    get ⟨s :: rest⟩ object = get ⟨rest⟩ ((Catalog.find? s fields).getD .null) := by
  cases object with
  | null =>
    cases h
    exact get_null.symm
  | object held =>
    cases h
    cases found : Catalog.find? s fields with
    | none =>
      rw [Option.getD_none, get_null]
      simp [get, descend, found, bind, Except.bind]
    | some next => simp [get, descend, found]
  | _ => cases h

theorem get_scalar (h : fields? object = none) :
    get ⟨s :: rest⟩ object = .error (.access (.read s object.kind)) := by
  cases object with
  | null | object => cases h
  | _ => rfl

theorem outcome_replace_iff :
    (replace value p object).outcome = .ok () ↔ ∃ r, get ⟨p⟩ object = .ok r := by
  induction p generalizing object with
  | nil => exact iff_of_true rfl ⟨_, get_nil⟩
  | cons s rest ih =>
    cases found : fields? object with
    | none =>
      rw [replace_scalar found, get_scalar found]
      exact iff_of_false nofun nofun
    | some fields => rw [replace_cons found, get_cons found, ih]

theorem exists_fields_of_replace (h : (replace value (s :: rest) object).outcome = .ok ()) :
    ∃ fields, fields? object = some fields ∧
      (replace value rest ((Catalog.find? s fields).getD .null)).outcome = .ok () := by
  cases found : fields? object with
  | none =>
    rw [replace_scalar found] at h
    cases h
  | some fields =>
    rw [replace_cons found] at h
    exact ⟨fields, rfl, h⟩

theorem get_replace (h : (replace value p object).outcome = .ok ()) :
    get ⟨p⟩ (replace value p object).object = get ⟨[]⟩ value := by
  induction p generalizing object with
  | nil => rfl
  | cons s rest ih =>
    obtain ⟨fields, found, done⟩ := exists_fields_of_replace h
    rw [replace_cons found, get_cons rfl, Catalog.find?_insert_self, Option.getD_some, ih done]

theorem replace_replace (h : (replace value p object).outcome = .ok ()) :
    replace other p (replace value p object).object = replace other p object := by
  induction p generalizing object with
  | nil => rfl
  | cons s rest ih =>
    obtain ⟨fields, found, done⟩ := exists_fields_of_replace h
    rw [replace_cons found, replace_cons found, replace_cons rfl, Catalog.find?_insert_self,
      Option.getD_some, ih done, Catalog.insert_insert]

theorem eq_object_of_find? {v : Value} (h : fields? object = some fields)
    (found : Catalog.find? s fields = some v) : object = .object fields := by
  cases object with
  | null =>
    cases h
    cases found
  | object held =>
    cases h
    rfl
  | _ => cases h

theorem replace_of_get (h : get ⟨p⟩ object = .ok (some value)) :
    replace value p object = ⟨object, .ok ()⟩ := by
  induction p generalizing object with
  | nil =>
    rw [get_nil, Except.ok.injEq] at h
    cases void : object.isNull with
    | true =>
      rw [void] at h
      cases h
    | false =>
      rw [void] at h
      cases h
      rfl
  | cons s rest ih =>
    cases found : fields? object with
    | none =>
      rw [get_scalar found] at h
      cases h
    | some fields =>
      rw [get_cons found] at h
      cases next : Catalog.find? s fields with
      | none =>
        rw [next, Option.getD_none, get_null] at h
        cases h
      | some v =>
        rw [next, Option.getD_some] at h
        rw [replace_cons found, next, Option.getD_some, ih h, Catalog.insert_of_find? next,
          eq_object_of_find? found next]

/-- The paths go the same way up to some place and different ways from there. -/
theorem get_replace_of_diverges (h : (replace value p object).outcome = .ok ())
    (hpq : ¬ p <+: q) (hqp : ¬ q <+: p) :
    get ⟨q⟩ (replace value p object).object = get ⟨q⟩ object := by
  induction p generalizing q object with
  | nil => exact absurd List.nil_prefix hpq
  | cons s rest ih =>
    cases q with
    | nil => exact absurd List.nil_prefix hqp
    | cons t others =>
      obtain ⟨fields, found, done⟩ := exists_fields_of_replace h
      rw [replace_cons found, get_cons found, get_cons rfl]
      by_cases same : t = s
      · subst same
        rw [List.cons_prefix_cons, and_iff_right rfl] at hpq hqp
        rw [Catalog.find?_insert_self, Option.getD_some, ih done hpq hqp]
      · rw [Catalog.find?_insert_of_ne _ _ same]

theorem set_ofText (p : String) (value object : Value) :
    (ofText p).set value object = replace value (Text.segments p) object :=
  setWithin_eq (Text.segments_ne_nil p)

/-- Writing at a path succeeds exactly if reading there does, and a value that is read changes
nothing when it is written back. After a write the value is read, or nothing if it is null, a second
write leaves what it would have left without the first, and all paths that go another way read what
they read before. -/
theorem lens_laws (p : String) (v w object : Value) :
    let path := ofText p
    let written := path.set v object
    (written.outcome = .ok () ↔ ∃ r, path.get object = .ok r) ∧
      (∀ u, path.get object = .ok (some u) → path.set u object = ⟨object, .ok ()⟩) ∧
      (written.outcome = .ok () →
        path.get written.object = .ok (if v.isNull then none else some v) ∧
          path.set w written.object = ⟨(path.set w object).object, .ok ()⟩ ∧
          ∀ q, ¬ Text.segments p <+: Text.segments q → ¬ Text.segments q <+: Text.segments p →
            (ofText q).get written.object = (ofText q).get object) := by
  intro path written
  have written_eq : written = replace v (Text.segments p) object := set_ofText p v object
  rw [written_eq]
  refine ⟨outcome_replace_iff, fun u read => ?_, fun done => ⟨?_, ?_, ?_⟩⟩
  · rw [set_ofText]
    exact replace_of_get read
  · exact (get_replace done).trans get_nil
  · have readable := outcome_replace_iff.mp done
    rw [set_ofText, set_ofText, replace_replace done, ← outcome_replace_iff.mpr readable]
  · exact fun q hpq hqp => get_replace_of_diverges done hpq hqp

/-- A null parent becomes an object on the way to a field without a name. -/
theorem lens_laws_owner :
    let object := Value.object [("id", .int 1), ("owner", .null)]
    let path := ofText "owner..name"
    let written := path.set (.text "Bob") object
    written.object =
        .object [("id", .int 1), ("owner", .object [("", .object [("name", .text "Bob")])])] ∧
      written.outcome = .ok () ∧ path.get written.object = .ok (some (.text "Bob")) ∧
      path.set .null written.object = ⟨(path.set .null object).object, .ok ()⟩ ∧
      path.set (.text "Bob") written.object = ⟨written.object, .ok ()⟩ ∧
      (ofText "owner.age").get written.object = .ok none ∧
      (ofText "id.x").get written.object = .error (.access (.read "x" .number)) := by
  intro object path written
  have done : written.outcome = .ok () := rfl
  obtain ⟨-, -, laws⟩ := lens_laws "owner..name" (.text "Bob") .null object
  obtain ⟨read, second, frame⟩ := laws done
  obtain ⟨-, back, -⟩ := lens_laws "owner..name" .null .null written.object
  refine ⟨?_, done, read, second, back _ read, ?_, ?_⟩
  · rfl
  · rw [frame "owner.age" (by decide +kernel) (by decide +kernel)]
    rfl
  · rw [frame "id.x" (by decide +kernel) (by decide +kernel)]
    rfl

end ObjectPath
end EntityQuery
