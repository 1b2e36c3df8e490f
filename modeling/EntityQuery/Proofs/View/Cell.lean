import EntityQuery.Proofs.View.Layout
import EntityQuery.View.Updater

/-!
# One cell for each attribute

Loaded values, slots and the positions that tie them together are read as one cell for each
attribute: the value it was loaded with, and the change that is not yet written. A setter
puts a change into one cell. Clearing the markers of a snapshot settles each cell on its own,
and a settled cell keeps its current value.
-/

namespace EntityQuery

@[ext]
structure Cell where
  loaded : Value
  change? : Option Change

namespace Cell

def current (c : Cell) : Value :=
  match c.change? with
  | some change => change.value
  | none => c.loaded

/-- A captured change that is still the latest one becomes the loaded value. -/
def settle (captured? : Option Change) (c : Cell) : Cell :=
  match captured?, c.change? with
  | some captured, some change =>
    if change.stamp = captured.stamp then ⟨change.value, none⟩ else c
  | _, _ => c

@[simp] theorem settle_none (c : Cell) : c.settle none = c := rfl

/-- Settling either leaves the cell or takes its change in, and then the stamps agree. -/
theorem settle_cases (captured? : Option Change) (c : Cell) :
    (c.settle captured? = c ∧ ∀ captured change, captured? = some captured →
      c.change? = some change → change.stamp ≠ captured.stamp) ∨
    ∃ captured change, captured? = some captured ∧ c.change? = some change ∧
      change.stamp = captured.stamp ∧ c.settle captured? = ⟨change.value, none⟩ := by
  cases captured? with
  | none => exact Or.inl ⟨rfl, fun _ _ h => by cases h⟩
  | some captured =>
    obtain ⟨loaded, change?⟩ := c
    cases change? with
    | none => exact Or.inl ⟨rfl, fun _ _ _ h => by cases h⟩
    | some change =>
      by_cases hs : change.stamp = captured.stamp
      · refine Or.inr ⟨captured, change, rfl, rfl, hs, ?_⟩
        simp [settle, hs]
      · refine Or.inl ⟨by simp [settle, hs], ?_⟩
        intro x y hx hy
        cases hx
        cases hy
        exact hs

@[simp] theorem current_settle (captured? : Option Change) (c : Cell) :
    (c.settle captured?).current = c.current := by
  rcases settle_cases captured? c with ⟨h, -⟩ | ⟨captured, change, -, hc, -, h⟩
  · rw [h]
  · rw [h]
    simp [current, hc]

theorem current_of_clean {c : Cell} (h : c.change? = none) : c.current = c.loaded := by
  simp [current, h]

theorem current_of_changed {c : Cell} {change : Change} (h : c.change? = some change) :
    c.current = change.value := by
  simp [current, h]

end Cell

namespace ViewType

/-- The slot of the attribute at a position. -/
def slotAt? (v : ViewType) (position : Nat) : Option Nat :=
  v.slotPositions.findIdx? (· == position)

theorem slotAt?_eq_some_iff {v : ViewType} (h : v.WellFormed) {position slot : Nat} :
    v.slotAt? position = some slot ↔ v.slotPositions[slot]? = some position := by
  rw [slotAt?, List.findIdx?_eq_some_iff_getElem, List.getElem?_eq_some_iff]
  constructor
  · rintro ⟨hlt, hp, -⟩
    exact ⟨hlt, by simpa using hp⟩
  · rintro ⟨hlt, hp⟩
    refine ⟨hlt, by simpa using hp, ?_⟩
    intro j hj hsame
    have : v.slotPositions[j] = v.slotPositions[slot] := by rw [hp]; simpa using hsame
    have := (slotPositions_nodup h).getElem_inj_iff.mp this
    omega

theorem slotAt?_of_writable {v : ViewType} (h : v.WellFormed) {a : ViewAttribute} {k : Nat}
    (ha : v.writable[k]? = some a) : v.slotAt? a.position = some k := by
  rw [slotAt?_eq_some_iff h, slotPositions, List.getElem?_map, ha]
  rfl

theorem slotAt?_eq_none_iff {v : ViewType} {position : Nat} :
    v.slotAt? position = none ↔ position ∉ v.slotPositions := by
  rw [slotAt?, List.findIdx?_eq_none_iff]
  constructor
  · intro h hp
    simpa using h position hp
  · intro h p hp
    simpa using fun heq : p = position => h (heq ▸ hp)

end ViewType

namespace Snapshot

/-- A snapshot has the values and slots of an instance of the view type. -/
structure Fits (s : Snapshot) (v : ViewType) : Prop where
  loaded_length : s.loaded.length = v.attributes.length
  slots_length : s.slots.length = v.slotPositions.length

/-- The change of an attribute that a snapshot holds. -/
def captured? (s : Snapshot) (v : ViewType) (a : ViewAttribute) : Option Change :=
  (v.slotAt? a.position).bind fun slot => (s.slots[slot]?).getD none

end Snapshot

namespace ViewInstance

def cell (i : ViewInstance) (a : ViewAttribute) : Cell :=
  ⟨(i.loaded[a.position]?).getD .null, (i.slot? a.position).bind i.change?⟩

/-- An instance has a value for each attribute of its view type and a slot for each that it
can write. -/
structure Fits (i : ViewInstance) (v : ViewType) : Prop where
  view_eq : i.view = v
  loaded_length : i.loaded.length = v.attributes.length
  slots_length : i.slots.length = v.slotPositions.length

theorem Fits.snapshot {i : ViewInstance} {v : ViewType} (hi : i.Fits v) : i.snapshot.Fits v :=
  ⟨hi.loaded_length, hi.slots_length⟩

theorem fits_ofValues {v : ViewType} {values : List Value} {i : ViewInstance}
    (h : ofValues v values = .ok i) : i.Fits v ∧ i.loaded = values ∧ i.freshStamp = 0 := by
  rw [ofValues] at h
  split at h
  · rename_i hlen
    cases h
    exact ⟨⟨rfl, hlen, by simp⟩, rfl, rfl⟩
  · cases h

/-- A new instance has no changes. -/
theorem cell_ofValues {v : ViewType} {values : List Value} {i : ViewInstance}
    (h : ofValues v values = .ok i) (a : ViewAttribute) :
    i.cell a = ⟨(values[a.position]?).getD .null, none⟩ := by
  rw [ofValues] at h
  split at h
  · cases h
    rw [cell]
    congr 1
    cases hslot : slot? _ a.position with
    | none => rfl
    | some slot =>
      simp only [Option.bind_some, change?, List.getElem?_replicate]
      split <;> rfl
  · cases h

section Fitting
variable {v : ViewType} {i : ViewInstance}

theorem captured?_snapshot (hi : i.Fits v) (a : ViewAttribute) :
    i.snapshot.captured? v a = (i.cell a).change? := by
  obtain ⟨rfl, -, -⟩ := hi
  rfl

theorem change?_of_not_writable (hv : v.WellFormed) (hi : i.Fits v) {a : ViewAttribute}
    (ha : a ∈ v.attributes) (hw : a.isWritable = false) : (i.cell a).change? = none := by
  have hslot : i.slot? a.position = none := by
    have hnone : v.slotAt? a.position = none := by
      rw [ViewType.slotAt?_eq_none_iff, ViewType.position_mem_slotPositions hv ha, hw]
      exact Bool.false_ne_true
    rwa [← hi.view_eq] at hnone
  simp [cell, hslot]

theorem position_eq (hv : v.WellFormed) (hi : i.Fits v) {a : ViewAttribute}
    (ha : a ∈ v.attributes) : i.position a.name = .ok a.position := by
  simp [position, hi.view_eq, ViewType.attribute?_eq hv ha]

theorem get_eq_current (hv : v.WellFormed) (hi : i.Fits v) {a : ViewAttribute}
    (ha : a ∈ v.attributes) : i.get a.name = .ok (i.cell a).current := by
  simp only [get, position_eq hv hi ha, bind, Except.bind]
  cases hc : (i.slot? a.position).bind i.change? with
  | none =>
    rw [Cell.current_of_clean (c := i.cell a) hc]
    rfl
  | some change => rw [Cell.current_of_changed (c := i.cell a) hc]

theorem change?_of_slotAt? (hi : i.Fits v) {a : ViewAttribute} {slot : Nat}
    (hslot : v.slotAt? a.position = some slot) : (i.cell a).change? = i.change? slot := by
  have hs : i.slot? a.position = some slot := by rw [← hslot, ← hi.view_eq]; rfl
  simp [cell, hs]

/-- An instance has changes if one of its writable attributes has one. -/
theorem hasChanges_iff (hv : v.WellFormed) (hi : i.Fits v) :
    i.hasChanges = true ↔ ∃ a ∈ v.writable, (i.cell a).change?.isSome = true := by
  rw [hasChanges, List.any_eq_true]
  constructor
  · rintro ⟨x, hx, hsome⟩
    obtain ⟨k, hk, rfl⟩ := List.mem_iff_getElem.mp hx
    have hlt : k < v.writable.length := by
      have := hi.slots_length
      rw [ViewType.slotPositions, List.length_map] at this
      omega
    have hslot := ViewType.slotAt?_of_writable hv (List.getElem?_eq_getElem hlt)
    refine ⟨_, List.getElem_mem hlt, ?_⟩
    rw [change?_of_slotAt? hi hslot, change?, List.getElem?_eq_getElem hk]
    exact hsome
  · rintro ⟨a, ha, hsome⟩
    obtain ⟨k, hk, rfl⟩ := List.mem_iff_getElem.mp ha
    have hslot := ViewType.slotAt?_of_writable hv (List.getElem?_eq_getElem hk)
    have hlt : k < i.slots.length := by
      rw [hi.slots_length, ViewType.slotPositions, List.length_map]
      exact hk
    rw [change?_of_slotAt? hi hslot, change?, List.getElem?_eq_getElem hlt] at hsome
    exact ⟨_, List.getElem_mem hlt, hsome⟩

/-! Setters. -/

theorem change?_put (hv : v.WellFormed) (hi : i.Fits v) {slot position : Nat}
    (hslot : v.slotPositions[slot]? = some position) (x : Option Change) (next : ViewInstance)
    (view : next.view = i.view) (slots : next.slots = i.slots.set slot x) (b : ViewAttribute) :
    (next.cell b).change? = if b.position = position then x else (i.cell b).change? := by
  have hnext : next.slot? b.position = v.slotAt? b.position := by
    rw [← hi.view_eq, ← view]; rfl
  have hold : i.slot? b.position = v.slotAt? b.position := by rw [← hi.view_eq]; rfl
  have hlt : slot < i.slots.length := by
    rw [hi.slots_length]
    exact (List.getElem?_eq_some_iff.mp hslot).1
  show (next.slot? b.position).bind next.change? = _
  have hrhs : (i.cell b).change? = (i.slot? b.position).bind i.change? := rfl
  rw [hrhs, hnext, hold]
  cases hb : v.slotAt? b.position with
  | none =>
    have hne : b.position ≠ position := by
      intro heq
      exact ViewType.slotAt?_eq_none_iff.mp hb (heq ▸ List.mem_of_getElem? hslot)
    simp [hne]
  | some k =>
    have hk := (ViewType.slotAt?_eq_some_iff hv).mp hb
    by_cases hp : b.position = position
    · have hks : k = slot := by
        have := (ViewType.slotAt?_eq_some_iff hv).mpr hslot
        rw [← hp, hb] at this
        exact Option.some.inj this
      simp [change?, slots, hp, hks, hlt]
    · have hks : slot ≠ k := by
        rintro rfl
        rw [hslot] at hk
        exact hp (Option.some.inj hk).symm
      simp [change?, slots, hp, List.getElem?_set_ne hks]

/-- What an accepted setter does: one cell takes the value as a change with the next stamp. -/
structure Sets (v : ViewType) (a : ViewAttribute) (value : Value) (i next : ViewInstance) :
    Prop where
  fits : next.Fits v
  stamp : next.freshStamp = i.freshStamp + 1
  here : next.cell a = ⟨(i.cell a).loaded, some ⟨value, i.freshStamp⟩⟩
  elsewhere : ∀ b ∈ v.attributes, b ≠ a → next.cell b = i.cell b

theorem set_eq (hv : v.WellFormed) (hi : i.Fits v) {a : ViewAttribute} (ha : a ∈ v.attributes)
    {slot : Nat} (hslot : v.slotAt? a.position = some slot) (value : Value) :
    i.set a.name value = .ok
      { i with
        slots := i.slots.set slot (some ⟨value, i.freshStamp⟩)
        freshStamp := i.freshStamp + 1 } := by
  have hs : i.slot? a.position = some slot := by rw [← hslot, ← hi.view_eq]; rfl
  simp only [set, position_eq hv hi ha, bind, Except.bind, hs]

theorem set_sets (hv : v.WellFormed) (hi : i.Fits v) {a : ViewAttribute} (ha : a ∈ v.writable)
    (value : Value) : ∃ next, i.set a.name value = .ok next ∧ Sets v a value i next := by
  obtain ⟨hmem, hw⟩ := List.mem_filter.mp ha
  cases hslot : v.slotAt? a.position with
  | none =>
    exact absurd ((ViewType.position_mem_slotPositions hv hmem).mpr hw)
      (ViewType.slotAt?_eq_none_iff.mp hslot)
  | some slot =>
    have hp := (ViewType.slotAt?_eq_some_iff hv).mp hslot
    refine ⟨_, set_eq hv hi hmem hslot value, ?_⟩
    have put := change?_put hv hi hp _
      { i with
        slots := i.slots.set slot (some ⟨value, i.freshStamp⟩)
        freshStamp := i.freshStamp + 1 } rfl rfl
    constructor
    · exact ⟨hi.view_eq, hi.loaded_length, by simpa using hi.slots_length⟩
    · rfl
    · have := put a
      rw [if_pos rfl] at this
      exact Cell.ext rfl this
    · intro b hb hba
      have hne : b.position ≠ a.position := fun heq =>
        hba (ViewType.eq_of_position_eq hv hb hmem heq)
      have := put b
      rw [if_neg hne] at this
      exact Cell.ext rfl this

/-- Only writable attributes have setters. -/
theorem set_ok (hv : v.WellFormed) (hi : i.Fits v) {name : String} {value : Value}
    {next : ViewInstance} (h : i.set name value = .ok next) :
    ∃ a ∈ v.writable, a.name = name ∧ Sets v a value i next := by
  have hset := h
  rw [set] at h
  obtain ⟨position, hposition, h⟩ := Outcome.bind_ok_iff.mp h
  rw [ViewInstance.position] at hposition
  split at hposition
  · rename_i a hattribute
    cases hposition
    rw [hi.view_eq] at hattribute
    have hmem : a ∈ v.attributes := List.mem_of_find?_eq_some hattribute
    have hname : a.name = name := by simpa using List.find?_some hattribute
    have hw : a ∈ v.writable := by
      refine List.mem_filter.mpr ⟨hmem, ?_⟩
      rw [← ViewType.position_mem_slotPositions hv hmem]
      by_contra hnot
      have hnone : i.slot? a.position = none := by
        have := ViewType.slotAt?_eq_none_iff.mpr hnot
        rw [← hi.view_eq] at this
        exact this
      rw [hnone] at h
      cases h
    obtain ⟨other, hother, hsets⟩ := set_sets hv hi hw value
    rw [hname, hset] at hother
    cases hother
    exact ⟨a, hw, hname, hsets⟩
  · cases hposition

/-! Clearing the markers of a snapshot. -/

/-- Clearing a slot stores the change in it exactly when its stamp is the captured one. -/
theorem clearSlot_cases (i : ViewInstance) (slot : Nat) (captured : Change) :
    (i.clearSlot slot captured = i ∧
      ∀ change, i.change? slot = some change → change.stamp ≠ captured.stamp) ∨
    ∃ change, i.change? slot = some change ∧ change.stamp = captured.stamp ∧
      i.clearSlot slot captured =
        { i with slots := i.slots.set slot none, loaded := i.storeSlot slot change.value } := by
  rw [clearSlot]
  cases hc : i.change? slot with
  | none => exact Or.inl ⟨rfl, fun _ h => by cases h⟩
  | some change =>
    by_cases hs : change.stamp = captured.stamp
    · exact Or.inr ⟨change, rfl, hs, if_pos hs⟩
    · refine Or.inl ⟨if_neg hs, ?_⟩
      intro other hother
      cases hother
      exact hs

theorem storeSlot_length (i : ViewInstance) (slot : Nat) (value : Value) :
    (i.storeSlot slot value).length = i.loaded.length := by
  rw [storeSlot]
  split
  · exact List.length_set
  · rfl

theorem fits_clearCaptured (hi : i.Fits v) (entry : Nat × Option Change) :
    (i.clearCaptured entry).Fits v := by
  obtain ⟨slot, captured?⟩ := entry
  cases captured? with
  | none => exact hi
  | some captured =>
    show (i.clearSlot slot captured).Fits v
    rcases clearSlot_cases i slot captured with ⟨h, -⟩ | ⟨change, -, -, h⟩
    · rwa [h]
    · rw [h]
      exact ⟨hi.view_eq, (storeSlot_length i slot change.value).trans hi.loaded_length,
        List.length_set.trans hi.slots_length⟩

theorem freshStamp_clearCaptured (i : ViewInstance) (entry : Nat × Option Change) :
    (i.clearCaptured entry).freshStamp = i.freshStamp := by
  obtain ⟨slot, captured?⟩ := entry
  cases captured? with
  | none => rfl
  | some captured =>
    show (i.clearSlot slot captured).freshStamp = _
    rcases clearSlot_cases i slot captured with ⟨h, -⟩ | ⟨change, -, -, h⟩ <;> rw [h]

/-- The attribute whose slot is cleared takes the change in, and all others stay. -/
theorem cell_store (hv : v.WellFormed) (hi : i.Fits v) {a : ViewAttribute}
    (ha : a ∈ v.attributes) {slot : Nat} {change : Change} (hc : i.change? slot = some change) :
    ({ i with
        slots := i.slots.set slot none
        loaded := i.storeSlot slot change.value } : ViewInstance).cell a =
      if v.slotAt? a.position = some slot then ⟨change.value, none⟩ else i.cell a := by
  have hlt : slot < v.slotPositions.length := by
    rw [← hi.slots_length]
    by_contra hge
    rw [change?, List.getElem?_eq_none (by omega)] at hc
    cases hc
  obtain ⟨position, hp⟩ : ∃ position, v.slotPositions[slot]? = some position :=
    ⟨_, List.getElem?_eq_getElem hlt⟩
  have hstore : i.storeSlot slot change.value = i.loaded.set position change.value := by
    rw [storeSlot, hi.view_eq, hp]
  have put := change?_put hv hi hp none
    { i with slots := i.slots.set slot none, loaded := i.storeSlot slot change.value } rfl rfl a
  have hat : v.slotAt? a.position = some slot ↔ a.position = position := by
    rw [ViewType.slotAt?_eq_some_iff hv, hp]
    exact ⟨fun h => (Option.some.inj h).symm, fun h => congrArg some h.symm⟩
  have hposition : a.position < i.loaded.length := by
    rw [hi.loaded_length]
    exact ViewType.position_lt hv ha
  by_cases heq : a.position = position
  · rw [if_pos heq] at put
    rw [if_pos (hat.mpr heq)]
    refine Cell.ext ?_ put
    simp [cell, hstore, heq, heq ▸ hposition]
  · rw [if_neg heq] at put
    rw [if_neg (fun h => heq (hat.mp h))]
    refine Cell.ext ?_ put
    simp [cell, hstore, List.getElem?_set_ne (Ne.symm heq)]

theorem cell_clearCaptured (hv : v.WellFormed) (hi : i.Fits v) {a : ViewAttribute}
    (ha : a ∈ v.attributes) (slot : Nat) (captured? : Option Change) :
    (i.clearCaptured (slot, captured?)).cell a =
      if v.slotAt? a.position = some slot then (i.cell a).settle captured? else i.cell a := by
  cases captured? with
  | none =>
    rw [Cell.settle_none, ite_self]
    rfl
  | some captured =>
    show (i.clearSlot slot captured).cell a = _
    rcases clearSlot_cases i slot captured with ⟨h, differs⟩ | ⟨change, hc, hs, h⟩
    · rw [h]
      by_cases hslot : v.slotAt? a.position = some slot
      · rcases Cell.settle_cases (some captured) (i.cell a) with
          ⟨hkept, -⟩ | ⟨_, change, hcaptured, hchange, hs, -⟩
        · rw [if_pos hslot, hkept]
        · cases hcaptured
          rw [change?_of_slotAt? hi hslot] at hchange
          exact absurd hs (differs change hchange)
      · rw [if_neg hslot]
    · rw [h, cell_store hv hi ha hc]
      by_cases hslot : v.slotAt? a.position = some slot
      · have hchange : (i.cell a).change? = some change := by
          rw [change?_of_slotAt? hi hslot, hc]
        simp [hslot, Cell.settle, hchange, hs]
      · rw [if_neg hslot, if_neg hslot]

/-- Clearing the slots from `first` on settles the cells of these slots. -/
theorem clear_from (hv : v.WellFormed) (slots : List (Option Change)) (first : Nat)
    (hi : i.Fits v) :
    let next := ((slots.zipIdx first).map fun (captured, slot) => (slot, captured)).foldl
      clearCaptured i
    next.Fits v ∧ next.freshStamp = i.freshStamp ∧ ∀ a ∈ v.attributes,
      next.cell a = match v.slotAt? a.position with
        | some slot =>
          if first ≤ slot then (i.cell a).settle ((slots[slot - first]?).getD none) else i.cell a
        | none => i.cell a := by
  induction slots generalizing first i with
  | nil =>
    refine ⟨hi, rfl, ?_⟩
    intro a ha
    cases v.slotAt? a.position <;> simp
  | cons captured? rest ih =>
    have hfits := fits_clearCaptured hi (first, captured?)
    obtain ⟨fits, stamp, cells⟩ := ih (first + 1) hfits
    refine ⟨fits, stamp.trans (freshStamp_clearCaptured i _), ?_⟩
    intro a ha
    have hcell := cells a ha
    rw [cell_clearCaptured hv hi ha] at hcell
    refine hcell.trans ?_
    cases hslot : v.slotAt? a.position with
    | none => simp
    | some slot =>
      rcases Nat.lt_trichotomy slot first with hlt | heq | hgt
      · have h1 : ¬ first + 1 ≤ slot := by omega
        have h2 : ¬ first ≤ slot := by omega
        have h3 : slot ≠ first := by omega
        simp [h1, h2, h3]
      · subst heq
        have h1 : ¬ slot + 1 ≤ slot := by omega
        simp [h1]
      · have h1 : first + 1 ≤ slot := hgt
        have h2 : first ≤ slot := by omega
        have h3 : slot ≠ first := by omega
        have h4 : slot - first = slot - (first + 1) + 1 := by omega
        simp [h1, h2, h3, h4]

theorem fits_clear (hv : v.WellFormed) (hi : i.Fits v) (s : Snapshot) : (i.clear s).Fits v :=
  (clear_from hv s.slots 0 hi).1

theorem freshStamp_clear (hv : v.WellFormed) (hi : i.Fits v) (s : Snapshot) :
    (i.clear s).freshStamp = i.freshStamp :=
  (clear_from hv s.slots 0 hi).2.1

/-- Clearing settles every cell with what the snapshot holds of its attribute. -/
theorem cell_clear (hv : v.WellFormed) (hi : i.Fits v) (s : Snapshot) {a : ViewAttribute}
    (ha : a ∈ v.attributes) : (i.clear s).cell a = (i.cell a).settle (s.captured? v a) := by
  refine ((clear_from hv s.slots 0 hi).2.2 a ha).trans ?_
  rw [Snapshot.captured?]
  cases v.slotAt? a.position <;> simp

theorem fits_complete (hv : v.WellFormed) (hi : i.Fits v) (s : Snapshot)
    (status : CompletionStatus) : (i.complete s status).Fits v := by
  cases status with
  | committed => exact fits_clear hv hi s
  | rolledBack => exact hi
  | unknown => exact hi

theorem freshStamp_complete (hv : v.WellFormed) (hi : i.Fits v) (s : Snapshot)
    (status : CompletionStatus) : (i.complete s status).freshStamp = i.freshStamp := by
  cases status with
  | committed => exact freshStamp_clear hv hi s
  | rolledBack => rfl
  | unknown => rfl

/-- No end of a transaction changes a current value. -/
theorem current_complete (hv : v.WellFormed) (hi : i.Fits v) (s : Snapshot)
    (status : CompletionStatus) {a : ViewAttribute} (ha : a ∈ v.attributes) :
    ((i.complete s status).cell a).current = (i.cell a).current := by
  cases status with
  | committed =>
    show ((i.clear s).cell a).current = _
    rw [cell_clear hv hi s ha, Cell.current_settle]
  | rolledBack => rfl
  | unknown => rfl

theorem get_of_unknown (hi : i.Fits v) {name : String} (h : v.attribute? name = none) :
    i.get name = .error (.attributeUnknown v.name name) := by
  simp [get, position, hi.view_eq, h, bind, Except.bind]

theorem get_complete (hv : v.WellFormed) (hi : i.Fits v) (s : Snapshot)
    (status : CompletionStatus) (name : String) :
    (i.complete s status).get name = i.get name := by
  have hnext := fits_complete hv hi s status
  cases h : v.attribute? name with
  | none => rw [get_of_unknown hnext h, get_of_unknown hi h]
  | some a =>
    have ha : a ∈ v.attributes := List.mem_of_find?_eq_some h
    obtain rfl : a.name = name := by simpa using List.find?_some h
    rw [get_eq_current hv hnext ha, get_eq_current hv hi ha, current_complete hv hi s status ha]

/-! Values that are there. -/

theorem loaded_getElem? (hv : v.WellFormed) (hi : i.Fits v) {a : ViewAttribute}
    (ha : a ∈ v.attributes) : i.loaded[a.position]? = some (i.cell a).loaded := by
  have hlt : a.position < i.loaded.length := by
    rw [hi.loaded_length]
    exact ViewType.position_lt hv ha
  simp [cell, hlt]

theorem id?_eq_current (hv : v.WellFormed) (hi : i.Fits v) {a : ViewAttribute}
    (hid : v.id? = some a) : i.id? = some (i.cell a).current := by
  obtain ⟨ha, hw⟩ := ViewType.mem_of_id? hid
  rw [Cell.current_of_clean (change?_of_not_writable hv hi ha hw), id?, hi.view_eq, hid]
  exact loaded_getElem? hv hi ha

end Fitting
end ViewInstance
end EntityQuery
