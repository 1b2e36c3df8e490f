import EntityQuery.Proofs.View.Lifetime

/-!
# Bindings and slots

An instance works out from its view type which slot stands for which attribute. An updater
works it out again when it is built, and leaves out what no path leads to. In a checked view
type nothing is left out, so that both have the same slots, and an update binds to each
column what the getter of its attribute gives.
-/

namespace EntityQuery

namespace Assignment

/-- The assignment of an attribute that a path leads to. -/
def ofAttribute (a : ViewAttribute) : Assignment := ⟨a.path?.getD "", a.name, a.position⟩

theorem ofAttribute?_eq {a : ViewAttribute} (h : a.path?.isSome = true) :
    ofAttribute? a = some (ofAttribute a) := by
  obtain ⟨path, hpath⟩ := Option.isSome_iff_exists.mp h
  simp [ofAttribute?, ofAttribute, hpath]

end Assignment

namespace Updater
variable {v : ViewType} {u : Updater} {i : ViewInstance}

/-- No writable attribute is left out. -/
theorem ofView_ok (hv : v.WellFormed) (h : ofView v = .ok u) :
    ∃ a, v.id? = some a ∧ a.path?.isSome = true ∧
      u = ⟨v, .ofAttribute a, v.writable.map .ofAttribute⟩ := by
  have all : v.writable.filterMap Assignment.ofAttribute? =
      v.writable.map Assignment.ofAttribute := by
    rw [← List.filterMap_eq_map]
    exact List.filterMap_congr fun a ha =>
      Assignment.ofAttribute?_eq (ViewType.path?_isSome hv ha)
  rw [ofView] at h
  split at h
  · cases h
  rename_i a hid
  split at h
  · cases h
  rename_i id hpath
  have hsome : a.path?.isSome = true := by
    cases hp : a.path? with
    | none => simp [Assignment.ofAttribute?, hp] at hpath
    | some path => rfl
  rw [Assignment.ofAttribute?_eq hsome] at hpath
  cases hpath
  rw [all] at h
  dsimp only at h
  split at h
  · cases h
  · cases h
    exact ⟨a, hid, hsome, rfl⟩

theorem slotPositions_eq (hv : v.WellFormed) (h : ofView v = .ok u) :
    u.slotPositions = v.slotPositions := by
  obtain ⟨a, -, -, rfl⟩ := ofView_ok hv h
  simp [slotPositions, ViewType.slotPositions, Assignment.ofAttribute]

/-- The slots of consecutive attributes are bound one after the other. -/
theorem bindSlots_eq (s : Snapshot) (value : ViewAttribute → Value) (l : List ViewAttribute)
    (slot : Nat) (h : ∀ k a, l[k]? = some a →
      bindSlot s (slot + k) (.ofAttribute a) = (a.name, value a)) :
    bindSlots s slot (l.map .ofAttribute) = l.map fun a => (a.name, value a) := by
  induction l generalizing slot with
  | nil => rfl
  | cons a rest ih =>
    rw [List.map_cons, List.map_cons, bindSlots]
    have here : bindSlot s slot (.ofAttribute a) = (a.name, value a) := h 0 a rfl
    have behind := ih (slot + 1) fun k b hb => by
      have := h (k + 1) b hb
      rwa [show slot + (k + 1) = slot + 1 + k by omega] at this
    rw [here, behind]

theorem bindSlot_eq (hv : v.WellFormed) (hi : i.Fits v) {a : ViewAttribute} {k : Nat}
    (ha : v.writable[k]? = some a) :
    bindSlot i.snapshot k (.ofAttribute a) = (a.name, (i.cell a).current) := by
  have hchange := ViewInstance.change?_of_slotAt? hi (ViewType.slotAt?_of_writable hv ha)
  have hchanged : i.snapshot.changedAt? k = (i.cell a).change?.map (·.value) := by
    rw [hchange, ViewInstance.change?, Snapshot.changedAt?]
    show (i.slots[k]?.bind fun x => x.bind fun change => some change.value) = _
    cases i.slots[k]? with
    | none => rfl
    | some x => cases x <;> rfl
  rw [bindSlot, hchanged]
  cases hc : (i.cell a).change? with
  | none => rw [Cell.current_of_clean hc]; rfl
  | some change => rw [Cell.current_of_changed hc]; rfl

/-- The id and then each writable attribute is bound to its current value. -/
theorem bindings_eq (hv : v.WellFormed) (hi : i.Fits v) (h : ofView v = .ok u) :
    ∃ a, v.id? = some a ∧ a.path?.isSome = true ∧ u.bindings i.snapshot =
      (a.name, (i.cell a).current) :: v.writable.map fun b => (b.name, (i.cell b).current) := by
  obtain ⟨a, hid, hpath, rfl⟩ := ofView_ok hv h
  refine ⟨a, hid, hpath, ?_⟩
  rw [bindings, bindSlots_eq i.snapshot (fun b => (i.cell b).current) v.writable 0]
  · obtain ⟨ha, hw⟩ := ViewType.mem_of_id? hid
    rw [Cell.current_of_clean (ViewInstance.change?_of_not_writable hv hi ha hw)]
    rfl
  · intro k b hb
    rw [Nat.zero_add]
    exact bindSlot_eq hv hi hb

end Updater

/-- The updater of documents. -/
def Updater.ofDocuments : Updater :=
  ⟨.ofDocuments, ⟨"id", "id", 0⟩, [⟨"name", "name", 1⟩, ⟨"age", "age", 2⟩]⟩

theorem Updater.ofDocuments_built : ofView .ofDocuments = .ok ofDocuments := rfl

/-! Places that are there. -/

/-- All places that getters, setters and the clearing of markers look up. -/
structure ViewInstance.InRange (i : ViewInstance) : Prop where
  loaded : ∀ name p, i.position name = .ok p → p < i.loaded.length
  slot : ∀ p k, i.slot? p = some k → k < i.slots.length
  stored : ∀ k < i.slots.length, ∃ p, i.view.slotPositions[k]? = some p ∧ p < i.loaded.length

/-- All places that the bindings of a snapshot look up. -/
structure Updater.InRange (u : Updater) (s : Snapshot) : Prop where
  id : u.id.position < s.loaded.length
  slots : u.assignments.length = s.slots.length
  loaded : ∀ a ∈ u.assignments, a.position < s.loaded.length

theorem ViewInstance.inRange {v : ViewType} (hv : v.WellFormed) {i : ViewInstance}
    (hi : i.Fits v) : i.InRange := by
  constructor
  · intro name p hp
    rw [position] at hp
    split at hp
    · rename_i a ha
      cases hp
      rw [hi.view_eq] at ha
      rw [hi.loaded_length]
      exact ViewType.position_lt hv (List.mem_of_find?_eq_some ha)
    · cases hp
  · intro p k hk
    have hk : v.slotAt? p = some k := by rw [← hi.view_eq]; exact hk
    rw [hi.slots_length]
    exact (List.getElem?_eq_some_iff.mp ((ViewType.slotAt?_eq_some_iff hv).mp hk)).1
  · intro k hk
    rw [hi.slots_length] at hk
    have hp := List.getElem?_eq_getElem hk
    rw [hi.view_eq, hi.loaded_length]
    exact ⟨_, hp, ViewType.slotPositions_lt hv (List.mem_of_getElem? hp)⟩

theorem Updater.inRange {v : ViewType} (hv : v.WellFormed) {u : Updater}
    (h : Updater.ofView v = .ok u) {s : Snapshot} (hs : s.Fits v) : u.InRange s := by
  obtain ⟨a, hid, -, rfl⟩ := ofView_ok hv h
  constructor
  · rw [hs.loaded_length]
    exact ViewType.position_lt hv (List.mem_of_find?_eq_some hid)
  · simp [hs.slots_length, ViewType.slotPositions]
  · intro b hb
    obtain ⟨c, hc, rfl⟩ := List.mem_map.mp hb
    rw [hs.loaded_length]
    exact ViewType.position_lt hv (List.mem_filter.mp hc).1

namespace Lifetime

/-- At any time of an instance its updater has the same slots, one for each writable
attribute in the order of their declaration, and binds the id and then what the getters give.
Every place that is looked up is there. -/
theorem bindings_agree {v : ViewType} (managed : v.Managed) {u : Updater}
    (built : Updater.ofView v = .ok u) {values : List Value} {i : ViewInstance}
    (made : ViewInstance.Made v values i) (events : List Event) :
    let w := (start i).run events
    u.slotPositions = w.current.view.slotPositions ∧
    u.slotPositions = v.writable.map (·.position) ∧
    (∀ a ∈ v.writable, v.attributes[a.position]? = some a) ∧
    (∃ a id rest, v.id? = some a ∧ w.current.id? = some id ∧
      u.bindings w.current.snapshot = (a.name, id) :: rest ∧
      List.Forall₂ (fun b (bound : String × Value) =>
        bound.1 = b.name ∧ w.current.get b.name = .ok bound.2) v.writable rest) ∧
    w.current.InRange ∧ u.InRange w.current.snapshot ∧
    ∀ s ∈ w.captured, u.InRange s ∧ s.slots.length = w.current.slots.length := by
  intro w
  have hv := managed.wellFormed
  have h : w.Fits v := fits_run hv made.fits events
  have hslots := Updater.slotPositions_eq hv built
  refine ⟨?_, hslots, ?_, ?_, ViewInstance.inRange hv h.current, ?_, ?_⟩
  · rw [hslots, h.current.view_eq]
  · intro a ha
    exact ViewType.attributes_getElem? hv (List.mem_filter.mp ha).1
  · obtain ⟨a, hid, -, hbindings⟩ := Updater.bindings_eq hv h.current built
    refine ⟨a, _, _, hid, ViewInstance.id?_eq_current hv h.current hid, hbindings, ?_⟩
    rw [List.forall₂_map_right_iff, List.forall₂_same]
    intro b hb
    exact ⟨rfl, ViewInstance.get_eq_current hv h.current (List.mem_filter.mp hb).1⟩
  · exact Updater.inRange hv built h.current.snapshot
  · intro s hs
    have hfits := h.captured s hs
    exact ⟨Updater.inRange hv built hfits, hfits.slots_length.trans h.current.slots_length.symm⟩

/-- One attribute of a document was written, one was changed since. -/
theorem bindings_agree_document :
    let w := (start .document).run
      [.set "age" (.text "X"), .snapshot, .set "name" (.text "N"), .complete 0 .committed]
    Updater.ofDocuments.slotPositions = w.current.view.slotPositions ∧
      w.current.id? = some (.int 1) ∧
      Updater.ofDocuments.bindings w.current.snapshot =
        [("id", .int 1), ("name", .text "N"), ("age", .text "X")] ∧
      List.Forall₂ (fun b (bound : String × Value) =>
        bound.1 = b.name ∧ w.current.get b.name = .ok bound.2) ViewType.ofDocuments.writable
        [("name", .text "N"), ("age", .text "X")] ∧
      w.current.InRange ∧ ∀ s ∈ w.captured, Updater.ofDocuments.InRange s := by
  intro w
  obtain ⟨slots, -, -, ⟨a, id, rest, -, hid, bound, getters⟩, range, -, captured⟩ :=
    bindings_agree ViewType.ofDocuments_managed Updater.ofDocuments_built
      ViewInstance.made_document
      [.set "age" (.text "X"), .snapshot, .set "name" (.text "N"), .complete 0 .committed]
  have bindings : Updater.ofDocuments.bindings w.current.snapshot =
      [("id", .int 1), ("name", .text "N"), ("age", .text "X")] := rfl
  obtain ⟨hhead, htail⟩ := List.cons.inj (bindings.symm.trans bound)
  have hvalue : id = .int 1 := (congrArg Prod.snd hhead).symm
  exact ⟨slots, hvalue ▸ hid, bindings, htail ▸ getters, range, fun s hs => (captured s hs).1⟩

end Lifetime
end EntityQuery
