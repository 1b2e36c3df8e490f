import EntityQuery.Proofs.View.Cell

/-!
# The lifetime of an instance

After its construction an instance sees setters, snapshots, updates in transactions of any
behaviour, and callbacks for the ends of these transactions: late, in any order, more than
once or never. The record of a lifetime says what happened, and numbers the snapshots in the
order in which they were taken. An update reads the instance once, when it takes its snapshot,
so that whatever happens while it waits for its transaction may as well happen after it.

The main statement: no change is lost. At any time a getter gives the value of the last
accepted setter, and the value of the construction where there was none.
-/

namespace EntityQuery

namespace ViewInstance

/-- An instance is made of one value for each attribute, given or read from an entity. -/
inductive Made (v : ViewType) (values : List Value) (i : ViewInstance) : Prop where
  | ofValues (h : ViewInstance.ofValues v values = .ok i) : Made v values i
  | ofEntity (entity : Value) (read : v.attributes.mapM (loadAttribute entity) = .ok values)
      (h : ViewInstance.ofEntity v entity = .ok i) : Made v values i

theorem Made.ofValues_eq {v : ViewType} {values : List Value} {i : ViewInstance}
    (h : Made v values i) : ViewInstance.ofValues v values = .ok i := by
  cases h with
  | ofValues h => exact h
  | ofEntity entity read h =>
    rw [ViewInstance.ofEntity] at h
    rw [read] at h
    exact h

theorem Made.fits {v : ViewType} {values : List Value} {i : ViewInstance}
    (h : Made v values i) : i.Fits v :=
  (fits_ofValues h.ofValues_eq).1

/-- A document with nothing changed. -/
def document : ViewInstance :=
  ⟨.ofDocuments, [.int 1, .text "A", .text "B", .text "K"], [none, none], 0⟩

theorem made_document : Made .ofDocuments document.loaded document := .ofValues rfl

end ViewInstance

namespace UpdateRun

/-- The snapshots whose callbacks a transaction was given, whatever it answered. -/
def offered (run : UpdateRun) : List Snapshot :=
  run.calls.filterMap fun
    | .register s => some s
    | .execute .. => none

end UpdateRun

namespace Updater

/-- An update that hands over no callback fails. -/
theorem offered_run (u : Updater) (t : Transaction) (i : ViewInstance) :
    (u.run t i).offered = [i.snapshot] ∨
      (u.run t i).offered = [] ∧ (u.run t i).outcome ≠ .ok () := by
  rw [run]
  split
  · exact Or.inr ⟨rfl, nofun⟩
  split
  · rw [execute]
    split
    · exact Or.inr ⟨rfl, nofun⟩
    split
    · rw [register]
      split <;> exact Or.inl rfl
    · exact Or.inr ⟨rfl, nofun⟩
  · exact Or.inr ⟨rfl, nofun⟩

end Updater

inductive Event where
  | set (name : String) (value : Value)
  | snapshot
  | update (u : Updater) (t : Transaction)
  | complete (number : Nat) (status : CompletionStatus)

/-- An accepted setter, a snapshot by its number, or a callback for one. -/
inductive Entry where
  | changed (name : String) (value : Value)
  | captured (number : Nat)
  | completed (number : Nat) (status : CompletionStatus)

/-- The number of the snapshot that an entry is about. -/
def Entry.number? : Entry → Option Nat
  | changed .. => none
  | captured number => some number
  | completed number _ => some number

structure Lifetime where
  current : ViewInstance
  captured : List Snapshot
  record : List Entry

namespace Lifetime

def start (i : ViewInstance) : Lifetime := ⟨i, [], []⟩

def capture (w : Lifetime) (s : Snapshot) : Lifetime :=
  { w with
    captured := w.captured ++ [s]
    record := w.record ++ [.captured w.captured.length] }

def step (w : Lifetime) : Event → Lifetime
  | .set name value =>
    match w.current.set name value with
    | .ok next => { w with current := next, record := w.record ++ [.changed name value] }
    | .error _ => w
  | .snapshot => w.capture w.current.snapshot
  | .update u t => (u.run t w.current).offered.foldl capture w
  | .complete number status =>
    match w.captured[number]? with
    | some s =>
      { w with
        current := w.current.complete s status
        record := w.record ++ [.completed number status] }
    | none => w

def run (w : Lifetime) (events : List Event) : Lifetime := events.foldl step w

/-- Nothing happens to an instance but accepted setters and callbacks, and nothing is
captured but its state. -/
theorem step_cases (w : Lifetime) (e : Event) :
    w.step e = w ∨
    (∃ name value next, w.current.set name value = .ok next ∧
      w.step e = ⟨next, w.captured, w.record ++ [.changed name value]⟩) ∨
    w.step e = w.capture w.current.snapshot ∨
    ∃ number status s, w.captured[number]? = some s ∧
      w.step e = ⟨w.current.complete s status, w.captured,
        w.record ++ [.completed number status]⟩ := by
  cases e with
  | set name value =>
    cases h : w.current.set name value with
    | error e => exact Or.inl (by simp [step, h])
    | ok next => exact Or.inr (Or.inl ⟨name, value, next, h, by simp [step, h]⟩)
  | snapshot => exact Or.inr (Or.inr (Or.inl rfl))
  | update u t =>
    rcases u.offered_run t w.current with h | ⟨h, -⟩
    · exact Or.inr (Or.inr (Or.inl (by simp [step, h])))
    · exact Or.inl (by simp [step, h])
  | complete number status =>
    cases h : w.captured[number]? with
    | none => exact Or.inl (by simp [step, h])
    | some s =>
      exact Or.inr (Or.inr (Or.inr ⟨number, status, s, h, by simp [step, h]⟩))

/-- The instance and everything that was captured of it have the places of the view type, and
the record is about captured snapshots. -/
structure Fits (w : Lifetime) (v : ViewType) : Prop where
  current : w.current.Fits v
  captured : ∀ s ∈ w.captured, s.Fits v
  numbered : ∀ e ∈ w.record, ∀ number, e.number? = some number → number < w.captured.length

theorem fits_start {v : ViewType} {i : ViewInstance} (hi : i.Fits v) : (start i).Fits v := by
  refine ⟨hi, ?_, ?_⟩
  · intro s hs
    cases hs
  · intro e he
    cases he

theorem fits_capture {v : ViewType} {w : Lifetime} (h : w.Fits v) :
    (w.capture w.current.snapshot).Fits v := by
  have length : (w.capture w.current.snapshot).captured.length = w.captured.length + 1 := by
    simp [capture]
  refine ⟨h.current, ?_, ?_⟩
  · intro s hs
    rcases List.mem_append.mp hs with hold | hnew
    · exact h.captured s hold
    · obtain rfl := List.mem_singleton.mp hnew
      exact h.current.snapshot
  · intro e he number hnumber
    rw [length]
    rcases List.mem_append.mp he with hold | hnew
    · exact Nat.lt_succ_of_lt (h.numbered e hold number hnumber)
    · obtain rfl := List.mem_singleton.mp hnew
      cases hnumber
      exact Nat.lt_succ_self _

theorem fits_step {v : ViewType} (hv : v.WellFormed) (w : Lifetime) (e : Event)
    (h : w.Fits v) : (w.step e).Fits v := by
  rcases step_cases w e with same | ⟨name, value, next, hset, same⟩ | same |
    ⟨number, status, s, hs, same⟩
  · rwa [same]
  · obtain ⟨a, -, -, sets⟩ := ViewInstance.set_ok hv h.current hset
    rw [same]
    refine ⟨sets.fits, h.captured, ?_⟩
    intro e he number hnumber
    rcases List.mem_append.mp he with hold | hnew
    · exact h.numbered e hold number hnumber
    · obtain rfl := List.mem_singleton.mp hnew
      cases hnumber
  · rw [same]
    exact fits_capture h
  · rw [same]
    refine ⟨ViewInstance.fits_complete hv h.current s status, h.captured, ?_⟩
    intro e he other hnumber
    rcases List.mem_append.mp he with hold | hnew
    · exact h.numbered e hold other hnumber
    · obtain rfl := List.mem_singleton.mp hnew
      cases hnumber
      exact (List.getElem?_eq_some_iff.mp hs).1

/-- What every step keeps holds at any time. -/
theorem run_keeps {v : ViewType} (hv : v.WellFormed) {P : Lifetime → Prop}
    (keeps : ∀ w e, w.Fits v → P w → P (w.step e)) {w : Lifetime} (fits : w.Fits v)
    (start : P w) (events : List Event) : P (w.run events) := by
  induction events generalizing w with
  | nil => exact start
  | cons e rest ih => exact ih (fits_step hv w e fits) (keeps w e fits start)

theorem fits_run {v : ViewType} (hv : v.WellFormed) {i : ViewInstance} (hi : i.Fits v)
    (events : List Event) : ((start i).run events).Fits v :=
  run_keeps (P := fun w => w.Fits v) hv (fun w e fits _ => fits_step hv w e fits)
    (fits_start hi) (fits_start hi) events

end Lifetime

namespace Entry

def isChange : Entry → Bool
  | changed .. => true
  | captured _ => false
  | completed .. => false

/-- The value that an entry writes to an attribute. -/
def written? (name : String) : Entry → Option Value
  | changed other value => if other = name then some value else none
  | captured _ => none
  | completed .. => none

end Entry

/-- The value of the last accepted setter of an attribute. -/
def lastWritten? (name : String) (record : List Entry) : Option Value :=
  (record.filterMap (Entry.written? name)).getLast?

theorem lastWritten?_concat (name : String) (record : List Entry) (e : Entry) :
    lastWritten? name (record ++ [e]) = (e.written? name).or (lastWritten? name record) := by
  rw [lastWritten?, lastWritten?, List.filterMap_append]
  cases h : e.written? name with
  | none => simp [h]
  | some value => simp [h]

namespace Lifetime

theorem stamps_step {v : ViewType} (hv : v.WellFormed) (w : Lifetime) (e : Event)
    (fits : w.Fits v) (h : w.current.freshStamp = w.record.countP Entry.isChange) :
    (w.step e).current.freshStamp = (w.step e).record.countP Entry.isChange := by
  rcases step_cases w e with same | ⟨name, value, next, hset, same⟩ | same |
    ⟨number, status, s, -, same⟩
  · rwa [same]
  · obtain ⟨a, -, -, sets⟩ := ViewInstance.set_ok hv fits.current hset
    rw [same, List.countP_append]
    exact sets.stamp.trans (congrArg (· + 1) h)
  · rw [same, capture, List.countP_append]
    exact h
  · rw [same, List.countP_append]
    exact (ViewInstance.freshStamp_complete hv fits.current s status).trans h

/-- The next stamp is the number of accepted setters. -/
theorem freshStamp_run {v : ViewType} (managed : v.Managed) {values : List Value}
    {i : ViewInstance} (made : ViewInstance.Made v values i) (events : List Event) :
    let w := (start i).run events
    w.current.freshStamp = w.record.countP Entry.isChange := by
  have hv := managed.wellFormed
  obtain ⟨hi, -, unused⟩ := ViewInstance.fits_ofValues made.ofValues_eq
  exact run_keeps hv (stamps_step hv) (fits_start hi) unused events

/-- Every attribute has the value that was written to it last, or else its first value, and
all that was written went to writable attributes. -/
structure UpToDate (v : ViewType) (first : ViewInstance) (w : Lifetime) : Prop where
  written : ∀ name value, .changed name value ∈ w.record → ∃ a ∈ v.writable, a.name = name
  current : ∀ a ∈ v.attributes, (w.current.cell a).current =
    (lastWritten? a.name w.record).getD (first.cell a).current

theorem upToDate_start (v : ViewType) (i : ViewInstance) : UpToDate v i (start i) := by
  constructor
  · intro name value h
    cases h
  · intro a ha
    rfl

/-- Setters apart, nothing is written and no current value changes. -/
theorem upToDate_quiet {v : ViewType} {first : ViewInstance} {w : Lifetime}
    (h : UpToDate v first w) {next : ViewInstance} {captured : List Snapshot} {e : Entry}
    (quiet : e.isChange = false)
    (same : ∀ a ∈ v.attributes, (next.cell a).current = (w.current.cell a).current) :
    UpToDate v first ⟨next, captured, w.record ++ [e]⟩ := by
  constructor
  · intro name value hmem
    rcases List.mem_append.mp hmem with hold | hnew
    · exact h.written name value hold
    · cases List.mem_singleton.mp hnew
      cases quiet
  · intro a ha
    have unwritten : e.written? a.name = none := by
      cases e with
      | changed => cases quiet
      | captured => rfl
      | completed => rfl
    rw [same a ha, lastWritten?_concat, unwritten]
    exact h.current a ha

theorem upToDate_set {v : ViewType} (hv : v.WellFormed) {first : ViewInstance} {w : Lifetime}
    (h : UpToDate v first w) {a : ViewAttribute} (ha : a ∈ v.writable) {value : Value}
    {next : ViewInstance} (sets : ViewInstance.Sets v a value w.current next) :
    UpToDate v first ⟨next, w.captured, w.record ++ [.changed a.name value]⟩ := by
  have hmem : a ∈ v.attributes := (List.mem_filter.mp ha).1
  constructor
  · intro name other hin
    rcases List.mem_append.mp hin with hold | hnew
    · exact h.written name other hold
    · cases List.mem_singleton.mp hnew
      exact ⟨a, ha, rfl⟩
  · intro b hb
    rw [lastWritten?_concat]
    by_cases hba : b = a
    · subst hba
      simp [sets.here, Cell.current, Entry.written?]
    · have hname : a.name ≠ b.name := fun heq =>
        hba (ViewType.eq_of_name_eq hv hb hmem heq.symm)
      rw [sets.elsewhere b hb hba]
      simpa [Entry.written?, hname] using h.current b hb

theorem upToDate_step {v : ViewType} (hv : v.WellFormed) {first : ViewInstance} (w : Lifetime)
    (e : Event) (fits : w.Fits v) (h : UpToDate v first w) : UpToDate v first (w.step e) := by
  rcases step_cases w e with same | ⟨name, value, next, hset, same⟩ | same |
    ⟨number, status, s, -, same⟩
  · rwa [same]
  · obtain ⟨a, ha, rfl, sets⟩ := ViewInstance.set_ok hv fits.current hset
    rw [same]
    exact upToDate_set hv h ha sets
  · rw [same]
    exact upToDate_quiet h rfl fun _ _ => rfl
  · rw [same]
    exact upToDate_quiet h rfl fun a ha =>
      ViewInstance.current_complete hv fits.current s status ha

theorem upToDate_run {v : ViewType} (hv : v.WellFormed) {i : ViewInstance} (hi : i.Fits v)
    (events : List Event) : UpToDate v i ((start i).run events) :=
  run_keeps hv (upToDate_step hv) (fits_start hi) (upToDate_start v i) events

theorem current_of_not_writable {v : ViewType} (hv : v.WellFormed) {first : ViewInstance}
    {w : Lifetime} (h : UpToDate v first w) {a : ViewAttribute} (ha : a ∈ v.attributes)
    (hw : a.isWritable = false) : (w.current.cell a).current = (first.cell a).current := by
  have unwritten : lastWritten? a.name w.record = none := by
    rw [lastWritten?, List.getLast?_eq_none_iff, List.filterMap_eq_nil_iff]
    intro e he
    cases e with
    | captured _ => rfl
    | completed _ _ => rfl
    | changed name value =>
      obtain ⟨b, hb, rfl⟩ := h.written name value he
      obtain ⟨hbmem, hbw⟩ := List.mem_filter.mp hb
      have hne : b.name ≠ a.name := by
        intro heq
        rw [ViewType.eq_of_name_eq hv hbmem ha heq, hw] at hbw
        cases hbw
      simp [Entry.written?, hne]
  rw [h.current a ha, unwritten]
  rfl

/-- At any time of its life an instance gives for each attribute what the last accepted
setter wrote, and what it was made of where there was none. Setters of writable attributes
are accepted. The end of a transaction changes no getter, and the id and all that cannot be
written stay as they were loaded. -/
theorem no_lost_update {v : ViewType} (managed : v.Managed) {values : List Value}
    {i : ViewInstance} (made : ViewInstance.Made v values i) (events : List Event) :
    let w := (start i).run events
    (∀ a ∈ v.attributes, ∃ first, values[a.position]? = some first ∧
      w.current.get a.name = .ok ((lastWritten? a.name w.record).getD first)) ∧
    (∀ name value, (∃ next, w.current.set name value = .ok next) ↔
      ∃ a ∈ v.writable, a.name = name) ∧
    (∀ name number status,
      (w.step (.complete number status)).current.get name = w.current.get name) ∧
    w.current.id? = i.id? ∧
    ∀ a ∈ v.attributes, a.isWritable = false → ∃ first, values[a.position]? = some first ∧
      w.current.get a.name = .ok first := by
  intro w
  have hv := managed.wellFormed
  obtain ⟨hi, hloaded, -⟩ := ViewInstance.fits_ofValues made.ofValues_eq
  have fits : w.current.Fits v := (fits_run hv hi events).current
  have h : UpToDate v i w := upToDate_run hv hi events
  have first : ∀ a ∈ v.attributes, values[a.position]? = some (i.cell a).current := by
    intro a ha
    have hclean : (i.cell a).change? = none := by
      rw [ViewInstance.cell_ofValues made.ofValues_eq a]
    rw [Cell.current_of_clean hclean, ← hloaded]
    exact ViewInstance.loaded_getElem? hv hi ha
  refine ⟨?_, ?_, ?_, ?_, ?_⟩
  · intro a ha
    refine ⟨_, first a ha, ?_⟩
    rw [ViewInstance.get_eq_current hv fits ha, h.current a ha]
  · intro name value
    constructor
    · rintro ⟨next, hset⟩
      obtain ⟨a, ha, hname, -⟩ := ViewInstance.set_ok hv fits hset
      exact ⟨a, ha, hname⟩
    · rintro ⟨a, ha, rfl⟩
      obtain ⟨next, hset, -⟩ := ViewInstance.set_sets hv fits ha value
      exact ⟨next, hset⟩
  · intro name number status
    cases hs : w.captured[number]? with
    | none => simp [step, hs]
    | some s => simp [step, hs, ViewInstance.get_complete hv fits s status name]
  · cases hid : v.id? with
    | none => simp [ViewInstance.id?, fits.view_eq, hi.view_eq, hid]
    | some a =>
      obtain ⟨ha, hw⟩ := ViewType.mem_of_id? hid
      rw [ViewInstance.id?_eq_current hv fits hid, ViewInstance.id?_eq_current hv hi hid,
        current_of_not_writable hv h ha hw]
  · intro a ha hw
    refine ⟨_, first a ha, ?_⟩
    rw [ViewInstance.get_eq_current hv fits ha, current_of_not_writable hv h ha hw]

/-- A late commit that is told twice leaves the name that was set after its snapshot. The id
refuses its setter. -/
theorem no_lost_update_document :
    let w := (start .document).run
      [.set "name" (.text "N"), .snapshot, .set "id" (.int 2), .set "name" (.text "M"),
        .set "age" (.text "X"), .snapshot, .complete 1 .rolledBack, .complete 0 .committed,
        .complete 0 .committed]
    w.record.length = 8 ∧ w.current.get "name" = .ok (.text "M") ∧
      w.current.get "age" = .ok (.text "X") ∧ w.current.get "id" = .ok (.int 1) ∧
      ∃ next, w.current.set "age" (.text "Y") = .ok next := by
  intro w
  obtain ⟨current, accepted, -, -, loaded⟩ := no_lost_update ViewType.ofDocuments_managed
    ViewInstance.made_document
    [.set "name" (.text "N"), .snapshot, .set "id" (.int 2), .set "name" (.text "M"),
      .set "age" (.text "X"), .snapshot, .complete 1 .rolledBack, .complete 0 .committed,
      .complete 0 .committed]
  obtain ⟨name, -, getName⟩ := current _ (List.mem_of_getElem? (i := 1) rfl)
  obtain ⟨age, -, getAge⟩ := current _ (List.mem_of_getElem? (i := 2) rfl)
  obtain ⟨id, hid, getId⟩ := loaded _ (List.mem_of_getElem? (i := 0) rfl) rfl
  cases hid
  have set := (accepted "age" (.text "Y")).mpr ⟨_, List.mem_of_getElem? (i := 1) rfl, rfl⟩
  exact ⟨rfl, getName, getAge, getId, set⟩

end Lifetime
end EntityQuery
