import EntityQuery.Proofs.View.Lifetime
import Mathlib.Data.List.Induction

/-!
# What a marker means

The changes of an instance are marked until they are written. A marker stands for a change
that no committed update has taken along: a commit removes the markers of all changes that
its snapshot holds, and of no change made since, whatever value that one gave and however
many callbacks come late or twice.

The invariant ties stamps to the record. A live change has the stamp of a captured one
exactly if the snapshot was taken after the last change of the attribute.
-/

namespace EntityQuery

namespace Entry

theorem written?_eq_some_iff {name : String} {e : Entry} {value : Value} :
    e.written? name = some value ↔ e = .changed name value := by
  cases e with
  | changed other x =>
    by_cases h : other = name
    · simp [written?, h]
    · simp [written?, h]
  | captured number => simp [written?]
  | completed number status => simp [written?]

theorem written?_eq_none_iff {name : String} {e : Entry} :
    e.written? name = none ↔ ∀ value, e ≠ .changed name value := by
  rw [Option.eq_none_iff_forall_ne_some]
  exact forall_congr' fun value => not_congr written?_eq_some_iff

end Entry

/-- What was recorded since the last change of an attribute, if there was one. -/
def sinceChange? (name : String) (record : List Entry) : Option (List Entry) :=
  record.foldl (fun since e =>
    match e.written? name with
    | some _ => some []
    | none => since.map (· ++ [e])) none

theorem sinceChange?_concat_changed (name : String) (record : List Entry) (value : Value) :
    sinceChange? name (record ++ [.changed name value]) = some [] := by
  simp [sinceChange?, List.foldl_append, Entry.written?]

theorem sinceChange?_concat (name : String) (record : List Entry) {e : Entry}
    (h : e.written? name = none) :
    sinceChange? name (record ++ [e]) = (sinceChange? name record).map (· ++ [e]) := by
  simp [sinceChange?, List.foldl_append, h]

theorem sinceChange?_append {name : String} (record tail : List Entry)
    (quiet : ∀ value, .changed name value ∉ tail) :
    sinceChange? name (record ++ tail) = (sinceChange? name record).map (· ++ tail) := by
  induction tail generalizing record with
  | nil => cases h : sinceChange? name record <;> simp [h]
  | cons e rest ih =>
    have hquiet : ∀ value, .changed name value ∉ rest := fun value hmem =>
      quiet value (List.mem_cons_of_mem e hmem)
    have he : e.written? name = none := Entry.written?_eq_none_iff.mpr fun value heq =>
      quiet value (heq ▸ List.mem_cons_self)
    rw [List.append_cons, ih (record ++ [e]) hquiet, sinceChange?_concat name record he,
      Option.map_map]
    cases sinceChange? name record <;> simp

theorem sinceChange?_eq_some_iff {name : String} {record after : List Entry} :
    sinceChange? name record = some after ↔
      ∃ before value, record = before ++ .changed name value :: after ∧
        ∀ value, .changed name value ∉ after := by
  constructor
  · intro h
    induction record using List.reverseRecOn generalizing after with
    | nil => cases h
    | append_singleton record e ih =>
      cases hw : e.written? name with
      | some value =>
        obtain rfl := Entry.written?_eq_some_iff.mp hw
        rw [sinceChange?_concat_changed] at h
        cases h
        exact ⟨record, value, rfl, fun _ => List.not_mem_nil⟩
      | none =>
        rw [sinceChange?_concat name record hw, Option.map_eq_some_iff] at h
        obtain ⟨old, hold, rfl⟩ := h
        obtain ⟨before, value, rfl, quiet⟩ := ih hold
        refine ⟨before, value, by simp, ?_⟩
        intro value hmem
        rcases List.mem_append.mp hmem with hin | hlast
        · exact quiet value hin
        · exact Entry.written?_eq_none_iff.mp hw value (List.mem_singleton.mp hlast).symm
  · rintro ⟨before, value, rfl, quiet⟩
    rw [List.append_cons, sinceChange?_append _ after quiet, sinceChange?_concat_changed]
    rfl

/-- Only what came after a change counts since the last change. -/
theorem mem_of_sinceChange? {name : String} {before after since : List Entry} {value : Value}
    (h : sinceChange? name (before ++ .changed name value :: after) = some since) {e : Entry}
    (he : e ∈ since) : e ∈ after := by
  induction after using List.reverseRecOn generalizing since with
  | nil =>
    rw [sinceChange?_concat_changed] at h
    cases h
    exact he
  | append_singleton after last ih =>
    rw [← List.cons_append, ← List.append_assoc] at h
    cases hw : last.written? name with
    | some other =>
      obtain rfl := Entry.written?_eq_some_iff.mp hw
      rw [sinceChange?_concat_changed] at h
      cases h
      cases he
    | none =>
      rw [sinceChange?_concat name _ hw, Option.map_eq_some_iff] at h
      obtain ⟨old, hold, rfl⟩ := h
      rcases List.mem_append.mp he with hin | hlast
      · exact List.mem_append_left _ (ih hold hin)
      · exact List.mem_append_right _ hlast

namespace Lifetime

/-- The invariant of one attribute. Stamps are smaller than the next one, and a captured change
is the live one exactly if its snapshot came after it. -/
structure Tracked (v : ViewType) (a : ViewAttribute) (w : Lifetime) : Prop where
  fresh : ∀ change, (w.current.cell a).change? = some change →
    change.stamp < w.current.freshStamp
  old : ∀ s ∈ w.captured, ∀ change, s.captured? v a = some change →
    change.stamp < w.current.freshStamp
  unchanged : sinceChange? a.name w.record = none → (w.current.cell a).change? = none
  marked : ∀ since, sinceChange? a.name w.record = some since →
    ((w.current.cell a).change?.isSome = true ↔
      ∀ number, .captured number ∈ since → .completed number .committed ∉ since)
  held : ∀ since change, sinceChange? a.name w.record = some since →
    (w.current.cell a).change? = some change → ∀ number s, w.captured[number]? = some s →
      ((∃ captured, s.captured? v a = some captured ∧ change.stamp = captured.stamp) ↔
        .captured number ∈ since)

theorem tracked_start {v : ViewType} {values : List Value} {i : ViewInstance}
    (h : ViewInstance.ofValues v values = .ok i) (a : ViewAttribute) :
    Tracked v a (start i) := by
  have clean : (i.cell a).change? = none := by rw [ViewInstance.cell_ofValues h a]
  constructor
  · intro change hchange
    cases clean.symm.trans hchange
  · intro s hs
    cases hs
  · exact fun _ => clean
  · intro since hsince
    cases hsince
  · intro since change hsince
    cases hsince

section Steps
variable {v : ViewType} {a : ViewAttribute} {w : Lifetime}

/-- A setter of the attribute starts its record anew. -/
theorem tracked_set_here (h : Tracked v a w) {value : Value} {next : ViewInstance}
    (sets : ViewInstance.Sets v a value w.current next) :
    Tracked v a ⟨next, w.captured, w.record ++ [.changed a.name value]⟩ := by
  have hsince := sinceChange?_concat_changed a.name w.record value
  constructor
  · intro change hchange
    simp only [sets.here, Option.some.injEq] at hchange
    subst hchange
    show w.current.freshStamp < next.freshStamp
    rw [sets.stamp]
    omega
  · intro s hs change hchange
    have := h.old s hs change hchange
    show change.stamp < next.freshStamp
    rw [sets.stamp]
    omega
  · intro hnone
    rw [hsince] at hnone
    cases hnone
  · intro since hsome
    rw [hsince] at hsome
    cases hsome
    simp [sets.here]
  · intro since change hsome hchange number s hs
    rw [hsince] at hsome
    cases hsome
    simp only [sets.here, Option.some.injEq] at hchange
    subst hchange
    constructor
    · rintro ⟨captured, hcaptured, hstamp⟩
      have := h.old s (List.mem_of_getElem? hs) captured hcaptured
      have hstamp : w.current.freshStamp = captured.stamp := hstamp
      omega
    · intro hmem
      cases hmem

/-- What leaves the cell of the attribute as it is only adds to the record, unless it is a
commit for a snapshot that holds the live change. -/
theorem tracked_quiet (h : Tracked v a w) {next : ViewInstance} {e : Entry}
    (cell : next.cell a = w.current.cell a) (stamp : w.current.freshStamp ≤ next.freshStamp)
    (quiet : e.written? a.name = none) (taken : ∀ number, e ≠ .captured number)
    (kept : ∀ number, e = .completed number .committed → ∀ since,
      sinceChange? a.name w.record = some since → (w.current.cell a).change?.isSome = true →
        .captured number ∉ since) :
    Tracked v a ⟨next, w.captured, w.record ++ [e]⟩ := by
  have hsince := sinceChange?_concat a.name w.record quiet
  have hcaptured : ∀ number since, .captured number ∈ since ++ [e] ↔
      .captured number ∈ since := by
    intro number since
    rw [List.mem_append, List.mem_singleton]
    exact or_iff_left (taken number).symm
  constructor
  · intro change hchange
    simp only [cell] at hchange
    exact Nat.lt_of_lt_of_le (h.fresh change hchange) stamp
  · intro s hs change hchange
    exact Nat.lt_of_lt_of_le (h.old s hs change hchange) stamp
  · intro hnone
    simp only [hsince, Option.map_eq_none_iff] at hnone
    simp only [cell]
    exact h.unchanged hnone
  · intro since hsome
    simp only [hsince, Option.map_eq_some_iff] at hsome
    obtain ⟨old, hold, rfl⟩ := hsome
    simp only [cell, hcaptured]
    constructor
    · intro live number hcap hcom
      rcases List.mem_append.mp hcom with hin | hlast
      · exact (h.marked old hold).mp live number hcap hin
      · exact kept number (List.mem_singleton.mp hlast).symm old hold live hcap
    · intro uncommitted
      refine (h.marked old hold).mpr fun number hcap hcom => ?_
      exact uncommitted number hcap (List.mem_append_left _ hcom)
  · intro since change hsome hchange number s hs
    simp only [hsince, Option.map_eq_some_iff] at hsome
    obtain ⟨old, hold, rfl⟩ := hsome
    simp only [cell] at hchange
    rw [hcaptured]
    exact h.held old change hold hchange number s hs

/-- A snapshot holds the live change, and its number is new. -/
theorem tracked_capture (fits : w.Fits v) (h : Tracked v a w) :
    Tracked v a (w.capture w.current.snapshot) := by
  have hsince := sinceChange?_concat a.name w.record
    (e := .captured w.captured.length) rfl
  have unused : ∀ since, sinceChange? a.name w.record = some since →
      ∀ status, .completed w.captured.length status ∉ since := by
    intro since hsome status hmem
    obtain ⟨before, value, hrecord, -⟩ := sinceChange?_eq_some_iff.mp hsome
    have : .completed w.captured.length status ∈ w.record := by
      rw [hrecord]
      exact List.mem_append_right _ (List.mem_cons_of_mem _ hmem)
    exact Nat.lt_irrefl _ (fits.numbered _ this _ rfl)
  constructor
  · exact h.fresh
  · intro s hs change hchange
    rcases List.mem_append.mp hs with hold | hnew
    · exact h.old s hold change hchange
    · obtain rfl := List.mem_singleton.mp hnew
      rw [ViewInstance.captured?_snapshot fits.current] at hchange
      exact h.fresh change hchange
  · intro hnone
    simp only [capture, hsince, Option.map_eq_none_iff] at hnone
    exact h.unchanged hnone
  · intro since hsome
    simp only [capture, hsince, Option.map_eq_some_iff] at hsome
    obtain ⟨old, hold, rfl⟩ := hsome
    refine (h.marked old hold).trans ?_
    constructor
    · intro uncommitted number hcap hcom
      have hin : .completed number .committed ∈ old := by simpa using hcom
      by_cases hlast : number = w.captured.length
      · exact unused old hold _ (hlast ▸ hin)
      · exact uncommitted number (by simpa [hlast] using hcap) hin
    · intro uncommitted number hcap hcom
      exact uncommitted number (List.mem_append_left _ hcap) (List.mem_append_left _ hcom)
  · intro since change hsome hchange number s hs
    simp only [capture, hsince, Option.map_eq_some_iff] at hsome
    obtain ⟨old, hold, rfl⟩ := hsome
    by_cases hlast : number = w.captured.length
    · subst hlast
      obtain rfl : w.current.snapshot = s := by simpa [capture] using hs
      rw [ViewInstance.captured?_snapshot fits.current]
      exact ⟨fun _ => by simp, fun _ => ⟨change, hchange, rfl⟩⟩
    · have hs : w.captured[number]? = some s := by
        have hlt := (List.getElem?_eq_some_iff.mp hs).1
        simp only [capture, List.length_append, List.length_singleton] at hlt
        rwa [capture, List.getElem?_append_left (by omega)] at hs
      simpa [hlast] using h.held old change hold hchange number s hs

/-- A commit for a snapshot that holds the live change takes it in. -/
theorem tracked_settle (h : Tracked v a w) {next : ViewInstance} {number : Nat} {s : Snapshot}
    (stamp : w.current.freshStamp ≤ next.freshStamp)
    (hs : w.captured[number]? = some s) {captured change : Change}
    (hcaptured : s.captured? v a = some captured)
    (hchange : (w.current.cell a).change? = some change)
    (same : change.stamp = captured.stamp) (clean : (next.cell a).change? = none) :
    Tracked v a ⟨next, w.captured, w.record ++ [.completed number .committed]⟩ := by
  have hsince := sinceChange?_concat a.name w.record
    (e := .completed number .committed) rfl
  constructor
  · intro other hother
    cases clean.symm.trans hother
  · intro s hs other hother
    exact Nat.lt_of_lt_of_le (h.old s hs other hother) stamp
  · exact fun _ => clean
  · intro since hsome
    simp only [hsince, Option.map_eq_some_iff] at hsome
    obtain ⟨old, hold, rfl⟩ := hsome
    have hcap : .captured number ∈ old :=
      (h.held old change hold hchange number s hs).mp ⟨captured, hcaptured, same⟩
    simp only [clean, Option.isSome_none, Bool.false_eq_true, false_iff]
    intro uncommitted
    exact uncommitted number (List.mem_append_left _ hcap) (by simp)
  · intro since other _ hother
    cases clean.symm.trans hother

theorem tracked_complete (hv : v.WellFormed) (ha : a ∈ v.attributes)
    (fits : w.current.Fits v) (h : Tracked v a w)
    {number : Nat} {s : Snapshot} (hs : w.captured[number]? = some s)
    (status : CompletionStatus) :
    Tracked v a ⟨w.current.complete s status, w.captured,
      w.record ++ [.completed number status]⟩ := by
  have stamp := Nat.le_of_eq (ViewInstance.freshStamp_complete hv fits s status).symm
  cases status with
  | rolledBack =>
    exact tracked_quiet h rfl stamp rfl (fun _ => nofun) (fun _ => nofun)
  | unknown =>
    exact tracked_quiet h rfl stamp rfl (fun _ => nofun) (fun _ => nofun)
  | committed =>
    have hcell : (w.current.complete s .committed).cell a =
        (w.current.cell a).settle (s.captured? v a) := ViewInstance.cell_clear hv fits s ha
    rcases Cell.settle_cases (s.captured? v a) (w.current.cell a) with
      ⟨same, differs⟩ | ⟨captured, change, hcaptured, hchange, hstamp, settled⟩
    · refine tracked_quiet h (hcell.trans same) stamp rfl (fun _ => nofun) ?_
      rintro other ⟨⟩ since hsince live hcap
      obtain ⟨change, hchange⟩ := Option.isSome_iff_exists.mp live
      obtain ⟨captured, hcaptured, hstamp⟩ :=
        (h.held since change hsince hchange number s hs).mpr hcap
      exact differs captured change hcaptured hchange hstamp
    · exact tracked_settle h stamp hs hcaptured hchange hstamp
        (by rw [hcell, settled])

theorem tracked_step (hv : v.WellFormed) (ha : a ∈ v.attributes) (w : Lifetime) (e : Event)
    (fits : w.Fits v) (h : Tracked v a w) : Tracked v a (w.step e) := by
  rcases step_cases w e with same | ⟨name, value, next, hset, same⟩ | same |
    ⟨number, status, s, hs, same⟩
  · rwa [same]
  · obtain ⟨b, hb, rfl, sets⟩ := ViewInstance.set_ok hv fits.current hset
    have hbmem : b ∈ v.attributes := (List.mem_filter.mp hb).1
    rw [same]
    by_cases hab : a = b
    · subst hab
      exact tracked_set_here h sets
    · have hname : b.name ≠ a.name := fun heq =>
        hab (ViewType.eq_of_name_eq hv ha hbmem heq.symm)
      have stamp := sets.stamp
      exact tracked_quiet h (sets.elsewhere a ha hab) (by omega)
        (by simp [Entry.written?, hname]) (fun _ => nofun) (fun _ => nofun)
  · rw [same]
    exact tracked_capture fits h
  · rw [same]
    exact tracked_complete hv ha fits.current h hs status

end Steps

theorem tracked_run {v : ViewType} (hv : v.WellFormed) {a : ViewAttribute}
    (ha : a ∈ v.attributes) {values : List Value} {i : ViewInstance}
    (hi : ViewInstance.ofValues v values = .ok i) (events : List Event) :
    Tracked v a ((start i).run events) :=
  run_keeps hv (tracked_step hv ha) (fits_start (ViewInstance.fits_ofValues hi).1)
    (tracked_start hi a) events

section Commits
variable {v : ViewType} (hv : v.WellFormed) {a : ViewAttribute} (ha : a ∈ v.attributes)
  {w : Lifetime} (fits : w.current.Fits v) (h : Tracked v a w)

include h in
theorem sinceChange?_of_live {change : Change} (live : (w.current.cell a).change? = some change) :
    ∃ since, sinceChange? a.name w.record = some since := by
  cases hsince : sinceChange? a.name w.record with
  | none => cases (h.unchanged hsince).symm.trans live
  | some since => exact ⟨since, rfl⟩

include hv ha fits

theorem cell_commit {number : Nat} {s : Snapshot} (hs : w.captured[number]? = some s) :
    (w.step (.complete number .committed)).current.cell a =
      (w.current.cell a).settle (s.captured? v a) := by
  have hstep : (w.step (.complete number .committed)).current = w.current.clear s := by
    simp [step, hs, ViewInstance.complete]
  rw [hstep, ViewInstance.cell_clear hv fits s ha]

include h

theorem change?_commit_of_captured {number : Nat} {s : Snapshot}
    (hs : w.captured[number]? = some s)
    (covers : ∀ since, sinceChange? a.name w.record = some since → .captured number ∈ since) :
    ((w.step (.complete number .committed)).current.cell a).change? = none := by
  rw [cell_commit hv ha fits hs]
  rcases Cell.settle_cases (s.captured? v a) (w.current.cell a) with
    ⟨same, differs⟩ | ⟨_, _, -, -, -, settled⟩
  · rw [same]
    cases live : (w.current.cell a).change? with
    | none => rfl
    | some change =>
      obtain ⟨since, hsince⟩ := sinceChange?_of_live h live
      obtain ⟨captured, hcaptured, hstamp⟩ :=
        (h.held since change hsince live number s hs).mpr (covers since hsince)
      exact absurd hstamp (differs captured change hcaptured live)
  · rw [settled]

theorem change?_commit_of_later {number : Nat} {s : Snapshot}
    (hs : w.captured[number]? = some s)
    (later : ∀ since, sinceChange? a.name w.record = some since → .captured number ∉ since) :
    ((w.step (.complete number .committed)).current.cell a).change? =
      (w.current.cell a).change? := by
  rw [cell_commit hv ha fits hs]
  rcases Cell.settle_cases (s.captured? v a) (w.current.cell a) with
    ⟨same, -⟩ | ⟨captured, change, hcaptured, live, hstamp, -⟩
  · rw [same]
  · obtain ⟨since, hsince⟩ := sinceChange?_of_live h live
    have hcap := (h.held since change hsince live number s hs).mp ⟨captured, hcaptured, hstamp⟩
    exact absurd hcap (later since hsince)

end Commits

end Lifetime

/-- An attribute was changed, and no commit was told since for a snapshot taken since. -/
def Unsaved (name : String) (record : List Entry) : Prop :=
  ∃ before value after, record = before ++ .changed name value :: after ∧
    (∀ value, .changed name value ∉ after) ∧
    ∀ number, .captured number ∈ after → .completed number .committed ∉ after

namespace Lifetime

theorem Tracked.change?_isSome_iff {v : ViewType} {a : ViewAttribute} {w : Lifetime}
    (h : Tracked v a w) :
    (w.current.cell a).change?.isSome = true ↔ Unsaved a.name w.record := by
  constructor
  · intro live
    cases hsince : sinceChange? a.name w.record with
    | none =>
      rw [h.unchanged hsince] at live
      cases live
    | some since =>
      obtain ⟨before, value, hrecord, quiet⟩ := sinceChange?_eq_some_iff.mp hsince
      exact ⟨before, value, since, hrecord, quiet, (h.marked since hsince).mp live⟩
  · rintro ⟨before, value, after, hrecord, quiet, uncommitted⟩
    have hsince := sinceChange?_eq_some_iff.mpr ⟨before, value, hrecord, quiet⟩
    exact (h.marked after hsince).mpr uncommitted

/-- An instance has changes exactly if one of them is unsaved. -/
theorem hasChanges_run {v : ViewType} (managed : v.Managed) {values : List Value}
    {i : ViewInstance} (made : ViewInstance.Made v values i) (events : List Event) :
    let w := (start i).run events
    w.current.hasChanges = true ↔ ∃ a ∈ v.writable, Unsaved a.name w.record := by
  intro w
  have hv := managed.wellFormed
  have h : ∀ a ∈ v.writable, Tracked v a w := fun a ha =>
    tracked_run hv (List.mem_filter.mp ha).1 made.ofValues_eq events
  have fits : w.current.Fits v := (fits_run hv made.fits events).current
  rw [ViewInstance.hasChanges_iff hv fits]
  constructor
  · rintro ⟨a, ha, live⟩
    exact ⟨a, ha, (h a ha).change?_isSome_iff.mp live⟩
  · rintro ⟨a, ha, unsaved⟩
    exact ⟨a, ha, (h a ha).change?_isSome_iff.mpr unsaved⟩

/-- A writable attribute is marked as changed if and only if it has a change that no commit
covers. Transactions that do not commit leave all markers, a commit removes the marker of a
change that was made before its snapshot, and none of one made after it. -/
theorem marked_iff_unsaved {v : ViewType} (managed : v.Managed) {values : List Value}
    {i : ViewInstance} (made : ViewInstance.Made v values i) (events : List Event)
    {a : ViewAttribute} (ha : a ∈ v.writable) :
    let w := (start i).run events
    ((w.current.cell a).change?.isSome = true ↔ Unsaved a.name w.record) ∧
    (∀ number status, status ≠ .committed →
      (w.step (.complete number status)).current = w.current) ∧
    (∀ number before after, w.record = before ++ .captured number :: after →
      (∀ value, .changed a.name value ∉ after) →
        ((w.step (.complete number .committed)).current.cell a).change? = none) ∧
    ∀ number before value after, w.record = before ++ .changed a.name value :: after →
      .captured number ∉ after →
        ((w.step (.complete number .committed)).current.cell a).change? =
          (w.current.cell a).change? := by
  intro w
  have hv := managed.wellFormed
  have hmem : a ∈ v.attributes := (List.mem_filter.mp ha).1
  have fits : w.Fits v := fits_run hv made.fits events
  have h : Tracked v a w := tracked_run hv hmem made.ofValues_eq events
  refine ⟨h.change?_isSome_iff, ?_, ?_, ?_⟩
  · intro number status hstatus
    cases hs : w.captured[number]? with
    | none => simp [step, hs]
    | some s =>
      cases status with
      | committed => exact absurd rfl hstatus
      | rolledBack => simp [step, hs, ViewInstance.complete]
      | unknown => simp [step, hs, ViewInstance.complete]
  · intro number before after hrecord quiet
    have hcaptured : .captured number ∈ w.record := by simp [hrecord]
    obtain ⟨s, hs⟩ : ∃ s, w.captured[number]? = some s :=
      ⟨_, List.getElem?_eq_getElem (fits.numbered _ hcaptured number rfl)⟩
    refine change?_commit_of_captured hv hmem fits.current h hs ?_
    intro since hsince
    rw [hrecord, sinceChange?_append before _ (by simpa using quiet),
      Option.map_eq_some_iff] at hsince
    obtain ⟨old, -, rfl⟩ := hsince
    exact List.mem_append_right _ List.mem_cons_self
  · intro number before value after hrecord uncaptured
    cases hs : w.captured[number]? with
    | none => simp [step, hs]
    | some s =>
      refine change?_commit_of_later hv hmem fits.current h hs ?_
      intro since hsince hin
      rw [hrecord] at hsince
      exact uncaptured (mem_of_sinceChange? hsince hin)

/-- The same name is set again after the first snapshot. A commit for that snapshot leaves the
marker, also when it is told twice, and one for the second snapshot removes it. -/
theorem marked_iff_unsaved_document :
    let w := (start .document).run
      [.set "name" (.text "N"), .snapshot, .set "name" (.text "N"), .snapshot,
        .complete 0 .committed, .complete 1 .unknown]
    let name := ViewType.ofDocuments.attributes[1]
    name ∈ ViewType.ofDocuments.writable ∧ (w.current.cell name).change?.isSome = true ∧
      Unsaved name.name w.record ∧
      ((w.step (.complete 0 .committed)).current.cell name).change?.isSome = true ∧
      ((w.step (.complete 1 .committed)).current.cell name).change? = none := by
  intro w name
  have writable : name ∈ ViewType.ofDocuments.writable := List.mem_of_getElem? (i := 0) rfl
  obtain ⟨marked, -, covered, later⟩ := marked_iff_unsaved ViewType.ofDocuments_managed
    ViewInstance.made_document
    [.set "name" (.text "N"), .snapshot, .set "name" (.text "N"), .snapshot,
      .complete 0 .committed, .complete 1 .unknown] writable
  have live : (w.current.cell name).change?.isSome = true := rfl
  refine ⟨writable, live, marked.mp live, ?_, ?_⟩
  · exact (congrArg Option.isSome (later 0 [.changed "name" (.text "N"), .captured 0] (.text "N")
      [.captured 1, .completed 0 .committed, .completed 1 .unknown] rfl (by simp))).trans live
  · exact covered 1 [.changed "name" (.text "N"), .captured 0, .changed "name" (.text "N")]
      [.completed 0 .committed, .completed 1 .unknown] rfl (by simp)

end Lifetime
end EntityQuery
