import EntityQuery.Proofs.View.Bindings
import Mathlib.Logic.Function.Basic

/-!
# Agreement with the stored row

An instance is loaded from a row and is its only writer. Updates write to the copy of the row
that the open transaction holds; a commit publishes the copy, and a rollback drops it. Every
update writes all columns, those of unchanged attributes from the loaded values, so that a
marker that is removed too early or too late would bring an old value back one transaction
later.

The invariant relates an instance to each row that an update may write to. Unchanged
attributes have the values of their columns, and so has every live change that a snapshot
captured whose callback may come with a commit. Removing markers keeps the first part because
of the second one.
-/

namespace EntityQuery

/-- The values of the columns, by their paths. -/
abbrev Row := String → Value

namespace ViewType

/-- The attributes that an update binds to columns: the id and those that it writes. -/
def columns (v : ViewType) : List ViewAttribute := v.id?.toList ++ v.writable

theorem mem_columns_of_writable {v : ViewType} {a : ViewAttribute} (ha : a ∈ v.writable) :
    a ∈ v.columns :=
  List.mem_append_right _ ha

theorem mem_columns {v : ViewType} {a : ViewAttribute} :
    a ∈ v.columns ↔ v.id? = some a ∨ a ∈ v.writable := by
  rw [columns, List.mem_append, Option.mem_toList]

theorem mem_of_mem_columns {v : ViewType} {a : ViewAttribute} (ha : a ∈ v.columns) :
    a ∈ v.attributes := by
  rcases mem_columns.mp ha with hid | hw
  · exact (mem_of_id? hid).1
  · exact (List.mem_filter.mp hw).1

/-- The values are those of the columns of a row. -/
def Loaded (v : ViewType) (values : List Value) (row : Row) : Prop :=
  ∀ a ∈ v.columns, ∀ path, a.path? = some path → values[a.position]? = some (row path)

/-- The id and all written attributes have columns of their own. -/
def HasOwnColumns (v : ViewType) : Prop := (v.columns.map (·.path?)).Nodup

theorem eq_of_path?_eq {v : ViewType} (h : v.HasOwnColumns) {a b : ViewAttribute}
    (ha : a ∈ v.columns) (hb : b ∈ v.columns) (hp : a.path? = b.path?) : a = b :=
  List.inj_on_of_nodup_map h ha hb hp

end ViewType

namespace Updater

/-- What the statement of an updater does to the row of its id. -/
def write (u : Updater) (bindings : List (String × Value)) (row : Row) : Row :=
  u.assignments.foldl (fun row a =>
    Function.update row a.path ((bindings.lookup a.parameter).getD .null)) row

theorem foldl_update_of_forall_ne {value : Assignment → Value} {l : List Assignment}
    {path : String} (h : ∀ a ∈ l, a.path ≠ path) (row : Row) :
    l.foldl (fun row a => Function.update row a.path (value a)) row path = row path := by
  induction l generalizing row with
  | nil => rfl
  | cons a rest ih =>
    rw [List.foldl_cons, ih fun b hb => h b (List.mem_cons_of_mem a hb)]
    exact Function.update_of_ne (h a List.mem_cons_self).symm _ _

theorem foldl_update_of_mem (value : Assignment → Value) {l : List Assignment}
    (h : (l.map (·.path)).Nodup) {a : Assignment} (ha : a ∈ l) (row : Row) :
    l.foldl (fun row a => Function.update row a.path (value a)) row a.path = value a := by
  induction l generalizing row with
  | nil => cases ha
  | cons b rest ih =>
    obtain ⟨hb, hrest⟩ := List.nodup_cons.mp h
    rw [List.foldl_cons]
    rcases List.mem_cons.mp ha with rfl | ha
    · rw [foldl_update_of_forall_ne]
      · exact Function.update_self _ _ _
      · intro c hc heq
        exact hb (List.mem_map.mpr ⟨c, hc, heq⟩)
    · exact ih hrest ha _

theorem lookup_map {l : List ViewAttribute} {value : ViewAttribute → Value} {a : ViewAttribute}
    (h : ∀ b ∈ l, b.name = a.name → b = a) (ha : a ∈ l) :
    (l.map fun b => (b.name, value b)).lookup a.name = some (value a) := by
  induction l with
  | nil => cases ha
  | cons b rest ih =>
    rw [List.map_cons, List.lookup_cons]
    by_cases hname : b.name = a.name
    · obtain rfl := h b List.mem_cons_self hname
      simp
    · have hne : (a.name == b.name) = false := by simpa using Ne.symm hname
      have hrest : a ∈ rest := by
        rcases List.mem_cons.mp ha with rfl | hrest
        · exact absurd rfl hname
        · exact hrest
      rw [hne]
      exact ih (fun c hc => h c (List.mem_cons_of_mem b hc)) hrest

section Writing
variable {v : ViewType} (hv : v.WellFormed) {u : Updater} (built : ofView v = .ok u)
include hv built

theorem view_eq : u.view = v := by
  obtain ⟨-, -, -, rfl⟩ := ofView_ok hv built
  rfl

theorem assignments_eq : u.assignments = v.writable.map .ofAttribute := by
  obtain ⟨-, -, -, rfl⟩ := ofView_ok hv built
  rfl

theorem lookup_bindings {i : ViewInstance} (hi : i.Fits v) {a : ViewAttribute}
    (ha : a ∈ v.writable) :
    (u.bindings i.snapshot).lookup a.name = some (i.cell a).current := by
  obtain ⟨id, hid, -, hbindings⟩ := bindings_eq hv hi built
  obtain ⟨hmem, hw⟩ := List.mem_filter.mp ha
  obtain ⟨hidMem, hidWritable⟩ := ViewType.mem_of_id? hid
  have hne : (a.name == id.name) = false := by
    rw [beq_eq_false_iff_ne]
    intro heq
    rw [ViewType.eq_of_name_eq hv hmem hidMem heq, hidWritable] at hw
    cases hw
  rw [hbindings, List.lookup_cons, hne]
  exact lookup_map (fun b hb hname =>
    ViewType.eq_of_name_eq hv (List.mem_filter.mp hb).1 hmem hname) ha

theorem write_of_forall_ne {path : String} (h : ∀ a ∈ v.writable, a.path? ≠ some path)
    (bindings : List (String × Value)) (row : Row) : u.write bindings row path = row path := by
  rw [write, assignments_eq hv built]
  refine foldl_update_of_forall_ne ?_ row
  intro x hx heq
  obtain ⟨a, ha, rfl⟩ := List.mem_map.mp hx
  obtain ⟨other, hother⟩ := ViewType.exists_path hv ha
  have : other = path := by simpa [Assignment.ofAttribute, hother] using heq
  exact h a ha (this ▸ hother)

/-- An update writes the current value of each writable attribute to its column. -/
theorem write_of_writable (own : v.HasOwnColumns) {i : ViewInstance} (hi : i.Fits v)
    {a : ViewAttribute} (ha : a ∈ v.writable) {path : String} (hpath : a.path? = some path)
    (row : Row) : u.write (u.bindings i.snapshot) row path = (i.cell a).current := by
  have paths : (u.assignments.map (·.path)).Nodup := by
    have hnodup : (v.writable.map (·.path?)).Nodup :=
      own.sublist ((List.sublist_append_right _ _).map _)
    have hmap : u.assignments.map (·.path) = (v.writable.map (·.path?)).map (·.getD "") := by
      rw [assignments_eq hv built, List.map_map, List.map_map]
      rfl
    rw [hmap]
    refine hnodup.map_on ?_
    intro x hx y hy heq
    obtain ⟨b, hb, rfl⟩ := List.mem_map.mp hx
    obtain ⟨c, hc, rfl⟩ := List.mem_map.mp hy
    obtain ⟨p, hp⟩ := ViewType.exists_path hv hb
    obtain ⟨q, hq⟩ := ViewType.exists_path hv hc
    rw [hp, hq] at heq ⊢
    exact congrArg some heq
  have hmem : Assignment.ofAttribute a ∈ u.assignments := by
    rw [assignments_eq hv built]
    exact List.mem_map.mpr ⟨a, ha, rfl⟩
  have hwritten := foldl_update_of_mem (fun x =>
    ((u.bindings i.snapshot).lookup x.parameter).getD .null) paths hmem row
  have hp : (Assignment.ofAttribute a).path = path := by simp [Assignment.ofAttribute, hpath]
  rw [hp] at hwritten
  refine hwritten.trans ?_
  show ((u.bindings i.snapshot).lookup a.name).getD .null = _
  rw [lookup_bindings hv built hi ha]
  rfl

end Writing
end Updater

namespace CompletionStatus

/-- Whether the copy of a transaction becomes the row. An unknown end may be either. -/
def publishes : CompletionStatus → Bool → Bool
  | committed, _ => true
  | rolledBack, _ => false
  | unknown, published => published

end CompletionStatus

structure OpenTransaction where
  copy : Row
  callbacks : List Snapshot

/-- An instance, the row that it writes, the open transaction, and the callbacks of the
transactions that ended. -/
structure Session where
  current : ViewInstance
  committed : Row
  open? : Option OpenTransaction
  due : List (CompletionStatus × Snapshot)

namespace Session

inductive Action where
  | set (name : String) (value : Value)
  | start
  | update
  | finish (status : CompletionStatus) (published : Bool)
  | callback (number : Nat)

def load (i : ViewInstance) (row : Row) : Session := ⟨i, row, none, []⟩

/-- The store updates one row, and takes every callback. -/
def transaction (s : Session) : Transaction :=
  ⟨s.open?.isSome, fun _ _ => .ok 1, fun _ => .ok ()⟩

end Session

namespace Updater

/-- What a call does to the copy of an open transaction. -/
def perform (u : Updater) (t : OpenTransaction) : TransactionCall → OpenTransaction
  | .execute _ bindings => { t with copy := u.write bindings t.copy }
  | .register s => { t with callbacks := t.callbacks ++ [s] }

end Updater

namespace Session

/-- One transaction is open at a time. The callbacks of an ended one may run at any later
time, in any order and more than once. -/
def step (u : Updater) (s : Session) : Action → Session
  | .set name value =>
    match s.current.set name value with
    | .ok next => { s with current := next }
    | .error _ => s
  | .start =>
    match s.open? with
    | some _ => s
    | none => { s with open? := some ⟨s.committed, []⟩ }
  | .update =>
    let calls := (u.run s.transaction s.current).calls
    { s with open? := s.open?.map fun t => calls.foldl u.perform t }
  | .finish status published =>
    match s.open? with
    | some t =>
      { s with
        committed := if status.publishes published then t.copy else s.committed
        open? := none
        due := s.due ++ t.callbacks.map (status, ·) }
    | none => s
  | .callback number =>
    match s.due[number]? with
    | some (status, snapshot) => { s with current := s.current.complete snapshot status }
    | none => s

def run (u : Updater) (s : Session) (actions : List Action) : Session := actions.foldl (step u) s

/-- An update in an open transaction is executed and succeeds. -/
theorem run_open {u : Updater} {s : Session} {t : OpenTransaction} (h : s.open? = some t)
    (same : s.current.view.name = u.view.name) :
    (u.run s.transaction s.current).calls =
      [.execute u.statement (u.bindings s.current.snapshot), .register s.current.snapshot] ∧
    (u.run s.transaction s.current).outcome = .ok () := by
  simp [Updater.run, Updater.execute, Updater.register, transaction, same, h]

/-- It writes all columns to the copy of the row. -/
theorem step_update {u : Updater} {s : Session} {t : OpenTransaction} (h : s.open? = some t)
    (same : s.current.view.name = u.view.name) :
    step u s .update = { s with
      open? := some ⟨u.write (u.bindings s.current.snapshot) t.copy,
        t.callbacks ++ [s.current.snapshot]⟩ } := by
  rw [step, (run_open h same).1, h]
  rfl

end Session

/-- A row has the values of the unchanged attributes of an instance, and those of the live
changes that one of the snapshots holds. -/
structure Matches (v : ViewType) (i : ViewInstance) (row : Row) (told : List Snapshot) :
    Prop where
  unchanged : ∀ a ∈ v.columns, ∀ path, a.path? = some path → (i.cell a).change? = none →
    (i.cell a).loaded = row path
  covered : ∀ s ∈ told, ∀ a ∈ v.columns, ∀ path, a.path? = some path →
    ∀ captured change, s.captured? v a = some captured → (i.cell a).change? = some change →
      change.stamp = captured.stamp → change.value = row path
  older : ∀ s ∈ told, ∀ a ∈ v.columns, ∀ captured, s.captured? v a = some captured →
    captured.stamp < i.freshStamp

section Matching
variable {v : ViewType} (hv : v.WellFormed) {i : ViewInstance} {row : Row}
  {told : List Snapshot}

theorem Matches.mono (h : Matches v i row told) {fewer : List Snapshot}
    (sub : ∀ s ∈ fewer, s ∈ told) : Matches v i row fewer :=
  ⟨h.unchanged, fun s hs => h.covered s (sub s hs), fun s hs => h.older s (sub s hs)⟩

/-- The stamp of a new change is in no snapshot. -/
theorem matches_set {b : ViewAttribute} {value : Value} {next : ViewInstance}
    (sets : ViewInstance.Sets v b value i next) (h : Matches v i row told) :
    Matches v next row told := by
  constructor
  · intro a ha path hpath clean
    by_cases hab : a = b
    · subst hab
      rw [sets.here] at clean
      cases clean
    · rw [sets.elsewhere a (ViewType.mem_of_mem_columns ha) hab] at clean ⊢
      exact h.unchanged a ha path hpath clean
  · intro s hs a ha path hpath captured change hcaptured hchange same
    by_cases hab : a = b
    · subst hab
      rw [sets.here] at hchange
      cases hchange
      have := h.older s hs a ha captured hcaptured
      dsimp only at same
      omega
    · rw [sets.elsewhere a (ViewType.mem_of_mem_columns ha) hab] at hchange
      exact h.covered s hs a ha path hpath captured change hcaptured hchange same
  · intro s hs a ha captured hcaptured
    have := h.older s hs a ha captured hcaptured
    rw [sets.stamp]
    omega

include hv

/-- What a commit takes in has the value of its column. -/
theorem matches_clear (hi : i.Fits v) (h : Matches v i row told) {s : Snapshot}
    (hs : s ∈ told) : Matches v (i.clear s) row told := by
  have settled : ∀ a ∈ v.columns, (i.clear s).cell a = (i.cell a).settle (s.captured? v a) :=
    fun a ha => ViewInstance.cell_clear hv hi s (ViewType.mem_of_mem_columns ha)
  constructor
  · intro a ha path hpath clean
    rw [settled a ha] at clean ⊢
    rcases Cell.settle_cases (s.captured? v a) (i.cell a) with
      ⟨same, -⟩ | ⟨captured, change, hcaptured, hchange, hstamp, taken⟩
    · rw [same] at clean ⊢
      exact h.unchanged a ha path hpath clean
    · rw [taken]
      exact h.covered s hs a ha path hpath captured change hcaptured hchange hstamp
  · intro x hx a ha path hpath captured change hcaptured hchange same
    rw [settled a ha] at hchange
    rcases Cell.settle_cases (s.captured? v a) (i.cell a) with
      ⟨kept, -⟩ | ⟨_, _, -, -, -, taken⟩
    · rw [kept] at hchange
      exact h.covered x hx a ha path hpath captured change hcaptured hchange same
    · rw [taken] at hchange
      cases hchange
  · rw [ViewInstance.freshStamp_clear hv hi s]
    exact h.older

/-- After an update the row also has the values of all live changes. -/
theorem matches_update {u : Updater} (built : Updater.ofView v = .ok u)
    (own : v.HasOwnColumns) (hi : i.Fits v)
    (fresh : ∀ a ∈ v.columns, ∀ change, (i.cell a).change? = some change →
      change.stamp < i.freshStamp)
    (h : Matches v i row told) :
    Matches v i (u.write (u.bindings i.snapshot) row) (told ++ [i.snapshot]) := by
  have writable : ∀ a ∈ v.columns, ∀ change, (i.cell a).change? = some change →
      a ∈ v.writable := by
    intro a ha change hchange
    rcases ViewType.mem_columns.mp ha with hid | hw
    · obtain ⟨hmem, hw⟩ := ViewType.mem_of_id? hid
      rw [ViewInstance.change?_of_not_writable hv hi hmem hw] at hchange
      cases hchange
    · exact hw
  constructor
  · intro a ha path hpath clean
    rcases ViewType.mem_columns.mp ha with hid | hw
    · rw [Updater.write_of_forall_ne hv built]
      · exact h.unchanged a ha path hpath clean
      · intro b hb hsame
        obtain rfl := ViewType.eq_of_path?_eq own (ViewType.mem_columns_of_writable hb) ha
          (hsame.trans hpath.symm)
        have hw := (List.mem_filter.mp hb).2
        rw [(ViewType.mem_of_id? hid).2] at hw
        cases hw
    · rw [Updater.write_of_writable hv built own hi hw hpath]
      exact (Cell.current_of_clean clean).symm
  · intro s _ a ha path hpath captured change _ hchange _
    rw [Updater.write_of_writable hv built own hi (writable a ha change hchange) hpath]
    exact (Cell.current_of_changed hchange).symm
  · intro s hs a ha captured hcaptured
    rcases List.mem_append.mp hs with hold | hnew
    · exact h.older s hold a ha captured hcaptured
    · obtain rfl := List.mem_singleton.mp hnew
      rw [ViewInstance.captured?_snapshot hi] at hcaptured
      exact fresh a ha captured hcaptured

end Matching

namespace Session

/-- The snapshots whose callbacks come with a commit. -/
def told (s : Session) : List Snapshot :=
  s.due.filterMap fun
    | (.committed, snapshot) => some snapshot
    | (.rolledBack, _) | (.unknown, _) => none

theorem mem_told {s : Session} {snapshot : Snapshot} :
    snapshot ∈ s.told ↔ (.committed, snapshot) ∈ s.due := by
  rw [told, List.mem_filterMap]
  constructor
  · rintro ⟨⟨status, x⟩, hx, heq⟩
    cases status <;> cases heq
    exact hx
  · intro h
    exact ⟨_, h, rfl⟩

structure Agrees (v : ViewType) (s : Session) : Prop where
  fits : s.current.Fits v
  fresh : ∀ a ∈ v.columns, ∀ change, (s.current.cell a).change? = some change →
    change.stamp < s.current.freshStamp
  committed : Matches v s.current s.committed s.told
  copy : ∀ t, s.open? = some t → Matches v s.current t.copy (s.told ++ t.callbacks)

theorem agrees_load {v : ViewType} {values : List Value} {i : ViewInstance}
    (h : ViewInstance.ofValues v values = .ok i) {row : Row} (loaded : v.Loaded values row) :
    Agrees v (load i row) := by
  have cell := ViewInstance.cell_ofValues h
  constructor
  · exact (ViewInstance.fits_ofValues h).1
  · intro a _ change hchange
    simp only [load, cell] at hchange
    cases hchange
  · constructor
    · intro a ha path hpath _
      simp only [load, cell, loaded a ha path hpath, Option.getD_some]
    · intro s hs
      cases hs
    · intro s hs
      cases hs
  · intro t ht
    cases ht

section Steps
variable {v : ViewType} {u : Updater} {s : Session}

theorem agrees_set (h : Agrees v s) {a : ViewAttribute} {value : Value} {next : ViewInstance}
    (sets : ViewInstance.Sets v a value s.current next) :
    Agrees v { s with current := next } := by
  constructor
  · exact sets.fits
  · intro b hb change hchange
    show change.stamp < next.freshStamp
    rw [sets.stamp]
    by_cases hba : b = a
    · subst hba
      simp only [sets.here, Option.some.injEq] at hchange
      subst hchange
      exact Nat.lt_succ_self _
    · simp only [sets.elsewhere b (ViewType.mem_of_mem_columns hb) hba] at hchange
      exact Nat.lt_succ_of_lt (h.fresh b hb change hchange)
  · exact matches_set sets h.committed
  · intro t ht
    exact matches_set sets (h.copy t ht)

theorem agrees_start (h : Agrees v s) :
    Agrees v { s with open? := some ⟨s.committed, []⟩ } := by
  refine ⟨h.fits, h.fresh, h.committed, ?_⟩
  rintro t ⟨⟩
  rw [List.append_nil]
  exact h.committed

theorem agrees_finish (h : Agrees v s) {t : OpenTransaction} (ht : s.open? = some t)
    (status : CompletionStatus) (published : Bool) :
    Agrees v ⟨s.current, if status.publishes published then t.copy else s.committed, none,
      s.due ++ t.callbacks.map (status, ·)⟩ := by
  have hcopy := h.copy t ht
  refine ⟨h.fits, h.fresh, ?_, ?_⟩
  · by_cases hstatus : status = .committed
    · subst hstatus
      refine hcopy.mono ?_
      intro x hx
      rcases List.mem_append.mp (mem_told.mp hx) with hold | hnew
      · exact List.mem_append_left _ (mem_told.mpr hold)
      · obtain ⟨y, hy, heq⟩ := List.mem_map.mp hnew
        cases heq
        exact List.mem_append_right _ hy
    · -- No new callback comes with a commit, so that either row will do.
      have same : ∀ x ∈ told ⟨s.current, if status.publishes published then t.copy
          else s.committed, none, s.due ++ t.callbacks.map (status, ·)⟩, x ∈ s.told := by
        intro x hx
        rcases List.mem_append.mp (mem_told.mp hx) with hold | hnew
        · exact mem_told.mpr hold
        · obtain ⟨y, -, heq⟩ := List.mem_map.mp hnew
          exact absurd (congrArg Prod.fst heq) hstatus
      cases hp : status.publishes published with
      | true => exact hcopy.mono fun x hx => List.mem_append_left _ (same x hx)
      | false => exact h.committed.mono same
  · intro other hother
    cases hother

theorem agrees_callback (hv : v.WellFormed) (h : Agrees v s) {status : CompletionStatus}
    {snapshot : Snapshot} (hdue : (status, snapshot) ∈ s.due) :
    Agrees v { s with current := s.current.complete snapshot status } := by
  cases status with
  | rolledBack => exact h
  | unknown => exact h
  | committed =>
    have htold := mem_told.mpr hdue
    constructor
    · exact ViewInstance.fits_clear hv h.fits snapshot
    · intro a ha change hchange
      show change.stamp < (s.current.clear snapshot).freshStamp
      rw [ViewInstance.freshStamp_clear hv h.fits snapshot]
      have hcell := ViewInstance.cell_clear hv h.fits snapshot (ViewType.mem_of_mem_columns ha)
      have hchange : ((s.current.clear snapshot).cell a).change? = some change := hchange
      rw [hcell] at hchange
      rcases Cell.settle_cases (snapshot.captured? v a) (s.current.cell a) with
        ⟨same, -⟩ | ⟨_, _, -, -, -, taken⟩
      · rw [same] at hchange
        exact h.fresh a ha change hchange
      · rw [taken] at hchange
        cases hchange
    · exact matches_clear hv h.fits h.committed htold
    · intro t ht
      exact matches_clear hv h.fits (h.copy t ht) (List.mem_append_left _ htold)

theorem agrees_step (hv : v.WellFormed) (built : Updater.ofView v = .ok u)
    (own : v.HasOwnColumns) (action : Action) (h : Agrees v s) : Agrees v (step u s action) := by
  cases action with
  | set name value =>
    cases hset : s.current.set name value with
    | error e => simpa [step, hset] using h
    | ok next =>
      obtain ⟨a, -, -, sets⟩ := ViewInstance.set_ok hv h.fits hset
      simpa [step, hset] using agrees_set h sets
  | start =>
    cases ht : s.open? with
    | some t => simpa [step, ht] using h
    | none => simpa [step, ht] using agrees_start h
  | update =>
    cases ht : s.open? with
    | none =>
      have same : step u s .update = s := by rw [step, ht, Option.map_none, ← ht]
      rwa [same]
    | some t =>
      rw [step_update ht (by rw [h.fits.view_eq, Updater.view_eq hv built])]
      refine ⟨h.fits, h.fresh, h.committed, ?_⟩
      rintro _ ⟨⟩
      rw [← List.append_assoc]
      exact matches_update hv built own h.fits h.fresh (h.copy t ht)
  | finish status published =>
    cases ht : s.open? with
    | none => simpa [step, ht] using h
    | some t => simpa [step, ht] using agrees_finish h ht status published
  | callback number =>
    cases hdue : s.due[number]? with
    | none => simpa [step, hdue] using h
    | some entry =>
      obtain ⟨status, snapshot⟩ := entry
      simpa [step, hdue] using agrees_callback hv h (List.mem_of_getElem? hdue)

theorem agrees_run (hv : v.WellFormed) (built : Updater.ofView v = .ok u)
    (own : v.HasOwnColumns) (actions : List Action) (h : Agrees v s) :
    Agrees v (run u s actions) := by
  induction actions generalizing s with
  | nil => exact h
  | cons action rest ih => exact ih (agrees_step hv built own action h)

end Steps

/-- At any time an attribute without a change has the value of its column, in the row and in
the copy of an open transaction, and the next update writes that same value there. The update
succeeds in an open transaction, and writes to each column what the getter gives. -/
theorem no_stale_write {v : ViewType} (managed : v.Managed) {u : Updater}
    (built : Updater.ofView v = .ok u) (own : v.HasOwnColumns) {values : List Value}
    {i : ViewInstance} (made : ViewInstance.Made v values i) {row : Row}
    (loaded : v.Loaded values row) (actions : List Action) :
    let s := run u (load i row) actions
    (∀ a ∈ v.columns, ∀ path, a.path? = some path → (s.current.cell a).change? = none →
      (s.current.loaded[a.position]? = some (s.committed path) ∧
        u.write (u.bindings s.current.snapshot) s.committed path = s.committed path) ∧
      ∀ t, s.open? = some t → s.current.loaded[a.position]? = some (t.copy path) ∧
        u.write (u.bindings s.current.snapshot) t.copy path = t.copy path) ∧
    (∀ t, s.open? = some t → (u.run s.transaction s.current).outcome = .ok () ∧
      (step u s .update).open? = some ⟨u.write (u.bindings s.current.snapshot) t.copy,
        t.callbacks ++ [s.current.snapshot]⟩) ∧
    ∀ a ∈ v.writable, ∀ path, a.path? = some path → ∀ stored,
      s.current.get a.name = .ok (u.write (u.bindings s.current.snapshot) stored path) := by
  intro s
  have hv := managed.wellFormed
  have h : Agrees v s := agrees_run hv built own actions (agrees_load made.ofValues_eq loaded)
  have kept : ∀ stored told, Matches v s.current stored told → ∀ a ∈ v.columns, ∀ path,
      a.path? = some path → (s.current.cell a).change? = none →
        s.current.loaded[a.position]? = some (stored path) ∧
          u.write (u.bindings s.current.snapshot) stored path = stored path := by
    intro stored told hmatches a ha path hpath clean
    have hnext := matches_update hv built own h.fits h.fresh hmatches
    have hstored := hmatches.unchanged a ha path hpath clean
    have hwritten := hnext.unchanged a ha path hpath clean
    rw [ViewInstance.loaded_getElem? hv h.fits (ViewType.mem_of_mem_columns ha), hstored]
    exact ⟨rfl, hwritten.symm.trans hstored⟩
  refine ⟨?_, ?_, ?_⟩
  · intro a ha path hpath clean
    exact ⟨kept _ _ h.committed a ha path hpath clean,
      fun t ht => kept _ _ (h.copy t ht) a ha path hpath clean⟩
  · intro t ht
    have same : s.current.view.name = u.view.name := by
      rw [h.fits.view_eq, Updater.view_eq hv built]
    refine ⟨(run_open ht same).2, ?_⟩
    rw [step_update ht same]
  · intro a ha path hpath stored
    rw [Updater.write_of_writable hv built own h.fits ha hpath,
      ViewInstance.get_eq_current hv h.fits (List.mem_filter.mp ha).1]

/-- The row that a document is loaded from. -/
def documentRow : Row := fun path =>
  ([("id", .int 1), ("name", .text "A"), ("age", .text "B"), ("kind", .text "K")].lookup
    path).getD .null

theorem documentRow_loaded : ViewType.ofDocuments.Loaded ViewInstance.document.loaded
    documentRow := by
  intro a ha path hpath
  have columns : ViewType.ofDocuments.columns =
      [ViewType.ofDocuments.attributes[0], ViewType.ofDocuments.attributes[1],
        ViewType.ofDocuments.attributes[2]] := rfl
  rw [columns] at ha
  simp only [List.mem_cons, List.not_mem_nil, or_false] at ha
  rcases ha with rfl | rfl | rfl
  · cases hpath
    rfl
  · cases hpath
    rfl
  · cases hpath
    rfl

/-- The name is written in a transaction that rolls back, and set and written again. The age
is set again before the commit. -/
theorem no_stale_write_document :
    let s := run .ofDocuments (load .document documentRow)
      [.set "name" (.text "N"), .start, .update, .set "name" (.text "M"), .update,
        .finish .rolledBack false, .callback 1, .callback 0, .set "age" (.text "X"), .start,
        .update, .set "age" (.text "Y"), .finish .committed true, .callback 2]
    s.committed "name" = .text "M" ∧ s.committed "age" = .text "X" ∧
      s.current.loaded[1]? = some (s.committed "name") ∧
      (s.current.cell ViewType.ofDocuments.attributes[2]).change?.isSome = true ∧
      Updater.ofDocuments.write (Updater.ofDocuments.bindings s.current.snapshot) s.committed
        "name" = s.committed "name" ∧
      s.current.get "age" = .ok (Updater.ofDocuments.write
        (Updater.ofDocuments.bindings s.current.snapshot) s.committed "age") := by
  intro s
  have name : ViewType.ofDocuments.attributes[1] ∈ ViewType.ofDocuments.columns :=
    List.mem_of_getElem? (i := 1) rfl
  have own : ViewType.ofDocuments.HasOwnColumns := by
    rw [ViewType.HasOwnColumns]
    decide
  obtain ⟨unchanged, -, written⟩ := no_stale_write ViewType.ofDocuments_managed
    Updater.ofDocuments_built own ViewInstance.made_document documentRow_loaded
    [.set "name" (.text "N"), .start, .update, .set "name" (.text "M"), .update,
      .finish .rolledBack false, .callback 1, .callback 0, .set "age" (.text "X"), .start,
      .update, .set "age" (.text "Y"), .finish .committed true, .callback 2]
  obtain ⟨⟨hloaded, hwritten⟩, -⟩ := unchanged _ name "name" rfl rfl
  have age := written _ (List.mem_of_getElem? (i := 1) rfl) "age" rfl s.committed
  exact ⟨rfl, rfl, hloaded, rfl, hwritten, age⟩

end Session
end EntityQuery
