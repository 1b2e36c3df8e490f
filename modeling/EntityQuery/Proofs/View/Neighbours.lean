import EntityQuery.Proofs.View.UpdateProtocol
import Mathlib.Data.List.Induction

/-!
# Instances side by side

Every instance numbers its changes for itself, and a snapshot does not say whose it is. So the
snapshot of one instance clears a marker of another exactly if the last setters of the attribute
on both, on the one before the snapshot, have the same number. An instance that is not cleared
with snapshots of others is what its own events make of it, and if it is cleared only by the
commits of its own updates, then what has no marker was written.

A lifetime knows the captures of its own instance only, and its invariant ties markers to them.
It does not hold here, where captures of others clear markers. What does hold is kept for each
instance alone: a change, live or captured, is one of its accepted setters, under its number. An
instance that is made later is one that nothing happens to before.
-/

namespace EntityQuery

/-- The last setter of an attribute among the accepted ones, stamped with its number. -/
def lastChange? (name : String) (setters : List (String × Value)) : Option Change :=
  setters.zipIdx.foldl (fun last (setter, number) =>
    if setter.1 = name then some ⟨setter.2, number⟩ else last) none

theorem lastChange?_concat (name : String) (setters : List (String × Value))
    (setter : String × Value) :
    lastChange? name (setters ++ [setter]) =
      if setter.1 = name then some ⟨setter.2, setters.length⟩ else lastChange? name setters := by
  simp [lastChange?, List.zipIdx_append]

theorem getElem?_of_lastChange? {name : String} {setters : List (String × Value)}
    {change : Change} (h : lastChange? name setters = some change) :
    setters[change.stamp]? = some (name, change.value) := by
  induction setters using List.reverseRecOn with
  | nil => cases h
  | append_singleton setters setter ih =>
    rw [lastChange?_concat] at h
    split at h
    · rename_i same
      subst same
      cases h
      simp
    · have before := ih h
      have inside := (List.getElem?_eq_some_iff.mp before).1
      rw [List.getElem?_append_left inside, before]

theorem stamp_lt_of_lastChange? {name : String} {setters : List (String × Value)}
    {change : Change} (h : lastChange? name setters = some change) :
    change.stamp < setters.length :=
  (List.getElem?_eq_some_iff.mp (getElem?_of_lastChange? h)).1

/-- Of one instance, a number stands for one setter. -/
theorem eq_of_stamp_eq {name : String} {setters : List (String × Value)} {n : Nat}
    {change earlier : Change} (h : lastChange? name setters = some change)
    (before : lastChange? name (setters.take n) = some earlier)
    (same : change.stamp = earlier.stamp) : earlier = change := by
  have nowAt := getElem?_of_lastChange? h
  have earlierAt := getElem?_of_lastChange? before
  have inside := stamp_lt_of_lastChange? before
  rw [List.length_take] at inside
  rw [List.getElem?_take_of_lt (by omega), ← same, nowAt] at earlierAt
  obtain ⟨value, stamp⟩ := change
  obtain ⟨other, number⟩ := earlier
  cases earlierAt
  cases same
  rfl

/-- The number of the last setter of an attribute. -/
def number? (name : String) (setters : List (String × Value)) : Option Nat :=
  (lastChange? name setters).map (·.stamp)

/-- An update goes through the updater of the view type. -/
def Event.Through (v : ViewType) : Event → Prop
  | .update u _ => Updater.ofView v = .ok u
  | .set .. | .snapshot | .complete .. => True

/-- What was captured of an instance, how many setters it had accepted then, and the statements
that were sent with it. -/
structure Capture where
  setters : Nat
  state : Snapshot
  sent : List (String × List (String × Value))

/-- An instance, the setters that it has accepted, and its captures in the order in which they
were taken, with the numbers of those to which a commit was told. -/
structure Neighbour where
  current : ViewInstance
  setters : List (String × Value)
  captures : List Capture
  committed : List Nat

namespace Neighbour

def start (i : ViewInstance) : Neighbour := ⟨i, [], [], []⟩

def accept (n : Neighbour) (name : String) (value : Value) (next : ViewInstance) : Neighbour :=
  { n with current := next, setters := n.setters ++ [(name, value)] }

def capture (n : Neighbour) (sent : List (String × List (String × Value))) (s : Snapshot) :
    Neighbour :=
  { n with captures := n.captures ++ [⟨n.setters.length, s, sent⟩] }

/-- Clears the instance with a snapshot of whatever instance. -/
def clear (n : Neighbour) (s : Snapshot) : Neighbour := { n with current := n.current.clear s }

def commit (n : Neighbour) (number : Nat) (s : Snapshot) : Neighbour :=
  { n.clear s with committed := n.committed ++ [number] }

/-- Only the captures of updates have callbacks. -/
def step (n : Neighbour) : Event → Neighbour
  | .set name value =>
    match n.current.set name value with
    | .ok next => n.accept name value next
    | .error _ => n
  | .snapshot => n.capture [] n.current.snapshot
  | .update u t =>
    let run := u.run t n.current
    run.offered.foldl (·.capture run.executed) n
  | .complete number status =>
    match n.captures[number]? with
    | none => n
    | some c =>
      if c.sent.isEmpty then n
      else match status with
        | .committed => n.commit number c.state
        | .rolledBack | .unknown => n

/-- What a step can do. -/
inductive Steps (n : Neighbour) (e : Event) : Neighbour → Prop
  | stays : Steps n e n
  | accepts {name : String} {value : Value} {next : ViewInstance}
      (accepted : n.current.set name value = .ok next) : Steps n e (n.accept name value next)
  | captures {sent : List (String × List (String × Value))}
      (written : ∀ s ∈ sent, ∃ u t, e = .update u t ∧
        s = (u.statement, u.bindings n.current.snapshot)) :
      Steps n e (n.capture sent n.current.snapshot)
  | commits {number : Nat} {c : Capture} (told : e = .complete number .committed)
      (found : n.captures[number]? = some c) (sent : c.sent ≠ []) :
      Steps n e (n.commit number c.state)

theorem steps_step (n : Neighbour) (e : Event) : n.Steps e (n.step e) := by
  cases e with
  | set name value =>
    rw [step]
    cases accepted : n.current.set name value with
    | error err => exact .stays
    | ok next => exact .accepts accepted
  | snapshot => exact .captures (by simp)
  | update u t =>
    rw [step, u.offered_eq t n.current, u.executed_run t n.current]
    by_cases written : (n.current.view.name = u.view.name ∧ t.active = true) ∧
        u.answer t n.current = .ok 1
    · rw [if_pos written, if_pos written.1]
      exact .captures (by simp)
    · rw [if_neg written]
      exact .stays
  | complete number status =>
    rw [step]
    cases found : n.captures[number]? with
    | none => exact .stays
    | some c =>
      dsimp only
      split
      · exact .stays
      · rename_i sent
        cases status with
        | committed => exact .commits rfl found (by simpa using sent)
        | rolledBack => exact .stays
        | unknown => exact .stays

/-! Setters and captures of one instance. -/

/-- A live change is the last one that was accepted, and a captured one was when it was
captured. -/
structure Kept (v : ViewType) (n : Neighbour) : Prop where
  fits : n.current.Fits v
  stamp : n.current.freshStamp = n.setters.length
  live : ∀ a ∈ v.attributes, ∀ change, (n.current.cell a).change? = some change →
    lastChange? a.name n.setters = some change
  earlier : ∀ c ∈ n.captures, c.setters ≤ n.setters.length
  captured : ∀ c ∈ n.captures, ∀ a ∈ v.attributes, ∀ change,
    c.state.captured? v a = some change →
      lastChange? a.name (n.setters.take c.setters) = some change

theorem kept_start {v : ViewType} {values : List Value} {i : ViewInstance}
    (made : ViewInstance.Made v values i) : Kept v (start i) where
  fits := made.fits
  stamp := (ViewInstance.fits_ofValues made.ofValues_eq).2.2
  live a _ change live := by
    rw [start, ViewInstance.cell_ofValues made.ofValues_eq a] at live
    cases live
  earlier := by
    intro c hc
    cases hc
  captured := by
    intro c hc
    cases hc

section Kept
variable {v : ViewType} {n : Neighbour} (h : Kept v n)
include h

theorem kept_capture (sent : List (String × List (String × Value))) :
    Kept v (n.capture sent n.current.snapshot) := by
  refine ⟨h.fits, h.stamp, h.live, ?_, ?_⟩
  · intro c hc
    rcases List.mem_append.mp hc with old | new
    · exact h.earlier c old
    · obtain rfl := List.mem_singleton.mp new
      exact Nat.le_refl _
  · intro c hc a ha change held
    rcases List.mem_append.mp hc with old | new
    · exact h.captured c old a ha change held
    · obtain rfl := List.mem_singleton.mp new
      rw [ViewInstance.captured?_snapshot h.fits] at held
      simpa [capture] using h.live a ha change held

variable (hv : v.WellFormed)
include hv

theorem kept_accept {name : String} {value : Value} {next : ViewInstance}
    (accepted : n.current.set name value = .ok next) : Kept v (n.accept name value next) := by
  obtain ⟨a, ha, rfl, sets⟩ := ViewInstance.set_ok hv h.fits accepted
  have hmem : a ∈ v.attributes := (List.mem_filter.mp ha).1
  refine ⟨sets.fits, ?_, ?_, ?_, ?_⟩
  · simp [accept, sets.stamp, h.stamp]
  · intro b hb change live
    rw [accept, lastChange?_concat]
    by_cases hba : b = a
    · subst hba
      simp only [accept, sets.here, h.stamp] at live
      cases live
      simp
    · have hname : a.name ≠ b.name := fun heq =>
        hba (ViewType.eq_of_name_eq hv hb hmem heq.symm)
      simp only [accept, sets.elsewhere b hb hba] at live
      rw [if_neg hname, h.live b hb change live]
  · intro c hc
    have before := h.earlier c hc
    simp only [accept, List.length_append]
    omega
  · -- What was accepted before a capture stays where it was.
    intro c hc b hb change held
    rw [accept, List.take_append_of_le_length (h.earlier c hc)]
    exact h.captured c hc b hb change held

/-- Clearing takes markers away and changes nothing else. -/
theorem kept_clear (s : Snapshot) : Kept v (n.clear s) := by
  refine ⟨ViewInstance.fits_clear hv h.fits s, ?_, ?_, h.earlier, h.captured⟩
  · rw [clear, ViewInstance.freshStamp_clear hv h.fits s, h.stamp]
  · intro a ha change live
    refine h.live a ha change ?_
    simp only [clear, ViewInstance.cell_clear hv h.fits s ha] at live
    rcases Cell.settle_cases (s.captured? v a) (n.current.cell a) with
      ⟨same, -⟩ | ⟨_, _, -, -, -, settled⟩
    · rwa [same] at live
    · rw [settled] at live
      cases live

theorem kept_step (e : Event) : Kept v (n.step e) := by
  have steps := n.steps_step e
  generalize n.step e = next at steps ⊢
  cases steps with
  | stays => exact h
  | accepts accepted => exact kept_accept h hv accepted
  | captures => exact kept_capture h _
  | @commits _ c =>
    have cleared := kept_clear h hv c.state
    exact ⟨cleared.fits, cleared.stamp, cleared.live, cleared.earlier, cleared.captured⟩

end Kept

/-! Clearing with the captures of another. -/

/-- The attribute is marked as changed. -/
def Marked (n : Neighbour) (a : ViewAttribute) : Prop :=
  (n.current.cell a).change?.isSome = true

section Clears
variable {v : ViewType} (hv : v.WellFormed) {n m : Neighbour} (h : Kept v n) (hm : Kept v m)
  {c : Capture} (taken : c ∈ m.captures) {a : ViewAttribute} (ha : a ∈ v.attributes)
include hv h hm taken ha

/-- The marker goes where the capture has a change of the same number. -/
theorem not_marked_clear_iff (marked : n.Marked a) :
    ¬ (n.clear c.state).Marked a ↔ (c.state.captured? v a).isSome = true ∧
      number? a.name n.setters = number? a.name (m.setters.take c.setters) := by
  obtain ⟨change, live⟩ := Option.isSome_iff_exists.mp marked
  rw [Marked, clear, ViewInstance.cell_clear hv h.fits c.state ha, number?, number?,
    h.live a ha change live]
  rcases Cell.settle_cases (c.state.captured? v a) (n.current.cell a) with
    ⟨same, differs⟩ | ⟨captured, other, held, hother, stamp, settled⟩
  · rw [same, live]
    refine iff_of_false (by simp) ?_
    rintro ⟨holds, numbers⟩
    obtain ⟨captured, held⟩ := Option.isSome_iff_exists.mp holds
    rw [hm.captured c taken a ha captured held] at numbers
    exact differs captured change held live (Option.some.inj numbers)
  · obtain rfl := Option.some.inj (live.symm.trans hother)
    rw [settled, held, hm.captured c taken a ha captured held]
    exact iff_of_true (by simp) ⟨rfl, congrArg some stamp⟩

end Clears

section Own
variable {v : ViewType} (hv : v.WellFormed) {n : Neighbour} (h : Kept v n) {c : Capture}
  {a : ViewAttribute} (ha : a ∈ v.attributes) (marked : n.Marked a) {last : Nat}
  (number : number? a.name n.setters = some last) (later : c.setters ≤ last)
include hv h ha marked number later

/-- With a capture of its own an instance keeps the markers of all later changes. -/
theorem marked_of_later (taken : c ∈ n.captures) : (n.clear c.state).Marked a := by
  by_contra gone
  obtain ⟨-, numbers⟩ := (not_marked_clear_iff hv h h taken ha marked).mp gone
  rw [number] at numbers
  obtain ⟨change, before, rfl⟩ := Option.map_eq_some_iff.mp numbers.symm
  have inside := stamp_lt_of_lastChange? before
  rw [List.length_take] at inside
  omega

theorem marked_of_told {place : Nat} (found : n.captures[place]? = some c) :
    (n.step (.complete place .committed)).Marked a := by
  by_cases sent : c.sent.isEmpty = true
  · simpa [step, found, sent] using marked
  · simpa [step, found, sent, commit, Marked] using
      marked_of_later hv h ha marked number later (List.mem_of_getElem? found)

end Own

/-! Instances that are cleared only by the commits of their own updates. -/

/-- A commit was told to an update that had captured the change. -/
def Saved (v : ViewType) (n : Neighbour) (a : ViewAttribute) (change : Change) : Prop :=
  ∃ number ∈ n.committed, ∃ c, n.captures[number]? = some c ∧ c.sent ≠ [] ∧
    c.state.captured? v a = some change

/-- Updates send the changes that they capture, and a change without a marker is saved. -/
structure Written (v : ViewType) (n : Neighbour) : Prop where
  sent : ∀ c ∈ n.captures, ∀ s ∈ c.sent, ∀ a ∈ v.writable, ∀ change,
    c.state.captured? v a = some change → (a.name, change.value) ∈ s.2
  saved : ∀ a ∈ v.writable, ∀ change, lastChange? a.name n.setters = some change →
    n.Marked a ∨ n.Saved v a change

theorem written_start (v : ViewType) (i : ViewInstance) : Written v (start i) := by
  constructor
  · intro c hc
    cases hc
  · intro a _ change last
    cases last

section Written
variable {v : ViewType} (hv : v.WellFormed) {n : Neighbour} (h : Kept v n)
  (written : Written v n)
include hv h

theorem mem_bindings {u : Updater} (built : Updater.ofView v = .ok u) {a : ViewAttribute}
    (ha : a ∈ v.writable) {change : Change}
    (held : n.current.snapshot.captured? v a = some change) :
    (a.name, change.value) ∈ u.bindings n.current.snapshot := by
  obtain ⟨id, -, -, bound⟩ := Updater.bindings_eq hv h.fits built
  rw [ViewInstance.captured?_snapshot h.fits] at held
  rw [bound, ← Cell.current_of_changed held]
  exact List.mem_cons_of_mem _ (List.mem_map_of_mem ha)

include written

theorem written_capture {e : Event} (through : e.Through v)
    {sent : List (String × List (String × Value))}
    (updates : ∀ s ∈ sent, ∃ u t, e = .update u t ∧
      s = (u.statement, u.bindings n.current.snapshot)) :
    Written v (n.capture sent n.current.snapshot) := by
  constructor
  · intro c hc s hs a ha change held
    rcases List.mem_append.mp hc with old | new
    · exact written.sent c old s hs a ha change held
    · obtain rfl := List.mem_singleton.mp new
      obtain ⟨u, t, rfl, rfl⟩ := updates s hs
      exact mem_bindings hv h through ha held
  · intro a ha change last
    refine (written.saved a ha change last).imp_right ?_
    rintro ⟨number, told, c, found, rest⟩
    refine ⟨number, told, c, ?_, rest⟩
    rw [capture, List.getElem?_append_left (List.getElem?_eq_some_iff.mp found).1, found]

theorem written_accept {name : String} {value : Value} {next : ViewInstance}
    (accepted : n.current.set name value = .ok next) : Written v (n.accept name value next) := by
  obtain ⟨b, hb, rfl, sets⟩ := ViewInstance.set_ok hv h.fits accepted
  refine ⟨written.sent, ?_⟩
  intro a ha change last
  have hmem : a ∈ v.attributes := (List.mem_filter.mp ha).1
  rw [accept, lastChange?_concat] at last
  by_cases hab : a = b
  · subst hab
    exact Or.inl (by simp [Marked, accept, sets.here])
  · have hname : b.name ≠ a.name := fun heq =>
      hab (ViewType.eq_of_name_eq hv hmem (List.mem_filter.mp hb).1 heq.symm)
    rw [if_neg hname] at last
    refine (written.saved a ha change last).imp_left fun marked => ?_
    simpa [Marked, accept, sets.elsewhere a hmem hab] using marked

/-- The changes that a commit clears are those that its update captured. -/
theorem written_commit {number : Nat} {c : Capture} (found : n.captures[number]? = some c)
    (sent : c.sent ≠ []) : Written v (n.commit number c.state) := by
  refine ⟨written.sent, ?_⟩
  intro a ha change last
  have hmem : a ∈ v.attributes := (List.mem_filter.mp ha).1
  have cell : (n.commit number c.state).current.cell a =
      (n.current.cell a).settle (c.state.captured? v a) :=
    ViewInstance.cell_clear hv h.fits c.state hmem
  rcases written.saved a ha change last with marked | ⟨other, told, saved⟩
  · rcases Cell.settle_cases (c.state.captured? v a) (n.current.cell a) with
      ⟨same, -⟩ | ⟨captured, live, held, hlive, stamp, -⟩
    · exact Or.inl (by rwa [Marked, cell, same])
    · obtain rfl : live = change :=
        Option.some.inj ((h.live a hmem live hlive).symm.trans last)
      have before := h.captured c (List.mem_of_getElem? found) a hmem captured held
      obtain rfl := eq_of_stamp_eq last before stamp
      exact Or.inr ⟨number, by simp [commit], c, found, sent, held⟩
  · exact Or.inr ⟨other, List.mem_append_left _ told, saved⟩

theorem written_step {e : Event} (through : e.Through v) : Written v (n.step e) := by
  have steps := n.steps_step e
  generalize n.step e = next at steps ⊢
  cases steps with
  | stays => exact written
  | accepts accepted => exact written_accept hv h written accepted
  | captures updates => exact written_capture hv h written through updates
  | commits _ found sent => exact written_commit hv h written found sent

end Written

end Neighbour

/-- What happens to one of several instances: an event of its own, or it is cleared with a
capture of one of them. -/
inductive NeighbourEvent (ι : Type) where
  | own (k : ι) (e : Event)
  | clear (k j : ι) (number : Nat)

namespace NeighbourEvent
variable {ι : Type}

/-- The instance that an event happens to. -/
def target : NeighbourEvent ι → ι
  | own k _ => k
  | clear k _ _ => k

/-- No capture of another instance plays a part. -/
def Secluded : NeighbourEvent ι → Prop
  | own .. => True
  | clear k j _ => j = k

/-- The instance is updated through the updater of its view type, and cleared by nothing but
commits. -/
def Regular (v : ViewType) : NeighbourEvent ι → Prop
  | own _ e => e.Through v
  | clear .. => False

end NeighbourEvent

abbrev Neighbours (ι : Type) := ι → Neighbour

namespace Neighbours
variable {ι : Type} [DecidableEq ι]

def start (is : ι → ViewInstance) : Neighbours ι := fun k => .start (is k)

def step (w : Neighbours ι) : NeighbourEvent ι → Neighbours ι
  | .own k e => Function.update w k ((w k).step e)
  | .clear k j number =>
    match (w j).captures[number]? with
    | some c => Function.update w k ((w k).clear c.state)
    | none => w

def run (w : Neighbours ι) (events : List (NeighbourEvent ι)) : Neighbours ι :=
  events.foldl step w

/-! What an event is for one instance. -/

theorem step_of_other {e : NeighbourEvent ι} {k : ι} (other : e.target ≠ k) (w : Neighbours ι) :
    w.step e k = w k := by
  cases e with
  | own j e => exact Function.update_of_ne (Ne.symm other) _ _
  | clear j i number =>
    cases found : (w i).captures[number]? with
    | none => simp [step, found]
    | some c =>
      have apart : k ≠ j := Ne.symm other
      simp [step, found, apart]

theorem step_own (w : Neighbours ι) (k : ι) (e : Event) :
    w.step (.own k e) k = (w k).step e :=
  Function.update_self _ _ _

theorem step_clear {w : Neighbours ι} {j : ι} {number : Nat} {c : Capture}
    (found : (w j).captures[number]? = some c) (k : ι) :
    w.step (.clear k j number) k = (w k).clear c.state := by
  simp [step, found]

theorem step_unfound {w : Neighbours ι} {j : ι} {number : Nat}
    (none : (w j).captures[number]? = none) (k : ι) : w.step (.clear k j number) = w := by
  simp [step, none]

/-- What events and clearing keep of an instance holds of all of them. -/
theorem step_keeps {P : Neighbour → Prop} (step : ∀ n e, P n → P (n.step e))
    (clear : ∀ n s, P n → P (n.clear s)) {w : Neighbours ι} (h : ∀ k, P (w k))
    (e : NeighbourEvent ι) (k : ι) : P (w.step e k) := by
  by_cases target : e.target = k
  · subst target
    cases e with
    | own k e =>
      rw [NeighbourEvent.target, step_own]
      exact step _ e (h k)
    | clear k j number =>
      cases found : (w j).captures[number]? with
      | none =>
        rw [step_unfound found]
        exact h k
      | some c =>
        rw [NeighbourEvent.target, step_clear found]
        exact clear _ c.state (h k)
  · rw [step_of_other target]
    exact h k

theorem kept_run {v : ViewType} (hv : v.WellFormed) {w : Neighbours ι}
    (h : ∀ k, (w k).Kept v) (events : List (NeighbourEvent ι)) : ∀ k, (w.run events k).Kept v := by
  induction events generalizing w with
  | nil => exact h
  | cons e rest ih =>
    exact ih (step_keeps (P := fun n => n.Kept v) (fun _ e h => Neighbour.kept_step h hv e)
      (fun _ s h => Neighbour.kept_clear h hv s) h e)

/-- An event that no capture of another plays a part in does the same to the same instance,
whatever the others are. -/
theorem step_congr {w x : Neighbours ι} {e : NeighbourEvent ι} (secluded : e.Secluded)
    (same : w e.target = x e.target) : w.step e e.target = x.step e e.target := by
  cases e with
  | own k e =>
    have same : w k = x k := same
    rw [NeighbourEvent.target, step_own, step_own, same]
  | clear k j number =>
    have same : w k = x k := same
    obtain rfl : j = k := secluded
    cases found : (w j).captures[number]? with
    | none => rw [step_unfound found, step_unfound (same ▸ found), NeighbourEvent.target, same]
    | some c =>
      rw [NeighbourEvent.target, step_clear found, step_clear (same ▸ found), same]

/-- Its own events make of an instance what all events together make of it. -/
theorem run_secluded {w x : Neighbours ι} {k : ι} (same : w k = x k)
    {events : List (NeighbourEvent ι)} (secluded : ∀ e ∈ events, e.target = k → e.Secluded) :
    w.run events k = x.run (events.filter (·.target = k)) k := by
  induction events generalizing w x with
  | nil => exact same
  | cons e rest ih =>
    obtain ⟨here, others⟩ := List.forall_mem_cons.mp secluded
    by_cases target : e.target = k
    · subst target
      rw [List.filter_cons_of_pos (by simp)]
      exact ih (step_congr (here rfl) same) others
    · rw [List.filter_cons_of_neg (by simpa using target)]
      exact ih ((step_of_other target w).trans same) others

theorem written_run {v : ViewType} (hv : v.WellFormed) {w : Neighbours ι}
    (h : ∀ k, (w k).Kept v) {k : ι} (written : (w k).Written v)
    {events : List (NeighbourEvent ι)} (regular : ∀ e ∈ events, e.target = k → e.Regular v) :
    (w.run events k).Written v := by
  induction events generalizing w with
  | nil => exact written
  | cons e rest ih =>
    obtain ⟨here, others⟩ := List.forall_mem_cons.mp regular
    refine ih (kept_run hv h [e]) ?_ others
    by_cases target : e.target = k
    · subst target
      cases e with
      | own k e =>
        rw [NeighbourEvent.target, step_own]
        exact Neighbour.written_step hv (h k) written (here rfl)
      | clear k j number => cases here rfl
    · rwa [step_of_other target]

/-- However the events of several instances are mixed: clearing one with a capture of another takes
the marker of an attribute away exactly if the capture holds a change of it and the last setters
of the attribute, on the one until now and on the other until the capture, have the same number.
With a capture of its own an instance keeps the markers of all later changes. Clearing changes no
getter, and an instance is reported as changed exactly if an attribute of it is marked. An
instance that is never cleared with captures of others is what its own events make of it. If it is
cleared by nothing but the commits of its own updates, the last change of an attribute is marked,
or it was sent with an update of this instance to which a commit was told. -/
theorem clear_neighbours {v : ViewType} (managed : v.Managed) {values : ι → List Value}
    {is : ι → ViewInstance} (made : ∀ k, ViewInstance.Made v (values k) (is k))
    (events : List (NeighbourEvent ι)) :
    let w := (start is).run events
    (∀ j number c, (w j).captures[number]? = some c →
      ∀ k, ∀ a ∈ v.writable, (w k).Marked a →
        (¬ (w.step (.clear k j number) k).Marked a ↔
          (c.state.captured? v a).isSome = true ∧
            number? a.name (w k).setters = number? a.name ((w j).setters.take c.setters))) ∧
    (∀ k number c, (w k).captures[number]? = some c →
      ∀ a ∈ v.writable, (w k).Marked a → ∀ last, number? a.name (w k).setters = some last →
        c.setters ≤ last →
          (w.step (.clear k k number) k).Marked a ∧
            (w.step (.own k (.complete number .committed)) k).Marked a) ∧
    (∀ k j number name, (w.step (.clear k j number) k).current.get name =
      (w k).current.get name) ∧
    (∀ k, (w k).current.hasChanges = true ↔ ∃ a ∈ v.writable, (w k).Marked a) ∧
    (∀ k, (∀ e ∈ events, e.target = k → e.Secluded) →
      w k = (start is).run (events.filter (·.target = k)) k) ∧
    ∀ k, (∀ e ∈ events, e.target = k → e.Regular v) → ∀ a ∈ v.writable, ∀ change,
      lastChange? a.name (w k).setters = some change →
        (w k).Marked a ∨ ∃ number ∈ (w k).committed, ∃ c, (w k).captures[number]? = some c ∧
          lastChange? a.name ((w k).setters.take c.setters) = some change ∧
          ∃ s ∈ c.sent, (a.name, change.value) ∈ s.2 := by
  intro w
  have hv := managed.wellFormed
  have started : ∀ k, (start is k).Kept v := fun k => Neighbour.kept_start (made k)
  have h : ∀ k, (w k).Kept v := kept_run hv started events
  have mem : ∀ a ∈ v.writable, a ∈ v.attributes := fun a ha => (List.mem_filter.mp ha).1
  refine ⟨?_, ?_, ?_, fun k => ViewInstance.hasChanges_iff hv (h k).fits,
    fun k secluded => run_secluded rfl secluded, ?_⟩
  · intro j number c found k a ha marked
    rw [step_clear found]
    exact Neighbour.not_marked_clear_iff hv (h k) (h j) (List.mem_of_getElem? found) (mem a ha)
      marked
  · intro k number c found a ha marked last hlast later
    rw [step_clear found, step_own]
    exact ⟨Neighbour.marked_of_later hv (h k) (mem a ha) marked hlast later
      (List.mem_of_getElem? found),
      Neighbour.marked_of_told hv (h k) (mem a ha) marked hlast later found⟩
  · intro k j number name
    cases found : (w j).captures[number]? with
    | none => rw [step_unfound found]
    | some c =>
      rw [step_clear found]
      exact ViewInstance.get_complete hv (h k).fits c.state .committed name
  · intro k regular a ha change last
    have written : (w k).Written v :=
      written_run hv started (Neighbour.written_start v (is k)) regular
    refine (written.saved a ha change last).imp_right ?_
    rintro ⟨number, told, c, found, sent, held⟩
    have taken := List.mem_of_getElem? found
    obtain ⟨s, hs⟩ := List.exists_mem_of_ne_nil _ sent
    exact ⟨number, told, c, found, (h k).captured c taken a (mem a ha) change held, s, hs,
      written.sent c taken s hs a ha change held⟩

/-- The name was the first setter of the one document and the second of the other. What was sent
for the one is saved, and its capture leaves the marker of the other. -/
theorem clear_neighbours_documents :
    let t : Transaction := ⟨true, fun _ _ => .ok 1, fun _ => .ok ()⟩
    let w := (start fun _ : Bool => .document).run
      [.own false (.set "name" (.text "N")), .own false (.update .ofDocuments t),
        .own true (.set "age" (.text "X")), .own true (.set "name" (.text "M")),
        .own false (.complete 0 .committed)]
    let name := ViewType.ofDocuments.attributes[1]
    (∃ number ∈ (w false).committed, ∃ c, (w false).captures[number]? = some c ∧
      ∃ s ∈ c.sent, ("name", .text "N") ∈ s.2) ∧
      (w true).Marked name ∧ (w.step (.clear true false 0) true).Marked name := by
  intro t w name
  have writable : name ∈ ViewType.ofDocuments.writable := List.mem_of_getElem? (i := 0) rfl
  obtain ⟨cleared, -, -, -, -, saved⟩ := clear_neighbours ViewType.ofDocuments_managed
    (fun _ : Bool => ViewInstance.made_document)
    [.own false (.set "name" (.text "N")), .own false (.update .ofDocuments t),
      .own true (.set "age" (.text "X")), .own true (.set "name" (.text "M")),
      .own false (.complete 0 .committed)]
  have marked : (w true).Marked name := by
    unfold Neighbour.Marked
    decide +kernel
  refine ⟨?_, marked, ?_⟩
  · have clean : ¬ (w false).Marked name := by
      unfold Neighbour.Marked
      decide +kernel
    have regular := saved false (by
      simp [NeighbourEvent.Regular, Event.Through, Updater.ofDocuments_built])
    obtain ⟨number, told, c, found, -, sent⟩ :=
      (regular name writable ⟨.text "N", 0⟩ rfl).resolve_left clean
    exact ⟨number, told, c, found, sent⟩
  · have taken : ((w false).captures[0]?).map (·.setters) = some 1 := by decide +kernel
    obtain ⟨c, found, setters⟩ := Option.map_eq_some_iff.mp taken
    have second : number? name.name (w true).setters = some 1 := by decide +kernel
    have first : number? name.name ((w false).setters.take 1) = some 0 := by decide +kernel
    by_contra gone
    obtain ⟨-, same⟩ := (cleared false 0 c found true name writable marked).mp gone
    rw [setters, second, first] at same
    cases same

/-- The first change of each instance has the same number. So the capture of one clears a change
of the other that was made later, and that nothing was sent for. -/
theorem clear_neighbours_coincide :
    let w := (start fun _ : Bool => .document).run
      [.own false (.set "name" (.text "N")), .own false .snapshot,
        .own true (.set "name" (.text "M"))]
    (w true).current.hasChanges = true ∧
      (w.step (.clear true false 0) true).current.hasChanges = false ∧
      (w true).captures.isEmpty = true := by
  decide +kernel

end Neighbours
end EntityQuery
