import EntityQuery.Proofs.View.Bindings
import EntityQuery.UnitOfWork

/-!
# The protocol of an update

An update goes through five stages and stops at the first that fails: the view type, the active
transaction, the statement, the number of rows, the callback. What the transaction is asked, what
it is left to call back and what comes out of the update follow from where it stops. The instance
is not changed by the update. In a unit of work nothing changes it but a setter that it accepts
and the commit of a callback that was registered for it.

A transaction that acts on the instance while it is asked is not set apart: the update reads the
instance once, before it asks anything.
-/

namespace EntityQuery

namespace UpdateRun

/-- The statements that were sent, with their bindings. -/
def executed (run : UpdateRun) : List (String × List (String × Value)) :=
  run.calls.filterMap fun
    | .execute statement bindings => some (statement, bindings)
    | .register _ => none

end UpdateRun

namespace Updater
variable {u : Updater} {t : Transaction} {i : ViewInstance}

/-- What the transaction answers to the statement for an instance. -/
def answer (u : Updater) (t : Transaction) (i : ViewInstance) : Except String Nat :=
  t.execute u.statement (u.bindings i.snapshot)

/-- The stages in their order, each with the error with which it stops the update, if it does. -/
def stages (u : Updater) (t : Transaction) (i : ViewInstance) : List (Option ViewError) :=
  [if i.view.name = u.view.name then none
    else some (.declaration (.otherView u.view.name i.view.name)),
    if t.active then none else some .transactionInactive,
    match u.answer t i with
    | .error message => some (.collaborator message)
    | .ok _ => none,
    match u.answer t i with
    | .error _ => none
    | .ok rows => if rows = 1 then none else some (.rowCount 1 rows),
    match t.register i.snapshot with
    | .error message => some (.collaborator message)
    | .ok () => none]

/-- The error of the first stage that stops the update. -/
def stopped? (u : Updater) (t : Transaction) (i : ViewInstance) : Option ViewError :=
  (u.stages t i).findSome? fun stage => stage

/-- The call with which the statement is sent. -/
def sending (u : Updater) (i : ViewInstance) : TransactionCall :=
  .execute u.statement (u.bindings i.snapshot)

/-- The ways an update goes: what the transaction is asked, what is counted, what comes of it. -/
inductive Goes (u : Updater) (t : Transaction) (i : ViewInstance) : UpdateRun → Prop
  | otherView (other : i.view.name ≠ u.view.name) :
      Goes u t i ⟨[], [], .error (.declaration (.otherView u.view.name i.view.name))⟩
  | inactive (same : i.view.name = u.view.name) (inactive : t.active = false) :
      Goes u t i ⟨[], [.updateOutcome u.view.name "inactive_transaction"],
        .error .transactionInactive⟩
  | failed {message : String} (same : i.view.name = u.view.name) (active : t.active = true)
      (answer : u.answer t i = .error message) :
      Goes u t i ⟨[u.sending i], [.updateOutcome u.view.name "provider_error"],
        .error (.collaborator message)⟩
  | rowCount {rows : Nat} (same : i.view.name = u.view.name) (active : t.active = true)
      (answer : u.answer t i = .ok rows) (several : rows ≠ 1) :
      Goes u t i ⟨[u.sending i], [.updateOutcome u.view.name "row_count"],
        .error (.rowCount 1 rows)⟩
  | unregistered {message : String} (same : i.view.name = u.view.name)
      (active : t.active = true) (answer : u.answer t i = .ok 1)
      (refused : t.register i.snapshot = .error message) :
      Goes u t i ⟨[u.sending i, .register i.snapshot], [], .error (.collaborator message)⟩
  | registered (same : i.view.name = u.view.name) (active : t.active = true)
      (answer : u.answer t i = .ok 1) (taken : t.register i.snapshot = .ok ()) :
      Goes u t i ⟨[u.sending i, .register i.snapshot],
        [.updateOutcome u.view.name "success", .updateDuration u.view.name], .ok ()⟩

theorem goes_run (u : Updater) (t : Transaction) (i : ViewInstance) : u.Goes t i (u.run t i) := by
  rw [run]
  by_cases same : i.view.name = u.view.name
  · rw [if_neg (not_not_intro same)]
    cases active : t.active with
    | false => exact .inactive same active
    | true =>
      rw [if_pos rfl, execute]
      cases answer : t.execute u.statement (u.bindings i.snapshot) with
      | error message => exact .failed same active answer
      | ok rows =>
        by_cases one : rows = 1
        · subst one
          simp only [if_true, register]
          cases taken : t.register i.snapshot with
          | error message => exact .unregistered same active answer taken
          | ok => exact .registered same active answer taken
        · simp only [if_neg one]
          exact .rowCount same active answer one
  · rw [if_pos same]
    exact .otherView same

/-- The statement is sent before the callback is offered, and nothing else is asked. -/
theorem calls_run (u : Updater) (t : Transaction) (i : ViewInstance) :
    (u.run t i).calls = (u.run t i).executed.map (fun sent => .execute sent.1 sent.2) ++
      (u.run t i).offered.map .register := by
  have goes := u.goes_run t i
  generalize u.run t i = run at goes ⊢
  cases goes <;> rfl

theorem executed_run (u : Updater) (t : Transaction) (i : ViewInstance) :
    (u.run t i).executed =
      if i.view.name = u.view.name ∧ t.active = true then
        [(u.statement, u.bindings i.snapshot)]
      else [] := by
  have goes := u.goes_run t i
  generalize u.run t i = run at goes ⊢
  cases goes <;> simp_all [UpdateRun.executed, sending]

theorem offered_eq (u : Updater) (t : Transaction) (i : ViewInstance) :
    (u.run t i).offered =
      if (i.view.name = u.view.name ∧ t.active = true) ∧ u.answer t i = .ok 1 then [i.snapshot]
      else [] := by
  have goes := u.goes_run t i
  generalize u.run t i = run at goes ⊢
  cases goes <;> simp_all [UpdateRun.offered, sending]

theorem outcome_ok_iff (u : Updater) (t : Transaction) (i : ViewInstance) :
    (u.run t i).outcome = .ok () ↔
      (u.run t i).offered ≠ [] ∧ t.register i.snapshot = .ok () := by
  have goes := u.goes_run t i
  generalize u.run t i = run at goes ⊢
  cases goes <;> simp_all [UpdateRun.offered, sending]

theorem outcome_run (u : Updater) (t : Transaction) (i : ViewInstance) :
    (u.run t i).outcome = match u.stopped? t i with
      | some err => .error err
      | none => .ok () := by
  have goes := u.goes_run t i
  rw [stopped?, stages]
  generalize u.run t i = run at goes ⊢
  cases goes <;> simp_all

end Updater

/-- An update of an instance that succeeds leaves the callback with what was written, any other
leaves none. -/
theorem UpdateRun.registered_run (u : Updater) (t : Transaction) (i : ViewInstance) :
    (u.run t i).registered =
      if u.stopped? t i = none then [i.snapshot] else [] := by
  have goes := u.goes_run t i
  rw [Updater.stopped?, Updater.stages]
  generalize u.run t i = run at goes ⊢
  cases goes <;> simp_all [UpdateRun.registered, Updater.sending]

/-- What happens in a unit of work. A transaction may end with all its callbacks, or tell one of
them alone, at any time and more than once. -/
inductive WorkEvent where
  | add (i : ViewInstance)
  | set (number : Nat) (name : String) (value : Value)
  | update (number : Nat) (u : Updater) (t : Transaction)
  | complete (status : CompletionStatus)
  | tell (place : Nat) (status : CompletionStatus)

namespace UnitOfWork

def step (w : UnitOfWork) : WorkEvent → UnitOfWork
  | .add i => w.add i
  | .set number name value =>
    match w.find? number with
    | none => w
    | some i =>
      match i.set name value with
      | .ok next => w.put number next
      | .error _ => w
  | .update number u t =>
    match w.find? number with
    | some i => w.await number (u.run t i)
    | none => w
  | .complete status => w.complete status
  | .tell place status =>
    match w.pending[place]? with
    | some p => { w with instances := completeUpdate status w.instances p }
    | none => w

def run (w : UnitOfWork) (events : List WorkEvent) : UnitOfWork := events.foldl step w

/-- The snapshots of an instance whose callbacks wait. -/
def waiting (w : UnitOfWork) (number : Nat) : List Snapshot :=
  (w.pending.filter (·.number = number)).map (·.written)

/-- What an event makes of the instance of a number. -/
def effect (w : UnitOfWork) (number : Nat) (i : ViewInstance) : WorkEvent → ViewInstance
  | .set n name value =>
    if n = number then
      match i.set name value with
      | .ok next => next
      | .error _ => i
    else i
  | .complete .committed => (w.waiting number).foldl ViewInstance.clear i
  | .tell place .committed =>
    match w.pending[place]? with
    | some p => if p.number = number then i.clear p.written else i
    | none => i
  | _ => i

section Instances
variable {number : Nat} {status : CompletionStatus}

theorem getElem?_completeUpdate (is : List ViewInstance) (p : PendingUpdate) :
    (completeUpdate status is p)[number]? =
      if p.number = number then is[number]?.map (·.complete p.written status)
      else is[number]? := by
  rw [completeUpdate, List.getElem?_modify]
  by_cases h : p.number = number
  · simp [h]
  · simp [h]

theorem complete_uncommitted (uncommitted : status ≠ .committed) (i : ViewInstance)
    (s : Snapshot) : i.complete s status = i := by
  cases status with
  | committed => exact absurd rfl uncommitted
  | rolledBack => rfl
  | unknown => rfl

/-- All callbacks together make of an instance what those that wait for it make in turn. -/
theorem getElem?_completeAll (ps : List PendingUpdate) (is : List ViewInstance) :
    (ps.foldl (completeUpdate status) is)[number]? = is[number]?.map fun i =>
      ((ps.filter (·.number = number)).map (·.written)).foldl (·.complete · status) i := by
  induction ps generalizing is with
  | nil => simp
  | cons p ps ih =>
    rw [List.foldl_cons, ih, getElem?_completeUpdate]
    by_cases h : p.number = number
    · simp [h, Function.comp_def]
    · simp [h]

theorem foldl_uncommitted (uncommitted : status ≠ .committed) (ss : List Snapshot)
    (i : ViewInstance) : ss.foldl (·.complete · status) i = i := by
  induction ss with
  | nil => rfl
  | cons s ss ih => rw [List.foldl_cons, complete_uncommitted uncommitted, ih]

theorem find?_put_self {w : UnitOfWork} {i : ViewInstance} (here : w.find? number = some i)
    (next : ViewInstance) : (w.put number next).find? number = some next := by
  obtain ⟨inside, -⟩ := List.getElem?_eq_some_iff.mp here
  rw [find?, put, List.getElem?_set_self inside]

theorem find?_put_of_ne {w : UnitOfWork} {n : Nat} (other : n ≠ number) (next : ViewInstance) :
    (w.put n next).find? number = w.find? number := by
  rw [find?, put, List.getElem?_set_ne other, find?]

@[simp] theorem find?_await (w : UnitOfWork) (n : Nat) (run : UpdateRun) :
    (w.await n run).find? number = w.find? number := rfl

theorem find?_complete (w : UnitOfWork) :
    (w.complete status).find? number = (w.find? number).map fun i =>
      (w.waiting number).foldl (·.complete · status) i := by
  rw [find?, complete, getElem?_completeAll, find?, waiting]

/-- Every event does to an instance what its effect says, whatever it does to the others. -/
theorem find?_step {w : UnitOfWork} {i : ViewInstance} (here : w.find? number = some i)
    (e : WorkEvent) : (w.step e).find? number = some (w.effect number i e) := by
  cases e with
  | add other =>
    obtain ⟨inside, -⟩ := List.getElem?_eq_some_iff.mp here
    rw [find?, step, add, List.getElem?_append_left inside]
    exact here
  | set n name value =>
    by_cases own : n = number
    · subst own
      cases accepted : i.set name value with
      | error err => simp [step, effect, here, accepted]
      | ok next => simp [step, effect, here, accepted, find?_put_self here]
    · cases other : w.find? n with
      | none => simp [step, effect, here, other, own]
      | some j =>
        cases accepted : j.set name value with
        | error err => simp [step, effect, here, other, accepted, own]
        | ok next => simp [step, effect, here, other, accepted, own, find?_put_of_ne own]
  | update n u t =>
    cases updated : w.find? n with
    | none => simp [step, effect, here, updated]
    | some j => simp [step, effect, here, updated]
  | complete status =>
    rw [step, find?_complete, here]
    cases status with
    | committed => rfl
    | rolledBack => exact congrArg some (foldl_uncommitted (by decide) _ i)
    | unknown => exact congrArg some (foldl_uncommitted (by decide) _ i)
  | tell place status =>
    cases told : w.pending[place]? with
    | none => cases status <;> simp [step, effect, here, told]
    | some p =>
      have instances : w.instances[number]? = some i := here
      simp only [step, told, find?, getElem?_completeUpdate, instances]
      by_cases own : p.number = number
      · cases status <;> simp [effect, told, own, ViewInstance.complete]
      · cases status <;> simp [effect, told, own]

end Instances

/-- The events that can change the instance of a number: a setter that it accepts, and a commit
told to a callback that waits for it. -/
def Touches (w : UnitOfWork) (number : Nat) : WorkEvent → Prop
  | .set n name value =>
    n = number ∧ ∃ i next, w.find? number = some i ∧ i.set name value = .ok next
  | .complete status => status = .committed ∧ ∃ p ∈ w.pending, p.number = number
  | .tell place status => status = .committed ∧ ∃ p ∈ w.pending[place]?, p.number = number
  | .add _ => False
  | .update .. => False

theorem effect_of_not_touches {w : UnitOfWork} {number : Nat} {i : ViewInstance}
    (here : w.find? number = some i) {e : WorkEvent} (h : ¬ w.Touches number e) :
    w.effect number i e = i := by
  cases e with
  | add other => rfl
  | update n u t => rfl
  | set n name value =>
    by_cases hn : n = number
    · cases accepted : i.set name value with
      | error err => simp [effect, hn, accepted]
      | ok next => exact absurd ⟨hn, i, next, here, accepted⟩ h
    · simp [effect, hn]
  | complete status =>
    cases status with
    | rolledBack => rfl
    | unknown => rfl
    | committed =>
      have none : w.waiting number = [] := by
        rw [waiting, List.map_eq_nil_iff, List.filter_eq_nil_iff]
        exact fun p hp own => h ⟨rfl, p, hp, by simpa using own⟩
      rw [effect, none]
      rfl
  | tell place status =>
    cases status with
    | rolledBack => rfl
    | unknown => rfl
    | committed =>
      cases told : w.pending[place]? with
      | none => simp [effect, told]
      | some p =>
        have other : p.number ≠ number := fun own => h ⟨rfl, p, told, own⟩
        simp [effect, told, other]

/-- An instance that is not what it was has been touched, and was as before until then. -/
theorem first_touch {w : UnitOfWork} {number : Nat} {i : ViewInstance}
    (here : w.find? number = some i) {events : List WorkEvent}
    (changed : (w.run events).find? number ≠ some i) :
    ∃ before e after, events = before ++ e :: after ∧
      (w.run before).find? number = some i ∧ (w.run before).Touches number e := by
  induction events generalizing w with
  | nil => exact absurd here changed
  | cons e rest ih =>
    by_cases touches : w.Touches number e
    · exact ⟨[], e, rest, rfl, here, touches⟩
    · have still : (w.step e).find? number = some i := by
        rw [find?_step here, effect_of_not_touches here touches]
      obtain ⟨before, f, after, rfl, same, touched⟩ := ih still changed
      exact ⟨e :: before, f, after, rfl, same, touched⟩

/-- The event is a successful update that leaves the callback. -/
def Registers (w : UnitOfWork) (p : PendingUpdate) (e : WorkEvent) : Prop :=
  ∃ u t i, e = .update p.number u t ∧ w.find? p.number = some i ∧
    u.stopped? t i = none ∧ p.written = i.snapshot

theorem registers_of_mem_step {w : UnitOfWork} {e : WorkEvent} {p : PendingUpdate}
    (waits : p ∈ (w.step e).pending) : p ∈ w.pending ∨ w.Registers p e := by
  cases e with
  | add other => exact Or.inl waits
  | set n name value =>
    refine Or.inl ?_
    cases found : w.find? n with
    | none => simpa [step, found] using waits
    | some i =>
      cases accepted : i.set name value with
      | error err => simpa [step, found, accepted] using waits
      | ok next => simpa [step, found, accepted, put] using waits
  | complete status => cases waits
  | tell place status =>
    refine Or.inl ?_
    cases told : w.pending[place]? with
    | none => simpa [step, told] using waits
    | some q => simpa [step, told] using waits
  | update n u t =>
    cases found : w.find? n with
    | none => exact Or.inl (by simpa [step, found] using waits)
    | some i =>
      simp only [step, found, await, UpdateRun.registered_run] at waits
      rcases List.mem_append.mp waits with old | new
      · exact Or.inl old
      · by_cases stopped : u.stopped? t i = none
        · rw [if_pos stopped, List.map_singleton] at new
          obtain rfl := List.mem_singleton.mp new
          exact Or.inr ⟨u, t, i, rfl, found, stopped, rfl⟩
        · simp [stopped] at new

/-- A callback that waits was there before or was registered by an update since. -/
theorem registers_of_mem_run {w : UnitOfWork} {events : List WorkEvent} {p : PendingUpdate}
    (waits : p ∈ (w.run events).pending) :
    p ∈ w.pending ∨ ∃ before e after, events = before ++ e :: after ∧
      (w.run before).Registers p e := by
  induction events generalizing w with
  | nil => exact Or.inl waits
  | cons e rest ih =>
    rcases ih waits with since | ⟨before, f, after, rfl, registers⟩
    · rcases registers_of_mem_step since with old | registers
      · exact Or.inl old
      · exact Or.inr ⟨[], e, rest, rfl, registers⟩
    · exact Or.inr ⟨e :: before, f, after, rfl, registers⟩

/-- The statement is sent, once, exactly if the view type is the updater's and the transaction is
active, and then the callback is offered, once, exactly if one row was written. The outcome is
that of the first stage that fails. The update changes no instance and leaves the callback only
where it succeeds. After that the instance is first changed by a setter that it accepts or by a
commit that a callback for it is told, and every such callback was registered by an update. -/
theorem update_protocol {w : UnitOfWork} {number : Nat} {i : ViewInstance}
    (here : w.find? number = some i) (u : Updater) (t : Transaction) :
    let run := u.run t i
    let after := w.step (.update number u t)
    run.calls = run.executed.map (fun sent => .execute sent.1 sent.2) ++
        run.offered.map .register ∧
      run.executed =
        (if i.view.name = u.view.name ∧ t.active = true then
          [(u.statement, u.bindings i.snapshot)]
        else []) ∧
      run.offered =
        (if run.executed ≠ [] ∧ u.answer t i = .ok 1 then [i.snapshot] else []) ∧
      (run.outcome = .ok () ↔ run.offered ≠ [] ∧ t.register i.snapshot = .ok ()) ∧
      run.outcome = (match u.stopped? t i with
        | some err => .error err
        | none => .ok ()) ∧
      after.instances = w.instances ∧
      after.pending = w.pending ++
        (if u.stopped? t i = none then [⟨number, i.snapshot⟩] else []) ∧
      (∀ later, (after.run later).find? number ≠ some i →
        ∃ before e rest, later = before ++ e :: rest ∧
          (after.run before).find? number = some i ∧ (after.run before).Touches number e) ∧
      ∀ later, ∀ p ∈ (after.run later).pending, p ∈ after.pending ∨
        ∃ before e rest, later = before ++ e :: rest ∧ (after.run before).Registers p e := by
  intro run after
  have updated : after = w.await number run := by simp only [after, step, here, run]
  have sent : run.executed ≠ [] ↔ i.view.name = u.view.name ∧ t.active = true := by
    simp [run, Updater.executed_run]
  refine ⟨u.calls_run t i, u.executed_run t i, ?_, u.outcome_ok_iff t i, u.outcome_run t i,
    ?_, ?_, ?_, ?_⟩
  · exact (u.offered_eq t i).trans (if_congr (and_congr_left' sent.symm) rfl rfl)
  · rw [updated]
    rfl
  · rw [updated, await, UpdateRun.registered_run]
    by_cases stopped : u.stopped? t i = none
    · simp [stopped]
    · simp [stopped]
  · intro later changed
    have still : after.find? number = some i := by rw [updated, find?_await, here]
    exact first_touch still changed
  · exact fun later p waits => registers_of_mem_run waits

/-- One row is written, but the callback is refused: no later end of the transaction clears the
marker. -/
theorem update_protocol_refused :
    let i : ViewInstance := { ViewInstance.document with
      slots := [some ⟨.text "N", 0⟩, none], freshStamp := 1 }
    let t : Transaction := ⟨true, fun _ _ => .ok 1, fun _ => .error "no callbacks"⟩
    let after := (UnitOfWork.mk [i] []).step (.update 0 .ofDocuments t)
    (Updater.ofDocuments.run t i).offered = [i.snapshot] ∧
      (Updater.ofDocuments.run t i).outcome = .error (.collaborator "no callbacks") ∧
      (after.run [.complete .committed]).find? 0 = some i := by
  intro i t after
  have here : (UnitOfWork.mk [i] []).find? 0 = some i := rfl
  obtain ⟨-, -, offered, -, outcome, -, pending, touched, -⟩ :=
    update_protocol here .ofDocuments t
  refine ⟨offered, outcome, ?_⟩
  by_contra changed
  obtain ⟨before, e, rest, split, -, touches⟩ := touched [.complete .committed] changed
  obtain ⟨rfl, rfl, rfl⟩ : before = [] ∧ e = .complete .committed ∧ rest = [] := by
    cases before with
    | nil => simpa [eq_comm] using split
    | cons f before => simp at split
  obtain ⟨-, p, waits, -⟩ := touches
  have empty : after.pending = [] := pending
  have : p ∈ after.pending := waits
  simp [empty] at this

end UnitOfWork

namespace Updaters

theorem ofView_view {v : ViewType} {u : Updater} (h : Updater.ofView v = .ok u) : u.view = v := by
  rw [Updater.ofView] at h
  split at h
  · cases h
  split at h
  · cases h
  dsimp only at h
  split at h
  · cases h
  · cases h
    rfl

/-- Every updater is kept under the name of its view type. -/
def Named (r : Updaters) : Prop := ∀ name u, Catalog.find? name r = some u → u.view.name = name

theorem named_add {r next : Updaters} {v : ViewType} (h : r.Named) (added : r.add v = .ok next) :
    next.Named := by
  obtain ⟨u, made, rest⟩ := Outcome.bind_ok_iff.mp added
  cases rest
  intro name other found
  rcases Catalog.eq_or_of_find?_insert found with ⟨rfl, rfl⟩ | old
  · rw [ofView_view made]
  · exact h name other old

theorem named_build {vs : ViewSchema} {r : Updaters} (h : build vs = .ok r) : r.Named := by
  refine Outcome.foldlM_keeps (fun _ _ _ => named_add) ?_ h
  intro name u found
  cases found

/-- Through the updaters of a schema an update is refused for a view type that has none, and is
never stopped for its view type else. -/
theorem run_of_build {vs : ViewSchema} {r : Updaters} (h : build vs = .ok r) (t : Transaction)
    (i : ViewInstance) :
    r.run t i = .refused (.declaration (.notUpdatable i.view.name)) ∨
      ∃ u : Updater, u.view.name = i.view.name ∧ r.run t i = u.run t i := by
  cases found : Catalog.find? i.view.name r with
  | none => exact Or.inl (by simp [run, found])
  | some u => exact Or.inr ⟨u, named_build h _ u found, by simp [run, found]⟩

end Updaters
end EntityQuery
