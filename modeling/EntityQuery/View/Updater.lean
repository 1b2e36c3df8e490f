import EntityQuery.View.Instance

/-! Writing instances back: one UPDATE for each view type, which writes all its writable
attributes to the row of the id, in a transaction that another party holds. -/
namespace EntityQuery

/-- An assignment of the statement: a path, the parameter that it is set to, and the position
of the attribute. -/
structure Assignment where
  path : String
  parameter : String
  position : Nat
deriving DecidableEq

structure Updater where
  view : ViewType
  id : Assignment
  assignments : List Assignment

namespace Assignment

def ofAttribute? (a : ViewAttribute) : Option Assignment :=
  a.path?.map fun path => ⟨path, a.name, a.position⟩

def text (a : Assignment) : String := s!"{a.path} = :{a.parameter}"

end Assignment

namespace Updater

/-- The id has to be a path and there has to be something to write. -/
def ofView (v : ViewType) : Except ViewError Updater :=
  match v.id? with
  | none => .error (.declaration (.idMissing v.name))
  | some a =>
    match Assignment.ofAttribute? a with
    | none => .error (.declaration (.idWithoutPath a.name v.name))
    | some id =>
      let assignments := v.writable.filterMap Assignment.ofAttribute?
      if assignments.isEmpty then .error (.declaration (.nothingUpdatable v.name))
      else .ok ⟨v, id, assignments⟩

def statement (u : Updater) : String :=
  s!"UPDATE {u.view.entity} SET " ++ String.intercalate ", " (u.assignments.map Assignment.text) ++
    s!" WHERE {u.id.text}"

/-- For each slot of an instance the position of its value. -/
def slotPositions (u : Updater) : List Nat := u.assignments.map (·.position)

/-- The value of an assignment: the change in its slot, or else the loaded value. -/
def bindSlot (s : Snapshot) (slot : Nat) (a : Assignment) : String × Value :=
  (a.parameter, (s.changedAt? slot).getD (s.loadedAt a.position))

def bindSlots (s : Snapshot) : Nat → List Assignment → List (String × Value)
  | _, [] => []
  | slot, a :: as => bindSlot s slot a :: bindSlots s (slot + 1) as

/-- The id first, then the assignments in their order. -/
def bindings (u : Updater) (s : Snapshot) : List (String × Value) :=
  (u.id.parameter, s.loadedAt u.id.position) :: bindSlots s 0 u.assignments

end Updater

inductive CompletionStatus where
  | committed | rolledBack | unknown
deriving DecidableEq

namespace ViewInstance

/-- What the end of a transaction does to an instance that it updated. -/
def complete (i : ViewInstance) (s : Snapshot) : CompletionStatus → ViewInstance
  | .committed => i.clear s
  | .rolledBack | .unknown => i

end ViewInstance

/-- The party that holds the transaction: whether one is active, what it answers to a
statement, and whether it takes a callback for the end of the transaction. -/
structure Transaction where
  active : Bool
  execute : String → List (String × Value) → Except String Nat
  register : Snapshot → Except String Unit

/-- What is asked of a transaction. -/
inductive TransactionCall where
  | execute (statement : String) (bindings : List (String × Value))
  | register (s : Snapshot)

/-- What is counted and measured, with its labels. -/
inductive Metric where
  | count (name : String) (labels : List (String × String)) (amount : Nat)
  | measure (name : String) (labels : List (String × String))
deriving DecidableEq

namespace Metric

def updateOutcome (view outcome : String) : Metric :=
  count "prism_view_updates_total" [("view", view), ("outcome", outcome)] 1

def updateDuration (view : String) : Metric :=
  measure "prism_view_update_duration_seconds" [("view", view)]

def labelText (labels : List (String × String)) : String :=
  "\x7b" ++ String.intercalate "," (labels.map fun (k, v) => k ++ "=" ++ v) ++ "\x7d"

def text : Metric → String
  | count name labels amount => s!"{name}{labelText labels} +{amount}"
  | measure name labels => s!"{name}{labelText labels} recorded"

end Metric

/-- An update: what was asked of the transaction, what was measured, and the outcome. -/
structure UpdateRun where
  calls : List TransactionCall
  metrics : List Metric
  outcome : Except ViewError Unit

namespace UpdateRun

def refused (e : ViewError) : UpdateRun := ⟨[], [], .error e⟩

end UpdateRun

namespace Updater

/-- Registers the callback once the row is written. -/
def register (u : Updater) (t : Transaction) (s : Snapshot) (executed : TransactionCall) :
    UpdateRun :=
  match t.register s with
  | .error message => ⟨[executed, .register s], [], .error (.collaborator message)⟩
  | .ok () =>
    ⟨[executed, .register s],
      [.updateOutcome u.view.name "success", .updateDuration u.view.name], .ok ()⟩

/-- Executes the statement, which has to affect one row. -/
def execute (u : Updater) (t : Transaction) (s : Snapshot) : UpdateRun :=
  let executed := TransactionCall.execute u.statement (u.bindings s)
  match t.execute u.statement (u.bindings s) with
  | .error message =>
    ⟨[executed], [.updateOutcome u.view.name "provider_error"], .error (.collaborator message)⟩
  | .ok rows =>
    if rows = 1 then u.register t s executed
    else ⟨[executed], [.updateOutcome u.view.name "row_count"], .error (.rowCount 1 rows)⟩

/-- Updates the row of an instance. The instance itself changes when the transaction ends. -/
def run (u : Updater) (t : Transaction) (i : ViewInstance) : UpdateRun :=
  if i.view.name ≠ u.view.name then
    .refused (.declaration (.otherView u.view.name i.view.name))
  else if t.active then u.execute t i.snapshot
  else ⟨[], [.updateOutcome u.view.name "inactive_transaction"], .error .transactionInactive⟩

end Updater

/-- The updaters of all view types that can be updated. -/
abbrev Updaters := Catalog Updater

namespace Updaters

def add (r : Updaters) (v : ViewType) : Except ViewError Updaters := do
  let u ← Updater.ofView v
  .ok (Catalog.insert v.name u r)

def build (vs : ViewSchema) : Except ViewError Updaters :=
  (vs.views.values.filter ViewType.canBeWritten).foldlM add []

def run (r : Updaters) (t : Transaction) (i : ViewInstance) : UpdateRun :=
  match Catalog.find? i.view.name r with
  | none => .refused (.declaration (.notUpdatable i.view.name))
  | some u => u.run t i

end Updaters

end EntityQuery
