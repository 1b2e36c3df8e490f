import EntityQuery.Application

/-! Units of work: the instances that an application works on, and the updates that wait for
the end of their transaction. Instances are known by their numbers, so that an update acts
on the instance that it was made for, whatever became of that one since. -/
namespace EntityQuery

/-- The number of an instance, and what was written of it. -/
structure PendingUpdate where
  number : Nat
  written : Snapshot

structure UnitOfWork where
  instances : List ViewInstance
  pending : List PendingUpdate

namespace UpdateRun

/-- What a transaction took a callback for. -/
def registered (run : UpdateRun) : List Snapshot :=
  match run.outcome with
  | .ok () => run.calls.filterMap fun
    | .register s => some s
    | .execute .. => none
  | .error _ => []

end UpdateRun

namespace UnitOfWork

def empty : UnitOfWork := ⟨[], []⟩

/-- A new instance has the next number. -/
def add (w : UnitOfWork) (i : ViewInstance) : UnitOfWork :=
  { w with instances := w.instances ++ [i] }

def find? (w : UnitOfWork) (number : Nat) : Option ViewInstance := w.instances[number]?

def put (w : UnitOfWork) (number : Nat) (i : ViewInstance) : UnitOfWork :=
  { w with instances := w.instances.set number i }

def await (w : UnitOfWork) (number : Nat) (run : UpdateRun) : UnitOfWork :=
  { w with pending := w.pending ++ run.registered.map (⟨number, ·⟩) }

/-- What the end of a transaction does to the instance of an update. -/
def completeUpdate (status : CompletionStatus) (is : List ViewInstance) (p : PendingUpdate) :
    List ViewInstance :=
  is.modify p.number (·.complete p.written status)

/-- Ends the transaction of all updates that wait, in the order in which they were made. -/
def complete (w : UnitOfWork) (status : CompletionStatus) : UnitOfWork :=
  ⟨w.pending.foldl (completeUpdate status) w.instances, []⟩

end UnitOfWork

end EntityQuery
