import EntityQuery.View.ObjectPath
import EntityQuery.View.ViewType

/-! Instances of view types: loaded values, and the changes that are not yet written. Each
change has a stamp of its own, so that a change made after a snapshot is not taken for the
one in the snapshot. -/
namespace EntityQuery

/-- A value that was set. The stamp is the number of setters that were accepted before, counted
without a bound: a counter of 64 bits has the same value for fewer than 2^64 accepted setters. -/
structure Change where
  value : Value
  stamp : Nat

/-- One loaded value per attribute, and one slot per writable attribute. The fresh stamp is that of
the next change. -/
structure ViewInstance where
  view : ViewType
  loaded : List Value
  slots : List (Option Change)
  freshStamp : Nat

/-- What an update writes. -/
structure Snapshot where
  loaded : List Value
  slots : List (Option Change)

namespace Change

instance : BEq Change := ⟨fun a b => a.value == b.value && a.stamp == b.stamp⟩

end Change

namespace Snapshot

instance : BEq Snapshot := ⟨fun a b => a.loaded == b.loaded && a.slots == b.slots⟩

/-- Positions behind the last attribute hold null. -/
def loadedAt (s : Snapshot) (position : Nat) : Value := (s.loaded[position]?).getD .null

def changedAt? (s : Snapshot) (slot : Nat) : Option Value := do
  let change ← (← s.slots[slot]?)
  change.value

def hasChanges (s : Snapshot) : Bool := s.slots.any Option.isSome

end Snapshot

namespace ViewType

/-- The positions of the attributes that the slots of an instance stand for. -/
def slotPositions (v : ViewType) : List Nat := v.writable.map (·.position)

end ViewType

namespace ViewInstance

/-- An instance without changes. -/
def ofValues (v : ViewType) (values : List Value) : Except ViewError ViewInstance :=
  if values.length = v.attributes.length then
    .ok ⟨v, values, List.replicate v.slotPositions.length none, 0⟩
  else .error (.declaration (.valueCount v.name v.attributes.length values.length))

/-- The value of an attribute in a loaded entity. What a provider correlates is not there. -/
def loadAttribute (entity : Value) (a : ViewAttribute) : Except ViewError Value := do
  let value ← match a.source with
    | .path mapping => do
      let v ← (ObjectPath.ofText mapping).get entity
      .ok (v.getD .null)
    | .correlated .. => .ok .null
  match a.collection with
  | some form => .ok ((Collection.ofForm form).fill value).toValue
  | none => .ok value

def ofEntity (v : ViewType) (entity : Value) : Except ViewError ViewInstance := do
  ofValues v (← v.attributes.mapM (loadAttribute entity))

def id? (i : ViewInstance) : Option Value := do
  let a ← i.view.id?
  i.loaded[a.position]?

def position (i : ViewInstance) (name : String) : Except ViewError Nat :=
  match i.view.attribute? name with
  | some a => .ok a.position
  | none => .error (.attributeUnknown i.view.name name)

/-- The slot of the attribute at a position. -/
def slot? (i : ViewInstance) (position : Nat) : Option Nat :=
  i.view.slotPositions.findIdx? (· == position)

/-- The change in a slot. -/
def change? (i : ViewInstance) (slot : Nat) : Option Change := (i.slots[slot]?).getD none

/-- The changed value, or the loaded one where there is no change. -/
def get (i : ViewInstance) (name : String) : Except ViewError Value := do
  let position ← i.position name
  match (i.slot? position).bind i.change? with
  | some change => .ok change.value
  | none => .ok ((i.loaded[position]?).getD .null)

def set (i : ViewInstance) (name : String) (value : Value) : Except ViewError ViewInstance := do
  let position ← i.position name
  match i.slot? position with
  | none => .error (.attributeReadOnly i.view.name name)
  | some slot =>
    .ok
      { i with
        slots := i.slots.set slot (some ⟨value, i.freshStamp⟩)
        freshStamp := i.freshStamp + 1 }

def hasChanges (i : ViewInstance) : Bool := i.slots.any Option.isSome

def snapshot (i : ViewInstance) : Snapshot := ⟨i.loaded, i.slots⟩

/-- The loaded values with the value of a slot stored. -/
def storeSlot (i : ViewInstance) (slot : Nat) (value : Value) : List Value :=
  match i.view.slotPositions[slot]? with
  | some position => i.loaded.set position value
  | none => i.loaded

/-- Stores the change in a slot if it is the captured one. -/
def clearSlot (i : ViewInstance) (slot : Nat) (captured : Change) : ViewInstance :=
  match i.change? slot with
  | some change =>
    if change.stamp = captured.stamp then
      { i with slots := i.slots.set slot none, loaded := i.storeSlot slot change.value }
    else i
  | none => i

def clearCaptured (i : ViewInstance) : Nat × Option Change → ViewInstance
  | (slot, some captured) => i.clearSlot slot captured
  | (_, none) => i

/-- Makes the changes of a snapshot the loaded values. Later changes stay. -/
def clear (i : ViewInstance) (s : Snapshot) : ViewInstance :=
  (s.slots.zipIdx.map fun (captured, slot) => (slot, captured)).foldl clearCaptured i

end ViewInstance

end EntityQuery
