import EntityQuery.Text.Identifier
import EntityQuery.View.Error

/-! Dotted paths into loaded objects. Nothing and null read the same, and writing makes the
objects that are missing on the way. -/
namespace EntityQuery

structure ObjectPath where
  segments : List String
deriving DecidableEq

/-- The object after a write, and what came of it. -/
structure Written (α : Type) where
  object : Value
  outcome : Except ViewError α

namespace ObjectPath

def ofText (s : String) : ObjectPath := ⟨Text.segments s⟩

def text (p : ObjectPath) : String := String.intercalate "." p.segments

/-- What the segments lead to. A value that has no fields cannot be read from. -/
def descend : List String → Value → Except ViewError (Option Value)
  | [], v => .ok (some v)
  | _ :: _, .null => .ok none
  | s :: rest, .object fields =>
    match Catalog.find? s fields with
    | some next => descend rest next
    | none => .ok none
  | s :: _, v => .error (.access (.read s v.kind))

def get (p : ObjectPath) (object : Value) : Except ViewError (Option Value) := do
  let v ← descend p.segments object
  .ok (v.filter fun v => !v.isNull)

/-- There is no value in an object that is absent. -/
def getIfPresent (p : ObjectPath) : Option Value → Except ViewError (Option Value)
  | none => .ok none
  | some object => p.get object

/-- The fields of an object; null counts as an object without any. -/
def fields? : Value → Option (Catalog Value)
  | .null => some []
  | .object fields => some fields
  | _ => none

def setWithin (value : Value) : List String → Value → Written Unit
  | [], object => ⟨object, .ok ()⟩
  | s :: rest, object =>
    match fields? object with
    | none => ⟨object, .error (.access (.write value s object.kind))⟩
    | some fields =>
      if rest.isEmpty then ⟨.object (Catalog.insert s value fields), .ok ()⟩
      else
        let written := setWithin value rest ((Catalog.find? s fields).getD .null)
        ⟨.object (Catalog.insert s written.object fields), written.outcome⟩

def set (p : ObjectPath) (value object : Value) : Written Unit := setWithin value p.segments object

/-- The value that is there or else `default`, which is then stored. -/
def getOrCreate (p : ObjectPath) (default : Option Value) (object : Value) : Written Value :=
  match p.get object, default with
  | .error e, _ => ⟨object, .error e⟩
  | .ok (some v), _ => ⟨object, .ok v⟩
  | .ok none, none => ⟨object, .ok .null⟩
  | .ok none, some v =>
    let written := p.set v object
    ⟨written.object, written.outcome.map fun _ => v⟩

end ObjectPath

end EntityQuery
