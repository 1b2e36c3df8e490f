import EntityQuery.Value.Order

/-! Collections that back plural attributes: lists, sets, sets in an order, and maps. -/
namespace EntityQuery

inductive CollectionForm where
  | list | set | sortedSet | map
deriving DecidableEq

namespace CollectionForm

def word : CollectionForm → String
  | list => "list"
  | set => "set"
  | sortedSet => "sorted_set"
  | map => "map"

end CollectionForm

/-- Sets and maps keep the order in which elements and keys came first; a sorted set keeps
the order of its comparison. -/
inductive Collection where
  | list (items : List Value)
  | set (items : List Value)
  | sortedSet (order : Value → Value → Ordering) (items : List Value)
  | map (entries : List (Value × Value))

/-- Narrows a range of `size` places from `base` to its last place that is not behind the
element sought, `compare` telling how an element stands to that. Each of the `fuel` rounds
leaves the larger half at most. -/
def lastPlace (compare : Value → Ordering) (items : List Value) : Nat → Nat → Nat → Nat
  | 0, base, _ => base
  | fuel + 1, base, size =>
    if size ≤ 1 then base
    else
      let half := size / 2
      match items[base + half]? with
      | some v =>
        let next := if compare v = .gt then base else base + half
        lastPlace compare items fuel next (size - half)
      | none => base

/-- Where a new element goes in a sorted list, or `none` if one like it is there. -/
def insertionPlace? (compare : Value → Ordering) (items : List Value) : Option Nat :=
  let base := lastPlace compare items items.length 0 items.length
  match items[base]? with
  | none => some base
  | some v =>
    match compare v with
    | .eq => none
    | .lt => some (base + 1)
    | .gt => some base

/-- Puts a value under a key, in place of the value that is there, which is given back. -/
def putEntry (key value : Value) : List (Value × Value) → List (Value × Value) × Option Value
  | [] => ([(key, value)], none)
  | (k, v) :: rest =>
    if k == key then ((k, value) :: rest, some v)
    else
      let (rest, replaced) := putEntry key value rest
      ((k, v) :: rest, replaced)

namespace Collection

/-- The empty collection of a form; sorted sets have the order of values. -/
def ofForm : CollectionForm → Collection
  | .list => list []
  | .set => set []
  | .sortedSet => sortedSet Value.order []
  | .map => map []

def form : Collection → CollectionForm
  | list _ => .list
  | set _ => .set
  | sortedSet .. => .sortedSet
  | map _ => .map

/-- Adds an element and tells whether the collection took it. A set refuses what it holds
and a map all elements. -/
def add (c : Collection) (v : Value) : Collection × Bool :=
  match c with
  | list items => (list (items ++ [v]), true)
  | set items => if items.any (· == v) then (c, false) else (set (items ++ [v]), true)
  | sortedSet order items =>
    match insertionPlace? (order · v) items with
    | none => (c, false)
    | some i => (sortedSet order (items.take i ++ v :: items.drop i), true)
  | map _ => (c, false)

/-- Only maps have entries. -/
def put (c : Collection) (key value : Value) : Collection × Option Value :=
  match c with
  | map entries =>
    let (entries, replaced) := putEntry key value entries
    (map entries, replaced)
  | _ => (c, none)

def putPair (c : Collection) : Value → Collection
  | .list [key, value] => (c.put key value).1
  | _ => c

/-- Fills the collection from a loaded value: a map from an object or from a list of pairs,
any other collection from a list or a single element. -/
def fill (c : Collection) (v : Value) : Collection :=
  match c.form, v with
  | .map, .object fields => fields.foldl (fun c (k, v) => (c.put (.text k) v).1) c
  | .map, .list pairs => pairs.foldl putPair c
  | _, .list items => items.foldl (fun c v => (c.add v).1) c
  | _, .null => c
  | _, single => (c.add single).1

def items : Collection → List Value
  | list items | set items | sortedSet _ items => items
  | map entries => entries.map fun (k, v) => .list [k, v]

def toValue (c : Collection) : Value := .list c.items

def size (c : Collection) : Nat := c.items.length

end Collection

end EntityQuery
