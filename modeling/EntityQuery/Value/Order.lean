import EntityQuery.Value.Basic
import EntityQuery.Binary64.Rounding

/-! The order in which values are sorted: by kind, then within the kind. Numbers compare
as floating-point numbers unless both are whole. -/
namespace EntityQuery.Value

mutual

/-- Lists and objects compare entry by entry; a shorter one that agrees comes first. -/
def order : Value → Value → Ordering
  | bool a, bool b => compare a b
  | int a, int b => compare a.toInt b.toInt
  | int a, float b => (Binary64.ofInt a.toInt).compare b
  | float a, int b => a.compare (Binary64.ofInt b.toInt)
  | float a, float b => a.compare b
  | text a, text b => compare a b
  | list a, list b => orderItems a b
  | object a, object b => orderFields a b
  | v, w => compare v.kind.rank w.kind.rank

def orderItems : List Value → List Value → Ordering
  | [], [] => .eq
  | [], _ :: _ => .lt
  | _ :: _, [] => .gt
  | x :: xs, y :: ys => (order x y).then (orderItems xs ys)

def orderFields : List (String × Value) → List (String × Value) → Ordering
  | [], [] => .eq
  | [], _ :: _ => .lt
  | _ :: _, [] => .gt
  | (k, x) :: xs, (l, y) :: ys => ((compare k l).then (order x y)).then (orderFields xs ys)

end

/-- Puts a value before the first one that is not greater, in a list that falls. -/
def insertFalling (v : Value) : List Value → List Value
  | [] => [v]
  | w :: ws => if order v w = .lt then w :: insertFalling v ws else v :: w :: ws

/-- Sorts by insertion: each value goes behind the last of those before it that is not
greater, so that values that compare equal keep their order. -/
def sort (values : List Value) : List Value :=
  (values.foldl (fun sorted v => insertFalling v sorted) []).reverse

end EntityQuery.Value
