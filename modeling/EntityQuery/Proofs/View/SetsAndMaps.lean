import EntityQuery.Proofs.View.SortedSets
import EntityQuery.Proofs.Value.Equality

/-!
# Sets and maps

After any steps a set holds the values that were added, without those that are equal to an earlier
one, and a map the keys that were put, each where it came first and with the value that was put
last. A NaN equals nothing: a set takes it again and again, and no put finds it as a key.
-/

namespace EntityQuery

/-! Lists without those members that equal an earlier one. -/

section EraseDups
variable {α : Type} [BEq α] [PartialEquivBEq α]

theorem any_filter_of_ne {xs : List α} {x v : α} (h : (v == x) = false) :
    (xs.filter fun y => !y == x).any (· == v) = xs.any (· == v) := by
  rw [List.any_filter]
  congr 1
  funext y
  cases same : y == v with
  | false => rw [Bool.and_false]
  | true => rw [BEq.congr_left same, h]; rfl

theorem eraseDups_concat (xs : List α) (v : α) :
    (xs ++ [v]).eraseDups = if xs.any (· == v) then xs.eraseDups else xs.eraseDups ++ [v] := by
  match xs with
  | [] => simp [List.eraseDups_cons]
  | x :: xs =>
    -- What equals the head is taken from the tail first, so that the induction is on the length.
    have shorter := List.length_filter_le (fun y => !y == x) xs
    have rest := eraseDups_concat (xs.filter fun y => !y == x) v
    rw [List.cons_append, List.eraseDups_cons, List.eraseDups_cons, List.filter_append,
      List.any_cons]
    cases same : v == x with
    | true =>
      have same' : (x == v) = true := BEq.symm same
      simp [same, same']
    | false =>
      have same' : (x == v) = false := BEq.symm_false same
      rw [any_filter_of_ne same] at rest
      rw [same', Bool.false_or, List.filter_cons_of_pos (by rw [same]; rfl), List.filter_nil, rest]
      split <;> rfl
termination_by xs.length

theorem any_eraseDups (xs : List α) (v : α) : xs.eraseDups.any (· == v) = xs.any (· == v) := by
  induction xs using List.reverseRecOn with
  | nil => rfl
  | append_singleton xs u ih =>
    rw [eraseDups_concat, List.any_append, List.any_cons, List.any_nil, Bool.or_false]
    split
    case isTrue found =>
      rw [ih]
      cases same : u == v with
      | false => rw [Bool.or_false]
      | true =>
        have found' : xs.any (· == v) = true := by
          obtain ⟨x, hx, like⟩ := List.any_eq_true.mp found
          exact List.any_eq_true.mpr ⟨x, hx, BEq.trans like same⟩
        rw [found', Bool.true_or]
    case isFalse => rw [List.any_append, ih, List.any_cons, List.any_nil, Bool.or_false]

theorem pairwise_eraseDups (xs : List α) : xs.eraseDups.Pairwise fun x y => (x == y) = false := by
  induction xs using List.reverseRecOn with
  | nil => exact .nil
  | append_singleton xs v ih =>
    rw [eraseDups_concat]
    split
    case isTrue => exact ih
    case isFalse new =>
      rw [← any_eraseDups, Bool.not_eq_true, List.any_eq_false] at new
      refine List.pairwise_append.mpr ⟨ih, List.pairwise_singleton _ v, fun x hx y hy => ?_⟩
      cases List.mem_singleton.mp hy
      exact Bool.not_eq_true _ ▸ new x hx

theorem eraseDups_sublist (xs : List α) : xs.eraseDups.Sublist xs := by
  induction xs using List.reverseRecOn with
  | nil => exact .slnil
  | append_singleton xs v ih =>
    rw [eraseDups_concat]
    split
    case isTrue => exact ih.trans (List.sublist_append_left xs [v])
    case isFalse => exact ih.append_right [v]

theorem lookup_congr {β : Type} {k l : α} (h : (k == l) = true) (entries : List (α × β)) :
    entries.lookup k = entries.lookup l := by
  induction entries with
  | nil => rfl
  | cons e entries ih => rw [List.lookup_cons, List.lookup_cons, BEq.congr_left h, ih]

end EraseDups

/-- The different ones of the values that were added, each where it came first. -/
structure Distinct (added items : List Value) : Prop where
  firsts : items = added.eraseDups
  differ : items.Pairwise fun x y => x.plainZeros ≠ y.plainZeros
  all : ∀ v ∈ added, ∃ x ∈ items, x.plainZeros = v.plainZeros

section Distinct
variable {added : List Value} {v : Value}

theorem any_beq_iff (free : ∀ v ∈ added, v.NaNFree) (hv : v.NaNFree) :
    added.any (· == v) = true ↔ ∃ u ∈ added, u.plainZeros = v.plainZeros := by
  rw [List.any_eq_true]
  refine exists_congr fun u => and_congr_right fun hu => ?_
  rw [Value.beq_iff, and_iff_right (free u hu), and_iff_right hv]

theorem distinct_eraseDups (free : ∀ v ∈ added, v.NaNFree) : Distinct added added.eraseDups where
  firsts := rfl
  differ := by
    have within {x : Value} (hx : x ∈ added.eraseDups) : x.NaNFree :=
      free x ((eraseDups_sublist added).subset hx)
    refine (pairwise_eraseDups added).imp_of_mem fun hx hy differs same => ?_
    rw [Value.beq_iff.mpr ⟨within hx, within hy, same⟩] at differs
    cases differs
  all := by
    intro v hv
    have found : added.eraseDups.any (· == v) = true := by
      rw [any_eraseDups]
      exact List.any_eq_true.mpr ⟨v, hv, Value.beq_self_iff.mpr (free v hv)⟩
    obtain ⟨x, hx, same⟩ := List.any_eq_true.mp found
    exact ⟨x, hx, (Value.beq_iff.mp same).2.2⟩

end Distinct

/-! What a put does to the entries of a map. -/

section Put
variable (key value : Value) (entries : List (Value × Value))

theorem keys_putEntry :
    (putEntry key value entries).1.map Prod.fst =
      if (entries.map Prod.fst).any (· == key) then entries.map Prod.fst
      else entries.map Prod.fst ++ [key] := by
  induction entries with
  | nil => rfl
  | cons e entries ih =>
    rw [putEntry, List.map_cons, List.any_cons]
    cases same : e.1 == key with
    | true => rfl
    | false =>
      simp only [Bool.false_eq_true, if_false, Bool.false_or, List.map_cons, ih]
      split <;> rfl

theorem replaced_putEntry :
    (putEntry key value entries).2 = (entries.find? fun e => e.1 == key).map Prod.snd := by
  induction entries with
  | nil => rfl
  | cons e entries ih =>
    rw [putEntry, List.find?_cons]
    cases same : e.1 == key with
    | true => rfl
    | false => exact ih

variable {key value entries}

/-- An entry is the one put or was there under another key. -/
theorem of_mem_putEntry {e : Value × Value}
    (distinct : (entries.map Prod.fst).Pairwise fun k l => (k == l) = false)
    (h : e ∈ (putEntry key value entries).1) :
    e.2 = value ∧ (e.1 = key ∨ (e.1 == key) = true) ∨ e ∈ entries ∧ (e.1 == key) = false := by
  induction entries with
  | nil =>
    cases List.mem_singleton.mp h
    exact Or.inl ⟨rfl, Or.inl rfl⟩
  | cons f entries ih =>
    rw [List.map_cons, List.pairwise_cons] at distinct
    rw [putEntry] at h
    cases same : f.1 == key with
    | true =>
      rw [if_pos same] at h
      rcases List.mem_cons.mp h with rfl | old
      · exact Or.inl ⟨rfl, Or.inr same⟩
      · have differs := distinct.1 e.1 (List.mem_map_of_mem old)
        refine Or.inr ⟨List.mem_cons_of_mem f old, ?_⟩
        rw [BEq.congr_left same] at differs
        exact BEq.symm_false differs
    | false =>
      rw [if_neg (by rw [same]; exact Bool.false_ne_true)] at h
      rcases List.mem_cons.mp h with rfl | later
      · exact Or.inr ⟨List.mem_cons_self, same⟩
      · exact (ih distinct.2 later).imp_right fun old => ⟨List.mem_cons_of_mem f old.1, old.2⟩

end Put

/-- Each key that was put is there once, where it came first, and has the value put last. -/
structure Latest (puts entries : List (Value × Value)) : Prop where
  keys : entries.map Prod.fst = (puts.map Prod.fst).eraseDups
  values : ∀ e ∈ entries, e.1.NaNFree → puts.reverse.lookup e.1 = some e.2

namespace Latest
variable {puts entries : List (Value × Value)}

theorem nil : Latest [] [] := ⟨rfl, nofun⟩

theorem distinct (h : Latest puts entries) :
    (entries.map Prod.fst).Pairwise fun k l => (k == l) = false :=
  h.keys ▸ pairwise_eraseDups _

theorem any_keys (h : Latest puts entries) (key : Value) :
    (entries.map Prod.fst).any (· == key) = (puts.map Prod.fst).any (· == key) := by
  rw [h.keys, any_eraseDups]

theorem put (h : Latest puts entries) (key value : Value) :
    Latest (puts ++ [(key, value)]) (putEntry key value entries).1 where
  keys := by
    rw [keys_putEntry, List.map_append, List.map_cons, List.map_nil, eraseDups_concat, h.any_keys,
      h.keys]
  values := by
    intro e he free
    rw [List.reverse_concat, List.lookup_cons]
    rcases of_mem_putEntry h.distinct he with ⟨rfl, here⟩ | ⟨old, differs⟩
    · have same : (e.1 == key) = true := by
        rcases here with rfl | same
        · exact Value.beq_self_iff.mpr free
        · exact same
      rw [same]
    · rw [differs]
      exact h.values e old free

/-- A put gives back what was put last under the key. -/
theorem replaced (h : Latest puts entries) (key value : Value) :
    (putEntry key value entries).2 = puts.reverse.lookup key := by
  rw [replaced_putEntry]
  cases found : entries.find? fun e => e.1 == key with
  | some e =>
    have same : (e.1 == key) = true :=
      List.find?_some (p := fun e : Value × Value => e.1 == key) found
    have last := h.values e (List.mem_of_find?_eq_some found) (Value.beq_iff.mp same).1
    rw [← lookup_congr same, last]
    rfl
  | none =>
    have unknown : (puts.map Prod.fst).any (· == key) = false := by
      rw [← h.any_keys, List.any_map]
      exact List.any_eq_false.mpr (List.find?_eq_none.mp found)
    refine (List.lookup_eq_none_iff.mpr fun e he => ?_).symm
    have differs := List.any_eq_false.mp unknown e.1 (List.mem_map_of_mem (List.mem_reverse.mp he))
    rw [bne, BEq.symm_false (Bool.not_eq_true _ ▸ differs)]
    rfl

end Latest

/-! Sets and maps that are built step by step. -/

namespace Value

def pair? : Value → Option (Value × Value)
  | .list [key, value] => some (key, value)
  | _ => none

/-- What a loaded value puts into a map: the fields of an object, or those members of a list that
are pairs. -/
def pairs : Value → List (Value × Value)
  | .object fields => fields.map fun f => (.text f.1, f.2)
  | .list items => items.filterMap pair?
  | _ => []

end Value

namespace CollectionStep

/-- The entries that a step puts into a map. -/
def puts : CollectionStep → List (Value × Value)
  | add _ => []
  | put key value => [(key, value)]
  | fill v => v.pairs

end CollectionStep

namespace Collection

theorem add_map {c : Collection} (h : c.form = .map) (v : Value) : c.add v = (c, false) := by
  cases c with
  | map entries => rfl
  | _ => cases h

theorem putPair_eq (c : Collection) (v : Value) :
    c.putPair v = v.pair?.elim c fun e => (c.put e.1 e.2).1 := by
  cases v with
  | list items =>
    match items with
    | [] | [_] | [_, _] | _ :: _ :: _ :: _ => rfl
  | _ => rfl

theorem foldl_putPair (c : Collection) (items : List Value) :
    items.foldl putPair c =
      (items.filterMap Value.pair?).foldl (fun c e => (c.put e.1 e.2).1) c := by
  induction items generalizing c with
  | nil => rfl
  | cons v items ih =>
    rw [List.foldl_cons, ih, putPair_eq]
    cases pair : v.pair? with
    | none => rw [List.filterMap_cons_none pair, Option.elim_none]
    | some e => rw [List.filterMap_cons_some pair, List.foldl_cons, Option.elim_some]

theorem fill_map (entries : List (Value × Value)) (v : Value) :
    (map entries).fill v = v.pairs.foldl (fun c e => (c.put e.1 e.2).1) (map entries) := by
  cases v with
  | list items => exact foldl_putPair (map entries) items
  | object fields =>
    rw [Value.pairs, List.foldl_map]
    rfl
  | _ => rfl

theorem add_eraseDups (added : List Value) (v : Value) :
    (set added.eraseDups).add v = (set (added ++ [v]).eraseDups, !added.any (· == v)) := by
  rw [add, any_eraseDups, eraseDups_concat]
  cases added.any (· == v) <;> rfl

theorem run_set (steps : List CollectionStep) :
    (set []).run steps = set (steps.flatMap CollectionStep.elements).eraseDups := by
  have start : set [] = set ([] : List Value).eraseDups := rfl
  refine run_of_additions (fun added c => c = set added.eraseDups) ?_ ?_ start steps
  · rintro added _ rfl
    exact nofun
  · rintro added _ v rfl
    rw [add_eraseDups]

/-- The collection is the map that puts leave. -/
def IsMap (puts : List (Value × Value)) (c : Collection) : Prop :=
  ∃ entries, c = map entries ∧ Latest puts entries

section IsMap
variable {puts : List (Value × Value)} {c : Collection}

theorem IsMap.put (h : c.IsMap puts) (key value : Value) :
    (c.put key value).1.IsMap (puts ++ [(key, value)]) := by
  obtain ⟨entries, rfl, latest⟩ := h
  exact ⟨_, rfl, latest.put key value⟩

theorem IsMap.putAll (h : c.IsMap puts) (entries : List (Value × Value)) :
    (entries.foldl (fun c e => (c.put e.1 e.2).1) c).IsMap (puts ++ entries) := by
  have all := foldl_keeps IsMap (fun _ _ e h => h.put e.1 e.2) h entries
  rwa [List.flatMap_singleton'] at all

theorem IsMap.perform (h : c.IsMap puts) (s : CollectionStep) :
    (c.perform s).IsMap (puts ++ s.puts) := by
  cases s with
  | add v =>
    obtain ⟨entries, rfl, latest⟩ := h
    rw [CollectionStep.puts, List.append_nil]
    exact ⟨entries, rfl, latest⟩
  | put key value => exact h.put key value
  | fill v =>
    have all := h.putAll v.pairs
    obtain ⟨entries, rfl, -⟩ := h
    rwa [← fill_map] at all

theorem isMap_run (steps : List CollectionStep) :
    ((map []).run steps).IsMap (steps.flatMap CollectionStep.puts) := by
  have start : (map []).IsMap [] := ⟨[], rfl, .nil⟩
  exact foldl_keeps IsMap (fun _ _ s h => h.perform s) start steps

end IsMap

/-- Over values without NaN. After any steps a set holds the different ones of the values that were
added, in the order in which they came first, and it takes a value exactly if no such was added.
A map holds each of the keys that were put, in this order too, with the value that was put last, and
a put gives back the value that was put last before. A map refuses elements, and what is no map
refuses entries. -/
theorem set_map_run (steps : List CollectionStep) :
    let added := steps.flatMap CollectionStep.elements
    let puts := steps.flatMap CollectionStep.puts
    ((∀ v ∈ added, v.NaNFree) →
      ∃ items, (set []).run steps = set items ∧ Distinct added items ∧
        ∀ v, v.NaNFree →
          (((set items).add v).2 = true ↔ ∀ u ∈ added, u.plainZeros ≠ v.plainZeros)) ∧
      ((∀ e ∈ puts, e.1.NaNFree) →
        ∃ entries, (map []).run steps = map entries ∧
          Distinct (puts.map Prod.fst) (entries.map Prod.fst) ∧
          (∀ e ∈ entries, puts.reverse.lookup e.1 = some e.2) ∧
          ∀ key value, ((map entries).put key value).2 = puts.reverse.lookup key) ∧
      ∀ c : Collection, (c.form = .map → ∀ v, c.add v = (c, false)) ∧
        (c.form ≠ .map → ∀ key value, c.put key value = (c, none)) := by
  intro added puts
  refine ⟨fun free => ?_, fun free => ?_, fun c => ⟨add_map, put_of_ne_map⟩⟩
  · refine ⟨_, run_set steps, distinct_eraseDups free, fun v hv => ?_⟩
    rw [add_eraseDups, Bool.not_eq_true', ← Bool.not_eq_true, any_beq_iff free hv]
    simp only [not_exists, not_and, ne_eq]
  · obtain ⟨entries, same, latest⟩ := isMap_run steps
    have keys : ∀ k ∈ puts.map Prod.fst, k.NaNFree := List.forall_mem_map.mpr free
    have distinct := latest.keys ▸ distinct_eraseDups keys
    refine ⟨entries, same, distinct, fun e he => latest.values e he ?_, latest.replaced⟩
    have put := (eraseDups_sublist _).subset (latest.keys ▸ List.mem_map_of_mem he)
    exact keys e.1 put

/-- A one is different as a whole number, as a floating-point number and as a truth value, while a
list of the negative zero equals one of the positive. What is no pair puts nothing. -/
theorem set_map_run_ones :
    let one := Value.float ⟨0x3ff0000000000000⟩
    let zero := Value.float ⟨0⟩
    let minusZero := Value.float ⟨0x8000000000000000⟩
    let steps : List CollectionStep :=
      [.add (.int 1), .put (.int 1) (.text "x"), .fill (.list [one, .int 1, .list [zero]]),
        .fill (.list [.list [one, .null], .list [.bool true, .int 3], .list [.int 1, .text "y"]]),
        .add (.list [minusZero])]
    (set []).run steps = set [.int 1, one, .list [zero], .list [one, .null],
        .list [.bool true, .int 3], .list [.int 1, .text "y"]] ∧
      (map []).run steps = map [(.int 1, .text "y"), (one, .null), (.bool true, .int 3)] ∧
      (((set []).run steps).add (.bool true)).2 = true ∧
      (((map []).run steps).put one zero).2 = some .null ∧
      ((map []).run steps).add one = ((map []).run steps, false) ∧
      ((set []).run steps).put one zero = ((set []).run steps, none) := by
  intro one zero minusZero steps
  have elements : steps.flatMap CollectionStep.elements =
      [.int 1, one, .int 1, .list [zero], .list [one, .null], .list [.bool true, .int 3],
        .list [.int 1, .text "y"], .list [minusZero]] := rfl
  have puts : steps.flatMap CollectionStep.puts =
      [(.int 1, .text "x"), (one, .null), (.bool true, .int 3), (.int 1, .text "y")] := rfl
  have numbers : one.NaNFree ∧ zero.NaNFree ∧ minusZero.NaNFree := by
    simp only [one, zero, minusZero, Value.nanFree_float]
    decide
  obtain ⟨forSet, forMap, others⟩ := set_map_run steps
  rw [elements] at forSet
  rw [puts] at forMap
  obtain ⟨items, ran, -, takes⟩ := forSet (by simp [numbers])
  obtain ⟨entries, ran', -, -, replaced⟩ := forMap (by simp [numbers])
  have held : (set []).run steps = set [.int 1, one, .list [zero], .list [one, .null],
      .list [.bool true, .int 3], .list [.int 1, .text "y"]] := rfl
  have held' :
      (map []).run steps = map [(.int 1, .text "y"), (one, .null), (.bool true, .int 3)] := rfl
  have noMap : ((set []).run steps).form ≠ .map := by
    rw [held]
    decide
  refine ⟨held, held', ?_, ?_, (others _).1 rfl one, (others _).2 noMap one zero⟩
  · rw [ran, takes (.bool true) (Value.nanFree_bool true)]
    simp [one, zero, minusZero, Value.plainZeros]
  · rw [ran', replaced]
    rfl

end Collection

end EntityQuery
