import EntityQuery.Proofs.Outcome
import EntityQuery.Proofs.View.SetsAndMaps
import EntityQuery.View.Instance

/-!
# Filling a collection from its own value

What a collection holds after any steps goes through its value unchanged: an empty one that is
filled from that value holds the same in the same order. No step needs equality to be reflexive for
this, so that a NaN that was added twice to a set is there twice again.
-/

namespace EntityQuery
namespace Collection

/-- Members that are taken one after the other go to the end of what is held. -/
theorem foldl_holding {α : Type} {R : α → α → Prop} (holding : List α → Collection)
    {take : Collection → α → Collection}
    (step : ∀ held v, (held ++ [v]).Pairwise R → take (holding held) v = holding (held ++ [v]))
    {held vs : List α} (h : (held ++ vs).Pairwise R) :
    vs.foldl take (holding held) = holding (held ++ vs) := by
  induction vs generalizing held with
  | nil => rw [List.append_nil, List.foldl_nil]
  | cons v vs ih =>
    rw [List.append_cons] at h ⊢
    rw [List.foldl_cons, step held v (List.pairwise_append.mp h).1, ih h]

theorem refill_list (items : List Value) : (list []).fill (.list items) = list items := by
  have anything : ([] ++ items).Pairwise fun _ _ => True :=
    List.pairwise_of_forall fun _ _ => trivial
  exact foldl_holding list (fun _ _ _ => rfl) anything

theorem refill_set {items : List Value} (h : items.Pairwise fun x y => (x == y) = false) :
    (set []).fill (.list items) = set items := by
  refine foldl_holding set (fun held v differ => ?_) h
  have new : held.any (· == v) = false := by
    refine List.any_eq_false.mpr fun x hx => ?_
    rw [(List.pairwise_append.mp differ).2.2 x hx v List.mem_cons_self]
    exact Bool.false_ne_true
  rw [add, new]
  rfl

theorem refill_sortedSet {order : Value → Value → Ordering} [Std.TransCmp order]
    {items : List Value} (h : Rises order items) :
    (sortedSet order []).fill (.list items) = sortedSet order items := by
  refine foldl_holding (sortedSet order) (fun held v rises => ?_) h
  obtain ⟨rises, -, below⟩ := List.pairwise_append.mp rises
  have last : Answers order held v (some held.length) := by
    rw [Answers, List.take_length, List.drop_length]
    exact ⟨Nat.le_refl _, fun x hx => below x hx v List.mem_cons_self, nofun⟩
  rw [add, (answers_insertionPlace? rises v).unique last]
  simp

theorem putEntry_new {key value : Value} {entries : List (Value × Value)}
    (h : ∀ e ∈ entries, (e.1 == key) = false) :
    (putEntry key value entries).1 = entries ++ [(key, value)] := by
  induction entries with
  | nil => rfl
  | cons e entries ih =>
    obtain ⟨differs, rest⟩ := List.forall_mem_cons.mp h
    rw [putEntry, differs]
    exact congrArg (List.cons e) (ih rest)

theorem pairs_toValue (entries : List (Value × Value)) : (map entries).toValue.pairs = entries := by
  induction entries with
  | nil => rfl
  | cons e entries ih => exact congrArg (List.cons e) ih

theorem refill_map {entries : List (Value × Value)}
    (h : (entries.map Prod.fst).Pairwise fun k l => (k == l) = false) :
    (map []).fill (map entries).toValue = map entries := by
  rw [fill_map, pairs_toValue]
  refine foldl_holding map (fun held e differ => ?_) (List.pairwise_map.mp h)
  have new := (List.pairwise_append.mp differ).2.2
  rw [put]
  exact congrArg map (putEntry_new fun f hf => new f hf e List.mem_cons_self)

theorem run_list (steps : List CollectionStep) :
    (list []).run steps = list (steps.flatMap CollectionStep.elements) := by
  have start : list [] = list [] := rfl
  refine run_of_additions (fun added c => c = list added) ?_ ?_ start steps
  · rintro added _ rfl
    exact nofun
  · rintro added _ v rfl
    rfl

/-- An empty collection. If it is a sorted set, its order is a total preorder. -/
inductive Fresh : Collection → Prop
  | list : Fresh (list [])
  | set : Fresh (set [])
  | sortedSet (order : Value → Value → Ordering) [Std.TransCmp order] : Fresh (sortedSet order [])
  | map : Fresh (map [])

variable {c : Collection}

theorem Fresh.fill_toValue (h : c.Fresh) (steps : List CollectionStep) :
    c.fill (c.run steps).toValue = c.run steps := by
  cases h with
  | list =>
    rw [run_list]
    exact refill_list _
  | set =>
    rw [run_set]
    exact refill_set (pairwise_eraseDups _)
  | sortedSet order =>
    have sorted : ((Collection.sortedSet order []).run steps).IsSortedSet order _ :=
      isSortedSet_run steps
    obtain ⟨items, ran, holds⟩ := sorted
    rw [ran]
    exact refill_sortedSet holds.rises
  | map =>
    obtain ⟨entries, ran, latest⟩ := isMap_run steps
    rw [ran]
    exact refill_map latest.distinct

end Collection

theorem ViewInstance.filled_of_loadAttribute {entity value : Value} {a : ViewAttribute}
    {form : CollectionForm} (plural : a.collection = some form)
    (h : loadAttribute entity a = .ok value) :
    ∃ v, value = ((Collection.ofForm form).fill v).toValue := by
  rw [loadAttribute, plural] at h
  cases source : a.source with
  | path mapping =>
    simp only [source, Outcome.bind_ok_iff] at h
    obtain ⟨-, -, v, -, filled⟩ := h
    exact ⟨v, (Except.ok.inj filled).symm⟩
  | correlated =>
    simp only [source, Outcome.bind_ok_iff] at h
    obtain ⟨v, -, filled⟩ := h
    exact ⟨v, (Except.ok.inj filled).symm⟩

namespace Collection

/-- An empty collection that is filled from what another of its kind holds after any steps is the
same. So the value of a collection that was filled from any value is the one that filling another
from it gives, and filling again changes nothing in an attribute that an instance has loaded. -/
theorem refill_run {c : Collection} (h : c.Fresh) :
    (∀ steps, c.fill (c.run steps).toValue = c.run steps) ∧
      (∀ v, (c.fill (c.fill v).toValue).toValue = (c.fill v).toValue) ∧
      ∀ entity a form value, a.collection = some form → ofForm form = c →
        ViewInstance.loadAttribute entity a = .ok value → (c.fill value).toValue = value := by
  have normal (v : Value) : (c.fill (c.fill v).toValue).toValue = (c.fill v).toValue :=
    congrArg toValue (h.fill_toValue [.fill v])
  refine ⟨h.fill_toValue, normal, fun entity a form value plural same loaded => ?_⟩
  obtain ⟨v, rfl⟩ := ViewInstance.filled_of_loadAttribute plural loaded
  rw [same]
  exact normal v

/-- A NaN is added to a set each time, and each time again when the set is filled anew, as an
attribute is that was loaded. By kind alone a sorted set keeps the first number. -/
theorem refill_run_nan :
    let nan := Value.float ⟨0x7ff8000000000000⟩
    let kinds (a b : Value) : Ordering := compare a.kind.rank b.kind.rank
    let loaded := Value.list [nan, .int 2, nan, .int 2, .null]
    let marks : ViewAttribute :=
      ⟨"marks", 0, .path "marks", false, true, some .set, false, false, false, none⟩
    let value := Value.list [nan, .int 2, nan, .null]
    Fresh (set []) ∧ Fresh (sortedSet kinds []) ∧
      ((set []).fill loaded).toValue = value ∧
      (set []).fill ((set []).fill loaded).toValue = (set []).fill loaded ∧
      ViewInstance.loadAttribute (.object [("marks", loaded)]) marks = .ok value ∧
      ((set []).fill value).toValue = value ∧
      ((sortedSet kinds []).fill loaded).items = [.null, nan] ∧
      (sortedSet kinds []).fill ((sortedSet kinds []).fill loaded).toValue =
        (sortedSet kinds []).fill loaded := by
  intro nan kinds loaded marks value
  have ordered : Std.TransCmp kinds :=
    inferInstanceAs (Std.TransCmp (compareOn fun v : Value => v.kind.rank))
  have sorted : Fresh (sortedSet kinds []) := .sortedSet kinds
  have held : ViewInstance.loadAttribute (.object [("marks", loaded)]) marks = .ok value := rfl
  obtain ⟨same, -, again⟩ := refill_run .set
  refine ⟨.set, sorted, rfl, same [.fill loaded], held, ?_, rfl, ?_⟩
  · exact again _ marks .set value rfl rfl held
  · exact (refill_run sorted).1 [.fill loaded]

/-- The order of values is no total preorder. These three lists go round in it, and a set that is
sorted by it holds them in another order when it is filled from its own value. -/
example :
    let high := Value.list [.int 9007199254740993, .int 0]
    let middle := Value.list [.float ⟨0x4340000000000000⟩, .int 1]
    let low := Value.list [.int 9007199254740992, .int 2]
    let c := (sortedSet Value.order []).fill (.list [high, middle, low, .null])
    (c.items, ((sortedSet Value.order []).fill c.toValue).items) =
      ([.null, high, middle, low], [.null, low, high, middle]) := rfl

end Collection
end EntityQuery
