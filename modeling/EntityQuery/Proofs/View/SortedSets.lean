import EntityQuery.View.Collection
import Mathlib.Data.List.Forall2
import Mathlib.Data.List.Induction

/-!
# Sorted sets

The elements of a sorted set rise strictly in its order, which may take different values for alike.
That they rise is what the search by halves relies on: what it answers, any search of rising
elements would answer. So of all values that were added the set holds the first of every kind, and
in what order they came shows only in which of those that are alike was first.
-/

namespace EntityQuery

section Search
variable {compare : Value → Ordering} {items : List Value}

/-- The last place that is not behind the element sought is among the `size` ones from `base`, if
there is one. -/
structure Within (compare : Value → Ordering) (items : List Value) (base size : Nat) : Prop where
  inside : base + size ≤ items.length
  some_place : 0 < size
  low : base = 0 ∨ ∀ x, items[base]? = some x → compare x ≠ .gt
  high : ∀ j x, base + size ≤ j → items[j]? = some x → compare x = .gt

/-- What is behind an element that is behind the one sought is so too. -/
def Turns (compare : Value → Ordering) (items : List Value) : Prop :=
  ∀ (i j : Nat) x y, i ≤ j → items[i]? = some x → items[j]? = some y → compare x = .gt →
    compare y = .gt

theorem within_lastPlace (turns : Turns compare items) {fuel base size : Nat}
    (h : Within compare items base size) (enough : size ≤ fuel + 1) :
    Within compare items (lastPlace compare items fuel base size) 1 := by
  induction fuel generalizing base size with
  | zero =>
    have single : size = 1 := by have := h.some_place; omega
    exact single ▸ h
  | succ fuel ih =>
    rw [lastPlace]
    by_cases small : size ≤ 1
    · have single : size = 1 := by have := h.some_place; omega
      rw [if_pos small]
      exact single ▸ h
    · have half : base + size / 2 < items.length := by have := h.inside; omega
      rw [if_neg small]
      simp only [List.getElem?_eq_getElem half]
      by_cases behind : compare items[base + size / 2] = .gt
      · rw [if_pos behind]
        refine ih ⟨by have := h.inside; omega, by omega, h.low, ?_⟩ (by omega)
        intro j x hj hx
        exact turns _ j _ x (by omega) (List.getElem?_eq_getElem half) hx behind
      · rw [if_neg behind]
        refine ih ⟨by have := h.inside; omega, by omega, Or.inr ?_, ?_⟩ (by omega)
        · intro x hx
          rw [List.getElem?_eq_getElem half] at hx
          exact Option.some.inj hx ▸ behind
        · exact fun j x hj => h.high j x (by omega)

end Search

variable {order : Value → Value → Ordering} {items : List Value} {v : Value}

/-- The items are different in the order and stand in it. -/
def Rises (order : Value → Value → Ordering) (items : List Value) : Prop :=
  items.Pairwise fun x y => order x y = .lt

/-- What a search for `v` in rising items may answer: none only if one of them is like `v`,
and else the place behind all smaller and before all greater ones. -/
def Answers (order : Value → Value → Ordering) (items : List Value) (v : Value) :
    Option Nat → Prop
  | none => ∃ x ∈ items, order x v = .eq
  | some i => i ≤ items.length ∧ (∀ x ∈ items.take i, order x v = .lt) ∧
      ∀ x ∈ items.drop i, order x v = .gt

theorem Answers.not_like {i : Nat} (h : Answers order items v (some i)) :
    ¬ ∃ x ∈ items, order x v = .eq := by
  rintro ⟨x, hx, like⟩
  rw [← List.take_append_drop i items] at hx
  rcases List.mem_append.mp hx with hx | hx
  · cases (h.2.1 x hx).symm.trans like
  · cases (h.2.2 x hx).symm.trans like

/-- There is one answer only. -/
theorem Answers.unique {r r' : Option Nat} (h : Answers order items v r)
    (h' : Answers order items v r') : r = r' := by
  have least {i j : Nat} (h : Answers order items v (some i))
      (h' : Answers order items v (some j)) : ¬ i < j := by
    intro less
    have inside : i < items.length := Nat.lt_of_lt_of_le less h'.1
    have behind : items[i] ∈ items.drop i :=
      List.mem_drop_iff_getElem.mpr ⟨0, by simpa using inside, rfl⟩
    have before : items[i] ∈ items.take j := List.mem_take_iff_getElem.mpr ⟨i, by omega, rfl⟩
    cases (h.2.2 _ behind).symm.trans (h'.2.1 _ before)
  cases r with
  | none =>
    cases r' with
    | none => rfl
    | some j => exact absurd h h'.not_like
  | some i =>
    cases r' with
    | none => exact absurd h' h.not_like
    | some j =>
      have := least h h'
      have := least h' h
      rw [show i = j by omega]

theorem Rises.lt_of_getElem? (h : Rises order items) {i j : Nat} {x y : Value} (less : i < j)
    (hx : items[i]? = some x) (hy : items[j]? = some y) : order x y = .lt := by
  obtain ⟨hi, rfl⟩ := List.getElem?_eq_some_iff.mp hx
  obtain ⟨hj, rfl⟩ := List.getElem?_eq_some_iff.mp hy
  exact List.pairwise_iff_getElem.mp h i j hi hj less

section Ordered
variable [Std.TransCmp order]

theorem Rises.turns (h : Rises order items) (v : Value) : Turns (order · v) items := by
  intro i j x y hij hx hy behind
  rcases Nat.lt_or_eq_of_le hij with less | rfl
  · have rise := h.lt_of_getElem? less hx hy
    rw [Std.OrientedCmp.gt_iff_lt] at behind ⊢
    exact Std.TransCmp.lt_trans behind rise
  · exact Option.some.inj (hx.symm.trans hy) ▸ behind

/-- The search by halves answers as it should. -/
theorem answers_insertionPlace? (h : Rises order items) (v : Value) :
    Answers order items v (insertionPlace? (order · v) items) := by
  rw [insertionPlace?]
  by_cases empty : items = []
  · subst empty
    exact ⟨Nat.le_refl 0, nofun, nofun⟩
  have all : Within (order · v) items 0 items.length := by
    refine ⟨by omega, List.length_pos_iff.mpr empty, Or.inl rfl, ?_⟩
    intro j x hj hx
    have := (List.getElem?_eq_some_iff.mp hx).1
    omega
  have within := within_lastPlace (h.turns v) all (Nat.le_succ _)
  generalize lastPlace (order · v) items items.length 0 items.length = base at within ⊢
  have inside : base < items.length := by have := within.inside; omega
  have here := List.getElem?_eq_getElem inside
  simp only [here]
  cases found : order items[base] v with
  | eq => exact ⟨items[base], List.getElem_mem inside, found⟩
  | lt =>
    refine ⟨by omega, fun x hx => ?_, fun x hx => ?_⟩
    · obtain ⟨j, hj, rfl⟩ := List.mem_take_iff_getElem.mp hx
      rcases Nat.lt_or_eq_of_le (show j ≤ base by omega) with less | rfl
      · exact Std.TransCmp.lt_trans (h.lt_of_getElem? less (List.getElem?_eq_getElem _) here) found
      · exact found
    · obtain ⟨j, hj, rfl⟩ := List.mem_drop_iff_getElem.mp hx
      exact within.high _ _ (by omega) (List.getElem?_eq_getElem _)
  | gt =>
    have first : base = 0 := within.low.resolve_right fun low => low _ here found
    subst first
    refine ⟨by omega, fun x hx => by simp at hx, fun x hx => ?_⟩
    obtain ⟨j, hj, rfl⟩ := List.mem_drop_iff_getElem.mp hx
    exact h.turns v 0 _ _ _ (by omega) here (List.getElem?_eq_getElem _) found

/-- A new element in its place keeps the items rising. -/
theorem Rises.insert (h : Rises order items) {i : Nat} (place : Answers order items v (some i)) :
    Rises order (items.take i ++ v :: items.drop i) := by
  obtain ⟨-, before, behind⟩ := place
  have after : ∀ y ∈ items.drop i, order v y = .lt := fun y hy =>
    Std.OrientedCmp.gt_iff_lt.mp (behind y hy)
  refine List.pairwise_append.mpr ⟨h.sublist (List.take_sublist i items),
    List.pairwise_cons.mpr ⟨after, h.sublist (List.drop_sublist i items)⟩, ?_⟩
  intro x hx y hy
  rcases List.mem_cons.mp hy with rfl | hy
  · exact before x hx
  · exact Std.TransCmp.lt_trans (before x hx) (after y hy)

end Ordered

/-! What was added. -/

/-- Of the values like it `x` was added first. -/
def FirstOf (order : Value → Value → Ordering) (added : List Value) (x : Value) : Prop :=
  ∃ before after, added = before ++ x :: after ∧ ∀ u ∈ before, order u x ≠ .eq

variable {added : List Value}

theorem firstOf_concat {x : Value} :
    FirstOf order (added ++ [v]) x ↔
      FirstOf order added x ∨ x = v ∧ ∀ u ∈ added, order u v ≠ .eq := by
  constructor
  · rintro ⟨before, after, same, first⟩
    rcases List.eq_nil_or_concat' after with rfl | ⟨rest, last, rfl⟩
    · obtain ⟨rfl, single⟩ := List.append_inj' same rfl
      cases single
      exact Or.inr ⟨rfl, first⟩
    · rw [← List.cons_append, ← List.append_assoc] at same
      exact Or.inl ⟨before, rest, (List.append_inj' same rfl).1, first⟩
  · rintro (⟨before, after, rfl, first⟩ | ⟨rfl, first⟩)
    · exact ⟨before, after ++ [v], by simp, first⟩
    · exact ⟨added, [], rfl, first⟩

theorem FirstOf.mem {x : Value} (h : FirstOf order added x) : x ∈ added := by
  obtain ⟨before, after, rfl, -⟩ := h
  simp

/-- The items are, in their order, the first of every kind among the values that were added. -/
structure Holds (order : Value → Value → Ordering) (added items : List Value) : Prop where
  rises : Rises order items
  firsts : ∀ x, x ∈ items ↔ FirstOf order added x

theorem Holds.refuse (h : Holds order added items) (like : ∃ u ∈ added, order u v = .eq) :
    Holds order (added ++ [v]) items := by
  refine ⟨h.rises, fun x => ?_⟩
  obtain ⟨u, hu, like⟩ := like
  have old : ¬ (x = v ∧ ∀ u ∈ added, order u v ≠ .eq) := fun new => new.2 u hu like
  rw [h.firsts, firstOf_concat, or_iff_left old]

section Ordered
variable [Std.TransCmp order]

/-- For each value one like it was first. -/
theorem exists_firstOf {u : Value} (h : u ∈ added) :
    ∃ x, FirstOf order added x ∧ order x u = .eq := by
  induction added using List.reverseRecOn generalizing u with
  | nil => cases h
  | append_singleton added v ih =>
    have earlier : ∀ w ∈ added, ∃ x, FirstOf order (added ++ [v]) x ∧ order x w = .eq := by
      intro w hw
      obtain ⟨x, first, like⟩ := ih hw
      exact ⟨x, firstOf_concat.mpr (Or.inl first), like⟩
    rcases List.mem_append.mp h with old | single
    · exact earlier u old
    · cases List.mem_singleton.mp single
      by_cases like : ∃ w ∈ added, order w v = .eq
      · obtain ⟨w, hw, like⟩ := like
        obtain ⟨x, first, same⟩ := earlier w hw
        exact ⟨x, first, Std.TransCmp.eq_trans same like⟩
      · have new : ∀ w ∈ added, order w v ≠ .eq := fun w hw same => like ⟨w, hw, same⟩
        exact ⟨v, firstOf_concat.mpr (Or.inr ⟨rfl, new⟩), Std.ReflCmp.compare_self⟩

theorem Holds.exists_like_iff (h : Holds order added items) (v : Value) :
    (∃ x ∈ items, order x v = .eq) ↔ ∃ u ∈ added, order u v = .eq := by
  constructor
  · rintro ⟨x, hx, like⟩
    exact ⟨x, ((h.firsts x).mp hx).mem, like⟩
  · rintro ⟨u, hu, like⟩
    obtain ⟨x, first, same⟩ := @exists_firstOf order _ _ u hu
    exact ⟨x, (h.firsts x).mpr first, Std.TransCmp.eq_trans same like⟩

theorem Holds.insert (h : Holds order added items) (new : ∀ u ∈ added, order u v ≠ .eq) {i : Nat}
    (place : Answers order items v (some i)) :
    Holds order (added ++ [v]) (items.take i ++ v :: items.drop i) := by
  refine ⟨h.rises.insert place, fun x => ?_⟩
  have split : x ∈ items.take i ++ v :: items.drop i ↔ x ∈ items ∨ x = v := by
    rw [List.mem_append, List.mem_cons, or_left_comm, ← List.mem_append, List.take_append_drop,
      or_comm]
  rw [split, h.firsts, firstOf_concat, and_iff_left new]

theorem Rises.heads_alike {others : List Value} {x y : Value} (h : Rises order (x :: items))
    (h' : Rises order (y :: others)) (like : ∃ z ∈ y :: others, order x z = .eq)
    (like' : ∃ w ∈ x :: items, order w y = .eq) : order x y = .eq := by
  obtain ⟨z, hz, likeX⟩ := like
  rcases List.mem_cons.mp hz with rfl | hz
  · exact likeX
  obtain ⟨w, hw, likeY⟩ := like'
  rcases List.mem_cons.mp hw with rfl | hw
  · exact likeY
  -- Otherwise each of the two heads is below the other.
  have below : order y x = .lt :=
    Std.TransCmp.lt_of_lt_of_eq ((List.pairwise_cons.mp h').1 z hz) (Std.OrientedCmp.eq_symm likeX)
  have above : order x y = .lt :=
    Std.TransCmp.lt_of_lt_of_eq ((List.pairwise_cons.mp h).1 w hw) likeY
  cases (Std.OrientedCmp.gt_of_lt below).symm.trans above

/-- What is like an item behind the head is not like the head. -/
theorem Rises.like_behind {others : List Value} {x y z w : Value} (h : Rises order (x :: items))
    (same : order x y = .eq) (hz : z ∈ items) (hw : w ∈ y :: others) (alike : order z w = .eq) :
    w ∈ others := by
  rcases List.mem_cons.mp hw with rfl | hw
  · have rise := Std.TransCmp.lt_of_lt_of_eq ((List.pairwise_cons.mp h).1 z hz) alike
    cases same.symm.trans rise
  · exact hw

/-- Rising items are alike one by one if each of one list is like one of the other. -/
theorem forall₂_of_rises {others : List Value} (h : Rises order items) (h' : Rises order others)
    (like : ∀ x ∈ items, ∃ y ∈ others, order x y = .eq)
    (like' : ∀ y ∈ others, ∃ x ∈ items, order x y = .eq) :
    List.Forall₂ (fun x y => order x y = .eq) items others := by
  induction items generalizing others with
  | nil =>
    cases others with
    | nil => exact .nil
    | cons y others =>
      obtain ⟨x, hx, -⟩ := like' y List.mem_cons_self
      cases hx
  | cons x items ih =>
    cases others with
    | nil =>
      obtain ⟨y, hy, -⟩ := like x List.mem_cons_self
      cases hy
    | cons y others =>
      have same := h.heads_alike h' (like x List.mem_cons_self) (like' y List.mem_cons_self)
      refine .cons same (ih (List.pairwise_cons.mp h).2 (List.pairwise_cons.mp h').2 ?_ ?_)
      · intro z hz
        obtain ⟨w, hw, alike⟩ := like z (List.mem_cons_of_mem x hz)
        exact ⟨w, h.like_behind same hz hw alike, alike⟩
      · intro w hw
        obtain ⟨z, hz, alike⟩ := like' w (List.mem_cons_of_mem y hw)
        have flipped := Std.OrientedCmp.eq_symm alike
        exact ⟨z, h'.like_behind (Std.OrientedCmp.eq_symm same) hw hz flipped, alike⟩

end Ordered

/-! Sets that are built step by step. -/

/-- What holds after a step, with what the step gave, holds after all steps of a fold. -/
theorem foldl_keeps {α β γ : Type} (Holding : List γ → α → Prop) {f : α → β → α}
    {given : β → List γ} (step : ∀ had a b, Holding had a → Holding (had ++ given b) (f a b))
    {had : List γ} {a : α} (h : Holding had a) (bs : List β) :
    Holding (had ++ bs.flatMap given) (bs.foldl f a) := by
  induction bs generalizing had a with
  | nil => rwa [List.flatMap_nil, List.append_nil]
  | cons b bs ih =>
    rw [List.flatMap_cons, ← List.append_assoc]
    exact ih (step had a b h)

namespace Value

/-- What a loaded value adds to a set: the members of a list, nothing if it is null, and otherwise
itself. -/
def elements : Value → List Value
  | .list items => items
  | .null => []
  | v => [v]

end Value

/-- What can be done to a collection. -/
inductive CollectionStep where
  | add (v : Value)
  | put (key value : Value)
  | fill (v : Value)

namespace CollectionStep

/-- The elements that a step adds to a set. -/
def elements : CollectionStep → List Value
  | add v => [v]
  | put _ _ => []
  | fill v => v.elements

end CollectionStep

namespace Collection

def perform (c : Collection) : CollectionStep → Collection
  | .add v => (c.add v).1
  | .put key value => (c.put key value).1
  | .fill v => c.fill v

def run (c : Collection) (steps : List CollectionStep) : Collection := steps.foldl perform c

theorem put_of_ne_map {c : Collection} (h : c.form ≠ .map) (key value : Value) :
    c.put key value = (c, none) := by
  cases c with
  | map entries => exact absurd rfl h
  | _ => rfl

theorem fill_of_ne_map {c : Collection} (h : c.form ≠ .map) (v : Value) :
    c.fill v = v.elements.foldl (fun c v => (c.add v).1) c := by
  cases c with
  | map entries => exact absurd rfl h
  | _ => cases v <;> rfl

/-- What is kept when elements are added is kept by all steps of a collection without entries. -/
theorem run_of_additions (Holding : List Value → Collection → Prop)
    (form : ∀ added c, Holding added c → c.form ≠ .map)
    (add : ∀ added c v, Holding added c → Holding (added ++ [v]) (c.add v).1) {added : List Value}
    {c : Collection} (h : Holding added c) (steps : List CollectionStep) :
    Holding (added ++ steps.flatMap CollectionStep.elements) (c.run steps) := by
  refine foldl_keeps Holding (fun added c s h => ?_) h steps
  have entryless := form added c h
  cases s with
  | add v => exact add added c v h
  | put key value =>
    rwa [perform, put_of_ne_map entryless, CollectionStep.elements, List.append_nil]
  | fill v =>
    have all := foldl_keeps Holding add h v.elements
    rw [List.flatMap_singleton'] at all
    rwa [perform, fill_of_ne_map entryless]

/-- The collection is the sorted set of the values that were added. -/
def IsSortedSet (order : Value → Value → Ordering) (added : List Value) (c : Collection) : Prop :=
  ∃ items, c = sortedSet order items ∧ Holds order added items

theorem IsSortedSet.holds {c : Collection} (h : c.IsSortedSet order added) :
    Holds order added c.items := by
  obtain ⟨items, rfl, holds⟩ := h
  exact holds

section Ordered
variable [Std.TransCmp order] {c : Collection}

theorem IsSortedSet.add (h : c.IsSortedSet order added) (v : Value) :
    (c.add v).1.IsSortedSet order (added ++ [v]) ∧
      ((c.add v).2 = true ↔ ∀ u ∈ added, order u v ≠ .eq) := by
  obtain ⟨items, rfl, holds⟩ := h
  have answer := answers_insertionPlace? holds.rises v
  rw [Collection.add]
  cases found : insertionPlace? (order · v) items with
  | none =>
    rw [found] at answer
    have like := (holds.exists_like_iff v).mp answer
    refine ⟨⟨items, rfl, holds.refuse like⟩, iff_of_false nofun ?_⟩
    obtain ⟨u, hu, like⟩ := like
    exact fun new => new u hu like
  | some i =>
    rw [found] at answer
    have new : ∀ u ∈ added, order u v ≠ .eq := by
      intro u hu like
      exact answer.not_like ((holds.exists_like_iff v).mpr ⟨u, hu, like⟩)
    exact ⟨⟨_, rfl, holds.insert new answer⟩, iff_of_true rfl new⟩

theorem isSortedSet_run (steps : List CollectionStep) :
    ((sortedSet order []).run steps).IsSortedSet order
      (steps.flatMap CollectionStep.elements) := by
  have start : (sortedSet order []).IsSortedSet order [] :=
    ⟨[], rfl, .nil, fun x => iff_of_false nofun fun first => nomatch first.mem⟩
  refine run_of_additions (IsSortedSet order) ?_ (fun _ _ v h => (h.add v).1) start steps
  rintro _ _ ⟨items, rfl, -⟩
  exact nofun

/-- Each value that was added by some steps is like an item after others that added the same. -/
theorem IsSortedSet.exists_like {others : List Value} {d : Collection}
    (h : c.IsSortedSet order added) (h' : d.IsSortedSet order others)
    (within : ∀ u ∈ added, u ∈ others) : ∀ x ∈ c.items, ∃ y ∈ d.items, order x y = .eq := by
  intro x hx
  have old := within x ((h.holds.firsts x).mp hx).mem
  obtain ⟨y, hy, like⟩ := (h'.holds.exists_like_iff x).mpr ⟨x, old, Std.ReflCmp.compare_self⟩
  exact ⟨y, hy, Std.OrientedCmp.eq_symm like⟩

/-- After any steps the items of a sorted set rise, and they are the values that were added before
any that is like them. A value is taken exactly if none that is like it was added before, and
whatever search answers as one of rising items may, it answers what the search by halves does. After
steps that add the same values in whatever order there are as many items, one by one alike. -/
theorem sortedSet_run (steps : List CollectionStep) :
    let c := (sortedSet order []).run steps
    let added := steps.flatMap CollectionStep.elements
    Rises order c.items ∧ (∀ x, x ∈ c.items ↔ FirstOf order added x) ∧
      (∀ v, (c.add v).2 = true ↔ ∀ u ∈ added, order u v ≠ .eq) ∧
      (∀ v r, Answers order c.items v r ↔ r = insertionPlace? (order · v) c.items) ∧
      ∀ others : List CollectionStep, added.Perm (others.flatMap CollectionStep.elements) →
        let d := (sortedSet order []).run others
        c.size = d.size ∧ List.Forall₂ (fun x y => order x y = .eq) c.items d.items := by
  intro c added
  have sorted : c.IsSortedSet order added := isSortedSet_run steps
  have rises := sorted.holds.rises
  refine ⟨rises, sorted.holds.firsts, fun v => (sorted.add v).2, fun v r => ?_, ?_⟩
  · have answer := answers_insertionPlace? rises v
    exact ⟨fun other => other.unique answer, fun same => same ▸ answer⟩
  · intro others rearranged d
    have sorted' : d.IsSortedSet order (others.flatMap CollectionStep.elements) :=
      isSortedSet_run others
    have alike : List.Forall₂ (fun x y => order x y = .eq) c.items d.items := by
      refine forall₂_of_rises rises sorted'.holds.rises
        (sorted.exists_like sorted' fun u => rearranged.mem_iff.mp) fun y hy => ?_
      obtain ⟨x, hx, like⟩ := sorted'.exists_like sorted (fun u => rearranged.mem_iff.mpr) y hy
      exact ⟨x, hx, Std.OrientedCmp.eq_symm like⟩
    exact ⟨alike.length_eq, alike⟩

end Ordered

/-- By kind alone, one whole number is as good as another, whichever is added first. -/
theorem sortedSet_run_kinds :
    let kinds (a b : Value) : Ordering := compare a.kind.rank b.kind.rank
    let steps : List CollectionStep := [.add (.int 3), .fill (.list [.text "b", .int 1, .null])]
    let others : List CollectionStep :=
      [.fill (.list [.null, .int 1]), .add (.text "b"), .fill (.int 3)]
    let c := (sortedSet kinds []).run steps
    let d := (sortedSet kinds []).run others
    Std.TransCmp kinds ∧
      (steps.flatMap CollectionStep.elements).Perm (others.flatMap CollectionStep.elements) ∧
      c.items = [.null, .int 3, .text "b"] ∧ d.items = [.null, .int 1, .text "b"] ∧
      Rises kinds c.items ∧ c.size = d.size ∧
      List.Forall₂ (fun x y => kinds x y = .eq) c.items d.items := by
  intro kinds steps others c d
  have ordered : Std.TransCmp kinds :=
    inferInstanceAs (Std.TransCmp (compareOn fun v : Value => v.kind.rank))
  have rearranged :
      (steps.flatMap CollectionStep.elements).Perm (others.flatMap CollectionStep.elements) :=
    (List.reverse_perm _).symm
  have held : c.items = [.null, .int 3, .text "b"] := by
    simp only [c, steps, kinds]
    rfl
  have held' : d.items = [.null, .int 1, .text "b"] := by
    simp only [d, others, kinds]
    rfl
  obtain ⟨rises, -, -, -, alike⟩ := @sortedSet_run kinds _ steps
  exact ⟨ordered, rearranged, held, held', rises, alike others rearranged⟩

end Collection
end EntityQuery
