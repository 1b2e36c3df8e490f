import EntityQuery.Proofs.Binary64.Rounding
import EntityQuery.Value.Order
import Mathlib.Order.Compare

/-!
# The order of values

Comparing two values the other way round gives the opposite outcome. The order is transitive on
values whose whole numbers it can tell apart by the floating-point numbers that are compared with
them. This fails beyond 53 bits, where two whole numbers round to one floating-point number.
-/

namespace EntityQuery

/-! Outcomes of comparisons. -/

/-- Outcomes of comparing a first thing with a second, this with a third, and the first with the
third: two steps upwards lead upwards, and they stay level only if each does. -/
def Composes (ab bc ac : Ordering) : Prop := ab.isLE = true → bc.isLE = true → ac = ab.then bc

section Composes
variable {ab bc ac ab' bc' ac' : Ordering}

/-- The second comparison counts where the first is level. -/
theorem Composes.then (h : Composes ab bc ac)
    (h' : ab = .eq → bc = .eq → Composes ab' bc' ac') :
    Composes (ab.then ab') (bc.then bc') (ac.then ac') := by
  intro hab hbc
  have up := Ordering.isLE_then_iff_and.mp hab
  have up' := Ordering.isLE_then_iff_and.mp hbc
  rw [h up.1 up'.1]
  cases ab with
  | lt => rfl
  | gt => cases up.1
  | eq =>
    cases bc with
    | lt =>
      cases ab' with
      | gt => cases hab
      | _ => rfl
    | gt => cases up'.1
    | eq => exact h' rfl rfl hab hbc

theorem Composes.isLE (h : Composes ab bc ac) (hab : ab.isLE = true) (hbc : bc.isLE = true) :
    ac.isLE = true := by
  rw [h hab hbc]
  exact Ordering.isLE_then_iff_and.mpr ⟨hab, Or.inr hbc⟩

theorem Composes.level (h : Composes ab bc ac) (hab : ab = .eq) (hbc : bc = .eq) : ac = .eq := by
  subst hab hbc
  exact h rfl rfl

theorem composes_of_trans {α : Type} (cmp : α → α → Ordering) [Std.TransCmp cmp] (a b c : α) :
    Composes (cmp a b) (cmp b c) (cmp a c) := by
  intro hab hbc
  cases h : cmp a b with
  | lt => exact Std.TransCmp.lt_of_lt_of_isLE h hbc
  | eq => exact Std.TransCmp.congr_left h
  | gt => rw [h] at hab; cases hab

/-- Steps upwards among integers that need not be joined to each other. -/
theorem composes_compare {m n p q r s : Int}
    (h : m ≤ n → p ≤ q → r ≤ s ∧ (r = s ↔ m = n ∧ p = q)) :
    Composes (compare m n) (compare p q) (compare r s) := by
  intro hmn hpq
  rw [Int.isLE_compare] at hmn hpq
  obtain ⟨up, level⟩ := h hmn hpq
  rcases Int.lt_or_eq_of_le hmn with less | same
  · rw [Int.compare_eq_lt.mpr less]
    exact Int.compare_eq_lt.mpr (by omega)
  rw [Int.compare_eq_eq.mpr same]
  rcases Int.lt_or_eq_of_le hpq with less | same'
  · rw [Int.compare_eq_lt.mpr less]
    exact Int.compare_eq_lt.mpr (by omega)
  · rw [Int.compare_eq_eq.mpr same']
    exact Int.compare_eq_eq.mpr (level.mpr ⟨same, same'⟩)

/-! Lists of things, compared one by one. -/

variable {α : Type} {cmp : α → α → Ordering}

theorem composes_compareLex {xs ys zs : List α}
    (h : ∀ x ∈ xs, ∀ y ∈ ys, ∀ z ∈ zs, Composes (cmp x y) (cmp y z) (cmp x z)) :
    Composes (xs.compareLex cmp ys) (ys.compareLex cmp zs) (xs.compareLex cmp zs) := by
  induction xs generalizing ys zs with
  | nil =>
    cases ys with
    | nil => exact fun _ _ => rfl
    | cons y ys =>
      cases zs with
      | nil => nofun
      | cons z zs => exact fun _ _ => rfl
  | cons x xs ih =>
    cases ys with
    | nil => nofun
    | cons y ys =>
      cases zs with
      | nil => exact fun _ => nofun
      | cons z zs =>
        simp only [List.compareLex_cons_cons]
        refine (h x List.mem_cons_self y List.mem_cons_self z List.mem_cons_self).then fun _ _ => ?_
        exact ih fun x hx y hy z hz => h x (.tail _ hx) y (.tail _ hy) z (.tail _ hz)

theorem compareLex_swap {xs ys : List α} (h : ∀ x ∈ xs, ∀ y ∈ ys, cmp x y = (cmp y x).swap) :
    xs.compareLex cmp ys = (ys.compareLex cmp xs).swap := by
  induction xs generalizing ys with
  | nil => cases ys <;> rfl
  | cons x xs ih =>
    cases ys with
    | nil => rfl
    | cons y ys =>
      rw [List.compareLex_cons_cons, List.compareLex_cons_cons, Ordering.swap_then,
        h x List.mem_cons_self y List.mem_cons_self,
        ih fun x hx y hy => h x (.tail _ hx) y (.tail _ hy)]

end Composes

namespace Value

/-- Induction over the items of lists and the fields of objects. -/
@[elab_as_elim]
theorem byParts {P : Value → Prop} (null : P .null) (bool : ∀ b, P (.bool b))
    (int : ∀ n, P (.int n)) (float : ∀ x, P (.float x)) (text : ∀ s, P (.text s))
    (list : ∀ items, (∀ v ∈ items, P v) → P (.list items))
    (object : ∀ fields, (∀ f ∈ fields, P f.2) → P (.object fields)) : ∀ v, P v
  | .null => null
  | .bool b => bool b
  | .int n => int n
  | .float x => float x
  | .text s => text s
  | .list items => list items fun v _ => byParts null bool int float text list object v
  | .object fields =>
    object fields fun f _ => byParts null bool int float text list object f.2
termination_by v => sizeOf v
decreasing_by
  · have := List.sizeOf_lt_of_mem ‹v ∈ items›
    simp_wf
    omega
  · have := List.sizeOf_lt_of_mem ‹f ∈ fields›
    obtain ⟨name, v⟩ := f
    simp_wf
    simp only [Prod.mk.sizeOf_spec] at this
    omega

theorem orderItems_eq (xs ys : List Value) : orderItems xs ys = xs.compareLex order ys := by
  induction xs generalizing ys with
  | nil => cases ys <;> rfl
  | cons x xs ih =>
    cases ys with
    | nil => rfl
    | cons y ys => rw [orderItems, List.compareLex_cons_cons, ih]

/-- Names first, then what they name. -/
def orderField (f g : String × Value) : Ordering := (compare f.1 g.1).then (order f.2 g.2)

theorem orderFields_eq (xs ys : List (String × Value)) :
    orderFields xs ys = xs.compareLex orderField ys := by
  induction xs generalizing ys with
  | nil => cases ys <;> rfl
  | cons x xs ih =>
    cases ys with
    | nil => rfl
    | cons y ys => rw [orderFields, List.compareLex_cons_cons, ih]; rfl

theorem kind_eq_of_compare {a b : ValueKind} (h : compare a.rank b.rank = .eq) : a = b := by
  cases a <;> cases b <;> first | rfl | cases h

/-- The kind counts first. -/
theorem order_eq_then (a b : Value) :
    order a b = (compare a.kind.rank b.kind.rank).then (order a b) := by
  cases a <;> cases b <;> rfl

theorem composes_of_kinds {a b c : Value}
    (h : a.kind = b.kind → b.kind = c.kind → Composes (order a b) (order b c) (order a c)) :
    Composes (order a b) (order b c) (order a c) := by
  rw [order_eq_then a b, order_eq_then b c, order_eq_then a c]
  exact (composes_of_trans compare _ _ _).then fun hab hbc =>
    h (kind_eq_of_compare hab) (kind_eq_of_compare hbc)

theorem order_swap (a b : Value) : order a b = (order b a).swap := by
  induction a using byParts generalizing b with
  | null => cases b <;> rfl
  | bool p => cases b with
    | bool q => exact Std.OrientedOrd.eq_swap (a := p)
    | _ => rfl
  | int m => cases b with
    | int n => exact Std.OrientedOrd.eq_swap (a := m.toInt)
    | float y => exact Binary64.compare_swap _ y
    | _ => rfl
  | float x => cases b with
    | int n => exact Binary64.compare_swap x _
    | float y => exact Binary64.compare_swap x y
    | _ => rfl
  | text s => cases b with
    | text t => exact Std.OrientedOrd.eq_swap (a := s)
    | _ => rfl
  | list xs ih => cases b with
    | list ys =>
      rw [order, order, orderItems_eq, orderItems_eq]
      exact compareLex_swap fun x hx y _ => ih x hx y
    | _ => rfl
  | object xs ih => cases b with
    | object ys =>
      rw [order, order, orderFields_eq, orderFields_eq]
      refine compareLex_swap fun x hx y _ => ?_
      rw [orderField, orderField, Ordering.swap_then, ← ih x hx y.2,
        ← Std.OrientedOrd.eq_swap (a := x.1)]
    | _ => rfl

/-- The whole numbers in a value, at any depth, are among `whole` and the floating-point ones
among `floating`. -/
inductive Over (whole : Int64 → Prop) (floating : Binary64 → Prop) : Value → Prop
  | null : Over whole floating .null
  | bool (b : Bool) : Over whole floating (.bool b)
  | int {n : Int64} (h : whole n) : Over whole floating (.int n)
  | float {x : Binary64} (h : floating x) : Over whole floating (.float x)
  | text (s : String) : Over whole floating (.text s)
  | list {items : List Value} (h : ∀ v ∈ items, Over whole floating v) :
    Over whole floating (.list items)
  | object {fields : List (String × Value)} (h : ∀ f ∈ fields, Over whole floating f.2) :
    Over whole floating (.object fields)

section Over
variable {whole : Int64 → Prop} {floating : Binary64 → Prop} {a b c : Value}

/-- No two of the whole numbers round to the same of the floating-point ones. -/
def Apart (whole : Int64 → Prop) (floating : Binary64 → Prop) : Prop :=
  ∀ m n x, whole m → whole n → floating x →
    Binary64.ofInt m.toInt = x → Binary64.ofInt n.toInt = x → m = n

/-- All that is needed of two whole numbers beside a floating-point one. -/
theorem Apart.ranks (apart : Apart whole floating) {m n : Int64} {x : Binary64} (hm : whole m)
    (hn : whole n) (hx : floating x) :
    (m.toInt ≤ n.toInt → (Binary64.ofInt m.toInt).rank ≤ (Binary64.ofInt n.toInt).rank) ∧
      (n.toInt ≤ m.toInt → (Binary64.ofInt n.toInt).rank ≤ (Binary64.ofInt m.toInt).rank) ∧
      ((Binary64.ofInt m.toInt).rank = x.rank → (Binary64.ofInt n.toInt).rank = x.rank →
        m.toInt = n.toInt) :=
  ⟨Binary64.rank_ofInt_mono, Binary64.rank_ofInt_mono, fun hmx hnx =>
    congrArg Int64.toInt
      (apart m n x hm hn hx (Binary64.eq_of_rank_eq hmx) (Binary64.eq_of_rank_eq hnx))⟩

theorem numbers_compose (apart : Apart whole floating) (ha : Over whole floating a)
    (hb : Over whole floating b) (hc : Over whole floating c) (hka : a.kind = .number)
    (hkb : b.kind = .number) (hkc : c.kind = .number) :
    Composes (order a b) (order b c) (order a c) := by
  -- Rounding does not matter unless two whole numbers and a floating-point one meet.
  cases ha with
  | int hm =>
    cases hb with
    | int hn =>
      cases hc with
      | int hk => exact composes_of_trans compare _ _ _
      | float hz =>
        have := apart.ranks hm hn hz
        exact composes_compare (by omega)
      | _ => cases hkc
    | float hy =>
      cases hc with
      | int hk =>
        have := apart.ranks hm hk hy
        exact composes_compare (by omega)
      | float hz => exact composes_of_trans Binary64.compare _ _ _
      | _ => cases hkc
    | _ => cases hkb
  | float hx =>
    cases hb with
    | int hn =>
      cases hc with
      | int hk =>
        have := apart.ranks hn hk hx
        exact composes_compare (by omega)
      | float hz => exact composes_of_trans Binary64.compare _ _ _
      | _ => cases hkc
    | float hy =>
      cases hc with
      | int hk => exact composes_of_trans Binary64.compare _ _ _
      | float hz => exact composes_of_trans Binary64.compare _ _ _
      | _ => cases hkc
    | _ => cases hkb
  | _ => cases hka

/-- Of values of one kind only the parts have to be compared, among which the kinds may differ. -/
theorem order_composes (apart : Apart whole floating) (ha : Over whole floating a)
    (hb : Over whole floating b) (hc : Over whole floating c) :
    Composes (order a b) (order b c) (order a c) := by
  refine composes_of_kinds fun hab hbc => ?_
  induction ha generalizing b c with
  | null =>
    cases hb with
    | null => exact fun _ _ => by cases hc <;> rfl
    | _ => cases hab
  | bool p =>
    cases hb with
    | bool q =>
      cases hc with
      | bool r => exact composes_of_trans compare p q r
      | _ => cases hbc
    | _ => cases hab
  | int hm =>
    exact numbers_compose apart (.int hm) hb hc rfl hab.symm (hbc.symm.trans hab.symm)
  | float hx =>
    exact numbers_compose apart (.float hx) hb hc rfl hab.symm (hbc.symm.trans hab.symm)
  | text s =>
    cases hb with
    | text t =>
      cases hc with
      | text u => exact composes_of_trans compare s t u
      | _ => cases hbc
    | _ => cases hab
  | list _ ih =>
    cases hb with
    | list hys =>
      cases hc with
      | list hzs =>
        simp only [order, orderItems_eq]
        exact composes_compareLex fun x hx y hy z hz =>
          composes_of_kinds (ih x hx (hys y hy) (hzs z hz))
      | _ => cases hbc
    | _ => cases hab
  | object _ ih =>
    cases hb with
    | object hys =>
      cases hc with
      | object hzs =>
        simp only [order, orderFields_eq]
        refine composes_compareLex fun x hx y hy z hz => ?_
        exact (composes_of_trans compare x.1 y.1 z.1).then fun _ _ =>
          composes_of_kinds (ih x hx (hys y hy) (hzs z hz))
      | _ => cases hbc
    | _ => cases hab

/-- Whole numbers of up to 53 bits are apart, whatever they are compared with. -/
theorem apart_of_exact :
    Apart (fun n => n.toInt.natAbs ≤ Binary64.twoTo 53) fun _ => True :=
  fun _ _ _ hm hn _ hmx hnx =>
    Int64.toInt_inj.mp (Binary64.eq_of_ofInt_eq hm hn (hmx.trans hnx.symm))

theorem order_trans_of_exact {a b c : Value}
    (ha : Over (fun n => n.toInt.natAbs ≤ Binary64.twoTo 53) (fun _ => True) a)
    (hb : Over (fun n => n.toInt.natAbs ≤ Binary64.twoTo 53) (fun _ => True) b)
    (hc : Over (fun n => n.toInt.natAbs ≤ Binary64.twoTo 53) (fun _ => True) c)
    (hab : (order a b).isLE = true) (hbc : (order b c).isLE = true) : (order a c).isLE = true :=
  (order_composes apart_of_exact ha hb hc).isLE hab hbc

/-- Swapped arguments give the opposite outcome, for all values. The order is transitive, and so
is being level in it, on values over numbers exactly if the whole ones are apart. -/
theorem order_preorder_iff (whole : Int64 → Prop) (floating : Binary64 → Prop) :
    (∀ a b, order a b = (order b a).swap) ∧
      ((∀ a b c, Over whole floating a → Over whole floating b → Over whole floating c →
          ((order a b).isLE = true → (order b c).isLE = true → (order a c).isLE = true) ∧
            (order a b = .eq → order b c = .eq → order a c = .eq)) ↔
        ∀ m n x, whole m → whole n → floating x →
          Binary64.ofInt m.toInt = x → Binary64.ofInt n.toInt = x → m = n) := by
  refine ⟨order_swap, fun transitive m n x hm hn hx hmx hnx => ?_, fun apart a b c ha hb hc => ?_⟩
  · have level := (transitive (.int m) (.float x) (.int n) (.int hm) (.float hx) (.int hn)).2
    have up : order (.int m) (.float x) = .eq := by
      rw [order, hmx]
      exact Std.ReflCmp.compare_self
    have down : order (.float x) (.int n) = .eq := by
      rw [order, hnx]
      exact Std.ReflCmp.compare_self
    exact Int64.toInt_inj.mp (Int.compare_eq_eq.mp (level up down))
  · have composes := order_composes apart ha hb hc
    exact ⟨composes.isLE, composes.level⟩

end Over

/-- Between two whole numbers stands one to which both round. -/
theorem order_between :
    let low := int 9007199254740992
    let middle := float ⟨0x4340000000000000⟩
    let high := int 9007199254740993
    order high middle = .eq ∧ order middle low = .eq ∧ order high low = .gt := by
  decide +kernel

end Value

end EntityQuery
