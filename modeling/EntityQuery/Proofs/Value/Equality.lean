import EntityQuery.Proofs.Value.Order

/-!
# Equality of values

Values are equal if there is no NaN in them and they differ in the signs of zeros at most, so that
equality is symmetric and transitive and only what holds a NaN differs from itself. Where there is
no floating-point number at all, the order of values is linear and agrees with equality.
-/

namespace EntityQuery

namespace Binary64

/-- The number itself, or the positive zero if it is one of the two zeros. -/
def plainZero (x : Binary64) : Binary64 := if x.magnitude = 0 then ⟨0⟩ else x

theorem magnitude_plainZero (x : Binary64) : x.plainZero.magnitude = x.magnitude := by
  rw [plainZero]
  split
  case isTrue zero => exact zero.symm
  case isFalse => rfl

theorem plainZero_eq_iff {x y : Binary64} :
    x.plainZero = y.plainZero ↔ x.bits = y.bits ∨ x.magnitude = 0 ∧ y.magnitude = 0 := by
  constructor
  · intro same
    by_cases zero : x.magnitude = 0
    · have zero' : y.magnitude = 0 := by
        rw [← magnitude_plainZero y, ← same, magnitude_plainZero, zero]
      exact Or.inr ⟨zero, zero'⟩
    · have zero' : y.magnitude ≠ 0 := by
        rw [← magnitude_plainZero y, ← same, magnitude_plainZero]
        exact zero
      rw [plainZero, plainZero, if_neg zero, if_neg zero'] at same
      exact Or.inl (congrArg bits same)
  · rintro (same | ⟨zero, zero'⟩)
    · rw [show x = y by cases x; cases y; exact congrArg mk same]
    · rw [plainZero, plainZero, if_pos zero, if_pos zero']

theorem sameNumber_iff {x y : Binary64} :
    x.sameNumber y = true ↔
      x.isNaN = false ∧ y.isNaN = false ∧ x.plainZero = y.plainZero := by
  rw [plainZero_eq_iff]
  simp [sameNumber, and_assoc]

end Binary64

/-- If entries are equal where something holds of both and their images are the same, then so are
lists of them. -/
theorem isEqv_iff {α β : Type} {eq : α → α → Bool} {P : α → Prop} {f : α → β} {xs ys : List α}
    (h : ∀ x ∈ xs, ∀ y, eq x y = true ↔ P x ∧ P y ∧ f x = f y) :
    xs.isEqv ys eq = true ↔ (∀ x ∈ xs, P x) ∧ (∀ y ∈ ys, P y) ∧ xs.map f = ys.map f := by
  induction xs generalizing ys with
  | nil => cases ys <;> simp [List.isEqv]
  | cons x xs ih =>
    cases ys with
    | nil => simp [List.isEqv]
    | cons y ys =>
      have head := h x List.mem_cons_self y
      have tail := @ih ys fun x hx => h x (List.mem_cons_of_mem _ hx)
      simp only [List.isEqv, Bool.and_eq_true, head, tail, List.forall_mem_cons, List.map_cons,
        List.cons.injEq]
      rw [and_and_and_comm, and_and_and_comm (a := P y)]

namespace Value

mutual

/-- The value with a positive zero in place of each negative one. -/
def plainZeros : Value → Value
  | null => null
  | bool b => bool b
  | int n => int n
  | float x => float x.plainZero
  | text s => text s
  | list items => list (plainZerosItems items)
  | object fields => object (plainZerosFields fields)

def plainZerosItems : List Value → List Value
  | [] => []
  | v :: vs => plainZeros v :: plainZerosItems vs

def plainZerosFields : List (String × Value) → List (String × Value)
  | [] => []
  | (k, v) :: rest => (k, plainZeros v) :: plainZerosFields rest

end

theorem plainZerosItems_eq (items : List Value) : plainZerosItems items = items.map plainZeros := by
  induction items with
  | nil => rfl
  | cons v vs ih => rw [plainZerosItems, List.map_cons, ih]

theorem plainZerosFields_eq (fields : List (String × Value)) :
    plainZerosFields fields = fields.map fun f => (f.1, f.2.plainZeros) := by
  induction fields with
  | nil => rfl
  | cons f fs ih => rw [plainZerosFields, List.map_cons, ih]

theorem sameItems_eq (xs ys : List Value) : sameItems xs ys = xs.isEqv ys same := by
  induction xs generalizing ys with
  | nil => cases ys <;> rfl
  | cons x xs ih =>
    cases ys with
    | nil => rfl
    | cons y ys => rw [sameItems, List.isEqv, ih]

theorem sameFields_eq (xs ys : List (String × Value)) :
    sameFields xs ys = xs.isEqv ys fun f g => f.1 == g.1 && same f.2 g.2 := by
  induction xs generalizing ys with
  | nil => cases ys <;> rfl
  | cons x xs ih =>
    cases ys with
    | nil => rfl
    | cons y ys => rw [sameFields, List.isEqv, ih]

section Over
variable {whole whole' : Int64 → Prop} {floating floating' : Binary64 → Prop}

theorem over_float {x : Binary64} : Over whole floating (.float x) ↔ floating x := by
  constructor
  · rintro ⟨⟩
    assumption
  · exact .float

theorem over_list {items : List Value} :
    Over whole floating (.list items) ↔ ∀ v ∈ items, Over whole floating v := by
  constructor
  · rintro ⟨⟩
    assumption
  · exact .list

theorem over_object {fields : List (String × Value)} :
    Over whole floating (.object fields) ↔ ∀ f ∈ fields, Over whole floating f.2 := by
  constructor
  · rintro ⟨⟩
    assumption
  · exact .object

theorem Over.mono {v : Value} (h : Over whole floating v) (wholes : ∀ n, whole n → whole' n)
    (floatings : ∀ x, floating x → floating' x) : Over whole' floating' v := by
  induction h with
  | null => exact .null
  | bool b => exact .bool b
  | int hn => exact .int (wholes _ hn)
  | float hx => exact .float (floatings _ hx)
  | text s => exact .text s
  | list _ ih => exact .list ih
  | object _ ih => exact .object ih

end Over

/-- No floating-point number in the value, at any depth, is a NaN. -/
def NaNFree : Value → Prop := Over (fun _ => True) fun x => x.isNaN = false

@[simp] theorem nanFree_null : NaNFree .null := .null

@[simp] theorem nanFree_bool (b : Bool) : NaNFree (.bool b) := .bool b

@[simp] theorem nanFree_int (n : Int64) : NaNFree (.int n) := .int trivial

@[simp] theorem nanFree_float {x : Binary64} : NaNFree (.float x) ↔ x.isNaN = false := over_float

@[simp] theorem nanFree_text (s : String) : NaNFree (.text s) := .text s

@[simp] theorem nanFree_list {items : List Value} :
    NaNFree (.list items) ↔ ∀ v ∈ items, NaNFree v := over_list

@[simp] theorem nanFree_object {fields : List (String × Value)} :
    NaNFree (.object fields) ↔ ∀ f ∈ fields, NaNFree f.2 := over_object

/-- Values are equal if they are free of NaN and differ in the signs of zeros at most. -/
theorem same_iff (a b : Value) :
    same a b = true ↔ a.NaNFree ∧ b.NaNFree ∧ a.plainZeros = b.plainZeros := by
  induction a using byParts generalizing b with
  | null => cases b <;> simp [same, plainZeros]
  | bool p => cases b <;> simp [same, plainZeros]
  | int m => cases b <;> simp [same, plainZeros]
  | float x => cases b <;> simp [same, plainZeros, Binary64.sameNumber_iff]
  | text s => cases b <;> simp [same, plainZeros]
  | list xs ih =>
    cases b with
    | list ys =>
      rw [same, sameItems_eq, isEqv_iff ih, nanFree_list, nanFree_list, plainZeros, plainZeros,
        plainZerosItems_eq, plainZerosItems_eq, Value.list.injEq]
    | _ => simp [same, plainZeros]
  | object xs ih =>
    cases b with
    | object ys =>
      have parts : ∀ f ∈ xs, ∀ g : String × Value, (f.1 == g.1 && same f.2 g.2) = true ↔
          NaNFree f.2 ∧ NaNFree g.2 ∧ (f.1, f.2.plainZeros) = (g.1, g.2.plainZeros) := by
        intro f hf g
        have value : same f.2 g.2 = true ↔ _ := ih f hf g.2
        rw [Bool.and_eq_true, beq_iff_eq, value, Prod.mk.injEq, and_left_comm,
          and_left_comm (a := f.1 = g.1)]
      rw [same, sameFields_eq, isEqv_iff parts, nanFree_object, nanFree_object, plainZeros,
        plainZeros, plainZerosFields_eq, plainZerosFields_eq, Value.object.injEq]
    | _ => simp [same, plainZeros]

theorem beq_iff {a b : Value} :
    (a == b) = true ↔ a.NaNFree ∧ b.NaNFree ∧ a.plainZeros = b.plainZeros := same_iff a b

instance : PartialEquivBEq Value where
  symm := by
    intro a b h
    obtain ⟨ha, hb, alike⟩ := beq_iff.mp h
    exact beq_iff.mpr ⟨hb, ha, alike.symm⟩
  trans := by
    intro a b c hab hbc
    obtain ⟨ha, -, alike⟩ := beq_iff.mp hab
    obtain ⟨-, hc, alike'⟩ := beq_iff.mp hbc
    exact beq_iff.mpr ⟨ha, hc, alike.trans alike'⟩

theorem beq_self_iff {a : Value} : (a == a) = true ↔ a.NaNFree := by
  rw [beq_iff, and_self_left, and_iff_left rfl]

/-! The order on values without floating-point numbers. -/

/-- There is no floating-point number in the value at any depth. -/
def FloatFree : Value → Prop := Over (fun _ => True) fun _ => False

section FloatFree
variable {a b c : Value}

theorem FloatFree.nanFree (h : FloatFree a) : NaNFree a := Over.mono h (fun _ => id) nofun

theorem FloatFree.plainZeros_eq (h : FloatFree a) : a.plainZeros = a := by
  induction h with
  | null | bool | int | text => rfl
  | float hx => exact hx.elim
  | list _ ih => rw [plainZeros, plainZerosItems_eq, List.map_congr_left ih, List.map_id']
  | object _ ih =>
    rw [plainZeros, plainZerosFields_eq,
      List.map_congr_left fun f hf => congrArg (Prod.mk f.1) (ih f hf), List.map_id']

theorem FloatFree.beq_iff_eq (ha : FloatFree a) (hb : FloatFree b) : (a == b) = true ↔ a = b := by
  rw [beq_iff, ha.plainZeros_eq, hb.plainZeros_eq, and_iff_right ha.nanFree,
    and_iff_right hb.nanFree]

theorem order_of_kind_ne (h : a.kind ≠ b.kind) :
    order a b = compare a.kind.rank b.kind.rank := by
  cases kinds : compare a.kind.rank b.kind.rank with
  | eq => exact absurd (kind_eq_of_compare kinds) h
  | _ => rw [order_eq_then, kinds]; rfl

theorem kind_eq_of_order (h : order a b = .eq) : a.kind = b.kind := by
  refine Decidable.byContradiction fun ne => ?_
  rw [order_of_kind_ne ne] at h
  exact ne (kind_eq_of_compare h)

theorem compareLex_eq_iff {α : Type} {cmp : α → α → Ordering} {xs ys : List α}
    (h : ∀ x ∈ xs, ∀ y ∈ ys, cmp x y = .eq ↔ x = y) :
    xs.compareLex cmp ys = .eq ↔ xs = ys := by
  induction xs generalizing ys with
  | nil =>
    cases ys with
    | nil => exact iff_of_true rfl rfl
    | cons y ys => exact iff_of_false nofun nofun
  | cons x xs ih =>
    cases ys with
    | nil => exact iff_of_false nofun nofun
    | cons y ys =>
      rw [List.compareLex_cons_cons, Ordering.then_eq_eq, List.cons.injEq,
        h x List.mem_cons_self y List.mem_cons_self,
        ih fun x hx y hy => h x (List.mem_cons_of_mem _ hx) y (List.mem_cons_of_mem _ hy)]

theorem level_of_kinds (h : a.kind = b.kind → (order a b = .eq ↔ a = b)) :
    order a b = .eq ↔ a = b := by
  by_cases kinds : a.kind = b.kind
  · exact h kinds
  · refine iff_of_false (fun level => kinds (kind_eq_of_order level)) ?_
    exact fun same => kinds (congrArg kind same)

/-- Without floating-point numbers only equal values are level. -/
theorem order_eq_iff (ha : FloatFree a) (hb : FloatFree b) : order a b = .eq ↔ a = b := by
  refine level_of_kinds fun kinds => ?_
  induction ha generalizing b with
  | null =>
    cases hb with
    | null => exact iff_of_true rfl rfl
    | _ => cases kinds
  | bool p =>
    cases hb with
    | bool q => rw [order, Std.LawfulEqCmp.compare_eq_iff_eq, bool.injEq]
    | _ => cases kinds
  | int _ =>
    cases hb with
    | int _ => rw [order, Int.compare_eq_eq, Int64.toInt_inj, int.injEq]
    | float hy => exact hy.elim
    | _ => cases kinds
  | float hx => exact hx.elim
  | text s =>
    cases hb with
    | text t => rw [order, Std.LawfulEqCmp.compare_eq_iff_eq, text.injEq]
    | _ => cases kinds
  | list _ ih =>
    cases hb with
    | list hys =>
      rw [order, orderItems_eq, list.injEq]
      exact compareLex_eq_iff fun x hx y hy => level_of_kinds (ih x hx (hys y hy))
    | _ => cases kinds
  | object _ ih =>
    cases hb with
    | object hys =>
      rw [order, orderFields_eq, object.injEq]
      refine compareLex_eq_iff fun f hf g hg => ?_
      rw [orderField, Ordering.then_eq_eq, Std.LawfulEqCmp.compare_eq_iff_eq,
        level_of_kinds (ih f hf (hys g hg)), Prod.ext_iff]
    | _ => cases kinds

/-- Without floating-point numbers there are no whole ones to be confused by rounding. -/
theorem apart_of_floatFree : Apart (fun _ => True) fun _ => False := fun _ _ _ _ _ => False.elim

/-- On values without floating-point numbers the order is linear: it is level on equal ones only,
the opposite the other way round, and transitive, strictly too. Values of different kinds have the
order of their kinds, whatever they are. -/
theorem order_linear :
    (∀ a b, FloatFree a → FloatFree b → (order a b = .eq ↔ (a == b) = true)) ∧
      (∀ a b, order a b = (order b a).swap) ∧
      (∀ a b c, FloatFree a → FloatFree b → FloatFree c →
        ((order a b).isLE = true → (order b c).isLE = true → (order a c).isLE = true) ∧
          (order a b = .lt → order b c = .lt → order a c = .lt)) ∧
      ∀ a b : Value, a.kind ≠ b.kind → order a b = compare a.kind.rank b.kind.rank := by
  refine ⟨fun a b ha hb => ?_, order_swap, fun a b c ha hb hc => ?_, fun a b => order_of_kind_ne⟩
  · rw [order_eq_iff ha hb, ha.beq_iff_eq hb]
  · have composes := order_composes apart_of_floatFree ha hb hc
    refine ⟨composes.isLE, fun hab hbc => ?_⟩
    rw [composes (Ordering.isLE_of_eq_lt hab) (Ordering.isLE_of_eq_lt hbc), hab]
    rfl

/-- A list comes behind what it begins with and in front of any object. Two whole numbers that round
to the same floating-point number are told apart. -/
theorem order_linear_nested :
    let a := list [int 9007199254740992, object [("k", bool true)]]
    let b := list [int 9007199254740992, object [("k", bool true), ("l", null)], text "x"]
    let c := list [int 9007199254740993]
    FloatFree a ∧ FloatFree b ∧ FloatFree c ∧ order a b = .lt ∧ order b c = .lt ∧
      order a c = .lt ∧ order c a = .gt ∧ (a == a) = true ∧ order c (object []) = .lt := by
  intro a b c
  have ha : FloatFree a := by
    simp [a, FloatFree, over_list, over_object, Over.int, Over.bool]
  have hb : FloatFree b := by
    simp [b, FloatFree, over_list, over_object, Over.int, Over.bool, Over.null, Over.text]
  have hc : FloatFree c := by simp [c, FloatFree, over_list, Over.int]
  obtain ⟨level, opposite, transitive, kinds⟩ := order_linear
  have hab : order a b = .lt := by decide +kernel
  have hbc : order b c = .lt := by decide +kernel
  have hac : order a c = .lt := (transitive a b c ha hb hc).2 hab hbc
  refine ⟨ha, hb, hc, hab, hbc, hac, ?_, ?_, ?_⟩
  · rw [opposite, hac]
    rfl
  · exact (level a a ha ha).mp (by decide +kernel)
  · rw [kinds c (object []) (by decide)]
    rfl

end FloatFree

end Value
end EntityQuery
