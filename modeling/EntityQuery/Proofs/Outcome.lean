import EntityQuery.Error
import Mathlib.Data.List.Forall2

/-!
# Computations that may fail

A chain of checked steps succeeds exactly when each step does. What every successful step
keeps, a successful fold of steps keeps. The faults of a chain are those of its steps.
-/

namespace EntityQuery.Outcome

variable {ε α β γ : Type}

instance decEqExcept [DecidableEq ε] [DecidableEq α] : DecidableEq (Except ε α)
  | .ok a, .ok b => decidable_of_iff (a = b) ⟨congrArg _, Except.ok.inj⟩
  | .error e, .error f => decidable_of_iff (e = f) ⟨congrArg _, Except.error.inj⟩
  | .ok _, .error _ => isFalse nofun
  | .error _, .ok _ => isFalse nofun

theorem bind_ok_iff {x : Except ε α} {f : α → Except ε β} {b : β} :
    (x >>= f) = .ok b ↔ ∃ a, x = .ok a ∧ f a = .ok b := by
  cases x with
  | error e => simp [bind, Except.bind]
  | ok a => simp [bind, Except.bind]

theorem bind_error_iff {x : Except ε α} {f : α → Except ε β} {err : ε} :
    (x >>= f) = .error err ↔ x = .error err ∨ ∃ a, x = .ok a ∧ f a = .error err := by
  cases x with
  | error e => simp [bind, Except.bind]
  | ok a => simp [bind, Except.bind]

theorem bind_congr_ok {x : Except ε α} {f g : α → Except ε β} (h : ∀ a, x = .ok a → f a = g a) :
    (x >>= f) = (x >>= g) := by
  cases x with
  | error e => rfl
  | ok a => exact h a rfl

/-- A change of the result that what follows does not see. -/
theorem bind_map_eq {x : Except ε α} {g : α → α} {f : α → Except ε β}
    (h : ∀ a, x = .ok a → f (g a) = f a) : (x.map g >>= f) = (x >>= f) := by
  cases x with
  | error e => rfl
  | ok a => exact h a rfl

theorem foldlM_keeps {step : β → α → Except ε β} {P : β → Prop}
    (keeps : ∀ b a c, P b → step b a = .ok c → P c) {l : List α} {b c : β}
    (start : P b) (h : l.foldlM step b = .ok c) : P c := by
  induction l generalizing b with
  | nil =>
    cases h
    exact start
  | cons a rest ih =>
    rw [List.foldlM_cons] at h
    obtain ⟨m, hm, hrest⟩ := bind_ok_iff.mp h
    exact ih (keeps b a m start hm) hrest

theorem mapM_ok_iff {f : α → Except ε β} {as : List α} {bs : List β} :
    as.mapM f = .ok bs ↔ List.Forall₂ (fun a b => f a = .ok b) as bs := by
  induction as generalizing bs with
  | nil => cases bs <;> simp [pure, Except.pure]
  | cons a rest ih =>
    rw [List.mapM_cons, bind_ok_iff]
    constructor
    · rintro ⟨b, hb, h⟩
      obtain ⟨cs, hcs, h⟩ := bind_ok_iff.mp h
      cases h
      exact .cons hb (ih.mp hcs)
    · intro h
      cases h with
      | cons hb hrest => exact ⟨_, hb, bind_ok_iff.mpr ⟨_, ih.mpr hrest, rfl⟩⟩

/-- Each result of a chain stands in the relation to its source that every step brings about. -/
theorem forall₂_of_mapM_ok {f : α → Except ε β} {R : α → β → Prop} {as : List α} {bs : List β}
    (h : as.mapM f = .ok bs) (each : ∀ a ∈ as, ∀ b, f a = .ok b → R a b) :
    List.Forall₂ R as bs := by
  have all := mapM_ok_iff.mp h
  clear h
  induction all with
  | nil => exact .nil
  | cons hab _ ih =>
    rw [List.forall_mem_cons] at each
    exact .cons (each.1 _ hab) (ih each.2)

/-- What each step of a chain gives for a changed source, the chain gives for the changed list. -/
theorem mapM_map_ok_of {δ : Type} {f : α → Except ε β} {g : γ → Except ε δ} {source : α → γ}
    {result : β → δ} {as : List α} {bs : List β} (h : as.mapM f = .ok bs)
    (each : ∀ a ∈ as, ∀ b, f a = .ok b → g (source a) = .ok (result b)) :
    (as.map source).mapM g = .ok (bs.map result) := by
  rw [mapM_ok_iff, List.forall₂_map_left_iff, List.forall₂_map_right_iff]
  exact forall₂_of_mapM_ok h each

theorem mapM_cons_error_iff {f : α → Except ε β} {a : α} {as : List α} {err : ε} :
    (a :: as).mapM f = .error err ↔
      f a = .error err ∨ (∃ b, f a = .ok b) ∧ as.mapM f = .error err := by
  rw [List.mapM_cons, bind_error_iff]
  refine or_congr Iff.rfl ?_
  simp only [bind_error_iff, pure, Except.pure, reduceCtorEq, and_false, exists_false, or_false,
    exists_and_right]

/-- A chain fails with the fault of one of its members, where all before it succeed. -/
theorem mapM_error_iff {f : α → Except ε β} {as : List α} {err : ε} :
    as.mapM f = .error err ↔ ∃ before a after, as = before ++ a :: after ∧
      (∀ b ∈ before, ∃ c, f b = .ok c) ∧ f a = .error err := by
  induction as with
  | nil => simp [pure, Except.pure]
  | cons a rest ih =>
    rw [mapM_cons_error_iff, ih]
    constructor
    · rintro (ha | ⟨hb, before, c, after, rfl, written, hc⟩)
      · exact ⟨[], a, rest, rfl, nofun, ha⟩
      · exact ⟨a :: before, c, after, rfl, List.forall_mem_cons.mpr ⟨hb, written⟩, hc⟩
    · rintro ⟨before, c, after, split, written, hc⟩
      cases before with
      | nil =>
        cases split
        exact Or.inl hc
      | cons d before =>
        cases split
        obtain ⟨hb, written⟩ := List.forall_mem_cons.mp written
        exact Or.inr ⟨hb, before, c, after, rfl, written, hc⟩

theorem mem_of_mapM_ok {f : α → Except ε β} {as : List α} {bs : List β}
    (h : as.mapM f = .ok bs) {b : β} (hb : b ∈ bs) : ∃ a ∈ as, f a = .ok b := by
  have all := mapM_ok_iff.mp h
  induction all with
  | nil => cases hb
  | cons hab hrest ih =>
    rcases List.mem_cons.mp hb with rfl | hb
    · exact ⟨_, List.mem_cons_self, hab⟩
    · obtain ⟨a, ha, h⟩ := ih (mapM_ok_iff.mpr hrest) hb
      exact ⟨a, List.mem_cons_of_mem _ ha, h⟩

theorem exists_mem_of_mapM_ok {f : α → Except ε β} {as : List α} {bs : List β}
    (h : as.mapM f = .ok bs) {a : α} (ha : a ∈ as) : ∃ b ∈ bs, f a = .ok b := by
  have all := mapM_ok_iff.mp h
  induction all with
  | nil => cases ha
  | cons hab hrest ih =>
    rcases List.mem_cons.mp ha with rfl | ha
    · exact ⟨_, List.mem_cons_self, hab⟩
    · obtain ⟨b, hb, h⟩ := ih (mapM_ok_iff.mpr hrest) ha
      exact ⟨b, List.mem_cons_of_mem _ hb, h⟩

theorem exists_of_mapM_ok {f : α → Except ε β} {as : List α} {bs : List β}
    (h : as.mapM f = .ok bs) {a : α} (ha : a ∈ as) : ∃ b, f a = .ok b := by
  obtain ⟨b, -, hab⟩ := exists_mem_of_mapM_ok h ha
  exact ⟨b, hab⟩

/-- Some member of the one list is as it should be if its partner in the other is. -/
theorem exists_mem_iff_of_forall₂ {R : α → β → Prop} {P : β → Prop} {Q : α → Prop} {as : List α}
    {bs : List β} (h : List.Forall₂ R as bs) (each : ∀ a b, R a b → (P b ↔ Q a)) :
    (∃ b ∈ bs, P b) ↔ ∃ a ∈ as, Q a := by
  induction h with
  | nil => simp
  | cons first _ ih =>
    rw [List.exists_mem_cons_iff, List.exists_mem_cons_iff]
    exact or_congr (each _ _ first) ih

/-- Some result of a chain is as it should be if what it comes from is. -/
theorem exists_mem_iff_of_mapM_ok {f : α → Except ε β} {P : β → Prop} {Q : α → Prop} {as : List α}
    {bs : List β} (h : as.mapM f = .ok bs) (each : ∀ a ∈ as, ∀ b, f a = .ok b → (P b ↔ Q a)) :
    (∃ b ∈ bs, P b) ↔ ∃ a ∈ as, Q a :=
  exists_mem_iff_of_forall₂ (forall₂_of_mapM_ok h each) fun _ _ same => same

theorem head_of_mapM_ok {f : α → Except ε β} {as : List α} {bs : List β}
    (h : as.mapM f = .ok bs) {b : β} (hb : b ∈ bs.head?) : ∃ a ∈ as.head?, f a = .ok b := by
  cases mapM_ok_iff.mp h with
  | nil => cases hb
  | cons hab _ =>
    obtain rfl := Option.some.inj hb
    exact ⟨_, rfl, hab⟩

theorem mapM_congr {f g : α → Except ε β} {as : List α} (h : ∀ a ∈ as, f a = g a) :
    as.mapM f = as.mapM g := by
  induction as with
  | nil => rfl
  | cons a rest ih =>
    rw [List.mapM_cons, List.mapM_cons, h a List.mem_cons_self,
      ih fun b hb => h b (List.mem_cons_of_mem a hb)]

theorem mapM_congr₂ {f : α → Except ε γ} {g : β → Except ε γ} {as : List α} {bs : List β}
    (h : List.Forall₂ (fun a b => f a = g b) as bs) : as.mapM f = bs.mapM g := by
  induction h with
  | nil => rfl
  | cons same _ ih => rw [List.mapM_cons, List.mapM_cons, same, ih]

theorem mapM_append_congr {f : α → Except ε β} (l : List α) {as bs : List α}
    (h : as.mapM f = bs.mapM f) : (l ++ as).mapM f = (l ++ bs).mapM f := by
  rw [List.mapM_append, List.mapM_append, h]

/-- A mapped list of outcomes, each changed by a function of its own result. -/
theorem mapM_map_ok {f : α → Except ε β} {g : β → γ} {as : List α} :
    (as.mapM fun a => (f a).map g) = (as.mapM f).map (List.map g) := by
  induction as with
  | nil => rfl
  | cons a rest ih =>
    rw [List.mapM_cons, List.mapM_cons, ih]
    cases f a with
    | error e => rfl
    | ok b =>
      cases rest.mapM f with
      | error e => rfl
      | ok bs => rfl

/-! Computations of the same results, whose faults may differ. -/

/-- `x` and `y` have the same result or both have none. -/
def SameOk (x y : Except ε α) : Prop := ∀ a, x = .ok a ↔ y = .ok a

namespace SameOk

theorem of_eq {x y : Except ε α} (h : x = y) : SameOk x y := fun a => by rw [h]

theorem of_errors {x y : Except ε α} (hx : ∃ e, x = .error e) (hy : ∃ e, y = .error e) :
    SameOk x y := by
  obtain ⟨e, rfl⟩ := hx
  obtain ⟨f, rfl⟩ := hy
  exact fun a => ⟨nofun, nofun⟩

theorem bind {x y : Except ε α} {f g : α → Except ε β} (h : SameOk x y)
    (next : ∀ a, SameOk (f a) (g a)) : SameOk (x >>= f) (y >>= g) := by
  intro b
  rw [bind_ok_iff, bind_ok_iff]
  exact exists_congr fun a => and_congr (h a) (next a b)

theorem mapM {f : α → Except ε γ} {g : β → Except ε γ} {as : List α} {bs : List β}
    (h : List.Forall₂ (fun a b => SameOk (f a) (g b)) as bs) :
    SameOk (as.mapM f) (bs.mapM g) := by
  induction h with
  | nil => exact of_eq rfl
  | cons first _ ih =>
    rw [List.mapM_cons, List.mapM_cons]
    exact first.bind fun c => ih.bind fun cs => of_eq rfl

/-- The same for a list and what it is mapped to. -/
theorem mapM_map {f : β → Except ε γ} {g : α → Except ε γ} {change : α → β} {as : List α}
    (h : ∀ a ∈ as, SameOk (f (change a)) (g a)) :
    SameOk ((as.map change).mapM f) (as.mapM g) := by
  refine mapM ?_
  rw [List.forall₂_map_left_iff]
  exact List.forall₂_same.mpr h

end SameOk

/-! Computations whose faults are all of one kind. -/

/-- All faults of `x` are in `P`. -/
def FailsOnly (P : ε → Prop) (x : Except ε α) : Prop := ∀ e, x = .error e → P e

section FailsOnly
variable {P : ε → Prop}

theorem failsOnly_ok (a : α) : FailsOnly P (.ok a : Except ε α) := nofun

theorem failsOnly_error {e : ε} (h : P e) : FailsOnly P (.error e : Except ε α) := by
  rintro _ ⟨⟩
  exact h

theorem failsOnly_of_ok {x : Except ε α} {a : α} (h : x = .ok a) : FailsOnly P x :=
  h ▸ failsOnly_ok a

theorem FailsOnly.mono {Q : ε → Prop} {x : Except ε α} (h : FailsOnly P x) (le : ∀ e, P e → Q e) :
    FailsOnly Q x :=
  fun e he => le e (h e he)

theorem failsOnly_bind {x : Except ε α} {f : α → Except ε β} (hx : FailsOnly P x)
    (hf : ∀ a, x = .ok a → FailsOnly P (f a)) : FailsOnly P (x >>= f) := by
  cases x with
  | error e => exact fun _ he => hx _ (by cases he; rfl)
  | ok a => exact hf a rfl

theorem failsOnly_mapM {f : α → Except ε β} {as : List α} (h : ∀ a ∈ as, FailsOnly P (f a)) :
    FailsOnly P (as.mapM f) := by
  induction as with
  | nil => exact failsOnly_ok []
  | cons a rest ih =>
    rw [List.mapM_cons]
    refine failsOnly_bind (h a List.mem_cons_self) fun b _ => ?_
    refine failsOnly_bind (ih fun c hc => h c (List.mem_cons_of_mem a hc)) fun bs _ => ?_
    exact failsOnly_ok (b :: bs)

theorem failsOnly_foldlM {step : β → α → Except ε β} {as : List α}
    (h : ∀ b, ∀ a ∈ as, FailsOnly P (step b a)) (b : β) : FailsOnly P (as.foldlM step b) := by
  induction as generalizing b with
  | nil => exact failsOnly_ok b
  | cons a rest ih =>
    rw [List.foldlM_cons]
    refine failsOnly_bind (h b a List.mem_cons_self) fun c _ => ?_
    exact ih (fun d e he => h d e (List.mem_cons_of_mem a he)) c

end FailsOnly

end EntityQuery.Outcome
