import EntityQuery.Proofs.AliasRounds
import Mathlib.Data.List.Basic

/-!
# Aliases that are free

A base that is taken is numbered until it is free. Different numbers make different aliases, so
that the search ends before there are more of them than aliases in sight. What stands in front of
the last underscore of a numbered alias is its base.
-/

namespace EntityQuery

theorem eq_of_append_cons {α : Type} {a : α} {xs ys ds es : List α} (hd : a ∉ ds) (he : a ∉ es)
    (h : xs ++ a :: ds = ys ++ a :: es) : xs = ys ∧ ds = es := by
  rcases List.append_eq_append_iff.mp h with ⟨zs, hys, hds⟩ | ⟨zs, hxs, hes⟩
  · cases zs with
    | nil => simpa [eq_comm] using And.intro hys hds
    | cons z zs =>
      obtain ⟨rfl, rfl⟩ := List.cons.inj hds
      exact absurd (List.mem_append_right zs List.mem_cons_self) hd
  · cases zs with
    | nil => simpa [eq_comm] using And.intro hxs hes
    | cons z zs =>
      obtain ⟨rfl, rfl⟩ := List.cons.inj hes
      exact absurd (List.mem_append_right zs List.mem_cons_self) he

namespace AliasScope

variable {s : AliasScope} {base : String}

theorem isAvailable_iff {label : String} : s.isAvailable label = true ↔ s.find? label = none := by
  rw [isAvailable, Option.isNone_iff_eq_none]

theorem mem_names_of_taken {label : String} (h : s.isAvailable label = false) :
    label ∈ s.names := by
  cases hfind : s.find? label with
  | none => simp [isAvailable, hfind] at h
  | some t => exact mem_names_of_find? hfind

/-! Numbers. -/

theorem toList_numbered (base : String) (i : Nat) :
    (numbered base i).toList = base.toList ++ '_' :: Nat.toDigits 10 i := by
  show (base ++ "_" ++ toString i).toList = _
  simp

theorem underscore_notMem_toDigits (i : Nat) : '_' ∉ Nat.toDigits 10 i := by
  intro h
  have digit := Nat.isDigit_of_mem_toDigits (by omega) (by omega) h
  revert digit
  decide

theorem numbered_inj {a b : String} {i j : Nat} : numbered a i = numbered b j ↔ a = b ∧ i = j := by
  constructor
  · intro h
    have lists := congrArg String.toList h
    rw [toList_numbered, toList_numbered] at lists
    obtain ⟨same, digits⟩ := eq_of_append_cons (underscore_notMem_toDigits i)
      (underscore_notMem_toDigits j) lists
    have number := congrArg (Nat.ofDigitChars 10 · 0) digits
    exact ⟨String.toList_inj.mp same, by simpa using number⟩
  · rintro ⟨rfl, rfl⟩
    rfl

/-- Each number that is tried and taken uses up one of the labels that are left. -/
theorem firstAvailable_eq {labels : List String} {fuel i : Nat}
    (covers : ∀ j, i ≤ j → s.isAvailable (numbered base j) = false → numbered base j ∈ labels)
    (enough : labels.length ≤ fuel) :
    ∃ j, i ≤ j ∧ s.firstAvailable base fuel i = numbered base j ∧
      s.isAvailable (numbered base j) = true ∧
      ∀ k, i ≤ k → k < j → s.isAvailable (numbered base k) = false := by
  induction fuel generalizing i labels with
  | zero =>
    obtain rfl := List.eq_nil_of_length_eq_zero (Nat.le_zero.mp enough)
    refine ⟨i, Nat.le_refl i, rfl, ?_, by omega⟩
    by_contra taken
    cases covers i (Nat.le_refl i) (by simpa using taken)
  | succ fuel ih =>
    cases free : s.isAvailable (numbered base i) with
    | true => exact ⟨i, Nat.le_refl i, by simp [firstAvailable, free], free, by omega⟩
    | false =>
      have here := covers i (Nat.le_refl i) free
      have left : ∀ j, i + 1 ≤ j → s.isAvailable (numbered base j) = false →
          numbered base j ∈ labels.erase (numbered base i) := by
        intro j hj taken
        refine (List.mem_erase_of_ne fun same => ?_).mpr (covers j (by omega) taken)
        have := (numbered_inj.mp same).2
        omega
      have fewer : (labels.erase (numbered base i)).length ≤ fuel := by
        rw [List.length_erase_of_mem here]
        omega
      obtain ⟨j, hj, eq, found, before⟩ := ih left fewer
      refine ⟨j, by omega, by simpa [firstAvailable, free] using eq, found, fun k hk hkj => ?_⟩
      rcases Nat.eq_or_lt_of_le hk with rfl | hk
      · exact free
      · exact before k hk hkj

/-- The base if it is free, and otherwise its first number that is. -/
theorem generate_cases (s : AliasScope) (base : String) :
    (s.isAvailable base = true ∧ s.generate base = base) ∨
      s.isAvailable base = false ∧ ∃ j, 0 < j ∧ s.generate base = numbered base j ∧
        s.isAvailable (numbered base j) = true ∧
        ∀ k, 0 < k → k < j → s.isAvailable (numbered base k) = false := by
  rw [generate]
  cases free : s.isAvailable base with
  | true => exact Or.inl ⟨rfl, rfl⟩
  | false =>
    have covers : ∀ j, 1 ≤ j → s.isAvailable (numbered base j) = false →
        numbered base j ∈ s.names := fun _ _ taken => mem_names_of_taken taken
    obtain ⟨j, hj, eq, found, before⟩ := firstAvailable_eq covers (Nat.le_of_eq s.length_names)
    exact Or.inr ⟨rfl, j, hj, eq, found, before⟩

theorem isAvailable_generate (s : AliasScope) (base : String) :
    s.isAvailable (s.generate base) = true := by
  rcases s.generate_cases base with ⟨free, eq⟩ | ⟨-, j, -, eq, free, -⟩
  · rw [eq, free]
  · rw [eq, free]

theorem generate_of_isAvailable (h : s.isAvailable base = true) : s.generate base = base := by
  rw [generate, if_pos h]

end AliasScope
end EntityQuery
