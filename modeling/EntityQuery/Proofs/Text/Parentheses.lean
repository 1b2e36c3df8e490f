/-!
# Parentheses that match

A text is read from the left with the number of parentheses that are open. It is balanced if
none is closed that is not open and none stays open. The parenthesis that closes an open one
does not depend on what stands between them, as long as that is balanced. So a text is enclosed,
that is its first parenthesis is closed by its last character, exactly if it is a balanced text
between two parentheses.
-/

namespace EntityQuery.Text

/-- The number of parentheses that are open behind a text, if none is closed that is not open. -/
def openBehind : Nat → List Char → Option Nat
  | depth, [] => some depth
  | depth, c :: cs =>
    if c = '(' then openBehind (depth + 1) cs
    else if c = ')' then if depth = 0 then none else openBehind (depth - 1) cs
    else openBehind depth cs

/-- What stands behind the next parenthesis that is closed outside of `depth` open ones. -/
def behindClosing : Nat → List Char → Option (List Char)
  | _, [] => none
  | depth, c :: cs =>
    if c = '(' then behindClosing (depth + 1) cs
    else if c = ')' then if depth = 0 then some cs else behindClosing (depth - 1) cs
    else behindClosing depth cs

/-- What stands behind the parenthesis that closes the first character. -/
def behindGroup : List Char → Option (List Char)
  | '(' :: cs => behindClosing 0 cs
  | _ => none

def Balanced (s : String) : Prop := openBehind 0 s.toList = some 0

/-- The first character is a parenthesis, and the last character closes it. -/
def Enclosed (s : String) : Prop := behindGroup s.toList = some []

instance (s : String) : Decidable (Balanced s) := inferInstanceAs (Decidable (_ = _))

instance (s : String) : Decidable (Enclosed s) := inferInstanceAs (Decidable (_ = _))

/-- A character opens a parenthesis, closes one, or does neither. -/
theorem parenthesis_cases (c : Char) : c = '(' ∨ c = ')' ∨ c ≠ '(' ∧ c ≠ ')' := by
  by_cases opens : c = '('
  · exact Or.inl opens
  · by_cases closes : c = ')'
    · exact Or.inr (Or.inl closes)
    · exact Or.inr (Or.inr ⟨opens, closes⟩)

section Step
variable {c : Char} {cs : List Char} {depth : Nat}

@[simp] theorem openBehind_open : openBehind depth ('(' :: cs) = openBehind (depth + 1) cs := by
  simp [openBehind]

@[simp] theorem openBehind_close :
    openBehind depth (')' :: cs) = if depth = 0 then none else openBehind (depth - 1) cs := by
  simp [openBehind]

theorem openBehind_other (h : c ≠ '(' ∧ c ≠ ')') :
    openBehind depth (c :: cs) = openBehind depth cs := by
  simp [openBehind, h.1, h.2]

@[simp] theorem behindClosing_open :
    behindClosing depth ('(' :: cs) = behindClosing (depth + 1) cs := by
  simp [behindClosing]

@[simp] theorem behindClosing_close :
    behindClosing depth (')' :: cs) =
      if depth = 0 then some cs else behindClosing (depth - 1) cs := by
  simp [behindClosing]

theorem behindClosing_other (h : c ≠ '(' ∧ c ≠ ')') :
    behindClosing depth (c :: cs) = behindClosing depth cs := by
  simp [behindClosing, h.1, h.2]

end Step

/-- A text that closes what it opens passes by the parentheses around it. -/
theorem behindClosing_append {cs : List Char} {depth inside : Nat}
    (h : openBehind depth cs = some inside) (rest : List Char) :
    behindClosing depth (cs ++ rest) = behindClosing inside rest := by
  induction cs generalizing depth with
  | nil =>
    cases h
    rfl
  | cons c cs ih =>
    rw [List.cons_append]
    rcases parenthesis_cases c with rfl | rfl | other
    · rw [openBehind_open] at h
      rw [behindClosing_open, ih h]
    · rw [openBehind_close] at h
      cases depth with
      | zero => cases h
      | succ outer => rw [behindClosing_close, if_neg (Nat.succ_ne_zero outer), ih h]
    · rw [openBehind_other other] at h
      rw [behindClosing_other other, ih h]

theorem split_of_behindClosing {cs rest : List Char} {depth : Nat}
    (h : behindClosing depth cs = some rest) :
    ∃ inner, cs = inner ++ ')' :: rest ∧ openBehind depth inner = some 0 := by
  induction cs generalizing depth with
  | nil => cases h
  | cons c cs ih =>
    rcases parenthesis_cases c with rfl | rfl | other
    · rw [behindClosing_open] at h
      obtain ⟨inner, rfl, closed⟩ := ih h
      exact ⟨'(' :: inner, rfl, by rwa [openBehind_open]⟩
    · rw [behindClosing_close] at h
      cases depth with
      | zero =>
        cases h
        exact ⟨[], rfl, rfl⟩
      | succ outer =>
        obtain ⟨inner, rfl, closed⟩ := ih h
        exact ⟨')' :: inner, rfl, by rwa [openBehind_close]⟩
    · rw [behindClosing_other other] at h
      obtain ⟨inner, rfl, closed⟩ := ih h
      exact ⟨c :: inner, rfl, by rwa [openBehind_other other]⟩

/-- If nothing is open in the end, what was open is closed at some place. -/
theorem exists_behindClosing {cs : List Char} {depth : Nat}
    (h : openBehind (depth + 1) cs = some 0) : ∃ rest, behindClosing depth cs = some rest := by
  induction cs generalizing depth with
  | nil => cases h
  | cons c cs ih =>
    rcases parenthesis_cases c with rfl | rfl | other
    · rw [openBehind_open] at h
      rw [behindClosing_open]
      exact ih h
    · rw [openBehind_close, if_neg (Nat.succ_ne_zero depth), Nat.add_sub_cancel] at h
      rw [behindClosing_close]
      cases depth with
      | zero => exact ⟨cs, rfl⟩
      | succ outer => exact ih h
    · rw [openBehind_other other] at h
      rw [behindClosing_other other]
      exact ih h

theorem enclosed_parentheses {s : String} (h : Balanced s) : Enclosed ("(" ++ s ++ ")") := by
  have whole : ("(" ++ s ++ ")").toList = '(' :: (s.toList ++ [')']) := by simp
  rw [Enclosed, whole, behindGroup, behindClosing_append h]
  rfl

theorem exists_of_enclosed {s : String} (h : Enclosed s) :
    ∃ t, Balanced t ∧ s = "(" ++ t ++ ")" := by
  rw [Enclosed, behindGroup.eq_def] at h
  split at h
  · rename_i cs hs
    obtain ⟨inner, rfl, closed⟩ := split_of_behindClosing h
    refine ⟨String.ofList inner, ?_, ?_⟩
    · rwa [Balanced, String.toList_ofList]
    · rw [← String.toList_inj, hs]
      simp
  · cases h

/-- Behind an enclosed text stands what was put there. -/
theorem behindGroup_append {s : String} (h : Enclosed s) (rest : String) :
    behindGroup (s ++ rest).toList = some rest.toList := by
  obtain ⟨t, balanced, rfl⟩ := exists_of_enclosed h
  have whole : ("(" ++ t ++ ")" ++ rest).toList = '(' :: (t.toList ++ ')' :: rest.toList) := by
    simp
  rw [whole, behindGroup, behindClosing_append balanced]
  rfl

/-- A balanced text that begins with a parenthesis is an enclosed text with another behind it. -/
theorem exists_enclosed_append {s : String} (balanced : Balanced s)
    (first : s.toList.head? = some '(') : ∃ group rest, Enclosed group ∧ s = group ++ rest := by
  obtain ⟨cs, hs⟩ := List.head?_eq_some_iff.mp first
  rw [Balanced, hs, openBehind_open] at balanced
  obtain ⟨rest, closing⟩ := exists_behindClosing balanced
  obtain ⟨inner, rfl, closed⟩ := split_of_behindClosing closing
  have inside : Balanced (String.ofList inner) := by rwa [Balanced, String.toList_ofList]
  refine ⟨_, String.ofList rest, enclosed_parentheses inside, ?_⟩
  rw [← String.toList_inj, hs]
  simp

end EntityQuery.Text
