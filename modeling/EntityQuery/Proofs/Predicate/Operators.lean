import EntityQuery.Predicate.Parser
import Mathlib.Data.List.TakeWhile

/-!
# Where the first operator stands

The operator that divides a text is the first one from the left. No operator holds a quote, so
whether one begins at a place is decided before the next quote. Hence doubling quotes, or taking
pairs of them for one, brings no operator into a text between quotes that was not there.
-/

namespace EntityQuery

/-! Characters at which no operator begins. -/

/-- Neither a blank nor a sign of comparison. The sign of negation begins an operator only in
front of another sign. -/
def isSolid (c : Char) : Bool := !Text.isBlank c && c != '<' && c != '>' && c != '='

theorem isSolid_iff {c : Char} :
    isSolid c = true ↔ Text.isBlank c = false ∧ c ≠ '<' ∧ c ≠ '>' ∧ c ≠ '=' := by
  simp [isSolid, and_assoc]

theorem isCapital_iff {c : Char} : c.isUpper = true ↔ 65 ≤ c.toNat ∧ c.toNat ≤ 90 :=
  decide_eq_true_iff

theorem isLetter_iff {c : Char} :
    c.isAlpha = true ↔ (65 ≤ c.toNat ∧ c.toNat ≤ 90) ∨ (97 ≤ c.toNat ∧ c.toNat ≤ 122) := by
  show (c.isUpper || (decide (97 ≤ c.toNat) && decide (c.toNat ≤ 122))) = true ↔ _
  rw [Bool.or_eq_true, isCapital_iff, Bool.and_eq_true, decide_eq_true_iff, decide_eq_true_iff]

/-- Digits come after the quote and the signs, and before the colon and the letters. -/
theorem toNat_of_isDigit {c : Char} (h : c.isDigit = true) : 48 ≤ c.toNat ∧ c.toNat < 58 := by
  have same : c.toNat = c.val.toNat := rfl
  simp [Char.isDigit, UInt32.le_iff_toNat_le] at h
  omega

theorem isSolid_of_isNamePart {c : Char} (h : Text.isNamePart c = true) : isSolid c = true := by
  have range : (48 ≤ c.toNat ∧ c.toNat < 58) ∨ (65 ≤ c.toNat ∧ c.toNat ≤ 90) ∨
      c.toNat = 95 ∨ c.toNat = 36 ∨ (97 ≤ c.toNat ∧ c.toNat ≤ 122) := by
    rw [Text.isNamePart, Text.isNameStart, Bool.or_eq_true, Bool.or_eq_true, Bool.or_eq_true,
      isLetter_iff, beq_iff_eq, beq_iff_eq] at h
    rcases h with ((h | rfl) | rfl) | h
    · omega
    · decide
    · decide
    · exact Or.inl (toNat_of_isDigit h)
  have apart : ∀ d : Char, d.toNat = 60 ∨ d.toNat = 61 ∨ d.toNat = 62 → c ≠ d := by
    rintro d hd rfl
    omega
  have blank : Text.isBlank c = false := by
    simp [Text.isBlank]
    omega
  exact isSolid_iff.mpr
    ⟨blank, apart _ (by decide), apart _ (by decide), apart _ (by decide)⟩

theorem isSolid_of_isDigit {c : Char} (h : c.isDigit = true) : isSolid c = true :=
  isSolid_of_isNamePart (by simp [Text.isNamePart, h])

/-! The beginning of an operator. -/

/-- The word `is` with a blank behind it. -/
def opensIs : List Char → Bool
  | i :: s :: b :: _ => Text.sameLetter i 'i' && isLetterS s && Text.isBlank b
  | _ => false

/-- Does the text begin with an operator? -/
def opensOperator : List Char → Bool
  | [] => false
  | c :: cs => c == '<' || c == '>' || c == '=' || (c == '!' && cs.head? == some '=') ||
      (Text.isBlank c && opensIs (cs.dropWhile Text.isBlank))

theorem blanksAndRest?_isSome (cs : List Char) :
    (blanksAndRest? cs).isSome = cs.head?.any Text.isBlank := by
  cases cs with
  | nil => rfl
  | cons c cs => cases h : Text.isBlank c <;> simp [blanksAndRest?, h]

theorem isAndRest?_isSome (cs : List Char) : (isAndRest? cs).isSome = opensIs cs := by
  match cs with
  | [] => rfl
  | [_] => rfl
  | i :: s :: rest =>
    have blanks := blanksAndRest?_isSome rest
    rw [isAndRest?]
    cases hword : Text.sameLetter i 'i' && isLetterS s with
    | false => cases rest <;> simp [opensIs, hword]
    | true =>
      rw [if_pos rfl, Option.isSome_map, blanks]
      cases rest <;> simp [opensIs, hword]

theorem operatorAndRest?_isSome (cs : List Char) :
    (operatorAndRest? cs).isSome = opensOperator cs := by
  unfold operatorAndRest?
  split
  all_goals try rfl
  rename_i noAtMost noAtLeast noOther noNot noEqual noLess noGreater
  cases cs with
  | nil => rfl
  | cons c cs =>
    have hless : c ≠ '<' := fun h => noLess cs (h ▸ rfl)
    have hgreater : c ≠ '>' := fun h => noGreater cs (h ▸ rfl)
    have hequal : c ≠ '=' := fun h => noEqual cs (h ▸ rfl)
    have hnot : c = '!' → cs.head? ≠ some '=' := by
      rintro rfl hhead
      obtain ⟨rest, rfl⟩ := List.head?_eq_some_iff.mp hhead
      exact noNot rest rfl
    cases hblank : Text.isBlank c with
    | false => simpa [opensOperator, hless, hgreater, hequal, hblank, blanksAndRest?] using hnot
    | true =>
      have word := isAndRest?_isSome (cs.dropWhile Text.isBlank)
      simpa [opensOperator, hless, hgreater, hequal, hblank, blanksAndRest?, word] using
        fun hc hhead => absurd hhead (hnot hc)

/-! An operator holds no quote. -/

/-- Everything but the quote. -/
def isUnquote (c : Char) : Bool := c != '\''

theorem isUnquote_of_isBlank {c : Char} (h : Text.isBlank c = true) : isUnquote c = true := by
  have other : c ≠ '\'' := by
    rintro rfl
    revert h
    decide
  simpa [isUnquote] using other

theorem dropWhile_takeWhile_unquote (cs : List Char) :
    (cs.takeWhile isUnquote).dropWhile Text.isBlank =
      (cs.dropWhile Text.isBlank).takeWhile isUnquote := by
  induction cs with
  | nil => rfl
  | cons c cs ih =>
    cases hblank : Text.isBlank c with
    | true => simp [isUnquote_of_isBlank hblank, hblank, ih]
    | false => cases hquote : isUnquote c <;> simp [hblank, hquote]

theorem eq_quote {c : Char} (h : isUnquote c = false) : c = '\'' := by simpa [isUnquote] using h

theorem opensIs_takeWhile (cs : List Char) : opensIs (cs.takeWhile isUnquote) = opensIs cs := by
  match cs with
  | [] => rfl
  | [i] => cases hi : isUnquote i <;> simp [hi, opensIs]
  | [i, s] => cases hi : isUnquote i <;> cases hs : isUnquote s <;> simp [hi, hs, opensIs]
  | i :: s :: b :: rest =>
    -- A quote among the three is none of the letters and no blank.
    cases hi : isUnquote i with
    | false =>
      obtain rfl := eq_quote hi
      rfl
    | true =>
      cases hs : isUnquote s with
      | false =>
        obtain rfl := eq_quote hs
        simp [hi, hs, opensIs, show isLetterS '\'' = false by decide]
      | true =>
        cases hb : isUnquote b with
        | false =>
          obtain rfl := eq_quote hb
          simp [hi, hs, hb, opensIs, show Text.isBlank '\'' = false by decide]
        | true => simp [hi, hs, hb, opensIs]

theorem opensOperator_takeWhile (cs : List Char) :
    opensOperator (cs.takeWhile isUnquote) = opensOperator cs := by
  cases cs with
  | nil => rfl
  | cons c cs =>
    by_cases hquote : c = '\''
    · subst hquote
      rfl
    · have hunquote : isUnquote c = true := by simpa [isUnquote] using hquote
      have hhead : ((cs.takeWhile isUnquote).head? == some '=') = (cs.head? == some '=') := by
        cases cs with
        | nil => rfl
        | cons d rest =>
          cases hd : isUnquote d with
          | true => simp [hd]
          | false =>
            obtain rfl := eq_quote hd
            rfl
      rw [List.takeWhile_cons_of_pos hunquote, opensOperator, opensOperator, hhead,
        dropWhile_takeWhile_unquote, opensIs_takeWhile]

/-! Texts in which no operator begins. -/

/-- In `left ++ rest` no operator begins before `rest`. -/
def Unopened : List Char → List Char → Prop
  | [], _ => True
  | c :: cs, rest => opensOperator (c :: (cs ++ rest)) = false ∧ Unopened cs rest

theorem aroundOperator?_append {left rest : List Char} (h : Unopened left rest) :
    aroundOperator? (left ++ rest) =
      (aroundOperator? rest).map fun (before, parts) => (left ++ before, parts) := by
  induction left with
  | nil => simp
  | cons c cs ih =>
    have hnone : operatorAndRest? (c :: (cs ++ rest)) = none := by
      have := operatorAndRest?_isSome (c :: (cs ++ rest))
      rwa [h.1, Option.isSome_eq_false_iff, Option.isNone_iff_eq_none] at this
    rw [List.cons_append, aroundOperator?, hnone, ih h.2]
    cases aroundOperator? rest <;> rfl

/-- Before the first operator none begins. -/
theorem unopened_of_aroundOperator? {cs left operator right : List Char}
    (h : aroundOperator? cs = some (left, operator, right)) :
    ∃ rest, cs = left ++ rest ∧ Unopened left rest := by
  induction cs generalizing left with
  | nil => cases h
  | cons c cs ih =>
    have opens := operatorAndRest?_isSome (c :: cs)
    rw [aroundOperator?] at h
    cases hfound : operatorAndRest? (c :: cs) with
    | some found =>
      rw [hfound] at h
      cases h
      exact ⟨c :: cs, rfl, trivial⟩
    | none =>
      rw [hfound] at h opens
      obtain ⟨⟨before, parts⟩, hbefore, same⟩ := Option.map_eq_some_iff.mp h
      cases same
      obtain ⟨rest, rfl, unopened⟩ := ih hbefore
      exact ⟨rest, rfl, opens.symm, unopened⟩

namespace Unopened
variable {left middle rest : List Char}

theorem append_iff :
    Unopened (left ++ middle) rest ↔ Unopened left (middle ++ rest) ∧ Unopened middle rest := by
  induction left with
  | nil => simp [Unopened]
  | cons c cs ih => simp [Unopened, ih, and_assoc]

/-- What follows a quote does not matter. -/
theorem past_quote {other : List Char} (h : Unopened left ('\'' :: rest)) :
    Unopened left ('\'' :: other) := by
  induction left with
  | nil => trivial
  | cons c cs ih =>
    have same : (c :: (cs ++ '\'' :: other)).takeWhile isUnquote =
        (c :: (cs ++ '\'' :: rest)).takeWhile isUnquote := by
      simp [List.takeWhile_cons, List.takeWhile_append, isUnquote]
    refine ⟨?_, ih h.2⟩
    rw [← opensOperator_takeWhile, same, opensOperator_takeWhile, h.1]

/-- Two texts that are the same up to the next quote, which both have. -/
theorem opens_congr {c : Char} {cs ds : List Char}
    (same : cs.takeWhile isUnquote = ds.takeWhile isUnquote)
    (h : opensOperator (c :: cs) = false) : opensOperator (c :: ds) = false := by
  have whole : (c :: ds).takeWhile isUnquote = (c :: cs).takeWhile isUnquote := by
    rw [List.takeWhile_cons, List.takeWhile_cons, same]
  rw [← opensOperator_takeWhile, whole, opensOperator_takeWhile, h]

theorem takeWhile_doubleQuotes (cs rest : List Char) :
    (cs ++ '\'' :: rest).takeWhile isUnquote =
      (Text.doubleQuotes cs ++ '\'' :: rest).takeWhile isUnquote := by
  induction cs with
  | nil => rfl
  | cons c cs ih =>
    rw [Text.doubleQuotes]
    by_cases hquote : c = '\''
    · simp [hquote, isUnquote]
    · simp only [if_neg hquote, List.cons_append, List.takeWhile_cons, ih]

theorem doubleQuotes (h : Unopened left ('\'' :: rest)) :
    Unopened (Text.doubleQuotes left) ('\'' :: rest) := by
  induction left with
  | nil => trivial
  | cons c cs ih =>
    rw [Text.doubleQuotes]
    by_cases hquote : c = '\''
    · rw [if_pos hquote]
      exact ⟨rfl, rfl, ih h.2⟩
    · rw [if_neg hquote]
      exact ⟨opens_congr (takeWhile_doubleQuotes cs rest) h.1, ih h.2⟩

theorem takeWhile_undoubleQuotes (cs rest : List Char) :
    (cs ++ '\'' :: rest).takeWhile isUnquote =
      (Text.undoubleQuotes cs ++ '\'' :: rest).takeWhile isUnquote := by
  fun_induction Text.undoubleQuotes cs with
  | case1 cs ih => simp [isUnquote]
  | case2 c cs _ ih => simp only [List.cons_append, List.takeWhile_cons, ih]
  | case3 => rfl

theorem undoubleQuotes (h : Unopened left ('\'' :: rest)) :
    Unopened (Text.undoubleQuotes left) ('\'' :: rest) := by
  fun_induction Text.undoubleQuotes left with
  | case1 cs ih => exact ⟨rfl, ih h.2.2⟩
  | case2 c cs _ ih => exact ⟨opens_congr (takeWhile_undoubleQuotes cs rest) h.1, ih h.2⟩
  | case3 => trivial

/-- No operator begins in a text of solid characters with a blank behind it. -/
theorem of_solid (h : ∀ c ∈ left, isSolid c = true) : Unopened left (' ' :: rest) := by
  induction left with
  | nil => trivial
  | cons c cs ih =>
    obtain ⟨solid, others⟩ := List.forall_mem_cons.mp h
    have hhead : ((cs ++ ' ' :: rest).head? == some '=') = false := by
      cases cs with
      | nil => rfl
      | cons d ds =>
        have : d ≠ '=' := (isSolid_iff.mp (others d List.mem_cons_self)).2.2.2
        simpa using this
    obtain ⟨blank, less, greater, equal⟩ := isSolid_iff.mp solid
    refine ⟨?_, ih others⟩
    rw [opensOperator, hhead, blank]
    simp [less, greater, equal]

end Unopened
end EntityQuery
