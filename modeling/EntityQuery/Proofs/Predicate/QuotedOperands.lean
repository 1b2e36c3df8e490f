import EntityQuery.Proofs.Predicate.Reading

/-!
# Quotes around the operands of a comparison

A text is divided at its first operator, whether that stands between quotes or not. In a
comparison of a path with a text literal on its right the first operator is the one that was
written, as a path holds none. A literal on the left comes before it, so the comparison is read
as it was written exactly if the literal holds no operator. If it holds one, the closing quote
stands on the right of what is found, before a path, and no such text is a side of a comparison.
-/

namespace EntityQuery

/-- Characters that a test tells apart. -/
theorem ne_of_test {p : Char → Bool} {c d : Char} (hc : p c = true) (hd : p d = false) :
    c ≠ d :=
  ne_of_apply_ne p (by simp [hc, hd])

/-! Texts that hold an operator. -/

/-- A sign of comparison stands in the text, or the word `is` between blanks. -/
def HoldsOperator (cs : List Char) : Prop :=
  (∃ c ∈ cs, c = '<' ∨ c = '>' ∨ c = '=') ∨
    ∃ before b i s d after, cs = before ++ b :: i :: s :: d :: after ∧ Text.isBlank b = true ∧
      Text.sameLetter i 'i' = true ∧ isLetterS s = true ∧ Text.isBlank d = true

theorem HoldsOperator.cons {cs : List Char} (h : HoldsOperator cs) (c : Char) :
    HoldsOperator (c :: cs) := by
  rcases h with ⟨d, hd, sign⟩ | ⟨before, b, i, s, d, after, rfl, word⟩
  · exact Or.inl ⟨d, List.mem_cons_of_mem c hd, sign⟩
  · exact Or.inr ⟨c :: before, b, i, s, d, after, rfl, word⟩

theorem opensIs_iff {cs : List Char} :
    opensIs cs = true ↔ ∃ i s d after, cs = i :: s :: d :: after ∧
      Text.sameLetter i 'i' = true ∧ isLetterS s = true ∧ Text.isBlank d = true := by
  match cs with
  | [] => simp [opensIs]
  | [_] => simp [opensIs]
  | [_, _] => simp [opensIs]
  | i :: s :: d :: after => simp [opensIs, and_assoc]

/-- Of the blanks before the word only the last one counts. -/
theorem holdsOperator_of_opensIs {c : Char} {cs : List Char} (blank : Text.isBlank c = true)
    (h : opensIs (cs.dropWhile Text.isBlank) = true) : HoldsOperator (c :: cs) := by
  induction cs generalizing c with
  | nil => cases h
  | cons d cs ih =>
    cases hd : Text.isBlank d with
    | true => exact (ih hd (by simpa [hd] using h)).cons c
    | false =>
      obtain ⟨i, s, e, after, same, word⟩ := opensIs_iff.mp (by simpa [hd] using h)
      exact Or.inr ⟨[], c, i, s, e, after, by rw [same]; rfl, blank, word⟩

theorem opensOperator_iff {c : Char} {cs : List Char} :
    opensOperator (c :: cs) = true ↔ (c = '<' ∨ c = '>' ∨ c = '=') ∨
      c = '!' ∧ cs.head? = some '=' ∨
        Text.isBlank c = true ∧ opensIs (cs.dropWhile Text.isBlank) = true := by
  simp [opensOperator, or_assoc]

theorem isBlank_of_sameLetter {i : Char} (h : Text.sameLetter i 'i' = true) :
    Text.isBlank i = false := by
  have small : [i].map Char.toLower = ['i'] := by simpa [Text.sameLetter] using h
  have letter := numeral_of_word small (by decide) i (by simp)
  exact (isSolid_iff.mp (isSolid_of_isNumeral letter)).1

theorem holdsOperator_cons_iff {c : Char} {cs : List Char} :
    HoldsOperator (c :: cs) ↔ opensOperator (c :: cs) = true ∨ HoldsOperator cs := by
  rw [opensOperator_iff]
  constructor
  · rintro (⟨d, hd, sign⟩ | ⟨before, b, i, s, d, after, same, blank, word⟩)
    · rcases List.mem_cons.mp hd with rfl | hd
      · exact Or.inl (Or.inl sign)
      · exact Or.inr (Or.inl ⟨d, hd, sign⟩)
    · cases before with
      | nil =>
        obtain ⟨rfl, rfl⟩ := List.cons.inj same
        refine Or.inl (Or.inr (Or.inr ⟨blank, ?_⟩))
        rw [List.dropWhile_cons_of_neg (by simp [isBlank_of_sameLetter word.1])]
        exact opensIs_iff.mpr ⟨i, s, d, after, rfl, word⟩
      | cons e before =>
        obtain ⟨-, rfl⟩ := List.cons.inj same
        exact Or.inr (Or.inr ⟨before, b, i, s, d, after, rfl, blank, word⟩)
  · rintro ((sign | ⟨-, equal⟩ | ⟨blank, word⟩) | inside)
    · exact Or.inl ⟨c, by simp, sign⟩
    · obtain ⟨rest, rfl⟩ := List.head?_eq_some_iff.mp equal
      exact Or.inl ⟨'=', by simp, Or.inr (Or.inr rfl)⟩
    · exact holdsOperator_of_opensIs blank word
    · exact inside.cons c

theorem takeWhile_quote (cs rest : List Char) :
    (cs ++ '\'' :: rest).takeWhile isUnquote = cs.takeWhile isUnquote := by
  induction cs with
  | nil => rfl
  | cons c cs ih => simp only [List.cons_append, List.takeWhile_cons, ih]

/-- In front of a quote no operator begins in a text exactly if it holds none. -/
theorem unopened_quote_iff {cs rest : List Char} :
    Unopened cs ('\'' :: rest) ↔ ¬ HoldsOperator cs := by
  induction cs with
  | nil =>
    have empty : ¬ HoldsOperator [] := by
      rintro (⟨c, hc, -⟩ | ⟨before, b, i, s, d, after, same, -⟩)
      · cases hc
      · simp at same
    simp [Unopened, empty]
  | cons c cs ih =>
    have here : opensOperator (c :: (cs ++ '\'' :: rest)) = opensOperator (c :: cs) := by
      rw [← opensOperator_takeWhile, ← List.cons_append, takeWhile_quote,
        opensOperator_takeWhile]
    rw [Unopened, ih, holdsOperator_cons_iff, here]
    simp

/-! What is found of a comparison that was written. -/

/-- No operator begins in a text without signs and blanks, whatever follows it. -/
theorem unopened_of_plain {left : List Char} (h : ∀ c ∈ left, isSolid c = true ∧ c ≠ '!')
    (rest : List Char) : Unopened left rest := by
  induction left with
  | nil => trivial
  | cons c cs ih =>
    obtain ⟨⟨solid, not⟩, others⟩ := List.forall_mem_cons.mp h
    obtain ⟨blank, less, greater, equal⟩ := isSolid_iff.mp solid
    refine ⟨?_, ih others⟩
    rw [← Bool.not_eq_true, opensOperator_iff]
    simp [less, greater, equal, not, blank]

/-- Blanks begin no operator in front of anything but the word. -/
theorem unopened_blanks {gap rest : List Char} (blank : ∀ c ∈ gap, Text.isBlank c = true)
    (word : opensIs (rest.dropWhile Text.isBlank) = false) : Unopened gap rest := by
  induction gap with
  | nil => trivial
  | cons c cs ih =>
    obtain ⟨hc, others⟩ := List.forall_mem_cons.mp blank
    refine ⟨?_, ih others⟩
    rw [← Bool.not_eq_true, opensOperator_iff, List.dropWhile_append_of_pos others, word]
    simp [ne_of_test hc (d := '<') rfl, ne_of_test hc (d := '>') rfl,
      ne_of_test hc (d := '=') rfl, ne_of_test hc (d := '!') rfl]

/-- A sign of comparison is read whole, if no other sign follows it. -/
theorem operatorAndRest?_sign {c : Comparison} (sign : c.withNull = false) {rest : List Char}
    (apart : rest.head? ≠ some '=' ∧ rest.head? ≠ some '>') :
    operatorAndRest? (c.text.toList ++ rest) = some (c.text.toList, rest) := by
  cases c with
  | is => cases sign
  | isNot => cases sign
  | less =>
    show operatorAndRest? ('<' :: rest) = some (['<'], rest)
    unfold operatorAndRest?
    split <;> simp_all
  | greater =>
    show operatorAndRest? ('>' :: rest) = some (['>'], rest)
    unfold operatorAndRest?
    split <;> simp_all
  | _ => rfl

theorem opensIs_dropWhile_cons {d : Char} (blank : Text.isBlank d = false)
    (other : Text.sameLetter d 'i' = false) (rest : List Char) :
    opensIs ((d :: rest).dropWhile Text.isBlank) = false := by
  rw [List.dropWhile_cons_of_neg (by simp [blank]), ← Bool.not_eq_true, opensIs_iff]
  rintro ⟨i, s, e, after, same, letter, -⟩
  obtain ⟨rfl, -⟩ := List.cons.inj same
  rw [other] at letter
  cases letter

theorem opensIs_sign {c : Comparison} (sign : c.withNull = false) (rest : List Char) :
    opensIs ((c.text.toList ++ rest).dropWhile Text.isBlank) = false := by
  cases c with
  | is => cases sign
  | isNot => cases sign
  | _ => exact opensIs_dropWhile_cons (by decide) (by decide) _

theorem aroundOperator?_of_operator {c : Comparison} {rest : List Char}
    (h : operatorAndRest? (c.text.toList ++ rest) = some (c.text.toList, rest)) :
    aroundOperator? (c.text.toList ++ rest) = some ([], c.text.toList, rest) := by
  obtain ⟨d, ds, text⟩ : ∃ d ds, c.text.toList = d :: ds := by cases c <;> exact ⟨_, _, rfl⟩
  rw [text, List.cons_append] at h ⊢
  rw [aroundOperator?, h]

/-- The operator is found where it was written, behind a left side in which none begins. -/
theorem aroundOperator?_written {c : Comparison} (sign : c.withNull = false)
    {left before rest : List Char} (blank : ∀ b ∈ before, Text.isBlank b = true)
    (unopened : Unopened left (before ++ (c.text.toList ++ rest)))
    (apart : rest.head? ≠ some '=' ∧ rest.head? ≠ some '>') :
    aroundOperator? (left ++ (before ++ (c.text.toList ++ rest))) =
      some (left ++ before, c.text.toList, rest) := by
  have gap : Unopened before (c.text.toList ++ rest) :=
    unopened_blanks blank (opensIs_sign sign rest)
  rw [aroundOperator?_append unopened, aroundOperator?_append gap,
    aroundOperator?_of_operator (operatorAndRest?_sign sign apart)]
  simp

namespace Text

theorem trim_framed_append {cs gap : List Char} (h : Framed cs)
    (blank : ∀ b ∈ gap, isBlank b = true) : trim (cs ++ gap) = cs := by
  have finish : trimEnd (cs ++ gap) = trimEnd cs := by
    have reversed : ∀ b ∈ gap.reverse, isBlank b = true := by simpa using blank
    rw [trimEnd, List.reverse_append, List.dropWhile_append_of_pos reversed, trimEnd]
  rw [trim, trimStart_append h, finish]
  exact trimEnd_append h []

theorem trim_blanks_append {gap : List Char} (blank : ∀ b ∈ gap, isBlank b = true)
    (cs : List Char) : trim (gap ++ cs) = trim cs := by
  rw [trim, trimStart, List.dropWhile_append_of_pos blank, ← trimStart, trim]

theorem trim_append_framed {cs gap : List Char} (h : Framed cs)
    (blank : ∀ b ∈ gap, isBlank b = true) : trim (gap ++ cs) = cs := by
  rw [trim_blanks_append blank, trim_framed h]

/-- Blanks are trimmed off the beginning only. -/
theorem trim_append_ends {cs : List Char} (h : Framed cs) (gap : List Char) :
    trim (gap ++ cs) = trimStart gap ++ cs := by
  have start : trimStart (gap ++ cs) = trimStart gap ++ cs := by
    have first := trimStart_append h []
    rw [List.append_nil] at first
    rw [trimStart, List.dropWhile_append]
    split
    · rename_i empty
      rw [← trimStart, first, trimStart, List.isEmpty_iff.mp empty, List.nil_append]
    · rfl
  rw [trim, start]
  exact trimEnd_append h _

theorem quote_mem_trimStart {cs : List Char} (quote : '\'' ∈ cs) : '\'' ∈ trimStart cs := by
  rw [← List.takeWhile_append_dropWhile (p := isBlank) (l := cs)] at quote
  refine (List.mem_append.mp quote).resolve_left fun inside => ?_
  have blank := List.mem_takeWhile_imp inside
  revert blank
  decide

end Text

namespace Predicate

/-- A comparison of two sides around a sign and blanks, as it was written. -/
theorem parse_written {c : Comparison} (sign : c.withNull = false) {left right : String}
    {before after : String} (blank : ∀ b ∈ before.toList ++ after.toList, Text.isBlank b = true)
    (framed : Text.Framed left.toList ∧ Text.Framed right.toList)
    (apart : right.toList.head? ≠ some '=' ∧ right.toList.head? ≠ some '>')
    (unopened : Unopened left.toList
      (before.toList ++ (c.text.toList ++ (after.toList ++ right.toList))))
    {l r : Expression} (hl : operand left = .ok l) (hr : operand right = .ok r) :
    parse (left ++ before ++ c.text ++ after ++ right) = compare l c r := by
  obtain ⟨hbefore, hafter⟩ := List.forall_mem_append.mp blank
  have other : (after.toList ++ right.toList).head? ≠ some '=' ∧
      (after.toList ++ right.toList).head? ≠ some '>' := by
    cases hcs : after.toList with
    | nil => exact apart
    | cons b bs =>
      have hb : Text.isBlank b = true := hafter b (by simp [hcs])
      have equal : b ≠ '=' := ne_of_test hb (by decide)
      have greater : b ≠ '>' := ne_of_test hb (by decide)
      simp [equal, greater]
  have whole : (left ++ before ++ c.text ++ after ++ right).toList =
      left.toList ++ (before.toList ++ (c.text.toList ++ (after.toList ++ right.toList))) := by
    simp
  have ends : Text.trim (left ++ before ++ c.text ++ after ++ right).toList =
      (left ++ before ++ c.text ++ after ++ right).toList := by
    have trimmed := Text.trim_append framed.1 framed.2
      (before.toList ++ (c.text.toList ++ after.toList))
    simpa [whole] using trimmed
  have found := aroundOperator?_written sign hbefore unopened other
  have same : ofOperator l c.text r = compare l c r := by
    rw [ofOperator, Comparison.ofText_text]
    rfl
  have full : left ≠ "" ∧ right ≠ "" := ⟨framed.1.ne_empty, framed.2.ne_empty⟩
  have operation : Text.trim c.text.toList = c.text.toList := by cases c <;> decide
  rw [parse_of_found (by rw [ends, whole, found]) (Text.trim_framed_append framed.1 hbefore)
    operation (Text.trim_append_framed framed.2 hafter) full hl hr, same]

/-- With a sign, anything but NULL may stand on the right. -/
theorem compare_sign_iff {c : Comparison} (sign : c.withNull = false) {left right : Expression}
    {p : Predicate} :
    compare left c right = .ok p ↔ right.isNullLiteral = false ∧ p = ⟨left, c, right⟩ := by
  rw [compare, sign]
  cases right.isNullLiteral <;> simp [eq_comm]

end Predicate

/-! Paths as sides of a comparison. -/

/-- A path holds nothing but dots and the characters of names. -/
theorem not_mem_of_checkPath {t : String} (h : Text.checkPath t = .ok ()) {d : Char}
    (dot : d ≠ '.') (part : Text.isNamePart d = false) : d ∉ t.toList := by
  intro inside
  rcases Text.mem_of_checkPath h d inside with same | name
  · exact dot same
  · rw [part] at name
    cases name

theorem not_quote_of_checkPath {t : String} (h : Text.checkPath t = .ok ()) :
    '\'' ∉ t.toList :=
  not_mem_of_checkPath h (by decide) (by decide)

theorem plain_of_checkPath {t : String} (h : Text.checkPath t = .ok ()) :
    ∀ c ∈ t.toList, isSolid c = true ∧ c ≠ '!' := by
  intro c hc
  refine ⟨solid_of_checkPath h c hc, ?_⟩
  rintro rfl
  exact not_mem_of_checkPath h (by decide) (by decide) hc

theorem framed_of_checkPath {t : String} (h : Text.checkPath t = .ok ()) :
    Text.Framed t.toList := by
  refine Text.Framed.of_solid ?_ (solid_of_checkPath h)
  simpa using Text.ne_empty_of_checkPath h

theorem exists_nameStart_of_isIdentifier {s : String} (h : Text.isIdentifier s = true) :
    ∃ c cs, s.toList = c :: cs ∧ Text.isNameStart c = true := by
  rw [Text.isIdentifier] at h
  split at h
  · cases h
  · rename_i c cs hs
    exact ⟨c, cs, hs, (Bool.and_eq_true_iff.mp h).1⟩

/-- A path begins with its first segment. -/
theorem exists_nameStart_of_checkPath {t : String} (h : Text.checkPath t = .ok ()) :
    ∃ c cs, t.toList = c :: cs ∧ Text.isNameStart c = true := by
  obtain ⟨⟨head, rest⟩, split⟩ : ∃ parts, Text.headAndRest t = parts := ⟨_, rfl⟩
  cases rest with
  | none =>
    obtain ⟨rfl, name⟩ := Text.path_without_rest_iff.mp ⟨h, split⟩
    exact exists_nameStart_of_isIdentifier name
  | some rest =>
    obtain ⟨rfl, name, -⟩ := Text.path_with_rest_iff.mp ⟨h, split⟩
    obtain ⟨c, cs, hs, start⟩ := exists_nameStart_of_isIdentifier name
    exact ⟨c, cs ++ '.' :: rest.toList, by simp [hs], start⟩

theorem ne_digit_of_isNameStart {c : Char} (h : Text.isNameStart c = true) :
    c.isDigit = false := by
  rw [← Bool.not_eq_true]
  intro digit
  obtain ⟨low, high⟩ := toNat_of_isDigit digit
  rw [Text.isNameStart, Bool.or_eq_true, Bool.or_eq_true, isLetter_iff, beq_iff_eq,
    beq_iff_eq] at h
  rcases h with (letter | rfl) | rfl
  · omega
  · exact absurd high (by decide)
  · exact absurd low (by decide)

/-- A path that is none of the keywords is read as a path. -/
theorem operand_path {t : String} (path : Text.checkPath t = .ok ())
    (keyword : ∀ w ∈ ["NULL", "TRUE", "FALSE"], Text.sameLetters t w = false) :
    operand t = .ok (.ofPathText t) := by
  obtain ⟨c, cs, hs, start⟩ := exists_nameStart_of_checkPath path
  have unquoted : Text.betweenQuotes? (c :: cs) = none := by
    unfold Text.betweenQuotes?
    split
    · rename_i same
      exact absurd (List.cons.inj same).1 (ne_of_test start (by decide))
    · rfl
  have number : numberLiteral? t = none := by
    simp [numberLiteral?, hs, ne_digit_of_isNameStart start, ne_of_test start (d := '+') rfl,
      ne_of_test start (d := '-') rfl]
  rw [operand, keyword "NULL" (by simp), keyword "TRUE" (by simp), keyword "FALSE" (by simp)]
  simp only [hs, Bool.false_eq_true, if_false]
  split
  · rename_i same
    exact absurd (List.cons.inj same).1 (ne_of_test start (by decide))
  · rw [unquoted, number]
    exact Outcome.bind_ok_iff.mpr ⟨(), path, rfl⟩

/-! What holds a quote is read as a text between quotes, or not at all. -/

theorem not_quote_of_numeral {cs : List Char} (h : ∀ c ∈ cs, isNumeral c = true) : '\'' ∉ cs := by
  intro quote
  have numeral := h _ quote
  revert numeral
  decide

theorem not_quote_of_sameLetters {s w : String} (h : Text.sameLetters s w = true)
    (letters : (Text.lower w).toList.all Char.isAlpha = true) : '\'' ∉ s.toList := by
  have same : Text.lower s = Text.lower w := by simpa [Text.sameLetters] using h
  refine not_quote_of_numeral (numeral_of_word ?_ letters)
  rw [← same, Text.lower, String.toList_ofList]

theorem not_quote_of_numberLiteral? {s : String} {l : Literal} (h : numberLiteral? s = some l) :
    '\'' ∉ s.toList := by
  rw [numberLiteral?] at h
  split at h
  · split at h
    · split at h
      · rename_i found
        exact not_quote_of_numeral (numeral_of_wholeNumber? (by rw [found]; rfl))
      · split at h
        · rename_i number
          exact not_quote_of_numeral (numeral_of_ofText? number)
        · cases h
    · cases h
  · cases h

theorem quoted_of_operand {s : String} {e : Expression} (h : operand s = .ok e)
    (quote : '\'' ∈ s.toList) : ∃ inner, s.toList = '\'' :: (inner ++ ['\'']) := by
  rw [operand] at h
  split at h
  · rename_i null
    exact absurd quote (not_quote_of_sameLetters null (by decide))
  split at h
  · rename_i truth
    exact absurd quote (not_quote_of_sameLetters truth (by decide))
  split at h
  · rename_i falsity
    exact absurd quote (not_quote_of_sameLetters falsity (by decide))
  split at h
  · rename_i name hs
    obtain ⟨_, path, -⟩ := Outcome.bind_ok_iff.mp h
    rw [hs] at quote
    have inside : '\'' ∈ (String.ofList name).toList := by simpa using quote
    exact absurd inside (not_quote_of_checkPath path)
  split at h
  · rename_i inner hinner
    exact ⟨inner, Text.eq_of_betweenQuotes? hinner⟩
  split at h
  · rename_i number
    exact absurd quote (not_quote_of_numberLiteral? number)
  · obtain ⟨_, path, -⟩ := Outcome.bind_ok_iff.mp h
    exact absurd quote (not_quote_of_checkPath path)

/-! An operator takes no quote. -/

section Split
variable {cs operator rest : List Char}

theorem split_of_blanksAndRest? (h : blanksAndRest? cs = some (operator, rest)) :
    ∃ gap, cs = gap ++ rest ∧ '\'' ∉ gap := by
  rw [blanksAndRest?] at h
  split at h
  · cases h
  · cases h
    refine ⟨cs.takeWhile Text.isBlank, List.takeWhile_append_dropWhile.symm, fun quote => ?_⟩
    have blank := List.mem_takeWhile_imp quote
    revert blank
    decide

theorem split_of_notAndRest? (h : notAndRest? cs = some (operator, rest)) :
    ∃ gap, cs = gap ++ rest ∧ '\'' ∉ gap := by
  unfold notAndRest? at h
  split at h
  · rename_i n o t cs
    split at h
    · rename_i word
      obtain ⟨⟨blanks, behind⟩, found, same⟩ := Option.map_eq_some_iff.mp h
      cases same
      obtain ⟨gap, rfl, unquoted⟩ := split_of_blanksAndRest? found
      have letters : n ≠ '\'' ∧ o ≠ '\'' ∧ t ≠ '\'' := by
        refine ⟨?_, ?_, ?_⟩ <;> rintro rfl <;> simp_all +decide
      refine ⟨n :: o :: t :: gap, rfl, ?_⟩
      simpa [letters.1.symm, letters.2.1.symm, letters.2.2.symm] using unquoted
    · cases h
  · cases h

theorem split_of_isAndRest? (h : isAndRest? cs = some (operator, rest)) :
    ∃ gap, cs = gap ++ rest ∧ '\'' ∉ gap := by
  unfold isAndRest? at h
  split at h
  · rename_i i s cs
    split at h
    · rename_i word
      obtain ⟨⟨blanks, behind⟩, found, same⟩ := Option.map_eq_some_iff.mp h
      obtain ⟨gap, rfl, unquoted⟩ := split_of_blanksAndRest? found
      have letters : i ≠ '\'' ∧ s ≠ '\'' := by
        refine ⟨?_, ?_⟩ <;> rintro rfl <;> simp_all +decide
      dsimp only at same
      split at same
      · rename_i negation
        cases same
        obtain ⟨more, rfl, others⟩ := split_of_notAndRest? negation
        refine ⟨i :: s :: (gap ++ more), by simp, ?_⟩
        simp [letters.1.symm, letters.2.symm, unquoted, others]
      · cases same
        refine ⟨i :: s :: gap, rfl, ?_⟩
        simp [letters.1.symm, letters.2.symm, unquoted]
    · cases h
  · cases h

theorem split_of_operatorAndRest? (h : operatorAndRest? cs = some (operator, rest)) :
    ∃ gap, cs = gap ++ rest ∧ '\'' ∉ gap := by
  unfold operatorAndRest? at h
  split at h
  case h_8 =>
    obtain ⟨⟨blanks, behind⟩, found, word⟩ := Option.bind_eq_some_iff.mp h
    obtain ⟨gap, same, unquoted⟩ := split_of_blanksAndRest? found
    obtain ⟨more, rfl, others⟩ := split_of_isAndRest? word
    exact ⟨gap ++ more, by simp [same], by simp [unquoted, others]⟩
  all_goals
    obtain ⟨written, rfl⟩ := Prod.mk.inj (Option.some.inj h)
    exact ⟨operator, by rw [← written]; rfl, by rw [← written]; decide⟩

end Split

/-- What is found on the right ends the text. -/
theorem suffix_of_aroundOperator? {cs left operator right : List Char}
    (h : aroundOperator? cs = some (left, operator, right)) : right <:+ cs := by
  induction cs generalizing left with
  | nil => cases h
  | cons c cs ih =>
    rw [aroundOperator?] at h
    split at h
    · rename_i found
      cases h
      obtain ⟨gap, same, -⟩ := split_of_operatorAndRest? found
      exact ⟨gap, same.symm⟩
    · obtain ⟨⟨before, parts⟩, found, same⟩ := Option.map_eq_some_iff.mp h
      cases same
      exact (ih found).trans (List.suffix_cons c cs)

/-- Where an operator begins before a quote, the quote is on the right of what is found. -/
theorem quote_mem_of_aroundOperator? {cs tail left operator right : List Char}
    (opened : ¬ Unopened cs ('\'' :: tail))
    (h : aroundOperator? (cs ++ '\'' :: tail) = some (left, operator, right)) :
    '\'' ∈ right := by
  induction cs generalizing left with
  | nil => exact absurd trivial opened
  | cons c cs ih =>
    rw [List.cons_append, aroundOperator?] at h
    have opens := operatorAndRest?_isSome (c :: (cs ++ '\'' :: tail))
    cases hfound : operatorAndRest? (c :: (cs ++ '\'' :: tail)) with
    | some found =>
      rw [hfound] at h
      cases h
      obtain ⟨gap, same, unquoted⟩ := split_of_operatorAndRest? hfound
      refine (List.mem_append.mp ?_).resolve_left unquoted
      rw [← same]
      simp
    | none =>
      rw [hfound] at h opens
      obtain ⟨⟨before, parts⟩, hbefore, same⟩ := Option.map_eq_some_iff.mp h
      cases same
      exact ih (fun unopened => opened ⟨opens.symm, unopened⟩) hbefore

namespace Predicate

theorem framed_quoted (s : String) : Text.Framed (Text.quoted s).toList := by
  rw [Text.toList_quoted]
  exact ⟨⟨'\'', _, rfl, by decide⟩, ⟨'\'', '\'' :: _, rfl, by decide⟩⟩

/-- Doubling the quotes brings no operator into a literal. The literal is a text of its own here,
so that nothing computes its characters. -/
theorem unopened_literal {s literal : String} (same : Text.quoted s = literal)
    (quiet : ¬ HoldsOperator s.toList) (rest : List Char) : Unopened literal.toList rest := by
  have inner : Unopened s.toList ('\'' :: rest) := unopened_quote_iff.mpr quiet
  rw [← same, Text.toList_quoted]
  exact ⟨rfl, Unopened.append_iff.mpr ⟨inner.doubleQuotes, rfl, trivial⟩⟩

section Operands
variable {c : Comparison} (sign : c.withNull = false) {t : String}
  (path : Text.checkPath t = .ok ())
  (keyword : ∀ w ∈ ["NULL", "TRUE", "FALSE"], Text.sameLetters t w = false)
  (s : String) {before after : String}
  (blank : ∀ b ∈ before.toList ++ after.toList, Text.isBlank b = true)
include sign path keyword blank

theorem parse_quoted_left (quiet : ¬ HoldsOperator s.toList) :
    parse (Text.quoted s ++ before ++ c.text ++ after ++ t) =
      .ok ⟨.literal (.text s), c, .ofPathText t⟩ := by
  have apart : t.toList.head? ≠ some '=' ∧ t.toList.head? ≠ some '>' := by
    obtain ⟨d, ds, hs, start⟩ := exists_nameStart_of_checkPath path
    have equal : d ≠ '=' := ne_of_test start (by decide)
    have greater : d ≠ '>' := ne_of_test start (by decide)
    simp [hs, equal, greater]
  have framed := framed_quoted s
  have read := operand_quoted s
  generalize same : Text.quoted s = literal at framed read ⊢
  rw [parse_written sign blank ⟨framed, framed_of_checkPath path⟩ apart
    (unopened_literal same quiet _) read (operand_path path keyword)]
  exact (compare_sign_iff sign).mpr ⟨rfl, rfl⟩

theorem parse_quoted_right :
    parse (t ++ before ++ c.text ++ after ++ Text.quoted s) =
      .ok ⟨.ofPathText t, c, .literal (.text s)⟩ := by
  have apart : (Text.quoted s).toList.head? ≠ some '=' ∧
      (Text.quoted s).toList.head? ≠ some '>' := by
    simp [Text.toList_quoted]
  rw [parse_written sign blank ⟨framed_of_checkPath path, framed_quoted s⟩ apart
    (unopened_of_plain (plain_of_checkPath path) _) (operand_path path keyword)
    (operand_quoted s)]
  exact (compare_sign_iff sign).mpr ⟨rfl, rfl⟩

end Operands

/-- A text that ends in a path and has a quote before it is no side of a comparison. -/
theorem operand_ends_in_path {t : String} (path : Text.checkPath t = .ok ()) {right : List Char}
    (suffix : t.toList <:+ right) (quote : '\'' ∈ right) {e : Expression} :
    operand (String.ofList (Text.trim right)) ≠ .ok e := by
  intro h
  have framed := framed_of_checkPath path
  obtain ⟨gap, rfl⟩ := suffix
  have trimmed := Text.trim_append_ends framed gap
  have before : '\'' ∈ gap := (List.mem_append.mp quote).resolve_right (not_quote_of_checkPath path)
  obtain ⟨inner, same⟩ := quoted_of_operand h (by
    rw [String.toList_ofList, trimmed]
    exact List.mem_append_left _ (Text.quote_mem_trimStart before))
  obtain ⟨c, init, hc, -⟩ := framed.last
  rw [String.toList_ofList, trimmed, hc, ← List.append_assoc, ← List.cons_append] at same
  have last : c = '\'' := by simpa using (List.append_inj' same rfl).2
  exact not_quote_of_checkPath path (by simp [hc, last])

/-- With an operator in the literal no comparison is read. -/
theorem parse_opened {s t rest : String} (path : Text.checkPath t = .ok ())
    (opened : HoldsOperator s.toList) (p : Predicate) :
    parse (Text.quoted s ++ rest ++ t) ≠ .ok p := by
  intro h
  have whole : Text.trim (Text.quoted s ++ rest ++ t).toList =
      ('\'' :: Text.doubleQuotes s.toList) ++ '\'' :: (rest.toList ++ t.toList) := by
    have ends := Text.trim_append (framed_quoted s) (framed_of_checkPath path) rest.toList
    rw [String.toList_append, String.toList_append, List.append_assoc, ends, Text.toList_quoted]
    simp
  have inside : ¬ Unopened ('\'' :: Text.doubleQuotes s.toList)
      ('\'' :: (rest.toList ++ t.toList)) := by
    rintro ⟨-, unopened⟩
    have again := unopened.undoubleQuotes
    rw [Text.undoubleQuotes_doubleQuotes] at again
    exact unopened_quote_iff.mp again opened
  rw [parse, whole] at h
  split at h
  · cases h
  rename_i left operator right found
  dsimp only at h
  split at h
  · cases h
  obtain ⟨l, -, h⟩ := Outcome.bind_ok_iff.mp h
  obtain ⟨r, hr, -⟩ := Outcome.bind_ok_iff.mp h
  -- The right side that was found holds the closing quote, and ends in the path.
  have quote := quote_mem_of_aroundOperator? inside found
  have ends : t.toList <:+ ('\'' :: Text.doubleQuotes s.toList) ++
      '\'' :: (rest.toList ++ t.toList) :=
    ⟨('\'' :: Text.doubleQuotes s.toList) ++ '\'' :: rest.toList, by simp⟩
  rcases List.suffix_or_suffix_of_suffix ends (suffix_of_aroundOperator? found) with long | short
  · exact operand_ends_in_path path long quote hr
  · exact not_quote_of_checkPath path (short.subset quote)

/-- Of a text literal and a path around a sign of comparison: with the literal on the right the
comparison is read as it was written, whatever the literal holds. With the literal on the left
it is if the literal holds no operator, and no comparison is read at all if it holds one. -/
theorem quoted_operands {c : Comparison} (sign : c.withNull = false) {t : String}
    (path : Text.checkPath t = .ok ())
    (keyword : ∀ w ∈ ["NULL", "TRUE", "FALSE"], Text.sameLetters t w = false) (s : String)
    {before after : String}
    (blank : ∀ b ∈ before.toList ++ after.toList, Text.isBlank b = true) :
    (∀ p, parse (Text.quoted s ++ before ++ c.text ++ after ++ t) = .ok p ↔
        ¬ HoldsOperator s.toList ∧ p = ⟨.literal (.text s), c, .ofPathText t⟩) ∧
      parse (t ++ before ++ c.text ++ after ++ Text.quoted s) =
        .ok ⟨.ofPathText t, c, .literal (.text s)⟩ := by
  refine ⟨fun p => ?_, parse_quoted_right sign path keyword s blank⟩
  by_cases opened : HoldsOperator s.toList
  · have joined : Text.quoted s ++ before ++ c.text ++ after ++ t =
        Text.quoted s ++ (before ++ c.text ++ after) ++ t := by
      simp [String.append_assoc]
    rw [joined]
    exact iff_of_false (parse_opened path opened p) fun h => h.1 opened
  · rw [parse_quoted_left sign path keyword s blank opened]
    constructor
    · rintro ⟨⟩
      exact ⟨opened, rfl⟩
    · rintro ⟨-, rfl⟩
      rfl

/-- The word inside `this` is no operator, and a quote is written twice. -/
theorem quoted_operands_this :
    (∀ p, parse "'o''this''isn''t' <=  d.name" = .ok p ↔
      ¬ HoldsOperator "o'this'isn't".toList ∧
        p = ⟨.literal (.text "o'this'isn't"), .atMost, .ofPathText "d.name"⟩) ∧
    parse "d.name <=  'o''this''isn''t'" =
      .ok ⟨.ofPathText "d.name", .atMost, .literal (.text "o'this'isn't")⟩ := by
  have left : "'o''this''isn''t' <=  d.name" =
      Text.quoted "o'this'isn't" ++ " " ++ Comparison.atMost.text ++ "  " ++ "d.name" := by
    decide
  have right : "d.name <=  'o''this''isn''t'" =
      "d.name" ++ " " ++ Comparison.atMost.text ++ "  " ++ Text.quoted "o'this'isn't" := by
    decide
  have blank : ∀ b ∈ " ".toList ++ "  ".toList, Text.isBlank b = true :=
    List.all_eq_true.mp (by decide)
  have path : Text.checkPath "d.name" = .ok () := by decide
  have keyword : ∀ w ∈ ["NULL", "TRUE", "FALSE"], Text.sameLetters "d.name" w = false := by decide
  rw [left, right]
  exact quoted_operands rfl path keyword "o'this'isn't" blank

/-- The sign between the quotes is taken for the operator, and no path stands before it. -/
theorem quoted_operands_sign :
    parse (Text.quoted "a<b" ++ " " ++ Comparison.equal.text ++ " " ++ "d.name") =
        .error (.identifier (.malformed "'a")) ∧
      parse ("d.name" ++ " " ++ Comparison.equal.text ++ " " ++ Text.quoted "a<b") =
        .ok ⟨.ofPathText "d.name", .equal, .literal (.text "a<b")⟩ := by
  exact ⟨by rfl, by rfl⟩

end Predicate
end EntityQuery
