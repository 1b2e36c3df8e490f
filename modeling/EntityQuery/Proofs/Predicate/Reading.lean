import EntityQuery.Proofs.Outcome
import EntityQuery.Proofs.Predicate.Operators
import EntityQuery.Proofs.Text.Paths
import Mathlib

/-!
# Predicates are read back from their text

A side of a comparison is read back from its plain text, which is the text that it was read from
unless this was a keyword, a whole number or stood between quotes. No operator begins in the plain
text of the left side where none began in the text that was read. So `parse_text` finds the
operator where it was written, and both sides around it.
-/

namespace EntityQuery

namespace Text

/-! Blanks at the ends of a text. -/

theorem exists_around_trim (cs : List Char) : ∃ before after, cs = before ++ (trim cs ++ after) := by
  obtain ⟨before, hbefore⟩ := List.dropWhile_suffix isBlank (l := cs)
  obtain ⟨after, hafter⟩ := List.rdropWhile_prefix isBlank (trimStart cs)
  refine ⟨before, after, ?_⟩
  calc cs = before ++ trimStart cs := hbefore.symm
    _ = before ++ (trim cs ++ after) := congrArg _ hafter.symm

/-- A text that is not blank at its ends. -/
structure Framed (cs : List Char) : Prop where
  first : ∃ c rest, cs = c :: rest ∧ isBlank c = false
  last : ∃ c rest, cs = rest ++ [c] ∧ isBlank c = false

theorem Framed.of_solid {cs : List Char} (nonempty : cs ≠ []) (h : ∀ c ∈ cs, isSolid c = true) :
    Framed cs where
  first := by
    obtain ⟨c, rest, rfl⟩ := List.exists_cons_of_ne_nil nonempty
    exact ⟨c, rest, rfl, (isSolid_iff.mp (h c (by simp))).1⟩
  last := by
    obtain ⟨rest, c, rfl⟩ := (List.eq_nil_or_concat' cs).resolve_left nonempty
    exact ⟨c, rest, rfl, (isSolid_iff.mp (h c (by simp))).1⟩

theorem Framed.ne_empty {s : String} (h : Framed s.toList) : s ≠ "" := by
  rintro rfl
  obtain ⟨c, rest, same, -⟩ := h.first
  cases same

section Framed
variable {cs : List Char} (h : Framed cs)
include h

theorem trimStart_append (rest : List Char) : trimStart (cs ++ rest) = cs ++ rest := by
  obtain ⟨c, others, rfl, blank⟩ := h.first
  simp [trimStart, blank]

theorem trimEnd_append (rest : List Char) : trimEnd (rest ++ cs) = rest ++ cs := by
  obtain ⟨c, others, rfl, blank⟩ := h.last
  simp [trimEnd, blank]

theorem trim_framed : trim cs = cs := by
  have start := trimStart_append h []
  have finish := trimEnd_append h []
  rw [List.append_nil] at start
  rwa [trim, start]

theorem trim_framed_blank : trim (cs ++ [' ']) = cs := by
  have finish : trimEnd (cs ++ [' ']) = trimEnd cs := by
    simp [trimEnd, show isBlank ' ' = true by decide]
  rw [trim, trimStart_append h, finish]
  exact trimEnd_append h []

theorem trim_blank_framed : trim (' ' :: cs) = cs := by
  have start : trimStart (' ' :: cs) = trimStart cs := by
    simp [trimStart, show isBlank ' ' = true by decide]
  rw [trim, start]
  exact trim_framed h

end Framed

theorem trim_append {left right : List Char} (hleft : Framed left) (hright : Framed right)
    (middle : List Char) : trim (left ++ (middle ++ right)) = left ++ (middle ++ right) := by
  rw [trim, trimStart_append hleft, ← List.append_assoc, trimEnd_append hright]

theorem eq_of_betweenQuotes? {cs inner : List Char} (h : betweenQuotes? cs = some inner) :
    cs = '\'' :: (inner ++ ['\'']) := by
  unfold betweenQuotes? at h
  split at h
  · rename_i c rest
    split at h
    · rename_i hlast
      cases h
      obtain ⟨init, same⟩ := List.getLast?_eq_some_iff.mp hlast
      rw [same, List.dropLast_concat]
    · cases h
  · cases h

end Text

/-! Numbers. -/

theorem toList_wholeText (n : Int64) :
    (Value.wholeText n).toList = (if n.toInt < 0 then ['-'] else []) ++
      Nat.toDigits 10 n.toInt.natAbs := by
  rw [Value.wholeText, Int.toString_eq_repr]
  cases n.toInt with
  | ofNat m => simp [Int.repr, Nat.toList_repr]
  | negSucc m => simp [Int.repr, Nat.toList_repr]

theorem readDigits_toDigits (n : Nat) : Decimal.readDigits 0 (Nat.toDigits 10 n) = n :=
  Nat.ofDigitChars_toDigits (by omega) (by omega)

theorem all_isDigit_toDigits (n : Nat) : (Nat.toDigits 10 n).all Char.isDigit = true :=
  List.all_eq_true.mpr fun _ h => Nat.isDigit_of_mem_toDigits (by omega) (by omega) h

theorem exists_toDigits_cons (n : Nat) :
    ∃ c cs, Nat.toDigits 10 n = c :: cs ∧ 48 ≤ c.toNat ∧ c.toNat < 58 := by
  obtain ⟨c, cs, same⟩ := List.exists_cons_of_ne_nil (Nat.toDigits_ne_nil (n := n) (b := 10))
  have digit := List.all_eq_true.mp (all_isDigit_toDigits n) c (by simp [same])
  exact ⟨c, cs, same, toNat_of_isDigit digit⟩

/-- A sign or a digit, and digits behind it. -/
theorem exists_wholeText (n : Int64) : ∃ c cs, (Value.wholeText n).toList = c :: cs ∧
    (c = '-' ∨ c.isDigit = true) ∧ ∀ d ∈ cs, d.isDigit = true := by
  have digits := List.all_eq_true.mp (all_isDigit_toDigits n.toInt.natAbs)
  rw [toList_wholeText]
  by_cases negative : n.toInt < 0
  · rw [if_pos negative]
    exact ⟨'-', _, rfl, Or.inl rfl, digits⟩
  · obtain ⟨c, cs, split, -⟩ := exists_toDigits_cons n.toInt.natAbs
    rw [split, List.forall_mem_cons] at digits
    rw [if_neg negative, split]
    exact ⟨c, cs, rfl, Or.inr digits.1, digits.2⟩

theorem wholeNumber?_wholeText (n : Int64) : wholeNumber? (Value.wholeText n) = some n := by
  have low : -9223372036854775808 ≤ n.toInt := n.le_toInt
  have high := n.toInt_le
  obtain ⟨c, cs, same, hc⟩ := exists_toDigits_cons n.toInt.natAbs
  have digits := all_isDigit_toDigits n.toInt.natAbs
  have value := readDigits_toDigits n.toInt.natAbs
  rw [same] at digits value
  rw [wholeNumber?, toList_wholeText, same]
  by_cases negative : n.toInt < 0
  · have back : -(n.toInt.natAbs : Int) = n.toInt := by omega
    generalize n.toInt.natAbs = k at value back
    simp [negative, digits, value, back, low, high]
  · have back : (n.toInt.natAbs : Int) = n.toInt := by omega
    generalize n.toInt.natAbs = k at value back
    have plus : c ≠ '+' := by
      rintro rfl
      exact absurd hc.1 (by decide)
    have minus : c ≠ '-' := by
      rintro rfl
      exact absurd hc.1 (by decide)
    simp [negative, plus, minus, digits, value, back, low, high]

/-- The characters of numbers, of their signs and exponents, and of the words for what is no
number. -/
def isNumeral (c : Char) : Bool := c.isAlphanum || c == '.' || c == '+' || c == '-'

theorem isNumeral_iff {c : Char} :
    isNumeral c = true ↔ (c.isAlpha = true ∨ c.isDigit = true) ∨ c = '.' ∨ c = '+' ∨ c = '-' := by
  simp [isNumeral, Char.isAlphanum, or_assoc]

theorem isSolid_of_isNumeral {c : Char} (h : isNumeral c = true) : isSolid c = true := by
  rcases isNumeral_iff.mp h with (letter | digit) | rfl | rfl | rfl
  · exact isSolid_of_isNamePart (by simp [Text.isNamePart, Text.isNameStart, letter])
  · exact isSolid_of_isDigit digit
  · decide
  · decide
  · decide

theorem numeral_digits {cs : List Char} (h : cs.all Char.isDigit = true) :
    ∀ c ∈ cs, isNumeral c = true :=
  fun c hc => isNumeral_iff.mpr (Or.inl (Or.inr (List.all_eq_true.mp h c hc)))

theorem numeral_of_readExponent {cs : List Char} (h : (Decimal.readExponent cs).isSome = true) :
    ∀ c ∈ cs, isNumeral c = true := by
  unfold Decimal.readExponent at h
  split at h
  · exact nofun
  rename_i e rest
  split at h
  · rename_i mark
    have exponent : isNumeral e = true := by
      rcases (by simpa using mark : e = 'e' ∨ e = 'E') with rfl | rfl <;> decide
    refine List.forall_mem_cons.mpr ⟨exponent, ?_⟩
    split at h
    rename_i negative digits parts
    split at h
    · cases h
    rename_i all
    -- Behind the mark stand digits, with or without a sign.
    have numeral : ∀ c ∈ digits, isNumeral c = true := numeral_digits (by simp_all)
    split at parts
    · cases parts
      exact List.forall_mem_cons.mpr ⟨by decide, numeral⟩
    · cases parts
      exact List.forall_mem_cons.mpr ⟨by decide, numeral⟩
    · cases parts
      exact numeral
  · cases h

theorem numeral_of_readUnsigned {negative : Bool} {cs : List Char}
    (h : (Decimal.readUnsigned negative cs).isSome = true) : ∀ c ∈ cs, isNumeral c = true := by
  have whole := numeral_digits (List.all_takeWhile (p := Char.isDigit) (l := cs))
  rw [← List.takeWhile_append_dropWhile (p := Char.isDigit) (l := cs)]
  rw [Decimal.readUnsigned] at h
  refine List.forall_mem_append.mpr ⟨whole, ?_⟩
  split at h
  rename_i fraction tail hsplit
  split at h
  · cases h
  · rw [Option.isSome_map] at h
    have behind := numeral_of_readExponent h
    split at hsplit
    · rename_i ds hrest
      obtain ⟨rfl, rfl⟩ := Prod.mk.inj hsplit
      have digits := numeral_digits (List.all_takeWhile (p := Char.isDigit) (l := ds))
      rw [hrest, ← List.takeWhile_append_dropWhile (p := Char.isDigit) (l := ds)]
      exact List.forall_mem_cons.mpr ⟨by decide, List.forall_mem_append.mpr ⟨digits, behind⟩⟩
    · obtain ⟨rfl, rfl⟩ := Prod.mk.inj hsplit
      exact behind

/-- A word of letters in any letter case. -/
theorem numeral_of_word {cs word : List Char} (h : cs.map Char.toLower = word)
    (letters : word.all Char.isAlpha = true) : ∀ c ∈ cs, isNumeral c = true := by
  intro c hc
  refine isNumeral_iff.mpr (Or.inl (Or.inl ?_))
  have lower : c.toLower ∈ word := h ▸ List.mem_map_of_mem hc
  by_cases capital : c.isUpper = true
  · exact isLetter_iff.mpr (Or.inl (isCapital_iff.mp capital))
  · rw [← Char.toLower_eq_of_not_isUpper capital]
    exact List.all_eq_true.mp letters _ lower

theorem numeral_of_readSigned {negative : Bool} {cs : List Char}
    (h : (Binary64.readSigned negative cs).isSome = true) : ∀ c ∈ cs, isNumeral c = true := by
  rw [Binary64.readSigned] at h
  split at h
  · rename_i word
    rcases word with word | word
    · exact numeral_of_word word (by decide)
    · exact numeral_of_word word (by decide)
  split at h
  · rename_i word
    exact numeral_of_word word (by decide)
  · rw [Option.isSome_map] at h
    exact numeral_of_readUnsigned h

theorem numeral_of_ofText? {s : String} (h : (Binary64.ofText? s).isSome = true) :
    ∀ c ∈ s.toList, isNumeral c = true := by
  rw [Binary64.ofText?] at h
  split at h
  · rename_i cs hs
    rw [hs]
    exact List.forall_mem_cons.mpr ⟨by decide, numeral_of_readSigned h⟩
  · rename_i cs hs
    rw [hs]
    exact List.forall_mem_cons.mpr ⟨by decide, numeral_of_readSigned h⟩
  · exact numeral_of_readSigned h

theorem numeral_of_wholeNumber? {s : String} (h : (wholeNumber? s).isSome = true) :
    ∀ c ∈ s.toList, isNumeral c = true := by
  rw [wholeNumber?] at h
  split at h
  rename_i sign digits parts
  split at h
  · cases h
  rename_i all
  have numeral : ∀ c ∈ digits, isNumeral c = true := numeral_digits (by simp_all)
  split at parts
  · rename_i ds hs
    cases parts
    rw [hs]
    exact List.forall_mem_cons.mpr ⟨by decide, numeral⟩
  · rename_i ds hs
    cases parts
    rw [hs]
    exact List.forall_mem_cons.mpr ⟨by decide, numeral⟩
  · cases parts
    exact numeral

/-- A decimal holds no blank and no sign of comparison. -/
theorem solid_of_ofText? {s : String} (h : (Binary64.ofText? s).isSome = true) :
    ∀ c ∈ s.toList, isSolid c = true :=
  fun c hc => isSolid_of_isNumeral (numeral_of_ofText? h c hc)

/-! The sides of a comparison. -/

namespace Expression

@[simp] theorem plain_path (p : Path) : (path p).plain = p.text := rfl

@[simp] theorem plain_parameter (name : Option String) (value : Option Value) :
    (parameter name value).plain = parameterText name := rfl

@[simp] theorem plain_literal (l : Literal) : (literal l).plain = l.plain := rfl

end Expression

/-- What the side of a comparison can be read as. -/
inductive Reads (s : String) : Expression → Prop
  | null : Reads s (.literal .null)
  | truth (b : Bool) : Reads s (.literal (.bool b))
  | parameter {name : String} (whole : s = ":" ++ name) (path : Text.checkPath name = .ok ()) :
      Reads s (.parameter (some name) none)
  | text {inner : List Char} (whole : s.toList = '\'' :: (inner ++ ['\''])) :
      Reads s (.literal (.text (String.ofList (Text.undoubleQuotes inner))))
  | int (n : Int64) : Reads s (.literal (.int n))
  | decimal (number : (Binary64.ofText? s).isSome = true) : Reads s (.literal (.decimal s))
  | path (path : Text.checkPath s = .ok ()) : Reads s (.ofPathText s)

theorem numberLiteral?_some {s : String} {l : Literal} (h : numberLiteral? s = some l) :
    (∃ n, l = .int n) ∨ l = .decimal s ∧ (Binary64.ofText? s).isSome = true := by
  rw [numberLiteral?] at h
  split at h
  · split at h
    · split at h
      · cases h
        exact Or.inl ⟨_, rfl⟩
      · split at h
        · rename_i number
          cases h
          exact Or.inr ⟨rfl, number⟩
        · cases h
    · cases h
  · cases h

theorem reads_of_operand {s : String} {e : Expression} (h : operand s = .ok e) : Reads s e := by
  rw [operand] at h
  split at h
  · cases h
    exact .null
  split at h
  · cases h
    exact .truth true
  split at h
  · cases h
    exact .truth false
  split at h
  · rename_i name hs
    obtain ⟨_, path, h⟩ := Outcome.bind_ok_iff.mp h
    cases h
    refine .parameter ?_ path
    rw [← String.toList_inj, hs]
    simp
  split at h
  · rename_i inner hinner
    cases h
    exact .text (Text.eq_of_betweenQuotes? hinner)
  split at h
  · rename_i l hl
    cases h
    rcases numberLiteral?_some hl with ⟨n, rfl⟩ | ⟨rfl, number⟩
    · exact .int n
    · exact .decimal number
  · obtain ⟨_, path, h⟩ := Outcome.bind_ok_iff.mp h
    cases h
    exact .path path

/-- Keywords begin with letters and parameters with a colon, which come after digits, signs and
quotes. -/
theorem operand_of_first {s : String} {c : Char} {cs : List Char} (hs : s.toList = c :: cs)
    (first : c.toNat < 58) : operand s =
      match Text.betweenQuotes? s.toList with
      | some inner => .ok (.literal (.text (String.ofList (Text.undoubleQuotes inner))))
      | none =>
        match numberLiteral? s with
        | some l => .ok (.literal l)
        | none => pathOperand s := by
  have small : c.toLower = c := by
    refine Char.toLower_eq_of_not_isUpper fun capital => ?_
    have high := (isCapital_iff.mp capital).1
    omega
  have keyword : ∀ (w : String) (d : Char) (ds : List Char), w.toList = d :: ds →
      58 ≤ d.toLower.toNat → Text.sameLetters s w = false := by
    intro w d ds hw high
    have apart : c ≠ d.toLower := by
      rintro rfl
      omega
    simp [Text.sameLetters, Text.lower, hs, hw, small, apart]
  have colon : c ≠ ':' := by
    rintro rfl
    exact absurd first (by decide)
  rw [operand, keyword "NULL" 'N' _ rfl (by decide), keyword "TRUE" 'T' _ rfl (by decide),
    keyword "FALSE" 'F' _ rfl (by decide)]
  simp only [hs, Bool.false_eq_true, if_false]
  split
  · rename_i same
    exact absurd (List.cons.inj same).1 colon
  · rfl

theorem operand_quoted (x : String) : operand (Text.quoted x) = .ok (.literal (.text x)) := by
  have whole := Text.toList_quoted x
  rw [operand_of_first whole (by decide), whole, Text.betweenQuotes?_quoted]
  simp [Text.undoubleQuotes_doubleQuotes]

theorem operand_wholeText (n : Int64) : operand (Value.wholeText n) = .ok (.literal (.int n)) := by
  obtain ⟨c, cs, hc, sign, -⟩ := exists_wholeText n
  obtain ⟨first, quote, number⟩ :
      c.toNat < 58 ∧ c ≠ '\'' ∧ (c.isDigit || c == '+' || c == '-') = true := by
    rcases sign with rfl | digit
    · decide
    · refine ⟨(toNat_of_isDigit digit).2, ?_, by simp [digit]⟩
      rintro rfl
      cases digit
  have unquoted : Text.betweenQuotes? (c :: cs) = none := by
    unfold Text.betweenQuotes?
    split
    · rename_i same
      exact absurd (List.cons.inj same).1 quote
    · rfl
  have literal : numberLiteral? (Value.wholeText n) = some (.int n) := by
    simp only [numberLiteral?, hc, number, if_true, wholeNumber?_wholeText]
  rw [operand_of_first hc first, hc, unquoted, literal]

/-- What was read is read again from its plain text. -/
theorem operand_again {s : String} {e : Expression} (h : operand s = .ok e) :
    operand e.plain = .ok e := by
  cases reads_of_operand h with
  | null => rfl
  | truth b => cases b <;> rfl
  | parameter whole =>
    subst whole
    exact h
  | text => exact operand_quoted _
  | int n => exact operand_wholeText n
  | decimal => exact h
  | path =>
    rw [Expression.ofPathText, Expression.plain_path, Path.text_ofText]
    exact h

theorem solid_of_checkPath {s : String} (h : Text.checkPath s = .ok ()) :
    ∀ c ∈ s.toList, isSolid c = true := by
  intro c hc
  rcases Text.mem_of_checkPath h c hc with rfl | part
  · decide
  · exact isSolid_of_isNamePart part

theorem solid_wholeText (n : Int64) : ∀ c ∈ (Value.wholeText n).toList, isSolid c = true := by
  obtain ⟨c, cs, split, sign, digits⟩ := exists_wholeText n
  rw [split]
  refine List.forall_mem_cons.mpr ⟨?_, fun d hd => isSolid_of_isDigit (digits d hd)⟩
  rcases sign with rfl | digit
  · decide
  · exact isSolid_of_isDigit digit

/-- A text between quotes, or a plain text of solid characters. -/
theorem Reads.quoted_or_solid {s : String} {e : Expression} (h : Reads s e) :
    (∃ inner, s.toList = '\'' :: (inner ++ ['\'']) ∧ e.plain.toList =
        '\'' :: (Text.doubleQuotes (Text.undoubleQuotes inner) ++ ['\''])) ∨
      (e.plain ≠ "" ∧ ∀ c ∈ e.plain.toList, isSolid c = true) := by
  cases h with
  | null => exact Or.inr ⟨by decide, List.all_eq_true.mp (by decide)⟩
  | truth b => cases b <;> exact Or.inr ⟨by decide, List.all_eq_true.mp (by decide)⟩
  | @parameter name whole path =>
    refine Or.inr ⟨by simp [parameterText], ?_⟩
    have solid := solid_of_checkPath path
    simpa [parameterText, show isSolid ':' = true by decide] using solid
  | @text inner whole =>
    exact Or.inl ⟨inner, whole, by simp [Literal.plain, Text.toList_quoted]⟩
  | int n =>
    refine Or.inr ⟨?_, solid_wholeText n⟩
    intro empty
    obtain ⟨c, cs, split, -⟩ := exists_wholeText n
    rw [show Value.wholeText n = "" from empty] at split
    cases split
  | decimal number =>
    refine Or.inr ⟨?_, solid_of_ofText? number⟩
    rintro rfl
    cases number
  | path path =>
    rw [Expression.ofPathText, Expression.plain_path, Path.text_ofText]
    exact Or.inr ⟨Text.ne_empty_of_checkPath path, solid_of_checkPath path⟩

/-- No operator begins in the plain text if none began in what was read. -/
theorem Reads.unopened {s : String} {e : Expression} (h : Reads s e) {behind rest : List Char}
    (unopened : Unopened s.toList behind) : Unopened e.plain.toList (' ' :: rest) := by
  rcases h.quoted_or_solid with ⟨inner, whole, plain⟩ | ⟨-, solid⟩
  · rw [whole] at unopened
    have inside : Unopened inner ('\'' :: behind) := (Unopened.append_iff.mp unopened.2).1
    have again : Unopened (Text.doubleQuotes (Text.undoubleQuotes inner)) ('\'' :: ' ' :: rest) :=
      inside.undoubleQuotes.doubleQuotes.past_quote
    rw [plain]
    exact ⟨rfl, Unopened.append_iff.mpr ⟨again, rfl, trivial⟩⟩
  · exact Unopened.of_solid solid

theorem Reads.framed {s : String} {e : Expression} (h : Reads s e) :
    Text.Framed e.plain.toList := by
  rcases h.quoted_or_solid with ⟨inner, -, plain⟩ | ⟨nonempty, solid⟩
  · rw [plain]
    exact ⟨⟨'\'', _, rfl, by decide⟩, ⟨'\'', '\'' :: _, rfl, by decide⟩⟩
  · exact Text.Framed.of_solid (by simpa using nonempty) solid

/-! The whole comparison. -/

theorem Comparison.ofText_text (c : Comparison) : ofText c.text = .ok c := by
  cases c <;> decide +kernel

/-- After the left side the operator is found where it is written. -/
theorem aroundOperator?_comparison {c : Comparison} {right : List Char}
    (null : c.withNull = true → right = "NULL".toList) (framed : Text.Framed right) :
    ∃ before operator after,
      aroundOperator? (' ' :: (c.text.toList ++ ' ' :: right)) = some (before, operator, after) ∧
        (before = [] ∨ before = [' ']) ∧ Text.trim operator = c.text.toList ∧
        Text.trim after = right := by
  have trimmed := Text.trim_blank_framed framed
  cases c with
  | is =>
    obtain rfl := null rfl
    exact ⟨_, _, _, rfl, Or.inl rfl, by decide, by decide⟩
  | isNot =>
    obtain rfl := null rfl
    exact ⟨_, _, _, rfl, Or.inl rfl, by decide, by decide⟩
  | _ => exact ⟨_, _, _, rfl, Or.inr rfl, by decide, trimmed⟩

namespace Predicate

theorem toList_text (p : Predicate) : p.text.toList =
    p.left.plain.toList ++ ' ' :: (p.comparison.text.toList ++ ' ' :: p.right.plain.toList) := by
  have blank : (toString " ").toList = [' '] := rfl
  simp [text, blank]
  rfl

theorem compare_ok {left right : Expression} {c : Comparison} {p : Predicate}
    (h : compare left c right = .ok p) :
    p = ⟨left, c, right⟩ ∧ (c.withNull = true → right = .literal .null) := by
  rw [compare] at h
  split at h
  · cases h
  · cases h
  · rename_i same _
    cases h
    refine ⟨rfl, fun null => ?_⟩
    have literal : right.isNullLiteral = true := by simpa using same null
    unfold Expression.isNullLiteral at literal
    split at literal
    · rfl
    · cases literal

/-- A text that is read has two sides, before and behind its first operator. -/
theorem parse_ok {s : String} {p : Predicate} (h : parse s = .ok p) :
    ∃ left right behind, Unopened left behind ∧
      operand (String.ofList (Text.trim left)) = .ok p.left ∧
      operand (String.ofList (Text.trim right)) = .ok p.right ∧
      compare p.left p.comparison p.right = .ok p := by
  rw [parse] at h
  split at h
  · cases h
  rename_i left operator right found
  obtain ⟨behind, -, unopened⟩ := unopened_of_aroundOperator? found
  dsimp only at h
  split at h
  · cases h
  obtain ⟨l, hl, h⟩ := Outcome.bind_ok_iff.mp h
  obtain ⟨r, hr, h⟩ := Outcome.bind_ok_iff.mp h
  obtain ⟨c, -, h⟩ := Outcome.bind_ok_iff.mp h
  obtain ⟨rfl, -⟩ := compare_ok h
  exact ⟨left, right, behind, unopened, hl, hr, h⟩

/-- What is read of a text whose sides and operator were found. -/
theorem parse_of_found {s left operation right : String} {before operator after : List Char}
    {l r : Expression}
    (found : aroundOperator? (Text.trim s.toList) = some (before, operator, after))
    (hleft : Text.trim before = left.toList) (hoperator : Text.trim operator = operation.toList)
    (hright : Text.trim after = right.toList) (full : left ≠ "" ∧ right ≠ "")
    (hl : operand left = .ok l) (hr : operand right = .ok r) :
    parse s = ofOperator l operation r := by
  rw [parse, found]
  dsimp only
  rw [hleft, hoperator, hright, String.ofList_toList, String.ofList_toList, String.ofList_toList,
    if_neg (not_or.mpr full), hl, hr]
  simp only [bind, Except.bind]

/-- Blanks around a text do not matter. -/
theorem parse_ok_congr {s t : String} (same : Text.trim s.toList = Text.trim t.toList)
    {p : Predicate} : parse s = .ok p ↔ parse t = .ok p := by
  rw [parse, parse, same]
  cases aroundOperator? (Text.trim t.toList) with
  | none => exact iff_of_false nofun nofun
  | some parts =>
    obtain ⟨left, operator, right⟩ := parts
    dsimp only
    split
    · exact iff_of_false nofun nofun
    · exact Iff.rfl

/-- The text of a predicate that was read is read as the same predicate. -/
theorem parse_text {s : String} {p : Predicate} (h : parse s = .ok p) : parse p.text = .ok p := by
  obtain ⟨left, right, behind, unopened, hleft, hright, checked⟩ := parse_ok h
  have readsLeft := reads_of_operand hleft
  have readsRight := reads_of_operand hright
  obtain ⟨-, null⟩ := compare_ok checked
  -- The side that was read is a part of what stands before the operator.
  have quiet : ∀ rest, Unopened p.left.plain.toList (' ' :: rest) := by
    intro rest
    obtain ⟨start, finish, same⟩ := Text.exists_around_trim left
    rw [same] at unopened
    have inside := (Unopened.append_iff.mp (Unopened.append_iff.mp unopened).2).1
    exact readsLeft.unopened (by rwa [String.toList_ofList])
  have nullText : p.comparison.withNull = true → p.right.plain.toList = "NULL".toList := by
    intro h
    rw [null h]
    rfl
  obtain ⟨before, operator, after, found, blank, hoperator, hafter⟩ :=
    aroundOperator?_comparison nullText readsRight.framed
  have around : aroundOperator? (Text.trim p.text.toList) =
      some (p.left.plain.toList ++ before, operator, after) := by
    have whole : Text.trim p.text.toList = p.text.toList := by
      have ends := Text.trim_append readsLeft.framed readsRight.framed
        (' ' :: (p.comparison.text.toList ++ [' ']))
      simpa [toList_text] using ends
    rw [whole, toList_text, aroundOperator?_append (quiet _), found, Option.map_some]
  have leftSide : Text.trim (p.left.plain.toList ++ before) = p.left.plain.toList := by
    rcases blank with rfl | rfl
    · rw [List.append_nil, Text.trim_framed readsLeft.framed]
    · exact Text.trim_framed_blank readsLeft.framed
  have full : p.left.plain ≠ "" ∧ p.right.plain ≠ "" :=
    ⟨readsLeft.framed.ne_empty, readsRight.framed.ne_empty⟩
  have same : ofOperator p.left p.comparison.text p.right = .ok p :=
    Outcome.bind_ok_iff.mpr ⟨p.comparison, Comparison.ofText_text _, checked⟩
  rw [parse_of_found around leftSide hoperator hafter full (operand_again hleft)
    (operand_again hright), same]

/-- A lone quote and the word `is` stand inside the text, and zeros before the number. -/
theorem parse_text_irregular :
    let p : Predicate := ⟨.literal (.text "x is'y'"), .lessOrGreater, .literal (.int (-7))⟩
    parse "\u2003'x is''y''<>\u00a0-007 " = .ok p ∧ p.text = "'x is''y''' <> -7" ∧
      parse p.text = .ok p := by
  intro p
  have read : parse "\u2003'x is''y''<>\u00a0-007 " = .ok p := by rfl
  exact ⟨read, by decide +kernel, parse_text read⟩

end Predicate

end EntityQuery
