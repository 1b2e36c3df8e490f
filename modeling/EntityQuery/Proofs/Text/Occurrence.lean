import EntityQuery.Text.Letters
import Mathlib.Data.List.Infix

/-!
# Where a word stands in a text

A search that does not regard letter case finds a word exactly if the word, in small letters,
is a part of the text in small letters. What stands behind a character that the word does not
have is searched on its own.
-/

namespace EntityQuery.Text

/-- The word stands somewhere in the text, in whatever letter case. -/
def Stands (word text : String) : Prop := (lower word).toList <:+: (lower text).toList

instance (word text : String) : Decidable (Stands word text) :=
  inferInstanceAs (Decidable (_ <:+: _))

theorem toList_lower (s : String) : (lower s).toList = s.toList.map Char.toLower := by
  rw [lower, String.toList_ofList]

theorem lower_append (s t : String) : lower (s ++ t) = lower s ++ lower t := by
  rw [← String.toList_inj, String.toList_append]
  simp only [toList_lower, String.toList_append, List.map_append]

theorem startsWithLetters_iff {word text : List Char} :
    startsWithLetters word text = true ↔
      word.map Char.toLower <+: text.map Char.toLower := by
  induction word generalizing text with
  | nil => simp [startsWithLetters]
  | cons w ws ih =>
    cases text with
    | nil => simp [startsWithLetters]
    | cons c cs => simp [startsWithLetters, sameLetter, ih, List.cons_prefix_cons]

/-- Nothing is found exactly where the word is no part of the text. -/
theorem cutBefore_eq_none_iff {word text : List Char} :
    cutBefore word text = none ↔ ¬ word.map Char.toLower <:+: text.map Char.toLower := by
  induction text with
  | nil =>
    cases word with
    | nil => simp [cutBefore, startsWithLetters]
    | cons w ws => simp [cutBefore, startsWithLetters]
  | cons c cs ih =>
    have start : startsWithLetters word (c :: cs) = true ↔ _ := startsWithLetters_iff
    rw [List.map_cons] at start ⊢
    rw [cutBefore, List.infix_cons_iff, ← start]
    by_cases h : startsWithLetters word (c :: cs) = true
    · simp [h]
    · simp [h, ih]

/-- A text is cut before the first place where the word stands. -/
theorem cutBefore_eq_some_iff {word text front rest : List Char} :
    cutBefore word text = some (front, rest) ↔
      text = front ++ rest ∧ startsWithLetters word rest = true ∧
        ∀ before behind, text = before ++ behind → before.length < front.length →
          startsWithLetters word behind = false := by
  induction text generalizing front with
  | nil =>
    rw [cutBefore]
    constructor
    · intro h
      split at h
      · rename_i start
        cases h
        exact ⟨rfl, start, fun _ _ _ shorter => absurd shorter (Nat.not_lt_zero _)⟩
      · cases h
    · rintro ⟨parts, start, -⟩
      obtain ⟨rfl, rfl⟩ := List.nil_eq_append_iff.mp parts
      rw [if_pos start]
  | cons c cs ih =>
    rw [cutBefore]
    by_cases start : startsWithLetters word (c :: cs) = true
    · rw [if_pos start]
      constructor
      · intro h
        cases h
        exact ⟨rfl, start, fun _ _ _ shorter => absurd shorter (Nat.not_lt_zero _)⟩
      · rintro ⟨parts, -, first⟩
        cases front with
        | nil => rw [parts, List.nil_append]
        | cons d front =>
          have := first [] (c :: cs) rfl (Nat.succ_pos _)
          rw [start] at this
          cases this
    · rw [if_neg start, Option.map_eq_some_iff]
      constructor
      · rintro ⟨⟨before, behind⟩, cut, made⟩
        cases made
        obtain ⟨rfl, found, first⟩ := ih.mp cut
        refine ⟨rfl, found, fun other others parts shorter => ?_⟩
        cases other with
        | nil =>
          rw [← List.nil_append others, ← parts]
          simpa using start
        | cons d other =>
          obtain ⟨rfl, onward⟩ := List.cons.inj parts
          exact first other others onward (Nat.lt_of_succ_lt_succ shorter)
      · rintro ⟨parts, found, first⟩
        cases front with
        | nil =>
          rw [parts, List.nil_append] at start
          exact absurd found start
        | cons d front =>
          obtain ⟨rfl, onward⟩ := List.cons.inj parts
          refine ⟨(front, rest), ih.mpr ⟨onward, found, fun before behind parts shorter => ?_⟩, rfl⟩
          exact first (c :: before) behind (congrArg (c :: ·) parts) (Nat.succ_lt_succ shorter)

theorem cutBefore_none_iff_not_stands {word text : String} :
    cutBefore word.toList text.toList = none ↔ ¬ Stands word text := by
  rw [cutBefore_eq_none_iff, Stands, toList_lower, toList_lower]

section Separated
variable {α : Type} {c : α} {word before after : List α}

theorem prefix_append_cons_iff (absent : c ∉ word) :
    word <+: before ++ c :: after ↔ word <+: before := by
  constructor
  · intro h
    rcases Nat.lt_or_ge before.length word.length with longer | fits
    · have both : before ++ [c] <+: before ++ c :: after := ⟨after, by simp⟩
      have inside : before ++ [c] <+: word :=
        List.prefix_of_prefix_length_le both h (by rwa [List.length_append])
      exact absurd (inside.subset (by simp)) absent
    · exact List.prefix_of_prefix_length_le h (List.prefix_append _ _) fits
  · exact fun h => h.trans (List.prefix_append _ _)

/-- A word without `c` does not reach over it. -/
theorem infix_append_cons_iff (absent : c ∉ word) :
    word <:+: before ++ c :: after ↔ word <:+: before ∨ word <:+: after := by
  induction before with
  | nil =>
    rw [List.nil_append, List.infix_cons_iff, ← List.nil_append (c :: after),
      prefix_append_cons_iff absent, List.prefix_nil, List.infix_nil]
  | cons b before ih =>
    rw [List.cons_append, List.infix_cons_iff, List.infix_cons_iff, ih, ← List.cons_append,
      prefix_append_cons_iff absent, or_assoc]

end Separated

/-- A part is read whole if it stops where the rest begins. -/
theorem takeWhile_append_of_stops {α : Type} {p : α → Bool} {front rest : List α}
    (inside : ∀ a ∈ front, p a = true) (stops : ∀ a ∈ rest.head?, p a = false) :
    (front ++ rest).takeWhile p = front := by
  rw [List.takeWhile_append_of_pos inside]
  cases rest with
  | nil => rw [List.takeWhile_nil, List.append_nil]
  | cons a rest => rw [List.takeWhile_cons_of_neg (by simp [stops a rfl]), List.append_nil]

theorem cutBefore_of_starts {word text : List Char}
    (h : word.map Char.toLower <+: text.map Char.toLower) :
    cutBefore word text = some ([], text) := by
  have start : startsWithLetters word text = true := startsWithLetters_iff.mpr h
  cases text with
  | nil => rw [cutBefore, if_pos start]
  | cons c cs => rw [cutBefore, if_pos start]

/-- What stands before a character that the word does not have is passed over. -/
theorem cutBefore_append_cons {word before after : List Char} {c : Char}
    (absent : c.toLower ∉ word.map Char.toLower)
    (missing : ¬ word.map Char.toLower <:+: before.map Char.toLower) :
    cutBefore word (before ++ c :: after) =
      (cutBefore word after).map fun (front, rest) => (before ++ c :: front, rest) := by
  have later : ∀ cs : List Char, ¬ word.map Char.toLower <+: cs.map Char.toLower →
      startsWithLetters word (cs ++ c :: after) = false := by
    intro cs h
    rw [← Bool.not_eq_true, startsWithLetters_iff, List.map_append, List.map_cons,
      prefix_append_cons_iff absent]
    exact h
  induction before with
  | nil =>
    have here := later [] fun h => missing h.isInfix
    rw [List.nil_append] at here
    rw [List.nil_append, cutBefore, here]
    rfl
  | cons b bs ih =>
    have here := later (b :: bs) fun h => missing h.isInfix
    have inside : ¬ word.map Char.toLower <:+: bs.map Char.toLower := by
      rw [List.map_cons, List.infix_cons_iff] at missing
      exact fun h => missing (Or.inr h)
    rw [List.cons_append] at here ⊢
    rw [cutBefore, here, ih inside]
    cases cutBefore word after <;> rfl

section Parts
variable {s : String} {parts : List String}

theorem infix_append_left (s t : String) : s.toList <:+: (s ++ t).toList := by
  rw [String.toList_append]
  exact (List.prefix_append _ _).isInfix

theorem infix_append_right (s t : String) : t.toList <:+: (s ++ t).toList := by
  rw [String.toList_append]
  exact (List.suffix_append _ _).isInfix

/-- What is listed is a part of the list as it is written. -/
theorem infix_intercalate (separator : String) (h : s ∈ parts) :
    s.toList <:+: (String.intercalate separator parts).toList := by
  induction parts with
  | nil => cases h
  | cons t rest ih =>
    cases rest with
    | nil =>
      obtain rfl := List.mem_singleton.mp h
      rw [String.intercalate_singleton]
    | cons u rest =>
      rw [String.intercalate_cons_cons]
      rcases List.mem_cons.mp h with rfl | later
      · exact (infix_append_left s separator).trans (infix_append_left _ _)
      · exact (ih later).trans (infix_append_right _ _)

theorem infix_join (h : s ∈ parts) : s.toList <:+: (String.join parts).toList := by
  rw [String.toList_join]
  obtain ⟨before, after, rfl⟩ := List.append_of_mem h
  exact ⟨before.flatMap String.toList, after.flatMap String.toList, by simp⟩

end Parts

end EntityQuery.Text
