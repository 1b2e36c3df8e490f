import EntityQuery.Text.Quoted
import Mathlib.Algebra.GroupWithZero.Nat
import Mathlib.Data.List.Forall2

/-!
# The quotations of a text

A reader of quotations goes through a text from quote to quote, and takes two quotes inside a
quotation for one that is part of it. Every quotation takes two quotes around it and two for each
inside.

A text that is put together from words between quotes and parts without quotes reads back as the
words where each has its quotes doubled. By the number of its quotes it reads back nowhere else,
unless quotes outside make up for those that are missing.
-/

namespace EntityQuery.Text

/-- A text without quotes. -/
def Quoteless (s : String) : Prop := '\'' ∉ s.toList

instance (s : String) : Decidable (Quoteless s) := inferInstanceAs (Decidable (¬ _))

@[simp] theorem quoteless_append {s t : String} :
    Quoteless (s ++ t) ↔ Quoteless s ∧ Quoteless t := by
  simp [Quoteless]

/-- The number of quotes in a text. -/
def quotes (s : String) : Nat := s.toList.count '\''

@[simp] theorem quotes_append (s t : String) : quotes (s ++ t) = quotes s + quotes t := by
  simp [quotes]

theorem quotes_eq_zero {s : String} : quotes s = 0 ↔ Quoteless s := List.count_eq_zero

/-- The contents of the quotations of a text, if each is closed. The reader stands outside
quotations or behind a part of one. -/
def quotations : Option (List Char) → List Char → Option (List String)
  | none, [] => some []
  | some _, [] => none
  | none, '\'' :: cs => quotations (some []) cs
  | none, _ :: cs => quotations none cs
  | some part, '\'' :: '\'' :: cs => quotations (some (part ++ ['\''])) cs
  | some part, '\'' :: cs => (quotations none cs).map (String.ofList part :: ·)
  | some part, c :: cs => quotations (some (part ++ [c])) cs

theorem quotations_outside {cs : List Char} (h : '\'' ∉ cs) (rest : List Char) :
    quotations none (cs ++ rest) = quotations none rest := by
  induction cs with
  | nil => rfl
  | cons c cs ih =>
    obtain ⟨hc, hcs⟩ := List.ne_and_not_mem_of_not_mem_cons h
    rw [List.cons_append, quotations, ih hcs]
    exact Ne.symm hc

theorem quotations_close (part : List Char) {rest : List Char} (h : rest.head? ≠ some '\'') :
    quotations (some part) ('\'' :: rest) =
      (quotations none rest).map (String.ofList part :: ·) := by
  rw [quotations]
  rintro cs rfl
  exact h rfl

/-- What is written with its quotes doubled is read up to the quote behind it. -/
theorem quotations_doubleQuotes (part cs : List Char) {rest : List Char}
    (h : rest.head? ≠ some '\'') :
    quotations (some part) (doubleQuotes cs ++ '\'' :: rest) =
      (quotations none rest).map (String.ofList (part ++ cs) :: ·) := by
  induction cs generalizing part with
  | nil => simpa [doubleQuotes] using quotations_close part h
  | cons c cs ih =>
    by_cases hc : c = '\''
    · rw [doubleQuotes, if_pos hc, List.cons_append, List.cons_append, quotations, ih, hc]
      simp
    · rw [doubleQuotes, if_neg hc, List.cons_append, quotations, ih]
      · simp
      · exact fun _ same _ => hc same
      · exact hc

theorem doubleQuotes_of_not_mem {cs : List Char} (h : '\'' ∉ cs) : doubleQuotes cs = cs := by
  induction cs with
  | nil => rfl
  | cons c cs ih =>
    obtain ⟨hc, hcs⟩ := List.ne_and_not_mem_of_not_mem_cons h
    rw [doubleQuotes, if_neg (Ne.symm hc), ih hcs]

theorem count_doubleQuotes (cs : List Char) :
    (doubleQuotes cs).count '\'' = 2 * cs.count '\'' := by
  induction cs with
  | nil => rfl
  | cons c cs ih =>
    by_cases hc : c = '\''
    · rw [doubleQuotes, if_pos hc, hc, List.count_cons_self, List.count_cons_self,
        List.count_cons_self, ih]
      omega
    · rw [doubleQuotes, if_neg hc, List.count_cons_of_ne hc, List.count_cons_of_ne hc, ih]

/-- What is written with its quotes doubled ends before the first quote that is not. -/
theorem doubleQuotes_append_inj {cs ds xs ys : List Char} (hx : xs.head? ≠ some '\'')
    (hy : ys.head? ≠ some '\'')
    (h : doubleQuotes cs ++ '\'' :: xs = doubleQuotes ds ++ '\'' :: ys) : cs = ds ∧ xs = ys := by
  have closed : ∀ {d : Char} {ds xs ys : List Char}, xs.head? ≠ some '\'' →
      '\'' :: xs ≠ doubleQuotes (d :: ds) ++ '\'' :: ys := by
    intro d ds xs ys hx same
    by_cases hd : d = '\''
    · rw [doubleQuotes, if_pos hd] at same
      exact hx (by rw [(List.cons.inj same).2]; rfl)
    · rw [doubleQuotes, if_neg hd] at same
      exact hd (List.cons.inj same).1.symm
  induction cs generalizing ds with
  | nil =>
    cases ds with
    | nil => exact ⟨rfl, (List.cons.inj h).2⟩
    | cons d ds => exact absurd h (closed hx)
  | cons c cs ih =>
    cases ds with
    | nil => exact absurd h.symm (closed hy)
    | cons d ds =>
      by_cases hc : c = '\'' <;> by_cases hd : d = '\''
      · rw [doubleQuotes, doubleQuotes, if_pos hc, if_pos hd] at h
        obtain ⟨rfl, same⟩ := ih (List.cons.inj (List.cons.inj h).2).2
        exact ⟨by rw [hc, hd], same⟩
      · rw [doubleQuotes, doubleQuotes, if_pos hc, if_neg hd] at h
        exact absurd (List.cons.inj h).1.symm hd
      · rw [doubleQuotes, doubleQuotes, if_neg hc, if_pos hd] at h
        exact absurd (List.cons.inj h).1 hc
      · rw [doubleQuotes, doubleQuotes, if_neg hc, if_neg hd] at h
        obtain ⟨rfl, rest⟩ := List.cons.inj h
        obtain ⟨rfl, same⟩ := ih rest
        exact ⟨rfl, same⟩

/-- The quotes that quotations of these contents take. -/
def spentQuotes (contents : List String) : Nat := (contents.map fun s => 2 + 2 * quotes s).sum

/-- All quotes of a text are around its quotations or, doubled, inside. -/
theorem count_of_quotations {part : Option (List Char)} {cs : List Char} {contents : List String}
    (h : quotations part cs = some contents) :
    cs.count '\'' + (part.elim 0 fun t => 1 + 2 * t.count '\'') = spentQuotes contents := by
  fun_induction quotations part cs generalizing contents with
  | case1 =>
    cases h
    rfl
  | case2 => cases h
  | case3 cs ih =>
    have counted := ih h
    simp at counted ⊢
    omega
  | case4 c cs hc ih =>
    have counted := ih h
    simpa [List.count_cons_of_ne hc] using counted
  | case5 part cs ih =>
    have counted := ih h
    simp at counted ⊢
    omega
  | case6 part cs _ ih =>
    obtain ⟨others, hothers, rfl⟩ := Option.map_eq_some_iff.mp h
    have counted := ih hothers
    simp [spentQuotes, quotes] at counted ⊢
    omega
  | case7 part c cs _ hc ih =>
    have counted := ih h
    simp [List.count_cons_of_ne hc] at counted ⊢
    exact counted

end EntityQuery.Text

namespace EntityQuery

open Text (Quoteless quotations quotes spentQuotes)

/-- A text literal, a name of a function between quotes, or one before a bracket. -/
inductive Word where
  | text (s : String)
  | quoted (name : String)
  | bare (name : String)
deriving DecidableEq

namespace Word

def spelling : Word → String
  | text s => Text.quoted s
  | quoted name => "'" ++ name ++ "'"
  | bare name => name

end Word

/-- The quotations that the words of a text ask for. -/
def contents (ws : List Word) : List String :=
  ws.flatMap fun
    | .text s => [s]
    | .quoted name => [name]
    | .bare _ => []

def quotedNames (ws : List Word) : List String :=
  ws.flatMap fun
    | .quoted name => [name]
    | .text _ | .bare _ => []

def bareNames (ws : List Word) : List String :=
  ws.flatMap fun
    | .bare name => [name]
    | .text _ | .quoted _ => []

/-- The text holds these words, in order, among parts without quotes. No two words that stand
between quotes touch. -/
inductive Spelled : String → List Word → Prop
  | word (w : Word) : Spelled w.spelling [w]
  | glue {g : String} (h : Quoteless g) : Spelled g []
  | before {g t : String} {ws : List Word} (h : Quoteless g) (rest : Spelled t ws) :
      Spelled (g ++ t) ws
  | append {s t : String} {vs ws : List Word} (first : Spelled s vs) (rest : Spelled t ws)
      (apart : t.toList.head? ≠ some '\'') : Spelled (s ++ t) (vs ++ ws)

namespace Spelled
variable {s t : String} {vs ws : List Word}

/-- Glue between two texts. -/
theorem join (first : Spelled s vs) {g : String} (h : Quoteless g) (nonempty : g ≠ "")
    (rest : Spelled t ws) : Spelled (s ++ g ++ t) (vs ++ ws) := by
  rw [String.append_assoc]
  refine first.append (rest.before h) ?_
  have hne : g.toList ≠ [] := by simpa using nonempty
  obtain ⟨c, cs, hcs⟩ := List.exists_cons_of_ne_nil hne
  rw [Quoteless, hcs] at h
  rw [String.toList_append, hcs]
  simpa [eq_comm] using (List.ne_and_not_mem_of_not_mem_cons h).1

theorem empty : Spelled "" [] := glue (by decide)

theorem behind (first : Spelled s vs) {g : String} (h : Quoteless g) : Spelled (s ++ g) vs := by
  by_cases hempty : g = ""
  · simpa [hempty] using first
  · simpa using first.join h hempty empty

theorem intercalate {g : String} (h : Quoteless g) (nonempty : g ≠ "") {ts : List String}
    {wss : List (List Word)} (each : List.Forall₂ Spelled ts wss) :
    Spelled (String.intercalate g ts) wss.flatten := by
  induction each with
  | nil => exact empty
  | cons first rest ih =>
    cases rest with
    | nil => simpa using first
    | cons second others =>
      rw [String.intercalate_cons_of_ne_nil (by simp), List.flatten_cons]
      exact first.join h nonempty ih

/-- Where no name holds a quote, a reader of quotations finds what the words ask for and goes on
behind the text. -/
theorem reads (h : Spelled t ws) (quoted : ∀ name ∈ quotedNames ws, Quoteless name)
    (bare : ∀ name ∈ bareNames ws, Quoteless name) {rest : List Char}
    (apart : rest.head? ≠ some '\'') :
    quotations none (t.toList ++ rest) = (quotations none rest).map (contents ws ++ ·) := by
  induction h generalizing rest with
  | word w =>
    cases w with
    | text s =>
      have body := Text.quotations_doubleQuotes [] s.toList apart
      simpa [Word.spelling, Text.quoted, contents, quotations] using body
    | quoted name =>
      have plain : Quoteless name := quoted name (by simp [quotedNames])
      have body := Text.quotations_doubleQuotes [] name.toList apart
      rw [Text.doubleQuotes_of_not_mem plain] at body
      simpa [Word.spelling, contents, quotations] using body
    | bare name =>
      have plain : Quoteless name := bare name (by simp [bareNames])
      simpa [Word.spelling, contents] using Text.quotations_outside plain rest
  | glue h => simpa [contents] using Text.quotations_outside h rest
  | before h _ ih =>
    rw [String.toList_append, List.append_assoc, Text.quotations_outside h]
    exact ih quoted bare apart
  | @append s t vs ws _ _ middle first second =>
    rw [quotedNames, List.flatMap_append, List.forall_mem_append] at quoted
    rw [bareNames, List.flatMap_append, List.forall_mem_append] at bare
    have behind : (t.toList ++ rest).head? ≠ some '\'' := by
      cases hcs : t.toList with
      | nil => simpa using apart
      | cons c cs => simpa [hcs] using middle
    rw [String.toList_append, List.append_assoc, first quoted.1 bare.1 behind,
      second quoted.2 bare.2 apart]
    simp [contents, Function.comp_def]

/-- The quotes of a text are those around its words that stand between quotes, two for each in a
literal and one for each in a name. -/
theorem quotes_eq (h : Spelled t ws) :
    quotes t + ((quotedNames ws).map quotes).sum =
      spentQuotes (contents ws) + ((bareNames ws).map quotes).sum := by
  induction h with
  | word w =>
    cases w with
    | text s =>
      have doubled := Text.count_doubleQuotes s.toList
      simp [Word.spelling, Text.quoted, quotes, quotedNames, contents, bareNames, spentQuotes,
        doubled]
      omega
    | quoted name =>
      simp [Word.spelling, quotes, quotedNames, contents, bareNames, spentQuotes]
      omega
    | bare name => simp [Word.spelling, quotedNames, contents, bareNames, spentQuotes]
  | glue h => simpa [quotedNames, contents, bareNames, spentQuotes] using Text.quotes_eq_zero.mpr h
  | before h _ ih => rw [Text.quotes_append, Text.quotes_eq_zero.mpr h, Nat.zero_add, ih]
  | append _ _ _ first second =>
    simp [quotedNames, contents, bareNames, spentQuotes] at first second ⊢
    omega

/-- If names of one kind hold no quote, the text reads back as its words exactly if names of the
other kind hold none either. -/
theorem reads_iff (h : Spelled t ws)
    (one : (∀ name ∈ quotedNames ws, Quoteless name) ∨ ∀ name ∈ bareNames ws, Quoteless name) :
    quotations none t.toList = some (contents ws) ↔
      (∀ name ∈ quotedNames ws, Quoteless name) ∧ ∀ name ∈ bareNames ws, Quoteless name := by
  have free : ∀ names : List String, (∀ name ∈ names, Quoteless name) ↔
      (names.map quotes).sum = 0 := by
    simp [← Text.quotes_eq_zero, List.sum_eq_zero_iff_forall_eq_nat]
  constructor
  · intro hreads
    have counted : quotes t = spentQuotes (contents ws) := Text.count_of_quotations hreads
    have spelled := h.quotes_eq
    rw [free, free] at one ⊢
    omega
  · rintro ⟨quoted, bare⟩
    have read := h.reads quoted bare (show [].head? ≠ some '\'' by simp)
    simpa [quotations] using read

end Spelled

end EntityQuery
