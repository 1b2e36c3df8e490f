import EntityQuery.Proofs.Predicate.Reading
import EntityQuery.Proofs.Text.Occurrence
import EntityQuery.Proofs.Text.Quotations

/-!
# The literals of values

A literal shows by its first character of what kind its value is, and by what it holds where it
ends: a number behind its last digit, a text at its first quote that is not doubled, a list at the
parenthesis behind its last member. So literals that begin one and the same text are of equal
values, as long as no digit goes on with a number and no quote with a text. Behind the members of a
list there are only commas and the parenthesis, which is why lists may be nested.

Floating-point numbers and objects are not among the values here. A number without a fraction has
the literal of a whole number, and an object that of its plain text.
-/

namespace EntityQuery

/-- Two parts that are made of characters of one kind end where another one follows. -/
theorem append_inj_of_stops {α : Type} {p : α → Bool} {ds es xs ys : List α}
    (hd : ∀ d ∈ ds, p d = true) (he : ∀ e ∈ es, p e = true) (hx : ∀ c ∈ xs.head?, p c = false)
    (hy : ∀ c ∈ ys.head?, p c = false) (h : ds ++ xs = es ++ ys) : ds = es ∧ xs = ys := by
  have fronts := congrArg (List.takeWhile p) h
  rw [Text.takeWhile_append_of_stops hd hx, Text.takeWhile_append_of_stops he hy] at fronts
  subst fronts
  exact ⟨rfl, List.append_cancel_left h⟩

namespace Value

/-- Built at any depth from null, truth values, whole numbers, texts and lists. -/
inductive Simple : Value → Prop
  | null : Simple .null
  | bool (b : Bool) : Simple (.bool b)
  | int (n : Int64) : Simple (.int n)
  | text (s : String) : Simple (.text s)
  | list {items : List Value} (h : ∀ v ∈ items, Simple v) : Simple (.list items)

theorem simple_list {items : List Value} : Simple (.list items) ↔ ∀ v ∈ items, Simple v := by
  constructor
  · rintro ⟨⟩
    assumption
  · exact .list

/-- What does not go on with a number or a text in front of it. -/
def Detached (rest : List Char) : Prop := ∀ c ∈ rest.head?, c.isDigit = false ∧ c ≠ '\''

theorem detached_nil : Detached [] := nofun

theorem Detached.digit {rest : List Char} (h : Detached rest) :
    ∀ c ∈ rest.head?, c.isDigit = false :=
  fun c there => (h c there).1

theorem Detached.quote {rest : List Char} (h : Detached rest) : rest.head? ≠ some '\'' :=
  fun there => (h '\'' there).2 rfl

theorem wholeText_append_inj {m n : Int64} {xs ys : List Char} (hx : Detached xs)
    (hy : Detached ys) (h : (wholeText m).toList ++ xs = (wholeText n).toList ++ ys) :
    m = n ∧ xs = ys := by
  obtain ⟨c, ds, hm, -, hds⟩ := exists_wholeText m
  obtain ⟨d, es, hn, -, hes⟩ := exists_wholeText n
  rw [hm, hn] at h
  obtain ⟨rfl, behind⟩ := List.cons.inj h
  obtain ⟨rfl, same⟩ := append_inj_of_stops hds hes hx.digit hy.digit behind
  have read := congrArg wholeNumber? (String.toList_inj.mp (hm.trans hn.symm))
  rw [wholeNumber?_wholeText, wholeNumber?_wholeText] at read
  exact ⟨Option.some.inj read, same⟩

theorem toList_literal_text (s : String) :
    (literal (text s)).toList = '\'' :: (Text.doubleQuotes s.toList ++ ['\'']) := by
  rw [literal, Text.toList_quoted]

/-! Lists. -/

theorem literalItems_eq (items : List Value) : literalItems items = items.map literal := by
  induction items with
  | nil => rfl
  | cons v vs ih => rw [literalItems, List.map_cons, ih]

/-- The literals of members that are not the first. -/
def others (items : List Value) : List Char := items.flatMap fun v => ',' :: v.literal.toList

theorem toList_literal_list (v : Value) (vs : List Value) :
    (literal (list (v :: vs))).toList = '(' :: (v.literal.toList ++ (others vs ++ [')'])) := by
  have joined : ∀ v : Value, (String.intercalate "," ((v :: vs).map literal)).toList =
      v.literal.toList ++ others vs := by
    induction vs with
    | nil => simp [others]
    | cons w ws ih =>
      intro v
      rw [List.map_cons, List.map_cons, String.intercalate_cons_cons, ← List.map_cons,
        String.toList_append, ih w]
      simp [others]
  rw [literal, literalItems_eq, String.toList_append, String.toList_append, joined]
  simp

/-- The kind of the values whose literals begin with this character. -/
def opens (c : Char) : Option ValueKind :=
  if c = 'N' then some .null
  else if c = 'T' ∨ c = 'F' then some .bool
  else if c = '-' ∨ c.isDigit = true then some .number
  else if c = '\'' then some .text
  else if c = '(' then some .list
  else none

theorem Simple.exists_opens {v : Value} (h : v.Simple) :
    ∃ c cs, v.literal.toList = c :: cs ∧ opens c = some v.kind := by
  cases h with
  | null => exact ⟨'N', _, rfl, rfl⟩
  | bool b =>
    cases b with
    | false => exact ⟨'F', _, rfl, rfl⟩
    | true => exact ⟨'T', _, rfl, rfl⟩
  | int n =>
    obtain ⟨c, ds, split, first, -⟩ := exists_wholeText n
    refine ⟨c, ds, split, ?_⟩
    have letter : c ≠ 'N' ∧ c ≠ 'T' ∧ c ≠ 'F' := by
      refine ⟨?_, ?_, ?_⟩ <;> rintro rfl <;> simp at first
    simp [opens, letter, first, kind]
  | text s => exact ⟨'\'', _, toList_literal_text s, rfl⟩
  | @list items _ =>
    cases items with
    | nil => exact ⟨'(', _, rfl, rfl⟩
    | cons v vs => exact ⟨'(', _, toList_literal_list v vs, rfl⟩

/-- A text that begins with the literal of `v` begins with no other one, if neither is gone on
with. -/
def Ends (v : Value) : Prop :=
  ∀ ⦃w : Value⦄ ⦃xs ys : List Char⦄, w.Simple → Detached xs → Detached ys →
    v.literal.toList ++ xs = w.literal.toList ++ ys → v = w ∧ xs = ys

/-- Every member but the first stands behind a comma, and the last before a parenthesis. -/
theorem others_append_inj {vs ws : List Value} (each : ∀ v ∈ vs, Ends v) (hw : ∀ w ∈ ws, Simple w)
    {xs ys : List Char} (h : others vs ++ ')' :: xs = others ws ++ ')' :: ys) :
    vs = ws ∧ xs = ys := by
  have detached : ∀ (vs : List Value) (xs : List Char), Detached (others vs ++ ')' :: xs) := by
    intro vs xs
    cases vs <;> simp [others, Detached]
  induction vs generalizing ws with
  | nil =>
    cases ws with
    | nil => exact ⟨rfl, (List.cons.inj h).2⟩
    | cons w ws => simp [others] at h
  | cons v vs ih =>
    cases ws with
    | nil => simp [others] at h
    | cons w ws =>
      rw [List.forall_mem_cons] at each hw
      have h : ',' :: (v.literal.toList ++ (others vs ++ ')' :: xs)) =
          ',' :: (w.literal.toList ++ (others ws ++ ')' :: ys)) := by
        simpa [others] using h
      obtain ⟨rfl, rest⟩ := each.1 hw.1 (detached vs xs) (detached ws ys) (List.cons.inj h).2
      obtain ⟨rfl, same⟩ := ih each.2 hw.2 rest
      exact ⟨rfl, same⟩

theorem Simple.kind_eq {v w : Value} (hv : v.Simple) (hw : w.Simple) {xs ys : List Char}
    (h : v.literal.toList ++ xs = w.literal.toList ++ ys) : v.kind = w.kind := by
  obtain ⟨c, cs, hc, opened⟩ := hv.exists_opens
  obtain ⟨d, ds, hd, opened'⟩ := hw.exists_opens
  rw [hc, hd] at h
  obtain ⟨rfl, -⟩ := List.cons.inj h
  exact Option.some.inj (opened.symm.trans opened')

/-- Only values of the same kind are left to be told apart. -/
theorem Simple.ends_of_kind {v : Value} (hv : v.Simple)
    (alike : ∀ ⦃w : Value⦄ ⦃xs ys : List Char⦄, w.Simple → w.kind = v.kind → Detached xs →
      Detached ys → v.literal.toList ++ xs = w.literal.toList ++ ys → v = w ∧ xs = ys) : Ends v :=
  fun _ _ _ hw hx hy h => alike hw (hv.kind_eq hw h).symm hx hy h

theorem ends_list {items : List Value} (simple : ∀ v ∈ items, Simple v)
    (each : ∀ v ∈ items, Ends v) : Ends (list items) := by
  have empty : ∀ {w : Value} {ws : List Value} {xs ys : List Char}, w.Simple →
      (literal (list [])).toList ++ xs ≠ (literal (list (w :: ws))).toList ++ ys := by
    intro w ws xs ys hw h
    obtain ⟨c, cs, split, opened⟩ := hw.exists_opens
    rw [toList_literal_list, split] at h
    obtain ⟨rfl, -⟩ := List.cons.inj (List.cons.inj h).2
    cases opened
  refine (Simple.list simple).ends_of_kind fun other xs ys hother kinds _ _ h => ?_
  cases hother with
  | @list ws hw =>
    cases items with
    | nil =>
      cases ws with
      | nil => exact ⟨rfl, List.append_cancel_left h⟩
      | cons w ws => exact absurd h (empty (hw w List.mem_cons_self))
    | cons v vs =>
      cases ws with
      | nil => exact absurd h.symm (empty (simple v List.mem_cons_self))
      | cons w ws =>
        -- With a comma in front the first member is one of the others.
        have h : others (v :: vs) ++ ')' :: xs = others (w :: ws) ++ ')' :: ys := by
          rw [toList_literal_list, toList_literal_list] at h
          simpa [others] using h
        obtain ⟨same, rest⟩ := others_append_inj each hw h
        exact ⟨congrArg list same, rest⟩
  | _ => cases kinds

theorem Simple.ends {v : Value} (hv : v.Simple) : Ends v := by
  induction hv with
  | null =>
    refine Simple.null.ends_of_kind fun _ _ _ hw kinds _ _ h => ?_
    cases hw with
    | null => exact ⟨rfl, List.append_cancel_left h⟩
    | _ => cases kinds
  | bool b =>
    refine (Simple.bool b).ends_of_kind fun _ _ _ hw kinds _ _ h => ?_
    cases hw with
    | bool c =>
      cases b <;> cases c
      · exact ⟨rfl, List.append_cancel_left h⟩
      · cases (List.cons.inj h).1
      · cases (List.cons.inj h).1
      · exact ⟨rfl, List.append_cancel_left h⟩
    | _ => cases kinds
  | int m =>
    refine (Simple.int m).ends_of_kind fun _ _ _ hw kinds hx hy h => ?_
    cases hw with
    | int n =>
      obtain ⟨rfl, same⟩ := wholeText_append_inj hx hy h
      exact ⟨rfl, same⟩
    | _ => cases kinds
  | text s =>
    refine (Simple.text s).ends_of_kind fun w xs ys hw kinds hx hy h => ?_
    cases hw with
    | text t =>
      have h : Text.doubleQuotes s.toList ++ '\'' :: xs =
          Text.doubleQuotes t.toList ++ '\'' :: ys := by
        rw [toList_literal_text, toList_literal_text] at h
        simpa using h
      obtain ⟨contents, same⟩ := Text.doubleQuotes_append_inj hx.quote hy.quote h
      obtain rfl := String.toList_inj.mp contents
      exact ⟨rfl, same⟩
    | _ => cases kinds
  | list simple each => exact ends_list simple each

/-- Values without floating-point numbers and objects have the same literal only if they are equal.
No text begins with the literals of two such values either, if it goes on with neither. So nothing
inside a text is taken for the end of the text, of a list or of one of its members. -/
theorem literal_unambiguous {v w : Value} (hv : v.Simple) (hw : w.Simple) :
    (v.literal = w.literal ↔ v = w) ∧
      ∀ x y : String, Detached x.toList → Detached y.toList →
        (v.literal ++ x = w.literal ++ y ↔ v = w ∧ x = y) := by
  constructor
  · constructor
    · intro same
      have lists : v.literal.toList ++ [] = w.literal.toList ++ [] := by rw [same]
      exact (hv.ends hw detached_nil detached_nil lists).1
    · rintro rfl
      rfl
  · intro x y hx hy
    constructor
    · intro same
      have lists := congrArg String.toList same
      rw [String.toList_append, String.toList_append] at lists
      obtain ⟨values, rests⟩ := hv.ends hw hx hy lists
      exact ⟨values, String.toList_inj.mp rests⟩
    · rintro ⟨rfl, rfl⟩
      rfl

/-- A text that holds what separates two texts, and these two texts, in a list inside a list. What
stands behind makes up for nothing. -/
theorem literal_unambiguous_separators :
    let v := list [list [text "a','b"], int (-1)]
    let w := list [list [text "a", text "b"], int (-1)]
    Simple v ∧ Simple w ∧ v.literal = "(('a'',''b'),-1)" ∧ w.literal = "(('a','b'),-1)" ∧
      v.literal ≠ w.literal ∧ Detached ",NULL)".toList ∧ Detached ")".toList ∧
      v.literal ++ ",NULL)" ≠ w.literal ++ ")" := by
  intro v w
  have hv : Simple v := by simp [v, simple_list, Simple.text, Simple.int]
  have hw : Simple w := by simp [w, simple_list, Simple.text, Simple.int]
  have ne : v ≠ w := by simp [v, w]
  have comma : Detached ",NULL)".toList := by simp [Detached]
  have closing : Detached ")".toList := by simp [Detached]
  obtain ⟨alone, before⟩ := literal_unambiguous hv hw
  exact ⟨hv, hw, by decide +kernel, by decide +kernel, fun same => ne (alone.mp same), comma,
    closing, fun same => ne ((before _ _ comma closing).mp same).1⟩

end Value
end EntityQuery
