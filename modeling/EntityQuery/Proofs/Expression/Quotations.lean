import EntityQuery.Proofs.Expression.Calls
import EntityQuery.Proofs.JoinForest
import EntityQuery.Proofs.Predicate.Reading
import EntityQuery.Proofs.Text.Quotations

/-!
# What stands between quotes in a rendered expression

A rendered text is put together from words that take string content and from glue without quotes.
A text literal is written with its quotes doubled, and the name that a dynamic call reads off its
first argument as it is, between quotes or before a bracket. So a rendered text reads back as the
contents of its literals and quoted names exactly if no such name holds a quote.
-/

namespace EntityQuery

open Text (Quoteless quotations)

/-- Neither the text of a path nor the field that it reads holds a quote. -/
structure Path.Unquoted (p : Path) : Prop where
  text : Quoteless p.text
  field : ∀ f ∈ p.field, Quoteless f

/-- An expression whose quotes are all in text literals. What a dynamic call is named by its
argument is left open. -/
inductive Expression.Unquoted : Expression → Prop
  | path {p : Path} (h : p.Unquoted) : Unquoted (.path p)
  | call {f : String} {as : List Expression}
      (function : CallForm.ofFunction f = .ordinary → Quoteless f)
      (arguments : ∀ a ∈ as, Unquoted a) : Unquoted (.call f as)
  | parameter {name : Option String} {value : Option Value}
      (h : ∀ n ∈ name, Quoteless n) : Unquoted (.parameter name value)
  | element (base : Path) (index : Expression) : Unquoted (.element base index)
  | literal {l : Literal} (h : ∀ s, l = .decimal s → Quoteless s) : Unquoted (.literal l)
  | subquery {e : Expression} {entity label : String} {joins : List (String × String)}
      {conditions : List (Expression × Expression)} (selected : Unquoted e)
      (source : Quoteless entity ∧ Quoteless label)
      (joined : ∀ j ∈ joins, Quoteless j.1 ∧ Quoteless j.2)
      (left : ∀ c ∈ conditions, Unquoted c.1) (right : ∀ c ∈ conditions, Unquoted c.2) :
      Unquoted (.subquery e entity label joins conditions)

/-- No alias, no mark of aliases, no path that an alias stands for and not the value function
holds a quote. -/
structure Renderer.Unquoted (r : Renderer) : Prop where
  mark : ∀ m ∈ r.aliasMark, Quoteless m
  label : ∀ n ∈ r.forest.nodes, Quoteless n.label
  valueFunction : ∀ f ∈ r.profile.valueFunction, Quoteless f
  standsFor : r.resolveAliases = true →
    ∀ label p, r.scope.pathOf? label = some p → p.Unquoted

def Literal.words : Literal → List Word
  | .text s => [.text s]
  | .int _ | .decimal _ | .bool _ | .null => []

namespace Renderer
variable {r : Renderer}

/-- The name of a dynamic call. -/
def calledWord (r : Renderer) (name : String) : Word :=
  if r.functions.contains name then
    match r.profile.callStyle with
    | .direct => .bare name
    | .operator => .quoted name
  else .quoted name

mutual

/-- The words that rendering writes, in their order. -/
def words (r : Renderer) : Expression → List Word
  | .path _ => []
  | .call function arguments =>
    match CallForm.ofFunction function with
    | .outer => r.wordsFirst arguments
    | .dynamic =>
      match Expression.dynamicName? arguments with
      | none => []
      | some name => r.calledWord name :: r.wordsRest arguments
    | .ordinary => r.wordsList arguments
  | .parameter _ _ => []
  | .element _ _ => []
  | .literal l => l.words
  | .subquery selected _ _ _ conditions => r.words selected ++ r.wordsEqualities conditions

def wordsFirst (r : Renderer) : List Expression → List Word
  | [] => []
  | e :: _ => r.words e

def wordsRest (r : Renderer) : List Expression → List Word
  | [] => []
  | _ :: es => r.wordsList es

def wordsList (r : Renderer) : List Expression → List Word
  | [] => []
  | e :: es => r.words e ++ r.wordsList es

def wordsEqualities (r : Renderer) : List (Expression × Expression) → List Word
  | [] => []
  | (a, b) :: cs => r.words a ++ r.words b ++ r.wordsEqualities cs

end

theorem wordsList_eq (es : List Expression) : r.wordsList es = (es.map r.words).flatten := by
  induction es with
  | nil => rfl
  | cons e es ih => rw [wordsList, ih, List.map_cons, List.flatten_cons]

theorem wordsRest_eq (es : List Expression) :
    r.wordsRest es = (es.tail.map r.words).flatten := by
  cases es with
  | nil => rfl
  | cons e es => exact wordsList_eq es

theorem wordsEqualities_eq (cs : List (Expression × Expression)) :
    r.wordsEqualities cs = (cs.map fun c => r.words c.1 ++ r.words c.2).flatten := by
  induction cs with
  | nil => rfl
  | cons c cs ih => rw [wordsEqualities, ih, List.map_cons, List.flatten_cons]

end Renderer

/-! The parts of a rendered text. -/

theorem AliasScope.unquoted_follow {s : AliasScope}
    (h : ∀ label p, s.pathOf? label = some p → p.Unquoted) {fuel : Nat} {p q : Path}
    (hp : p.Unquoted) (hq : s.follow fuel p = some q) : q.Unquoted := by
  induction fuel generalizing p with
  | zero => cases hq
  | succ fuel ih =>
    rw [follow] at hq
    split at hq
    · rename_i x _ hx
      split at hq
      · exact ih (h _ x hx) hq
      · cases hq
        exact hp
    · cases hq
      exact hp

theorem Literal.spelled_plain {l : Literal} (h : ∀ s, l = .decimal s → Quoteless s) :
    Spelled l.plain l.words := by
  cases l with
  | text s => exact .word (.text s)
  | int n => 
    refine .glue fun hquote => ?_
    rw [plain, toList_wholeText] at hquote
    rcases List.mem_append.mp hquote with sign | digit
    · split at sign <;> simp at sign
    · have := toNat_of_isDigit (Nat.isDigit_of_mem_toDigits (by omega) (by omega) digit)
      exact absurd this (by decide)
  | decimal s => exact .glue (h s rfl)
  | bool b => cases b <;> exact .glue (by decide)
  | null => exact .glue (by decide)

namespace Renderer
variable {r : Renderer}

section Path
variable (hr : r.Unquoted)
include hr

theorem quoteless_boundPath {p : Path} (hp : p.Unquoted) {n : ForestNode}
    (hn : n ∈ r.forest.nodes) : Quoteless (r.boundPath p n) := by
  have mark : Quoteless (r.aliasMark.getD "") := by
    cases hmark : r.aliasMark with
    | none => decide
    | some m => exact hr.mark m hmark
  have value : ∀ f, r.valueFunction? p n = some f → Quoteless f := by
    intro f hf
    rw [valueFunction?] at hf
    split at hf
    · exact hr.valueFunction f hf
    · cases hf
  have label : Quoteless (r.aliasMark.getD "" ++ n.label) :=
    Text.quoteless_append.mpr ⟨mark, hr.label n hn⟩
  have dotted : ∀ {value field}, Quoteless value → p.field = some field →
      Quoteless (value ++ "." ++ field) := by
    intro value field hvalue hfield
    have dot := Text.quoteless_append.mpr ⟨hvalue, show Quoteless "." by decide⟩
    exact Text.quoteless_append.mpr ⟨dot, hp.field field hfield⟩
  rw [boundPath]
  cases hf : r.valueFunction? p n with
  | none =>
    cases hfield : p.field with
    | none => exact label
    | some field => exact dotted label hfield
  | some f =>
    have opened : Quoteless (f ++ "(") := Text.quoteless_append.mpr ⟨value f hf, by decide⟩
    have labelled := Text.quoteless_append.mpr ⟨opened, label⟩
    have closed := Text.quoteless_append.mpr ⟨labelled, show Quoteless ")" by decide⟩
    cases hfield : p.field with
    | none => exact closed
    | some field => exact dotted closed hfield

theorem quoteless_path {p : Path} (hp : p.Unquoted) {t : String} (h : r.path p = .ok t) :
    Quoteless t := by
  rw [path_eq, standsFor] at h
  obtain ⟨q, hq, h⟩ := Outcome.bind_ok_iff.mp h
  have unquoted : q.Unquoted := by
    split at hq
    · rename_i resolves
      rw [AliasScope.resolve] at hq
      split at hq
      · rename_i x hx
        cases hq
        exact AliasScope.unquoted_follow (hr.standsFor resolves) hp hx
      · cases hq
    · cases hq
      exact hp
  rw [written] at h
  split at h
  · cases h
    exact unquoted.text
  · obtain ⟨n, hn, h⟩ := Outcome.bind_ok_iff.mp h
    cases h
    exact quoteless_boundPath hr unquoted (List.mem_of_getElem? (JoinForest.node_ok_iff.mp hn))

end Path

theorem quoteless_parameter {name : Option String} {value : Option Value}
    (hname : ∀ n ∈ name, Quoteless n) {t : String} (h : r.parameter name value = .ok t) :
    Quoteless t := by
  unfold parameter at h
  split at h
  · cases h
  · rename_i n
    have plain := hname n rfl
    dsimp only at h
    split at h
    · cases h
      have opened : Quoteless ("(:" ++ n) := Text.quoteless_append.mpr ⟨by decide, plain⟩
      exact Text.quoteless_append.mpr ⟨opened, by decide⟩
    · cases h
      exact Text.quoteless_append.mpr ⟨by decide, plain⟩

/-- A call whose first argument is a name between quotes. -/
theorem spelled_namedCall {f : String} (h : Quoteless f) (name : String)
    {ts : List String} {wss : List (List Word)} (each : List.Forall₂ Spelled ts wss) :
    Spelled (f ++ String.intercalate "," ((Word.quoted name).spelling :: ts) ++ ")")
      (.quoted name :: wss.flatten) := by
  have arguments := Spelled.intercalate (g := ",") (by decide) (by decide)
    (.cons (.word (.quoted name)) each)
  exact (arguments.before h).behind (by decide)

theorem spelled_registeredCall {name : String} (registered : r.functions.contains name = true)
    {ts : List String} {wss : List (List Word)} (each : List.Forall₂ Spelled ts wss) :
    Spelled (r.registeredCall name ts) (r.calledWord name :: wss.flatten) := by
  rw [registeredCall, calledWord, if_pos registered, Profile.opening]
  cases r.profile.callStyle with
  | direct =>
    have arguments := Spelled.intercalate (g := ",") (by decide) (by decide) each
    have call := (Spelled.word (.bare name)).join (g := "(") (by decide) (by decide) arguments
    exact call.behind (by decide)
  | operator =>
    have call := spelled_namedCall (f := "OPERATOR(") (by decide) name each
    convert call using 1
    cases ts with
    | nil => simp [← String.toList_inj, Word.spelling, toString]
    | cons t ts => simp [← String.toList_inj, Word.spelling, toString]

theorem append_join (s : String) (ts : List String) :
    s ++ String.join (ts.map ("," ++ ·)) = String.intercalate "," (s :: ts) := by
  induction ts generalizing s with
  | nil => simp
  | cons t ts ih =>
    rw [String.intercalate_cons_of_ne_nil (by simp), ← ih, List.map_cons, String.join_cons]
    simp only [String.append_assoc]

theorem spelled_dynamicCall (name : String) {ts : List String} {wss : List (List Word)}
    (each : List.Forall₂ Spelled ts wss) :
    Spelled (dynamicCall name ts) (.quoted name :: wss.flatten) := by
  have call := spelled_namedCall (f := "FUNCTION(") (by decide) name each
  rw [← append_join] at call
  convert call using 1
  simp [← String.toList_inj, Word.spelling, dynamicCall, toString]

theorem quoteless_joinsText {joins : List (String × String)}
    (h : ∀ j ∈ joins, Quoteless j.1 ∧ Quoteless j.2) : Quoteless (Expression.joinsText joins) := by
  induction joins with
  | nil => decide
  | cons j joins ih =>
    obtain ⟨⟨relation, label⟩, others⟩ := List.forall_mem_cons.mp h
    rw [Expression.joinsText, List.map_cons, String.join_cons]
    refine Text.quoteless_append.mpr ⟨?_, ih others⟩
    have start := Text.quoteless_append.mpr ⟨show Quoteless " LEFT JOIN " by decide, relation⟩
    have middle := Text.quoteless_append.mpr ⟨start, show Quoteless " " by decide⟩
    exact Text.quoteless_append.mpr ⟨middle, label⟩

/-- Conditions behind what they narrow. -/
theorem spelled_whereText {s : String} {ws : List Word} (first : Spelled s ws) {ts : List String}
    {wss : List (List Word)} (each : List.Forall₂ Spelled ts wss) :
    Spelled (s ++ Expression.whereText ts) (ws ++ wss.flatten) := by
  cases each with
  | nil => simpa [Expression.whereText] using first
  | cons condition rest =>
    have conditions := Spelled.intercalate (g := " AND ") (by decide) (by decide)
      (.cons condition rest)
    rw [Expression.whereText, ← String.append_assoc]
    · exact first.join (by decide) (by decide) conditions
    · exact nofun

theorem spelled_mapM {α : Type} {f : α → Except QueryError String} {words : α → List Word}
    {as : List α} (h : ∀ a ∈ as, ∀ t, f a = .ok t → Spelled t (words a)) {ts : List String}
    (hts : as.mapM f = .ok ts) : List.Forall₂ Spelled ts (as.map words) := by
  rw [List.forall₂_map_right_iff]
  exact (Outcome.forall₂_of_mapM_ok hts h).flip

/-- What a rendered text is made of. -/
theorem spelled_render (hr : r.Unquoted) {e : Expression} (he : e.Unquoted) {t : String}
    (h : r.render e = .ok t) : Spelled t (r.words e) := by
  induction e using Expression.byParts generalizing t with
  | path p =>
    cases he with
    | path hp => exact .glue (quoteless_path hr hp h)
  | parameter n v =>
    cases he with
    | parameter hn => exact .glue (quoteless_parameter hn h)
  | element p i => cases h
  | literal l =>
    cases he with
    | literal hl =>
      cases h
      exact l.spelled_plain hl
  | call f as ih =>
    cases he with
    | call function arguments =>
      have inside : ∀ a ∈ as, ∀ t, r.render a = .ok t → Spelled t (r.words a) :=
        fun a ha t => ih a ha (arguments a ha)
      rw [render] at h
      rw [words]
      cases hform : CallForm.ofFunction f with
      | outer =>
        rw [hform] at h
        cases as with
        | nil =>
          cases h
          exact .empty
        | cons a rest => exact inside a List.mem_cons_self t h
      | dynamic =>
        rw [hform] at h
        dsimp only at h ⊢
        cases hname : Expression.dynamicName? as with
        | none =>
          rw [hname] at h
          cases h
        | some name =>
          rw [hname, renderRest_eq] at h
          rw [wordsRest_eq]
          have rest : ∀ a ∈ as.tail, ∀ t, r.render a = .ok t → Spelled t (r.words a) :=
            fun a ha => inside a (List.mem_of_mem_tail ha)
          dsimp only at h ⊢
          split at h
          · rename_i registered
            obtain ⟨ts, hts, h⟩ := Outcome.bind_ok_iff.mp h
            cases h
            exact spelled_registeredCall registered (spelled_mapM rest hts)
          · rename_i unregistered
            split at h
            · obtain ⟨ts, hts, h⟩ := Outcome.bind_ok_iff.mp h
              cases h
              rw [calledWord, if_neg unregistered]
              exact spelled_dynamicCall name (spelled_mapM rest hts)
            · cases h
      | ordinary =>
        rw [hform] at h
        dsimp only at h ⊢
        rw [renderList_eq] at h
        obtain ⟨ts, hts, h⟩ := Outcome.bind_ok_iff.mp h
        cases h
        rw [wordsList_eq]
        have texts := Spelled.intercalate (g := ",") (by decide) (by decide)
          (spelled_mapM inside hts)
        have name : Quoteless (f ++ "(") :=
          Text.quoteless_append.mpr ⟨function hform, by decide⟩
        exact (texts.before name).behind (by decide)
  | subquery e entity label joins conditions selected equalities =>
    cases he with
    | subquery he source joined left right =>
      rw [render] at h
      obtain ⟨item, hitem, h⟩ := Outcome.bind_ok_iff.mp h
      obtain ⟨texts, htexts, h⟩ := Outcome.bind_ok_iff.mp h
      cases h
      rw [renderEqualities_eq] at htexts
      rw [words, wordsEqualities_eq]
      have each : ∀ c ∈ conditions, ∀ t, r.renderEquality c = .ok t →
          Spelled t (r.words c.1 ++ r.words c.2) := by
        intro c hc t ht
        obtain ⟨x, hx, ht⟩ := Outcome.bind_ok_iff.mp ht
        obtain ⟨y, hy, ht⟩ := Outcome.bind_ok_iff.mp ht
        cases ht
        have first := (equalities c hc).1 (left c hc) hx
        have second := (equalities c hc).2 (right c hc) hy
        exact first.join (by decide) (by decide) second
      have opened := (selected he hitem).before (g := "(SELECT ") (by decide)
      have tail : Quoteless (" FROM " ++ entity ++ " " ++ label ++
          Expression.joinsText joins) := by
        have joins := quoteless_joinsText joined
        have glue : Quoteless " FROM " ∧ Quoteless " " := by decide
        simp only [Text.quoteless_append]
        exact ⟨⟨⟨⟨glue.1, source.1⟩, glue.2⟩, source.2⟩, joins⟩
      have narrowed := spelled_whereText (opened.behind tail) (spelled_mapM each htexts)
      have closed := narrowed.behind (g := ")") (by decide)
      convert closed using 1
      simp [← String.toList_inj, toString]

/-- A text that is rendered reads back as the contents of its literals and quoted names exactly if
no function name in it holds a quote, provided that quotes are not in names of both kinds. -/
theorem quotations_render_iff (hr : r.Unquoted) {e : Expression} (he : e.Unquoted) {t : String}
    (h : r.render e = .ok t)
    (one : (∀ name ∈ quotedNames (r.words e), Quoteless name) ∨
      ∀ name ∈ bareNames (r.words e), Quoteless name) :
    quotations none t.toList = some (contents (r.words e)) ↔
      (∀ name ∈ quotedNames (r.words e), Quoteless name) ∧
        ∀ name ∈ bareNames (r.words e), Quoteless name :=
  (spelled_render hr he h).reads_iff one

theorem unquoted_of_empty {p : Profile} (h : ∀ f ∈ p.valueFunction, Quoteless f)
    (names : FunctionNames) : Unquoted ⟨.empty, .empty, p, names, [], true, none⟩ where
  mark := nofun
  label := nofun
  valueFunction := h
  standsFor _ label p hp := by
    rw [AliasScope.pathOf?] at hp
    simp [AliasScope.find?, AliasScope.levels, AliasScope.empty, Catalog.find?] at hp

theorem unquoted_dynamic (arguments : List String) :
    (Expression.call "FUNCTION" (arguments.map fun s => .literal (.text s))).Unquoted := by
  have dynamic : CallForm.ofFunction "FUNCTION" ≠ .ordinary := by decide
  refine .call (fun h => absurd h dynamic) fun a ha => ?_
  obtain ⟨s, -, rfl⟩ := List.mem_map.mp ha
  exact .literal nofun

/-- Literals with quotes inside a call by name inside a subquery. -/
theorem quotations_render_subquery :
    let r : Renderer :=
      ⟨.empty, .empty, .preset .eclipseLink, .ofNames ["concat"], [], true, none⟩
    let e : Expression := .subquery (.call "FUNCTION" [.literal (.text "concat"),
      .literal (.text "it's"), .literal (.text "'")]) "Document" "d" []
      [(.ofPathText "d.name", .call "FUNCTION" [.literal (.text "now")])]
    let t := "(SELECT OPERATOR('concat','it''s','''') FROM Document d " ++
      "WHERE d.name = FUNCTION('now'))"
    r.words e = [.quoted "concat", .text "it's", .text "'", .quoted "now"] ∧
      r.render e = .ok t ∧ quotations none t.toList = some ["concat", "it's", "'", "now"] := by
  intro r e t
  have words : r.words e = [.quoted "concat", .text "it's", .text "'", .quoted "now"] := by rfl
  have render : r.render e = .ok t := by rfl
  have he : e.Unquoted := by
    refine .subquery (unquoted_dynamic ["concat", "it's", "'"]) (by decide) nofun ?_ ?_
    · intro c hc
      obtain rfl := List.mem_singleton.mp hc
      exact .path ⟨by decide, nofun⟩
    · intro c hc
      obtain rfl := List.mem_singleton.mp hc
      exact unquoted_dynamic ["now"]
  have names : ∀ name ∈ quotedNames (r.words e), Quoteless name := by
    rw [words]
    decide
  have bare : ∀ name ∈ bareNames (r.words e), Quoteless name := by
    rw [words]
    decide
  have hr : r.Unquoted := unquoted_of_empty (by decide) _
  exact ⟨words, render, (quotations_render_iff hr he render (.inl names)).mpr ⟨names, bare⟩⟩

/-- A name with a quote is not closed where it ends, and one that closes itself adds an
argument. -/
theorem quotations_render_unclosed :
    let r : Renderer := ⟨.empty, .empty, .preset .hibernate, .empty, [], true, none⟩
    let call (arguments : List String) : Expression :=
      .call "FUNCTION" (arguments.map fun s => .literal (.text s))
    r.Unquoted ∧ (∀ arguments, (call arguments).Unquoted) ∧
      r.render (call ["a'b"]) = .ok "FUNCTION('a'b')" ∧
      quotations none "FUNCTION('a'b')".toList = none ∧
      r.render (call ["f','x"]) = r.render (call ["f", "x"]) := by
  intro r call
  exact ⟨unquoted_of_empty (by decide) _, unquoted_dynamic, by rfl, by decide, by rfl⟩

end Renderer
end EntityQuery
