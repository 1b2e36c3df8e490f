import EntityQuery.Proofs.Dialect.GivenClauses
import EntityQuery.Proofs.Predicate.QuotedOperands
import EntityQuery.Proofs.Query.FromClause
import EntityQuery.Proofs.Query.NullComparisons
import EntityQuery.Proofs.Text.Occurrence

/-!
# Parameters and their placeholders

A parameter of a condition that was read from text has a path as its name, and a value is given to
identifiers only. So a value can be given to the parameter exactly if its name has no dot, and if it
has one no steps ever give it any. A query goes on requiring what it was restricted to, so the
placeholder is written into every statement of it, and the parameters of the statement have the
value under the name that the placeholder shows.
-/

namespace EntityQuery

namespace Predicate

/-- One of the sides is a parameter of this name. -/
def Names (p : Predicate) (x : String) : Prop :=
  (∃ value, p.left = .parameter (some x) value) ∨ ∃ value, p.right = .parameter (some x) value

/-- A parameter that is read has a path as its name and no value. -/
theorem parameter_of_operand {s x : String} {value : Option Value}
    (h : operand s = .ok (.parameter (some x) value)) :
    Text.checkPath x = .ok () ∧ value = none := by
  cases reads_of_operand h with
  | parameter _ path => exact ⟨path, rfl⟩

theorem checkPath_of_names {s x : String} {p : Predicate} (parsed : parse s = .ok p)
    (named : p.Names x) : Text.checkPath x = .ok () := by
  obtain ⟨left, right, -, -, hleft, hright, -⟩ := parse_ok parsed
  rcases named with ⟨value, same⟩ | ⟨value, same⟩
  · exact (parameter_of_operand (same ▸ hleft)).1
  · exact (parameter_of_operand (same ▸ hright)).1

end Predicate

namespace Query
variable {q r : Query} {p : Predicate} {clause : Clause}

/-- The predicate is a condition of WHERE, or of a node that is joined. -/
inductive Bears (q : Query) (p : Predicate) : Clause → Prop
  | restriction (h : p ∈ q.conditions) : Bears q p .restriction
  | join {n : ForestNode} (hn : n ∈ q.forest.nodes) (joined : n.isRoot = false) (h : p ∈ n.on) :
      Bears q p .join

/-- Conditions are only ever added. -/
theorem Grows.bears {P : Expression → Prop} (h : Grows P q r) (old : q.Bears p clause) :
    r.Bears p clause := by
  cases old with
  | restriction there =>
    refine .restriction ?_
    cases h with
    | restriction => exact List.mem_append_left _ there
    | _ => exact there
  | @join n hn joined there =>
    cases h with
    | node => exact .join (List.mem_append_left _ hn) joined there
    | @conditions i m on hm other =>
      obtain ⟨j, hj⟩ := List.mem_iff_getElem?.mp hn
      obtain ⟨inside, -⟩ := List.getElem?_eq_some_iff.mp hj
      by_cases same : i = j
      · subst same
        cases hm.symm.trans hj
        exact .join (List.mem_set inside _) joined (List.mem_append_left _ there)
      · have kept : (q.putConditions i m on).forest.nodes[j]? = some n := by
          rw [putConditions, List.getElem?_set_ne same, hj]
        exact .join (List.mem_of_getElem? kept) joined there
    | _ => exact .join hn joined there

theorem bears_run (steps : List QueryStep) (h : q.Bears p clause) :
    (q.run steps).Bears p clause :=
  grown_keeps (I := fun q => q.Bears p clause) (fun _ _ old grows => grows.bears old) h
    (run_grows q fun s _ => s.all_true)

/-- A step that succeeds takes over what its conditions are bound to. -/
theorem bears_of_step {s : QueryStep} (h : q.step s = .ok r) {c : Condition}
    (hc : c ∈ s.conditions) :
    ∃ b clause, r.Bears b clause ∧ ∃ m : Query, m.readCondition c = .ok b := by
  cases s with
  | joinEntity base entity label mode on =>
    obtain ⟨i, n, b, bound, -, -, -, -, -, read, rfl⟩ := joinEntity_ok_iff.mp h
    obtain ⟨d, hd, reads⟩ := Outcome.exists_mem_of_mapM_ok read hc
    refine ⟨d, .join, ?_, _, reads⟩
    have last := nodes_joinEntity (q := q) label entity i mode (b :: bound)
    have there := List.mem_append_right q.forest.nodes (List.mem_singleton_self
      (ForestNode.mk q.forest.size label entity (.entity i) mode false (b :: bound)))
    rw [← last] at there
    exact .join there rfl hd
  | on label d =>
    obtain rfl := List.mem_singleton.mp hc
    obtain ⟨i, n, b, -, read, hn, joined, rfl⟩ := on_ok_iff.mp h
    obtain ⟨inside, -⟩ := List.getElem?_eq_some_iff.mp hn
    exact ⟨b, .join, .join (List.mem_set inside _) joined
      (List.mem_append_right _ (List.mem_singleton_self _)), q, read⟩
  | restrict d =>
    obtain rfl := List.mem_singleton.mp hc
    obtain ⟨b, read, rfl⟩ := restrict_ok_iff.mp h
    exact ⟨b, .restriction,
      .restriction (List.mem_append_right _ (List.mem_singleton_self _)), q, read⟩
  | _ => cases hc

/-- A parameter is bound to itself. -/
theorem side_of_bindCondition {b : Predicate} (h : q.bindCondition p = .ok b)
    (name : Option String) (value : Option Value) :
    b.comparison = p.comparison ∧
      (p.left = .parameter name value → b.left = .parameter name value) ∧
      (p.right = .parameter name value → b.right = .parameter name value) := by
  obtain ⟨left, hleft, h⟩ := Outcome.bind_ok_iff.mp h
  obtain ⟨right, hright, h⟩ := Outcome.bind_ok_iff.mp h
  cases h
  refine ⟨rfl, fun same => ?_, fun same => ?_⟩
  · rw [same] at hleft
    cases hleft
    rfl
  · rw [same] at hright
    cases hright
    rfl

/-! Parameters and their names. -/

/-- Only identifiers have a value. -/
def NamesIdentifiers (q : Query) : Prop :=
  ∀ x value, q.parameters.find? x = some value → Text.isIdentifier x = true

theorem Grows.namesIdentifiers {P : Expression → Prop} (h : Grows P q r)
    (old : q.NamesIdentifiers) : r.NamesIdentifiers := by
  cases h with
  | parameter value identifier =>
    intro x v found
    rcases Catalog.eq_or_of_find?_insert found with ⟨rfl, -⟩ | before
    · exact identifier
    · exact old x v before
  | _ => exact old

theorem namesIdentifiers_of_grown {P : Expression → Prop} {basis : QueryBasis}
    (h : Relation.ReflTransGen (Grows P) (empty basis) q) : q.NamesIdentifiers := by
  refine grown_keeps (fun _ _ old grows => grows.namesIdentifiers old) ?_ h
  intro x value found
  cases found

/-! The placeholder in the text. -/

/-- The name behind a colon, in brackets or without. -/
def Placeholder (x text : String) : Prop := text = ":" ++ x ∨ text = "(:" ++ x ++ ")"

theorem placeholder_of_render {w : Renderer} {x text : String} {value : Option Value}
    (h : w.render (.parameter (some x) value) = .ok text) : Placeholder x text := by
  rw [Renderer.render, Renderer.parameter] at h
  split at h
  · cases h
    exact Or.inr rfl
  · cases h
    exact Or.inl rfl

/-- The text of a condition shows its parameters. -/
theorem shows_of_predicateText {text : String} (h : q.predicateText clause p = .ok text) :
    ∃ left right, text = left ++ " " ++ p.comparison.text ++ " " ++ right ∧
      ∀ x value, (p.left = .parameter (some x) value → Placeholder x left) ∧
        (p.right = .parameter (some x) value → Placeholder x right) := by
  obtain ⟨b, left, right, expanded, hleft, hright, rfl⟩ := predicateText_ok h
  obtain ⟨l, expandLeft, expanded⟩ := Outcome.bind_ok_iff.mp expanded
  obtain ⟨r, expandRight, made⟩ := Outcome.bind_ok_iff.mp expanded
  cases made
  have same : ∀ name value b, q.sizeExpansion.transform clause (.parameter name value) = .ok b →
      b = .parameter name value := by
    intro name value b h
    rw [SizeExpansion.transform] at h
    split at h
    · exact (Except.ok.inj h).symm
    · cases h
      rfl
  refine ⟨left, right, rfl, fun x value => ⟨fun side => ?_, fun side => ?_⟩⟩
  · rw [side] at expandLeft
    obtain rfl := same _ _ _ expandLeft
    exact placeholder_of_render hleft
  · rw [side] at expandRight
    obtain rfl := same _ _ _ expandRight
    exact placeholder_of_render hright

theorem infix_clause (keyword separator : String) {part : String} {parts : List String}
    (h : part ∈ parts) : part.toList <:+: (Query.clause keyword separator parts).toList := by
  cases parts with
  | nil => cases h
  | cons t rest =>
    exact (Text.infix_intercalate separator h).trans (Text.infix_append_right _ _)

theorem infix_onText {part : String} {parts : List String} (h : part ∈ parts) :
    part.toList <:+: (onText parts).toList := by
  cases parts with
  | nil => cases h
  | cons t rest =>
    exact (Text.infix_intercalate " AND " h).trans (Text.infix_append_right _ _)

/-- A condition of a node that is joined stands behind the join. -/
theorem infix_joinText {n : ForestNode} {text : String} (h : q.joinText n = .ok text)
    (hp : p ∈ n.on) :
    ∃ part, q.predicateText .join p = .ok part ∧ part.toList <:+: text.toList := by
  obtain ⟨joined, -, h⟩ := Outcome.bind_ok_iff.mp h
  obtain ⟨conditions, written, made⟩ := Outcome.bind_ok_iff.mp h
  cases made
  obtain ⟨part, there, hpart⟩ := Outcome.exists_mem_of_mapM_ok written hp
  exact ⟨part, hpart, (infix_onText there).trans (Text.infix_append_right _ _)⟩

theorem infix_segmentText {s : Segment} {n : ForestNode} {text : String}
    (h : q.segmentText s = .ok text) (hn : n ∈ s.joins) :
    ∃ part, q.joinText n = .ok part ∧ part.toList <:+: text.toList := by
  obtain ⟨joins, written, made⟩ := Outcome.bind_ok_iff.mp h
  cases made
  obtain ⟨part, there, hpart⟩ := Outcome.exists_mem_of_mapM_ok written hn
  exact ⟨part, hpart, (Text.infix_join there).trans (Text.infix_append_right _ _)⟩

/-- What is joined stands in the FROM clause. -/
theorem infix_fromText {segments : List Segment} (lists : q.Lists segments) {n : ForestNode}
    (hn : n ∈ q.forest.nodes) (joined : n.isRoot = false) {text : String}
    (h : q.fromText = .ok text) :
    ∃ part, q.joinText n = .ok part ∧ part.toList <:+: text.toList := by
  obtain ⟨s, hs, ends⟩ := lists.ends n hn
  have inside := (lists.joins s hs n).mpr ⟨hn, joined, ends⟩
  rw [lists.text] at h
  cases written : segments.mapM q.segmentText with
  | error e =>
    rw [written] at h
    cases h
  | ok texts =>
    rw [written] at h
    cases h
    obtain ⟨t, there, ht⟩ := Outcome.exists_mem_of_mapM_ok written hs
    obtain ⟨part, hpart, within⟩ := infix_segmentText ht inside
    exact ⟨part, hpart, within.trans (Text.infix_intercalate ", " there)⟩

/-- A condition that a query bears stands in its text. -/
theorem infix_text_of_bears {schema : Schema} (w : Wired schema q.forest.nodes q.scope)
    (h : q.Bears p clause) {text : String} (rendered : q.text = .ok text) :
    ∃ part, q.predicateText clause p = .ok part ∧ part.toList <:+: text.toList := by
  obtain ⟨items, roots, conditions, rest, -, sources, restrictions, rfl⟩ := text_parts rendered
  have shorter := Text.infix_append_left (s!"SELECT {items} FROM {roots}" ++
    Query.clause "WHERE" " AND " conditions) rest
  cases h with
  | restriction there =>
    obtain ⟨part, member, written⟩ := Outcome.exists_mem_of_mapM_ok restrictions there
    exact ⟨part, written, (infix_clause "WHERE" " AND " member).trans
      ((Text.infix_append_right _ _).trans shorter)⟩
  | join hn joined there =>
    obtain ⟨t, ht, within⟩ := infix_fromText (lists_below w) hn joined sources
    obtain ⟨part, written, inside⟩ := infix_joinText ht there
    refine ⟨part, written, (inside.trans within).trans (.trans ?_ shorter)⟩
    exact (Text.infix_append_right _ _).trans (Text.infix_append_left _ _)

theorem statement_ok {d : Dialect} {tables : List CommonTable} {st : Statement}
    (h : q.statement d tables = .ok st) :
    ∃ text, q.text = .ok text ∧ text.toList <:+: st.sql.toList ∧ st.parameters = q.parameters := by
  obtain ⟨text, rendered, rest⟩ := Outcome.bind_ok_iff.mp h
  obtain ⟨_, -, rest⟩ := Outcome.bind_ok_iff.mp rest
  obtain ⟨_, -, rest⟩ := Outcome.bind_ok_iff.mp rest
  obtain ⟨_, -, made⟩ := Outcome.bind_ok_iff.mp rest
  have parameters : st.parameters = q.parameters := by
    cases made
    rfl
  obtain ⟨withClause, -, page, more, -, whole⟩ := carries_statement rendered h
  refine ⟨text, rendered, ?_, parameters⟩
  rw [whole]
  simp only [String.toList_append, List.append_assoc]
  exact (List.prefix_append _ _).isInfix.trans
    ((List.suffix_append _ _).trans (List.suffix_append _ _)).isInfix

/-- The condition stands in the statement with the placeholder of the parameter. -/
def Shows (st : Statement) (p : Predicate) (x : String) : Prop :=
  ∃ left right, (left ++ " " ++ p.comparison.text ++ " " ++ right).toList <:+: st.sql.toList ∧
    ∀ value, (p.left = .parameter (some x) value → Placeholder x left) ∧
      (p.right = .parameter (some x) value → Placeholder x right)

theorem shows_of_bears {schema : Schema} (w : Wired schema q.forest.nodes q.scope) {m : Query}
    {b : Predicate} (bound : m.bindCondition p = .ok b) (h : q.Bears b clause) {d : Dialect}
    {tables : List CommonTable} {st : Statement} (made : q.statement d tables = .ok st)
    (x : String) : Shows st p x := by
  obtain ⟨text, rendered, inside, -⟩ := statement_ok made
  obtain ⟨part, written, within⟩ := infix_text_of_bears w h rendered
  obtain ⟨left, right, rfl, sides⟩ := shows_of_predicateText written
  refine ⟨left, right, ?_, fun value => ?_⟩
  · obtain ⟨same, -, -⟩ := side_of_bindCondition bound none none
    rw [← same]
    exact within.trans inside
  · obtain ⟨-, hleft, hright⟩ := side_of_bindCondition bound (some x) value
    exact ⟨fun side => (sides x value).1 (hleft side), fun side => (sides x value).2 (hright side)⟩

/-- A parameter of a condition that was read from text can be given a value exactly if its name has
no dot. Every later statement shows its placeholder: once it has a value, with this value under its
name, and if its name has a dot, with none. -/
theorem placeholders {basis : QueryBasis} {root top : String} {first : Query}
    (started : start basis root top = .ok first) (before : List QueryStep) {s x : String}
    {p : Predicate} (parsed : Predicate.parse s = .ok p) (named : p.Names x) {step : QueryStep}
    {c : Condition} (given : c ∈ step.conditions) (read : c.read = .ok p) {q : Query}
    (accepted : (first.run before).step step = .ok q) (after : List QueryStep) :
    let r := q.run after
    (∀ value, (∃ t, r.assign x value = .ok t) ↔ '.' ∉ x.toList) ∧
      (∀ value t, r.assign x value = .ok t → ∀ d tables st, t.statement d tables = .ok st →
        Shows st p x ∧ st.parameters.find? x = some value) ∧
      ∀ d tables st, r.statement d tables = .ok st →
        Shows st p x ∧ ('.' ∈ x.toList → st.parameters.find? x = none) := by
  intro r
  have path := Predicate.checkPath_of_names parsed named
  have dotless := Text.isIdentifier_iff_ne_dot path
  obtain ⟨b, clause, bears, m, bound⟩ := bears_of_step accepted given
  obtain ⟨source, reads, bound⟩ := Outcome.bind_ok_iff.mp bound
  cases read.symm.trans reads
  have later : r.Bears b clause := bears_run after bears
  have grown : Relation.ReflTransGen (Grows fun _ => True) (empty basis) r :=
    ((start_grows started fun s _ => s.all_true).trans (step_grows step.all_true accepted)).trans
      (run_grows q fun s _ => s.all_true)
  have wired : Wired r.basis.schema r.forest.nodes r.scope :=
    grown_keeps (I := fun q => Wired q.basis.schema q.forest.nodes q.scope)
      (fun _ _ w grows => grows.wired w) (wired_empty basis) grown
  refine ⟨fun value => ?_, fun value t assigned d tables st made => ?_, fun d tables st made => ?_⟩
  · rw [← dotless]
    constructor
    · rintro ⟨t, assigned⟩
      exact (assign_ok_iff.mp assigned).1
    · exact fun identifier => ⟨_, assign_ok_iff.mpr ⟨identifier, rfl⟩⟩
  · obtain ⟨identifier, rfl⟩ := assign_ok_iff.mp assigned
    have kept := Grows.bears (P := fun _ => True) (.parameter value identifier) later
    obtain ⟨-, -, -, parameters⟩ := statement_ok made
    refine ⟨shows_of_bears (q := { r with parameters := r.parameters.insert x value }) wired bound
      kept made x, ?_⟩
    rw [parameters]
    exact Catalog.find?_insert_self x value r.parameters
  · obtain ⟨-, -, -, parameters⟩ := statement_ok made
    refine ⟨shows_of_bears wired bound later made x, fun dot => ?_⟩
    rw [parameters, Option.eq_none_iff_forall_ne_some]
    intro value found
    exact dotless.mp (namesIdentifiers_of_grown grown x value found) dot


/-- The documents whose name is the parameter. -/
def documentsNamed (name : String) : Query :=
  { ofDocuments with
    conditions := [⟨.path (.bound "d.name" 0 (some "name")), .equal, .parameter (some name) none⟩] }

/-- A list of names is given to the parameter of a condition. -/
theorem placeholders_names :
    let p : Predicate := ⟨.ofPathText "d.name", .equal, .parameter (some "names") none⟩
    let value : Value := .list [.text "a", .text "b"]
    Predicate.parse "d.name = :names" = .ok p ∧ p.Names "names" ∧
      ofDocuments.restrict (.text "d.name = :names") = .ok (documentsNamed "names") ∧
      ∃ t st, (documentsNamed "names").assign "names" value = .ok t ∧
        t.statement .standard [] = .ok st ∧
        st.sql = "SELECT d FROM Document d WHERE d.name = :names" ∧
        Shows st p "names" ∧ st.parameters.find? "names" = some value := by
  intro p value
  let c : Condition := .text "d.name = :names"
  let step : QueryStep := .restrict c
  have parsed : Predicate.parse "d.name = :names" = .ok p := by rfl
  have named : p.Names "names" := Or.inr ⟨none, rfl⟩
  have accepted : ofDocuments.restrict (.text "d.name = :names") = .ok (documentsNamed "names") :=
    restrict_ok_iff.mpr ⟨_, Outcome.bind_ok_iff.mpr ⟨p, parsed, by rfl⟩, rfl⟩
  have taken : (ofDocuments.run []).step step = .ok (documentsNamed "names") := accepted
  have given : c ∈ step.conditions := List.mem_singleton_self c
  have read : c.read = .ok p := parsed
  obtain ⟨assigns, assigned, -⟩ :=
    placeholders start_ofDocuments [] parsed named given read taken []
  obtain ⟨t, gets⟩ := (assigns value).mpr (by decide)
  have text : t.text = .ok "SELECT d FROM Document d WHERE d.name = :names" := by
    obtain ⟨-, rfl⟩ := assign_ok_iff.mp gets
    decide +kernel
  have made : t.statement .standard [] =
      .ok ⟨"SELECT d FROM Document d WHERE d.name = :names", t.parameters, []⟩ := by
    obtain ⟨-, rfl⟩ := assign_ok_iff.mp gets
    rw [statement, text]
    rfl
  obtain ⟨shown, found⟩ := assigned value t gets .standard [] _ made
  exact ⟨parsed, named, accepted, t, _, gets, made, rfl, shown, found⟩

/-- A parameter whose name has a dot is accepted and written, but no value can be given to it. -/
theorem placeholders_dotted :
    let p : Predicate := ⟨.ofPathText "d.name", .equal, .parameter (some "a.b") none⟩
    Predicate.parse "d.name = :a.b" = .ok p ∧
      ofDocuments.restrict (.text "d.name = :a.b") = .ok (documentsNamed "a.b") ∧
      (∀ value, (documentsNamed "a.b").assign "a.b" value =
        .error (.identifier (.malformed "a.b"))) ∧
      (documentsNamed "a.b").text = .ok "SELECT d FROM Document d WHERE d.name = :a.b" := by
  intro p
  have parsed : Predicate.parse "d.name = :a.b" = .ok p := by rfl
  exact ⟨parsed, restrict_ok_iff.mpr ⟨_, Outcome.bind_ok_iff.mpr ⟨p, parsed, by rfl⟩, rfl⟩,
    fun value => by rfl, by decide +kernel⟩

end Query
end EntityQuery
