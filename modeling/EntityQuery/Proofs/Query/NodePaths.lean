import EntityQuery.Proofs.AttributePaths
import EntityQuery.Proofs.Query.Extension

/-!
# Paths behind a join alias

The alias of a node is a path to the node, and what follows it is a path of the entity of the node.
A relation is joined under an alias that leads on as the path of the relation does, since paths of
attributes compose: two with a dot between them lead where the second one leads from the end of the
first one.
-/

namespace EntityQuery

namespace Query
variable {q r : Query}

section AtJoin
variable {label : String} {i : Nat} {p : Path} (identifier : Text.isIdentifier label = true)
  (known : q.scope.find? label = some (.join i))
include identifier known

/-- The alias of a node is resolved to the node. -/
theorem path_of_join (h : q.path label = .ok p) : p = .bound label i none := by
  have parts := Text.headAndRest_of_isIdentifier identifier
  cases (path_ok_iff.mp h).2 with
  | node whole found hn =>
    cases known.symm.trans found
    rfl
  | field split found hn along => cases parts.symm.trans split
  | item whole found => cases known.symm.trans found

/-- A path behind the alias of a node is resolved to a field of the node. -/
theorem path_field_of_join {field : String} (h : q.path (label ++ "." ++ field) = .ok p) :
    p = .bound (label ++ "." ++ field) i (some field) := by
  have parts := Text.headAndRest_dot (Text.ne_dot_of_isIdentifier identifier) field
  generalize label ++ "." ++ field = text at h parts
  cases (path_ok_iff.mp h).2 with
  | node whole found hn => cases parts.symm.trans whole
  | field split found hn along =>
    cases parts.symm.trans split
    cases known.symm.trans found
    rfl
  | item whole found => cases parts.symm.trans whole

theorem path_field_ok {n : ForestNode} {field : String} {attributes : List Attribute}
    (hn : q.forest.nodes[i]? = some n)
    (along : q.basis.schema.attributesAlong n.entity field = .ok attributes) :
    q.path (label ++ "." ++ field) = .ok (.bound (label ++ "." ++ field) i (some field)) := by
  obtain ⟨_, checked, -⟩ := Outcome.bind_ok_iff.mp along
  have split := Text.path_with_rest_iff.mpr ⟨rfl, identifier, checked⟩
  exact path_ok_iff.mpr ⟨split.1, .field split.2 known hn along⟩

theorem path_label_ok {n : ForestNode} (hn : q.forest.nodes[i]? = some n) :
    q.path label = .ok (.bound label i none) := by
  have split := Text.path_without_rest_iff.mpr ⟨rfl, identifier⟩
  exact path_ok_iff.mpr ⟨split.1, .node split.2 known hn⟩

end AtJoin

/-- `label` is the alias of a node of the entity. -/
structure Names (q : Query) (label entity : String) : Prop where
  identifier : Text.isIdentifier label = true
  known : ∃ i n, q.scope.find? label = some (.join i) ∧ q.forest.nodes[i]? = some n ∧
    n.entity = entity

namespace Names
variable {label entity : String}

theorem keep (h : q.Names label entity) (later : q.Extends r) : r.Names label entity := by
  obtain ⟨i, n, known, hn, rfl⟩ := h.known
  obtain ⟨m, hm, same⟩ := later.node hn
  exact ⟨h.identifier, i, m, later.scope label _ known, hm, (ForestNode.bare_eq_iff.mp same).2.2.1⟩

/-- What follows the alias of a node has to lead on from its entity. -/
theorem path_ok_iff (h : q.Names label entity) {field : String} :
    (∃ p, q.path (label ++ "." ++ field) = .ok p) ↔
      ∃ attributes, q.basis.schema.attributesAlong entity field = .ok attributes := by
  obtain ⟨i, n, known, hn, rfl⟩ := h.known
  constructor
  · rintro ⟨p, resolved⟩
    have parts := Text.headAndRest_dot (Text.ne_dot_of_isIdentifier h.identifier) field
    obtain ⟨-, resolves⟩ := Query.path_ok_iff.mp resolved
    generalize label ++ "." ++ field = text at parts resolves
    cases resolves with
    | node whole => cases parts.symm.trans whole
    | field split found there along =>
      cases parts.symm.trans split
      cases known.symm.trans found
      cases hn.symm.trans there
      exact ⟨_, along⟩
    | item whole => cases parts.symm.trans whole
  · rintro ⟨attributes, along⟩
    exact ⟨_, path_field_ok h.identifier known hn along⟩

/-- A relation is joined from a node of the entity that has it to a node of the entity to which it
leads. -/
theorem of_join {path label : String} {mode : JoinMode} {fetch : Bool}
    (joined : q.join path label mode fetch = .ok r) : q.Extends r ∧ ∃ base owner target a,
      path = base ++ "." ++ a.name ∧ Text.isIdentifier a.name = true ∧ q.Names base owner ∧
      q.basis.schema.attributeOf owner a.name = .ok a ∧ a.target? = some target ∧
      r.Names label target := by
  obtain ⟨base, i, n, a, target, rfl, identifier, relation, other, known, hn, found, reached, free,
    rfl⟩ := join_ok_iff.mp joined
  have below :
      (q.putNode label target (.relation i (.ofAttribute a)) mode fetch).Names label target :=
    ⟨other, q.forest.size, _, AliasScope.find?_put_self _, getElem?_putNode .., rfl⟩
  exact ⟨.putNode free .., base, n.entity, target, a, rfl, relation,
    ⟨identifier, i, n, known, hn, rfl⟩, found, reached, below⟩

end Names

/-- Behind the alias of a joined relation a path leads on as behind the path of the relation, also
after more steps. -/
theorem path_of_join_iff {path label field : String} {mode : JoinMode} {fetch : Bool}
    (joined : q.join path label mode fetch = .ok r) (steps : List QueryStep) :
    (∃ p, (r.run steps).path (label ++ "." ++ field) = .ok p) ↔
      ∃ p, (r.run steps).path (path ++ "." ++ field) = .ok p := by
  obtain ⟨grown, base, owner, target, a, rfl, identifier, above, found, reached, below⟩ :=
    Names.of_join joined
  have later := Extends.run r steps
  have basis := (grown.trans later).basis
  have along : q.basis.schema.attributesAlong owner a.name = .ok [a] :=
    (Schema.attributesAlong_name_iff identifier).mpr ⟨a, found, rfl⟩
  have split : base ++ "." ++ a.name ++ "." ++ field = base ++ "." ++ (a.name ++ "." ++ field) := by
    simp only [String.append_assoc]
  rw [(below.keep later).path_ok_iff, split, (above.keep (grown.trans later)).path_ok_iff, basis]
  simp only [Schema.attributesAlong_append_iff, along]
  constructor
  · rintro ⟨cs, onward⟩
    exact ⟨_, [a], a, target, cs, rfl, rfl, reached, onward, rfl⟩
  · rintro ⟨_, bs, b, entity, cs, made, last, reaches, onward, rfl⟩
    cases made
    cases last
    cases reached.symm.trans reaches
    exact ⟨cs, onward⟩

/-- Paths of attributes compose: one behind another and a dot resolves exactly if the first one does
and the second one does from the entity where the first ends, and to the attributes of both. Each
attribute has the name of its segment and is one of the entity to which the one before it leads. So
an alias of a joined relation stands for the path of the relation. -/
theorem paths_compose :
    (∀ (s : Schema) (entity path more : String) (as : List Attribute),
      s.attributesAlong entity (path ++ "." ++ more) = .ok as ↔ ∃ bs b target cs,
        s.attributesAlong entity path = .ok bs ∧ bs.getLast? = some b ∧
        b.target? = some target ∧ s.attributesAlong target more = .ok cs ∧ as = bs ++ cs) ∧
    (∀ (s : Schema) (entity path : String) (as : List Attribute),
      s.attributesAlong entity path = .ok as →
        as.map Attribute.name = Text.segments path ∧
        (∀ a ∈ as.head?, s.attributeOf entity a.name = .ok a) ∧ as.IsChain s.LeadsTo) ∧
    ∀ (q r : Query) (path label : String) (mode : JoinMode) (fetch : Bool),
      q.join path label mode fetch = .ok r → ∀ (steps : List QueryStep) (field : String),
        (∃ p, (r.run steps).path (label ++ "." ++ field) = .ok p) ↔
          ∃ p, (r.run steps).path (path ++ "." ++ field) = .ok p := by
  refine ⟨fun s entity path more as => Schema.attributesAlong_append_iff, ?_, ?_⟩
  · intro s entity path as resolved
    obtain ⟨-, leads⟩ := Schema.resolves_iff.mp (Schema.attributesAlong_ok_iff.mp resolved)
    exact (Schema.leads_iff.mp leads).2
  · intro q r path label mode fetch joined steps field
    exact path_of_join_iff joined steps

/-- The owner of a document has a name, and so does who is joined as the owner. -/
theorem paths_compose_owner :
    Schema.ofDocuments.attributesAlong "Document" ("owner" ++ "." ++ "name") =
        .ok [.association "owner" "Person", .basic "name"] ∧
      ∃ r, ofDocuments.join "d.owner" "o" .left false = .ok r ∧
        ∃ p, (r.run [.take 1]).path ("o" ++ "." ++ "name") = .ok p := by
  obtain ⟨compose, -, joined⟩ := paths_compose
  refine ⟨(compose _ _ _ _ _).mpr ⟨[.association "owner" "Person"], .association "owner" "Person",
    "Person", [.basic "name"], by decide, rfl, rfl, by decide, rfl⟩, _, rfl, ?_⟩
  refine (joined ofDocuments _ "d.owner" "o" .left false rfl [.take 1] "name").mpr ?_
  exact ⟨.bound "d.owner.name" 0 (some "owner.name"), by rfl⟩

end Query
end EntityQuery
