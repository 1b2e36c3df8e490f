import EntityQuery.Proofs.Query.Landing

/-!
# What was resolved stays

A query only ever gains nodes, aliases and items, and a node keeps its label and its relation. So a
text stays the same path, a path stays the same text, and what was bound is bound to itself for
good. The one path without a text is an alias of an item that was bound by hand to a missing node.
-/

namespace EntityQuery

namespace Query
variable {q r : Query}

/-! Nodes are written in the same way after the query has grown. -/

theorem Extends.boundPath (h : q.Extends r) {m n : ForestNode} (same : m.bare = n.bare)
    (p : Path) : r.renderer.boundPath p m = q.renderer.boundPath p n := by
  obtain ⟨-, label, -, origin, -, -⟩ := ForestNode.bare_eq_iff.mp same
  have indexed : m.isIndexed = n.isIndexed := by
    rw [ForestNode.isIndexed, ForestNode.isIndexed, ForestNode.relation?, ForestNode.relation?,
      origin]
  have value : r.renderer.valueFunction? p m = q.renderer.valueFunction? p n := by
    rw [Renderer.valueFunction?, Renderer.valueFunction?, indexed]
    show (if _ then r.basis.profile.valueFunction else none) = _
    rw [h.basis]
    rfl
  have mark : r.renderer.aliasMark = q.renderer.aliasMark := congrArg QueryBasis.aliasMark h.basis
  rw [Renderer.boundPath, Renderer.boundPath, value, mark, label]

theorem Extends.written (h : q.Extends r) {p : Path} {t : String}
    (hp : q.renderer.written p = .ok t) : r.renderer.written p = .ok t := by
  cases hnode : p.node with
  | none =>
    rw [Renderer.written, hnode] at hp ⊢
    exact hp
  | some i =>
    have opened := hp
    rw [Renderer.written, hnode] at opened
    obtain ⟨n, hn, -⟩ := Outcome.bind_ok_iff.mp opened
    obtain ⟨m, hm, same⟩ := h.node (JoinForest.node_ok_iff.mp hn)
    rw [Renderer.written_bound hnode hn] at hp
    rw [Renderer.written_bound hnode (JoinForest.node_ok_iff.mpr hm), h.boundPath same, hp]

/-- Where aliases are not replaced, a path is written as it is. -/
theorem path_unresolved (unresolved : q.basis.resolveAliases = false) (p : Path) :
    q.renderer.path p = q.renderer.written p := by
  rw [Renderer.path_eq, Renderer.standsFor]
  show (if q.basis.resolveAliases then _ else _) >>= _ = _
  rw [unresolved]
  rfl

/-- A path whose aliases come to an end keeps its text. -/
theorem Extends.renderer_path (h : q.Extends r) {k : Nat} {p x : Path}
    (leads : q.scope.Leads k p x) {t : String} (hp : q.renderer.path p = .ok t) :
    r.renderer.path p = .ok t := by
  have basis : r.basis.resolveAliases = q.basis.resolveAliases :=
    congrArg QueryBasis.resolveAliases h.basis
  by_cases resolves : q.basis.resolveAliases = true
  · rw [path_of_leads resolves leads] at hp
    rw [path_of_leads (basis.trans resolves) (leads.mono h.scope)]
    exact h.written hp
  · have unresolved : q.basis.resolveAliases = false := by simpa using resolves
    rw [path_unresolved unresolved] at hp
    rw [path_unresolved (basis.trans unresolved)]
    exact h.written hp

theorem Selected.leads_of_path (s : q.Selected) (o : InOrder q.items) {text : String} {p : Path}
    (h : q.path text = .ok p) : ∃ k x, q.scope.Leads k p x := by
  cases (path_ok_iff.mp h).2 with
  | node => exact ⟨0, _, .bound rfl⟩
  | field => exact ⟨0, _, .bound rfl⟩
  | item whole hfind =>
    obtain ⟨k, x, -, leads⟩ := s.leads o hfind
    exact ⟨k, x, leads⟩

/-- An item is a path that was bound by hand to a node which is not there. -/
def Dangles (q : Query) (i : Nat) : Prop :=
  q.forest.nodes[i]? = none ∧ ∃ p label, ⟨.path p, label⟩ ∈ q.items ∧ p.node = some i

/-- A path is written as it is unless it is bound to a missing node. -/
theorem written_cases (q : Query) (p : Path) :
    (∃ t, q.renderer.written p = .ok t) ∨
      ∃ i, p.node = some i ∧ q.forest.nodes[i]? = none ∧
        q.renderer.written p = .error (.nodeUnknown i) := by
  rw [Renderer.written]
  cases hnode : p.node with
  | none => exact .inl ⟨p.text, rfl⟩
  | some i =>
    cases found : q.forest.nodes[i]? with
    | some n =>
      have there : q.renderer.forest.node i = .ok n := JoinForest.node_ok_iff.mpr found
      exact .inl ⟨_, Outcome.bind_ok_iff.mpr ⟨n, there, rfl⟩⟩
    | none =>
      refine .inr ⟨i, rfl, found, ?_⟩
      show q.forest.node i >>= _ = _
      rw [JoinForest.node, found]
      rfl

/-- What a text is resolved to is rendered, unless it is an alias of such an item. -/
theorem path_rendered (s : q.Selected) (o : InOrder q.items) {text : String} {p : Path}
    (h : q.path text = .ok p) :
    (∃ t, q.renderer.path p = .ok t) ∨
      ∃ i, q.Dangles i ∧ q.renderer.path p = .error (.nodeUnknown i) := by
  -- only an item can be bound by hand, for a text leads to a node that is there
  have there : ∀ i, p.node = some i → q.forest.nodes[i]? ≠ none := by
    intro i bound missing
    cases (path_ok_iff.mp h).2 with
    | node whole hfind hn =>
      cases bound
      rw [hn] at missing
      cases missing
    | field parts hfind hn =>
      cases bound
      rw [hn] at missing
      cases missing
    | item => cases bound
  by_cases resolves : q.basis.resolveAliases = true
  · obtain ⟨k, x, leads⟩ := s.leads_of_path o h
    rw [path_of_leads resolves leads]
    rcases q.written_cases x with written | ⟨i, bound, missing, fault⟩
    · exact .inl written
    · refine .inr ⟨i, ⟨missing, ?_⟩, fault⟩
      by_cases free : p.node = none
      · obtain ⟨label, item⟩ := leads.exists_alias free bound
        exact ⟨x, some label, (s.items label _).mp item, bound⟩
      · obtain ⟨j, hj⟩ := Option.ne_none_iff_exists'.mp free
        obtain rfl := leads.eq_of_bound hj
        cases there i bound missing
  · have unresolved : q.basis.resolveAliases = false := by simpa using resolves
    rw [path_unresolved unresolved]
    rcases q.written_cases p with written | ⟨i, bound, missing, -⟩
    · exact .inl written
    · cases there i bound missing

/-- What `q` resolves, renders and binds is in `r` what it is in `q`. -/
structure Keeps (q r : Query) : Prop where
  paths : ∀ text p, q.path text = .ok p → r.path text = .ok p
  texts : ∀ text p, q.path text = .ok p →
    (∃ t, q.renderer.render (.path p) = .ok t ∧ r.renderer.render (.path p) = .ok t) ∨
      ∃ i, q.Dangles i ∧ q.renderer.render (.path p) = .error (.nodeUnknown i)
  bound : ∀ e b, q.bind e = .ok b → r.bind e = .ok b ∧ r.bind b = .ok b

/-- Further steps change nothing that was resolved, rendered or bound before them. -/
theorem keeps_run {basis : QueryBasis} {entity label : String} {first : Query}
    (h : start basis entity label = .ok first) (steps more : List QueryStep) :
    (first.run steps).Keeps ((first.run steps).run more) := by
  have grown : (first.run steps).Extends ((first.run steps).run more) := .run _ more
  have selected : (first.run steps).Selected := selected_of_start h steps
  have order : InOrder (first.run steps).items := inOrder_of_start h steps
  constructor
  · intro text p resolved
    exact grown.path resolved
  · intro text p resolved
    obtain ⟨k, x, leads⟩ := selected.leads_of_path order resolved
    refine (path_rendered selected order resolved).imp_left ?_
    rintro ⟨t, rendered⟩
    exact ⟨t, rendered, grown.renderer_path leads rendered⟩
  · intro e b binds
    exact ⟨grown.bind binds, grown.bind_again binds⟩

/-- The name is selected and a key bound, then a root and two joins with later aliases come. -/
theorem keeps_run_documents :
    let steps : List QueryStep :=
      [.join "d.contacts" "c" .left false, .selectByPath "c.name" (some "n")]
    let more : List QueryStep :=
      [.root "Person" "p", .join "d.partners" "s" .left false, .selectByPath "s.name" (some "m"),
        .select (.ofPathText "p") (some "n")]
    let q := ofDocuments.run steps
    let key := Expression.call "KEY" [.ofPathText "c"]
    let bound := Expression.call "KEY" [.path { Path.bound "c" 1 none with
      keyed := true, wrapped := true }]
    start .ofDocuments "Document" "d" = .ok ofDocuments ∧ q.Keeps (q.run more) ∧
      q.path "n" = .ok (.ofText "n") ∧
      q.renderer.render (.ofPathText "n") = .ok "VALUE(c).name" ∧
      (q.run more).renderer.render (.ofPathText "n") = .ok "VALUE(c).name" ∧
      q.bind key = .ok bound ∧ (q.run more).bind bound = .ok bound ∧
      (q.run more).text = .ok ("SELECT VALUE(c).name AS n, s.name AS m FROM Document d " ++
        "LEFT JOIN d.contacts c LEFT JOIN d.partners s, Person p") := by
  intro steps more q key bound
  have keeps := keeps_run start_ofDocuments steps more
  have binds : q.bind key = .ok bound := by rfl
  refine ⟨start_ofDocuments, keeps, by decide +kernel, by decide +kernel, by decide +kernel, binds,
    (keeps.bound key bound binds).2, by decide +kernel⟩

/-- An alias of a path that was bound by hand to a missing node has a text when a node has come. -/
theorem keeps_dangling :
    let q := ofDocuments.run [.select (.path (.bound "c" 1 none)) (some "n")]
    let r := q.run [.join "d.contacts" "c" .left false]
    start .ofDocuments "Document" "d" = .ok ofDocuments ∧ q.path "n" = .ok (.ofText "n") ∧
      q.renderer.render (.path (.ofText "n")) = .error (.nodeUnknown 1) ∧
      r.renderer.render (.path (.ofText "n")) = .ok "VALUE(c)" := by
  exact ⟨start_ofDocuments, by decide +kernel, by decide +kernel, by decide +kernel⟩

end Query
end EntityQuery
