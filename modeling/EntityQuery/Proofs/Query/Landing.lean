import EntityQuery.Proofs.Expression.Endless
import EntityQuery.Proofs.FreshAlias
import EntityQuery.Proofs.Query.Rendering

/-!
# Where select aliases lead

An item is bound before its own alias is there, so that it can name no alias but one of an item
before it. From alias to alias the items come ever earlier, until one is bound to a node or
computed. Hence the text of every query that is built has an end, and an alias is written as its
item is.
-/

namespace EntityQuery

/-- Labels are identifiers, and an item that is a free path names an alias of an item before it. -/
structure InOrder (items : List SelectedItem) : Prop where
  identifiers : ∀ i ∈ items, ∀ label, i.label = some label → Text.isIdentifier label = true
  earlier : ∀ (j : Nat) (p : Path) (label : Option String),
    items[j]? = some ⟨.path p, label⟩ → p.node = none →
      ∃ i < j, ∃ e, items[i]? = some ⟨e, some p.text⟩

theorem InOrder.append {items : List SelectedItem} (h : InOrder items) {e : Expression}
    {label : Option String} (identifier : ∀ l, label = some l → Text.isIdentifier l = true)
    (known : ∀ p, e = .path p → p.node = none → ∃ f, ⟨f, some p.text⟩ ∈ items) :
    InOrder (items ++ [⟨e, label⟩]) where
  identifiers i hi l hl := by
    rcases List.mem_append.mp hi with hi | hi
    · exact h.identifiers i hi l hl
    · obtain rfl := List.mem_singleton.mp hi
      exact identifier l hl
  earlier j p l hj free := by
    have old : ∀ {i : Nat} {f : Expression}, items[i]? = some ⟨f, some p.text⟩ →
        (items ++ [⟨e, label⟩])[i]? = some ⟨f, some p.text⟩ := by
      intro i f hi
      rw [List.getElem?_append_left (List.getElem?_eq_some_iff.mp hi).1, hi]
    rcases getElem?_append_singleton hj with before | ⟨rfl, new⟩
    · obtain ⟨i, hij, f, hi⟩ := h.earlier j p l before free
      exact ⟨i, hij, f, old hi⟩
    · obtain ⟨rfl, -⟩ := SelectedItem.mk.inj new
      obtain ⟨f, hf⟩ := known p rfl free
      obtain ⟨i, hi⟩ := List.mem_iff_getElem?.mp hf
      exact ⟨i, (List.getElem?_eq_some_iff.mp hi).1, f, old hi⟩

namespace Query
variable {P : Expression → Prop} {q r : Query}

/-- A free path that something was bound to names an item. -/
theorem Binds.names {p : Path} (h : q.Binds P (.path p)) (free : p.node = none) :
    ∃ e, q.scope.find? p.text = some (.item e) := by
  obtain ⟨source, -, hb⟩ := h
  obtain ⟨a, rfl, ha⟩ := path_of_bind hb
  cases hnode : a.node with
  | some i =>
    obtain rfl := (bindPath_bound hnode).mp ha
    cases free.symm.trans hnode
  | none =>
    obtain ⟨b, resolved, rfl⟩ := (bindPath_free hnode).mp ha
    cases (path_ok_iff.mp resolved).2 with
    | node => cases free
    | field => cases free
    | item whole hfind => exact ⟨_, (Path.text_ofText a.text).symm ▸ hfind⟩

theorem Grows.inOrder (h : Grows P q r) (s : q.Selected) (o : InOrder q.items) :
    InOrder r.items := by
  have known : ∀ {e}, q.Binds P e → ∀ p, e = .path p → p.node = none →
      ∃ f, ⟨f, some p.text⟩ ∈ q.items := by
    rintro e binds p rfl free
    obtain ⟨f, hf⟩ := binds.names free
    exact ⟨f, (s.items p.text f).mp hf⟩
  obtain ⟨-, cases⟩ := h.cases
  rcases cases with ⟨label, entity, origin, mode, fetch, -, -, -, -, -, items⟩ |
    ⟨e, label, identifier, -, binds, -, -, items⟩ | ⟨e, binds, -, -, items⟩ | ⟨-, -, items⟩
  · exact items ▸ o
  · rw [items]
    refine o.append (fun l hl => ?_) (known binds)
    exact Option.some.inj hl ▸ identifier
  · rw [items]
    exact o.append nofun (known binds)
  · exact items ▸ o

theorem inOrder_of_start {basis : QueryBasis} {entity label : String} {first : Query}
    (h : start basis entity label = .ok first) (steps : List QueryStep) :
    InOrder (first.run steps).items := by
  have grown : Relation.ReflTransGen (Grows fun _ => True) (empty basis) (first.run steps) :=
    start_grows h fun s _ => s.all_true
  have invariant := grown_keeps (I := fun q => q.Selected ∧ InOrder q.items)
    (fun _ _ ⟨s, o⟩ grows => ⟨grows.selected s, grows.inOrder s o⟩)
    ⟨selected_empty basis, nofun, nofun⟩ grown
  exact invariant.2

/-- The path of an item is at an end after at most as many aliases as there are items before. -/
theorem Selected.leads_of_item (s : q.Selected) (o : InOrder q.items) {j : Nat} {p : Path}
    {label : Option String} (h : q.items[j]? = some ⟨.path p, label⟩) :
    ∃ n x, n ≤ j ∧ q.scope.Leads n p x := by
  induction j using Nat.strongRecOn generalizing p label with
  | ind j ih =>
    cases hnode : p.node with
    | some k => exact ⟨0, p, Nat.zero_le j, .bound (by simp [hnode])⟩
    | none =>
      obtain ⟨i, hij, e, hi⟩ := o.earlier j p label h hnode
      have hfind := (s.items p.text e).mpr (List.mem_of_getElem? hi)
      apply AliasScope.exists_leads hnode hfind
      rintro a rfl
      obtain ⟨n, x, hn, leads⟩ := ih i hij hi
      exact ⟨n, x, by omega, leads⟩

/-- An alias is at an end after at most as many steps as there are items. -/
theorem Selected.leads (s : q.Selected) (o : InOrder q.items) {label : String} {e : Expression}
    (h : q.scope.find? label = some (.item e)) :
    ∃ n x, n ≤ q.items.length ∧ q.scope.Leads n (.ofText label) x := by
  have named : q.scope.find? (Path.ofText label).text = some (.item e) := by
    rw [Path.text_ofText, h]
  apply AliasScope.exists_leads rfl named
  rintro a rfl
  obtain ⟨j, hj⟩ := List.mem_iff_getElem?.mp ((s.items label _).mp h)
  obtain ⟨n, x, hn, leads⟩ := s.leads_of_item o hj
  have before := (List.getElem?_eq_some_iff.mp hj).1
  exact ⟨n, x, by omega, leads⟩

theorem Selected.not_goesRound (s : q.Selected) (o : InOrder q.items) (p : Path) :
    ¬ q.scope.GoesRound p := by
  intro round
  obtain ⟨a, step, again⟩ := round.exists_step
  obtain ⟨j, hj⟩ := List.mem_iff_getElem?.mp ((s.items p.text _).mp step.names)
  obtain ⟨n, x, -, leads⟩ := s.leads_of_item o hj
  have ended := AliasScope.follow_of_leads leads (Nat.lt_succ_self n)
  rw [again.follow] at ended
  cases ended

/-! Rendering has an end. -/

open Outcome (FailsOnly failsOnly_ok failsOnly_of_ok failsOnly_bind failsOnly_mapM)

/-- The fault is not the one that stands for rendering without end. -/
def Ends (err : QueryError) : Prop := ∀ label, err ≠ .aliasEndless label

theorem node_ends (t : JoinForest) (i : Nat) : FailsOnly Ends (t.node i) := by
  rw [JoinForest.node]
  split
  · exact failsOnly_ok _
  · intro err h label same
    cases h
    cases same

theorem schema_ends {α : Type} {x : Except QueryError α}
    (h : FailsOnly (fun err => ∃ fault, err = .schema fault) x) : FailsOnly Ends x :=
  h.mono fun _ ⟨_, same⟩ _ => same ▸ nofun

theorem expand_ends (w : SizeExpansion) (e : Expression) : FailsOnly Ends (w.expand e) := by
  have size : ∀ p i, FailsOnly Ends (w.size p i) := by
    intro p i
    refine failsOnly_bind (node_ends _ _) fun owner _ => ?_
    split
    · exact fun err h label => by cases h; nofun
    refine failsOnly_bind (schema_ends (Schema.entity_failsOnly _ _)) fun entity _ => ?_
    refine failsOnly_bind (schema_ends (Schema.attributeOf_failsOnly _ _ _)) fun a _ => ?_
    split
    · exact failsOnly_ok _
    · exact fun err h label => by cases h; nofun
  induction e using Expression.byParts with
  | call f as ih =>
    rcases w.expand_call f as with ⟨p, i, -, -, -, eq⟩ | ⟨-, eq⟩ | ⟨-, eq⟩
    · exact eq ▸ size p i
    · exact eq ▸ failsOnly_ok _
    · rw [eq]
      exact failsOnly_bind (failsOnly_mapM ih) fun bs _ => failsOnly_ok _
  | path p => exact failsOnly_ok _
  | parameter n v => exact failsOnly_ok _
  | element p i => exact failsOnly_ok _
  | literal l => exact failsOnly_ok _
  | subquery s e a js cs => exact failsOnly_ok _

theorem render_ends (ends : ∀ p, ¬ q.scope.GoesRound p) (e : Expression) :
    FailsOnly Ends (q.renderer.render e) := by
  rintro err h label rfl
  obtain ⟨-, p, -, -, round⟩ := Renderer.endless_iff.mp h
  exact ends p round

theorem faultsIn_ends (w : Wired q.basis.schema q.forest.nodes q.scope)
    (ends : ∀ p, ¬ q.scope.GoesRound p) : q.FaultsIn Ends where
  transform clause e _ := by
    rw [SizeExpansion.transform]
    split
    · exact failsOnly_ok _
    · exact expand_ends _ _
  render _ _ _ _ _ := render_ends ends _
  above n hn := by
    obtain ⟨root, hroot⟩ := w.ranked.rootAbove_ok hn
    exact failsOnly_of_ok hroot
  joined n _ := by
    rw [joinedText]
    split
    · exact failsOnly_bind (node_ends _ _) fun _ _ => failsOnly_ok _
    · exact failsOnly_ok _
    · exact failsOnly_ok _

/-! An alias is written as what it leads to. -/

theorem path_of_leads (resolves : q.basis.resolveAliases = true) {n : Nat} {p x : Path}
    (h : q.scope.Leads n p x) : q.renderer.path p = q.renderer.written x := by
  have ended := AliasScope.resolve_of_follow (AliasScope.follow_of_leads h (Nat.lt_succ_self n))
  have stands : q.renderer.standsFor p = .ok x := (if_pos resolves).trans ended
  rw [Renderer.path_eq, stands]
  rfl

theorem clauseText_path (clause : Clause) (p : Path) :
    q.clauseText clause (.path p) = q.renderer.path p := by
  have same : q.sizeExpansion.transform clause (.path p) = .ok (.path p) := by
    rw [SizeExpansion.transform]
    split <;> rfl
  rw [clauseText, same]
  rfl

theorem bind_label {label : String} {e : Expression} (identifier : Text.isIdentifier label = true)
    (h : q.scope.find? label = some (.item e)) :
    q.bind (.ofPathText label) = .ok (.ofPathText label) :=
  bind_ofPathText (path_ok_iff.mpr ⟨Text.checkPath_of_isIdentifier identifier,
    .item (Text.headAndRest_of_isIdentifier identifier) h⟩)

/-- Every select alias comes to an end, and so does the text of the query. -/
structure Lands (q : Query) : Prop where
  /-- An item that is a free path names an alias that was selected before it. -/
  earlier : ∀ (j : Nat) (p : Path) (label : Option String),
    q.items[j]? = some ⟨.path p, label⟩ → p.node = none →
      ∃ i < j, ∃ e, q.items[i]? = some ⟨e, some p.text⟩
  /-- An alias leads to a bound path or to an alias of something computed. -/
  leads : ∀ label e, q.scope.find? label = some (.item e) →
    ∃ n x, n ≤ q.items.length ∧ q.scope.Leads n (.ofText label) x ∧
      (q.basis.resolveAliases = true → x.node = none →
        q.renderer.path (.ofText label) = .ok x.text)
  /-- No alias, no way up from a node and no search for a free alias goes on for ever. -/
  ends : (∀ label, q.text ≠ .error (.aliasEndless label)) ∧
    (∀ n ∈ q.forest.nodes, ∃ root, q.forest.rootAbove n.id = .ok root) ∧
    ∀ base, q.scope.isAvailable (q.scope.generate base) = true
  /-- In every clause an alias is written as its item is. -/
  written : q.basis.resolveAliases = true → ∀ p label, ⟨.path p, some label⟩ ∈ q.items →
    ∀ clause, q.bind (.ofPathText label) = .ok (.ofPathText label) ∧
      q.clauseText clause (.ofPathText label) = q.clauseText .select (.path p)

theorem lands_of_inOrder (w : Wired q.basis.schema q.forest.nodes q.scope) (s : q.Selected)
    (o : InOrder q.items) : q.Lands where
  earlier := o.earlier
  leads label e h := by
    obtain ⟨n, x, hn, leads⟩ := s.leads o h
    refine ⟨n, x, hn, leads, fun resolves free => ?_⟩
    rw [path_of_leads resolves leads, Renderer.written, free]
  ends := ⟨fun label h => (faultsIn_ends w (s.not_goesRound o)).text _ h label rfl,
    fun _ hn => w.ranked.rootAbove_ok hn, q.scope.isAvailable_generate⟩
  written resolves p label hitem clause := by
    have hfind := (s.items label _).mpr hitem
    refine ⟨bind_label (o.identifiers _ hitem label rfl) hfind, ?_⟩
    obtain ⟨j, hj⟩ := List.mem_iff_getElem?.mp hitem
    obtain ⟨n, x, -, leads⟩ := s.leads_of_item o hj
    have named : q.scope.find? (Path.ofText label).text = some (.item (.path p)) := by
      rw [Path.text_ofText, hfind]
    rw [Expression.ofPathText, clauseText_path, clauseText_path, path_of_leads resolves leads,
      path_of_leads resolves (.next rfl named leads)]

/-- In every query that is built select aliases lead to an end. -/
theorem lands_run {basis : QueryBasis} {entity label : String} {first : Query}
    (h : start basis entity label = .ok first) (steps : List QueryStep) :
    (first.run steps).Lands := by
  have grown : Relation.ReflTransGen (Grows fun _ => True) (empty basis) (first.run steps) :=
    start_grows h fun s _ => s.all_true
  have invariant := grown_keeps
    (I := fun q => Wired q.basis.schema q.forest.nodes q.scope ∧ q.Selected ∧ InOrder q.items)
    (fun _ _ ⟨w, s, o⟩ grows => ⟨grows.wired w, grows.selected s, grows.inOrder s o⟩)
    ⟨wired_empty basis, selected_empty basis, nofun, nofun⟩ grown
  exact lands_of_inOrder invariant.1 invariant.2.1 invariant.2.2

/-- The name is selected, then its alias, then something computed and the alias of this. -/
theorem lands_run_documents :
    let steps : List QueryStep :=
      [.selectByPath "d.name" (some "n"), .selectByPath "n" (some "m"),
        .select (.call "UPPER" [.ofPathText "m"]) (some "u"), .selectByPath "u" (some "v"),
        .groupBy (.ofPathText "m"), .orderBy (.ofPathText "v") true]
    let q := ofDocuments.run steps
    start .ofDocuments "Document" "d" = .ok ofDocuments ∧ q.Lands ∧
      q.text = .ok ("SELECT d.name AS n, d.name AS m, UPPER(d.name) AS u, u AS v " ++
        "FROM Document d GROUP BY d.name ORDER BY u ASC") := by
  intro steps q
  exact ⟨start_ofDocuments, lands_run start_ofDocuments steps, by decide +kernel⟩

end Query
end EntityQuery
