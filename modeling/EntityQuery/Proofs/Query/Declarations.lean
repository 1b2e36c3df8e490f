import EntityQuery.Proofs.Query.FromClause

/-!
# The names that a query declares

A FROM clause declares the alias of every node once: those of a root and the nodes below it, then
those of the next root. So the place of a node is given by the number of its root and its own.
Marked aliases are as different as the aliases are, but no mark is put before the alias of an item,
and so an item may have the name of a marked node.
-/

namespace EntityQuery
namespace JoinForest
variable {t : JoinForest} {schema : Schema} {scope : AliasScope}

theorem EndsAt.exists_node {i k : Nat} (h : t.EndsAt i k) : ∃ n, t.nodes[i]? = some n := by
  cases h with
  | root hn => exact ⟨_, hn⟩
  | up hn => exact ⟨_, hn⟩

/-- The way up leads to smaller numbers. -/
theorem EndsAt.le (w : Wired schema t.nodes scope) {i k : Nat} (h : t.EndsAt i k) : k ≤ i := by
  induction h with
  | root => exact Nat.le_refl _
  | up hn above _ ih =>
    have less := w.ordered _ _ _ hn above
    omega

theorem EndsAt.of_root (w : Wired schema t.nodes scope) {root : ForestNode}
    (h : root ∈ t.roots) : t.EndsAt root.id root.id := by
  obtain ⟨member, top⟩ := List.mem_filter.mp h
  obtain ⟨i, hi⟩ := List.mem_iff_getElem?.mp member
  rw [w.numbered i root hi]
  exact .root hi (ForestNode.parent?_eq_none_iff.mpr top)

end JoinForest

namespace Query
variable {q : Query} {schema : Schema} {scope : AliasScope}

/-- The segments that write the FROM clause. -/
def segments (q : Query) : List Segment :=
  q.forest.roots.map fun root => ⟨root, q.forest.below root.id⟩

/-- The nodes in the order in which the FROM clause declares their aliases. -/
def declared (q : Query) : List ForestNode := q.segments.flatMap fun s => s.root :: s.joins

/-- The alias of `m` is declared before that of `n`, or is the same. -/
def NoLater (q : Query) (m n : ForestNode) : Prop :=
  ∃ before after, q.declared = before ++ n :: after ∧ (m = n ∨ m ∈ before)

/-- The root of `m` was added before that of `n`, or it is the same and `m` was. -/
def Ahead (t : JoinForest) (m n : ForestNode) : Prop :=
  ∃ k l, t.EndsAt m.id k ∧ t.EndsAt n.id l ∧ (k < l ∨ k = l ∧ m.id < n.id)

theorem declared_eq (q : Query) :
    q.declared = q.forest.roots.flatMap fun root => root :: q.forest.below root.id := by
  rw [declared, segments, List.flatMap_map]

theorem mem_declared (w : Wired schema q.forest.nodes scope) {n : ForestNode} :
    n ∈ q.declared ↔ n ∈ q.forest.nodes := by
  rw [declared_eq, List.mem_flatMap]
  constructor
  · rintro ⟨root, hroot, h⟩
    rcases List.mem_cons.mp h with rfl | below
    · exact List.mem_of_mem_filter hroot
    · exact ((JoinForest.mem_below_iff w).mp below).1
  · intro hn
    obtain ⟨i, hi⟩ := List.mem_iff_getElem?.mp hn
    by_cases top : n.isRoot = true
    · exact ⟨n, List.mem_filter.mpr ⟨hn, top⟩, List.mem_cons_self⟩
    · obtain ⟨k, ends⟩ := w.ranked.exists_endsAt hn
      obtain ⟨root, hroot, isRoot⟩ := ends.exists_root
      rw [← w.numbered k root hroot] at ends
      have below : n ∈ q.forest.below root.id :=
        (JoinForest.mem_below_iff w).mpr ⟨hn, by simpa using top, ends⟩
      exact ⟨root, List.mem_filter.mpr ⟨List.mem_of_getElem? hroot, isRoot⟩,
        List.mem_cons_of_mem root below⟩

theorem declared_ahead (w : Wired schema q.forest.nodes scope) :
    q.declared.Pairwise (Ahead q.forest) := by
  have increasing := w.ranked.increasing
  -- the root of a segment, and what stands below it, ends at this root
  have ends : ∀ root ∈ q.forest.roots, ∀ n ∈ root :: q.forest.below root.id,
      q.forest.EndsAt n.id root.id := by
    intro root hroot n hn
    rcases List.mem_cons.mp hn with rfl | below
    · exact .of_root w hroot
    · exact ((JoinForest.mem_below_iff w).mp below).2.2
  rw [declared_eq, List.pairwise_flatMap]
  constructor
  · intro root hroot
    have ordered : (root :: q.forest.below root.id).Pairwise fun m n => m.id < n.id := by
      refine List.pairwise_cons.mpr ⟨?_, increasing.filter _⟩
      intro n hn
      obtain ⟨member, joined, up⟩ := (JoinForest.mem_below_iff w).mp hn
      have le := up.le w
      have other : n.id ≠ root.id := by
        intro same
        obtain ⟨i, hi⟩ := List.mem_iff_getElem?.mp member
        obtain ⟨j, hj⟩ := List.mem_iff_getElem?.mp (List.mem_of_mem_filter hroot)
        rw [w.numbered i n hi, w.numbered j root hj] at same
        subst same
        cases hi.symm.trans hj
        rw [(List.mem_filter.mp hroot).2] at joined
        cases joined
      omega
    refine ordered.imp_of_mem ?_
    intro m n hm hn less
    exact ⟨root.id, root.id, ends root hroot m hm, ends root hroot n hn, .inr ⟨rfl, less⟩⟩
  · have roots : q.forest.roots.Pairwise fun m n => m.id < n.id := increasing.filter _
    refine roots.imp_of_mem ?_
    intro first second hfirst hsecond less m hm n hn
    exact ⟨first.id, second.id, ends first hfirst m hm, ends second hsecond n hn, .inl less⟩

theorem declared_nodup (w : Wired schema q.forest.nodes scope) : q.declared.Nodup := by
  refine (declared_ahead w).imp ?_
  rintro m n ⟨k, l, hk, hl, ahead⟩ rfl
  have same := hk.unique hl
  omega

/-- A node is declared as the numbers of its root and of itself say. -/
theorem noLater_iff (w : Wired schema q.forest.nodes scope) {m n : ForestNode}
    (hm : m ∈ q.forest.nodes) (hn : n ∈ q.forest.nodes) {k l : Nat}
    (hk : q.forest.EndsAt m.id k) (hl : q.forest.EndsAt n.id l) :
    q.NoLater m n ↔ k < l ∨ k = l ∧ m.id ≤ n.id := by
  have order := declared_ahead w
  constructor
  · rintro ⟨before, after, split, rfl | earlier⟩
    · exact .inr ⟨hk.unique hl, Nat.le_refl _⟩
    · rw [split, List.pairwise_append] at order
      obtain ⟨k', l', hk', hl', ahead⟩ := order.2.2 m earlier n List.mem_cons_self
      have sameFirst := hk.unique hk'
      have sameSecond := hl.unique hl'
      omega
  · intro place
    obtain ⟨before, after, split⟩ := List.append_of_mem ((mem_declared w).mpr hn)
    refine ⟨before, after, split, ?_⟩
    have member := (mem_declared w).mpr hm
    rw [split] at member order
    rcases List.mem_append.mp member with earlier | rest
    · exact .inr earlier
    · rcases List.mem_cons.mp rest with same | later
      · exact .inl same
      · have behind := (List.pairwise_cons.mp (List.pairwise_append.mp order).2.1).1 m later
        obtain ⟨l', k', hl', hk', ahead⟩ := behind
        have sameFirst := hk.unique hk'
        have sameSecond := hl.unique hl'
        omega

/-! The names as they are written. -/

/-- What is written of the alias of an item, behind its expression. -/
def aliasText (i : SelectedItem) : String :=
  match i.label with
  | some label => s!" AS {label}"
  | none => ""

/-- What is written before the FROM clause: the items, each with its alias at the end, or else the
roots, which the FROM clause declares. -/
def Selects (q : Query) (items : String) : Prop :=
  if q.items.isEmpty then
    items = String.intercalate ", " (q.forest.roots.map fun n => q.marked n.label)
  else ∃ texts, items = String.intercalate ", " texts ∧
    List.Forall₂ (fun i text => ∃ e, q.clauseText .select i.expression = .ok e ∧
      text = e ++ aliasText i) q.items texts

theorem itemText_ok {i : SelectedItem} {text : String} (h : q.itemText i = .ok text) :
    ∃ e, q.clauseText .select i.expression = .ok e ∧ text = e ++ aliasText i := by
  obtain ⟨e, rendered, h⟩ := Outcome.bind_ok_iff.mp h
  refine ⟨e, rendered, ?_⟩
  rw [aliasText]
  cases hl : i.label with
  | none =>
    rw [hl] at h
    cases h
    exact String.append_empty.symm
  | some label =>
    rw [hl] at h
    cases h
    exact String.append_assoc

theorem selects_of_selectText {items : String} (h : q.selectText = .ok items) :
    q.Selects items := by
  rw [selectText] at h
  rw [Selects]
  split at h
  · rename_i empty
    rw [if_pos empty]
    exact (Except.ok.inj h).symm
  · rename_i some
    rw [if_neg some]
    obtain ⟨texts, written, made⟩ := Outcome.bind_ok_iff.mp h
    cases made
    exact ⟨texts, rfl, Outcome.forall₂_of_mapM_ok written fun i _ text => itemText_ok⟩

/-- A text begins with the items and the FROM clause. -/
theorem text_ok {text : String} (h : q.text = .ok text) : ∃ items roots rest,
    text = s!"SELECT {items} FROM {roots}" ++ rest ∧ q.Selects items ∧ q.fromText = .ok roots := by
  obtain ⟨items, roots, conditions, rest, selected, sources, -, rfl⟩ := text_parts h
  exact ⟨items, roots, _, String.append_assoc, selects_of_selectText selected, sources⟩

/-- The names that the text of a query declares: the aliases of its items as they are, and those
of its nodes marked. -/
def declaredNames (q : Query) : List String :=
  q.items.filterMap SelectedItem.label ++ q.declared.map fun n => q.marked n.label

theorem marked_injective (q : Query) : Function.Injective q.marked := by
  intro a b same
  exact (String.append_right_inj _).mp same

theorem marked_nodup (w : Wired schema q.forest.nodes scope) :
    (q.declared.map fun n => q.marked n.label).Nodup := by
  have nodes : q.forest.nodes.Nodup := w.labels_nodup.of_map ForestNode.label
  have perm : q.declared.Perm q.forest.nodes :=
    (List.perm_ext_iff_of_nodup (declared_nodup w) nodes).mpr fun n => mem_declared w
  have labels : (q.declared.map ForestNode.label).Nodup :=
    (perm.map ForestNode.label).nodup_iff.mpr w.labels_nodup
  have marked := labels.map q.marked_injective
  rwa [List.map_map] at marked

/-- A name is declared twice only if an item is called as a node is, with its mark. -/
theorem declaredNames_nodup_iff (w : Wired schema q.forest.nodes scope) (s : q.Selected) :
    q.declaredNames.Nodup ↔
      ∀ i ∈ q.items, ∀ n ∈ q.forest.nodes, i.label ≠ some (q.marked n.label) := by
  rw [declaredNames, List.nodup_append]
  constructor
  · rintro ⟨-, -, apart⟩ i hi n hn same
    have item : q.marked n.label ∈ q.items.filterMap SelectedItem.label :=
      List.mem_filterMap.mpr ⟨i, hi, same⟩
    have node : q.marked n.label ∈ q.declared.map fun n => q.marked n.label :=
      List.mem_map.mpr ⟨n, (mem_declared w).mpr hn, rfl⟩
    exact apart _ item _ node rfl
  · intro apart
    refine ⟨s.once, marked_nodup w, ?_⟩
    rintro name item _ node rfl
    obtain ⟨i, hi, labelled⟩ := List.mem_filterMap.mp item
    obtain ⟨n, hn, rfl⟩ := List.mem_map.mp node
    exact apart i hi n ((mem_declared w).mp hn) labelled

/-- The alias of an item is not that of a node, for they are registered together. -/
theorem label_ne_of_selected (w : Wired schema q.forest.nodes q.scope) (s : q.Selected)
    {i : SelectedItem} (hi : i ∈ q.items) {n : ForestNode} (hn : n ∈ q.forest.nodes) :
    i.label ≠ some n.label := by
  obtain ⟨e, label⟩ := i
  rintro rfl
  obtain ⟨j, hj⟩ := List.mem_iff_getElem?.mp hn
  have item := (s.items n.label e).mpr hi
  rw [w.named j n hj] at item
  cases item

/-- The text of every query that is built has the items, each with its alias at the end, and then
the FROM clause, where the segments declare the nodes. No two items and no two nodes have the same
name, and an item has that of a node exactly if it is called as the node is with its mark. Without
a mark all names that are declared differ. -/
theorem names_run {basis : QueryBasis} {entity label : String} {first : Query}
    (h : start basis entity label = .ok first) (steps : List QueryStep) :
    let q := first.run steps
    q.Lists q.segments ∧
      (∀ text, q.text = .ok text → ∃ items roots rest,
        text = s!"SELECT {items} FROM {roots}" ++ rest ∧ q.Selects items ∧ q.fromText = .ok roots) ∧
      (q.items.filterMap SelectedItem.label).Nodup ∧
      (q.declared.map fun n => q.marked n.label).Nodup ∧
      (q.declaredNames.Nodup ↔
        ∀ i ∈ q.items, ∀ n ∈ q.forest.nodes, i.label ≠ some (q.marked n.label)) ∧
      (basis.aliasMark.getD "" = "" → q.declaredNames.Nodup) := by
  intro q
  have w := wired_of_start h steps
  have s : q.Selected := selected_of_start h steps
  have criterion := declaredNames_nodup_iff w s
  refine ⟨lists_below w, fun text => text_ok, s.once, marked_nodup w, criterion, ?_⟩
  intro unmarked
  apply criterion.mpr
  intro i hi n hn
  have plain : q.marked n.label = n.label := by
    have mark : q.basis.aliasMark = basis.aliasMark :=
      congrArg QueryBasis.aliasMark (Extends.basis_run h steps)
    rw [marked, mark, unmarked, String.empty_append]
  rw [plain]
  exact label_ne_of_selected w s hi hn

/-- Joins of two roots are added in turns, and the name is selected. -/
theorem names_run_documents :
    let steps : List QueryStep :=
      [.root "Person" "p", .join "d.contacts" "c" .left false, .selectByPath "c.name" (some "n"),
        .select (.ofPathText "p") (some "c")]
    let q := ofDocuments.run steps
    start .ofDocuments "Document" "d" = .ok ofDocuments ∧ q.Lists q.segments ∧
      q.declaredNames.Nodup ∧ q.declaredNames = ["n", "d", "c", "p"] ∧
      q.text = .ok "SELECT VALUE(c).name AS n FROM Document d LEFT JOIN d.contacts c, Person p" := by
  intro steps q
  obtain ⟨lists, -, -, -, -, unmarked⟩ := names_run start_ofDocuments steps
  exact ⟨start_ofDocuments, lists, unmarked rfl, by decide +kernel, by decide +kernel⟩

/-- With a mark an item may be called as a node is written. -/
theorem names_clash :
    let basis : QueryBasis := { QueryBasis.ofDocuments with aliasMark := some "x_" }
    let first : Query := { ofDocuments with basis }
    let q := first.run [.selectByPath "d.name" (some "x_d")]
    start basis "Document" "d" = .ok first ∧ q.declaredNames = ["x_d", "x_d"] ∧
      ¬ q.declaredNames.Nodup ∧ q.text = .ok "SELECT x_d.name AS x_d FROM Document x_d" := by
  exact ⟨by rfl, by decide +kernel, by decide +kernel, by decide +kernel⟩

end Query
end EntityQuery
