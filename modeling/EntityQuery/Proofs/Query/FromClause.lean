import EntityQuery.Proofs.Query.History

/-!
# The FROM clause

A FROM clause is a list of segments, one for each root. The way up from a node ends at one root, as
every parent has a smaller number than its child, and the node is written in the segment of this
root. A filtered list keeps the order of the nodes, so a parent is written before its children.
-/

namespace EntityQuery

/-- What contributes nothing may be left out. -/
theorem Outcome.mapM_filter_join {ε α : Type} {f g : α → Except ε String} {keep : α → Bool}
    {as : List α} (h : ∀ a ∈ as, f a = if keep a then g a else .ok "") :
    (as.mapM f).map String.join = ((as.filter keep).mapM g).map String.join := by
  have cons : ∀ (t : String) (x : Except ε (List String)),
      (x >>= fun ts => pure (t :: ts)).map String.join = (x.map String.join).map (t ++ ·) := by
    intro t x
    cases x with
    | error e => rfl
    | ok ts => exact congrArg Except.ok String.join_cons
  induction as with
  | nil => rfl
  | cons a rest ih =>
    rw [List.forall_mem_cons] at h
    rw [List.mapM_cons, h.1]
    cases hkeep : keep a with
    | true =>
      rw [if_pos rfl, List.filter_cons_of_pos hkeep, List.mapM_cons]
      cases g a with
      | error e => rfl
      | ok t => exact (cons t _).trans ((congrArg _ (ih h.2)).trans (cons t _).symm)
    | false =>
      rw [if_neg Bool.false_ne_true, List.filter_cons_of_neg (by simp [hkeep]), ← ih h.2]
      refine (cons "" _).trans ?_
      cases rest.mapM f with
      | error e => rfl
      | ok ts => exact congrArg Except.ok String.empty_append

namespace JoinForest

variable {t : JoinForest} {schema : Schema} {scope : AliasScope}

/-- The nodes that are joined below a root. -/
def below (t : JoinForest) (root : Nat) : List ForestNode :=
  t.nodes.filter fun n => !n.isRoot && decide (t.rootAbove n.id = .ok root)

theorem mem_below_iff (w : Wired schema t.nodes scope) {root : Nat} {n : ForestNode} :
    n ∈ t.below root ↔ n ∈ t.nodes ∧ n.isRoot = false ∧ t.EndsAt n.id root := by
  rw [below, List.mem_filter]
  refine and_congr_right fun hn => ?_
  rw [← w.ranked.rootAbove_ok_iff hn]
  simp

/-- A parent is the root, or stands before its child. -/
theorem parent_before (w : Wired schema t.nodes scope) {root n : ForestNode}
    {before after : List ForestNode} (hroot : root ∈ t.nodes)
    (h : t.below root.id = before ++ n :: after) :
    ∃ p ∈ root :: before, n.parent? = some p.id := by
  have hn : n ∈ t.below root.id := by simp [h]
  obtain ⟨member, joined, ends⟩ := (mem_below_iff w).mp hn
  obtain ⟨i, hi⟩ := List.mem_iff_getElem?.mp member
  have number := w.numbered i n hi
  rw [number] at ends
  cases ends with
  | root hm top =>
    cases hi.symm.trans hm
    rw [ForestNode.parent?_eq_none_iff.mp top] at joined
    cases joined
  | @up _ parent _ _ hm above rest =>
    cases hi.symm.trans hm
    have less := w.ordered i n parent hi above
    have inside : parent < t.nodes.length := less.trans (List.getElem?_eq_some_iff.mp hi).1
    obtain ⟨p, hp⟩ : ∃ p, t.nodes[parent]? = some p := ⟨_, List.getElem?_eq_getElem inside⟩
    have hparent : p.id = parent := w.numbered parent p hp
    refine ⟨p, ?_, by rw [above, hparent]⟩
    cases top : p.isRoot with
    | true =>
      have own : root.id = parent :=
        rest.unique (.root hp (ForestNode.parent?_eq_none_iff.mpr top))
      obtain ⟨k, hk⟩ := List.mem_iff_getElem?.mp hroot
      rw [← own, w.numbered k root hk, hk] at hp
      cases hp
      exact List.mem_cons_self
    | false =>
      have placed : p ∈ t.below root.id :=
        (mem_below_iff w).mpr ⟨List.mem_of_getElem? hp, top, by rwa [hparent]⟩
      have order : (t.below root.id).Pairwise fun m n => m.id < n.id :=
        w.ranked.increasing.filter _
      rw [h] at placed order
      have later := (List.pairwise_cons.mp (List.pairwise_append.mp order).2.1).1
      rcases List.mem_append.mp placed with hbefore | hrest
      · exact List.mem_cons_of_mem root hbefore
      · have smaller : p.id < n.id := by omega
        rcases List.mem_cons.mp hrest with rfl | hafter
        · exact absurd smaller (Nat.lt_irrefl p.id)
        · exact absurd (later p hafter) (Nat.not_lt.mpr smaller.le)

theorem once_below (w : Wired schema t.nodes scope) :
    (t.roots.flatMap fun root => t.below root.id).Nodup := by
  refine List.nodup_flatMap.mpr ⟨fun root _ => w.ranked.nodup.filter _, ?_⟩
  have roots : t.roots.Pairwise fun m n => m.id < n.id := w.ranked.increasing.filter _
  refine roots.imp fun {m n} less => ?_
  intro k hm hn
  have first := ((mem_below_iff w).mp hm).2.2
  have second := ((mem_below_iff w).mp hn).2.2
  exact absurd (first.unique second) (Nat.ne_of_lt less)

end JoinForest

/-- A root and what is joined to it. -/
structure Segment where
  root : ForestNode
  joins : List ForestNode

namespace Query

/-- A root and its joins, as they are written. -/
def segmentText (q : Query) (s : Segment) : Except QueryError String := do
  let joins ← s.joins.mapM q.joinText
  .ok (s!"{s.root.entity} {q.marked s.root.label}" ++ String.join joins)

/-- The FROM clause is written by these segments. -/
structure Lists (q : Query) (segments : List Segment) : Prop where
  roots : segments.map Segment.root = q.forest.roots
  ends : ∀ n ∈ q.forest.nodes, ∃ s ∈ segments, q.forest.EndsAt n.id s.root.id
  joins : ∀ s ∈ segments, ∀ n, n ∈ s.joins ↔
    n ∈ q.forest.nodes ∧ n.isRoot = false ∧ q.forest.EndsAt n.id s.root.id
  once : (segments.flatMap Segment.joins).Nodup
  parents : ∀ s ∈ segments, ∀ before n after, s.joins = before ++ n :: after →
    ∃ p ∈ s.root :: before, n.parent? = some p.id
  relations : ∀ n ∈ q.forest.nodes, ∀ i relation, n.origin = .relation i relation →
    ∃ parent ∈ q.forest.nodes, parent.id = i ∧
      q.joinText n = (n.on.mapM (q.predicateText .join)).map fun texts =>
        let path := s!"{q.marked parent.label}.{relation.name}"
        s!" {n.mode.keyword}{fetchText n.fetch} {path} {q.marked n.label}" ++ onText texts
  entities : ∀ n ∈ q.forest.nodes, ∀ i, n.origin = .entity i →
    q.joinText n = (n.on.mapM (q.predicateText .join)).map fun texts =>
      s!" {n.mode.keyword}{fetchText n.fetch} {n.entity} {q.marked n.label}" ++ onText texts
  text : q.fromText = (segments.mapM q.segmentText).map (String.intercalate ", ")

variable {q : Query}

theorem text_parts {text : String} (h : q.text = .ok text) : ∃ items roots conditions rest,
    q.selectText = .ok items ∧ q.fromText = .ok roots ∧
      q.conditions.mapM (q.predicateText .restriction) = .ok conditions ∧
      text = s!"SELECT {items} FROM {roots}" ++ clause "WHERE" " AND " conditions ++ rest := by
  obtain ⟨items, selected, h⟩ := Outcome.bind_ok_iff.mp h
  obtain ⟨roots, sources, h⟩ := Outcome.bind_ok_iff.mp h
  obtain ⟨conditions, restrictions, h⟩ := Outcome.bind_ok_iff.mp h
  obtain ⟨groups, -, h⟩ := Outcome.bind_ok_iff.mp h
  obtain ⟨orders, -, made⟩ := Outcome.bind_ok_iff.mp h
  refine ⟨items, roots, conditions,
    clause "GROUP BY" ", " groups ++ clause "ORDER BY" ", " orders,
    selected, sources, restrictions, ?_⟩
  cases made
  exact String.append_assoc

/-- The text of a root passes over the nodes below other roots. -/
theorem rootText_eq {schema : Schema} {scope : AliasScope} (w : Wired schema q.forest.nodes scope)
    (root : ForestNode) : q.rootText root = q.segmentText ⟨root, q.forest.below root.id⟩ := by
  have each : ∀ n ∈ q.forest.nodes, q.joinUnder root.id n =
      if !n.isRoot && decide (q.forest.rootAbove n.id = .ok root.id) then q.joinText n
      else .ok "" := by
    intro n hn
    obtain ⟨above, habove⟩ := w.ranked.rootAbove_ok hn
    rw [joinUnder, habove]
    cases n.isRoot with
    | true => rfl
    | false =>
      show (if above = root.id then q.joinText n else .ok "") = _
      by_cases own : above = root.id
      · simp [own]
      · simp [own]
  have behind : ∀ (t : String) (joins : Except QueryError (List String)),
      (joins >>= fun joins => .ok (t ++ String.join joins)) =
        (joins.map String.join).map (t ++ ·) := by
    intro t joins
    cases joins <;> rfl
  have joined := Outcome.mapM_filter_join each
  exact (behind _ _).trans ((congrArg _ joined).trans (behind _ _).symm)

theorem joinText_relation {n parent : ForestNode} {i : Nat} {relation : Relation}
    (horigin : n.origin = .relation i relation) (hparent : q.forest.nodes[i]? = some parent) :
    q.joinText n = (n.on.mapM (q.predicateText .join)).map fun texts =>
      let path := s!"{q.marked parent.label}.{relation.name}"
      s!" {n.mode.keyword}{fetchText n.fetch} {path} {q.marked n.label}" ++ onText texts := by
  rw [joinText, joinedText, horigin]
  dsimp only
  rw [JoinForest.node_ok_iff.mpr hparent]
  cases n.on.mapM (q.predicateText .join) <;> rfl

theorem joinText_entity {n : ForestNode} {i : Nat} (horigin : n.origin = .entity i) :
    q.joinText n = (n.on.mapM (q.predicateText .join)).map fun texts =>
      s!" {n.mode.keyword}{fetchText n.fetch} {n.entity} {q.marked n.label}" ++ onText texts := by
  rw [joinText, joinedText, horigin]
  cases n.on.mapM (q.predicateText .join) <;> rfl

/-- The roots with the nodes below them write the FROM clause. -/
theorem lists_below {schema : Schema} {scope : AliasScope}
    (w : Wired schema q.forest.nodes scope) :
    q.Lists (q.forest.roots.map fun root => ⟨root, q.forest.below root.id⟩) where
  roots := by simp [Function.comp_def]
  ends n hn := by
    obtain ⟨k, ends⟩ := w.ranked.exists_endsAt hn
    obtain ⟨root, hroot, top⟩ := ends.exists_root
    have own : root ∈ q.forest.roots :=
      List.mem_filter.mpr ⟨List.mem_of_getElem? hroot, top⟩
    rw [← w.numbered k root hroot] at ends
    exact ⟨_, List.mem_map_of_mem own, ends⟩
  joins := by
    rintro s hs n
    obtain ⟨root, -, rfl⟩ := List.mem_map.mp hs
    exact JoinForest.mem_below_iff w
  once := by
    rw [List.flatMap_map]
    exact JoinForest.once_below w
  parents := by
    rintro s hs before n after split
    obtain ⟨root, hroot, rfl⟩ := List.mem_map.mp hs
    exact JoinForest.parent_before w (List.mem_of_mem_filter hroot) split
  relations n hn i relation horigin := by
    obtain ⟨j, hj⟩ := List.mem_iff_getElem?.mp hn
    obtain ⟨parent, -, hparent, -⟩ := w.relations j n i relation hj horigin
    exact ⟨parent, List.mem_of_getElem? hparent, w.numbered i parent hparent,
      joinText_relation horigin hparent⟩
  entities n hn i horigin := joinText_entity horigin
  text := by
    have same : q.forest.roots.mapM q.rootText =
        q.forest.roots.mapM fun root => q.segmentText ⟨root, q.forest.below root.id⟩ :=
      Outcome.mapM_congr fun root _ => rootText_eq w root
    rw [fromText, same, List.mapM_map]
    rfl

/-- The FROM clause of every query that is built: each root, in the order in which the roots were
added, and behind it each node whose way up ends there, once and after its parent. Nodes and
conditions stand in the order of the steps that brought them in. -/
theorem lists_run {basis : QueryBasis} {entity label : String} {first : Query}
    (h : start basis entity label = .ok first) (steps : List QueryStep) :
    let q := first.run steps
    (∃ segments, q.Lists segments) ∧ q.History (.root entity label :: first.taken steps) := by
  intro q
  obtain ⟨w, -, -, -⟩ := wired_run h steps
  exact ⟨⟨_, lists_below w⟩, history_run h steps⟩

/-- Joins of two roots are added in turns, and one in vain. -/
theorem lists_run_documents :
    let basis : QueryBasis := { QueryBasis.ofDocuments with aliasMark := some "x_" }
    let steps : List QueryStep :=
      [.join "d.owner" "o" .left false, .root "Person" "p", .on "o" (.text "o.name = p.name"),
        .join "o.partners" "t" .inner false, .join "d.contacts" "c" .inner true,
        .joinEntity "p" "Document" "e" .right [.text "e.owner = p", .text "e.id > 1"],
        .on "o" (.text "o.id = 2")]
    let first : Query := { ofDocuments with basis }
    let q := first.run steps
    start basis "Document" "d" = .ok first ∧
      q.fromText = .ok ("Document x_d LEFT JOIN x_d.owner x_o ON x_o.name = x_p.name AND x_o.id = 2"
        ++ " JOIN FETCH x_d.contacts x_c,"
        ++ " Person x_p RIGHT JOIN Document x_e ON x_e.owner = x_p AND x_e.id > 1") ∧
      (first.taken steps).length = 6 ∧ (∃ segments, q.Lists segments) ∧
      q.History (.root "Document" "d" :: first.taken steps) := by
  intro basis steps first q
  have h : start basis "Document" "d" = .ok first := by rfl
  exact ⟨h, by decide +kernel, by decide +kernel, lists_run h steps⟩

end Query
end EntityQuery
