import EntityQuery.Proofs.Outcome
import EntityQuery.Query.Text

/-!
# Nodes of a forest

A node is found by its number, and keeps all but its conditions for ever. What reads the nodes
alone, as the way up to a root, is the same in the forest without its conditions.
-/

namespace EntityQuery

theorem getElem?_append_singleton {α : Type} {l : List α} {a b : α} {i : Nat}
    (h : (l ++ [a])[i]? = some b) : l[i]? = some b ∨ i = l.length ∧ b = a := by
  by_cases hi : i < l.length
  · rw [List.getElem?_append_left hi] at h
    exact Or.inl h
  · rw [List.getElem?_append_right (by omega), List.getElem?_singleton] at h
    split at h
    · exact Or.inr ⟨by omega, (Option.some.inj h).symm⟩
    · cases h

namespace ForestNode

/-- A node without its conditions. -/
def bare (n : ForestNode) : ForestNode := { n with on := [] }

theorem bare_eq_iff {m n : ForestNode} : m.bare = n.bare ↔ m.id = n.id ∧ m.label = n.label ∧
    m.entity = n.entity ∧ m.origin = n.origin ∧ m.mode = n.mode ∧ m.fetch = n.fetch := by
  cases m
  cases n
  simp [bare]

theorem parent?_eq_none_iff {n : ForestNode} :
    n.parent? = none ↔ n.isRoot = true := by
  cases h : n.origin <;> simp [parent?, isRoot, h]

end ForestNode

namespace JoinForest

/-- The nodes without their conditions. -/
def bare (t : JoinForest) : List ForestNode := t.nodes.map ForestNode.bare

variable {t after : JoinForest} {i : Nat} {n : ForestNode}

theorem node_ok_iff : t.node i = .ok n ↔ t.nodes[i]? = some n := by
  rw [node]
  cases t.nodes[i]? <;> simp

theorem bare_getElem? (h : t.nodes[i]? = some n) : t.bare[i]? = some n.bare := by
  simp [bare, h]

theorem exists_of_bare {b : ForestNode} (h : t.bare[i]? = some b) :
    ∃ n, t.nodes[i]? = some n ∧ n.bare = b := by
  simpa [bare] using h

theorem length_bare (t : JoinForest) : t.bare.length = t.size := by
  simp [bare, size]

/-! Conditions. -/

theorem withRelation_ok {parent : Nat} {a : Attribute} {label : String} {mode : JoinMode}
    {fetch : Bool} (h : t.withRelation parent a label mode fetch = .ok after) :
    ∃ entity, a.target? = some entity ∧
      after = t.append label entity (.relation parent (.ofAttribute a)) mode fetch [] := by
  rw [withRelation] at h
  obtain ⟨n, -, h⟩ := Outcome.bind_ok_iff.mp h
  split at h
  · cases h
  · rename_i entity target
    cases h
    exact ⟨entity, target, rfl⟩

theorem withCondition_eq (hn : t.nodes[i]? = some n) (joined : n.isRoot = false) (p : Predicate) :
    t.withCondition i p = .ok ⟨t.nodes.set i { n with on := n.on ++ [p] }⟩ := by
  rw [withCondition, node_ok_iff.mpr hn]
  show (if n.isRoot = true then _ else _) = _
  rw [joined]
  rfl

/-- A step cannot add conditions to the node, or does so with success. -/
theorem withCondition_cases (t : JoinForest) (i : Nat) :
    (∃ err, ∀ p, t.withCondition i p = .error err) ∨
      ∃ k, t.nodes[i]? = some k ∧ k.isRoot = false := by
  cases hk : t.nodes[i]? with
  | none =>
    refine Or.inl ⟨.nodeUnknown i, fun p => ?_⟩
    rw [withCondition, node, hk]
    rfl
  | some k =>
    cases root : k.isRoot with
    | false => exact Or.inr ⟨k, rfl, root⟩
    | true =>
      refine Or.inl ⟨.predicate (.rootCondition k.label), fun p => ?_⟩
      rw [withCondition, node_ok_iff.mpr hk]
      exact if_pos root

theorem withCondition_ok {p : Predicate} (h : t.withCondition i p = .ok after) :
    ∃ n, t.nodes[i]? = some n ∧ n.isRoot = false ∧
      after = ⟨t.nodes.set i { n with on := n.on ++ [p] }⟩ := by
  rw [withCondition] at h
  obtain ⟨n, hn, h⟩ := Outcome.bind_ok_iff.mp h
  split at h
  · cases h
  · rename_i joined
    cases h
    exact ⟨n, node_ok_iff.mp hn, by simpa using joined, rfl⟩

/-- Conditions that are added one after the other are added at once. -/
theorem foldlM_withCondition (hn : t.nodes[i]? = some n) (joined : n.isRoot = false)
    (on : List Predicate) :
    on.foldlM (fun t p => t.withCondition i p) t =
      .ok ⟨t.nodes.set i { n with on := n.on ++ on }⟩ := by
  obtain ⟨hi, hget⟩ := List.getElem?_eq_some_iff.mp hn
  induction on generalizing t n with
  | nil =>
    subst hget
    rw [List.append_nil]
    exact congrArg (Except.ok ∘ mk) (List.set_getElem_self hi).symm
  | cons p rest ih =>
    rw [List.foldlM_cons, withCondition_eq hn joined]
    show rest.foldlM _ _ = _
    rw [ih (n := { n with on := n.on ++ [p] }) (by simp [hi]) joined (by simpa using hi) (by simp)]
    simp

/-! The way up. -/

theorem rootWithin_of_root {fuel : Nat} (hn : t.nodes[i]? = some n) (h : n.parent? = none) :
    t.rootWithin (fuel + 1) i = .ok i := by
  simp [rootWithin, node_ok_iff.mpr hn, h, bind, Except.bind]

theorem rootWithin_of_parent {fuel parent : Nat} (hn : t.nodes[i]? = some n)
    (h : n.parent? = some parent) : t.rootWithin (fuel + 1) i = t.rootWithin fuel parent := by
  simp [rootWithin, node_ok_iff.mpr hn, h, bind, Except.bind]

/-- The way up from a node, to its parent and further on, ends at a node without a parent. -/
inductive EndsAt (t : JoinForest) : Nat → Nat → Prop
  | root {i : Nat} {n : ForestNode} (hn : t.nodes[i]? = some n) (top : n.parent? = none) :
      EndsAt t i i
  | up {i parent k : Nat} {n : ForestNode} (hn : t.nodes[i]? = some n)
      (above : n.parent? = some parent) (rest : EndsAt t parent k) : EndsAt t i k

theorem EndsAt.unique {i k l : Nat} (first : t.EndsAt i k) (second : t.EndsAt i l) : k = l := by
  induction first with
  | root hn top =>
    cases second with
    | root => rfl
    | up hm above =>
      cases hn.symm.trans hm
      cases top.symm.trans above
  | up hn above _ ih =>
    cases second with
    | root hm top =>
      cases hn.symm.trans hm
      cases top.symm.trans above
    | up hm above' rest =>
      cases hn.symm.trans hm
      cases above.symm.trans above'
      exact ih rest

theorem endsAt_of_rootWithin {fuel i k : Nat} (h : t.rootWithin fuel i = .ok k) :
    t.EndsAt i k := by
  induction fuel generalizing i with
  | zero => cases h
  | succ fuel ih =>
    obtain ⟨n, hn, rest⟩ := Outcome.bind_ok_iff.mp h
    have hn := node_ok_iff.mp hn
    cases hparent : n.parent? with
    | none =>
      rw [rootWithin_of_root hn hparent] at h
      cases h
      exact .root hn hparent
    | some parent =>
      rw [rootWithin_of_parent hn hparent] at h
      exact .up hn hparent (ih h)

/-- The end of a way up is a root. -/
theorem EndsAt.exists_root {i k : Nat} (h : t.EndsAt i k) :
    ∃ root, t.nodes[k]? = some root ∧ root.isRoot = true := by
  induction h with
  | root hn top => exact ⟨_, hn, ForestNode.parent?_eq_none_iff.mp top⟩
  | up _ _ _ ih => exact ih

/-- Nodes are numbered in order, parents first. -/
structure Ranked (t : JoinForest) : Prop where
  numbered : ∀ (i : Nat) (n : ForestNode), t.nodes[i]? = some n → n.id = i
  ordered : ∀ (i : Nat) (n : ForestNode) (p : Nat),
    t.nodes[i]? = some n → n.parent? = some p → p < i

namespace Ranked

/-- A new node has the next number, and its parent is there. -/
theorem append (h : t.Ranked) (number : n.id = t.nodes.length)
    (before : ∀ p, n.parent? = some p → p < t.nodes.length) : Ranked ⟨t.nodes ++ [n]⟩ where
  numbered i m hm := by
    rcases getElem?_append_singleton hm with hm | ⟨rfl, rfl⟩
    · exact h.numbered i m hm
    · exact number
  ordered i m p hm hp := by
    rcases getElem?_append_singleton hm with hm | ⟨rfl, rfl⟩
    · exact h.ordered i m p hm hp
    · exact before p hp

/-- With other conditions a node has the number and the parent that it had. -/
theorem set (h : t.Ranked) (hn : t.nodes[i]? = some n) (on : List Predicate) :
    Ranked ⟨t.nodes.set i { n with on }⟩ := by
  have old : ∀ {j : Nat} {m : ForestNode}, (t.nodes.set i { n with on })[j]? = some m →
      ∃ k, t.nodes[j]? = some k ∧ m.id = k.id ∧ m.parent? = k.parent? := by
    intro j m hm
    by_cases same : i = j
    · subst same
      rw [List.getElem?_set_self (List.getElem?_eq_some_iff.mp hn).1] at hm
      cases hm
      exact ⟨n, hn, rfl, rfl⟩
    · rw [List.getElem?_set_ne same] at hm
      exact ⟨m, hm, rfl, rfl⟩
  refine ⟨fun j m hm => ?_, fun j m p hm hp => ?_⟩
  · obtain ⟨k, hk, number, -⟩ := old hm
    exact number.trans (h.numbered j k hk)
  · obtain ⟨k, hk, -, parent⟩ := old hm
    exact h.ordered j k p hk (parent ▸ hp)

theorem inside (h : t.Ranked) {p : Nat} (hn : t.nodes[i]? = some n) (above : n.parent? = some p) :
    p < t.nodes.length :=
  Nat.lt_trans (h.ordered i n p hn above) (List.getElem?_eq_some_iff.mp hn).1

/-- A parent comes before its child, so that the number of a node is fuel enough. -/
theorem rootWithin_ok (h : t.Ranked) {fuel : Nat} (enough : i < fuel)
    (hn : t.nodes[i]? = some n) : ∃ root, t.rootWithin fuel i = .ok root := by
  induction fuel generalizing i n with
  | zero => omega
  | succ fuel ih =>
    cases hparent : n.parent? with
    | none => exact ⟨i, rootWithin_of_root hn hparent⟩
    | some parent =>
      have before := h.ordered i n parent hn hparent
      rw [rootWithin_of_parent hn hparent]
      exact ih (by omega) (List.getElem?_eq_getElem (h.inside hn hparent))

theorem rootAbove_ok (h : t.Ranked) (hn : n ∈ t.nodes) : ∃ root, t.rootAbove n.id = .ok root := by
  obtain ⟨i, hi⟩ := List.mem_iff_getElem?.mp hn
  rw [rootAbove, h.numbered i n hi]
  exact h.rootWithin_ok (Nat.lt_succ_self i) hi

/-- The search for the root above a node finds the end of the way up. -/
theorem rootAbove_ok_iff (h : t.Ranked) (hn : n ∈ t.nodes) {k : Nat} :
    t.rootAbove n.id = .ok k ↔ t.EndsAt n.id k := by
  constructor
  · exact endsAt_of_rootWithin
  · intro ends
    obtain ⟨l, hl⟩ := h.rootAbove_ok hn
    rw [hl, (endsAt_of_rootWithin hl).unique ends]

/-- Every way up has an end. -/
theorem exists_endsAt (h : t.Ranked) (hn : n ∈ t.nodes) : ∃ k, t.EndsAt n.id k := by
  obtain ⟨k, hk⟩ := h.rootAbove_ok hn
  exact ⟨k, endsAt_of_rootWithin hk⟩

theorem increasing (h : t.Ranked) : t.nodes.Pairwise fun m n => m.id < n.id := by
  rw [List.pairwise_iff_getElem]
  intro i j hi hj before
  rw [h.numbered i _ (List.getElem?_eq_getElem hi), h.numbered j _ (List.getElem?_eq_getElem hj)]
  exact before

theorem nodup (h : t.Ranked) : t.nodes.Nodup := h.increasing.imp fun less same => by
  rw [same] at less
  exact Nat.lt_irrefl _ less

end Ranked

/-- The forest with its nodes changed. -/
def map (t : JoinForest) (f : ForestNode → ForestNode) : JoinForest := ⟨t.nodes.map f⟩

/-- The forest without its conditions. -/
def stripped (t : JoinForest) : JoinForest := ⟨t.bare⟩

variable (t : JoinForest) {f : ForestNode → ForestNode}

theorem node_map (i : Nat) : (t.map f).node i = (t.node i).map f := by
  rw [node, node, map, List.getElem?_map]
  cases t.nodes[i]? <;> rfl

/-- The way up is the same where the nodes have the same parents. -/
theorem rootWithin_map (same : ∀ n, (f n).parent? = n.parent?) (fuel i : Nat) :
    (t.map f).rootWithin fuel i = t.rootWithin fuel i := by
  induction fuel generalizing i with
  | zero => rfl
  | succ fuel ih =>
    cases hn : t.nodes[i]? with
    | none =>
      rw [rootWithin, rootWithin, node_map, node, hn]
      rfl
    | some n =>
      have changed : (t.map f).nodes[i]? = some (f n) := by simp [map, hn]
      cases hparent : n.parent? with
      | none => rw [rootWithin_of_root hn hparent, rootWithin_of_root changed (same n ▸ hparent)]
      | some parent =>
        rw [rootWithin_of_parent hn hparent, rootWithin_of_parent changed (same n ▸ hparent), ih]

theorem roots_map (same : ∀ n, (f n).isRoot = n.isRoot) : (t.map f).roots = t.roots.map f := by
  rw [roots, roots, map, List.filter_map]
  exact congrArg _ (List.filter_congr fun n _ => same n)

theorem node_stripped (i : Nat) : t.stripped.node i = (t.node i).map ForestNode.bare :=
  t.node_map i

theorem rootWithin_stripped (fuel i : Nat) :
    t.stripped.rootWithin fuel i = t.rootWithin fuel i :=
  t.rootWithin_map (f := ForestNode.bare) (fun _ => rfl) fuel i

theorem roots_stripped : t.stripped.roots = t.roots.map ForestNode.bare :=
  t.roots_map fun _ => rfl

end JoinForest

end EntityQuery
