import EntityQuery.Proofs.JoinForest
import Mathlib.Data.List.Nodup

/-!
# Forests that grow

A forest grows from nothing by steps that may name any number and any attribute. A step fails if
there is no such node, if the attribute leads to no entity or if a condition is meant for a root,
and the forest then stays as it is. Otherwise it adds a node behind all others, whose parent is one
of them, or a condition to one node. So a node keeps its number for ever, and all it has but for
the conditions that are added to it, and from every node the way up goes through smaller numbers to
a root. The children of the nodes are, each once, the nodes that are no roots.
-/

namespace EntityQuery

/-- What is done to a forest. -/
inductive ForestStep where
  | root (entity label : String)
  | relation (parent : Nat) (a : Attribute) (label : String) (mode : JoinMode) (fetch : Bool)
  | entity (parent : Nat) (entity label : String) (mode : JoinMode) (on : List Predicate)
  | condition (id : Nat) (p : Predicate)

namespace ForestStep

/-- The node that the step is to join another one to. -/
def parent? : ForestStep → Option Nat
  | relation parent .. | entity parent .. => some parent
  | root .. | condition .. => none

/-- The condition that the step is to add to a node. -/
def conditionOn (i : Nat) : ForestStep → Option Predicate
  | condition id p => if id = i then some p else none
  | root .. | relation .. | entity .. => none

end ForestStep

namespace ForestNode
variable {n : ForestNode}

/-- The node with more conditions, unless it is a root. -/
def given (n : ForestNode) (conditions : List Predicate) : ForestNode :=
  { n with on := n.on ++ if n.isRoot then [] else conditions }

theorem given_nil (n : ForestNode) : n.given [] = n := by
  simp [given]

theorem given_of_root (h : n.isRoot = true) (conditions : List Predicate) :
    n.given conditions = n := by
  simp [given, h]

theorem given_of_joined (h : n.isRoot = false) (conditions : List Predicate) :
    n.given conditions = { n with on := n.on ++ conditions } := by
  simp [given, h]

theorem given_given (n : ForestNode) (first rest : List Predicate) :
    (n.given first).given rest = n.given (first ++ rest) := by
  cases h : n.isRoot with
  | true => rw [given_of_root h, given_of_root h, given_of_root h]
  | false =>
    have joined : (n.given first).isRoot = false := h
    rw [given_of_joined joined, given_of_joined h, given_of_joined h, List.append_assoc]

end ForestNode

namespace JoinForest
variable {t after : JoinForest} {s : ForestStep} {i : Nat} {n : ForestNode}

def step (t : JoinForest) : ForestStep → Except QueryError JoinForest
  | .root entity label => .ok (t.withRoot entity label)
  | .relation parent a label mode fetch => t.withRelation parent a label mode fetch
  | .entity parent entity label mode on => t.withEntity parent entity label mode on
  | .condition id p => t.withCondition id p

/-- A step that fails is not taken. -/
def attempt (t : JoinForest) (s : ForestStep) : JoinForest :=
  match t.step s with
  | .ok after => after
  | .error _ => t

def run (t : JoinForest) (steps : List ForestStep) : JoinForest := steps.foldl attempt t

/-- The step is for a node that is not there, along an attribute that leads to no entity, or would
give a root a condition. -/
inductive Refuses (t : JoinForest) : ForestStep → QueryError → Prop
  | relation {parent : Nat} {a : Attribute} {label : String} {mode : JoinMode} {fetch : Bool}
      (absent : t.size ≤ parent) :
      Refuses t (.relation parent a label mode fetch) (.nodeUnknown parent)
  | basic {parent : Nat} {a : Attribute} {label : String} {mode : JoinMode} {fetch : Bool}
      (there : parent < t.size) (basic : a.target? = none) :
      Refuses t (.relation parent a label mode fetch) (.schema (.basicJoined a.name))
  | entity {parent : Nat} {entity label : String} {mode : JoinMode} {on : List Predicate}
      (absent : t.size ≤ parent) :
      Refuses t (.entity parent entity label mode on) (.nodeUnknown parent)
  | condition {id : Nat} {p : Predicate} (absent : t.size ≤ id) :
      Refuses t (.condition id p) (.nodeUnknown id)
  | onRoot {id : Nat} {p : Predicate} {n : ForestNode} (hn : t.node id = .ok n)
      (root : n.isRoot = true) : Refuses t (.condition id p) (.predicate (.rootCondition n.label))

theorem node_error_iff {e : QueryError} :
    t.node i = .error e ↔ t.size ≤ i ∧ e = .nodeUnknown i := by
  rw [node]
  cases hn : t.nodes[i]? with
  | none => simp [size, List.getElem?_eq_none_iff.mp hn, eq_comm]
  | some n =>
    have there : i < t.size := (List.getElem?_eq_some_iff.mp hn).1
    constructor
    · intro found
      cases found
    · rintro ⟨absent, -⟩
      exact absurd there (Nat.not_lt.mpr absent)

theorem exists_node_iff : (∃ n, t.node i = .ok n) ↔ i < t.size := by
  constructor
  · rintro ⟨n, hn⟩
    exact (List.getElem?_eq_some_iff.mp (node_ok_iff.mp hn)).1
  · intro there
    exact ⟨_, node_ok_iff.mpr (List.getElem?_eq_getElem there)⟩

theorem lt_of_node (hn : t.node i = .ok n) : i < t.size := exists_node_iff.mp ⟨n, hn⟩

theorem getElem?_eq_of_node (h : after.node i = t.node i) : after.nodes[i]? = t.nodes[i]? :=
  Option.ext fun n => by rw [← node_ok_iff, ← node_ok_iff, h]

theorem Refuses.step_eq {e : QueryError} (h : t.Refuses s e) : t.step s = .error e := by
  cases h with
  | relation absent =>
    rw [step, withRelation, node_error_iff.mpr ⟨absent, rfl⟩]
    rfl
  | basic there basic =>
    obtain ⟨n, hn⟩ := exists_node_iff.mpr there
    rw [step, withRelation, hn, basic]
    rfl
  | entity absent =>
    rw [step, withEntity, node_error_iff.mpr ⟨absent, rfl⟩]
    rfl
  | condition absent =>
    rw [step, withCondition, node_error_iff.mpr ⟨absent, rfl⟩]
    rfl
  | onRoot hn root =>
    rw [step, withCondition, hn]
    exact if_pos root

theorem step_error_iff {e : QueryError} : t.step s = .error e ↔ t.Refuses s e := by
  refine ⟨fun h => ?_, Refuses.step_eq⟩
  cases s with
  | root entity label => cases h
  | relation parent a label mode fetch =>
    rcases Outcome.bind_error_iff.mp h with missing | ⟨n, hn, h⟩
    · obtain ⟨absent, rfl⟩ := node_error_iff.mp missing
      exact .relation absent
    · split at h
      · rename_i basic
        cases h
        exact .basic (lt_of_node hn) basic
      · cases h
  | entity parent entity label mode on =>
    rcases Outcome.bind_error_iff.mp h with missing | ⟨n, hn, h⟩
    · obtain ⟨absent, rfl⟩ := node_error_iff.mp missing
      exact .entity absent
    · cases h
  | condition id p =>
    rcases Outcome.bind_error_iff.mp h with missing | ⟨n, hn, h⟩
    · obtain ⟨absent, rfl⟩ := node_error_iff.mp missing
      exact .condition absent
    · split at h
      · rename_i root
        cases h
        exact .onRoot hn root
      · cases h

/-- What a step does that succeeds. -/
theorem step_cases (h : t.step s = .ok after) :
    (∃ n, after = ⟨t.nodes ++ [n]⟩ ∧ n.id = t.size ∧ n.parent? = s.parent? ∧
        (∀ p, n.parent? = some p → p < t.size) ∧ ∀ i, s.conditionOn i = none) ∨
      ∃ i p n, s = .condition i p ∧ t.nodes[i]? = some n ∧ n.isRoot = false ∧
        after = ⟨t.nodes.set i { n with on := n.on ++ [p] }⟩ := by
  cases s with
  | root entity label =>
    cases h
    exact Or.inl ⟨_, rfl, rfl, rfl, nofun, fun _ => rfl⟩
  | relation parent a label mode fetch =>
    obtain ⟨m, hm, -⟩ := Outcome.bind_ok_iff.mp h
    obtain ⟨entity, -, rfl⟩ := withRelation_ok h
    refine Or.inl ⟨_, rfl, rfl, rfl, ?_, fun _ => rfl⟩
    rintro p ⟨⟩
    exact lt_of_node hm
  | entity parent entity label mode on =>
    obtain ⟨m, hm, h⟩ := Outcome.bind_ok_iff.mp h
    cases h
    refine Or.inl ⟨_, rfl, rfl, rfl, ?_, fun _ => rfl⟩
    rintro p ⟨⟩
    exact lt_of_node hm
  | condition id p =>
    obtain ⟨n, hn, joined, rfl⟩ := withCondition_ok h
    exact Or.inr ⟨id, p, n, rfl, hn, joined, rfl⟩

theorem attempt_of_ok (h : t.step s = .ok after) : t.attempt s = after := by
  rw [attempt, h]

theorem attempt_of_error {e : QueryError} (h : t.step s = .error e) : t.attempt s = t := by
  rw [attempt, h]

/-! What a run keeps. -/

theorem Ranked.attempt (h : t.Ranked) (s : ForestStep) : (t.attempt s).Ranked := by
  cases hs : t.step s with
  | error e => rwa [attempt_of_error hs]
  | ok after =>
    rw [attempt_of_ok hs]
    rcases step_cases hs with ⟨n, rfl, number, -, before, -⟩ | ⟨i, p, n, -, hn, -, rfl⟩
    · exact h.append number before
    · exact h.set hn _

theorem Ranked.run (h : t.Ranked) (steps : List ForestStep) : (t.run steps).Ranked := by
  induction steps generalizing t with
  | nil => exact h
  | cons s rest ih => exact ih (h.attempt s)

theorem ranked_empty : Ranked empty where
  numbered _ _ hn := by cases hn
  ordered _ _ _ hn := by cases hn

/-- After one step a node is what it was, with the condition that was meant for it. -/
theorem node_attempt (hn : t.node i = .ok n) (s : ForestStep) :
    (t.attempt s).node i = .ok (n.given (s.conditionOn i).toList) := by
  cases hs : t.step s with
  | error e =>
    rw [attempt_of_error hs, hn]
    cases step_error_iff.mp hs with
    | relation | basic | entity => exact congrArg _ n.given_nil.symm
    | @condition id p absent =>
      have other : id ≠ i := fun same => Nat.not_lt.mpr absent (same ▸ lt_of_node hn)
      rw [ForestStep.conditionOn, if_neg other]
      exact congrArg _ n.given_nil.symm
    | @onRoot id p m hm root =>
      by_cases same : id = i
      · subst same
        cases hm.symm.trans hn
        exact congrArg _ (ForestNode.given_of_root root _).symm
      · rw [ForestStep.conditionOn, if_neg same]
        exact congrArg _ n.given_nil.symm
  | ok after =>
    have hi := node_ok_iff.mp hn
    rw [attempt_of_ok hs, node_ok_iff]
    rcases step_cases hs with ⟨m, rfl, -, -, -, none⟩ | ⟨j, p, k, rfl, hk, joined, rfl⟩
    · rw [none i, List.getElem?_append_left (lt_of_node hn), hi]
      exact congrArg some n.given_nil.symm
    · by_cases same : j = i
      · subst same
        cases hk.symm.trans hi
        rw [List.getElem?_set_self (lt_of_node hn), ForestStep.conditionOn, if_pos rfl,
          ForestNode.given_of_joined joined]
        rfl
      · rw [List.getElem?_set_ne same, hi, ForestStep.conditionOn, if_neg same]
        exact congrArg some n.given_nil.symm

/-- After a run a node is what it was, with all conditions that were meant for it. -/
theorem node_run (hn : t.node i = .ok n) (steps : List ForestStep) :
    (t.run steps).node i = .ok (n.given (steps.filterMap (ForestStep.conditionOn i))) := by
  induction steps generalizing t n with
  | nil => rw [run, List.foldl_nil, hn, List.filterMap_nil, ForestNode.given_nil]
  | cons s rest ih =>
    have next := ih (node_attempt hn s)
    have all : (s :: rest).filterMap (ForestStep.conditionOn i) =
        (s.conditionOn i).toList ++ rest.filterMap (ForestStep.conditionOn i) := by
      cases hs : s.conditionOn i <;> simp [hs]
    rw [ForestNode.given_given] at next
    rw [all, ← next]
    rfl

/-- A condition goes to one node that is no root, and nothing else changes. -/
theorem condition_ok_iff {p : Predicate} : t.step (.condition i p) = .ok after ↔
    ∃ n, t.node i = .ok n ∧ n.isRoot = false ∧
      after.node i = .ok { n with on := n.on ++ [p] } ∧ ∀ j, j ≠ i → after.node j = t.node j := by
  constructor
  · intro h
    obtain ⟨n, hn, joined, rfl⟩ := withCondition_ok h
    refine ⟨n, node_ok_iff.mpr hn, joined, node_ok_iff.mpr ?_, fun j other => ?_⟩
    · exact List.getElem?_set_self (List.getElem?_eq_some_iff.mp hn).1
    · rw [node, node, List.getElem?_set_ne other.symm]
  · rintro ⟨n, hn, joined, here, others⟩
    rw [step, withCondition_eq (node_ok_iff.mp hn) joined]
    refine congrArg (Except.ok ∘ mk) (List.ext_getElem? fun j => ?_)
    by_cases same : j = i
    · subst same
      rw [List.getElem?_set_self (lt_of_node hn), node_ok_iff.mp here]
    · rw [List.getElem?_set_ne (Ne.symm same), getElem?_eq_of_node (others j same)]

/-! What a forest looks like. -/

/-- The number of a node is its place, and that of its parent a smaller one. The way up ends at one
root, and the nodes that are no roots are the children of the nodes, each of one of them. -/
structure IsForest (t : JoinForest) : Prop where
  numbered : ∀ i n, t.node i = .ok n → n.id = i
  parents : ∀ i n p, t.node i = .ok n → n.parent? = some p → p < i ∧ ∃ m, t.node p = .ok m
  roots : ∀ i n, t.node i = .ok n → ∃ k root, t.node k = .ok root ∧ root.isRoot = true ∧
    t.rootAbove i = .ok k ∧ ∀ l, t.EndsAt i l ↔ l = k
  children : (t.nodes.flatMap fun n => t.children n.id).Perm (t.nodes.filter fun n => !n.isRoot)
  once : (t.nodes.flatMap fun n => t.children n.id).Nodup

theorem mem_children {m : ForestNode} {p : Nat} :
    m ∈ t.children p ↔ m ∈ t.nodes ∧ m.parent? = some p := by
  simp [children]

namespace Ranked

theorem once (h : t.Ranked) : (t.nodes.flatMap fun n => t.children n.id).Nodup := by
  refine List.nodup_flatMap.mpr ⟨fun n _ => h.nodup.filter _, h.increasing.imp ?_⟩
  intro m n less k hm hn
  have parents := (mem_children.mp hm).2.symm.trans (mem_children.mp hn).2
  exact Nat.ne_of_lt less (Option.some.inj parents)

theorem children (h : t.Ranked) :
    (t.nodes.flatMap fun n => t.children n.id).Perm (t.nodes.filter fun n => !n.isRoot) := by
  refine (List.perm_ext_iff_of_nodup h.once (h.nodup.filter _)).mpr fun m => ?_
  rw [List.mem_flatMap, List.mem_filter]
  constructor
  · rintro ⟨n, -, child⟩
    obtain ⟨there, parent⟩ := mem_children.mp child
    refine ⟨there, ?_⟩
    cases root : m.isRoot with
    | false => rfl
    | true => cases parent.symm.trans (ForestNode.parent?_eq_none_iff.mpr root)
  · rintro ⟨there, joined⟩
    obtain ⟨i, hi⟩ := List.mem_iff_getElem?.mp there
    cases hp : m.parent? with
    | none =>
      rw [ForestNode.parent?_eq_none_iff.mp hp] at joined
      cases joined
    | some p =>
      have hn : t.nodes[p]? = some _ := List.getElem?_eq_getElem (h.inside hi hp)
      refine ⟨_, List.mem_of_getElem? hn, mem_children.mpr ⟨there, ?_⟩⟩
      rw [hp, h.numbered p _ hn]

theorem isForest (h : t.Ranked) : t.IsForest where
  numbered i n hn := h.numbered i n (node_ok_iff.mp hn)
  parents i n p hn hp := by
    have hi := node_ok_iff.mp hn
    exact ⟨h.ordered i n p hi hp, exists_node_iff.mpr (h.inside hi hp)⟩
  roots i n hn := by
    have hi := node_ok_iff.mp hn
    obtain ⟨k, found⟩ := h.rootWithin_ok (Nat.lt_succ_self i) hi
    have ends := endsAt_of_rootWithin found
    obtain ⟨root, hk, top⟩ := ends.exists_root
    refine ⟨k, root, node_ok_iff.mpr hk, top, found, fun l => ⟨fun other => other.unique ends, ?_⟩⟩
    rintro rfl
    exact ends
  children := h.children
  once := h.once

end Ranked

/-- What grows from nothing is a forest. A step fails exactly if it asks for what is not there, for
the members of an attribute that leads to no entity or for a condition on a root, and then nothing
changes. Else it adds a node under the next number, or a condition. This goes to the end of those
of the node that it is meant for, and nothing else changes. So each node is found under
its number for ever, as it was but for the conditions that were meant for it since. -/
theorem forest_run (steps : List ForestStep) :
    let t := empty.run steps
    t.IsForest ∧
      (∀ s e, t.step s = .error e ↔ t.Refuses s e) ∧
      (∀ s e, t.Refuses s e → t.attempt s = t) ∧
      (∀ s (after : JoinForest), t.step s = .ok after →
        (∃ n, after.nodes = t.nodes ++ [n] ∧ n.id = t.size ∧ n.parent? = s.parent?) ∨
          ∃ i p, s = .condition i p) ∧
      (∀ (i : Nat) (p : Predicate) (after : JoinForest), t.step (.condition i p) = .ok after ↔
        ∃ n, t.node i = .ok n ∧ n.isRoot = false ∧
          after.node i = .ok { n with on := n.on ++ [p] } ∧
          ∀ j, j ≠ i → after.node j = t.node j) ∧
      ∀ (i : Nat) (n : ForestNode) (later : List ForestStep), t.node i = .ok n →
        (t.run later).node i = .ok (n.given (later.filterMap (ForestStep.conditionOn i))) := by
  intro t
  have ranked : t.Ranked := ranked_empty.run steps
  refine ⟨ranked.isForest, fun s e => step_error_iff, fun s e h => attempt_of_error h.step_eq,
    fun s after h => ?adds, fun i p after => condition_ok_iff,
    fun i n later hn => node_run hn later⟩
  case adds =>
    rcases step_cases h with ⟨n, rfl, number, parent, -, -⟩ | ⟨i, p, -, rfl, -, -, -⟩
    · exact Or.inl ⟨n, rfl, number, parent⟩
    · exact Or.inr ⟨i, p, rfl⟩

/-- Two roots with a relation and an entity below the first one. What has no parent or no entity is
not joined, and a root gets no condition. -/
theorem forest_run_documents :
    let same : Predicate := .equality (.ofPathText "o.name") (.ofPathText "e.name")
    let steps : List ForestStep :=
      [.root "Document" "d", .relation 0 (.association "owner" "Person") "o" .left false,
        .relation 0 (.basic "name") "n" .inner false, .entity 1 "Document" "e" .right [same],
        .entity 7 "Person" "f" .inner [], .root "Person" "p", .condition 0 same]
    let later : List ForestStep := [.condition 2 same, .condition 3 same, .condition 1 same]
    let t := empty.run steps
    t.nodes.map (fun n => (n.label, n.parent?)) =
        [("d", none), ("o", some 0), ("e", some 1), ("p", none)] ∧
      t.IsForest ∧
      t.Refuses (.relation 0 (.basic "name") "n" .inner false) (.schema (.basicJoined "name")) ∧
      t.attempt (.condition 3 same) = t ∧
      (∃ after, t.step (.condition 2 same) = .ok after ∧ after.node 1 = t.node 1) ∧
      ∃ n, t.node 2 = .ok n ∧ n.on = [same] ∧
        (t.run later).node 2 = .ok { n with on := [same, same] } := by
  intro same steps later t
  obtain ⟨forest, refused, stays, -, conditions, kept⟩ := forest_run steps
  have hn : t.node 2 = .ok ⟨2, "e", "Document", .entity 1, .right, false, [same]⟩ := by rfl
  have hp : t.node 3 = .ok ⟨3, "p", "Person", .root, .inner, false, []⟩ := by rfl
  have given : t.step (.condition 2 same) = .ok (t.attempt (.condition 2 same)) := by rfl
  obtain ⟨-, -, -, -, others⟩ := (conditions _ _ _).mp given
  exact ⟨by rfl, forest, (refused _ _).mp (by rfl), stays _ _ (.onRoot hp rfl),
    ⟨_, given, others 1 (by decide)⟩, _, hn, rfl, kept 2 _ later hn⟩

end JoinForest
end EntityQuery
