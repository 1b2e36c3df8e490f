import EntityQuery.Proofs.AliasScope
import Mathlib.Logic.Relation

/-!
# Aliases that go round

A free path that names an alias of a path is replaced by this path, again and again. Each step
uses up an alias, so that the steps end unless some alias is used twice; then they go round for
ever. As many steps as there are aliases are enough to tell which of the two it is.
-/

namespace EntityQuery

theorem Catalog.mem_names_of_find? {α : Type} {name : String} {c : Catalog α} {a : α}
    (h : c.find? name = some a) : name ∈ c.names := by
  induction c with
  | nil => cases h
  | cons entry rest ih =>
    obtain ⟨k, b⟩ := entry
    rw [find?] at h
    by_cases hlt : k < name
    · rw [if_pos hlt] at h
      exact List.mem_cons_of_mem k (ih h)
    · rw [if_neg hlt] at h
      split at h
      · rename_i same
        exact same ▸ List.mem_cons_self
      · cases h

namespace AliasScope

variable {s : AliasScope} {p q r : Path}

/-- All aliases in sight. -/
def names (s : AliasScope) : List String := s.levels.flatMap Catalog.names

theorem length_names (s : AliasScope) : s.names.length = s.size := by
  simp [names, size, Catalog.names, List.length_flatMap, List.length_flatten]

theorem mem_names_of_find? {label : String} {t : AliasTarget} (h : s.find? label = some t) :
    label ∈ s.names := by
  obtain ⟨level, hlevel, hfind⟩ := List.exists_of_findSome?_eq_some h
  exact List.mem_flatMap.mpr ⟨level, hlevel, Catalog.mem_names_of_find? hfind⟩

/-! Steps. -/

/-- The path of the alias that a free path names takes its place. An alias of itself stays. -/
structure Step (s : AliasScope) (p q : Path) : Prop where
  free : p.node = none
  names : s.find? p.text = some (.item (.path q))
  moves : q.node = none → q.text ≠ p.text

/-- A step reads the text of a path and nothing else. -/
theorem Step.eq_of_text {a b : Path} (h : s.Step p q) (other : s.Step a b)
    (same : a.text = p.text) : b = q := by
  have hnames := other.names
  rw [same, h.names] at hnames
  cases hnames
  rfl

theorem Step.follow (h : s.Step p q) (fuel : Nat) : s.follow (fuel + 1) p = s.follow fuel q := by
  have onward : (q.node.isSome || q.text != p.text) = true := by
    cases hq : q.node with
    | some i => rfl
    | none => simpa using h.moves hq
  rw [AliasScope.follow, h.free, pathOf?_eq_some_iff.mpr h.names]
  exact if_pos onward

theorem follow_of_stays (h : ∀ q, ¬ s.Step p q) (fuel : Nat) : s.follow (fuel + 1) p = some p := by
  rw [follow]
  split
  · rename_i q free hpath
    split
    · rename_i onward
      refine absurd ⟨free, pathOf?_eq_some_iff.mp hpath, fun hq => ?_⟩ (h q)
      simpa [hq] using onward
    · rfl
  · rfl

theorem follow_add {fuel : Nat} (h : s.follow fuel p = some r) (more : Nat) :
    s.follow (fuel + more) p = some r := by
  induction fuel generalizing p with
  | zero => cases h
  | succ fuel ih =>
    rw [Nat.add_right_comm]
    by_cases moves : ∃ q, s.Step p q
    · obtain ⟨q, step⟩ := moves
      rw [step.follow] at h ⊢
      exact ih h
    · rw [follow_of_stays (not_exists.mp moves)] at h ⊢
      exact h

/-! Rounds. -/

/-- The steps from `p` lead into a round. -/
def GoesRound (s : AliasScope) (p : Path) : Prop :=
  ∃ q, Relation.ReflTransGen s.Step p q ∧ Relation.TransGen s.Step q q

theorem Step.goesRound (h : s.Step p q) (round : s.GoesRound q) : s.GoesRound p := by
  obtain ⟨a, reached, turn⟩ := round
  exact ⟨a, .head h reached, turn⟩

theorem GoesRound.exists_step (h : s.GoesRound p) : ∃ q, s.Step p q ∧ s.GoesRound q := by
  obtain ⟨a, reached, turn⟩ := h
  rcases Relation.ReflTransGen.cases_head reached with rfl | ⟨q, step, rest⟩
  · obtain ⟨q, step, rest⟩ := Relation.TransGen.head'_iff.mp turn
    exact ⟨q, step, p, rest, turn⟩
  · exact ⟨q, step, a, rest, turn⟩

theorem GoesRound.follow (h : s.GoesRound p) (fuel : Nat) : s.follow fuel p = none := by
  induction fuel generalizing p with
  | zero => rfl
  | succ fuel ih =>
    obtain ⟨q, step, round⟩ := h.exists_step
    rw [step.follow, ih round]

/-- Outside rounds no step comes back to an alias, so that each uses up one of the labels that are
left. -/
theorem exists_follow {labels : List String} {fuel : Nat} (ends : ¬ s.GoesRound p)
    (covers : ∀ a b, Relation.ReflTransGen s.Step p a → s.Step a b → a.text ∈ labels)
    (enough : labels.length < fuel) : ∃ r, s.follow fuel p = some r := by
  induction fuel generalizing p labels with
  | zero => omega
  | succ fuel ih =>
    by_cases moves : ∃ q, s.Step p q
    · obtain ⟨q, step⟩ := moves
      have here : p.text ∈ labels := covers p q .refl step
      have left : ∀ a b, Relation.ReflTransGen s.Step q a → s.Step a b →
          a.text ∈ labels.erase p.text := by
        intro a b reached next
        refine (List.mem_erase_of_ne fun same => ends ?_).mpr (covers a b (.head step reached) next)
        obtain rfl := step.eq_of_text next same
        exact ⟨b, .single step, Relation.TransGen.tail' reached next⟩
      rw [step.follow]
      refine ih (fun round => ends (step.goesRound round)) left ?_
      rw [List.length_erase_of_mem here]
      have := List.length_pos_of_mem here
      omega
    · exact ⟨p, follow_of_stays (not_exists.mp moves) fuel⟩

/-- The fuel of `resolve` is enough. -/
theorem exists_resolve (ends : ¬ s.GoesRound p) : ∃ r, s.resolve p = .ok r := by
  have covers : ∀ a b, Relation.ReflTransGen s.Step p a → s.Step a b → a.text ∈ s.names :=
    fun a b _ step => mem_names_of_find? step.names
  obtain ⟨r, hr⟩ := exists_follow ends covers (Nat.lt_succ_self _)
  rw [length_names] at hr
  exact ⟨r, by rw [resolve, hr]⟩

theorem GoesRound.resolve (h : s.GoesRound p) : s.resolve p = .error (.aliasEndless p.text) := by
  rw [AliasScope.resolve, h.follow]

theorem resolve_error_iff {err : QueryError} :
    s.resolve p = .error err ↔ s.GoesRound p ∧ err = .aliasEndless p.text := by
  constructor
  · intro h
    by_cases round : s.GoesRound p
    · rw [round.resolve] at h
      exact ⟨round, (Except.error.inj h).symm⟩
    · obtain ⟨r, hr⟩ := exists_resolve round
      rw [hr] at h
      cases h
  · rintro ⟨round, rfl⟩
    exact round.resolve

/-- No number of steps leads to an end exactly if the steps go round. -/
theorem goesRound_iff : s.GoesRound p ↔ ∀ fuel, s.follow fuel p = none := by
  refine ⟨GoesRound.follow, fun never => ?_⟩
  by_contra ends
  obtain ⟨r, hr⟩ := exists_resolve ends
  rw [AliasScope.resolve, never] at hr
  cases hr

/-- What some number of steps leads to is what the path is resolved to. -/
theorem resolve_of_follow {fuel : Nat} (h : s.follow fuel p = some r) : s.resolve p = .ok r := by
  have ends : ¬ s.GoesRound p := by
    intro round
    rw [round.follow] at h
    cases h
  obtain ⟨a, ha⟩ := exists_resolve ends
  have hfollow : s.follow (s.size + 1) p = some a := by
    rw [AliasScope.resolve] at ha
    split at ha
    · cases ha
      assumption
    · cases ha
  have first := follow_add h (s.size + 1)
  have second := follow_add hfollow fuel
  rw [Nat.add_comm, second] at first
  cases first
  exact ha

end AliasScope
end EntityQuery
