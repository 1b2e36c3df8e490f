import EntityQuery.Proofs.FreshAlias
import Mathlib.Data.List.Nodup
import Mathlib.Data.List.Perm.Subperm

/-!
# Chains of scopes

A chain begins with one empty scope and grows by aliases and by scopes inside the innermost one. No
alias is twice in such a chain, so that a name is available exactly if it is nowhere in it, and the
search for an available name comes to its first number after less tries than there are aliases.
-/

namespace EntityQuery

namespace Catalog
variable {α : Type} {name k : String} {a : α} {c : Catalog α}

/-- The names rise, as in every catalog that entries are put into. -/
def Sorted (c : Catalog α) : Prop := c.names.Pairwise (· < ·)

theorem sorted_nil : Sorted ([] : Catalog α) := .nil

theorem Sorted.nodup (h : c.Sorted) : c.names.Nodup := by
  refine List.Pairwise.imp (fun less same => ?_) h
  subst same
  exact String.lt_irrefl _ less

theorem mem_names_insert : k ∈ (insert name a c).names ↔ k = name ∨ k ∈ c.names := by
  induction c with
  | nil => simp [insert, names]
  | cons entry rest ih =>
    obtain ⟨l, b⟩ := entry
    simp only [names] at ih
    rw [insert]
    by_cases hlt : l < name
    · rw [if_pos hlt]
      simp only [names, List.map_cons, List.mem_cons, ih]
      exact or_left_comm
    · rw [if_neg hlt]
      by_cases same : l = name
      · subst same
        simp [names]
      · rw [if_neg same]
        simp [names]

theorem Sorted.insert (h : c.Sorted) (name : String) (a : α) : (insert name a c).Sorted := by
  induction c with
  | nil => exact List.pairwise_singleton _ _
  | cons entry rest ih =>
    obtain ⟨l, b⟩ := entry
    obtain ⟨first, sorted⟩ := List.pairwise_cons.mp h
    rw [Catalog.insert]
    by_cases hlt : l < name
    · rw [if_pos hlt]
      refine List.pairwise_cons.mpr ⟨fun k hk => ?_, ih sorted⟩
      rcases mem_names_insert.mp hk with rfl | there
      · exact hlt
      · exact first k there
    · rw [if_neg hlt]
      by_cases same : l = name
      · subst same
        rw [if_pos rfl]
        exact h
      · have hless : name < l :=
          String.not_le.mp fun le => same (String.le_antisymm le (String.not_lt.mp hlt))
        rw [if_neg same]
        refine List.pairwise_cons.mpr ⟨fun k hk => ?_, h⟩
        rcases List.mem_cons.mp hk with rfl | there
        · exact hless
        · exact String.lt_trans hless (first k there)

/-- What is in a sorted catalog is found. -/
theorem Sorted.find?_ne_none (h : c.Sorted) (there : name ∈ c.names) : c.find? name ≠ none := by
  induction c with
  | nil => cases there
  | cons entry rest ih =>
    obtain ⟨l, b⟩ := entry
    obtain ⟨first, sorted⟩ := List.pairwise_cons.mp h
    rw [find?]
    rcases List.mem_cons.mp there with rfl | there
    · rw [if_neg (String.lt_irrefl _), if_pos rfl]
      exact Option.some_ne_none b
    · rw [if_pos (first name there)]
      exact ih sorted there

end Catalog

/-- What is done to a chain of scopes. -/
inductive ScopeStep where
  | register (label : String) (target : AliasTarget)
  | child

namespace AliasScope
variable {s : AliasScope} {label base : String}

def step (s : AliasScope) : ScopeStep → Except QueryError AliasScope
  | .register label target => s.register label target
  | .child => .ok s.child

/-- An alias that is refused is not registered. -/
def attempt (s : AliasScope) (t : ScopeStep) : AliasScope :=
  match s.step t with
  | .ok r => r
  | .error _ => s

def run (s : AliasScope) (steps : List ScopeStep) : AliasScope := steps.foldl attempt s

/-- Each scope is sorted, and no two of them have an alias in common. -/
structure Apart (s : AliasScope) : Prop where
  sorted : ∀ level ∈ s.levels, level.Sorted
  disjoint : s.levels.Pairwise fun inner outer => inner.names.Disjoint outer.names

namespace Apart

theorem empty : Apart .empty where
  sorted level h := by
    obtain rfl := List.mem_singleton.mp h
    exact Catalog.sorted_nil
  disjoint := List.pairwise_singleton _ _

theorem child (h : s.Apart) : s.child.Apart where
  sorted := List.forall_mem_cons.mpr ⟨Catalog.sorted_nil, h.sorted⟩
  disjoint := List.pairwise_cons.mpr ⟨fun _ _ => List.disjoint_nil_left _, h.disjoint⟩

theorem nodup (h : s.Apart) : s.names.Nodup :=
  List.nodup_flatMap.mpr ⟨fun level there => (h.sorted level there).nodup, h.disjoint⟩

/-- The lookup through the chain finds all that is in it. -/
theorem find?_eq_none_iff (h : s.Apart) : s.find? label = none ↔ label ∉ s.names := by
  constructor
  · intro free there
    obtain ⟨level, inside, named⟩ := List.mem_flatMap.mp there
    exact (h.sorted level inside).find?_ne_none named
      (List.findSome?_eq_none_iff.mp free level inside)
  · intro absent
    rw [Option.eq_none_iff_forall_ne_some]
    exact fun t found => absent (mem_names_of_find? found)

theorem isAvailable_iff (h : s.Apart) : s.isAvailable label = true ↔ label ∉ s.names :=
  AliasScope.isAvailable_iff.trans h.find?_eq_none_iff

theorem isAvailable_eq_false_iff (h : s.Apart) : s.isAvailable label = false ↔ label ∈ s.names := by
  rw [← Bool.not_eq_true, h.isAvailable_iff, not_not]

theorem put (h : s.Apart) (free : label ∉ s.names) (target : AliasTarget) :
    (s.put label target).Apart := by
  obtain ⟨own, outer⟩ := s
  obtain ⟨sorted, below⟩ := List.forall_mem_cons.mp h.sorted
  obtain ⟨apart, disjoint⟩ := List.pairwise_cons.mp h.disjoint
  refine ⟨List.forall_mem_cons.mpr ⟨sorted.insert label target, below⟩,
    List.pairwise_cons.mpr ⟨fun level inside k new old => ?_, disjoint⟩⟩
  rcases Catalog.mem_names_insert.mp new with rfl | there
  · exact free (List.mem_flatMap.mpr ⟨level, List.mem_cons_of_mem own inside, old⟩)
  · exact apart level inside there old

theorem attempt (h : s.Apart) (t : ScopeStep) : (s.attempt t).Apart := by
  rw [AliasScope.attempt]
  cases t with
  | child => exact h.child
  | register label target =>
    split
    · rename_i r registered
      obtain ⟨free, rfl⟩ := register_ok_iff.mp registered
      exact h.put (h.find?_eq_none_iff.mp free) target
    · exact h

theorem run (h : s.Apart) (steps : List ScopeStep) : (s.run steps).Apart := by
  induction steps generalizing s with
  | nil => exact h
  | cons t rest ih => exact ih (h.attempt t)

end Apart

/-- Taken numbers of a taken base are as many different aliases, and the base is one more. -/
theorem lt_size_of_taken {n : Nat} (here : base ∈ s.names)
    (taken : ∀ i, 1 ≤ i → i ≤ n → numbered base i ∈ s.names) : n < s.size := by
  let tried := (List.range' 1 n).map (numbered base)
  have bounds : ∀ i ∈ List.range' 1 n, 1 ≤ i ∧ i ≤ n := by
    intro i hi
    obtain ⟨low, high⟩ := List.mem_range'_1.mp hi
    omega
  have apart : tried.Nodup :=
    List.Nodup.map (fun _ _ same => (numbered_inj.mp same).2) List.nodup_range'
  have other : base ∉ tried := by
    intro same
    obtain ⟨i, -, eq⟩ := List.mem_map.mp same
    have length := congrArg (·.toList.length) eq
    simp [toList_numbered] at length
  have inside : base :: tried ⊆ s.names := by
    refine List.cons_subset.mpr ⟨here, fun label tries => ?_⟩
    obtain ⟨i, hi, rfl⟩ := List.mem_map.mp tries
    exact taken i (bounds i hi).1 (bounds i hi).2
  have fewer := (List.nodup_cons.mpr ⟨other, apart⟩).subperm inside |>.length_le
  rwa [length_names, List.length_cons, List.length_map, List.length_range'] at fewer

/-- The search for a number that is available ends after no more tries than there are aliases. -/
theorem Apart.generate (h : s.Apart) (taken : base ∈ s.names) :
    ∃ i, 1 ≤ i ∧ i ≤ s.size ∧ s.generate base = numbered base i ∧ numbered base i ∉ s.names ∧
      ∀ j, 1 ≤ j → j < i → numbered base j ∈ s.names := by
  rcases s.generate_cases base with ⟨free, -⟩ | ⟨-, i, positive, eq, free, before⟩
  · exact absurd taken (h.isAvailable_iff.mp free)
  · have below : ∀ j, 1 ≤ j → j < i → numbered base j ∈ s.names :=
      fun j low high => h.isAvailable_eq_false_iff.mp (before j low high)
    have bound := lt_size_of_taken (n := i - 1) taken fun j low high => below j low (by omega)
    exact ⟨i, positive, by omega, eq, h.isAvailable_iff.mp free, below⟩

theorem Apart.register_error_iff (h : s.Apart) {target : AliasTarget} {e : QueryError} :
    s.register label target = .error e ↔ label ∈ s.names ∧ e = .aliasTaken label := by
  rw [register, ← h.isAvailable_eq_false_iff]
  cases s.isAvailable label <;> simp [eq_comm]

/-- In every chain of scopes no alias is twice, and taken aliases, and no others, are refused, upon
which the chain stays as it is. A name that is generated is in no scope, so that it can be
registered. It is the base if that is in no scope either, and otherwise the base with its least
number that is in none, which is found after no more tries than there are aliases. -/
theorem chain_run (steps : List ScopeStep) :
    let s := empty.run steps
    s.names.Nodup ∧
      (∀ label target e,
        s.register label target = .error e ↔ label ∈ s.names ∧ e = .aliasTaken label) ∧
      (∀ label target, label ∈ s.names → s.attempt (.register label target) = s) ∧
      ∀ base,
        (base ∉ s.names → s.generate base = base) ∧
        (base ∈ s.names → ∃ i, 1 ≤ i ∧ i ≤ s.size ∧ s.generate base = numbered base i ∧
          numbered base i ∉ s.names ∧ ∀ j, 1 ≤ j → j < i → numbered base j ∈ s.names) ∧
        s.generate base ∉ s.names ∧
        ∀ target, ∃ r, s.register (s.generate base) target = .ok r := by
  intro s
  have apart : s.Apart := Apart.empty.run steps
  refine ⟨apart.nodup, fun label target e => apart.register_error_iff, ?refused, fun base =>
    ⟨fun free => generate_of_isAvailable (apart.isAvailable_iff.mpr free), apart.generate, ?_⟩⟩
  case refused =>
    intro label target taken
    have refused : s.register label target = .error (.aliasTaken label) :=
      apart.register_error_iff.mpr ⟨taken, rfl⟩
    simp only [attempt, step, refused]
  have free := isAvailable_generate s base
  exact ⟨apart.isAvailable_iff.mp free, fun target =>
    ⟨_, register_ok_iff.mpr ⟨AliasScope.isAvailable_iff.mp free, rfl⟩⟩⟩

/-- The inner query may not use the alias of the outer one, and skips a number of its own. -/
theorem chain_run_nested :
    let s := empty.run [.register "d" (.join 0), .register "d_base" (.join 1), .child,
      .register "d" (.join 2), .register "d_base_1" (.join 3)]
    s.names = ["d_base_1", "d", "d_base"] ∧
      s.register "d_base" (.join 4) = .error (.aliasTaken "d_base") ∧
      s.attempt (.register "d_base" (.join 4)) = s ∧ s.generate "e" = "e" ∧
      (∃ i, 1 ≤ i ∧ i ≤ s.size ∧ s.generate "d_base" = numbered "d_base" i ∧
        numbered "d_base" i ∉ s.names ∧
        ∀ j, 1 ≤ j → j < i → numbered "d_base" j ∈ s.names) ∧
      s.generate "d_base" = "d_base_2" := by
  intro s
  have names : s.names = ["d_base_1", "d", "d_base"] := by decide +kernel
  have taken : "d_base" ∈ s.names := by
    rw [names]
    decide
  have free : "e" ∉ s.names := by
    rw [names]
    decide
  obtain ⟨-, refused, stays, generated⟩ := chain_run [.register "d" (.join 0),
    .register "d_base" (.join 1), .child, .register "d" (.join 2), .register "d_base_1" (.join 3)]
  exact ⟨names, (refused _ _ _).mpr ⟨taken, rfl⟩, stays _ _ taken, (generated "e").1 free,
    (generated "d_base").2.1 taken, by decide +kernel⟩

end AliasScope
end EntityQuery
