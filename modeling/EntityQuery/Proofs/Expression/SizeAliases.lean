import EntityQuery.Proofs.Expression.Calls
import EntityQuery.Proofs.FreshAlias
import EntityQuery.Proofs.Query.Growth

/-!
# The aliases of a counting subquery

SIZE brings in two aliases, one for the subquery and one for the collection that it joins. Each is
free in the scope of the query and in those around it, but they are chosen as if each were the
only one: a collection can be called so that they are the same.
-/

namespace EntityQuery.SizeExpansion

open AliasScope (isAvailable_iff numbered numbered_inj toList_numbered underscore_notMem_toDigits)
open Expression (Occurs occurs_call_iff)

variable {w : SizeExpansion} {clause : Clause} {e c : Expression}

theorem toList_joined (label name : String) :
    (s!"{label}_{name}").toList = label.toList ++ '_' :: name.toList := by
  show (label ++ "_" ++ name).toList = _
  simp

theorem toList_base (label : String) :
    (s!"{label}_base").toList = label.toList ++ '_' :: "base".toList := by
  show (label ++ "_base").toList = _
  rw [String.toList_append]
  rfl

theorem joined_eq_base_iff {label name : String} :
    s!"{label}_{name}" = s!"{label}_base" ↔ name = "base" := by
  rw [← String.toList_inj, toList_joined, toList_base, List.append_cancel_left_eq,
    List.cons_inj_right, String.toList_inj]

/-- What follows the last underscore is no number. -/
theorem numbered_ne_base (label other : String) (i : Nat) :
    numbered other i ≠ s!"{label}_base" := by
  intro same
  have lists := congrArg String.toList same
  rw [toList_numbered, toList_base] at lists
  obtain ⟨-, digits⟩ := eq_of_append_cons (underscore_notMem_toDigits i) (by decide) lists
  have digit : Char.isDigit 'b' = true :=
    Nat.isDigit_of_mem_toDigits (b := 10) (n := i) (by omega) (by omega) (by simp [digits])
  exact absurd digit (by decide)

/-- The alias of the collection is that of the subquery if both are made from the same or if the
first is what the second was given instead of its base. -/
theorem generate_eq_base_iff (s : AliasScope) (label collection : String) :
    s.generate s!"{label}_{collection}" = s.generate s!"{label}_base" ↔
      collection = "base" ∨ s.generate s!"{label}_base" = s!"{label}_{collection}" := by
  constructor
  · intro same
    rcases s.generate_cases s!"{label}_{collection}" with ⟨-, eq⟩ | ⟨-, j, -, eq, -⟩
    · exact Or.inr (same ▸ eq)
    · rw [same] at eq
      rcases s.generate_cases s!"{label}_base" with ⟨-, base⟩ | ⟨-, k, -, base, -⟩
      · exact absurd (eq.symm.trans base) (numbered_ne_base label _ j)
      · exact Or.inl (joined_eq_base_iff.mp (numbered_inj.mp (eq.symm.trans base)).1)
  · rintro (named | eq)
    · rw [joined_eq_base_iff.mpr named]
    · have free := s.isAvailable_generate s!"{label}_base"
      rw [eq] at free ⊢
      exact AliasScope.generate_of_isAvailable free

/-- A call of SIZE on a collection of `owner`. -/
def IsSize (w : SizeExpansion) (owner : ForestNode) (collection : String) (e : Expression) : Prop :=
  ∃ f p i, e = .call f [.path p] ∧ Text.sameLetters f "SIZE" = true ∧ p.node = some i ∧
    p.field = some collection ∧ w.forest.node i = .ok owner

/-- `w.Counts s e`: the subquery `s` counts the collection of the call `e`. Its two aliases are
free, and they are the same exactly if the collection is called `base`, or if the alias of the
subquery is numbered and ends as the collection is called. -/
def Counts (w : SizeExpansion) (s e : Expression) : Prop :=
  ∃ owner collection entity base joined conditions, w.IsSize owner collection e ∧
    s = .subquery (.call "COUNT" [.ofPathText joined]) entity base
      [(s!"{base}.{collection}", joined)] conditions ∧
    w.scope.find? base = none ∧ w.scope.find? joined = none ∧
    (joined = base ↔ collection = "base" ∨ base = s!"{owner.label}_{collection}")

theorem counts_of_size {f : String} {p : Path} {i : Nat} {s : Expression}
    (size : Text.sameLetters f "SIZE" = true) (hp : p.node = some i) (h : w.size p i = .ok s) :
    w.Counts s (.call f [.path p]) := by
  obtain ⟨owner, entity, collection, howner, hfield, rfl⟩ := size_ok h
  exact ⟨owner, collection, entity.name, _, _, _, ⟨f, p, i, rfl, size, hp, hfield, howner⟩, rfl,
    isAvailable_iff.mp (w.scope.isAvailable_generate _),
    isAvailable_iff.mp (w.scope.isAvailable_generate _),
    generate_eq_base_iff w.scope owner.label collection⟩

/-- Every subquery that is brought in counts what a call of SIZE asked for, and outside of SELECT
a call that asks for a collection becomes such a subquery. -/
theorem size_aliases (h : w.transform clause e = .ok c) :
    (∀ selected entity base joins conditions,
        Occurs (.subquery selected entity base joins conditions) c →
        Occurs (.subquery selected entity base joins conditions) e ∨
          ∃ call, Occurs call e ∧ w.Counts (.subquery selected entity base joins conditions) call) ∧
      (clause ≠ .select → ∀ owner collection, w.IsSize owner collection e → w.Counts c e) := by
  rw [transform] at h
  split at h
  · rename_i select
    cases h
    exact ⟨fun _ _ _ _ _ inner => Or.inl inner, fun other => absurd select other⟩
  constructor
  · intro selected entity base joins conditions inner
    rcases occurs_expand h inner with before | ⟨f, as, bs, call, -⟩ |
      ⟨f, p, i, hcall, size, hp, counted⟩
    · exact Or.inl before
    · cases call
    · exact Or.inr ⟨_, hcall, counts_of_size size hp counted⟩
  · rintro - owner collection ⟨f, p, i, rfl, size, hp, -, -⟩
    rw [expand_size size hp] at h
    exact counts_of_size size hp h

/-- The partners of a document are counted below another call. -/
theorem size_aliases_partners :
    let w : SizeExpansion := ⟨.ofDocuments, Query.ofDocuments.forest, Query.ofDocuments.scope⟩
    let counted : Expression :=
      .subquery (.call "COUNT" [.ofPathText "d_partners"]) "Document" "d_base"
        [("d_base.partners", "d_partners")]
        [(.ofPathText "d_base.id", .path (.bound "d.id" 0 (some "id")))]
    let size : Expression := .call "SIZE" [.path (.bound "d.partners" 0 (some "partners"))]
    w.transform .orderBy (.call "ABS" [size]) = .ok (.call "ABS" [counted]) ∧
      Occurs counted (.call "ABS" [counted]) ∧
      ∃ call, Occurs call (.call "ABS" [size]) ∧ w.Counts counted call := by
  intro w counted size
  have h : w.transform .orderBy (.call "ABS" [size]) = .ok (.call "ABS" [counted]) := rfl
  have inner : Occurs counted (.call "ABS" [counted]) := .argument List.mem_cons_self .here
  have new : ¬ Occurs counted (.call "ABS" [size]) := by
    simp only [occurs_call_iff, counted, size, List.mem_singleton, exists_eq_left]
    nofun
  exact ⟨h, inner, ((size_aliases h).1 _ _ _ _ _ inner).resolve_left new⟩

/-- A collection that is called `base`, and one whose name ends as the alias of the subquery does
because the alias without number is taken. -/
theorem size_aliases_same :
    let schema : Schema := ⟨[("Document", ⟨"Document", "document", "id",
      [.basic "id", .plural "base" .set "Document", .plural "base_1" .set "Document"]⟩)]⟩
    let forest : JoinForest := ⟨[⟨0, "d", "Document", .root, .inner, false, []⟩]⟩
    let w : SizeExpansion := ⟨schema, forest, ⟨[("d", .join 0)], []⟩⟩
    let v : SizeExpansion := ⟨schema, forest, ⟨[("d", .join 0)], [[("d_base", .join 0)]]⟩⟩
    let size (collection : String) : Expression :=
      .call "SIZE" [.path (.bound s!"d.{collection}" 0 (some collection))]
    let counted (collection label : String) : Expression :=
      .subquery (.call "COUNT" [.ofPathText label]) "Document" label
        [(s!"{label}.{collection}", label)]
        [(.ofPathText s!"{label}.id", .path (.bound "d.id" 0 (some "id")))]
    (w.transform .orderBy (size "base") = .ok (counted "base" "d_base")) ∧
      v.transform .orderBy (size "base") = .ok (counted "base" "d_base_1") ∧
      v.transform .orderBy (size "base_1") = .ok (counted "base_1" "d_base_1") := by
  refine ⟨?_, ?_, ?_⟩
  · rfl
  · rfl
  · rfl

end EntityQuery.SizeExpansion
