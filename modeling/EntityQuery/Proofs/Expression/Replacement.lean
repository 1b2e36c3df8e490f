import EntityQuery.Proofs.Expression.Calls

/-!
# Replacing an alias by what it stands for

A free path that is an alias is replaced, with its own marks, by another path. Binding commutes
with this, and so do the expansion of SIZE and rendering where the alias is not seen as an
alias: SIZE counts only what is bound, FUNCTION reads its first argument as it is written, and
the marks of KEY, INDEX, VALUE and ENTRY do not pass from an alias to its path.
-/

namespace EntityQuery

namespace Path

/-- The path is not bound and reads `n`. -/
def Names (p : Path) (n : String) : Prop := p.node = none ∧ p.text = n

instance (p : Path) (n : String) : Decidable (p.Names n) := inferInstanceAs (Decidable (_ ∧ _))

/-- The path itself, or `x` with its marks in place of the alias `n`. -/
def replace (p : Path) (n : String) (x : Path) : Path :=
  if p.Names n then { x with keyed := p.keyed, wrapped := p.wrapped } else p

variable {n : String} {x p : Path}

theorem replace_of_names (h : p.Names n) :
    p.replace n x = { x with keyed := p.keyed, wrapped := p.wrapped } := if_pos h

theorem replace_of_not_names (h : ¬ p.Names n) : p.replace n x = p := if_neg h

theorem mark_replace (w : Wrapping) : w.mark (p.replace n x) = (w.mark p).replace n x := by
  have names : (w.mark p).Names n ↔ p.Names n := by cases w <;> exact Iff.rfl
  by_cases h : p.Names n
  · rw [replace_of_names h, replace_of_names (names.mpr h)]
    cases w <;> rfl
  · rw [replace_of_not_names h, replace_of_not_names fun h' => h (names.mp h')]

end Path

namespace Expression
variable {n : String} {x : Path}

mutual

/-- Replaces an alias outside subqueries and element accesses. -/
def replace (n : String) (x : Path) : Expression → Expression
  | .path p => .path (p.replace n x)
  | .call f as => .call f (replaceList n x as)
  | e => e

def replaceList (n : String) (x : Path) : List Expression → List Expression
  | [] => []
  | e :: es => replace n x e :: replaceList n x es

end

theorem replaceList_eq (as : List Expression) : replaceList n x as = as.map (replace n x) := by
  induction as with
  | nil => rfl
  | cons a rest ih => rw [replaceList, ih, List.map_cons]

theorem replace_call (f : String) (as : List Expression) :
    (call f as).replace n x = .call f (as.map (replace n x)) := by
  rw [replace, replaceList_eq]

theorem marked_replace (w : Wrapping) (e : Expression) :
    (e.replace n x).marked w = (e.marked w).replace n x := by
  cases e with
  | path p => exact congrArg Expression.path (Path.mark_replace w)
  | _ => rfl

/-- An expression of paths, calls, parameters and literals in which `n` may be replaced by `x`:
it is not the argument of SIZE, not in the first argument of FUNCTION, and where it stands as
an argument it has marks in `H`. -/
inductive Transparent (n : String) (x : Path) (H : Bool → Bool → Prop) : Expression → Prop
  | path {p : Path} (h : p.Names n → H p.keyed p.wrapped) : Transparent n x H (.path p)
  | call {f : String} {as : List Expression}
      (size : Text.sameLetters f "SIZE" = true → ∀ p, as = [.path p] → p.replace n x = p)
      (dynamic : CallForm.ofFunction f = .dynamic → ∀ a ∈ as.head?, a.replace n x = a)
      (inside : ∀ a ∈ as, Transparent n x H (a.marked (.ofFunction f))) :
      Transparent n x H (.call f as)
  | parameter (name : Option String) (value : Option Value) :
      Transparent n x H (.parameter name value)
  | literal (l : Literal) : Transparent n x H (.literal l)

/-- The same of an expression in which all arguments are marked already. -/
inductive Clear (n : String) (x : Path) (H : Bool → Bool → Prop) : Expression → Prop
  | path {p : Path} (h : p.Names n → H p.keyed p.wrapped) : Clear n x H (.path p)
  | call {f : String} {as : List Expression}
      (size : Text.sameLetters f "SIZE" = true → ∀ p, as = [.path p] → p.replace n x = p)
      (dynamic : CallForm.ofFunction f = .dynamic → ∀ a ∈ as.head?, a.replace n x = a)
      (inside : ∀ a ∈ as, Clear n x H a) : Clear n x H (.call f as)
  | fixed {e : Expression} (leaf : ∀ f as, e ≠ .call f as) (h : e.replace n x = e) : Clear n x H e

end Expression

namespace SizeExpansion
variable {w : SizeExpansion} {n : String} {x : Path} {H : Bool → Bool → Prop}

theorem sizeArgument?_replace {f : String} {as : List Expression}
    (size : Text.sameLetters f "SIZE" = true → ∀ p, as = [.path p] → p.replace n x = p) :
    sizeArgument? f (as.map (Expression.replace n x)) = sizeArgument? f as := by
  match as with
  | [] => rfl
  | [.path p] =>
    by_cases hsize : Text.sameLetters f "SIZE" = true
    · show sizeArgument? f [.path (p.replace n x)] = _
      rw [size hsize p rfl]
    · simp [sizeArgument?, Expression.replace, hsize]
  | [.call _ _] | [.parameter _ _] | [.element _ _] | [.literal _] | [.subquery ..] => rfl
  | a :: _ :: _ => cases a <;> rfl

theorem size_replace {p : Path} {i : Nat} :
    (w.size p i).map (Expression.replace n x) = w.size p i := by
  cases h : w.size p i with
  | error err => rfl
  | ok c =>
    obtain ⟨owner, entity, collection, -, -, rfl⟩ := size_ok h
    rfl

theorem expand_of_leaf {e : Expression} (leaf : ∀ f as, e ≠ .call f as) :
    w.expand e = .ok e := by
  cases e with
  | call f as => exact absurd rfl (leaf f as)
  | _ => rfl

theorem expand_replace {e : Expression} (h : e.Clear n x H) :
    w.expand (e.replace n x) = (w.expand e).map (Expression.replace n x) := by
  induction h with
  | path => rfl
  | fixed leaf h =>
    rw [h, expand_of_leaf leaf]
    exact congrArg Except.ok h.symm
  | @call f as size _ _ ih =>
    rw [Expression.replace_call, expand, expand, sizeArgument?_replace size]
    cases sizeArgument? f as with
    | some found => exact size_replace.symm
    | none =>
      dsimp only
      split
      · exact congrArg Except.ok (Expression.replace_call f as).symm
      · have each : as.mapM (w.expand ∘ Expression.replace n x) =
            as.mapM fun a => (w.expand a).map (Expression.replace n x) := Outcome.mapM_congr ih
        rw [expandList_eq, expandList_eq, List.mapM_map, each, Outcome.mapM_map_ok]
        cases as.mapM w.expand with
        | error err => rfl
        | ok bs => exact congrArg Except.ok (Expression.replace_call f bs).symm

/-- Expansion leaves nothing to see of the alias that was not there. -/
theorem clear_expand {e c : Expression} (h : e.Clear n x H) (hc : w.expand e = .ok c) :
    c.Clear n x H := by
  induction h generalizing c with
  | path hp =>
    cases hc
    exact .path hp
  | fixed leaf h =>
    rw [expand_of_leaf leaf] at hc
    cases hc
    exact .fixed leaf h
  | @call f as size dynamic inside ih =>
    rcases w.expand_call f as with ⟨p, i, -, -, -, eq⟩ | ⟨-, eq⟩ | ⟨other, eq⟩
    · rw [eq] at hc
      obtain ⟨owner, entity, collection, -, -, rfl⟩ := size_ok hc
      exact .fixed nofun rfl
    · rw [eq] at hc
      cases hc
      exact .call size dynamic inside
    · rw [eq] at hc
      obtain ⟨bs, hbs, hc⟩ := Outcome.bind_ok_iff.mp hc
      cases hc
      refine .call ?_ ?_ ?_
      · intro hsize
        rw [other] at hsize
        cases hsize
      · intro hdynamic b hb
        obtain ⟨a, ha, hab⟩ := Outcome.head_of_mapM_ok hbs hb
        have commutes := expand_replace (w := w) (inside a (List.mem_of_mem_head? ha))
        rw [dynamic hdynamic a ha, hab] at commutes
        exact (Except.ok.inj commutes).symm
      · intro b hb
        obtain ⟨a, ha, hab⟩ := Outcome.mem_of_mapM_ok hbs hb
        exact ih a ha hab

end SizeExpansion

namespace Renderer
variable {r : Renderer} {n : String} {x : Path} {H : Bool → Bool → Prop}

theorem render_replace
    (same : ∀ p : Path, p.Names n → H p.keyed p.wrapped → r.path (p.replace n x) = r.path p)
    {e : Expression} (h : e.Clear n x H) : r.render (e.replace n x) = r.render e := by
  induction h with
  | @path p hp =>
    by_cases names : p.Names n
    · exact same p names (hp names)
    · rw [Expression.replace, Path.replace_of_not_names names]
  | fixed _ h => rw [h]
  | @call f as _ dynamic _ ih =>
    rw [Expression.replace_call, render, render]
    cases hform : CallForm.ofFunction f with
    | outer =>
      cases as with
      | nil => rfl
      | cons a rest => exact ih a List.mem_cons_self
    | dynamic =>
      cases as with
      | nil => rfl
      | cons a rest =>
        have others : r.renderRest ((a :: rest).map (Expression.replace n x)) =
            r.renderRest (a :: rest) := by
          rw [renderRest_eq, renderRest_eq, List.map_cons, List.tail_cons, List.mapM_map]
          exact Outcome.mapM_congr fun b hb => ih b (List.mem_cons_of_mem a hb)
        rw [List.map_cons, dynamic hform a rfl] at others
        dsimp only
        rw [List.map_cons, dynamic hform a rfl, others, Expression.dynamicName?_cons a _ rest]
        cases hname : Expression.dynamicName? (a :: rest) with
        | none => cases Expression.eq_nil_of_dynamicName?_none hname
        | some name => rfl
    | ordinary =>
      have texts : r.renderList (as.map (Expression.replace n x)) = r.renderList as := by
        rw [renderList_eq, renderList_eq, List.mapM_map]
        exact Outcome.mapM_congr ih
      dsimp only
      rw [texts]

end Renderer

end EntityQuery
