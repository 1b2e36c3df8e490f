import EntityQuery.Proofs.Expression.Calls
import EntityQuery.Proofs.Text.Paths

/-!
# Renaming the heads of paths

Aliases are renamed where a path begins with them. Names that dynamic calls take from their first
argument and subqueries stay as they are. In an expression without calls of SIZE, without
subqueries and with literal names in its dynamic calls, only paths are written in another way after
a renaming. So it renders as before wherever its paths do.
-/

namespace EntityQuery

/-- The head of a path, renamed, before the rest. -/
def Text.renameHead (ρ : String → String) (path : String) : String :=
  match headAndRest path with
  | (head, none) => ρ head
  | (head, some rest) => ρ head ++ "." ++ rest

/-- The path of the renamed text. It is bound to the same node as before, if it is bound. -/
def Path.rename (ρ : String → String) (p : Path) : Path :=
  { p with segments := Text.segments (Text.renameHead ρ p.text) }

namespace Path
variable {ρ : String → String}

@[simp] theorem node_rename (p : Path) : (p.rename ρ).node = p.node := by rw [rename]

@[simp] theorem field_rename (p : Path) : (p.rename ρ).field = p.field := by rw [rename]

@[simp] theorem keyed_rename (p : Path) : (p.rename ρ).keyed = p.keyed := by rw [rename]

@[simp] theorem wrapped_rename (p : Path) : (p.rename ρ).wrapped = p.wrapped := by rw [rename]

@[simp] theorem text_rename (p : Path) : (p.rename ρ).text = Text.renameHead ρ p.text := by
  rw [rename]
  exact Text.intercalate_segments _

theorem rename_ofText (text : String) :
    (ofText text).rename ρ = .ofText (Text.renameHead ρ text) := by
  rw [rename, text_ofText]
  rfl

theorem rename_bound (text : String) (node : Nat) (field : Option String) :
    (bound text node field).rename ρ = .bound (Text.renameHead ρ text) node field := by
  rw [rename, text_bound]
  rfl

theorem rename_marks (p : Path) (keyed wrapped : Bool) :
    rename ρ { p with keyed := keyed, wrapped := wrapped } =
      { p.rename ρ with keyed := keyed, wrapped := wrapped } := by
  simp only [rename, text]

theorem mark_rename (w : Wrapping) (p : Path) : w.mark (p.rename ρ) = (w.mark p).rename ρ := by
  cases w <;> simp only [Wrapping.mark, rename, text]

end Path

namespace Expression
variable {ρ : String → String}

mutual

def rename (ρ : String → String) : Expression → Expression
  | .path p => .path (p.rename ρ)
  | .call f as => .call f (renameList ρ as)
  | .element base index => .element (base.rename ρ) (rename ρ index)
  | e => e

def renameList (ρ : String → String) : List Expression → List Expression
  | [] => []
  | e :: es => rename ρ e :: renameList ρ es

end

theorem renameList_eq (as : List Expression) : renameList ρ as = as.map (rename ρ) := by
  induction as with
  | nil => rfl
  | cons a rest ih => rw [renameList, ih, List.map_cons]

theorem rename_call (f : String) (as : List Expression) :
    (call f as).rename ρ = .call f (as.map (rename ρ)) := by
  rw [rename, renameList_eq]

theorem rename_ofPathText (text : String) :
    (ofPathText text).rename ρ = .ofPathText (Text.renameHead ρ text) := by
  rw [ofPathText, rename, Path.rename_ofText]
  rfl

theorem marked_rename (w : Wrapping) (e : Expression) :
    (e.rename ρ).marked w = (e.marked w).rename ρ := by
  cases e with
  | path p => exact congrArg Expression.path (Path.mark_rename w p)
  | _ => rfl

/-- Made of paths in `K` and of calls that are not of SIZE, without subqueries. What a dynamic call
calls is a literal. -/
inductive Simple (K : Path → Prop) : Expression → Prop
  | path {p : Path} (h : K p) : Simple K (.path p)
  | call {f : String} {as : List Expression} (size : Text.sameLetters f "SIZE" = false)
      (dynamic : CallForm.ofFunction f = .dynamic → ∀ a ∈ as.head?, ∃ s, a = .literal (.text s))
      (inside : ∀ a ∈ as, Simple K a) : Simple K (.call f as)
  | parameter (name : Option String) (value : Option Value) : Simple K (.parameter name value)
  | element (base : Path) (index : Expression) : Simple K (.element base index)
  | literal (l : Literal) : Simple K (.literal l)

theorem Simple.mono {K L : Path → Prop} (h : ∀ p, K p → L p) {e : Expression}
    (simple : e.Simple K) : e.Simple L := by
  induction simple with
  | path hp => exact .path (h _ hp)
  | call size dynamic _ ih => exact .call size dynamic ih
  | parameter name value => exact .parameter name value
  | element base index => exact .element base index
  | literal l => exact .literal l

theorem Simple.rename {K L : Path → Prop} (h : ∀ p, K p → L (p.rename ρ)) {e : Expression}
    (simple : e.Simple K) : (e.rename ρ).Simple L := by
  induction simple with
  | path hp => exact .path (h _ hp)
  | @call f as size dynamic _ ih =>
    rw [rename_call]
    refine .call size ?_ (List.forall_mem_map.mpr ih)
    intro hform b hb
    rw [List.head?_map] at hb
    obtain ⟨a, ha, rfl⟩ := Option.map_eq_some_iff.mp hb
    obtain ⟨s, rfl⟩ := dynamic hform a ha
    exact ⟨s, rfl⟩
  | parameter name value => exact .parameter name value
  | element base index => exact .element _ _
  | literal l => exact .literal l

end Expression

/-- Where nothing is counted, nothing changes. -/
theorem SizeExpansion.expand_simple {w : SizeExpansion} {K : Path → Prop} {e : Expression}
    (h : e.Simple K) : w.expand e = .ok e := by
  induction h with
  | @call f as size _ _ ih =>
    rcases w.expand_call f as with ⟨p, i, -, counted, -⟩ | ⟨counted, -⟩ | ⟨-, eq⟩
    · cases size.symm.trans counted
    · cases size.symm.trans counted
    · rw [eq, Outcome.mapM_ok_iff.mpr (List.forall₂_same.mpr ih)]
      rfl
  | _ => rfl

namespace Renderer
variable {r s : Renderer} {ρ : String → String}

/-- `s` writes renamed paths as `r` writes them as they are, and all else as `r` does. -/
structure Mirrors (s r : Renderer) (ρ : String → String) (K : Path → Prop) : Prop where
  profile : s.profile = r.profile
  functions : s.functions = r.functions
  parameters : s.parameters = r.parameters
  path : ∀ p, K p → s.path (p.rename ρ) = r.path p

variable {K : Path → Prop}

/-- The texts are the same. An element access has none in either. -/
theorem Mirrors.render (m : s.Mirrors r ρ K) {e : Expression} (h : e.Simple K) :
    Outcome.SameOk (s.render (e.rename ρ)) (r.render e) := by
  induction h with
  | path hp => exact .of_eq (m.path _ hp)
  | parameter name value =>
    refine .of_eq ?_
    show s.parameter name value = r.parameter name value
    unfold Renderer.parameter
    rw [m.profile, m.parameters]
  | element => exact .of_errors ⟨_, rfl⟩ ⟨_, rfl⟩
  | literal l => exact .of_eq rfl
  | @call f as _ dynamic _ ih =>
    rw [Expression.rename_call, Renderer.render, Renderer.render]
    cases hform : CallForm.ofFunction f with
    | outer =>
      cases as with
      | nil => exact .of_eq rfl
      | cons a rest => exact ih a List.mem_cons_self
    | dynamic =>
      cases as with
      | nil => exact .of_errors ⟨_, rfl⟩ ⟨_, rfl⟩
      | cons a rest =>
        obtain ⟨name, rfl⟩ := dynamic hform a rfl
        have others : Outcome.SameOk ((rest.map (Expression.rename ρ)).mapM s.render)
            (rest.mapM r.render) := .mapM_map fun b hb => ih b (List.mem_cons_of_mem _ hb)
        have called : s.registeredCall name = r.registeredCall name := by
          funext arguments
          rw [registeredCall, registeredCall, m.profile]
        show Outcome.SameOk (if s.functions.contains name = true then _ else _)
          (if r.functions.contains name = true then _ else _)
        rw [renderRest_eq, renderRest_eq, m.functions, m.profile, called]
        split
        · exact others.bind fun ts => .of_eq rfl
        · split
          · exact others.bind fun ts => .of_eq rfl
          · exact .of_eq rfl
    | ordinary =>
      have texts : Outcome.SameOk ((as.map (Expression.rename ρ)).mapM s.render)
          (as.mapM r.render) := .mapM_map ih
      dsimp only
      rw [renderList_eq, renderList_eq]
      exact texts.bind fun ts => .of_eq rfl

end Renderer
end EntityQuery
