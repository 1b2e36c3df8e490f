import EntityQuery.Proofs.AliasRounds
import EntityQuery.Proofs.Expression.Calls
import EntityQuery.Proofs.Text.Paths

/-!
# Rendering that does not end

Rendering goes into the parts of an expression one after the other and stops at the first that
cannot be written. Only the aliases of a path can keep it for ever: rendering does not end exactly
if it comes to a path whose aliases go round.
-/

namespace EntityQuery.Renderer

open Outcome (bind_error_iff mapM_cons_error_iff mapM_error_iff)

variable {r : Renderer} {label : String}

/-- The arguments of a call that are rendered. -/
def arguments (r : Renderer) (f : String) (as : List Expression) : List Expression :=
  match CallForm.ofFunction f with
  | .outer => as.take 1
  | .dynamic =>
    match Expression.dynamicName? as with
    | none => []
    | some name => if r.functions.contains name || r.profile.dynamicCalls then as.tail else []
  | .ordinary => as

/-- The parts of an expression in the order in which they are rendered. -/
def parts (r : Renderer) : Expression → List Expression
  | .call f as => r.arguments f as
  | .subquery selected _ _ _ conditions => selected :: conditions.flatMap fun c => [c.1, c.2]
  | _ => []

/-- Rendering comes to the path `p`, and all parts before it are written. -/
inductive Reaches (r : Renderer) (p : Path) : Expression → Prop
  | path : Reaches r p (.path p)
  | part {e a : Expression} {before after : List Expression}
      (split : r.parts e = before ++ a :: after)
      (written : ∀ b ∈ before, ∃ t, r.render b = .ok t) (h : Reaches r p a) : Reaches r p e

/-- The fault that stands for rendering without end. -/
def Endless (r : Renderer) (e : Expression) (label : String) : Prop :=
  r.render e = .error (.aliasEndless label)

theorem endless_path_iff {p : Path} :
    r.Endless (.path p) label ↔ r.resolveAliases = true ∧ p.text = label ∧ r.scope.GoesRound p := by
  have later : ∀ q, r.written q ≠ .error (.aliasEndless label) := by
    intro q h
    rw [written] at h
    split at h
    · cases h
    · rw [JoinForest.node] at h
      split at h
      · cases h
      · cases h
  have stands : r.Endless (.path p) label ↔ r.standsFor p = .error (.aliasEndless label) := by
    rw [Endless, render, path_eq, bind_error_iff]
    refine or_iff_left ?_
    rintro ⟨q, -, hq⟩
    exact later q hq
  rw [stands, standsFor]
  cases r.resolveAliases with
  | false => simp
  | true =>
    rw [if_pos rfl, AliasScope.resolve_error_iff]
    simp [and_comm, eq_comm]

theorem endless_call_iff {f : String} {as : List Expression} :
    r.Endless (.call f as) label ↔
      (r.arguments f as).mapM r.render = .error (.aliasEndless label) := by
  rw [Endless, render, arguments]
  cases CallForm.ofFunction f with
  | outer =>
    cases as with
    | nil => simp [renderFirst, pure, Except.pure]
    | cons a rest =>
      show r.render a = _ ↔ [a].mapM r.render = _
      rw [mapM_cons_error_iff]
      simp [pure, Except.pure]
  | dynamic =>
    dsimp only
    cases Expression.dynamicName? as with
    | none => simp [pure, Except.pure]
    | some name =>
      dsimp only
      cases r.functions.contains name with
      | true => simp [bind_error_iff, renderRest_eq]
      | false =>
        cases r.profile.dynamicCalls with
        | true => simp [bind_error_iff, renderRest_eq]
        | false => simp [pure, Except.pure]
  | ordinary => simp [bind_error_iff, renderList_eq]

theorem endless_equalities_iff {cs : List (Expression × Expression)} :
    r.renderEqualities cs = .error (.aliasEndless label) ↔
      (cs.flatMap fun c => [c.1, c.2]).mapM r.render = .error (.aliasEndless label) := by
  induction cs with
  | nil => exact Iff.rfl
  | cons c rest ih =>
    obtain ⟨a, b⟩ := c
    show _ ↔ (a :: b :: rest.flatMap fun c => [c.1, c.2]).mapM r.render = _
    rw [mapM_cons_error_iff, mapM_cons_error_iff, ← ih, renderEqualities]
    simp [bind_error_iff]

theorem endless_subquery_iff {selected : Expression} {entity name : String}
    {joins : List (String × String)} {cs : List (Expression × Expression)} :
    r.Endless (.subquery selected entity name joins cs) label ↔
      (selected :: cs.flatMap fun c => [c.1, c.2]).mapM r.render =
        .error (.aliasEndless label) := by
  rw [Endless, render, mapM_cons_error_iff, ← endless_equalities_iff]
  simp [bind_error_iff]

/-- An expression that is no path is endless where its parts are. -/
theorem endless_iff_parts {e : Expression} (h : ∀ p, e ≠ .path p) :
    r.Endless e label ↔ ∃ before a after, r.parts e = before ++ a :: after ∧
      (∀ b ∈ before, ∃ t, r.render b = .ok t) ∧ r.Endless a label := by
  have parts : r.Endless e label ↔ (r.parts e).mapM r.render = .error (.aliasEndless label) := by
    cases e with
    | path p => exact absurd rfl (h p)
    | call f as => exact endless_call_iff
    | subquery selected entity name joins cs => exact endless_subquery_iff
    | parameter name value =>
      have written : r.parameter name value ≠ .error (.aliasEndless label) := by
        unfold parameter
        split
        · simp
        · dsimp only
          split <;> simp
      simpa [Endless, render, Renderer.parts, pure, Except.pure] using written
    | element base index => simp [Endless, render, Renderer.parts, pure, Except.pure]
    | literal l => simp [Endless, render, Renderer.parts, pure, Except.pure]
  rw [parts, mapM_error_iff]
  exact Iff.rfl

theorem reaches_iff_parts {e : Expression} {p : Path} (h : ∀ q, e ≠ .path q) :
    r.Reaches p e ↔ ∃ before a after, r.parts e = before ++ a :: after ∧
      (∀ b ∈ before, ∃ t, r.render b = .ok t) ∧ r.Reaches p a := by
  constructor
  · intro reaches
    cases reaches with
    | path => exact absurd rfl (h p)
    | part split written inner => exact ⟨_, _, _, split, written, inner⟩
  · rintro ⟨before, a, after, split, written, inner⟩
    exact .part split written inner

theorem mem_of_mem_arguments {f : String} {as : List Expression} {a : Expression}
    (h : a ∈ r.arguments f as) : a ∈ as := by
  rw [arguments] at h
  split at h
  · exact List.mem_of_mem_take h
  · split at h
    · cases h
    · split at h
      · exact List.mem_of_mem_tail h
      · cases h
  · exact h

/-- Induction over the parts that are rendered. -/
@[elab_as_elim]
theorem byRendered {P : Expression → Prop} (path : ∀ p, P (.path p))
    (other : ∀ e, (∀ p, e ≠ .path p) → (∀ a ∈ r.parts e, P a) → P e) (e : Expression) : P e := by
  induction e using Expression.byParts with
  | path p => exact path p
  | call f as ih => exact other _ nofun fun a ha => ih a (mem_of_mem_arguments ha)
  | parameter n v => exact other _ nofun nofun
  | element p i => exact other _ nofun nofun
  | literal l => exact other _ nofun nofun
  | subquery s e a js cs hs hcs =>
    refine other _ nofun fun b hb => ?_
    rcases List.mem_cons.mp hb with rfl | hb
    · exact hs
    · obtain ⟨c, hc, hb⟩ := List.mem_flatMap.mp hb
      rcases List.mem_pair.mp hb with rfl | rfl
      · exact (hcs c hc).1
      · exact (hcs c hc).2

/-- Rendering does not end exactly if it comes to a path whose aliases go round. -/
theorem endless_iff {e : Expression} :
    r.Endless e label ↔ r.resolveAliases = true ∧
      ∃ p, r.Reaches p e ∧ p.text = label ∧ r.scope.GoesRound p := by
  induction e using byRendered (r := r) with
  | path p =>
    rw [endless_path_iff]
    constructor
    · rintro ⟨resolves, rest⟩
      exact ⟨resolves, p, .path, rest⟩
    · rintro ⟨resolves, q, reaches, rest⟩
      cases reaches with
      | path => exact ⟨resolves, rest⟩
      | part split => cases List.append_eq_nil_iff.mp split.symm |>.2
  | other e other ih =>
    rw [endless_iff_parts other]
    constructor
    · rintro ⟨before, a, after, split, written, h⟩
      obtain ⟨resolves, p, reaches, rest⟩ := (ih a (by simp [split])).mp h
      exact ⟨resolves, p, .part split written reaches, rest⟩
    · rintro ⟨resolves, p, reaches, rest⟩
      obtain ⟨before, a, after, split, written, inner⟩ := (reaches_iff_parts other).mp reaches
      exact ⟨before, a, after, split, written,
        (ih a (by simp [split])).mpr ⟨resolves, p, inner, rest⟩⟩

/-- Rendering goes on for ever exactly if aliases are replaced and it comes to a path that leads
into a round of aliases; what leads into a round has no end after any number of steps. -/
theorem endless_iff_round (r : Renderer) (e : Expression) :
    ((∃ label, r.render e = .error (.aliasEndless label)) ↔
      r.resolveAliases = true ∧ ∃ p, r.Reaches p e ∧ r.scope.GoesRound p) ∧
    ∀ p, r.scope.GoesRound p ↔ ∀ fuel, r.scope.follow fuel p = none := by
  refine ⟨?_, fun p => AliasScope.goesRound_iff⟩
  constructor
  · rintro ⟨label, h⟩
    obtain ⟨resolves, p, reaches, -, round⟩ := endless_iff.mp h
    exact ⟨resolves, p, reaches, round⟩
  · rintro ⟨resolves, p, reaches, round⟩
    exact ⟨p.text, endless_iff.mpr ⟨resolves, p, reaches, rfl, round⟩⟩

/-- Two aliases are registered, each for the other: from the first there is no end. -/
theorem endless_round_of_two :
    let scope : AliasScope :=
      ⟨[("a", .item (.ofPathText "b")), ("b", .item (.ofPathText "a"))], []⟩
    (do
      let first ← AliasScope.empty.register "a" (.item (.ofPathText "b"))
      first.register "b" (.item (.ofPathText "a"))) = .ok scope ∧
    (∀ fuel, scope.follow fuel (.ofText "a") = none) ∧
    ∀ r : Renderer, r.scope = scope → r.resolveAliases = true →
      r.render (.ofPathText "a") = .error (.aliasEndless "a") := by
  intro scope
  have there : scope.Step (.ofText "a") (.ofText "b") :=
    ⟨rfl, by rw [Path.text_ofText]; rfl,
      fun _ => by rw [Path.text_ofText, Path.text_ofText]; decide⟩
  have back : scope.Step (.ofText "b") (.ofText "a") :=
    ⟨rfl, by rw [Path.text_ofText]; rfl,
      fun _ => by rw [Path.text_ofText, Path.text_ofText]; decide⟩
  have round : scope.GoesRound (.ofText "a") := ⟨_, .refl, .tail (.single there) back⟩
  refine ⟨rfl, round.follow, ?_⟩
  intro r hscope resolves
  exact endless_path_iff.mpr ⟨resolves, Path.text_ofText "a", hscope ▸ round⟩

end EntityQuery.Renderer
