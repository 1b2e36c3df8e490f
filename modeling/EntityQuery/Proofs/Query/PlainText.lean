import EntityQuery.Proofs.Query.Contents

/-!
# Where the plain text is what is rendered

An expression is written in two ways: plainly, each path as its text, and by the renderer, each path
as what it is bound to. The two agree on expressions without OUTER and FUNCTION where the renderer
adds nothing of its own: no mark before aliases, no paths for select aliases, no value function and
no brackets. Binding then changes what a path refers to, but not how it is written.
-/

namespace EntityQuery

namespace Expression

/-- Made of free paths, ordinary calls, named parameters, literals and subqueries of these. -/
inductive Ordinary : Expression → Prop
  | path {p : Path} (free : p.node = none) : Ordinary (.path p)
  | call {f : String} {as : List Expression} (form : CallForm.ofFunction f = .ordinary)
      (arguments : ∀ a ∈ as, Ordinary a) : Ordinary (.call f as)
  | parameter (name : String) (value : Option Value) : Ordinary (.parameter (some name) value)
  | literal (l : Literal) : Ordinary (.literal l)
  | subquery {selected : Expression} {joins : List (String × String)}
      {conditions : List (Expression × Expression)} (entity label : String)
      (item : Ordinary selected) (left : ∀ c ∈ conditions, Ordinary c.1)
      (right : ∀ c ∈ conditions, Ordinary c.2) :
      Ordinary (.subquery selected entity label joins conditions)

theorem plainList_eq (as : List Expression) : plainList as = as.map plain := by
  induction as with
  | nil => rfl
  | cons a rest ih => exact congrArg (plain a :: ·) ih

theorem plainEqualities_eq (cs : List (Expression × Expression)) :
    plainEqualities cs = cs.map fun c => c.1.plain ++ " = " ++ c.2.plain := by
  induction cs with
  | nil => rfl
  | cons c rest ih => exact congrArg ((c.1.plain ++ " = " ++ c.2.plain) :: ·) ih

theorem plain_call (f : String) (as : List Expression) :
    plain (.call f as) = f ++ "(" ++ String.intercalate "," (as.map plain) ++ ")" := by
  rw [← plainList_eq]
  rfl

theorem plain_subquery (selected : Expression) (entity label : String)
    (joins : List (String × String)) (conditions : List (Expression × Expression)) :
    plain (.subquery selected entity label joins conditions) =
      s!"(SELECT {plain selected} FROM {entity} {label}" ++ joinsText joins ++
        whereText (conditions.map fun c => c.1.plain ++ " = " ++ c.2.plain) ++ ")" := by
  rw [← plainEqualities_eq]
  rfl

end Expression

namespace Renderer

/-- The renderer adds nothing to the text of a path or of a parameter. -/
structure Unadorned (r : Renderer) : Prop where
  mark : r.aliasMark.getD "" = ""
  aliases : r.resolveAliases = false
  valueFunction : r.profile.valueFunction = none
  brackets : r.profile.listBrackets = false

variable {r : Renderer}

theorem Unadorned.boundPath (u : r.Unadorned) (p : Path) (n : ForestNode) :
    r.boundPath p n =
      match p.field with
      | some field => n.label ++ "." ++ field
      | none => n.label := by
  have value : r.valueFunction? p n = none := by
    rw [valueFunction?, u.valueFunction, ite_self]
  rw [Renderer.boundPath, value, u.mark, String.empty_append]
  cases p.field <;> rfl

theorem Unadorned.path (u : r.Unadorned) (p : Path) : r.path p = r.written p := by
  rw [path_eq, standsFor, u.aliases]
  rfl

theorem Unadorned.path_free (u : r.Unadorned) {p : Path} (free : p.node = none) :
    r.path p = .ok p.text := by
  rw [u.path, written, free]

theorem Unadorned.parameter (u : r.Unadorned) (name : String) (value : Option Value) :
    r.parameter (some name) value = .ok (parameterText (some name)) := by
  simp only [Renderer.parameter, u.brackets, Bool.false_and]
  rfl

theorem render_ordinary {f : String} {as : List Expression} {texts : List String}
    (form : CallForm.ofFunction f = .ordinary) (h : as.mapM r.render = .ok texts) :
    r.render (.call f as) = .ok (f ++ "(" ++ String.intercalate "," texts ++ ")") := by
  rw [render, form]
  apply Outcome.bind_ok_iff.mpr
  exact ⟨texts, (r.renderList_eq as).trans h, rfl⟩

/-- What is not bound is written plainly. -/
theorem Unadorned.render (u : r.Unadorned) {e : Expression} (ordinary : e.Ordinary) :
    r.render e = .ok e.plain := by
  induction ordinary with
  | path free => exact u.path_free free
  | @call f as form _ ih =>
    have texts : as.mapM r.render = .ok (as.map Expression.plain) := by
      apply Outcome.mapM_ok_iff.mpr
      rw [List.forall₂_map_right_iff]
      exact List.forall₂_same.mpr ih
    rw [render_ordinary form texts, Expression.plain_call]
  | parameter name value => exact u.parameter name value
  | literal l => rfl
  | @subquery selected joins conditions entity label _ _ _ item left right =>
    have equalities : conditions.mapM r.renderEquality =
        .ok (conditions.map fun c => c.1.plain ++ " = " ++ c.2.plain) := by
      apply Outcome.mapM_ok_iff.mpr
      rw [List.forall₂_map_right_iff]
      apply List.forall₂_same.mpr
      intro c hc
      rw [renderEquality, left c hc, right c hc]
      rfl
    rw [Renderer.render, item, renderEqualities_eq, equalities, Expression.plain_subquery]
    rfl

end Renderer

namespace Query
variable {q : Query}

/-- A path that is known reads its node under the label that its text begins with. -/
theorem path_of_knows (u : q.renderer.Unadorned) {p : Path} (known : q.Knows p) :
    q.renderer.path p = .ok p.text := by
  cases known with
  | node bound hn whole text =>
    have found : q.renderer.forest.node _ = .ok _ := JoinForest.node_ok_iff.mpr hn
    rw [u.path, Renderer.written_bound bound found, u.boundPath, whole, text]
  | field bound hn part text =>
    have found : q.renderer.forest.node _ = .ok _ := JoinForest.node_ok_iff.mpr hn
    rw [u.path, Renderer.written_bound bound found, u.boundPath, part, text]
  | item free => exact u.path_free free

theorem render_bind_path (u : q.renderer.Unadorned)
    (w : Wired q.basis.schema q.forest.nodes q.scope) {p : Path} (free : p.node = none)
    {b : Expression} (h : q.bind (.path p) = .ok b) : q.renderer.render b = .ok p.text := by
  obtain ⟨c, hc, h⟩ := Outcome.bind_ok_iff.mp h
  cases h
  have same : c.text = p.text := by
    obtain ⟨a, ha, rfl⟩ := (bindPath_free free).mp hc
    exact (path_unmarked ha).1
  have written := path_of_knows u (bindPath_known w free hc)
  rw [same] at written
  exact written

theorem Wrapping.text_mark (w : Wrapping) (p : Path) : (w.mark p).text = p.text := by
  cases w <;> rfl

/-- Bound or not, an expression is written plainly. -/
theorem render_bind (u : q.renderer.Unadorned) (w : Wired q.basis.schema q.forest.nodes q.scope)
    {e b : Expression} (ordinary : e.Ordinary) (h : q.bind e = .ok b) :
    q.renderer.render b = .ok e.plain := by
  induction ordinary generalizing b with
  | path free => exact render_bind_path u w free h
  | @call f as form ordinary ih =>
    obtain ⟨bs, rfl, hbs⟩ := bind_call_ok h
    have each : List.Forall₂ (fun a c => q.renderer.render c = .ok a.plain) as bs := by
      apply Outcome.forall₂_of_mapM_ok hbs
      intro a ha c hc
      -- An argument that is a path is marked before it is bound, which its text does not show.
      cases ordinary a ha with
      | @path p free =>
        have written := render_bind_path u w ((Wrapping.node_mark _ p).trans free) hc
        rw [Wrapping.text_mark] at written
        exact written
      | call => exact ih _ ha hc
      | parameter => exact ih _ ha hc
      | literal => exact ih _ ha hc
      | subquery => exact ih _ ha hc
    have texts : bs.mapM q.renderer.render = .ok (as.map Expression.plain) := by
      apply Outcome.mapM_ok_iff.mpr
      rw [List.forall₂_map_right_iff]
      exact each.flip
    rw [Renderer.render_ordinary form texts, Expression.plain_call]
  | parameter name value =>
    cases h
    exact u.render (.parameter name value)
  | literal l =>
    cases h
    exact u.render (.literal l)
  | subquery entity label item left right =>
    cases h
    exact u.render (.subquery entity label item left right)

/-- In every query that is built without adornment, what an ordinary expression is bound to is
rendered as the plain text of the expression. -/
theorem rendered_eq_plain {basis : QueryBasis} {entity label : String} {first : Query}
    (h : start basis entity label = .ok first) (steps : List QueryStep)
    (mark : basis.aliasMark.getD "" = "") (aliases : basis.resolveAliases = false)
    (valueFunction : basis.profile.valueFunction = none)
    (brackets : basis.profile.listBrackets = false) {e b : Expression} (ordinary : e.Ordinary)
    (bound : (first.run steps).bind e = .ok b) :
    (first.run steps).renderer.render b = .ok e.plain := by
  have same := Extends.basis_run h steps
  have unadorned : (first.run steps).renderer.Unadorned := by
    constructor
    · show (first.run steps).basis.aliasMark.getD "" = ""
      rw [same, mark]
    · show (first.run steps).basis.resolveAliases = false
      rw [same, aliases]
    · show (first.run steps).basis.profile.valueFunction = none
      rw [same, valueFunction]
    · show (first.run steps).basis.profile.listBrackets = false
      rw [same, brackets]
  exact render_bind unadorned (wired_of_start h steps) ordinary bound

/-- A key, an alias of an item and a subquery next to each other. -/
theorem rendered_eq_plain_documents :
    let basis : QueryBasis :=
      { QueryBasis.ofDocuments with
        resolveAliases := false, profile := { Profile.preset .hibernate with listBrackets := false } }
    let steps : List QueryStep :=
      [.join "d.contacts" "c" .left false, .selectByPath "c.name" (some "n")]
    let counted : Expression := .subquery (.call "COUNT" [.ofPathText "p"]) "Document" "e"
      [("e.partners", "p")] [(.ofPathText "e.id", .ofPathText "d.id")]
    let e : Expression := .call "COALESCE" [.call "key" [.ofPathText "c"], .ofPathText "n",
      .parameter (some "role") none, .literal (.text "it's"), counted]
    let first : Query := { ofDocuments with basis }
    let q := first.run steps
    start basis "Document" "d" = .ok first ∧ e.Ordinary ∧
      (∃ b, q.bind e = .ok b ∧ q.renderer.render b = .ok e.plain) ∧
      e.plain = "COALESCE(key(c),n,:role,'it''s',(SELECT COUNT(p) " ++
        "FROM Document e LEFT JOIN e.partners p WHERE e.id = d.id))" := by
  intro basis steps counted e first q
  have h : start basis "Document" "d" = .ok first := rfl
  have path : ∀ text, (Expression.ofPathText text).Ordinary := fun text => .path rfl
  have argument : ∀ text, ∀ a ∈ [Expression.ofPathText text], a.Ordinary := by
    intro text a ha
    obtain rfl := List.mem_singleton.mp ha
    exact path text
  have subquery : counted.Ordinary := by
    apply Expression.Ordinary.subquery
    · exact .call (by decide) (argument "p")
    · intro c hc
      obtain rfl := List.mem_singleton.mp hc
      exact path "e.id"
    · intro c hc
      obtain rfl := List.mem_singleton.mp hc
      exact path "d.id"
  have ordinary : e.Ordinary := by
    apply Expression.Ordinary.call
    · decide
    · intro a ha
      simp only [List.mem_cons, List.not_mem_nil, or_false] at ha
      rcases ha with rfl | rfl | rfl | rfl | rfl
      · exact .call (by decide) (argument "c")
      · exact path "n"
      · exact .parameter "role" none
      · exact .literal (.text "it's")
      · exact subquery
  have binds : (q.bind e).isOk = true := by decide +kernel
  refine ⟨h, ordinary, ?_, by decide +kernel⟩
  cases bound : q.bind e with
  | ok b => exact ⟨b, rfl, rendered_eq_plain h steps rfl rfl rfl rfl ordinary bound⟩
  | error err =>
    rw [bound] at binds
    cases binds

end Query
end EntityQuery
