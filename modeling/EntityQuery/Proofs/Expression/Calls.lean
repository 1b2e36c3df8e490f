import EntityQuery.Proofs.AliasScope
import EntityQuery.Proofs.Outcome
import EntityQuery.Query.Basic
import EntityQuery.SizeExpansion

/-!
# Expressions as calls of calls

Binding and the expansion of SIZE go from a call into its arguments, and rendering also into the
parts of a subquery. `Expression.byParts` is the induction for all three.
-/

namespace EntityQuery
namespace Expression

/-- Induction over the arguments of calls and the parts of subqueries. -/
@[elab_as_elim]
theorem byParts {P : Expression → Prop} (path : ∀ p, P (.path p))
    (call : ∀ f as, (∀ a ∈ as, P a) → P (.call f as)) (parameter : ∀ n v, P (.parameter n v))
    (element : ∀ p i, P (.element p i)) (literal : ∀ l, P (.literal l))
    (subquery : ∀ s e a js cs, P s → (∀ c ∈ cs, P c.1 ∧ P c.2) → P (.subquery s e a js cs)) :
    ∀ e, P e
  | .path p => path p
  | .call f as => call f as fun a _ => byParts path call parameter element literal subquery a
  | .parameter n v => parameter n v
  | .element p i => element p i
  | .literal l => literal l
  | .subquery s e a js cs =>
    subquery s e a js cs (byParts path call parameter element literal subquery s) fun c _ =>
      ⟨byParts path call parameter element literal subquery c.1,
        byParts path call parameter element literal subquery c.2⟩
termination_by e => sizeOf e
decreasing_by
  · have := List.sizeOf_lt_of_mem ‹a ∈ as›
    simp_wf
    omega
  · simp_wf
    omega
  all_goals
    have := List.sizeOf_lt_of_mem ‹c ∈ cs›
    obtain ⟨left, right⟩ := c
    simp_wf
    simp only [Prod.mk.sizeOf_spec] at this
    omega

/-- `Occurs e f`: `f` is `e` or a call with an argument in which `e` occurs. -/
inductive Occurs (e : Expression) : Expression → Prop
  | here : Occurs e e
  | argument {f : String} {as : List Expression} {a : Expression} (ha : a ∈ as)
      (h : Occurs e a) : Occurs e (.call f as)

theorem occurs_call_iff {e : Expression} {f : String} {as : List Expression} :
    Occurs e (.call f as) ↔ e = .call f as ∨ ∃ a ∈ as, Occurs e a := by
  constructor
  · intro h
    cases h with
    | here => exact Or.inl rfl
    | argument ha h => exact Or.inr ⟨_, ha, h⟩
  · rintro (rfl | ⟨a, ha, h⟩)
    · exact .here
    · exact .argument ha h

theorem Occurs.trans {e f g : Expression} (inner : Occurs e f) (outer : Occurs f g) :
    Occurs e g := by
  induction outer with
  | here => exact inner
  | argument ha _ ih => exact .argument ha ih

theorem eq_nil_of_dynamicName?_none {as : List Expression} (h : dynamicName? as = none) :
    as = [] := by
  unfold dynamicName? at h
  split at h
  · rfl
  · cases h
  · cases h

/-- The name of a dynamic call is read off its first argument. -/
theorem dynamicName?_cons (a : Expression) (as bs : List Expression) :
    dynamicName? (a :: as) = dynamicName? (a :: bs) := by
  cases a with
  | literal l => cases l <;> rfl
  | _ => rfl

/-- An argument of a call, marked if it is a path. -/
def marked (w : Wrapping) : Expression → Expression
  | .path p => .path (w.mark p)
  | e => e

end Expression

theorem Wrapping.node_mark (w : Wrapping) (p : Path) : (w.mark p).node = p.node := by
  cases w <;> rfl

theorem Query.bindArguments_eq (q : Query) (w : Wrapping) (as : List Expression) :
    q.bindArguments w as = as.mapM fun a => q.bind (a.marked w) := by
  induction as with
  | nil => rfl
  | cons a rest ih =>
    rw [List.mapM_cons, ← ih]
    cases a with
    | path p =>
      simp only [bindArguments, Expression.marked, bind]
      cases q.bindPath (w.mark p) <;> rfl
    | call f as => rfl
    | parameter n v => rfl
    | element p i => rfl
    | literal l => rfl
    | subquery s e a js cs => rfl

theorem Query.bind_call_ok {q : Query} {f : String} {as : List Expression} {b : Expression}
    (h : q.bind (.call f as) = .ok b) :
    ∃ bs, b = .call f bs ∧ as.mapM (fun a => q.bind (a.marked (.ofFunction f))) = .ok bs := by
  rw [bind] at h
  obtain ⟨bs, hbs, h⟩ := Outcome.bind_ok_iff.mp h
  cases h
  exact ⟨bs, rfl, by rw [← bindArguments_eq, hbs]⟩

theorem SizeExpansion.expandList_eq (w : SizeExpansion) (as : List Expression) :
    w.expandList as = as.mapM w.expand := by
  induction as with
  | nil => rfl
  | cons a rest ih =>
    rw [expandList, List.mapM_cons, ih]
    rfl

theorem SizeExpansion.of_sizeArgument? {f : String} {as : List Expression} {p : Path} {i : Nat}
    (h : sizeArgument? f as = some (p, i)) :
    as = [.path p] ∧ Text.sameLetters f "SIZE" = true ∧ p.node = some i := by
  unfold sizeArgument? at h
  split at h
  · cases size : Text.sameLetters f "SIZE" with
    | true =>
      rw [if_pos size] at h
      obtain ⟨node, hnode, same⟩ := Option.map_eq_some_iff.mp h
      cases same
      exact ⟨rfl, rfl, hnode⟩
    | false =>
      rw [size] at h
      cases h
  · cases h

theorem SizeExpansion.size_ok_iff {w : SizeExpansion} {p : Path} {i : Nat} {c : Expression} :
    w.size p i = .ok c ↔ ∃ owner entity collection a, w.forest.node i = .ok owner ∧
      p.field = some collection ∧ w.schema.entity owner.entity = .ok entity ∧
      w.schema.attributeOf owner.entity collection = .ok a ∧ a.collection?.isSome = true ∧
      c = w.counting i owner entity collection := by
  constructor
  · intro h
    obtain ⟨owner, howner, h⟩ := Outcome.bind_ok_iff.mp h
    split at h
    · cases h
    · rename_i collection hfield
      obtain ⟨entity, hentity, h⟩ := Outcome.bind_ok_iff.mp h
      obtain ⟨a, ha, h⟩ := Outcome.bind_ok_iff.mp h
      split at h
      · rename_i plural
        cases h
        exact ⟨owner, entity, collection, a, howner, hfield, hentity, ha, plural, rfl⟩
      · cases h
  · rintro ⟨owner, entity, collection, a, howner, hfield, hentity, ha, plural, rfl⟩
    refine Outcome.bind_ok_iff.mpr ⟨owner, howner, ?_⟩
    simp only [hfield]
    refine Outcome.bind_ok_iff.mpr ⟨entity, hentity, Outcome.bind_ok_iff.mpr ⟨a, ha, ?_⟩⟩
    rw [if_pos plural]

/-- What counts the elements of a collection. -/
theorem SizeExpansion.size_ok {w : SizeExpansion} {p : Path} {i : Nat} {c : Expression}
    (h : w.size p i = .ok c) :
    ∃ owner entity collection, w.forest.node i = .ok owner ∧ p.field = some collection ∧
      c = w.counting i owner entity collection := by
  obtain ⟨owner, entity, collection, a, howner, hfield, -, -, -, counts⟩ := size_ok_iff.mp h
  exact ⟨owner, entity, collection, howner, hfield, counts⟩

/-- SIZE of a bound path is counted, other calls of SIZE stay, and all else goes on into the
arguments. -/
theorem SizeExpansion.expand_call (w : SizeExpansion) (f : String) (as : List Expression) :
    (∃ p i, as = [.path p] ∧ Text.sameLetters f "SIZE" = true ∧ p.node = some i ∧
        w.expand (.call f as) = w.size p i) ∨
      (Text.sameLetters f "SIZE" = true ∧ w.expand (.call f as) = .ok (.call f as)) ∨
      (Text.sameLetters f "SIZE" = false ∧
        w.expand (.call f as) = (as.mapM w.expand >>= fun bs => .ok (.call f bs))) := by
  rw [expand]
  cases harg : sizeArgument? f as with
  | some found =>
    obtain ⟨has, size, hnode⟩ := of_sizeArgument? harg
    exact Or.inl ⟨found.1, found.2, has, size, hnode, rfl⟩
  | none =>
    dsimp only
    cases size : Text.sameLetters f "SIZE" with
    | true => exact Or.inr (Or.inl ⟨rfl, if_pos rfl⟩)
    | false =>
      refine Or.inr (Or.inr ⟨rfl, ?_⟩)
      rw [if_neg Bool.false_ne_true, expandList_eq]

theorem SizeExpansion.expand_size {w : SizeExpansion} {f : String} {p : Path} {i : Nat}
    (size : Text.sameLetters f "SIZE" = true) (hp : p.node = some i) :
    w.expand (.call f [.path p]) = w.size p i := by
  have argument : sizeArgument? f [.path p] = some (p, i) := by
    rw [sizeArgument?, if_pos size, hp]
    rfl
  rw [expand, argument]

/-- What occurs in the result was there before, is a call with its arguments expanded, or counts
what a call of SIZE asked for. -/
theorem SizeExpansion.occurs_expand {w : SizeExpansion} {e c s : Expression}
    (h : w.expand e = .ok c) (inner : Expression.Occurs s c) :
    Expression.Occurs s e ∨
      (∃ f as bs, s = .call f bs ∧ Expression.Occurs (.call f as) e ∧
        as.mapM w.expand = .ok bs) ∨
      ∃ f p i, Expression.Occurs (.call f [.path p]) e ∧ Text.sameLetters f "SIZE" = true ∧
        p.node = some i ∧ w.size p i = .ok s := by
  induction e using Expression.byParts generalizing c with
  | call f as ih =>
    rcases w.expand_call f as with ⟨p, i, rfl, size, hnode, eq⟩ | ⟨-, eq⟩ | ⟨-, eq⟩
    · have counted := eq.symm.trans h
      obtain ⟨owner, entity, collection, -, -, rfl⟩ := size_ok counted
      cases inner
      exact Or.inr (Or.inr ⟨f, p, i, .here, size, hnode, counted⟩)
    · cases eq.symm.trans h
      exact Or.inl inner
    · rw [eq] at h
      obtain ⟨bs, hbs, h⟩ := Outcome.bind_ok_iff.mp h
      cases h
      rcases Expression.occurs_call_iff.mp inner with rfl | ⟨b, hb, inner⟩
      · exact Or.inr (Or.inl ⟨f, as, bs, rfl, .here, hbs⟩)
      · obtain ⟨a, ha, hab⟩ := Outcome.mem_of_mapM_ok hbs hb
        rcases ih a ha hab inner with before | ⟨g, ds, cs, same, outer, hcs⟩ |
          ⟨g, p, i, outer, rest⟩
        · exact Or.inl (.argument ha before)
        · exact Or.inr (Or.inl ⟨g, ds, cs, same, .argument ha outer, hcs⟩)
        · exact Or.inr (Or.inr ⟨g, p, i, .argument ha outer, rest⟩)
  | _ =>
    cases h
    exact Or.inl inner

/-! A path is written as what it stands for. -/

namespace Renderer

/-- Where the aliases of a path end, if they are replaced. -/
def standsFor (r : Renderer) (p : Path) : Except QueryError Path :=
  if r.resolveAliases then r.scope.resolve p else .ok p

/-- A path as it is, no alias replaced. -/
def written (r : Renderer) (p : Path) : Except QueryError String :=
  match p.node with
  | none => .ok p.text
  | some id => do
    let n ← r.forest.node id
    .ok (r.boundPath p n)

theorem path_eq (r : Renderer) (p : Path) : r.path p = r.standsFor p >>= r.written := by
  rw [path, standsFor]
  split <;> rfl

theorem written_bound {r : Renderer} {p : Path} {i : Nat} {n : ForestNode}
    (bound : p.node = some i) (hn : r.forest.node i = .ok n) :
    r.written p = .ok (r.boundPath p n) := by
  rw [written, bound]
  exact Outcome.bind_ok_iff.mpr ⟨n, hn, rfl⟩

/-- A path whose aliases end at a node. -/
theorem path_of_leads {r : Renderer} (resolves : r.resolveAliases = true) {k : Nat} {p x : Path}
    (h : r.scope.Leads k p x) (enough : k ≤ r.scope.size) {i : Nat} {n : ForestNode}
    (bound : x.node = some i) (hn : r.forest.node i = .ok n) :
    r.path p = .ok (r.boundPath x n) := by
  rw [path_eq, standsFor, resolves, if_pos rfl, AliasScope.resolve_of_leads h enough]
  exact written_bound bound hn

theorem renderList_eq (r : Renderer) (as : List Expression) :
    r.renderList as = as.mapM r.render := by
  induction as with
  | nil => rfl
  | cons a rest ih =>
    rw [renderList, List.mapM_cons, ih]
    rfl

/-- The text of one equality of a subquery. -/
def renderEquality (r : Renderer) (c : Expression × Expression) : Except QueryError String := do
  let x ← r.render c.1
  let y ← r.render c.2
  .ok (x ++ " = " ++ y)

theorem renderEqualities_eq (r : Renderer) (cs : List (Expression × Expression)) :
    r.renderEqualities cs = cs.mapM r.renderEquality := by
  induction cs with
  | nil => rfl
  | cons c rest ih =>
    obtain ⟨a, b⟩ := c
    rw [renderEqualities, List.mapM_cons, ih, renderEquality]
    cases r.render a with
    | error err => rfl
    | ok x => cases r.render b <;> rfl

theorem renderRest_eq (r : Renderer) (as : List Expression) :
    r.renderRest as = as.tail.mapM r.render := by
  cases as with
  | nil => rfl
  | cons a rest => exact r.renderList_eq rest

end Renderer

end EntityQuery
