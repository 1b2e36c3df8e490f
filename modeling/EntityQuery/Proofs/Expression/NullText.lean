import EntityQuery.Proofs.Expression.Calls
import EntityQuery.Proofs.Predicate.Reading

/-!
# What is written as NULL

Besides the literal only few expressions are written as NULL: a decimal that was spelled so, a
path whose text it is, and OUTER of one of these. Calls and subqueries end with a parenthesis,
and a path that reads a field has a dot.
-/

namespace EntityQuery

namespace Renderer
variable {r : Renderer}

/-- The expressions that are written as NULL. -/
inductive WritesNull (r : Renderer) : Expression → Prop
  | null : WritesNull r (.literal .null)
  | decimal : WritesNull r (.literal (.decimal "NULL"))
  | path {p : Path} (h : r.path p = .ok "NULL") : WritesNull r (.path p)
  | outer {f : String} {a : Expression} {as : List Expression}
      (form : CallForm.ofFunction f = .outer) (first : WritesNull r a) :
      WritesNull r (.call f (a :: as))

theorem closed_ne_null (s : String) : s ++ ")" ≠ "NULL" := by
  intro same
  have last := congrArg (fun t => t.toList.getLast?) same
  simp at last

theorem colon_ne_null (s : String) : ":" ++ s ≠ "NULL" := by
  intro same
  have first := congrArg (fun t => t.toList.head?) same
  simp at first

theorem dotted_ne_null (s t : String) : s ++ "." ++ t ≠ "NULL" := by
  intro same
  have dot : '.' ∈ (s ++ "." ++ t).toList := by simp
  rw [same] at dot
  exact absurd dot (by decide)

theorem plain_literal_iff {l : Literal} :
    l.plain = "NULL" ↔ l = .null ∨ l = .decimal "NULL" := by
  cases l with
  | text s =>
    have quote : (Text.quoted s).toList.head? = some '\'' := by simp [Text.quoted]
    have other : Text.quoted s ≠ "NULL" := fun same => by simp [same] at quote
    simp [Literal.plain, other]
  | int n =>
    -- A number is read back as a number.
    have other : Value.wholeText n ≠ "NULL" := by
      intro same
      have null : operand "NULL" = .ok (.literal .null) := rfl
      have number := operand_wholeText n
      rw [same, null] at number
      cases number
    simp [Literal.plain, other]
  | decimal s => simp [Literal.plain]
  | bool b => cases b <;> simp [Literal.plain, Value.truthLiteral]
  | null => simp [Literal.plain]

theorem parameter_ne_null {name : Option String} {value : Option Value} :
    r.parameter name value ≠ .ok "NULL" := by
  intro h
  cases name with
  | none => cases h
  | some name =>
    simp only [parameter] at h
    split at h
    · exact closed_ne_null _ (Except.ok.inj h)
    · exact colon_ne_null name (Except.ok.inj h)

theorem call_null_iff {f : String} {as : List Expression}
    (ih : ∀ a ∈ as, r.render a = .ok "NULL" ↔ r.WritesNull a) :
    r.render (.call f as) = .ok "NULL" ↔ r.WritesNull (.call f as) := by
  rw [render]
  constructor
  · intro h
    cases form : CallForm.ofFunction f with
    | outer =>
      simp only [form] at h
      cases as with
      | nil => exact absurd (Except.ok.inj h) (by decide)
      | cons a as => exact .outer form ((ih a List.mem_cons_self).mp h)
    | ordinary =>
      simp only [form] at h
      obtain ⟨texts, -, same⟩ := Outcome.bind_ok_iff.mp h
      exact absurd (Except.ok.inj same) (closed_ne_null _)
    | dynamic =>
      simp only [form] at h
      split at h
      · cases h
      split at h
      · obtain ⟨texts, -, same⟩ := Outcome.bind_ok_iff.mp h
        exact absurd (Except.ok.inj same) (closed_ne_null _)
      split at h
      · obtain ⟨texts, -, same⟩ := Outcome.bind_ok_iff.mp h
        exact absurd (Except.ok.inj same) (closed_ne_null _)
      · cases h
  · intro h
    cases h with
    | outer form first =>
      simp only [form]
      exact (ih _ List.mem_cons_self).mpr first

/-- The expressions of `WritesNull` are written as NULL, and no others. -/
theorem render_null_iff {e : Expression} : r.render e = .ok "NULL" ↔ r.WritesNull e := by
  induction e using Expression.byParts with
  | path p =>
    rw [render]
    constructor
    · exact .path
    · intro h
      cases h with
      | path h => exact h
  | call f as ih => exact call_null_iff ih
  | parameter name value =>
    rw [render]
    constructor
    · exact fun h => absurd h parameter_ne_null
    · intro h
      cases h
  | element p i =>
    constructor
    · intro h
      cases h
    · intro h
      cases h
  | literal l =>
    rw [render, Except.ok.injEq, plain_literal_iff]
    constructor
    · rintro (rfl | rfl)
      · exact .null
      · exact .decimal
    · intro h
      cases h with
      | null => exact Or.inl rfl
      | decimal => exact Or.inr rfl
  | subquery s e a js cs =>
    rw [render]
    constructor
    · intro h
      obtain ⟨item, -, rest⟩ := Outcome.bind_ok_iff.mp h
      obtain ⟨texts, -, same⟩ := Outcome.bind_ok_iff.mp rest
      exact absurd (Except.ok.inj same) (closed_ne_null _)
    · intro h
      cases h

/-- A path that reads a field of a node is written with a dot. -/
theorem path_field_ne_null {p : Path} {i : Nat} {field : String} (bound : p.node = some i)
    (reads : p.field = some field) : r.path p ≠ .ok "NULL" := by
  intro h
  rw [path_eq] at h
  obtain ⟨x, stands, written⟩ := Outcome.bind_ok_iff.mp h
  have same : x = p := by
    rw [standsFor] at stands
    split at stands
    · rw [AliasScope.resolve, AliasScope.follow_bound bound] at stands
      exact (Except.ok.inj stands).symm
    · exact (Except.ok.inj stands).symm
  subst same
  rw [Renderer.written, bound] at written
  obtain ⟨n, -, text⟩ := Outcome.bind_ok_iff.mp written
  rw [boundPath, reads] at text
  exact dotted_ne_null _ field (Except.ok.inj text)

end Renderer
end EntityQuery
