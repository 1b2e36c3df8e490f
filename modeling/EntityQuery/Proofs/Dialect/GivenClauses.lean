import EntityQuery.Dialect.SetOperation
import EntityQuery.Proofs.Dialect.NewState
import EntityQuery.Proofs.Query.Growth
import EntityQuery.Query.Statement

/-!
# The clauses that a shaped statement carries

A WITH clause, a limit, an offset and parentheses can be asked for around a statement. An offset is
written behind a limit only: alone it is left out, and no error says so, unless it is a query that
asks for it. Of a modification whose new state is put in its place no more than the parentheses
are written.
-/

namespace EntityQuery

/-- The same request for the statement alone. -/
def ShapeRequest.bare (r : ShapeRequest) : ShapeRequest :=
  { r with subquery := false, embedded := false, withClause := none, limit := none, offset := none }

namespace Dialect
variable {d : Dialect} {sql : String}

/-- How a limit and an offset are written. There is no way to write an offset alone. -/
inductive Pages : LimitForm → Option String → Option String → String → Prop
  | all (form : LimitForm) : Pages form none none ""
  | limit (form : LimitForm) (count : String) :
    Pages form (some count) none (" limit " ++ count)
  | countOffset (count first : String) :
    Pages .countOffset (some count) (some first) (" limit " ++ count ++ " offset " ++ first)
  | offsetCount (count first : String) :
    Pages .offsetCount (some count) (some first) (" limit " ++ first ++ ", " ++ count)

theorem pages_iff {limit offset : Option String} {page : String} :
    Pages d.limitForm limit offset page ↔
      (offset.isSome → limit.isSome) ∧ page = d.optionalLimit limit offset := by
  constructor
  · intro h
    generalize hform : d.limitForm = form at h
    cases h with
    | all => exact ⟨id, rfl⟩
    | limit => exact ⟨fun _ => rfl, rfl⟩
    | countOffset => exact ⟨fun _ => rfl, by simp only [optionalLimit, limitText, hform]; rfl⟩
    | offsetCount => exact ⟨fun _ => rfl, by simp only [optionalLimit, limitText, hform]; rfl⟩
  · rintro ⟨limited, rfl⟩
    cases limit with
    | none =>
      cases offset with
      | none => exact .all _
      | some first => exact absurd (limited rfl) nofun
    | some count =>
      cases offset with
      | none => exact .limit _ count
      | some first =>
        simp only [optionalLimit, limitText]
        cases d.limitForm with
        | countOffset => exact .countOffset count first
        | offsetCount => exact .offsetCount count first

theorem Pages.limit_eq_none {form : LimitForm} {limit offset : Option String} {page : String}
    (h : Pages form limit offset page) (empty : page.length = 0) : limit = none := by
  cases h with
  | all => rfl
  | _ => simp at empty

/-- `text` is `body` with all that is asked for: `front` before it, and between the parentheses
the limit and the offset behind it, which more may follow. -/
def Carries (d : Dialect) (front : String) (subquery : Bool) (limit offset : Option String)
    (body text : String) : Prop :=
  ∃ page more, Pages d.limitForm limit offset page ∧
    text = front ++ opening subquery ++ body ++ page ++ more ++ closing subquery

section Carries
variable {front body more : String} {subquery : Bool} {limit offset : Option String}

/-- Of what is written in the dialect's own way only an offset without a limit is missing. -/
theorem carries_optionalLimit_iff :
    d.Carries front subquery limit offset body
        (front ++ opening subquery ++ body ++ d.optionalLimit limit offset ++ more ++
          closing subquery) ↔
      (offset.isSome → limit.isSome) := by
  constructor
  · rintro ⟨page, -, pages, -⟩
    exact (pages_iff.mp pages).1
  · exact fun limited => ⟨_, more, pages_iff.mpr ⟨limited, rfl⟩, rfl⟩

/-- Parentheses alone carry nothing else. -/
theorem carries_parentheses_iff :
    d.Carries front subquery limit offset body (opening subquery ++ body ++ closing subquery) ↔
      (offset.isSome → limit.isSome) ∧ front = "" ∧ limit = none := by
  constructor
  · rintro ⟨page, more, pages, same⟩
    have lengths := congrArg String.length same
    simp only [String.length_append] at lengths
    have bare : front.length = 0 ∧ page.length = 0 := by omega
    refine ⟨(pages_iff.mp pages).1, String.length_eq_zero_iff.mp bare.1,
      pages.limit_eq_none bare.2⟩
  · rintro ⟨limited, rfl, rfl⟩
    have whole : offset = none := by simpa using limited
    subst whole
    exact ⟨"", "", .all _, by simp⟩

end Carries

/-- A new state is asked for, and the dialect puts it in the place of the statement. -/
def Rebuilds (d : Dialect) (r : ShapeRequest) : Prop :=
  d.modifiesInWith = true ∧ r.newState.isSome = true

theorem shape_of_not_rebuilds {r : ShapeRequest} (h : ¬ d.Rebuilds r) :
    d.shape r sql = d.shapePlain r sql := by
  rw [shape]
  split
  · rename_i modifies new known
    exact absurd ⟨modifies, by rw [new]; rfl⟩ h
  · rename_i modifies new known
    exact absurd ⟨modifies, by rw [new]; rfl⟩ h
  · rfl

/-- Rows stand between the parentheses and nothing around them. -/
theorem shape_of_rebuilds {r : ShapeRequest} {tables : Catalog String} (h : d.Rebuilds r)
    (shaped : (d.shape r sql).outcome = .ok tables) :
    (d.shape r sql).text =
      opening r.subquery ++ (d.shape r.bare sql).text ++ closing r.subquery := by
  obtain ⟨modifies, new⟩ := h
  obtain ⟨state, new⟩ := Option.isSome_iff_exists.mp new
  cases known : r.returning with
  | none => simp [shape, modifies, new, known] at shaped
  | some columns =>
    have rebuilt : d.shape r sql = shapeNewState r state columns sql := by
      simp only [shape, modifies, new, known]
    have rebuiltBare : d.shape r.bare sql = shapeNewState r.bare state columns sql := by
      simp only [shape, ShapeRequest.bare, modifies, new, known]
    cases found : r.kind.modifiedTable (sql ++ " returning *") with
    | error e => simp [rebuilt, shapeNewState, found] at shaped
    | ok table =>
      have foundBare : r.bare.kind.modifiedTable (sql ++ " returning *") = .ok table := found
      rw [rebuilt, rebuiltBare, shapeNewState_of_table found, shapeNewState_of_table foundBare]
      simp [ShapeRequest.bare, opening, closing, String.append_assoc]

theorem text_of_bare {r : ShapeRequest} (h : ¬ d.Rebuilds r) :
    (d.shape r.bare sql).text = sql := by
  rw [shape_of_not_rebuilds (r := r.bare) h, shapePlain, returningText]
  cases known : r.returning <;> simp [ShapeRequest.bare, optionalLimit, opening, closing, known]

theorem carries_shape_iff {r : ShapeRequest} {tables : Catalog String}
    (shaped : (d.shape r sql).outcome = .ok tables) :
    d.Carries (r.withClause.getD "") r.subquery r.limit r.offset (d.shape r.bare sql).text
        (d.shape r sql).text ↔
      (r.offset.isSome → r.limit.isSome) ∧
        (d.Rebuilds r → r.withClause.getD "" = "" ∧ r.limit = none) := by
  by_cases h : d.Rebuilds r
  · rw [shape_of_rebuilds h shaped, carries_parentheses_iff]
    simp only [h, true_implies]
  · rw [text_of_bare h, shape_of_not_rebuilds h, shapePlain, carries_optionalLimit_iff]
    simp only [h, false_implies, and_true]

theorem shape_of_limit_none {r : ShapeRequest} (h : r.limit = none) :
    d.shape r sql = d.shape { r with offset := none } sql := by
  simp only [shape, shapePlain, shapeNewState, returningText, optionalLimit, h]

/-- Where the new state stands in its place, a statement is shaped as if no clause were given. -/
theorem shape_of_rebuilds_eq {r : ShapeRequest} (h : d.Rebuilds r) :
    d.shape r sql = d.shape { r with withClause := none, limit := none, offset := none } sql := by
  obtain ⟨modifies, new⟩ := h
  obtain ⟨state, new⟩ := Option.isSome_iff_exists.mp new
  cases known : r.returning with
  | none => simp only [shape, modifies, new, known]
  | some columns => simp only [shape, modifies, new, known, shapeNewState]

/-! Set operations. -/

/-- The operands with the operator between them, and their order. -/
def orderedOperands (d : Dialect) (r : SetRequest) : String :=
  String.intercalate s!"\n{r.operation.keyword}\n" (r.operands.map (d.operandText r.hasTail)) ++
    orderText r.orderBy

theorem combine_of_operands {r : SetRequest} {text : String} (given : r.operands ≠ [])
    (combined : (d.combine r text).outcome = .ok ()) :
    d.combine r text = ⟨text ++ opening r.subquery ++ d.orderedOperands r ++
      d.optionalLimit r.limit r.offset ++ closing r.subquery, .ok ()⟩ := by
  have some_operand : r.operands.isEmpty = false := by simpa using given
  rw [combine] at combined ⊢
  split at combined
  · rename_i supported
    rw [if_pos supported, setText, some_operand, orderedOperands]
    simp [String.append_assoc]
  · cases combined

theorem carries_combine_iff {r : SetRequest} {text : String} (given : r.operands ≠ [])
    (combined : (d.combine r text).outcome = .ok ()) :
    d.Carries text r.subquery r.limit r.offset (d.orderedOperands r) (d.combine r text).text ↔
      (r.offset.isSome → r.limit.isSome) := by
  rw [combine_of_operands given combined]
  simpa using
    @carries_optionalLimit_iff d text (d.orderedOperands r) "" r.subquery r.limit r.offset

theorem combine_of_limit_none {r : SetRequest} {text : String} (h : r.limit = none) :
    d.combine r text = d.combine { r with offset := none } text := by
  simp only [combine, setText, SetRequest.hasTail, optionalLimit, h]

end Dialect

/-! Statements of queries. -/

namespace Query
variable {d : Dialect} {q : Query} {tables : List CommonTable} {text : String}

theorem checkLimit_ok_iff : q.checkLimit = .ok () ↔ (q.offset.isSome → q.limit.isSome) := by
  rw [checkLimit]
  cases q.offset <;> cases q.limit <;> simp

theorem statement_of_offset_alone (rendered : q.text = .ok text) (unlimited : q.limit = none)
    (offset : q.offset.isSome = true) :
    q.statement d tables = .error (.configuration .offsetWithoutLimit) := by
  have refused : q.checkLimit = .error (.configuration .offsetWithoutLimit) := by
    rw [checkLimit, unlimited, offset]
    rfl
  rw [statement, rendered]
  refine Outcome.bind_error_iff.mpr (Or.inr ⟨text, rfl, ?_⟩)
  exact Outcome.bind_error_iff.mpr (Or.inl refused)

theorem carries_statement {s : Statement} (rendered : q.text = .ok text)
    (h : q.statement d tables = .ok s) :
    ∃ withClause, d.withClause tables = .ok withClause ∧
      d.Carries (withClause.getD "") false (q.limit.map toString) (q.offset.map toString) text
        s.sql := by
  rw [statement, rendered] at h
  obtain ⟨_, same, h⟩ := Outcome.bind_ok_iff.mp h
  cases same
  obtain ⟨_, checked, h⟩ := Outcome.bind_ok_iff.mp h
  obtain ⟨withClause, clause, h⟩ := Outcome.bind_ok_iff.mp h
  obtain ⟨extra, shaped, h⟩ := Outcome.bind_ok_iff.mp h
  cases h
  have plain : ¬ d.Rebuilds (q.shapeRequest withClause) := fun rebuilds => by cases rebuilds.2
  have limited : (q.offset.map toString).isSome → (q.limit.map toString).isSome := by
    simpa using checkLimit_ok_iff.mp checked
  have carries := (Dialect.carries_shape_iff shaped).mpr ⟨limited, fun h => absurd h plain⟩
  rw [Dialect.text_of_bare plain] at carries
  exact ⟨withClause, clause, carries⟩

end Query

namespace Dialect

/-- A statement that was shaped carries all that was given exactly if an offset came with a limit
and, where the new state stands in its place, neither a WITH clause nor a limit was given; and a set
operation of at least one operand does exactly if an offset came with a limit. Nothing tells what
was left out: the outcome and the text are those of the request without it. The statement of a query
carries all, and there is none for an offset alone, which is an error. -/
theorem given_clauses (d : Dialect) :
    (∀ (r : ShapeRequest) (sql : String) (tables : Catalog String),
      (d.shape r sql).outcome = .ok tables →
        (d.Carries (r.withClause.getD "") r.subquery r.limit r.offset (d.shape r.bare sql).text
            (d.shape r sql).text ↔
          (r.offset.isSome → r.limit.isSome) ∧
            (d.Rebuilds r → r.withClause.getD "" = "" ∧ r.limit = none)) ∧
        (r.limit = none → d.shape r sql = d.shape { r with offset := none } sql) ∧
        (d.Rebuilds r → d.shape r sql =
          d.shape { r with withClause := none, limit := none, offset := none } sql)) ∧
    (∀ (r : SetRequest) (text : String), r.operands ≠ [] → (d.combine r text).outcome = .ok () →
        (d.Carries text r.subquery r.limit r.offset (d.orderedOperands r) (d.combine r text).text ↔
          (r.offset.isSome → r.limit.isSome)) ∧
        (r.limit = none → d.combine r text = d.combine { r with offset := none } text)) ∧
    ∀ (q : Query) (tables : List CommonTable) (text : String), q.text = .ok text →
        (q.limit = none → q.offset.isSome →
          q.statement d tables = .error (.configuration .offsetWithoutLimit)) ∧
        ∀ s, q.statement d tables = .ok s → ∃ withClause, d.withClause tables = .ok withClause ∧
          d.Carries (withClause.getD "") false (q.limit.map toString) (q.offset.map toString) text
            s.sql := by
  refine ⟨fun r sql tables shaped => ?_, fun r text given combined => ?_,
    fun q tables text rendered => ?_⟩
  · exact ⟨carries_shape_iff shaped, shape_of_limit_none, shape_of_rebuilds_eq⟩
  · exact ⟨carries_combine_iff given combined, combine_of_limit_none⟩
  · exact ⟨Query.statement_of_offset_alone rendered, fun s => Query.carries_statement rendered⟩

/-- Rows of a common table, a limited union, and a page of the documents. -/
theorem given_clauses_page :
    let front := "with x(a) AS(\nselect 1\n)\n"
    let r : ShapeRequest :=
      { ShapeRequest.ofKind .select with
        subquery := true, withClause := some front, limit := some "10", offset := some "20" }
    let u : SetRequest := ⟨.union, true, ["select a", "select b"], ["a"], some "10", some "20"⟩
    let q : Query := { Query.ofDocuments with limit := some 10, offset := some 20 }
    ((mysql.shape r "select a from x").outcome = .ok [] ∧
      (mysql.shape r "select a from x").text = front ++ "(select a from x limit 20, 10)" ∧
      mysql.Carries front true (some "10") (some "20") "select a from x"
        (mysql.shape r "select a from x").text) ∧
    (u.operands ≠ [] ∧ (postgres.combine u "").outcome = .ok () ∧
      (postgres.combine u "").text =
        "((select a)\nUNION\n(select b) order by a limit 10 offset 20)" ∧
      postgres.Carries "" true (some "10") (some "20") (postgres.orderedOperands u)
        (postgres.combine u "").text) ∧
    q.text = .ok "SELECT d FROM Document d" ∧
      ∃ s, q.statement standard [⟨"x", ["a"], "select 1", false⟩] = .ok s ∧
        s.sql = front ++ "SELECT d FROM Document d limit 10 offset 20" ∧
        standard.Carries front false (some "10") (some "20") "SELECT d FROM Document d" s.sql := by
  intro front r u q
  have shaped : (mysql.shape r "select a from x").outcome = .ok [] := by decide
  have combined : (postgres.combine u "").outcome = .ok () := by decide
  have rendered : q.text = .ok "SELECT d FROM Document d" := by decide +kernel
  have plain : ¬ mysql.Rebuilds r := fun rebuilds => by cases rebuilds.1
  have carries := ((given_clauses mysql).1 r "select a from x" [] shaped).1.mpr
    ⟨fun _ => rfl, fun rebuilds => absurd rebuilds plain⟩
  rw [text_of_bare plain] at carries
  have unites := ((given_clauses postgres).2.1 u "" (by decide) combined).1.mpr fun _ => rfl
  refine ⟨⟨shaped, by decide, carries⟩, ⟨by decide, combined, by decide, unites⟩, rendered, ?_⟩
  have written : (q.statement standard [⟨"x", ["a"], "select 1", false⟩]).map Statement.sql =
      .ok (front ++ "SELECT d FROM Document d limit 10 offset 20") := by decide +kernel
  have known : standard.withClause [⟨"x", ["a"], "select 1", false⟩] = .ok (some front) := by decide
  cases h : q.statement standard [⟨"x", ["a"], "select 1", false⟩] with
  | error err =>
    rw [h] at written
    cases written
  | ok s =>
    rw [h] at written
    obtain ⟨withClause, clause, states⟩ := ((given_clauses standard).2.2 q _ _ rendered).2 s h
    rw [Except.ok.inj (clause.symm.trans known)] at states
    exact ⟨s, rfl, Except.ok.inj written, states⟩

/-- An offset alone, and a WITH clause in front of a modification whose new state is asked for. -/
theorem given_clauses_dropped :
    let front := "with x(a) AS(\nselect 1\n)\n"
    let r : ShapeRequest := { ShapeRequest.ofKind .select with offset := some "20" }
    let m : ShapeRequest :=
      { ShapeRequest.ofKind .update with
        withClause := some front, newState := some "t_new", returning := some ["id"] }
    let u : SetRequest := ⟨.union, false, ["select a", "select b"], [], none, some "20"⟩
    let rows := "select id from t_new\nunion\n select id from t"
    (standard.shape r "select 1" = ⟨"select 1", .ok []⟩ ∧
      ∀ front body, ¬ standard.Carries front false none (some "20") body "select 1") ∧
    (mysql.combine u "" = ⟨"select a\nUNION\nselect b", .ok ()⟩ ∧
      ∀ front body, ¬ mysql.Carries front false none (some "20") body
        "select a\nUNION\nselect b") ∧
    postgres.shape m "update t set a = 1" =
      ⟨rows, .ok [("t_new", "update t set a = 1 returning *")]⟩ ∧
    ∀ body, ¬ postgres.Carries front false none none body rows := by
  intro front r m u rows
  have alone (d : Dialect) (front body text : String) :
      ¬ d.Carries front false none (some "20") body text := by
    rintro ⟨page, more, pages, -⟩
    exact absurd ((pages_iff.mp pages).1 rfl) nofun
  refine ⟨⟨rfl, fun front body => alone _ front body _⟩,
    ⟨rfl, fun front body => alone _ front body _⟩, by rfl, ?_⟩
  rintro body ⟨page, more, -, same⟩
  have first := congrArg (fun text => text.toList.head?) same
  simp [rows, front] at first

end Dialect
end EntityQuery
