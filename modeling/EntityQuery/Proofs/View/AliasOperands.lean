import EntityQuery.Proofs.Predicate.QuotedOperands
import EntityQuery.Proofs.Query.Wiring
import EntityQuery.Proofs.View.Correlation

/-!
# Aliases as sides of a comparison

Every alias is an identifier, and an identifier that stands alone as the side of a comparison is
read as a path, unless it is a keyword in some letter case: then it is read as a literal. The check
of aliases knows no keywords, so an alias can be one. A condition that names it compares with the
literal, or is refused where NULL must not stand, and so does the condition under which a
correlation joins its entity, if it is correlated with the base itself.
-/

namespace EntityQuery

/-- The literal that a keyword is read as, in any letter case. -/
def keyword? (s : String) : Option Literal :=
  if Text.sameLetters s "NULL" then some .null
  else if Text.sameLetters s "TRUE" then some (.bool true)
  else if Text.sameLetters s "FALSE" then some (.bool false)
  else none

theorem keyword?_eq_none_iff {s : String} :
    keyword? s = none ↔ ∀ w ∈ ["NULL", "TRUE", "FALSE"], Text.sameLetters s w = false := by
  rw [keyword?]
  split
  · simp_all
  split
  · simp_all
  split <;> simp_all

theorem operand_of_keyword {s : String} {l : Literal} (h : keyword? s = some l) :
    operand s = .ok (.literal l) := by
  rw [keyword?] at h
  rw [operand]
  split at h
  · rename_i null
    cases h
    rw [if_pos null]
  rename_i value
  rw [if_neg value]
  split at h
  · rename_i truth
    cases h
    rw [if_pos truth]
  rename_i other
  rw [if_neg other]
  split at h
  · rename_i falsity
    cases h
    rw [if_pos falsity]
  · cases h

theorem operand_parameter {name : String} (path : Text.checkPath name = .ok ()) :
    operand (":" ++ name) = .ok (.parameter (some name) none) := by
  have whole : (":" ++ name).toList = ':' :: name.toList := by simp
  have keyword : ∀ w ∈ ["NULL", "TRUE", "FALSE"], Text.sameLetters (":" ++ name) w = false := by
    intro w hw
    rw [← Bool.not_eq_true, Text.sameLetters, beq_iff_eq, ← String.toList_inj, Text.lower,
      Text.lower, whole, String.toList_ofList, String.toList_ofList]
    intro same
    simp only [List.mem_cons, List.not_mem_nil, or_false] at hw
    rcases hw with rfl | rfl | rfl <;> exact absurd (List.cons.inj same).1 (by decide)
  rw [operand, keyword "NULL" (by simp), keyword "TRUE" (by simp), keyword "FALSE" (by simp)]
  simp only [whole, Bool.false_eq_true, if_false, String.ofList_toList, path]
  rfl

/-- A path with a dot is no keyword. -/
theorem keyword?_dot (label name : String) : keyword? (label ++ "." ++ name) = none := by
  rw [keyword?_eq_none_iff]
  intro w hw
  rw [← Bool.not_eq_true, Text.sameLetters, beq_iff_eq]
  intro same
  have dot : '.' ∈ (Text.lower w).toList := by
    rw [← same, Text.lower, String.toList_ofList, List.mem_map]
    exact ⟨'.', by simp, by decide⟩
  simp only [List.mem_cons, List.not_mem_nil, or_false] at hw
  rcases hw with rfl | rfl | rfl <;> exact absurd dot (by decide)

/-- A text in which no operator begins, whatever follows it. -/
structure PlainSide (s : String) : Prop where
  nonempty : s ≠ ""
  plain : ∀ d ∈ s.toList, isSolid d = true ∧ d ≠ '!'

theorem plainSide_of_checkPath {s : String} (h : Text.checkPath s = .ok ()) : PlainSide s :=
  ⟨Text.ne_empty_of_checkPath h, plain_of_checkPath h⟩

theorem plainSide_parameter {name : String} (path : Text.checkPath name = .ok ()) :
    PlainSide (":" ++ name) where
  nonempty := by simp
  plain := by
    have whole : (":" ++ name).toList = ':' :: name.toList := by simp
    rw [whole, List.forall_mem_cons]
    exact ⟨by decide, plain_of_checkPath path⟩

theorem PlainSide.framed {s : String} (h : PlainSide s) : Text.Framed s.toList :=
  .of_solid (mt String.toList_eq_nil_iff.mp h.nonempty) fun d hd => (h.plain d hd).1

namespace Predicate

/-- The text compares the sides, with blanks around them or without. -/
def Compares (s left : String) (c : Comparison) (right : String) : Prop :=
  ∃ lead before after trail,
    (∀ b ∈ (lead.toList ++ trail.toList) ++ (before.toList ++ after.toList),
      Text.isBlank b = true) ∧
    s = lead ++ (left ++ before ++ c.text ++ after ++ right) ++ trail

/-- Sides without blanks and signs are read as they were written. -/
theorem parse_compares_iff {s left right : String} {c : Comparison} (h : Compares s left c right)
    (sign : c.withNull = false) (plainLeft : PlainSide left) (plainRight : PlainSide right)
    {l r : Expression} (hl : operand left = .ok l) (hr : operand right = .ok r) {p : Predicate} :
    parse s = .ok p ↔ r.isNullLiteral = false ∧ p = ⟨l, c, r⟩ := by
  obtain ⟨lead, before, after, trail, blank, rfl⟩ := h
  obtain ⟨outside, inside⟩ := List.forall_mem_append.mp blank
  obtain ⟨hlead, htrail⟩ := List.forall_mem_append.mp outside
  have apart : right.toList.head? ≠ some '=' ∧ right.toList.head? ≠ some '>' := by
    obtain ⟨d, ds, hd, -⟩ := plainRight.framed.first
    have solid := isSolid_iff.mp (plainRight.plain d (by simp [hd])).1
    simp [hd, solid]
  have framed : Text.Framed (left ++ before ++ c.text ++ after ++ right).toList := by
    obtain ⟨d, ds, first, opens⟩ := plainLeft.framed.first
    obtain ⟨e, es, last, closes⟩ := plainRight.framed.last
    constructor
    · exact ⟨d, ds ++ (before ++ c.text ++ after ++ right).toList, by simp [first], opens⟩
    · exact ⟨e, (left ++ before ++ c.text ++ after).toList ++ es, by simp [last], closes⟩
  have trimmed : Text.trim (lead ++ (left ++ before ++ c.text ++ after ++ right) ++ trail).toList =
      Text.trim (left ++ before ++ c.text ++ after ++ right).toList := by
    rw [String.toList_append, String.toList_append, List.append_assoc,
      Text.trim_blanks_append hlead, Text.trim_framed_append framed htrail, Text.trim_framed framed]
  rw [parse_ok_congr trimmed, parse_written sign inside ⟨plainLeft.framed, plainRight.framed⟩ apart
    (unopened_of_plain plainLeft.plain _) hl hr]
  exact compare_sign_iff sign

end Predicate

/-- Every alias is an identifier. -/
def AliasScope.Identifies (s : AliasScope) : Prop :=
  ∀ a t, s.find? a = some t → Text.isIdentifier a = true

theorem AliasScope.Identifies.put {s : AliasScope} (h : s.Identifies) {label : String}
    (identifier : Text.isIdentifier label = true) (target : AliasTarget) :
    (s.put label target).Identifies := by
  intro a t found
  by_cases same : a = label
  · rwa [same]
  · rw [AliasScope.find?_put_of_ne _ same] at found
    exact h a t found

namespace Query
variable {q r : Query}

theorem Grows.identifies {P : Expression → Prop} (h : Grows P q r) (old : q.scope.Identifies) :
    r.scope.Identifies := by
  obtain ⟨-, ⟨label, _, _, _, _, identifier, -, -, -, scope, -⟩ |
    ⟨e, label, identifier, -, -, -, scope, -⟩ | ⟨e, -, -, scope, -⟩ | ⟨-, scope, -⟩⟩ := h.cases
  · rw [scope]
    exact old.put identifier _
  · rw [scope]
    exact old.put identifier _
  · rwa [scope]
  · rwa [scope]

theorem identifies_run {basis : QueryBasis} {entity label : String} {first : Query}
    (started : start basis entity label = .ok first) (steps : List QueryStep) :
    (first.run steps).scope.Identifies := by
  have none : (empty basis).scope.Identifies := by
    intro a t found
    rw [empty, AliasScope.find?_empty] at found
    cases found
  exact grown_keeps (I := fun q => q.scope.Identifies) (fun _ _ old h => h.identifies old) none
    (start_grows started fun s _ => s.all_true)

/-- What the alias of a node is read as where it stands alone. -/
def bareAlias (a : String) (i : Nat) : Expression :=
  match keyword? a with
  | some l => .literal l
  | none => .path (.bound a i none)

theorem bareAlias_eq_path_iff {a : String} {i : Nat} :
    bareAlias a i = .path (.bound a i none) ↔ keyword? a = none := by
  rw [bareAlias]
  cases keyword? a <;> simp

theorem bareAlias_isNullLiteral_iff {a : String} {i : Nat} :
    (bareAlias a i).isNullLiteral = false ↔ keyword? a ≠ some .null := by
  rw [bareAlias]
  cases keyword? a with
  | none => simp [Expression.isNullLiteral]
  | some l => cases l <;> simp [Expression.isNullLiteral]

/-- A condition whose sides are read and bound. -/
theorem readCondition_compares_iff {s left right : String} {c : Comparison}
    (h : Predicate.Compares s left c right) (sign : c.withNull = false)
    (plainLeft : PlainSide left) (plainRight : PlainSide right)
    {l r boundLeft boundRight : Expression} (hl : operand left = .ok l)
    (hr : operand right = .ok r) (bindLeft : q.bind l = .ok boundLeft)
    (bindRight : q.bind r = .ok boundRight) {p : Predicate} :
    q.readCondition (.text s) = .ok p ↔
      r.isNullLiteral = false ∧ p = ⟨boundLeft, c, boundRight⟩ := by
  rw [readCondition, Outcome.bind_ok_iff]
  have read := fun p => Predicate.parse_compares_iff h sign plainLeft plainRight hl hr (p := p)
  have bound : q.bindCondition ⟨l, c, r⟩ = .ok ⟨boundLeft, c, boundRight⟩ :=
    Outcome.bind_ok_iff.mpr ⟨_, bindLeft, Outcome.bind_ok_iff.mpr ⟨_, bindRight, rfl⟩⟩
  constructor
  · rintro ⟨source, parsed, hp⟩
    obtain ⟨known, rfl⟩ := (read source).mp parsed
    rw [bound] at hp
    cases hp
    exact ⟨known, rfl⟩
  · rintro ⟨known, rfl⟩
    exact ⟨_, (read _).mpr ⟨known, rfl⟩, bound⟩

section Alias
variable {a : String} {i : Nat} {n : ForestNode} (identifier : Text.isIdentifier a = true)
  (known : q.scope.find? a = some (.join i)) (hn : q.forest.nodes[i]? = some n)
include identifier known hn

theorem exists_operand_alias : ∃ e, operand a = .ok e ∧ q.bind e = .ok (bareAlias a i) ∧
    e.isNullLiteral = (bareAlias a i).isNullLiteral := by
  rw [bareAlias]
  cases keyword : keyword? a with
  | some l => exact ⟨_, operand_of_keyword keyword, rfl, rfl⟩
  | none =>
    have path := Text.checkPath_of_isIdentifier identifier
    exact ⟨_, operand_path path (keyword?_eq_none_iff.mp keyword),
      bind_ofPathText (path_label_ok identifier known hn), rfl⟩

section Sign
variable {c : Comparison} (sign : c.withNull = false) {x : String}
  (parameter : Text.checkPath x = .ok ()) {s : String} {p : Predicate}
include sign parameter

theorem readCondition_alias_left (h : Predicate.Compares s a c (":" ++ x)) :
    q.readCondition (.text s) = .ok p ↔ p = ⟨bareAlias a i, c, .parameter (some x) none⟩ := by
  obtain ⟨e, read, bound, -⟩ := exists_operand_alias identifier known hn
  rw [readCondition_compares_iff h sign
    (plainSide_of_checkPath (Text.checkPath_of_isIdentifier identifier))
    (plainSide_parameter parameter) read (operand_parameter parameter) bound rfl]
  exact and_iff_right rfl

theorem readCondition_alias_right (h : Predicate.Compares s (":" ++ x) c a) :
    q.readCondition (.text s) = .ok p ↔
      keyword? a ≠ some .null ∧ p = ⟨.parameter (some x) none, c, bareAlias a i⟩ := by
  obtain ⟨e, read, bound, null⟩ := exists_operand_alias identifier known hn
  rw [readCondition_compares_iff h sign (plainSide_parameter parameter)
    (plainSide_of_checkPath (Text.checkPath_of_isIdentifier identifier))
    (operand_parameter parameter) read rfl bound, null, bareAlias_isNullLiteral_iff]

theorem restrict_alias_left (h : Predicate.Compares s a c (":" ++ x)) :
    q.restrict (.text s) = .ok r ↔
      r = { q with
        conditions := q.conditions ++ [⟨bareAlias a i, c, .parameter (some x) none⟩] } := by
  simp only [restrict_ok_iff, readCondition_alias_left identifier known hn sign parameter h,
    exists_eq_left]

theorem restrict_alias_right (h : Predicate.Compares s (":" ++ x) c a) :
    q.restrict (.text s) = .ok r ↔ keyword? a ≠ some .null ∧
      r = { q with
        conditions := q.conditions ++ [⟨.parameter (some x) none, c, bareAlias a i⟩] } := by
  simp only [restrict_ok_iff, readCondition_alias_right identifier known hn sign parameter h,
    and_assoc, exists_and_left, exists_eq_left]

end Sign

/-- An attribute of a new node, which its alias names, is compared with the node. -/
theorem readCondition_attribute {label entity name : String} {as : List Attribute}
    (other : Text.isIdentifier label = true) (free : q.scope.find? label = none)
    (along : q.basis.schema.attributesAlong entity name = .ok as) (mode : JoinMode)
    {p : Predicate} :
    (q.putNode label entity (.entity i) mode false).readCondition
        (.text (label ++ "." ++ name ++ " = " ++ a)) = .ok p ↔
      keyword? a ≠ some .null ∧ p = ⟨.path (.bound (label ++ "." ++ name) q.forest.size
        (some name)), .equal, bareAlias a i⟩ := by
  have kept := Extends.putNode free entity (.entity i) mode false
  obtain ⟨m, hm, -⟩ := kept.node hn
  obtain ⟨e, read, bound, null⟩ := exists_operand_alias identifier (kept.scope a _ known) hm
  have resolved : (q.putNode label entity (.entity i) mode false).path (label ++ "." ++ name) = _ :=
    path_field_ok other (AliasScope.find?_put_self _) (getElem?_putNode ..) along
  have path : Text.checkPath (label ++ "." ++ name) = .ok () := (path_ok_iff.mp resolved).1
  have written : operand (label ++ "." ++ name) = .ok (.ofPathText (label ++ "." ++ name)) :=
    operand_path path (keyword?_eq_none_iff.mp (keyword?_dot label name))
  have compares : Predicate.Compares (label ++ "." ++ name ++ " = " ++ a) (label ++ "." ++ name)
      .equal a := by
    refine ⟨"", " ", " ", "", List.all_eq_true.mp (by decide), ?_⟩
    simp [Comparison.text, String.append_assoc]
  rw [readCondition_compares_iff compares rfl (plainSide_of_checkPath path)
    (plainSide_of_checkPath (Text.checkPath_of_isIdentifier identifier)) written read
    (bind_ofPathText resolved) bound, null, bareAlias_isNullLiteral_iff]

/-- A correlation with the node itself succeeds unless the alias is read as NULL, and joins the
entity under the equality of its attribute with what the alias is read as. -/
theorem correlate_alias {label entity name : String} {as : List Attribute}
    (other : Text.isIdentifier label = true) (free : q.scope.find? label = none)
    (there : (q.basis.schema.entity? entity).isSome = true)
    (along : q.basis.schema.attributesAlong entity name = .ok as) {d : CorrelationDraft} :
    (CorrelationProvider.ofEntity entity name).apply (.start q a label)
        (CorrelationMapper.behindAlias a "") = .ok d ↔
      keyword? a ≠ some .null ∧ d = ⟨(q.putNode label entity (.entity i) .left false).putConditions
        q.forest.size ⟨q.forest.size, label, entity, .entity i, .left, false, []⟩
        [⟨.path (.bound (label ++ "." ++ name) q.forest.size (some name)), .equal, bareAlias a i⟩],
        a, label, some entity⟩ := by
  have compared := fun p =>
    readCondition_attribute identifier known hn other free along .left (p := p)
  have written : (CorrelationProvider.ofEntity entity name).apply (.start q a label)
      (CorrelationMapper.behindAlias a "") = (ViewError.ofQuery (q.joinEntity a entity label .left
        [.text (label ++ "." ++ name ++ " = " ++ a)]) >>= fun r =>
          .ok ⟨r, a, label, some entity⟩) := rfl
  rw [written, Outcome.bind_ok_iff]
  simp only [ViewError.ofQuery_ok_iff, joinEntity_ok_iff]
  constructor
  · rintro ⟨r, ⟨j, m, p, bound, -, -, found, -, -, made, rfl⟩, same⟩
    cases known.symm.trans found
    rcases Outcome.mapM_ok_iff.mp made with _ | ⟨read, _ | _⟩
    obtain ⟨null, rfl⟩ := (compared _).mp read
    cases same
    exact ⟨null, rfl⟩
  · rintro ⟨null, rfl⟩
    refine ⟨_, ⟨i, n, _, [], other, there, known, hn, free, ?_, rfl⟩, rfl⟩
    exact Outcome.mapM_ok_iff.mpr (.cons ((compared _).mpr ⟨null, rfl⟩) .nil)

end Alias

/-- The alias of a node may stand on either side of a comparison with a parameter, and a correlation
may equate an attribute with the node. It is bound to the node unless the alias is a keyword in some
letter case, which is taken for its literal, and refused on the right if it is NULL. -/
theorem alias_operands {basis : QueryBasis} {root top : String} {first : Query}
    (started : start basis root top = .ok first) (steps : List QueryStep) {a : String} {i : Nat}
    (known : (first.run steps).scope.find? a = some (.join i)) :
    let q := first.run steps
    (bareAlias a i = .path (.bound a i none) ↔ keyword? a = none) ∧
      (∀ c : Comparison, c.withNull = false → ∀ x, Text.checkPath x = .ok () → ∀ s r,
        (Predicate.Compares s a c (":" ++ x) → (q.restrict (.text s) = .ok r ↔
          r = { q with conditions := q.conditions ++
            [⟨bareAlias a i, c, .parameter (some x) none⟩] })) ∧
        (Predicate.Compares s (":" ++ x) c a → (q.restrict (.text s) = .ok r ↔
          keyword? a ≠ some .null ∧ r = { q with conditions := q.conditions ++
            [⟨.parameter (some x) none, c, bareAlias a i⟩] }))) ∧
      ∀ label entity name as, Text.isIdentifier label = true → q.scope.find? label = none →
        (q.basis.schema.entity? entity).isSome = true →
        q.basis.schema.attributesAlong entity name = .ok as →
        ∀ d, (CorrelationProvider.ofEntity entity name).apply (.start q a label)
            (CorrelationMapper.behindAlias a "") = .ok d ↔
          keyword? a ≠ some .null ∧ d =
            ⟨(q.putNode label entity (.entity i) .left false).putConditions q.forest.size
              ⟨q.forest.size, label, entity, .entity i, .left, false, []⟩
              [⟨.path (.bound (label ++ "." ++ name) q.forest.size (some name)), .equal,
                bareAlias a i⟩], a, label, some entity⟩ := by
  intro q
  have identifier := identifies_run started steps a _ known
  obtain ⟨n, hn, -⟩ := (wired_of_start started steps).joins a i known
  refine ⟨bareAlias_eq_path_iff, fun c sign x parameter s r => ⟨?_, ?_⟩, ?_⟩
  · exact fun h => restrict_alias_left identifier known hn sign parameter h
  · exact fun h => restrict_alias_right identifier known hn sign parameter h
  · intro label entity name as other free there along d
    exact correlate_alias identifier known hn other free there along

/-- A document is compared with a parameter, and another one has it as its owner. -/
theorem alias_operands_documents :
    start .ofDocuments "Document" "d" = .ok ofDocuments ∧
      (∃ r, ofDocuments.restrict (.text " d<=:x ") = .ok r ∧
        r.conditions = [⟨.path (.bound "d" 0 none), .atMost, .parameter (some "x") none⟩]) ∧
      ∃ d, (CorrelationProvider.ofEntity "Document" "owner").apply (.start ofDocuments "d" "e")
          (CorrelationMapper.behindAlias "d" "") = .ok d ∧
        d.query.forest.nodes.map ForestNode.on = [[], [⟨.path (.bound "e.owner" 1 (some "owner")),
          .equal, .path (.bound "d" 0 none)⟩]] := by
  obtain ⟨-, sides, correlated⟩ := alias_operands start_ofDocuments [] (a := "d") (i := 0) rfl
  have compares : Predicate.Compares " d<=:x " "d" .atMost (":" ++ "x") :=
    ⟨" ", "", "", " ", List.all_eq_true.mp (by decide), by decide⟩
  have compared := ((sides .atMost rfl "x" (by decide) _ _).1 compares).mpr rfl
  have along : Schema.ofDocuments.attributesAlong "Document" "owner" =
      .ok [.association "owner" "Person"] := by decide
  have joined := (correlated "e" "Document" "owner" _ (by decide) (by rfl) (by decide) along _).mpr
    ⟨by decide, rfl⟩
  exact ⟨start_ofDocuments, ⟨_, compared, rfl⟩, _, joined, rfl⟩

/-- Selects from documents under an alias of its own. -/
def documentsAs (label : String) : Query :=
  { ofDocuments with
    forest := ⟨[⟨0, label, "Document", .root, .inner, false, []⟩]⟩
    scope := ⟨[(label, .join 0)], []⟩ }

/-- A document that is called `true` is not compared with the parameter and is no owner, and one
that is called `null` cannot be compared. -/
theorem alias_operands_keyword :
    (start .ofDocuments "Document" "true" = .ok (documentsAs "true") ∧
      (∃ r, (documentsAs "true").restrict (.text "true = :x") = .ok r ∧
        r.conditions = [⟨.literal (.bool true), .equal, .parameter (some "x") none⟩]) ∧
      ∃ d, (CorrelationProvider.ofEntity "Document" "owner").apply
          (.start (documentsAs "true") "true" "e")
          (CorrelationMapper.behindAlias "true" "") = .ok d ∧
        d.query.forest.nodes.map ForestNode.on = [[], [⟨.path (.bound "e.owner" 1 (some "owner")),
          .equal, .literal (.bool true)⟩]]) ∧
    start .ofDocuments "Document" "null" = .ok (documentsAs "null") ∧
      (documentsAs "null").restrict (.text ":x = null") = .error (.predicate .nullForbidden) := by
  have compares : Predicate.Compares "true = :x" "true" .equal (":" ++ "x") :=
    ⟨"", " ", " ", "", List.all_eq_true.mp (by decide), by decide⟩
  have identifier : Text.isIdentifier "true" = true := by decide
  have known : (documentsAs "true").scope.find? "true" = some (.join 0) := by rfl
  have along : Schema.ofDocuments.attributesAlong "Document" "owner" =
      .ok [.association "owner" "Person"] := by decide
  have compared := (restrict_alias_left identifier known rfl rfl (by decide) compares).mpr rfl
  have joined := (@correlate_alias _ _ _ _ identifier known rfl "e" _ _ _ (by decide) (by rfl)
    (by decide) along _).mpr ⟨by decide, rfl⟩
  exact ⟨⟨by rfl, ⟨_, compared, by rfl⟩, _, joined, rfl⟩, by rfl, by rfl⟩

end Query
end EntityQuery
