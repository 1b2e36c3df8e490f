import EntityQuery.Proofs.Expression.Calls
import EntityQuery.Proofs.Query.Steps

/-!
# Steps that are refused for an alias

An alias is refused where it is registered and nowhere else: whatever else a step reads, checks or
binds fails with other faults. So a step that brings in no alias, or one that is free, is never
refused for an alias that is taken.
-/

namespace EntityQuery
open Outcome (FailsOnly failsOnly_ok failsOnly_error failsOnly_bind failsOnly_mapM
  failsOnly_foldlM)

/-- The alias that is taken, if this is the fault. -/
def QueryError.taken? : QueryError → Option String
  | .aliasTaken label => some label
  | _ => none

/-- Any fault but a taken alias. -/
def QueryError.Untaken (e : QueryError) : Prop := e.taken? = none

open QueryError (Untaken)

namespace Text

theorem checkIdentifier_untaken (s : String) : FailsOnly Untaken (checkIdentifier s) := by
  rw [checkIdentifier]
  split
  · exact failsOnly_error rfl
  split
  · exact failsOnly_ok ()
  · exact failsOnly_error rfl

theorem checkSegments_untaken (path : String) (segments : List String) :
    FailsOnly Untaken (checkSegments path segments) := by
  induction segments with
  | nil => exact failsOnly_ok ()
  | cons s rest ih =>
    rw [checkSegments]
    split
    · exact failsOnly_error rfl
    · exact failsOnly_bind (checkIdentifier_untaken s) fun _ _ => ih

theorem checkPath_untaken (path : String) : FailsOnly Untaken (checkPath path) := by
  rw [checkPath]
  split
  · exact failsOnly_error rfl
  · exact checkSegments_untaken path _

end Text

namespace Schema

theorem entity_untaken (s : Schema) (name : String) : FailsOnly Untaken (s.entity name) := by
  rw [entity]
  split
  · exact failsOnly_ok _
  · exact failsOnly_error rfl

theorem attributeOf_untaken (s : Schema) (entity name : String) :
    FailsOnly Untaken (s.attributeOf entity name) := by
  refine failsOnly_bind (s.entity_untaken entity) fun e _ => ?_
  split
  · exact failsOnly_ok _
  · exact failsOnly_error rfl

theorem walk_untaken (s : Schema) (path entity : String) (segments : List String) :
    FailsOnly Untaken (s.walk path entity segments) := by
  fun_induction walk s path entity segments with
  | case1 => exact failsOnly_ok []
  | case2 entity segment =>
    exact failsOnly_bind (s.attributeOf_untaken entity segment) fun a _ => failsOnly_ok _
  | case3 entity segment rest _ ih =>
    refine failsOnly_bind (s.attributeOf_untaken entity segment) fun a _ => ?_
    split
    · exact failsOnly_error rfl
    · exact failsOnly_bind (ih _) fun as _ => failsOnly_ok _

theorem attributesAlong_untaken (s : Schema) (entity path : String) :
    FailsOnly Untaken (s.attributesAlong entity path) :=
  failsOnly_bind (Text.checkPath_untaken path) fun _ _ => s.walk_untaken path entity _

end Schema

namespace JoinForest

theorem node_untaken (t : JoinForest) (id : Nat) : FailsOnly Untaken (t.node id) := by
  rw [node]
  split
  · exact failsOnly_ok _
  · exact failsOnly_error rfl

theorem withRelation_untaken (t : JoinForest) (parent : Nat) (a : Attribute) (label : String)
    (mode : JoinMode) (fetch : Bool) :
    FailsOnly Untaken (t.withRelation parent a label mode fetch) := by
  refine failsOnly_bind (t.node_untaken parent) fun _ _ => ?_
  split
  · exact failsOnly_error rfl
  · exact failsOnly_ok _

theorem withEntity_untaken (t : JoinForest) (parent : Nat) (entity label : String)
    (mode : JoinMode) (on : List Predicate) :
    FailsOnly Untaken (t.withEntity parent entity label mode on) :=
  failsOnly_bind (t.node_untaken parent) fun _ _ => failsOnly_ok _

theorem withCondition_untaken (t : JoinForest) (id : Nat) (p : Predicate) :
    FailsOnly Untaken (t.withCondition id p) := by
  refine failsOnly_bind (t.node_untaken id) fun n _ => ?_
  split
  · exact failsOnly_error rfl
  · exact failsOnly_ok _

end JoinForest

/-! Conditions. -/

theorem operand_untaken (s : String) : FailsOnly Untaken (operand s) := by
  rw [operand]
  split
  · exact failsOnly_ok _
  split
  · exact failsOnly_ok _
  split
  · exact failsOnly_ok _
  split
  · exact failsOnly_bind (Text.checkPath_untaken _) fun _ _ => failsOnly_ok _
  split
  · exact failsOnly_ok _
  split
  · exact failsOnly_ok _
  · exact failsOnly_bind (Text.checkPath_untaken s) fun _ _ => failsOnly_ok _

theorem Comparison.ofText_untaken (s : String) : FailsOnly Untaken (ofText s) := by
  rw [ofText]
  split
  · exact failsOnly_ok _
  · exact failsOnly_error rfl

namespace Predicate

theorem compare_untaken (left : Expression) (c : Comparison) (right : Expression) :
    FailsOnly Untaken (compare left c right) := by
  rw [compare]
  split
  · exact failsOnly_error rfl
  · exact failsOnly_error rfl
  · exact failsOnly_ok _

theorem parse_untaken (s : String) : FailsOnly Untaken (parse s) := by
  rw [parse]
  split
  · exact failsOnly_error rfl
  dsimp only
  split
  · exact failsOnly_error rfl
  refine failsOnly_bind (operand_untaken _) fun l _ => ?_
  refine failsOnly_bind (operand_untaken _) fun r _ => ?_
  exact failsOnly_bind (Comparison.ofText_untaken _) fun c _ => compare_untaken l c r

end Predicate

theorem Condition.read_untaken (c : Condition) : FailsOnly Untaken c.read := by
  cases c with
  | text s => exact Predicate.parse_untaken s
  | predicate p => exact failsOnly_ok p

namespace Query
variable {q : Query}

/-! Binding. -/

theorem nodeOf_untaken (q : Query) (label : String) : FailsOnly Untaken (q.nodeOf label) := by
  rw [nodeOf]
  split
  · exact failsOnly_ok _
  · exact failsOnly_error rfl

theorem pathFrom_untaken (q : Query) (text : String) (node : Nat) (rest : Option String) :
    FailsOnly Untaken (q.pathFrom text node rest) := by
  refine failsOnly_bind (q.forest.node_untaken node) fun n _ => ?_
  split
  · exact failsOnly_bind (q.basis.schema.attributesAlong_untaken n.entity _) fun _ _ =>
      failsOnly_ok _
  · exact failsOnly_ok _

theorem path_untaken (q : Query) (text : String) : FailsOnly Untaken (q.path text) := by
  refine failsOnly_bind (Text.checkPath_untaken text) fun _ _ => ?_
  dsimp only
  split
  · exact q.pathFrom_untaken text _ _
  · exact failsOnly_ok _
  · exact failsOnly_error rfl

theorem bindPath_untaken (q : Query) (p : Path) : FailsOnly Untaken (q.bindPath p) := by
  rw [bindPath]
  split
  · exact failsOnly_ok p
  · exact failsOnly_bind (q.path_untaken p.text) fun _ _ => failsOnly_ok _

theorem bind_untaken (q : Query) (e : Expression) : FailsOnly Untaken (q.bind e) := by
  have path : ∀ p, FailsOnly Untaken (q.bind (.path p)) :=
    fun p => failsOnly_bind (q.bindPath_untaken p) fun _ _ => failsOnly_ok _
  induction e using Expression.byParts with
  | path p => exact path p
  | call f as ih =>
    rw [bind, bindArguments_eq]
    refine failsOnly_bind (failsOnly_mapM fun a ha => ?_) fun _ _ => failsOnly_ok _
    cases a with
    | path p => exact path _
    | _ => exact ih _ ha
  | _ => exact failsOnly_ok _

theorem bindCondition_untaken (q : Query) (p : Predicate) :
    FailsOnly Untaken (q.bindCondition p) :=
  failsOnly_bind (q.bind_untaken p.left) fun _ _ =>
    failsOnly_bind (q.bind_untaken p.right) fun _ _ => failsOnly_ok _

theorem readCondition_untaken (q : Query) (c : Condition) :
    FailsOnly Untaken (q.readCondition c) :=
  failsOnly_bind c.read_untaken fun p _ => q.bindCondition_untaken p

theorem withConditions_untaken (q : Query) (i : Nat) (on : List Predicate) :
    FailsOnly Untaken (q.withConditions i on) := by
  refine failsOnly_bind ?_ fun _ _ => failsOnly_ok _
  exact failsOnly_foldlM (fun t p _ => t.withCondition_untaken i p) q.forest

end Query

/-- The alias that a step brings in. -/
def QueryStep.newAlias? : QueryStep → Option String
  | .root _ label | .join _ label _ _ | .joinEntity _ _ label _ _ => some label
  | .select _ label | .selectByPath _ label => label
  | _ => none

namespace Query
variable {q : Query} {label : Option String}

/-- If the fault is a taken alias, it is this one, and it is taken. -/
def Refuses (q : Query) (label : Option String) (e : QueryError) : Prop :=
  ∀ l, e.taken? = some l → label = some l ∧ q.scope.isAvailable l = false

/-- What fails with other faults only is not refused. -/
theorem refuses_of_untaken {α : Type} {x : Except QueryError α} (h : FailsOnly Untaken x) :
    FailsOnly (q.Refuses label) x := by
  refine h.mono fun e untaken l taken => ?_
  cases untaken.symm.trans taken

/-- What is refused for one alias only is not refused if this one is free. -/
theorem untaken_of_refuses {α : Type} {x : Except QueryError α} {l : String}
    (h : FailsOnly (q.Refuses (some l)) x) (free : q.scope.isAvailable l = true) :
    FailsOnly Untaken x := by
  refine h.mono fun e refuses => Option.eq_none_iff_forall_ne_some.mpr fun other taken => ?_
  obtain ⟨same, unavailable⟩ := refuses other taken
  cases same
  rw [free] at unavailable
  cases unavailable

theorem register_refuses (l : String) (target : AliasTarget) :
    FailsOnly (q.Refuses (some l)) (q.scope.register l target) := by
  rw [AliasScope.register]
  split
  · exact failsOnly_ok _
  · rename_i taken
    refine failsOnly_error fun other same => ?_
    cases same
    exact ⟨rfl, by simpa using taken⟩

theorem withNode_refuses (l : String) (t : JoinForest) :
    FailsOnly (q.Refuses (some l)) (q.withNode l t) :=
  failsOnly_bind (register_refuses l _) fun _ _ => failsOnly_ok _

theorem join_refuses (path l : String) (mode : JoinMode) (fetch : Bool) :
    FailsOnly (q.Refuses (some l)) (q.join path l mode fetch) := by
  refine failsOnly_bind (refuses_of_untaken (Text.checkPath_untaken path)) fun _ _ => ?_
  refine failsOnly_bind (refuses_of_untaken (Text.checkIdentifier_untaken l)) fun _ _ => ?_
  split
  · exact refuses_of_untaken (failsOnly_error rfl)
  refine failsOnly_bind (refuses_of_untaken (Text.checkIdentifier_untaken _)) fun _ _ => ?_
  refine failsOnly_bind (refuses_of_untaken (q.nodeOf_untaken _)) fun parent _ => ?_
  refine failsOnly_bind (refuses_of_untaken (q.forest.node_untaken parent)) fun n _ => ?_
  refine failsOnly_bind (refuses_of_untaken (q.basis.schema.attributeOf_untaken _ _)) fun a _ => ?_
  refine failsOnly_bind
    (refuses_of_untaken (q.forest.withRelation_untaken parent a l mode fetch)) fun t _ => ?_
  exact withNode_refuses l t

theorem joinEntity_refuses (base entity l : String) (mode : JoinMode) (on : List Condition) :
    FailsOnly (q.Refuses (some l)) (q.joinEntity base entity l mode on) := by
  refine failsOnly_bind (refuses_of_untaken (Text.checkIdentifier_untaken l)) fun _ _ => ?_
  refine failsOnly_bind (refuses_of_untaken (q.basis.schema.entity_untaken entity)) fun _ _ => ?_
  refine failsOnly_bind (refuses_of_untaken (q.nodeOf_untaken base)) fun parent _ => ?_
  refine failsOnly_bind
    (refuses_of_untaken (q.forest.withEntity_untaken parent entity l mode [])) fun t _ => ?_
  refine failsOnly_bind (withNode_refuses l t) fun joined _ => refuses_of_untaken ?_
  refine failsOnly_bind (failsOnly_mapM fun c _ => joined.readCondition_untaken c) fun bound _ => ?_
  split
  · exact failsOnly_error rfl
  · exact joined.withConditions_untaken _ bound

theorem select_refuses (e : Expression) (label : Option String) :
    FailsOnly (q.Refuses label) (q.select e label) := by
  refine failsOnly_bind (refuses_of_untaken (q.bind_untaken e)) fun b _ => ?_
  refine failsOnly_bind ?_ fun _ _ => failsOnly_ok _
  cases label with
  | none => exact failsOnly_ok _
  | some l =>
    refine failsOnly_bind (refuses_of_untaken (Text.checkIdentifier_untaken l)) fun _ _ => ?_
    exact register_refuses l _

theorem selectByPath_refuses (text : String) (label : Option String) :
    FailsOnly (q.Refuses label) (q.selectByPath text label) :=
  failsOnly_bind (refuses_of_untaken (q.path_untaken text)) fun _ _ => select_refuses _ label

theorem selectByPath_untaken (text : String) : FailsOnly Untaken (q.selectByPath text none) := by
  refine (selectByPath_refuses text none).mono fun e refuses => ?_
  refine Option.eq_none_iff_forall_ne_some.mpr fun label taken => ?_
  cases (refuses label taken).1

/-- A step is refused for a taken alias only if it brings in this alias. -/
theorem step_refuses (s : QueryStep) : FailsOnly (q.Refuses s.newAlias?) (q.step s) := by
  cases s with
  | root entity l =>
    refine failsOnly_bind (refuses_of_untaken (Text.checkIdentifier_untaken l)) fun _ _ => ?_
    refine failsOnly_bind (refuses_of_untaken (q.basis.schema.entity_untaken entity)) fun _ _ => ?_
    exact withNode_refuses l _
  | join path l mode fetch => exact join_refuses path l mode fetch
  | joinEntity base entity l mode on => exact joinEntity_refuses base entity l mode on
  | on l c =>
    refine refuses_of_untaken (failsOnly_bind (q.nodeOf_untaken l) fun i _ => ?_)
    refine failsOnly_bind c.read_untaken fun p _ => ?_
    exact failsOnly_bind (q.bindCondition_untaken p) fun b _ => q.withConditions_untaken i [b]
  | select e label => exact select_refuses e label
  | selectByPath text label => exact selectByPath_refuses text label
  | restrict c =>
    refine refuses_of_untaken (failsOnly_bind c.read_untaken fun p _ => ?_)
    exact failsOnly_bind (q.bindCondition_untaken p) fun _ _ => failsOnly_ok _
  | groupBy e =>
    exact refuses_of_untaken (failsOnly_bind (q.bind_untaken e) fun _ _ => failsOnly_ok _)
  | orderBy e ascending =>
    exact refuses_of_untaken (failsOnly_bind (q.bind_untaken e) fun _ _ => failsOnly_ok _)
  | parameter name value =>
    exact refuses_of_untaken
      (failsOnly_bind (Text.checkIdentifier_untaken name) fun _ _ => failsOnly_ok _)
  | skip n => exact failsOnly_ok _
  | take n => exact failsOnly_ok _

end Query
end EntityQuery
