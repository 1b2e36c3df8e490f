import EntityQuery.Proofs.Expression.Replacement
import EntityQuery.Proofs.Query.SameText

/-!
# Aliases of paths are what they stand for

A path that was selected under an alias may be written in place of the alias in all clauses
after it. `text_replace` says so for every expression in which the alias is not counted, does
not name a function, and stands under no mark that its path would need. The three exceptions
are real: `text_replace_fails` has one query for each.
-/

namespace EntityQuery

/-- The marks do not decide whether the value function is written around the node. -/
def Neutral (profile : Profile) (n : ForestNode) (field : Option String) (keyed wrapped : Bool) :
    Prop :=
  n.isIndexed = true → profile.valueFunction.isSome = true →
    keyed = false ∧ (wrapped = true → field.isSome = true)

def Predicate.replace (n : String) (x : Path) (p : Predicate) : Predicate :=
  ⟨p.left.replace n x, p.comparison, p.right.replace n x⟩

/-- Replaces in the predicate that a condition is read as. -/
def Condition.replace (n : String) (x : Path) (c : Condition) : Condition :=
  match c.read with
  | .ok p => .predicate (p.replace n x)
  | .error _ => c

/-- Replaces in what a step adds to ON, WHERE, GROUP BY and ORDER BY. -/
def QueryStep.replace (n : String) (x : Path) : QueryStep → QueryStep
  | .joinEntity base entity label mode conditions =>
    .joinEntity base entity label mode (conditions.map (·.replace n x))
  | .on label c => .on label (c.replace n x)
  | .restrict c => .restrict (c.replace n x)
  | .groupBy e => .groupBy (e.replace n x)
  | .orderBy e ascending => .orderBy (e.replace n x) ascending
  | s => s

theorem Condition.read_replace (n : String) (x : Path) (c : Condition) :
    (c.replace n x).read = c.read.map (·.replace n x) := by
  rw [replace]
  cases h : c.read with
  | error err => exact h
  | ok p => rfl

namespace Query
variable {q r : Query} {n t : String} {target : Path} {m : ForestNode}
  {H : Bool → Bool → Prop}

/-- `n` is an alias of the path that `t` is resolved to, which reads the node `m`. -/
structure Declares (q : Query) (n t : String) (target : Path) (m : ForestNode) : Prop where
  identifier : Text.isIdentifier n = true
  item : q.scope.find? n = some (.item (.path target))
  resolved : q.path t = .ok target
  node : ∃ i now, target.node = some i ∧ q.forest.nodes[i]? = some now ∧ now.bare = m.bare

theorem Declares.extends (d : q.Declares n t target m) (h : q.Extends r) :
    r.Declares n t target m where
  identifier := d.identifier
  item := h.scope _ _ d.item
  resolved := h.path d.resolved
  node := by
    obtain ⟨i, now, bound, hnow, same⟩ := d.node
    obtain ⟨later, hlater, still⟩ := h.node hnow
    exact ⟨i, later, bound, hlater, still.trans same⟩

theorem Declares.path_alias (d : q.Declares n t target m) : q.path n = .ok (.ofText n) :=
  path_ok_iff.mpr ⟨Text.checkPath_of_isIdentifier d.identifier,
    .item (Text.headAndRest_of_isIdentifier d.identifier) d.item⟩

/-! Binding commutes with the replacement. -/

theorem names_of_bindPath {p b : Path} (h : q.bindPath p = .ok b) (names : b.Names n) :
    p.Names n := by
  cases hp : p.node with
  | some i =>
    obtain rfl := (bindPath_bound hp).mp h
    exact names
  | none =>
    obtain ⟨a, ha, rfl⟩ := (bindPath_free hp).mp h
    exact ⟨hp, (path_unmarked ha).1.symm.trans names.2⟩

theorem path_of_bind_path {a : Expression} {w : Wrapping} {p : Path}
    (h : q.bind (a.marked w) = .ok (.path p)) : ∃ p₀, a = .path p₀ := by
  obtain ⟨b, hb, -⟩ := path_of_bind h
  cases a with
  | path p₀ => exact ⟨p₀, rfl⟩
  | _ => cases hb

section Declares
variable (d : q.Declares n t target m)
include d

theorem bindPath_replace (p : Path) :
    q.bindPath (p.replace n (.ofText t)) = (q.bindPath p).map (·.replace n target) := by
  by_cases names : p.Names n
  · have left : q.bindPath (p.replace n (.ofText t)) =
        .ok { target with keyed := p.keyed, wrapped := p.wrapped } := by
      rw [Path.replace_of_names names]
      refine (bindPath_free rfl).mpr ⟨target, ?_, rfl⟩
      show q.path (Path.ofText t).text = _
      rw [Path.text_ofText, d.resolved]
    have right : q.bindPath p = .ok { Path.ofText n with keyed := p.keyed, wrapped := p.wrapped } :=
      (bindPath_free names.1).mpr ⟨_, names.2 ▸ d.path_alias, by rw [names.2]⟩
    have still : Path.Names { Path.ofText n with keyed := p.keyed, wrapped := p.wrapped } n :=
      ⟨rfl, Path.text_ofText n⟩
    rw [left, right]
    exact congrArg Except.ok (Path.replace_of_names still).symm
  · rw [Path.replace_of_not_names names]
    cases hb : q.bindPath p with
    | error err => rfl
    | ok b =>
      have kept : ¬ b.Names n := fun h => names (names_of_bindPath hb h)
      exact congrArg Except.ok (Path.replace_of_not_names kept).symm

theorem bind_path_replace (p : Path) :
    q.bind ((Expression.path p).replace n (.ofText t)) =
      (q.bind (.path p)).map (Expression.replace n target) := by
  rw [Expression.replace, bind, bind, bindPath_replace d]
  cases q.bindPath p <;> rfl

theorem bind_replace (e : Expression) :
    q.bind (e.replace n (.ofText t)) = (q.bind e).map (Expression.replace n target) := by
  induction e using Expression.byParts with
  | path p => exact bind_path_replace d p
  | call f as ih =>
    have each : ∀ a ∈ as, q.bind ((a.replace n (.ofText t)).marked (.ofFunction f)) =
        (q.bind (a.marked (.ofFunction f))).map (Expression.replace n target) := by
      intro a ha
      rw [Expression.marked_replace]
      cases a with
      | path p => exact bind_path_replace d _
      | _ => exact ih _ ha
    rw [Expression.replace_call, bind, bind, bindArguments_eq, bindArguments_eq, List.mapM_map]
    have commutes := Outcome.mapM_congr each
    rw [Outcome.mapM_map_ok] at commutes
    rw [show (fun a => q.bind (Expression.marked (.ofFunction f) a)) ∘
      Expression.replace n (.ofText t) = fun a =>
        q.bind ((a.replace n (.ofText t)).marked (.ofFunction f)) from rfl, commutes]
    cases as.mapM fun a => q.bind (a.marked (.ofFunction f)) with
    | error err => rfl
    | ok bs => exact congrArg Except.ok (Expression.replace_call f bs).symm
  | parameter n v => rfl
  | element p i => rfl
  | literal l => rfl
  | subquery s e a js cs => rfl

/-- What was bound has all its marks. -/
theorem clear_bind {e b : Expression} (h : e.Transparent n (.ofText t) H)
    (hb : q.bind e = .ok b) : b.Clear n target H := by
  induction h generalizing b with
  | @path p hp =>
    obtain ⟨c, hc, hb⟩ := Outcome.bind_ok_iff.mp hb
    cases hb
    obtain ⟨keyed, wrapped⟩ := bindPath_marks hc
    refine .path fun names => ?_
    rw [keyed, wrapped]
    exact hp (names_of_bindPath hc names)
  | @call f as size dynamic inside ih =>
    obtain ⟨bs, rfl, hbs⟩ := bind_call_ok hb
    -- An argument that the replacement leaves as it is stays so when it is bound.
    have fixed : ∀ {a c : Expression}, q.bind (a.marked (.ofFunction f)) = .ok c →
        a.replace n (.ofText t) = a → c.replace n target = c := by
      intro a c hac ha
      have commutes := bind_replace d (a.marked (.ofFunction f))
      rw [← Expression.marked_replace, ha, hac] at commutes
      exact (Except.ok.inj commutes).symm
    refine .call ?_ ?_ ?_
    · rintro hsize p rfl
      cases Outcome.mapM_ok_iff.mp hbs with
      | @cons a _ _ _ hac rest =>
        cases rest
        obtain ⟨p₀, rfl⟩ := path_of_bind_path hac
        have same : (Expression.path p₀).replace n (.ofText t) = .path p₀ :=
          congrArg Expression.path (size hsize p₀ rfl)
        exact Expression.path.inj (fixed hac same)
    · intro hdynamic c hc
      obtain ⟨a, ha, hac⟩ := Outcome.head_of_mapM_ok hbs hc
      exact fixed hac (dynamic hdynamic a ha)
    · intro c hc
      obtain ⟨a, ha, hac⟩ := Outcome.mem_of_mapM_ok hbs hc
      exact ih a ha hac
  | parameter name value =>
    cases hb
    exact .fixed nofun rfl
  | literal l =>
    cases hb
    exact .fixed nofun rfl

end Declares

/-! So do the expansion of SIZE and rendering. -/

theorem transform_replace {clause : Clause} {b : Expression} (h : b.Clear n target H) :
    q.sizeExpansion.transform clause (b.replace n target) =
      (q.sizeExpansion.transform clause b).map (Expression.replace n target) := by
  rw [SizeExpansion.transform, SizeExpansion.transform]
  split
  · rfl
  · exact SizeExpansion.expand_replace h

theorem clear_transform {clause : Clause} {b c : Expression} (h : b.Clear n target H)
    (hc : q.sizeExpansion.transform clause b = .ok c) : c.Clear n target H := by
  rw [SizeExpansion.transform] at hc
  split at hc
  · cases hc
    exact h
  · exact SizeExpansion.clear_expand h hc

/-- The node is written alike under marks that do not matter. -/
theorem boundPath_marks {r : Renderer} (keyed wrapped : Bool) (unmarked : target.keyed = false)
    (bare : target.wrapped = false) (neutral : Neutral r.profile m target.field keyed wrapped) :
    r.boundPath { target with keyed := keyed, wrapped := wrapped } m = r.boundPath target m := by
  have same : r.valueFunction? { target with keyed := keyed, wrapped := wrapped } m =
      r.valueFunction? target m := by
    rw [Renderer.valueFunction?, Renderer.valueFunction?, unmarked, bare]
    cases indexed : m.isIndexed with
    | false => rfl
    | true =>
      cases function : r.profile.valueFunction with
      | none => simp
      | some name =>
        obtain ⟨rfl, field⟩ := neutral indexed (by rw [function]; rfl)
        cases wrapped with
        | false => rfl
        | true => simp [field rfl]
  rw [Renderer.boundPath, Renderer.boundPath, same]

/-- A query in which `n` stands for its path, whether replaced or not, where marks in `H` are
concerned. -/
def Interchanges (q : Query) (n : String) (target : Path) (H : Bool → Bool → Prop) : Prop :=
  ∀ p : Path, p.Names n → H p.keyed p.wrapped →
    q.renderer.path (p.replace n target) = q.renderer.path p

theorem Declares.interchanges (d : q.Declares n t target m)
    (resolves : q.basis.resolveAliases = true) :
    q.Interchanges n target (Neutral q.basis.profile m target.field) := by
  intro p names neutral
  obtain ⟨i, now, hnode, hnow, same⟩ := d.node
  obtain ⟨-, unmarked, bare, -⟩ := path_unmarked d.resolved
  have indexed : now.isIndexed = m.isIndexed := by
    have origin := (ForestNode.bare_eq_iff.mp same).2.2.2.1
    rw [ForestNode.isIndexed, ForestNode.relation?, origin, ForestNode.isIndexed,
      ForestNode.relation?]
  have neutral : Neutral q.basis.profile now target.field p.keyed p.wrapped :=
    fun h => neutral (indexed ▸ h)
  have bound : target.node.isSome = true := by rw [hnode]; rfl
  have there : q.forest.node i = .ok now := JoinForest.node_ok_iff.mpr hnow
  have aliased : q.renderer.path p = .ok (q.renderer.boundPath target now) :=
    Renderer.path_of_leads (r := q.renderer) resolves
      (.next names.1 (names.2 ▸ d.item) (.bound bound)) (AliasScope.size_pos d.item) hnode there
  have replaced : q.renderer.path { target with keyed := p.keyed, wrapped := p.wrapped } =
      .ok (q.renderer.boundPath { target with keyed := p.keyed, wrapped := p.wrapped } now) := by
    refine Renderer.path_of_leads (r := q.renderer) resolves (.bound ?_) (Nat.zero_le _) ?_ there
    · exact bound
    · exact hnode
  rw [Path.replace_of_names names, replaced, aliased, boundPath_marks _ _ unmarked bare neutral]

section Texts
variable (same : q.Interchanges n target H)
include same

theorem clauseText_replace {clause : Clause} {e : Expression} (h : e.Clear n target H) :
    q.clauseText clause (e.replace n target) = q.clauseText clause e := by
  rw [clauseText, clauseText, transform_replace h]
  cases hc : q.sizeExpansion.transform clause e with
  | error err => rfl
  | ok c => exact Renderer.render_replace same (clear_transform h hc)

theorem predicateText_replace {clause : Clause} {p : Predicate}
    (h : p.All (Expression.Clear n target H)) :
    q.predicateText clause (p.replace n target) = q.predicateText clause p := by
  rw [predicateText, predicateText, Predicate.mapSides, Predicate.mapSides, Predicate.replace]
  dsimp only
  rw [transform_replace h.1, transform_replace h.2]
  cases hl : q.sizeExpansion.transform clause p.left with
  | error err => rfl
  | ok left =>
    cases hr : q.sizeExpansion.transform clause p.right with
    | error err => rfl
    | ok right =>
      show q.renderer.renderCondition
        ⟨left.replace n target, p.comparison, right.replace n target⟩ =
        q.renderer.renderCondition ⟨left, p.comparison, right⟩
      rw [Renderer.renderCondition, Renderer.renderCondition]
      dsimp only
      rw [Renderer.render_replace same (clear_transform h.1 hl),
        Renderer.render_replace same (clear_transform h.2 hr)]

end Texts

/-! Steps in which the alias is replaced. -/

section Steps
variable (d : q.Declares n t target m)
include d

theorem bindCondition_replace (p : Predicate) :
    q.bindCondition (p.replace n (.ofText t)) =
      (q.bindCondition p).map (·.replace n target) := by
  rw [bindCondition, bindCondition, Predicate.mapSides, Predicate.mapSides, Predicate.replace]
  dsimp only
  rw [bind_replace d, bind_replace d]
  cases q.bind p.left with
  | error err => rfl
  | ok left => cases q.bind p.right <;> rfl

theorem read_bind_replace (c : Condition) :
    ((c.replace n (.ofText t)).read >>= q.bindCondition) =
      (c.read >>= q.bindCondition).map (·.replace n target) := by
  rw [Condition.read_replace]
  cases c.read with
  | error err => rfl
  | ok p => exact bindCondition_replace d p

theorem clear_read_bind {c : Condition} (h : c.All (Expression.Transparent n (.ofText t) H))
    {b : Predicate} (hb : (c.read >>= q.bindCondition) = .ok b) :
    b.All (Expression.Clear n target H) := by
  obtain ⟨p, hp, hb⟩ := Outcome.bind_ok_iff.mp hb
  obtain ⟨⟨left, hleft, bleft⟩, right, hright, bright⟩ := bindCondition_binds hb (h p hp)
  exact ⟨clear_bind d hleft bleft, clear_bind d hright bright⟩

end Steps

theorem texts_replace (same : q.Interchanges n target H) {clause : Clause}
    {on : List Predicate} (clear : ∀ p ∈ on, p.All (Expression.Clear n target H)) :
    (on.map (·.replace n target)).mapM (q.predicateText clause) =
      on.mapM (q.predicateText clause) := by
  rw [List.mapM_map]
  exact Outcome.mapM_congr fun p hp => predicateText_replace same (clear p hp)

/-- The list with another entry at one place. -/
theorem forall₂_set {α : Type} {R : α → α → Prop} (l : List α) (i : Nat) {a b : α}
    (refl : ∀ c ∈ l, R c c) (h : R a b) : List.Forall₂ R (l.set i a) (l.set i b) := by
  induction l generalizing i with
  | nil => exact .nil
  | cons c rest ih =>
    cases i with
    | zero =>
      exact .cons h (List.forall₂_same.mpr fun e he => refl e (List.mem_cons_of_mem c he))
    | succ i =>
      exact .cons (refl c List.mem_cons_self) (ih i fun e he => refl e (List.mem_cons_of_mem c he))

section Texts
variable (d : q.Declares n t target m)
  (same : ∀ r, q.Extends r → r.Interchanges n target H)
include same

theorem text_withConditions (i : Nat) {on : List Predicate}
    (clear : ∀ p ∈ on, p.All (Expression.Clear n target H)) :
    (q.withConditions i (on.map (·.replace n target)) >>= text) =
      (q.withConditions i on >>= text) := by
  rcases JoinForest.withCondition_cases q.forest i with ⟨err, fails⟩ | ⟨k, hk, joined⟩
  · cases on with
    | nil => rfl
    | cons p rest =>
      rw [List.map_cons, withConditions, withConditions, List.foldlM_cons, List.foldlM_cons, fails,
        fails]
      rfl
  · rw [withConditions_eq hk joined, withConditions_eq hk joined]
    have same := same _ (Extends.putConditions hk on)
    refine SameTexts.text ⟨rfl, rfl, rfl, rfl, ?_, rfl, rfl, rfl⟩
    refine forall₂_set _ _ (fun c _ => ⟨rfl, rfl⟩) ⟨rfl, ?_⟩
    exact Outcome.mapM_append_congr _ (texts_replace same clear)

include d

theorem text_restrict {c : Condition} (h : c.All (Expression.Transparent n (.ofText t) H)) :
    (q.restrict (c.replace n (.ofText t)) >>= text) = (q.restrict c >>= text) := by
  have both : ∀ c, (q.restrict c >>= text) = (c.read >>= q.bindCondition) >>= fun p =>
      text { q with conditions := q.conditions ++ [p] } := by
    intro c
    simp only [restrict, bind_assoc]
    rfl
  rw [both, both, read_bind_replace d]
  refine Outcome.bind_map_eq fun p hp => ?_
  have texts : [p.replace n target].mapM (q.predicateText .restriction) =
      [p].mapM (q.predicateText .restriction) :=
    texts_replace (same q (.refl q)) (List.forall_mem_singleton.mpr (clear_read_bind d h hp))
  exact SameTexts.text ⟨rfl, rfl, rfl, rfl, List.forall₂_same.mpr fun _ _ => ⟨rfl, rfl⟩,
    Outcome.mapM_append_congr q.conditions texts, rfl, rfl⟩

theorem text_on {label : String} {c : Condition}
    (h : c.All (Expression.Transparent n (.ofText t) H)) :
    (q.on label (c.replace n (.ofText t)) >>= text) = (q.on label c >>= text) := by
  have both : ∀ c, (q.on label c >>= text) = q.nodeOf label >>= fun i =>
      (c.read >>= q.bindCondition) >>= fun p => q.withConditions i [p] >>= text := by
    intro c
    simp only [on, bind_assoc]
  rw [both, both, read_bind_replace d]
  refine Outcome.bind_congr_ok fun i _ => Outcome.bind_map_eq fun p hp => ?_
  exact text_withConditions same i (List.forall_mem_singleton.mpr (clear_read_bind d h hp))

/-- The alias means the same where the new node is known. -/
theorem text_joinEntity {base entity label : String} {mode : JoinMode} {conditions : List Condition}
    (h : ∀ c ∈ conditions, c.All (Expression.Transparent n (.ofText t) H)) :
    (q.joinEntity base entity label mode (conditions.map (·.replace n (.ofText t))) >>= text) =
      (q.joinEntity base entity label mode conditions >>= text) := by
  simp only [joinEntity, bind_assoc]
  refine Outcome.bind_congr_ok fun _ _ => Outcome.bind_congr_ok fun _ _ =>
    Outcome.bind_congr_ok fun parent _ => Outcome.bind_congr_ok fun forest hforest =>
    Outcome.bind_congr_ok fun joined hjoined => ?_
  obtain ⟨_, -, hforest⟩ := Outcome.bind_ok_iff.mp hforest
  cases hforest
  obtain ⟨free, hnew⟩ := withNode_ok_iff.mp hjoined
  have ext : q.Extends joined :=
    hnew ▸ Extends.putNode free entity (.entity parent) mode false
  have dj := d.extends ext
  have bound : (conditions.map (·.replace n (.ofText t))).mapM
        (fun c => c.read >>= joined.bindCondition) =
      (conditions.mapM fun c => c.read >>= joined.bindCondition).map
        (List.map (·.replace n target)) := by
    rw [List.mapM_map, ← Outcome.mapM_map_ok]
    exact Outcome.mapM_congr fun c _ => read_bind_replace dj c
  refine (congrArg (· >>= _) bound).trans (Outcome.bind_map_eq fun on hon => ?_)
  rw [List.isEmpty_map]
  split
  · rfl
  · refine text_withConditions (fun r e => same r (ext.trans e)) q.forest.size fun b hb => ?_
    obtain ⟨c, hc, hcb⟩ := Outcome.mem_of_mapM_ok hon hb
    exact clear_read_bind dj (h c hc) hcb

theorem text_groupBy {e : Expression} (h : e.Transparent n (.ofText t) H) :
    (q.groupBy (e.replace n (.ofText t)) >>= text) = (q.groupBy e >>= text) := by
  simp only [groupBy, bind_assoc, bind_replace d]
  refine Outcome.bind_map_eq fun b hb => ?_
  have texts : [b.replace n target].mapM (q.clauseText .groupBy) =
      [b].mapM (q.clauseText .groupBy) := by
    rw [List.mapM_cons, List.mapM_cons, clauseText_replace (same q (.refl q)) (clear_bind d h hb)]
  exact SameTexts.text ⟨rfl, rfl, rfl, rfl, List.forall₂_same.mpr fun _ _ => ⟨rfl, rfl⟩, rfl,
    Outcome.mapM_append_congr q.groups texts, rfl⟩

theorem text_orderBy {e : Expression} {ascending : Bool}
    (h : e.Transparent n (.ofText t) H) :
    (q.orderBy (e.replace n (.ofText t)) ascending >>= text) =
      (q.orderBy e ascending >>= text) := by
  simp only [orderBy, bind_assoc, bind_replace d]
  refine Outcome.bind_map_eq fun b hb => ?_
  have texts : [(b.replace n target, ascending)].mapM q.orderText =
      [(b, ascending)].mapM q.orderText := by
    rw [List.mapM_cons, List.mapM_cons, orderText, orderText,
      clauseText_replace (same q (.refl q)) (clear_bind d h hb)]
  exact SameTexts.text ⟨rfl, rfl, rfl, rfl, List.forall₂_same.mpr fun _ _ => ⟨rfl, rfl⟩, rfl, rfl,
    Outcome.mapM_append_congr q.orders texts⟩

theorem text_step {s : QueryStep} (h : s.All (Expression.Transparent n (.ofText t) H)) :
    (q.step (s.replace n (.ofText t)) >>= text) = (q.step s >>= text) := by
  cases s with
  | joinEntity => exact text_joinEntity d same h
  | on => exact text_on d same h
  | restrict => exact text_restrict d same h
  | groupBy => exact text_groupBy d same h
  | orderBy => exact text_orderBy d same h
  | _ => rfl

end Texts

/-- To select by a text that begins with a joined alias declares an alias of it. -/
theorem declares_of_selectByPath {declared : Query} {i : Nat}
    (h : q.selectByPath t (some n) = .ok declared)
    (head : q.scope.find? (Text.headAndRest t).1 = some (.join i)) :
    ∃ target m, target.node = some i ∧ target.field = (Text.headAndRest t).2 ∧
      declared.Declares n t target m := by
  have ext : q.Extends declared := .of_step (s := .selectByPath t (some n)) h
  obtain ⟨target, htarget, h⟩ := Outcome.bind_ok_iff.mp h
  obtain ⟨b, hb, h⟩ := Outcome.bind_ok_iff.mp h
  obtain rfl : Expression.path target = b := by
    rw [bind, bindPath_path htarget] at hb
    exact Except.ok.inj hb
  obtain ⟨scope, hscope, h⟩ := Outcome.bind_ok_iff.mp h
  obtain ⟨_, hidentifier, hscope⟩ := Outcome.bind_ok_iff.mp hscope
  obtain ⟨-, rfl⟩ := AliasScope.register_ok_iff.mp hscope
  obtain ⟨m, hm, bound, field⟩ : ∃ m, q.forest.nodes[i]? = some m ∧ target.node = some i ∧
      target.field = (Text.headAndRest t).2 := by
    cases (path_ok_iff.mp htarget).2 with
    | node whole hfind hn =>
      rw [whole, hfind] at head
      cases head
      exact ⟨_, hn, rfl, by rw [whole]; rfl⟩
    | field parts hfind hn =>
      rw [parts, hfind] at head
      cases head
      exact ⟨_, hn, rfl, by rw [parts]; rfl⟩
    | item whole hfind =>
      rw [whole, hfind] at head
      cases head
  obtain ⟨now, hnow, same⟩ := ext.node hm
  refine ⟨target, m, bound, field, Text.checkIdentifier_ok_iff.mp hidentifier, ?_, ext.path htarget,
    i, now, bound, hnow, same⟩
  cases h
  exact AliasScope.find?_put_self _

/-- In what is added to ON, WHERE, GROUP BY and ORDER BY, an alias of a joined path may be
replaced by the path where the alias is not counted, does not name a function, and has no mark
that its path would need. -/
theorem text_replace {basis : QueryBasis} (resolves : basis.resolveAliases = true)
    {entity label : String} {first : Query} (start : start basis entity label = .ok first)
    {before : List QueryStep} {t n : String} {i : Nat} {declared : Query}
    (head : (first.run before).scope.find? (Text.headAndRest t).1 = some (.join i))
    (declares : (first.run before).selectByPath t (some n) = .ok declared)
    (after : List QueryStep) :
    let q := declared.run after
    ∃ m, q.forest.nodes[i]? = some m ∧ ∀ s : QueryStep,
      s.All (Expression.Transparent n (.ofText t)
        (Neutral basis.profile m (Text.headAndRest t).2)) →
      (q.step (s.replace n (.ofText t)) >>= text) = (q.step s >>= text) := by
  intro q
  obtain ⟨target, origin, bound, field, d⟩ := declares_of_selectByPath declares head
  have d := d.extends (.run declared after)
  obtain ⟨j, m, hj, hm, -⟩ := d.node
  obtain rfl : i = j := Option.some.inj (bound.symm.trans hj)
  have d : q.Declares n t target m := { d with node := ⟨i, m, bound, hm, rfl⟩ }
  have same_basis : q.basis = basis :=
    ((((Extends.of_start start).trans (.run first before)).trans
      (.of_step (s := .selectByPath t (some n)) declares)).trans (.run declared after)).basis
  refine ⟨m, hm, fun s h => text_step d (fun r later => ?_) h⟩
  have basis_eq : r.basis = basis := later.basis.trans same_basis
  rw [← field, ← basis_eq]
  exact (d.extends later).interchanges (basis_eq ▸ resolves)

/-- Names of contacts are selected as `n`, by which documents are then ordered. -/
theorem text_replace_documents :
    let joined := ofDocuments.run [.join "d.contacts" "c" .left false]
    let declared := joined.run [.selectByPath "c.name" (some "n")]
    let after : List QueryStep := [.restrict (.text "d.id > 1")]
    let s : QueryStep :=
      .orderBy (.call "COALESCE" [.call "VALUE" [.ofPathText "n"], .literal (.text "")]) true
    QueryBasis.ofDocuments.resolveAliases = true ∧
      start .ofDocuments "Document" "d" = .ok ofDocuments ∧
      joined.scope.find? (Text.headAndRest "c.name").1 = some (.join 1) ∧
      joined.selectByPath "c.name" (some "n") = .ok declared ∧
      (∃ m, (declared.run after).forest.nodes[1]? = some m ∧
        s.All (Expression.Transparent "n" (.ofText "c.name")
          (Neutral QueryBasis.ofDocuments.profile m (Text.headAndRest "c.name").2)) ∧
        ((declared.run after).step (s.replace "n" (.ofText "c.name")) >>= text) =
          ((declared.run after).step s >>= text)) ∧
      ((declared.run after).step s >>= text) =
        .ok ("SELECT VALUE(c).name AS n FROM Document d LEFT JOIN d.contacts c " ++
          "WHERE d.id > 1 ORDER BY COALESCE(VALUE(VALUE(c).name),'') ASC") := by
  intro joined declared after s
  have head : joined.scope.find? (Text.headAndRest "c.name").1 = some (.join 1) :=
    nodeOf_ok_iff.mp (by decide +kernel)
  have declares : joined.selectByPath "c.name" (some "n") = .ok declared :=
    step_eq_run (q := joined) (s := .selectByPath "c.name" (some "n")) (by decide +kernel)
  obtain ⟨m, hm, replaces⟩ := text_replace rfl start_ofDocuments head declares after
  have transparent : s.All (Expression.Transparent "n" (.ofText "c.name")
      (Neutral QueryBasis.ofDocuments.profile m (Text.headAndRest "c.name").2)) := by
    refine .call (fun h => absurd h (by decide)) (fun h => absurd h (by decide)) ?_
    intro a ha
    simp only [List.mem_cons, List.not_mem_nil, or_false] at ha
    rcases ha with rfl | rfl
    · refine .call (fun h => absurd h (by decide)) (fun h => absurd h (by decide)) ?_
      intro b hb
      obtain rfl := List.mem_singleton.mp hb
      exact .path fun _ _ _ => ⟨rfl, fun _ => by decide +kernel⟩
    · exact .literal _
  exact ⟨rfl, start_ofDocuments, head, declares, ⟨m, hm, transparent, replaces s transparent⟩,
    by decide +kernel⟩

/-- An alias is not counted as its path is, calls the function of its own name, and is a value
also where the key of its node is asked for. -/
theorem text_replace_fails :
    let joined := ofDocuments.run [.join "d.contacts" "c" .left false]
    let order (f : String) : QueryStep := .orderBy (.call f [.ofPathText "n"]) true
    let q := joined.run [.selectByPath "d.contacts" (some "n")]
    let r := joined.run [.selectByPath "c" (some "n")]
    joined.selectByPath "d.contacts" (some "n") = .ok q ∧
      joined.selectByPath "c" (some "n") = .ok r ∧
      (q.step (order "SIZE") >>= text) = .ok ("SELECT d.contacts AS n FROM Document d " ++
        "LEFT JOIN d.contacts c ORDER BY SIZE(d.contacts) ASC") ∧
      (q.step ((order "SIZE").replace "n" (.ofText "d.contacts")) >>= text) =
        .ok ("SELECT d.contacts AS n FROM Document d LEFT JOIN d.contacts c ORDER BY " ++
          "(SELECT COUNT(d_contacts) FROM Document d_base " ++
          "LEFT JOIN d_base.contacts d_contacts WHERE d_base.id = d.id) ASC") ∧
      (q.step (order "FUNCTION") >>= text) = .ok ("SELECT d.contacts AS n FROM Document d " ++
        "LEFT JOIN d.contacts c ORDER BY FUNCTION('n') ASC") ∧
      (q.step ((order "FUNCTION").replace "n" (.ofText "d.contacts")) >>= text) =
        .ok ("SELECT d.contacts AS n FROM Document d " ++
          "LEFT JOIN d.contacts c ORDER BY FUNCTION('d.contacts') ASC") ∧
      (r.step (order "KEY") >>= text) = .ok ("SELECT VALUE(c) AS n FROM Document d " ++
        "LEFT JOIN d.contacts c ORDER BY KEY(VALUE(c)) ASC") ∧
      (r.step ((order "KEY").replace "n" (.ofText "c")) >>= text) =
        .ok ("SELECT VALUE(c) AS n FROM Document d " ++
          "LEFT JOIN d.contacts c ORDER BY KEY(c) ASC") := by
  intro joined order q r
  have counted : joined.selectByPath "d.contacts" (some "n") = .ok q :=
    step_eq_run (q := joined) (s := .selectByPath "d.contacts" (some "n")) (by decide +kernel)
  have keyed : joined.selectByPath "c" (some "n") = .ok r :=
    step_eq_run (q := joined) (s := .selectByPath "c" (some "n")) (by decide +kernel)
  exact ⟨counted, keyed, by decide +kernel, by decide +kernel, by decide +kernel,
    by decide +kernel, by decide +kernel, by decide +kernel⟩

end Query

end EntityQuery
