import EntityQuery.Proofs.Expression.Calls
import EntityQuery.Proofs.Query.Growth
import EntityQuery.Proofs.Schema

/-!
# The calls of SIZE that are expanded

A call of SIZE over a bound path becomes a subquery that counts, and so do those in the arguments
of other calls. The arguments of a call of SIZE are not gone into: if they are more than a bound
path, the calls of SIZE among them stay. What is left once stays for good, for a second expansion
finds the same calls.
-/

namespace EntityQuery

namespace Expression

/-- A call of SIZE whose only argument is a bound path. -/
def SizesBound (e : Expression) : Prop :=
  ∃ f p, e = .call f [.path p] ∧ Text.sameLetters f "SIZE" = true ∧ p.node.isSome = true

/-- Any other call of SIZE. -/
def SizesOther (e : Expression) : Prop :=
  ∃ f as, e = .call f as ∧ Text.sameLetters f "SIZE" = true ∧ ¬ SizesBound e

end Expression

namespace SizeExpansion
open Expression (Occurs occurs_call_iff SizesBound SizesOther)

variable {w : SizeExpansion} {clause : Clause} {e c : Expression}

/-- What comes of a call. -/
theorem expand_call_ok {f : String} {as : List Expression} (h : w.expand (.call f as) = .ok c) :
    (∃ p i, as = [.path p] ∧ Text.sameLetters f "SIZE" = true ∧ p.node = some i ∧
        w.size p i = .ok c) ∨
      (SizesOther (.call f as) ∧ c = .call f as) ∨
      (Text.sameLetters f "SIZE" = false ∧ ∃ bs, as.mapM w.expand = .ok bs ∧ c = .call f bs) := by
  by_cases bound : SizesBound (.call f as)
  · obtain ⟨g, p, same, size, hnode⟩ := bound
    cases same
    obtain ⟨i, hi⟩ := Option.isSome_iff_exists.mp hnode
    exact Or.inl ⟨p, i, rfl, size, hi, (expand_size size hi).symm.trans h⟩
  · refine Or.inr ?_
    rcases w.expand_call f as with ⟨p, i, rfl, size, hi, -⟩ | ⟨size, eq⟩ | ⟨plain, eq⟩
    · exact absurd ⟨f, p, rfl, size, by rw [hi]; rfl⟩ bound
    · cases eq.symm.trans h
      exact Or.inl ⟨⟨f, as, rfl, size, bound⟩, rfl⟩
    · obtain ⟨bs, hbs, same⟩ := Outcome.bind_ok_iff.mp (eq.symm.trans h)
      cases same
      exact Or.inr ⟨plain, bs, hbs, rfl⟩

theorem expand_plain {f : String} (plain : Text.sameLetters f "SIZE" = false)
    (as : List Expression) :
    w.expand (.call f as) = (as.mapM w.expand >>= fun bs => .ok (.call f bs)) := by
  rcases w.expand_call f as with ⟨p, i, -, size, -⟩ | ⟨size, -⟩ | ⟨-, eq⟩
  · cases plain.symm.trans size
  · cases plain.symm.trans size
  · exact eq

/-- A subquery that counts is gone into no more. -/
theorem expand_counted {p : Path} {i : Nat} (h : w.size p i = .ok c) : w.expand c = .ok c := by
  obtain ⟨owner, entity, collection, -, -, rfl⟩ := size_ok h
  rfl

theorem not_occurs_counted {p : Path} {i : Nat} {s : Expression} (h : w.size p i = .ok c)
    (size : SizesBound s) : ¬ Occurs s c := by
  obtain ⟨owner, entity, collection, -, -, rfl⟩ := size_ok h
  obtain ⟨f, q, rfl, -⟩ := size
  nofun

/-! What stays. -/

/-- Below a call that is expanded only calls are left that are not. -/
theorem occurs_expand_iff {s : Expression} (size : SizesBound s) (h : w.expand e = .ok c) :
    Occurs s c ↔ ∃ outer, Occurs outer e ∧ SizesOther outer ∧ Occurs s outer := by
  induction e using Expression.byParts generalizing c with
  | call f as ih =>
    rcases expand_call_ok h with ⟨p, i, rfl, name, hi, counted⟩ | ⟨other, rfl⟩ |
      ⟨plain, bs, hbs, rfl⟩
    · refine iff_of_false (not_occurs_counted counted size) ?_
      rintro ⟨outer, inside, ⟨g, as, rfl, -, unbound⟩, -⟩
      rcases occurs_call_iff.mp inside with same | ⟨a, ha, inside⟩
      · exact unbound (same ▸ ⟨f, p, rfl, name, by rw [hi]; rfl⟩)
      · cases List.mem_singleton.mp ha
        cases inside
    · constructor
      · exact fun inside => ⟨_, .here, other, inside⟩
      · rintro ⟨outer, above, -, inside⟩
        exact inside.trans above
    · have named {g : String} (size : Text.sameLetters g "SIZE" = true) (ds es : List Expression) :
          Expression.call g ds ≠ .call f es := by
        rintro same
        cases same
        cases plain.symm.trans size
      have inside : Occurs s (.call f bs) ↔ ∃ b ∈ bs, Occurs s b := by
        obtain ⟨g, p, rfl, size, -⟩ := size
        exact occurs_call_iff.trans (or_iff_right (named size _ _))
      rw [inside, Outcome.exists_mem_iff_of_mapM_ok hbs fun a ha b hab => ih a ha hab]
      constructor
      · rintro ⟨a, ha, outer, above, rest⟩
        exact ⟨outer, .argument ha above, rest⟩
      · rintro ⟨outer, above, other, rest⟩
        rcases occurs_call_iff.mp above with rfl | ⟨a, ha, above⟩
        · obtain ⟨g, ds, same, size, -⟩ := other
          exact absurd same.symm (named size _ _)
        · exact ⟨a, ha, outer, above, other, rest⟩
  | _ =>
    cases h
    obtain ⟨g, p, rfl, -⟩ := size
    refine iff_of_false nofun ?_
    rintro ⟨outer, above, ⟨k, ds, rfl, -⟩, -⟩
    cases above

/-- Outside of SELECT a call of SIZE over a bound path is left exactly where it stands below a
call of SIZE over something else. -/
theorem transform_leaves_iff (other : clause ≠ .select) (h : w.transform clause e = .ok c) :
    ∀ s, SizesBound s →
      (Occurs s c ↔ ∃ outer, Occurs outer e ∧ SizesOther outer ∧ Occurs s outer) := by
  rw [transform, if_neg other] at h
  exact fun s size => occurs_expand_iff size h

/-- One call of SIZE is expanded, and one below another call of SIZE is left. -/
theorem transform_leaves_partners :
    let w : SizeExpansion := ⟨.ofDocuments, Query.ofDocuments.forest, Query.ofDocuments.scope⟩
    let size : Expression := .call "SIZE" [.path (.bound "d.partners" 0 (some "partners"))]
    let outer : Expression := .call "size" [.call "ABS" [size]]
    let counted : Expression :=
      .subquery (.call "COUNT" [.ofPathText "d_partners"]) "Document" "d_base"
        [("d_base.partners", "d_partners")]
        [(.ofPathText "d_base.id", .path (.bound "d.id" 0 (some "id")))]
    Clause.orderBy ≠ .select ∧
      w.transform .orderBy (.call "MOD" [size, outer]) = .ok (.call "MOD" [counted, outer]) ∧
      SizesBound size ∧ SizesOther outer ∧ Occurs size (.call "MOD" [counted, outer]) := by
  intro w size outer counted
  have h : w.transform .orderBy (.call "MOD" [size, outer]) =
      .ok (.call "MOD" [counted, outer]) := rfl
  have bound : SizesBound size := ⟨_, _, rfl, rfl, rfl⟩
  have unbound : ¬ SizesBound outer := by
    rintro ⟨f, p, same, -⟩
    simp [outer] at same
  have other : SizesOther outer := ⟨_, _, rfl, rfl, unbound⟩
  have inner : Occurs size outer :=
    .argument List.mem_cons_self (.argument List.mem_cons_self .here)
  have above : Occurs outer (.call "MOD" [size, outer]) := .argument (by simp) .here
  have outside : Clause.orderBy ≠ .select := by decide
  exact ⟨outside, h, bound, other,
    (transform_leaves_iff outside h size bound).mpr ⟨outer, above, other, inner⟩⟩

/-- SIZE of a collection stays in the order of a query where it stands in another SIZE. -/
theorem transform_leaves_nested :
    let w : SizeExpansion := ⟨.ofDocuments, Query.ofDocuments.forest, Query.ofDocuments.scope⟩
    let size : Expression := .call "SIZE" [.path (.bound "d.partners" 0 (some "partners"))]
    let outer : Expression := .call "SIZE" [.call "COALESCE" [size, .literal (.int 0)]]
    w.transform .orderBy outer = .ok outer ∧ SizesBound size ∧ Occurs size outer :=
  ⟨rfl, ⟨_, _, rfl, rfl, rfl⟩, .argument List.mem_cons_self (.argument List.mem_cons_self .here)⟩

/-! What is replaced. -/

/-- `w.CountsElements p s`: the subquery `s` selects the COUNT of what it joins, from the entity of
the node that `p` is bound to. It joins the collection that `p` reads and nothing else, and its only
condition is that its entity has the id of that node. -/
inductive CountsElements (w : SizeExpansion) (p : Path) : Expression → Prop
  | of_collection {i : Nat} {owner : ForestNode} {entity : Entity} {collection : String}
      {a : Attribute} (bound : p.node = some i) (reads : p.field = some collection)
      (found : w.forest.nodes[i]? = some owner)
      (known : w.schema.entity? owner.entity = some entity)
      (holds : entity.attribute? collection = some a) (plural : a.collection?.isSome = true)
      (base joined : String) :
    CountsElements w p
      (.subquery (.call "COUNT" [.ofPathText joined]) owner.entity base
        [(s!"{base}.{collection}", joined)]
        [(.ofPathText s!"{base}.{entity.id}",
          .path (.bound s!"{owner.label}.{entity.id}" i (some entity.id)))])

/-- The second expression is the first with subqueries that count in the place of some calls of
SIZE over a bound path. -/
inductive Recounts (w : SizeExpansion) : Expression → Expression → Prop
  | same (e : Expression) : Recounts w e e
  | counted {f : String} {p : Path} {s : Expression} (size : Text.sameLetters f "SIZE" = true)
      (h : w.CountsElements p s) : Recounts w (.call f [.path p]) s
  | call {f : String} {as bs : List Expression} (h : List.Forall₂ (Recounts w) as bs) :
    Recounts w (.call f as) (.call f bs)

theorem countsElements_of_size (named : w.schema.Named) {p : Path} {i : Nat}
    (bound : p.node = some i) (h : w.size p i = .ok c) : w.CountsElements p c := by
  obtain ⟨owner, entity, collection, a, howner, hfield, hentity, ha, plural, rfl⟩ :=
    size_ok_iff.mp h
  obtain ⟨found, known, holds⟩ := Schema.attributeOf_eq_ok_iff.mp ha
  have same : found = entity := by
    rw [Schema.entity_eq_ok_iff, known] at hentity
    exact Option.some.inj hentity
  subst same
  have counts := CountsElements.of_collection bound hfield (JoinForest.node_ok_iff.mp howner)
    known holds plural (w.scope.generate s!"{owner.label}_base")
    (w.scope.generate s!"{owner.label}_{collection}")
  rwa [← named owner.entity found known] at counts

theorem recounts_of_expand (named : w.schema.Named) (h : w.expand e = .ok c) :
    w.Recounts e c := by
  induction e using Expression.byParts generalizing c with
  | call f as ih =>
    rcases expand_call_ok h with ⟨p, i, rfl, size, hi, counted⟩ | ⟨-, rfl⟩ | ⟨-, bs, hbs, rfl⟩
    · exact .counted size (countsElements_of_size named hi counted)
    · exact .same _
    · exact .call (Outcome.forall₂_of_mapM_ok hbs fun a ha b hab => ih a ha hab)
  | _ =>
    cases h
    exact .same _

/-- A second expansion leaves all as it is. -/
theorem expand_expand (h : w.expand e = .ok c) : w.expand c = .ok c := by
  induction e using Expression.byParts generalizing c with
  | call f as ih =>
    rcases expand_call_ok h with ⟨p, i, rfl, -, -, counted⟩ | ⟨-, rfl⟩ | ⟨plain, bs, hbs, rfl⟩
    · exact expand_counted counted
    · exact h
    · have again : ∀ b ∈ bs, w.expand b = .ok b := by
        intro b hb
        obtain ⟨a, ha, hab⟩ := Outcome.mem_of_mapM_ok hbs hb
        exact ih a ha hab
      rw [expand_plain plain, Outcome.mapM_ok_iff.mpr (List.forall₂_same.mpr again)]
      rfl
  | _ =>
    cases h
    rfl

/-- Transforming once is as good as twice, and changes nothing but calls of SIZE over bound paths,
which become subqueries that count. -/
theorem transform_idempotent {entities : List Entity}
    (made : Schema.ofEntities entities = .ok w.schema) (h : w.transform clause e = .ok c) :
    w.transform clause c = .ok c ∧ w.Recounts e c := by
  rw [transform] at h ⊢
  split at h
  · rename_i select
    cases h
    exact ⟨if_pos select, .same e⟩
  · rename_i other
    rw [if_neg other]
    exact ⟨expand_expand h, recounts_of_expand (Schema.named_ofEntities made) h⟩

/-- Two collections of a document are counted, one of them below another call. -/
theorem transform_idempotent_contacts :
    let w : SizeExpansion := ⟨.ofDocuments, Query.ofDocuments.forest, Query.ofDocuments.scope⟩
    let size (collection : String) : Expression :=
      .call "SIZE" [.path (.bound s!"d.{collection}" 0 (some collection))]
    let counted (collection : String) : Expression :=
      .subquery (.call "COUNT" [.ofPathText s!"d_{collection}"]) "Document" "d_base"
        [(s!"d_base.{collection}", s!"d_{collection}")]
        [(.ofPathText "d_base.id", .path (.bound "d.id" 0 (some "id")))]
    let e : Expression := .call "MOD" [size "partners", .call "ABS" [size "contacts"]]
    let c : Expression := .call "MOD" [counted "partners", .call "ABS" [counted "contacts"]]
    Schema.ofEntities Schema.ofDocuments.entities.values = .ok w.schema ∧
      w.transform .having e = .ok c ∧ w.transform .having c = .ok c ∧ w.Recounts e c := by
  intro w size counted e c
  have made : Schema.ofEntities Schema.ofDocuments.entities.values = .ok w.schema := by decide
  have h : w.transform .having e = .ok c := rfl
  exact ⟨made, h, transform_idempotent made h⟩

end SizeExpansion
end EntityQuery
