import EntityQuery.AliasScope
import Mathlib.Data.List.Basic

/-!
# Aliases and what they lead to

A new alias changes what no other alias names. A select alias of a path leads on to what the
path names: to a path of a node, or to an alias of something computed. Where every alias of a
path leads to an end in fewer steps than there are aliases, each path is resolved.
-/

namespace EntityQuery

theorem Catalog.length_insert {α : Type} {name : String} {c : Catalog α}
    (h : c.find? name = none) (a : α) : (c.insert name a).length = c.length + 1 := by
  induction c with
  | nil => rfl
  | cons entry rest ih =>
    obtain ⟨k, b⟩ := entry
    rw [find?] at h
    by_cases hlt : k < name
    · simp [insert, hlt, ih (by simpa [hlt] using h)]
    · have hne : k ≠ name := by
        rintro rfl
        simp at h
      simp [insert, hlt, hne]

namespace AliasScope
variable {s : AliasScope} {label : String}

/-- The scope with one more alias. -/
def put (s : AliasScope) (label : String) (target : AliasTarget) : AliasScope :=
  { s with own := s.own.insert label target }

theorem find?_empty (label : String) : empty.find? label = none := rfl

theorem register_ok_iff {target : AliasTarget} {r : AliasScope} :
    s.register label target = .ok r ↔ s.find? label = none ∧ r = s.put label target := by
  rw [register, isAvailable]
  cases h : s.find? label with
  | none => simp [put, eq_comm]
  | some t => simp

theorem find?_put_self (target : AliasTarget) :
    (s.put label target).find? label = some target := by
  simp [put, find?, levels]

theorem find?_put_of_ne (target : AliasTarget) {other : String} (h : other ≠ label) :
    (s.put label target).find? other = s.find? other := by
  simp [put, find?, levels, List.findSome?_cons, Catalog.find?_insert_of_ne target s.own h]

/-- An alias that is known stays what it is. -/
theorem find?_put_of_find? (free : s.find? label = none) (target : AliasTarget) {other : String}
    {t : AliasTarget} (h : s.find? other = some t) : (s.put label target).find? other = some t := by
  have hne : other ≠ label := by
    rintro rfl
    rw [free] at h
    cases h
  rw [find?_put_of_ne target hne, h]

theorem size_put (free : s.find? label = none) (target : AliasTarget) :
    (s.put label target).size = s.size + 1 := by
  have hown : s.own.find? label = none := by
    rw [find?, levels, List.findSome?_cons] at free
    split at free
    · cases free
    · assumption
  simp [put, size, levels, Catalog.length_insert hown target]
  omega

/-! Steps from one alias to the next. -/

/-- `Leads s n p r`: after `n` aliases `p` leads to `r`, which is bound or names something
computed. -/
inductive Leads (s : AliasScope) : Nat → Path → Path → Prop
  | bound {p : Path} (h : p.node.isSome = true) : Leads s 0 p p
  | computed {p : Path} {e : Expression} (free : p.node = none)
      (h : s.find? p.text = some (.item e)) (other : ∀ q, e ≠ .path q) : Leads s 0 p p
  | next {n : Nat} {p q r : Path} (free : p.node = none)
      (h : s.find? p.text = some (.item (.path q))) (rest : Leads s n q r) : Leads s (n + 1) p r

theorem Leads.mono {t : AliasScope} (keeps : ∀ l a, s.find? l = some a → t.find? l = some a)
    {n : Nat} {p r : Path} (h : Leads s n p r) : Leads t n p r := by
  induction h with
  | bound h => exact .bound h
  | computed free h other => exact .computed free (keeps _ _ h) other
  | next free h _ ih => exact .next free (keeps _ _ h) ih

theorem Leads.eq_of_bound {k : Nat} {p x : Path} {i : Nat} (h : s.Leads k p x)
    (bound : p.node = some i) : x = p := by
  cases h with
  | bound => rfl
  | computed free => rfl
  | next free =>
    rw [bound] at free
    cases free

/-- A way from alias to alias that comes to a bound path comes to what an alias stands for. -/
theorem Leads.exists_alias {k : Nat} {p x : Path} {i : Nat} (h : s.Leads k p x)
    (free : p.node = none) (bound : x.node = some i) :
    ∃ label, s.find? label = some (.item (.path x)) := by
  induction h with
  | bound there =>
    rw [free] at there
    cases there
  | computed =>
    rw [free] at bound
    cases bound
  | @next _ p q _ _ named rest ih =>
    cases hq : q.node with
    | none => exact ih hq bound
    | some j =>
      obtain rfl := rest.eq_of_bound hq
      exact ⟨p.text, named⟩

/-- An alias leads to an end in one step more than what it stands for. -/
theorem exists_leads {p : Path} {e : Expression} (free : p.node = none)
    (named : s.find? p.text = some (.item e)) {steps : Nat}
    (onward : ∀ q, e = .path q → ∃ n r, n < steps ∧ s.Leads n q r) :
    ∃ n r, n ≤ steps ∧ s.Leads n p r := by
  cases e with
  | path q =>
    obtain ⟨n, r, less, leads⟩ := onward q rfl
    exact ⟨n + 1, r, less, .next free named leads⟩
  | _ => exact ⟨0, p, Nat.zero_le _, .computed free named nofun⟩

/-- No alias on the way names itself. -/
theorem Leads.text_ne {n : Nat} {p q r : Path} (h : Leads s n p r) (free : p.node = none)
    (hq : s.find? p.text = some (.item (.path q))) (hfree : q.node = none) : q.text ≠ p.text := by
  induction h generalizing q with
  | bound h => simp [free] at h
  | computed _ h other =>
    rw [h] at hq
    cases hq
    exact absurd rfl (other q)
  | next _ h _ ih =>
    rw [h] at hq
    cases hq
    intro same
    exact ih hfree (same ▸ h) hfree rfl

theorem pathOf?_eq_some_iff {p : Path} :
    s.pathOf? label = some p ↔ s.find? label = some (.item (.path p)) := by
  rw [pathOf?]
  split <;> simp_all

theorem follow_bound {p : Path} {i : Nat} (h : p.node = some i) (fuel : Nat) :
    s.follow (fuel + 1) p = some p := by
  simp [follow, h]

theorem follow_of_leads {n : Nat} {p r : Path} (h : Leads s n p r) {fuel : Nat}
    (enough : n < fuel) : s.follow fuel p = some r := by
  induction h generalizing fuel with
  | bound h =>
    obtain ⟨fuel, rfl⟩ := Nat.exists_eq_add_one_of_ne_zero (Nat.ne_of_gt enough)
    obtain ⟨i, hi⟩ := Option.isSome_iff_exists.mp h
    exact follow_bound hi fuel
  | @computed p e free h other =>
    obtain ⟨fuel, rfl⟩ := Nat.exists_eq_add_one_of_ne_zero (Nat.ne_of_gt enough)
    have hnone : s.pathOf? p.text = none := by
      rw [Option.eq_none_iff_forall_ne_some]
      intro q hq
      rw [pathOf?_eq_some_iff, h] at hq
      cases hq
      exact other q rfl
    simp [follow, free, hnone]
  | @next n p q r free h rest ih =>
    obtain ⟨fuel, rfl⟩ := Nat.exists_eq_add_one_of_ne_zero (Nat.ne_of_gt (by omega : 0 < fuel))
    have onward : (q.node.isSome || q.text != p.text) = true := by
      cases hq : q.node with
      | some i => rfl
      | none => simpa using (Leads.next free h rest).text_ne free h hq
    rw [follow, free, pathOf?_eq_some_iff.mpr h]
    simp only [onward, if_true]
    exact ih (by omega)

theorem resolve_of_leads {n : Nat} {p r : Path} (h : Leads s n p r) (enough : n ≤ s.size) :
    s.resolve p = .ok r := by
  rw [resolve, follow_of_leads h (Nat.lt_succ_of_le enough)]

theorem size_pos {target : AliasTarget} (h : s.find? label = some target) : 0 < s.size := by
  obtain ⟨level, hlevel, hfind⟩ := List.exists_of_findSome?_eq_some h
  obtain ⟨entry, hentry⟩ : ∃ entry, entry ∈ level := by
    cases level with
    | nil => cases hfind
    | cons entry rest => exact ⟨entry, List.mem_cons_self⟩
  exact List.length_pos_of_mem (List.mem_flatten_of_mem hlevel hentry)

/-- Every alias of a path leads to an end in fewer than `steps` steps. -/
def Grounded (s : AliasScope) (steps : Nat) : Prop :=
  ∀ label p, s.find? label = some (.item (.path p)) → ∃ n r, n < steps ∧ s.Leads n p r

theorem Grounded.mono {steps more : Nat} (h : s.Grounded steps) (le : steps ≤ more) :
    s.Grounded more := by
  intro label p hp
  obtain ⟨n, r, hn, hleads⟩ := h label p hp
  exact ⟨n, r, by omega, hleads⟩

theorem Grounded.put_join {steps : Nat} (h : s.Grounded steps) (free : s.find? label = none)
    (node : Nat) : (s.put label (.join node)).Grounded steps := by
  intro other p hp
  have hne : other ≠ label := by
    rintro rfl
    rw [find?_put_self] at hp
    cases hp
  rw [find?_put_of_ne _ hne] at hp
  obtain ⟨n, r, hn, hleads⟩ := h other p hp
  exact ⟨n, r, hn, hleads.mono fun _ _ => find?_put_of_find? free _⟩

/-- A new alias of a path takes one step more than the alias that the path names. -/
theorem Grounded.put_item {steps : Nat} (h : s.Grounded steps) (free : s.find? label = none)
    {e : Expression}
    (known : ∀ p, e = .path p → p.node = none → ∃ a, s.find? p.text = some (.item a)) :
    (s.put label (.item e)).Grounded (steps + 1) := by
  intro other p hp
  have keeps : ∀ l a, s.find? l = some a → (s.put label (.item e)).find? l = some a :=
    fun _ _ => find?_put_of_find? free _
  by_cases hne : other = label
  · subst hne
    rw [find?_put_self] at hp
    cases hp
    cases hnode : p.node with
    | some i => exact ⟨0, p, by omega, .bound (by simp [hnode])⟩
    | none =>
      obtain ⟨a, ha⟩ := known p rfl hnode
      have onward : ∀ q, a = .path q →
          ∃ n r, n < steps ∧ (s.put other (.item (.path p))).Leads n q r := by
        rintro q rfl
        obtain ⟨n, r, hn, leads⟩ := h _ q ha
        exact ⟨n, r, hn, leads.mono keeps⟩
      obtain ⟨n, r, hn, leads⟩ := exists_leads hnode (keeps _ _ ha) onward
      exact ⟨n, r, by omega, leads⟩
  · rw [find?_put_of_ne _ hne] at hp
    obtain ⟨n, r, hn, hleads⟩ := h other p hp
    exact ⟨n, r, by omega, hleads.mono keeps⟩

/-- A path stays, or it names an alias of a path, and this one's end is what it becomes. -/
theorem resolve_cases {steps : Nat} (h : s.Grounded steps) (enough : steps ≤ s.size) (p : Path) :
    s.resolve p = .ok p ∨
    ∃ q n r, p.node = none ∧ s.find? p.text = some (.item (.path q)) ∧ s.Leads n q r ∧
      s.resolve p = .ok r := by
  cases hnode : p.node with
  | some i => exact Or.inl (by rw [resolve, follow_bound hnode])
  | none =>
    cases hq : s.pathOf? p.text with
    | none => exact Or.inl (by simp [resolve, follow, hnode, hq])
    | some q =>
      have hfind := pathOf?_eq_some_iff.mp hq
      obtain ⟨n, r, hn, hleads⟩ := h _ q hfind
      have onward := resolve_of_leads (.next hnode hfind hleads) (by omega)
      exact Or.inr ⟨q, n, r, rfl, hfind, hleads, onward⟩

end AliasScope
end EntityQuery
