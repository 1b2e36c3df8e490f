/-! Entries by name, kept in the order of their names. A search stops at the first name
that is not smaller than the one sought, and an entry is put where its search stops. -/
namespace EntityQuery

abbrev Catalog (α : Type) := List (String × α)

namespace Catalog
variable {α : Type}

def find? (name : String) : Catalog α → Option α
  | [] => none
  | (k, a) :: rest => if k < name then find? name rest else if k = name then some a else none

def contains (c : Catalog α) (name : String) : Bool := (find? name c).isSome

/-- Puts `a` under `name`, in place of an entry that is there. -/
def insert (name : String) (a : α) : Catalog α → Catalog α
  | [] => [(name, a)]
  | (k, b) :: rest =>
    if k < name then (k, b) :: insert name a rest
    else if k = name then (name, a) :: rest
    else (name, a) :: (k, b) :: rest

def names (c : Catalog α) : List String := c.map Prod.fst

def values (c : Catalog α) : List α := c.map Prod.snd

/-- Of two entries of one name the later counts. -/
def ofList (entries : List (String × α)) : Catalog α :=
  entries.foldl (fun c (k, a) => insert k a c) []

/-- A set of names in their order. -/
def sortedNames (ns : List String) : List String := names (ofList (ns.map fun n => (n, ())))

@[simp] theorem find?_insert_self (name : String) (a : α) (c : Catalog α) :
    find? name (insert name a c) = some a := by
  induction c with
  | nil => simp [insert, find?]
  | cons e rest ih =>
    obtain ⟨k, b⟩ := e
    by_cases hlt : k < name
    · simp [insert, find?, hlt, ih]
    · by_cases heq : k = name
      · simp [insert, find?, heq]
      · simp [insert, find?, hlt, heq]

theorem find?_insert_of_ne {name other : String} (a : α) (c : Catalog α) (h : other ≠ name) :
    find? other (insert name a c) = find? other c := by
  induction c with
  | nil =>
    by_cases hlt : name < other
    · simp [insert, find?, hlt]
    · simp [insert, find?, hlt, Ne.symm h]
  | cons e rest ih =>
    obtain ⟨k, b⟩ := e
    by_cases hk : k < name
    · simp [insert, hk, find?, ih]
    · by_cases heq : k = name
      · subst heq
        by_cases hlt : k < other
        · simp [insert, find?, hlt]
        · simp [insert, find?, hlt, Ne.symm h]
      · have hnk : name < k := String.not_le.mp fun hle =>
          heq (String.le_antisymm hle (String.not_lt.mp hk))
        by_cases hlt : name < other
        · by_cases hk' : k < other
          · simp [insert, hk, heq, find?, hlt, hk']
          · simp [insert, hk, heq, find?, hlt, hk']
        · have hk' : ¬ k < other := fun hko => hlt (String.lt_trans hnk hko)
          have hne : k ≠ other := fun hko => hlt (hko ▸ hnk)
          simp [insert, hk, heq, find?, hlt, hk', hne, Ne.symm h]

/-- Of two entries put under one name the second is left. -/
theorem insert_insert (name : String) (a b : α) (c : Catalog α) :
    insert name b (insert name a c) = insert name b c := by
  induction c with
  | nil => simp [insert]
  | cons e rest ih =>
    obtain ⟨k, d⟩ := e
    by_cases hlt : k < name
    · simp [insert, hlt, ih]
    · by_cases heq : k = name
      · simp [insert, heq]
      · simp [insert, hlt, heq]

theorem insert_of_find? {name : String} {a : α} {c : Catalog α} (h : find? name c = some a) :
    insert name a c = c := by
  induction c with
  | nil => cases h
  | cons e rest ih =>
    obtain ⟨k, b⟩ := e
    by_cases hlt : k < name
    · rw [find?, if_pos hlt] at h
      rw [insert, if_pos hlt, ih h]
    · by_cases heq : k = name
      · subst heq
        rw [find?, if_neg hlt, if_pos rfl] at h
        cases h
        rw [insert, if_neg hlt, if_pos rfl]
      · rw [find?, if_neg hlt, if_neg heq] at h
        cases h

/-- What is found is what was put or what was there. -/
theorem eq_or_of_find?_insert {name other : String} {a b : α} {c : Catalog α}
    (h : find? other (insert name a c) = some b) :
    other = name ∧ b = a ∨ find? other c = some b := by
  by_cases same : other = name
  · subst same
    rw [find?_insert_self] at h
    exact Or.inl ⟨rfl, (Option.some.inj h).symm⟩
  · rw [find?_insert_of_ne a c same] at h
    exact Or.inr h

end Catalog

end EntityQuery
