import EntityQuery.Expression.Text
import Mathlib.Data.List.TakeWhile

/-!
# Dotted paths and their parts

The segments of a path, and its head and rest, put together again with dots are the path. An
identifier is a path of one segment, without a rest.
-/

namespace EntityQuery

namespace Text

theorem intercalate_segments (s : String) : String.intercalate "." (segments s) = s := by
  rw [← String.toList_inj, String.toList_intercalate, segments, List.map_map]
  have same : String.toList ∘ String.ofList = id := funext fun _ => String.toList_ofList
  rw [same, List.map_id]
  exact List.intercalate_splitOn '.'

theorem segments_ne_nil (s : String) : segments s ≠ [] := by
  rw [segments, Ne, List.map_eq_nil_iff]
  exact List.splitOnP_ne_nil _ _

/-- The parts of two texts with a dot between them are the parts of the one and of the other. -/
theorem segments_append (s t : String) : segments (s ++ "." ++ t) = segments s ++ segments t := by
  simp [segments, List.splitOnP_append_cons]

theorem head_of_headAndRest_none {s head : String} (h : headAndRest s = (head, none)) :
    head = s := by
  have joined := List.takeWhile_append_dropWhile (p := (· != '.')) (l := s.toList)
  rw [headAndRest] at h
  split at h
  · rename_i hdrop
    rw [hdrop, List.append_nil] at joined
    obtain ⟨rfl, -⟩ := Prod.mk.inj h
    rw [joined, String.ofList_toList]
  · cases h

theorem join_of_headAndRest_some {s head rest : String} (h : headAndRest s = (head, some rest)) :
    s = head ++ "." ++ rest := by
  have joined := List.takeWhile_append_dropWhile (p := (· != '.')) (l := s.toList)
  rw [headAndRest] at h
  split at h
  · cases h
  · rename_i c cs hdrop
    obtain ⟨rfl, hrest⟩ := Prod.mk.inj h
    obtain rfl := Option.some.inj hrest
    have hdot : c = '.' := by
      have hne : s.toList.dropWhile (· != '.') ≠ [] := by simp [hdrop]
      have := List.head_dropWhile_not (· != '.') hne
      simpa [hdrop] using this
    rw [hdrop, hdot] at joined
    rw [← String.toList_inj]
    simpa using joined.symm

/-! Identifiers have no dots. -/

theorem ne_dot_of_isNamePart {c : Char} (h : isNamePart c = true) : c ≠ '.' := by
  rintro rfl
  revert h
  decide

theorem isNamePart_of_isIdentifier {s : String} (h : isIdentifier s = true) :
    ∀ c ∈ s.toList, isNamePart c = true := by
  intro c hc
  rw [isIdentifier] at h
  split at h
  · cases h
  · rename_i d cs hs
    obtain ⟨hd, hcs⟩ := Bool.and_eq_true_iff.mp h
    rw [hs] at hc
    rcases List.mem_cons.mp hc with rfl | hc
    · simp [isNamePart, hd]
    · exact List.all_eq_true.mp hcs c hc

theorem ne_dot_of_isIdentifier {s : String} (h : isIdentifier s = true) :
    ∀ c ∈ s.toList, c ≠ '.' :=
  fun c hc => ne_dot_of_isNamePart (isNamePart_of_isIdentifier h c hc)

theorem checkIdentifier_ok_iff {s : String} :
    checkIdentifier s = .ok () ↔ isIdentifier s = true := by
  rw [checkIdentifier]
  by_cases hempty : s = ""
  · subst hempty
    simp [isIdentifier]
  · simp [hempty]

theorem checkSegments_ok_iff (path : String) {segs : List String} :
    checkSegments path segs = .ok () ↔ ∀ s ∈ segs, isIdentifier s = true := by
  induction segs with
  | nil => simp [checkSegments]
  | cons s rest ih =>
    rw [checkSegments, List.forall_mem_cons, ← ih, ← checkIdentifier_ok_iff]
    by_cases hempty : s = ""
    · simp [hempty, checkIdentifier]
    · rw [if_neg hempty]
      cases checkIdentifier s <;> simp [bind, Except.bind]

/-- A path is a text whose segments are identifiers. -/
theorem checkPath_ok_iff {s : String} :
    checkPath s = .ok () ↔ ∀ seg ∈ segments s, isIdentifier seg = true := by
  rw [checkPath, ← checkSegments_ok_iff s]
  by_cases hempty : s = ""
  · subst hempty
    simp [segments, checkSegments]
  · rw [if_neg hempty]

/-- Two texts with a dot between them are a path exactly if both are paths. -/
theorem checkPath_append_iff {s t : String} :
    checkPath (s ++ "." ++ t) = .ok () ↔ checkPath s = .ok () ∧ checkPath t = .ok () := by
  simp only [checkPath_ok_iff, segments_append, List.forall_mem_append]

theorem mem_of_mem_intercalate {α : Type} {sep : List α} {xs : List (List α)} {a : α}
    (h : a ∈ sep.intercalate xs) : a ∈ sep ∨ ∃ x ∈ xs, a ∈ x := by
  induction xs with
  | nil => simp [List.intercalate] at h
  | cons x rest ih =>
    cases rest with
    | nil => exact Or.inr ⟨x, by simp, by simpa [List.intercalate] using h⟩
    | cons y rest =>
      rw [List.intercalate_cons_of_ne_nil (by simp)] at h
      rcases List.mem_append.mp h with h | h
      · rcases List.mem_append.mp h with h | h
        · exact Or.inr ⟨x, by simp, h⟩
        · exact Or.inl h
      · rcases ih h with h | ⟨z, hz, ha⟩
        · exact Or.inl h
        · exact Or.inr ⟨z, List.mem_cons_of_mem x hz, ha⟩

/-- A path holds the characters of names and dots. -/
theorem mem_of_checkPath {s : String} (h : checkPath s = .ok ()) :
    ∀ c ∈ s.toList, c = '.' ∨ isNamePart c = true := by
  intro c hc
  rw [← intercalate_segments s, String.toList_intercalate] at hc
  rcases mem_of_mem_intercalate hc with dot | ⟨cs, hcs, hc⟩
  · exact Or.inl (by simpa using dot)
  · obtain ⟨seg, hseg, rfl⟩ := List.mem_map.mp hcs
    exact Or.inr (isNamePart_of_isIdentifier (checkPath_ok_iff.mp h seg hseg) c hc)

theorem ne_empty_of_checkPath {s : String} (h : checkPath s = .ok ()) : s ≠ "" := by
  rintro rfl
  cases h

theorem ne_dot_of_headAndRest {s head : String} {rest : Option String}
    (h : headAndRest s = (head, rest)) : ∀ c ∈ head.toList, c ≠ '.' := by
  have cut : head = String.ofList (s.toList.takeWhile (· != '.')) := by
    rw [headAndRest] at h
    split at h
    · exact (Prod.mk.inj h).1.symm
    · exact (Prod.mk.inj h).1.symm
  intro c hc
  rw [cut, String.toList_ofList] at hc
  simpa using List.mem_takeWhile_imp hc

section Dotless
variable {s : String} (h : ∀ c ∈ s.toList, c ≠ '.')
include h

theorem segments_of_ne_dot : segments s = [s] := by
  have none : ∀ c ∈ s.toList, (c == '.') = false := fun c hc => by simpa using h c hc
  rw [segments, List.splitOnP_eq_singleton none, List.map_singleton, String.ofList_toList]

theorem segments_dot (rest : String) : segments (s ++ "." ++ rest) = s :: segments rest := by
  have none : ∀ c ∈ s.toList, (c == '.') = false := fun c hc => by simpa using h c hc
  have cut := List.splitOnP_append_cons_of_forall_mem none '.' rfl rest.toList
  simp [segments, cut]

theorem headAndRest_of_ne_dot : headAndRest s = (s, none) := by
  have all : ∀ c ∈ s.toList, (c != '.') = true := fun c hc => by simpa using h c hc
  have hdrop : s.toList.dropWhile (· != '.') = [] := List.dropWhile_eq_nil_iff.mpr all
  have htake : s.toList.takeWhile (· != '.') = s.toList := List.takeWhile_eq_self_iff.mpr all
  simp [headAndRest, hdrop, htake]

theorem headAndRest_dot (rest : String) : headAndRest (s ++ "." ++ rest) = (s, some rest) := by
  have all : ∀ c ∈ s.toList, (c != '.') = true := fun c hc => by simpa using h c hc
  simp [headAndRest, List.takeWhile_append_of_pos all, List.dropWhile_append_of_pos all]

end Dotless

section Identifier
variable {s : String} (h : isIdentifier s = true)
include h

theorem segments_of_isIdentifier : segments s = [s] :=
  segments_of_ne_dot (ne_dot_of_isIdentifier h)

theorem headAndRest_of_isIdentifier : headAndRest s = (s, none) :=
  headAndRest_of_ne_dot (ne_dot_of_isIdentifier h)

theorem checkPath_of_isIdentifier : checkPath s = .ok () := by
  rw [checkPath_ok_iff, segments_of_isIdentifier h]
  simpa using h

end Identifier

/-- A path without a dot is an identifier. -/
theorem isIdentifier_iff_ne_dot {s : String} (path : checkPath s = .ok ()) :
    isIdentifier s = true ↔ '.' ∉ s.toList := by
  constructor
  · exact fun identifier dot => ne_dot_of_isIdentifier identifier '.' dot rfl
  · intro dotless
    have whole : segments s = [s] := segments_of_ne_dot fun c hc same => dotless (same ▸ hc)
    exact checkPath_ok_iff.mp path s (by rw [whole]; exact List.mem_singleton_self s)

/-- A path with a rest is an identifier, a dot and a path. -/
theorem path_with_rest_iff {path head rest : String} :
    checkPath path = .ok () ∧ headAndRest path = (head, some rest) ↔
      path = head ++ "." ++ rest ∧ isIdentifier head = true ∧ checkPath rest = .ok () := by
  constructor
  · rintro ⟨hpath, hsplit⟩
    have dotless := ne_dot_of_headAndRest hsplit
    obtain rfl := join_of_headAndRest_some hsplit
    rw [checkPath_ok_iff, segments_dot dotless, List.forall_mem_cons] at hpath
    exact ⟨rfl, hpath.1, checkPath_ok_iff.mpr hpath.2⟩
  · rintro ⟨rfl, hhead, hrest⟩
    have dotless := ne_dot_of_isIdentifier hhead
    refine ⟨?_, headAndRest_dot dotless rest⟩
    rw [checkPath_ok_iff, segments_dot dotless, List.forall_mem_cons]
    exact ⟨hhead, checkPath_ok_iff.mp hrest⟩

/-- A path without a rest is an identifier. -/
theorem path_without_rest_iff {path head : String} :
    checkPath path = .ok () ∧ headAndRest path = (head, none) ↔
      path = head ∧ isIdentifier head = true := by
  constructor
  · rintro ⟨hpath, hsplit⟩
    have dotless := ne_dot_of_headAndRest hsplit
    obtain rfl := head_of_headAndRest_none hsplit
    rw [checkPath_ok_iff, segments_of_ne_dot dotless] at hpath
    exact ⟨rfl, hpath head List.mem_cons_self⟩
  · rintro ⟨rfl, hhead⟩
    exact ⟨checkPath_of_isIdentifier hhead, headAndRest_of_isIdentifier hhead⟩

end Text

namespace Path

@[simp] theorem text_ofText (s : String) : (ofText s).text = s := Text.intercalate_segments s

@[simp] theorem text_bound (s : String) (node : Nat) (field : Option String) :
    (bound s node field).text = s :=
  Text.intercalate_segments s

end Path
end EntityQuery
