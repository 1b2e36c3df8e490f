import EntityQuery.Proofs.Text.Occurrence
import Mathlib.Data.Nat.Bitwise
import Mathlib.Data.String.Basic

/-!
# Words in the bytes of a text

A text can be searched for a word byte by byte. A word of ASCII characters is found at boundaries of
characters only, since no byte inside a longer character is ASCII, and so it stands at a byte just
where it stands in the text. The search by bytes then finds what the search by characters finds.
-/

namespace EntityQuery.Text

/-- The bytes of UTF-8. -/
def bytes (s : String) : List UInt8 := s.toByteArray.data.toList

/-- The small letter of an ASCII capital. -/
def lowerByte (b : UInt8) : UInt8 := if 65 ≤ b ∧ b ≤ 90 then b + 32 else b

/-- Is the word at this byte of the text, up to the case of ASCII letters? -/
def standsAt (word text : String) (i : Nat) : Bool :=
  (((bytes text).drop i).take (bytes word).length).map lowerByte == (bytes word).map lowerByte

/-- The first byte of the text at which the word is. -/
def byteOffset? (text word : String) : Option Nat :=
  (List.range ((bytes text).length + 1 - (bytes word).length)).find? (standsAt word text)

/-- The part of a text between two bytes, which have to be boundaries of characters. -/
def slice? (s : String) (start stop : Nat) : Option String :=
  if start ≤ stop ∧ (⟨start⟩ : String.Pos.Raw).IsValid s ∧ (⟨stop⟩ : String.Pos.Raw).IsValid s then
    some (String.Pos.Raw.extract s ⟨start⟩ ⟨stop⟩)
  else none

/-- The byte at which the first of these characters stands. -/
def firstAt? (p : Char → Bool) : List Char → Option Nat
  | [] => none
  | c :: cs => if p c then some 0 else (firstAt? p cs).map (c.utf8Size + ·)

/-- The byte at which the second character begins. -/
def secondAt? (s : String) : Option Nat :=
  match s.toList with
  | c :: _ :: _ => some c.utf8Size
  | _ => none

/-- What follows the first character, whatever its width. -/
def behindFirst? (s : String) : Option String :=
  match secondAt? s with
  | none => some ""
  | some i => slice? s i s.utf8ByteSize

/-- The characters of one byte. -/
def IsAscii (s : String) : Prop := ∀ c ∈ s.toList, c.val ≤ 127

instance (s : String) : Decidable (IsAscii s) :=
  List.decidableBAll (fun c : Char => c.val ≤ 127) s.toList

/-! Bytes. -/

theorem bytes_append (s t : String) : bytes (s ++ t) = bytes s ++ bytes t := by
  simp [bytes, ByteArray.data_append]

theorem length_bytes (s : String) : (bytes s).length = s.utf8ByteSize := by
  rw [bytes, Array.length_toList]
  rfl

theorem bytes_ofList (cs : List Char) :
    bytes (String.ofList cs) = cs.flatMap String.utf8EncodeChar := by
  rw [bytes, String.toByteArray_ofList, List.utf8Encode, List.data_toByteArray]

/-- The one byte of an ASCII character. -/
theorem utf8EncodeChar_of_ascii {c : Char} (h : c.val ≤ 127) :
    String.utf8EncodeChar c = [c.toUInt8] :=
  String.utf8EncodeChar_eq_singleton (Char.utf8Size_eq_one_iff.mpr h)

/-- Other characters begin with a byte that is not ASCII. -/
theorem utf8EncodeChar_of_not_ascii {c : Char} (h : ¬ c.val ≤ 127) :
    ∃ b bs, String.utf8EncodeChar c = b :: bs ∧ 128 ≤ b := by
  have large : 127 < c.val.toNat := by
    rwa [UInt32.le_iff_toNat_le, Nat.not_le] at h
  rw [String.utf8EncodeChar, if_neg (by omega)]
  have first : ∀ k m : Nat, 128 ≤ m → k + m < 256 → 128 ≤ UInt8.ofNat (k + m) := by
    intro k m above below
    rw [UInt8.le_iff_toNat_le, UInt8.toNat_ofNat']
    show 128 ≤ _
    omega
  split
  · exact ⟨_, _, rfl, first _ _ (by omega) (by omega)⟩
  split
  · exact ⟨_, _, rfl, first _ _ (by omega) (by omega)⟩
  · exact ⟨_, _, rfl, first _ _ (by omega) (by omega)⟩

theorem lowerByte_of_large {b : UInt8} (h : 128 ≤ b) : lowerByte b = b := by
  rw [lowerByte, if_neg]
  rw [UInt8.le_iff_toNat_le] at h
  simp only [UInt8.le_iff_toNat_le]
  change 128 ≤ b.toNat at h
  show ¬ (_ ∧ b.toNat ≤ 90)
  omega

/-- An ASCII character and its byte have the same small letter. -/
theorem lowerByte_of_ascii {c : Char} (h : c.val ≤ 127) :
    lowerByte c.toUInt8 = c.toLower.toUInt8 ∧ c.toLower.val ≤ 127 := by
  have small : c.val.toNat ≤ 127 := UInt32.le_iff_toNat_le.mp h
  have byte : c.toUInt8.toNat = c.val.toNat := by
    rw [Char.toUInt8, UInt32.toNat_toUInt8]
    omega
  have capital : (65 ≤ c.toUInt8 ∧ c.toUInt8 ≤ 90) ↔
      (c.val ≥ 'A'.val ∧ c.val ≤ 'Z'.val) := by
    simp only [UInt8.le_iff_toNat_le, ge_iff_le, UInt32.le_iff_toNat_le, byte]
    rfl
  by_cases letter : c.val ≥ 'A'.val ∧ c.val ≤ 'Z'.val
  · have lowered : c.toLower.val = c.val + ('a'.val - 'A'.val) := congrArg Char.val (dif_pos letter)
    have below : c.val.toNat ≤ 90 := UInt32.le_iff_toNat_le.mp letter.2
    have next : c.toLower.val.toNat = c.val.toNat + 32 := by
      rw [lowered, UInt32.toNat_add]
      exact Nat.mod_eq_of_lt (show c.val.toNat + 32 < 2 ^ 32 by omega)
    rw [lowerByte, if_pos (capital.mpr letter)]
    refine ⟨?_, ?_⟩
    · rw [← UInt8.toNat_inj, UInt8.toNat_add, byte, Char.toUInt8, UInt32.toNat_toUInt8, next]
      rfl
    · rw [UInt32.le_iff_toNat_le, next]
      show _ ≤ 127
      omega
  · have kept : c.toLower = c := dif_neg letter
    rw [lowerByte, if_neg (mt capital.mp letter), kept]
    exact ⟨rfl, h⟩

/-- ASCII characters with the same byte are the same. -/
theorem eq_of_byte_eq {c d : Char} (hc : c.val ≤ 127) (hd : d.val ≤ 127)
    (h : c.toUInt8 = d.toUInt8) : c = d := by
  rw [← UInt8.toNat_inj, Char.toUInt8, UInt32.toNat_toUInt8, Char.toUInt8,
    UInt32.toNat_toUInt8] at h
  rw [UInt32.le_iff_toNat_le] at hc hd
  change c.val.toNat ≤ 127 at hc
  change d.val.toNat ≤ 127 at hd
  rw [← Char.val_inj, ← UInt32.toNat_inj]
  omega

theorem toLower_of_not_ascii {c : Char} (h : ¬ c.val ≤ 127) : c.toLower = c :=
  dif_neg fun capital => h (UInt32.le_trans capital.2 (by decide))

theorem lowerByte_ne {b : UInt8} {c : Char} (large : 128 ≤ b) (hc : c.val ≤ 127) :
    lowerByte b ≠ lowerByte c.toUInt8 := by
  obtain ⟨letter, small⟩ := lowerByte_of_ascii hc
  rw [lowerByte_of_large large, letter]
  rintro rfl
  rw [UInt8.le_iff_toNat_le, Char.toUInt8, UInt32.toNat_toUInt8] at large
  rw [UInt32.le_iff_toNat_le] at small
  change 128 ≤ _ at large
  change _ ≤ 127 at small
  omega

/-- The bytes of a word of ASCII characters begin a text exactly if the word does. -/
theorem take_bytes_iff {word : List Char} (ascii : ∀ c ∈ word, c.val ≤ 127) (cs : List Char) :
    ((cs.flatMap String.utf8EncodeChar).take word.length).map lowerByte =
        (word.map fun c => c.toUInt8).map lowerByte ↔
      startsWithLetters word cs = true := by
  induction word generalizing cs with
  | nil => simp [startsWithLetters]
  | cons w ws ih =>
    obtain ⟨hw, hws⟩ := List.forall_mem_cons.mp ascii
    obtain ⟨letter, small⟩ := lowerByte_of_ascii hw
    cases cs with
    | nil => simp [startsWithLetters]
    | cons c cs =>
      rw [startsWithLetters, Bool.and_eq_true, ← ih hws, sameLetter, beq_iff_eq, List.flatMap_cons]
      by_cases hc : c.val ≤ 127
      · obtain ⟨other, below⟩ := lowerByte_of_ascii hc
        have first : w.toLower.toUInt8 = c.toLower.toUInt8 ↔ w.toLower = c.toLower :=
          ⟨eq_of_byte_eq small below, fun h => h ▸ rfl⟩
        rw [utf8EncodeChar_of_ascii hc, ← first]
        simp [letter, other, eq_comm]
      · obtain ⟨b, bs, encoded, large⟩ := utf8EncodeChar_of_not_ascii hc
        have apart : w.toLower ≠ c.toLower := by
          intro same
          rw [toLower_of_not_ascii hc] at same
          exact hc (same ▸ small)
        have bytes := lowerByte_ne large hw
        rw [encoded]
        simp [apart, bytes]

theorem bytes_of_ascii {word : String} (ascii : IsAscii word) :
    bytes word = word.toList.map Char.toUInt8 := by
  rw [← String.ofList_toList (s := word), bytes_ofList, String.toList_ofList, List.map_eq_flatMap]
  exact List.flatMap_congr fun c hc => utf8EncodeChar_of_ascii (ascii c hc)

/-- An ASCII byte begins a character. -/
theorem isUTF8FirstByte_of_small {b : UInt8} (h : b < 128) : b.IsUTF8FirstByte := by
  have small : b.toNat < 2 ^ 7 := UInt8.lt_iff_toNat_lt.mp h
  refine Or.inl ?_
  rw [← UInt8.toNat_inj, UInt8.toNat_and]
  show b.toNat &&& 2 ^ 7 = 0
  rw [Nat.and_two_pow, Nat.testBit_lt_two_pow small]
  rfl

theorem utf8ByteSize_cons (c : Char) (cs : List Char) :
    (String.ofList (c :: cs)).utf8ByteSize = c.utf8Size + (String.ofList cs).utf8ByteSize := by
  simp only [← length_bytes, bytes_ofList, List.flatMap_cons, List.length_append,
    String.length_utf8EncodeChar]

theorem utf8ByteSize_pos {s : String} (some : s ≠ "") : 0 < s.utf8ByteSize := by
  obtain ⟨c, cs, spelled⟩ := List.exists_cons_of_ne_nil (mt String.toList_eq_nil_iff.mp some)
  rw [← String.ofList_toList (s := s), spelled, utf8ByteSize_cons]
  exact Nat.add_pos_left c.utf8Size_pos _

/-- A longer text of the same beginning has more bytes. -/
theorem utf8ByteSize_lt_append_iff (s t : String) :
    s.utf8ByteSize < (s ++ t).utf8ByteSize ↔ s.length < (s ++ t).length := by
  rw [String.utf8ByteSize_append, String.length_append]
  by_cases empty : t = ""
  · simp [empty]
  · have size := utf8ByteSize_pos empty
    have length : 0 < t.length := by
      rw [← String.length_toList]
      exact List.length_pos_iff.mpr (mt String.toList_eq_nil_iff.mp empty)
    omega

/-- Of two fronts of a text, the shorter one has fewer bytes. -/
theorem utf8ByteSize_lt_iff {front rest other others : String}
    (h : front ++ rest = other ++ others) :
    front.utf8ByteSize < other.utf8ByteSize ↔ front.length < other.length := by
  have lists := congrArg String.toList h
  rw [String.toList_append, String.toList_append] at lists
  rcases List.append_eq_append_iff.mp lists with ⟨more, longer, -⟩ | ⟨more, longer, -⟩
  · obtain rfl : other = front ++ String.ofList more := by
      rw [← String.toList_inj, String.toList_append, longer, String.toList_ofList]
    exact utf8ByteSize_lt_append_iff front _
  · obtain rfl : front = other ++ String.ofList more := by
      rw [← String.toList_inj, String.toList_append, longer, String.toList_ofList]
    rw [String.utf8ByteSize_append, String.length_append]
    omega

section Word
variable {word text : String} (ascii : IsAscii word)
include ascii

theorem standsAt_front (front rest : String) :
    standsAt word (front ++ rest) front.utf8ByteSize = true ↔
      startsWithLetters word.toList rest.toList = true := by
  rw [standsAt, beq_iff_eq, bytes_append, ← length_bytes, List.drop_left, bytes_of_ascii ascii,
    List.length_map, ← take_bytes_iff ascii, ← bytes_ofList, String.ofList_toList]

/-- A word of ASCII characters is found at boundaries of characters only. -/
theorem isValid_of_standsAt (nonempty : word ≠ "") {i : Nat} (h : standsAt word text i = true) :
    (⟨i⟩ : String.Pos.Raw).IsValid text := by
  obtain ⟨w, ws, spelled⟩ := List.exists_cons_of_ne_nil (mt String.toList_eq_nil_iff.mp nonempty)
  rw [standsAt, beq_iff_eq, bytes_of_ascii ascii, spelled] at h
  have some : i < (bytes text).length := by
    by_contra beyond
    rw [List.drop_eq_nil_of_le (Nat.not_lt.mp beyond)] at h
    cases h
  rw [List.drop_eq_getElem_cons some] at h
  obtain ⟨first, -⟩ := List.cons.inj h
  refine String.Pos.Raw.isValid_iff_isUTF8FirstByte.mpr (Or.inr ⟨?_, ?_⟩)
  · rwa [length_bytes] at some
  · refine isUTF8FirstByte_of_small (UInt8.not_le.mp fun large => ?_)
    exact lowerByte_ne large (ascii w (by simp [spelled])) first

/-- The word is at a byte exactly if it stands in the text behind as many bytes. -/
theorem standsAt_iff (nonempty : word ≠ "") {i : Nat} : standsAt word text i = true ↔
    ∃ front rest, text = front ++ rest ∧ front.utf8ByteSize = i ∧
      startsWithLetters word.toList rest.toList = true := by
  constructor
  · intro h
    obtain ⟨front, rest, rfl, size⟩ := String.Pos.Raw.isValid_iff_exists_append.mp
      (isValid_of_standsAt ascii nonempty h)
    obtain rfl : i = front.utf8ByteSize := congrArg String.Pos.Raw.byteIdx size
    exact ⟨front, rest, rfl, rfl, (standsAt_front ascii _ _).mp h⟩
  · rintro ⟨front, rest, rfl, rfl, starts⟩
    exact (standsAt_front ascii _ _).mpr starts

/-- The bytes of the word end inside the text. -/
theorem fits_of_standsAt (nonempty : word ≠ "") {i : Nat} (h : standsAt word text i = true) :
    i + (bytes word).length ≤ (bytes text).length := by
  have lengths := congrArg List.length (beq_iff_eq.mp h)
  simp only [List.length_map, List.length_take, List.length_drop] at lengths
  have some : (bytes word).length ≠ 0 := by
    rw [bytes_of_ascii ascii, List.length_map, Ne, List.length_eq_zero_iff]
    exact mt String.toList_eq_nil_iff.mp nonempty
  omega

/-- The first place of the word is behind the fewest bytes. -/
theorem cutBefore_eq_some_iff_bytes (nonempty : word ≠ "") {front rest : String} :
    cutBefore word.toList text.toList = some (front.toList, rest.toList) ↔
      text = front ++ rest ∧ startsWithLetters word.toList rest.toList = true ∧
        ∀ i < front.utf8ByteSize, standsAt word text i = false := by
  rw [cutBefore_eq_some_iff, ← String.toList_append, String.toList_inj]
  refine and_congr_right fun whole => and_congr_right fun _ => ⟨fun first i below => ?_, ?_⟩
  · rw [← Bool.not_eq_true]
    intro earlier
    obtain ⟨before, behind, parts, rfl, starts⟩ := (standsAt_iff ascii nonempty).mp earlier
    have shorter := (utf8ByteSize_lt_iff (parts.symm.trans whole)).mp below
    rw [← String.length_toList, ← String.length_toList] at shorter
    rw [first _ _ (by rw [parts, String.toList_append]) shorter] at starts
    cases starts
  · intro first before behind parts shorter
    rw [← Bool.not_eq_true]
    intro starts
    have split : text = String.ofList before ++ String.ofList behind := by
      rw [← String.ofList_append, ← parts, String.ofList_toList]
    have found : standsAt word text (String.ofList before).utf8ByteSize = true := by
      rw [split]
      exact (standsAt_front ascii _ _).mpr (by rwa [String.toList_ofList])
    rw [String.length_toList, ← String.length_ofList] at shorter
    rw [first _ ((utf8ByteSize_lt_iff (split.symm.trans whole)).mpr shorter)] at found
    cases found

/-- The word stands nowhere exactly if it is at no byte. -/
theorem cutBefore_eq_none_iff_bytes (nonempty : word ≠ "") :
    cutBefore word.toList text.toList = none ↔ ∀ i, standsAt word text i = false := by
  constructor
  · intro cut i
    rw [← Bool.not_eq_true]
    intro found
    obtain ⟨front, rest, rfl, -, starts⟩ := (standsAt_iff ascii nonempty).mp found
    refine cutBefore_eq_none_iff.mp cut ?_
    rw [String.toList_append, List.map_append]
    exact (startsWithLetters_iff.mp starts).isInfix.trans (List.suffix_append _ _).isInfix
  · intro absent
    rw [Option.eq_none_iff_forall_ne_some]
    rintro ⟨front, rest⟩ cut
    rw [← String.toList_ofList (l := front), ← String.toList_ofList (l := rest)] at cut
    obtain ⟨rfl, starts, -⟩ := (cutBefore_eq_some_iff_bytes ascii nonempty).mp cut
    have found := (standsAt_front ascii (String.ofList front) _).mpr starts
    rw [absent] at found
    cases found

/-- By bytes and by characters the word is found at the same place. -/
theorem byteOffset?_eq_offsetOf (nonempty : word ≠ "") :
    byteOffset? text word = offsetOf text word := by
  rw [byteOffset?, offsetOf]
  cases cut : cutBefore word.toList text.toList with
  | none =>
    rw [Option.map_none, List.find?_eq_none]
    intro i _
    rw [(cutBefore_eq_none_iff_bytes ascii nonempty).mp cut i]
    decide
  | some parts =>
    obtain ⟨front, rest⟩ := parts
    rw [← String.toList_ofList (l := front), ← String.toList_ofList (l := rest)] at cut
    obtain ⟨rfl, starts, first⟩ := (cutBefore_eq_some_iff_bytes ascii nonempty).mp cut
    have found := (standsAt_front ascii (String.ofList front) _).mpr starts
    have fits := fits_of_standsAt ascii nonempty found
    show _ = some (String.ofList front).utf8ByteSize
    rw [List.find?_range_eq_some]
    refine ⟨found, List.mem_range.mpr (by omega), fun i below => ?_⟩
    rw [first i below]
    rfl

/-- A text that begins with the word, in any letter case, has as many bytes in its place. -/
theorem exists_written {rest : String}
    (starts : startsWithLetters word.toList rest.toList = true) :
    ∃ written behind, rest = written ++ behind ∧ lower written = lower word ∧
      written.utf8ByteSize = word.utf8ByteSize ∧
      rest.toList.drop word.length = behind.toList := by
  obtain ⟨more, spelled⟩ := startsWithLetters_iff.mp starts
  obtain ⟨front, behind, parts, same, -⟩ := List.map_eq_append_iff.mp spelled.symm
  have lowered : lower (String.ofList front) = lower word := by
    rw [← String.toList_inj, toList_lower, toList_lower, String.toList_ofList, same]
  have small : IsAscii (String.ofList front) := by
    intro c hc
    rw [String.toList_ofList] at hc
    by_contra large
    have there : c.toLower ∈ word.toList.map Char.toLower := same ▸ List.mem_map_of_mem hc
    obtain ⟨w, hw, letter⟩ := List.mem_map.mp there
    rw [toLower_of_not_ascii large] at letter
    exact large (letter ▸ (lowerByte_of_ascii (ascii w hw)).2)
  have length : front.length = word.length := by
    rw [← String.length_toList]
    simpa using congrArg List.length same
  refine ⟨String.ofList front, String.ofList behind, ?_, lowered, ?_, ?_⟩
  · rw [← String.ofList_append, ← parts, String.ofList_toList]
  · rw [← length_bytes, ← length_bytes, bytes_of_ascii ascii, bytes_of_ascii small, List.length_map,
      List.length_map, String.toList_ofList, String.length_toList, length]
  · rw [parts, ← length, List.drop_left, String.toList_ofList]

end Word

/-! Slices. -/

theorem isValid_append (front rest : String) :
    (⟨front.utf8ByteSize⟩ : String.Pos.Raw).IsValid (front ++ rest) :=
  String.Pos.Raw.isValid_iff_exists_append.mpr ⟨front, rest, rfl, rfl⟩

/-- A slice is a part of the text. -/
theorem slice?_append (front part rest : String) :
    slice? (front ++ part ++ rest) front.utf8ByteSize (front ++ part).utf8ByteSize = some part := by
  have start := isValid_append front (part ++ rest)
  rw [← String.append_assoc] at start
  have stop := isValid_append (front ++ part) rest
  have order : front.utf8ByteSize ≤ (front ++ part).utf8ByteSize := by
    rw [String.utf8ByteSize_append]
    omega
  rw [slice?, if_pos ⟨order, start, stop⟩]
  have cut := String.extract_of_valid front.toList part.toList rest.toList
  simpa [String.ofList_append, ← String.utf8ByteSize_ofList, String.append_assoc] using cut

/-- Behind its front a text goes on with its rest. -/
theorem slice?_rest (front rest : String) :
    slice? (front ++ rest) front.utf8ByteSize (front ++ rest).utf8ByteSize = some rest := by
  have cut := slice?_append front rest ""
  rwa [String.append_empty] at cut

theorem slice?_front (front rest : String) :
    slice? (front ++ rest) 0 front.utf8ByteSize = some front := by
  have cut := slice?_append "" front rest
  rwa [String.empty_append] at cut

/-- As many bytes stand before the first of these characters as the others have in front of it. -/
theorem getD_firstAt? (p : Char → Bool) (cs : List Char) :
    (firstAt? p cs).getD (String.ofList cs).utf8ByteSize =
      (String.ofList (cs.takeWhile (!p ·))).utf8ByteSize := by
  induction cs with
  | nil => rfl
  | cons c cs ih =>
    rw [firstAt?, List.takeWhile_cons]
    cases p c with
    | true => rfl
    | false =>
      simp only [Bool.false_eq_true, if_false, Bool.not_false, if_true, utf8ByteSize_cons, ← ih]
      cases firstAt? p cs <;> rfl

theorem slice?_prefix {front whole : List Char} (h : front <+: whole) :
    slice? (String.ofList whole) 0 (String.ofList front).utf8ByteSize =
      some (String.ofList front) := by
  obtain ⟨rest, rfl⟩ := h
  rw [String.ofList_append]
  exact slice?_front (String.ofList front) (String.ofList rest)

theorem behindFirst?_eq (s : String) :
    behindFirst? s = some (String.ofList (s.toList.drop 1)) := by
  rw [behindFirst?, secondAt?]
  cases spelled : s.toList with
  | nil => rfl
  | cons c cs =>
    cases cs with
    | nil => rfl
    | cons d cs =>
      have cut := slice?_rest (String.ofList [c]) (String.ofList (d :: cs))
      rw [← String.ofList_append, List.singleton_append, ← spelled, String.ofList_toList,
        utf8ByteSize_cons] at cut
      exact cut

end EntityQuery.Text
