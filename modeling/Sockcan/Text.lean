import Mathlib.Data.List.Basic

/-! Strings as the bytes that go over a socket, and back. -/
namespace Sockcan.Text

/-- `text.encode("utf-8")`. -/
def encode (text : String) : List UInt8 := text.toList.flatMap String.utf8EncodeChar

/-- `bytes.decode()`; a byte string that is not UTF-8 is the `UnicodeDecodeError`. -/
def decode (bytes : List UInt8) : Option String := String.fromUTF8? bytes.toByteArray

/-- `needle in haystack`, of byte strings. -/
def isIn (needle : List UInt8) : List UInt8 → Bool
  | [] => needle.isEmpty
  | byte :: rest => needle.isPrefixOf (byte :: rest) || isIn needle rest

/-- ASCII bytes, none of them null. -/
def IsAscii (bytes : List UInt8) : Prop := ∀ byte ∈ bytes, 0 < byte.toNat ∧ byte.toNat < 128

instance (bytes : List UInt8) : Decidable (IsAscii bytes) :=
  List.decidableBAll (fun byte : UInt8 => 0 < byte.toNat ∧ byte.toNat < 128) bytes

theorem isIn_iff {needle haystack : List UInt8} : isIn needle haystack ↔ needle <:+: haystack := by
  induction haystack with
  | nil => simp [isIn]
  | cons byte rest ih =>
    rw [isIn, Bool.or_eq_true, ih, List.isPrefixOf_iff_prefix, List.infix_cons_iff]

theorem encode_append (first second : String) :
    encode (first ++ second) = encode first ++ encode second := by
  simp only [encode, String.toList_append, List.flatMap_append]

theorem IsAscii.append {first second : List UInt8} (left : IsAscii first)
    (right : IsAscii second) : IsAscii (first ++ second) := by
  intro byte member
  rcases List.mem_append.mp member with inside | inside
  · exact left byte inside
  · exact right byte inside

theorem IsAscii.sublist {first second : List UInt8} (ascii : IsAscii second)
    (inside : first.Sublist second) : IsAscii first :=
  fun byte member => ascii byte (inside.subset member)

theorem toNat_ofNat {n : Nat} (small : n < 0xD800) : (Char.ofNat n).toNat = n := by
  have scalar : n.isValidChar := Or.inl small
  rw [Char.ofNat, dif_pos scalar]
  rfl

theorem encode_char {c : Char} (ascii : c.toNat < 128) :
    String.utf8EncodeChar c = [UInt8.ofNat c.toNat] := by
  have small : c.val.toNat ≤ 127 := Nat.le_of_lt_succ ascii
  rw [String.utf8EncodeChar]
  simp only [small, if_true]
  rfl

theorem isAscii_encode {text : String} (ascii : ∀ c ∈ text.toList, 0 < c.toNat ∧ c.toNat < 128) :
    IsAscii (encode text) := by
  intro byte member
  obtain ⟨c, among, encoded⟩ := List.mem_flatMap.mp member
  obtain ⟨positive, small⟩ := ascii c among
  rw [encode_char small, List.mem_singleton] at encoded
  rw [encoded, UInt8.toNat_ofNat_of_lt' (Nat.lt_trans small (by decide))]
  exact ⟨positive, small⟩

theorem isValidUTF8_of_isAscii {bytes : List UInt8} (ascii : IsAscii bytes) :
    bytes.toByteArray.IsValidUTF8 := by
  induction bytes with
  | nil => exact ByteArray.isValidUTF8_empty
  | cons byte rest ih =>
    have small := (ascii byte List.mem_cons_self).2
    have first : [byte].toByteArray = [Char.ofNat byte.toNat].utf8Encode := by
      have value : (Char.ofNat byte.toNat).toNat = byte.toNat :=
        toNat_ofNat (Nat.lt_trans small (by decide))
      have encoded := encode_char (c := Char.ofNat byte.toNat) (by rwa [value])
      rw [List.utf8Encode_singleton, encoded, value, UInt8.ofNat_toNat]
    have split : (byte :: rest).toByteArray = [byte].toByteArray ++ rest.toByteArray :=
      List.toByteArray_append (l := [byte])
    rw [split, first]
    exact ByteArray.isValidUTF8_utf8Encode.append
      (ih fun other member => ascii other (List.mem_cons_of_mem _ member))

theorem decode_isSome {bytes : List UInt8} (ascii : IsAscii bytes) : (decode bytes).isSome := by
  have valid := isValidUTF8_of_isAscii ascii
  simp only [decode, String.fromUTF8?]
  split
  · rfl
  · contradiction

/-- `str(bytes, "iso-8859-1")`. -/
def latin1 (bytes : List UInt8) : List Char := bytes.map fun byte => Char.ofNat byte.toNat

section Replace

/-- The bounds of the bytes that have to follow the first one of a UTF-8 sequence. -/
def continuations (first : Nat) : Option (List (Nat × Nat)) :=
  if first < 0x80 then some []
  else if first < 0xC2 then none
  else if first < 0xE0 then some [(0x80, 0xBF)]
  else if first = 0xE0 then some [(0xA0, 0xBF), (0x80, 0xBF)]
  else if first = 0xED then some [(0x80, 0x9F), (0x80, 0xBF)]
  else if first < 0xF0 then some [(0x80, 0xBF), (0x80, 0xBF)]
  else if first = 0xF0 then some [(0x90, 0xBF), (0x80, 0xBF), (0x80, 0xBF)]
  else if first < 0xF4 then some [(0x80, 0xBF), (0x80, 0xBF), (0x80, 0xBF)]
  else if first = 0xF4 then some [(0x80, 0x8F), (0x80, 0xBF), (0x80, 0xBF)]
  else none

/-- How many of the bytes follow as they have to. -/
def following : List (Nat × Nat) → List UInt8 → Nat
  | (low, high) :: bounds, byte :: rest =>
    if low ≤ byte.toNat ∧ byte.toNat ≤ high then following bounds rest + 1 else 0
  | _, _ => 0

/-- The bits of a first byte and six of each byte that follows it. -/
def codePoint (first : Nat) (rest : List UInt8) : Nat :=
  rest.foldl (fun value byte => 64 * value + byte.toNat % 64)
    (if rest.isEmpty then first else first % (1 <<< (6 - rest.length)))

/-- The first character of a byte string, and how many bytes of it follow the first one. -/
def decodeFirst (first : UInt8) (rest : List UInt8) : Char × Nat :=
  match continuations first.toNat with
  | none => ('\uFFFD', 0)
  | some bounds =>
    let count := following bounds rest
    if count = bounds.length then (Char.ofNat (codePoint first.toNat (rest.take count)), count)
    else ('\uFFFD', count)

def decodeAfter : (skip : Nat) → List UInt8 → List Char
  | _, [] => []
  | skip + 1, _ :: rest => decodeAfter skip rest
  | 0, first :: rest => (decodeFirst first rest).1 :: decodeAfter (decodeFirst first rest).2 rest

/-- `bytes.decode(errors="replace")`: what is not UTF-8 becomes a replacement character. -/
def decodeReplace (bytes : List UInt8) : List Char := decodeAfter 0 bytes

theorem decodeAfter_length_le (skip : Nat) (bytes : List UInt8) :
    (decodeAfter skip bytes).length ≤ bytes.length := by
  induction bytes generalizing skip with
  | nil => exact Nat.le_refl 0
  | cons first rest ih =>
    cases skip with
    | zero => exact Nat.succ_le_succ (ih _)
    | succ skip => exact Nat.le_succ_of_le (ih skip)

theorem decodeReplace_ascii {bytes : List UInt8} (ascii : ∀ byte ∈ bytes, byte.toNat < 128) :
    decodeReplace bytes = latin1 bytes := by
  induction bytes with
  | nil => rfl
  | cons first rest ih =>
    have later := ih fun byte member => ascii byte (List.mem_cons_of_mem _ member)
    have small := ascii first List.mem_cons_self
    have one : decodeFirst first rest = (Char.ofNat first.toNat, 0) := by
      simp only [decodeFirst, continuations, if_pos small, following, List.length_nil, if_true,
        List.take_zero, codePoint, List.foldl_nil, List.isEmpty_nil]
    have split : decodeReplace (first :: rest) =
        (decodeFirst first rest).1 :: decodeAfter (decodeFirst first rest).2 rest := rfl
    rw [split, one, latin1, List.map_cons]
    exact congrArg (_ :: ·) later

end Replace

section Latin

/-- A check of every character of a text that is written out. -/
theorem forall_mem_of_all {p : Char → Prop} [DecidablePred p] {text : List Char}
    (all : text.all (fun c => decide (p c)) = true) : ∀ c ∈ text, p c :=
  fun c member => of_decide_eq_true (List.all_eq_true.mp all c member)

theorem latin1_append (first second : List UInt8) :
    latin1 (first ++ second) = latin1 first ++ latin1 second := List.map_append

theorem toNat_of_mem_latin1 {bytes : List UInt8} {c : Char} (member : c ∈ latin1 bytes) :
    ∃ byte ∈ bytes, c.toNat = byte.toNat := by
  obtain ⟨byte, among, rfl⟩ := List.mem_map.mp member
  exact ⟨byte, among, toNat_ofNat (Nat.lt_trans byte.toNat_lt (by decide))⟩

theorem latin1_char {c : Char} (ascii : c.toNat < 128) :
    latin1 (String.utf8EncodeChar c) = [c] := by
  rw [encode_char ascii, latin1, List.map_singleton,
    UInt8.toNat_ofNat_of_lt' (Nat.lt_trans ascii (by decide)), Char.ofNat_toNat]

theorem encode_ascii {text : List Char} (ascii : ∀ c ∈ text, c.toNat < 128) :
    text.flatMap String.utf8EncodeChar = text.map fun c => UInt8.ofNat c.toNat := by
  induction text with
  | nil => rfl
  | cons c rest ih =>
    rw [List.flatMap_cons, List.map_cons, encode_char (ascii c List.mem_cons_self),
      ih fun other member => ascii other (List.mem_cons_of_mem _ member)]
    rfl

theorem latin1_ascii {text : List Char} (ascii : ∀ c ∈ text, c.toNat < 128) :
    latin1 (text.flatMap String.utf8EncodeChar) = text := by
  induction text with
  | nil => rfl
  | cons c rest ih =>
    rw [List.flatMap_cons, latin1_append, latin1_char (ascii c List.mem_cons_self),
      ih fun other member => ascii other (List.mem_cons_of_mem _ member)]
    rfl

/-- The bytes of a character beyond ASCII. -/
theorem encode_char_wide {c : Char} (wide : 128 ≤ c.toNat) :
    2 ≤ (String.utf8EncodeChar c).length ∧
      ∀ byte ∈ String.utf8EncodeChar c, 128 ≤ byte.toNat := by
  have large : ¬ c.val.toNat ≤ 127 := Nat.not_le.mpr wide
  rw [String.utf8EncodeChar]
  simp only [large, if_false]
  split
  · simp
    omega
  · split
    · simp
      omega
    · simp
      omega

/-- The two bytes of a character that Latin-1 has beyond ASCII. -/
theorem encode_char_latin {c : Char} (wide : 128 ≤ c.toNat) (narrow : c.toNat < 256) :
    String.utf8EncodeChar c =
      [UInt8.ofNat (c.toNat / 64 + 192), UInt8.ofNat (c.toNat % 64 + 128)] := by
  have large : ¬ c.val.toNat ≤ 127 := Nat.not_le.mpr wide
  have small : c.val.toNat ≤ 2047 := by
    have bound : c.val.toNat < 256 := narrow
    omega
  have high : c.val.toNat / 64 % 32 = c.val.toNat / 64 := by omega
  rw [String.utf8EncodeChar]
  simp only [large, if_false, small, if_true, high]
  rfl

end Latin

end Sockcan.Text
