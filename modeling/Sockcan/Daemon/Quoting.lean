import Sockcan.Daemon.Client
import Sockcan.Url

/-! The filters of a request: JSON that is quoted once and unquoted twice. -/
namespace Sockcan.Daemon
open Text Url

/-- A character that quoting may leave: none with a meaning in a request line. -/
def Unreserved (c : Char) : Prop :=
  c.isAlphanum = true ∨ c ∈ ['_', '.', '-', '~', '/', '%']

theorem Unreserved.apart {c other : Char} (unreserved : Unreserved c)
    (reserved : other.isAlphanum = false ∧ other ∉ ['_', '.', '-', '~', '/', '%']) :
    c ≠ other := by
  rintro rfl
  rcases unreserved with alphanumeric | listed
  · rw [reserved.1] at alphanumeric
    contradiction
  · exact reserved.2 listed

theorem hexValue_hexDigits : ∀ n < 16, hexValue (hexDigits.getD n '0') = some n := by
  decide

theorem hexDigits_alphanum : ∀ n < 16, (hexDigits.getD n '0').isAlphanum = true := by
  decide

theorem toNat_byte (byte : UInt8) : (Char.ofNat byte.toNat).toNat = byte.toNat :=
  toNat_ofNat (Nat.lt_trans byte.toNat_lt (by decide))

/-- Each quoted byte is read back. -/
theorem unquoteToBytes_quoteByte (byte : UInt8) (rest : List Char) :
    unquoteToBytes (quoteByte byte ++ rest) = byte :: unquoteToBytes rest := by
  have bound := byte.toNat_lt
  unfold quoteByte
  dsimp only
  split
  next safe =>
    have other : Char.ofNat byte.toNat ≠ '%' := by
      intro percent
      rw [percent] at safe
      exact absurd safe (by decide)
    rw [List.singleton_append, unquoteToBytes_cons other, toNat_byte, UInt8.ofNat_toNat]
  next =>
    have high : hexValue (hexDigits.getD (byte.toNat / 16) '0') = some (byte.toNat / 16) :=
      hexValue_hexDigits _ (by omega)
    have low : hexValue (hexDigits.getD (byte.toNat % 16) '0') = some (byte.toNat % 16) :=
      hexValue_hexDigits _ (by omega)
    have digits : escaped (hexDigits.getD (byte.toNat / 16) '0')
        (hexDigits.getD (byte.toNat % 16) '0') = some byte := by
      simp only [escaped, high, low, Nat.div_add_mod, UInt8.ofNat_toNat]
    exact unquoteToBytes_escape digits

theorem unquoteToBytes_quote (bytes : List UInt8) :
    unquoteToBytes (bytes.flatMap quoteByte) = bytes := by
  induction bytes with
  | nil => rfl
  | cons byte rest ih => rw [List.flatMap_cons, unquoteToBytes_quoteByte, ih]

theorem unreserved_quoteByte (byte : UInt8) : ∀ c ∈ quoteByte byte, Unreserved c := by
  have bound := byte.toNat_lt
  unfold quoteByte
  dsimp only
  split
  next safe =>
    intro c member
    rw [List.mem_singleton.mp member]
    rcases Bool.or_eq_true_iff.mp safe with alphanumeric | listed
    · exact Or.inl alphanumeric
    · have among : Char.ofNat byte.toNat ∈ ['_', '.', '-', '~', '/'] := List.elem_iff.mp listed
      exact Or.inr (List.mem_append_left ['%'] among)
  next =>
    intro c member
    simp only [List.mem_cons, List.not_mem_nil, or_false] at member
    rcases member with rfl | rfl | rfl
    · exact Or.inr (by decide)
    · exact Or.inl (hexDigits_alphanum _ (by omega))
    · exact Or.inl (hexDigits_alphanum _ (by omega))

theorem unreserved_quote (text : String) : ∀ c ∈ (quote text).toList, Unreserved c := by
  intro c member
  rw [quote, String.toList_ofList] at member
  obtain ⟨byte, _, among⟩ := List.mem_flatMap.mp member
  exact unreserved_quoteByte byte c among

theorem Unreserved.bounds {c : Char} (unreserved : Unreserved c) :
    32 < c.toNat ∧ c.toNat < 128 := by
  rcases unreserved with alphanumeric | listed
  · have kinds : (c.isUpper || c.isLower || c.isDigit) = true := alphanumeric
    rw [Bool.or_eq_true, Bool.or_eq_true] at kinds
    rcases kinds with (upper | lower) | digit
    · have inside : 'A'.val ≤ c.val ∧ c.val ≤ 'Z'.val := of_decide_eq_true upper
      have bounds : 65 ≤ c.toNat ∧ c.toNat ≤ 90 := inside
      omega
    · have inside : 'a'.val ≤ c.val ∧ c.val ≤ 'z'.val :=
        (Bool.and_eq_true_iff.mp lower).imp of_decide_eq_true of_decide_eq_true
      have bounds : 97 ≤ c.toNat ∧ c.toNat ≤ 122 := inside
      omega
    · have bounds : 48 ≤ c.toNat ∧ c.toNat ≤ 57 := Char.isDigit_iff_toNat.mp digit
      omega
  · have bounds : ∀ c ∈ ['_', '.', '-', '~', '/', '%'], 32 < c.toNat ∧ c.toNat < 128 :=
      forall_mem_of_all (by decide)
    exact bounds c listed

/-- Quoted ASCII text, as a value of a query. -/
theorem unquotePlus_quote {text : String} (ascii : ∀ c ∈ text.toList, c.toNat < 128) :
    unquotePlus (quote text).toList = text.toList := by
  have unreserved := unreserved_quote text
  have noPlus : (quote text).toList.map plusToSpace = (quote text).toList := by
    calc (quote text).toList.map plusToSpace = (quote text).toList.map id := by
          apply List.map_congr_left
          intro c member
          exact if_neg ((unreserved c member).apart (by decide))
      _ = (quote text).toList := List.map_id _
  have bytes : unquoteToBytes (quote text).toList =
      text.toList.map fun c => UInt8.ofNat c.toNat := by
    rw [quote, String.toList_ofList, unquoteToBytes_quote]
    exact encode_ascii ascii
  rw [unquotePlus, noPlus, unquote_ascii fun c member => (unreserved c member).bounds.2, bytes,
    decodeReplace_plain ascii]

section Json

/-- No character of it needs quoting twice. -/
def Plain (text : List Char) : Prop := ∀ c ∈ text, c.toNat < 128 ∧ c ≠ '%'

instance (text : List Char) : Decidable (Plain text) :=
  List.decidableBAll (fun c : Char => c.toNat < 128 ∧ c ≠ '%') text

theorem Plain.append {first second : List Char} (left : Plain first) (right : Plain second) :
    Plain (first ++ second) := by
  intro c member
  rcases List.mem_append.mp member with inside | inside
  · exact left c inside
  · exact right c inside

theorem Plain.unquote {text : List Char} (plain : Plain text) : Url.unquote text = text :=
  if_neg fun escapes => (plain '%' escapes).2 rfl

theorem Plain.intercalate {separator : List Char} {parts : List (List Char)}
    (between : Plain separator) (all : ∀ part ∈ parts, Plain part) :
    Plain (separator.intercalate parts) := by
  induction parts with
  | nil => exact nofun
  | cons part rest ih =>
    have here := all part List.mem_cons_self
    have later := ih fun other member => all other (List.mem_cons_of_mem _ member)
    cases rest with
    | nil => rwa [List.intercalate_singleton]
    | cons second rest =>
      rw [List.intercalate_cons_of_ne_nil (List.cons_ne_nil second rest)]
      exact (here.append between).append later

theorem plain_toString (n : Nat) : Plain (toString n).toList := by
  intro c member
  have digits : (toString n).toList = Nat.toDigits 10 n := Nat.toList_repr
  rw [digits] at member
  have digit : c.isDigit = true := Nat.isDigit_of_mem_toDigits (by decide) (by decide) member
  have bounds : 48 ≤ c.toNat ∧ c.toNat ≤ 57 := Char.isDigit_iff_toNat.mp digit
  constructor
  · omega
  · rintro rfl
    exact absurd bounds (by decide)

theorem plain_dumpsFilter (canFilter : CanFilter) : Plain (dumpsFilter canFilter).toList := by
  have start : Plain "\x7b\"can_id\": ".toList := by decide
  have middle : Plain ", \"can_mask\": ".toList := by decide
  have close : Plain "\x7d".toList := by decide
  unfold dumpsFilter
  simp only [String.toList_append]
  apply Plain.append _ close
  apply Plain.append
  · exact ((start.append (plain_toString _)).append middle).append (plain_toString _)
  · rcases canFilter.extended with _ | _ | _
    · decide
    · decide
    · decide

theorem plain_dumps (filters : List CanFilter) : Plain (dumps filters).toList := by
  have parts : ∀ part ∈ filters.map dumpsFilter, Plain part.toList := by
    rw [List.forall_mem_map]
    exact fun canFilter _ => plain_dumpsFilter canFilter
  unfold dumps
  simp only [String.toList_append, String.toList_intercalate]
  apply Plain.append _ (by decide)
  apply Plain.append (by decide)
  exact Plain.intercalate (by decide) (List.forall_mem_map.mpr parts)

theorem head_dumps (filters : List CanFilter) : (dumps filters).toList.head? = some '[' := by
  simp only [dumps, String.toList_append]
  rfl

end Json

end Sockcan.Daemon
