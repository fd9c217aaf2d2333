import Sockcan.Protocol.Link
import Sockcan.Text

/-! A receiver that starts at the wrong place: with bytes of text still in front of the
frames, or with the first bytes of the frames already gone. It recovers neither. -/
namespace Sockcan.Protocol
open Text

/-- Every byte string is whole frames and a part of one. -/
theorem exists_framed (bytes : List UInt8) :
    ∃ (cfs : List (List UInt8)) (part : List UInt8), (∀ cf ∈ cfs, cf.length = msgSize) ∧
      part.length < msgSize ∧ bytes = cfs.flatten ++ part := by
  induction size : bytes.length using Nat.strong_induction_on generalizing bytes with
  | _ n ih =>
    by_cases short : bytes.length < msgSize
    · exact ⟨[], bytes, nofun, short, rfl⟩
    · have fewer : (bytes.drop msgSize).length < n := by
        have positive : 0 < msgSize := by decide
        rw [List.length_drop]
        omega
      obtain ⟨cfs, part, whole, remains, split⟩ := ih _ fewer _ rfl
      refine ⟨bytes.take msgSize :: cfs, part, ?_, remains, ?_⟩
      · have first : (bytes.take msgSize).length = msgSize :=
          List.length_take_of_le (Nat.le_of_not_lt short)
        exact List.forall_mem_cons.mpr ⟨first, whole⟩
      · rw [List.flatten_cons, List.append_assoc, ← split, List.take_append_drop]

variable {frames : List Frame} {text : List UInt8}

/-- One frame for every sixteen bytes. -/
theorem recvAll_length (sizes : Nat → Nat) (calls : Nat) (unread : List UInt8) :
    (recvAll (chunks sizes) ⟨unread, calls⟩).1.length = unread.length / msgSize := by
  obtain ⟨cfs, part, whole, short, rfl⟩ := exists_framed unread
  obtain ⟨last, received⟩ := recvAll_framed sizes calls whole short
  rw [received, List.length_map, List.length_append, flatten_length whole,
    Nat.mul_add_div (by decide), Nat.div_eq_of_lt short, Nat.add_zero]

theorem wireOf_length (classic : ∀ frame ∈ frames, frame.Classic) :
    (wireOf frames).length = msgSize * frames.length := by
  obtain ⟨cfs, whole, bytes, decoded⟩ := wireOf_framed classic
  have count := congrArg List.length decoded
  rw [List.length_map, List.length_map] at count
  rw [bytes, flatten_length whole, count]

/-- Three equal low bytes make up what two headers of one identifier have in common. -/
theorem decodeFrame_low {first second : List UInt8} {a b c d a' b' c' d' : UInt8}
    (same : (decodeFrame (a :: b :: c :: d :: first)).canId =
      (decodeFrame (a' :: b' :: c' :: d' :: second)).canId) : a = a' ∧ b = b' ∧ c = c' := by
  have ha := a.toNat_lt
  have hb := b.toNat_lt
  have hc := c.toNat_lt
  have ha' := a'.toNat_lt
  have hb' := b'.toNat_lt
  have hc' := c'.toNat_lt
  simp only [decodeFrame_canId, List.take_succ_cons, List.take_zero, Bytes.toNat_cons,
    Bytes.toNat_nil] at same
  refine ⟨?_, ?_, ?_⟩ <;> apply UInt8.toNat_inj.mp <;> omega

/-- Four bytes of text make a header that no sender writes: an identifier of more than
eleven bits without the flag. -/
theorem decodeFrame_text (rest : List UInt8) {a b c d : UInt8} (text : IsAscii [a, b, c, d]) :
    (decodeFrame (a :: b :: c :: d :: rest)).isExtended = false ∧
      0x7FF < (decodeFrame (a :: b :: c :: d :: rest)).canId % 2 ^ 27 := by
  have third := text c (by simp)
  have fourth := text d (by simp)
  have ha := a.toNat_lt
  have hb := b.toNat_lt
  have hc := c.toNat_lt
  constructor
  · apply decodeFrame_standard
    simp only [List.take_succ_cons, List.take_zero, Bytes.toNat_cons, Bytes.toNat_nil]
    omega
  · simp only [decodeFrame_canId, List.take_succ_cons, List.take_zero, Bytes.toNat_cons,
      Bytes.toNat_nil]
    omega

theorem Frame.onWire_unmarked {frame : Frame} (unmarked : frame.onWire.isExtended = false) :
    frame.onWire.canId % 2 ^ 27 ≤ 0x7FF := by
  simp only [Frame.onWire, Bool.or_eq_false_iff, decide_eq_false_iff_not,
    and_canExtensionMask_pos] at unmarked ⊢
  omega

/-- The first frame read is not the first frame sent: the low bytes of its identifier
would repeat the text up to the byte that carries the flag. -/
theorem decodeFrame_behind_text {frame : Frame} (classic : frame.Classic)
    {payload cf rest : List UInt8} (packed : frame.payload = some payload) (ascii : IsAscii text)
    (stray : text ≠ []) (whole : cf.length = msgSize) (first : cf ++ rest = text ++ payload) :
    decodeFrame cf ≠ frame.onWire := by
  intro same
  have sent := classic.decode_payload packed
  obtain ⟨a', b', c', d', later, rfl⟩ : ∃ a b c d later, payload = a :: b :: c :: d :: later := by
    obtain ⟨bytes, again, length⟩ := classic.payload_isSome
    obtain rfl := Option.some.inj (again.symm.trans packed)
    match bytes, length with
    | a :: b :: c :: d :: later, _ => exact ⟨a, b, c, d, later, rfl⟩
  obtain ⟨a, b, c, d, others, rfl⟩ : ∃ a b c d others, cf = a :: b :: c :: d :: others := by
    match cf, whole with
    | a :: b :: c :: d :: others, _ => exact ⟨a, b, c, d, others, rfl⟩
  obtain ⟨rfl, rfl, rfl⟩ := decodeFrame_low (congrArg Frame.canId (same.trans sent.symm))
  have header : IsAscii [a, b, c, d] := by
    intro byte member
    apply ascii
    match text, stray with
    | [x], _ | [x, y], _ | [x, y, z], _ | x :: y :: z :: w :: more, _ =>
      simp only [List.cons_append, List.nil_append, List.cons.injEq] at first
      simp only [List.mem_cons, List.not_mem_nil, or_false] at member ⊢
      obtain ⟨rfl, rfl, rfl, rfl, _⟩ := first
      tauto
  obtain ⟨unmarked, large⟩ := decodeFrame_text others header
  rw [same] at unmarked large
  have small := Frame.onWire_unmarked unmarked
  omega

/-- Behind stray text the frames are received only where there are none, and too little
text to make one. -/
theorem recvAll_behind_text_iff (classic : ∀ frame ∈ frames, frame.Classic)
    (ascii : text.length < msgSize → IsAscii text) (sizes : Nat → Nat) (calls : Nat) :
    (recvAll (chunks sizes) ⟨text ++ wireOf frames, calls⟩).1 = frames.map Frame.onWire ↔
      text = [] ∨ frames = [] ∧ text.length < msgSize := by
  constructor
  · intro same
    have count := congrArg List.length same
    rw [recvAll_length, List.length_map, List.length_append, wireOf_length classic,
      Nat.add_mul_div_left _ _ (by decide)] at count
    have short : text.length < msgSize := by
      apply Nat.lt_of_div_eq_zero (by decide)
      omega
    by_contra neither
    obtain ⟨stray, some_⟩ := not_or.mp neither
    obtain ⟨frame, others, rfl⟩ := List.exists_cons_of_ne_nil fun none => some_ ⟨none, short⟩
    have first := classic frame List.mem_cons_self
    obtain ⟨payload, packed, whole⟩ := first.payload_isSome
    obtain ⟨cfs, part, framed, remains, split⟩ := exists_framed (text ++ wireOf (frame :: others))
    obtain ⟨last, received⟩ := recvAll_framed sizes calls framed remains
    rw [split, received, List.map_cons] at same
    cases cfs with
    | nil => contradiction
    | cons cf cfs =>
      have ahead : cf <+: text ++ wireOf (frame :: others) := by
        rw [split, List.flatten_cons, List.append_assoc]
        exact List.prefix_append _ _
      have sent : text ++ payload <+: text ++ wireOf (frame :: others) := by
        rw [wireOf_cons packed, ← List.append_assoc]
        exact List.prefix_append _ _
      have within : cf <+: text ++ payload := by
        apply List.prefix_of_prefix_length_le ahead sent
        rw [framed cf List.mem_cons_self, List.length_append, whole]
        omega
      obtain ⟨rest, before⟩ := within
      exact decodeFrame_behind_text first packed (ascii short) stray
        (framed cf List.mem_cons_self) before (List.cons.inj same).1
  · rintro (rfl | ⟨rfl, short⟩)
    · obtain ⟨last, received⟩ := recvAll_wireOf classic (show [].length < msgSize by decide) sizes
        calls
      rw [List.append_nil] at received
      rw [List.nil_append, received]
    · obtain ⟨last, received⟩ := recvAll_framed sizes calls
        (show ∀ cf ∈ ([] : List (List UInt8)), cf.length = msgSize from nofun) short
      have empty : wireOf [] = [] := rfl
      rw [List.flatten_nil, List.nil_append] at received
      rw [empty, List.append_nil, received]
      rfl

/-- Frames whose first bytes are gone are received only where there are none. -/
theorem recvAll_drop_iff (classic : ∀ frame ∈ frames, frame.Classic) (gone : Nat)
    (sizes : Nat → Nat) (calls : Nat) :
    (recvAll (chunks sizes) ⟨(wireOf frames).drop gone, calls⟩).1 = frames.map Frame.onWire ↔
      gone = 0 ∨ frames = [] := by
  constructor
  · intro same
    have count := congrArg List.length same
    rw [recvAll_length, List.length_map, List.length_drop, wireOf_length classic, msgSize] at count
    by_cases none : frames = []
    · exact Or.inr none
    · have positive := List.length_pos_iff.mpr none
      left
      omega
  · intro kept
    have all : (wireOf frames).drop gone = wireOf frames := by
      rcases kept with rfl | rfl
      · exact List.drop_zero
      · exact List.drop_nil
    have empty : IsAscii [] := by decide
    rw [all]
    exact (recvAll_behind_text_iff classic (fun _ => empty) sizes calls).mpr (Or.inl rfl)

end Sockcan.Protocol
