import Sockcan.Daemon.Client

/-! The daemon's side of a subscription: the HTTP server takes the head of the request off
the connection, and the handler then hands the raw socket to the relay. -/
namespace Sockcan.Daemon
open Protocol Text

/-- Where the head of a request ends: the bytes up to the first empty line after the
request line, that line included. `lineStart` tells whether the bytes begin at a later
line. -/
def headEnd (lineStart : Bool) : List UInt8 → Option Nat
  | [] => none
  | byte :: rest =>
    if lineStart && byte == 10 then some 1
    else if lineStart && byte == 13 && rest.head? == some 10 then some 2
    else (headEnd (byte == 10) rest).map (· + 1)

/-- The reads of the HTTP server, in chunks of any size, until it has seen the head: what
it has read beyond the head stays in its buffer. `rounds` is a bound on the reads. -/
def readHead (network : Nat → RecvCall) (bufsize : Nat) :
    (rounds : Nat) → List UInt8 → Inbound → Inbound
  | 0, _, inbound => inbound
  | rounds + 1, seen, inbound =>
    if (headEnd false seen).isSome then inbound
    else match inbound.recv network bufsize with
      | .error _ => inbound
      | .ok (chunk, next) => readHead network bufsize rounds (seen ++ chunk) next

/-- The socket that `listen_to` gets, once the client has its response and has sent
`frames`. -/
def upgraded (network : Nat → RecvCall) (bufsize : Nat) (request : List UInt8)
    (frames : List Frame) : Inbound :=
  let inbound := readHead network bufsize request.length [] ⟨request, 0⟩
  ⟨inbound.unread ++ wireOf frames, inbound.calls⟩

/-- How many bytes the first `count` reads of the HTTP server ask for and can get. -/
def reach (sizes : Nat → Nat) (bufsize : Nat) : (count : Nat) → Nat
  | 0 => 0
  | count + 1 => reach sizes bufsize count + max 1 (min (sizes count) bufsize)

variable {sizes : Nat → Nat} {bufsize : Nat} {bytes request : List UInt8} {lineStart : Bool}
  {last : Nat}

theorem reach_mono {first second : Nat} (before : first ≤ second) :
    reach sizes bufsize first ≤ reach sizes bufsize second := by
  induction before with
  | refl => exact Nat.le_refl _
  | step _ ih => exact Nat.le_trans ih (Nat.le_add_right _ _)

/-- The head is seen as soon as it was read. -/
theorem headEnd_take (ends : headEnd lineStart bytes = some last) (count : Nat) :
    (headEnd lineStart (bytes.take count)).isSome ↔ last ≤ count := by
  induction bytes generalizing lineStart last count with
  | nil => contradiction
  | cons byte rest ih =>
    simp only [headEnd] at ends
    cases count with
    | zero =>
      have positive : 0 < last := by
        split at ends
        · cases ends
          decide
        · split at ends
          · cases ends
            decide
          · obtain ⟨before, _, rfl⟩ := Option.map_eq_some_iff.mp ends
            exact Nat.succ_pos before
      simp only [List.take_zero, headEnd, Option.isSome_none, Bool.false_eq_true, false_iff]
      omega
    | succ count =>
      rw [List.take_succ_cons, headEnd, List.head?_take]
      split at ends
      · next newline =>
        cases ends
        simp [newline]
      · next other =>
        split at ends
        · next blank =>
          cases ends
          cases count with
          | zero => simp [other, headEnd]
          | succ count =>
            rw [if_neg (Nat.succ_ne_zero count)]
            simp [other, blank]
        · next later =>
          obtain ⟨before, found, rfl⟩ := Option.map_eq_some_iff.mp ends
          have open_ : ¬ (lineStart && byte == 13 &&
              (if count = 0 then none else rest.head?) == some 10) := by
            intro blank
            by_cases none : count = 0
            · simp [none] at blank
            · rw [if_neg none] at blank
              exact later blank
          rw [if_neg other, if_neg open_, Option.isSome_map, ih found, Nat.add_le_add_iff_right]

theorem headEnd_isSome (before after : List UInt8) (lineStart : Bool) :
    (headEnd lineStart (before ++ 13 :: 10 :: 13 :: 10 :: after)).isSome := by
  induction before generalizing lineStart with
  | nil => cases lineStart <;> simp [headEnd]
  | cons byte before ih =>
    rw [List.cons_append, headEnd]
    split
    · rfl
    · split
      · rfl
      · rw [Option.isSome_map]
        exact ih _

/-- The server stops after the first read that reaches the end of the head. -/
theorem readHead_stops (ends : headEnd false request = some last) (sizes : Nat → Nat)
    (bufsize : Nat) {rounds count : Nat}
    (enough : last ≤ reach sizes bufsize count + rounds)
    (before : ∀ earlier < count, reach sizes bufsize earlier < last) :
    ∃ stop, readHead (chunks sizes) bufsize rounds (request.take (reach sizes bufsize count))
        ⟨request.drop (reach sizes bufsize count), count⟩ =
          ⟨request.drop (reach sizes bufsize stop), stop⟩ ∧
      last ≤ reach sizes bufsize stop ∧ ∀ earlier < stop, reach sizes bufsize earlier < last := by
  induction rounds generalizing count with
  | zero => exact ⟨count, rfl, enough, before⟩
  | succ rounds ih =>
    have seen := headEnd_take ends (reach sizes bufsize count)
    by_cases stops : last ≤ reach sizes bufsize count
    · refine ⟨count, ?_, stops, before⟩
      simp only [readHead, seen.mpr stops, if_true]
    · have unseen : ¬ (headEnd false (request.take (reach sizes bufsize count))).isSome :=
        fun found => stops (seen.mp found)
      have asked : last ≤ reach sizes bufsize (count + 1) + rounds := by
        rw [reach]
        omega
      have goesOn : ∀ earlier < count + 1, reach sizes bufsize earlier < last := by
        intro earlier below
        rcases Nat.lt_succ_iff_lt_or_eq.mp below with older | rfl
        · exact before earlier older
        · exact Nat.lt_of_not_le stops
      obtain ⟨stop, result, past, short⟩ := ih asked goesOn
      refine ⟨stop, ?_, past, short⟩
      rw [← result]
      simp only [readHead, unseen, Bool.false_eq_true, if_false, Inbound.recv, chunks]
      rw [List.drop_drop, ← List.take_add]
      rfl

theorem upgradeRequest_tail (host : String) (port : Nat) (channel : String)
    (filters : Option (List CanFilter)) :
    ∃ before middle,
      encode (upgradeRequest host port channel filters) =
        before ++ 13 :: 10 :: 13 :: 10 :: (middle ++ encode "Upgrade: socketcan\r\n") := by
  refine ⟨encode ("GET /subscribe?" ++ queryParams channel filters ++ " HTTP/1.1"),
    encode ("Host: " ++ host ++ ":" ++ toString port ++ httpDelimiter ++ "Connection: Upgrade" ++
      httpDelimiter), ?_⟩
  have delimiter : encode httpDelimiter = [13, 10] := by decide
  have tail : encode "Upgrade: socketcan\r\n" = encode "Upgrade: socketcan" ++ [13, 10] := by
    decide
  have text : upgradeRequest host port channel filters =
      "GET /subscribe?" ++ queryParams channel filters ++ " HTTP/1.1" ++ httpDelimiter ++
        httpDelimiter ++ ("Host: " ++ host ++ ":" ++ toString port) ++ httpDelimiter ++
        "Connection: Upgrade" ++ httpDelimiter ++ "Upgrade: socketcan" ++ httpDelimiter := rfl
  rw [text, tail]
  simp only [encode_append, delimiter, List.append_assoc, List.cons_append, List.nil_append]

/-- What is left of a request when less than a frame is left of it is text. -/
theorem isAscii_rest {before : List UInt8} {count : Nat}
    (short : ((before ++ encode "Upgrade: socketcan\r\n").drop count).length < msgSize) :
    IsAscii ((before ++ encode "Upgrade: socketcan\r\n").drop count) := by
  have tail : (encode "Upgrade: socketcan\r\n").length = 20 := by decide
  have ascii : IsAscii (encode "Upgrade: socketcan\r\n") := by decide
  have past : before.length ≤ count := by
    rw [List.length_drop, List.length_append, tail, msgSize] at short
    omega
  rw [List.drop_append, List.drop_eq_nil_of_le past, List.nil_append]
  exact ascii.sublist (List.drop_sublist _ _)

/-- The receiver is left at the first frame when the read that brings the end of the head
brings all of the request, and else only where there are no frames and less than a frame
is missing of the request. -/
theorem request_aligned_iff (host : String) (port : Nat) (channel : String)
    (filters : Option (List CanFilter)) (frames : List Frame)
    (classic : ∀ frame ∈ frames, frame.Classic) (sizes : Nat → Nat) (bufsize : Nat) :
    ∃ head,
      headEnd false (encode (upgradeRequest host port channel filters)) = some head ∧
      ((recvAll (chunks sizes) (upgraded (chunks sizes) bufsize
            (encode (upgradeRequest host port channel filters)) frames)).1 =
          frames.map Frame.onWire ↔
        (∀ count, head ≤ reach sizes bufsize count →
          (encode (upgradeRequest host port channel filters)).length ≤
            reach sizes bufsize count) ∨
        frames = [] ∧ ∀ count, head ≤ reach sizes bufsize count →
          (encode (upgradeRequest host port channel filters)).length <
            reach sizes bufsize count + msgSize) := by
  obtain ⟨before, middle, split⟩ := upgradeRequest_tail host port channel filters
  generalize encode (upgradeRequest host port channel filters) = request at split ⊢
  obtain ⟨head, ends⟩ := Option.isSome_iff_exists.mp
    (headEnd_isSome before (middle ++ encode "Upgrade: socketcan\r\n") false)
  rw [← split] at ends
  refine ⟨head, ends, ?_⟩
  have within : head ≤ request.length := by
    have all := headEnd_take ends request.length
    rw [List.take_length, ends] at all
    exact all.mp rfl
  obtain ⟨stop, result, past, short⟩ := readHead_stops ends sizes bufsize
    (show head ≤ reach sizes bufsize 0 + request.length from
      Nat.le_trans within (Nat.le_add_left _ _)) nofun
  have least (count : Nat) (reaches : head ≤ reach sizes bufsize count) :
      reach sizes bufsize stop ≤ reach sizes bufsize count :=
    reach_mono (Nat.le_of_not_lt fun earlier =>
      Nat.lt_irrefl _ (Nat.lt_of_lt_of_le (short count earlier) reaches))
  have left : upgraded (chunks sizes) bufsize request frames =
      ⟨request.drop (reach sizes bufsize stop) ++ wireOf frames, stop⟩ := by
    simp only [upgraded]
    rw [show readHead (chunks sizes) bufsize request.length [] ⟨request, 0⟩ = _ from result]
  have ascii : (request.drop (reach sizes bufsize stop)).length < msgSize →
      IsAscii (request.drop (reach sizes bufsize stop)) := by
    rw [show request = (before ++ 13 :: 10 :: 13 :: 10 :: middle) ++
      encode "Upgrade: socketcan\r\n" by rw [split]; simp]
    exact isAscii_rest
  rw [left, recvAll_behind_text_iff classic ascii, List.drop_eq_nil_iff, List.length_drop]
  constructor
  · rintro (all | ⟨none, few⟩)
    · exact Or.inl fun count reaches => Nat.le_trans all (least count reaches)
    · refine Or.inr ⟨none, fun count reaches => ?_⟩
      have further := least count reaches
      omega
  · rintro (all | ⟨none, few⟩)
    · exact Or.inl (all stop past)
    · have enough := few stop past
      rw [msgSize] at enough ⊢
      exact Or.inr ⟨none, by omega⟩

theorem request_aligned_iff_segment :
    (recvAll (chunks fun _ => 8192) (upgraded (chunks fun _ => 8192) 8192
        (encode (upgradeRequest "127.0.0.1" 8000 "can0" none)) [⟨0x123, [1], false⟩])).1 =
      [⟨0x123, [1], false⟩].map Frame.onWire := by
  obtain ⟨head, ends, aligned⟩ := request_aligned_iff "127.0.0.1" 8000 "can0" none
    [⟨0x123, [1], false⟩] (by decide) (fun _ => 8192) 8192
  refine aligned.mpr (Or.inl fun count reaches => ?_)
  have within : head = 40 := Option.some.inj (ends.symm.trans (by decide))
  have length : (encode (upgradeRequest "127.0.0.1" 8000 "can0" none)).length = 103 := by decide
  have first : 1 ≤ count := by
    rcases Nat.eq_zero_or_pos count with rfl | positive
    · rw [within] at reaches
      exact absurd reaches (by decide)
    · exact positive
  have enough : reach (fun _ => 8192) 8192 1 ≤ reach (fun _ => 8192) 8192 count := reach_mono first
  exact Nat.le_trans (by rw [length]; decide) enough

/-- The lines that follow the first empty line are received as three frames. -/
theorem request_read_as_frames :
    ¬ (recvAll (chunks fun _ => 40) (upgraded (chunks fun _ => 40) 8192
        (encode (upgradeRequest "127.0.0.1" 8000 "can0" none)) [])).1 =
      [].map Frame.onWire := by
  decide +kernel

end Sockcan.Daemon
