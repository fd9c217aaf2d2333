import Sockcan.Protocol.Frame

/-! The stream receiver, over the bytes that its socket has still to deliver. What one
`recv` returns is decided by the network: some of the unread bytes, at least one and no
more than asked for, or an error. With nothing left to read the peer has closed. -/
namespace Sockcan.Protocol

/-- What the network makes of one `recv` call. A size out of range stands for the nearest
one that the socket can return. -/
inductive RecvCall where
  | chunk (size : Nat)
  | failed (strerror : String)
  deriving DecidableEq, Repr

/-- The reading end of a connection: the bytes not read yet and the calls made so far. -/
structure Inbound where
  unread : List UInt8
  calls : Nat
  deriving DecidableEq, Repr

/-- The reads of a connection on which no call fails. -/
def chunks (sizes : Nat → Nat) (call : Nat) : RecvCall := .chunk (sizes call)

def Inbound.recv (network : Nat → RecvCall) (inbound : Inbound) (bufsize : Nat) :
    Except String (List UInt8 × Inbound) :=
  match network inbound.calls with
  | .failed strerror => .error strerror
  | .chunk size =>
    let count := max 1 (min size bufsize)
    .ok (inbound.unread.take count, ⟨inbound.unread.drop count, inbound.calls + 1⟩)

/-- The errors that the receiver raises as `exc_class`. -/
inductive RecvError where
  | receiving (strerror : String)
  | closed
  | receivingMidFrame (strerror : String) (received : Nat)
  | closedMidFrame (received : Nat)
  deriving DecidableEq, Repr

def RecvError.message : RecvError → String
  | .receiving strerror => "Error receiving: " ++ strerror
  | .closed => "Connection closed by peer"
  | .receivingMidFrame strerror received =>
    "Error receiving: " ++ strerror ++ " (mid-frame, got " ++ toString received ++
      " bytes out of " ++ toString msgSize ++ ")"
  | .closedMidFrame received =>
    "Connection closed by peer mid-frame: got " ++ toString received ++ " bytes out of " ++
      toString msgSize

/-- The loop of `_complete_frame`, whose every round reads a byte or raises: `rounds` is
a bound on what is missing of the frame. -/
def completeFrame (network : Nat → RecvCall) :
    (rounds : Nat) → List UInt8 → Inbound → Except RecvError (List UInt8 × Inbound)
  | 0, received, inbound => .ok (received, inbound)
  | rounds + 1, received, inbound =>
    if received.length < msgSize then
      match inbound.recv network (msgSize - received.length) with
      | .error strerror => .error (.receivingMidFrame strerror received.length)
      | .ok ([], _) => .error (.closedMidFrame received.length)
      | .ok (chunk, next) => completeFrame network rounds (received ++ chunk) next
    else .ok (received, inbound)

def socketcanRecvStream (network : Nat → RecvCall) (inbound : Inbound) :
    Except RecvError (Frame × Inbound) :=
  match inbound.recv network msgSize with
  | .error strerror => .error (.receiving strerror)
  | .ok ([], _) => .error .closed
  | .ok (cf, next) =>
    if cf.length < msgSize then
      (completeFrame network (msgSize - cf.length) cf next).map fun (cf, next) =>
        (decodeFrame cf, next)
    else .ok (decodeFrame cf, next)

/-- What `calls` successive calls of the receiver return before the first one that
raises, and the connection as that one finds it. -/
def recvUpTo (network : Nat → RecvCall) : (calls : Nat) → Inbound → List Frame × Inbound
  | 0, inbound => ([], inbound)
  | calls + 1, inbound =>
    match socketcanRecvStream network inbound with
    | .error _ => ([], inbound)
    | .ok (frame, next) =>
      let (frames, last) := recvUpTo network calls next
      (frame :: frames, last)

/-- All that the receiver ever returns: no frame is shorter than a byte. -/
def recvAll (network : Nat → RecvCall) (inbound : Inbound) : List Frame × Inbound :=
  recvUpTo network inbound.unread.length inbound

section
variable (sizes : Nat → Nat) (calls : Nat) {received missing cf part : List UInt8}
  {frames : List (List UInt8)}

theorem Inbound.recv_chunks (unread : List UInt8) {bufsize : Nat} (positive : 0 < bufsize) :
    ∃ count, 1 ≤ count ∧ count ≤ bufsize ∧
      Inbound.recv (chunks sizes) ⟨unread, calls⟩ bufsize =
        .ok (unread.take count, ⟨unread.drop count, calls + 1⟩) := by
  refine ⟨max 1 (min (sizes calls) bufsize), ?_, ?_, rfl⟩ <;> omega

/-- However the rest of a frame is cut, the loop puts it together and leaves the bytes
after it. -/
theorem completeFrame_whole (rest : List UInt8) {rounds : Nat}
    (whole : received.length + missing.length = msgSize) (enough : missing.length ≤ rounds) :
    ∃ last, completeFrame (chunks sizes) rounds received ⟨missing ++ rest, calls⟩ =
      .ok (received ++ missing, ⟨rest, last⟩) := by
  induction rounds generalizing received missing calls with
  | zero =>
    obtain rfl := List.length_eq_zero_iff.mp (Nat.le_zero.mp enough)
    exact ⟨calls, by simp [completeFrame]⟩
  | succ rounds ih =>
    by_cases short : received.length < msgSize
    · obtain ⟨count, positive, bound, read⟩ :=
        Inbound.recv_chunks sizes calls (missing ++ rest) (Nat.sub_pos_of_lt short)
      have inside : count ≤ missing.length := by omega
      rw [List.take_append_of_le_length inside, List.drop_append_of_le_length inside] at read
      obtain ⟨first, others, split⟩ : ∃ first others, missing.take count = first :: others := by
        apply List.exists_cons_of_length_pos
        rw [List.length_take]
        omega
      have joined : (received ++ missing.take count).length + (missing.drop count).length =
          msgSize := by
        rw [List.length_append, List.length_take, List.length_drop]
        omega
      have fewer : (missing.drop count).length ≤ rounds := by
        rw [List.length_drop]
        omega
      obtain ⟨last, done⟩ := ih (calls + 1) joined fewer
      refine ⟨last, ?_⟩
      rw [List.append_assoc, List.take_append_drop] at done
      simpa only [completeFrame, short, if_true, read, split] using done
    · have empty : missing.length = 0 := by omega
      obtain rfl := List.length_eq_zero_iff.mp empty
      exact ⟨calls, by simp [completeFrame, short]⟩

/-- Where the stream ends inside a frame, the loop raises. -/
theorem completeFrame_short {unread : List UInt8} {rounds : Nat}
    (short : received.length + unread.length < msgSize) (enough : unread.length < rounds) :
    ∃ error, completeFrame (chunks sizes) rounds received ⟨unread, calls⟩ = .error error := by
  induction rounds generalizing received unread calls with
  | zero => omega
  | succ rounds ih =>
    have begun : received.length < msgSize := by omega
    obtain ⟨count, positive, bound, read⟩ :=
      Inbound.recv_chunks sizes calls unread (Nat.sub_pos_of_lt begun)
    cases split : unread.take count with
    | nil =>
      refine ⟨.closedMidFrame received.length, ?_⟩
      simp only [completeFrame, begun, if_true, read, split]
    | cons first others =>
      have nonempty := congrArg List.length split
      rw [List.length_take, List.length_cons] at nonempty
      have joined : (received ++ unread.take count).length + (unread.drop count).length <
          msgSize := by
        rw [List.length_append, List.length_take, List.length_drop]
        omega
      have fewer : (unread.drop count).length < rounds := by
        rw [List.length_drop]
        omega
      obtain ⟨error, raised⟩ := ih (calls + 1) joined fewer
      refine ⟨error, ?_⟩
      simpa only [completeFrame, begun, if_true, read, split] using raised

/-- One call takes exactly the next sixteen bytes. -/
theorem socketcanRecvStream_whole (rest : List UInt8) (whole : cf.length = msgSize) :
    ∃ last, socketcanRecvStream (chunks sizes) ⟨cf ++ rest, calls⟩ =
      .ok (decodeFrame cf, ⟨rest, last⟩) := by
  obtain ⟨count, positive, bound, read⟩ :=
    Inbound.recv_chunks sizes calls (cf ++ rest) (show 0 < msgSize by decide)
  have inside : count ≤ cf.length := by omega
  rw [List.take_append_of_le_length inside, List.drop_append_of_le_length inside] at read
  obtain ⟨first, others, split⟩ : ∃ first others, cf.take count = first :: others := by
    apply List.exists_cons_of_length_pos
    rw [List.length_take]
    omega
  have taken : (cf.take count).length = count := List.length_take_of_le inside
  by_cases short : count < msgSize
  · have joined : (cf.take count).length + (cf.drop count).length = msgSize := by
      rw [taken, List.length_drop]
      omega
    have enough : (cf.drop count).length ≤ msgSize - count := by
      rw [List.length_drop]
      omega
    obtain ⟨last, done⟩ := completeFrame_whole sizes (calls + 1) rest joined enough
    refine ⟨last, ?_⟩
    rw [List.take_append_drop] at done
    simp only [socketcanRecvStream, read, split]
    rw [← split, taken, if_pos short, done]
    rfl
  · have all : count = msgSize := by omega
    refine ⟨calls + 1, ?_⟩
    simp only [socketcanRecvStream, read, split]
    rw [← split, taken, if_neg short]
    simp [all, ← whole]

theorem socketcanRecvStream_short {unread : List UInt8} (short : unread.length < msgSize) :
    ∃ error, socketcanRecvStream (chunks sizes) ⟨unread, calls⟩ = .error error := by
  obtain ⟨count, positive, bound, read⟩ :=
    Inbound.recv_chunks sizes calls unread (show 0 < msgSize by decide)
  cases split : unread.take count with
  | nil =>
    refine ⟨.closed, ?_⟩
    simp only [socketcanRecvStream, read, split]
  | cons first others =>
    have lengths : (unread.take count).length + (unread.drop count).length < msgSize := by
      rw [List.length_take, List.length_drop]
      omega
    have begun : (unread.take count).length < msgSize := by omega
    have enough : (unread.drop count).length < msgSize - (unread.take count).length := by omega
    obtain ⟨error, raised⟩ := completeFrame_short sizes (calls + 1) lengths enough
    refine ⟨error, ?_⟩
    simp only [socketcanRecvStream, read, split]
    rw [← split, if_pos begun, raised]
    rfl

theorem recvUpTo_framed {bound : Nat} (whole : ∀ cf ∈ frames, cf.length = msgSize)
    (short : part.length < msgSize) (enough : frames.length ≤ bound) :
    ∃ last, recvUpTo (chunks sizes) bound ⟨frames.flatten ++ part, calls⟩ =
      (frames.map decodeFrame, ⟨part, last⟩) := by
  induction frames generalizing bound calls with
  | nil =>
    cases bound with
    | zero => exact ⟨calls, rfl⟩
    | succ bound =>
      obtain ⟨error, raised⟩ := socketcanRecvStream_short sizes calls short
      exact ⟨calls, by simp [recvUpTo, raised]⟩
  | cons cf frames ih =>
    obtain ⟨bound, rfl⟩ : ∃ fewer, bound = fewer + 1 :=
      Nat.exists_eq_succ_of_ne_zero (Nat.ne_of_gt (Nat.lt_of_lt_of_le (Nat.succ_pos _) enough))
    obtain ⟨next, received⟩ := socketcanRecvStream_whole sizes calls
      (frames.flatten ++ part) (whole cf List.mem_cons_self)
    obtain ⟨last, later⟩ := ih next
      (fun cf member => whole cf (List.mem_cons_of_mem _ member)) (Nat.le_of_succ_le_succ enough)
    refine ⟨last, ?_⟩
    rw [List.flatten_cons, List.append_assoc]
    simp only [recvUpTo, received, later, List.map_cons]

theorem flatten_length (whole : ∀ cf ∈ frames, cf.length = msgSize) :
    frames.flatten.length = msgSize * frames.length := by
  induction frames with
  | nil => rfl
  | cons cf frames ih =>
    rw [List.flatten_cons, List.length_append, whole cf List.mem_cons_self, List.length_cons,
      ih fun cf member => whole cf (List.mem_cons_of_mem _ member), Nat.mul_succ, Nat.add_comm]

/-- What is received is decided by the bytes alone, however the reads cut them: the whole
frames, in order, and the bytes after the last of them stay unread. -/
theorem recvAll_framed (whole : ∀ cf ∈ frames, cf.length = msgSize)
    (short : part.length < msgSize) :
    ∃ last, recvAll (chunks sizes) ⟨frames.flatten ++ part, calls⟩ =
      (frames.map decodeFrame, ⟨part, last⟩) := by
  apply recvUpTo_framed sizes calls whole short
  rw [List.length_append, flatten_length whole, msgSize]
  omega

end

section
variable {network : Nat → RecvCall} {inbound : Inbound}

/-- The sizes of the calls that do not fail. -/
def sizesOf (network : Nat → RecvCall) (call : Nat) : Nat :=
  match network call with
  | .chunk size => size
  | .failed _ => 0

theorem Inbound.recv_sizesOf {bufsize : Nat} {result : List UInt8 × Inbound}
    (returns : inbound.recv network bufsize = .ok result) :
    inbound.recv (chunks (sizesOf network)) bufsize = .ok result := by
  cases given : network inbound.calls with
  | failed strerror =>
    simp only [Inbound.recv, given] at returns
    contradiction
  | chunk size =>
    simp only [Inbound.recv, chunks, sizesOf, given] at returns ⊢
    exact returns

theorem completeFrame_sizesOf {rounds : Nat} {received : List UInt8}
    {result : List UInt8 × Inbound}
    (returns : completeFrame network rounds received inbound = .ok result) :
    completeFrame (chunks (sizesOf network)) rounds received inbound = .ok result := by
  induction rounds generalizing received inbound with
  | zero => exact returns
  | succ rounds ih =>
    by_cases short : received.length < msgSize
    · simp only [completeFrame, short, if_true] at returns ⊢
      cases read : inbound.recv network (msgSize - received.length) with
      | error strerror =>
        rw [read] at returns
        contradiction
      | ok answer =>
        obtain ⟨chunk, next⟩ := answer
        rw [Inbound.recv_sizesOf read]
        rw [read] at returns
        cases chunk with
        | nil => contradiction
        | cons first others => exact ih returns
    · simp only [completeFrame, short, if_false] at returns ⊢
      exact returns

/-- A call that returns goes as if no read could fail. -/
theorem socketcanRecvStream_sizesOf {result : Frame × Inbound}
    (returns : socketcanRecvStream network inbound = .ok result) :
    socketcanRecvStream (chunks (sizesOf network)) inbound = .ok result := by
  unfold socketcanRecvStream at returns ⊢
  cases read : inbound.recv network msgSize with
  | error strerror =>
    rw [read] at returns
    contradiction
  | ok answer =>
    obtain ⟨chunk, next⟩ := answer
    rw [Inbound.recv_sizesOf read]
    rw [read] at returns
    cases chunk with
    | nil => contradiction
    | cons first others =>
      dsimp only at returns ⊢
      split at returns
      next short =>
        cases rest : completeFrame network (msgSize - (first :: others).length)
            (first :: others) next with
        | error error =>
          rw [rest] at returns
          contradiction
        | ok whole =>
          rw [rest] at returns
          rw [if_pos short, completeFrame_sizesOf rest]
          exact returns
      next whole =>
        rw [if_neg whole]
        exact returns

/-- What the receiver returns, when it does, is the next frame. -/
theorem socketcanRecvStream_returned {cf rest : List UInt8} {calls : Nat} {frame : Frame}
    {next : Inbound} (whole : cf.length = msgSize)
    (returns : socketcanRecvStream network ⟨cf ++ rest, calls⟩ = .ok (frame, next)) :
    frame = decodeFrame cf ∧ next.unread = rest := by
  have quiet := socketcanRecvStream_sizesOf returns
  obtain ⟨last, same⟩ := socketcanRecvStream_whole (sizesOf network) calls rest whole
  have both := Except.ok.inj (quiet.symm.trans same)
  rw [Prod.mk.injEq] at both
  exact ⟨both.1, congrArg Inbound.unread both.2⟩

end

end Sockcan.Protocol
