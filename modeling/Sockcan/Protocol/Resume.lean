import Sockcan.Protocol.Receive

/-! The stream receiver whose caller goes on after an error. The connection is kept with
every result here: a call that raises has used up the calls it made, and the bytes that it
read before are gone with its locals. -/
namespace Sockcan.Protocol.Resume

/-- A call that fails leaves the bytes and is made. -/
def recv (network : Nat → RecvCall) (inbound : Inbound) (bufsize : Nat) :
    Except String (List UInt8) × Inbound :=
  match network inbound.calls with
  | .failed strerror => (.error strerror, ⟨inbound.unread, inbound.calls + 1⟩)
  | .chunk size =>
    let count := max 1 (min size bufsize)
    (.ok (inbound.unread.take count), ⟨inbound.unread.drop count, inbound.calls + 1⟩)

def completeFrame (network : Nat → RecvCall) :
    (rounds : Nat) → List UInt8 → Inbound → Except RecvError (List UInt8) × Inbound
  | 0, received, inbound => (.ok received, inbound)
  | rounds + 1, received, inbound =>
    if received.length < msgSize then
      match recv network inbound (msgSize - received.length) with
      | (.error strerror, next) => (.error (.receivingMidFrame strerror received.length), next)
      | (.ok [], next) => (.error (.closedMidFrame received.length), next)
      | (.ok chunk, next) => completeFrame network rounds (received ++ chunk) next
    else (.ok received, inbound)

def socketcanRecvStream (network : Nat → RecvCall) (inbound : Inbound) :
    Except RecvError Frame × Inbound :=
  match recv network inbound msgSize with
  | (.error strerror, next) => (.error (.receiving strerror), next)
  | (.ok [], next) => (.error .closed, next)
  | (.ok cf, next) =>
    if cf.length < msgSize then
      let (frame, last) := completeFrame network (msgSize - cf.length) cf next
      (frame.map decodeFrame, last)
    else (.ok (decodeFrame cf), next)

/-- One more call of a caller who goes on, raised or not. -/
def again (network : Nat → RecvCall) (received : List Frame × Inbound) : List Frame × Inbound :=
  match socketcanRecvStream network received.2 with
  | (.error _, next) => (received.1, next)
  | (.ok frame, next) => (received.1 ++ [frame], next)

/-- What `times` successive calls of the receiver return, and the connection after them. -/
def recvTimes (network : Nat → RecvCall) (inbound : Inbound) : (times : Nat) → List Frame × Inbound
  | 0 => ([], inbound)
  | times + 1 => again network (recvTimes network inbound times)

/-- The result of a call whose caller gives the connection up when it raises. -/
def upToError {ε α : Type} : Except ε α × Inbound → Except ε (α × Inbound)
  | (.ok value, next) => .ok (value, next)
  | (.error error, _) => .error error

theorem upToError_recv (network : Nat → RecvCall) (inbound : Inbound) (bufsize : Nat) :
    upToError (recv network inbound bufsize) = inbound.recv network bufsize := by
  cases given : network inbound.calls <;> simp only [recv, Inbound.recv, given, upToError]

theorem upToError_completeFrame (network : Nat → RecvCall) (rounds : Nat)
    (received : List UInt8) (inbound : Inbound) :
    upToError (completeFrame network rounds received inbound) =
      Protocol.completeFrame network rounds received inbound := by
  induction rounds generalizing received inbound with
  | zero => rfl
  | succ rounds ih =>
    unfold completeFrame Protocol.completeFrame
    rw [← upToError_recv]
    by_cases short : received.length < msgSize
    · simp only [short, if_true]
      cases recv network inbound (msgSize - received.length) with
      | mk outcome next =>
        cases outcome with
        | error strerror => rfl
        | ok chunk =>
          cases chunk with
          | nil => rfl
          | cons first others => exact ih _ _
    · simp only [short, if_false]
      rfl

/-- Up to its first error the receiver is the one of a caller who stops there. -/
theorem upToError_socketcanRecvStream (network : Nat → RecvCall) (inbound : Inbound) :
    upToError (socketcanRecvStream network inbound) =
      Protocol.socketcanRecvStream network inbound := by
  unfold socketcanRecvStream Protocol.socketcanRecvStream
  rw [← upToError_recv]
  cases recv network inbound msgSize with
  | mk outcome next =>
    cases outcome with
    | error strerror => rfl
    | ok cf =>
      cases cf with
      | nil => rfl
      | cons first others =>
        by_cases short : (first :: others).length < msgSize
        · simp only [upToError, short, if_true]
          rw [← upToError_completeFrame]
          cases completeFrame network (msgSize - (first :: others).length) (first :: others)
            next with
          | mk outcome last => cases outcome <;> rfl
        · simp only [upToError, short, if_false]

def Fails (network : Nat → RecvCall) (call : Nat) : Prop :=
  ∃ strerror, network call = .failed strerror

/-- The bytes that the first calls return when each of them asks for what is missing up to
the next multiple of the frame size. -/
def reach (network : Nat → RecvCall) : Nat → Nat
  | 0 => 0
  | calls + 1 =>
    match network calls with
    | .failed _ => reach network calls
    | .chunk size =>
      reach network calls + max 1 (min size (msgSize - reach network calls % msgSize))

variable {network : Nat → RecvCall} {cf rest : List UInt8} {base got calls rounds : Nat}

theorem reach_failed {strerror : String} (fails : network calls = .failed strerror) :
    reach network (calls + 1) = reach network calls := by
  simp only [reach, fails]

theorem reach_chunk {size : Nat} (returns : network calls = .chunk size)
    (aligned : base % msgSize = 0) (inside : got < msgSize)
    (here : reach network calls = base + got) :
    reach network (calls + 1) = base + got + max 1 (min size (msgSize - got)) := by
  have place : (base + got) % msgSize = got := by
    rw [Nat.add_mod, aligned, Nat.zero_add, Nat.mod_mod, Nat.mod_eq_of_lt inside]
  simp only [reach, returns, here, place]

/-- The rest of a frame: it is completed without a failure, or the first failure finds the
stream inside it. -/
inductive Rest (network : Nat → RecvCall) (cf rest : List UInt8) (base calls : Nat) :
    Except RecvError (List UInt8) × Inbound → Prop where
  | completed (last : Nat) (later : calls ≤ last) (reached : reach network last = base + msgSize)
      (quiet : ∀ call, calls ≤ call → call < last → ¬ Fails network call) :
      Rest network cf rest base calls (.ok cf, ⟨rest, last⟩)
  | lost (broken : Nat) (error : RecvError) (later : calls ≤ broken)
      (fails : Fails network broken) (begun : base < reach network broken)
      (unfinished : reach network broken < base + msgSize) :
      Rest network cf rest base calls
        (.error error, ⟨cf.drop (reach network broken - base) ++ rest, broken + 1⟩)

theorem Rest.earlier {result : Except RecvError (List UInt8) × Inbound}
    (quiet : ¬ Fails network calls) (later : Rest network cf rest base (calls + 1) result) :
    Rest network cf rest base calls result := by
  cases later with
  | completed last later reached others =>
    apply Rest.completed last (by omega) reached
    intro call first before
    by_cases here : call = calls
    · rw [here]
      exact quiet
    · exact others call (by omega) before
  | lost broken error later fails begun unfinished =>
    exact Rest.lost broken error (by omega) fails begun unfinished

theorem Rest.whole (whole : cf.length = msgSize)
    (here : reach network calls = base + msgSize) :
    Rest network cf rest base calls (.ok (cf.take msgSize), ⟨cf.drop msgSize ++ rest, calls⟩) := by
  rw [← whole, List.take_length, List.drop_length, List.nil_append]
  apply Rest.completed calls (Nat.le_refl calls) here
  intro call first before
  omega

theorem Rest.failed (got : Nat) {strerror : String} (error : RecvError)
    (fails : network calls = .failed strerror) (begun : 1 ≤ got) (inside : got < msgSize)
    (here : reach network calls = base + got) :
    Rest network cf rest base calls (.error error, ⟨cf.drop got ++ rest, calls + 1⟩) := by
  have lost : Rest network cf rest base calls
      (.error error, ⟨cf.drop (reach network calls - base) ++ rest, calls + 1⟩) :=
    Rest.lost calls error (Nat.le_refl calls) ⟨strerror, fails⟩ (by omega) (by omega)
  rwa [here, Nat.add_sub_cancel_left] at lost

/-- What is read next of a frame that has not been read to its end. -/
theorem take_chunk (rest : List UInt8) (whole : cf.length = msgSize) {count : Nat}
    (positive : 1 ≤ count) (bound : count ≤ msgSize - got) :
    (∃ first others, (cf.drop got ++ rest).take count = first :: others) ∧
      cf.take got ++ (cf.drop got ++ rest).take count = cf.take (got + count) ∧
      (cf.drop got ++ rest).drop count = cf.drop (got + count) ++ rest := by
  have missing : count ≤ (cf.drop got).length := by
    rw [List.length_drop, whole]
    exact bound
  rw [List.take_append_of_le_length missing, List.drop_append_of_le_length missing]
  constructor
  · apply List.exists_cons_of_length_pos
    rw [List.length_take]
    omega
  · constructor
    · rw [List.take_add]
    · rw [List.drop_drop]

theorem not_fails {size : Nat} (returns : network calls = .chunk size) :
    ¬ Fails network calls := by
  rintro ⟨strerror, fails⟩
  rw [returns] at fails
  contradiction

/-- The loop of `_complete_frame`, inside a frame that starts at a multiple of its size. -/
theorem completeFrame_rest (whole : cf.length = msgSize) (aligned : base % msgSize = 0)
    (begun : 1 ≤ got) (within : got ≤ msgSize) (here : reach network calls = base + got)
    (enough : msgSize - got ≤ rounds) :
    Rest network cf rest base calls
      (completeFrame network rounds (cf.take got) ⟨cf.drop got ++ rest, calls⟩) := by
  induction rounds generalizing got calls with
  | zero =>
    obtain rfl : got = msgSize := by omega
    exact Rest.whole whole here
  | succ rounds ih =>
    have read : (cf.take got).length = got := List.length_take_of_le (whole ▸ within)
    by_cases inside : got < msgSize
    · cases given : network calls with
      | failed strerror =>
        simp only [completeFrame, read, inside, if_true, recv, given]
        exact Rest.failed got _ given begun inside here
      | chunk size =>
        let count := max 1 (min size (msgSize - got))
        have positive : 1 ≤ count := Nat.le_max_left _ _
        have bound : count ≤ msgSize - got := by omega
        obtain ⟨⟨first, others, chunk⟩, joined, left⟩ := take_chunk rest whole positive bound
        have next : reach network (calls + 1) = base + (got + count) := by
          rw [reach_chunk given aligned inside here, Nat.add_assoc]
        have later : Rest network cf rest base (calls + 1) _ :=
          ih (by omega) (by omega) next (by omega)
        simp only [completeFrame, read, inside, if_true, recv, given]
        rw [show max 1 (min size (msgSize - got)) = count from rfl, left, chunk]
        rw [← joined, chunk] at later
        exact later.earlier (not_fails given)
    · obtain rfl : got = msgSize := by omega
      simp only [completeFrame, read, Nat.lt_irrefl, if_false]
      exact Rest.whole whole here

/-- One call of the receiver at the start of a frame. Beside the two ends of the loop there
is the failure before the first byte, which leaves the stream where it was. -/
inductive Call (network : Nat → RecvCall) (cf rest : List UInt8) (base calls : Nat) :
    Except RecvError Frame × Inbound → Prop where
  | untouched (error : RecvError) (fails : Fails network calls)
      (here : reach network (calls + 1) = base) :
      Call network cf rest base calls (.error error, ⟨cf ++ rest, calls + 1⟩)
  | returned (last : Nat) (later : calls < last) (reached : reach network last = base + msgSize)
      (quiet : ∀ call, calls ≤ call → call < last → ¬ Fails network call) :
      Call network cf rest base calls (.ok (decodeFrame cf), ⟨rest, last⟩)
  | lost (broken : Nat) (error : RecvError) (later : calls < broken)
      (fails : Fails network broken) (begun : base < reach network broken)
      (unfinished : reach network broken < base + msgSize) :
      Call network cf rest base calls
        (.error error, ⟨cf.drop (reach network broken - base) ++ rest, broken + 1⟩)

/-- What the loop makes of a frame whose first part a call has returned. -/
theorem Rest.call {result : Except RecvError (List UInt8) × Inbound}
    (quiet : ¬ Fails network calls) (later : Rest network cf rest base (calls + 1) result) :
    Call network cf rest base calls (result.1.map decodeFrame, result.2) := by
  cases later.earlier quiet with
  | completed last _ reached others =>
    apply Call.returned last _ reached others
    cases later with
    | completed _ later _ _ => exact later
  | lost broken error _ fails begun unfinished =>
    have after : calls < broken := by
      apply Nat.lt_of_le_of_ne ‹calls ≤ broken›
      rintro rfl
      exact quiet fails
    exact Call.lost broken error after fails begun unfinished

theorem socketcanRecvStream_call (whole : cf.length = msgSize) (aligned : base % msgSize = 0)
    (here : reach network calls = base) :
    Call network cf rest base calls (socketcanRecvStream network ⟨cf ++ rest, calls⟩) := by
  cases given : network calls with
  | failed strerror =>
    simp only [socketcanRecvStream, recv, given]
    exact Call.untouched _ ⟨strerror, given⟩ ((reach_failed given).trans here)
  | chunk size =>
    let count := max 1 (min size msgSize)
    have positive : 1 ≤ count := Nat.le_max_left _ _
    have bound : count ≤ msgSize - 0 := by
      simp only [count, msgSize]
      omega
    have quiet := not_fails given
    have next : reach network (calls + 1) = base + count := by
      rw [reach_chunk given aligned (show 0 < msgSize by decide) here]
      rfl
    obtain ⟨⟨first, others, chunk⟩, joined, left⟩ := take_chunk rest whole positive bound
    rw [List.drop_zero] at chunk joined left
    rw [List.take_zero, List.nil_append, Nat.zero_add] at joined
    rw [Nat.zero_add] at left
    have read : (cf.take count).length = count := List.length_take_of_le (whole ▸ bound)
    simp only [socketcanRecvStream, recv, given]
    rw [show max 1 (min size msgSize) = count from rfl, left, chunk]
    simp only [← chunk, joined, read]
    by_cases inside : count < msgSize
    · have later : Rest network cf rest base (calls + 1) _ :=
        completeFrame_rest whole aligned positive bound next (Nat.le_refl (msgSize - count))
      rw [if_pos inside]
      exact later.call quiet
    · have all : count = msgSize := Nat.le_antisymm bound (Nat.le_of_not_lt inside)
      rw [if_neg inside, all]
      rw [all] at next
      exact (Rest.whole whole next).call quiet

theorem reach_le_succ (network : Nat → RecvCall) (calls : Nat) :
    reach network calls ≤ reach network (calls + 1) := by
  simp only [reach]
  split
  · exact Nat.le_refl _
  · exact Nat.le_add_right _ _

/-- The stream has been read to its end. -/
theorem socketcanRecvStream_nil (network : Nat → RecvCall) (calls : Nat) :
    ∃ error, socketcanRecvStream network ⟨[], calls⟩ = (.error error, ⟨[], calls + 1⟩) := by
  cases given : network calls with
  | failed strerror => exact ⟨.receiving strerror, by simp [socketcanRecvStream, recv, given]⟩
  | chunk size => exact ⟨.closed, by simp [socketcanRecvStream, recv, given]⟩

/-- No call fails with a part of a frame read. -/
def Unbroken (network : Nat → RecvCall) (cfs : List (List UInt8)) : Prop :=
  ∀ call, reach network call < msgSize * cfs.length → Fails network call →
    reach network call % msgSize = 0

/-- After so many calls of the receiver it has returned the first frames of the stream, each
of them once and in order, and all the others are still to be read. -/
def ReturnsFrames (network : Nat → RecvCall) (cfs : List (List UInt8)) (times : Nat) : Prop :=
  ∃ k, (recvTimes network ⟨cfs.flatten, 0⟩ times).1 = (cfs.take k).map decodeFrame ∧
    (recvTimes network ⟨cfs.flatten, 0⟩ times).2.unread = (cfs.drop k).flatten

/-- The first `k` frames are read, and no call so far failed inside a frame. -/
structure At (network : Nat → RecvCall) (cfs : List (List UInt8)) (k : Nat)
    (received : List Frame × Inbound) : Prop where
  frames : received.1 = (cfs.take k).map decodeFrame
  unread : received.2.unread = (cfs.drop k).flatten
  within : k ≤ cfs.length
  reached : msgSize * k ≤ reach network received.2.calls
  place : k < cfs.length → reach network received.2.calls = msgSize * k
  quiet : ∀ call < received.2.calls, reach network call < msgSize * cfs.length →
    Fails network call → reach network call % msgSize = 0

section
variable {cfs : List (List UInt8)} {k last : Nat} {frames : List Frame} {unread : List UInt8}

theorem At.start (network : Nat → RecvCall) (cfs : List (List UInt8)) :
    At network cfs 0 ([], ⟨cfs.flatten, 0⟩) := by
  constructor
  · rfl
  · rfl
  · exact Nat.zero_le _
  · exact Nat.le_refl 0
  · intro _
    rfl
  · intro call before
    contradiction

/-- A call that fails between two frames. -/
theorem At.untouched (stands : At network cfs k (frames, ⟨unread, calls⟩)) (more : k < cfs.length)
    (stays : reach network (calls + 1) = msgSize * k) :
    At network cfs k (frames, ⟨unread, calls + 1⟩) := by
  constructor
  · exact stands.frames
  · exact stands.unread
  · exact stands.within
  · exact Nat.le_of_eq stays.symm
  · intro _
    exact stays
  · intro call before inside fails
    by_cases here : call = calls
    · rw [here, stands.place more]
      exact Nat.mul_mod_right msgSize k
    · exact stands.quiet call (Nat.lt_of_le_of_ne (Nat.le_of_lt_succ before) here) inside fails

theorem At.returned (stands : At network cfs k (frames, ⟨unread, calls⟩)) (more : k < cfs.length)
    (reached : reach network last = msgSize * k + msgSize)
    (quiet : ∀ call, calls ≤ call → call < last → ¬ Fails network call) :
    At network cfs (k + 1)
      (frames ++ [decodeFrame cfs[k]], ⟨(cfs.drop (k + 1)).flatten, last⟩) := by
  constructor
  · rw [show frames = (cfs.take k).map decodeFrame from stands.frames,
      List.take_succ_eq_append_getElem more, List.map_append, List.map_singleton]
  · rfl
  · exact more
  · exact Nat.le_of_eq reached.symm
  · intro _
    exact reached
  · intro call before inside fails
    by_cases earlier : call < calls
    · exact stands.quiet call earlier inside fails
    · exact absurd fails (quiet call (Nat.le_of_not_lt earlier) before)

/-- The calls that the end of the stream answers leave it there. -/
theorem At.ended (stands : At network cfs cfs.length (frames, ⟨unread, calls⟩)) :
    At network cfs cfs.length (frames, ⟨unread, calls + 1⟩) := by
  have reached := stands.reached
  constructor
  · exact stands.frames
  · exact stands.unread
  · exact stands.within
  · exact Nat.le_trans reached (reach_le_succ network calls)
  · intro more
    exact absurd more (Nat.lt_irrefl _)
  · intro call before inside fails
    by_cases here : call = calls
    · rw [here] at inside
      exact absurd inside (Nat.not_lt.mpr reached)
    · exact stands.quiet call (Nat.lt_of_le_of_ne (Nat.le_of_lt_succ before) here) inside fails

/-- What is left of a frame that was not completed, and the frames after it. -/
theorem lost_length (whole : ∀ cf ∈ cfs, cf.length = msgSize) (left : cf.length = msgSize)
    (positive : 0 < got) (short : got < msgSize) :
    (cf.drop got ++ cfs.flatten).length % msgSize ≠ 0 := by
  rw [List.length_append, List.length_drop, left, flatten_length whole, Nat.add_mul_mod_self_left,
    Nat.mod_eq_of_lt] <;> omega

theorem not_unbroken (more : k < cfs.length) {broken : Nat} (fails : Fails network broken)
    (begun : msgSize * k < reach network broken)
    (unfinished : reach network broken < msgSize * k + msgSize) : ¬ Unbroken network cfs := by
  intro unbroken
  have inside : reach network broken < msgSize * cfs.length :=
    Nat.lt_of_lt_of_le unfinished (Nat.mul_le_mul_left msgSize more)
  have aligned := unbroken broken inside fails
  simp only [msgSize] at aligned begun unfinished
  omega

/-- One more call goes on to the next frame, or stays, or leaves a part of a frame behind. -/
theorem At.again {received : List Frame × Inbound}
    (whole : ∀ cf ∈ cfs, cf.length = msgSize) (stands : At network cfs k received) :
    (∃ k, At network cfs k (again network received) ∧
        received.2.calls < (again network received).2.calls) ∨
      ((again network received).2.unread.length % msgSize ≠ 0 ∧ ¬ Unbroken network cfs) := by
  obtain ⟨frames, unread, calls⟩ := received
  by_cases more : k < cfs.length
  · have first : cfs[k].length = msgSize := whole _ (List.getElem_mem more)
    have rest : unread = cfs[k] ++ (cfs.drop (k + 1)).flatten := by
      rw [show unread = (cfs.drop k).flatten from stands.unread, List.drop_eq_getElem_cons more,
        List.flatten_cons]
    have call : Call network cfs[k] (cfs.drop (k + 1)).flatten (msgSize * k) calls
        (socketcanRecvStream network ⟨unread, calls⟩) :=
      rest ▸ socketcanRecvStream_call first (Nat.mul_mod_right msgSize k) (stands.place more)
    simp only [Resume.again]
    generalize socketcanRecvStream network ⟨unread, calls⟩ = result at call
    cases call with
    | untouched error fails stays =>
      left
      rw [← rest]
      exact ⟨k, stands.untouched more stays, Nat.lt_succ_self calls⟩
    | returned last later reached quiet =>
      left
      exact ⟨k + 1, stands.returned more reached quiet, later⟩
    | lost broken error later fails begun unfinished =>
      right
      constructor
      · apply lost_length (fun cf member => whole cf (List.mem_of_mem_drop member)) first <;> omega
      · exact not_unbroken more fails begun unfinished
  · obtain rfl : k = cfs.length := Nat.le_antisymm stands.within (Nat.le_of_not_lt more)
    obtain rfl : unread = [] := by
      have unread := stands.unread
      rwa [List.drop_length, List.flatten_nil] at unread
    obtain ⟨error, raised⟩ := socketcanRecvStream_nil network calls
    left
    simp only [Resume.again, raised]
    exact ⟨cfs.length, stands.ended, Nat.lt_succ_self calls⟩

theorem ReturnsFrames.whole {times : Nat} (whole : ∀ cf ∈ cfs, cf.length = msgSize)
    (returns : ReturnsFrames network cfs times) :
    (recvTimes network ⟨cfs.flatten, 0⟩ times).2.unread.length % msgSize = 0 := by
  obtain ⟨k, _, unread⟩ := returns
  rw [unread, flatten_length fun cf member => whole cf (List.mem_of_mem_drop member)]
  exact Nat.mul_mod_right msgSize _

/-- As long as nothing is lost, every number of calls ends between two frames, and makes
as many calls of the socket at least. -/
theorem recvTimes_at (whole : ∀ cf ∈ cfs, cf.length = msgSize)
    (keeps : Unbroken network cfs ∨ ∀ times, ReturnsFrames network cfs times) (times : Nat) :
    ∃ k, At network cfs k (recvTimes network ⟨cfs.flatten, 0⟩ times) ∧
      times ≤ (recvTimes network ⟨cfs.flatten, 0⟩ times).2.calls := by
  induction times with
  | zero => exact ⟨0, At.start network cfs, Nat.le_refl 0⟩
  | succ times ih =>
    obtain ⟨k, stands, made⟩ := ih
    rcases stands.again whole with ⟨next, further, later⟩ | ⟨part, breaks⟩
    · exact ⟨next, further, Nat.lt_of_le_of_lt made later⟩
    · rcases keeps with unbroken | returns
      · exact absurd unbroken breaks
      · exact absurd ((returns (times + 1)).whole whole) part

/-- A caller who goes on after errors gets every frame once and in order exactly when no
call fails with a part of a frame read. -/
theorem returnsFrames_iff (network : Nat → RecvCall) (cfs : List (List UInt8))
    (whole : ∀ cf ∈ cfs, cf.length = msgSize) :
    (∀ times, ReturnsFrames network cfs times) ↔ Unbroken network cfs := by
  constructor
  · intro returns call inside fails
    obtain ⟨k, stands, made⟩ := recvTimes_at whole (Or.inr returns) (call + 1)
    exact stands.quiet call made inside fails
  · intro unbroken times
    obtain ⟨k, stands, _⟩ := recvTimes_at whole (Or.inl unbroken) times
    exact ⟨k, stands.frames, stands.unread⟩

end

/-- The stream of two senders' frames, with one data byte each. -/
def twoFrames : List (List UInt8) :=
  [[1, 0, 0, 0, 1, 0, 0, 0, 0xAA, 0, 0, 0, 0, 0, 0, 0],
    [2, 0, 0, 0, 1, 0, 0, 0, 0xBB, 0, 0, 0, 0, 0, 0, 0]]

/-- A receive timeout after the first four bytes, and whole reads from then on. -/
def timesOutMidFrame : Nat → RecvCall
  | 0 => .chunk 4
  | 1 => .failed "timed out"
  | _ + 2 => .chunk 16

theorem returnsFrames_iff_twoFrames :
    (∀ cf ∈ twoFrames, cf.length = msgSize) ∧
      ((∀ times, ReturnsFrames (fun _ => .chunk 7) twoFrames times) ↔
        Unbroken (fun _ => .chunk 7) twoFrames) :=
  ⟨by decide, returnsFrames_iff _ twoFrames (by decide)⟩

/-- The first four bytes are lost, and the next message is made of twelve bytes of one frame
and four of the other. -/
theorem returnsFrames_not_midFrame :
    (∀ cf ∈ twoFrames, cf.length = msgSize) ∧
      ¬ (∀ times, ReturnsFrames timesOutMidFrame twoFrames times) ∧
      (recvTimes timesOutMidFrame ⟨twoFrames.flatten, 0⟩ 2).1 =
        [⟨1, [0, 0, 0, 0, 2, 0, 0, 0], false⟩] ∧
      (⟨1, [0, 0, 0, 0, 2, 0, 0, 0], false⟩ : Frame) ∉ twoFrames.map decodeFrame := by
  refine ⟨by decide, ?_, by decide, by decide⟩
  intro returns
  have unread := (returns 1).whole (by decide)
  have part : (recvTimes timesOutMidFrame ⟨twoFrames.flatten, 0⟩ 1).2.unread.length = 28 := by
    decide
  rw [part] at unread
  contradiction

end Sockcan.Protocol.Resume
