import Sockcan.Protocol.Sender

/-! What a stream send of sixteen bytes leaves on the wire. The part that is written only
grows, and every byte of it restores the attempts that the next one may cost. -/
namespace Sockcan.Protocol

/-- What a send that ended says of the bytes on the wire. -/
def Classified (network : Nat → CallOutcome) (attempts : Nat) (payload : Option (List UInt8)) :
    Except SendError Unit → Outbound → Prop
  | .ok (), last => payload = some last.written ∧ last.written.length = msgSize
  | .error .wouldBlock, last => last.written = []
  | .error (.outOfSync sent), last =>
    (∃ bytes, payload = some bytes ∧ last.written <+: bytes ∧ last.written ≠ bytes) ∧
      sent = last.written.length ∧ 1 ≤ sent ∧ attempts < last.calls ∧
      ∀ call < last.calls, last.calls ≤ call + attempts → network call = .wouldBlock
  | .error .structError, last => payload = none ∧ last.written = []
  | .error .disconnected, last | .error .failed, last =>
    ∃ bytes, payload = some bytes ∧ last.written <+: bytes ∧ last.written ≠ bytes

section
variable {network : Nat → CallOutcome} {attempts sent remaining rounds : Nat}
  {payload offered : List UInt8} {outbound : Outbound}

/-- A socket that does not accept an empty part of what it is offered. -/
theorem Outbound.outcome_accepted (progress : ∀ call, network call ≠ .accepted 0)
    (some_left : 0 < offered.length) {count : Nat}
    (taken : outbound.outcome network offered = .accepted count) :
    1 ≤ count ∧ count ≤ offered.length := by
  unfold Outbound.outcome at taken
  split at taken
  · next asked given =>
    obtain rfl := CallOutcome.accepted.inj taken
    have positive : asked ≠ 0 := by
      rintro rfl
      exact progress _ given
    omega
  · next refused =>
    exact absurd taken (refused count)

theorem Outbound.outcome_wouldBlock
    (refused : outbound.outcome network offered = .wouldBlock) :
    network outbound.calls = .wouldBlock := by
  unfold Outbound.outcome at refused
  split at refused
  · contradiction
  · exact refused

/-- The loop of `_complete_send` with a part of the frame on the wire. Each byte may cost
as many calls as there are attempts, and the last ones were without progress. -/
structure Committed (network : Nat → CallOutcome) (attempts : Nat) (payload : List UInt8)
    (sent remaining : Nat) (outbound : Outbound) : Prop where
  begun : 1 ≤ sent
  within : sent ≤ msgSize
  written : outbound.written = payload.take sent
  tries : 1 ≤ remaining
  granted : remaining ≤ attempts
  calls : outbound.calls ≤ 1 + 15 * attempts
  budget : sent < msgSize →
    outbound.calls + remaining + attempts * (15 - sent) ≤ 1 + 15 * attempts
  earlier : attempts - remaining < outbound.calls
  stalled : ∀ call < outbound.calls, outbound.calls ≤ call + (attempts - remaining) →
    network call = .wouldBlock

/-- The calls that the bytes beyond the next ones can still cost. -/
theorem attempts_mul_le (attempts : Nat) {sent next : Nat} (later : sent < next)
    (short : next ≤ 15) :
    attempts + attempts * (15 - next) ≤ attempts * (15 - sent) := by
  have fewer : 15 - next + 1 ≤ 15 - sent := by omega
  calc attempts + attempts * (15 - next)
      = attempts * (15 - next + 1) := by rw [Nat.mul_succ, Nat.add_comm]
    _ ≤ attempts * (15 - sent) := Nat.mul_le_mul_left attempts fewer

theorem Committed.accepted (inv : Committed network attempts payload sent remaining outbound)
    (short : sent < msgSize) (whole : payload.length = msgSize) {written : Nat}
    (positive : 1 ≤ written) (bound : written ≤ (payload.drop sent).length) :
    Committed network attempts payload (sent + written) attempts
      (outbound.after (payload.drop sent) (.accepted written)) := by
  have budget := inv.budget short
  have tries := inv.tries
  rw [List.length_drop, whole] at bound
  simp only [msgSize] at short bound ⊢
  constructor
  · have begun := inv.begun
    omega
  · simp only [msgSize]
    omega
  · simp only [Outbound.after, CallOutcome.written, inv.written, List.take_add]
  · exact Nat.le_trans inv.tries inv.granted
  · exact Nat.le_refl attempts
  · simp only [Outbound.after]
    omega
  · intro stillShort
    simp only [msgSize] at stillShort
    have later : sent < sent + written := by omega
    have cost := attempts_mul_le attempts later (Nat.le_of_lt_succ stillShort)
    simp only [Outbound.after]
    omega
  · simp only [Outbound.after]
    omega
  · intro call before recent
    simp only [Outbound.after] at before recent
    omega

theorem Committed.refused (inv : Committed network attempts payload sent remaining outbound)
    (short : sent < msgSize) (more : remaining - 1 ≠ 0)
    (blocks : network outbound.calls = .wouldBlock) :
    Committed network attempts payload sent (remaining - 1)
      (outbound.after (payload.drop sent) .wouldBlock) := by
  have budget := inv.budget short
  have earlier := inv.earlier
  have granted := inv.granted
  constructor
  · exact inv.begun
  · exact inv.within
  · simp only [Outbound.after, CallOutcome.written, List.take_zero, List.append_nil, inv.written]
  · omega
  · omega
  · simp only [Outbound.after]
    omega
  · intro _
    simp only [Outbound.after]
    omega
  · simp only [Outbound.after]
    omega
  · intro call before recent
    simp only [Outbound.after] at before recent
    by_cases last : call = outbound.calls
    · rw [last]
      exact blocks
    · exact inv.stalled call (by omega) (by omega)

/-- The part that is written is the frame's beginning. -/
theorem Committed.part (inv : Committed network attempts payload sent remaining outbound)
    (short : sent < msgSize) (whole : payload.length = msgSize) :
    outbound.written.length = sent ∧ outbound.written <+: payload ∧ outbound.written ≠ payload := by
  have length : outbound.written.length = sent := by
    rw [inv.written, List.length_take]
    omega
  constructor
  · exact length
  · constructor
    · rw [inv.written]
      exact List.take_prefix sent payload
    · intro same
      rw [same, whole] at length
      omega

theorem Outbound.after_nothing {outcome : CallOutcome} (nothing : outcome.written = 0) :
    (outbound.after offered outcome).written = outbound.written := by
  simp only [Outbound.after, nothing, List.take_zero, List.append_nil]

/-- The attempt that was the last one: since the last byte, no call has made progress. -/
theorem Committed.outOfSync (inv : Committed network attempts payload sent remaining outbound)
    (short : sent < msgSize) (whole : payload.length = msgSize) (done : remaining - 1 = 0)
    (blocks : network outbound.calls = .wouldBlock) :
    Classified network attempts (some payload) (.error (.outOfSync sent))
      (outbound.after offered .wouldBlock) := by
  obtain ⟨length, part, proper⟩ := inv.part short whole
  have same : (outbound.after offered .wouldBlock).written = outbound.written :=
    Outbound.after_nothing rfl
  have tries := inv.tries
  have earlier := inv.earlier
  simp only [Classified, same]
  refine ⟨⟨payload, rfl, part, proper⟩, length.symm, inv.begun, ?_, ?_⟩
  · simp only [Outbound.after]
    omega
  · intro call before recent
    simp only [Outbound.after] at before recent
    by_cases last : call = outbound.calls
    · rw [last]
      exact blocks
    · exact inv.stalled call (by omega) (by omega)

theorem Committed.broken (inv : Committed network attempts payload sent remaining outbound)
    (short : sent < msgSize) (whole : payload.length = msgSize) {outcome : CallOutcome}
    (nothing : outcome.written = 0) :
    ∃ bytes, some payload = some bytes ∧ (outbound.after offered outcome).written <+: bytes ∧
      (outbound.after offered outcome).written ≠ bytes := by
  obtain ⟨_, part, proper⟩ := inv.part short whole
  rw [Outbound.after_nothing nothing]
  exact ⟨payload, rfl, part, proper⟩

theorem Committed.finished (inv : Committed network attempts payload sent remaining outbound)
    (done : ¬ sent < msgSize) (whole : payload.length = msgSize) :
    Classified network attempts (some payload) (.ok ()) outbound := by
  have all : outbound.written = payload := by
    rw [inv.written, List.take_of_length_le]
    omega
  simp only [Classified, all, true_and]
  exact whole

/-- A round of the loop makes the call that the server's sender makes, and goes where that
one goes. -/
theorem completeSend_round (progress : ∀ call, network call ≠ .accepted 0)
    (whole : payload.length = msgSize) (begun : 1 ≤ sent) (short : sent < msgSize) :
    match sendCall attempts ⟨sent, remaining⟩ (outbound.outcome network (payload.drop sent)) with
    | .more next =>
      completeSend network payload attempts (rounds + 1) sent remaining outbound =
        completeSend network payload attempts rounds next.sent next.remainingAttempts
          (outbound.after (payload.drop sent) (outbound.outcome network (payload.drop sent)))
    | .sent =>
      completeSend network payload attempts (rounds + 1) sent remaining outbound =
        some (.ok (),
          outbound.after (payload.drop sent) (outbound.outcome network (payload.drop sent)))
    | .wouldBlock => False
    | .disconnected | .failed =>
      ∃ error, completeSend network payload attempts (rounds + 1) sent remaining outbound =
        some (.error error,
          outbound.after (payload.drop sent) (outbound.outcome network (payload.drop sent))) := by
  have some_left : 0 < (payload.drop sent).length := by
    rw [List.length_drop]
    omega
  cases given : outbound.outcome network (payload.drop sent) with
  | accepted count =>
    obtain ⟨positive, _⟩ := Outbound.outcome_accepted progress some_left given
    obtain ⟨written, rfl⟩ : ∃ written, count = written + 1 := Nat.exists_eq_add_of_le' positive
    by_cases more : sent + (written + 1) < msgSize
    · simp only [sendCall, completeSend, short, more, if_true, given]
    · simp only [sendCall, completeSend, short, more, if_true, if_false, given]
      cases rounds <;> simp only [completeSend, more, if_false]
  | wouldBlock =>
    have written : sent ≠ 0 := Nat.ne_of_gt begun
    by_cases last : remaining - 1 = 0
    · simp only [sendCall, written, last, if_true, if_false, completeSend, short, given]
      exact ⟨_, rfl⟩
    · simp only [sendCall, written, last, if_true, if_false, completeSend, short, given]
  | disconnected =>
    simp only [sendCall, completeSend, short, if_true, given]
    exact ⟨_, rfl⟩
  | failed =>
    simp only [sendCall, completeSend, short, if_true, given]
    exact ⟨_, rfl⟩

/-- From a part of the frame on, the loop comes to an end within its budget. The induction
is on the rounds, of which every call takes one. -/
theorem completeSend_classified (progress : ∀ call, network call ≠ .accepted 0)
    (whole : payload.length = msgSize)
    (inv : Committed network attempts payload sent remaining outbound)
    (enough : sent < msgSize → remaining + attempts * (15 - sent) ≤ rounds) :
    ∃ result last,
      completeSend network payload attempts rounds sent remaining outbound =
        some (result, last) ∧
      last.calls ≤ 1 + 15 * attempts ∧ Classified network attempts (some payload) result last := by
  induction rounds generalizing sent remaining outbound with
  | zero =>
    have tries := inv.tries
    have done : ¬ sent < msgSize := by
      intro short
      have none_left := enough short
      omega
    refine ⟨.ok (), outbound, ?_, inv.calls, inv.finished done whole⟩
    simp only [completeSend, done, if_false]
  | succ rounds ih =>
    by_cases short : sent < msgSize
    · have some_left : 0 < (payload.drop sent).length := by
        rw [List.length_drop]
        omega
      have budget := inv.budget short
      have tries := inv.tries
      have rounds_left := enough short
      have one_more : outbound.calls + 1 ≤ 1 + 15 * attempts := by omega
      cases given : outbound.outcome network (payload.drop sent) with
      | accepted count =>
        obtain ⟨positive, bound⟩ := Outbound.outcome_accepted progress some_left given
        obtain ⟨written, rfl⟩ : ∃ written, count = written + 1 :=
          Nat.exists_eq_add_of_le' positive
        have goes_on := inv.accepted short whole positive bound
        simp only [completeSend, short, if_true, given]
        apply ih goes_on
        intro stillShort
        have later : sent < sent + (written + 1) := by omega
        have cost := attempts_mul_le attempts later (Nat.le_of_lt_succ stillShort)
        omega
      | wouldBlock =>
        have blocks := Outbound.outcome_wouldBlock given
        simp only [completeSend, short, if_true, given]
        by_cases last : remaining - 1 = 0
        · rw [if_pos last]
          exact ⟨_, _, rfl, one_more, inv.outOfSync short whole last blocks⟩
        · rw [if_neg last]
          apply ih (inv.refused short last blocks)
          intro _
          omega
      | disconnected =>
        simp only [completeSend, short, if_true, given]
        exact ⟨_, _, rfl, one_more, inv.broken short whole rfl⟩
      | failed =>
        simp only [completeSend, short, if_true, given]
        exact ⟨_, _, rfl, one_more, inv.broken short whole rfl⟩
    · refine ⟨.ok (), outbound, ?_, inv.calls, inv.finished short whole⟩
      simp only [completeSend, short, if_false]

/-- The first call has put a part of the frame on the wire. -/
theorem Committed.first (whole : payload.length = msgSize) (positive : 1 ≤ attempts)
    {count : Nat} (begun : 1 ≤ count) (bound : count ≤ payload.length) :
    Committed network attempts payload count attempts
      (Outbound.after ⟨[], 0⟩ payload (.accepted count)) := by
  rw [whole] at bound
  constructor
  · exact begun
  · exact bound
  · simp only [Outbound.after, CallOutcome.written, List.nil_append]
  · exact positive
  · exact Nat.le_refl attempts
  · simp only [Outbound.after]
    omega
  · intro short
    have cost := attempts_mul_le attempts begun (Nat.le_of_lt_succ short)
    simp only [Outbound.after]
    omega
  · simp only [Outbound.after]
    omega
  · intro call before recent
    simp only [Outbound.after] at before recent
    omega

/-- A frame of sixteen bytes, however the socket takes it. -/
theorem sendPayload_classified (progress : ∀ call, network call ≠ .accepted 0)
    (positive : 1 ≤ attempts) (enough : 15 * attempts ≤ rounds) (payload : Option (List UInt8))
    (whole : ∀ bytes, payload = some bytes → bytes.length = msgSize) :
    ∃ result last,
      sendPayload network attempts rounds payload ⟨[], 0⟩ = some (result, last) ∧
      last.calls ≤ 1 + 15 * attempts ∧ Classified network attempts payload result last := by
  cases payload with
  | none => exact ⟨_, _, rfl, Nat.zero_le _, rfl, rfl⟩
  | some payload =>
    have whole := whole payload rfl
    have some_left : 0 < payload.length := by
      rw [whole]
      decide
    have unwritten : ([] : List UInt8) ≠ payload := by
      rintro rfl
      contradiction
    have one_call : 1 ≤ 1 + 15 * attempts := Nat.le_add_right 1 _
    cases given : Outbound.outcome network ⟨[], 0⟩ payload with
    | accepted count =>
      obtain ⟨begun, bound⟩ := Outbound.outcome_accepted progress some_left given
      have first : Committed network attempts payload count attempts _ :=
        Committed.first whole positive begun bound
      simp only [sendPayload, given]
      by_cases short : count < msgSize
      · rw [if_pos short]
        apply completeSend_classified progress whole first
        intro _
        have cost := attempts_mul_le attempts begun (Nat.le_of_lt_succ short)
        omega
      · rw [if_neg short]
        exact ⟨_, _, rfl, one_call, first.finished short whole⟩
    | wouldBlock =>
      simp only [sendPayload, given]
      exact ⟨_, _, rfl, one_call, rfl⟩
    | disconnected =>
      simp only [sendPayload, given]
      exact ⟨_, _, rfl, one_call, payload, rfl, List.nil_prefix, unwritten⟩
    | failed =>
      simp only [sendPayload, given]
      exact ⟨_, _, rfl, one_call, payload, rfl, List.nil_prefix, unwritten⟩

end

theorem txPayload_whole {arbitrationId : Int} {data : List UInt8} {isExtended : Bool}
    (short : data.length ≤ 8) (payload : List UInt8)
    (packed : txPayload arbitrationId data isExtended = some payload) :
    payload.length = msgSize := by
  rw [txPayload_length packed, msgSize]
  omega

/-- A stream send of a classic message ends within its calls, and what it raises says what
is on the wire: the frame when it returns, nothing when it would block, and a beginning of
the frame otherwise. -/
theorem stream_senders_classified (network : Nat → CallOutcome)
    (progress : ∀ call, network call ≠ .accepted 0) (attempts rounds : Nat)
    (positive : 1 ≤ attempts) (enough : 15 * attempts ≤ rounds) (message : CanMessage)
    (short : message.data.length ≤ 8) :
    (∃ result last,
      socketcanSendStream network attempts rounds message.arbitrationId message.data
        message.isExtendedId ⟨[], 0⟩ = some (result, last) ∧
      last.calls ≤ 1 + 15 * attempts ∧
      Classified network attempts
        (txPayload message.arbitrationId message.data message.isExtendedId) result last) ∧
    ∃ result last,
      socketcanSendMsgStream network attempts rounds message ⟨[], 0⟩ = some (result, last) ∧
      last.calls ≤ 1 + 15 * attempts ∧
      Classified network attempts
        (txPayload message.arbitrationId message.data message.isExtendedId) result last := by
  have classified := sendPayload_classified progress positive enough
    (txPayload message.arbitrationId message.data message.isExtendedId) (txPayload_whole short)
  exact ⟨classified, classified⟩

theorem stream_senders_classified_stalled :
    (∀ call, (fun call => if call = 0 then CallOutcome.accepted 3 else .wouldBlock) call ≠
      .accepted 0) ∧ 1 ≤ 5 ∧ 15 * 5 ≤ 75 ∧ (CanMessage.mk 0x123 [1, 2] false).data.length ≤ 8 ∧
    ∃ result last,
      socketcanSendMsgStream (fun call => if call = 0 then .accepted 3 else .wouldBlock) 5 75
        ⟨0x123, [1, 2], false⟩ ⟨[], 0⟩ = some (result, last) ∧
      last.calls ≤ 1 + 15 * 5 ∧
      Classified (fun call => if call = 0 then .accepted 3 else .wouldBlock) 5
        (txPayload 0x123 [1, 2] false) result last := by
  have progress : ∀ call, (fun call => if call = 0 then CallOutcome.accepted 3 else .wouldBlock)
      call ≠ .accepted 0 := by
    intro call
    by_cases first : call = 0 <;> simp [first]
  have short : (CanMessage.mk 0x123 [1, 2] false).data.length ≤ 8 := by decide
  exact ⟨progress, by decide, by decide, short,
    (stream_senders_classified _ progress 5 75 (by decide) (by decide) ⟨0x123, [1, 2], false⟩
      short).2⟩

end Sockcan.Protocol
