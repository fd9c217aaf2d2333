import Sockcan.Server.Handing

/-! What becomes of a frame that is handed to a consumer: it is sent, or its send fails, or
it is queued. -/
namespace Sockcan.Server
open Protocol
variable {Fd : Type}

/-- The head of a backlog that the drain sends. -/
def TxPoint.head : TxPoint Fd → Option (Relayed Fd)
  | .drainSend _ head _ _ => some head
  | _ => none

/-- The consumer that a loop is handing its frame to. -/
def offering (s : Server Fd) : Loop → Option (Fd × Relayed Fd)
  | .rx => match s.rx with
    | .offer message _ consumer _ => some (consumer.fd, message)
    | _ => none
  | .tx => match s.tx with
    | .offer job _ consumer _ => some (consumer.fd, job.message)
    | _ => none

/-- The frames sent to a consumer, those whose send failed included, and the frames
queued for it. A frame that is queued and then drained is there twice. -/
def Traffic.served (traffic : Traffic Fd) : List (Relayed Fd) :=
  traffic.delivered ++ traffic.failed ++ traffic.backlog.queued

variable [DecidableEq Fd] {cfg : Config} {s t : Server Fd} {action : Action Fd} {fd : Fd}
  {message queued : Relayed Fd}

omit [DecidableEq Fd] in
theorem offering_dispatch {loop : Loop} (offers : s.offering loop = some (fd, message)) :
    ∃ passed, s.dispatch loop = some (message, passed) := by
  cases loop with
  | rx =>
    simp only [offering] at offers
    split at offers
    · cases offers
      rename_i at_
      exact ⟨_, by rw [dispatch, at_]; rfl⟩
    · contradiction
  | tx =>
    simp only [offering] at offers
    split at offers
    · cases offers
      rename_i at_
      exact ⟨_, by rw [dispatch, at_]; rfl⟩
    · contradiction

theorem append_served (consumer : Fd) (fd : Fd) :
    ((s.append cfg consumer queued).traffic fd).served =
      if fd = consumer then (s.traffic fd).served ++ [queued] else (s.traffic fd).served := by
  by_cases same : fd = consumer
  · simp [Server.append, setIo, setTraffic, Traffic.served, same]
  · simp [Server.append, setIo, setTraffic, same]

/-- An offer is over when its frame is queued. -/
theorem Offers.served {consumer : Fd} {point : Offer} {result : OfferResult}
    (offer : Offers cfg s consumer queued point t result) (fd : Fd) :
    (∃ next, result = .next next) ∧ t.traffic = s.traffic ∨
      (∀ next, result ≠ .next next) ∧ (t.traffic fd).served =
        if fd = consumer then (s.traffic fd).served ++ [queued] else (s.traffic fd).served := by
  cases offer with
  | direct | behind => exact Or.inl ⟨⟨_, rfl⟩, rfl⟩
  | countDropped | queueCount =>
    rw [noteDroppedFrame_eq]
    exact Or.inl ⟨⟨_, rfl⟩, rfl⟩
  | append | queue | queueMissing => exact Or.inr ⟨nofun, append_served consumer fd⟩

omit [DecidableEq Fd] in
theorem record_served (traffic : Traffic Fd) (message : Relayed Fd) (bytes : List UInt8)
    (progress : Progress) (outcome : CallOutcome) :
    (sendCall streamSendAttempts progress outcome).Final ∧
      (traffic.record message bytes progress outcome).served.Perm (message :: traffic.served) ∨
    ¬ (sendCall streamSendAttempts progress outcome).Final ∧
      (traffic.record message bytes progress outcome).served = traffic.served := by
  have delivered (written : List UInt8) : Traffic.served { traffic with
      written := written, delivered := traffic.delivered ++ [message] } |>.Perm
        (message :: traffic.served) := by
    simp only [Traffic.served, List.append_assoc, List.singleton_append]
    exact List.perm_middle
  have failed (written : List UInt8) (broken : Bool) : Traffic.served { traffic with
      written := written, failed := traffic.failed ++ [message], broken := broken } |>.Perm
        (message :: traffic.served) := by
    simp only [Traffic.served, List.append_assoc, List.singleton_append]
    rw [← List.append_assoc, ← List.append_assoc]
    exact List.perm_middle
  cases ends : sendCall streamSendAttempts progress outcome with
  | sent =>
    refine Or.inl ⟨trivial, ?_⟩
    cases outcome <;> simpa only [Traffic.record, ends] using delivered _
  | disconnected | failed =>
    refine Or.inl ⟨trivial, ?_⟩
    cases outcome <;> simpa only [Traffic.record, ends] using failed _ _
  | more | wouldBlock =>
    refine Or.inr ⟨id, ?_⟩
    cases outcome <;> simp only [Traffic.record, ends, Traffic.served]

/-- Handing one frame over leaves the books of every other one alone. -/
theorem Offers.served_count {consumer : Fd} {point : Offer} {result : OfferResult}
    (offer : Offers cfg s consumer queued point t result) (apart : queued ≠ message) (fd : Fd) :
    (t.traffic fd).served.count message = (s.traffic fd).served.count message := by
  rcases offer.served fd with ⟨_, same⟩ | ⟨_, more⟩
  · rw [same]
  · rw [more]
    split
    · simp [List.count_append, apart]
    · rfl

theorem Sends.served_count {consumer : Fd} {progress : Progress} {outcome : CallOutcome}
    {answer : Except Ending SendStep} (call : Sends s consumer queued progress outcome t answer)
    (apart : queued ≠ message) (fd : Fd) :
    (t.traffic fd).served.count message = (s.traffic fd).served.count message := by
  cases call with
  | unpacked => rfl
  | @call bytes =>
    by_cases here : fd = consumer
    · subst here
      simp only [setTraffic, Function.update_self]
      rcases record_served (s.traffic fd) queued bytes progress outcome with ⟨_, more⟩ | ⟨_, same⟩
      · rw [more.count_eq, List.count_cons_of_ne apart]
      · rw [same]
    · simp only [setTraffic, Function.update_of_ne here]

theorem Offers.served_mem {consumer : Fd} {point : Offer} {result : OfferResult}
    (offer : Offers cfg s consumer queued point t result)
    (member : message ∈ (t.traffic fd).served) :
    message ∈ (s.traffic fd).served ∨ fd = consumer ∧ message = queued := by
  rcases offer.served fd with ⟨_, same⟩ | ⟨_, more⟩
  · exact Or.inl (same ▸ member)
  · rw [more] at member
    split at member
    · rename_i here
      exact (List.mem_append.mp member).imp_right fun new => ⟨here, List.mem_singleton.mp new⟩
    · exact Or.inl member

theorem Sends.served_mem {consumer : Fd} {progress : Progress} {outcome : CallOutcome}
    {answer : Except Ending SendStep} (call : Sends s consumer queued progress outcome t answer)
    (member : message ∈ (t.traffic fd).served) :
    message ∈ (s.traffic fd).served ∨ fd = consumer ∧ message = queued := by
  cases call with
  | unpacked => exact Or.inl member
  | @call bytes =>
    by_cases here : fd = consumer
    · subst here
      simp only [setTraffic, Function.update_self] at member
      rcases record_served (s.traffic fd) queued bytes progress outcome with ⟨_, more⟩ | ⟨_, same⟩
      · rcases List.mem_cons.mp (more.subset member) with new | old
        · exact Or.inr ⟨rfl, new⟩
        · exact Or.inl old
      · exact Or.inl (same ▸ member)
    · simp only [setTraffic, Function.update_of_ne here] at member
      exact Or.inl member

@[simp] theorem hand_served (consumer : Fd) (fd : Fd) :
    ((s.hand consumer queued).traffic fd).served = (s.traffic fd).served :=
  setTraffic_keeps Traffic.served (by rfl) fd

@[simp] theorem popleft_served (consumer : Fd) (rest : List (Relayed Fd)) (fd : Fd) :
    ((s.popleft consumer queued rest).traffic fd).served = (s.traffic fd).served :=
  setTraffic_keeps Traffic.served (by rfl) fd

/-- What was sent or queued is what a loop is handing over, or the head of a drain. -/
theorem Moves.served_cases (move : Moves cfg s action t)
    (member : message ∈ (t.traffic fd).served) :
    message ∈ (s.traffic fd).served ∨ (∃ loop, s.offering loop = some (fd, message)) ∨
      message ∈ s.tx.head := by
  have kept (same : t.traffic = s.traffic) : message ∈ (s.traffic fd).served := same ▸ member
  cases move with
  | clean move => exact Or.inl (kept (congrArg Server.traffic move.frame :))
  | rxRelay move =>
    cases move with
    | hand => exact Or.inl (by simpa only [hand_served] using member)
    | offer at_ offer =>
      refine (offer.served_mem member).imp_right ?_
      rintro ⟨rfl, rfl⟩
      exact Or.inl ⟨.rx, by simp only [offering, at_]⟩
    | call at_ call =>
      refine (call.served_mem member).imp_right ?_
      rintro ⟨rfl, rfl⟩
      exact Or.inl ⟨.rx, by simp only [offering, at_]⟩
    | _ => exact Or.inl member
  | select move => exact Or.inl (kept (congrArg Server.traffic move.frame :))
  | giveUp move =>
    cases move with
    | @unregister other =>
      have same : (((s.setInterest other none).setTraffic other
          { s.traffic other with unregistered := true }).traffic fd).served =
            (s.traffic fd).served := setTraffic_keeps Traffic.served (by rfl) fd
      exact Or.inl (same ▸ member)
    | _ => exact Or.inl member
  | txRelay move =>
    cases move with
    | hand => exact Or.inl (by simpa only [hand_served] using member)
    | offer at_ offer =>
      refine (offer.served_mem member).imp_right ?_
      rintro ⟨rfl, rfl⟩
      exact Or.inl ⟨.tx, by simp only [offering, at_]⟩
    | call at_ call =>
      refine (call.served_mem member).imp_right ?_
      rintro ⟨rfl, rfl⟩
      exact Or.inl ⟨.tx, by simp only [offering, at_]⟩
    | _ => exact Or.inl member
  | drain move =>
    cases move with
    | pop => exact Or.inl (by simpa only [popleft_served] using member)
    | call at_ call =>
      refine (call.served_mem member).imp_right ?_
      rintro ⟨rfl, rfl⟩
      exact Or.inr (by rw [at_]; rfl)
    | _ => exact Or.inl member
  | listen move => exact Or.inl (kept (congrArg Server.traffic move.frame :))
  | stop move => exact Or.inl (kept (congrArg Server.traffic move.frame :))

end Sockcan.Server
