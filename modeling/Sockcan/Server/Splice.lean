import Sockcan.Server.Stream

/-! Two loops that send to one consumer. Each finishes its own frame, and nothing keeps
the other one from writing meanwhile. -/
namespace Sockcan.Server
open Protocol Transition
variable {Fd : Type}

/-- No send fails. -/
def Succeeds (s : Server Fd) (action : Action Fd) : Prop :=
  ∀ call ∈ socketCall action, ∀ sends ∈ s.sending call.1,
    sendCall streamSendAttempts sends.2.2 call.2 ≠ .failed ∧
      sendCall streamSendAttempts sends.2.2 call.2 ≠ .disconnected

instance (s : Server Fd) (action : Action Fd) : Decidable (s.Succeeds action) :=
  inferInstanceAs (Decidable (∀ call ∈ socketCall action, ∀ sends ∈ s.sending call.1, _))

variable [DecidableEq Fd] {cfg : Config} {peers : List (Consumer Fd)} {s t : Server Fd}
  {action : Action Fd} {actions : List (Action Fd)} {fd : Fd} {message : Relayed Fd}

theorem Moves.unbroken (move : Moves cfg s action t) (succeeds : s.Succeeds action)
    (unbroken : (s.traffic fd).broken = false) : (t.traffic fd).broken = false := by
  rcases move.stream_cases with ⟨same, _⟩ |
    ⟨loop, target, message, progress, outcome, rfl, call, _⟩
  · exact (Traffic.broken_eq (same fd)).trans unbroken
  · by_cases here : fd = target
    · subst here
      by_contra broken
      rw [Bool.not_eq_false] at broken
      obtain ⟨fails, disconnects⟩ := succeeds _ (socketCall_call loop outcome) _ call.before
      rcases (call.breaks unbroken broken).2 with failed | disconnected
      · exact fails failed
      · exact disconnects disconnected
    · exact (Traffic.broken_eq (call.elsewhere here).1).trans unbroken

/-- The relay while no send fails and the loops take turns on the consumer's connection. -/
structure Unspliced (fd : Fd) (s : Server Fd) : Prop where
  ledger : s.Ledger
  short : s.Short
  unbroken : (s.traffic fd).broken = false
  stream : Stream fd s

/-- Where no send fails and no loop writes to the consumer while the other one is in the
middle of a frame to it, what is on its wire is at every moment whole frames and a proper
prefix of one more. -/
theorem stream_unspliced (reads : Along (step cfg) ReadsShort (start cfg peers) actions)
    (succeeds : Along (step cfg) Succeeds (start cfg peers) actions)
    (unmixed : Along (step cfg) (Unmixed fd) (start cfg peers) actions)
    (path : run (step cfg) (start cfg peers) actions = some t) :
    WellFramed (t.traffic fd).written := by
  have initial : Unspliced fd (start cfg peers) := {
    ledger := .start cfg peers
    short := fun source message member => by simp [start] at member
    unbroken := rfl
    stream := .start cfg peers fd }
  have kept : Unspliced fd t := by
    refine invariant_run (fun s action t kept conditions step => ?_) initial
      ((reads.and succeeds).and unmixed) path
    obtain ⟨⟨reads, succeeds⟩, unmixed⟩ := conditions
    have move := step_moves step
    have unbroken := move.unbroken succeeds kept.unbroken
    exact ⟨move.ledger kept.ledger, move.short kept.short reads, unbroken,
      move.stream kept.ledger kept.short kept.stream unmixed unbroken⟩
  exact kept.stream.wellFramed kept.ledger kept.short

/-- The RX loop is five bytes into a frame for consumer 0, and the TX loop has one for it. -/
def halfwayRun : List (Action Nat) :=
  [.rx, .rx, .rx, .rxRecv (some ⟨0x123, [1], false⟩), .rx, .rx, .rx, .rxCall (.accepted 5),
    .tx, .txSelect [.ready 1 true false], .tx, .txRecv (some ⟨0x1FF, [2], false⟩), .tx, .tx, .tx]

theorem stream_unspliced_halfway :
    ∃ t, run (step .realBus) (start .realBus [⟨0, none⟩, ⟨1, none⟩])
        (halfwayRun ++ [.rxCall (.accepted 11), .txCall (.accepted 5)]) = some t ∧
      (t.traffic 0).written.length = 21 ∧ WellFramed (t.traffic 0).written := by
  obtain ⟨t, path, length⟩ : ∃ t, run (step .realBus) (start .realBus [⟨0, none⟩, ⟨1, none⟩])
      (halfwayRun ++ [.rxCall (.accepted 11), .txCall (.accepted 5)]) = some t ∧
        (t.traffic 0).written.length = 21 := ⟨_, rfl, rfl⟩
  exact ⟨t, path, length, stream_unspliced (by decide +kernel) (by decide +kernel)
    (by decide +kernel) path⟩

/-- The TX loop writes five bytes of its own frame before the RX loop goes on. -/
theorem stream_spliced :
    Along (step .realBus) ReadsShort (start .realBus [⟨0, none⟩, ⟨1, none⟩])
        (halfwayRun ++ [.txCall (.accepted 5)]) ∧
      Along (step .realBus) Succeeds (start .realBus [⟨0, none⟩, ⟨1, none⟩])
        (halfwayRun ++ [.txCall (.accepted 5)]) ∧
      ∃ t, run (step .realBus) (start .realBus [⟨0, none⟩, ⟨1, none⟩])
          (halfwayRun ++ [.txCall (.accepted 5)]) = some t ∧
        ¬ WellFramed (t.traffic 0).written := by
  refine ⟨by decide +kernel, by decide +kernel, _, rfl, fun framed => ?_⟩
  exact absurd (framed.flags (by decide)) (by decide)

end Sockcan.Server
