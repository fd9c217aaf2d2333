import Sockcan.Server.Lane

/-! Runs of a started server whose consumers stay connected: in every state each
consumer's outbox is one that the abstract machine reaches. -/
namespace Sockcan.Server
open Protocol Transition
variable {Fd : Type} [DecidableEq Fd]

structure Relay (cfg : Config) (peers : List (Consumer Fd)) (s : Server Fd) : Prop where
  connected : Connected peers s
  numbered : s.Numbered
  handing : ∀ place (consumer : Consumer Fd), peers[place]? = some consumer →
    Handing consumer place s
  lanes : ∀ consumer ∈ peers, (s.lane consumer.fd).Inv cfg.backlogSize .tx Relayed.loop

variable {cfg : Config} {peers : List (Consumer Fd)} {s t : Server Fd} {action : Action Fd}
  {actions : List (Action Fd)} {consumer : Consumer Fd}

theorem fresh_start (cfg : Config) (peers : List (Consumer Fd)) (fd : Fd) :
    ((start cfg peers).lane fd).Fresh where
  queue := rfl
  log := rfl
  dropped := rfl
  watched := by
    simp only [Server.lane, outbox, Server.start]
    split <;> rfl
  handed := rfl
  delivered := rfl
  holding p := by
    cases p with
    | rx =>
      simp only [Server.lane, outbox, holding, Server.start]
      split <;> rfl
    | tx => rfl
  draining := rfl

theorem Relay.start (cfg : Config) (peers : List (Consumer Fd)) :
    Relay cfg peers (start cfg peers) where
  connected := .start peers
  numbered := .start cfg peers
  handing place consumer _ := .start cfg peers consumer place
  lanes consumer _ := (fresh_start cfg peers consumer.fd).inv

theorem Relay.lane_step (relay : Relay cfg peers s) (distinct : (peers.map Consumer.fd).Nodup)
    (steady : s.Steady action) (step : step cfg s action = some t) (member : consumer ∈ peers) :
    Follows cfg consumer.fd s t := by
  obtain ⟨place, at_place⟩ := List.mem_iff_getElem?.mp member
  exact (step_moves step).lane steady relay.connected distinct relay.numbered at_place
    (relay.handing place consumer at_place) (relay.lanes consumer member)

theorem Relay.step (distinct : (peers.map Consumer.fd).Nodup) (relay : Relay cfg peers s)
    (steady : s.Steady action) (step : step cfg s action = some t) : Relay cfg peers t where
  connected := (step_moves step).connected steady relay.connected
  numbered := (step_moves step).numbered relay.numbered
  handing place consumer at_place :=
    (step_moves step).handing relay.connected distinct at_place
      (relay.handing place consumer at_place) steady
  lanes consumer member := by
    rcases relay.lane_step distinct steady step member with same | moved
    · rw [same]
      exact relay.lanes consumer member
    · exact moved.inv cfg.positive (relay.lanes consumer member)

theorem Relay.run (distinct : (peers.map Consumer.fd).Nodup)
    (steady : Along (Server.step cfg) Steady (Server.start cfg peers) actions)
    (path : Transition.run (Server.step cfg) (Server.start cfg peers) actions = some t) :
    Relay cfg peers t :=
  invariant_run (fun _ _ _ relay steady step => relay.step distinct steady step)
    (.start cfg peers) steady path

/-- The one consumer of a real bus refuses the first frame, which is queued. -/
def refusedRun : List (Action Nat) :=
  [.rx, .rx, .rx, .rxRecv (some ⟨0x123, [1], false⟩), .rx, .rx, .rx, .rxCall .wouldBlock,
    .rx, .rx, .rx]

end Sockcan.Server
