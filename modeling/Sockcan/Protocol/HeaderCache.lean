import Sockcan.Lru
import Sockcan.Protocol.Frame

/-! The cache of `build_tx_header`, which all threads that send share. -/
namespace Sockcan.Protocol
open Transition Lru

/-- The arguments by which `lru_cache` tells the calls of `build_tx_header` apart. -/
structure HeaderKey where
  canId : Nat
  dlc : Nat
  isExtendedId : Bool
  deriving DecidableEq

def HeaderKey.header (key : HeaderKey) : Option (List UInt8) :=
  buildTxHeader key.canId key.dlc key.isExtendedId

/-- `maxsize` of `lru_cache`. -/
def headerCacheSize : Nat := 1024

/-- What a sender asks for when it sends the frame. -/
def Frame.headerKey (frame : Frame) : HeaderKey :=
  ⟨frame.canId, frame.data.length, frame.isExtended⟩

abbrev HeaderCalls (T : Type) := Calls HeaderKey.header headerCacheSize T

variable {T : Type} [DecidableEq T] {c : HeaderCalls T} {actions : List (CallAction HeaderKey T)}

/-- The senders put on the socket what they would without the cache, however their calls
interleave; and the cache holds the headers that were used last. -/
theorem header_cache (path : run Calls.step (Calls.start : HeaderCalls T) actions = some c) :
    (∀ answer ∈ c.answers, ∀ frame : Frame, frame.headerKey = answer.1 →
        answer.2.map (· ++ ljust frame.data) = frame.payload) ∧
      c.memo.keys = c.uses.dedup.rtake headerCacheSize := by
  have recent := Calls.recent_run path
  refine ⟨fun answer member frame asked => ?_, recent.kept⟩
  rw [recent.answered answer member, ← asked]
  rfl

/-- Two threads miss the same header; a frame that no header holds fails for each of them. -/
def racingCalls : List (CallAction HeaderKey Bool) :=
  [.call true ⟨0x123, 2, false⟩, .call false ⟨0x123, 2, false⟩, .finish true, .finish false,
    .call true ⟨0x123, 300, false⟩, .finish true, .call false ⟨0x7, 0, true⟩, .finish false,
    .call true ⟨0x123, 2, false⟩]

theorem header_cache_raced :
    ∃ c : HeaderCalls Bool, run Calls.step Calls.start racingCalls = some c ∧
      c.computed.length = 4 ∧
      c.memo.keys = [⟨0x7, 0, true⟩, ⟨0x123, 2, false⟩] ∧
      (∀ answer ∈ c.answers, ∀ frame : Frame, frame.headerKey = answer.1 →
        answer.2.map (· ++ ljust frame.data) = frame.payload) := by
  have ends : (run Calls.step (Calls.start : HeaderCalls Bool) racingCalls).map
      (fun c => (c.computed.length, c.uses)) =
        some (4, [⟨0x123, 2, false⟩, ⟨0x7, 0, true⟩, ⟨0x123, 2, false⟩]) := by decide +kernel
  obtain ⟨c, path, shown⟩ := Option.map_eq_some_iff.mp ends
  obtain ⟨computed, uses⟩ := Prod.mk.inj shown
  obtain ⟨answers, kept⟩ := header_cache path
  rw [uses] at kept
  exact ⟨c, path, computed, kept, answers⟩

/-- As long as all headers fit into the cache, each of them is built at most once by each thread,
and by nobody as soon as the cache holds it. -/
theorem headers_built_once {keys : Finset HeaderKey} {d : HeaderCalls T}
    {more : List (CallAction HeaderKey T)} (room : keys.card ≤ headerCacheSize) {key : HeaderKey}
    (packs : key.header.isSome) (within : ∀ action ∈ actions ++ more, Calls.Within keys action)
    (path : run Calls.step (Calls.start : HeaderCalls T) actions = some c)
    (onward : run Calls.step c more = some d) :
    (d.builders key).Nodup ∧ (key ∈ c.memo.keys → d.builders key = c.builders key) :=
  Calls.computed_once room packs within path onward

theorem headers_built_once_raced :
    ∃ c d : HeaderCalls Bool, run Calls.step Calls.start (racingCalls.take 3) = some c ∧
      run Calls.step c (racingCalls.drop 3) = some d ∧ ⟨0x123, 2, false⟩ ∈ c.memo.keys ∧
      d.builders ⟨0x123, 2, false⟩ = [true, false] ∧
      (d.builders ⟨0x123, 2, false⟩).Nodup ∧
      d.builders ⟨0x123, 2, false⟩ = c.builders ⟨0x123, 2, false⟩ := by
  have held : (run Calls.step (Calls.start : HeaderCalls Bool) (racingCalls.take 3)).map
      (fun c => c.memo.keys) = some [⟨0x123, 2, false⟩] := by decide +kernel
  have built : (run Calls.step (Calls.start : HeaderCalls Bool)
      (racingCalls.take 3 ++ racingCalls.drop 3)).map
        (fun d => d.builders ⟨0x123, 2, false⟩) = some [true, false] := by decide +kernel
  obtain ⟨c, path, kept⟩ := Option.map_eq_some_iff.mp held
  obtain ⟨d, whole, threads⟩ := Option.map_eq_some_iff.mp built
  obtain ⟨between, first, onward⟩ := run_append.mp whole
  obtain rfl : between = c := Option.some.inj (first.symm.trans path)
  have holds : ⟨0x123, 2, false⟩ ∈ between.memo.keys := by simp [kept]
  have room : ({⟨0x123, 2, false⟩, ⟨0x123, 300, false⟩, ⟨0x7, 0, true⟩} : Finset HeaderKey).card ≤
      headerCacheSize := by decide
  have packs : (HeaderKey.header ⟨0x123, 2, false⟩).isSome := by decide
  obtain ⟨distinct, same⟩ := headers_built_once room packs (by decide) path onward
  exact ⟨between, d, path, onward, holds, threads, distinct, same holds⟩

end Sockcan.Protocol
