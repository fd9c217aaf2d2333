import Sockcan.Bits
import Mathlib.Data.List.AList
import Mathlib.Data.Rat.Defs
import Mathlib.Tactic.Ring

/-! What the encoders and the decoders share: signal values, the properties of a signal
and the exceptions of both. Numbers are exact; a dictionary is a finite map, without the
order of its insertions. -/
namespace Sockcan.Transcoders

inductive SignalValue where
  | number (value : ℚ)
  | text (label : String)
  deriving DecidableEq

abbrev Payload := AList fun _ : String => SignalValue

inductive Raised where
  | overflowError (message : String)
  | zeroDivisionError
  | assertionError
  | labelKeyError (label : String)
  | rawKeyError (raw : Nat)
  | muxKeyError (muxId : Nat)
  deriving DecidableEq

structure SignalProperties where
  name : String
  mask : Nat
  bitOffset : Nat
  scale : ℚ := 1
  offset : ℚ := 0
  namedValues : Option (AList fun _ : String => ℤ) := none
  reverseNamedValues : Option (AList fun _ : ℤ => String) := none

/-- What the transcoders read of a `cantools` signal. -/
structure Signal where
  name : String
  start : Nat
  length : Nat
  scale : ℚ
  offset : Option ℚ
  choices : Option (AList fun _ : ℤ => String)

/-- `int(value)`. -/
def truncate (value : ℚ) : ℤ := value.num.tdiv value.den

/-- `{str(val): key for key, val in choices.items()}`. -/
def labels (choices : AList fun _ : ℤ => String) : AList fun _ : String => ℤ :=
  choices.entries.foldl (fun table entry => table.insert entry.2 entry.1) ∅

/-- `{val: key for key, val in named_values.items()}`. -/
def reversed (namedValues : AList fun _ : String => ℤ) : AList fun _ : ℤ => String :=
  namedValues.entries.foldl (fun table entry => table.insert entry.2 entry.1) ∅

def buildSignalProperties (signal : Signal) : SignalProperties where
  name := signal.name
  mask := ((1 <<< signal.length) - 1) <<< signal.start
  bitOffset := signal.start
  scale := signal.scale
  offset := signal.offset.getD 0
  namedValues := signal.choices.map labels
  reverseNamedValues := (signal.choices.map labels).map reversed

@[simp] theorem truncate_intCast (n : ℤ) : truncate n = n := by
  simp [truncate]

theorem truncate_nonneg {value : ℚ} (nonneg : 0 ≤ value) : 0 ≤ truncate value :=
  Int.tdiv_nonneg (Rat.num_nonneg.mpr nonneg) (Int.natCast_nonneg _)

theorem buildSignalProperties_mask (signal : Signal) :
    (buildSignalProperties signal).mask = Bits.ones signal.length signal.start := rfl

end Sockcan.Transcoders
