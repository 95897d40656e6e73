import WeakIntern.Hash.Keyed
import WeakIntern.Hash.Units
import WeakIntern.Text.Column
/-!
# Hash epochs

A bucket array lives in one epoch for its whole life: it is placed by the default hash, or by the
keyed hash under one seed. To change the epoch is to build another array and to move every slot.
-/

namespace WeakIntern

/-- Which hash places the slots of a bucket array. -/
inductive Epoch where
  | default
  | alternate (seed : UInt64)
  deriving DecidableEq, Repr, Inhabited

namespace Epoch

/-- The hash of a string in this epoch. -/
def hash : Epoch → String → UInt32
  | .default, s => unitHash s
  | .alternate seed, s => keyedHash seed s

def isAlternate : Epoch → Bool
  | .default => false
  | .alternate _ => true

/-- The seed, zero in the default epoch. -/
def seed : Epoch → UInt64
  | .default => 0
  | .alternate seed => seed

/-- The diagnostic text of a seed. -/
def seedText (seed : UInt64) : String := "AltHashSeed(0x" ++ hexWord seed ++ ")"

/-- The diagnostic text of the epoch. -/
def describe : Epoch → String
  | .default => "Default"
  | .alternate seed => "Alternate(" ++ seedText seed ++ ")"

end Epoch

end WeakIntern
