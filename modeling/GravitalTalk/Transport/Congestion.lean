import Mathlib.Data.UInt

/-!
# Congestion control

`congestion.rs`: additive increase, multiplicative decrease. The range is fixed
when the controller is built and is a parameter of the type.

The factors `0.85` and `0.95` are applied in double precision and truncated; on
32-bit rates that is `17/20` and `19/20` rounded down. The loss rate is a number
of packets out of 64, and it exceeds `0.05` when there are more than three.
-/
namespace GravitalTalk

def congestionMinBitrate : UInt32 := 8000
def congestionAimdIncrement : UInt32 := 2000
def rttThresholdUs : ℕ := 150000

structure CongestionController (minBitrate maxBitrate : UInt32) where
  currentBitrate : UInt32
  deriving DecidableEq, Repr

namespace CongestionController

variable {lo hi : UInt32}

def clamp (lo hi x : UInt32) : UInt32 := if x < lo then lo else if hi < x then hi else x

/-- `CongestionController::new`, whose `clamp` panics on an empty range. -/
def new (initial lo hi : UInt32) : Option (CongestionController lo hi) :=
  if lo ≤ hi then some ⟨clamp lo hi initial⟩ else none

def reset (_ : CongestionController lo hi) : CongestionController lo hi := ⟨hi⟩

def saturatingAdd (x y : UInt32) : UInt32 :=
  UInt32.ofNat (min (x.toNat + y.toNat) (2 ^ 32 - 1))

/-- `update`, with the number of lost packets in place of their rate. -/
def update (c : CongestionController lo hi) (lost rttUs : ℕ) : CongestionController lo hi :=
  let current := c.currentBitrate.toNat
  let next :=
    if 3 < lost then UInt32.ofNat (current * 17 / 20)
    else if rttThresholdUs < rttUs then UInt32.ofNat (current * 19 / 20)
    else saturatingAdd c.currentBitrate congestionAimdIncrement
  ⟨clamp lo hi next⟩

def setBitrate (_ : CongestionController lo hi) (bitrate : UInt32) : CongestionController lo hi :=
  ⟨clamp lo hi bitrate⟩

end CongestionController
end GravitalTalk
