import Mathlib.Tactic
import Mathlib.Data.UInt

/-!
# Session metrics

The estimators of the metrics crate that a session feeds: counters, the loss
bitmap, the inter-arrival jitter and the round-trip time. Arithmetic wraps as in
a release build.
-/
namespace GravitalTalk

structure Counters where
  packetsSent : UInt64
  packetsReceived : UInt64
  bytesSent : UInt64
  bytesReceived : UInt64
  integrityErrors : UInt64
  replayedDropped : UInt64
  deriving DecidableEq, Repr

namespace Counters

def new : Counters := ⟨0, 0, 0, 0, 0, 0⟩

def recordSent (c : Counters) (bytes : ℕ) : Counters :=
  { c with packetsSent := c.packetsSent + 1, bytesSent := c.bytesSent + UInt64.ofNat bytes }

def recordReceived (c : Counters) (bytes : ℕ) : Counters :=
  { c with
    packetsReceived := c.packetsReceived + 1
    bytesReceived := c.bytesReceived + UInt64.ofNat bytes }

def recordIntegrityError (c : Counters) : Counters :=
  { c with integrityErrors := c.integrityErrors + 1 }

def recordReplayDrop (c : Counters) : Counters :=
  { c with replayedDropped := c.replayedDropped + 1 }

end Counters

def lossWindowSize : ℕ := 64

structure LossTracker where
  bitmap : UInt64
  highSeq : UInt32
  totalPackets : UInt32
  reorderCount : UInt32
  initialised : Bool
  deriving DecidableEq, Repr

namespace LossTracker

def new : LossTracker := ⟨0, 0, 0, 0, false⟩

def record (t : LossTracker) (sequence : UInt32) : LossTracker :=
  if !t.initialised then { t with highSeq := sequence, bitmap := 1, totalPackets := 1,
                                  initialised := true }
  else
    let diff := sequence - t.highSeq
    if diff = 0 then { t with totalPackets := t.totalPackets + 1 }
    else if diff < 0x80000000 then
      let shift := min diff.toNat lossWindowSize
      { t with
        bitmap := (t.bitmap <<< UInt64.ofNat shift) ||| 1
        highSeq := sequence
        totalPackets := t.totalPackets + 1 }
    else
      let gap := (t.highSeq - sequence).toNat
      { t with
        bitmap := if gap < lossWindowSize then t.bitmap ||| (1 <<< UInt64.ofNat gap) else t.bitmap
        reorderCount := t.reorderCount + 1
        totalPackets := t.totalPackets + 1 }

/-- Packets of the window not received; `loss_percent` is this over the window. -/
def lost (t : LossTracker) : ℕ :=
  if !t.initialised then 0
  else lossWindowSize - ((List.range 64).filter fun i => t.bitmap.toNat.testBit i).length

end LossTracker

structure JitterEstimator where
  jitterUs : UInt32
  prevDiffUs : Int64
  deriving DecidableEq, Repr

namespace JitterEstimator

def new : JitterEstimator := ⟨0, Int64.minValue⟩

def record (e : JitterEstimator) (sendTs recvTs : UInt64) : JitterEstimator :=
  let current := recvTs.toInt64 - sendTs.toInt64
  if e.prevDiffUs = Int64.minValue then { e with prevDiffUs := current }
  else
    let d := (current - e.prevDiffUs).toInt.natAbs
    let j := e.jitterUs.toNat
    let next := if j < d then j + (d - j) / 16 else j - (j - d) / 16
    ⟨UInt32.ofNat (min next (2 ^ 32 - 1)), current⟩

end JitterEstimator

/-- Round-trip time in microseconds; the largest value means no sample. -/
structure RttEstimator where
  rttUs : UInt32
  deriving DecidableEq, Repr

namespace RttEstimator

def new : RttEstimator := ⟨0xFFFFFFFF⟩

def currentUs (e : RttEstimator) : Option UInt32 :=
  if e.rttUs = 0xFFFFFFFF then none else some e.rttUs

end RttEstimator
end GravitalTalk
