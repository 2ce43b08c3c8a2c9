import Mathlib.Order.Lattice
import NirnProxy.Clock
import NirnProxy.Gate.Core

/-! `bucketState`: a gate, the counters that keep a bucket from being swept, and its cooldown.
As in the pacer, `wake` numbers the current channel and smaller numbers are closed. -/

universe u

namespace NirnProxy

def clientIdleTimeout : Int := 10 * Duration.minute

structure BucketState (π : Type u) where
  gate : FifoGate π
  active : Int
  lastUsed : Int
  readyAt : Int
  wake : Nat

namespace BucketState

variable {π : Type u}

def newBucketState (maxWaiters : Nat) (now : Int) : BucketState π where
  gate := .newFIFOGate maxWaiters
  active := 0
  lastUsed := now
  readyAt := zeroTime
  wake := 0

def touch (now : Int) (b : BucketState π) : BucketState π := { b with lastUsed := now }

def addActive (n : Int) (b : BucketState π) : BucketState π := { b with active := b.active + n }

def blockUntil (b : BucketState π) (readyAt : Int) : BucketState π :=
  if b.readyAt < readyAt then { b with readyAt := readyAt, wake := b.wake + 1 } else b

def merge (b other : BucketState π) : BucketState π := b.blockUntil other.readyAt

def retryAfter (b : BucketState π) (now : Int) : Int :=
  if b.readyAt ≤ now then 0 else b.readyAt - now

def blocked (b : BucketState π) (now : Int) : Bool := decide (0 < b.retryAfter now)

variable {b : BucketState π} {now t : Int}

theorem blockUntil_readyAt (b : BucketState π) (t : Int) :
    (b.blockUntil t).readyAt = max b.readyAt t := by
  unfold blockUntil
  split
  · exact (max_eq_right (le_of_lt ‹_›)).symm
  · exact (max_eq_left (not_lt.mp ‹_›)).symm

@[simp] theorem blockUntil_active (b : BucketState π) (t : Int) :
    (b.blockUntil t).active = b.active := by
  unfold blockUntil
  split <;> rfl

@[simp] theorem blockUntil_gate (b : BucketState π) (t : Int) :
    (b.blockUntil t).gate = b.gate := by
  unfold blockUntil
  split <;> rfl

theorem retryAfter_eq_max (b : BucketState π) (now : Int) :
    b.retryAfter now = max 0 (b.readyAt - now) := by
  unfold retryAfter
  split <;> omega

theorem blocked_eq_false : b.blocked now = false ↔ b.readyAt ≤ now := by
  simp only [blocked, retryAfter_eq_max, decide_eq_false_iff_not, not_lt]
  omega

end BucketState

end NirnProxy
