import Mathlib.Data.Int.Notation

/-! `resourceBudget`.  `reserve` loops around a compare-and-swap; it takes effect at the
successful swap, or at the load after which it gives up, and is one step here. -/

namespace NirnProxy

structure ResourceBudget where
  limit : Int
  used : Int
  deriving DecidableEq

namespace ResourceBudget

def newResourceBudget (limit : Int) : ResourceBudget := ⟨limit, 0⟩

def reserve (b : ResourceBudget) (size : Int) : Option ResourceBudget :=
  if size ≤ 0 then some b
  else if b.limit < b.used ∨ b.limit - b.used < size then none
  else some { b with used := b.used + size }

def release (b : ResourceBudget) (size : Int) : ResourceBudget :=
  if 0 < size then { b with used := b.used - size } else b

variable {b b' : ResourceBudget} {size : Int}

theorem reserve_limit (h : b.reserve size = some b') : b'.limit = b.limit := by
  unfold reserve at h
  split at h
  · cases h
    rfl
  · split at h <;> cases h
    rfl

theorem reserve_used (h : b.reserve size = some b') : b'.used = b.used + max size 0 := by
  unfold reserve at h
  split at h
  · cases h
    omega
  · split at h <;> cases h
    simp only
    omega

theorem reserve_le (h : b.reserve size = some b') (hb : b.used ≤ b.limit) :
    b'.used ≤ b'.limit := by
  unfold reserve at h
  split at h
  · cases h
    exact hb
  · split at h <;> cases h
    simp only
    omega

@[simp] theorem release_limit : (b.release size).limit = b.limit := by
  unfold release
  split <;> rfl

theorem release_used : (b.release size).used = b.used - max size 0 := by
  unfold release
  split
  · simp only
    omega
  · omega

end ResourceBudget

end NirnProxy
