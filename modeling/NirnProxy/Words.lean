import Mathlib.Data.Fintype.EquivFin

/-! Operations on 64-bit words that lose nothing: each of them permutes the words. -/

namespace NirnProxy.Words

open Function

variable {f : UInt64 → UInt64}

theorem bijective_of_injective (h : Injective f) : Bijective f := by
  have hfin : Injective UInt64.toFin := fun _ _ => UInt64.toFin_inj.mp
  have : Finite UInt64 := Finite.of_injective _ hfin
  exact Finite.injective_iff_bijective.mp h

theorem bijective_add (c : UInt64) : Bijective (· + c) := by
  apply bijective_of_injective
  intro x y h
  exact (UInt64.add_left_inj c).mp h

theorem bijective_mul {c d : UInt64} (h : c * d = 1) : Bijective (· * c) := by
  apply bijective_of_injective
  intro x y hxy
  calc
    x = x * c * d := by rw [UInt64.mul_assoc, h, UInt64.mul_one]
    _ = y * c * d := congrArg (· * d) hxy
    _ = y := by rw [UInt64.mul_assoc, h, UInt64.mul_one]

theorem eq_zero_of_shiftRight_self {x k : UInt64} (hk : 0 < k.toNat % 64) (h : x >>> k = x) :
    x = 0 := by
  apply UInt64.toNat_inj.mp
  have hshift := congrArg UInt64.toNat h
  rw [UInt64.toNat_shiftRight, Nat.shiftRight_eq_div_pow] at hshift
  by_contra hx
  exact absurd hshift (Nat.div_lt_self (Nat.pos_of_ne_zero hx) (Nat.one_lt_two_pow hk.ne')).ne

/-- Two words with the same xor-shift differ by a word that is its own shift. -/
theorem bijective_xorShift {k : UInt64} (hk : 0 < k.toNat % 64) :
    Bijective fun x : UInt64 => x ^^^ x >>> k := by
  apply bijective_of_injective
  intro x y h
  replace h : x ^^^ x >>> k = y ^^^ y >>> k := h
  have hself : (x ^^^ y) >>> k = x ^^^ y := by
    have hx : x >>> k = x ^^^ (y ^^^ y >>> k) := by
      rw [← h, ← UInt64.xor_assoc, UInt64.xor_self, UInt64.zero_xor]
    rw [UInt64.shiftRight_xor, hx, UInt64.xor_assoc, UInt64.xor_assoc, UInt64.xor_self,
      UInt64.xor_zero]
  exact UInt64.xor_eq_zero_iff.mp (eq_zero_of_shiftRight_self hk hself)

end NirnProxy.Words
