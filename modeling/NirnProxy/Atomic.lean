import Mathlib.Data.List.Basic

/-! Objects whose operations take effect one at a time, and the histories that they explain. -/

universe u v w x

namespace NirnProxy

structure Atomic (σ : Type u) (ι : Type v) (ρ : Type w) where
  apply : σ → ι → σ × ρ

namespace Atomic

variable {σ : Type u} {ι : Type v} {ρ : Type w} {π : Type x}

/-- The history, the last operation first, leads from `s` to the state given, and every operation
has the result that it has in the history. -/
inductive Explains (O : Atomic σ ι ρ) (s : σ) : List (π × ι × ρ) → σ → Prop
  | nil : Explains O s [] s
  | cons {t u p i r history} : Explains O s history t → O.apply t i = (u, r) →
      Explains O s ((p, i, r) :: history) u

end Atomic

end NirnProxy
