import Mathlib.Data.List.Count

/-! A ledger of what somebody takes and gives back, kept in step with what they hold. -/

universe u

namespace NirnProxy

inductive Effect (ρ : Type u)
  | take (r : ρ)
  | give (r : ρ)
  deriving DecidableEq

variable {ρ : Type u}

/-- What is held before and after a step with this effect: only what is not held is taken, and
only what is held is given back. -/
inductive Effect.Turns (h h' : ρ → Bool) : Option (Effect ρ) → Prop
  | none : h' = h → Turns h h' none
  | take {r} : h r = false → h' r = true → (∀ x, x ≠ r → h' x = h x) → Turns h h' (some (.take r))
  | give {r} : h r = true → h' r = false → (∀ x, x ≠ r → h' x = h x) → Turns h h' (some (.give r))

variable [DecidableEq ρ] {log : List (Effect ρ)} {h h' : ρ → Bool}

def Balanced (log : List (Effect ρ)) (h : ρ → Bool) : Prop :=
  ∀ r, log.count (.take r) = log.count (.give r) + (h r).toNat

namespace Balanced

theorem turn {e : Option (Effect ρ)} (hb : Balanced log h) (ht : Effect.Turns h h' e) :
    Balanced (e.toList ++ log) h' := by
  intro r
  have hr := hb r
  cases ht with
  | none he => rwa [he]
  | @take x hx hx' hne =>
    by_cases hrx : r = x
    · subst hrx
      simp_all
    · simpa [List.count_cons, Ne.symm hrx, hne r hrx] using hr
  | @give x hx hx' hne =>
    by_cases hrx : r = x
    · subst hrx
      simp_all
    · simpa [List.count_cons, Ne.symm hrx, hne r hrx] using hr

theorem settled {r : ρ} (hb : Balanced log h) (hr : h r = false) :
    log.count (.take r) = log.count (.give r) := by
  simpa [hr] using hb r

end Balanced

end NirnProxy
