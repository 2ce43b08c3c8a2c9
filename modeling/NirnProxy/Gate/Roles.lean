import NirnProxy.Gate.Core

/-! A gate together with what its users take themselves to be: outside it, in a call of `acquire`,
or its owner. -/

universe u

namespace NirnProxy

inductive GateRole
  | out
  | queued
  | owner
  deriving DecidableEq

def GateRole.Stands : GateRole → GateCall → Prop
  | .out, c => c = .out
  | .queued, c => c ≠ .owner
  | .owner, c => c = .owner

def GateReturn.role : GateReturn → GateRole
  | .pending => .queued
  | .granted => .owner
  | .refused _ => .out

namespace FifoGate

variable {π : Type u}

structure Manned [DecidableEq π] (g : FifoGate π) (role : π → GateRole) : Prop where
  wf : g.Wf
  stands : ∀ p, (role p).Stands (g.call p)

variable [DecidableEq π] {g g' : FifoGate π} {role : π → GateRole} {p q : π} {done : Bool}
  {r : GateReturn}

theorem manned_new (n : Nat) : (newFIFOGate n : FifoGate π).Manned fun _ => .out :=
  ⟨newFIFOGate_wf n, fun _ => rfl⟩

theorem Manned.call_owner (h : g.Manned role) (hp : role p = .owner) : g.call p = .owner := by
  have hs := h.stands p
  rw [hp] at hs
  exact hs

theorem Manned.call_out (h : g.Manned role) (hp : role p = .out) : g.call p = .out := by
  have hs := h.stands p
  rw [hp] at hs
  exact hs

theorem Manned.holds_owner (h : g.Manned role) (hp : role p = .owner) : g.holds p = true := by
  simp [holds, h.call_owner hp]

theorem Manned.unique (h : g.Manned role) (hp : role p = .owner) (hq : role q = .owner) : p = q :=
  h.wf.unique p q (h.holds_owner hp) (h.holds_owner hq)

theorem Manned.ne_out_of_holds (h : g.Manned role) (hp : g.holds p = true) : role p ≠ .out := by
  intro e
  simp [holds, h.call_out e] at hp

theorem Manned.queued_of_mem (h : g.Manned role) (hp : p ∈ g.waiters) : role p = .queued := by
  cases hr : role p with
  | out => exact (h.wf.notMem_of_out (h.call_out hr) hp).elim
  | queued => rfl
  | owner => exact (h.wf.notMem_of_holds (h.holds_owner hr) hp).elim

theorem Manned.recast {x : GateRole} (h : g.Manned role)
    (hx : ∀ c, (role p).Stands c → x.Stands c) :
    g.Manned (Function.update role p x) := by
  refine ⟨h.wf, fun q => ?_⟩
  by_cases hq : q = p
  · subst hq
    simpa using hx _ (h.stands q)
  · simpa [hq] using h.stands q

theorem Manned.enter (h : g.Manned role) (hp : role p = .out) :
    g.Manned (Function.update role p .queued) := by
  refine h.recast fun c hc => ?_
  rw [hp] at hc
  cases hc
  exact nofun

theorem Manned.step {a : GateStep} (h : g.Manned role) (hp : role p = .queued)
    (hs : g.step done p a = some (g', r)) : g'.Manned (Function.update role p r.role) := by
  have hcall : g.call p ≠ .owner := by
    have hs := h.stands p
    rw [hp] at hs
    exact hs
  refine ⟨h.wf.step hs, fun q => ?_⟩
  by_cases hq : q = p
  · subst hq
    have hl := step_call hs hcall
    rw [Function.update_self]
    cases r <;> exact hl
  · rw [Function.update_of_ne hq, step_call_ne hs hq]
    exact h.stands q

theorem Manned.release (h : g.Manned role) (hs : g.step done p .release = some (g', r)) :
    g'.Manned (Function.update role p .out) := by
  refine ⟨h.wf.step hs, fun q => ?_⟩
  by_cases hq : q = p
  · subst hq
    rw [Function.update_self]
    exact step_release hs
  · rw [Function.update_of_ne hq, step_call_ne hs hq]
    exact h.stands q

end FifoGate

end NirnProxy
