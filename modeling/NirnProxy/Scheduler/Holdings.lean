import NirnProxy.Ledger
import NirnProxy.Scheduler.Waiting

/-! What a request has taken and not given back yet, by where it stands in `RoundTrip`. -/

universe u

namespace NirnProxy

/-- `active` is one of the counts of a bucket, `attempt` a reservation of the invalid request
budget. -/
inductive Resource
  | gate (g : GateName)
  | active (b : Nat)
  | attempt
  deriving DecidableEq

structure Grip where
  bucket : Option Nat
  counted : Option Nat
  validation : Bool
  pacer : Bool
  attempt : Bool

namespace Grip

def holds (g : Grip) : Resource → Bool
  | .gate (.bucket b) => g.bucket == some b
  | .gate .validation => g.validation
  | .gate .pacer => g.pacer
  | .active b => g.counted == some b
  | .attempt => g.attempt

def Allows (g : Grip) : Effect Resource → Prop
  | .take (.gate (.bucket _)) => g.bucket = none
  | .take (.gate .validation) => g.validation = false
  | .take (.gate .pacer) => g.pacer = false
  | .take (.active _) => g.counted = none
  | .take .attempt => g.attempt = false
  | .give r => g.holds r = true

def after (g : Grip) : Effect Resource → Grip
  | .take (.gate (.bucket b)) => { g with bucket := some b }
  | .take (.gate .validation) => { g with validation := true }
  | .take (.gate .pacer) => { g with pacer := true }
  | .take (.active b) => { g with counted := some b }
  | .take .attempt => { g with attempt := true }
  | .give (.gate (.bucket _)) => { g with bucket := none }
  | .give (.gate .validation) => { g with validation := false }
  | .give (.gate .pacer) => { g with pacer := false }
  | .give (.active _) => { g with counted := none }
  | .give .attempt => { g with attempt := false }

theorem turns {g : Grip} {e : Effect Resource} (h : g.Allows e) :
    Effect.Turns g.holds (g.after e).holds (some e) := by
  cases e with
  | take r =>
    refine .take ?_ ?_ fun x hx => ?_
    · obtain (_ | _ | _) | _ | _ := r <;> simp_all [Allows, holds]
    · obtain (_ | _ | _) | _ | _ := r <;> simp [after, holds]
    · have hx' := hx.symm
      obtain (_ | _ | _) | _ | _ := r <;> obtain (_ | _ | _) | _ | _ := x <;>
        simp_all [Allows, after, holds]
  | give r =>
    refine .give h ?_ fun x hx => ?_
    · obtain (_ | _ | _) | _ | _ := r <;> simp [after, holds]
    · have hx' := hx.symm
      obtain (_ | _ | _) | _ | _ := r <;> obtain (_ | _ | _) | _ | _ := x <;>
        simp_all [Allows, after, holds]

end Grip

namespace TripPc

def validated : TripPc → Bool
  | .held h _ | .learned h _ _ => h.validation
  | _ => false

def attempting : TripPc → Bool
  | .held _ .dispatch | .held _ .inFlight => true
  | _ => false

def grip (pc : TripPc) : Grip where
  bucket := pc.phase.owned
  counted := pc.phase.counted
  validation := pc.validated
  pacer := pc.pace == .owner
  attempt := pc.attempting

/-- What `RoundTrip` does between two places: a gate is taken where `acquire` returns without an
error and given back where `release` is called, and so on. -/
def effect : TripPc → TripPc → Option (Effect Resource)
  | .acquire _ (.activate b), _ => some (.take (.active b))
  | .acquire _ (.deactivate b), _ => some (.give (.active b))
  | .acquire _ (.gate b), .acquire _ (.recheck _) => some (.take (.gate (.bucket b)))
  | .release b .active _, _ => some (.give (.active b))
  | .release b .gate _, _ => some (.give (.gate (.bucket b)))
  | .held _ .validation, .held _ .validationCheck => some (.take (.gate .validation))
  | .held _ .validationRelease, _ => some (.give (.gate .validation))
  | .held _ (.unwind _), .held _ _ => some (.give (.gate .validation))
  | .learned _ _ (.validationRelease _), _ => some (.give (.gate .validation))
  | .held _ (.pacer .gate), .held _ (.pacer .check) => some (.take (.gate .pacer))
  | .held _ (.pacer (.unlock _)), _ => some (.give (.gate .pacer))
  | .held _ .reserve, .held _ .dispatch => some (.take .attempt)
  | .held _ .inFlight, _ => some (.give .attempt)
  | _, _ => none

def Turns (pc pc' : TripPc) : Prop := Effect.Turns pc.grip.holds pc'.grip.holds (pc.effect pc')

theorem Turns.some {pc pc' : TripPc} {e : Effect Resource} (he : pc.effect pc' = .some e)
    (ha : pc.grip.Allows e) (hg : pc'.grip = pc.grip.after e) : pc.Turns pc' := by
  unfold Turns
  rw [he, hg]
  exact Grip.turns ha

end TripPc

namespace SchedulerRun

variable {π : Type u} [DecidableEq π] {cfg : SchedulerConfig π} {s t : SchedulerRun π}
  {p : π} {h : Held}

/-- Only `p` moves between `s` and `t`, and it takes and gives back what it should. -/
def Turned (s : SchedulerRun π) (p : π) (t : SchedulerRun π) : Prop :=
  ∃ pc, t.pc = Function.update s.pc p pc ∧ (s.pc p).Turns pc

theorem turns_rechecked (n b target : Nat) {pc : AcquirePc}
    (hpc : pc = .recheck b ∨ pc = .recheckSlow b) :
    (TripPc.acquire n pc).Turns (rechecked n b target) := by
  unfold rechecked
  split
  · split <;> obtain rfl | rfl := hpc <;> exact .none rfl
  · obtain rfl | rfl := hpc <;> exact .none rfl

theorem turns_leave {pc pc' : TripPc} (hv : pc.validated = false)
    (hg : pc'.grip = { pc.grip with validation := false }) (he : pc.effect pc' = none) :
    pc.Turns pc' := by
  have hsame : pc'.grip = pc.grip := by
    rw [hg, ← hv]
    rfl
  unfold TripPc.Turns
  rw [he, hsame]
  exact .none rfl

theorem TripSteps.turns {a : TripAction} {s' : SchedulerRun π} {pc pc' : TripPc}
    (hm : TripSteps cfg p s pc a s' pc') (hf : pc.check.Fits cfg p) : pc.Turns pc' := by
  cases hm with
  | activate | reserve | lost | respond => exact .some rfl rfl rfl
  | deactivate | releaseActive => exact .some rfl (beq_self_eq_true _) rfl
  | @bucketGate _ _ _ _ r | @pacerGate _ _ _ r =>
    cases r with
    | granted => exact .some rfl rfl rfl
    | pending | refused => exact .none rfl
  | @validation _ _ _ r =>
    cases r with
    | granted => exact .some rfl hf.1 rfl
    | pending | refused => exact .none rfl
  | recheck => exact turns_rechecked _ _ _ (.inl rfl)
  | recheckCreate => exact turns_rechecked _ _ _ (.inr rfl)
  | validationRelease | stored => exact .some rfl hf.1 rfl
  | unwindValidation hown => exact .some rfl hown rfl
  | unwind hown => exact turns_leave hown rfl rfl
  | answer | prepareFailed | unprepared | giveUp | retry => exact turns_leave hf.1 rfl rfl
  | @pacerUnlock _ ret => cases ret <;> exact .some rfl rfl rfl
  | @releaseGate _ k => cases k <;> exact .some rfl (beq_self_eq_true _) rfl
  | _ => exact .none rfl

theorem trip_turns {a : TripAction} (hi : s.credential.Checked cfg)
    (hs : s.tripStep cfg p a = some t) : s.Turned p t := by
  obtain ⟨s', pc', hm, rfl⟩ := tripStep_trips hs
  refine ⟨pc', ?_, hm.turns (hi.fits p)⟩
  rw [← hm.pc_eq]
  rfl

theorem step_pc {a : SchedulerAction π} (ha : ∀ p x, a ≠ .trip p x) (hs : s.step cfg a = some t) :
    t.pc = s.pc := by
  cases a with
  | trip p x => exact (ha p x rfl).elim
  | clear =>
    obtain ⟨-, -, rfl⟩ := step_clear hs
    rfl
  | _ => exact (step_aside rfl (by simp) hs).pc_eq

omit [DecidableEq π] in
theorem role_check (s : SchedulerRun π) (p : π) :
    (s.credential.check p).role = .owner ↔ (s.pc p).validated = true := by
  change (s.pc p).check.role = .owner ↔ _
  cases s.pc p with
  | held h pc =>
    simp only [TripPc.check, TripPc.validated]
    cases h.validation <;> cases pc.stage <;> simp [CheckPhase.role]
  | learned h o pc =>
    simp only [TripPc.check, TripPc.validated]
    cases h.validation <;> cases pc.stage <;> simp [CheckPhase.role]
  | acquire n pc => simp [TripPc.check, TripPc.validated, role_before]
  | release b pc k =>
    cases k with
    | finish => simp [TripPc.check, AfterRelease.check, TripPc.validated, CheckPhase.role]
    | _ => simp [TripPc.check, AfterRelease.check, TripPc.validated, role_before]
  | _ => simp [TripPc.check, TripPc.validated, CheckPhase.role]

theorem owner_iff (h : (system cfg).Reachable s) (g : GateName) :
    (s.gate g).call p = .owner ↔ (s.pc p).grip.holds (.gate g) = true := by
  have hi := checked_of_reach h
  cases g with
  | bucket b =>
    have hs := (owned_of_reach h).stands b p
    change (s.pc p).phase.Stands b ((s.client.bucketAt b).gate.call p) at hs
    change (s.client.bucketAt b).gate.call p = .owner ↔ _
    simp only [Grip.holds, TripPc.grip, beq_iff_eq]
    unfold BucketPhase.Stands at hs
    split at hs
    · simp_all
    · split at hs <;> simp_all
  | validation =>
    have hs := hi.validation.stands p
    change (s.client.validation).call p = .owner ↔ (s.pc p).validated = true
    rw [← role_check]
    change GateRole.Stands (s.credential.check p).role (s.client.validation.call p) at hs
    cases hr : (s.credential.check p).role <;> simp_all [GateRole.Stands]
  | pacer =>
    have hs := hi.pacer.stands p
    change s.client.global.gate.call p = .owner ↔ ((s.pc p).pace == .owner) = true
    change GateRole.Stands (s.pc p).pace (s.client.global.gate.call p) at hs
    cases hr : (s.pc p).pace <;> simp_all [GateRole.Stands]

end SchedulerRun

end NirnProxy
