import Mathlib.Logic.Relation
import NirnProxy.Scheduler.Validity

/-! Requests cannot wait for one another in a circle: whoever is queued at a gate has only gates
that come before it, first the gates of the buckets, then the validation gate, then the pacer. -/

universe u

namespace NirnProxy

open scoped Parties

variable {π : Type u}

inductive GateName
  | bucket (b : Nat)
  | validation
  | pacer
  deriving DecidableEq

def GateName.level : GateName → Nat
  | .bucket _ => 0
  | .validation => 1
  | .pacer => 2

namespace SchedulerRun

def gate (s : SchedulerRun π) : GateName → FifoGate π
  | .bucket b => (s.client.bucketAt b).gate
  | .validation => s.client.validation
  | .pacer => s.client.global.gate

/-- `p` is queued at a gate that `q` has. -/
def Waits (s : SchedulerRun π) (p q : π) : Prop :=
  ∃ g, p ∈ (s.gate g).waiters ∧ (s.gate g).holds q = true

variable [DecidableEq π] {cfg : SchedulerConfig π} {s : SchedulerRun π} {p q : π} {g g' : GateName}

theorem wf_gate (h : (system cfg).Reachable s) (g : GateName) : (s.gate g).Wf := by
  cases g with
  | bucket b => exact (owned_of_reach h).wf b
  | validation => exact (checked_of_reach h).validation.wf
  | pacer => exact (checked_of_reach h).pacer.wf

omit [DecidableEq π] in
theorem acquire_of_queued {b : Nat} (ho : s.view.Owned) (hp : p ∈ (s.gate (.bucket b)).waiters) :
    s.view.phase p = .queued b ∧ ∃ n, s.pc p = .acquire n (.gate b) := by
  have hcall := (ho.wf b).queued p hp
  have hs := ho.stands b p
  have hphase : s.view.phase p = .queued b := by
    unfold BucketPhase.Stands at hs
    split at hs
    · obtain hc | hc := hcall <;> cases hc.symm.trans hs
    · split at hs
      · assumption
      · obtain hc | hc := hcall <;> cases hc.symm.trans hs
  refine ⟨hphase, ?_⟩
  change (s.pc p).phase = _ at hphase
  cases hpc : s.pc p with
  | acquire n pc =>
    rw [hpc] at hphase
    cases pc <;> cases hphase
    exact ⟨n, rfl⟩
  | release x pc k =>
    rw [hpc] at hphase
    cases pc <;> cases hphase
  | _ =>
    rw [hpc] at hphase
    cases hphase

theorem role_before (n : Nat) : (CheckPhase.before n).role = .out := by
  unfold CheckPhase.before
  split <;> rfl

theorem not_holds_of_bucket {b : Nat} (h : (system cfg).Reachable s)
    (hp : p ∈ (s.gate (.bucket b)).waiters) (g : GateName) : (s.gate g).holds p = false := by
  have ho := owned_of_reach h
  have hi := checked_of_reach h
  obtain ⟨hphase, n, hpc⟩ := acquire_of_queued ho hp
  cases g with
  | bucket c =>
    by_cases hc : c = b
    · subst hc
      exact (ho.wf c).not_holds_of_mem hp
    · have hs := ho.stands c p
      rw [BucketPhase.stands_elsewhere (by rw [hphase]; exact fun e => hc (Option.some.inj e).symm)]
        at hs
      exact FifoGate.not_holds_of_out hs
  | validation =>
    have hrole : (s.credential.check p).role = .out :=
      (congrArg (fun pc => pc.check.role) hpc).trans (role_before n)
    exact FifoGate.not_holds_of_out (hi.validation.call_out hrole)
  | pacer =>
    have hrole : s.credential.pace p = .out := congrArg TripPc.pace hpc
    exact FifoGate.not_holds_of_out (hi.pacer.call_out hrole)

theorem stage_of_validation (hi : s.credential.Checked cfg)
    (hp : p ∈ (s.gate .validation).waiters) : s.credential.check p = .held false .queued := by
  have hrole := hi.validation.queued_of_mem hp
  cases hc : s.credential.check p with
  | out | between => simp [hc, CheckPhase.role] at hrole
  | held own stage =>
    cases own with
    | true => simp [hc, CheckPhase.role] at hrole
    | false => cases stage <;> first | rfl | simp [hc, CheckPhase.role] at hrole

theorem bucket_of_validation (h : (system cfg).Reachable s)
    (hp : p ∈ (s.gate .validation).waiters) (hg : (s.gate g).holds p = true) :
    ∃ b, g = .bucket b := by
  have hi := checked_of_reach h
  have hc := stage_of_validation hi hp
  cases g with
  | bucket b => exact ⟨b, rfl⟩
  | validation => exact (hi.validation.wf.notMem_of_holds hg hp).elim
  | pacer =>
    obtain ⟨own, hadmitted⟩ := hi.pacing p (hi.pacer.ne_out_of_holds hg)
    cases hc.symm.trans hadmitted

theorem not_queued_of_pacer (h : (system cfg).Reachable s) (hp : (s.gate .pacer).holds p = true)
    (g : GateName) : p ∉ (s.gate g).waiters := by
  intro hm
  cases g with
  | bucket b => cases hp.symm.trans (not_holds_of_bucket h hm .pacer)
  | validation =>
    obtain ⟨b, hb⟩ := bucket_of_validation h hm hp
    cases hb
  | pacer => exact (checked_of_reach h).pacer.wf.notMem_of_holds hp hm

theorem level_lt (h : (system cfg).Reachable s) (hp : p ∈ (s.gate g).waiters)
    (hg : (s.gate g').holds p = true) : g'.level < g.level := by
  cases g with
  | bucket b => cases hg.symm.trans (not_holds_of_bucket h hp g')
  | validation =>
    obtain ⟨b, rfl⟩ := bucket_of_validation h hp hg
    exact Nat.zero_lt_one
  | pacer =>
    cases g' with
    | bucket b => exact Nat.zero_lt_two
    | validation => exact Nat.one_lt_two
    | pacer => exact ((wf_gate h .pacer).notMem_of_holds hg hp).elim

/-- A chain of waiting requests goes up the order. -/
theorem level_le_of_waits (h : (system cfg).Reachable s) (hw : Relation.TransGen s.Waits p q) :
    ∃ g g', p ∈ (s.gate g).waiters ∧ (s.gate g').holds q = true ∧ g.level ≤ g'.level := by
  induction hw with
  | single hw =>
    obtain ⟨g, hp, hq⟩ := hw
    exact ⟨g, g, hp, hq, le_rfl⟩
  | tail _ hw ih =>
    obtain ⟨g, g', hp, hq, hle⟩ := ih
    obtain ⟨g'', hq', hr⟩ := hw
    exact ⟨g, g'', hp, hr, hle.trans (level_lt h hq' hq).le⟩

/-- No request waits for itself, through however many others.  A request queued at a bucket has no
gate, one queued at the validation gate has at most the gate of one bucket, and whoever has the
pacer is queued nowhere. -/
theorem no_circular_wait (cfg : SchedulerConfig π) (h : (system cfg).Reachable s) :
    (∀ p, ¬Relation.TransGen s.Waits p p) ∧
    (∀ p b, p ∈ (s.gate (.bucket b)).waiters → ∀ g, (s.gate g).holds p = false) ∧
    (∀ p, p ∈ (s.gate .validation).waiters →
      (∀ g, (s.gate g).holds p = true → ∃ b, g = .bucket b) ∧
      ∀ b c, (s.gate (.bucket b)).holds p = true → (s.gate (.bucket c)).holds p = true → b = c) ∧
    (∀ p, (s.gate .pacer).holds p = true → ∀ g, p ∉ (s.gate g).waiters) := by
  refine ⟨fun p hw => ?_, fun p b hp g => not_holds_of_bucket h hp g, fun p hp =>
    ⟨fun g hg => bucket_of_validation h hp hg, fun b c hb hc => ?_⟩,
    fun p hp g => not_queued_of_pacer h hp g⟩
  · obtain ⟨g, g', hp, hq, hle⟩ := level_le_of_waits h hw
    exact absurd hle (not_le.mpr (level_lt h hp hq))
  · have ho := owned_of_reach h
    have hplace : ∀ b, (s.gate (.bucket b)).holds p = true → (s.view.phase p).place = some b := by
      intro b hb
      by_contra hne
      have hs := ho.stands b p
      rw [BucketPhase.stands_elsewhere hne] at hs
      cases hb.symm.trans (FifoGate.not_holds_of_out hs)
    exact Option.some.inj ((hplace b hb).symm.trans (hplace c hc))

/-- Request 1 holds a bucket and waits for request 0 at the validation gate. -/
theorem no_circular_wait_validating :
    ∃ s : SchedulerRun (Fin 2), s.Waits 1 0 ∧ ¬Relation.TransGen s.Waits 1 1 ∧
      (s.gate .pacer).holds 1 = false := by
  have hrun : ((system (guarded 2)).run (start (guarded 2) 0) validating).map
      (fun s => (s.client.validation.waiters, s.client.validation.holds 0)) =
      some ([1], true) := by
    decide +kernel
  obtain ⟨s, hs, he⟩ := Option.map_eq_some_iff.mp hrun
  simp only [Prod.mk.injEq] at he
  obtain ⟨hw, hh⟩ := he
  have hmem : 1 ∈ (s.gate .validation).waiters := by simp [gate, hw]
  obtain ⟨hacyclic, -, hvalidation, -⟩ :=
    no_circular_wait (guarded 2) (System.Reachable.run (.init ⟨0, rfl⟩) hs)
  refine ⟨s, ⟨.validation, hmem, hh⟩, hacyclic 1, ?_⟩
  by_contra hp
  obtain ⟨b, hb⟩ := (hvalidation 1 hmem).1 .pacer (by simpa using hp)
  cases hb

end SchedulerRun

end NirnProxy
