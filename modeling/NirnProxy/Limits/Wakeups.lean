import NirnProxy.Client.Cooling
import NirnProxy.Limits.Pacing

/-! No sleeper misses an extension: what a sleeping `waitFor` has captured of the pacer, beside what
a sleeping `wait` has captured of its bucket. -/

universe u v

namespace NirnProxy

open scoped Parties

def WaitForPc.captured : WaitForPc → Option (Int × Nat)
  | .test readyAt _ wake | .sleep readyAt wake => some (readyAt, wake)
  | .gate | .check | .lock | .unlock _ | .returned _ => none

theorem WaitForPc.role_of_captured {pc : WaitForPc} {captured : Int × Nat}
    (h : pc.captured = some captured) : pc.role = .owner := by
  cases pc <;> first | rfl | cases h

namespace Pacer

variable {π : Type u} [DecidableEq π] {P P' : Pacer π} {p : π} {now : Int} {c : WaitContext}
  {pc pc' : WaitForPc} {a : WaitForStep}

theorem waitFor_captured (h : P.waitFor now c p pc a = some (P', pc')) :
    P'.wake = P.wake ∧
      (pc = .lock ∧ pc'.captured = none ∨
        P'.readyAt = P.readyAt ∧ (pc'.captured = none ∨ pc'.captured = pc.captured ∨
          pc'.captured = some (P.readyAt, P.wake))) := by
  unfold waitFor at h
  split at h
  · obtain ⟨⟨g, r⟩, -, h⟩ := Option.map_eq_some_iff.mp h
    cases h
    refine ⟨rfl, .inr ⟨rfl, .inl ?_⟩⟩
    cases r <;> rfl
  · cases h
    refine ⟨rfl, .inr ⟨rfl, .inl ?_⟩⟩
    split <;> rfl
  · split at h <;> cases h
    · exact ⟨rfl, .inl ⟨rfl, rfl⟩⟩
    · exact ⟨rfl, .inr ⟨rfl, .inr (.inr rfl)⟩⟩
  · split at h <;> cases h
    · exact ⟨rfl, .inr ⟨rfl, .inl rfl⟩⟩
    · exact ⟨rfl, .inr ⟨rfl, .inr (.inl rfl)⟩⟩
  · obtain ⟨-, h⟩ := Option.ite_none_right_eq_some.mp h
    cases h
    exact ⟨rfl, .inr ⟨rfl, .inl rfl⟩⟩
  · obtain ⟨-, h⟩ := Option.ite_none_right_eq_some.mp h
    cases h
    exact ⟨rfl, .inr ⟨rfl, .inl rfl⟩⟩
  · obtain ⟨-, h⟩ := Option.ite_none_right_eq_some.mp h
    cases h
    exact ⟨rfl, .inr ⟨rfl, .inl rfl⟩⟩
  · obtain ⟨⟨g, r⟩, -, h⟩ := Option.map_eq_some_iff.mp h
    cases h
    exact ⟨rfl, .inr ⟨rfl, .inl rfl⟩⟩
  · cases h

end Pacer

/-- A run of the pacer with the calls of `close` on its channels, newest first. -/
structure PacerWakes (π : Type u) where
  run : PacerRun π
  closes : List Nat

namespace PacerWakes

variable {π : Type u} [DecidableEq π]

def closed (s : PacerWakes π) : PacerAction π → List Nat
  | .blockFor d =>
    if s.run.pacer.blockedUntil < s.run.clock + max d minimumRetryDelay then [s.run.pacer.wake]
    else []
  | _ => []

def step (s : PacerWakes π) (a : PacerAction π) : Option (PacerWakes π) :=
  (s.run.step a).map fun run => ⟨run, s.closed a ++ s.closes⟩

def system (π : Type u) [DecidableEq π] (limit maxWaiters : Nat) :
    System (PacerWakes π) (PacerAction π) where
  init s := ∃ clock, s = ⟨.start limit maxWaiters clock, []⟩
  step := step

def signal (s : PacerWakes π) : Signal Int := ⟨s.run.pacer.readyAt, s.run.pacer.wake, s.closes⟩

def role (s : PacerRun π) (p : π) : GateRole := ((s.pc p).map WaitForPc.role).getD .out

structure Inv (s : PacerWakes π) : Prop where
  manned : s.run.pacer.gate.Manned (role s.run)
  tidy : s.signal.Tidy
  captured : ∀ p pc readyAt wake, s.run.pc p = some pc → pc.captured = some (readyAt, wake) →
    s.signal.Captured readyAt wake

variable {s t : PacerWakes π} {p : π}

theorem start_inv (limit maxWaiters : Nat) (clock : Int) :
    (⟨.start limit maxWaiters clock, []⟩ : PacerWakes π).Inv :=
  ⟨FifoGate.manned_new maxWaiters, Signal.tidy_new _, fun _ _ _ _ h => by cases h⟩

theorem role_update (run : PacerRun π) (p : π) (pc : WaitForPc) :
    role { run with pc := Function.update run.pc p (some pc) } =
      Function.update (role run) p pc.role :=
  Function.comp_update (fun pc : Option WaitForPc => (pc.map WaitForPc.role).getD .out) run.pc p
    (some pc)

omit [DecidableEq π] in
theorem signal_blockFor (s : PacerWakes π) (d : Int) (log : List PacerEvent) :
    (⟨{ s.run with pacer := s.run.pacer.blockFor s.run.clock d, log := log },
        s.closed (.blockFor d) ++ s.closes⟩ : PacerWakes π).signal =
      if s.run.pacer.blockedUntil < s.run.clock + max d minimumRetryDelay then
        s.signal.publish (s.run.pacer.blockFor s.run.clock d).readyAt
      else s.signal := by
  unfold signal closed Pacer.blockFor
  dsimp only
  split
  · rfl
  · rfl

theorem Inv.manned_waitFor (h : s.Inv) {P : Pacer π} {pc pc' : WaitForPc} {a : WaitForStep}
    (hp : s.run.pc p = some pc)
    (hw : s.run.pacer.waitFor s.run.clock (s.run.context p) p pc a = some (P, pc')) :
    P.gate.Manned (Function.update (role s.run) p pc'.role) := by
  have hrole : role s.run p = pc.role := by simp [role, hp]
  obtain ⟨hr, _, r, hg, hr'⟩ | ⟨hr, hr', hg⟩ | ⟨-, hr', r, hg⟩ := Pacer.waitFor_roles hw
  · rw [hr']
    exact h.manned.step (hrole.trans hr) hg
  · rw [hg, hr', ← hr, ← hrole, Function.update_eq_self]
    exact h.manned
  · rw [hr']
    exact h.manned.release hg

theorem Inv.captured_waitFor (h : s.Inv) {P : Pacer π} {pc pc' : WaitForPc} {a : WaitForStep}
    (hp : s.run.pc p = some pc)
    (hw : s.run.pacer.waitFor s.run.clock (s.run.context p) p pc a = some (P, pc')) {q : π}
    {w : WaitForPc} {readyAt : Int} {wake : Nat}
    (hq : Function.update s.run.pc p (some pc') q = some w)
    (hcaptured : w.captured = some (readyAt, wake)) :
    (⟨P.readyAt, P.wake, s.closes⟩ : Signal Int).Captured readyAt wake := by
  obtain ⟨hwake, ⟨hlock, hnone⟩ | ⟨hready, hkept⟩⟩ := Pacer.waitFor_captured hw
  · by_cases hqp : q = p
    · subst hqp
      rw [Function.update_self, Option.some.injEq] at hq
      rw [← hq, hnone] at hcaptured
      cases hcaptured
    · rw [Function.update_of_ne hqp] at hq
      have hown : role s.run p = .owner := by
        rw [role, hp, hlock]
        rfl
      have hown' : role s.run q = .owner := by
        rw [role, hq]
        exact WaitForPc.role_of_captured hcaptured
      exact absurd (h.manned.unique hown' hown) hqp
  · rw [hready, hwake]
    by_cases hqp : q = p
    · subst hqp
      rw [Function.update_self, Option.some.injEq] at hq
      subst hq
      obtain hk | hk | hk := hkept
      · rw [hk] at hcaptured
        cases hcaptured
      · exact h.captured q pc readyAt wake hp (hk.symm.trans hcaptured)
      · rw [hk] at hcaptured
        cases hcaptured
        exact s.signal.captured_current
    · rw [Function.update_of_ne hqp] at hq
      exact h.captured q w readyAt wake hq hcaptured

theorem Inv.blockFor (h : s.Inv) (d : Int) (log : List PacerEvent) :
    (⟨{ s.run with pacer := s.run.pacer.blockFor s.run.clock d, log := log },
        s.closed (.blockFor d) ++ s.closes⟩ : PacerWakes π).Inv := by
  refine ⟨?_, ?_, fun q pc readyAt wake hq hc => ?_⟩
  · have hgate : (s.run.pacer.blockFor s.run.clock d).gate = s.run.pacer.gate := by
      unfold Pacer.blockFor
      dsimp only
      split <;> rfl
    rw [hgate]
    exact h.manned
  · rw [signal_blockFor]
    split
    · exact h.tidy.publish _
    · exact h.tidy
  · have hcaptured := h.captured q pc readyAt wake hq hc
    rw [signal_blockFor]
    split
    · exact hcaptured.publish _
    · exact hcaptured

omit [DecidableEq π] in
theorem role_of_idle {run : PacerRun π} (h : run.Busy p = false) : role run p = .out := by
  unfold role
  unfold PacerRun.Busy at h
  split at h
  · simp_all
  · simp_all [WaitForPc.role]
  · cases h

theorem Inv.step (h : s.Inv) {a : PacerAction π} (hs : s.step a = some t) : t.Inv := by
  obtain ⟨run, hrun, rfl⟩ := Option.map_eq_some_iff.mp hs
  cases PacerRun.step_moves hrun with
  | tick | cancel => exact ⟨h.manned, h.tidy, h.captured⟩
  | @call p c hidle =>
    refine ⟨?_, h.tidy, fun q pc readyAt wake hq hc => ?_⟩
    · exact (role_update s.run p .gate) ▸ h.manned.enter (role_of_idle hidle)
    · by_cases hqp : q = p
      · subst hqp
        obtain rfl : WaitForPc.gate = pc := by simpa using hq
        cases hc
      · exact h.captured q pc readyAt wake (by simpa [hqp] using hq) hc
  | @step p a pc pc' P hp hw =>
    refine ⟨?_, ?_, fun q w readyAt wake hq hc => h.captured_waitFor hp hw hq hc⟩
    · exact (role_update s.run p pc') ▸ h.manned_waitFor hp hw
    · have htidy := h.tidy
      unfold Signal.Tidy signal at *
      rw [(Pacer.waitFor_captured hw).1]
      exact htidy
  | blockFor d => exact h.blockFor d _

theorem inv_of_reachable {limit maxWaiters : Nat} (h : (system π limit maxWaiters).Reachable s) :
    s.Inv := by
  refine System.Reach.invariant ?_ ?_ h
  · rintro _ ⟨clock, rfl⟩
    exact start_inv limit maxWaiters clock
  · intro _ _ _ hi _ hs
    exact hi.step hs

theorem blockedUntil_le_step {a : PacerAction π} (hs : s.step a = some t) :
    s.run.pacer.blockedUntil ≤ t.run.pacer.blockedUntil := by
  obtain ⟨run, hrun, rfl⟩ := Option.map_eq_some_iff.mp hs
  cases PacerRun.step_moves hrun with
  | tick | cancel | call => exact le_refl _
  | step _ hw =>
    obtain ⟨-, -, rfl, -⟩ | ⟨-, -, -, g, rfl⟩ | ⟨_, -, -, g, rfl⟩ := Pacer.waitFor_cases hw <;>
      exact le_refl _
  | blockFor d =>
    simp only [Pacer.blockFor_blockedUntil]
    exact le_max_left _ _

theorem blockedUntil_le {limit maxWaiters : Nat}
    (h : (system π limit maxWaiters).Leads (fun _ _ => True) s t) :
    s.run.pacer.blockedUntil ≤ t.run.pacer.blockedUntil := by
  induction h with
  | refl => exact le_refl _
  | step _ _ hs ih => exact ih.trans (blockedUntil_le_step hs)

/-- `waitFor` returns zero without an error only after a turn at which the pacer was ready. -/
theorem readyAt_le_of_turn {a : PacerAction π} (hs : s.step a = some t)
    (hp : t.run.pc p = some (.unlock .granted)) (hne : s.run.pc p ≠ some (.unlock .granted)) :
    s.run.pacer.readyAt ≤ s.run.clock := by
  obtain ⟨run, hrun, rfl⟩ := Option.map_eq_some_iff.mp hs
  cases PacerRun.step_moves hrun with
  | tick | cancel | blockFor => exact absurd hp hne
  | @call q c =>
    by_cases hqp : p = q
    · simp [hqp] at hp
    · exact absurd (by simpa [hqp] using hp) hne
  | @step q a pc pc' P _ hw =>
    by_cases hqp : p = q
    · subst hqp
      obtain rfl : pc' = .unlock .granted := by simpa using hp
      obtain ⟨-, hready, -⟩ | ⟨-, hpc, -⟩ | ⟨_, -, hpc, -⟩ := Pacer.waitFor_cases hw
      · exact hready
      · exact absurd rfl hpc
      · cases hpc
    · exact absurd (by simpa [hqp] using hp) hne

theorem Inv.sleep (h : s.Inv) {readyAt : Int} {wake : Nat}
    (hp : s.run.pc p = some (.sleep readyAt wake)) (hopen : wake ∉ s.closes) :
    readyAt = max s.run.pacer.next s.run.pacer.blockedUntil :=
  (h.captured p _ readyAt wake hp rfl).value_eq h.tidy hopen

end PacerWakes

/-- A sleeper on an open channel has captured the current ready time, of a bucket as of the pacer.
Ready times of buckets and blocks of the pacer only move forward, no channel is closed twice, and
nobody is let through before the ready time that was read last. -/
theorem no_extension_missed (β : Type v) (π : Type u) [DecidableEq β] [DecidableEq π]
    (limit maxWaiters : Nat) :
    (∀ s, (CoolingRun.system β π maxWaiters).Reachable s →
      (∀ p b readyAt fires wake, s.pc p = .wait b (.sleep readyAt fires wake) →
        wake ∉ s.closes b → readyAt = (s.bucketAt b).readyAt) ∧
      (∀ t b, (CoolingRun.system β π maxWaiters).Leads (fun _ _ => True) s t →
        (s.bucketAt b).readyAt ≤ (t.bucketAt b).readyAt) ∧
      (∀ b, (s.closes b).Nodup) ∧
      ∀ p b, s.pc p = .wait b (.returned .granted) → s.read p ≤ s.compared p) ∧
    ∀ s, (PacerWakes.system π limit maxWaiters).Reachable s →
      (∀ p readyAt wake, s.run.pc p = some (.sleep readyAt wake) → wake ∉ s.closes →
        readyAt = max s.run.pacer.next s.run.pacer.blockedUntil) ∧
      (∀ t, (PacerWakes.system π limit maxWaiters).Leads (fun _ _ => True) s t →
        s.run.pacer.blockedUntil ≤ t.run.pacer.blockedUntil) ∧
      s.closes.Nodup ∧
      ∀ p a t, s.step a = some t → t.run.pc p = some (.unlock .granted) →
        s.run.pc p ≠ some (.unlock .granted) → s.run.pacer.readyAt ≤ s.run.clock := by
  refine ⟨fun s h => ?_, fun s h => ?_⟩
  · have hinv := CoolingRun.inv_of_reachable h
    exact ⟨fun _ _ _ _ _ => hinv.sleep, fun _ b hlead => CoolingRun.readyAt_le hlead b,
      fun b => (hinv.tidy b).nodup, hinv.ready⟩
  · have hinv := PacerWakes.inv_of_reachable h
    exact ⟨fun _ _ _ => hinv.sleep, fun _ => PacerWakes.blockedUntil_le, hinv.tidy.nodup,
      fun _ _ _ => PacerWakes.readyAt_le_of_turn⟩

/-- The first sleeper is asleep when the cooldown is extended, the second comes after it. -/
def twoSleepers : List (CoolingAction Unit (Fin 3)) :=
  [.blockUntil 2 () 10, .step 2 .go, .wait 0 () ⟨false, none, 0⟩, .step 0 .go, .step 0 .go,
    .step 0 .go, .step 0 .go, .step 0 .go, .blockUntil 2 () 20, .step 2 .go,
    .wait 1 () ⟨false, none, 0⟩, .step 1 .go, .step 1 .go, .step 1 .go, .step 1 .go, .step 1 .go]

def blockedTurn : List (PacerAction (Fin 3)) :=
  [.blockFor 0, .call 0 ⟨false, none, 0⟩, .step 0 (.gate .enter), .step 0 (.gate .check),
    .step 0 .check, .step 0 .lock, .step 0 .test]

theorem no_extension_missed_two_sleepers :
    (∃ s, (CoolingRun.system Unit (Fin 3) 8).run (.start 8 0) twoSleepers = some s ∧
      s.pc 0 = .wait () (.sleep 10 10 1) ∧ s.pc 1 = .wait () (.sleep 20 20 2) ∧
      s.closes () = [1, 0] ∧ 20 = (s.bucketAt ()).readyAt) ∧
    ∃ s, (PacerWakes.system (Fin 3) 50 8).run ⟨.start 50 8 0, []⟩ blockedTurn = some s ∧
      s.run.pc 0 = some (.sleep minimumRetryDelay 1) ∧ s.closes = [0] ∧
      minimumRetryDelay = max s.run.pacer.next s.run.pacer.blockedUntil := by
  obtain ⟨hbuckets, hpacer⟩ := no_extension_missed Unit (Fin 3) 50 8
  constructor
  · have hrun : ((CoolingRun.system Unit (Fin 3) 8).run (.start 8 0) twoSleepers).map
        (fun s => (s.pc 0, s.pc 1, s.closes ())) =
        some (.wait () (.sleep 10 10 1), .wait () (.sleep 20 20 2), [1, 0]) := by decide
    obtain ⟨s, hs, heq⟩ := Option.map_eq_some_iff.mp hrun
    obtain ⟨h0, h1, hcloses⟩ : _ ∧ _ ∧ _ := by simpa only [Prod.mk.injEq] using heq
    have hopen : 2 ∉ s.closes () := by
      rw [hcloses]
      decide
    have hr : (CoolingRun.system Unit (Fin 3) 8).Reachable s :=
      System.Reachable.run (.init ⟨0, rfl⟩) hs
    exact ⟨s, hs, h0, h1, hcloses, (hbuckets s hr).1 1 () 20 20 2 h1 hopen⟩
  · have hrun : ((PacerWakes.system (Fin 3) 50 8).run ⟨.start 50 8 0, []⟩ blockedTurn).map
        (fun s => (s.run.pc 0, s.closes)) = some (some (.sleep minimumRetryDelay 1), [0]) := by
      decide
    obtain ⟨s, hs, heq⟩ := Option.map_eq_some_iff.mp hrun
    obtain ⟨h0, hcloses⟩ : _ ∧ _ := by simpa only [Prod.mk.injEq] using heq
    have hopen : 1 ∉ s.closes := by
      rw [hcloses]
      decide
    have hr : (PacerWakes.system (Fin 3) 50 8).Reachable s :=
      System.Reachable.run (.init ⟨0, rfl⟩) hs
    exact ⟨s, hs, h0, hcloses, (hpacer s hr).1 0 _ 1 h0 hopen⟩

end NirnProxy
