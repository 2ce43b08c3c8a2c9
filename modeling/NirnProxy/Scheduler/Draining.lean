import NirnProxy.Scheduler.Arrival
import NirnProxy.Scheduler.Housekeeping

/-! A request whose context is done goes on to the end of `RoundTrip`: it has a bounded number of
steps left, whatever the others do, and none of them waits for another request. -/

universe u

namespace NirnProxy

open scoped Parties

variable {π : Type u}

@[simp] def GateCall.left : GateCall → Nat
  | .out => 4
  | .waiting => 3
  | .took | .resumed | .leaving => 2
  | .giving => 1
  | .owner => 0

@[simp] def WaitForPc.left (call : GateCall) : WaitForPc → Nat
  | .returned _ => 0
  | .unlock _ => 1
  | .check => 2
  | .sleep _ _ => 3
  | .test _ _ _ => 4
  | .lock => 5
  | .gate => 1 + call.left

@[simp] def AcquirePc.left (call : GateCall) : AcquirePc → Nat
  | .deactivate _ => 3
  | .gate _ => 3 + call.left
  | .touch _ => 8
  | .activate _ => 9
  | .lookupSlow => 10
  | .lookup => 11
  | .recheckSlow _ => 23
  | .recheck _ => 24

@[simp] def ReleasePc.left : ReleasePc → Nat
  | .gate => 12
  | .active => 13
  | .touch => 14

@[simp] def LearnedPc.left : LearnedPc → Nat
  | .knownGlobal _ _ _ => 15
  | .knownBucket _ => 16
  | .prepare _ => 17
  | .status _ => 18
  | .validationRelease _ => 19
  | .validationStore _ => 20

@[simp] def HeldPc.left (validation : Bool) (call : GateCall) : HeldPc → Nat
  | .unwind _ => if validation then 16 else 15
  | .rememberGlobal _ _ _ | .wait => 17
  | .rememberBucket _ | .waitSleep _ _ | .knownGlobal _ _ => 18
  | .knownBucket => 19
  | .replay => 20
  | .invalid | .learn _ => 21
  | .validation => 17 + call.left
  | .validity | .validationRelease | .blockBucket _ _ => 22
  | .validationCheck | .blockTime _ => 23
  | .blockGlobal _ => 24
  | .observe _ => 25
  | .inFlight => 26
  | .dispatch => 27
  | .reserve => 28
  | .body => 29
  | .pacer pc => 30 + pc.left call
  | .waitTest _ _ => 36
  | .waitRead => 37

namespace TripPc

/-- How many steps a request has left at most when its context is done; `call` is where it stands
at the gate whose `acquire` it is in. -/
@[simp] def left (call : GateCall) : TripPc → Nat
  | .ended => 0
  | .endTouch _ => 1
  | .returned _ => 2
  | .acquire _ pc => pc.left call
  | .release _ pc _ => pc.left
  | .learned _ _ pc => pc.left
  | .held h pc => pc.left h.validation call
  | .started => 12
  | .beginTouch => 13
  | .idle => 14

def queue : TripPc → Option GateName
  | .acquire _ (.gate b) => some (.bucket b)
  | .held _ .validation => some .validation
  | .held _ (.pacer .gate) => some .pacer
  | _ => none

/-- A step can lead here: nobody begins again, and `waitFor` is not left standing at its return. -/
def proper : TripPc → Bool
  | .idle | .held _ (.pacer (.returned _)) => false
  | _ => true

theorem left_le_out (pc : TripPc) (call : GateCall) : pc.left call ≤ pc.left .out := by
  have hcall : call.left ≤ GateCall.out.left := by cases call <;> decide
  cases pc with
  | acquire n pc => cases pc <;> simp only [left, AcquirePc.left] <;> omega
  | held h pc =>
    cases pc with
    | pacer pc => cases pc <;> simp only [left, HeldPc.left, WaitForPc.left] <;> omega
    | _ => simp only [left, HeldPc.left]; omega
  | _ => exact Nat.le_refl _

theorem left_out_le (pc : TripPc) : pc.left .out ≤ 37 := by
  cases pc with
  | acquire n pc => cases pc <;> simp [left, AcquirePc.left, GateCall.left]
  | held h pc =>
    cases pc with
    | pacer pc => cases pc <;> simp [left, HeldPc.left, WaitForPc.left, GateCall.left]
    | unwind res => cases hv : h.validation <;> simp [left, HeldPc.left, hv]
    | _ => simp [left, HeldPc.left, GateCall.left]
  | learned h o pc => cases pc <;> simp [left, LearnedPc.left]
  | release b pc k => cases pc <;> simp [left, ReleasePc.left]
  | _ => simp [left]

theorem left_of_queue_none {pc : TripPc} (h : pc.queue = none) (call : GateCall) :
    pc.left call = pc.left .out := by
  cases pc with
  | acquire n pc => cases pc <;> first | rfl | cases h
  | held h' pc =>
    cases pc with
    | pacer pc => cases pc <;> first | rfl | cases h
    | _ => first | rfl | cases h
  | _ => rfl

theorem left_of_queue {pc : TripPc} {g : GateName} (h : pc.queue = some g) (call : GateCall) :
    pc.left call = pc.left .owner + call.left := by
  cases pc with
  | acquire n pc => cases pc <;> first | rfl | cases h
  | held h' pc =>
    cases pc with
    | pacer pc =>
      cases pc with
      | gate => simp only [left, HeldPc.left, WaitForPc.left, GateCall.left]; omega
      | _ => cases h
    | _ => first | rfl | cases h
  | _ => cases h

end TripPc

namespace FifoGate

variable [DecidableEq π] {g g' : FifoGate π} {p : π} {a : GateStep} {r : GateReturn}

theorem step_done (hne : g.call p ≠ .owner) (hs : g.step true p a = some (g', r)) :
    r = .pending ∧ (g'.call p).left < (g.call p).left ∨ ∃ e, r = .refused e := by
  cases a with
  | enter =>
    obtain ⟨hc, hs⟩ := Option.ite_none_right_eq_some.mp hs
    unfold enter at hs
    split at hs
    · cases hs
      exact .inl ⟨rfl, by simp [take, hc, GateCall.left]⟩
    · split at hs <;> cases hs
      · exact .inr ⟨_, rfl⟩
      · exact .inl ⟨rfl, by simp [pushBack, hc, GateCall.left]⟩
  | check =>
    obtain ⟨hc, hs⟩ := Option.ite_none_right_eq_some.mp hs
    cases hs
    exact .inl ⟨rfl, by obtain hc | hc := hc <;> simp [hc, GateCall.left]⟩
  | ready =>
    obtain ⟨⟨hc, -⟩, hs⟩ := Option.ite_none_right_eq_some.mp hs
    cases hs
    exact .inl ⟨rfl, by simp [hc, GateCall.left]⟩
  | done =>
    obtain ⟨⟨hc, -⟩, hs⟩ := Option.ite_none_right_eq_some.mp hs
    cases hs
    exact .inl ⟨rfl, by simp [hc, GateCall.left]⟩
  | abandon =>
    obtain ⟨hc, hs⟩ := Option.ite_none_right_eq_some.mp hs
    unfold abandon at hs
    split at hs <;> cases hs
    · exact .inr ⟨_, rfl⟩
    · exact .inl ⟨rfl, by simp [hc, GateCall.left]⟩
  | giveBack =>
    obtain ⟨-, hs⟩ := Option.ite_none_right_eq_some.mp hs
    cases hs
    exact .inr ⟨_, rfl⟩
  | release =>
    obtain ⟨hc, -⟩ := Option.ite_none_right_eq_some.mp hs
    exact absurd hc hne

theorem exists_step_done (hne : g.call p ≠ .owner) : ∃ a g' r, g.step true p a = some (g', r) := by
  cases hc : g.call p with
  | out => exact ⟨.enter, _, _, by simp only [step, hc, if_true]; rfl⟩
  | took => exact ⟨.check, _, _, by simp only [step, hc, true_or, if_true]; rfl⟩
  | waiting => exact ⟨.done, _, _, by simp only [step, hc, true_and, if_true]; rfl⟩
  | resumed => exact ⟨.check, _, _, by simp only [step, hc, or_true, if_true]; rfl⟩
  | leaving => exact ⟨.abandon, _, _, by simp only [step, hc, if_true]; rfl⟩
  | giving => exact ⟨.giveBack, _, _, by simp only [step, hc, if_true]; rfl⟩
  | owner => exact absurd hc hne

theorem exists_release (done : Bool) (h : g.call p = .owner) :
    ∃ g' r, g.step done p .release = some (g', r) :=
  ⟨_, _, by simp only [step, h, if_true]; rfl⟩

end FifoGate

namespace CredentialView

variable [DecidableEq π] {cfg : SchedulerConfig π} {K : CredentialView π → π → Prop}
  {v v' : CredentialView π} {p : π} {l : Option π}

theorem Moves.call_ne (hm : Moves cfg K v l v') (hl : l ≠ some p)
    (hp : v.check p ≠ .out) : v'.validation.call p = v.validation.call p ∧
      v'.pacer.call p = v.pacer.call p := by
  cases hm with
  | same => exact ⟨rfl, rfl⟩
  | clear hout => exact absurd (hout p).1 hp
  | @trip q _ hm =>
    have hne : p ≠ q := fun e => hl (congrArg some e.symm)
    cases hm with
    | validation _ _ hs => exact ⟨FifoGate.step_call_ne hs hne, rfl⟩
    | release _ _ _ hs => exact ⟨FifoGate.step_call_ne hs hne, rfl⟩
    | pacer _ _ hs => exact ⟨rfl, FifoGate.step_call_ne hs hne⟩
    | yield _ _ hs => exact ⟨rfl, FifoGate.step_call_ne hs hne⟩
    | _ => exact ⟨rfl, rfl⟩

end CredentialView

namespace SchedulerRun

def queued (s : SchedulerRun π) (p : π) : GateCall :=
  match (s.pc p).queue with
  | some g => (s.gate g).call p
  | none => .out

def left (s : SchedulerRun π) (p : π) : Nat := (s.pc p).left (s.queued p)

variable [DecidableEq π] {cfg : SchedulerConfig π} {s s' t : SchedulerRun π} {p q : π} {h : Held}
  {pc pc' : TripPc} {g : GateName}

omit [DecidableEq π] in
theorem left_le_of_pc (hp : s.pc p = pc) : s.left p ≤ pc.left .out := by
  subst hp
  exact TripPc.left_le_out _ _

omit [DecidableEq π] in
theorem left_of_queue_none (hp : s.pc p = pc) (hq : pc.queue = none) : s.left p = pc.left .out := by
  subst hp
  exact TripPc.left_of_queue_none hq _

omit [DecidableEq π] in
theorem left_of_queue (hp : s.pc p = pc) (hq : pc.queue = some g) :
    s.left p = pc.left .owner + ((s.gate g).call p).left := by
  subst hp
  simp only [left, queued, hq]
  exact TripPc.left_of_queue hq _

theorem left_goto_lt (hp : s.pc p = pc) (hq : pc.queue = none)
    (hlt : pc'.left .out < pc.left .out) : (s'.goto p pc').left p < s.left p := by
  rw [left_of_queue_none hp hq]
  exact Nat.lt_of_le_of_lt (left_le_of_pc (Function.update_self ..)) hlt

theorem left_lt_of_gate {a : GateStep} {g' : FifoGate π} {r : GateReturn} (hp : s.pc p = pc)
    (hq : pc.queue = some g) (hne : (s.gate g).call p ≠ .owner)
    (hs : (s.gate g).step true p a = some (g', r)) (hpending : r = .pending → t.pc p = pc)
    (hgate : t.gate g = g') (hrefused : ∀ e, r = .refused e → (t.pc p).left .out ≤ pc.left .owner) :
    t.left p < s.left p := by
  rw [left_of_queue hp hq]
  obtain ⟨rfl, hlt⟩ | ⟨e, rfl⟩ := FifoGate.step_done hne hs
  · rw [left_of_queue (hpending rfl) hq, hgate]
    omega
  · have hpos : 0 < ((s.gate g).call p).left := by
      cases hc : (s.gate g).call p with
      | owner => exact absurd hc hne
      | _ => decide
    have := hrefused e rfl
    have := left_le_of_pc (s := t) (p := p) rfl
    omega

theorem not_owner_of_queue (hr : (system cfg).Reachable s) (hq : (s.pc p).queue = some g) :
    (s.gate g).call p ≠ .owner := by
  intro hc
  have hh := (owner_iff hr g).mp hc
  have hi := (checked_of_reach hr).fits p
  change (s.pc p).check.Fits cfg p at hi
  cases hpc : s.pc p with
  | acquire n pc =>
    rw [hpc] at hq hh
    cases pc <;> cases hq
    cases hh
  | held h pc =>
    rw [hpc] at hq hh hi
    cases pc with
    | validation =>
      cases hq
      -- nobody queues for the validation gate twice
      have hv : h.validation = true := hh
      have hfits := hi.1
      rw [hv] at hfits
      cases hfits
    | pacer pc =>
      cases pc <;> cases hq
      cases hh
    | _ => cases hq
  | _ =>
    rw [hpc] at hq
    cases hq

theorem left_rechecked_lt (n b target : Nat) : (rechecked n b target).left .out < 23 := by
  unfold rechecked
  split
  · split <;> simp
  · simp

theorem left_unwind_lt {res : TripResult} (hp : s.pc p = pc) (hq : pc.queue = none)
    (hlt : 16 < pc.left .out) : (s'.goto p (.held h (.unwind res))).left p < s.left p := by
  refine left_goto_lt hp hq (Nat.lt_of_le_of_lt ?_ hlt)
  cases hv : h.validation <;> simp [hv]

/-- Each step of a request whose context is done brings it nearer to its end. -/
theorem TripSteps.descends {a : TripAction} (hm : TripSteps cfg p s pc a s' pc')
    (hp : s.pc p = pc) (hr : (system cfg).Reachable s) (hd : s.done p = true) :
    (s'.goto p pc').left p < s.left p := by
  cases hm with
  -- inside `acquire`
  | @bucketGate _ b _ _ _ hg =>
    rw [hd] at hg
    refine left_lt_of_gate hp (g := .bucket b) rfl (not_owner_of_queue hr (hp ▸ rfl)) hg ?_ ?_ ?_
    · rintro rfl
      exact goto_pc_self _ _ _
    · exact gate_withGate_self s b _
    · rintro e rfl
      rw [goto_pc_self]
      simp [TripPc.afterBucketGate]
  | @validation h _ _ _ hg =>
    rw [hd] at hg
    refine left_lt_of_gate hp (g := .validation) rfl (not_owner_of_queue hr (hp ▸ rfl)) hg ?_ rfl ?_
    · rintro rfl
      exact goto_pc_self _ _ _
    · rintro e rfl
      rw [goto_pc_self]
      cases hv : h.validation <;> simp [TripPc.afterValidation, hv]
  | @pacerGate h _ _ _ hg =>
    rw [hd] at hg
    refine left_lt_of_gate hp (g := .pacer) rfl (not_owner_of_queue hr (hp ▸ rfl)) hg ?_ rfl ?_
    · rintro rfl
      exact goto_pc_self _ _ _
    · rintro e rfl
      rw [goto_pc_self]
      cases hv : h.validation <;> simp [HeldPc.afterPacerGate, hv]
  | recheck => exact left_goto_lt hp rfl (Nat.lt_succ_of_lt (left_rechecked_lt _ _ _))
  | recheckCreate => exact left_goto_lt hp rfl (left_rechecked_lt _ _ _)
  -- the context is done
  | waitOpen hopen | pacerOpen hopen => cases hopen.symm.trans hd
  | unauthorized | replayFailed | refuse | current | expired | waitDone | waitCancelled
  | bodyFailed | reserveFailed | lost => exact left_unwind_lt hp rfl (by simp)
  | @pacerUnlock _ ret =>
    cases ret with
    | granted => exact left_goto_lt hp rfl (by simp [afterWaitFor])
    | delayed | failed => exact left_unwind_lt hp rfl (by simp)
  | unwindValidation hv | unwind hv => exact left_goto_lt hp rfl (by simp [hv])
  | @releaseGate _ k => cases k <;> exact left_goto_lt hp rfl (by simp [AfterRelease.next])
  | _ => exact left_goto_lt hp rfl (by simp)

theorem trip_descends {a : TripAction} (hr : (system cfg).Reachable s) (hd : s.done p = true)
    (hs : s.tripStep cfg p a = some t) : t.left p < s.left p := by
  obtain ⟨s', pc', hm, rfl⟩ := tripStep_trips hs
  exact hm.descends rfl hr hd

theorem left_frame {a : SchedulerAction π} (hr : (system cfg).Reachable s)
    (hs : s.step cfg a = some t) (ha : a.mover ≠ some p) : t.left p = s.left p := by
  have hpc := pc_frame hr hs ha
  have ho := owned_of_reach hr
  have hm := step_checks ho (locks_trivial s a) hs
  cases hq : (s.pc p).queue with
  | none => rw [left_of_queue_none hpc hq, left_of_queue_none rfl hq]
  | some g =>
    rw [left_of_queue hpc hq, left_of_queue rfl hq]
    congr 2
    cases hp : s.pc p with
    | acquire n pc =>
      rw [hp] at hq
      cases pc <;> cases hq
      exact call_frame hs (ho.place p _ (congrArg (fun pc => pc.phase.place) hp)) ha
    | held h pc =>
      have hout : s.credential.check p ≠ .out := by
        change (s.pc p).check ≠ .out
        simp [hp, TripPc.check]
      rw [hp] at hq
      cases pc with
      | validation =>
        cases hq
        exact (hm.call_ne ha hout).1
      | pacer pc =>
        cases pc <;> cases hq
        exact (hm.call_ne ha hout).2
      | _ => cases hq
    | _ =>
      rw [hp] at hq
      cases hq

omit [DecidableEq π] in
theorem done_sweepStep {choice : Option UInt64} (hs : s.sweepStep choice = some t) :
    t.done = s.done := by
  unfold sweepStep at hs
  split at hs
  · cases hs
  · split at hs
    · obtain ⟨-, hs⟩ := Option.ite_none_right_eq_some.mp hs
      cases hs
      rfl
    · obtain ⟨-, hs⟩ := Option.ite_none_right_eq_some.mp hs
      cases hs
      rfl
  · obtain ⟨_, -, rfl⟩ := Option.map_eq_some_iff.mp hs
    rfl
  · obtain ⟨_, -, rfl⟩ := Option.map_eq_some_iff.mp hs
    rfl
  · obtain ⟨_, -, rfl⟩ := Option.map_eq_some_iff.mp hs
    split <;> rfl

omit [DecidableEq π] in
theorem done_evictStep {choice : Option UInt64} (hs : s.evictStep choice = some t) :
    t.done = s.done := by
  unfold evictStep at hs
  split at hs
  · split at hs
    · cases hs
    · obtain ⟨_, -, rfl⟩ := Option.map_eq_some_iff.mp hs
      split <;> rfl
  · cases hs

theorem done_step {a : SchedulerAction π} (hs : s.step cfg a = some t) (hd : s.done p = true) :
    t.done p = true := by
  cases a with
  | tick d | others used =>
    cases hs
    exact hd
  | cancel q =>
    cases hs
    by_cases hp : p = q
    · simp [hp]
    · simpa [hp] using hd
  | trip q a => exact (trip_outside hs).done_eq ▸ hd
  | sweep now =>
    obtain ⟨-, hs⟩ := Option.ite_none_right_eq_some.mp hs
    cases hs
    exact hd
  | sweepStep choice => exact done_sweepStep hs ▸ hd
  | evict now =>
    simp only [step] at hs
    split at hs
    · obtain ⟨-, hs⟩ := Option.ite_none_right_eq_some.mp hs
      cases hs
      exact hd
    · cases hs
  | evictStep choice => exact done_evictStep hs ▸ hd
  | spare =>
    simp only [step] at hs
    split at hs <;> cases hs
    exact hd
  | clear =>
    obtain ⟨-, -, rfl⟩ := step_clear hs
    exact hd

theorem TripSteps.proper {a : TripAction} (hm : TripSteps cfg p s pc a s' pc') :
    pc'.proper = true := by
  cases hm with
  | @bucketGate _ _ _ _ r | @validation _ _ _ r | @pacerGate _ _ _ r => cases r <;> rfl
  | @pacerUnlock _ ret => cases ret <;> rfl
  | @releaseGate _ k => cases k <;> rfl
  | recheck | recheckCreate =>
    unfold rechecked
    split
    · split <;> rfl
    · rfl
  | _ => rfl

theorem trip_proper {a : TripAction} (hs : s.tripStep cfg p a = some t) :
    (t.pc p).proper = true := by
  obtain ⟨s', pc', hm, rfl⟩ := tripStep_trips hs
  rw [goto_pc_self]
  exact hm.proper

theorem proper_of_reachable (hr : (system cfg).Reachable s) (p : π) :
    s.pc p = .idle ∨ (s.pc p).proper = true := by
  induction hr with
  | init h =>
    obtain ⟨now, rfl⟩ := h
    exact .inl rfl
  | @step s a t hr _ hs ih =>
    by_cases ha : a.mover = some p
    · cases a with
      | trip q a =>
        cases ha
        exact .inr (trip_proper hs)
      | _ => cases ha
    · rw [pc_frame hr hs ha]
      exact ih

theorem acquire_enabled {n : Nat} {pc : AcquirePc} (hr : (system cfg).Reachable s)
    (hd : s.done p = true) (hw : s.writable = true) (hp : s.pc p = .acquire n pc) :
    ∃ a, (s.acquireStep cfg p n pc a).isSome = true := by
  have hread : s.readable = true := readable_iff.mpr (writable_iff.mp hw).1
  cases pc with
  | lookup | recheck =>
    refine ⟨.go, ?_⟩
    simp only [acquireStep, hread, if_true]
    split <;> rfl
  | lookupSlow | recheckSlow =>
    refine ⟨.go, ?_⟩
    simp only [acquireStep, hw, if_true]
    split <;> rfl
  | activate | touch | deactivate => exact ⟨.go, rfl⟩
  | gate b =>
    obtain ⟨a, g, r, hs⟩ := FifoGate.exists_step_done
      (not_owner_of_queue hr (g := .bucket b) (by rw [hp]; rfl))
    change (s.client.bucketAt b).gate.step true p a = _ at hs
    exact ⟨.gate a, by simp only [acquireStep, hd, hs]; rfl⟩

theorem release_enabled {next : GateReturn → TripPc} (hr : (system cfg).Reachable s)
    (hv : (s.pc p).validated = true) : (s.validationStep p .release next).isSome = true := by
  obtain ⟨g, r, hs⟩ := FifoGate.exists_release (s.done p) ((owner_iff hr .validation).mpr hv)
  change s.client.validation.step (s.done p) p .release = _ at hs
  simp only [validationStep, hs]
  rfl

theorem pacer_enabled {pc : WaitForPc} (hr : (system cfg).Reachable s) (hd : s.done p = true)
    (hp : s.pc p = .held h (.pacer pc)) : ∃ a, (s.pacerStep cfg p h pc a).isSome = true := by
  suffices ∃ a, (s.client.global.waitFor s.now (s.context cfg p) p pc a).isSome = true by
    obtain ⟨a, ha⟩ := this
    exact ⟨a, by simpa [pacerStep] using ha⟩
  cases pc with
  | gate =>
    obtain ⟨a, g, r, hs⟩ := FifoGate.exists_step_done
      (not_owner_of_queue hr (g := .pacer) (by rw [hp]; rfl))
    change s.client.global.gate.step true p a = _ at hs
    exact ⟨.gate a, by simp only [Pacer.waitFor, context, hd, hs]; rfl⟩
  | check => exact ⟨.check, rfl⟩
  | lock =>
    refine ⟨.lock, ?_⟩
    simp only [Pacer.waitFor]
    split <;> rfl
  | test readyAt delay wake =>
    refine ⟨.test, ?_⟩
    simp only [Pacer.waitFor]
    split <;> rfl
  | sleep readyAt wake => exact ⟨.done, by simp [Pacer.waitFor, context, hd]⟩
  | unlock ret =>
    obtain ⟨g, r, hs⟩ := FifoGate.exists_release (s.done p)
      ((owner_iff hr .pacer).mpr (by rw [hp]; rfl))
    change s.client.global.gate.step (s.done p) p .release = _ at hs
    exact ⟨.gate .release, by simp only [Pacer.waitFor, context, hs]; rfl⟩
  | returned ret =>
    obtain hi | hproper := proper_of_reachable hr p
    · cases hp.symm.trans hi
    · rw [hp] at hproper
      cases hproper

theorem held_enabled {pc : HeldPc} (hr : (system cfg).Reachable s) (hd : s.done p = true)
    (hw : s.writable = true) (hp : s.pc p = .held h pc) :
    ∃ a, (s.heldStep cfg p h pc a).isSome = true := by
  have hfits : (TripPc.held h pc).check.Fits cfg p := hp ▸ (checked_of_reach hr).fits p
  cases pc with
  | validation =>
    obtain ⟨a, g, r, hs⟩ := FifoGate.exists_step_done
      (not_owner_of_queue hr (g := .validation) (by rw [hp]; rfl))
    change s.client.validation.step true p a = _ at hs
    exact ⟨.gate a, by simp only [heldStep, validationStep, hd, hs]; rfl⟩
  | validationRelease =>
    refine ⟨.go, ?_⟩
    simp only [heldStep]
    exact release_enabled hr (by rw [hp]; exact hfits.1)
  | replay | body | reserve => exact ⟨.oracle false, rfl⟩
  | waitSleep readyAt wake => exact ⟨.done, by simp [heldStep, waitStep, hd]⟩
  | pacer pc =>
    obtain ⟨a, ha⟩ := pacer_enabled hr hd hp
    exact ⟨.pacer a, ha⟩
  | inFlight => exact ⟨.respond none, rfl⟩
  | learn r =>
    refine ⟨.go, ?_⟩
    simp only [heldStep, learnStep, hw, if_true]
    split <;> rfl
  | unwind res =>
    refine ⟨.go, ?_⟩
    simp only [heldStep]
    split
    · exact release_enabled hr (by rw [hp]; assumption)
    · rfl
  | _ => exact ⟨.go, rfl⟩

theorem learned_enabled {observed : Nat} {pc : LearnedPc} (hr : (system cfg).Reachable s)
    (hp : s.pc p = .learned h observed pc) :
    ∃ a, (s.learnedStep cfg p h observed pc a).isSome = true := by
  have hfits : (TripPc.learned h observed pc).check.Fits cfg p :=
    hp ▸ (checked_of_reach hr).fits p
  cases pc with
  | validationStore r =>
    refine ⟨.go, ?_⟩
    simp only [learnedStep]
    split <;> rfl
  | validationRelease r =>
    refine ⟨.go, ?_⟩
    simp only [learnedStep]
    exact release_enabled hr (by rw [hp]; exact hfits.1)
  | prepare r => exact ⟨.prepare none, rfl⟩
  | _ => exact ⟨.go, rfl⟩

/-- With the maps within reach, a request whose context is done has a step to take. -/
theorem trip_enabled (hr : (system cfg).Reachable s) (hd : s.done p = true)
    (hw : s.writable = true) (hidle : s.pc p ≠ .idle) (hended : s.pc p ≠ .ended) :
    ∃ a t, s.tripStep cfg p a = some t := by
  suffices ∃ a, (s.tripStep cfg p a).isSome = true by
    obtain ⟨a, ha⟩ := this
    exact ⟨a, Option.isSome_iff_exists.mp ha⟩
  cases hp : s.pc p with
  | idle => exact absurd hp hidle
  | ended => exact absurd hp hended
  | beginTouch => exact ⟨.go, by simp [tripStep, hp]⟩
  | started => exact ⟨.oracle false, by simp [tripStep, hp]⟩
  | acquire n pc =>
    obtain ⟨a, ha⟩ := acquire_enabled hr hd hw hp
    exact ⟨a, by simpa [tripStep, hp] using ha⟩
  | held h pc =>
    obtain ⟨a, ha⟩ := held_enabled hr hd hw hp
    exact ⟨a, by simpa [tripStep, hp] using ha⟩
  | learned h observed pc =>
    obtain ⟨a, ha⟩ := learned_enabled hr hp
    exact ⟨a, by simpa [tripStep, hp] using ha⟩
  | release b pc k =>
    refine ⟨.go, ?_⟩
    simp only [tripStep, hp]
    cases pc with
    | touch | active => rfl
    | gate =>
      have hgrip : (s.pc p).grip.holds (.gate (.bucket b)) = true := by
        rw [hp]
        simp [TripPc.grip, Grip.holds, TripPc.phase, BucketPhase.owned]
      obtain ⟨g, r, hs⟩ := FifoGate.exists_release (s.done p) ((owner_iff hr (.bucket b)).mpr hgrip)
      change (s.client.bucketAt b).gate.step (s.done p) p .release = _ at hs
      simp only [releaseStep, hs]
      rfl
  | returned res => exact ⟨.go, by simp [tripStep, hp]⟩
  | endTouch generation => exact ⟨.go, by simp [tripStep, hp]⟩

/-- The steps of `p`, and those that let it into the maps. -/
def Alone (p : π) (_ : SchedulerRun π) (a : SchedulerAction π) : Prop :=
  a.mover = some p ∨ a.housekeeping = true

theorem left_housekeeping (hr : (system cfg).Reachable s) (hd : s.done p = true)
    (hl : (system cfg).Leads (fun _ a => a.housekeeping = true) s t) :
    t.pc p = s.pc p ∧ t.left p = s.left p ∧ t.done p = true := by
  induction hl with
  | refl => exact ⟨rfl, rfl, hd⟩
  | @step t a u hl ha hs ih =>
    have hne : a.mover ≠ some p := by simp [SchedulerAction.mover_of_housekeeping ha]
    have ht := hl.reachable hr
    exact ⟨(pc_frame ht hs hne).trans ih.1, (left_frame ht hs hne).trans ih.2.1,
      done_step hs ih.2.2⟩

/-- A request whose context is done can go to its end with no step of another request. -/
theorem leads_ended (hr : (system cfg).Reachable s) (hd : s.done p = true)
    (hidle : s.pc p ≠ .idle) : ∃ t, (system cfg).Leads (Alone p) s t ∧ t.pc p = .ended := by
  suffices hstep : ∀ s : SchedulerRun π,
      ((system cfg).Reachable s ∧ s.done p = true ∧ s.pc p ≠ .idle) → ¬ s.pc p = .ended →
      ∃ t, (system cfg).Leads (Alone p) s t ∧
        ((system cfg).Reachable t ∧ t.done p = true ∧ t.pc p ≠ .idle) ∧ t.left p < s.left p by
    obtain ⟨t, hl, -, ht⟩ := System.Leads.of_rank (fun s : SchedulerRun π => s.left p) hstep
      ⟨hr, hd, hidle⟩
    exact ⟨t, hl, ht⟩
  rintro s ⟨hr, hd, hidle⟩ hended
  obtain ⟨s', hl, hw⟩ := lock_frees cfg (present_of_reachable hr)
  obtain ⟨hpc, hleft, hd'⟩ := left_housekeeping hr hd hl
  have hr' := hl.reachable hr
  rw [← hpc] at hidle hended
  obtain ⟨a, t, hs⟩ := trip_enabled hr' hd' hw hidle hended
  refine ⟨t, .step (a := SchedulerAction.trip p a) (hl.mono fun _ _ => .inr) (.inl rfl) hs,
    ⟨hr'.next (a := SchedulerAction.trip p a) hs, ?_, ?_⟩, hleft ▸ trip_descends hr' hd' hs⟩
  · rw [(trip_outside hs).done_eq]
    exact hd'
  · intro hi
    have hproper := trip_proper hs
    rw [hi] at hproper
    cases hproper

theorem call_of_outside (hr : (system cfg).Reachable s)
    (hp : s.pc p = .idle ∨ s.pc p = .ended) (g : GateName) : (s.gate g).call p = .out := by
  have hi := checked_of_reach hr
  cases g with
  | bucket b =>
    refine call_elsewhere (owned_of_reach hr) ?_
    obtain hp | hp := hp <;> simp [hp, TripPc.phase, BucketPhase.place]
  | validation =>
    refine hi.validation.call_out ?_
    obtain hp | hp := hp <;> exact congrArg (fun pc => pc.check.role) hp
  | pacer =>
    refine hi.pacer.call_out ?_
    obtain hp | hp := hp <;> exact congrArg TripPc.pace hp

/-- Once the context of a request is done, the request takes at most 37 more steps, in any
interleaving with the others and with sweeps and evictions.  And it can take them all: no other
request has to move for it to come to the end of `RoundTrip` and to leave its state, and then it is
at no gate any more. -/
theorem cancelled_returns (cfg : SchedulerConfig π) (p : π) (hr : (system cfg).Reachable s)
    (hd : s.done p = true) :
    (∀ acts t, (system cfg).run s acts = some t →
      acts.countP (fun a => decide (a.mover = some p)) ≤ 37) ∧
    (s.pc p ≠ .idle → ∃ t, (system cfg).Leads (Alone p) s t ∧ t.pc p = .ended ∧
      ∀ g, (t.gate g).call p = .out) := by
  refine ⟨fun acts t hrun => ?_, fun hidle => ?_⟩
  rotate_left
  · obtain ⟨t, hl, ht⟩ := leads_ended hr hd hidle
    exact ⟨t, hl, ht, call_of_outside (hl.reachable hr) (.inr ht)⟩
  have hcount := System.countP_le_rank (S := system cfg)
    (I := fun s => (system cfg).Reachable s ∧ s.done p = true) (fun s => s.left p)
    (fun a => decide (a.mover = some p)) (fun s a t hs ht => ⟨hs.1.next ht, done_step ht hs.2⟩)
    ?_ ?_ ⟨hr, hd⟩ hrun
  · have := (left_le_of_pc (s := s) (p := p) rfl).trans (TripPc.left_out_le _)
    omega
  · rintro s a t ⟨hr, hd⟩ hs
    by_cases ha : a.mover = some p
    · cases a with
      | trip q x =>
        cases ha
        exact Nat.le_of_lt (trip_descends hr hd hs)
      | _ => cases ha
    · exact Nat.le_of_eq (left_frame hr hs ha)
  · rintro s a t ⟨hr, hd⟩ ha hs
    cases a with
    | trip q x =>
      cases of_decide_eq_true ha
      exact trip_descends hr hd hs
    | _ => cases ha

/-- Request 3 is queued behind request 2 and the state is being swept when its context ends. -/
theorem cancelled_returns_queued :
    ∃ s : SchedulerRun (Fin 4), s.Holds 2 0 ∧ 3 ∈ (s.gate (.bucket 0)).waiters ∧
      s.readable = false ∧
      ∃ t, (system (twoRoutes 4)).Leads (Alone 3) s t ∧ t.pc 3 = .ended ∧
        ∀ g, (t.gate g).call 3 = .out := by
  have hrun : ((system (twoRoutes 4)).run (start (twoRoutes 4) 0)
      (shared ++ [.sweep 0, .cancel 3])).map
        (fun s => decide (s.pc 2 = .held ⟨0, 0, false⟩ .validity ∧ s.pc 3 = .acquire 0 (.gate 0) ∧
          3 ∈ (s.gate (.bucket 0)).waiters ∧ s.readable = false ∧ s.done 3 = true)) =
      some true := by
    decide +kernel
  obtain ⟨s, hs, hobs⟩ := Option.map_eq_some_iff.mp hrun
  obtain ⟨h2, h3, hmem, hread, hd⟩ := of_decide_eq_true hobs
  have hr : (system (twoRoutes 4)).Reachable s := System.Reachable.run (.init ⟨0, rfl⟩) hs
  exact ⟨s, ⟨_, _, h2, rfl⟩, hmem, hread,
    (cancelled_returns (twoRoutes 4) 3 hr hd).2 (by simp [h3])⟩

/-- A step of a request that had begun in `s`, or of a sweep or a search. -/
def Begun (s : SchedulerRun π) (_ : SchedulerRun π) (a : SchedulerAction π) : Prop :=
  (∃ p, a.mover = some p ∧ s.pc p ≠ .idle) ∨ a.housekeeping = true

theorem pc_alone (hr : (system cfg).Reachable s) (hl : (system cfg).Leads (Alone p) s t)
    (hq : q ≠ p) : t.pc q = s.pc q := by
  induction hl with
  | refl => rfl
  | @step t a u hl ha hs ih =>
    refine (pc_frame (hl.reachable hr) hs fun hm => ?_).trans ih
    obtain ha | ha := ha
    · exact hq (Option.some.inj (hm.symm.trans ha))
    · cases (SchedulerAction.mover_of_housekeeping ha).symm.trans hm

theorem done_leads {C : SchedulerRun π → SchedulerAction π → Prop} (hd : s.done p = true)
    (hl : (system cfg).Leads C s t) : t.done p = true := by
  induction hl with
  | refl => exact hd
  | step _ _ hs ih => exact done_step hs ih

theorem exists_begun (hr : (system cfg).Reachable s) :
    ∃ requests : List π, ∀ p, s.pc p ≠ .idle → p ∈ requests := by
  induction hr with
  | init h =>
    obtain ⟨now, rfl⟩ := h
    exact ⟨[], fun p hp => absurd rfl hp⟩
  | @step s a t hr _ hs ih =>
    obtain ⟨requests, hin⟩ := ih
    refine ⟨a.mover.toList ++ requests, fun p hp => ?_⟩
    by_cases ha : a.mover = some p
    · simp [ha]
    · exact List.mem_append_right _ (hin p (pc_frame hr hs ha ▸ hp))

theorem leads_all_ended (cfg : SchedulerConfig π) (requests : List π)
    (hr : (system cfg).Reachable s) (hd : ∀ p, s.pc p ≠ .idle → s.done p = true) :
    ∃ t, (system cfg).Leads (Begun s) s t ∧
      (∀ p ∈ requests, t.pc p = .idle ∨ t.pc p = .ended) ∧
      ∀ p, p ∉ requests → t.pc p = s.pc p := by
  induction requests generalizing s with
  | nil => exact ⟨s, .refl, by simp, fun _ _ => rfl⟩
  | cons p rest ih =>
    by_cases hidle : s.pc p = .idle
    · obtain ⟨t, hl, ht, hsame⟩ := ih hr hd
      refine ⟨t, hl, fun q hq => ?_, fun q hq => hsame q fun h => hq (List.mem_cons_of_mem p h)⟩
      by_cases hmem : q ∈ rest
      · exact ht q hmem
      · obtain rfl := (List.mem_cons.mp hq).resolve_right hmem
        exact .inl ((hsame q hmem).trans hidle)
    · obtain ⟨s', hl', hended⟩ := leads_ended hr (hd p hidle) hidle
      have hpc : ∀ q, q ≠ p → s'.pc q = s.pc q := fun q hq => pc_alone hr hl' hq
      have hd' : ∀ q, s'.pc q ≠ .idle → s'.done q = true := by
        intro q hq
        by_cases hqp : q = p
        · exact hqp ▸ done_leads (hd p hidle) hl'
        · exact done_leads (hd q (hpc q hqp ▸ hq)) hl'
      obtain ⟨t, hl, ht, hsame⟩ := ih (hl'.reachable hr) hd'
      refine ⟨t, (hl'.mono fun _ a ha => ?_).trans (hl.mono fun _ a ha => ?_), fun q hq => ?_,
        fun q hq => ?_⟩
      · exact ha.imp_left fun hm => ⟨p, hm, hidle⟩
      · refine ha.imp_left fun ⟨q, hm, hq⟩ => ⟨q, hm, ?_⟩
        by_cases hqp : q = p
        · exact hqp ▸ hidle
        · rwa [← hpc q hqp]
      · by_cases hmem : q ∈ rest
        · exact ht q hmem
        · obtain rfl := (List.mem_cons.mp hq).resolve_right hmem
          exact .inr ((hsame q hmem).trans hended)
      · obtain ⟨hqp, hmem⟩ := not_or.mp (mt List.mem_cons.mpr hq)
        exact (hsame q hmem).trans (hpc q hqp)

/-- When the contexts of all requests that have begun are done, they can all go to their ends with
no new request, and everything they had is given back: the counts are zero, the gates free and
their queues empty. -/
theorem drains (cfg : SchedulerConfig π) (hr : (system cfg).Reachable s)
    (hd : ∀ p, s.pc p ≠ .idle → s.done p = true) :
    ∃ t, (system cfg).Leads (Begun s) s t ∧ (∀ p, t.pc p = .idle ∨ t.pc p = .ended) ∧
      t.client.active = 0 ∧ (∀ b, (t.client.bucketAt b).active = 0) ∧
      ∀ g, (t.gate g).held = false ∧ (t.gate g).waiters = [] := by
  obtain ⟨requests, hbegun⟩ := exists_begun hr
  obtain ⟨t, hl, hin, hout⟩ := leads_all_ended cfg requests hr hd
  have hpc : ∀ p, t.pc p = .idle ∨ t.pc p = .ended := by
    intro p
    by_cases hp : p ∈ requests
    · exact hin p hp
    · rw [hout p hp]
      exact .inl (not_not.mp fun h => hp (hbegun p h))
  have hrt := hl.reachable hr
  have ho := owned_of_reach hrt
  refine ⟨t, hl, hpc, ho.live.eq_zero fun p => ?_,
    fun b => (ho.counts b).eq_zero fun p => ?_, fun g => ?_⟩
  · change ¬ (t.pc p).phase.isLive = true
    obtain hp | hp := hpc p <;> simp [hp, TripPc.phase, BucketPhase.isLive]
  · change ¬ (t.pc p).phase.counted = some b
    obtain hp | hp := hpc p <;> simp [hp, TripPc.phase, BucketPhase.counted]
  · have hwf := wf_gate hrt g
    have hheld : (t.gate g).held = false := by
      refine Bool.eq_false_iff.mpr fun h => ?_
      obtain ⟨p, hp⟩ := hwf.held.mp h
      rw [FifoGate.not_holds_of_out (call_of_outside hrt (hpc p) g)] at hp
      cases hp
    exact ⟨hheld, hwf.idle hheld⟩

/-- One request has the bucket, one is queued behind it, and two have come to their ends. -/
theorem drains_shared :
    ∃ s t : SchedulerRun (Fin 4), (s.gate (.bucket 0)).held = true ∧
      (s.gate (.bucket 0)).waiters = [3] ∧ (system (twoRoutes 4)).Leads (Begun s) s t ∧
      t.client.active = 0 ∧ (t.gate (.bucket 0)).held = false := by
  have hrun : ((system (twoRoutes 4)).run (start (twoRoutes 4) 0)
      (shared ++ [.cancel 0, .cancel 1, .cancel 2, .cancel 3])).map
        (fun s => decide ((s.gate (.bucket 0)).held = true ∧ (s.gate (.bucket 0)).waiters = [3] ∧
          ∀ p, s.done p = true)) = some true := by
    decide +kernel
  obtain ⟨s, hs, hobs⟩ := Option.map_eq_some_iff.mp hrun
  obtain ⟨hheld, hwaiters, hd⟩ := of_decide_eq_true hobs
  have hr : (system (twoRoutes 4)).Reachable s := System.Reachable.run (.init ⟨0, rfl⟩) hs
  obtain ⟨t, hl, -, hactive, -, hgates⟩ := drains (twoRoutes 4) hr fun p _ => hd p
  exact ⟨s, t, hheld, hwaiters, hl, hactive, (hgates (.bucket 0)).1⟩

end SchedulerRun

end NirnProxy
