import NirnProxy.Gate.Order
import NirnProxy.Scheduler.Holdings

/-! Two requests of one route that wait at the same gate, and what becomes of their order when the
route is moved to another bucket.  A request leaves the old gate before it goes to the new one, so
the order of the queue is kept only if the one in front gets to the new gate first. -/

universe u

namespace NirnProxy

open scoped Parties

def HeldPc.unsent : HeldPc → Bool
  | .inFlight | .observe _ | .blockGlobal _ | .blockTime _ | .blockBucket _ _ | .learn _
  | .unwind _ => false
  | _ => true

namespace TripPc

def goal : TripPc → Option Nat
  | .acquire 0 (.activate b) | .acquire 0 (.touch b) | .acquire 0 (.gate b)
  | .acquire 0 (.recheck b) | .acquire 0 (.recheckSlow b) | .release _ _ (.move 0 b) => some b
  | .held ⟨b, 0, _⟩ pc => if pc.unsent then some b else none
  | _ => none

inductive Seeks (b : Nat) : TripPc → Prop
  | activate : Seeks b (.acquire 0 (.activate b))
  | touch : Seeks b (.acquire 0 (.touch b))
  | gate : Seeks b (.acquire 0 (.gate b))
  | recheck : Seeks b (.acquire 0 (.recheck b))
  | recheckSlow : Seeks b (.acquire 0 (.recheckSlow b))
  | move {x pc} : x ≠ b → Seeks b (.release x pc (.move 0 b))

def Wants (b : Nat) (pc : TripPc) : Prop :=
  pc.Seeks b ∨ ∃ v pc', pc = .held ⟨b, 0, v⟩ pc' ∧ pc'.unsent = true

/-- Nothing more will be sent. -/
def spent : TripPc → Bool
  | .acquire _ (.deactivate _) | .held _ (.unwind _) | .release _ _ (.finish _) | .returned _
  | .endTouch _ | .ended => true
  | _ => false

variable {pc : TripPc} {b : Nat}

theorem Wants.goal (h : pc.Wants b) : pc.goal = some b := by
  obtain h | ⟨v, pc', rfl, hu⟩ := h
  · cases h <;> rfl
  · simp [TripPc.goal, hu]

theorem seeks_rechecked {target : Nat} (h : target ≠ b) : (rechecked 0 b target).Seeks target := by
  rw [rechecked, if_neg h]
  exact .move (Ne.symm h)

theorem rechecked_self (b : Nat) : rechecked 0 b b = .held ⟨b, 0, false⟩ .validity := by
  simp [rechecked]

theorem Wants.fresh {π : Type u} {s : SchedulerRun π} {p : π} (ho : s.view.Owned)
    (h : (s.pc p).Wants b) : b < s.client.fresh := by
  have hplace : (s.pc p).phase.place = some b ∨ (s.pc p).phase.aim = some b := by
    obtain h | ⟨v, pc', h, -⟩ := h
    · generalize s.pc p = pc at h
      cases h with
      | @move x pc _ => cases pc <;> exact .inr rfl
      | activate => exact .inr rfl
      | _ => exact .inl rfl
    · rw [h]
      exact .inl rfl
  exact hplace.elim (ho.place p b) (ho.aim p b)

end TripPc

namespace BucketView

variable {π : Type u} [DecidableEq π] {cfg : SchedulerConfig π}
  {K : BucketView π → π → UInt64 → Prop} {v v' : BucketView π} {b : Nat}

theorem gate_of_moves {l : Option π} (hm : Moves cfg K v l v') (hb : b < v.fresh) :
    (v'.bucketAt b).gate = (v.bucketAt b).gate ∨
    ∃ p done a r, l = some p ∧ (v.phase p = .queued b ∨ ∃ aim, v.phase p = .releasing b aim) ∧
      (v.bucketAt b).gate.step done p a = some ((v'.bucketAt b).gate, r) := by
  have hset : ∀ (x : Nat) (f : BucketState π → BucketState π), (∀ B, (f B).gate = B.gate) →
      (Function.update v.bucketAt x (f (v.bucketAt x)) b).gate = (v.bucketAt b).gate := by
    intro x f hf
    by_cases hx : b = x
    · subst hx
      simp [hf]
    · simp [hx]
  have hgate : ∀ (x : Nat) (p : π) (done : Bool) (a : GateStep) (g : FifoGate π) (r : GateReturn),
      (v.bucketAt x).gate.step done p a = some (g, r) →
      (v.phase p = .queued x ∨ ∃ aim, v.phase p = .releasing x aim) →
      ∀ B, B = Function.update v.bucketAt x { v.bucketAt x with gate := g } b →
      B.gate = (v.bucketAt b).gate ∨
      ∃ q done a r, some p = some q ∧
        (v.phase q = .queued b ∨ ∃ aim, v.phase q = .releasing b aim) ∧
        (v.bucketAt b).gate.step done q a = some (B.gate, r) := by
    rintro x p done a g r hs hp B rfl
    by_cases hx : b = x
    · subst hx
      exact .inr ⟨p, done, a, r, rfl, hp, by simpa using hs⟩
    · exact .inl (by simp [hx])
  cases hm with
  | tick | same => exact .inl rfl
  | sweep hm => cases hm <;> exact .inl rfl
  | evict hm => cases hm <;> exact .inl rfl
  | @trip p _ hm =>
    cases hm with
    | create | recreate =>
      refine .inl ?_
      simp [BucketView.goto, BucketView.create, Nat.ne_of_lt hb]
    | activate | touch | deactivate | leave | uncount => exact .inl (hset _ _ fun _ => rfl)
    | block => exact .inl (hset _ (·.blockUntil _) fun B => BucketState.blockUntil_gate B _)
    | learn =>
      refine .inl ?_
      simp only [BucketView.goto, BucketView.learn]
      split
      · rfl
      · exact hset _ (·.merge _) fun B => BucketState.blockUntil_gate B _
    | gate hp hs => exact hgate _ p _ _ _ _ hs (.inl hp) _ rfl
    | release hp hs => exact hgate _ p _ _ _ _ hs (.inr ⟨_, hp⟩) _ rfl
    | _ => exact .inl rfl

end BucketView

namespace SchedulerRun

variable {π : Type u} [DecidableEq π] {cfg : SchedulerConfig π} {s t : SchedulerRun π}
  {p q : π} {b : Nat}

omit [DecidableEq π] in
theorem gate_onBucket (s : SchedulerRun π) {x : Nat} {f : BucketState π → BucketState π}
    (hf : ∀ B, (f B).gate = B.gate) (g : GateName) : (s.onBucket x f).gate g = s.gate g := by
  cases g with
  | bucket b =>
    by_cases hx : b = x
    · subst hx
      simp [gate, onBucket, onClient, ClientState.onBucket, hf]
    · simp [gate, onBucket, onClient, ClientState.onBucket, hx]
  | _ => rfl

inductive SeekStep (cfg : SchedulerConfig π) (s : SchedulerRun π) (p : π) (b : Nat)
    (a : TripAction) (t : SchedulerRun π) : Prop
  | spent : (t.pc p).spent = true → SeekStep cfg s p b a t
  | quiet : (t.pc p).Seeks b → (∀ x, t.gate (.bucket x) = s.gate (.bucket x)) →
      SeekStep cfg s p b a t
  | gate {x r} : s.pc p = .acquire 0 (.gate b) → (t.pc p).Seeks b → a = .gate x →
      (s.gate (.bucket b)).step (s.done p) p x = some (t.gate (.bucket b), r) →
      (r = .granted → t.pc p = .acquire 0 (.recheck b)) →
      (r = .pending → t.pc p = .acquire 0 (.gate b)) → (∀ e, r ≠ .refused e) →
      SeekStep cfg s p b a t
  | leave {x} : x ≠ b → s.pc p = .release x .gate (.move 0 b) → (t.pc p).Seeks b →
      (∀ y, y ≠ x → t.gate (.bucket y) = s.gate (.bucket y)) → SeekStep cfg s p b a t
  | recheck {target} : (s.pc p).phase = .owner b → t.pc p = rechecked 0 b target →
      (∀ y, s.client.table.resolve (cfg.request p).routeHash = some y → target = y) →
      SeekStep cfg s p b a t

omit [DecidableEq π] in
theorem gate_withGate_self (s : SchedulerRun π) (b : Nat) (g : FifoGate π) :
    (s.withGate b g).gate (.bucket b) = g := by
  simp [SchedulerRun.gate, withGate, onBucket, onClient, ClientState.onBucket]

omit [DecidableEq π] in
theorem gate_withGate_ne (s : SchedulerRun π) {x : Nat} (g : FifoGate π) (h : b ≠ x) :
    (s.withGate x g).gate (.bucket b) = s.gate (.bucket b) := by
  simp [SchedulerRun.gate, withGate, onBucket, onClient, ClientState.onBucket, h]

theorem seek_step {a : TripAction} (hp : (s.pc p).Seeks b) (hs : s.tripStep cfg p a = some t) :
    SeekStep cfg s p b a t := by
  obtain ⟨s', pc', hm, rfl⟩ := tripStep_trips hs
  have hself : (s'.goto p pc').pc p = pc' := goto_pc_self s' p pc'
  have hseek : pc'.Seeks b → ((s'.goto p pc').pc p).Seeks b := fun h => by rwa [hself]
  generalize hpc : s.pc p = pc at hp hm
  cases hp with
  | activate =>
    cases hm
    exact .quiet (hseek .touch) fun x =>
      gate_onBucket s (f := .addActive 1) (fun _ => rfl) (.bucket x)
  | touch =>
    cases hm
    exact .quiet (hseek .gate) fun x =>
      gate_onBucket s (f := .touch s.now) (fun _ => rfl) (.bucket x)
  | gate =>
    cases hm with
    | @bucketGate _ _ x g r hg =>
      have hgate : (s.gate (.bucket b)).step (s.done p) p x =
          some ((s.withGate b g).gate (.bucket b), r) := hg.trans (by rw [gate_withGate_self])
      cases r with
      | refused e => exact .spent (by rw [hself]; rfl)
      | pending =>
        exact .gate hpc (hseek .gate) rfl hgate (fun h => by cases h) (fun _ => hself)
          fun _ h => by cases h
      | granted =>
        exact .gate hpc (hseek .recheck) rfl hgate (fun _ => hself) (fun h => by cases h)
          fun _ h => by cases h
  | recheck =>
    cases hm with
    | recheck _ hr =>
      refine .recheck (by rw [hpc]; rfl) hself fun y hy => ?_
      exact Option.some.inj (hr.symm.trans hy)
    | recheckMiss => exact .quiet (hseek .recheckSlow) fun x => rfl
  | recheckSlow =>
    cases hm with
    | recheckCreate _ hb =>
      refine .recheck (by rw [hpc]; rfl) hself fun y hy => ?_
      obtain ⟨hr, -⟩ | ⟨hr, -⟩ := ClientState.bucketSlow_cases hb
      · exact Option.some.inj (hr.symm.trans hy)
      · cases hr.symm.trans hy
    | recheckFull => exact .spent (by rw [hself]; rfl)
  | move hx =>
    cases hm with
    | releaseTouch =>
      exact .quiet (hseek (.move hx)) fun y =>
        gate_onBucket s (f := .touch s.now) (fun _ => rfl) (.bucket y)
    | releaseActive =>
      exact .quiet (hseek (.move hx)) fun y =>
        gate_onBucket s (f := .addActive (-1)) (fun _ => rfl) (.bucket y)
    | @releaseGate _ _ g =>
      exact .leave hx hpc (hseek .activate) fun y hy => gate_withGate_ne s g hy

/-- A request that has its bucket stays with it until it sends its attempt or gives up. -/
theorem TripSteps.proceeds {a : TripAction} {s' : SchedulerRun π} {h : Held} {pc : HeldPc}
    {pc' : TripPc} (hm : TripSteps cfg p s (.held h pc) a s' pc') (hu : pc.unsent = true) :
    (∃ v next, pc' = .held { h with validation := v } next ∧
      (next.unsent = true ∨ ∃ res, next = .unwind res)) ∨
    s' = s.log (.dispatch p (cfg.request p).routeHash s.now) := by
  cases hm with
  | dispatch => exact .inr rfl
  | validationRelease => exact .inl ⟨false, _, rfl, .inl rfl⟩
  | @validation _ _ _ r =>
    cases r with
    | pending => exact .inl ⟨h.validation, _, rfl, .inl rfl⟩
    | granted => exact .inl ⟨true, _, rfl, .inl rfl⟩
    | refused => exact .inl ⟨h.validation, _, rfl, .inr ⟨_, rfl⟩⟩
  | @pacerGate _ _ _ r =>
    cases r with
    | pending | granted => exact .inl ⟨h.validation, _, rfl, .inl rfl⟩
    | refused => exact .inl ⟨h.validation, _, rfl, .inr ⟨_, rfl⟩⟩
  | @pacerUnlock _ ret =>
    cases ret with
    | granted => exact .inl ⟨h.validation, _, rfl, .inl rfl⟩
    | delayed | failed => exact .inl ⟨h.validation, _, rfl, .inr ⟨_, rfl⟩⟩
  | unauthorized | replayFailed | refuse | current | expired | waitDone | waitCancelled
  | bodyFailed | reserveFailed => exact .inl ⟨h.validation, _, rfl, .inr ⟨_, rfl⟩⟩
  | lost | respond | lock | observe | blockGlobal | spareGlobal | blockTime | spareBucket
  | blockBucket | unnamed | learn | unwindValidation | unwind => cases hu
  | _ => exact .inl ⟨h.validation, _, rfl, .inl rfl⟩

theorem TripSteps.spent {a : TripAction} {s' : SchedulerRun π} {pc pc' : TripPc}
    (hm : TripSteps cfg p s pc a s' pc') (hp : pc.spent = true) : pc'.spent = true := by
  cases hm with
  | deactivate | unwindValidation | unwind | endActive | endTouch | endEvicted => rfl
  | @releaseTouch _ k | @releaseActive _ k | @releaseGate _ k =>
    cases k <;> cases hp
    rfl
  | _ => cases hp

theorem spent_step {a : TripAction} (hp : (s.pc p).spent = true)
    (hs : s.tripStep cfg p a = some t) : (t.pc p).spent = true := by
  obtain ⟨s', pc', hm, rfl⟩ := tripStep_trips hs
  rw [goto_pc_self]
  exact hm.spent hp

theorem events_step {a : SchedulerAction π} (hs : s.step cfg a = some t) :
    t.events = s.events ∨ ∃ e, t.events = e :: s.events ∧ ∀ p ρ τ, e = .dispatch p ρ τ →
      a.mover = some p ∧ ∃ b, (s.pc p).phase = .held b .cleared := by
  have hm := step_moves (K := fun _ _ _ => True) (fun _ _ _ _ _ _ _ => trivial) hs
  change t.view.events = s.view.events ∨ ∃ e, t.view.events = e :: s.view.events ∧ _
  change _ ∨ ∃ e, _ ∧ ∀ p ρ τ, e = TripEvent.dispatch p ρ τ →
    a.mover = some p ∧ ∃ b, s.view.phase p = .held b .cleared
  generalize s.view = v at hm
  generalize t.view = v' at hm
  generalize a.mover = mover at hm
  cases hm with
  | tick | same => exact .inl rfl
  | sweep hm => cases hm <;> exact .inl rfl
  | evict hm => cases hm <;> exact .inl rfl
  | @trip p _ hm =>
    cases hm with
    | dispatch hp =>
      refine .inr ⟨_, rfl, fun q ρ τ he => ?_⟩
      cases he
      exact ⟨rfl, _, hp⟩
    | grant | block => exact .inr ⟨_, rfl, nofun⟩
    | _ => exact .inl rfl

/-- `q` came to the gate of `b` after `p`, and has not got ahead of it since. -/
def Race (b : Nat) (p q : π) (s : SchedulerRun π) : Prop :=
  (s.pc p).Wants b ∧ (s.pc q).Seeks b ∧ (s.gate (.bucket b)).Ahead p q ∨
  ∃ y, y ≠ b ∧ (s.pc p).Wants y ∧ ((s.pc q).Seeks b ∨ (s.pc q).Seeks y ∧
    ((s.gate (.bucket y)).call q = .out ∨ (s.gate (.bucket y)).Ahead p q))

/-- While `p` wants another bucket than `b`, its route is not moved again, and `q` does not enter
the gate of that bucket before `p` is there. -/
def KeepsOrder (cfg : SchedulerConfig π) (b : Nat) (p q : π) (s : SchedulerRun π)
    (a : SchedulerAction π) : Prop :=
  ∀ y, (s.pc p).goal = some y → y ≠ b →
    s.client.table.resolve (cfg.request p).routeHash = some y ∧
    (a = .trip q (.gate .enter) → s.pc q = .acquire 0 (.gate y) →
      (s.gate (.bucket y)).call p ≠ .out)

theorem pc_frame {a : SchedulerAction π} (hr : (system cfg).Reachable s)
    (hs : s.step cfg a = some t) (hp : a.mover ≠ some p) : t.pc p = s.pc p := by
  cases a with
  | trip x a =>
    obtain ⟨pc, hpc, -⟩ := trip_turns (checked_of_reach hr) hs
    have hne : p ≠ x := fun e => hp (congrArg some e.symm)
    simp [hpc, hne]
  | _ => exact congrFun (step_pc nofun hs) p

theorem gate_step {a : SchedulerAction π} (hs : s.step cfg a = some t) (hb : b < s.client.fresh) :
    t.gate (.bucket b) = s.gate (.bucket b) ∨ ∃ x done y r, a.mover = some x ∧
      ((s.pc x).phase = .queued b ∨ ∃ aim, (s.pc x).phase = .releasing b aim) ∧
      (s.gate (.bucket b)).step done x y = some (t.gate (.bucket b), r) :=
  BucketView.gate_of_moves (step_moves (K := fun _ _ _ => True) (fun _ _ _ _ _ _ _ => trivial) hs)
    hb

omit [DecidableEq π] in
theorem call_elsewhere (ho : s.view.Owned) (hp : (s.pc p).phase.place ≠ some b) :
    (s.gate (.bucket b)).call p = .out :=
  (BucketPhase.stands_elsewhere hp).mp (ho.stands b p)

theorem ahead_frame {a : SchedulerAction π} (ho : s.view.Owned) (hs : s.step cfg a = some t)
    (hb : b < s.client.fresh) (hp : a.mover ≠ some p) (hq : a.mover ≠ some q)
    (h : (s.gate (.bucket b)).Ahead p q) : (t.gate (.bucket b)).Ahead p q := by
  obtain hg | ⟨x, done, y, r, hx, -, hg⟩ := gate_step hs hb
  · rwa [hg]
  · obtain h | ⟨he | he, -⟩ := h.step (ho.wf b) hg
    · exact h
    · exact (hp (he ▸ hx)).elim
    · exact (hq (he ▸ hx)).elim

theorem call_frame {a : SchedulerAction π} (hs : s.step cfg a = some t)
    (hb : b < s.client.fresh) (hq : a.mover ≠ some q) :
    (t.gate (.bucket b)).call q = (s.gate (.bucket b)).call q := by
  obtain hg | ⟨x, done, y, r, hx, -, hg⟩ := gate_step hs hb
  · rw [hg]
  · exact FifoGate.step_call_ne hg fun e => hq (e ▸ hx)

theorem gate_eq {a : TripAction} {φ : BucketPhase} (hs : s.tripStep cfg p a = some t)
    (hb : b < s.client.fresh) (hp : (s.pc p).phase = φ) (hq : φ ≠ .queued b)
    (hr : ∀ aim, φ ≠ .releasing b aim) : t.gate (.bucket b) = s.gate (.bucket b) := by
  obtain hg | ⟨x, done, y, r, hx, hx', -⟩ := gate_step (a := .trip p a) hs hb
  · exact hg
  · cases hx
    subst hp
    obtain hx' | ⟨aim, hx'⟩ := hx'
    · exact (hq hx').elim
    · exact (hr aim hx').elim

/-- What becomes of a request that wants `y`: it goes on, without giving up its place at the gate,
or its recheck sends it elsewhere. -/
theorem wants_step {a : TripAction} {y : Nat} (ho : s.view.Owned) (hp : (s.pc p).Wants y)
    (hs : s.tripStep cfg p a = some t) :
    (t.pc p).spent = true ∨
    t.events = .dispatch p (cfg.request p).routeHash s.now :: s.events ∨
    ((t.pc p).Wants y ∧ ∀ q, (s.gate (.bucket y)).Ahead p q → (t.gate (.bucket y)).Ahead p q) ∨
    ∃ target, target ≠ y ∧ (t.pc p).Seeks target ∧
      ∀ x, s.client.table.resolve (cfg.request p).routeHash = some x → target = x := by
  have hfresh := hp.fresh ho
  obtain hp | ⟨v, pc, hpc, hu⟩ := hp
  · cases seek_step hp hs with
    | spent h => exact .inl h
    | quiet hseek hg =>
      refine .inr (.inr (.inl ⟨.inl hseek, fun q h => ?_⟩))
      rwa [hg]
    | @gate x r hpc hseek ha hg _ _ hr =>
      refine .inr (.inr (.inl ⟨.inl hseek, fun q h => ?_⟩))
      obtain h | ⟨-, rfl | ⟨e, he⟩⟩ := h.step (ho.wf y) hg
      · exact h
      · -- only the owner of a gate releases it
        have hcall := ho.stands y p
        change (s.pc p).phase.Stands y ((s.gate (.bucket y)).call p) at hcall
        rw [hpc] at hcall
        simp [TripPc.phase, AcquirePc.phase, BucketPhase.Stands, BucketPhase.owned,
          FifoGate.owner_of_release hg] at hcall
      · exact (hr e he).elim
    | leave hx hpc hseek hg =>
      refine .inr (.inr (.inl ⟨.inl hseek, fun q h => ?_⟩))
      rwa [hg y (Ne.symm hx)]
    | @recheck target hphase hpc hresolve =>
      by_cases ht : target = y
      · subst ht
        rw [TripPc.rechecked_self] at hpc
        refine .inr (.inr (.inl ⟨.inr ⟨_, _, hpc, rfl⟩, fun q h => ?_⟩))
        have hgate := gate_eq hs hfresh hphase (fun h => by cases h) fun _ h => by cases h
        rwa [hgate]
      · exact .inr (.inr (.inr ⟨target, ht, hpc ▸ TripPc.seeks_rechecked ht, hresolve⟩))
  · obtain ⟨s', pc', hm, rfl⟩ := tripStep_trips hs
    rw [hpc] at hm
    have hself : (s'.goto p pc').pc p = pc' := goto_pc_self s' p pc'
    obtain ⟨v', next, rfl, hu' | ⟨res, rfl⟩⟩ | rfl := hm.proceeds hu
    · refine .inr (.inr (.inl ⟨.inr ⟨v', next, hself, hu'⟩, fun q h => ?_⟩))
      have hgate := gate_eq hs hfresh (congrArg TripPc.phase hpc) (fun h => by cases h)
        fun _ h => by cases h
      rwa [hgate]
    · exact .inl (by rw [hself]; rfl)
    · exact .inr (.inl rfl)

theorem Race.frame {a : SchedulerAction π} (hr : (system cfg).Reachable s) (h : s.Race b p q)
    (hs : s.step cfg a = some t) (hp : a.mover ≠ some p) (hq : a.mover ≠ some q) :
    t.Race b p q := by
  have ho := owned_of_reach hr
  unfold Race
  rw [pc_frame hr hs hp, pc_frame hr hs hq]
  obtain ⟨hpw, hqc, hahead⟩ | ⟨y, hy, hpw, hqs | ⟨hqs, hout | hahead⟩⟩ := h
  · exact .inl ⟨hpw, hqc, ahead_frame ho hs (hpw.fresh ho) hp hq hahead⟩
  · exact .inr ⟨y, hy, hpw, .inl hqs⟩
  · refine .inr ⟨y, hy, hpw, .inr ⟨hqs, .inl ?_⟩⟩
    rwa [call_frame hs (hpw.fresh ho) hq]
  · exact .inr ⟨y, hy, hpw, .inr ⟨hqs, .inr (ahead_frame ho hs (hpw.fresh ho) hp hq hahead)⟩⟩

theorem Race.first {a : TripAction} (hr : (system cfg).Reachable s) (h : s.Race b p q)
    (hpq : p ≠ q) (hc : KeepsOrder cfg b p q s (.trip p a)) (hs : s.tripStep cfg p a = some t) :
    t.Race b p q ∨ (t.pc p).spent = true ∨
      t.events = .dispatch p (cfg.request p).routeHash s.now :: s.events := by
  have ho := owned_of_reach hr
  have hq : SchedulerAction.mover (.trip p a) ≠ some q := fun e => hpq (Option.some.inj e)
  have hqpc : t.pc q = s.pc q := pc_frame hr (a := .trip p a) hs hq
  obtain ⟨hpw, hqc, hahead⟩ | ⟨y, hy, hpw, hqs⟩ := h
  · obtain hspent | he | ⟨hpw', hkeep⟩ | ⟨target, ht, hseek, -⟩ := wants_step ho hpw hs
    · exact .inr (.inl hspent)
    · exact .inr (.inr he)
    · exact .inl (.inl ⟨hpw', hqpc ▸ hqc, hkeep q hahead⟩)
    · exact .inl (.inr ⟨target, ht, .inl hseek, .inl (hqpc ▸ hqc)⟩)
  · obtain hspent | he | ⟨hpw', hkeep⟩ | ⟨target, ht, -, hresolve⟩ := wants_step ho hpw hs
    · exact .inr (.inl hspent)
    · exact .inr (.inr he)
    · refine .inl (.inr ⟨y, hy, hpw', ?_⟩)
      rw [hqpc]
      refine hqs.imp_right fun ⟨hseek, hqs⟩ => ⟨hseek, hqs.imp (fun hout => ?_) (hkeep q)⟩
      rwa [call_frame (a := .trip p a) hs (hpw.fresh ho) hq]
    · exact (ht (hresolve y (hc y hpw.goal hy).1)).elim

theorem Race.second {a : TripAction} (hr : (system cfg).Reachable s) (h : s.Race b p q)
    (hpq : p ≠ q) (hroute : (cfg.request q).routeHash = (cfg.request p).routeHash)
    (hc : KeepsOrder cfg b p q s (.trip q a)) (hs : s.tripStep cfg q a = some t) :
    t.Race b p q ∨ (t.pc q).spent = true := by
  have ho := owned_of_reach hr
  have ho' : t.view.Owned := owned_of_reach (hr.next (a := .trip q a) hs)
  have hp : SchedulerAction.mover (.trip q a) ≠ some p := fun e => hpq (Option.some.inj e).symm
  have hppc : t.pc p = s.pc p := pc_frame hr (a := .trip q a) hs hp
  -- whoever has `p` ahead of it at a gate does not have that gate
  have howner : ∀ y, (s.gate (.bucket y)).Ahead p q → (s.gate (.bucket y)).call q ≠ .owner := by
    intro y hahead hown
    obtain hw | hw := hahead.call (ho.wf y) <;> cases hown.symm.trans hw
  have hphase : ∀ y, (s.pc q).phase = .owner y → (s.gate (.bucket y)).call q = .owner :=
    fun y h => ho.call (p := q) (b := y) ((congrArg BucketPhase.owned h).trans rfl)
  have hstay : ∀ y x r, (s.gate (.bucket y)).Ahead p q →
      (s.gate (.bucket y)).step (s.done q) q x = some (t.gate (.bucket y), r) →
      (∀ e, r ≠ .refused e) → (t.gate (.bucket y)).Ahead p q := by
    intro y x r hahead hg hrefused
    obtain h | ⟨-, rfl | ⟨e, he⟩⟩ := hahead.step (ho.wf y) hg
    · exact h
    · exact (howner y hahead (FifoGate.owner_of_release hg)).elim
    · exact (hrefused e he).elim
  obtain ⟨hpw, hqs, hahead⟩ | ⟨y, hy, hpw, hqs | ⟨hqs, hbehind⟩⟩ := h
  · cases seek_step hqs hs with
    | spent h => exact .inr h
    | quiet hseek hg => exact .inl (.inl ⟨hppc ▸ hpw, hseek, by rwa [hg]⟩)
    | gate _ hseek _ hg _ _ hrefused =>
      exact .inl (.inl ⟨hppc ▸ hpw, hseek, hstay b _ _ hahead hg hrefused⟩)
    | leave hx _ hseek hg => exact .inl (.inl ⟨hppc ▸ hpw, hseek, by rwa [hg b (Ne.symm hx)]⟩)
    | recheck h => exact (howner b hahead (hphase b h)).elim
  · obtain ⟨hresolve, -⟩ := hc y hpw.goal hy
    cases seek_step hqs hs with
    | spent h => exact .inr h
    | quiet hseek | gate _ hseek | leave _ _ hseek =>
      exact .inl (.inr ⟨y, hy, hppc ▸ hpw, .inl hseek⟩)
    | @recheck target _ hqc htarget =>
      obtain rfl := htarget y (hroute ▸ hresolve)
      refine .inl (.inr ⟨target, hy, hppc ▸ hpw, .inr ⟨hqc ▸ TripPc.seeks_rechecked hy, .inl ?_⟩⟩)
      refine call_elsewhere ho' ?_
      rw [hqc, rechecked, if_neg hy]
      exact fun e => hy (Option.some.inj e).symm
  · obtain ⟨-, henter⟩ := hc y hpw.goal hy
    cases seek_step hqs hs with
    | spent h => exact .inr h
    | quiet hseek hg =>
      exact .inl (.inr ⟨y, hy, hppc ▸ hpw, .inr ⟨hseek, by rwa [hg]⟩⟩)
    | gate hqc hseek ha hg _ _ hrefused =>
      refine .inl (.inr ⟨y, hy, hppc ▸ hpw, .inr ⟨hseek, .inr ?_⟩⟩)
      obtain hout | hahead := hbehind
      · obtain rfl := FifoGate.enter_of_out hout hg
        subst ha
        obtain hahead | ⟨e, he⟩ := FifoGate.ahead_of_enter (ho.wf y) (henter rfl hqc) hg
        · exact hahead
        · exact (hrefused e he).elim
      · exact hstay y _ _ hahead hg hrefused
    | leave hx _ hseek hg =>
      exact .inl (.inr ⟨y, hy, hppc ▸ hpw, .inr ⟨hseek, by rwa [hg y (Ne.symm hx)]⟩⟩)
    | recheck h =>
      obtain hout | hahead := hbehind
      · cases hout.symm.trans (hphase y h)
      · exact (howner y hahead (hphase y h)).elim

/-- `p` has sent an attempt in the events `l`, the last of which stands first. -/
def Sent (p : π) (l : List (TripEvent π)) : Prop := ∃ ρ τ, TripEvent.dispatch p ρ τ ∈ l

/-- How two requests stand of which `p` came first, and what they have sent since then. -/
inductive Arrival (b : Nat) (p q : π) (t : SchedulerRun π) (l : List (TripEvent π)) : Prop
  | race : t.Race b p q → ¬Sent p l → ¬Sent q l → Arrival b p q t l
  | firstSpent : (t.pc p).spent = true → ¬Sent p l → Arrival b p q t l
  | secondSpent : (t.pc q).spent = true → ¬Sent q l → Arrival b p q t l
  | sent {l₁ l₂ ρ τ} : l = l₁ ++ .dispatch p ρ τ :: l₂ → ¬Sent q l₂ → Arrival b p q t l

theorem not_cleared_of_seeks {pc : TripPc} {x : Nat} (h : pc.Seeks b) :
    pc.phase ≠ .held x .cleared := by
  cases h with
  | @move x pc => cases pc <;> exact fun h => by cases h
  | _ => exact fun h => by cases h

theorem not_cleared_of_spent {pc : TripPc} {x : Nat} (h : pc.spent = true) :
    pc.phase ≠ .held x .cleared := by
  cases pc with
  | acquire n pc =>
    cases pc <;> cases h
    exact fun h => by cases h
  | held held pc =>
    cases pc <;> cases h
    simp [TripPc.phase, HeldPc.waits]
  | release y pc k => cases pc <;> exact fun h => by cases h
  | learned | idle | beginTouch | started => cases h
  | _ => exact fun h => by cases h

omit [DecidableEq π] in
theorem Race.seeks (h : s.Race b p q) : ∃ y, (s.pc q).Seeks y := by
  obtain ⟨-, hq, -⟩ | ⟨y, -, -, hq | ⟨hq, -⟩⟩ := h
  · exact ⟨b, hq⟩
  · exact ⟨b, hq⟩
  · exact ⟨y, hq⟩

theorem sent_step {a : SchedulerAction π} {l base : List (TripEvent π)}
    (hs : s.step cfg a = some t) (hl : s.events = l ++ base) :
    ∃ l₀, t.events = (l₀ ++ l) ++ base ∧ ∀ x, Sent x (l₀ ++ l) → Sent x l ∨
      a.mover = some x ∧ (∃ b, (s.pc x).phase = .held b .cleared) ∧
        ∃ ρ τ, l₀ = [.dispatch x ρ τ] := by
  obtain he | ⟨e, he, hnew⟩ := events_step hs
  · exact ⟨[], by rw [he, hl]; rfl, fun x hx => .inl hx⟩
  · refine ⟨[e], by rw [he, hl]; rfl, fun x ⟨ρ, τ, hx⟩ => ?_⟩
    obtain hx | hx := List.mem_cons.mp hx
    · obtain ⟨hm, hphase⟩ := hnew x ρ τ hx.symm
      exact .inr ⟨hm, hphase, ρ, τ, by rw [hx]⟩
    · exact .inl ⟨ρ, τ, hx⟩

theorem spent_frame {a : SchedulerAction π} (hr : (system cfg).Reachable s)
    (hs : s.step cfg a = some t) (hp : (s.pc p).spent = true) : (t.pc p).spent = true := by
  by_cases hm : a.mover = some p
  · cases a with
    | trip x a =>
      cases hm
      exact spent_step hp hs
    | _ => cases hm
  · rwa [pc_frame hr hs hm]

theorem Arrival.step {a : SchedulerAction π} {l base : List (TripEvent π)}
    (hr : (system cfg).Reachable s) (h : s.Arrival b p q l) (hpq : p ≠ q)
    (hroute : (cfg.request q).routeHash = (cfg.request p).routeHash)
    (hc : KeepsOrder cfg b p q s a) (hs : s.step cfg a = some t) (hl : s.events = l ++ base) :
    ∃ l', t.events = l' ++ base ∧ t.Arrival b p q l' := by
  obtain ⟨l₀, hl', hsent⟩ := sent_step hs hl
  refine ⟨l₀ ++ l, hl', ?_⟩
  cases h with
  | sent he hq => exact .sent (by rw [he, List.append_assoc]) hq
  | firstSpent hspent hp =>
    refine .firstSpent (spent_frame hr hs hspent) fun hx => ?_
    obtain hx | ⟨-, ⟨x, hx⟩, -⟩ := hsent p hx
    · exact hp hx
    · exact not_cleared_of_spent hspent hx
  | secondSpent hspent hq =>
    refine .secondSpent (spent_frame hr hs hspent) fun hx => ?_
    obtain hx | ⟨-, ⟨x, hx⟩, -⟩ := hsent q hx
    · exact hq hx
    · exact not_cleared_of_spent hspent hx
  | race hrace hp hq =>
    have hq' : ¬Sent q (l₀ ++ l) := by
      intro hx
      obtain ⟨y, hseek⟩ := hrace.seeks
      obtain hx | ⟨-, ⟨x, hx⟩, -⟩ := hsent q hx
      · exact hq hx
      · exact not_cleared_of_seeks hseek hx
    by_cases hp' : Sent p (l₀ ++ l)
    · obtain hx | ⟨-, -, ρ, τ, rfl⟩ := hsent p hp'
      · exact (hp hx).elim
      · have he : [.dispatch p ρ τ] ++ l = [] ++ .dispatch p ρ τ :: l := rfl
        exact .sent he hq
    · by_cases hmp : a.mover = some p
      · cases a with
        | trip x a =>
          cases hmp
          obtain hrace | hspent | he := hrace.first hr hpq hc hs
          · exact .race hrace hp' hq'
          · exact .firstSpent hspent hp'
          · refine (hp' ⟨(cfg.request p).routeHash, s.now, ?_⟩).elim
            have hcons : (l₀ ++ l) ++ base =
                (.dispatch p (cfg.request p).routeHash s.now :: l) ++ base := by
              rw [← hl', he, hl]
              rfl
            rw [List.append_cancel_right hcons]
            exact List.mem_cons_self
        | _ => cases hmp
      · by_cases hmq : a.mover = some q
        · cases a with
          | trip x a =>
            cases hmq
            obtain hrace | hspent := hrace.second hr hpq hroute hc hs
            · exact .race hrace hp' hq'
            · exact .secondSpent hspent hq'
          | _ => cases hmq
        · exact .race (hrace.frame hr hs hmp hmq) hp' hq'

/-- If `p` and `q` of one route wait at the gate of a bucket, `p` in front, and `q` is sent, then
`p` was sent before, or it gives up and is not sent at all, provided that the route is moved at most
once in the meantime and that `q` goes to the new gate after `p`. -/
theorem arrival_order (cfg : SchedulerConfig π) (hr : (system cfg).Reachable s)
    (hroute : (cfg.request q).routeHash = (cfg.request p).routeHash)
    (hp : s.pc p = .acquire 0 (.gate b)) (hq : s.pc q = .acquire 0 (.gate b))
    (hqueue : [p, q].Sublist (s.client.bucketAt b).gate.waiters)
    (ht : (system cfg).Leads (KeepsOrder cfg b p q) s t) {l₁ l₂ : List (TripEvent π)} {ρ : UInt64}
    {τ : Int} (hl : t.events = (l₁ ++ .dispatch q ρ τ :: l₂) ++ s.events)
    (hsent : Sent p (l₁ ++ .dispatch q ρ τ :: l₂) ∨ (t.pc p).spent = false) : Sent p l₂ := by
  have hpq : p ≠ q := by
    have hnodup := ((owned_of_reach hr).wf b).nodup.sublist hqueue
    exact fun e => by simp [e] at hnodup
  have harrival : ∃ l, t.events = l ++ s.events ∧ t.Arrival b p q l := by
    have hstart : s.Arrival b p q [] := by
      refine .race (.inl ⟨hp ▸ .inl .gate, hq ▸ .gate, ?_, .inr hqueue⟩) ?_ ?_
      · exact hqueue.subset (by simp)
      · simp [Sent]
      · simp [Sent]
    clear hl hsent
    induction ht with
    | refl => exact ⟨[], rfl, hstart⟩
    | step h hc hs ih =>
      obtain ⟨l, hl, ha⟩ := ih
      exact ha.step (h.reachable hr) hpq hroute hc hs hl
  obtain ⟨l, hl', ha⟩ := harrival
  obtain rfl := List.append_cancel_right (hl'.symm.trans hl)
  have hqsent : Sent q (l₁ ++ .dispatch q ρ τ :: l₂) := ⟨ρ, τ, by simp⟩
  cases ha with
  | race _ _ hq => exact (hq hqsent).elim
  | firstSpent hspent hp =>
    obtain hsent | hsent := hsent
    · exact (hp hsent).elim
    · cases hspent.symm.trans hsent
  | secondSpent _ hq => exact (hq hqsent).elim
  | @sent m₁ m₂ ρ' τ' he hq =>
    obtain ⟨m, -, hm⟩ | ⟨m, -, hm⟩ := List.append_eq_append_iff.mp he <;>
      obtain _ | ⟨x, m⟩ := m <;> cases hm
    · exact (hpq rfl).elim
    · exact ⟨ρ', τ', by simp⟩
    · exact (hpq rfl).elim
    · exact (hq ⟨ρ, τ, by simp⟩).elim

def orderly (cfg : SchedulerConfig π) (b : Nat) (p q : π) (s : SchedulerRun π)
    (a : SchedulerAction π) : Bool :=
  match (s.pc p).goal with
  | none => true
  | some y => y == b ||
    s.client.table.resolve (cfg.request p).routeHash == some y && match a with
      | .trip x (.gate .enter) => !(decide (x = q) && s.pc q == .acquire 0 (.gate y)) ||
          decide ((s.gate (.bucket y)).call p ≠ .out)
      | _ => true

theorem keepsOrder_of_orderly (s : SchedulerRun π) (a : SchedulerAction π)
    (h : orderly cfg b p q s a = true) : KeepsOrder cfg b p q s a := by
  intro y hy hb
  simp only [orderly, hy, Bool.or_eq_true, Bool.and_eq_true, beq_iff_eq, hb, false_or] at h
  refine ⟨h.1, ?_⟩
  rintro rfl hq
  simpa [hq] using h.2

end SchedulerRun

namespace TripAction

def queueUp : List TripAction := arrive ++ [.go, .go, .go, .gate .enter]

def handed : List TripAction := [.gate .ready, .gate .check, .go]

def moveOn : List TripAction := handed ++ [.go, .go, .go]

def rush : List TripAction := proceed ++ pace ++ send

def serve (r : Response) : List TripAction := observe r ++ leave

end TripAction

namespace SchedulerRun

def sentBy {π : Type u} (l : List (TripEvent π)) : List π :=
  l.filterMap fun
    | .dispatch p _ _ => some p
    | .block _ _ | .grant _ _ _ => none

def oneRoute : SchedulerConfig (Fin 6) :=
  { twoRoutes 6 with request := fun p => ⟨if p = 1 then 2 else 1, [], false⟩ }

def splitting : Response := ⟨200, ⟨[8], 1, 0, false⟩, false⟩

open TripAction in
/-- The route of request 1 is in Discord's bucket 7; request 2 is in flight, and 3 and 4 wait for
it. -/
def waitingTwo : List (SchedulerAction (Fin 6)) :=
  acts 1 (arrive ++ acquire false ++ rush ++ serve sharing) ++ [.tick 30000000] ++
  acts 2 (arrive ++ acquire false ++ rush) ++ acts 3 queueUp ++ acts 4 queueUp

open TripAction in
/-- Request 2 learns that its route is in bucket 7, too, and request 3 gets there first. -/
def following : List (SchedulerAction (Fin 6)) :=
  [.tick 30000000] ++ acts 2 (serve sharing) ++
  acts 3 (moveOn ++ [.go, .go, .gate .enter, .gate .check, .go]) ++
  acts 4 (moveOn ++ [.go, .go, .gate .enter]) ++ acts 3 (rush ++ serve (plain 200)) ++
  [.tick 30000000] ++ acts 4 (handed ++ rush)

theorem arrival_order_following :
    ∃ s t : SchedulerRun (Fin 6), (s.client.bucketAt 1).gate.waiters = [3, 4] ∧
      s.client.table.resolve 1 = some 1 ∧ t.client.table.resolve 1 = some 0 ∧
      t.events = [.dispatch 4 1 90000000, .grant 4 0 90000000, .dispatch 3 1 60000000,
        .grant 3 0 60000000] ++ s.events ∧
      Sent 3 [.grant (4 : Fin 6) 0 90000000, .dispatch 3 1 60000000, .grant 3 0 60000000] := by
  have hrun : ((system oneRoute).run (start oneRoute 0) waitingTwo).map (fun s =>
      (decide (s.pc 3 = .acquire 0 (.gate 1) ∧ s.pc 4 = .acquire 0 (.gate 1) ∧
          (s.client.bucketAt 1).gate.waiters = [3, 4] ∧ s.client.table.resolve 1 = some 1),
        (((system oneRoute).check (orderly oneRoute 1 3 4)).run s following).map fun t =>
          decide (t.client.table.resolve 1 = some 0 ∧ t.events = [.dispatch 4 1 90000000,
            .grant 4 0 90000000, .dispatch 3 1 60000000, .grant 3 0 60000000] ++ s.events))) =
      some (true, some true) := by
    decide +kernel
  obtain ⟨s, hs, he⟩ := Option.map_eq_some_iff.mp hrun
  simp only [Prod.mk.injEq, decide_eq_true_eq] at he
  obtain ⟨⟨h3, h4, hw, hres⟩, he⟩ := he
  obtain ⟨t, ht, he⟩ := Option.map_eq_some_iff.mp he
  obtain ⟨hres', hevents⟩ := decide_eq_true_eq.mp he
  have horder : [(3 : Fin 6), 4].Sublist (s.client.bucketAt 1).gate.waiters := by rw [hw]
  have hlast : t.events = ([] ++ .dispatch 4 1 90000000 :: [.grant 4 0 90000000,
      .dispatch 3 1 60000000, .grant 3 0 60000000]) ++ s.events := hevents
  refine ⟨s, t, hw, hres, hres', hevents, ?_⟩
  exact arrival_order oneRoute (System.Reachable.run (.init ⟨0, rfl⟩) hs) (p := 3) (q := 4) rfl h3
    h4 horder (System.Leads.of_run keepsOrder_of_orderly ht) hlast (.inl ⟨1, 60000000, by simp⟩)

open TripAction in
/-- As in `following`, but request 4 gets to bucket 7 first. -/
def overtaking : List (SchedulerAction (Fin 6)) :=
  [.tick 30000000] ++ acts 2 (serve sharing) ++ acts 3 moveOn ++
  acts 4 (moveOn ++ [.go, .go, .gate .enter, .gate .check, .go] ++ rush) ++
  acts 3 [.go, .go, .gate .enter] ++ acts 4 (serve (plain 200)) ++ [.tick 30000000] ++
  acts 3 (handed ++ rush)

open TripAction in
/-- As in `waitingTwo`, but request 0 has put the other route into Discord's bucket 8 before. -/
def waitingSplit : List (SchedulerAction (Fin 6)) :=
  acts 1 (arrive ++ acquire false ++ rush ++ serve sharing) ++ [.tick 30000000] ++
  acts 0 (arrive ++ acquire false ++ rush ++ serve splitting) ++ [.tick 30000000] ++
  acts 2 (arrive ++ acquire true ++ rush) ++ acts 3 queueUp ++ acts 4 queueUp

open TripAction in
/-- Request 2 moves the route to bucket 7, where request 3 waits for request 5, and request 5 moves
the route back to bucket 8, whose gate request 4 has in the meantime. -/
def goingBack : List (SchedulerAction (Fin 6)) :=
  [.tick 30000000] ++ acts 2 (serve sharing) ++ acts 5 (arrive ++ acquire true ++ rush) ++
  acts 3 (moveOn ++ [.go, .go, .gate .enter]) ++ [.tick 30000000] ++ acts 5 (serve splitting) ++
  acts 4 (handed ++ rush) ++ acts 3 (moveOn ++ [.go, .go, .gate .enter]) ++
  acts 4 (serve (plain 200)) ++ [.tick 30000000] ++ acts 3 (handed ++ rush)

/-- Two runs, one after the other, as the kernel can replay them. -/
theorem exists_overtaken (earlier : List (SchedulerAction (Fin 6)))
    {later : List (SchedulerAction (Fin 6))} {b : Nat} {sent sent' : List (Fin 6)}
    (hrun : ((system oneRoute).run (start oneRoute 0) earlier).map (fun s =>
      (decide ((s.client.bucketAt 1).gate.waiters = [3, 4] ∧ s.client.table.resolve 1 = some 1 ∧
          sentBy s.events = sent),
        ((system oneRoute).run s later).map fun t =>
          decide (t.client.table.resolve 1 = some b ∧ sentBy t.events = sent'))) =
      some (true, some true)) :
    ∃ s t : SchedulerRun (Fin 6), (system oneRoute).Reachable s ∧
      (s.client.bucketAt 1).gate.waiters = [3, 4] ∧ s.client.table.resolve 1 = some 1 ∧
      (system oneRoute).run s later = some t ∧ t.client.table.resolve 1 = some b ∧
      sentBy s.events = sent ∧ sentBy t.events = sent' := by
  obtain ⟨s, hs, he⟩ := Option.map_eq_some_iff.mp hrun
  simp only [Prod.mk.injEq, decide_eq_true_eq] at he
  obtain ⟨⟨hwaiters, hresolve, hsent⟩, he⟩ := he
  obtain ⟨t, ht, he⟩ := Option.map_eq_some_iff.mp he
  obtain ⟨hresolve', hsent'⟩ := decide_eq_true_eq.mp he
  have hs' : (system oneRoute).Reachable s := System.Reachable.run (.init ⟨0, rfl⟩) hs
  exact ⟨s, t, hs', hwaiters, hresolve, ht, hresolve', hsent, hsent'⟩

/-- Request 3 waits before request 4 of the same route and is sent after it, without being
cancelled or refused: once because 4 gets to the new bucket before 3, and once because the route
comes back to the old bucket. -/
theorem arrival_order_lost :
    (∃ s t : SchedulerRun (Fin 6), (system oneRoute).Reachable s ∧
      (s.client.bucketAt 1).gate.waiters = [3, 4] ∧ s.client.table.resolve 1 = some 1 ∧
      (system oneRoute).run s overtaking = some t ∧ t.client.table.resolve 1 = some 0 ∧
      sentBy s.events = [2, 1] ∧ sentBy t.events = [3, 4, 2, 1]) ∧
    (∃ s t : SchedulerRun (Fin 6), (system oneRoute).Reachable s ∧
      (s.client.bucketAt 1).gate.waiters = [3, 4] ∧ s.client.table.resolve 1 = some 1 ∧
      (system oneRoute).run s goingBack = some t ∧ t.client.table.resolve 1 = some 1 ∧
      sentBy s.events = [2, 0, 1] ∧ sentBy t.events = [3, 4, 5, 2, 0, 1]) := by
  refine ⟨?_, ?_⟩
  · exact exists_overtaken waitingTwo (by decide +kernel)
  · exact exists_overtaken waitingSplit (by decide +kernel)

end SchedulerRun

end NirnProxy
