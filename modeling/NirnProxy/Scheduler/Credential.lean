import NirnProxy.Gate.Roles
import NirnProxy.Scheduler.Gates

/-! What the requests of one credential do to its validity and to the two gates they share, the
validation gate and the gate of the pacer, with everything else about them left out. -/

universe u

namespace NirnProxy

inductive CheckStage
  | before
  | queued
  | granted
  | rejected
  | deciding
  | admitted
  | observed (unauthorized : Bool)
  | stored (unauthorized : Bool)
  | settled (unauthorized : Bool)
  | retrying
  | unwinding
  deriving DecidableEq

/-- `own` says that the request has the validation gate, `between` that it is between two of its
attempts. -/
inductive CheckPhase
  | out
  | between
  | held (own : Bool) (stage : CheckStage)
  deriving DecidableEq

def HeldPc.stage : HeldPc → CheckStage
  | .validity => .before
  | .validation => .queued
  | .validationCheck => .granted
  | .validationRelease => .rejected
  | .invalid => .deciding
  | .replay | .knownBucket | .knownGlobal _ _ | .wait | .waitRead | .waitTest _ _
  | .waitSleep _ _ | .rememberBucket _ | .rememberGlobal _ _ _ | .pacer _ | .body | .reserve
  | .dispatch | .inFlight | .observe _ => .admitted
  | .blockGlobal r | .blockTime r | .blockBucket r _ | .learn r => .observed r.unauthorized
  | .unwind _ => .unwinding

def LearnedPc.stage : LearnedPc → CheckStage
  | .validationStore r => .observed r.unauthorized
  | .validationRelease r => .stored r.unauthorized
  | .status r => .settled r.unauthorized
  | .prepare _ | .knownBucket _ | .knownGlobal _ _ _ => .retrying

def CheckPhase.before (attempt : Nat) : CheckPhase := if attempt = 0 then .out else .between

def AfterRelease.check : AfterRelease → CheckPhase
  | .move attempt _ | .retry attempt => .before attempt
  | .finish _ => .out

def TripPc.check : TripPc → CheckPhase
  | .idle | .beginTouch | .started | .returned _ | .endTouch _ | .ended => .out
  | .acquire attempt _ => .before attempt
  | .held h pc => .held h.validation pc.stage
  | .learned h _ pc => .held h.validation pc.stage
  | .release _ _ k => k.check

def TripPc.pace : TripPc → GateRole
  | .held _ (.pacer pc) => pc.role
  | _ => .out

def CheckPhase.role : CheckPhase → GateRole
  | .held true _ => .owner
  | .held false .queued => .queued
  | .held false _ | .out | .between => .out

inductive CheckPhase.Eases (interaction : Bool) (v : Validity) : CheckPhase → CheckPhase → Prop
  | refl (φ) : Eases interaction v φ φ
  | begin : Eases interaction v .out (.held false .before)
  | resume : Eases interaction v .between (.held false .admitted)
  | stop : Eases interaction v .between .out
  | ask {own} : interaction = false → v = .unknown →
      Eases interaction v (.held own .before) (.held own .queued)
  | skip {own} : (interaction = false → v ≠ .unknown) →
      Eases interaction v (.held own .before) (.held own .deciding)
  | reject {own} : v ≠ .unknown → Eases interaction v (.held own .granted) (.held own .rejected)
  | confirm {own} : v = .unknown → Eases interaction v (.held own .granted) (.held own .deciding)
  | enter {own} : v ≠ .invalid → Eases interaction v (.held own .deciding) (.held own .admitted)
  | refuse {own} : Eases interaction v (.held own .deciding) (.held own .unwinding)
  | fail {own} : Eases interaction v (.held own .admitted) (.held own .unwinding)
  | settle {u} : Eases interaction v (.held false (.observed u)) (.held false (.settled u))
  | retry {own} : Eases interaction v (.held own (.settled false)) (.held own .retrying)
  | answer {own u} : Eases interaction v (.held own (.settled u)) .out
  | again {own} : Eases interaction v (.held own .retrying) .between
  | giveUp {own} : Eases interaction v (.held own .retrying) .out
  | leave : Eases interaction v (.held false .unwinding) .out

inductive CheckStage.Releases : CheckStage → CheckStage → Prop
  | rejected : Releases .rejected .deciding
  | stored (u) : Releases (.stored u) (.settled u)
  | unwinding : Releases .unwinding .unwinding

def GateReturn.check (own : Bool) : GateReturn → CheckPhase
  | .pending => .held own .queued
  | .granted => .held true .granted
  | .refused _ => .held own .unwinding

structure CredentialView (π : Type u) where
  generation : Nat
  validity : Validity
  validation : FifoGate π
  pacer : FifoGate π
  check : π → CheckPhase
  pace : π → GateRole

namespace CredentialView

variable {π : Type u} [DecidableEq π]

def goto (p : π) (φ : CheckPhase) (ρ : GateRole) (v : CredentialView π) : CredentialView π :=
  { v with check := Function.update v.check p φ, pace := Function.update v.pace p ρ }

/-- What one step of the request `p` can do.  `K` restricts the steps that lock the credential. -/
inductive TripMoves (cfg : SchedulerConfig π) (K : CredentialView π → π → Prop)
    (v : CredentialView π) (p : π) : CredentialView π → Prop
  | stay {φ} : v.pace p = .out → (v.check p).Eases (cfg.request p).interaction v.validity φ →
      TripMoves cfg K v p (v.goto p φ .out)
  | validation {own done a g r} : v.pace p = .out → v.check p = .held own .queued →
      v.validation.step done p a = some (g, r) →
      TripMoves cfg K v p ({ v with validation := g }.goto p (r.check own) .out)
  | release {own stage stage' done g r} : v.pace p = .out → v.check p = .held own stage →
      stage.Releases stage' → v.validation.step done p .release = some (g, r) →
      TripMoves cfg K v p ({ v with validation := g }.goto p (.held false stage') .out)
  | observe {own u} : v.pace p = .out → v.check p = .held own .admitted →
      (cfg.locks p u = true → K v p) →
      TripMoves cfg K v p
        ({ v with validity := if cfg.locks p u then .invalid else v.validity }.goto p
          (.held own (.observed u)) .out)
  | store {u} : v.pace p = .out → v.check p = .held true (.observed u) →
      TripMoves cfg K v p
        ({ v with validity := if u && !cfg.disable401Lock then .invalid else .valid }.goto p
          (.held true (.stored u)) .out)
  | approach {own} : v.pace p = .out → v.check p = .held own .admitted →
      TripMoves cfg K v p (v.goto p (.held own .admitted) .queued)
  | pacer {own done a g r} {φ : CheckPhase} : v.pace p = .queued →
      v.check p = .held own .admitted → v.pacer.step done p a = some (g, r) →
      φ = .held own .admitted ∨ φ = .held own .unwinding ∧ r.role = .out →
      TripMoves cfg K v p ({ v with pacer := g }.goto p φ r.role)
  | paced {own} : v.pace p = .owner → v.check p = .held own .admitted →
      TripMoves cfg K v p (v.goto p (.held own .admitted) .owner)
  | yield {own done g r} {φ : CheckPhase} : v.pace p = .owner → v.check p = .held own .admitted →
      v.pacer.step done p .release = some (g, r) →
      φ = .held own .admitted ∨ φ = .held own .unwinding →
      TripMoves cfg K v p ({ v with pacer := g }.goto p φ .out)

/-- What one step can do, labelled with the request that takes it.  When the state is cleared,
none of its requests is left. -/
inductive Moves (cfg : SchedulerConfig π) (K : CredentialView π → π → Prop)
    (v : CredentialView π) : Option π → CredentialView π → Prop
  | same : Moves cfg K v none v
  | trip {p v'} : TripMoves cfg K v p v' → Moves cfg K v (some p) v'
  | clear {n m : Nat} : (∀ p, v.check p = .out ∧ v.pace p = .out) →
      Moves cfg K v none
        { v with
          generation := v.generation + 1
          validity := if cfg.kind = .none then .valid else .unknown
          validation := .newFIFOGate n
          pacer := .newFIFOGate m }

end CredentialView

namespace SchedulerRun

variable {π : Type u}

def credential (s : SchedulerRun π) : CredentialView π where
  generation := s.generation
  validity := s.client.validity
  validation := s.client.validation
  pacer := s.client.global.gate
  check := fun p => (s.pc p).check
  pace := fun p => (s.pc p).pace

def Locks (cfg : SchedulerConfig π) (K : CredentialView π → π → Prop) (s : SchedulerRun π)
    (a : SchedulerAction π) : Prop :=
  ∀ p x h r, a = .trip p x → s.pc p = .held h (.observe r) → cfg.locks p r.unauthorized = true →
    K s.credential p

variable [DecidableEq π] {cfg : SchedulerConfig π} {K : CredentialView π → π → Prop}
  {s t : SchedulerRun π} {p : π} {h : Held}

theorem credential_goto (s : SchedulerRun π) (p : π) (pc : TripPc) :
    (s.goto p pc).credential = s.credential.goto p pc.check pc.pace := by
  have hcheck : (fun q => (Function.update s.pc p pc q).check) =
      Function.update (fun q => (s.pc q).check) p pc.check :=
    Function.comp_update TripPc.check s.pc p pc
  have hpace : (fun q => (Function.update s.pc p pc q).pace) =
      Function.update (fun q => (s.pc q).pace) p pc.pace :=
    Function.comp_update TripPc.pace s.pc p pc
  simp only [credential, goto, CredentialView.goto, hcheck, hpace]

theorem checks_stay {s' : SchedulerRun π} {pc pc' : TripPc} (hp : s.pc p = pc)
    (hv : s'.credential = s.credential) (hpace : pc.pace = .out) (hpace' : pc'.pace = .out)
    (he : pc.check.Eases (cfg.request p).interaction s.client.validity pc'.check) :
    CredentialView.TripMoves cfg K s.credential p (s'.goto p pc').credential := by
  subst hp
  rw [credential_goto, hv, hpace']
  exact .stay hpace he

theorem eases_before {interaction : Bool} {v : Validity} (n : Nat) :
    (CheckPhase.before n).Eases interaction v .out := by
  unfold CheckPhase.before
  split
  · exact .refl _
  · exact .stop

theorem pace_rechecked (n b target : Nat) : (rechecked n b target).pace = .out := by
  unfold rechecked
  split
  · split <;> rfl
  · rfl

theorem eases_rechecked {interaction : Bool} {v : Validity} (n b target : Nat) :
    (CheckPhase.before n).Eases interaction v (rechecked n b target).check := by
  by_cases ht : target = b
  · by_cases hn : n = 0
    · simp only [rechecked, CheckPhase.before, if_pos ht, if_pos hn]
      exact .begin
    · simp only [rechecked, CheckPhase.before, if_pos ht, if_neg hn]
      exact .resume
  · simp only [rechecked, if_neg ht]
    exact .refl _

theorem pace_next (k : AfterRelease) : k.next.pace = .out := by
  cases k <;> rfl

theorem check_next (k : AfterRelease) : k.next.check = k.check := by
  cases k <;> rfl

omit [DecidableEq π] in
theorem credential_bucketSlow {client : ClientState π} {slots : ResourceBudget} {b : Nat}
    {r : UInt64} (hb : s.client.bucketSlow s.now r s.slots = some (client, slots, b)) :
    (s.withMaps client slots).credential = s.credential := by
  obtain ⟨-, rfl⟩ | ⟨-, -, rfl⟩ := ClientState.bucketSlow_cases hb <;> rfl

omit [DecidableEq π] in
theorem credential_blockFor (s : SchedulerRun π) (d : Int) :
    (s.withPacer (s.client.global.blockFor s.now d)).credential = s.credential := by
  have hgate : (s.client.global.blockFor s.now d).gate = s.client.global.gate := by
    simp only [Pacer.blockFor]
    split <;> rfl
  simp only [withPacer, credential, onClient, hgate]

theorem checks_release {pc pc' : TripPc} {own : Bool} {stage stage' : CheckStage} {g : FifoGate π}
    {r : GateReturn} (hp : s.pc p = pc) (hpace : pc.pace = .out) (hpace' : pc'.pace = .out)
    (hcheck : pc.check = .held own stage) (hcheck' : pc'.check = .held false stage')
    (hr : stage.Releases stage')
    (hg : s.client.validation.step (s.done p) p .release = some (g, r)) :
    CredentialView.TripMoves cfg K s.credential p ((s.withValidation g).goto p pc').credential := by
  subst hp
  rw [credential_goto, hpace', hcheck']
  exact .release hpace hcheck hr hg

theorem checks_observe {r : Response} (hp : s.pc p = .held h (.observe r))
    (hK : Locks cfg K s (.trip p .go)) :
    CredentialView.TripMoves cfg K s.credential p
      ({ s.credential with
          validity := if cfg.locks p r.unauthorized then .invalid else s.client.validity }.goto p
        (.held h.validation (.observed r.unauthorized)) .out) := by
  refine .observe (congrArg TripPc.pace hp) (congrArg TripPc.check hp) fun hlock => ?_
  exact hK p _ h r rfl hp hlock

theorem checks_store {observed : Nat} {r : Response}
    (hp : s.pc p = .learned h observed (.validationStore r)) (hown : h.validation = true) :
    CredentialView.TripMoves cfg K s.credential p
      ((s.withValidity (if r.unauthorized && !cfg.disable401Lock then .invalid else .valid)).goto p
        (.learned h observed (.validationRelease r))).credential := by
  have hcheck : s.credential.check p = .held true (.observed r.unauthorized) :=
    hown ▸ congrArg TripPc.check hp
  have hcheck' : (TripPc.learned h observed (.validationRelease r)).check =
      .held true (.stored r.unauthorized) := by
    rw [← hown]
    rfl
  rw [credential_goto, hcheck']
  exact .store (congrArg TripPc.pace hp) hcheck

theorem unauthorized_of_tooManyRequests {r : Response} (h : r.tooManyRequests = true) :
    r.unauthorized = false := by
  simp only [Response.tooManyRequests, beq_iff_eq] at h
  simp [Response.unauthorized, h]

theorem TripSteps.checks {a : TripAction} {s' : SchedulerRun π} {pc pc' : TripPc}
    (hm : TripSteps cfg p s pc a s' pc') (hp : s.pc p = pc) (hK : Locks cfg K s (.trip p a)) :
    CredentialView.TripMoves cfg K s.credential p (s'.goto p pc').credential := by
  have hcheck : s.credential.check p = pc.check := congrArg TripPc.check hp
  have hpace : s.credential.pace p = pc.pace := congrArg TripPc.pace hp
  cases hm with
  | begin | beginTouch | arrive | unavailable | endActive | endTouch | endEvicted | lookup
  | lookupMiss | activate | touch | recheckMiss | releaseTouch | releaseActive =>
    exact checks_stay hp rfl rfl rfl (.refl _)
  -- `acquireBucket`
  | create _ hb => exact checks_stay hp (credential_bucketSlow hb) rfl rfl (.refl _)
  | createFull | deactivate | recheckFull => exact checks_stay hp rfl rfl rfl (eases_before _)
  | @bucketGate _ _ _ _ r => cases r <;> exact checks_stay hp rfl rfl rfl (.refl _)
  | recheck => exact checks_stay hp rfl rfl (pace_rechecked _ _ _) (eases_rechecked _ _ _)
  | recheckCreate _ hb =>
    exact checks_stay hp (credential_bucketSlow hb) rfl (pace_rechecked _ _ _)
      (eases_rechecked _ _ _)
  -- the validation of the credential
  | ask hi hv => exact checks_stay hp rfl rfl rfl (.ask hi hv)
  | skip hskip => exact checks_stay hp rfl rfl rfl (.skip hskip)
  | @validation _ _ _ r hg =>
    rw [credential_goto]
    cases r <;> exact .validation hpace hcheck hg
  | superseded hv => exact checks_stay hp rfl rfl rfl (.reject hv)
  | confirmed hv => exact checks_stay hp rfl rfl rfl (.confirm hv)
  | validationRelease hg => exact checks_release hp rfl rfl rfl rfl .rejected hg
  | unauthorized => exact checks_stay hp rfl rfl rfl .refuse
  | authorized hv => exact checks_stay hp rfl rfl rfl (.enter hv)
  | unwindValidation _ hg => exact checks_release hp rfl rfl rfl rfl .unwinding hg
  | @unwind h res hown =>
    refine checks_stay hp rfl rfl rfl ?_
    simp only [TripPc.check, hown]
    exact .leave
  -- admitted
  | replay | knownBucket | proceed | reread | waitOpen | waitRead | waitClear | waitLate
  | waitSleep | waitTimer | waitWoken | body | reserve | dispatch | respond =>
    exact checks_stay hp rfl rfl rfl (.refl _)
  | replayFailed | refuse | current | expired | waitDone | waitCancelled | bodyFailed
  | reserveFailed | lost => exact checks_stay hp rfl rfl rfl .fail
  | waitQueue =>
    rw [credential_goto]
    exact .approach hpace hcheck
  -- in the pacer
  | @pacerGate _ _ _ r hg =>
    rw [credential_goto]
    cases r with
    | pending | granted => exact .pacer hpace hcheck hg (.inl rfl)
    | refused => exact .pacer hpace hcheck hg (.inr ⟨rfl, rfl⟩)
  | pacerDone | pacerOpen | pacerTurn | pacerEarly | pacerLate | pacerSleep | pacerTimer
  | pacerWoken | pacerCancelled =>
    rw [credential_goto]
    exact .paced hpace hcheck
  | @pacerUnlock _ ret _ _ hg =>
    rw [credential_goto]
    cases ret with
    | granted => exact .yield hpace hcheck hg (.inl rfl)
    | delayed | failed => exact .yield hpace hcheck hg (.inr rfl)
  -- `observeResponse`
  | lock hlock =>
    have hm := checks_observe hp hK
    rw [hlock, if_pos rfl] at hm
    rw [credential_goto]
    exact hm
  | observe hlock =>
    have hm := checks_observe hp hK
    rw [hlock, if_neg Bool.false_ne_true] at hm
    rw [credential_goto]
    exact hm
  | blockGlobal => exact checks_stay hp (credential_blockFor s _) rfl rfl (.refl _)
  | spareGlobal | blockTime | spareBucket | blockBucket | unnamed =>
    exact checks_stay hp rfl rfl rfl (.refl _)
  | learn _ _ hl =>
    obtain ⟨hv, hg, hpacer⟩ := ClientState.learnBucket_frame hl
    refine checks_stay hp ?_ rfl rfl (.refl _)
    simp only [withMaps, credential, hv, hg, hpacer]
  -- with the response read
  | store hown => exact checks_store hp hown
  | @unstored h observed r hown =>
    refine checks_stay hp rfl rfl rfl ?_
    simp only [TripPc.check, hown]
    exact .settle
  | stored hg => exact checks_release hp rfl rfl rfl rfl (.stored _) hg
  | @limited h observed r hr =>
    refine checks_stay hp rfl rfl rfl ?_
    simp only [TripPc.check, LearnedPc.stage, unauthorized_of_tooManyRequests hr]
    exact .retry
  | answer => exact checks_stay hp rfl rfl rfl .answer
  | prepareFailed | unprepared | giveUp => exact checks_stay hp rfl rfl rfl .giveUp
  | prepared | knownAfter => exact checks_stay hp rfl rfl rfl (.refl _)
  | retry => exact checks_stay hp rfl rfl rfl .again
  | @releaseGate _ k =>
    refine checks_stay hp rfl rfl (pace_next k) ?_
    rw [check_next]
    exact .refl _

theorem trip_checks {a : TripAction} (hK : Locks cfg K s (.trip p a))
    (hs : s.tripStep cfg p a = some t) :
    CredentialView.TripMoves cfg K s.credential p t.credential := by
  obtain ⟨s', pc', hm, rfl⟩ := tripStep_trips hs
  exact hm.checks rfl hK

theorem out_of_dead {pc : TripPc} (h : pc.phase.isLive = false) :
    pc.check = .out ∧ pc.pace = .out := by
  cases pc with
  | idle | endTouch | ended => exact ⟨rfl, rfl⟩
  | acquire n pc => cases pc <;> cases h
  | release b pc k => cases pc <;> cases h
  | _ => cases h

theorem credential_step {a : SchedulerAction π} (ha : a.mover = none) (hc : a ≠ .clear)
    (hs : s.step cfg a = some t) : t.credential = s.credential := by
  obtain ⟨hpc, -, hgeneration, table, limit, hclient⟩ := step_aside ha hc hs
  simp only [credential, hpc, hgeneration, hclient]

theorem step_checks {a : SchedulerAction π} (ho : s.view.Owned) (hK : Locks cfg K s a)
    (hs : s.step cfg a = some t) :
    CredentialView.Moves cfg K s.credential a.mover t.credential := by
  cases a with
  | trip p a => exact .trip (trip_checks hK hs)
  | clear =>
    obtain ⟨⟨now, hmu⟩, -, rfl⟩ := step_clear hs
    refine .clear fun p => out_of_dead (ho.quiet ?_ p)
    change s.tableMu.quiet = true
    rw [hmu]
    rfl
  | _ =>
    rw [credential_step rfl (by simp) hs]
    exact .same

end SchedulerRun

end NirnProxy
