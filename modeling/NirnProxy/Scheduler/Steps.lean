import NirnProxy.Scheduler.Machine

/-! The steps of a request, one constructor for each thing that `RoundTrip` can do next.  Everything
that is proved about the steps of requests goes through `TripSteps`. -/

universe u

namespace NirnProxy

def TripPc.afterBucketGate (n b : Nat) : GateReturn → TripPc
  | .pending => .acquire n (.gate b)
  | .granted => .acquire n (.recheck b)
  | .refused _ => .acquire n (.deactivate b)

def TripPc.afterValidation (h : Held) : GateReturn → TripPc
  | .pending => .held h .validation
  | .granted => .held { h with validation := true } .validationCheck
  | .refused _ => .held h (.unwind .failed)

def HeldPc.afterPacerGate : GateReturn → HeldPc
  | .pending => .pacer .gate
  | .granted => .pacer .check
  | .refused _ => .unwind .failed

/-- A response with this status makes `observeResponse` lock the credential of `p`. -/
def SchedulerConfig.locks {π : Type u} (cfg : SchedulerConfig π) (p : π) (unauthorized : Bool) :
    Bool :=
  unauthorized && !(cfg.request p).interaction && cfg.kind != .none && !cfg.disable401Lock

namespace SchedulerRun

variable {π : Type u}

def withValidation (s : SchedulerRun π) (g : FifoGate π) : SchedulerRun π :=
  s.onClient fun client => { client with validation := g }

def withPacer (s : SchedulerRun π) (P : Pacer π) : SchedulerRun π :=
  s.onClient fun client => { client with global := P }

def withValidity (v : Validity) (s : SchedulerRun π) : SchedulerRun π :=
  s.onClient fun client => { client with validity := v }

def withGate (s : SchedulerRun π) (b : Nat) (g : FifoGate π) : SchedulerRun π :=
  s.onBucket b fun bucket => { bucket with gate := g }

def withMaps (s : SchedulerRun π) (client : ClientState π) (slots : ResourceBudget) :
    SchedulerRun π :=
  { s with client := client, slots := slots }

variable [DecidableEq π]

/-- `TripSteps cfg p s pc a s' pc'`: at `pc` the request `p` can do `a`, which makes `s'` of the
state, and stands at `pc'` then. -/
inductive TripSteps (cfg : SchedulerConfig π) (p : π) (s : SchedulerRun π) :
    TripPc → TripAction → SchedulerRun π → TripPc → Prop
  -- `begin`, and what comes before `acquireBucket`
  | begin : s.tableMu = .free →
      TripSteps cfg p s .idle .go ({ s with tableMu := .begin p }.onClient (.addActive 1))
        .beginTouch
  | beginTouch :
      TripSteps cfg p s .beginTouch .go ({ s with tableMu := .free }.onClient (.touch s.now))
        .started
  | arrive :
      TripSteps cfg p s .started (.oracle true)
        { s with deadline := Function.update s.deadline p (s.now + cfg.queueTimeout) }
        (.acquire 0 .lookup)
  | unavailable : TripSteps cfg p s .started (.oracle false) s (.returned .failed)
  -- `acquireBucket`
  | lookup {n b} : s.readable = true →
      s.client.table.resolve (cfg.request p).routeHash = some b →
      TripSteps cfg p s (.acquire n .lookup) .go s (.acquire n (.activate b))
  | lookupMiss {n} : s.readable = true →
      s.client.table.resolve (cfg.request p).routeHash = none →
      TripSteps cfg p s (.acquire n .lookup) .go s (.acquire n .lookupSlow)
  | create {n client slots b} : s.writable = true →
      s.client.bucketSlow s.now (cfg.request p).routeHash s.slots = some (client, slots, b) →
      TripSteps cfg p s (.acquire n .lookupSlow) .go (s.withMaps client slots)
        (.acquire n (.activate b))
  | createFull {n} : s.writable = true →
      s.client.bucketSlow s.now (cfg.request p).routeHash s.slots = none →
      TripSteps cfg p s (.acquire n .lookupSlow) .go s (.returned .failed)
  | activate {n b} :
      TripSteps cfg p s (.acquire n (.activate b)) .go (s.onBucket b (.addActive 1))
        (.acquire n (.touch b))
  | touch {n b} :
      TripSteps cfg p s (.acquire n (.touch b)) .go (s.onBucket b (.touch s.now))
        (.acquire n (.gate b))
  | bucketGate {n b a g r} : (s.client.bucketAt b).gate.step (s.done p) p a = some (g, r) →
      TripSteps cfg p s (.acquire n (.gate b)) (.gate a) (s.withGate b g)
        (.afterBucketGate n b r)
  | deactivate {n b} :
      TripSteps cfg p s (.acquire n (.deactivate b)) .go (s.onBucket b (.addActive (-1)))
        (.returned .failed)
  | recheck {n b target} : s.readable = true →
      s.client.table.resolve (cfg.request p).routeHash = some target →
      TripSteps cfg p s (.acquire n (.recheck b)) .go s (rechecked n b target)
  | recheckMiss {n b} : s.readable = true →
      s.client.table.resolve (cfg.request p).routeHash = none →
      TripSteps cfg p s (.acquire n (.recheck b)) .go s (.acquire n (.recheckSlow b))
  | recheckCreate {n b client slots target} : s.writable = true →
      s.client.bucketSlow s.now (cfg.request p).routeHash s.slots = some (client, slots, target) →
      TripSteps cfg p s (.acquire n (.recheckSlow b)) .go (s.withMaps client slots)
        (rechecked n b target)
  | recheckFull {n b} : s.writable = true →
      s.client.bucketSlow s.now (cfg.request p).routeHash s.slots = none →
      TripSteps cfg p s (.acquire n (.recheckSlow b)) .go s (.release b .touch (.finish .failed))
  -- the validation of the credential
  | ask {h} : (cfg.request p).interaction = false → s.client.validity = .unknown →
      TripSteps cfg p s (.held h .validity) .go s (.held h .validation)
  | skip {h} : ((cfg.request p).interaction = false → s.client.validity ≠ .unknown) →
      TripSteps cfg p s (.held h .validity) .go s (.held h .invalid)
  | validation {h a g r} : s.client.validation.step (s.done p) p a = some (g, r) →
      TripSteps cfg p s (.held h .validation) (.gate a) (s.withValidation g) (.afterValidation h r)
  | superseded {h} : s.client.validity ≠ .unknown →
      TripSteps cfg p s (.held h .validationCheck) .go s (.held h .validationRelease)
  | confirmed {h} : s.client.validity = .unknown →
      TripSteps cfg p s (.held h .validationCheck) .go s (.held h .invalid)
  | validationRelease {h g r} : s.client.validation.step (s.done p) p .release = some (g, r) →
      TripSteps cfg p s (.held h .validationRelease) .go (s.withValidation g)
        (.held { h with validation := false } .invalid)
  | unauthorized {h} : s.client.validity = .invalid →
      TripSteps cfg p s (.held h .invalid) .go s (.held h (.unwind .unauthorized))
  | authorized {h} : s.client.validity ≠ .invalid →
      TripSteps cfg p s (.held h .invalid) .go s (.held h .replay)
  | replay {h} : TripSteps cfg p s (.held h .replay) (.oracle true) s (.held h .knownBucket)
  | replayFailed {h} :
      TripSteps cfg p s (.held h .replay) (.oracle false) s (.held h (.unwind .failed))
  -- `knownRateLimit` before and after `wait`
  | knownBucket {h} :
      TripSteps cfg p s (.held h .knownBucket) .go s
        (.held h (.knownGlobal s.now ((s.client.bucketAt h.bucket).retryAfter s.now)))
  | refuse {h now bucketDelay delay global} :
      s.knownRateLimit cfg p now bucketDelay = (delay, global) →
      s.exceedsDeadline cfg p delay = true →
      TripSteps cfg p s (.held h (.knownGlobal now bucketDelay)) .go s
        (.held h (.unwind (.remembered delay global)))
  | proceed {h now bucketDelay} :
      s.exceedsDeadline cfg p (s.knownRateLimit cfg p now bucketDelay).1 = false →
      TripSteps cfg p s (.held h (.knownGlobal now bucketDelay)) .go s (.held h .wait)
  | reread {h delay} :
      TripSteps cfg p s (.held h (.rememberBucket delay)) .go s
        (.held h (.rememberGlobal delay s.now ((s.client.bucketAt h.bucket).retryAfter s.now)))
  | current {h delay now bucketDelay d global} :
      s.knownRateLimit cfg p now bucketDelay = (d, global) → 0 < d →
      TripSteps cfg p s (.held h (.rememberGlobal delay now bucketDelay)) .go s
        (.held h (.unwind (.remembered d global)))
  | expired {h delay now bucketDelay} : ¬0 < (s.knownRateLimit cfg p now bucketDelay).1 →
      TripSteps cfg p s (.held h (.rememberGlobal delay now bucketDelay)) .go s
        (.held h (.unwind (.remembered delay false)))
  -- `bucketState.wait`
  | waitDone {h} : s.done p = true →
      TripSteps cfg p s (.held h .wait) .go s (.held h (.unwind .failed))
  | waitOpen {h} : s.done p = false →
      TripSteps cfg p s (.held h .wait) .go s (.held h .waitRead)
  | waitRead {h} :
      TripSteps cfg p s (.held h .waitRead) .go s
        (.held h (.waitTest (s.client.bucketAt h.bucket).readyAt (s.client.bucketAt h.bucket).wake))
  | waitClear {h readyAt wake} : readyAt ≤ s.now → (cfg.request p).interaction = true →
      TripSteps cfg p s (.held h (.waitTest readyAt wake)) .go s (.held h .body)
  | waitQueue {h readyAt wake} : readyAt ≤ s.now → (cfg.request p).interaction = false →
      TripSteps cfg p s (.held h (.waitTest readyAt wake)) .go s (.held h (.pacer .gate))
  | waitLate {h readyAt wake} : s.now < readyAt →
      s.exceedsDeadline cfg p (readyAt - s.now) = true →
      TripSteps cfg p s (.held h (.waitTest readyAt wake)) .go s
        (.held h (.rememberBucket (readyAt - s.now)))
  | waitSleep {h readyAt wake} : s.now < readyAt →
      s.exceedsDeadline cfg p (readyAt - s.now) = false →
      TripSteps cfg p s (.held h (.waitTest readyAt wake)) .go s (.held h (.waitSleep readyAt wake))
  | waitTimer {h readyAt wake} : readyAt ≤ s.now →
      TripSteps cfg p s (.held h (.waitSleep readyAt wake)) .timer s (.held h .wait)
  | waitWoken {h readyAt wake} : wake < (s.client.bucketAt h.bucket).wake →
      TripSteps cfg p s (.held h (.waitSleep readyAt wake)) .woken s (.held h .wait)
  | waitCancelled {h readyAt wake} : s.done p = true →
      TripSteps cfg p s (.held h (.waitSleep readyAt wake)) .done s (.held h (.unwind .failed))
  -- `pacer.waitFor`
  | pacerGate {h a g r} : s.client.global.gate.step (s.done p) p a = some (g, r) →
      TripSteps cfg p s (.held h (.pacer .gate)) (.pacer (.gate a))
        (s.withPacer { s.client.global with gate := g }) (.held h (.afterPacerGate r))
  | pacerDone {h} : s.done p = true →
      TripSteps cfg p s (.held h (.pacer .check)) (.pacer .check) s
        (.held h (.pacer (.unlock (.failed .context))))
  | pacerOpen {h} : s.done p = false →
      TripSteps cfg p s (.held h (.pacer .check)) (.pacer .check) s (.held h (.pacer .lock))
  | pacerTurn {h} : s.client.global.readyAt ≤ s.now →
      TripSteps cfg p s (.held h (.pacer .lock)) (.pacer .lock)
        ((s.withPacer { s.client.global with next := s.now + s.client.global.interval }).log
          (.grant p (s.client.bucketAt h.bucket).readyAt s.now))
        (.held h (.pacer (.unlock .granted)))
  | pacerEarly {h} : s.now < s.client.global.readyAt →
      TripSteps cfg p s (.held h (.pacer .lock)) (.pacer .lock) s
        (.held h (.pacer (.test s.client.global.readyAt (s.client.global.blockedUntil - s.now)
          s.client.global.wake)))
  | pacerLate {h readyAt blockedDelay wake} : 0 < blockedDelay →
      s.deadline p - s.now ≤ blockedDelay + cfg.upstreamTimeout →
      TripSteps cfg p s (.held h (.pacer (.test readyAt blockedDelay wake))) (.pacer .test) s
        (.held h (.pacer (.unlock (.delayed blockedDelay))))
  | pacerSleep {h readyAt blockedDelay wake} :
      ¬(0 < blockedDelay ∧ s.deadline p - s.now ≤ blockedDelay + cfg.upstreamTimeout) →
      TripSteps cfg p s (.held h (.pacer (.test readyAt blockedDelay wake))) (.pacer .test) s
        (.held h (.pacer (.sleep readyAt wake)))
  | pacerTimer {h readyAt wake} : readyAt ≤ s.now →
      TripSteps cfg p s (.held h (.pacer (.sleep readyAt wake))) (.pacer .timer) s
        (.held h (.pacer .check))
  | pacerWoken {h readyAt wake} : wake < s.client.global.wake →
      TripSteps cfg p s (.held h (.pacer (.sleep readyAt wake))) (.pacer .woken) s
        (.held h (.pacer .check))
  | pacerCancelled {h readyAt wake} : s.done p = true →
      TripSteps cfg p s (.held h (.pacer (.sleep readyAt wake))) (.pacer .done) s
        (.held h (.pacer (.unlock (.failed .context))))
  | pacerUnlock {h ret g r} : s.client.global.gate.step (s.done p) p .release = some (g, r) →
      TripSteps cfg p s (.held h (.pacer (.unlock ret))) (.pacer (.gate .release))
        (s.withPacer { s.client.global with gate := g }) (.held h (afterWaitFor (.returned ret)))
  -- the attempt
  | body {h} : TripSteps cfg p s (.held h .body) (.oracle true) s (.held h .reserve)
  | bodyFailed {h} :
      TripSteps cfg p s (.held h .body) (.oracle false) s (.held h (.unwind .failed))
  | reserve {h} : TripSteps cfg p s (.held h .reserve) (.oracle true) s (.held h .dispatch)
  | reserveFailed {h} :
      TripSteps cfg p s (.held h .reserve) (.oracle false) s (.held h (.unwind .failed))
  | dispatch {h} :
      TripSteps cfg p s (.held h .dispatch) .go
        (s.log (.dispatch p (cfg.request p).routeHash s.now)) (.held h .inFlight)
  | lost {h} : TripSteps cfg p s (.held h .inFlight) (.respond none) s (.held h (.unwind .failed))
  | respond {h r} :
      TripSteps cfg p s (.held h .inFlight) (.respond (some r)) s (.held h (.observe r))
  -- `observeResponse`
  | lock {h r} : cfg.locks p r.unauthorized = true →
      TripSteps cfg p s (.held h (.observe r)) .go (s.withValidity .invalid)
        (.held h (.blockGlobal r))
  | observe {h r} : cfg.locks p r.unauthorized = false →
      TripSteps cfg p s (.held h (.observe r)) .go s (.held h (.blockGlobal r))
  | blockGlobal {h r delay} : r.globalDelay = some delay →
      TripSteps cfg p s (.held h (.blockGlobal r)) .go
        (s.withPacer (s.client.global.blockFor s.now delay)) (.held h (.blockTime r))
  | spareGlobal {h r} : r.globalDelay = none →
      TripSteps cfg p s (.held h (.blockGlobal r)) .go s (.held h (.blockTime r))
  | blockTime {h r delay} : r.bucketDelay (cfg.request p).interaction = some delay →
      TripSteps cfg p s (.held h (.blockTime r)) .go s (.held h (.blockBucket r (s.now + delay)))
  | spareBucket {h r} : r.bucketDelay (cfg.request p).interaction = none →
      TripSteps cfg p s (.held h (.blockTime r)) .go s (.held h (.learn r))
  | blockBucket {h r readyAt} :
      TripSteps cfg p s (.held h (.blockBucket r readyAt)) .go
        ((s.onBucket h.bucket (·.blockUntil readyAt)).log
          (.block (cfg.request p).routeHash readyAt)) (.held h (.learn r))
  | unnamed {h r} : r.info.bucket = [] →
      TripSteps cfg p s (.held h (.learn r)) .go s (.learned h h.bucket (.validationStore r))
  | learn {h r client slots target} : r.info.bucket ≠ [] → s.writable = true →
      s.client.learnBucket (cfg.request p).routeHash
        (canonicalHash r.info.bucket (cfg.request p).majorKey) h.bucket s.slots =
          (client, slots, target) →
      TripSteps cfg p s (.held h (.learn r)) .go (s.withMaps client slots)
        (.learned h target (.validationStore r))
  -- the validity, and whether to retry
  | store {h observed r} : h.validation = true →
      TripSteps cfg p s (.learned h observed (.validationStore r)) .go
        (s.withValidity (if r.unauthorized && !cfg.disable401Lock then .invalid else .valid))
        (.learned h observed (.validationRelease r))
  | unstored {h observed r} : h.validation = false →
      TripSteps cfg p s (.learned h observed (.validationStore r)) .go s
        (.learned h observed (.status r))
  | stored {h observed r g x} : s.client.validation.step (s.done p) p .release = some (g, x) →
      TripSteps cfg p s (.learned h observed (.validationRelease r)) .go (s.withValidation g)
        (.learned { h with validation := false } observed (.status r))
  | limited {h observed r} : r.tooManyRequests = true →
      TripSteps cfg p s (.learned h observed (.status r)) .go s (.learned h observed (.prepare r))
  | answer {h observed r} : r.tooManyRequests = false →
      TripSteps cfg p s (.learned h observed (.status r)) .go s
        (.release h.bucket .touch (.finish (.response r)))
  | prepareFailed {h observed r} :
      TripSteps cfg p s (.learned h observed (.prepare r)) (.prepare none) s
        (.release h.bucket .touch (.finish .failed))
  | unprepared {h observed r} :
      TripSteps cfg p s (.learned h observed (.prepare r)) (.prepare (some false)) s
        (.release h.bucket .touch (.finish (.response r)))
  | prepared {h observed r} :
      TripSteps cfg p s (.learned h observed (.prepare r)) (.prepare (some true)) s
        (.learned h observed (.knownBucket r))
  | knownAfter {h observed r} :
      TripSteps cfg p s (.learned h observed (.knownBucket r)) .go s
        (.learned h observed
          (.knownGlobal r s.now ((s.client.bucketAt observed).retryAfter s.now)))
  | giveUp {h observed r now bucketDelay} :
      s.exceedsDeadline cfg p (s.knownRateLimit cfg p now bucketDelay).1 = true →
      TripSteps cfg p s (.learned h observed (.knownGlobal r now bucketDelay)) .go s
        (.release h.bucket .touch (.finish (.response r)))
  | retry {h observed r now bucketDelay} :
      s.exceedsDeadline cfg p (s.knownRateLimit cfg p now bucketDelay).1 = false →
      TripSteps cfg p s (.learned h observed (.knownGlobal r now bucketDelay)) .go s
        (.release h.bucket .touch (.retry (h.attempt + 1)))
  -- the deferred calls, `bucketState.release` and `end`
  | unwindValidation {h res g r} : h.validation = true →
      s.client.validation.step (s.done p) p .release = some (g, r) →
      TripSteps cfg p s (.held h (.unwind res)) .go (s.withValidation g)
        (.held { h with validation := false } (.unwind res))
  | unwind {h res} : h.validation = false →
      TripSteps cfg p s (.held h (.unwind res)) .go s (.release h.bucket .touch (.finish res))
  | releaseTouch {b k} :
      TripSteps cfg p s (.release b .touch k) .go (s.onBucket b (.touch s.now))
        (.release b .active k)
  | releaseActive {b k} :
      TripSteps cfg p s (.release b .active k) .go (s.onBucket b (.addActive (-1)))
        (.release b .gate k)
  | releaseGate {b k g r} : (s.client.bucketAt b).gate.step (s.done p) p .release = some (g, r) →
      TripSteps cfg p s (.release b .gate k) .go (s.withGate b g) k.next
  | endActive {res} :
      TripSteps cfg p s (.returned res) .go (s.onClient (.addActive (-1))) (.endTouch s.generation)
  | endTouch :
      TripSteps cfg p s (.endTouch s.generation) .go (s.onClient (.touch s.now)) .ended
  | endEvicted {generation} : generation ≠ s.generation →
      TripSteps cfg p s (.endTouch generation) .go s .ended

def Trips (cfg : SchedulerConfig π) (p : π) (s : SchedulerRun π) (pc : TripPc) (a : TripAction)
    (t : SchedulerRun π) : Prop :=
  ∃ s' pc', TripSteps cfg p s pc a s' pc' ∧ t = s'.goto p pc'

theorem goto_pc_self (s : SchedulerRun π) (p : π) (pc : TripPc) : (s.goto p pc).pc p = pc := by
  simp [goto]

variable {cfg : SchedulerConfig π} {s t s' : SchedulerRun π} {p : π} {h : Held} {a : TripAction}
  {pc' : TripPc}

theorem TripSteps.pc_eq {pc : TripPc} (hs : TripSteps cfg p s pc a s' pc') : s'.pc = s.pc := by
  cases hs <;> rfl

theorem TripSteps.now_eq {pc : TripPc} (hs : TripSteps cfg p s pc a s' pc') : s'.now = s.now := by
  cases hs <;> rfl

theorem TripSteps.trips {pc : TripPc} (hs : TripSteps cfg p s pc a s' pc') :
    Trips cfg p s pc a (s'.goto p pc') := ⟨s', pc', hs, rfl⟩

theorem acquire_trips {n : Nat} {pc : AcquirePc} (hs : s.acquireStep cfg p n pc a = some t) :
    Trips cfg p s (.acquire n pc) a t := by
  unfold acquireStep at hs
  split at hs
  -- `lookup` and `lookupSlow`
  · obtain ⟨hr, hs⟩ := Option.ite_none_right_eq_some.mp hs
    split at hs <;> cases hs
    · exact (TripSteps.lookup hr ‹_›).trips
    · exact (TripSteps.lookupMiss hr ‹_›).trips
  · obtain ⟨hw, hs⟩ := Option.ite_none_right_eq_some.mp hs
    split at hs <;> cases hs
    · exact (TripSteps.create hw ‹_›).trips
    · exact (TripSteps.createFull hw ‹_›).trips
  · cases hs
    exact TripSteps.activate.trips
  · cases hs
    exact TripSteps.touch.trips
  · obtain ⟨⟨g, r⟩, hg, rfl⟩ := Option.map_eq_some_iff.mp hs
    cases r <;> exact (TripSteps.bucketGate hg).trips
  · cases hs
    exact TripSteps.deactivate.trips
  -- `recheck` and `recheckSlow`
  · obtain ⟨hr, hs⟩ := Option.ite_none_right_eq_some.mp hs
    split at hs <;> cases hs
    · exact (TripSteps.recheck hr ‹_›).trips
    · exact (TripSteps.recheckMiss hr ‹_›).trips
  · obtain ⟨hw, hs⟩ := Option.ite_none_right_eq_some.mp hs
    split at hs <;> cases hs
    · exact (TripSteps.recheckCreate hw ‹_›).trips
    · exact (TripSteps.recheckFull hw ‹_›).trips
  · cases hs

theorem pacer_trips {pc : WaitForPc} {x : WaitForStep}
    (hs : s.pacerStep cfg p h pc x = some t) :
    Trips cfg p s (.held h (.pacer pc)) (.pacer x) t := by
  obtain ⟨⟨P, pc'⟩, hw, rfl⟩ := Option.map_eq_some_iff.mp hs
  unfold Pacer.waitFor at hw
  split at hw
  · obtain ⟨⟨g, r⟩, hg, hw⟩ := Option.map_eq_some_iff.mp hw
    cases hw
    cases r <;> exact (TripSteps.pacerGate hg).trips
  · cases hw
    cases hd : s.done p with
    | true =>
      simp only [context, hd]
      exact (TripSteps.pacerDone hd).trips
    | false =>
      simp only [context, hd]
      exact (TripSteps.pacerOpen hd).trips
  · split at hw <;> cases hw
    · exact (TripSteps.pacerTurn ‹_›).trips
    · exact (TripSteps.pacerEarly (not_le.mp ‹_›)).trips
  · split at hw <;> rename_i hd <;> cases hw
    · obtain ⟨hpos, d, hd, hle⟩ := hd
      cases hd
      exact (TripSteps.pacerLate hpos hle).trips
    · refine (TripSteps.pacerSleep fun hlate => hd ⟨hlate.1, _, rfl, hlate.2⟩).trips
  · split at hw <;> cases hw
    exact (TripSteps.pacerTimer ‹_›).trips
  · split at hw <;> cases hw
    exact (TripSteps.pacerWoken ‹_›).trips
  · split at hw <;> cases hw
    exact (TripSteps.pacerCancelled ‹_›).trips
  · obtain ⟨⟨g, r⟩, hg, hw⟩ := Option.map_eq_some_iff.mp hw
    cases hw
    exact (TripSteps.pacerUnlock hg).trips
  · cases hw

theorem wait_trips {pc : HeldPc} (hs : s.waitStep cfg p h pc a = some t) :
    Trips cfg p s (.held h pc) a t := by
  unfold waitStep at hs
  split at hs
  · cases hs
    split
    · exact (TripSteps.waitDone ‹_›).trips
    · exact (TripSteps.waitOpen (Bool.eq_false_iff.mpr ‹_›)).trips
  · cases hs
    exact TripSteps.waitRead.trips
  · cases hs
    split
    · rename_i hready
      have hready := Int.le_of_sub_nonpos hready
      split
      · exact (TripSteps.waitClear hready ‹_›).trips
      · exact (TripSteps.waitQueue hready (Bool.eq_false_iff.mpr ‹_›)).trips
    · rename_i hearly
      have hearly := Int.lt_of_sub_pos (not_le.mp hearly)
      split
      · exact (TripSteps.waitLate hearly ‹_›).trips
      · exact (TripSteps.waitSleep hearly (Bool.eq_false_iff.mpr ‹_›)).trips
  · obtain ⟨hready, hs⟩ := Option.ite_none_right_eq_some.mp hs
    cases hs
    exact (TripSteps.waitTimer hready).trips
  · obtain ⟨hwoken, hs⟩ := Option.ite_none_right_eq_some.mp hs
    cases hs
    exact (TripSteps.waitWoken hwoken).trips
  · obtain ⟨hdone, hs⟩ := Option.ite_none_right_eq_some.mp hs
    cases hs
    exact (TripSteps.waitCancelled hdone).trips
  · cases hs

theorem learn_trips {r : Response} (hs : s.learnStep cfg p h r = some t) :
    Trips cfg p s (.held h (.learn r)) .go t := by
  unfold learnStep at hs
  split at hs
  · cases hs
    exact (TripSteps.unnamed ‹_›).trips
  · obtain ⟨hw, hs⟩ := Option.ite_none_right_eq_some.mp hs
    simp only at hs
    generalize hl : s.client.learnBucket _ _ _ _ = learned at hs
    obtain ⟨client, slots, target⟩ := learned
    cases hs
    exact (TripSteps.learn ‹_› hw hl).trips

theorem held_trips {pc : HeldPc} (hs : s.heldStep cfg p h pc a = some t) :
    Trips cfg p s (.held h pc) a t := by
  unfold heldStep at hs
  split at hs
  -- `validity` and `validation`
  · cases hs
    split
    · rename_i hask
      obtain ⟨hi, hv⟩ := Bool.and_eq_true_iff.mp hask
      exact (TripSteps.ask (by simpa using hi) (by simpa using hv)).trips
    · rename_i hask
      exact (TripSteps.skip fun hi hv => hask (by simp [hi, hv])).trips
  · obtain ⟨⟨g, r⟩, hg, rfl⟩ := Option.map_eq_some_iff.mp hs
    cases r <;> exact (TripSteps.validation hg).trips
  · cases hs
    split
    · exact (TripSteps.superseded ‹_›).trips
    · exact (TripSteps.confirmed (not_not.mp ‹_›)).trips
  · obtain ⟨⟨g, r⟩, hg, rfl⟩ := Option.map_eq_some_iff.mp hs
    exact (TripSteps.validationRelease hg).trips
  -- `invalid` and `replay`
  · cases hs
    split
    · exact (TripSteps.unauthorized ‹_›).trips
    · exact (TripSteps.authorized ‹_›).trips
  · cases hs
    split
    · rename_i hok
      cases hok
      exact TripSteps.replay.trips
    · rename_i hok
      cases Bool.eq_false_iff.mpr hok
      exact TripSteps.replayFailed.trips
  -- `knownRateLimit` before and after `wait`
  · cases hs
    exact TripSteps.knownBucket.trips
  · rename_i now bucketDelay
    generalize hk : s.knownRateLimit cfg p now bucketDelay = known at hs
    cases hs
    split
    · exact (TripSteps.refuse hk ‹_›).trips
    · exact (TripSteps.proceed (by rw [hk]; exact Bool.eq_false_iff.mpr ‹_›)).trips
  · cases hs
    exact TripSteps.reread.trips
  · rename_i delay now bucketDelay
    generalize hk : s.knownRateLimit cfg p now bucketDelay = known at hs
    cases hs
    split
    · exact (TripSteps.current hk ‹_›).trips
    · exact (TripSteps.expired (by rw [hk]; exact ‹_›)).trips
  · exact pacer_trips hs
  -- `body`, `reserve` and `dispatch`
  · cases hs
    split
    · rename_i hok
      cases hok
      exact TripSteps.body.trips
    · rename_i hok
      cases Bool.eq_false_iff.mpr hok
      exact TripSteps.bodyFailed.trips
  · cases hs
    split
    · rename_i hok
      cases hok
      exact TripSteps.reserve.trips
    · rename_i hok
      cases Bool.eq_false_iff.mpr hok
      exact TripSteps.reserveFailed.trips
  · cases hs
    exact TripSteps.dispatch.trips
  · cases hs
    exact TripSteps.lost.trips
  · cases hs
    exact TripSteps.respond.trips
  -- `observeResponse`
  · rename_i r
    cases hs
    cases hlock : cfg.locks p r.unauthorized with
    | true =>
      refine ⟨_, _, .lock hlock, ?_⟩
      unfold SchedulerConfig.locks at hlock
      simp only [hlock, if_true]
      rfl
    | false =>
      refine ⟨_, _, .observe hlock, ?_⟩
      unfold SchedulerConfig.locks at hlock
      simp only [hlock, Bool.false_eq_true, if_false]
      rfl
  · rename_i r
    cases hs
    cases hd : r.globalDelay with
    | some delay => exact (TripSteps.blockGlobal hd).trips
    | none => exact (TripSteps.spareGlobal hd).trips
  · cases hs
    split
    · exact (TripSteps.blockTime ‹_›).trips
    · exact (TripSteps.spareBucket ‹_›).trips
  · cases hs
    exact TripSteps.blockBucket.trips
  · exact learn_trips hs
  -- `unwind`
  · split at hs
    · obtain ⟨⟨g, r⟩, hg, rfl⟩ := Option.map_eq_some_iff.mp hs
      exact (TripSteps.unwindValidation ‹_› hg).trips
    · cases hs
      exact (TripSteps.unwind (Bool.eq_false_iff.mpr ‹_›)).trips
  · exact wait_trips hs

theorem learned_trips {observed : Nat} {pc : LearnedPc}
    (hs : s.learnedStep cfg p h observed pc a = some t) :
    Trips cfg p s (.learned h observed pc) a t := by
  unfold learnedStep at hs
  split at hs
  · split at hs <;> cases hs
    · exact (TripSteps.store ‹_›).trips
    · exact (TripSteps.unstored (Bool.eq_false_iff.mpr ‹_›)).trips
  · obtain ⟨⟨g, r⟩, hg, rfl⟩ := Option.map_eq_some_iff.mp hs
    exact (TripSteps.stored hg).trips
  · cases hs
    split
    · exact (TripSteps.limited ‹_›).trips
    · exact (TripSteps.answer (Bool.eq_false_iff.mpr ‹_›)).trips
  · cases hs
    split
    · exact TripSteps.prepareFailed.trips
    · exact TripSteps.unprepared.trips
    · exact TripSteps.prepared.trips
  · cases hs
    exact TripSteps.knownAfter.trips
  · rename_i r now bucketDelay
    generalize hk : s.knownRateLimit cfg p now bucketDelay = known at hs
    cases hs
    split
    · exact (TripSteps.giveUp (by rw [hk]; exact ‹_›)).trips
    · exact (TripSteps.retry (by rw [hk]; exact Bool.eq_false_iff.mpr ‹_›)).trips
  · cases hs

theorem release_trips {b : Nat} {pc : ReleasePc} {k : AfterRelease}
    (hs : s.releaseStep p b k pc = some t) : Trips cfg p s (.release b pc k) .go t := by
  cases pc with
  | touch =>
    cases hs
    exact TripSteps.releaseTouch.trips
  | active =>
    cases hs
    exact TripSteps.releaseActive.trips
  | gate =>
    obtain ⟨⟨g, r⟩, hg, rfl⟩ := Option.map_eq_some_iff.mp hs
    exact (TripSteps.releaseGate hg).trips

theorem tripStep_trips (hs : s.tripStep cfg p a = some t) : Trips cfg p s (s.pc p) a t := by
  unfold tripStep at hs
  generalize s.pc p = pc at hs ⊢
  split at hs
  · split at hs <;> cases hs
    exact (TripSteps.begin ‹_›).trips
  · cases hs
    exact TripSteps.beginTouch.trips
  · split at hs <;> rename_i hok <;> cases hs
    · cases hok
      exact TripSteps.arrive.trips
    · cases Bool.eq_false_iff.mpr hok
      exact TripSteps.unavailable.trips
  · exact acquire_trips hs
  · exact held_trips hs
  · exact learned_trips hs
  · exact release_trips hs
  · cases hs
    exact TripSteps.endActive.trips
  · cases hs
    split
    · rename_i hg
      cases hg
      exact TripSteps.endTouch.trips
    · exact (TripSteps.endEvicted ‹_›).trips
  · cases hs

theorem TripSteps.tripStep_eq {pc : TripPc} (hm : TripSteps cfg p s pc a s' pc')
    (hp : s.pc p = pc) : s.tripStep cfg p a = some (s'.goto p pc') := by
  unfold tripStep
  rw [hp]
  cases hm with
  | begin hmu => simp only [hmu]
  -- `acquireBucket`
  | lookup hr hb | lookupMiss hr hb | recheck hr hb | recheckMiss hr hb =>
    simp only [acquireStep, hr, hb, if_true]
  | create hw hb | recheckCreate hw hb =>
    simp only [acquireStep, hw, hb, if_true]
    rfl
  | createFull hw hb | recheckFull hw hb => simp only [acquireStep, hw, hb, if_true]
  | @bucketGate _ _ _ _ r hg =>
    simp only [acquireStep, hg]
    cases r <;> rfl
  -- the validation of the credential
  | ask hi hv => simp [heldStep, hi, hv]
  | @skip h hskip =>
    cases hi : (cfg.request p).interaction with
    | true => simp [heldStep, hi]
    | false => simp [heldStep, hskip hi]
  | @validation _ _ _ r hg =>
    simp only [heldStep, validationStep, hg]
    cases r <;> rfl
  | superseded hv | confirmed hv | unauthorized hv | authorized hv => simp [heldStep, hv]
  | validationRelease hg =>
    simp only [heldStep, validationStep, hg]
    rfl
  -- `knownRateLimit` before and after `wait`
  | refuse hk hx => simp [heldStep, hk, hx]
  | proceed hx => simp [heldStep, hx]
  | current hk hpos => simp [heldStep, hk, hpos]
  | expired hx => simp [heldStep, hx]
  -- `bucketState.wait`
  | waitDone hd | waitOpen hd | waitCancelled hd => simp [heldStep, waitStep, hd]
  | waitClear hle hi | waitQueue hle hi => simp [heldStep, waitStep, hle, hi]
  | waitLate hlt hx | waitSleep hlt hx => simp [heldStep, waitStep, not_le.mpr hlt, hx]
  | waitTimer hle => simp [heldStep, waitStep, hle]
  | waitWoken hlt => simp [heldStep, waitStep, hlt]
  -- `pacer.waitFor`
  | @pacerGate _ _ _ r hg =>
    simp only [heldStep, pacerStep, Pacer.waitFor, context, hg]
    cases r <;> rfl
  | pacerDone hd | pacerOpen hd =>
    simp only [heldStep, pacerStep, Pacer.waitFor, context, hd]
    rfl
  | pacerTurn hle =>
    simp only [heldStep, pacerStep, Pacer.waitFor, hle, if_true]
    rfl
  | pacerEarly hlt =>
    simp only [heldStep, pacerStep, Pacer.waitFor, not_le.mpr hlt, if_false]
    rfl
  | pacerLate hpos hlate =>
    have hlate' : ∃ d ∈ some (s.deadline p), d - s.now ≤ _ := ⟨_, rfl, hlate⟩
    simp only [heldStep, pacerStep, Pacer.waitFor, context, hpos, hlate', and_self, if_true]
    rfl
  | @pacerSleep _ _ blockedDelay _ hearly =>
    have hearly' : ¬(0 < blockedDelay ∧ ∃ d ∈ some (s.deadline p),
        d - s.now ≤ blockedDelay + cfg.upstreamTimeout) := by simpa using hearly
    simp only [heldStep, pacerStep, Pacer.waitFor, context, hearly', if_false]
    rfl
  | pacerTimer hle =>
    simp only [heldStep, pacerStep, Pacer.waitFor, hle, if_true]
    rfl
  | pacerWoken hlt =>
    simp only [heldStep, pacerStep, Pacer.waitFor, hlt, if_true]
    rfl
  | pacerCancelled hd =>
    simp only [heldStep, pacerStep, Pacer.waitFor, context, hd, if_true]
    rfl
  | pacerUnlock hg =>
    simp only [heldStep, pacerStep, Pacer.waitFor, context, hg]
    rfl
  -- `observeResponse`
  | lock hlock | observe hlock =>
    unfold SchedulerConfig.locks at hlock
    simp only [heldStep, hlock]
    rfl
  | blockGlobal hd | spareGlobal hd =>
    simp only [heldStep, hd]
    rfl
  | blockTime hd | spareBucket hd => simp [heldStep, hd]
  | unnamed hb => simp [heldStep, learnStep, hb]
  | learn hb hw hl =>
    simp only [heldStep, learnStep, hb, hw, hl, if_true, if_false]
    rfl
  -- with the response read, and the deferred calls
  | store hown =>
    simp only [learnedStep, hown, if_true]
    rfl
  | unstored hown => simp [learnedStep, hown]
  | stored hg =>
    simp only [learnedStep, validationStep, hg]
    rfl
  | limited hr | answer hr => simp [learnedStep, hr]
  | giveUp hx | retry hx => simp [learnedStep, hx]
  | unwindValidation hown hg =>
    simp only [heldStep, hown, if_true, validationStep, hg]
    rfl
  | unwind hown => simp [heldStep, hown]
  | releaseGate hg =>
    simp only [releaseStep, hg]
    rfl
  | endTouch => simp
  | endEvicted hne => simp [hne]
  | _ => rfl
end SchedulerRun

end NirnProxy
