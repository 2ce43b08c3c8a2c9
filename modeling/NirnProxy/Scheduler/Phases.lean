import NirnProxy.Scheduler.Steps

/-! What the requests of one credential do to their buckets, with everything else about them left
out: a request is in a `BucketPhase`, and `Moves` says how phases, buckets and maps can change. -/

universe u

namespace NirnProxy

inductive WaitPhase
  | open
  | reading (readyAt : Int)
  | pacing
  | cleared
  deriving DecidableEq

/-- `aim` is the bucket that will be acquired next. -/
inductive BucketPhase
  | out
  | begun
  | live (aim : Option Nat)
  | active (b : Nat)
  | queued (b : Nat)
  | owner (b : Nat)
  | held (b : Nat) (w : WaitPhase)
  | kept (b : Nat) (aim : Option Nat)
  | leaving (b : Nat) (aim : Option Nat)
  | releasing (b : Nat) (aim : Option Nat)
  deriving DecidableEq

def AcquirePc.phase : AcquirePc → BucketPhase
  | .lookup | .lookupSlow => .live none
  | .activate b => .live (some b)
  | .touch b | .deactivate b => .active b
  | .gate b => .queued b
  | .recheck b | .recheckSlow b => .owner b

def HeldPc.waits : HeldPc → WaitPhase
  | .waitTest readyAt _ => .reading readyAt
  | .pacer (.unlock .granted) => .cleared
  | .pacer _ => .pacing
  | .body | .reserve | .dispatch => .cleared
  | _ => .open

def AfterRelease.aim : AfterRelease → Option Nat
  | .move _ target => some target
  | .retry _ | .finish _ => none

def TripPc.phase : TripPc → BucketPhase
  | .idle | .endTouch _ | .ended => .out
  | .beginTouch => .begun
  | .started | .returned _ => .live none
  | .acquire _ pc => pc.phase
  | .held h pc => .held h.bucket pc.waits
  | .learned h _ _ => .kept h.bucket none
  | .release b .touch k => .kept b k.aim
  | .release b .active k => .leaving b k.aim
  | .release b .gate k => .releasing b k.aim

def recheckedPhase (b target : Nat) : BucketPhase :=
  if target = b then .held b .open else .kept b (some target)

def GateReturn.phase (b : Nat) : GateReturn → BucketPhase
  | .pending => .queued b
  | .granted => .owner b
  | .refused _ => .active b

/-- The moves of a request that no other request can notice. -/
inductive BucketPhase.Eases : BucketPhase → BucketPhase → Prop
  | refl (φ) : Eases φ φ
  | drop (b w) : Eases (.held b w) (.held b .open)
  | keep (b) : Eases (.held b .open) (.kept b none)

structure BucketView (π : Type u) where
  now : Int
  table : RouteTable
  bucketAt : Nat → BucketState π
  fresh : Nat
  active : Int
  tableMu : TableMu π
  mu : StateMu
  phase : π → BucketPhase
  events : List (TripEvent π)

def SchedulerAction.mover {π : Type u} : SchedulerAction π → Option π
  | .trip p _ => some p
  | _ => none

namespace BucketView

variable {π : Type u}

def onBucket (b : Nat) (f : BucketState π → BucketState π) (v : BucketView π) : BucketView π :=
  { v with bucketAt := Function.update v.bucketAt b (f (v.bucketAt b)) }

def log (e : TripEvent π) (v : BucketView π) : BucketView π := { v with events := e :: v.events }

def create (routeHash : UInt64) (maxWaiters : Nat) (v : BucketView π) : BucketView π :=
  { v with
    table := v.table.create routeHash v.fresh
    bucketAt := Function.update v.bucketAt v.fresh (.newBucketState maxWaiters v.now)
    fresh := v.fresh + 1 }

def learn (routeHash canonical : UInt64) (current : Nat) (v : BucketView π) : BucketView π :=
  let plan := v.table.plan routeHash canonical current
  { v with
    table := v.table.publish plan
    bucketAt :=
      if plan.target = current then v.bucketAt
      else Function.update v.bucketAt plan.target
        ((v.bucketAt plan.target).merge (v.bucketAt current)) }

inductive SweepMoves (v : BucketView π) : BucketView π → Prop
  | start {now} : v.mu = .free → now ≤ v.now →
      SweepMoves v { v with mu := .sweep now 0 (.next v.table.buckets.keys) }
  | next {now n left hash rest} : v.mu = .sweep now n (.next left) →
      SweepMoves v { v with mu := .sweep now n (.blocked hash rest) }
  | skip {now n pc left} : v.mu = .sweep now n pc →
      SweepMoves v { v with mu := .sweep now n (.next left) }
  | unblocked {now n hash left b} : v.mu = .sweep now n (.blocked hash left) →
      v.table.buckets.lookup hash = some b → (v.bucketAt b).readyAt ≤ now →
      SweepMoves v { v with mu := .sweep now n (.active hash left) }
  | inactive {now n hash left b} : v.mu = .sweep now n (.active hash left) →
      v.table.buckets.lookup hash = some b → (v.bucketAt b).active = 0 →
      SweepMoves v { v with mu := .sweep now n (.lastUsed hash left) }
  | delete {now n hash left b} : v.mu = .sweep now n (.lastUsed hash left) →
      v.table.buckets.lookup hash = some b → clientIdleTimeout < now - (v.bucketAt b).lastUsed →
      SweepMoves v
        { v with table := v.table.eraseBucket hash, mu := .sweep now (n + 1) (.next left) }
  | finish {now n} : v.mu = .sweep now n (.next []) →
      SweepMoves v { v with table := v.table.eraseOrphans, mu := .free }

inductive IdleMoves (v : BucketView π) (now : Int) : IdlePc → IdlePc → Prop
  | global : IdleMoves v now .global .active
  | active : v.active = 0 → IdleMoves v now .active .lastUsed
  | lastUsed : IdleMoves v now .lastUsed .rlock
  | rlock : IdleMoves v now .rlock (.buckets v.table.buckets.keys)
  | buckets {left hash} : IdleMoves v now (.buckets left) (.blocked hash (left.erase hash))
  | blocked {hash left b} : v.table.buckets.lookup hash = some b → (v.bucketAt b).readyAt ≤ now →
      IdleMoves v now (.blocked hash left) (.buckets left)

inductive EvictMoves (v : BucketView π) : BucketView π → Prop
  | start {now} : v.tableMu = .free → now ≤ v.now →
      EvictMoves v { v with tableMu := .idle now .global }
  | read {now pc pc'} : v.tableMu = .idle now pc → IdleMoves v now pc pc' →
      EvictMoves v { v with tableMu := .idle now pc' }
  | choose {now} : v.tableMu = .idle now (.buckets []) →
      EvictMoves v { v with tableMu := .chosen now }
  | refuse {now pc} : v.tableMu = .idle now pc → EvictMoves v { v with tableMu := .free }
  | spare {now} : v.tableMu = .chosen now → EvictMoves v { v with tableMu := .free }
  | clear {now} : v.tableMu = .chosen now → v.mu = .free →
      EvictMoves v { v with table := .empty, active := 0, tableMu := .free }

variable [DecidableEq π]

def goto (p : π) (φ : BucketPhase) (v : BucketView π) : BucketView π :=
  { v with phase := Function.update v.phase p φ }

/-- What one step of the request `p` can do.  `K` restricts the canonical hashes learned. -/
inductive TripMoves (cfg : SchedulerConfig π) (K : BucketView π → π → UInt64 → Prop)
    (v : BucketView π) (p : π) : BucketView π → Prop
  | stay {φ} : (v.phase p).Eases φ → TripMoves cfg K v p (v.goto p φ)
  | begin : v.phase p = .out → v.tableMu = .free →
      TripMoves cfg K v p
        ({ v with tableMu := .begin p, active := v.active + 1 }.goto p .begun)
  | began : v.phase p = .begun →
      TripMoves cfg K v p ({ v with tableMu := .free }.goto p (.live none))
  | finish : v.phase p = .live none →
      TripMoves cfg K v p ({ v with active := v.active + -1 }.goto p .out)
  | aim {b} : v.phase p = .live none → v.mu = .free →
      v.table.resolve (cfg.request p).routeHash = some b →
      TripMoves cfg K v p (v.goto p (.live (some b)))
  | create {n} : v.phase p = .live none → v.mu = .free →
      v.table.resolve (cfg.request p).routeHash = none →
      TripMoves cfg K v p
        ((v.create (cfg.request p).routeHash n).goto p (.live (some v.fresh)))
  | activate {b} : v.phase p = .live (some b) →
      TripMoves cfg K v p ((v.onBucket b (.addActive 1)).goto p (.active b))
  | touch {b} : v.phase p = .active b →
      TripMoves cfg K v p ((v.onBucket b (.touch v.now)).goto p (.queued b))
  | deactivate {b} : v.phase p = .active b →
      TripMoves cfg K v p ((v.onBucket b (.addActive (-1))).goto p (.live none))
  | gate {b done a g r} : v.phase p = .queued b →
      (v.bucketAt b).gate.step done p a = some (g, r) →
      TripMoves cfg K v p
        ((v.onBucket b fun bucket => { bucket with gate := g }).goto p (r.phase b))
  | recheck {b target} : v.phase p = .owner b → v.mu = .free →
      v.table.resolve (cfg.request p).routeHash = some target →
      TripMoves cfg K v p (v.goto p (recheckedPhase b target))
  | recreate {b n} : v.phase p = .owner b → v.mu = .free →
      v.table.resolve (cfg.request p).routeHash = none →
      TripMoves cfg K v p
        ((v.create (cfg.request p).routeHash n).goto p (recheckedPhase b v.fresh))
  | giveUp {b} : v.phase p = .owner b → v.mu = .free →
      TripMoves cfg K v p (v.goto p (.kept b none))
  | read {b} : v.phase p = .held b .open →
      TripMoves cfg K v p (v.goto p (.held b (.reading (v.bucketAt b).readyAt)))
  | pass {b readyAt} : v.phase p = .held b (.reading readyAt) → readyAt ≤ v.now →
      TripMoves cfg K v p
        (v.goto p (.held b (if (cfg.request p).interaction then .cleared else .pacing)))
  | grant {b} : v.phase p = .held b .pacing →
      TripMoves cfg K v p
        ((v.log (.grant p (v.bucketAt b).readyAt v.now)).goto p (.held b .cleared))
  | dispatch {b} : v.phase p = .held b .cleared →
      TripMoves cfg K v p
        ((v.log (.dispatch p (cfg.request p).routeHash v.now)).goto p (.held b .open))
  | block {b t} : v.phase p = .held b .open →
      TripMoves cfg K v p
        (((v.onBucket b (·.blockUntil t)).log (.block (cfg.request p).routeHash t)).goto p
          (.held b .open))
  | learn {b canonical} : v.phase p = .held b .open → v.mu = .free → K v p canonical →
      TripMoves cfg K v p
        ((v.learn (cfg.request p).routeHash canonical b).goto p (.kept b none))
  | leave {b aim} : v.phase p = .kept b aim →
      TripMoves cfg K v p ((v.onBucket b (.touch v.now)).goto p (.leaving b aim))
  | uncount {b aim} : v.phase p = .leaving b aim →
      TripMoves cfg K v p ((v.onBucket b (.addActive (-1))).goto p (.releasing b aim))
  | release {b aim done g r} : v.phase p = .releasing b aim →
      (v.bucketAt b).gate.step done p .release = some (g, r) →
      TripMoves cfg K v p
        ((v.onBucket b fun bucket => { bucket with gate := g }).goto p (.live aim))

inductive Moves (cfg : SchedulerConfig π) (K : BucketView π → π → UInt64 → Prop)
    (v : BucketView π) : Option π → BucketView π → Prop
  | tick (d : Nat) : Moves cfg K v none { v with now := v.now + d }
  | same : Moves cfg K v none v
  | trip {p v'} : TripMoves cfg K v p v' → Moves cfg K v (some p) v'
  | sweep {v'} : SweepMoves v v' → Moves cfg K v none v'
  | evict {v'} : EvictMoves v v' → Moves cfg K v none v'

end BucketView

namespace SchedulerRun

variable {π : Type u}

def view (s : SchedulerRun π) : BucketView π where
  now := s.now
  table := s.client.table
  bucketAt := s.client.bucketAt
  fresh := s.client.fresh
  active := s.client.active
  tableMu := s.tableMu
  mu := s.mu
  phase := fun p => (s.pc p).phase
  events := s.events

theorem mu_of_readable {s : SchedulerRun π} (h : s.readable = true) : s.mu = .free :=
  beq_iff_eq.mp h

theorem mu_of_writable {s : SchedulerRun π} (h : s.writable = true) : s.mu = .free :=
  mu_of_readable (Bool.and_eq_true_iff.mp h).1

variable [DecidableEq π] {cfg : SchedulerConfig π} {K : BucketView π → π → UInt64 → Prop}
  {s t : SchedulerRun π} {p : π} {pc : TripPc} {h : Held}

theorem view_goto (s : SchedulerRun π) (p : π) (pc : TripPc) :
    (s.goto p pc).view = s.view.goto p pc.phase := by
  have hphase : (fun q => (Function.update s.pc p pc q).phase) =
      Function.update (fun q => (s.pc q).phase) p pc.phase :=
    Function.comp_update TripPc.phase s.pc p pc
  simp only [view, goto, BucketView.goto, hphase]

omit [DecidableEq π] in
theorem view_log (s : SchedulerRun π) (e : TripEvent π) : (s.log e).view = s.view.log e := rfl

theorem moves_stay {s' : SchedulerRun π} (hv : s'.view = s.view)
    (he : (s.pc p).phase.Eases pc.phase) :
    BucketView.TripMoves cfg K s.view p (s'.goto p pc).view := by
  rw [view_goto, hv]
  exact .stay he

@[simp] theorem phase_next (k : AfterRelease) : k.next.phase = .live k.aim := by
  cases k <;> rfl

@[simp] theorem phase_rechecked (attempt b target : Nat) :
    (rechecked attempt b target).phase = recheckedPhase b target := by
  unfold rechecked recheckedPhase
  split
  · simp only [TripPc.phase]
    split <;> rfl
  · rfl

theorem moves_open {s' : SchedulerRun π} {pc pc' : HeldPc} {h' : Held}
    (hp : s.pc p = .held h pc) (hv : s'.view = s.view) (hb : h'.bucket = h.bucket)
    (hw : pc'.waits = .open) :
    BucketView.TripMoves cfg K s.view p (s'.goto p (.held h' pc')).view := by
  refine moves_stay hv ?_
  simp only [hp, TripPc.phase, hb, hw]
  exact .drop _ _

theorem moves_waited {s' : SchedulerRun π} {pc pc' : HeldPc} (hp : s.pc p = .held h pc)
    (hv : s'.view = s.view) (hw : pc'.waits = pc.waits) :
    BucketView.TripMoves cfg K s.view p (s'.goto p (.held h pc')).view := by
  refine moves_stay hv ?_
  simp only [hp, TripPc.phase, hw]
  exact .refl _

def Learns (cfg : SchedulerConfig π) (K : BucketView π → π → UInt64 → Prop)
    (s : SchedulerRun π) (a : SchedulerAction π) : Prop :=
  ∀ p x h r, a = .trip p x → s.pc p = .held h (.learn r) → r.info.bucket ≠ [] →
    K s.view p (canonicalHash r.info.bucket (cfg.request p).majorKey)

theorem learn_moves {r : Response} {client : ClientState π} {slots : ResourceBudget} {target : Nat}
    (hp : s.pc p = .held h (.learn r)) (hw : s.writable = true)
    (hK : K s.view p (canonicalHash r.info.bucket (cfg.request p).majorKey))
    (hl : s.client.learnBucket (cfg.request p).routeHash
      (canonicalHash r.info.bucket (cfg.request p).majorKey) h.bucket s.slots =
        (client, slots, target)) :
    BucketView.TripMoves cfg K s.view p
      ((s.withMaps client slots).goto p (.learned h target (.validationStore r))).view := by
  obtain rfl | ⟨ht, hbuckets, hfresh, hactive⟩ := ClientState.learnBucket_cases hl
  · exact moves_stay rfl (by rw [hp]; exact .keep _)
  · have hv : (s.withMaps client slots).view = s.view.learn (cfg.request p).routeHash
        (canonicalHash r.info.bucket (cfg.request p).majorKey) h.bucket := by
      simp only [withMaps, view, ht, hbuckets, hfresh, hactive]
      rfl
    rw [view_goto, hv]
    exact .learn (congrArg TripPc.phase hp) (mu_of_writable hw) hK

theorem TripSteps.moves {a : TripAction} {s' : SchedulerRun π} {pc' : TripPc}
    (hm : TripSteps cfg p s pc a s' pc') (hp : s.pc p = pc) (hK : Learns cfg K s (.trip p a)) :
    BucketView.TripMoves cfg K s.view p (s'.goto p pc').view := by
  have hφ : s.view.phase p = pc.phase := congrArg TripPc.phase hp
  cases hm with
  | begin hmu => exact view_goto _ p _ ▸ .begin hφ hmu
  | beginTouch => exact view_goto _ p _ ▸ .began hφ
  | arrive | unavailable | lookupMiss | createFull | recheckMiss | endTouch | endEvicted =>
    exact moves_stay rfl (by rw [hp]; exact .refl _)
  | endActive => exact view_goto _ p _ ▸ .finish hφ
  -- `acquireBucket`
  | lookup hr hb => exact view_goto _ p _ ▸ .aim hφ (mu_of_readable hr) hb
  | create hw hb =>
    rw [view_goto]
    obtain ⟨hr, rfl⟩ | ⟨hr, rfl, rfl⟩ := ClientState.bucketSlow_cases hb
    · exact .aim hφ (mu_of_writable hw) hr
    · exact .create hφ (mu_of_writable hw) hr
  | activate => exact view_goto _ p _ ▸ .activate hφ
  | touch => exact view_goto _ p _ ▸ .touch hφ
  | @bucketGate _ _ _ _ r hg =>
    rw [view_goto]
    cases r <;> exact .gate hφ hg
  | deactivate => exact view_goto _ p _ ▸ .deactivate hφ
  | recheck hr hb =>
    rw [view_goto, phase_rechecked]
    exact .recheck hφ (mu_of_readable hr) hb
  | recheckCreate hw hb =>
    rw [view_goto, phase_rechecked]
    obtain ⟨hr, rfl⟩ | ⟨hr, rfl, rfl⟩ := ClientState.bucketSlow_cases hb
    · exact .recheck hφ (mu_of_writable hw) hr
    · exact .recreate hφ (mu_of_writable hw) hr
  | recheckFull hw => exact view_goto _ p _ ▸ .giveUp hφ (mu_of_writable hw)
  -- with the bucket held
  | ask | skip | superseded | confirmed | validationRelease | unauthorized | authorized | replay
  | replayFailed | knownBucket | refuse | proceed | reread | current | expired | waitDone
  | waitOpen | waitLate | waitSleep | waitTimer | waitWoken | waitCancelled | bodyFailed
  | reserveFailed | lost | respond | lock | observe | blockGlobal | spareGlobal | blockTime
  | spareBucket | unwindValidation => exact moves_open hp rfl rfl rfl
  | @validation _ _ _ r => cases r <;> exact moves_open hp rfl rfl rfl
  | waitRead => exact view_goto _ p _ ▸ .read hφ
  | waitClear hready hi | waitQueue hready hi =>
    have hpass : BucketView.TripMoves cfg K s.view p _ := .pass hφ hready
    rw [hi] at hpass
    exact view_goto _ p _ ▸ hpass
  | @pacerGate _ _ _ r =>
    cases r with
    | pending | granted => exact moves_waited hp rfl rfl
    | refused => exact moves_open hp rfl rfl rfl
  | pacerDone | pacerOpen | pacerEarly | pacerLate | pacerSleep | pacerTimer | pacerWoken
  | pacerCancelled | body | reserve => exact moves_waited hp rfl rfl
  | pacerTurn => exact view_goto _ p _ ▸ .grant hφ
  | @pacerUnlock _ ret =>
    cases ret with
    | granted => exact moves_waited hp rfl rfl
    | delayed | failed => exact moves_open hp rfl rfl rfl
  | dispatch => exact view_goto _ p _ ▸ .dispatch hφ
  | blockBucket => exact view_goto _ p _ ▸ .block hφ
  | learn hb hw hl => exact learn_moves hp hw (hK p _ _ _ rfl hp hb) hl
  | unnamed | unwind => exact moves_stay rfl (by rw [hp]; exact .keep _)
  -- with the response read, and in `release`
  | store | unstored | stored | limited | answer | prepareFailed | unprepared | prepared
  | knownAfter | giveUp | retry => exact moves_stay rfl (by rw [hp]; exact .refl _)
  | releaseTouch => exact view_goto _ p _ ▸ .leave hφ
  | releaseActive => exact view_goto _ p _ ▸ .uncount hφ
  | releaseGate hg =>
    rw [view_goto, phase_next]
    exact .release hφ hg

theorem trip_moves {a : TripAction} (hK : Learns cfg K s (.trip p a))
    (hs : s.tripStep cfg p a = some t) : BucketView.TripMoves cfg K s.view p t.view := by
  obtain ⟨s', pc', hm, rfl⟩ := tripStep_trips hs
  exact hm.moves rfl hK

omit [DecidableEq π] in
theorem sweep_moves {choice : Option UInt64} (hs : s.sweepStep choice = some t) :
    BucketView.SweepMoves s.view t.view := by
  unfold sweepStep at hs
  split at hs
  · cases hs
  · rename_i hmu
    split at hs
    · obtain ⟨rfl, hs⟩ := Option.ite_none_right_eq_some.mp hs
      cases hs
      exact .finish hmu
    · obtain ⟨-, hs⟩ := Option.ite_none_right_eq_some.mp hs
      cases hs
      exact .next hmu
  · rename_i hmu
    obtain ⟨bucket, hb, rfl⟩ := Option.map_eq_some_iff.mp hs
    obtain ⟨b, hl, rfl⟩ := Option.map_eq_some_iff.mp hb
    split
    · exact .skip hmu
    · rename_i hblocked
      exact .unblocked hmu hl (BucketState.blocked_eq_false.mp (Bool.eq_false_iff.mpr hblocked))
  · rename_i hmu
    obtain ⟨bucket, hb, rfl⟩ := Option.map_eq_some_iff.mp hs
    obtain ⟨b, hl, rfl⟩ := Option.map_eq_some_iff.mp hb
    simp only
    split
    · exact .skip hmu
    · exact .inactive hmu hl (not_not.mp ‹_›)
  · rename_i hmu
    obtain ⟨bucket, hb, rfl⟩ := Option.map_eq_some_iff.mp hs
    obtain ⟨b, hl, rfl⟩ := Option.map_eq_some_iff.mp hb
    split
    · exact .delete hmu hl ‹_›
    · exact .skip hmu

omit [DecidableEq π] in
theorem idle_moves {now : Int} {pc pc' : IdlePc} (h : s.client.IdleMoves now pc pc') :
    BucketView.IdleMoves s.view now pc pc' := by
  cases h with
  | global => exact .global
  | active ha => exact .active ha
  | lastUsed => exact .lastUsed
  | rlock => exact .rlock
  | buckets => exact .buckets
  | blocked hl hr => exact .blocked hl hr

omit [DecidableEq π] in
theorem evict_moves {choice : Option UInt64} (hs : s.evictStep choice = some t) :
    BucketView.EvictMoves s.view t.view := by
  unfold evictStep at hs
  split at hs
  · rename_i hmu
    split at hs
    · cases hs
    · obtain ⟨answer, hi, rfl⟩ := Option.map_eq_some_iff.mp hs
      split
      · exact .read hmu (idle_moves (ClientState.idleStep_moves hi))
      · obtain rfl := ClientState.idleStep_true hi
        exact .choose hmu
      · exact .refuse hmu
  · cases hs

theorem step_clear (hs : s.step cfg .clear = some t) :
    (∃ now, s.tableMu = .chosen now) ∧ s.writable = true ∧ t = s.clear cfg := by
  simp only [step] at hs
  split at hs
  · rename_i now hmu
    obtain ⟨hw, hs⟩ := Option.ite_none_right_eq_some.mp hs
    cases hs
    exact ⟨⟨now, hmu⟩, hw, rfl⟩
  · cases hs

theorem step_moves {a : SchedulerAction π} (hK : Learns cfg K s a) (hs : s.step cfg a = some t) :
    BucketView.Moves cfg K s.view a.mover t.view := by
  cases a with
  | tick d =>
    cases hs
    exact .tick d
  | cancel p =>
    cases hs
    exact .same
  | others used =>
    cases hs
    exact .same
  | trip p a => exact .trip (trip_moves hK hs)
  | sweep now =>
    obtain ⟨⟨hw, hn⟩, hs⟩ := Option.ite_none_right_eq_some.mp hs
    cases hs
    exact .sweep (.start (mu_of_writable hw) hn)
  | sweepStep choice => exact .sweep (sweep_moves hs)
  | evict now =>
    simp only [step] at hs
    split at hs
    · obtain ⟨⟨-, hn⟩, hs⟩ := Option.ite_none_right_eq_some.mp hs
      cases hs
      exact .evict (.start ‹_› hn)
    · cases hs
  | evictStep choice => exact .evict (evict_moves hs)
  | spare =>
    simp only [step] at hs
    split at hs <;> cases hs
    exact .evict (.spare ‹_›)
  | clear =>
    obtain ⟨⟨now, hmu⟩, hw, rfl⟩ := step_clear hs
    exact .evict (.clear hmu (mu_of_writable hw))

structure Aside (s t : SchedulerRun π) : Prop where
  pc_eq : t.pc = s.pc
  deadline_eq : t.deadline = s.deadline
  generation_eq : t.generation = s.generation
  client_eq : ∃ table limit, t.client = { s.client with table := table, aliasLimit := limit }

omit [DecidableEq π] in
theorem aside_sweepStep {choice : Option UInt64} (hs : s.sweepStep choice = some t) :
    s.Aside t := by
  unfold sweepStep at hs
  split at hs
  · cases hs
  · split at hs
    · obtain ⟨-, hs⟩ := Option.ite_none_right_eq_some.mp hs
      cases hs
      exact ⟨rfl, rfl, rfl, _, _, rfl⟩
    · obtain ⟨-, hs⟩ := Option.ite_none_right_eq_some.mp hs
      cases hs
      exact ⟨rfl, rfl, rfl, _, _, rfl⟩
  · obtain ⟨_, -, rfl⟩ := Option.map_eq_some_iff.mp hs
    exact ⟨rfl, rfl, rfl, _, _, rfl⟩
  · obtain ⟨_, -, rfl⟩ := Option.map_eq_some_iff.mp hs
    exact ⟨rfl, rfl, rfl, _, _, rfl⟩
  · obtain ⟨_, -, rfl⟩ := Option.map_eq_some_iff.mp hs
    split
    · exact ⟨rfl, rfl, rfl, _, _, rfl⟩
    · exact ⟨rfl, rfl, rfl, _, _, rfl⟩

omit [DecidableEq π] in
theorem aside_evictStep {choice : Option UInt64} (hs : s.evictStep choice = some t) :
    s.Aside t := by
  unfold evictStep at hs
  split at hs
  · split at hs
    · cases hs
    · obtain ⟨_, -, rfl⟩ := Option.map_eq_some_iff.mp hs
      split <;> exact ⟨rfl, rfl, rfl, _, _, rfl⟩
  · cases hs

theorem step_aside {a : SchedulerAction π} (ha : a.mover = none) (hc : a ≠ .clear)
    (hs : s.step cfg a = some t) : s.Aside t := by
  cases a with
  | tick | cancel | others =>
    cases hs
    exact ⟨rfl, rfl, rfl, _, _, rfl⟩
  | trip p a => cases ha
  | sweep now =>
    obtain ⟨-, hs⟩ := Option.ite_none_right_eq_some.mp hs
    cases hs
    exact ⟨rfl, rfl, rfl, _, _, rfl⟩
  | sweepStep choice => exact aside_sweepStep hs
  | evict now =>
    simp only [step] at hs
    split at hs
    · obtain ⟨-, hs⟩ := Option.ite_none_right_eq_some.mp hs
      cases hs
      exact ⟨rfl, rfl, rfl, _, _, rfl⟩
    · cases hs
  | evictStep choice => exact aside_evictStep hs
  | spare =>
    simp only [step] at hs
    split at hs <;> cases hs
    exact ⟨rfl, rfl, rfl, _, _, rfl⟩
  | clear => exact absurd rfl hc

theorem invariant_of_moves {I : BucketView π → Prop} (h0 : ∀ now, I (start cfg now).view)
    (hI : ∀ v l v', I v → BucketView.Moves cfg K v l v' → I v')
    (h : (system cfg).Reach (Learns cfg K) s) : I s.view := by
  refine h.invariant_view (f := view) (M := fun v v' => ∃ l, BucketView.Moves cfg K v l v') ?_ ?_ ?_
  · rintro _ ⟨now, rfl⟩
    exact h0 now
  · exact fun s a t hK hs => ⟨_, step_moves hK hs⟩
  · rintro v v' hv ⟨l, hm⟩
    exact hI v l v' hv hm

end SchedulerRun

end NirnProxy
