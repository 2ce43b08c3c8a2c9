import Mathlib.Logic.Relation
import NirnProxy.Client.Cooling
import NirnProxy.Scheduler.Arrival
import NirnProxy.Scheduler.Cooldown
import NirnProxy.Scheduler.Observe

/-! The retry loop of `RoundTrip`, with the gates and the validation left out: where in which
attempt a request stands, what it has read, and what it does to the cooldowns. -/

universe u

namespace NirnProxy

/-- A pass of the loop from the acquisition of its bucket on; `b` is that bucket. -/
inductive LoopStage
  | seeking
  | top (b : Nat)
  | known (b : Nat) (now delay : Int)
  | checking (b : Nat)
  | waiting (b : Nat)
  | testing (b : Nat) (readyAt : Int)
  | remembering (b : Nat) (delay : Int)
  | rereading (b : Nat) (delay now bucketDelay : Int)
  | queueing (b : Nat)
  | pacing (b : Nat) (blockedDelay : Int)
  | delayed (b : Nat) (delay : Int)
  | paced (b : Nat)
  | sent (b : Nat)
  | observed (b : Nat) (r : Response)
  | timing (b : Nat) (r : Response)
  | blocking (b : Nat) (r : Response) (readyAt : Int)
  | learning (b : Nat) (r : Response)
  | learned (target : Nat) (r : Response)
  | limited (target : Nat) (r : Response)
  | retrying (target : Nat) (r : Response) (now delay : Int)

def LoopStage.bucket : LoopStage → Option Nat
  | .seeking | .learned _ _ | .limited _ _ | .retrying _ _ _ _ => none
  | .top b | .known b _ _ | .checking b | .waiting b | .testing b _ | .remembering b _
  | .rereading b _ _ _ | .queueing b | .pacing b _ | .delayed b _ | .paced b | .sent b
  | .observed b _ | .timing b _ | .blocking b _ _ | .learning b _ => some b

inductive LoopPc
  | before
  | attempt (n : Nat) (stage : LoopStage)
  | finished (res : TripResult)
  | gone

def HeldPc.loop (h : Held) : HeldPc → LoopPc
  | .validity | .validation | .validationCheck | .validationRelease | .invalid | .replay =>
    .attempt h.attempt .seeking
  | .knownBucket => .attempt h.attempt (.top h.bucket)
  | .knownGlobal now delay => .attempt h.attempt (.known h.bucket now delay)
  | .wait => .attempt h.attempt (.checking h.bucket)
  | .waitRead | .waitSleep _ _ => .attempt h.attempt (.waiting h.bucket)
  | .waitTest readyAt _ => .attempt h.attempt (.testing h.bucket readyAt)
  | .rememberBucket delay => .attempt h.attempt (.remembering h.bucket delay)
  | .rememberGlobal delay now bucketDelay =>
    .attempt h.attempt (.rereading h.bucket delay now bucketDelay)
  | .pacer (.test _ blockedDelay _) => .attempt h.attempt (.pacing h.bucket blockedDelay)
  | .pacer (.unlock (.delayed delay)) => .attempt h.attempt (.delayed h.bucket delay)
  | .pacer (.unlock .granted) => .attempt h.attempt (.paced h.bucket)
  | .pacer _ => .attempt h.attempt (.queueing h.bucket)
  | .body | .reserve | .dispatch => .attempt h.attempt (.paced h.bucket)
  | .inFlight => .attempt h.attempt (.sent h.bucket)
  | .observe r | .blockGlobal r => .attempt h.attempt (.observed h.bucket r)
  | .blockTime r => .attempt h.attempt (.timing h.bucket r)
  | .blockBucket r readyAt => .attempt h.attempt (.blocking h.bucket r readyAt)
  | .learn r => .attempt h.attempt (.learning h.bucket r)
  | .unwind res => .finished res

def LearnedPc.loop (n target : Nat) : LearnedPc → LoopPc
  | .validationStore r | .validationRelease r | .status r => .attempt n (.learned target r)
  | .prepare r | .knownBucket r => .attempt n (.limited target r)
  | .knownGlobal r now delay => .attempt n (.retrying target r now delay)

def AfterRelease.loop : AfterRelease → LoopPc
  | .move n _ | .retry n => .attempt n .seeking
  | .finish res => .finished res

def TripPc.loop : TripPc → LoopPc
  | .idle | .beginTouch | .started => .before
  | .acquire n _ => .attempt n .seeking
  | .held h pc => pc.loop h
  | .learned h target pc => pc.loop h.attempt target
  | .release _ _ k => k.loop
  | .returned res => .finished res
  | .endTouch _ | .ended => .gone

theorem HeldPc.bucket_of_loop {h : Held} {pc : HeldPc} {n : Nat} {stage : LoopStage}
    (hl : pc.loop h = .attempt n stage) : stage.bucket = some h.bucket ∨ stage = .seeking := by
  cases pc with
  | pacer pc =>
    cases pc with
    | unlock ret =>
      cases ret <;> cases hl <;> exact .inl rfl
    | _ =>
      cases hl
      exact .inl rfl
  | unwind res => cases hl
  | validity | validation | validationCheck | validationRelease | invalid | replay =>
    cases hl
    exact .inr rfl
  | _ =>
    cases hl
    exact .inl rfl

theorem TripPc.held_of_loop {pc : TripPc} {n b : Nat} {stage : LoopStage}
    (hl : pc.loop = .attempt n stage) (hb : stage.bucket = some b) :
    ∃ h pc', pc = .held h pc' ∧ h.bucket = b := by
  cases pc with
  | held h pc' =>
    obtain hs | rfl := HeldPc.bucket_of_loop hl
    · exact ⟨h, pc', rfl, Option.some.inj (hs.symm.trans hb)⟩
    · cases hb
  | acquire k pc' =>
    cases hl
    cases hb
  | learned h target pc' => cases pc' <;> cases hl <;> cases hb
  | release c pc' k => cases k <;> cases hl <;> cases hb
  | _ => cases hl

namespace LoopPc

def sends : LoopPc → LoopPc → Nat
  | .attempt _ (.paced _), .attempt _ (.sent _) => 1
  | _, _ => 0

@[simp] theorem sends_self (l : LoopPc) : l.sends l = 0 := by
  cases l with
  | attempt n stage => cases stage <;> rfl
  | _ => rfl

@[simp] theorem sends_finished (l : LoopPc) (res : TripResult) : l.sends (.finished res) = 0 := by
  cases l with
  | attempt n stage => cases stage <;> rfl
  | _ => rfl

end LoopPc

def HeldPc.waitPc : HeldPc → Option WaitPc
  | .wait => some .check
  | .waitRead => some .read
  | .waitTest readyAt wake => some (.elapse readyAt wake)
  | .waitSleep readyAt wake => some (.sleep readyAt readyAt wake)
  | .pacer .gate | .body => some (.returned .granted)
  | .rememberBucket delay => some (.returned (.delayed delay))
  | .unwind .failed => some (.returned (.failed .context))
  | _ => none

def TripEvent.isDispatch {π : Type u} [DecidableEq π] (p : π) : TripEvent π → Bool
  | .dispatch q _ _ => q == p
  | _ => false

theorem ClientState.learnBucket_known {π : Type u} {s s' : ClientState π} {route c : UInt64}
    {slots slots' : ResourceBudget} {bucket target : Nat}
    (h : s.learnBucket route c bucket slots = (s', slots', target)) :
    target = bucket ∨ s.table.buckets.lookup c = some target := by
  have htarget := learnBucket_target h
  split at htarget
  · exact .inl htarget
  · simp only [RouteTable.plan] at htarget
    cases hc : s.table.buckets.lookup c with
    | none => exact .inl (by simpa [hc] using htarget)
    | some b => exact .inr (by simp [htarget, hc])

namespace SchedulerRun

variable {π : Type u} {cfg : SchedulerConfig π} {s t : SchedulerRun π} {p : π}

theorem exceedsDeadline_iff {delay : Int} :
    s.exceedsDeadline cfg p delay = true ↔
      0 < delay ∧ s.deadline p - s.now ≤ delay + cfg.upstreamTimeout := by
  simp [exceedsDeadline, retryWouldExceedDeadline]

theorem knownRateLimit_fst (cfg : SchedulerConfig π) (s : SchedulerRun π) (p : π)
    (now delay : Int) :
    (s.knownRateLimit cfg p now delay).1 =
      max delay (if (cfg.request p).interaction then 0 else s.client.global.retryAfter now) := by
  unfold knownRateLimit
  generalize (if (cfg.request p).interaction then 0 else s.client.global.retryAfter now) = d
  simp only
  split
  · exact (max_eq_right (le_of_lt ‹_›)).symm
  · exact (max_eq_left (not_lt.mp ‹_›)).symm

variable [DecidableEq π]

def attempts (s : SchedulerRun π) (p : π) : Nat := s.events.countP (TripEvent.isDispatch p)

inductive LoopMoves (cfg : SchedulerConfig π) (p : π) (s t : SchedulerRun π) :
    LoopPc → LoopPc → Prop
  | stay (l : LoopPc) : LoopMoves cfg p s t l l
  | arrive : t.deadline p = s.now + cfg.queueTimeout →
      LoopMoves cfg p s t .before (.attempt 0 .seeking)
  | enter {n b : Nat} : LoopMoves cfg p s t (.attempt n .seeking) (.attempt n (.top b))
  -- `knownRateLimit` and `retryWouldExceedDeadline` at the top of the loop
  | know {n b : Nat} : LoopMoves cfg p s t (.attempt n (.top b))
      (.attempt n (.known b s.now ((s.client.bucketAt b).retryAfter s.now)))
  | refuse {n b : Nat} {now bucketDelay delay : Int} {global : Bool} :
      s.knownRateLimit cfg p now bucketDelay = (delay, global) →
      s.exceedsDeadline cfg p delay = true →
      LoopMoves cfg p s t (.attempt n (.known b now bucketDelay))
        (.finished (.remembered delay global))
  | proceed {n b : Nat} {now bucketDelay : Int} :
      s.exceedsDeadline cfg p (s.knownRateLimit cfg p now bucketDelay).1 = false →
      LoopMoves cfg p s t (.attempt n (.known b now bucketDelay)) (.attempt n (.checking b))
  -- `bucketState.wait`
  | check {n b : Nat} : s.done p = false →
      LoopMoves cfg p s t (.attempt n (.checking b)) (.attempt n (.waiting b))
  | again {n b : Nat} : LoopMoves cfg p s t (.attempt n (.waiting b)) (.attempt n (.checking b))
  | read {n b : Nat} : LoopMoves cfg p s t (.attempt n (.waiting b))
      (.attempt n (.testing b (s.client.bucketAt b).readyAt))
  | clear {n b : Nat} {readyAt : Int} : readyAt ≤ s.now → (cfg.request p).interaction = true →
      LoopMoves cfg p s t (.attempt n (.testing b readyAt)) (.attempt n (.paced b))
  | queue {n b : Nat} {readyAt : Int} : readyAt ≤ s.now → (cfg.request p).interaction = false →
      LoopMoves cfg p s t (.attempt n (.testing b readyAt)) (.attempt n (.queueing b))
  | sleep {n b : Nat} {readyAt : Int} : s.exceedsDeadline cfg p (readyAt - s.now) = false →
      LoopMoves cfg p s t (.attempt n (.testing b readyAt)) (.attempt n (.waiting b))
  | remember {n b : Nat} {readyAt : Int} : s.exceedsDeadline cfg p (readyAt - s.now) = true →
      LoopMoves cfg p s t (.attempt n (.testing b readyAt))
        (.attempt n (.remembering b (readyAt - s.now)))
  -- `knownRateLimit` after `wait`
  | reread {n b : Nat} {delay : Int} : LoopMoves cfg p s t (.attempt n (.remembering b delay))
      (.attempt n (.rereading b delay s.now ((s.client.bucketAt b).retryAfter s.now)))
  | current {n b : Nat} {delay now bucketDelay d : Int} {global : Bool} :
      s.knownRateLimit cfg p now bucketDelay = (d, global) → 0 < d →
      LoopMoves cfg p s t (.attempt n (.rereading b delay now bucketDelay))
        (.finished (.remembered d global))
  | expired {n b : Nat} {delay now bucketDelay : Int} :
      ¬0 < (s.knownRateLimit cfg p now bucketDelay).1 →
      LoopMoves cfg p s t (.attempt n (.rereading b delay now bucketDelay))
        (.finished (.remembered delay false))
  -- `pacer.waitFor`
  | turn {n b : Nat} : s.client.global.readyAt ≤ s.now →
      LoopMoves cfg p s t (.attempt n (.queueing b)) (.attempt n (.paced b))
  | pace {n b : Nat} : LoopMoves cfg p s t (.attempt n (.queueing b))
      (.attempt n (.pacing b (s.client.global.blockedUntil - s.now)))
  | rest {n b : Nat} {blockedDelay : Int} :
      LoopMoves cfg p s t (.attempt n (.pacing b blockedDelay)) (.attempt n (.queueing b))
  | delay {n b : Nat} {blockedDelay : Int} : 0 < blockedDelay →
      s.deadline p - s.now ≤ blockedDelay + cfg.upstreamTimeout →
      LoopMoves cfg p s t (.attempt n (.pacing b blockedDelay))
        (.attempt n (.delayed b blockedDelay))
  | report {n b : Nat} {delay : Int} : LoopMoves cfg p s t (.attempt n (.delayed b delay))
      (.finished (.remembered delay true))
  -- the attempt and `observeResponse`
  | dispatch {n b : Nat} :
      LoopMoves cfg p s t (.attempt n (.paced b)) (.attempt n (.sent b))
  | respond {n b : Nat} {r : Response} :
      LoopMoves cfg p s t (.attempt n (.sent b)) (.attempt n (.observed b r))
  | blockGlobal {n b : Nat} {r : Response} : t.client = s.client.blockGlobal s.now r →
      LoopMoves cfg p s t (.attempt n (.observed b r)) (.attempt n (.timing b r))
  | time {n b : Nat} {r : Response} {delay : Int} :
      r.bucketDelay (cfg.request p).interaction = some delay →
      LoopMoves cfg p s t (.attempt n (.timing b r)) (.attempt n (.blocking b r (s.now + delay)))
  | spare {n b : Nat} {r : Response} : r.bucketDelay (cfg.request p).interaction = none →
      LoopMoves cfg p s t (.attempt n (.timing b r)) (.attempt n (.learning b r))
  | block {n b : Nat} {r : Response} {readyAt : Int} :
      .block (cfg.request p).routeHash readyAt ∈ t.events →
      t.client.bucketAt b = (s.client.bucketAt b).blockUntil readyAt →
      LoopMoves cfg p s t (.attempt n (.blocking b r readyAt)) (.attempt n (.learning b r))
  | learn {n b target : Nat} {r : Response} :
      (s.client.bucketAt b).readyAt ≤ (t.client.bucketAt target).readyAt →
      (target = b ∨ ∃ hash, s.client.table.buckets.lookup hash = some target) →
      LoopMoves cfg p s t (.attempt n (.learning b r)) (.attempt n (.learned target r))
  -- the decision to retry
  | limited {n target : Nat} {r : Response} : r.tooManyRequests = true →
      LoopMoves cfg p s t (.attempt n (.learned target r)) (.attempt n (.limited target r))
  | recheck {n target : Nat} {r : Response} :
      LoopMoves cfg p s t (.attempt n (.limited target r)) (.attempt n
        (.retrying target r s.now ((s.client.bucketAt target).retryAfter s.now)))
  | retry {n target : Nat} {r : Response} {now bucketDelay : Int} :
      s.exceedsDeadline cfg p (s.knownRateLimit cfg p now bucketDelay).1 = false →
      LoopMoves cfg p s t (.attempt n (.retrying target r now bucketDelay))
        (.attempt (n + 1) .seeking)
  | finish {l : LoopPc} {res : TripResult} : (∀ delay global, res ≠ .remembered delay global) →
      LoopMoves cfg p s t l (.finished res)
  | leave {res : TripResult} : LoopMoves cfg p s t (.finished res) .gone

variable {h : Held}

structure Beside (p : π) (s t : SchedulerRun π) : Prop where
  attempts_eq : t.attempts p = s.attempts p
  deadline_eq : t.deadline = s.deadline
  blockedUntil_le : s.client.global.blockedUntil ≤ t.client.global.blockedUntil

structure LoopStep (cfg : SchedulerConfig π) (p : π) (s t : SchedulerRun π) : Prop where
  moves : LoopMoves cfg p s t (s.pc p).loop (t.pc p).loop
  attempts_eq : t.attempts p = s.attempts p + (s.pc p).loop.sends (t.pc p).loop
  deadline_eq : t.deadline = s.deadline ∨ (s.pc p).loop = .before ∧
    t.deadline = Function.update s.deadline p (s.now + cfg.queueTimeout)
  blockedUntil_le : s.client.global.blockedUntil ≤ t.client.global.blockedUntil

theorem loops {pc pc' : TripPc} (hp : s.pc p = pc) (ht : t.pc p = pc') (hb : Beside p s t)
    (hn : pc.loop.sends pc'.loop = 0) (hm : LoopMoves cfg p s t pc.loop pc'.loop) :
    LoopStep cfg p s t := by
  subst hp ht
  refine ⟨hm, ?_, .inl hb.deadline_eq, hb.blockedUntil_le⟩
  rw [hn, hb.attempts_eq, Nat.add_zero]

variable {u : SchedulerRun π}

theorem goto_loops {pc pc' : TripPc} (hp : s.pc p = pc) (hb : Beside p s u)
    (hn : pc.loop.sends pc'.loop = 0)
    (hm : LoopMoves cfg p s (u.goto p pc') pc.loop pc'.loop) :
    LoopStep cfg p s (u.goto p pc') :=
  loops hp (goto_pc_self u p pc') ⟨hb.attempts_eq, hb.deadline_eq, hb.blockedUntil_le⟩ hn hm

theorem goto_stays {pc pc' : TripPc} (hp : s.pc p = pc) (hb : Beside p s u)
    (hl : pc'.loop = pc.loop) : LoopStep cfg p s (u.goto p pc') :=
  goto_loops hp hb (by rw [hl, LoopPc.sends_self]) (hl ▸ .stay _)

theorem goto_finishes {pc pc' : TripPc} {res : TripResult} (hp : s.pc p = pc)
    (hb : Beside p s u) (hl : pc'.loop = .finished res)
    (hres : ∀ delay global, res ≠ .remembered delay global) :
    LoopStep cfg p s (u.goto p pc') :=
  goto_loops hp hb (by rw [hl, LoopPc.sends_finished]) (hl ▸ .finish hres)

theorem goto_rechecked {n b target : Nat} {pc : AcquirePc} (hp : s.pc p = .acquire n pc)
    (hb : Beside p s u) : LoopStep cfg p s (u.goto p (rechecked n b target)) := by
  unfold rechecked
  split
  · split
    · exact goto_stays hp hb rfl
    · exact goto_loops hp hb rfl .enter
  · exact goto_stays hp hb rfl

def WaitsTo (cfg : SchedulerConfig π) (s : SchedulerRun π) (p : π) (b : Nat) (closes : List Nat) :
    WaitPc → WaitPc → Prop :=
  Relation.TransGen fun w w' =>
    ∃ x, (s.client.bucketAt b).wait s.now (s.context cfg p) closes w x = some w'

omit [DecidableEq π] in
theorem waitsTo_early {b wake : Nat} {closes : List Nat} {readyAt : Int} (hd : s.now < readyAt) :
    s.WaitsTo cfg p b closes (.elapse readyAt wake)
      (if s.exceedsDeadline cfg p (readyAt - s.now) then .returned (.delayed (readyAt - s.now))
        else .sleep readyAt readyAt wake) := by
  have hearly : (s.client.bucketAt b).wait s.now (s.context cfg p) closes (.elapse readyAt wake)
      .go = some (.deadline readyAt (readyAt - s.now) wake) := congrArg some (if_neg (by omega))
  have hlate : s.exceedsDeadline cfg p (readyAt - s.now) = true ↔
      ∃ d ∈ (s.context cfg p).deadline,
        d - s.now ≤ readyAt - s.now + (s.context cfg p).reserve := by
    simp [exceedsDeadline_iff, context, hd]
  split
  · exact .tail (.single ⟨.go, hearly⟩) ⟨.go, congrArg some (if_pos (hlate.mp ‹_›))⟩
  · have harm : (s.client.bucketAt b).wait s.now (s.context cfg p) closes
        (.arm readyAt (readyAt - s.now) wake) .go = some (.sleep readyAt readyAt wake) := by
      simp [BucketState.wait]
    exact .tail (.tail (.single ⟨.go, hearly⟩)
      ⟨.go, congrArg some (if_neg (hlate.not.mp ‹_›))⟩) ⟨.go, harm⟩

/-- A step of a request in `wait` is made of steps of `BucketState.wait`. -/
theorem waitStep_waits {pc : HeldPc} {a : TripAction} {closes : List Nat}
    (hc : (⟨(s.client.bucketAt h.bucket).readyAt, (s.client.bucketAt h.bucket).wake, closes⟩ :
      Signal Int).Tidy)
    (hs : s.waitStep cfg p h pc a = some t) :
    ∃ pc' w w', t = s.goto p (.held h pc') ∧ pc.waitPc = some w ∧ pc'.waitPc = some w' ∧
      s.WaitsTo cfg p h.bucket closes w w' := by
  unfold waitStep at hs
  split at hs
  · cases hs
    refine ⟨_, _, _, rfl, rfl, ?_, .single ⟨.go, rfl⟩⟩
    change _ = some (if s.done p then _ else _)
    split <;> rfl
  · cases hs
    exact ⟨_, _, _, rfl, rfl, rfl, .single ⟨.go, rfl⟩⟩
  · cases hs
    split
    · refine ⟨_, _, _, rfl, rfl, ?_, .single ⟨.go, congrArg some (if_pos ‹_›)⟩⟩
      split <;> rfl
    · refine ⟨_, _, _, rfl, rfl, ?_, waitsTo_early (by omega)⟩
      split <;> rfl
  · obtain ⟨hfires, hs⟩ := Option.ite_none_right_eq_some.mp hs
    cases hs
    exact ⟨_, _, _, rfl, rfl, rfl, .single ⟨.timer, if_pos hfires⟩⟩
  · obtain ⟨hwoken, hs⟩ := Option.ite_none_right_eq_some.mp hs
    cases hs
    exact ⟨_, _, _, rfl, rfl, rfl, .single ⟨.woken, if_pos (hc.mem_closes.mpr hwoken)⟩⟩
  · obtain ⟨hdone, hs⟩ := Option.ite_none_right_eq_some.mp hs
    cases hs
    exact ⟨_, _, _, rfl, rfl, rfl, .single ⟨.done, if_pos hdone⟩⟩
  · cases hs

theorem loop_next (k : AfterRelease) : k.next.loop = k.loop := by
  cases k <;> rfl

omit [DecidableEq π] in
theorem blockedUntil_bucketSlow {client : ClientState π} {slots : ResourceBudget} {b : Nat}
    {r : UInt64} (hb : s.client.bucketSlow s.now r s.slots = some (client, slots, b)) :
    s.client.global.blockedUntil ≤ client.global.blockedUntil := by
  obtain ⟨-, rfl⟩ | ⟨-, -, rfl⟩ := ClientState.bucketSlow_cases hb <;> exact le_rfl

theorem arrive_loops (hp : s.pc p = .started) :
    LoopStep cfg p s ({ s with
      deadline := Function.update s.deadline p (s.now + cfg.queueTimeout) }.goto p
        (.acquire 0 .lookup)) := by
  have hl : (s.pc p).loop = .before := congrArg TripPc.loop hp
  have ht : (({ s with deadline := Function.update s.deadline p (s.now + cfg.queueTimeout) }.goto
      p (.acquire 0 .lookup)).pc p).loop = (TripPc.acquire 0 .lookup).loop :=
    congrArg TripPc.loop (goto_pc_self _ p _)
  refine ⟨?_, ?_, .inr ⟨hl, rfl⟩, le_rfl⟩
  · rw [hl, ht]
    exact .arrive (Function.update_self ..)
  · rw [hl, ht]
    rfl

theorem dispatch_loops (hp : s.pc p = .held h .dispatch) :
    LoopStep cfg p s
      ((s.log (.dispatch p (cfg.request p).routeHash s.now)).goto p (.held h .inFlight)) := by
  have hl : (s.pc p).loop = (TripPc.held h .dispatch).loop := congrArg TripPc.loop hp
  have ht : (((s.log (.dispatch p (cfg.request p).routeHash s.now)).goto p
      (.held h .inFlight)).pc p).loop = (TripPc.held h .inFlight).loop :=
    congrArg TripPc.loop (goto_pc_self _ p _)
  refine ⟨?_, ?_, .inl rfl, le_rfl⟩
  · rw [hl, ht]
    exact .dispatch
  · rw [hl, ht]
    exact List.countP_cons_of_pos (beq_self_eq_true p)

theorem learn_loops {r : Response} {client : ClientState π} {slots : ResourceBudget} {target : Nat}
    (hp : s.pc p = .held h (.learn r))
    (hl : s.client.learnBucket (cfg.request p).routeHash
      (canonicalHash r.info.bucket (cfg.request p).majorKey) h.bucket s.slots =
        (client, slots, target)) :
    LoopStep cfg p s
      ((s.withMaps client slots).goto p (.learned h target (.validationStore r))) := by
  have hready := ClientState.learnBucket_readyAt hl
  have hglobal := (ClientState.learnBucket_frame hl).2.2
  refine goto_loops hp ⟨rfl, rfl, ?_⟩ rfl (.learn ?_ ?_)
  · change _ ≤ client.global.blockedUntil
    rw [hglobal]
  · change _ ≤ (client.bucketAt target).readyAt
    rw [hready]
    exact le_max_left _ _
  · exact (ClientState.learnBucket_known hl).imp_right fun hb => ⟨_, hb⟩

theorem TripSteps.loops {a : TripAction} {pc pc' : TripPc} (hm : TripSteps cfg p s pc a u pc')
    (hp : s.pc p = pc) : LoopStep cfg p s (u.goto p pc') := by
  cases hm with
  | begin | beginTouch | lookup | lookupMiss | activate | touch | recheckMiss | endTouch
  | endEvicted => exact goto_stays hp ⟨rfl, rfl, le_rfl⟩ rfl
  | arrive => exact arrive_loops hp
  | unavailable => exact goto_finishes hp ⟨rfl, rfl, le_rfl⟩ rfl (by simp)
  | endActive => exact goto_loops hp ⟨rfl, rfl, le_rfl⟩ rfl .leave
  -- `acquireBucket`
  | create _ hb => exact goto_stays hp ⟨rfl, rfl, blockedUntil_bucketSlow hb⟩ rfl
  | createFull | deactivate | recheckFull =>
    exact goto_finishes hp ⟨rfl, rfl, le_rfl⟩ rfl (by simp)
  | @bucketGate _ _ _ _ r => cases r <;> exact goto_stays hp ⟨rfl, rfl, le_rfl⟩ rfl
  | recheck => exact goto_rechecked hp ⟨rfl, rfl, le_rfl⟩
  | recheckCreate _ hb => exact goto_rechecked hp ⟨rfl, rfl, blockedUntil_bucketSlow hb⟩
  -- the validation of the credential
  | ask | skip | superseded | confirmed | validationRelease | authorized =>
    exact goto_stays hp ⟨rfl, rfl, le_rfl⟩ rfl
  | @validation _ _ _ r =>
    cases r with
    | pending | granted => exact goto_stays hp ⟨rfl, rfl, le_rfl⟩ rfl
    | refused => exact goto_finishes hp ⟨rfl, rfl, le_rfl⟩ rfl (by simp)
  | unauthorized | replayFailed => exact goto_finishes hp ⟨rfl, rfl, le_rfl⟩ rfl (by simp)
  | replay => exact goto_loops hp ⟨rfl, rfl, le_rfl⟩ rfl .enter
  -- `knownRateLimit` before and after `wait`
  | knownBucket => exact goto_loops hp ⟨rfl, rfl, le_rfl⟩ rfl .know
  | refuse hk hx => exact goto_loops hp ⟨rfl, rfl, le_rfl⟩ rfl (.refuse hk hx)
  | proceed hx => exact goto_loops hp ⟨rfl, rfl, le_rfl⟩ rfl (.proceed hx)
  | reread => exact goto_loops hp ⟨rfl, rfl, le_rfl⟩ rfl .reread
  | current hk hpos => exact goto_loops hp ⟨rfl, rfl, le_rfl⟩ rfl (.current hk hpos)
  | expired hx => exact goto_loops hp ⟨rfl, rfl, le_rfl⟩ rfl (.expired hx)
  -- `bucketState.wait`
  | waitDone | waitCancelled => exact goto_finishes hp ⟨rfl, rfl, le_rfl⟩ rfl (by simp)
  | waitOpen hd => exact goto_loops hp ⟨rfl, rfl, le_rfl⟩ rfl (.check hd)
  | waitRead => exact goto_loops hp ⟨rfl, rfl, le_rfl⟩ rfl .read
  | waitClear hle hi => exact goto_loops hp ⟨rfl, rfl, le_rfl⟩ rfl (.clear hle hi)
  | waitQueue hle hi => exact goto_loops hp ⟨rfl, rfl, le_rfl⟩ rfl (.queue hle hi)
  | waitLate _ hx => exact goto_loops hp ⟨rfl, rfl, le_rfl⟩ rfl (.remember hx)
  | waitSleep _ hx => exact goto_loops hp ⟨rfl, rfl, le_rfl⟩ rfl (.sleep hx)
  | waitTimer | waitWoken => exact goto_loops hp ⟨rfl, rfl, le_rfl⟩ rfl .again
  -- `pacer.waitFor`
  | @pacerGate _ _ _ r =>
    cases r with
    | pending | granted => exact goto_stays hp ⟨rfl, rfl, le_rfl⟩ rfl
    | refused => exact goto_finishes hp ⟨rfl, rfl, le_rfl⟩ rfl (by simp)
  | pacerDone | pacerOpen | pacerTimer | pacerWoken | pacerCancelled =>
    exact goto_stays hp ⟨rfl, rfl, le_rfl⟩ rfl
  | pacerTurn hle => exact goto_loops hp ⟨rfl, rfl, le_rfl⟩ rfl (.turn hle)
  | pacerEarly => exact goto_loops hp ⟨rfl, rfl, le_rfl⟩ rfl .pace
  | pacerLate hpos hlate => exact goto_loops hp ⟨rfl, rfl, le_rfl⟩ rfl (.delay hpos hlate)
  | pacerSleep => exact goto_loops hp ⟨rfl, rfl, le_rfl⟩ rfl .rest
  | @pacerUnlock _ ret =>
    cases ret with
    | granted => exact goto_stays hp ⟨rfl, rfl, le_rfl⟩ rfl
    | delayed => exact goto_loops hp ⟨rfl, rfl, le_rfl⟩ rfl .report
    | failed => exact goto_finishes hp ⟨rfl, rfl, le_rfl⟩ rfl (by simp)
  -- the attempt and `observeResponse`
  | body | reserve | lock | observe => exact goto_stays hp ⟨rfl, rfl, le_rfl⟩ rfl
  | bodyFailed | reserveFailed | lost =>
    exact goto_finishes hp ⟨rfl, rfl, le_rfl⟩ rfl (by simp)
  | dispatch => exact dispatch_loops hp
  | respond => exact goto_loops hp ⟨rfl, rfl, le_rfl⟩ rfl .respond
  | blockGlobal hd =>
    refine goto_loops hp ⟨rfl, rfl, ?_⟩ rfl (.blockGlobal ?_)
    · exact (le_max_left _ _).trans_eq (Pacer.blockFor_blockedUntil ..).symm
    · rw [ClientState.blockGlobal, hd]
      rfl
  | spareGlobal hd =>
    refine goto_loops hp ⟨rfl, rfl, le_rfl⟩ rfl (.blockGlobal ?_)
    rw [ClientState.blockGlobal, hd]
    rfl
  | blockTime hd => exact goto_loops hp ⟨rfl, rfl, le_rfl⟩ rfl (.time hd)
  | spareBucket hd => exact goto_loops hp ⟨rfl, rfl, le_rfl⟩ rfl (.spare hd)
  | blockBucket =>
    exact goto_loops hp ⟨rfl, rfl, le_rfl⟩ rfl
      (.block (List.mem_cons_self ..) (Function.update_self ..))
  | unnamed => exact goto_loops hp ⟨rfl, rfl, le_rfl⟩ rfl (.learn le_rfl (.inl rfl))
  | learn _ _ hl => exact learn_loops hp hl
  -- the decision to retry, and the deferred calls
  | store | unstored | stored | prepared | unwindValidation | unwind | releaseTouch
  | releaseActive => exact goto_stays hp ⟨rfl, rfl, le_rfl⟩ rfl
  | limited hr => exact goto_loops hp ⟨rfl, rfl, le_rfl⟩ rfl (.limited hr)
  | answer | prepareFailed | unprepared | giveUp =>
    exact goto_finishes hp ⟨rfl, rfl, le_rfl⟩ rfl (by simp)
  | knownAfter => exact goto_loops hp ⟨rfl, rfl, le_rfl⟩ rfl .recheck
  | retry hx => exact goto_loops hp ⟨rfl, rfl, le_rfl⟩ rfl (.retry hx)
  | @releaseGate _ k => exact goto_stays hp ⟨rfl, rfl, le_rfl⟩ (loop_next k)

theorem trip_loops {a : TripAction} (hs : s.tripStep cfg p a = some t) : LoopStep cfg p s t := by
  obtain ⟨s', pc', hm, rfl⟩ := tripStep_trips hs
  exact hm.loops rfl

end SchedulerRun

namespace BucketView

variable {π : Type u}

structure Grows (v v' : BucketView π) : Prop where
  now_le : v.now ≤ v'.now
  events_subset : v.events ⊆ v'.events
  fresh_le : v.fresh ≤ v'.fresh
  readyAt_le : ∀ b < v.fresh, (v.bucketAt b).readyAt ≤ (v'.bucketAt b).readyAt

variable [DecidableEq π] {cfg : SchedulerConfig π} {K : BucketView π → π → UInt64 → Prop}
  {v v' : BucketView π} {p : π}

theorem TripMoves.grows (hm : TripMoves cfg K v p v') : v.Grows v' := by
  cases hm with
  | create | recreate =>
    refine ⟨le_rfl, fun _ he => he, Nat.le_succ _, fun b hb => ?_⟩
    simp [BucketView.goto, BucketView.create, hb.ne]
  | activate | deactivate | uncount =>
    exact ⟨le_rfl, fun _ he => he, le_rfl, fun b _ => (addActive_ready v _ _ b).1.ge⟩
  | touch | leave =>
    exact ⟨le_rfl, fun _ he => he, le_rfl, fun b _ => (readyAt_touch v _ b).ge⟩
  | gate | release =>
    exact ⟨le_rfl, fun _ he => he, le_rfl, fun b _ => (gate_ready v _ _ b).1.ge⟩
  | grant | dispatch =>
    exact ⟨le_rfl, fun _ he => List.mem_cons_of_mem _ he, le_rfl, fun _ _ => le_rfl⟩
  | block =>
    exact ⟨le_rfl, fun _ he => List.mem_cons_of_mem _ he, le_rfl,
      fun b _ => readyAt_le_block v _ b _⟩
  | learn => exact ⟨le_rfl, fun _ he => he, le_rfl, fun b _ => readyAt_le_learn v _ _ _ b⟩
  | _ => exact ⟨le_rfl, fun _ he => he, le_rfl, fun _ _ => le_rfl⟩

theorem Moves.grows {l : Option π} (hm : Moves cfg K v l v') : v.Grows v' := by
  cases hm with
  | tick d => exact ⟨by simp, fun _ he => he, le_rfl, fun _ _ => le_rfl⟩
  | same => exact ⟨le_rfl, fun _ he => he, le_rfl, fun _ _ => le_rfl⟩
  | trip hm => exact hm.grows
  | sweep hm => cases hm <;> exact ⟨le_rfl, fun _ he => he, le_rfl, fun _ _ => le_rfl⟩
  | evict hm => cases hm <;> exact ⟨le_rfl, fun _ he => he, le_rfl, fun _ _ => le_rfl⟩

end BucketView

namespace SchedulerRun

variable {π : Type u} [DecidableEq π] {cfg : SchedulerConfig π} {s t : SchedulerRun π} {p : π}
  {a : SchedulerAction π}

theorem step_grows (hs : s.step cfg a = some t) : s.view.Grows t.view :=
  (step_moves (K := fun _ _ _ => True) (fun _ _ _ _ _ _ _ => trivial) hs).grows

theorem blockedUntil_le_step (ho : s.view.Owned) (hp : (s.pc p).phase.isLive = true)
    (hs : s.step cfg a = some t) :
    s.client.global.blockedUntil ≤ t.client.global.blockedUntil := by
  cases a with
  | trip q a => exact (trip_loops hs).blockedUntil_le
  | clear =>
    obtain ⟨⟨now, hmu⟩, -, -⟩ := step_clear hs
    have hquiet : s.tableMu.quiet = false := ho.not_quiet hp
    rw [hmu] at hquiet
    cases hquiet
  | _ =>
    obtain ⟨table, limit, hclient⟩ := (step_aside rfl (by simp) hs).client_eq
    rw [hclient]

theorem deadline_step (hs : s.step cfg a = some t) (ha : a.mover ≠ some p) :
    t.deadline p = s.deadline p := by
  cases a with
  | trip q a =>
    have hq : p ≠ q := fun e => ha (congrArg some e.symm)
    obtain hd | ⟨-, hd⟩ := (trip_loops hs).deadline_eq
    · rw [hd]
    · rw [hd, Function.update_of_ne hq]
  | clear =>
    obtain ⟨-, -, rfl⟩ := step_clear hs
    rfl
  | _ => rw [(step_aside rfl (by simp) hs).deadline_eq]

theorem attempts_step (hs : s.step cfg a = some t) (ha : a.mover ≠ some p) :
    t.attempts p = s.attempts p := by
  unfold attempts
  obtain he | ⟨e, he, hd⟩ := events_step hs
  · rw [he]
  · rw [he, List.countP_cons_of_neg]
    cases e with
    | dispatch q ρ τ =>
      rintro hq
      obtain rfl := beq_iff_eq.mp hq
      exact ha (hd q ρ τ rfl).1
    | _ => exact Bool.false_ne_true

end SchedulerRun

end NirnProxy
