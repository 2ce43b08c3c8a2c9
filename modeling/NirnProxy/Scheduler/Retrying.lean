import NirnProxy.Scheduler.Loop

/-! The retry loop ends: every 429 blocks a limiter that the next attempt has to pass, so attempts
are at least `minimumRetryDelay` apart and the queue's deadline bounds their number. -/

universe u

namespace NirnProxy

open scoped Parties

/-- How far a pass of the loop has come; `checked` is behind the context check of `wait`. -/
inductive LoopProgress
  | unchecked
  | checked
  | sent
  | answered (r : Response)
  | limited

def LoopStage.progress : LoopStage → LoopProgress
  | .seeking | .top _ | .known _ _ _ | .checking _ => .unchecked
  | .waiting _ | .testing _ _ | .remembering _ _ | .rereading _ _ _ _ | .queueing _ | .pacing _ _
  | .delayed _ _ | .paced _ => .checked
  | .sent _ => .sent
  | .observed _ r | .timing _ r | .blocking _ r _ | .learning _ r | .learned _ r => .answered r
  | .limited _ _ | .retrying _ _ _ _ => .limited

theorem minimumRetryDelay_le_delay (r : Response) : minimumRetryDelay ≤ r.delay := by
  unfold Response.delay
  split
  · exact le_rfl
  · exact le_max_right _ _

theorem TripPc.cleared_of_loop {pc : TripPc} {n b : Nat} (hl : pc.loop = .attempt n (.paced b)) :
    pc.phase = .held b .cleared := by
  obtain ⟨h, pc', rfl, rfl⟩ := TripPc.held_of_loop hl rfl
  cases pc' with
  | body | reserve | dispatch => rfl
  | pacer pc =>
    cases pc with
    | unlock ret => cases ret <;> first | rfl | cases hl
    | _ => cases hl
  | _ => cases hl

theorem TripPc.wait_of_loop {pc : TripPc} {n b : Nat} (hl : pc.loop = .attempt n (.checking b)) :
    ∃ h : Held, pc = .held h .wait := by
  obtain ⟨h, pc', rfl, rfl⟩ := TripPc.held_of_loop hl rfl
  refine ⟨h, ?_⟩
  cases pc' with
  | wait => rfl
  | pacer pc =>
    cases pc with
    | unlock ret => cases ret <;> cases hl
    | _ => cases hl
  | _ => cases hl

theorem TripPc.isLive_of_loop {pc : TripPc} {n : Nat} {stage : LoopStage}
    (hl : pc.loop = .attempt n stage) : pc.phase.isLive = true := by
  cases pc with
  | acquire k pc' => cases pc' <;> rfl
  | release b pc' k => cases pc' <;> rfl
  | idle | beginTouch | started | returned | endTouch | ended => cases hl
  | _ => rfl

namespace SchedulerRun

variable {π : Type u} {cfg : SchedulerConfig π} {s t : SchedulerRun π} {p : π} {X : Int}
  {l l' : LoopPc}

def Blocked (cfg : SchedulerConfig π) (p : π) (X : Int) (s : SchedulerRun π) : Prop :=
  ∃ readyAt, X ≤ readyAt ∧ .block (cfg.request p).routeHash readyAt ∈ s.events

def Paused (cfg : SchedulerConfig π) (p : π) (X : Int) (s : SchedulerRun π) : Prop :=
  (cfg.request p).interaction = false ∧ X ≤ s.client.global.blockedUntil

def Cooling (cfg : SchedulerConfig π) (p : π) (X : Int) (b : Nat) (s : SchedulerRun π) : Prop :=
  Paused cfg p X s ∨
    Blocked cfg p X s ∧ b < s.client.fresh ∧ X ≤ (s.client.bucketAt b).readyAt

def Awaits (cfg : SchedulerConfig π) (p : π) (X : Int) (s : SchedulerRun π) : LoopPc → Prop
  | .before | .attempt _ (.sent _) => False
  | .attempt _ (.paced _) => Blocked cfg p X s
  | .attempt _ (.observed _ r) => r.tooManyRequests = true ∧ X ≤ s.now + minimumRetryDelay
  | .attempt _ (.timing _ r) => r.tooManyRequests = true ∧ (Paused cfg p X s ∨
      r.bucketDelay (cfg.request p).interaction ≠ none ∧ X ≤ s.now + minimumRetryDelay)
  | .attempt _ (.blocking _ _ readyAt) => Paused cfg p X s ∨ X ≤ readyAt
  | .attempt _ (.learning b _) | .attempt _ (.learned b _) | .attempt _ (.limited b _) =>
    Cooling cfg p X b s
  | .attempt _ (.retrying _ _ now delay) => now ≤ s.now ∧
      (Paused cfg p X s ∨ Blocked cfg p X s ∧ X ≤ now + delay)
  | .attempt _ _ => Paused cfg p X s ∨ Blocked cfg p X s
  | .finished _ | .gone => True

def Pending (cfg : SchedulerConfig π) (p : π) (X : Int) (s : SchedulerRun π) (l : LoopPc) : Prop :=
  X ≤ s.now ∨ Awaits cfg p X s l

structure Later (s t : SchedulerRun π) : Prop where
  grows : s.view.Grows t.view
  blockedUntil_le : s.client.global.blockedUntil ≤ t.client.global.blockedUntil

theorem Blocked.mono (h : Blocked cfg p X s) (hst : Later s t) : Blocked cfg p X t := by
  obtain ⟨readyAt, hle, he⟩ := h
  exact ⟨readyAt, hle, hst.grows.events_subset he⟩

theorem Paused.mono (h : Paused cfg p X s) (hst : Later s t) : Paused cfg p X t :=
  ⟨h.1, h.2.trans hst.blockedUntil_le⟩

theorem Cooling.mono {b : Nat} (h : Cooling cfg p X b s) (hst : Later s t) :
    Cooling cfg p X b t := by
  obtain h | ⟨hb, hfresh, hle⟩ := h
  · exact .inl (h.mono hst)
  · exact .inr ⟨hb.mono hst, hfresh.trans_le hst.grows.fresh_le,
      hle.trans (hst.grows.readyAt_le b hfresh)⟩

theorem Awaits.mono (h : Awaits cfg p X s l) (hst : Later s t) : Awaits cfg p X t l := by
  have hnow : s.now ≤ t.now := hst.grows.now_le
  cases l with
  | before => exact h
  | attempt n stage =>
    cases stage with
    | sent b => exact h
    | paced b => exact Blocked.mono h hst
    | observed b r => exact ⟨h.1, by have := h.2; omega⟩
    | timing b r => exact ⟨h.1, h.2.imp (·.mono hst) fun hd => ⟨hd.1, by omega⟩⟩
    | blocking b r readyAt => exact Or.imp_left (·.mono hst) h
    | learning b | learned b | limited b => exact Cooling.mono h hst
    | retrying b r now delay =>
      exact ⟨h.1.trans hnow, h.2.imp (·.mono hst) fun hd => ⟨hd.1.mono hst, hd.2⟩⟩
    | _ => exact Or.imp (·.mono hst) (·.mono hst) h
  | finished res | gone => trivial

theorem Pending.mono (h : Pending cfg p X s l) (hst : Later s t) : Pending cfg p X t l :=
  h.imp (fun hx => hx.trans hst.grows.now_le) (·.mono hst)

theorem Pending.le_now {n b : Nat} (h : Pending cfg p X s l) (hc : s.view.Cooled cfg)
    (hl : (s.pc p).loop = l) (hp : l = .attempt n (.paced b)) : X ≤ s.now := by
  obtain hx | hx := h
  · exact hx
  · subst hp
    obtain ⟨readyAt, hle, he⟩ := hx
    exact hle.trans (hc.waited p b .cleared (TripPc.cleared_of_loop hl) readyAt he)

theorem awaits_blockGlobal {n b : Nat} {r : Response}
    (h : Awaits cfg p X s (.attempt n (.observed b r))) (hst : Later s t)
    (ht : t.client = s.client.blockGlobal s.now r) :
    Awaits cfg p X t (.attempt n (.timing b r)) := by
  obtain ⟨hr, hx⟩ := h
  have hnow : s.now ≤ t.now := hst.grows.now_le
  refine ⟨hr, ?_⟩
  rw [Response.bucketDelay_eq hr]
  by_cases hg : (r.info.global && !(cfg.request p).interaction) = true
  · obtain ⟨hglobal, hi⟩ := Bool.and_eq_true_iff.mp hg
    refine .inl ⟨by simpa using hi, ?_⟩
    rw [ht, ClientState.blockGlobal, Response.globalDelay_eq hr, if_pos hglobal]
    simp only [Pacer.blockFor_blockedUntil]
    omega
  · rw [if_neg hg]
    exact .inr ⟨by simp, by omega⟩

theorem awaits_time {n b : Nat} {r : Response} {delay : Int}
    (h : Awaits cfg p X s (.attempt n (.timing b r))) (hst : Later s t)
    (hd : r.bucketDelay (cfg.request p).interaction = some delay) :
    Awaits cfg p X t (.attempt n (.blocking b r (s.now + delay))) := by
  obtain ⟨hr, hx⟩ := h
  refine hx.imp (·.mono hst) fun hx => ?_
  have hdelay : delay = r.delay := by
    rw [Response.bucketDelay_eq hr] at hd
    split at hd <;> cases hd
    rfl
  have := minimumRetryDelay_le_delay r
  omega

theorem awaits_block {n b : Nat} {r : Response} {readyAt : Int}
    (h : Awaits cfg p X s (.attempt n (.blocking b r readyAt))) (hst : Later s t)
    (hb : b < s.client.fresh) (he : .block (cfg.request p).routeHash readyAt ∈ t.events)
    (ht : t.client.bucketAt b = (s.client.bucketAt b).blockUntil readyAt) :
    Awaits cfg p X t (.attempt n (.learning b r)) := by
  obtain hx | hx := h
  · exact .inl (hx.mono hst)
  · refine .inr ⟨⟨readyAt, hx, he⟩, hb.trans_le hst.grows.fresh_le, ?_⟩
    rw [ht, BucketState.blockUntil_readyAt]
    exact hx.trans (le_max_right _ _)

theorem awaits_learn {n b target : Nat} {r : Response}
    (h : Awaits cfg p X s (.attempt n (.learning b r))) (hst : Later s t) (ho : s.view.Owned)
    (hready : (s.client.bucketAt b).readyAt ≤ (t.client.bucketAt target).readyAt)
    (htarget : target = b ∨ ∃ hash, s.client.table.buckets.lookup hash = some target) :
    Awaits cfg p X t (.attempt n (.learned target r)) := by
  obtain hx | ⟨hblocked, hb, hx⟩ := h
  · exact .inl (hx.mono hst)
  · refine .inr ⟨hblocked.mono hst, ?_, hx.trans hready⟩
    have hfresh : target < s.client.fresh := by
      obtain rfl | ⟨hash, hl⟩ := htarget
      · exact hb
      · exact ho.table hash target hl
    exact hfresh.trans_le hst.grows.fresh_le

theorem awaits_recheck {n target : Nat} {r : Response}
    (h : Awaits cfg p X s (.attempt n (.limited target r))) (hst : Later s t) :
    Awaits cfg p X t (.attempt n
      (.retrying target r s.now ((s.client.bucketAt target).retryAfter s.now))) := by
  refine ⟨hst.grows.now_le, h.imp (·.mono hst) fun hx => ⟨hx.1.mono hst, ?_⟩⟩
  rw [BucketState.retryAfter_eq_max]
  have := hx.2.2
  omega

theorem Pending.move (h : Pending cfg p X s l) (hl : (s.pc p).loop = l) (hst : Later s t)
    (hc : s.view.Cooled cfg) (hm : LoopMoves cfg p s t l l') : Pending cfg p X t l' := by
  by_cases hx : X ≤ s.now
  · exact .inl (hx.trans hst.grows.now_le)
  have ha := h.resolve_left hx
  cases hm with
  | stay => exact .inr (ha.mono hst)
  | arrive => exact ha.elim
  | enter | know | proceed | check | again | read | queue | sleep | remember | reread | pace | rest
  | delay => exact .inr (Awaits.mono ha hst)
  | clear _ hi =>
    refine .inr (Blocked.mono (ha.resolve_left fun hp => ?_) hst)
    cases hi.symm.trans hp.1
  | turn hturn =>
    refine .inr (Blocked.mono (ha.resolve_left fun hp => hx ?_) hst)
    exact hp.2.trans ((le_max_right _ _).trans hturn)
  | dispatch => exact (hx (h.le_now hc hl rfl)).elim
  | respond => exact ha.elim
  | blockGlobal ht => exact .inr (awaits_blockGlobal ha hst ht)
  | time hd => exact .inr (awaits_time ha hst hd)
  | spare hd => exact .inr (.inl ((ha.2.resolve_right fun hn => hn.1 hd).mono hst))
  | @block n b r readyAt he ht =>
    obtain ⟨h, pc, hpc, hb⟩ := TripPc.held_of_loop hl rfl
    refine .inr (awaits_block ha hst (hc.place p b ?_) he ht)
    change (s.pc p).phase.place = some b
    rw [hpc, ← hb]
    rfl
  | learn hready htarget => exact .inr (awaits_learn ha hst hc.toOwned hready htarget)
  | limited => exact .inr (Cooling.mono ha hst)
  | recheck => exact .inr (awaits_recheck ha hst)
  | retry =>
    exact .inr (ha.2.imp (·.mono hst) fun hb => hb.1.mono hst)
  | refuse | current | expired | report | finish | leave => exact .inr trivial

variable [DecidableEq π] {a : SchedulerAction π}

theorem trip_later {x : TripAction} (hs : s.tripStep cfg p x = some t) : Later s t :=
  ⟨step_grows (a := .trip p x) hs, (trip_loops hs).blockedUntil_le⟩

theorem later_of_attempt {n : Nat} {stage : LoopStage} (ho : s.view.Owned)
    (hl : (s.pc p).loop = .attempt n stage) (hs : s.step cfg a = some t) : Later s t :=
  ⟨step_grows hs, blockedUntil_le_step ho (TripPc.isLive_of_loop hl) hs⟩

theorem Pending.step (h : Pending cfg p X s (s.pc p).loop)
    (hr : (system cfg).Reach (NoCollision cfg) s) (hs : s.step cfg a = some t) :
    Pending cfg p X t (t.pc p).loop := by
  by_cases ha : a.mover = some p
  · cases a <;> cases ha
    exact h.move rfl (trip_later hs) (cooled_of_reach hr) (trip_loops hs).moves
  · rw [pc_frame hr.reachable hs ha]
    cases hl : (s.pc p).loop with
    | attempt n stage => exact hl ▸ h.mono (later_of_attempt (cooled_of_reach hr).toOwned hl hs)
    | before =>
      rw [hl] at h
      exact h.imp_left fun hx => hx.trans (step_grows hs).now_le
    | finished res | gone => exact .inr trivial

/-- `bucketState.wait` finds the context done once the deadline of the queue has passed. -/
def Timely (s : SchedulerRun π) (a : SchedulerAction π) : Prop :=
  ∀ p x h, a = .trip p x → s.pc p = .held h .wait → s.deadline p ≤ s.now → s.done p = true

/-- Before this instant `p` does not send its attempt number `n`, counted from zero. -/
def earliest (cfg : SchedulerConfig π) (s : SchedulerRun π) (p : π) (n : Nat) : Int :=
  s.deadline p - cfg.queueTimeout + n * minimumRetryDelay

def maxAttempts (cfg : SchedulerConfig π) : Nat :=
  1 + (cfg.queueTimeout / minimumRetryDelay).toNat

/-- How many attempts `p` has sent when it has come so far in pass `n`, and when the next can be. -/
def Spent (cfg : SchedulerConfig π) (p : π) (s : SchedulerRun π) (n : Nat) (l : LoopPc) :
    LoopProgress → Prop
  | .unchecked => s.attempts p = n ∧ Pending cfg p (s.earliest cfg p n) s l ∧
      (s.earliest cfg p n ≤ s.now ∨ s.earliest cfg p n < s.deadline p)
  | .checked => s.attempts p = n ∧ Pending cfg p (s.earliest cfg p n) s l ∧
      s.earliest cfg p n < s.deadline p
  | .sent => s.attempts p = n + 1 ∧ s.earliest cfg p n ≤ s.now
  | .answered r => s.attempts p = n + 1 ∧
      (r.tooManyRequests = true → Pending cfg p (s.earliest cfg p (n + 1)) s l)
  | .limited => s.attempts p = n + 1 ∧ Pending cfg p (s.earliest cfg p (n + 1)) s l

def Spends (cfg : SchedulerConfig π) (p : π) (s : SchedulerRun π) : LoopPc → Prop
  | .before => s.attempts p = 0
  | .attempt n stage => Spent cfg p s n (.attempt n stage) stage.progress
  | .finished _ | .gone => True

omit [DecidableEq π] in
theorem earliest_congr (h : t.deadline p = s.deadline p) (n : Nat) :
    t.earliest cfg p n = s.earliest cfg p n := by
  rw [earliest, earliest, h]

omit [DecidableEq π] in
theorem earliest_succ (s : SchedulerRun π) (p : π) (n : Nat) :
    s.earliest cfg p (n + 1) = s.earliest cfg p n + minimumRetryDelay := by
  rw [earliest, earliest, Nat.cast_succ, add_one_mul, add_assoc]

omit [DecidableEq π] in
theorem succ_le_maxAttempts {n : Nat} (h : s.earliest cfg p n < s.deadline p) :
    n + 1 ≤ maxAttempts cfg := by
  have hm : minimumRetryDelay = 50000000 := rfl
  unfold earliest at h
  unfold maxAttempts
  rw [hm] at h ⊢
  omega

theorem Spent.keep {n : Nat} {g : LoopProgress} (h : Spent cfg p s n l g) (hnow : s.now ≤ t.now)
    (ha : t.attempts p = s.attempts p) (hd : t.deadline p = s.deadline p)
    (hP : ∀ X, Pending cfg p X s l → Pending cfg p X t l') : Spent cfg p t n l' g := by
  cases g with
  | unchecked =>
    simp only [Spent, ha, hd, earliest_congr hd] at h ⊢
    exact ⟨h.1, hP _ h.2.1, h.2.2.imp_left fun hx => hx.trans hnow⟩
  | checked =>
    simp only [Spent, ha, hd, earliest_congr hd] at h ⊢
    exact ⟨h.1, hP _ h.2.1, h.2.2⟩
  | sent =>
    simp only [Spent, ha, earliest_congr hd] at h ⊢
    exact ⟨h.1, h.2.trans hnow⟩
  | answered r =>
    simp only [Spent, ha, earliest_congr hd] at h ⊢
    exact ⟨h.1, fun hr => hP _ (h.2 hr)⟩
  | limited =>
    simp only [Spent, ha, earliest_congr hd] at h ⊢
    exact ⟨h.1, hP _ h.2⟩

theorem Spends.keep {n : Nat} {stage stage' : LoopStage} (h : Spends cfg p s (.attempt n stage))
    (hg : stage'.progress = stage.progress) (hnow : s.now ≤ t.now)
    (ha : t.attempts p = s.attempts p) (hd : t.deadline p = s.deadline p)
    (hP : ∀ X, Pending cfg p X s (.attempt n stage) → Pending cfg p X t (.attempt n stage')) :
    Spends cfg p t (.attempt n stage') := by
  simp only [Spends, hg] at h ⊢
  exact h.keep hnow ha hd hP

omit [DecidableEq π] in
theorem lt_deadline_of_retry {n target : Nat} {r : Response} {now bucketDelay : Int}
    (hu : 0 ≤ cfg.upstreamTimeout)
    (h : Pending cfg p X s (.attempt n (.retrying target r now bucketDelay)))
    (hx : s.exceedsDeadline cfg p (s.knownRateLimit cfg p now bucketDelay).1 = false) :
    X ≤ s.now ∨ X < s.deadline p := by
  obtain hle | ⟨hnow, hw⟩ := h
  · exact .inl hle
  have hfst := knownRateLimit_fst cfg s p now bucketDelay
  generalize (s.knownRateLimit cfg p now bucketDelay).1 = d at hx hfst
  have hd : X ≤ now + d := by
    obtain ⟨hi, hle⟩ | ⟨-, hle⟩ := hw
    · rw [hi, if_neg Bool.false_ne_true, Pacer.retryAfter_eq_max] at hfst
      omega
    · omega
  rw [Bool.eq_false_iff, Ne, exceedsDeadline_iff] at hx
  omega

theorem Spends.move {x : TripAction} (hu : 0 ≤ cfg.upstreamTimeout)
    (h : Spends cfg p s l) (hl : (s.pc p).loop = l) (hl' : (t.pc p).loop = l')
    (hc : s.view.Cooled cfg) (htime : Timely s (.trip p x)) (hs : s.tripStep cfg p x = some t) :
    Spends cfg p t l' := by
  have hst := trip_later hs
  have hnow : s.now ≤ t.now := hst.grows.now_le
  obtain ⟨hm, ha, hd, -⟩ := trip_loops hs
  rw [hl, hl'] at hm ha
  rw [hl] at hd
  have hP : ∀ X, Pending cfg p X s l → Pending cfg p X t l' := fun X hX => hX.move hl hst hc hm
  have hd' : l ≠ .before → t.deadline p = s.deadline p := fun hne =>
    congrFun (hd.resolve_right fun h => hne h.1) p
  cases hm with
  | stay =>
    cases l with
    | attempt n stage => exact Spends.keep h rfl hnow (by simpa using ha) (hd' nofun) hP
    | before => exact ha.trans h
    | finished | gone => trivial
  | arrive hdeadline =>
    have he : t.earliest cfg p 0 ≤ t.now := by
      rw [earliest, hdeadline, Nat.cast_zero]
      omega
    exact ⟨ha.trans h, .inl he, .inl he⟩
  | enter | know | proceed => exact Spends.keep h rfl hnow ha (hd' nofun) hP
  | check hdone =>
    obtain ⟨held, hpc⟩ := TripPc.wait_of_loop hl
    have hlt : s.now < s.deadline p := by
      by_contra hle
      rw [htime p x held rfl hpc (not_lt.mp hle)] at hdone
      cases hdone
    have hc : Spent cfg p s _ _ .checked := ⟨h.1, h.2.1, h.2.2.elim (fun hx => hx.trans_lt hlt) id⟩
    exact hc.keep hnow ha (hd' nofun) hP
  | again =>
    have hc : Spent cfg p s _ _ .unchecked := ⟨h.1, h.2.1, .inr h.2.2⟩
    exact hc.keep hnow ha (hd' nofun) hP
  | read | clear | queue | sleep | remember | reread | turn | pace | rest | delay =>
    exact Spends.keep h rfl hnow ha (hd' nofun) hP
  | dispatch =>
    refine ⟨ha.trans (congrArg (· + 1) h.1), ?_⟩
    rw [earliest_congr (hd' nofun)]
    exact (h.2.1.le_now hc hl rfl).trans hnow
  | respond =>
    refine ⟨ha.trans h.1, fun hr => .inr ⟨hr, ?_⟩⟩
    rw [earliest_succ, earliest_congr (hd' nofun)]
    have := h.2
    omega
  | blockGlobal | time | spare | block | learn => exact Spends.keep h rfl hnow ha (hd' nofun) hP
  | limited hr =>
    have hc : Spent cfg p s _ _ .limited := ⟨h.1, h.2 hr⟩
    exact hc.keep hnow ha (hd' nofun) hP
  | recheck => exact Spends.keep h rfl hnow ha (hd' nofun) hP
  | @retry n target r now bucketDelay hx =>
    have hc : Spent cfg p s (n + 1) _ .unchecked :=
      ⟨h.1, h.2, lt_deadline_of_retry hu h.2 hx⟩
    exact hc.keep hnow ha (hd' nofun) hP
  | refuse | current | expired | report | finish | leave => trivial

theorem attempts_le_of_move (hle : s.attempts p ≤ maxAttempts cfg) (h : Spends cfg p s l)
    (hl : (s.pc p).loop = l) (hstep : LoopStep cfg p s t) : t.attempts p ≤ maxAttempts cfg := by
  have ha := hstep.attempts_eq
  have hm := hstep.moves
  rw [hl] at ha hm
  generalize (t.pc p).loop = l' at ha hm
  cases hm with
  | dispatch =>
    rw [ha, h.1]
    exact succ_le_maxAttempts h.2.2
  | stay => exact (ha.trans (by simp)).trans_le hle
  | finish => exact (ha.trans (by simp)).trans_le hle
  | _ => exact ha.trans_le hle

theorem attempts_le_maxAttempts (hu : 0 ≤ cfg.upstreamTimeout)
    (h : (system cfg).Reach (fun s a => NoCollision cfg s a ∧ Timely s a) s) (p : π) :
    s.attempts p ≤ maxAttempts cfg ∧ Spends cfg p s (s.pc p).loop := by
  have hcooled : ∀ s, (system cfg).Reach (fun s a => NoCollision cfg s a ∧ Timely s a) s →
      (system cfg).Reachable s ∧ s.view.Cooled cfg := fun s hr =>
    ⟨hr.reachable, cooled_of_reach (hr.mono fun _ _ hc => hc.1)⟩
  refine System.Reach.invariant_with
    (I := fun s => s.attempts p ≤ maxAttempts cfg ∧ Spends cfg p s (s.pc p).loop) hcooled ?_
    (fun s a t hr _ ih hc hs => ?_) h
  · rintro _ ⟨now, rfl⟩
    exact ⟨Nat.zero_le _, rfl⟩
  · replace hs : s.step cfg a = some t := hs
    by_cases ha : a.mover = some p
    · cases a <;> cases ha
      refine ⟨?_, ih.2.move hu rfl rfl hr.2 hc.2 hs⟩
      exact attempts_le_of_move ih.1 ih.2 rfl (trip_loops hs)
    · have hd := deadline_step hs ha
      have hattempts := attempts_step hs ha
      rw [pc_frame hr.1 hs ha, hattempts]
      refine ⟨ih.1, ?_⟩
      cases hl : (s.pc p).loop with
      | attempt n stage =>
        have hst := later_of_attempt hr.2.toOwned hl hs
        rw [hl] at ih
        exact ih.2.keep rfl hst.grows.now_le hattempts hd fun X hX => hX.mono hst
      | before =>
        rw [hl] at ih
        exact hattempts.trans ih.2
      | finished res | gone => trivial

/-- The retry loop ends whatever Discord answers.  An attempt that follows a 429 is not sent before
`minimumRetryDelay` has passed since that 429 was observed; so a request whose context ends at its
deadline sends at most one attempt more than there are such delays in the queue's timeout. -/
theorem retries_bounded (cfg : SchedulerConfig π) (hu : 0 ≤ cfg.upstreamTimeout) :
    (∀ s p held r, (system cfg).Reach (NoCollision cfg) s → s.pc p = .held held (.observe r) →
      r.tooManyRequests = true → ∀ t held', (system cfg).Leads (NoCollision cfg) s t →
      t.pc p = .held held' .dispatch → s.now + minimumRetryDelay ≤ t.now) ∧
    (∀ s p, (system cfg).Reach (fun s a => NoCollision cfg s a ∧ Timely s a) s →
      s.attempts p ≤ 1 + (cfg.queueTimeout / minimumRetryDelay).toNat) := by
  refine ⟨fun s p held r hs hp hr t held' hlead ht => ?_, fun s p hs =>
    (attempts_le_maxAttempts hu hs p).1⟩
  have hstart : Pending cfg p (s.now + minimumRetryDelay) s (s.pc p).loop := by
    rw [hp]
    exact .inr ⟨hr, le_rfl⟩
  have hpending : Pending cfg p (s.now + minimumRetryDelay) t (t.pc p).loop :=
    hlead.keeps (I := fun u => Pending cfg p (s.now + minimumRetryDelay) u (u.pc p).loop)
      (J := (system cfg).Reach (NoCollision cfg)) (fun _ hr => hr)
      (fun _ _ _ hr hI _ hs => hI.step hr hs) hs hstart
  exact hpending.le_now (cooled_of_reach (hlead.reach hs)) rfl (congrArg TripPc.loop ht)

def prompt [Fintype π] (cfg : SchedulerConfig π) (s : SchedulerRun π) (a : SchedulerAction π) :
    Bool :=
  apart cfg s a && match a with
    | .trip p _ => match s.pc p with
      | .held _ .wait => decide (s.now < s.deadline p) || s.done p
      | _ => true
    | _ => true

omit [DecidableEq π] in
theorem noCollision_of_prompt [Fintype π] (s : SchedulerRun π) (a : SchedulerAction π)
    (h : prompt cfg s a = true) : NoCollision cfg s a ∧ Timely s a := by
  obtain ⟨hapart, htimely⟩ := Bool.and_eq_true_iff.mp h
  refine ⟨noCollision_of_apart s a hapart, fun p x held ha hp hle => ?_⟩
  subst ha
  simp only [hp, Bool.or_eq_true, decide_eq_true_eq] at htimely
  exact htimely.resolve_left (not_lt.mpr hle)

def shortly : Response := ⟨429, ⟨[], 0, Duration.second, false⟩, false⟩

open TripAction in
def refusedOnce : List (SchedulerAction (Fin 3)) :=
  acts 0 (arrive ++ acquire false ++ proceed ++ pace ++ send ++ [.respond (some shortly)])

open TripAction in
def triedAgain : List (SchedulerAction (Fin 3)) :=
  acts 0 ([.go, .go, .go, .go, .go, .go, .go, .prepare (some true), .go, .go, .go, .go, .go] ++
    acquire true ++ [.go, .go, .go, .go, .go]) ++
  [.tick 1000000000] ++
  acts 0 ([.timer, .go, .go, .go] ++ pace ++ [.oracle true, .oracle true])

theorem retries_bounded_triedAgain :
    ∃ s t : SchedulerRun (Fin 3), ∃ held held' : Held, s.pc 0 = .held held (.observe shortly) ∧
      t.pc 0 = .held held' .dispatch ∧ s.now + minimumRetryDelay ≤ t.now ∧
      t.attempts 0 ≤ 12001 := by
  have hfirst : (((system (twoRoutes 3)).check (prompt (twoRoutes 3))).run (start (twoRoutes 3) 0)
      refusedOnce).map (fun s => s.pc 0) = some (.held ⟨0, 0, false⟩ (.observe shortly)) := by
    decide +kernel
  have hsecond : (((system (twoRoutes 3)).check (prompt (twoRoutes 3))).run (start (twoRoutes 3) 0)
      (refusedOnce ++ triedAgain)).map (fun s => s.pc 0) =
        some (.held ⟨0, 1, false⟩ .dispatch) := by
    decide +kernel
  obtain ⟨s, hs, hpc⟩ := Option.map_eq_some_iff.mp hfirst
  obtain ⟨t, ht, hpc'⟩ := Option.map_eq_some_iff.mp hsecond
  have hreach : (system (twoRoutes 3)).Reach
      (fun s a => NoCollision (twoRoutes 3) s a ∧ Timely s a) s :=
    System.Reach.of_check noCollision_of_prompt (System.Reachable.run (.init ⟨0, rfl⟩) hs)
  have hlead := System.Leads.of_run noCollision_of_prompt (System.run_of_append hs ht)
  have hmax : 1 + ((twoRoutes 3).queueTimeout / minimumRetryDelay).toNat = 12001 := by
    decide +kernel
  obtain ⟨hspaced, hbound⟩ := retries_bounded (twoRoutes 3) (by decide)
  refine ⟨s, t, _, _, hpc, hpc', ?_, (hbound t 0 (hlead.reach hreach)).trans_eq hmax⟩
  exact hspaced s 0 _ shortly (hreach.mono fun _ _ h => h.1) hpc rfl t _
    (hlead.mono fun _ _ h => h.1) hpc'

end SchedulerRun

end NirnProxy
