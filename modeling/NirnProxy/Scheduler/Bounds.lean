import NirnProxy.Scheduler.Remembered

/-! No header blocks a limiter for longer than a day: what `parseRateLimitHeaders` reads is cut to
`maximumRateLimitDelay`, and no run of the scheduler makes more of it. -/

universe u

namespace NirnProxy

open Strings
open scoped Parties

/-- The longest delay that can be read from a header, with the slack. -/
def longestCooldown : Int := maximumRateLimitDelay + rateLimitHeaderSlack

section Header

variable {std : TextFunctions} {header : Header} {status : Nat} {now d : Int}

theorem clampSeconds_le (seconds : ℚ) : clampSeconds seconds ≤ maximumRateLimitDelay := by
  unfold clampSeconds
  split
  · exact le_rfl
  · rename_i hshort
    have hscale : seconds * Duration.second ≤ (maximumRateLimitDelay : ℚ) := by
      have hday : (maximumRateLimitDelay : ℚ) = 24 * 60 * 60 * Duration.second := by
        norm_num [maximumRateLimitDelay, Duration.hour, Duration.minute]
        ring
      rw [hday]
      exact mul_le_mul_of_nonneg_right (le_of_lt (not_le.mp hshort)) (by norm_num [cast_second])
    exact Int.floor_le_iff.mpr (by linarith)

theorem Header.parseReset_le (h : header.parseReset std status now = .ok d) :
    d ≤ maximumRateLimitDelay := by
  have hzero : (0 : Int) ≤ maximumRateLimitDelay := by decide
  unfold parseReset at h
  split at h
  · split at h
    · split at h <;> cases h
      exact clampSeconds_le _
    · cases h
  · split at h
    · split at h <;> cases h
      split
      · exact hzero
      · exact clampSeconds_le _
    · cases h
      exact hzero

theorem parseRateLimitHeaders_le (std : TextFunctions) (header : Option Header) (status : Nat)
    (now : Int) : (parseRateLimitHeaders std header status now).1.resetAfter ≤ longestCooldown := by
  have hzero : (0 : Int) ≤ longestCooldown := by decide
  have hslack : (0 : Int) ≤ rateLimitHeaderSlack := by decide
  unfold parseRateLimitHeaders
  split
  · exact hzero
  · split
    · exact hzero
    · unfold Header.parseFields
      simp only
      split
      · exact hzero
      · split
        · exact hzero
        · rename_i resetAfter hreset
          have hle := Header.parseReset_le hreset
          simp only [longestCooldown]
          split <;> omega

end Header

namespace Response

variable {r : Response} {d : Int}

def Moderate (r : Response) : Prop := r.info.resetAfter ≤ longestCooldown

theorem moderate_read (std : TextFunctions) (header : Option Header) (status : Nat) (now : Int) :
    (Response.read std header status now).Moderate :=
  parseRateLimitHeaders_le std header status now

theorem minimumRetryDelay_le : minimumRetryDelay ≤ longestCooldown := by decide

theorem Moderate.globalDelay_le (h : r.Moderate) (hd : r.globalDelay = some d) :
    max d minimumRetryDelay ≤ longestCooldown := by
  unfold globalDelay at hd
  split at hd <;> cases hd
  refine max_le ?_ minimumRetryDelay_le
  split
  · exact minimumRetryDelay_le
  · exact h

theorem Moderate.bucketDelay_le {interaction : Bool} (h : r.Moderate)
    (hd : r.bucketDelay interaction = some d) : d ≤ longestCooldown := by
  unfold bucketDelay at hd
  split at hd
  · split at hd <;> cases hd
    exact minimumRetryDelay_le
  · split at hd
    · split at hd <;> cases hd
      exact max_le h minimumRetryDelay_le
    · split at hd <;> cases hd
      split
      · exact minimumRetryDelay_le
      · exact h

end Response

namespace ClientState

variable {π : Type u} {s s' : ClientState π} {T : Int}

structure OpenBy (T : Int) (s : ClientState π) : Prop where
  bucket : ∀ b, (s.bucketAt b).readyAt ≤ T
  global : s.global.blockedUntil ≤ T

theorem OpenBy.mono {T' : Int} (h : s.OpenBy T) (hle : T ≤ T') : s.OpenBy T' :=
  ⟨fun b => (h.bucket b).trans hle, h.global.trans hle⟩

theorem OpenBy.update {b : Nat} {x : BucketState π} (h : s.OpenBy T) (hx : x.readyAt ≤ T) :
    { s with bucketAt := Function.update s.bucketAt b x }.OpenBy T := by
  refine ⟨fun c => ?_, h.global⟩
  simp only
  by_cases hc : c = b
  · subst hc
    rwa [Function.update_self]
  · rw [Function.update_of_ne hc]
    exact h.bucket c

theorem OpenBy.onBucket {b : Nat} {f : BucketState π → BucketState π} (h : s.OpenBy T)
    (hf : ∀ x, (f x).readyAt = x.readyAt) : (s.onBucket b f).OpenBy T :=
  h.update ((hf _).trans_le (h.bucket b))

theorem OpenBy.blockUntil {b : Nat} {x : Int} (h : s.OpenBy T) (hx : x ≤ T) :
    (s.onBucket b (·.blockUntil x)).OpenBy T := by
  refine h.update ?_
  rw [BucketState.blockUntil_readyAt]
  exact max_le (h.bucket b) hx

theorem OpenBy.bucketSlow {now : Int} {r : UInt64} {slots slots' : ResourceBudget} {b : Nat}
    (h : s.OpenBy T) (hT : zeroTime ≤ T) (hs : s.bucketSlow now r slots = some (s', slots', b)) :
    s'.OpenBy T := by
  obtain ⟨-, rfl⟩ | ⟨-, -, rfl⟩ := bucketSlow_cases hs
  · exact h
  · have hfresh := h.update (b := s.fresh) (x := .newBucketState s.maxWaiters now) hT
    exact ⟨hfresh.bucket, hfresh.global⟩

theorem OpenBy.learnBucket {r c : UInt64} {current b : Nat} {slots slots' : ResourceBudget}
    (h : s.OpenBy T) (hs : s.learnBucket r c current slots = (s', slots', b)) : s'.OpenBy T := by
  have hglobal := (learnBucket_frame hs).2.2
  refine ⟨?_, by rw [hglobal]; exact h.global⟩
  obtain rfl | ⟨-, hbuckets, -⟩ := learnBucket_cases hs
  · exact h.bucket
  · rw [hbuckets]
    split
    · exact h.bucket
    · exact (h.blockUntil (h.bucket current)).bucket

end ClientState

namespace SchedulerRun

variable {π : Type u} [DecidableEq π] {cfg : SchedulerConfig π} {s t : SchedulerRun π} {p : π}
  {h : Held} {T : Int} {a : TripAction}

def Blocks (s : SchedulerRun π) (T : Int) : HeldPc → Prop
  | .blockGlobal r => ∀ d, r.globalDelay = some d → s.now + max d minimumRetryDelay ≤ T
  | .blockBucket _ readyAt => readyAt ≤ T
  | _ => True

theorem TripSteps.openBy {s' : SchedulerRun π} {pc pc' : TripPc}
    (hm : TripSteps cfg p s pc a s' pc') (ho : s.client.OpenBy T) (hT : zeroTime ≤ T)
    (hb : ∀ h pc', pc = .held h pc' → s.Blocks T pc') : s'.client.OpenBy T := by
  cases hm with
  | create _ hc | recheckCreate _ hc => exact ho.bucketSlow hT hc
  | activate | touch | deactivate | releaseTouch | releaseActive => exact ho.onBucket fun _ => rfl
  | @bucketGate _ _ _ g | @releaseGate _ _ g =>
    exact ho.onBucket (f := fun bucket => { bucket with gate := g }) fun _ => rfl
  | blockGlobal hd =>
    refine ⟨ho.bucket, (Pacer.blockFor_blockedUntil ..).trans_le (max_le ho.global ?_)⟩
    exact hb _ _ rfl _ hd
  | blockBucket => exact ho.blockUntil (hb _ _ rfl)
  | learn _ _ hl => exact ho.learnBucket hl
  | _ => exact ⟨ho.bucket, ho.global⟩

theorem openBy_aside {a : SchedulerAction π} (ho : s.client.OpenBy T) (hT : zeroTime ≤ T)
    (ha : a.mover = none) (hs : s.step cfg a = some t) : t.client.OpenBy T := by
  by_cases hc : a = .clear
  · subst hc
    obtain ⟨-, -, rfl⟩ := step_clear hs
    exact ⟨ho.bucket, hT⟩
  · obtain ⟨table, limit, hclient⟩ := (step_aside ha hc hs).client_eq
    rw [hclient]
    exact ⟨ho.bucket, ho.global⟩

end SchedulerRun

/-- What a request that came at `arrived` has read by `now`.  A check reads the clock before it
reads the pacer, so what it makes of the two may be longer by the time in between. -/
def LoopPc.Within (arrived now : Int) : LoopPc → Prop
  | .attempt _ stage => arrived ≤ now ∧ match stage with
    | .known _ checked delay => arrived ≤ checked ∧ delay ≤ longestCooldown
    | .testing _ readyAt | .blocking _ _ readyAt => readyAt ≤ now + longestCooldown
    | .remembering _ delay | .pacing _ delay | .delayed _ delay => delay ≤ longestCooldown
    | .rereading _ delay checked bucketDelay =>
      delay ≤ longestCooldown ∧ arrived ≤ checked ∧ bucketDelay ≤ longestCooldown
    | .observed _ r | .timing _ r => r.Moderate
    | _ => True
  | .finished (.remembered delay _) => delay ≤ longestCooldown + (now - arrived)
  | _ => True

theorem LoopPc.Within.mono {l : LoopPc} {arrived now now' : Int} (h : l.Within arrived now)
    (hle : now ≤ now') : l.Within arrived now' := by
  cases l with
  | before | gone => trivial
  | finished res =>
    cases res with
    | remembered delay global =>
      simp only [LoopPc.Within] at h ⊢
      omega
    | _ => trivial
  | attempt n stage =>
    refine ⟨h.1.trans hle, ?_⟩
    cases stage with
    | testing | blocking => exact h.2.trans (by omega)
    | _ => exact h.2

namespace SchedulerRun

variable {π : Type u} [DecidableEq π] {cfg : SchedulerConfig π} {s t : SchedulerRun π} {p : π}

def arrived (cfg : SchedulerConfig π) (s : SchedulerRun π) (p : π) : Int :=
  s.deadline p - cfg.queueTimeout

/-- The responses are read from headers, and the clock is past Go's zero time. -/
def Reads (std : TextFunctions) (s : SchedulerRun π) (a : SchedulerAction π) : Prop :=
  zeroTime ≤ s.now ∧ ∀ p r, a = .trip p (.respond (some r)) →
    ∃ header status now, r = Response.read std header status now

structure Bounded (cfg : SchedulerConfig π) (s : SchedulerRun π) : Prop where
  limiters : s.client.OpenBy (s.now + longestCooldown)
  within : ∀ p, (s.pc p).loop.Within (s.arrived cfg p) s.now

omit [DecidableEq π] in
theorem retryAfter_le {b : Nat} (ho : s.client.OpenBy (s.now + longestCooldown)) :
    (s.client.bucketAt b).retryAfter s.now ≤ longestCooldown := by
  have hpos : (0 : Int) ≤ longestCooldown := by decide
  have hb := ho.bucket b
  rw [BucketState.retryAfter_eq_max]
  omega

omit [DecidableEq π] in
theorem knownRateLimit_le (cfg : SchedulerConfig π) (p : π) {arrived checked bucketDelay : Int}
    (ho : s.client.OpenBy (s.now + longestCooldown)) (hnow : arrived ≤ s.now)
    (hchecked : arrived ≤ checked) (hb : bucketDelay ≤ longestCooldown) :
    (s.knownRateLimit cfg p checked bucketDelay).1 ≤ longestCooldown + (s.now - arrived) := by
  have hpos : (0 : Int) ≤ longestCooldown := by decide
  have hg := ho.global
  rw [knownRateLimit_fst, Pacer.retryAfter_eq_max]
  split <;> omega

omit [DecidableEq π] in
theorem within_move {l l' : LoopPc} (h : l.Within (s.arrived cfg p) s.now)
    (hm : LoopMoves cfg p s t l l') (ho : s.client.OpenBy (s.now + longestCooldown))
    (hnow : t.now = s.now) (hd : t.deadline p = s.deadline p ∨ l = .before)
    (hr : ∀ n b r, l = .attempt n (.sent b) → l' = .attempt n (.observed b r) → r.Moderate) :
    l'.Within (t.arrived cfg p) t.now := by
  have harrived : l ≠ .before → t.arrived cfg p = s.arrived cfg p := fun hl => by
    unfold arrived
    rw [hd.resolve_right hl]
  rw [hnow]
  cases hm with
  | stay =>
    obtain hd | rfl := hd
    · unfold arrived
      rwa [hd]
    · trivial
  | arrive hdeadline =>
    refine ⟨?_, trivial⟩
    unfold arrived
    rw [hdeadline]
    omega
  | finish hres =>
    cases ‹TripResult› with
    | remembered d g => exact (hres d g rfl).elim
    | _ => trivial
  | leave => trivial
  | know =>
    rw [harrived (by simp)]
    exact ⟨h.1, h.1, retryAfter_le ho⟩
  | refuse hk =>
    rw [harrived (by simp)]
    obtain ⟨harr, hchecked, hdelay⟩ := h
    have hle := knownRateLimit_le cfg p ho harr hchecked hdelay
    rwa [hk] at hle
  | read =>
    rw [harrived (by simp)]
    exact ⟨h.1, ho.bucket _⟩
  | remember =>
    rw [harrived (by simp)]
    exact ⟨h.1, by have := h.2; omega⟩
  | reread =>
    rw [harrived (by simp)]
    exact ⟨h.1, h.2, h.1, retryAfter_le ho⟩
  | current hk =>
    rw [harrived (by simp)]
    obtain ⟨harr, -, hchecked, hdelay⟩ := h
    have hle := knownRateLimit_le cfg p ho harr hchecked hdelay
    rwa [hk] at hle
  | expired =>
    rw [harrived (by simp)]
    obtain ⟨harr, hdelay, -, -⟩ := h
    simp only [LoopPc.Within]
    omega
  | pace =>
    rw [harrived (by simp)]
    exact ⟨h.1, by have := ho.global; omega⟩
  | delay =>
    rw [harrived (by simp)]
    exact h
  | report =>
    rw [harrived (by simp)]
    obtain ⟨harr, hdelay⟩ := h
    simp only [LoopPc.Within]
    omega
  | respond =>
    rw [harrived (by simp)]
    exact ⟨h.1, hr _ _ _ rfl rfl⟩
  | blockGlobal =>
    rw [harrived (by simp)]
    exact h
  | time hdelay =>
    rw [harrived (by simp)]
    exact ⟨h.1, by have := Response.Moderate.bucketDelay_le h.2 hdelay; omega⟩
  | enter | proceed | check | again | clear | queue | sleep | turn | rest | dispatch | spare | block
  | learn | limited | recheck | retry =>
    rw [harrived (by simp)]
    exact ⟨h.1, trivial⟩

theorem respond_of_loop {a : TripAction} {n m b c : Nat} {r : Response}
    (hl : (s.pc p).loop = .attempt n (.sent b)) (hs : s.tripStep cfg p a = some t)
    (ht : (t.pc p).loop = .attempt m (.observed c r)) : a = .respond (some r) := by
  obtain ⟨s', pc', hm, rfl⟩ := tripStep_trips hs
  rw [goto_pc_self] at ht
  obtain ⟨h, pc, hpc, -⟩ := TripPc.held_of_loop hl rfl
  rw [hpc] at hl hm
  cases hm with
  | lost => cases ht
  | respond =>
    cases ht
    rfl
  | @pacerUnlock _ ret => cases ret <;> cases hl
  | _ => cases hl

theorem trip_now {a : TripAction} (hs : s.tripStep cfg p a = some t) : t.now = s.now := by
  obtain ⟨s', pc', hm, rfl⟩ := tripStep_trips hs
  exact hm.now_eq

omit [DecidableEq π] in
theorem Bounded.blocks (h : s.Bounded cfg) {held : Held} {pc : HeldPc}
    (hp : s.pc p = .held held pc) : s.Blocks (s.now + longestCooldown) pc := by
  have hw := h.within p
  rw [hp] at hw
  cases pc with
  | blockGlobal r =>
    intro d hd
    have := Response.Moderate.globalDelay_le hw.2 hd
    omega
  | blockBucket r readyAt => exact hw.2
  | _ => trivial

theorem Bounded.trip {std : TextFunctions} {a : TripAction} (h : s.Bounded cfg)
    (hr : (system cfg).Reachable s) (hc : Reads std s (.trip p a))
    (hs : s.tripStep cfg p a = some t) : t.Bounded cfg := by
  have hnow := trip_now hs
  have hpos : (0 : Int) ≤ longestCooldown := by decide
  have hloop := trip_loops hs
  refine ⟨?_, fun q => ?_⟩
  · rw [hnow]
    obtain ⟨s', pc', hm, rfl⟩ := tripStep_trips hs
    exact hm.openBy h.limiters (hc.1.trans (by omega)) fun _ _ hp => h.blocks hp
  · by_cases hq : q = p
    · subst hq
      refine within_move (h.within q) hloop.moves h.limiters hnow ?_ fun n b r hl hl' => ?_
      · obtain hd | ⟨hbefore, -⟩ := hloop.deadline_eq
        · exact .inl (congrFun hd q)
        · exact .inr hbefore
      · obtain ⟨header, status, now, rfl⟩ := hc.2 q r (by rw [respond_of_loop hl hs hl'])
        exact Response.moderate_read std header status now
    · have ha : (SchedulerAction.trip p a).mover ≠ some q := fun e => hq (Option.some.inj e).symm
      have hs' : s.step cfg (.trip p a) = some t := hs
      have hw := h.within q
      rw [pc_frame hr hs' ha, arrived, deadline_step hs' ha, hnow]
      exact hw

theorem Bounded.aside {a : SchedulerAction π} (h : s.Bounded cfg) (hr : (system cfg).Reachable s)
    (hzero : zeroTime ≤ s.now) (ha : a.mover = none) (hs : s.step cfg a = some t) :
    t.Bounded cfg := by
  have hnow : s.now ≤ t.now := (step_grows hs).now_le
  have hpos : (0 : Int) ≤ longestCooldown := by decide
  refine ⟨?_, fun q => ?_⟩
  · exact openBy_aside (h.limiters.mono (by omega)) (by omega) ha hs
  · have hq : a.mover ≠ some q := by simp [ha]
    have hw := (h.within q).mono hnow
    rw [pc_frame hr hs hq, arrived, deadline_step hs hq]
    exact hw

theorem bounded_of_reach {std : TextFunctions} (h : (system cfg).Reach (Reads std) s)
    (hnow : zeroTime ≤ s.now) : s.Bounded cfg := by
  revert hnow
  refine System.Reach.invariant_with (I := fun s => zeroTime ≤ s.now → s.Bounded cfg)
    (J := fun s => (system cfg).Reachable s) (fun _ hs => hs.reachable) ?_
    (fun s a t hr _ ih hc hs _ => ?_) h
  · rintro _ ⟨now, rfl⟩ hnow
    have hpos : (0 : Int) ≤ longestCooldown := by decide
    have hle : zeroTime ≤ now + longestCooldown := hnow.trans (by simp only [start]; omega)
    exact ⟨⟨fun _ => hle, hle⟩, fun _ => trivial⟩
  · cases hm : a.mover with
    | none => exact (ih hc.1).aside hr hc.1 hm hs
    | some p =>
      cases a <;> cases hm
      exact (ih hc.1).trip hr hc hs

/-- Whatever Discord's headers say, no bucket and no pacer is ever blocked for more than a day and
the slack, and a rate limit that the proxy remembers is at most that, with the time that its request
has spent here.  The response announces it in whole seconds, rounded up. -/
theorem cooldown_bounded (std : TextFunctions) (cfg : SchedulerConfig π)
    (h : (system cfg).Reach (Reads std) s) (hnow : zeroTime ≤ s.now) :
    (∀ b, (s.client.bucketAt b).retryAfter s.now ≤ longestCooldown) ∧
      s.client.global.retryAfter s.now ≤ longestCooldown ∧
      ∀ p delay global, s.pc p = .returned (.remembered delay global) →
        delay ≤ longestCooldown + (s.now - s.arrived cfg p) ∧
        ∃ seconds, (rememberedRateLimitResponse delay global).get (ascii "Retry-After") =
            some (Text.formatInt seconds) ∧
          seconds * Duration.second <
            longestCooldown + (s.now - s.arrived cfg p) + Duration.second := by
  have hb := bounded_of_reach h hnow
  refine ⟨fun b => retryAfter_le hb.limiters, ?_, fun p delay global hp => ?_⟩
  · have hpos : (0 : Int) ≤ longestCooldown := by decide
    have hg := hb.limiters.global
    rw [Pacer.retryAfter_eq_max]
    omega
  · have hw := hb.within p
    rw [hp] at hw
    have hlt := retryAfterSeconds_lt (remembered_pos h.reachable hp)
    exact ⟨hw, retryAfterSeconds delay, get_retryAfter delay global,
      hlt.trans_le (Int.add_le_add_right hw _)⟩

def endless : Response :=
  .read wholeSeconds (some fun
    | .retryAfter => [ascii "1000000000"]
    | _ => []) 429 0

def onlyEndless (s : SchedulerRun (Fin 3)) (a : SchedulerAction (Fin 3)) : Bool :=
  decide (zeroTime ≤ s.now) && match a with
    | .trip _ (.respond (some r)) => r == endless
    | _ => true

theorem reads_of_onlyEndless (s : SchedulerRun (Fin 3)) (a : SchedulerAction (Fin 3))
    (h : onlyEndless s a = true) : Reads wholeSeconds s a := by
  obtain ⟨hzero, ha⟩ := Bool.and_eq_true_iff.mp h
  refine ⟨of_decide_eq_true hzero, ?_⟩
  rintro p r rfl
  exact ⟨_, _, _, beq_iff_eq.mp ha⟩

open TripAction in
/-- Request 0 gets the endless response, and request 2 of the same route is turned away with all
that is made of it. -/
def endlesslyBlocked : List (SchedulerAction (Fin 3)) :=
  acts 0 (arrive ++ acquire false ++ proceed ++ pace ++ send ++ observe endless ++
    [.go, .go, .go, .go, .prepare (some false), .go, .go, .go, .go, .go]) ++
  acts 2 (arrive ++ acquire true ++ [.go, .go, .oracle true, .go, .go, .go, .go, .go, .go])

theorem cooldown_bounded_endless :
    ∃ s : SchedulerRun (Fin 3),
      s.pc 2 = .returned (.remembered longestCooldown false) ∧
      (s.client.bucketAt 0).retryAfter s.now = longestCooldown ∧
      (∀ b, (s.client.bucketAt b).retryAfter s.now ≤ longestCooldown) ∧
      ∃ seconds, (rememberedRateLimitResponse longestCooldown false).get (ascii "Retry-After") =
          some (Text.formatInt seconds) ∧
        seconds * Duration.second <
          longestCooldown + (s.now - s.arrived hasty 2) + Duration.second := by
  have hrun : (((system hasty).check onlyEndless).run (start hasty 0) endlesslyBlocked).map
      (fun s => decide (s.pc 2 = .returned (.remembered longestCooldown false) ∧
        (s.client.bucketAt 0).retryAfter s.now = longestCooldown ∧ zeroTime ≤ s.now)) =
      some true := by
    decide +kernel
  obtain ⟨s, hs, hobs⟩ := Option.map_eq_some_iff.mp hrun
  obtain ⟨hpc, hready, hnow⟩ := of_decide_eq_true hobs
  have hreach : (system hasty).Reach (Reads wholeSeconds) s :=
    System.Reach.of_check reads_of_onlyEndless (System.Reachable.run (.init ⟨0, rfl⟩) hs)
  obtain ⟨hbucket, -, hremembered⟩ := cooldown_bounded wholeSeconds hasty hreach hnow
  exact ⟨s, hpc, hready, hbucket, (hremembered 2 _ _ hpc).2⟩

end SchedulerRun

end NirnProxy
