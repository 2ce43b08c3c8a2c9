import NirnProxy.Scheduler.Machine
import Mathlib.Tactic.Linarith

/-! `observeResponse` as one call, what it leaves on the limiter that the next attempt has to pass,
and the steps of a request that make it up. -/

universe u

namespace NirnProxy

def Response.read (std : TextFunctions) (header : Option Header) (status : Nat) (now : Int) :
    Response :=
  let (info, err) := parseRateLimitHeaders std header status now
  ⟨status, info.toRateLimitInfo, err.isSome⟩

def Response.delay (r : Response) : Int :=
  if r.malformed then minimumRetryDelay else max r.info.resetAfter minimumRetryDelay

theorem Response.globalDelay_eq {r : Response} (h : r.tooManyRequests = true) :
    r.globalDelay = if r.info.global then
      some (if r.malformed then minimumRetryDelay else r.info.resetAfter) else none := by
  simp [Response.globalDelay, h]

theorem Response.bucketDelay_eq {r : Response} (h : r.tooManyRequests = true)
    (interaction : Bool) :
    r.bucketDelay interaction =
      if r.info.global && !interaction then none else some r.delay := by
  have hmax : (if r.info.resetAfter < minimumRetryDelay then minimumRetryDelay
      else r.info.resetAfter) = max r.info.resetAfter minimumRetryDelay := by
    split <;> omega
  unfold Response.bucketDelay Response.delay
  cases r.malformed <;> cases r.info.global <;> cases interaction <;> simp [h, hmax]

namespace ClientState

variable {π : Type u} (request : RouteRequest) (kind : AuthType) (disable401Lock : Bool)
  (now : Int) (bucket : Nat) (r : Response) (slots : ResourceBudget) (s : ClientState π)

def lockUnauthorized : ClientState π :=
  if r.unauthorized && !request.interaction && kind != .none && !disable401Lock then
    { s with validity := .invalid }
  else s

def blockGlobal : ClientState π :=
  match r.globalDelay with
  | some delay => { s with global := s.global.blockFor now delay }
  | none => s

def blockBucket : ClientState π :=
  match r.bucketDelay request.interaction with
  | some delay => s.onBucket bucket (·.blockUntil (now + delay))
  | none => s

/-- `learnBucket`, with the test before its critical section. -/
def learnTarget : ClientState π × ResourceBudget × Nat :=
  if r.info.bucket = [] then (s, slots, bucket)
  else s.learnBucket request.routeHash (canonicalHash r.info.bucket request.majorKey) bucket slots

/-- `observeResponse` up to `learnBucket`. -/
def blockLimiters : ClientState π :=
  ((s.lockUnauthorized request kind disable401Lock r).blockGlobal now r).blockBucket request now
    bucket r

def observeResponse : ClientState π × ResourceBudget × Nat :=
  (s.blockLimiters request kind disable401Lock now bucket r).learnTarget request bucket r slots

/-- Where a route goes that Discord puts into the bucket `name`: to what stands for that bucket in
the maps, unless there is no slot for the move. -/
def destination (name : List UInt8) : Nat :=
  let plan := s.table.plan request.routeHash (canonicalHash name request.majorKey) bucket
  if name = [] ∨ slots.reserve (plan.additions - plan.removals) = none then bucket
  else plan.target

/-- Until when the limiter is blocked that the next attempt of a request has to pass: the pacer
after a global response to an ordinary request, and a bucket after every other. -/
def limiter (interaction global : Bool) (bucket : Nat) (s : ClientState π) : Int :=
  if global && !interaction then s.global.blockedUntil else (s.bucketAt bucket).readyAt

variable {request kind disable401Lock now bucket r slots s}

theorem learnBucket_readyAt {s' : ClientState π} {slots' : ResourceBudget} {route c : UInt64}
    {target : Nat} (h : s.learnBucket route c bucket slots = (s', slots', target)) :
    (s'.bucketAt target).readyAt =
      max (s.bucketAt bucket).readyAt (s.bucketAt target).readyAt := by
  unfold learnBucket at h
  simp only at h
  split at h
  · cases h
    simp
  · cases h
    dsimp only
    split
    · rename_i htarget
      rw [htarget, max_self]
    · simp [onBucket, BucketState.merge, BucketState.blockUntil_readyAt, max_comm]

theorem limiter_learnTarget (interaction global : Bool) :
    (s.learnTarget request bucket r slots).1.limiter interaction global
        (s.learnTarget request bucket r slots).2.2 =
      max (s.limiter interaction global bucket)
        (s.limiter interaction global (s.learnTarget request bucket r slots).2.2) := by
  unfold learnTarget
  split
  · simp
  · obtain ⟨s', slots', target, h⟩ : ∃ s' slots' target, s.learnBucket request.routeHash
        (canonicalHash r.info.bucket request.majorKey) bucket slots = (s', slots', target) :=
      ⟨_, _, _, rfl⟩
    simp only [h, limiter]
    split
    · rw [(learnBucket_frame h).2.2, max_self]
    · exact learnBucket_readyAt h

theorem learnTarget_target :
    (s.learnTarget request bucket r slots).2.2 =
      s.destination request bucket slots r.info.bucket := by
  unfold learnTarget destination
  by_cases hname : r.info.bucket = []
  · rw [if_pos hname, if_pos (.inl hname)]
  · rw [if_neg hname]
    simp only [hname, false_or]
    exact learnBucket_target rfl

theorem destination_congr {s' : ClientState π} (h : s'.table = s.table) (name : List UInt8) :
    s'.destination request bucket slots name = s.destination request bucket slots name := by
  rw [destination, destination, h]

theorem lockUnauthorized_eq (request : RouteRequest) (kind : AuthType) (disable401Lock : Bool)
    (r : Response) (s : ClientState π) :
    ∃ v, s.lockUnauthorized request kind disable401Lock r = { s with validity := v } := by
  unfold lockUnauthorized
  split
  · exact ⟨.invalid, rfl⟩
  · exact ⟨s.validity, rfl⟩

theorem blockGlobal_frame :
    (s.blockGlobal now r).table = s.table ∧ (s.blockGlobal now r).bucketAt = s.bucketAt := by
  unfold blockGlobal
  split <;> exact ⟨rfl, rfl⟩

theorem blockBucket_frame :
    (s.blockBucket request now bucket r).table = s.table ∧
      (s.blockBucket request now bucket r).global = s.global := by
  unfold blockBucket
  split <;> exact ⟨rfl, rfl⟩

theorem blockLimiters_table :
    (s.blockLimiters request kind disable401Lock now bucket r).table = s.table := by
  obtain ⟨v, hv⟩ := s.lockUnauthorized_eq request kind disable401Lock r
  rw [blockLimiters, blockBucket_frame.1, blockGlobal_frame.1, hv]

theorem blockGlobal_blockedUntil (h : r.tooManyRequests = true) (hglobal : r.info.global = true) :
    (s.blockGlobal now r).global.blockedUntil = max s.global.blockedUntil (now + r.delay) := by
  rw [blockGlobal, r.globalDelay_eq h, if_pos hglobal]
  simp only [Pacer.blockFor_blockedUntil, Response.delay]
  split
  · rw [max_self]
  · rfl

theorem blockBucket_readyAt (h : r.tooManyRequests = true)
    (hbucket : ¬(r.info.global && !request.interaction) = true) (b : Nat) :
    ((s.blockBucket request now bucket r).bucketAt b).readyAt =
      if b = bucket then max (s.bucketAt b).readyAt (now + r.delay)
      else (s.bucketAt b).readyAt := by
  rw [blockBucket, r.bucketDelay_eq h, if_neg hbucket]
  by_cases hb : b = bucket
  · subst hb
    simp [onBucket, BucketState.blockUntil_readyAt]
  · simp [onBucket, hb]

theorem limiter_blockLimiters (h : r.tooManyRequests = true) (b : Nat) :
    (s.blockLimiters request kind disable401Lock now bucket r).limiter request.interaction
        r.info.global b =
      if (r.info.global && !request.interaction) = true ∨ b = bucket then
        max (s.limiter request.interaction r.info.global b) (now + r.delay)
      else s.limiter request.interaction r.info.global b := by
  obtain ⟨v, hv⟩ := s.lockUnauthorized_eq request kind disable401Lock r
  rw [blockLimiters, hv]
  unfold limiter
  by_cases hpacer : (r.info.global && !request.interaction) = true
  · have hglobal := (Bool.and_eq_true_iff.mp hpacer).1
    simp only [hpacer, true_or, if_true, blockBucket_frame.2, blockGlobal_blockedUntil h hglobal]
  · simp only [if_neg hpacer, or_iff_right hpacer, blockBucket_readyAt h hpacer,
      blockGlobal_frame.2]

/-- The limiter of the next attempt after `observeResponse`: whatever blocked it before, and the
delay of the response. -/
theorem limiter_observeResponse (h : r.tooManyRequests = true) :
    (s.observeResponse request kind disable401Lock now bucket r slots).1.limiter
        request.interaction r.info.global
        (s.observeResponse request kind disable401Lock now bucket r slots).2.2 =
      max (max (s.limiter request.interaction r.info.global bucket)
          (s.limiter request.interaction r.info.global
            (s.destination request bucket slots r.info.bucket)))
        (now + r.delay) := by
  rw [observeResponse, limiter_learnTarget, learnTarget_target,
    destination_congr blockLimiters_table, limiter_blockLimiters h, limiter_blockLimiters h,
    if_pos (.inr rfl)]
  split
  · rw [max_max_max_comm, max_self]
  · rw [max_right_comm]

end ClientState

/-- Remaining requests are not announced, or announced as a number. -/
def Header.ReadsRemaining (header : Header) : Prop :=
  header.get .remaining = [] ∨ (Text.parseInt32 (header.get .remaining)).any (0 ≤ ·)

/-- What a `Retry-After` of `d` seconds asks for, in nanoseconds. -/
def requiredDelay (d : ℚ) : ℚ :=
  max minimumRetryDelay (min (d * Duration.second) maximumRateLimitDelay)

section RetryAfter

variable {std : TextFunctions} {header : Header} {d : ℚ}

theorem Header.parseRemaining_cases (std : TextFunctions) (header : Header) :
    (header.ReadsRemaining ∧ ∃ n, header.parseRemaining std = .ok n) ∨
      ¬header.ReadsRemaining ∧ ∃ err, header.parseRemaining std = .error err := by
  unfold ReadsRemaining parseRemaining
  split
  · exact .inl ⟨.inl ‹_›, _, rfl⟩
  · rename_i hne
    rw [or_iff_right hne]
    cases Text.parseInt32 (header.get .remaining) with
    | none => exact .inr ⟨by simp, _, rfl⟩
    | some n =>
      by_cases hn : 0 ≤ n
      · exact .inl ⟨by simpa using hn, n, if_pos hn⟩
      · exact .inr ⟨by simpa using hn, _, if_neg hn⟩

theorem Response.read_retryAfter (now : Int) (hretry : header.get .retryAfter ≠ [])
    (hparse : std.parseFloat (header.get .retryAfter) = some d) (hd : 0 ≤ d) :
    let r := Response.read std (some header) 429 now
    r.tooManyRequests = true ∧ r.info.global = header.parseGlobal std ∧
      r.info.bucket = header.get .bucket ∧
      (¬header.ReadsRemaining ∧ r.malformed = true ∨ header.ReadsRemaining ∧ r.malformed = false ∧
          r.info.resetAfter = clampSeconds d +
            if 0 < clampSeconds d then rateLimitHeaderSlack else 0) := by
  have hloud : ¬header.Silent := fun h => hretry h.2.2.2.1
  have hvalue : header.resetValue 429 = header.get .retryAfter := if_pos ⟨rfl, hretry⟩
  have hreset : header.parseReset std 429 now = .ok (clampSeconds d) := by
    simp only [Header.parseReset, hvalue, if_pos hretry, hparse, if_pos hd]
  dsimp only [Response.read, parseRateLimitHeaders]
  rw [if_neg hloud, Header.parseFields]
  obtain ⟨hreads, n, hn⟩ | ⟨hreads, err, herr⟩ := header.parseRemaining_cases std
  · rw [hn, hreset]
    exact ⟨rfl, rfl, rfl, .inr ⟨hreads, rfl, by simp⟩⟩
  · rw [herr]
    exact ⟨rfl, rfl, rfl, .inl ⟨hreads, rfl⟩⟩

/-- The slack makes up for what the conversion to a duration cuts off. -/
theorem requiredDelay_le (hd : 0 ≤ d) :
    requiredDelay d ≤ (max (clampSeconds d +
      if 0 < clampSeconds d then rateLimitHeaderSlack else 0) minimumRetryDelay : Int) := by
  rw [requiredDelay, Int.cast_max]
  refine max_le (le_max_right _ _) ?_
  by_cases hpos : 0 < clampSeconds d
  · rw [if_pos hpos]
    refine le_max_of_le_left ?_
    have hslack : (1 : ℚ) ≤ rateLimitHeaderSlack := by
      norm_num [rateLimitHeaderSlack, Duration.millisecond]
    rw [Int.cast_add, clampSeconds]
    split
    · exact (min_le_right _ _).trans (by linarith)
    · have hfloor := Int.lt_floor_add_one (d * Duration.second)
      exact (min_le_left _ _).trans (by linarith)
  · have hzero := (clampSeconds_eq_zero hd).mp
      (le_antisymm (not_lt.mp hpos) (clampSeconds_nonneg hd))
    have hmin : (1 : ℚ) ≤ minimumRetryDelay := by
      norm_num [minimumRetryDelay, Duration.millisecond]
    exact le_max_of_le_right ((min_le_left _ _).trans (by linarith))

/-- A 429 blocks the limiter of the next attempt for what its `Retry-After` asks for exactly where
the remaining requests can be read, where it asks for no more than the shortest delay, or where the
limiter was blocked for as long before. -/
theorem retryAfter_honoured_iff {π : Type u} (std : TextFunctions) (header : Header) (now : Int)
    (d : ℚ) (hretry : header.get .retryAfter ≠ [])
    (hparse : std.parseFloat (header.get .retryAfter) = some d) (hd : 0 ≤ d)
    (client : ClientState π) (slots : ResourceBudget) (request : RouteRequest) (kind : AuthType)
    (disable401Lock : Bool) (bucket : Nat) :
    let r := Response.read std (some header) 429 now
    let observed := client.observeResponse request kind disable401Lock now bucket r slots
    let limiter := ClientState.limiter request.interaction (header.parseGlobal std)
    let target := client.destination request bucket slots (header.get .bucket)
    now + requiredDelay d ≤ limiter observed.2.2 observed.1 ↔
      header.ReadsRemaining ∨ requiredDelay d ≤ minimumRetryDelay ∨
        now + requiredDelay d ≤ limiter bucket client ∨
        now + requiredDelay d ≤ limiter target client := by
  intro r observed limiter target
  obtain ⟨hstatus, hglobal, hbucket, hdelay⟩ := Response.read_retryAfter now hretry hparse hd
  have hblocked : limiter observed.2.2 observed.1 =
      max (max (limiter bucket client) (limiter target client)) (now + r.delay) := by
    simp only [limiter, target]
    rw [← hglobal, ← hbucket]
    exact ClientState.limiter_observeResponse hstatus
  have hcast : ((now + r.delay : Int) : ℚ) = now + r.delay := Int.cast_add _ _
  rw [hblocked, Int.cast_max, Int.cast_max, le_max_iff, le_max_iff, hcast, add_le_add_iff_left]
  unfold Response.delay
  obtain ⟨hreads, hmalformed⟩ | ⟨hreads, hmalformed, hreset⟩ := hdelay
  · rw [if_pos hmalformed]
    tauto
  · refine iff_of_true (.inr ?_) (.inl hreads)
    rw [if_neg (Bool.eq_false_iff.mp hmalformed), hreset]
    exact requiredDelay_le hd

def retryAfterThirty (remaining : List UInt8) : Header
  | .retryAfter => [Strings.ascii "30"]
  | .remaining => [remaining]
  | _ => []

def firstRequest : RouteRequest := ⟨0, [], false⟩

theorem retryAfter_honoured_iff_zero :
    let r := Response.read wholeSeconds (some (retryAfterThirty (Strings.ascii "0"))) 429 0
    let client : ClientState Unit := .newClientState .bot 50 10 0
    let observed := client.observeResponse firstRequest .bot false 0 0 r (.newResourceBudget 8)
    (0 : Int) + requiredDelay 30 ≤ observed.1.limiter false false observed.2.2 :=
  (retryAfter_honoured_iff wholeSeconds (retryAfterThirty (Strings.ascii "0")) 0 30 (by decide)
    (by decide +kernel) (by decide +kernel) _ _ _ _ _ _).mpr (.inl (.inr (by decide +kernel)))

/-- With a remaining number that cannot be read half a minute becomes the shortest delay. -/
theorem retryAfter_dropped :
    let header := retryAfterThirty (Strings.ascii "-1")
    let r := Response.read wholeSeconds (some header) 429 0
    let client : ClientState Unit := .newClientState .bot 50 10 0
    let observed := client.observeResponse firstRequest .bot false 0 0 r (.newResourceBudget 8)
    wholeSeconds.parseFloat (header.get .retryAfter) = some 30 ∧
      header.parseGlobal wholeSeconds = false ∧
      observed.1.limiter false false observed.2.2 = minimumRetryDelay ∧
      ¬(0 : Int) + requiredDelay 30 ≤ observed.1.limiter false false observed.2.2 := by
  decide +kernel

end RetryAfter

namespace SchedulerRun

variable {π : Type u} [DecidableEq π] {cfg : SchedulerConfig π} {s : SchedulerRun π} {p : π}
  {h : Held} {r : Response}

theorem step_held {pc : HeldPc} (hpc : s.pc p = .held h pc) (a : TripAction) :
    (system cfg).step s (.trip p a) = s.heldStep cfg p h pc a := by
  simp only [system, step, tripStep, hpc]

structure Observing (s : SchedulerRun π) (p : π) (pc : TripPc) (client : ClientState π)
    (slots : ResourceBudget) (t : SchedulerRun π) : Prop where
  pc_eq : t.pc p = pc
  client_eq : t.client = client
  slots_eq : t.slots = slots
  now_eq : t.now = s.now
  writable_eq : t.writable = s.writable

variable {client : ClientState π} {slots : ResourceBudget} {t : SchedulerRun π}

theorem Observing.lock (cfg : SchedulerConfig π)
    (o : Observing s p (.held h (.observe r)) client slots t) :
    ∃ u, (system cfg).step t (.trip p .go) = some u ∧
      Observing s p (.held h (.blockGlobal r))
        (client.lockUnauthorized (cfg.request p) cfg.kind cfg.disable401Lock r) slots u :=
  ⟨_, step_held o.pc_eq .go, Function.update_self .., by rw [← o.client_eq]; rfl, o.slots_eq,
    o.now_eq, o.writable_eq⟩

theorem Observing.blockGlobal (cfg : SchedulerConfig π)
    (o : Observing s p (.held h (.blockGlobal r)) client slots t) :
    ∃ u, (system cfg).step t (.trip p .go) = some u ∧
      Observing s p (.held h (.blockTime r)) (client.blockGlobal s.now r) slots u :=
  ⟨_, step_held o.pc_eq .go, Function.update_self .., by rw [← o.client_eq, ← o.now_eq]; rfl,
    o.slots_eq, o.now_eq, o.writable_eq⟩

theorem Observing.blockBucket (cfg : SchedulerConfig π)
    (o : Observing s p (.held h (.blockTime r)) client slots t) :
    ∃ u, (system cfg).Leads (fun _ a => a = .trip p .go) t u ∧
      Observing s p (.held h (.learn r)) (client.blockBucket (cfg.request p) s.now h.bucket r)
        slots u := by
  have hstep : (system cfg).step t (.trip p .go) = _ := step_held o.pc_eq .go
  simp only [heldStep] at hstep
  unfold ClientState.blockBucket
  cases hdelay : r.bucketDelay (cfg.request p).interaction with
  | none =>
    rw [hdelay] at hstep
    exact ⟨_, .step .refl rfl hstep, Function.update_self .., o.client_eq, o.slots_eq, o.now_eq,
      o.writable_eq⟩
  | some delay =>
    rw [hdelay] at hstep
    have hpc : (t.goto p (.held h (.blockBucket r (t.now + delay)))).pc p =
        .held h (.blockBucket r (t.now + delay)) := Function.update_self ..
    refine ⟨_, .step (.step .refl rfl hstep) rfl (step_held hpc .go),
      Function.update_self .., ?_, o.slots_eq, o.now_eq, o.writable_eq⟩
    rw [← o.client_eq, ← o.now_eq]
    rfl

theorem Observing.learn (cfg : SchedulerConfig π)
    (o : Observing s p (.held h (.learn r)) client slots t)
    (hw : r.info.bucket = [] ∨ s.writable = true) :
    ∃ u, (system cfg).step t (.trip p .go) = some u ∧ u.now = s.now ∧
      (u.client, u.slots) = ((client.learnTarget (cfg.request p) h.bucket r slots).1,
        (client.learnTarget (cfg.request p) h.bucket r slots).2.1) ∧
      u.pc p = .learned h (client.learnTarget (cfg.request p) h.bucket r slots).2.2
        (.validationStore r) := by
  have hstep : (system cfg).step t (.trip p .go) = _ := step_held o.pc_eq .go
  simp only [heldStep, learnStep] at hstep
  unfold ClientState.learnTarget
  split at hstep
  · rename_i hnil
    rw [if_pos hnil]
    exact ⟨_, hstep, o.now_eq, by rw [← o.client_eq, ← o.slots_eq]; rfl, Function.update_self ..⟩
  · rename_i hnil
    rw [o.writable_eq, if_pos (hw.resolve_left hnil), o.client_eq, o.slots_eq] at hstep
    rw [if_neg hnil]
    exact ⟨_, hstep, o.now_eq, rfl, Function.update_self ..⟩

/-- A request that is left alone after a response goes through `observeResponse`. -/
theorem leads_observeResponse (hpc : s.pc p = .held h (.observe r))
    (hw : r.info.bucket = [] ∨ s.writable = true) :
    let observed := s.client.observeResponse (cfg.request p) cfg.kind cfg.disable401Lock s.now
      h.bucket r s.slots
    ∃ t, (system cfg).Leads (fun _ a => a = .trip p .go) s t ∧ t.now = s.now ∧
      (t.client, t.slots) = (observed.1, observed.2.1) ∧
      t.pc p = .learned h observed.2.2 (.validationStore r) := by
  have hstart : Observing s p (.held h (.observe r)) s.client s.slots s := ⟨hpc, rfl, rfl, rfl, rfl⟩
  obtain ⟨s₁, hlock, o⟩ := hstart.lock cfg
  obtain ⟨s₂, hglobal, o⟩ := o.blockGlobal cfg
  obtain ⟨s₃, hbucket, o⟩ := o.blockBucket cfg
  obtain ⟨t, hlearn, hnow, hclient, htarget⟩ := o.learn cfg hw
  have hlead := System.Leads.head (C := fun _ a => a = .trip p .go) rfl hglobal hbucket
  exact ⟨t, .step (.head rfl hlock hlead) rfl hlearn, hnow, hclient, htarget⟩

end SchedulerRun

end NirnProxy
