import NirnProxy.Scheduler.Loop
import NirnProxy.Scheduler.Steps
import NirnProxy.Strings
import NirnProxy.Text

/-! `rememberedRateLimitResponse`, and why `RoundTrip` returns it: in the pass of the loop that ends
so, nothing was sent, and a cooldown was read that leaves no time for an attempt. -/

universe u

namespace NirnProxy

open Strings
open scoped Parties

/-- `syntheticResponse`, without the request that it answers. -/
structure SyntheticResponse where
  statusCode : Nat
  status : List UInt8
  header : List (List UInt8 × List UInt8)
  contentLength : Nat
  body : List UInt8
  deriving DecidableEq

namespace SyntheticResponse

def set (name value : List UInt8) (response : SyntheticResponse) : SyntheticResponse :=
  { response with header := (name, value) :: response.header.filter (·.1 ≠ name) }

/-- `http.Header.Get`, where there is such a header. -/
def get (response : SyntheticResponse) (name : List UInt8) : Option (List UInt8) :=
  response.header.lookup name

end SyntheticResponse

def syntheticResponse (status : Nat) (statusText body : List UInt8) : SyntheticResponse where
  statusCode := status
  status := Text.itoa status ++ ascii " " ++ statusText
  header := [(ascii "Content-Type", ascii "application/json")]
  contentLength := body.length
  body := body

/-- A remaining delay in seconds, rounded up. -/
def retryAfterSeconds (delay : Int) : Int :=
  max 1 ((delay + Duration.second - 1).tdiv Duration.second)

def rememberedRateLimitResponse (delay : Int) (global : Bool) : SyntheticResponse :=
  let seconds := Text.formatInt (retryAfterSeconds delay)
  let body := ascii "\x7b\"message\":\"You are being rate limited.\",\"retry_after\":" ++ seconds ++
    ascii ",\"global\":" ++ ascii (if global then "true" else "false") ++ ascii "\x7d"
  let response := (syntheticResponse 429 (ascii "Too Many Requests") body).set
    (ascii "Retry-After") seconds
  if global then
    (response.set (ascii "X-RateLimit-Global") (ascii "true")).set (ascii "X-RateLimit-Scope")
      (ascii "global")
  else response

theorem retryAfterSeconds_lt {delay : Int} (h : 0 < delay) :
    retryAfterSeconds delay * Duration.second < delay + Duration.second := by
  have hs := Duration.second_eq
  unfold retryAfterSeconds
  rw [Int.tdiv_eq_ediv_of_nonneg (by omega), hs]
  omega

theorem get_retryAfter (delay : Int) (global : Bool) :
    (rememberedRateLimitResponse delay global).get (ascii "Retry-After") =
      some (Text.formatInt (retryAfterSeconds delay)) := by
  unfold rememberedRateLimitResponse
  cases global <;> rfl

inductive HeldPc.Known : HeldPc → HeldPc → Prop
  | before {now delay} : Known .knownBucket (.knownGlobal now delay)
  | after {left now delay} : Known (.rememberBucket left) (.rememberGlobal left now delay)

namespace SchedulerRun

variable {π : Type u} [DecidableEq π] {cfg : SchedulerConfig π} {s t top last : SchedulerRun π}
  {p : π} {held : Held} {pc : HeldPc} {global seen : Bool} {delay left : Int}
  {a : SchedulerAction π}

abbrev Leads (cfg : SchedulerConfig π) (s t : SchedulerRun π) : Prop :=
  (system cfg).Leads (fun _ _ => True) s t

/-- In `first` the request `p` takes the step at `pc`, and it takes no other up to `s`. -/
structure Reading (cfg : SchedulerConfig π) (p : π) (held : Held) (pc : HeldPc)
    (first s : SchedulerRun π) : Prop where
  first_pc : first.pc p = .held held pc
  alone : ∃ x next, first.step cfg (.trip p x) = some next ∧
    (system cfg).Leads (fun _ a => a.mover ≠ some p) next s

/-- A check of `p`: it reads in `first`, and what it does next, in `last`, is to decide at `pc'`. -/
structure Check (cfg : SchedulerConfig π) (p : π) (held : Held) (pc pc' : HeldPc)
    (first last : SchedulerRun π) : Prop extends Reading cfg p held pc first last where
  last_pc : last.pc p = .held held pc'

/-- What a check of `p` that starts at `pc` can see: whether the cooldown is that of the pacer, and
not that of the bucket that `p` holds, and what is left of it. -/
inductive Saw (cfg : SchedulerConfig π) (p : π) (held : Held) (pc : HeldPc)
    (first last : SchedulerRun π) : Bool → Int → Prop
  | bucket {pc'} : pc.Known pc' → Check cfg p held pc pc' first last →
      Saw cfg p held pc first last false ((first.client.bucketAt held.bucket).readyAt - first.now)
  | global {pc'} : pc.Known pc' → Check cfg p held pc pc' first last →
      (cfg.request p).interaction = false →
      Saw cfg p held pc first last true (last.client.global.blockedUntil - first.now)
  | wait {readyAt wake} : pc = .waitRead →
      Check cfg p held pc (.waitTest readyAt wake) first last →
      Saw cfg p held pc first last false ((first.client.bucketAt held.bucket).readyAt - last.now)
  | pacer {readyAt blockedDelay wake} : pc = .pacer .lock →
      Check cfg p held pc (.pacer (.test readyAt blockedDelay wake)) first last →
      (cfg.request p).interaction = false →
      Saw cfg p held pc first last true (first.client.global.blockedUntil - first.now)

/-- After `top` a check of `p` came to the decision, in `last`, that what is `left` of a cooldown
leaves no time for an attempt. -/
structure Decided (cfg : SchedulerConfig π) (p : π) (held : Held) (top last s : SchedulerRun π)
    (seen : Bool) (left : Int) : Prop where
  saw : ∃ pc ∈ [HeldPc.knownBucket, .waitRead, .pacer .lock], ∃ first, Leads cfg top first ∧
    Saw cfg p held pc first last seen left
  leads : Leads cfg last s
  left_pos : 0 < left
  late : last.deadline p - last.now ≤ left + cfg.upstreamTimeout

structure Since (cfg : SchedulerConfig π) (p : π) (held : Held) (top s : SchedulerRun π) :
    Prop where
  top_pc : top.pc p = .held held .knownBucket
  leads : Leads cfg top s
  attempts_eq : s.attempts p = top.attempts p

/-- The cooldown that `p` reports is the one that the decision saw, or the one that the limiters
show when they are read once more. -/
def Reported (cfg : SchedulerConfig π) (p : π) (held : Held) (last s : SchedulerRun π)
    (seen : Bool) (left : Int) (global : Bool) (delay : Int) : Prop :=
  (global = seen ∧ delay = left) ∨ ∃ first' last', Leads cfg last first' ∧ Leads cfg last' s ∧
    Saw cfg p held (.rememberBucket left) first' last' global delay

def Justified (cfg : SchedulerConfig π) (p : π) (global : Bool) (delay : Int)
    (s : SchedulerRun π) : Prop :=
  ∃ held top last seen left, Since cfg p held top s ∧ Decided cfg p held top last s seen left ∧
    Reported cfg p held last s seen left global delay ∧ 0 < delay

def Recalls (cfg : SchedulerConfig π) (p : π) (s : SchedulerRun π) : TripPc → Prop
  | .held h (.knownGlobal now delay) => ∃ top, Since cfg p h top s ∧
      Reading cfg p h .knownBucket top s ∧ now = top.now ∧
      delay = (top.client.bucketAt h.bucket).retryAfter top.now
  | .held h .wait | .held h .waitRead | .held h (.waitSleep ..) => ∃ top, Since cfg p h top s
  | .held h (.waitTest readyAt _) => ∃ top, Since cfg p h top s ∧ ∃ first, Leads cfg top first ∧
      Reading cfg p h .waitRead first s ∧ readyAt = (first.client.bucketAt h.bucket).readyAt
  | .held h (.rememberBucket left) => ∃ top last, Since cfg p h top s ∧
      Decided cfg p h top last s false left
  | .held h (.rememberGlobal left now delay) => ∃ top last, Since cfg p h top s ∧
      Decided cfg p h top last s false left ∧ ∃ first, Leads cfg last first ∧
      Reading cfg p h (.rememberBucket left) first s ∧ now = first.now ∧
      delay = (first.client.bucketAt h.bucket).retryAfter first.now
  | .held h (.pacer .gate) | .held h (.pacer .check) | .held h (.pacer .lock)
  | .held h (.pacer (.sleep ..)) =>
      (cfg.request p).interaction = false ∧ ∃ top, Since cfg p h top s
  | .held h (.pacer (.test _ blockedDelay _)) => (cfg.request p).interaction = false ∧ ∃ top,
      Since cfg p h top s ∧ ∃ first, Leads cfg top first ∧ Reading cfg p h (.pacer .lock) first s ∧
      blockedDelay = first.client.global.blockedUntil - first.now
  | .held _ (.pacer (.unlock (.delayed delay))) => Justified cfg p true delay s
  | .held _ (.unwind (.remembered delay global)) | .release _ _ (.finish (.remembered delay global))
  | .returned (.remembered delay global) => Justified cfg p global delay s
  | _ => True

theorem Leads.next (h : Leads cfg s t) {u : SchedulerRun π} (hs : t.step cfg a = some u) :
    Leads cfg s u :=
  .step h trivial hs

theorem Reading.begin {x : TripAction} (hp : s.pc p = .held held pc)
    (hs : s.step cfg (.trip p x) = some t) : Reading cfg p held pc s t :=
  ⟨hp, x, t, hs, .refl⟩

theorem Reading.step (h : Reading cfg p held pc s t) {u : SchedulerRun π}
    (hs : t.step cfg a = some u) (ha : a.mover ≠ some p) : Reading cfg p held pc s u := by
  obtain ⟨hp, x, next, hnext, hlead⟩ := h
  exact ⟨hp, x, next, hnext, .step hlead ha hs⟩

theorem Reading.leads (h : Reading cfg p held pc s t) : Leads cfg s t := by
  obtain ⟨-, x, next, hnext, hlead⟩ := h
  exact (Leads.next .refl hnext).trans (hlead.mono fun _ _ _ => trivial)

theorem Decided.step (h : Decided cfg p held top last s seen left) (hs : s.step cfg a = some t) :
    Decided cfg p held top last t seen left :=
  { h with leads := h.leads.next hs }

theorem Since.step (h : Since cfg p held top s) (hs : s.step cfg a = some t)
    (ha : t.attempts p = s.attempts p) : Since cfg p held top t :=
  ⟨h.top_pc, h.leads.next hs, ha.trans h.attempts_eq⟩

theorem Reported.step (h : Reported cfg p held last s seen left global delay)
    (hs : s.step cfg a = some t) : Reported cfg p held last t seen left global delay := by
  refine h.imp_right ?_
  rintro ⟨first', last', hfirst, hlast, hsaw⟩
  exact ⟨first', last', hfirst, hlast.next hs, hsaw⟩

theorem Justified.step (h : Justified cfg p global delay s) (hs : s.step cfg a = some t)
    (ha : t.attempts p = s.attempts p) : Justified cfg p global delay t := by
  obtain ⟨held, top, last, seen, left, hsince, hdecided, hreported, hpos⟩ := h
  exact ⟨held, top, last, seen, left, hsince.step hs ha, hdecided.step hs, hreported.step hs, hpos⟩

theorem Since.decided (h : Since cfg p held top last)
    (hpc : pc ∈ [HeldPc.knownBucket, .waitRead, .pacer .lock]) {first : SchedulerRun π}
    (hl : Leads cfg top first) (hsaw : Saw cfg p held pc first last seen left) (hpos : 0 < left)
    (hlate : last.deadline p - last.now ≤ left + cfg.upstreamTimeout)
    (hs : last.step cfg a = some t) (ha : t.attempts p = last.attempts p) :
    Justified cfg p seen left t :=
  ⟨held, top, last, seen, left, h.step hs ha,
    ⟨⟨pc, hpc, first, hl, hsaw⟩, Leads.next .refl hs, hpos, hlate⟩, .inl ⟨rfl, rfl⟩, hpos⟩

theorem Recalls.other {pc : TripPc} (h : Recalls cfg p s pc) (hs : s.step cfg a = some t)
    (hm : a.mover ≠ some p) : Recalls cfg p t pc := by
  have ha : t.attempts p = s.attempts p := attempts_step hs hm
  unfold Recalls at h ⊢
  split
  · obtain ⟨top, hsince, hread, h⟩ := h
    exact ⟨top, hsince.step hs ha, hread.step hs hm, h⟩
  · obtain ⟨top, hsince⟩ := h
    exact ⟨top, hsince.step hs ha⟩
  · obtain ⟨top, hsince⟩ := h
    exact ⟨top, hsince.step hs ha⟩
  · obtain ⟨top, hsince⟩ := h
    exact ⟨top, hsince.step hs ha⟩
  · obtain ⟨top, hsince, first, hfirst, hread, h⟩ := h
    exact ⟨top, hsince.step hs ha, first, hfirst, hread.step hs hm, h⟩
  · obtain ⟨top, last, hsince, hdecided⟩ := h
    exact ⟨top, last, hsince.step hs ha, hdecided.step hs⟩
  · obtain ⟨top, last, hsince, hdecided, first, hfirst, hread, h⟩ := h
    exact ⟨top, last, hsince.step hs ha, hdecided.step hs, first, hfirst, hread.step hs hm, h⟩
  · obtain ⟨hi, top, hsince⟩ := h
    exact ⟨hi, top, hsince.step hs ha⟩
  · obtain ⟨hi, top, hsince⟩ := h
    exact ⟨hi, top, hsince.step hs ha⟩
  · obtain ⟨hi, top, hsince⟩ := h
    exact ⟨hi, top, hsince.step hs ha⟩
  · obtain ⟨hi, top, hsince⟩ := h
    exact ⟨hi, top, hsince.step hs ha⟩
  · obtain ⟨hi, top, hsince, first, hfirst, hread, h⟩ := h
    exact ⟨hi, top, hsince.step hs ha, first, hfirst, hread.step hs hm, h⟩
  · exact h.step hs ha
  · exact h.step hs ha
  · exact h.step hs ha
  · exact h.step hs ha
  · trivial

theorem saw_known {pc' : HeldPc} {first : SchedulerRun π} {bucketDelay : Int}
    (hkind : pc.Known pc') (hcheck : Check cfg p held pc pc' first last)
    (hb : bucketDelay = (first.client.bucketAt held.bucket).retryAfter first.now)
    (hk : last.knownRateLimit cfg p first.now bucketDelay = (delay, global)) (hpos : 0 < delay) :
    Saw cfg p held pc first last global delay := by
  have hbucket : 0 < bucketDelay → Saw cfg p held pc first last false bucketDelay := by
    intro hpos
    rw [hb, BucketState.retryAfter_eq_max] at hpos ⊢
    rw [max_eq_right (by omega)]
    exact .bucket hkind hcheck
  unfold knownRateLimit at hk
  cases hi : (cfg.request p).interaction with
  | true =>
    simp only [hi, if_true] at hk
    split at hk <;> cases hk
    · exact absurd hpos (lt_irrefl 0)
    · exact hbucket hpos
  | false =>
    simp only [hi, Bool.false_eq_true, if_false] at hk
    split at hk <;> cases hk
    · rw [Pacer.retryAfter_eq_max] at hpos ⊢
      rw [max_eq_right (by omega)]
      exact .global hkind hcheck hi
    · exact hbucket hpos

theorem Recalls.trip {s' : SchedulerRun π} {pc pc' : TripPc} {x : TripAction}
    (h : Recalls cfg p s pc) (hp : s.pc p = pc) (hm : TripSteps cfg p s pc x s' pc')
    (hs : s.step cfg (.trip p x) = some (s'.goto p pc')) : Recalls cfg p (s'.goto p pc') pc' := by
  cases hm with
  | knownBucket => exact ⟨s, ⟨hp, .next .refl hs, rfl⟩, .begin hp hs, rfl, rfl⟩
  | refuse hk hx =>
    obtain ⟨top, hsince, hread, rfl, hb⟩ := h
    obtain ⟨hpos, hlate⟩ := exceedsDeadline_iff.mp hx
    have hsaw := saw_known .before ⟨hread, hp⟩ hb hk hpos
    exact hsince.decided (by simp) .refl hsaw hpos hlate hs rfl
  | proceed =>
    obtain ⟨top, hsince, -⟩ := h
    exact ⟨top, hsince.step hs rfl⟩
  | waitOpen | waitTimer | waitWoken =>
    obtain ⟨top, hsince⟩ := h
    exact ⟨top, hsince.step hs rfl⟩
  | waitRead =>
    obtain ⟨top, hsince⟩ := h
    exact ⟨top, hsince.step hs rfl, s, hsince.leads, .begin hp hs, rfl⟩
  | waitSleep =>
    obtain ⟨top, hsince, -⟩ := h
    exact ⟨top, hsince.step hs rfl⟩
  | waitQueue _ hi =>
    obtain ⟨top, hsince, -⟩ := h
    exact ⟨hi, top, hsince.step hs rfl⟩
  | waitLate _ hx =>
    obtain ⟨top, hsince, first, hfirst, hread, rfl⟩ := h
    obtain ⟨hpos, hlate⟩ := exceedsDeadline_iff.mp hx
    refine ⟨top, s, hsince.step hs rfl, ⟨⟨.waitRead, by simp, first, hfirst, ?_⟩, ?_, hpos, hlate⟩⟩
    · exact .wait rfl ⟨hread, hp⟩
    · exact Leads.next .refl hs
  | reread =>
    obtain ⟨top, last, hsince, hdecided⟩ := h
    exact ⟨top, last, hsince.step hs rfl, hdecided.step hs, s, hdecided.leads, .begin hp hs, rfl,
      rfl⟩
  | current hk hpos =>
    obtain ⟨top, last, hsince, hdecided, first, hfirst, hread, rfl, hb⟩ := h
    have hsaw := saw_known .after ⟨hread, hp⟩ hb hk hpos
    exact ⟨_, top, last, _, _, hsince.step hs rfl, hdecided.step hs,
      .inr ⟨first, s, hfirst, Leads.next .refl hs, hsaw⟩, hpos⟩
  | expired =>
    obtain ⟨top, last, hsince, hdecided, -⟩ := h
    exact ⟨_, top, last, _, _, hsince.step hs rfl, hdecided.step hs, .inl ⟨rfl, rfl⟩,
      hdecided.left_pos⟩
  | @pacerGate _ _ _ r _ =>
    obtain ⟨hi, top, hsince⟩ := h
    cases r with
    | pending | granted => exact ⟨hi, top, hsince.step hs rfl⟩
    | refused => trivial
  | pacerOpen | pacerTimer | pacerWoken =>
    obtain ⟨hi, top, hsince⟩ := h
    exact ⟨hi, top, hsince.step hs rfl⟩
  | pacerEarly =>
    obtain ⟨hi, top, hsince⟩ := h
    exact ⟨hi, top, hsince.step hs rfl, s, hsince.leads, .begin hp hs, rfl⟩
  | pacerSleep =>
    obtain ⟨hi, top, hsince, -⟩ := h
    exact ⟨hi, top, hsince.step hs rfl⟩
  | pacerLate hpos hlate =>
    obtain ⟨hi, top, hsince, first, hfirst, hread, rfl⟩ := h
    exact hsince.decided (by simp) hfirst (.pacer rfl ⟨hread, hp⟩ hi) hpos hlate hs rfl
  | @pacerUnlock _ ret =>
    cases ret with
    | delayed => exact Justified.step h hs rfl
    | granted | failed => trivial
  | @unwindValidation _ res | @unwind _ res =>
    cases res with
    | remembered => exact Justified.step h hs rfl
    | response | unauthorized | failed => trivial
  | @releaseTouch _ k | @releaseActive _ k | @releaseGate _ k =>
    match k, h with
    | .finish (.remembered ..), h => exact Justified.step h hs rfl
    | .finish (.response _), _ | .finish .unauthorized, _ | .finish .failed, _ | .move .., _
    | .retry _, _ => trivial
  | @bucketGate _ _ _ _ r | @validation _ _ _ r => cases r <;> trivial
  | @recheck n b target | @recheckCreate n b _ _ target =>
    unfold rechecked
    split
    · split <;> trivial
    · trivial
  | _ => trivial

theorem recalls_of_reachable (h : (system cfg).Reachable s) (p : π) :
    Recalls cfg p s (s.pc p) := by
  refine System.Reach.invariant_with (I := fun s => Recalls cfg p s (s.pc p))
    (J := fun s => (system cfg).Reachable s) (fun _ hs => hs) ?_ (fun s a t hr _ ih _ hs => ?_) h
  · rintro _ ⟨now, rfl⟩
    trivial
  · replace hs : s.step cfg a = some t := hs
    by_cases ha : a.mover = some p
    · cases a <;> cases ha
      obtain ⟨s', pc', hm, rfl⟩ := tripStep_trips hs
      rw [goto_pc_self]
      exact ih.trip rfl hm hs
    · rw [pc_frame hr hs ha]
      exact ih.other hs ha

theorem remembered_pos (h : (system cfg).Reachable s)
    (hp : s.pc p = .returned (.remembered delay global)) : 0 < delay := by
  have hr := recalls_of_reachable h p
  rw [hp] at hr
  obtain ⟨-, -, -, -, -, -, -, -, hpos⟩ := hr
  exact hpos

def hasty : SchedulerConfig (Fin 3) := { twoRoutes 3 with queueTimeout := 5 * Duration.second }

end SchedulerRun

end NirnProxy
