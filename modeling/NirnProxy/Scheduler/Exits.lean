import NirnProxy.Limits.InvalidRequests
import NirnProxy.Retry.Closing
import NirnProxy.Scheduler.Holdings

/-! `RoundTrip` with everything it takes from: the gates and counters of the credential, the invalid
request budget and the retry captures.  The captures and the budget are shared with the requests of
other credentials. -/

universe u v

namespace NirnProxy

open scoped Parties

/-- `shared` says that the scope of the rate limit is shared. -/
def invalidDiscordResponse (r : Response) (shared : Bool) : Bool :=
  if r.status = 429 then !shared else r.status == 401 || r.status == 403

structure RoundTripConfig (π : Type u) extends SchedulerConfig π where
  body : π → BodyRequest
  capture : CaptureConfig
  maxInvalidRequests : Nat

/-- `deferred` says that `replay.close` is deferred and has not run; `ledger` is what each request
has taken and given back, the last first. -/
structure RoundTripRun (π : Type u) (ω : Type v) where
  trips : SchedulerRun π
  guard : InvalidRequestGuard
  bodies : CaptureRun (π ⊕ ω)
  deferred : π → Bool
  ledger : π → List (Effect Resource)

/-- `now` is what the request reads off the clock before it calls the guard.  `world` is a step
that no request takes, `transport` a `Read` of one of the bodies or a call on a body of another
credential, and `others` what the other credentials do to the guard. -/
inductive RoundTripAction (π : Type u) (ω : Type v)
  | trip (p : π) (a : TripAction)
  | available (p : π) (now : Int)
  | newBodyReplay (p : π)
  | body (p : π) (closeOk openOk : Bool)
  | reserve (p : π) (now : Int)
  | respond (p : π) (now : Int) (r : Option Response) (shared : Bool)
  | prepareRetry (p : π) (closeOk : Bool)
  | close (p : π)
  | world (a : SchedulerAction π)
  | transport (a : CaptureAction (π ⊕ ω))
  | others (guard : InvalidRequestGuard)

def TripPc.leaving : TripPc → Bool
  | .held _ (.unwind _) | .release _ _ (.finish _) | .returned _ => true
  | _ => false

def TripPc.calls : TripPc → Bool
  | .started | .held _ .replay | .held _ .body | .held _ .reserve | .held _ .inFlight
  | .learned _ _ (.prepare _) => true
  | _ => false

def CaptureAction.foreign {π : Type u} {ω : Type v} : CaptureAction (π ⊕ ω) → Bool
  | .read _ _ _ | .reserve _ | .keep _ _ => true
  | .newBodyReplay p _ | .prepareRetry p _ | .close p => p.isRight

namespace RoundTripRun

variable {π : Type u} {ω : Type v}

def start (cfg : RoundTripConfig π) (now : Int) : RoundTripRun π ω where
  trips := .start cfg.toSchedulerConfig now
  guard := .newInvalidRequestGuard cfg.maxInvalidRequests invalidRequestWindow
  bodies := .start cfg.capture
  deferred := fun _ => false
  ledger := fun _ => []

variable [DecidableEq π] [DecidableEq ω]

def go (cfg : RoundTripConfig π) (s : RoundTripRun π ω) (p : π) (a : TripAction) :
    Option (RoundTripRun π ω) :=
  (s.trips.tripStep cfg.toSchedulerConfig p a).map fun t =>
    { s with
      trips := t
      ledger := Function.update s.ledger p
        (((s.trips.pc p).effect (t.pc p)).toList ++ s.ledger p) }

/-- `prepareRetry`, with its report.  Once a retry has been prepared there is no lock to wait
for. -/
def prepare (cfg : RoundTripConfig π) (s : RoundTripRun π ω) (p : π) (closeOk : Bool) :
    Option (RoundTripRun π ω × Option Bool) :=
  match s.bodies.cell (.inl p) with
  | none => none
  | some c =>
    if c.replay.kind = .capture ∧ c.replay.prepared = true then some (s, some true)
    else (s.bodies.step cfg.capture (.prepareRetry (.inl p) closeOk)).map fun bodies =>
      ({ s with bodies := bodies }, (c.replay.prepareRetry c.capture closeOk).2.2)

/-- `body`, which prepares a retry that has not been prepared. -/
def attemptBody (cfg : RoundTripConfig π) (s : RoundTripRun π ω) (p : π) (attempt : Nat)
    (closeOk openOk : Bool) : Option (RoundTripRun π ω × Option AttemptBody) :=
  match s.bodies.cell (.inl p) with
  | none => none
  | some c =>
    let body := (c.replay.body c.capture s.bodies.env attempt closeOk openOk).2.2
    if c.replay.kind = .capture ∧ attempt ≠ 0 then
      (s.prepare cfg p closeOk).map fun (s, _) => (s, body)
    else some (s, body)

/-- The deferred calls of a request that is leaving may come in any order here; `RoundTrip` has
returned when `replay.close` has run as well. -/
def step (cfg : RoundTripConfig π) (s : RoundTripRun π ω) :
    RoundTripAction π ω → Option (RoundTripRun π ω)
  | .trip p a =>
    match s.trips.pc p with
    | .returned _ => if s.deferred p then none else s.go cfg p a
    | pc => if pc.calls then none else s.go cfg p a
  | .available p now =>
    match s.trips.pc p with
    | .started =>
      let (guard, ok) := s.guard.available now
      { s with guard := guard }.go cfg p (.oracle ok)
    | _ => none
  | .newBodyReplay p =>
    match s.trips.pc p with
    | .held _ .replay =>
      (s.bodies.step cfg.capture (.newBodyReplay (.inl p) (cfg.body p))).bind fun bodies =>
        let ok := (bodies.cell (.inl p)).isSome
        { s with bodies := bodies, deferred := Function.update s.deferred p ok }.go cfg p
          (.oracle ok)
    | _ => none
  | .body p closeOk openOk =>
    match s.trips.pc p with
    | .held h .body =>
      (s.attemptBody cfg p h.attempt closeOk openOk).bind fun (s, body) =>
        s.go cfg p (.oracle body.isSome)
    | _ => none
  | .reserve p now =>
    match s.trips.pc p with
    | .held _ .reserve =>
      let (guard, ok) := s.guard.reserve now
      { s with guard := guard }.go cfg p (.oracle ok)
    | _ => none
  | .respond p now r shared =>
    match s.trips.pc p with
    | .held _ .inFlight =>
      let invalid := r.elim false (invalidDiscordResponse · shared)
      { s with guard := s.guard.complete now invalid }.go cfg p (.respond r)
    | _ => none
  | .prepareRetry p closeOk =>
    match s.trips.pc p with
    | .learned _ _ (.prepare _) =>
      (s.prepare cfg p closeOk).bind fun (s, report) => s.go cfg p (.prepare report)
    | _ => none
  | .close p =>
    if (s.trips.pc p).leaving ∧ s.deferred p then
      (s.bodies.step cfg.capture (.close (.inl p))).map fun bodies =>
        { s with bodies := bodies, deferred := Function.update s.deferred p false }
    else none
  | .world a =>
    match a with
    | .trip _ _ => none
    | a => (s.trips.step cfg.toSchedulerConfig a).map fun t => { s with trips := t }
  | .transport a =>
    if a.foreign then
      (s.bodies.step cfg.capture a).map fun bodies => { s with bodies := bodies }
    else none
  | .others guard => some { s with guard := guard }

def system (ω : Type v) [DecidableEq ω] (cfg : RoundTripConfig π) :
    System (RoundTripRun π ω) (RoundTripAction π ω) where
  init s := ∃ now, s = start cfg now
  step := step cfg

structure Inv (cfg : RoundTripConfig π) (s : RoundTripRun π ω) : Prop where
  trips : (SchedulerRun.system cfg.toSchedulerConfig).Reachable s.trips
  bodies : (CaptureRun.system (π ⊕ ω) cfg.capture).Reachable s.bodies
  ledger : ∀ p, Balanced (s.ledger p) (s.trips.pc p).grip.holds
  closed : ∀ p, s.deferred p = false →
    s.bodies.cell (.inl p) = none ∨ s.bodies.Settled (.inl p)

variable {cfg : RoundTripConfig π} {s t : RoundTripRun π ω} {p : π}

theorem start_inv (now : Int) : (start cfg now : RoundTripRun π ω).Inv cfg where
  trips := .init ⟨now, rfl⟩
  bodies := .init rfl
  ledger p := by
    intro r
    obtain (_ | _ | _) | _ | _ := r <;> rfl
  closed p _ := .inl rfl

theorem Inv.go {a : TripAction} (h : s.Inv cfg) (hs : s.go cfg p a = some t) : t.Inv cfg := by
  obtain ⟨u, hu, rfl⟩ := Option.map_eq_some_iff.mp hs
  refine ⟨h.trips.next (a := .trip p a) hu, h.bodies, fun q => ?_, h.closed⟩
  obtain ⟨pc, hpc, hturn⟩ := SchedulerRun.trip_turns (SchedulerRun.checked_of_reach h.trips) hu
  simp only [hpc]
  by_cases hq : q = p
  · subst hq
    simpa using (h.ledger q).turn hturn
  · simpa [hq] using h.ledger q

theorem Inv.bodies_step {a : CaptureAction (π ⊕ ω)} {bodies : CaptureRun (π ⊕ ω)} (h : s.Inv cfg)
    (ha : ∀ p request, a ≠ .newBodyReplay (.inl p) request)
    (hs : s.bodies.step cfg.capture a = some bodies) : { s with bodies := bodies }.Inv cfg where
  trips := h.trips
  bodies := h.bodies.next hs
  ledger := h.ledger
  closed p hp := by
    obtain hc | hc := h.closed p hp
    · exact .inl (CaptureRun.none_of_step hc (ha p) hs)
    · exact .inr (hc.step (CaptureRun.inv_of_reachable h.bodies) hs)

theorem Inv.prepare {closeOk : Bool} {report : Option Bool} (h : s.Inv cfg)
    (hs : s.prepare cfg p closeOk = some (t, report)) : t.Inv cfg := by
  unfold RoundTripRun.prepare at hs
  split at hs
  · cases hs
  · split at hs
    · cases hs
      exact h
    · obtain ⟨bodies, hb, hs⟩ := Option.map_eq_some_iff.mp hs
      cases hs
      exact h.bodies_step (by simp) hb

theorem Inv.attemptBody {attempt : Nat} {closeOk openOk : Bool} {body : Option AttemptBody}
    (h : s.Inv cfg) (hs : s.attemptBody cfg p attempt closeOk openOk = some (t, body)) :
    t.Inv cfg := by
  unfold RoundTripRun.attemptBody at hs
  split at hs
  · cases hs
  · simp only at hs
    split at hs
    · obtain ⟨⟨u, report⟩, hu, hs⟩ := Option.map_eq_some_iff.mp hs
      cases hs
      exact h.prepare hu
    · cases hs
      exact h

theorem Inv.newBodyReplay {bodies : CaptureRun (π ⊕ ω)} (h : s.Inv cfg)
    (hs : s.bodies.step cfg.capture (.newBodyReplay (.inl p) (cfg.body p)) = some bodies) :
    { s with
      bodies := bodies
      deferred := Function.update s.deferred p (bodies.cell (.inl p)).isSome }.Inv cfg where
  trips := h.trips
  bodies := h.bodies.next (a := .newBodyReplay (.inl p) (cfg.body p)) hs
  ledger := h.ledger
  closed q hq := by
    by_cases hqp : q = p
    · subst hqp
      exact .inl (by simpa using hq)
    · simp only [Function.update_of_ne hqp] at hq
      obtain hc | hc := h.closed q hq
      · refine .inl (CaptureRun.none_of_step hc (fun request e => hqp ?_) hs)
        cases e
        rfl
      · exact .inr (hc.step (CaptureRun.inv_of_reachable h.bodies) hs)

theorem Inv.close {bodies : CaptureRun (π ⊕ ω)} (h : s.Inv cfg)
    (hs : s.bodies.step cfg.capture (.close (.inl p)) = some bodies) :
    { s with bodies := bodies, deferred := Function.update s.deferred p false }.Inv cfg where
  trips := h.trips
  bodies := h.bodies.next (a := .close (.inl p)) hs
  ledger := h.ledger
  closed q hq := by
    by_cases hqp : q = p
    · subst hqp
      exact .inr (CaptureRun.settled_of_close hs)
    · simp only [Function.update_of_ne hqp] at hq
      exact (h.bodies_step (by simp) hs).closed q hq

theorem Inv.world {a : SchedulerAction π} {trips : SchedulerRun π} (h : s.Inv cfg)
    (ha : ∀ p x, a ≠ .trip p x)
    (hs : s.trips.step cfg.toSchedulerConfig a = some trips) :
    { s with trips := trips }.Inv cfg where
  trips := h.trips.next hs
  bodies := h.bodies
  ledger p := by
    rw [SchedulerRun.step_pc ha hs]
    exact h.ledger p
  closed := h.closed

theorem Inv.step {a : RoundTripAction π ω} (h : s.Inv cfg) (hs : s.step cfg a = some t) :
    t.Inv cfg := by
  have hguard : ∀ guard, { s with guard := guard }.Inv cfg := fun _ =>
    ⟨h.trips, h.bodies, h.ledger, h.closed⟩
  cases a with
  | trip p a =>
    simp only [RoundTripRun.step] at hs
    split at hs <;> split at hs
    · cases hs
    · exact h.go hs
    · cases hs
    · exact h.go hs
  | available p now =>
    simp only [RoundTripRun.step] at hs
    split at hs
    · exact (hguard _).go hs
    · cases hs
  | newBodyReplay p =>
    simp only [RoundTripRun.step] at hs
    split at hs
    · obtain ⟨bodies, hb, hs⟩ := Option.bind_eq_some_iff.mp hs
      exact (h.newBodyReplay hb).go hs
    · cases hs
  | body p closeOk openOk =>
    simp only [RoundTripRun.step] at hs
    split at hs
    · obtain ⟨⟨u, body⟩, hu, hs⟩ := Option.bind_eq_some_iff.mp hs
      exact (h.attemptBody hu).go hs
    · cases hs
  | reserve p now =>
    simp only [RoundTripRun.step] at hs
    split at hs
    · exact (hguard _).go hs
    · cases hs
  | respond p now r shared =>
    simp only [RoundTripRun.step] at hs
    split at hs
    · exact (hguard _).go hs
    · cases hs
  | prepareRetry p closeOk =>
    simp only [RoundTripRun.step] at hs
    split at hs
    · obtain ⟨⟨u, report⟩, hu, hs⟩ := Option.bind_eq_some_iff.mp hs
      exact (h.prepare hu).go hs
    · cases hs
  | close p =>
    obtain ⟨-, hs⟩ := Option.ite_none_right_eq_some.mp hs
    obtain ⟨bodies, hb, rfl⟩ := Option.map_eq_some_iff.mp hs
    exact h.close hb
  | world a =>
    simp only [RoundTripRun.step] at hs
    split at hs
    · cases hs
    · rename_i ha
      obtain ⟨trips, ht, rfl⟩ := Option.map_eq_some_iff.mp hs
      exact h.world ha ht
  | transport a =>
    obtain ⟨ha, hs⟩ := Option.ite_none_right_eq_some.mp hs
    obtain ⟨bodies, hb, rfl⟩ := Option.map_eq_some_iff.mp hs
    refine h.bodies_step (fun p request e => ?_) hb
    subst e
    cases ha
  | others guard =>
    cases hs
    exact hguard guard

theorem inv_of_reachable (h : (system ω cfg).Reachable s) : s.Inv cfg := by
  refine h.invariant ?_ fun _ _ _ hi _ hs => Inv.step hi hs
  rintro _ ⟨now, rfl⟩
  exact start_inv now

def acts (trip : List TripAction) : List (RoundTripAction (Fin 1) Empty) := trip.map (.trip 0)

open TripAction in
def attempt : List (RoundTripAction (Fin 1) Empty) :=
  acts ([.go, .go, .go, .go, .go] ++ pace) ++ [.body 0 true true, .reserve 0 0, .trip 0 .go]

end RoundTripRun

end NirnProxy
