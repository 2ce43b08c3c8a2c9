import NirnProxy.Client.Calls
import NirnProxy.Serve.InFlight

/-! Every request that returns has been answered with a row of the table of responses, and what the
row says held at the step with which the request came to its answer. -/

universe u

namespace NirnProxy

open Function (update update_self update_of_ne)
open Strings (ascii hasPrefix)
open scoped Parties

structure HttpRequest.Proxied (r : HttpRequest) : Prop where
  path : hasPrefix r.path (ascii "/nirn/") = false
  method : r.method ≠ ascii "CONNECT"
  upgrade : isUpgradeRequest r = false

structure RequestView where
  now : Int
  cancelled : Bool
  aborted : Bool
  contexts : RequestContexts
  queuedAt : Int
  attemptAt : Int
  received : List HttpResponse

namespace RequestView

variable {π : Type u}

def Gone (v : RequestView) : Prop := v.contexts.client.cause.isSome = true

def QueueOver (cfg : ServeConfig π) (v : RequestView) : Prop :=
  v.queuedAt + cfg.queueTimeout ≤ v.now

/-- The time for one attempt is over, and would have been before that for queues and retries. -/
def AttemptOver (cfg : ServeConfig π) (v : RequestView) : Prop :=
  v.attemptAt + cfg.upstreamTimeout ≤ v.now ∧
    v.attemptAt + cfg.upstreamTimeout ≤ v.queuedAt + cfg.queueTimeout

/-- The responses that are passed on: the ones that were received, and those which the proxy gives
in Discord's place. -/
inductive Source (v : RequestView) : HttpResponse → Prop
  | received {resp : HttpResponse} : resp ∈ v.received → Source v resp
  | unauthorized : Source v unauthorizedResponse.http
  | remembered (delay : Int) (global : Bool) :
      Source v (rememberedRateLimitResponse delay global).http

end RequestView

/-- What a request is told when the proxy cannot process it safely. -/
inductive Refuses : ServeInput → GoError → Prop
  | queueFull : Refuses (.queueError .full) errQueueFull
  | bucketStateLimit : Refuses (.queueError .slots) errBucketStateLimit
  | invalidRequestBudget : Refuses (.oracle false) errInvalidRequestBudget
  | retryCaptureBudget : Refuses (.queueError .capture) errRetryCaptureBudget
  | capturing (err : List UInt8) :
      Refuses (.queueError (.preparation err)) (errRetryPreparation err)
  | retrying (err : List UInt8) : Refuses (.retryFails err) (errRetryPreparation err)

/-- How an attempt fails by itself: with an error of the transport while its context has not ended,
without a response, or with a response that changes the protocol. -/
inductive Breaks (v : RequestView) : ServeInput → GoError → Prop
  | fails {e : GoError} : v.contexts.attempt.cause = none → e.foreign = true →
      e.is .canceled = false → Breaks v (.fails e) e
  | noResponse : Breaks v .noResponse errNoResponse
  | switches {resp : HttpResponse} : resp.status = 101 → Breaks v (.responds resp) errSwitch

theorem Breaks.foreign {v : RequestView} {i : ServeInput} {e : GoError} (h : Breaks v i e) :
    e.foreign = true ∧ e.is .canceled = false := by
  cases h with
  | fails _ hf hc => exact ⟨hf, hc⟩
  | noResponse | switches => exact ⟨rfl, rfl⟩

section

variable {π : Type u}

open ResponseWriter (empty)

def ServeRun.view (s : ServeRun π) (p : π) : RequestView where
  now := s.clients.now
  cancelled := s.cancelled
  aborted := s.aborted p
  contexts := s.contexts p
  queuedAt := s.queuedAt p
  attemptAt := s.attemptAt p
  received := s.received p

/-- The table of the proxy's own responses: with the step `i` in the state `u` the request `p` comes
to the response `w`. -/
inductive OwnAnswer (cfg : ServeConfig π) (p : π) (u : ServeRun π) :
    ServeInput → ResponseWriter → Prop
  | healthy : (cfg.request p).path = ascii "/nirn/healthz" → u.clusterOverCapacity = false →
      OwnAnswer cfg p u .go ⟨[], some 200, []⟩
  | notFound : hasPrefix (cfg.request p).path (ascii "/nirn/") = true →
      (cfg.request p).path ≠ ascii "/nirn/healthz" → OwnAnswer cfg p u .go empty.notFound
  | upgrade : hasPrefix (cfg.request p).path (ascii "/nirn/") = false →
      (cfg.request p).method = ascii "CONNECT" ∨ isUpgradeRequest (cfg.request p) = true →
      OwnAnswer cfg p u .go (empty.httpError (ascii "protocol upgrades are not supported") 400)
  | shuttingDown : u.cancelled = true →
      OwnAnswer cfg p u .go (empty.writeUnavailable (ascii "proxy is shutting down"))
  | overCapacity : (cfg.request p).path = ascii "/nirn/healthz" ∨ (cfg.request p).Proxied →
      u.clusterOverCapacity = true →
      OwnAnswer cfg p u .go (empty.writeUnavailable (ascii "cluster exceeds CLUSTER_MAX_NODES"))
  | inFlight : (cfg.request p).path ≠ ascii "/nirn/healthz" →
      u.inFlight.used = cfg.maxInFlightRequests →
      OwnAnswer cfg p u .go (empty.writeUnavailable (ascii "in-flight request capacity exhausted"))
  | unconverged {bucketPath : List UInt8} : (cfg.request p).Proxied →
      (u.frame p).pc = .route bucketPath →
      calculateRoute u.routes (affinityHash (cfg.identity p) bucketPath
        (isInteractionEndpoint (cfg.request p).path)) ≠ [] →
      maxPeerHops ≤ forwardedHop (cfg.request p).hop →
      OwnAnswer cfg p u .go (empty.writeUnavailable (ascii "cluster routing did not converge"))
  | peer {target : List UInt8} {hop : Nat} {reply : Option HttpResponse} :
      (cfg.request p).Proxied → (u.frame p).pc = .peer target hop →
      (∀ resp, reply = some resp → resp.status = 101) →
      OwnAnswer cfg p u (.peer reply) (empty.writeUnavailable (ascii "cluster peer unavailable"))
  | tooManyClients {r : ClientReturn π (Vector UInt8 32)} : (cfg.request p).Proxied →
      r ∈ u.clients.returned → r.call.request = p → r.tooManyClients = true →
      r.after.Full cfg.clients (cfg.identity p) →
      OwnAnswer cfg p u .go (empty.writeUnavailable (ascii "client state limit reached"))
  | refused {i : ServeInput} {e : GoError} : (cfg.request p).Proxied → Refuses i e →
      OwnAnswer cfg p u i (empty.writeUnavailable e.text)
  | queueDeadline {i : ServeInput} : (cfg.request p).Proxied → (u.view p).QueueOver cfg →
      OwnAnswer cfg p u i (empty.writeProxyError errQueueDeadline.text 408)
  | upstreamDeadline {i : ServeInput} : (cfg.request p).Proxied → (u.view p).AttemptOver cfg →
      OwnAnswer cfg p u i (empty.writeProxyError errUpstreamDeadline.text 504)
  | transportDeadline {i : ServeInput} {e : GoError} : (cfg.request p).Proxied →
      Breaks (u.view p) i e → e.is .deadlineExceeded = true →
      OwnAnswer cfg p u i (empty.writeProxyError e.text 408)
  | upstream {i : ServeInput} {e : GoError} : (cfg.request p).Proxied →
      Breaks (u.view p) i e → e.is .deadlineExceeded = false →
      OwnAnswer cfg p u i (empty.writeProxyError (ascii "Discord upstream unavailable") 502)
  | gone : (cfg.request p).Proxied → (u.view p).Gone → u.cancelled = false →
      OwnAnswer cfg p u .go empty

/-- A response has been passed on, with the whole of its body unless the copy was aborted. -/
structure Relayed (r : HttpRequest) (v : RequestView) (w : ResponseWriter) (resp : HttpResponse) :
    Prop where
  proxied : r.Proxied
  source : v.Source resp
  status : w.status = some resp.status ∧ resp.status ≠ 101
  header : w.header = resp.header
  body : w.body <+: resp.body
  whole : v.aborted = false → w.body = resp.body

def RequestEnded (v : RequestView) (e : GoError) : Prop :=
  e = contextCanceled ∧ (v.Gone ∨ v.cancelled = true)

def QueueEnded (cfg : ServeConfig π) (v : RequestView) (e : GoError) : Prop :=
  RequestEnded v e ∨ e = errQueueDeadline ∧ v.QueueOver cfg

def AttemptEnded (cfg : ServeConfig π) (v : RequestView) (e : GoError) : Prop :=
  QueueEnded cfg v e ∨ e = errUpstreamDeadline ∧ v.AttemptOver cfg

/-- Why `RoundTrip` fails with the step `i`, other than because the context of the request has
ended. -/
inductive Reason (cfg : ServeConfig π) (v : RequestView) : ServeInput → GoError → Prop
  | queueDeadline {i : ServeInput} : v.QueueOver cfg → Reason cfg v i errQueueDeadline
  | upstreamDeadline {i : ServeInput} : v.AttemptOver cfg → Reason cfg v i errUpstreamDeadline
  | refused {i : ServeInput} {e : GoError} : Refuses i e → Reason cfg v i e
  | broken {i : ServeInput} {e : GoError} : Breaks v i e → Reason cfg v i e

variable {cfg : ServeConfig π} {r : HttpRequest} {v v' : RequestView} {e : GoError} {p : π}
  {u : ServeRun π} {i : ServeInput}

theorem Refuses.discordError (h : Refuses i e) (c : Bool) (w : ResponseWriter) :
    discordError c e w = w.writeUnavailable e.text := by
  cases h <;> rfl

theorem GoError.foreign_is (h : e.foreign = true) {x : Sentinel} (hc : x ≠ .canceled)
    (hd : x ≠ .deadlineExceeded) : e.is x = false := by
  simp only [GoError.is, decide_eq_false_iff_not]
  intro hx
  simpa [hc, hd] using List.all_eq_true.mp h x hx

/-- The error handler answers with the row for the reason, whether `p.ctx` is done by then or
not. -/
theorem Reason.answer (h : Reason cfg (u.view p) i e) (hr : (cfg.request p).Proxied) (c : Bool) :
    OwnAnswer cfg p u i (discordError c e empty) := by
  cases h with
  | queueDeadline h => exact .queueDeadline hr h
  | upstreamDeadline h => exact .upstreamDeadline hr h
  | refused h =>
    rw [h.discordError]
    exact .refused hr h
  | broken h =>
    obtain ⟨hf, hc⟩ := h.foreign
    have hno : ∀ x ∈ Sentinel.queueDeadline :: .upstreamDeadline :: refusals, e.is x = false := by
      intro x hx
      exact GoError.foreign_is hf (by rintro rfl; simp [refusals] at hx)
        (by rintro rfl; simp [refusals] at hx)
    have hany : refusals.any e.is = false := by
      simp only [List.any_eq_false, Bool.not_eq_true]
      exact fun x hx => hno x (List.mem_cons_of_mem _ (List.mem_cons_of_mem _ hx))
    unfold NirnProxy.discordError
    rw [hc, hno .queueDeadline (by simp), hno .upstreamDeadline (by simp), hany]
    cases hd : e.is .deadlineExceeded with
    | true => exact .transportDeadline hr h hd
    | false => exact .upstream hr h hd

structure RequestView.Grows (v v' : RequestView) : Prop where
  now : v.now ≤ v'.now
  cancelled : v.cancelled = true → v'.cancelled = true
  aborted : v'.aborted = v.aborted
  gone : v.Gone → v'.Gone
  queuedAt : v'.queuedAt = v.queuedAt
  attemptAt : v'.attemptAt = v.attemptAt
  received : v.received ⊆ v'.received

theorem RequestEnded.mono (hg : v.Grows v') (h : RequestEnded v e) : RequestEnded v' e :=
  ⟨h.1, h.2.imp hg.gone hg.cancelled⟩

theorem RequestView.QueueOver.mono (hg : v.Grows v') (h : v.QueueOver cfg) : v'.QueueOver cfg := by
  have hnow := hg.now
  unfold RequestView.QueueOver at h ⊢
  rw [hg.queuedAt]
  omega

theorem RequestView.AttemptOver.mono (hg : v.Grows v') (h : v.AttemptOver cfg) :
    v'.AttemptOver cfg := by
  have hnow := hg.now
  unfold RequestView.AttemptOver at h ⊢
  rw [hg.queuedAt, hg.attemptAt]
  omega

theorem QueueEnded.mono (hg : v.Grows v') (h : QueueEnded cfg v e) : QueueEnded cfg v' e :=
  h.imp (.mono hg) fun h => ⟨h.1, h.2.mono hg⟩

theorem AttemptEnded.mono (hg : v.Grows v') (h : AttemptEnded cfg v e) : AttemptEnded cfg v' e :=
  h.imp (.mono hg) fun h => ⟨h.1, h.2.mono hg⟩

theorem RequestView.Source.mono {resp : HttpResponse} (hg : v.Grows v') (h : v.Source resp) :
    v'.Source resp := by
  cases h with
  | received h => exact .received (hg.received h)
  | unauthorized => exact .unauthorized
  | remembered delay global => exact .remembered delay global

theorem Relayed.mono {w : ResponseWriter} {resp : HttpResponse} (hg : v.Grows v')
    (h : Relayed r v w resp) : Relayed r v' w resp :=
  ⟨h.proxied, h.source.mono hg, h.status, h.header, h.body, hg.aborted ▸ h.whole⟩

end

def TripStage.queueing : TripStage → Bool
  | .available | .queueContext => false
  | .queued | .reserve | .inFlight | .limited _ => true

def TripStage.attempting : TripStage → Bool
  | .reserve | .inFlight => true
  | .available | .queueContext | .queued | .limited _ => false

namespace HandlerPc

def leaving : HandlerPc → Bool
  | .unwind | .returned => true
  | _ => false

def queueing : HandlerPc → Bool
  | .trip stage => stage.queueing
  | _ => false

def attempting : HandlerPc → Bool
  | .trip stage => stage.attempting
  | _ => false

end HandlerPc

section

variable {π : Type u}

/-- The contexts in use end for reasons that hold, now or when their timers go off. -/
structure Traced (cfg : ServeConfig π) (v : RequestView) (pc : HandlerPc) : Prop where
  client : v.contexts.client.deadline = none ∧
    ∀ x, v.contexts.client.cause = some x → x = contextCanceled
  request : pc.leaving = false → v.contexts.request.deadline = none ∧
    v.contexts.request.Caused (RequestEnded v) fun _ _ => False
  queue : pc.queueing = true →
    v.contexts.queue.deadline = some (v.queuedAt + cfg.queueTimeout) ∧
    v.contexts.queue.Caused (QueueEnded cfg v)
      fun d e => e = errQueueDeadline ∧ d = v.queuedAt + cfg.queueTimeout
  attempt : pc.attempting = true →
    v.contexts.attempt.Caused (AttemptEnded cfg v)
      fun d e => e = errUpstreamDeadline ∧ d = v.attemptAt + cfg.upstreamTimeout ∧
        d ≤ v.queuedAt + cfg.queueTimeout

variable {cfg : ServeConfig π} {v v' : RequestView} {pc pc' : HandlerPc}

theorem Traced.weaken (h : Traced cfg v pc) (hl : pc'.leaving = false → pc.leaving = false)
    (hq : pc'.queueing = true → pc.queueing = true)
    (ha : pc'.attempting = true → pc.attempting = true) : Traced cfg v pc' :=
  ⟨h.client, fun h' => h.request (hl h'), fun h' => h.queue (hq h'), fun h' => h.attempt (ha h')⟩

theorem Traced.leave (h : Traced cfg v pc) (hc : v'.contexts.client = v.contexts.client)
    (hl : pc'.leaving = true) : Traced cfg v' pc' := by
  cases pc' with
  | unwind | returned =>
    exact ⟨hc ▸ h.client, fun h => absurd h.symm Bool.false_ne_true,
      fun h => absurd h Bool.false_ne_true, fun h => absurd h Bool.false_ne_true⟩
  | _ => exact absurd hl Bool.false_ne_true

theorem Traced.mono (h : Traced cfg v pc) (hg : v.Grows v') (hc : v'.contexts = v.contexts) :
    Traced cfg v' pc := by
  constructor
  · rw [hc]
    exact h.client
  · intro h'
    rw [hc]
    exact (h.request h').imp id (·.mono fun _ => .mono hg)
  · intro h'
    rw [hc, hg.queuedAt]
    exact (h.queue h').imp id (·.mono fun _ => .mono hg)
  · intro h'
    rw [hc, hg.queuedAt, hg.attemptAt]
    exact (h.attempt h').mono fun _ => .mono hg

theorem Traced.requestContext (h : Traced cfg v pc) (pc' : HandlerPc) (hq : pc'.queueing = false)
    (ha : pc'.attempting = false) :
    Traced cfg { v with contexts :=
      { v.contexts with request := v.contexts.client.withCancel, afterFunc := true } } pc' where
  client := h.client
  request _ := by
    refine ⟨h.client.1, fun x hx => ⟨h.client.2 x hx, .inl ?_⟩, by simp [Context.withCancel]⟩
    exact Option.isSome_iff_exists.mpr ⟨x, hx⟩
  queue h' := absurd (hq.symm.trans h') Bool.false_ne_true
  attempt h' := absurd (ha.symm.trans h') Bool.false_ne_true

theorem Traced.queueContext (h : Traced cfg v pc) (hl : pc.leaving = false) :
    Traced cfg { v with
      queuedAt := v.now
      contexts := { v.contexts with
        queue := v.contexts.request.withTimeoutCause v.now cfg.queueTimeout errQueueDeadline } }
      (.trip .queued) where
  client := h.client
  request _ := h.request hl
  queue _ := by
    obtain ⟨hd, hc⟩ := h.request hl
    refine ⟨Context.deadline_withTimeoutCause hd, hc.withTimeoutCause (fun _ => .inl) ?_ ?_⟩
    · intro hle _
      exact .inr ⟨rfl, by simp only [RequestView.QueueOver]; omega⟩
    · exact fun _ => ⟨rfl, rfl⟩
  attempt h' := absurd h' Bool.false_ne_true

theorem Traced.attemptContext (h : Traced cfg v pc) (hl : pc.leaving = false)
    (hq : pc.queueing = true) :
    Traced cfg { v with
      attemptAt := v.now
      contexts := { v.contexts with
        attempt := v.contexts.queue.withTimeoutCause v.now cfg.upstreamTimeout
          errUpstreamDeadline } } (.trip .reserve) where
  client := h.client
  request _ := h.request hl
  queue _ := h.queue hq
  attempt _ := by
    obtain ⟨hd, hc⟩ := h.queue hq
    refine hc.withTimeoutCause (fun _ => .inl) ?_ ?_
    · intro hle hlate
      exact .inr ⟨rfl, by simp only; omega, hlate _ hd⟩
    · exact fun hlate => ⟨rfl, rfl, hlate _ hd⟩

theorem Traced.endAttempt (h : Traced cfg v pc) (hl : pc.leaving = false) (hq : pc.queueing = true)
    (attempt : Context GoError) :
    Traced cfg { v with contexts := { v.contexts with attempt := attempt } } (.trip .queued) :=
  ⟨h.client, fun _ => h.request hl, fun _ => h.queue hq, fun h => absurd h Bool.false_ne_true⟩

theorem Traced.onRequest {c : Context GoError} {afterFunc : Bool} (h : Traced cfg v pc)
    (hd : c.deadline = v.contexts.request.deadline)
    (hc : pc.leaving = false → c.Caused (RequestEnded v) fun _ _ => False) :
    Traced cfg { v with contexts := { v.contexts with request := c, afterFunc := afterFunc } } pc :=
  ⟨h.client, fun h' => ⟨hd.trans (h.request h').1, hc h'⟩, h.queue, h.attempt⟩

theorem Traced.onQueue {c : Context GoError} (h : Traced cfg v pc)
    (hd : c.deadline = v.contexts.queue.deadline)
    (hc : pc.queueing = true → c.Caused (QueueEnded cfg v)
      fun d e => e = errQueueDeadline ∧ d = v.queuedAt + cfg.queueTimeout) :
    Traced cfg { v with contexts := { v.contexts with queue := c } } pc :=
  ⟨h.client, h.request, fun h' => ⟨hd.trans (h.queue h').1, hc h'⟩, h.attempt⟩

theorem Traced.onAttempt {c : Context GoError} (h : Traced cfg v pc)
    (hc : pc.attempting = true → c.Caused (AttemptEnded cfg v)
      fun d e => e = errUpstreamDeadline ∧ d = v.attemptAt + cfg.upstreamTimeout ∧
        d ≤ v.queuedAt + cfg.queueTimeout) :
    Traced cfg { v with contexts := { v.contexts with attempt := c } } pc :=
  ⟨h.client, h.request, h.queue, hc⟩

theorem HandlerPc.leaving_of_queueing (h : pc.queueing = true) : pc.leaving = false := by
  cases pc with
  | trip stage => rfl
  | _ => exact absurd h Bool.false_ne_true

theorem HandlerPc.queueing_of_attempting (h : pc.attempting = true) : pc.queueing = true := by
  cases pc with
  | trip stage => cases stage <;> first | rfl | exact absurd h Bool.false_ne_true
  | _ => exact absurd h Bool.false_ne_true

end

namespace ServeRun

variable {π : Type u} [DecidableEq π]

/-- A transport reports a cancellation only where its context has ended. -/
def honest (s : ServeRun π) : ServeAction π → Bool
  | .serve p (.fails e) => !e.is .canceled || (s.contexts p).attempt.cause.isSome
  | _ => true

def Honest (s : ServeRun π) (a : ServeAction π) : Prop := s.honest a = true

/-- On the way to `s` the request `p` took a step `i` in a state `u` with `P u i`. -/
def Took (cfg : ServeConfig π) (s : ServeRun π) (p : π) (P : ServeRun π → ServeInput → Prop) :
    Prop :=
  ∃ u i v, (system cfg).Reach Honest u ∧ u.step cfg (.serve p i) = some v ∧
    (system cfg).Leads Honest v s ∧ P u i

def Failed (cfg : ServeConfig π) (now : ServeRun π) (p : π) (v : RequestView) (e : GoError) :
    Prop :=
  RequestEnded v e ∨ Took cfg now p fun u i => Reason cfg (u.view p) i e

/-- What has been written at each place, and what is known of the request there and on its way to
`now`. -/
def Written (cfg : ServeConfig π) (now : ServeRun π) (p : π) (v : RequestView)
    (w : ResponseWriter) : HandlerPc → Prop
  | .idle => w = .empty
  | .health | .healthCapacity => w = .empty ∧ (cfg.request p).path = ascii "/nirn/healthz"
  | .entry | .reserve | .tests => w = .empty ∧ (cfg.request p).path ≠ ascii "/nirn/healthz"
  | .trip (.limited resp) => w = .empty ∧ (cfg.request p).Proxied ∧ v.Source resp ∧
      resp.status = 429
  | .capacity | .context | .label | .inc _ _ | .route _ | .peer _ _ | .client | .admission
  | .trip _ => w = .empty ∧ (cfg.request p).Proxied
  | .failed e => w = .empty ∧ (cfg.request p).Proxied ∧ Failed cfg now p v e
  | .relay left => (cfg.request p).Proxied ∧ ∃ (resp : HttpResponse) (body : List UInt8),
      v.Source resp ∧ resp.status ≠ 101 ∧ body ++ left = resp.body ∧
      w = ⟨resp.header, some resp.status, body⟩
  | .unwind | .returned => (Took cfg now p fun u i => OwnAnswer cfg p u i w) ∨
      ∃ resp, Relayed (cfg.request p) v w resp

variable {cfg : ServeConfig π} {s t now : ServeRun π} {p : π} {v v' : RequestView}
  {w : ResponseWriter} {pc : HandlerPc} {P Q : ServeRun π → ServeInput → Prop}

theorem Took.imp (h : Took cfg s p P) (hPQ : ∀ u i, P u i → Q u i) : Took cfg s p Q := by
  obtain ⟨u, i, v, hu, hs, hl, hP⟩ := h
  exact ⟨u, i, v, hu, hs, hl, hPQ u i hP⟩

theorem Took.step {a : ServeAction π} (h : Took cfg s p P) (hh : s.Honest a)
    (hs : s.step cfg a = some t) : Took cfg t p P := by
  obtain ⟨u, i, v, hu, hstep, hl, hP⟩ := h
  exact ⟨u, i, v, hu, hstep, .step hl hh hs, hP⟩

theorem Failed.mono {e : GoError} (hg : v.Grows v') (h : Failed cfg now p v e) :
    Failed cfg now p v' e :=
  h.imp_left (.mono hg)

theorem Written.mono (h : Written cfg now p v w pc) (hg : v.Grows v') :
    Written cfg now p v' w pc := by
  cases pc with
  | failed e => exact ⟨h.1, h.2.1, h.2.2.mono hg⟩
  | trip stage =>
    cases stage with
    | limited resp => exact ⟨h.1, h.2.1, h.2.2.1.mono hg, h.2.2.2⟩
    | _ => exact h
  | relay left =>
    obtain ⟨hr, resp, body, hsource, h⟩ := h
    exact ⟨hr, resp, body, hsource.mono hg, h⟩
  | unwind | returned => exact h.imp_right fun ⟨resp, h⟩ => ⟨resp, h.mono hg⟩
  | _ => exact h

theorem Written.step {a : ServeAction π} (h : Written cfg s p v w pc) (hh : s.Honest a)
    (hs : s.step cfg a = some t) : Written cfg t p v w pc := by
  cases pc with
  | failed e => exact ⟨h.1, h.2.1, h.2.2.imp_right (·.step hh hs)⟩
  | trip stage => cases stage <;> exact h
  | unwind | returned => exact h.imp_left (·.step hh hs)
  | _ => exact h

theorem Written.trip {stage : TripStage} (h : Written cfg now p v w (.trip stage)) :
    w = .empty ∧ (cfg.request p).Proxied := by
  cases stage with
  | limited resp => exact ⟨h.1, h.2.1⟩
  | _ => exact h

structure Guarded (cfg : ServeConfig π) (s : ServeRun π) : Prop where
  closing : s.Closing
  booked : s.Booked cfg
  crowded : s.clients.Crowded cfg.clients

structure Sound (cfg : ServeConfig π) (s : ServeRun π) (p : π) (now : ServeRun π) : Prop where
  traced : Traced cfg (s.view p) (s.frame p).pc
  written : Written cfg now p (s.view p) (s.writer p) (s.frame p).pc

@[simp] theorem view_goto (s : ServeRun π) (p : π) (pc : HandlerPc) :
    (s.goto p pc).view p = s.view p := rfl

@[simp] theorem view_onContexts (s : ServeRun π) (p : π) (f : RequestContexts → RequestContexts) :
    (s.onContexts p f).view p = { s.view p with contexts := f (s.view p).contexts } := by
  simp [view, onContexts]

theorem sound_goto (ht : Traced cfg (s.view p) pc)
    (hw : Written cfg now p (s.view p) (s.writer p) pc) : (s.goto p pc).Sound cfg p now := by
  constructor
  · rw [view_goto, frame_goto]
    exact ht
  · rw [view_goto, frame_goto]
    exact hw

theorem Sound.mono (h : s.Sound cfg p now) (hg : (s.view p).Grows (t.view p))
    (hc : t.contexts p = s.contexts p) (hf : t.frame p = s.frame p) (hw : t.writer p = s.writer p) :
    t.Sound cfg p now := by
  constructor
  · rw [hf]
    exact h.traced.mono hg hc
  · rw [hf, hw]
    exact h.written.mono hg

theorem Sound.answer (h : s.Sound cfg p now) (f : ResponseWriter → ResponseWriter)
    (ha : Took cfg now p fun u i => OwnAnswer cfg p u i (f (s.writer p))) :
    (s.answer p f).Sound cfg p now := by
  refine sound_goto (h.traced.leave rfl rfl) ?_
  simp only [update_self]
  exact .inl ha

theorem grows_endContexts : (s.view p).Grows ((s.endContexts p).view p) := by
  constructor <;> simp [endContexts, RequestView.Gone]

theorem traced_endContexts {pc : HandlerPc} (h : Traced cfg (s.view p) (s.frame p).pc)
    (hl : (s.frame p).pc.leaving = false) (hq : pc.queueing = false) (ha : pc.attempting = false) :
    Traced cfg ((s.endContexts p).view p) pc := by
  have hreq := h.request hl
  have hg := grows_endContexts (s := s) (p := p)
  refine ⟨?_, fun _ => ?_, by simp [hq], by simp [ha]⟩
  · simpa [endContexts] using h.client
  · simp only [endContexts, view_onContexts] at hg ⊢
    exact hreq.imp id (·.mono fun _ => .mono hg)

theorem Sound.fail {stage : TripStage} {e : GoError} (h : s.Sound cfg p now)
    (hpc : (s.frame p).pc = .trip stage) (hr : Failed cfg now p (s.view p) e) :
    (s.fail p e).Sound cfg p now := by
  obtain ⟨hw, hp⟩ := (hpc ▸ h.written).trip
  refine sound_goto (traced_endContexts h.traced (by rw [hpc]; rfl) rfl rfl) ⟨hw, hp, ?_⟩
  exact hr.mono grows_endContexts

theorem Sound.receive (h : s.Sound cfg p now) (r : HttpResponse) :
    (s.receive p r).Sound cfg p now := by
  refine h.mono ⟨Int.le_refl _, id, rfl, id, rfl, rfl, ?_⟩ rfl rfl rfl
  simp only [view, ServeRun.receive, update_self]
  exact List.subset_cons_self _ _

theorem Sound.copy {r : HttpResponse} (h : s.Sound cfg p now)
    (hl : (s.frame p).pc.leaving = false) (hw : s.writer p = .empty) (hr : (cfg.request p).Proxied)
    (hs : (s.view p).Source r) (hstatus : r.status ≠ 101) :
    ({ s with writer := update s.writer p ((s.writer p).copyHeader r) }.goto p
      (.relay r.body)).Sound cfg p now := by
  refine sound_goto (h.traced.weaken (fun _ => hl) ?_ ?_) ⟨hr, r, [], hs, hstatus, rfl, ?_⟩
  · exact fun h => absurd h Bool.false_ne_true
  · exact fun h => absurd h Bool.false_ne_true
  · simp [hw, ResponseWriter.copyHeader, ResponseWriter.writeHeader, ResponseWriter.empty]

theorem Sound.respond {stage : TripStage} {r : HttpResponse} (h : s.Sound cfg p now)
    (hpc : (s.frame p).pc = .trip stage) (hs : (s.view p).Source r)
    (hswitch : r.status = 101 → Failed cfg now p (s.view p) errSwitch) :
    (s.respond p r).Sound cfg p now := by
  obtain ⟨hw, hp⟩ := (hpc ▸ h.written).trip
  unfold ServeRun.respond
  split
  · exact h.fail hpc (hswitch ‹_›)
  · exact h.copy (by rw [hpc]; rfl) hw hp hs ‹_›

theorem source_receive (s : ServeRun π) (p : π) (r : HttpResponse) :
    ((s.receive p r).view p).Source r :=
  .received (by simp [view, ServeRun.receive])

theorem Sound.goto (h : s.Sound cfg p now) (hl : (s.frame p).pc.leaving = false)
    (hq : pc.queueing = false) (ha : pc.attempting = false)
    (hw : Written cfg now p (s.view p) (s.writer p) pc) : (s.goto p pc).Sound cfg p now :=
  sound_goto (h.traced.weaken (fun _ => hl) (by simp [hq]) (by simp [ha])) hw

theorem failed_of_queueEnded {e : GoError} (h : QueueEnded cfg (s.view p) e) (i : ServeInput)
    (hnow : ∀ P : ServeRun π → ServeInput → Prop, P s i → Took cfg now p P) :
    Failed cfg now p (s.view p) e := by
  obtain h | ⟨rfl, h⟩ := h
  · exact .inl h
  · exact .inr (hnow _ (.queueDeadline h))

theorem failed_of_attemptEnded {e : GoError} (h : AttemptEnded cfg (s.view p) e) (i : ServeInput)
    (hnow : ∀ P : ServeRun π → ServeInput → Prop, P s i → Took cfg now p P) :
    Failed cfg now p (s.view p) e := by
  obtain h | ⟨rfl, h⟩ := h
  · exact failed_of_queueEnded h i hnow
  · exact .inr (hnow _ (.upstreamDeadline h))

theorem Sound.trip {stage : TripStage} {i : ServeInput} (h : s.Sound cfg p now)
    (hh : s.Honest (.serve p i)) (hpc : (s.frame p).pc = .trip stage)
    (hnow : ∀ P : ServeRun π → ServeInput → Prop, P s i → Took cfg now p P)
    (hs : s.tripStep cfg p stage i = some t) : t.Sound cfg p now := by
  have hw := h.written
  rw [hpc] at hw
  have hl : (s.frame p).pc.leaving = false := by rw [hpc]; rfl
  have hrefused {e : GoError} (he : Refuses i e) : Failed cfg now p (s.view p) e :=
    .inr (hnow _ (.refused he))
  have hbroken {e : GoError} (he : Breaks (s.view p) i e) : Failed cfg now p (s.view p) e :=
    .inr (hnow _ (.broken he))
  unfold tripStep at hs
  split at hs
  · cases hs
    split
    · exact h.goto hl rfl rfl hw
    · rename_i hok
      rw [Bool.not_eq_true] at hok
      subst hok
      exact h.fail hpc (hrefused .invalidRequestBudget)
  · cases hs
    refine sound_goto ?_ hw
    have hv := h.traced.queueContext hl
    simpa [view, onContexts] using hv
  · simp only at hs
    have hq := (h.traced.queue (by rw [hpc]; rfl)).2
    have hended := fun e he => failed_of_queueEnded (hq.cause e he) _ hnow
    have hcause : ∀ e, Failed cfg now p (s.view p) e →
        Failed cfg now p (s.view p) ((s.contexts p).queue.causeOr e) := by
      intro e he
      obtain hc | hc := Context.cause_causeOr (s.contexts p).queue e
      · exact hended _ hc
      · rw [hc]
        exact he
    split at hs
    · cases hs
      exact h.fail hpc (hcause _ (hrefused .queueFull))
    · cases hs
      exact h.fail hpc (hcause _ (hrefused .bucketStateLimit))
    · obtain ⟨e, he, rfl⟩ := Option.map_eq_some_iff.mp hs
      exact h.fail hpc (hended e he)
    · cases hs
      exact h.fail hpc (hrefused .retryCaptureBudget)
    · cases hs
      exact h.fail hpc (hrefused (.capturing _))
  · cases hs
    exact h.respond hpc .unauthorized fun hstatus => absurd hstatus (by decide)
  · cases hs
    exact h.respond hpc (.remembered _ _) fun hstatus => by
      simp [status_remembered] at hstatus
  · cases hs
    refine sound_goto ?_ hw
    have hv := h.traced.attemptContext hl (by rw [hpc]; rfl)
    simpa [view, onContexts] using hv
  · cases hs
    split
    · exact sound_goto (h.traced.weaken (fun _ => hl) (by rw [hpc]; exact id)
        (by rw [hpc]; exact id)) hw
    · rename_i hok
      rw [Bool.not_eq_true] at hok
      subst hok
      exact h.fail hpc (hrefused .invalidRequestBudget)
  · obtain ⟨hf, hs⟩ := Option.ite_none_right_eq_some.mp hs
    cases hs
    have ha := h.traced.attempt (by rw [hpc]; rfl)
    refine h.fail hpc ?_
    cases hc : (s.contexts p).attempt.cause with
    | some x =>
      simp only [Context.causeOr, hc, Option.getD_some]
      exact failed_of_attemptEnded (ha.cause x hc) _ hnow
    | none =>
      simp only [Context.causeOr, hc, Option.getD_none]
      refine hbroken (.fails hc hf ?_)
      simpa [Honest, honest, hc] using hh
  · cases hs
    exact h.fail hpc (hbroken .noResponse)
  · cases hs
    split
    · have hq : (s.frame p).pc.queueing = true := by rw [hpc]; rfl
      refine sound_goto ((h.receive _).traced.weaken (fun _ => hl) (fun _ => hq) ?_)
        ⟨hw.1, hw.2, source_receive s p _, ‹_›⟩
      simp [HandlerPc.attempting, TripStage.attempting]
    · exact (h.receive _).respond hpc (source_receive s p _) fun hstatus =>
        .inr (hnow _ (.broken (.switches hstatus)))
  · cases hs
    refine sound_goto ?_ ⟨hw.1, hw.2.1⟩
    have hv := h.traced.endAttempt hl (by rw [hpc]; rfl)
      ((s.contexts p).attempt.cancel contextCanceled)
    simpa [view, onContexts] using hv
  · cases hs
    exact h.respond hpc hw.2.2.1 fun hstatus => by simp [hw.2.2.2] at hstatus
  · cases hs
    exact h.fail hpc (hrefused (.retrying _))
  · cases hs

theorem Sound.to {s' : ServeRun π} (h : s.Sound cfg p now)
    (hl : (s.frame p).pc.leaving = false) (hq : pc.queueing = false) (ha : pc.attempting = false)
    (hv : s'.view p = s.view p) (hw : Written cfg now p (s.view p) (s'.writer p) pc) :
    (s'.goto p pc).Sound cfg p now := by
  refine sound_goto ?_ (hv ▸ hw)
  rw [hv]
  exact h.traced.weaken (fun _ => hl) (by simp [hq]) (by simp [ha])

omit [DecidableEq π] in
theorem grows_clients {clients : ClientRun π (Vector UInt8 32)} (h : s.clients.now ≤ clients.now) :
    (s.view p).Grows ({ s with clients := clients }.view p) :=
  ⟨h, id, rfl, id, rfl, rfl, List.Subset.refl _⟩

theorem Sound.unwind {d : Deferred} (h : s.Sound cfg p now) (hpc : (s.frame p).pc = .unwind)
    (hs : s.runDeferred cfg p d = some t) (ds : List Deferred) :
    ({ t with frame := update t.frame p ⟨.unwind, ds⟩ } : ServeRun π).Sound cfg p now := by
  have hw := h.written
  rw [hpc] at hw
  have hcall : (s.view p).Grows (t.view p) ∧
      (t.view p).contexts.client = (s.view p).contexts.client ∧ t.writer = s.writer := by
    cases d with
    | release | dec method path =>
      cases hs
      exact ⟨⟨Int.le_refl _, id, rfl, id, rfl, rfl, List.Subset.refl _⟩, rfl, rfl⟩
    | cancel =>
      cases hs
      exact ⟨by constructor <;> simp [RequestView.Gone], by simp, rfl⟩
    | endActive | endTouch =>
      obtain ⟨clients, hclients, rfl⟩ := onClients_eq hs
      exact ⟨grows_clients (ClientRun.step_now hclients), rfl, rfl⟩
  obtain ⟨hg, hclient, hwriter⟩ := hcall
  constructor
  · simp only [update_self]
    exact h.traced.leave hclient rfl
  · simp only [update_self, hwriter]
    exact hw.mono hg

theorem Sound.serve {i : ServeInput} (h : s.Sound cfg p now) (hg : s.Guarded cfg)
    (hh : s.Honest (.serve p i))
    (hnow : ∀ P : ServeRun π → ServeInput → Prop, P s i → Took cfg now p P)
    (hs : s.serveStep cfg p i = some t) : t.Sound cfg p now := by
  have hw := h.written
  have hown {w : ResponseWriter} (ha : OwnAnswer cfg p s i w) :
      Took cfg now p fun u i => OwnAnswer cfg p u i w := hnow _ ha
  unfold serveStep at hs
  simp only at hs
  split at hs
  any_goals
    rename_i hpc
    rw [hpc] at hw
    have hl := congrArg HandlerPc.leaving hpc
  · cases hs
    split
    · exact h.to hl rfl rfl rfl ⟨hw, ‹_›⟩
    · exact h.to hl rfl rfl rfl ⟨hw, ‹_›⟩
  · cases hs
    split
    · exact h.answer _ (hw.1 ▸ hown (.shuttingDown ‹_›))
    · exact h.to hl rfl rfl rfl hw
  · cases hs
    refine h.answer _ ?_
    rw [hw.1]
    split
    · exact hown (.overCapacity (.inl hw.2) ‹_›)
    · rename_i hfits
      exact hown (.healthy hw.2 (by simpa using hfits))
  · cases hs
    split
    · exact h.answer _ (hw.1 ▸ hown (.shuttingDown ‹_›))
    · exact h.to hl rfl rfl rfl hw
  · cases hs
    split
    · exact h.answer _ (hw.1 ▸ hown (.inFlight hw.2 (hg.booked.reserve_eq_none.mp ‹_›)))
    · exact h.to hl rfl rfl rfl hw
  · cases hs
    split
    · exact h.answer _ (hw.1 ▸ hown (.notFound ‹_› hw.2))
    · rename_i hprefix
      split
      · rename_i hup
        exact h.answer _ (hw.1 ▸ hown (.upgrade (by simpa using hprefix) hup))
      · rename_i hup
        exact h.to hl rfl rfl rfl ⟨hw.1, by simpa using hprefix, fun h => hup (.inl h),
          by simpa using fun h => hup (.inr h)⟩
  · cases hs
    split
    · exact h.answer _ (hw.1 ▸ hown (.overCapacity (.inr hw.2) ‹_›))
    · exact h.to hl rfl rfl rfl hw
  · cases hs
    refine sound_goto ?_ hw
    have hv := h.traced.requestContext .label rfl rfl
    simpa [view, onContexts, defer] using hv
  · split at hs <;> cases hs
    · exact h.to hl rfl rfl rfl hw
    · exact h.to hl rfl rfl rfl hw
  · cases hs
    exact h.to hl rfl rfl rfl hw
  · cases hs
    split
    · exact h.to hl rfl rfl rfl hw
    · rename_i hroute
      unfold routeDecision at hroute
      split at hroute
      · cases hroute
      · rename_i htarget
        split at hroute
        · exact h.answer _ (hw.1 ▸ hown (.unconverged hw.2 hpc htarget ‹_›))
        · cases hroute
    · exact h.to hl rfl rfl rfl hw
  · cases hs
    exact h.answer _ (hw.1 ▸ hown (.peer hw.2 hpc (by simp)))
  · cases hs
    split
    · rename_i hstatus
      refine h.answer _ (hw.1 ▸ hown (.peer hw.2 hpc ?_))
      rintro _ ⟨⟩
      exact hstatus
    · rename_i hstatus
      unfold ServeRun.respond
      rw [if_neg hstatus]
      exact (h.receive _).copy hl hw.1 hw.2 (source_receive s p _) hstatus
  · obtain ⟨-, hs⟩ := Option.ite_none_right_eq_some.mp hs
    split at hs
    · rename_i hclosed
      cases hs
      exact h.answer _ (hw.1 ▸ hown (.shuttingDown
        (hclosed.elim id fun h => hg.closing.cancelled_of_cleared h.2)))
    · obtain ⟨u, hu, rfl⟩ := Option.map_eq_some_iff.mp hs
      obtain ⟨clients, hclients, rfl⟩ := onClients_eq hu
      have hg := grows_clients (s := s) (p := p) (ClientRun.step_now hclients)
      refine sound_goto ?_ hw
      exact (h.traced.weaken (fun _ => hl) (by simp [HandlerPc.queueing])
        (by simp [HandlerPc.attempting])).mono hg rfl
  · split at hs
    · rename_i hphase
      cases hs
      obtain ⟨r, hr, hcall, hmany, hfull⟩ := hg.crowded.refused p hphase
      exact h.answer _ (hw.1 ▸ hown (.tooManyClients hw.2 hr hcall hmany hfull))
    · cases hs
      exact h.to hl rfl rfl rfl hw
    · cases hs
  · exact h.trip hh hpc hnow hs
  · cases hs
    refine h.answer _ (hw.1 ▸ ?_)
    obtain ⟨rfl, hended⟩ | htook := hw.2.2
    · cases hc : s.cancelled with
      | true => exact hown (.shuttingDown hc)
      | false => exact hown (.gone hw.2.1 (hended.resolve_right (by simp [view, hc])) hc)
    · exact htook.imp fun u i hreason => hreason.answer hw.2.1 s.cancelled
  · rename_i left n
    cases hs
    obtain ⟨hr, resp, body, hsource, hstatus, hbody, hwriter⟩ := hw
    refine h.to hl rfl rfl rfl ⟨hr, resp, body ++ left.take n, hsource, hstatus, ?_, ?_⟩
    · rw [List.append_assoc, List.take_append_drop, hbody]
    · simp [hwriter, ResponseWriter.write, ResponseWriter.writeHeader]
  · cases hs
    obtain ⟨hr, resp, body, hsource, hstatus, hbody, hwriter⟩ := hw
    refine sound_goto (h.traced.leave (by simp [endContexts]) rfl) ?_
    refine Written.mono (.inr ⟨resp, ?_⟩) grows_endContexts
    rw [List.append_nil] at hbody
    exact hwriter ▸ ⟨hr, hsource, ⟨rfl, hstatus⟩, rfl, hbody ▸ List.prefix_rfl, fun _ => hbody⟩
  · cases hs
    obtain ⟨hr, resp, body, hsource, hstatus, hbody, hwriter⟩ := hw
    refine sound_goto (h.traced.leave (by simp [endContexts, onContexts, view]) rfl) ?_
    refine Written.mono (.inr ⟨resp, ?_⟩) grows_endContexts
    refine hwriter ▸ ⟨hr, ?_, ⟨rfl, hstatus⟩, rfl, ⟨_, hbody⟩, fun hab => ?_⟩
    · cases hsource with
      | received h => exact .received h
      | unauthorized => exact .unauthorized
      | remembered delay global => exact .remembered delay global
    · simp [view] at hab
  · split at hs
    · cases hs
      exact sound_goto (h.traced.leave rfl rfl) hw
    · obtain ⟨u, hu, rfl⟩ := Option.map_eq_some_iff.mp hs
      exact h.unwind hpc hu _
  · cases hs

theorem Sound.contexts {f : RequestContexts → RequestContexts} (h : s.Sound cfg p now)
    (hf : (f (s.contexts p)).client = (s.contexts p).client)
    (ht : Traced cfg { s.view p with contexts := f (s.contexts p) } (s.frame p).pc) :
    (s.onContexts p f).Sound cfg p now := by
  have hg : (s.view p).Grows { s.view p with contexts := f (s.contexts p) } :=
    ⟨Int.le_refl _, id, rfl, by simp only [RequestView.Gone, hf]; exact id, rfl, rfl,
      List.Subset.refl _⟩
  constructor
  · rw [view_onContexts]
    exact ht
  · rw [view_onContexts]
    exact h.written.mono hg

theorem Sound.context {i : ContextInput} (h : s.Sound cfg p now)
    (hs : s.contextStep p i = some t) : t.Sound cfg p now := by
  obtain ⟨hclient, hreq, hqueue, hatt⟩ := h.traced
  cases i with
  | disconnect =>
    cases hs
    have hg : (s.view p).Grows ((s.onContexts p fun c =>
        { c with client := c.client.cancel contextCanceled }).view p) := by
      rw [view_onContexts]
      refine ⟨Int.le_refl _, id, rfl, fun h' => ?_, rfl, rfl, List.Subset.refl _⟩
      obtain ⟨x, hx⟩ := Option.isSome_iff_exists.mp h'
      simp [RequestView.Gone, Context.cancel, hx]
    refine ⟨?_, h.written.mono hg⟩
    rw [view_onContexts] at hg ⊢
    refine ⟨⟨hclient.1, fun x hx => ?_⟩, fun h' => ?_, fun h' => ?_, fun h' => ?_⟩
    · exact (Context.cause_cancel hx).elim (hclient.2 x) id
    · exact (hreq h').imp id (·.mono fun _ => .mono hg)
    · exact (hqueue h').imp id (·.mono fun _ => .mono hg)
    · exact (hatt h').mono fun _ => .mono hg
  | afterFunc =>
    obtain ⟨⟨hc, -⟩, hs⟩ := Option.ite_none_right_eq_some.mp hs
    cases hs
    refine h.contexts rfl (h.traced.onRequest rfl fun h' => ?_)
    exact (hreq h').2.cancel ⟨rfl, .inr hc⟩
  | inheritRequest =>
    obtain ⟨c, hc, rfl⟩ := Option.map_eq_some_iff.mp hs
    refine h.contexts rfl (h.traced.onRequest (Context.deadline_inherit hc) fun h' => ?_)
    refine (hreq h').2.inherit (fun x hx => ⟨hclient.2 x hx, .inl ?_⟩) hc
    exact Option.isSome_iff_exists.mpr ⟨x, hx⟩
  | inheritQueue =>
    obtain ⟨c, hc, rfl⟩ := Option.map_eq_some_iff.mp hs
    refine h.contexts rfl (h.traced.onQueue (Context.deadline_inherit hc) fun h' => ?_)
    have hr := (hreq (HandlerPc.leaving_of_queueing h')).2
    exact (hqueue h').2.inherit (fun x hx => .inl (hr.cause x hx)) hc
  | inheritAttempt =>
    obtain ⟨c, hc, rfl⟩ := Option.map_eq_some_iff.mp hs
    refine h.contexts rfl (h.traced.onAttempt fun h' => ?_)
    have hq := (hqueue (HandlerPc.queueing_of_attempting h')).2
    exact (hatt h').inherit (fun x hx => .inl (hq.cause x hx)) hc
  | expireQueue =>
    obtain ⟨c, hc, rfl⟩ := Option.map_eq_some_iff.mp hs
    refine h.contexts rfl (h.traced.onQueue (Context.deadline_expire hc) fun h' => ?_)
    refine (hqueue h').2.expire ?_ hc
    rintro d e hle ⟨he, hd⟩
    exact .inr ⟨he, Int.le_trans (Int.le_of_eq hd.symm) hle⟩
  | expireAttempt =>
    obtain ⟨c, hc, rfl⟩ := Option.map_eq_some_iff.mp hs
    refine h.contexts rfl (h.traced.onAttempt fun h' => ?_)
    refine (hatt h').expire ?_ hc
    rintro d e hle ⟨he, hd, hd'⟩
    exact .inr ⟨he, hd ▸ hle, hd ▸ hd'⟩

theorem Sound.step {a : ServeAction π} (hr : (system cfg).Reach Honest s) (h : s.Sound cfg p s)
    (hg : s.Guarded cfg) (hh : s.Honest a) (hs : s.step cfg a = some t) : t.Sound cfg p t := by
  have h : s.Sound cfg p t := ⟨h.traced, h.written.step hh hs⟩
  by_cases hserve : ∃ i, a = .serve p i
  · obtain ⟨i, rfl⟩ := hserve
    exact h.serve hg hh (fun P hP => ⟨s, i, t, hr, hs, .refl, hP⟩) hs
  by_cases hcontext : ∃ i, a = .context p i
  · obtain ⟨i, rfl⟩ := hcontext
    exact h.context hs
  have hb : Beside s t p := step_beside (fun i e => hserve ⟨i, e⟩) (fun i e => hcontext ⟨i, e⟩) hs
  refine h.mono ⟨step_now hs, step_cancelled hs, hb.aborted, ?_, hb.queuedAt, hb.attemptAt, ?_⟩
    hb.contexts hb.frame hb.writer
  · simp only [RequestView.Gone, view, hb.contexts]
    exact id
  · simp only [view, hb.received]
    exact List.Subset.refl _

end ServeRun

end NirnProxy
