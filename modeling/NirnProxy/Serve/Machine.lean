import NirnProxy.Client.Identify
import NirnProxy.Client.Sections
import NirnProxy.Cluster.Routing
import NirnProxy.Observability.Labels
import NirnProxy.Serve.Response

/-! Any number of requests going through `ServeHTTP`, with the sweeper and `Close` beside them.  A
step is one critical section, one atomic read or write, one arm of a `select`, one deferred call or
one return of a call that is not modelled here.  `RoundTrip` is modelled as far as its contexts and
its errors go; the client table is that of `ClientRun`. -/

universe u v

namespace NirnProxy

open Function (update)
open Strings (ascii equalFold hasPrefix)
open Trimming (trimSpace)

structure HttpRequest where
  method : List UInt8
  path : List UInt8
  authorization : List UInt8
  hop : List UInt8
  upgrade : List UInt8
  connection : List (List UInt8)
  deriving DecidableEq

def isUpgradeRequest (r : HttpRequest) : Bool :=
  r.upgrade ≠ [] || r.connection.any fun value =>
    (value.splitOn 44).any fun token => equalFold (trimSpace token) (ascii "upgrade")

structure ServeConfig (π : Type u) where
  request : π → HttpRequest
  enableMetrics : Bool
  maxBearerClients : Nat
  maxBucketStates : Nat
  maxClientStates : Nat
  maxInFlightRequests : Nat
  maxQueueDepth : Nat
  globalLimit : Identity (Vector UInt8 32) → Nat
  queueTimeout : Int
  upstreamTimeout : Int

namespace ServeConfig

variable {π : Type u}

def identity (cfg : ServeConfig π) (p : π) : Identity (Vector UInt8 32) :=
  (identify (cfg.request p).authorization).toIdentity

def clients (cfg : ServeConfig π) : ClientConfig π (Vector UInt8 32) where
  identity := cfg.identity
  maxBearerClients := cfg.maxBearerClients
  maxClientStates := cfg.maxClientStates
  maxBucketStates := cfg.maxBucketStates
  maxQueueDepth := cfg.maxQueueDepth
  globalLimit := cfg.globalLimit

end ServeConfig

/-- The contexts of a request, each the parent of the next.  `afterFunc` says that the end of
`p.ctx` is to cancel the second one. -/
structure RequestContexts where
  client : Context GoError
  request : Context GoError
  queue : Context GoError
  attempt : Context GoError
  afterFunc : Bool
  deriving DecidableEq

/-- The deferred calls of `ServeHTTP`; `state.end` takes two steps. -/
inductive Deferred
  | release
  | cancel
  | dec (method path : List UInt8)
  | endActive
  | endTouch
  deriving DecidableEq

/-- `RoundTrip`: before its queue, in it, at an attempt, and with Discord's 429 at hand. -/
inductive TripStage
  | available
  | queueContext
  | queued
  | reserve
  | inFlight
  | limited (r : HttpResponse)
  deriving DecidableEq

inductive HandlerPc
  | idle
  | health
  | healthCapacity
  | entry
  | reserve
  | tests
  | capacity
  | context
  | label
  | inc (path bucketPath : List UInt8)
  | route (bucketPath : List UInt8)
  | peer (target : List UInt8) (hop : Nat)
  | client
  | admission
  | trip (stage : TripStage)
  | failed (e : GoError)
  | relay (left : List UInt8)
  | unwind
  | returned
  deriving DecidableEq

structure Frame where
  pc : HandlerPc
  deferred : List Deferred
  deriving DecidableEq

/-- The goroutine of `sweepLoop`; in `state` it holds the lock of one of the states. -/
inductive SweeperPc
  | select
  | lock (now : Int)
  | clients
  | states (left : List Nat)
  | state (i : Nat) (left : List Nat)
  | exited
  deriving DecidableEq

inductive FinishPc
  | idle
  | cluster
  | clients
  | transport
  | wait
  | closed
  deriving DecidableEq

/-- How waiting under the context of the queue ends without an attempt or a response. -/
inductive QueueError
  | full
  | slots
  | done
  | capture
  | preparation (err : List UInt8)
  deriving DecidableEq

inductive ServeInput
  | go
  | oracle (ok : Bool)
  | queueError (e : QueueError)
  | unauthorized
  | remembered (delay : Int) (global : Bool)
  | attempt
  | fails (e : GoError)
  | noResponse
  | responds (r : HttpResponse)
  | retry
  | relay
  | retryFails (err : List UInt8)
  | peer (r : Option HttpResponse)
  | copy (n : Nat)
  | abort
  deriving DecidableEq

inductive ContextInput
  | disconnect
  | afterFunc
  | inheritRequest
  | inheritQueue
  | inheritAttempt
  | expireQueue
  | expireAttempt
  deriving DecidableEq

/-- `cleared` says that `finishClose` has set the maps to nil, and `panicked` that one of them was
written to after that.  `series` are the label values that have been used, `aborted` says that
`ReverseProxy` has panicked with `http.ErrAbortHandler`, and `queuedAt` and `attemptAt` are when the
contexts of a request were made; `received` are the responses that Discord or another node has given
to it; `joining` says that a call of `JoinCluster` has still to close its `joinDone`. -/
structure ServeRun (π : Type u) where
  clients : ClientRun π (Vector UInt8 32)
  cleared : Bool
  panicked : Bool
  cancelled : Bool
  inFlight : ResourceBudget
  clusterOverCapacity : Bool
  routes : Option ClusterTable
  joining : Bool
  metricsRoutes : RouteLabelLimiter
  connectionsOpen : List UInt8 × List UInt8 → Int
  series : Finset (List UInt8 × List UInt8)
  sweeper : SweeperPc
  closer : FinishPc
  frame : π → Frame
  contexts : π → RequestContexts
  writer : π → ResponseWriter
  aborted : π → Bool
  queuedAt : π → Int
  attemptAt : π → Int
  received : π → List HttpResponse

/-- `cluster` is what a run of `reindexMembers` leaves behind, `join` and `joined` are the beginning
and the end of a call of `JoinCluster` under `clusterMu`, `table` is a step of the holder of
`clientsMu`, and `op` what a request does to its state in `RoundTrip`. -/
inductive ServeAction (π : Type u)
  | tick (d : Nat)
  | cluster (overCapacity : Bool) (routes : Option ClusterTable)
  | join
  | joined
  | serve (p : π) (i : ServeInput)
  | context (p : π) (i : ContextInput)
  | op (p : π) (o : ClientOp)
  | table (a : ClientAction π (Vector UInt8 32))
  | ticker (now : Int)
  | sweeper
  | sweepLock (i : Nat)
  | sweepState (a : ClientAction π (Vector UInt8 32))
  | close
  | closer

namespace ServeRun

variable {π : Type u}

def start (cfg : ServeConfig π) (now : Int) : ServeRun π where
  clients := .start cfg.clients now
  cleared := false
  panicked := false
  cancelled := false
  inFlight := .newResourceBudget cfg.maxInFlightRequests
  clusterOverCapacity := false
  routes := none
  joining := false
  metricsRoutes := .newRouteLabelLimiter maxMetricsRouteLabels
  connectionsOpen := fun _ => 0
  series := ∅
  sweeper := .select
  closer := .idle
  frame := fun _ => ⟨.idle, []⟩
  contexts := fun _ => ⟨.background, .background, .background, .background, false⟩
  writer := fun _ => .empty
  aborted := fun _ => false
  queuedAt := fun _ => 0
  attemptAt := fun _ => 0
  received := fun _ => []

variable [DecidableEq π]

def goto (p : π) (pc : HandlerPc) (s : ServeRun π) : ServeRun π :=
  { s with frame := update s.frame p { s.frame p with pc := pc } }

def defer (p : π) (ds : List Deferred) (s : ServeRun π) : ServeRun π :=
  { s with frame := update s.frame p { s.frame p with deferred := ds ++ (s.frame p).deferred } }

def onContexts (p : π) (f : RequestContexts → RequestContexts) (s : ServeRun π) : ServeRun π :=
  { s with contexts := update s.contexts p (f (s.contexts p)) }

def answer (p : π) (f : ResponseWriter → ResponseWriter) (s : ServeRun π) : ServeRun π :=
  { s with writer := update s.writer p (f (s.writer p)) }.goto p .unwind

def endContexts (p : π) (s : ServeRun π) : ServeRun π :=
  s.onContexts p fun c => { c with
    attempt := c.attempt.cancel contextCanceled
    queue := c.queue.cancel contextCanceled }

def fail (p : π) (e : GoError) (s : ServeRun π) : ServeRun π := (s.endContexts p).goto p (.failed e)

/-- `ReverseProxy` has a response to copy; a change of protocols is an error. -/
def respond (p : π) (r : HttpResponse) (s : ServeRun π) : ServeRun π :=
  if r.status = 101 then s.fail p errSwitch
  else { s with writer := update s.writer p ((s.writer p).copyHeader r) }.goto p (.relay r.body)

def receive (p : π) (r : HttpResponse) (s : ServeRun π) : ServeRun π :=
  { s with received := update s.received p (r :: s.received p) }

def onClients (cfg : ServeConfig π) (a : ClientAction π (Vector UInt8 32)) (s : ServeRun π) :
    Option (ServeRun π) :=
  (s.clients.step cfg.clients a).map fun clients => { s with clients := clients }

def tripStep (cfg : ServeConfig π) (s : ServeRun π) (p : π) :
    TripStage → ServeInput → Option (ServeRun π)
  | .available, .oracle ok =>
    some (if ok then s.goto p (.trip .queueContext) else s.fail p errInvalidRequestBudget)
  | .queueContext, .go =>
    some (({ s with queuedAt := update s.queuedAt p s.clients.now }.onContexts p fun c =>
      { c with queue := c.request.withTimeoutCause s.clients.now cfg.queueTimeout
                 errQueueDeadline }).goto p (.trip .queued))
  | .queued, .queueError e =>
    let queue := (s.contexts p).queue
    match e with
    | .full => some (s.fail p (queue.causeOr errQueueFull))
    | .slots => some (s.fail p (queue.causeOr errBucketStateLimit))
    | .done => queue.cause.map fun cause => s.fail p cause
    | .capture => some (s.fail p errRetryCaptureBudget)
    | .preparation err => some (s.fail p (errRetryPreparation err))
  | .queued, .unauthorized => some (s.respond p unauthorizedResponse.http)
  | .queued, .remembered delay global =>
    some (s.respond p (rememberedRateLimitResponse delay global).http)
  | .queued, .attempt =>
    some (({ s with attemptAt := update s.attemptAt p s.clients.now }.onContexts p fun c =>
      { c with attempt := c.queue.withTimeoutCause s.clients.now cfg.upstreamTimeout
                 errUpstreamDeadline }).goto p (.trip .reserve))
  | .reserve, .oracle ok =>
    some (if ok then s.goto p (.trip .inFlight) else s.fail p errInvalidRequestBudget)
  | .inFlight, .fails e =>
    if e.foreign then some (s.fail p ((s.contexts p).attempt.causeOr e)) else none
  | .inFlight, .noResponse => some (s.fail p errNoResponse)
  | .inFlight, .responds r =>
    some (if r.status = 429 then (s.receive p r).goto p (.trip (.limited r))
      else (s.receive p r).respond p r)
  | .limited _, .retry =>
    some ((s.onContexts p fun c => { c with attempt := c.attempt.cancel contextCanceled }).goto p
      (.trip .queued))
  | .limited r, .relay => some (s.respond p r)
  | .limited _, .retryFails err => some (s.fail p (errRetryPreparation err))
  | _, _ => none

def runDeferred (cfg : ServeConfig π) (s : ServeRun π) (p : π) : Deferred → Option (ServeRun π)
  | .release => some { s with inFlight := s.inFlight.release 1 }
  | .cancel => some (s.onContexts p fun c =>
      { c with request := c.request.cancel contextCanceled, afterFunc := false })
  | .dec method path => some { s with
      connectionsOpen := update s.connectionsOpen (method, path)
        (s.connectionsOpen (method, path) - 1) }
  | .endActive => s.onClients cfg (.endActive p)
  | .endTouch => s.onClients cfg (.endTouch p)

def serveStep (cfg : ServeConfig π) (s : ServeRun π) (p : π) (i : ServeInput) :
    Option (ServeRun π) :=
  let r := cfg.request p
  match (s.frame p).pc, i with
  | .idle, .go => some (s.goto p (if r.path = ascii "/nirn/healthz" then .health else .entry))
  | .health, .go =>
    some (if s.cancelled then s.answer p (.writeUnavailable (ascii "proxy is shutting down"))
      else s.goto p .healthCapacity)
  | .healthCapacity, .go =>
    some (s.answer p (if s.clusterOverCapacity then
      .writeUnavailable (ascii "cluster exceeds CLUSTER_MAX_NODES") else .writeHeader 200))
  | .entry, .go =>
    some (if s.cancelled then s.answer p (.writeUnavailable (ascii "proxy is shutting down"))
      else s.goto p .reserve)
  | .reserve, .go =>
    some (match s.inFlight.reserve 1 with
      | none => s.answer p (.writeUnavailable (ascii "in-flight request capacity exhausted"))
      | some inFlight => ({ s with inFlight := inFlight }.defer p [.release]).goto p .tests)
  | .tests, .go =>
    some (if hasPrefix r.path (ascii "/nirn/") then s.answer p .notFound
      else if r.method = ascii "CONNECT" ∨ isUpgradeRequest r then
        s.answer p (.httpError (ascii "protocol upgrades are not supported") 400)
      else s.goto p .capacity)
  | .capacity, .go =>
    some (if s.clusterOverCapacity then
        s.answer p (.writeUnavailable (ascii "cluster exceeds CLUSTER_MAX_NODES"))
      else s.goto p .context)
  | .context, .go =>
    some (((s.onContexts p fun c => { c with
      request := c.client.withCancel
      afterFunc := true }).defer p [.cancel]).goto p .label)
  | .label, .go =>
    let bucketPath := getOptimisticBucketPath s.clients.now r.path r.method
    if cfg.enableMetrics then
      let (limiter, path) := s.metricsRoutes.label (metricsPathFromBucket bucketPath)
      some ({ s with metricsRoutes := limiter }.goto p (.inc path bucketPath))
    else some (s.goto p (.route bucketPath))
  | .inc path bucketPath, .go =>
    let labels := (metricsMethodLabel r.method, path)
    some (({ s with
      series := insert labels s.series
      connectionsOpen := update s.connectionsOpen labels (s.connectionsOpen labels + 1) }.defer p
        [.dec labels.1 labels.2]).goto p (.route bucketPath))
  | .route bucketPath, .go =>
    let key := affinityHash (cfg.identity p) bucketPath (isInteractionEndpoint r.path)
    some (match routeDecision (calculateRoute s.routes key) (forwardedHop r.hop) with
      | .serve => s.goto p .client
      | .unconverged =>
        s.answer p (.writeUnavailable (ascii "cluster routing did not converge"))
      | .forward target hop => s.goto p (.peer target hop))
  | .peer _ _, .peer none => some (s.answer p peerError)
  | .peer _ _, .peer (some r) =>
    some (if r.status = 101 then s.answer p peerError else (s.receive p r).respond p r)
  | .client, .go =>
    if s.clients.mu.isFree then
      if s.cancelled ∨ ((cfg.identity p).kind = .none ∧ s.cleared) then
        some (s.answer p (.writeUnavailable errProxyClosed.text))
      else (s.onClients cfg (.client p)).map (·.goto p .admission)
    else none
  | .admission, .go =>
    match s.clients.phase p with
    | .refused => some (s.answer p (.writeUnavailable errTooManyClients.text))
    | .active _ => some ((s.defer p [.endActive, .endTouch]).goto p (.trip .available))
    | _ => none
  | .trip stage, i => s.tripStep cfg p stage i
  | .failed e, .go => some (s.answer p (discordError s.cancelled e))
  | .relay left, .copy n =>
    some ({ s with writer := update s.writer p ((s.writer p).write (left.take n)) }.goto p
      (.relay (left.drop n)))
  | .relay [], .go => some ((s.endContexts p).goto p .unwind)
  | .relay _, .abort =>
    some (({ s with aborted := update s.aborted p true }.endContexts p).goto p .unwind)
  | .unwind, .go =>
    match (s.frame p).deferred with
    | [] => some (s.goto p .returned)
    | d :: ds => (s.runDeferred cfg p d).map fun s =>
      { s with frame := update s.frame p ⟨.unwind, ds⟩ }
  | _, _ => none

def contextStep (s : ServeRun π) (p : π) : ContextInput → Option (ServeRun π)
  | .disconnect =>
    some (s.onContexts p fun c => { c with client := c.client.cancel contextCanceled })
  | .afterFunc =>
    if s.cancelled ∧ (s.contexts p).afterFunc then
      some (s.onContexts p fun c => { c with
        request := c.request.cancel contextCanceled, afterFunc := false })
    else none
  | .inheritRequest => ((s.contexts p).client.inherit (s.contexts p).request).map fun c =>
      s.onContexts p ({ · with request := c })
  | .inheritQueue => ((s.contexts p).request.inherit (s.contexts p).queue).map fun c =>
      s.onContexts p ({ · with queue := c })
  | .inheritAttempt => ((s.contexts p).queue.inherit (s.contexts p).attempt).map fun c =>
      s.onContexts p ({ · with attempt := c })
  | .expireQueue => ((s.contexts p).queue.expire s.clients.now).map fun c =>
      s.onContexts p ({ · with queue := c })
  | .expireAttempt => ((s.contexts p).attempt.expire s.clients.now).map fun c =>
      s.onContexts p ({ · with attempt := c })

/-- The sweeper does not hold the lock that the step takes. -/
def unlocked (s : ServeRun π) (a : ClientAction π (Vector UInt8 32)) : Bool :=
  match s.sweeper with
  | .state i _ => s.clients.takes a != some i
  | _ => true

/-- The states that `sweepClients` goes over after it has released `clientsMu`. -/
def sweepStates (s : ServeRun π) : List Nat :=
  (if s.cleared then [] else [ClientMaps.noAuth]) ++ s.clients.maps.indices

/-- A step in a critical section of `clientsMu`.  A write to a map that is nil panics; the sweeper
goes on to the single states once its section is over. -/
def tableStep (cfg : ServeConfig π) (s : ServeRun π) (a : ClientAction π (Vector UInt8 32)) :
    Option (ServeRun π) :=
  if a.internal ∧ s.unlocked a then
    if s.cleared ∧ s.clients.mu.creates then some { s with panicked := true }
    else (s.onClients cfg a).map fun t =>
      if s.clients.mu.swept ∧ t.clients.mu.isFree then { t with sweeper := .states t.sweepStates }
      else t
  else none

def sweeperStep (cfg : ServeConfig π) (s : ServeRun π) : Option (ServeRun π) :=
  match s.sweeper with
  | .select => if s.cancelled then some { s with sweeper := .exited } else none
  | .lock now => (s.onClients cfg (.sweepClients now)).map ({ · with sweeper := .clients })
  | .states [] => some { s with sweeper := .select }
  | .state _ left => some { s with sweeper := .states left }
  | .clients | .states _ | .exited => none

/-- The lock of a state is free unless `idle` ranges over its buckets. -/
def sweepLockStep (s : ServeRun π) (i : Nat) : Option (ServeRun π) :=
  match s.sweeper with
  | .states left =>
    if i ∈ left ∧ s.clients.rlocked i = false then
      some { s with sweeper := .state i (left.erase i) }
    else none
  | _ => none

def sweepStateStep (cfg : ServeConfig π) (s : ServeRun π) (a : ClientAction π (Vector UInt8 32)) :
    Option (ServeRun π) :=
  match s.sweeper with
  | .state i _ => if a.sweeping i then s.onClients cfg a else none
  | _ => none

def closerStep (s : ServeRun π) : Option (ServeRun π) :=
  match s.closer with
  | .idle | .closed => none
  | .cluster =>
    if s.joining then none
    else some { s with routes := none, clusterOverCapacity := false, closer := .clients }
  | .clients =>
    if s.clients.mu.isFree then
      some { s with
        clients := { s.clients with maps := ⟨∅, ∅⟩ }, cleared := true, closer := .transport }
    else none
  | .transport => some { s with closer := .wait }
  | .wait => if s.sweeper = .exited then some { s with closer := .closed } else none

def step (cfg : ServeConfig π) (s : ServeRun π) : ServeAction π → Option (ServeRun π)
  | .tick d => s.onClients cfg (.tick d)
  | .cluster overCapacity routes =>
    some { s with clusterOverCapacity := overCapacity, routes := routes }
  | .join => if s.cancelled ∨ s.joining then none else some { s with joining := true }
  | .joined => if s.joining then some { s with joining := false } else none
  | .serve p i => s.serveStep cfg p i
  | .context p i => s.contextStep p i
  | .op p o =>
    match (s.frame p).pc with
    | .trip _ => if s.unlocked (.op p o) then s.onClients cfg (.op p o) else none
    | _ => none
  | .table a => s.tableStep cfg a
  | .ticker now =>
    if s.sweeper = .select ∧ now ≤ s.clients.now then some { s with sweeper := .lock now } else none
  | .sweeper => s.sweeperStep cfg
  | .sweepLock i => s.sweepLockStep i
  | .sweepState a => s.sweepStateStep cfg a
  | .close =>
    if s.closer = .idle then some { s with cancelled := true, closer := .cluster } else some s
  | .closer => s.closerStep

def system (cfg : ServeConfig π) : System (ServeRun π) (ServeAction π) where
  init s := ∃ now, s = start cfg now
  step := step cfg

end ServeRun

end NirnProxy
