import NirnProxy.Client.State
import NirnProxy.Limits.Headers
import NirnProxy.Routes.Hash
import NirnProxy.Transition

/-! The requests of one credential going through `RoundTrip`.  A step is one critical section, one
atomic read or write, one arm of a `select` or one return of a call that is not modelled here;
sweeps and evictions read the buckets one by one while the requests go on. -/

universe u

namespace NirnProxy

structure RouteRequest where
  routeHash : UInt64
  majorKey : List UInt8
  interaction : Bool

structure SchedulerConfig (π : Type u) where
  request : π → RouteRequest
  kind : AuthType
  globalLimit : Nat
  maxQueueDepth : Nat
  maxBucketStates : Nat
  queueTimeout : Int
  upstreamTimeout : Int
  disable401Lock : Bool

inductive TripResult
  | failed
  | unauthorized
  | remembered (delay : Int) (global : Bool)
  | response (r : Response)
  deriving DecidableEq

/-- `acquireBucket`. -/
inductive AcquirePc
  | lookup
  | lookupSlow
  | activate (b : Nat)
  | touch (b : Nat)
  | gate (b : Nat)
  | deactivate (b : Nat)
  | recheck (b : Nat)
  | recheckSlow (b : Nat)
  deriving DecidableEq

structure Held where
  bucket : Nat
  attempt : Nat
  validation : Bool
  deriving DecidableEq

/-- From the return of `acquireBucket` to `learnBucket`. -/
inductive HeldPc
  | validity
  | validation
  | validationCheck
  | validationRelease
  | invalid
  | replay
  | knownBucket
  | knownGlobal (now delay : Int)
  | wait
  | waitRead
  | waitTest (readyAt : Int) (wake : Nat)
  | waitSleep (readyAt : Int) (wake : Nat)
  | rememberBucket (delay : Int)
  | rememberGlobal (delay now bucketDelay : Int)
  | pacer (pc : WaitForPc)
  | body
  | reserve
  | dispatch
  | inFlight
  | observe (r : Response)
  | blockGlobal (r : Response)
  | blockTime (r : Response)
  | blockBucket (r : Response) (readyAt : Int)
  | learn (r : Response)
  | unwind (res : TripResult)
  deriving DecidableEq

/-- From the return of `learnBucket` to the release of the bucket. -/
inductive LearnedPc
  | validationStore (r : Response)
  | validationRelease (r : Response)
  | status (r : Response)
  | prepare (r : Response)
  | knownBucket (r : Response)
  | knownGlobal (r : Response) (now delay : Int)
  deriving DecidableEq

/-- `bucketState.release`. -/
inductive ReleasePc
  | touch
  | active
  | gate
  deriving DecidableEq

inductive AfterRelease
  | move (attempt target : Nat)
  | retry (attempt : Nat)
  | finish (res : TripResult)
  deriving DecidableEq

inductive TripPc
  | idle
  | beginTouch
  | started
  | acquire (attempt : Nat) (pc : AcquirePc)
  | held (h : Held) (pc : HeldPc)
  | learned (h : Held) (observed : Nat) (pc : LearnedPc)
  | release (b : Nat) (pc : ReleasePc) (k : AfterRelease)
  | returned (res : TripResult)
  | endTouch (generation : Nat)
  | ended
  deriving DecidableEq

inductive TripAction
  | go
  | gate (a : GateStep)
  | pacer (a : WaitForStep)
  | oracle (ok : Bool)
  | timer
  | woken
  | done
  | respond (r : Option Response)
  | prepare (r : Option Bool)
  deriving DecidableEq

/-- `sweep`, while it ranges over the buckets. -/
inductive SweepPc
  | next (left : List UInt64)
  | blocked (hash : UInt64) (left : List UInt64)
  | active (hash : UInt64) (left : List UInt64)
  | lastUsed (hash : UInt64) (left : List UInt64)
  deriving DecidableEq

inductive StateMu
  | free
  | sweep (now released : Int) (pc : SweepPc)
  deriving DecidableEq

/-- `clientsMu`, as far as this credential is concerned. -/
inductive TableMu (π : Type u)
  | free
  | begin (p : π)
  | idle (now : Int) (pc : IdlePc)
  | chosen (now : Int)

inductive TripEvent (π : Type u)
  | block (route : UInt64) (readyAt : Int)
  | grant (p : π) (readyAt time : Int)
  | dispatch (p : π) (route : UInt64) (time : Int)
  deriving DecidableEq

structure SchedulerRun (π : Type u) where
  now : Int
  client : ClientState π
  generation : Nat
  tableMu : TableMu π
  mu : StateMu
  slots : ResourceBudget
  pc : π → TripPc
  done : π → Bool
  deadline : π → Int
  events : List (TripEvent π)

inductive SchedulerAction (π : Type u)
  | tick (d : Nat)
  | cancel (p : π)
  | others (used : Int)
  | trip (p : π) (a : TripAction)
  | sweep (now : Int)
  | sweepStep (choice : Option UInt64)
  | evict (now : Int)
  | evictStep (choice : Option UInt64)
  | spare
  | clear

namespace AfterRelease

def next : AfterRelease → TripPc
  | .move attempt target => .acquire attempt (.activate target)
  | .retry attempt => .acquire attempt .lookup
  | .finish res => .returned res

end AfterRelease

/-- How `acquireBucket` goes on after its recheck: a first acquisition returns to the validation
of the credential, a later one to the top of the retry loop. -/
def rechecked (attempt b target : Nat) : TripPc :=
  if target = b then
    .held ⟨b, attempt, false⟩ (if attempt = 0 then .validity else .knownBucket)
  else .release b .touch (.move attempt target)

def retryWouldExceedDeadline (deadline now delay reserve : Int) : Bool :=
  decide (0 < delay) && decide (deadline - now ≤ delay + reserve)

namespace SchedulerRun

variable {π : Type u}

def start (cfg : SchedulerConfig π) (now : Int) : SchedulerRun π where
  now := now
  client := .newClientState cfg.kind cfg.globalLimit cfg.maxQueueDepth now
  generation := 0
  tableMu := .free
  mu := .free
  slots := .newResourceBudget cfg.maxBucketStates
  pc := fun _ => .idle
  done := fun _ => false
  deadline := fun _ => 0
  events := []

def readable (s : SchedulerRun π) : Bool := s.mu == .free

def writable (s : SchedulerRun π) : Bool :=
  s.readable && match s.tableMu with
    | .idle _ (.buckets _) | .idle _ (.blocked _ _) => false
    | .free | .begin _ | .idle _ _ | .chosen _ => true

def onClient (f : ClientState π → ClientState π) (s : SchedulerRun π) : SchedulerRun π :=
  { s with client := f s.client }

def onBucket (b : Nat) (f : BucketState π → BucketState π) (s : SchedulerRun π) : SchedulerRun π :=
  s.onClient (·.onBucket b f)

def log (e : TripEvent π) (s : SchedulerRun π) : SchedulerRun π :=
  { s with events := e :: s.events }

/-- The end of `sweep`: orphan aliases go, and the slots of everything deleted are released. -/
def sweepEnd (s : SchedulerRun π) (released : Int) : SchedulerRun π :=
  let table := s.client.table
  let released := released + (table.aliases.keys.filter table.orphan).length
  { s with
    client := { s.client with
      table := table.eraseOrphans
      aliasLimit := if 0 < released then false else s.client.aliasLimit }
    slots := s.slots.release released
    mu := .free }

/-- One read of `sweep`, or one turn of its first loop; `choice` is the entry ranged over next. -/
def sweepStep (s : SchedulerRun π) (choice : Option UInt64) : Option (SchedulerRun π) :=
  match s.mu with
  | .free => none
  | .sweep now released (.next left) =>
    match choice with
    | none => if left = [] then some (s.sweepEnd released) else none
    | some hash =>
      if hash ∈ left then
        some { s with mu := .sweep now released (.blocked hash (left.erase hash)) }
      else none
  | .sweep now released (.blocked hash left) =>
    (s.client.bucketUnder hash).map fun b =>
      { s with mu := .sweep now released (if b.blocked now then .next left else .active hash left) }
  | .sweep now released (.active hash left) =>
    (s.client.bucketUnder hash).map fun b =>
      let pc := if b.active ≠ 0 then SweepPc.next left else .lastUsed hash left
      { s with mu := .sweep now released pc }
  | .sweep now released (.lastUsed hash left) =>
    (s.client.bucketUnder hash).map fun b =>
      if clientIdleTimeout < now - b.lastUsed then
        { s.onClient fun client => { client with table := client.table.eraseBucket hash } with
          mu := .sweep now (released + 1) (.next left) }
      else { s with mu := .sweep now released (.next left) }

def evictStep (s : SchedulerRun π) (choice : Option UInt64) : Option (SchedulerRun π) :=
  match s.tableMu with
  | .idle now pc =>
    if pc = .rlock ∧ s.readable = false then none
    else (s.client.idleStep now choice pc).map fun
      | .inl pc => { s with tableMu := .idle now pc }
      | .inr true => { s with tableMu := .chosen now }
      | .inr false => { s with tableMu := .free }
  | _ => none

/-- `clear` and the removal of the state.  What stands here afterwards is the state that the next
request of this credential will create. -/
def clear (cfg : SchedulerConfig π) (s : SchedulerRun π) : SchedulerRun π :=
  let (client, slots) := s.client.clear s.slots
  { s with
    client :=
      { ClientState.newClientState cfg.kind cfg.globalLimit cfg.maxQueueDepth s.now with
        bucketAt := client.bucketAt
        fresh := client.fresh }
    generation := s.generation + 1
    slots := slots
    tableMu := .free }

variable [DecidableEq π]

def goto (p : π) (pc : TripPc) (s : SchedulerRun π) : SchedulerRun π :=
  { s with pc := Function.update s.pc p pc }

def context (cfg : SchedulerConfig π) (s : SchedulerRun π) (p : π) : WaitContext where
  done := s.done p
  deadline := some (s.deadline p)
  reserve := cfg.upstreamTimeout

/-- The delay of the pacer in `knownRateLimit`, for a bucket delay read at the same `now`. -/
def knownRateLimit (cfg : SchedulerConfig π) (s : SchedulerRun π) (p : π) (now delay : Int) :
    Int × Bool :=
  let globalDelay := if (cfg.request p).interaction then 0 else s.client.global.retryAfter now
  if delay < globalDelay then (globalDelay, true) else (delay, false)

def exceedsDeadline (cfg : SchedulerConfig π) (s : SchedulerRun π) (p : π) (delay : Int) : Bool :=
  retryWouldExceedDeadline (s.deadline p) s.now delay cfg.upstreamTimeout

def acquireStep (cfg : SchedulerConfig π) (s : SchedulerRun π) (p : π) (attempt : Nat) :
    AcquirePc → TripAction → Option (SchedulerRun π)
  | .lookup, .go =>
    if s.readable then
      match s.client.table.resolve (cfg.request p).routeHash with
      | some b => some (s.goto p (.acquire attempt (.activate b)))
      | none => some (s.goto p (.acquire attempt .lookupSlow))
    else none
  | .lookupSlow, .go =>
    if s.writable then
      match s.client.bucketSlow s.now (cfg.request p).routeHash s.slots with
      | some (client, slots, b) =>
        some ({ s with client := client, slots := slots }.goto p (.acquire attempt (.activate b)))
      | none => some (s.goto p (.returned .failed))
    else none
  | .activate b, .go => some ((s.onBucket b (.addActive 1)).goto p (.acquire attempt (.touch b)))
  | .touch b, .go => some ((s.onBucket b (.touch s.now)).goto p (.acquire attempt (.gate b)))
  | .gate b, .gate a =>
    ((s.client.bucketAt b).gate.step (s.done p) p a).map fun (g, r) =>
      (s.onBucket b fun bucket => { bucket with gate := g }).goto p (match r with
        | .pending => .acquire attempt (.gate b)
        | .granted => .acquire attempt (.recheck b)
        | .refused _ => .acquire attempt (.deactivate b))
  | .deactivate b, .go => some ((s.onBucket b (.addActive (-1))).goto p (.returned .failed))
  | .recheck b, .go =>
    if s.readable then
      match s.client.table.resolve (cfg.request p).routeHash with
      | some target => some (s.goto p (rechecked attempt b target))
      | none => some (s.goto p (.acquire attempt (.recheckSlow b)))
    else none
  | .recheckSlow b, .go =>
    if s.writable then
      match s.client.bucketSlow s.now (cfg.request p).routeHash s.slots with
      | some (client, slots, target) =>
        some ({ s with client := client, slots := slots }.goto p (rechecked attempt b target))
      | none => some (s.goto p (.release b .touch (.finish .failed)))
    else none
  | _, _ => none

/-- A step at the validation gate; `next` is where `p` goes on. -/
def validationStep (s : SchedulerRun π) (p : π) (a : GateStep) (next : GateReturn → TripPc) :
    Option (SchedulerRun π) :=
  (s.client.validation.step (s.done p) p a).map fun (g, r) =>
    (s.onClient fun client => { client with validation := g }).goto p (next r)

/-- Where `RoundTrip` goes on when `waitFor` has come to `pc`. -/
def afterWaitFor : WaitForPc → HeldPc
  | .returned .granted => .body
  | .returned (.delayed delay) => .unwind (.remembered delay true)
  | .returned (.failed _) => .unwind .failed
  | pc => .pacer pc

/-- A step of `waitFor`; the grant is logged where the turn is taken. -/
def pacerStep (cfg : SchedulerConfig π) (s : SchedulerRun π) (p : π) (h : Held) (pc : WaitForPc)
    (a : WaitForStep) : Option (SchedulerRun π) :=
  (s.client.global.waitFor s.now (s.context cfg p) p pc a).map fun (global, pc') =>
    let s' := (s.onClient fun client => { client with global := global }).goto p
      (.held h (afterWaitFor pc'))
    if pc = .lock ∧ pc' = .unlock .granted then
      s'.log (.grant p (s.client.bucketAt h.bucket).readyAt s.now)
    else s'

/-- `bucketState.wait` on the held bucket. -/
def waitStep (cfg : SchedulerConfig π) (s : SchedulerRun π) (p : π) (h : Held) :
    HeldPc → TripAction → Option (SchedulerRun π)
  | .wait, .go =>
    some (s.goto p (.held h (if s.done p then .unwind .failed else .waitRead)))
  | .waitRead, .go =>
    let bucket := s.client.bucketAt h.bucket
    some (s.goto p (.held h (.waitTest bucket.readyAt bucket.wake)))
  | .waitTest readyAt wake, .go =>
    let delay := readyAt - s.now
    some (s.goto p (.held h (
      if delay ≤ 0 then if (cfg.request p).interaction then .body else .pacer .gate
      else if s.exceedsDeadline cfg p delay then .rememberBucket delay
      else .waitSleep readyAt wake)))
  | .waitSleep readyAt _, .timer =>
    if readyAt ≤ s.now then some (s.goto p (.held h .wait)) else none
  | .waitSleep _ wake, .woken =>
    if wake < (s.client.bucketAt h.bucket).wake then some (s.goto p (.held h .wait)) else none
  | .waitSleep _ _, .done =>
    if s.done p then some (s.goto p (.held h (.unwind .failed))) else none
  | _, _ => none

/-- `learnBucket`, with the test before its critical section. -/
def learnStep (cfg : SchedulerConfig π) (s : SchedulerRun π) (p : π) (h : Held) (r : Response) :
    Option (SchedulerRun π) :=
  if r.info.bucket = [] then some (s.goto p (.learned h h.bucket (.validationStore r)))
  else if s.writable then
    let q := cfg.request p
    let (client, slots, target) := s.client.learnBucket q.routeHash
      (canonicalHash r.info.bucket q.majorKey) h.bucket s.slots
    some ({ s with client := client, slots := slots }.goto p
      (.learned h target (.validationStore r)))
  else none

def heldStep (cfg : SchedulerConfig π) (s : SchedulerRun π) (p : π) (h : Held) :
    HeldPc → TripAction → Option (SchedulerRun π)
  | .validity, .go =>
    some (s.goto p (.held h (
      if !(cfg.request p).interaction && s.client.validity == .unknown then .validation
      else .invalid)))
  | .validation, .gate a =>
    s.validationStep p a fun
      | .pending => .held h .validation
      | .granted => .held { h with validation := true } .validationCheck
      | .refused _ => .held h (.unwind .failed)
  | .validationCheck, .go =>
    some (s.goto p (.held h (
      if s.client.validity ≠ .unknown then .validationRelease else .invalid)))
  | .validationRelease, .go =>
    s.validationStep p .release fun _ => .held { h with validation := false } .invalid
  | .invalid, .go =>
    some (s.goto p (.held h (
      if s.client.validity = .invalid then .unwind .unauthorized else .replay)))
  | .replay, .oracle ok =>
    some (s.goto p (.held h (if ok then .knownBucket else .unwind .failed)))
  | .knownBucket, .go =>
    some (s.goto p (.held h
      (.knownGlobal s.now ((s.client.bucketAt h.bucket).retryAfter s.now))))
  | .knownGlobal now bucketDelay, .go =>
    let (delay, global) := s.knownRateLimit cfg p now bucketDelay
    some (s.goto p (.held h (
      if s.exceedsDeadline cfg p delay then .unwind (.remembered delay global) else .wait)))
  | .rememberBucket delay, .go =>
    some (s.goto p (.held h
      (.rememberGlobal delay s.now ((s.client.bucketAt h.bucket).retryAfter s.now))))
  | .rememberGlobal delay now bucketDelay, .go =>
    let (currentDelay, currentGlobal) := s.knownRateLimit cfg p now bucketDelay
    some (s.goto p (.held h (.unwind (
      if 0 < currentDelay then .remembered currentDelay currentGlobal
      else .remembered delay false))))
  | .pacer pc, .pacer a => s.pacerStep cfg p h pc a
  | .body, .oracle ok => some (s.goto p (.held h (if ok then .reserve else .unwind .failed)))
  | .reserve, .oracle ok => some (s.goto p (.held h (if ok then .dispatch else .unwind .failed)))
  | .dispatch, .go =>
    some ((s.goto p (.held h .inFlight)).log (.dispatch p (cfg.request p).routeHash s.now))
  | .inFlight, .respond none => some (s.goto p (.held h (.unwind .failed)))
  | .inFlight, .respond (some r) => some (s.goto p (.held h (.observe r)))
  | .observe r, .go =>
    let invalid := r.unauthorized && !(cfg.request p).interaction && cfg.kind != .none &&
      !cfg.disable401Lock
    some ((s.onClient fun client =>
      if invalid then { client with validity := .invalid } else client).goto p
        (.held h (.blockGlobal r)))
  | .blockGlobal r, .go =>
    some ((s.onClient fun client => match r.globalDelay with
      | some delay => { client with global := client.global.blockFor s.now delay }
      | none => client).goto p (.held h (.blockTime r)))
  | .blockTime r, .go =>
    some (s.goto p (.held h (match r.bucketDelay (cfg.request p).interaction with
      | some delay => .blockBucket r (s.now + delay)
      | none => .learn r)))
  | .blockBucket r readyAt, .go =>
    some (((s.onBucket h.bucket (·.blockUntil readyAt)).goto p (.held h (.learn r))).log
      (.block (cfg.request p).routeHash readyAt))
  | .learn r, .go => s.learnStep cfg p h r
  | .unwind res, .go =>
    if h.validation then
      s.validationStep p .release fun _ => .held { h with validation := false } (.unwind res)
    else some (s.goto p (.release h.bucket .touch (.finish res)))
  | pc, a => s.waitStep cfg p h pc a

def learnedStep (cfg : SchedulerConfig π) (s : SchedulerRun π) (p : π) (h : Held)
    (observed : Nat) : LearnedPc → TripAction → Option (SchedulerRun π)
  | .validationStore r, .go =>
    if h.validation then
      let validity := if r.unauthorized && !cfg.disable401Lock then Validity.invalid else .valid
      some ((s.onClient fun client => { client with validity := validity }).goto p
        (.learned h observed (.validationRelease r)))
    else some (s.goto p (.learned h observed (.status r)))
  | .validationRelease r, .go =>
    s.validationStep p .release fun _ =>
      .learned { h with validation := false } observed (.status r)
  | .status r, .go =>
    some (s.goto p (
      if r.tooManyRequests then .learned h observed (.prepare r)
      else .release h.bucket .touch (.finish (.response r))))
  | .prepare r, .prepare retryable =>
    some (s.goto p (match retryable with
      | none => .release h.bucket .touch (.finish .failed)
      | some false => .release h.bucket .touch (.finish (.response r))
      | some true => .learned h observed (.knownBucket r)))
  | .knownBucket r, .go =>
    some (s.goto p (.learned h observed
      (.knownGlobal r s.now ((s.client.bucketAt observed).retryAfter s.now))))
  | .knownGlobal r now bucketDelay, .go =>
    let (delay, _) := s.knownRateLimit cfg p now bucketDelay
    some (s.goto p (.release h.bucket .touch (
      if s.exceedsDeadline cfg p delay then .finish (.response r) else .retry (h.attempt + 1))))
  | _, _ => none

def releaseStep (s : SchedulerRun π) (p : π) (b : Nat) (k : AfterRelease) :
    ReleasePc → Option (SchedulerRun π)
  | .touch => some ((s.onBucket b (.touch s.now)).goto p (.release b .active k))
  | .active => some ((s.onBucket b (.addActive (-1))).goto p (.release b .gate k))
  | .gate =>
    ((s.client.bucketAt b).gate.step (s.done p) p .release).map fun (g, _) =>
      (s.onBucket b fun bucket => { bucket with gate := g }).goto p k.next

/-- One step of the request `p`: `client`, `RoundTrip` and `end`.  The state that `end` touches
may have been evicted in between, and then nobody sees the touch. -/
def tripStep (cfg : SchedulerConfig π) (s : SchedulerRun π) (p : π) (a : TripAction) :
    Option (SchedulerRun π) :=
  match s.pc p, a with
  | .idle, .go =>
    match s.tableMu with
    | .free => some (({ s with tableMu := .begin p }.onClient (.addActive 1)).goto p .beginTouch)
    | _ => none
  | .beginTouch, .go =>
    some (({ s with tableMu := .free }.onClient (.touch s.now)).goto p .started)
  | .started, .oracle available =>
    if available then
      some ({ s with deadline := Function.update s.deadline p (s.now + cfg.queueTimeout) }.goto p
        (.acquire 0 .lookup))
    else some (s.goto p (.returned .failed))
  | .acquire attempt pc, a => s.acquireStep cfg p attempt pc a
  | .held h pc, a => s.heldStep cfg p h pc a
  | .learned h observed pc, a => s.learnedStep cfg p h observed pc a
  | .release b pc k, .go => s.releaseStep p b k pc
  | .returned _, .go => some ((s.onClient (.addActive (-1))).goto p (.endTouch s.generation))
  | .endTouch generation, .go =>
    some ((if generation = s.generation then s.onClient (.touch s.now) else s).goto p .ended)
  | _, _ => none

/-- `tick` is the clock, `cancel` ends a context, `others` is what the other credentials do to the
bucket slots, and `spare` is a search that settles for another state. -/
def step (cfg : SchedulerConfig π) (s : SchedulerRun π) :
    SchedulerAction π → Option (SchedulerRun π)
  | .tick d => some { s with now := s.now + d }
  | .cancel p => some { s with done := Function.update s.done p true }
  | .others used => some { s with slots := { s.slots with used := used } }
  | .trip p a => s.tripStep cfg p a
  | .sweep now =>
    if s.writable ∧ now ≤ s.now then
      some { s with mu := .sweep now 0 (.next s.client.table.buckets.keys) }
    else none
  | .sweepStep choice => s.sweepStep choice
  | .evict now =>
    match s.tableMu with
    | .free =>
      if cfg.kind ≠ .none ∧ now ≤ s.now then some { s with tableMu := .idle now .global } else none
    | _ => none
  | .evictStep choice => s.evictStep choice
  | .spare =>
    match s.tableMu with
    | .chosen _ => some { s with tableMu := .free }
    | _ => none
  | .clear =>
    match s.tableMu with
    | .chosen _ => if s.writable then some (s.clear cfg) else none
    | _ => none

def system (cfg : SchedulerConfig π) : System (SchedulerRun π) (SchedulerAction π) where
  init s := ∃ now, s = start cfg now
  step := step cfg

end SchedulerRun

end NirnProxy
