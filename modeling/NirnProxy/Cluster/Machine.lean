import NirnProxy.Cluster.Routing
import NirnProxy.Slot
import NirnProxy.Strings
import NirnProxy.Transition
import Mathlib.Logic.Function.Basic

/-! One proxy joining a cluster, indexing its members, routing requests and closing.  A step is one
critical section of `clusterMu` or `clusterIndexMu`, one atomic load or store, or one return of a
call into the memberlist library. -/

universe u

namespace NirnProxy

open Function (update)
open Strings (ascii)
open Text (itoa joinHostPort)

def invalidRequestSafetyLimit : Int := 9500

def versionTLS13 : Nat := 0x0304

/-- `tls.Certificate`: a chain of certificates, each by its bytes, and its leaf once parsed. -/
structure TlsCertificate where
  certificate : List (List UInt8)
  leaf : Option (List UInt8)
  deriving DecidableEq

/-- What the dialing side reads of a `tls.Config`. -/
structure TlsConfig where
  minVersion : Nat
  maxVersion : Nat
  insecureSkipVerify : Bool
  rootCAs : Option (List (List UInt8))
  certificates : List TlsCertificate
  getClientCertificate : Bool
  deriving DecidableEq

/-- `newPeerHTTPTransport`, up to the configuration that its transport dials with. -/
def newPeerHTTPTransport : Option TlsConfig → Except (List UInt8) TlsConfig
  | none => .error (ascii "cluster peer TLS configuration is required")
  | some config =>
    if config.insecureSkipVerify then
      .error (ascii "cluster peer TLS cannot disable certificate verification")
    else if config.rootCAs = none then
      .error (ascii "cluster peer TLS requires an explicit CA pool")
    else if config.certificates.length = 0 ∧ config.getClientCertificate = false then
      .error (ascii "cluster peer TLS requires a client certificate")
    else if config.maxVersion ≠ 0 ∧ config.maxVersion < versionTLS13 then
      .error (ascii "cluster peer TLS requires TLS 1.3")
    else .ok { config with minVersion := Nat.max config.minVersion versionTLS13 }

/-- What `JoinCluster` checks of its configuration: `bindParses` says that `BindAddress` is empty
or an IP address, `secretRunes` is the number of characters of `Secret`. -/
structure ClusterConfig where
  port : Int
  peerPort : Int
  bindParses : Bool
  maxNodes : Int
  secretRunes : Nat
  peerTLS : Option TlsConfig
  deriving DecidableEq

inductive JoinError
  | ports
  | bindAddress
  | maxNodes
  | secret
  | peerTLS (err : List UInt8)
  | closed
  | initialized
  | create
  | certificate
  | join
  | capacity (members : Nat)
  deriving DecidableEq

def ClusterConfig.check (c : ClusterConfig) : Option JoinError :=
  if c.port < 1 ∨ c.port > 65535 ∨ c.peerPort < 1 ∨ c.peerPort > 65535 then some .ports
  else if !c.bindParses then some .bindAddress
  else if c.maxNodes < 1 ∨ c.maxNodes > invalidRequestSafetyLimit then some .maxNodes
  else if c.secretRunes < 32 then some .secret
  else match newPeerHTTPTransport c.peerTLS with
    | .error err => some (.peerTLS err)
    | .ok _ => none

/-- `JoinCluster`; `shutdown` and `unwind` are its deferred function, and `unwind` without an error
comes after an installation. -/
inductive JoinPc
  | idle
  | enter (config : ClusterConfig)
  | create (config : ClusterConfig) (joinDone : Nat)
  | certificate (config : ClusterConfig) (joinDone cluster : Nat)
  | joinKnown (config : ClusterConfig) (joinDone cluster : Nat)
  | capacity (config : ClusterConfig) (joinDone cluster : Nat)
  | leave (joinDone cluster members : Nat)
  | install (config : ClusterConfig) (joinDone cluster : Nat)
  | shutdown (joinDone cluster : Nat) (err : JoinError)
  | reindex (joinDone : Nat)
  | unwind (joinDone : Nat) (err : Option JoinError)
  | returned (err : Option JoinError)
  deriving DecidableEq

/-- `reindexMembers`; over capacity there is no table. -/
inductive IndexPc
  | idle
  | lock
  | snapshot
  | members (cluster : Nat) (localAddr : List UInt8) (maxNodes : Nat)
  | flag (table : Option ClusterTable)
  | publish (table : Option ClusterTable)
  | unlock
  | finished
  deriving DecidableEq

/-- `ServeHTTP` up to the routing of the request.  `clustered` says that what was loaded so far was
loaded after the first indexing and before `Close`. -/
inductive ServePc
  | idle
  | capacity (key : UInt64) (hop : Nat)
  | route (key : UInt64) (hop : Nat) (clustered : Bool)
  | refused
  | routed (key : UInt64) (table : Option ClusterTable) (decision : RouteDecision)
      (clustered : Bool)
  deriving DecidableEq

/-- `finishClose`; `closeCluster` has returned in `returned`, and `closeDone` is closed in
`closed`. -/
inductive ClosePc
  | idle
  | lock
  | wait (joinDone : Nat)
  | routes (cluster : Option Nat)
  | flag (cluster : Option Nat)
  | leave (cluster : Nat)
  | shutdown (cluster : Nat)
  | returned
  | closed
  deriving DecidableEq

/-- The fields of the proxy, the calls in progress and, for the proofs, what has been made and
given up: a memberlist is an item, a `joinDone` channel a ticket.  A peer transport goes by the
channel of its join.  The runs of `reindexMembers` are those of the joins on the left and those of
the membership events on the right. -/
structure ClusterRun (π : Type u) where
  cluster : Option Nat
  peerTransport : Option Nat
  maxClusterNodes : Nat
  localAddr : List UInt8
  clusterJoining : Bool
  clusterJoinDone : Option Nat
  clusterIndexMu : Option (π ⊕ π)
  clusterOverCapacity : Bool
  routes : Option ClusterTable
  cancelled : Bool
  join : π → JoinPc
  index : π ⊕ π → IndexPc
  request : π → ServePc
  closer : ClosePc
  ledger : List (Effect Token)
  indexed : Bool
  published : List ClusterTable

/-- What a call of `JoinCluster` learns from the memberlist: whether the call failed, the number of
members, the text of the local node's address. -/
structure JoinReply where
  ok : Bool
  members : Nat
  addr : List UInt8
  deriving DecidableEq

inductive ClusterAction (π : Type u)
  | joinCluster (p : π) (config : ClusterConfig)
  | join (p : π) (reply : JoinReply)
  | notify (p : π)
  | index (q : π ⊕ π) (members : List Node)
  | serve (p : π) (key : UInt64) (header : List UInt8)
  | request (p : π)
  | close
  | closer

namespace ClusterRun

variable {π : Type u}

def empty : ClusterRun π where
  cluster := none
  peerTransport := none
  maxClusterNodes := 0
  localAddr := []
  clusterJoining := false
  clusterJoinDone := none
  clusterIndexMu := none
  clusterOverCapacity := false
  routes := none
  cancelled := false
  join := fun _ => .idle
  index := fun _ => .idle
  request := fun _ => .idle
  closer := .idle
  ledger := []
  indexed := false
  published := []

variable [DecidableEq π]

def joinGo (s : ClusterRun π) (p : π) (pc : JoinPc) : ClusterRun π :=
  { s with join := update s.join p pc }

def indexGo (s : ClusterRun π) (q : π ⊕ π) (pc : IndexPc) : ClusterRun π :=
  { s with index := update s.index q pc }

def requestGo (s : ClusterRun π) (p : π) (pc : ServePc) : ClusterRun π :=
  { s with request := update s.request p pc }

def enter (s : ClusterRun π) (e : Effect Token) : ClusterRun π :=
  { s with ledger := e :: s.ledger }

/-- The end of a join under `clusterMu`: nobody waits for it any more. -/
def joinOver (s : ClusterRun π) (joinDone : Nat) : ClusterRun π :=
  { s.enter (.give (.ticket joinDone)) with clusterJoining := false, clusterJoinDone := none }

def joinStep (s : ClusterRun π) (p : π) (reply : JoinReply) : Option (ClusterRun π) :=
  match s.join p with
  | .idle | .returned _ => none
  | .enter config =>
    if s.cancelled then some (s.joinGo p (.returned (some .closed)))
    else if s.cluster.isSome || s.clusterJoining then
      some (s.joinGo p (.returned (some .initialized)))
    else
      some { (s.enter (.take (.ticket s.ledger.length))).joinGo p
          (.create config s.ledger.length) with
        clusterJoining := true, clusterJoinDone := some s.ledger.length }
  | .create config joinDone =>
    if reply.ok then
      some ((s.enter (.take (.item s.ledger.length))).joinGo p
        (.certificate config joinDone s.ledger.length))
    else some (s.joinGo p (.unwind joinDone (some .create)))
  | .certificate config joinDone cluster =>
    some (s.joinGo p (if reply.ok then .joinKnown config joinDone cluster
      else .shutdown joinDone cluster .certificate))
  | .joinKnown config joinDone cluster =>
    some (s.joinGo p (if reply.ok then .capacity config joinDone cluster
      else .shutdown joinDone cluster .join))
  | .capacity config joinDone cluster =>
    some (s.joinGo p (if config.maxNodes < reply.members then .leave joinDone cluster reply.members
      else .install config joinDone cluster))
  | .leave joinDone cluster members =>
    some (s.joinGo p (.shutdown joinDone cluster (.capacity members)))
  | .install config joinDone cluster =>
    if s.cancelled then some (s.joinGo p (.shutdown joinDone cluster .closed))
    else
      some { ((s.joinOver joinDone).joinGo p (.reindex joinDone)).indexGo (.inl p) .lock with
        cluster := some cluster
        peerTransport := some joinDone
        maxClusterNodes := config.maxNodes.toNat
        localAddr := joinHostPort reply.addr (itoa config.peerPort.toNat) }
  | .shutdown joinDone cluster err =>
    some ((s.enter (.give (.item cluster))).joinGo p (.unwind joinDone (some err)))
  | .reindex joinDone =>
    if s.index (.inl p) = .finished then some (s.joinGo p (.unwind joinDone none)) else none
  | .unwind joinDone err =>
    if s.clusterJoinDone = some joinDone then
      some ((s.joinOver joinDone).joinGo p (.returned err))
    else some (s.joinGo p (.returned err))

def indexStep (digest : List UInt8 → List UInt8) (s : ClusterRun π) (q : π ⊕ π)
    (members : List Node) : Option (ClusterRun π) :=
  match s.index q with
  | .idle | .finished => none
  | .lock =>
    if s.clusterIndexMu = none then some { s.indexGo q .snapshot with clusterIndexMu := some q }
    else none
  | .snapshot =>
    some (s.indexGo q (match s.cluster with
      | none => .unlock
      | some cluster => .members cluster s.localAddr s.maxClusterNodes))
  | .members _ localAddr maxNodes =>
    some (s.indexGo q (.flag (reindexed digest localAddr maxNodes members).2))
  | .flag table => some { s.indexGo q (.publish table) with clusterOverCapacity := table.isNone }
  | .publish table =>
    some { s.indexGo q .unlock with
      routes := table, indexed := true, published := table.toList ++ s.published }
  | .unlock => some { s.indexGo q .finished with clusterIndexMu := none }

def requestStep (s : ClusterRun π) (p : π) : Option (ClusterRun π) :=
  match s.request p with
  | .idle | .refused | .routed .. => none
  | .capacity key hop =>
    if s.clusterOverCapacity then some (s.requestGo p .refused)
    else some (s.requestGo p (.route key hop (s.indexed && !s.cancelled)))
  | .route key hop clustered =>
    some (s.requestGo p (.routed key s.routes (routeDecision (calculateRoute s.routes key) hop)
      (clustered && !s.cancelled)))

def closeStep (s : ClusterRun π) : Option (ClusterRun π) :=
  match s.closer with
  | .idle | .closed => none
  | .lock =>
    match s.clusterJoinDone with
    | some joinDone => some { s with closer := .wait joinDone }
    | none =>
      some { s with
        cluster := none, peerTransport := none, maxClusterNodes := 0, localAddr := []
        closer := .routes s.cluster }
  | .wait joinDone =>
    if .give (.ticket joinDone) ∈ s.ledger then some { s with closer := .lock } else none
  | .routes cluster => some { s with routes := none, closer := .flag cluster }
  | .flag cluster =>
    some { s with
      clusterOverCapacity := false
      closer := match cluster with
        | none => .returned
        | some cluster => .leave cluster }
  | .leave cluster => some { s with closer := .shutdown cluster }
  | .shutdown cluster => some { s.enter (.give (.item cluster)) with closer := .returned }
  | .returned => some { s with closer := .closed }

/-- A membership event may start a run of `reindexMembers` at any time, and every call of `Close`
but the first only waits. -/
def step (digest : List UInt8 → List UInt8) (s : ClusterRun π) :
    ClusterAction π → Option (ClusterRun π)
  | .joinCluster p config =>
    if s.join p = .idle then
      some (s.joinGo p (match config.check with
        | some err => .returned (some err)
        | none => .enter config))
    else none
  | .join p reply => s.joinStep p reply
  | .notify p => if s.index (.inr p) = .idle then some (s.indexGo (.inr p) .lock) else none
  | .index q members => s.indexStep digest q members
  | .serve p key header =>
    if s.request p = .idle then
      some (s.requestGo p (if s.cancelled then .refused else .capacity key (forwardedHop header)))
    else none
  | .request p => s.requestStep p
  | .close =>
    if s.closer = .idle then some { s with cancelled := true, closer := .lock } else some s
  | .closer => s.closeStep

def system (π : Type u) [DecidableEq π] (digest : List UInt8 → List UInt8) :
    System (ClusterRun π) (ClusterAction π) where
  init s := s = empty
  step := step digest

end ClusterRun

end NirnProxy
