import Mathlib.Data.Int.Order.Lemmas
import NirnProxy.Cluster.Machine
import NirnProxy.Limits.Overrides
import NirnProxy.Utf8

/-! `loadConfig`: what it makes of the environment, and which configurations it can make. -/

namespace NirnProxy

open Strings Trimming

inductive EnvName
  | requestTimeout
  | queueTimeout
  | port
  | metricsPort
  | pprofPort
  | clusterPort
  | clusterPeerPort
  | clusterMaxNodes
  | maxBearerCount
  | maxClientStates
  | maxInFlightRequests
  | maxBucketStates
  | maxQueueDepth
  | maxRetryCaptureBytes
  | maxRetryBodyBytes
  | enableMetrics
  | enablePprof
  | disableHTTP2
  | disable401Lock
  | clusterMembers
  | clusterDNS
  | clusterSecret
  | clusterCAFile
  | clusterCertFile
  | clusterKeyFile
  | bindIP
  | nodeName
  | outboundIP
  | botRatelimitOverrides
  deriving DecidableEq

def EnvName.text : EnvName → List UInt8
  | .requestTimeout => ascii "REQUEST_TIMEOUT"
  | .queueTimeout => ascii "QUEUE_TIMEOUT"
  | .port => ascii "PORT"
  | .metricsPort => ascii "METRICS_PORT"
  | .pprofPort => ascii "PPROF_PORT"
  | .clusterPort => ascii "CLUSTER_PORT"
  | .clusterPeerPort => ascii "CLUSTER_PEER_PORT"
  | .clusterMaxNodes => ascii "CLUSTER_MAX_NODES"
  | .maxBearerCount => ascii "MAX_BEARER_COUNT"
  | .maxClientStates => ascii "MAX_CLIENT_STATES"
  | .maxInFlightRequests => ascii "MAX_IN_FLIGHT_REQUESTS"
  | .maxBucketStates => ascii "MAX_BUCKET_STATES"
  | .maxQueueDepth => ascii "MAX_QUEUE_DEPTH"
  | .maxRetryCaptureBytes => ascii "MAX_RETRY_CAPTURE_BYTES"
  | .maxRetryBodyBytes => ascii "MAX_RETRY_BODY_BYTES"
  | .enableMetrics => ascii "ENABLE_METRICS"
  | .enablePprof => ascii "ENABLE_PPROF"
  | .disableHTTP2 => ascii "DISABLE_HTTP_2"
  | .disable401Lock => ascii "DISABLE_401_LOCK"
  | .clusterMembers => ascii "CLUSTER_MEMBERS"
  | .clusterDNS => ascii "CLUSTER_DNS"
  | .clusterSecret => ascii "CLUSTER_SECRET"
  | .clusterCAFile => ascii "CLUSTER_CA_FILE"
  | .clusterCertFile => ascii "CLUSTER_CERT_FILE"
  | .clusterKeyFile => ascii "CLUSTER_KEY_FILE"
  | .bindIP => ascii "BIND_IP"
  | .nodeName => ascii "NODE_NAME"
  | .outboundIP => ascii "OUTBOUND_IP"
  | .botRatelimitOverrides => ascii "BOT_RATELIMIT_OVERRIDES"

/-- `os.Getenv`: a variable that is not set is empty, and no value has a NUL byte in it. -/
structure Env where
  value : EnvName → List UInt8
  noNul : ∀ name, 0 ∉ value name

instance : CoeFun Env fun _ => EnvName → List UInt8 := ⟨Env.value⟩

def maxConfiguredTimeout : Int := 24 * Duration.hour

section Readers

variable (std : TextFunctions) (env : Env) (name : EnvName)

def envString (fallback : List UInt8) : List UInt8 := if env name = [] then fallback else env name

/-- `strconv.ParseBool`. -/
def parseBool (s : List UInt8) : Option Bool :=
  if [ascii "1", ascii "t", ascii "T", ascii "TRUE", ascii "true", ascii "True"].contains s then
    some true
  else if [ascii "0", ascii "f", ascii "F", ascii "FALSE", ascii "false", ascii "False"].contains s
  then some false
  else none

def envBool (fallback : Bool) : Except (List UInt8) Bool :=
  if env name = [] then .ok fallback
  else match parseBool (env name) with
    | some parsed => .ok parsed
    | none => .error (name.text ++ ascii " must be true or false: strconv.ParseBool: parsing " ++
        std.quote (env name) ++ ascii ": invalid syntax")

def envInt64 (fallback minimum maximum : Int) : Except (List UInt8) Int :=
  let err := name.text ++ ascii " must be between " ++ Text.formatInt minimum ++ ascii " and " ++
    Text.formatInt maximum
  if env name = [] then .ok fallback
  else match Text.atoi (env name) with
    | none => .error err
    | some parsed => if parsed < minimum ∨ parsed > maximum then .error err else .ok parsed

/-- `int` has 64 bits. -/
def envInt (fallback minimum maximum : Int) : Except (List UInt8) Int :=
  envInt64 env name fallback minimum maximum

def envDurationMilliseconds (fallback : Int) : Except (List UInt8) Int := do
  let milliseconds ← envInt64 env name (fallback / Duration.millisecond) 1
    (maxConfiguredTimeout / Duration.millisecond)
  .ok (milliseconds * Duration.millisecond)

def splitNonempty (value : List UInt8) : List (List UInt8) :=
  ((value.splitOn 44).map trimSpace).filter (· ≠ [])

end Readers

inductive KeyUsage
  | serverAuth
  | clientAuth
  deriving DecidableEq

def KeyUsage.name : KeyUsage → List UInt8
  | .serverAuth => ascii "server"
  | .clientAuth => ascii "client"

/-- The files and what `crypto/tls` and `crypto/x509` make of them.  A certificate goes by its
bytes; `parseCertificate`, `verify` and `verifyHostname` give the text of their error, if there is
one. -/
structure TlsLibrary where
  readFile : List UInt8 → Except (List UInt8) (List UInt8)
  certsFromPEM : List UInt8 → List (List UInt8)
  loadX509KeyPair : List UInt8 → List UInt8 → Except (List UInt8) TlsCertificate
  parseCertificate : List UInt8 → Option (List UInt8)
  verify : (leaf : List UInt8) → (roots intermediates : List (List UInt8)) → KeyUsage →
    Option (List UInt8)
  verifyHostname : (leaf host : List UInt8) → Option (List UInt8)

structure ServerTLS where
  minVersion : Nat
  certificates : List TlsCertificate
  requireAndVerifyClientCert : Bool
  clientCAs : List (List UInt8)
  deriving DecidableEq

namespace TlsLibrary

variable (lib : TlsLibrary)

/-- The loop over the rest of the chain. -/
def parseChain : List (List UInt8) → Except (List UInt8) Unit
  | [] => .ok ()
  | raw :: rest =>
    match lib.parseCertificate raw with
    | some err => .error (ascii "parse CLUSTER_CERT_FILE chain: " ++ err)
    | none => parseChain rest

/-- The loop over the usages. -/
def verifyUsages (leaf : List UInt8) (roots intermediates : List (List UInt8)) :
    List KeyUsage → Except (List UInt8) Unit
  | [] => .ok ()
  | usage :: rest =>
    match lib.verify leaf roots intermediates usage with
    | some err => .error (ascii "verify cluster certificate for " ++ usage.name ++
        ascii " authentication: " ++ err)
    | none => verifyUsages leaf roots intermediates rest

/-- The certificate comes back with its leaf. -/
def verifyClusterCertificate (certificate : TlsCertificate) (roots : List (List UInt8)) :
    Except (List UInt8) TlsCertificate :=
  match certificate.certificate with
  | [] => .error (ascii "CLUSTER_CERT_FILE contains no certificates")
  | leaf :: intermediates =>
    match lib.parseCertificate leaf with
    | some err => .error (ascii "parse CLUSTER_CERT_FILE leaf: " ++ err)
    | none => do
      lib.parseChain intermediates
      lib.verifyUsages leaf roots intermediates [.serverAuth, .clientAuth]
      .ok { certificate with leaf := some leaf }

def requireFiles : List (EnvName × List UInt8) → Except (List UInt8) Unit
  | [] => .ok ()
  | (name, value) :: rest =>
    if value = [] then .error (name.text ++ ascii " is required when clustering is enabled")
    else requireFiles rest

def loadClusterTLS (caFile certFile keyFile : List UInt8) :
    Except (List UInt8) (ServerTLS × TlsConfig) := do
  requireFiles [(.clusterCAFile, caFile), (.clusterCertFile, certFile), (.clusterKeyFile, keyFile)]
  let caPEM ← (lib.readFile caFile).mapError (ascii "read CLUSTER_CA_FILE: " ++ ·)
  let caPool := lib.certsFromPEM caPEM
  if caPool = [] then .error (ascii "CLUSTER_CA_FILE contains no valid PEM certificates")
  let certificate ← (lib.loadX509KeyPair certFile keyFile).mapError
    (ascii "load cluster certificate and key: " ++ ·)
  let certificate ← lib.verifyClusterCertificate certificate caPool
  let server : ServerTLS :=
    { minVersion := versionTLS13
      certificates := [certificate]
      requireAndVerifyClientCert := true
      clientCAs := caPool }
  let client : TlsConfig :=
    { minVersion := versionTLS13
      maxVersion := 0
      insecureSkipVerify := false
      rootCAs := some caPool
      certificates := [certificate]
      getClientCertificate := false }
  .ok (server, client)

end TlsLibrary

/-- `proxy.Config`, without the transport that tests put in. -/
structure ProxyConfig where
  outboundIP : List UInt8
  upstreamTimeout : Int
  queueTimeout : Int
  disableHTTP2 : Bool
  disable401Lock : Bool
  enableMetrics : Bool
  globalOverrides : List UInt8
  maxBearerClients : Int
  maxBucketStates : Int
  maxClientStates : Int
  maxInFlightRequests : Int
  maxQueueDepth : Int
  maxRetryBodyBytes : Int
  maxRetryCaptureBytes : Int
  invalidRequestLimit : Int
  deriving DecidableEq

structure AppConfig where
  bindIP : List UInt8
  port : Int
  metricsPort : Int
  pprofPort : Int
  enableMetrics : Bool
  enablePprof : Bool
  clusterPort : Int
  clusterPeerPort : Int
  clusterMaxNodes : Int
  clusterMembers : List (List UInt8)
  clusterDNS : List UInt8
  nodeName : List UInt8
  clusterSecret : List UInt8
  clusterServerTLS : Option ServerTLS
  clusterClientTLS : Option TlsConfig
  proxy : ProxyConfig
  deriving DecidableEq

def AppConfig.clusteringEnabled (c : AppConfig) : Bool :=
  decide (0 < c.clusterMembers.length) || decide (c.clusterDNS ≠ [])

/-- The part of `loadConfig` that concerns a cluster. -/
def loadCluster (lib : TlsLibrary) (env : Env) (enabled : Bool) :
    Except (List UInt8) (Option ServerTLS × Option TlsConfig) :=
  if enabled then
    if Utf8.runeCount (env .clusterSecret) < 32 then
      .error (ascii
        "CLUSTER_SECRET must contain at least 32 characters when clustering is enabled")
    else do
      let (server, client) ← lib.loadClusterTLS (trimSpace (env .clusterCAFile))
        (trimSpace (env .clusterCertFile)) (trimSpace (env .clusterKeyFile))
      .ok (some server, some client)
  else .ok (none, none)

def invalidRequestLimit (clusterEnabled : Bool) (clusterMaxNodes : Int) : Int :=
  if clusterEnabled then max 1 (invalidRequestSafetyLimit.tdiv clusterMaxNodes)
  else invalidRequestSafetyLimit

def loadConfig (std : TextFunctions) (lib : TlsLibrary) (env : Env) :
    Except (List UInt8) AppConfig := do
  let requestTimeout ← envDurationMilliseconds env .requestTimeout (5 * Duration.second)
  let queueTimeout ← envDurationMilliseconds env .queueTimeout Duration.minute
  let port ← envInt env .port 8080 1 65535
  let metricsPort ← envInt env .metricsPort 9000 1 65535
  let pprofPort ← envInt env .pprofPort 7654 1 65535
  let clusterPort ← envInt env .clusterPort 7946 1 65535
  let clusterPeerPort ← envInt env .clusterPeerPort 8443 1 65535
  let clusterMaxNodes ← envInt env .clusterMaxNodes 32 1 invalidRequestSafetyLimit
  let maxBearerClients ← envInt env .maxBearerCount 1024 1 1000000
  let maxClientStates ← envInt env .maxClientStates 4096 1 1000000
  let maxInFlightRequests ← envInt env .maxInFlightRequests 4096 1 1000000
  let maxBucketStates ← envInt env .maxBucketStates 65536 1 10000000
  let maxQueueDepth ← envInt env .maxQueueDepth 1000 1 1000000
  let maxRetryCaptureBytes ← envInt64 env .maxRetryCaptureBytes 268435456 0 1099511627776
  let maxRetryBodyBytes ← envInt64 env .maxRetryBodyBytes 26214400 0 1073741824
  let enableMetrics ← envBool std env .enableMetrics true
  let enablePprof ← envBool std env .enablePprof false
  let disableHTTP2 ← envBool std env .disableHTTP2 true
  let disable401Lock ← envBool std env .disable401Lock false
  let clusterMembers := splitNonempty (env .clusterMembers)
  let clusterDNS := trimSpace (env .clusterDNS)
  let clusterEnabled := decide (0 < clusterMembers.length) || decide (clusterDNS ≠ [])
  let (clusterServerTLS, clusterClientTLS) ← loadCluster lib env clusterEnabled
  .ok {
    bindIP := envString env .bindIP (ascii "0.0.0.0")
    port := port
    metricsPort := metricsPort
    pprofPort := pprofPort
    enableMetrics := enableMetrics
    enablePprof := enablePprof
    clusterPort := clusterPort
    clusterPeerPort := clusterPeerPort
    clusterMaxNodes := clusterMaxNodes
    clusterMembers := clusterMembers
    clusterDNS := clusterDNS
    nodeName := trimSpace (env .nodeName)
    clusterSecret := env .clusterSecret
    clusterServerTLS := clusterServerTLS
    clusterClientTLS := clusterClientTLS
    proxy := {
      outboundIP := trimSpace (env .outboundIP)
      upstreamTimeout := requestTimeout
      queueTimeout := queueTimeout
      disableHTTP2 := disableHTTP2
      disable401Lock := disable401Lock
      enableMetrics := enableMetrics
      globalOverrides := trimSpace (env .botRatelimitOverrides)
      maxBearerClients := maxBearerClients
      maxBucketStates := maxBucketStates
      maxClientStates := maxClientStates
      maxInFlightRequests := maxInFlightRequests
      maxQueueDepth := maxQueueDepth
      maxRetryBodyBytes := maxRetryBodyBytes
      maxRetryCaptureBytes := maxRetryCaptureBytes
      invalidRequestLimit := invalidRequestLimit clusterEnabled clusterMaxNodes } }

theorem bind_eq_ok {ε α β : Type} {x : Except ε α} {f : α → Except ε β} {b : β} :
    (x >>= f) = .ok b ↔ ∃ a, x = .ok a ∧ f a = .ok b := by
  cases x <;> simp [bind, Except.bind]

theorem ok_bind {ε α β : Type} (a : α) (f : α → Except ε β) :
    ((Except.ok a : Except ε α) >>= f) = f a := rfl

section Reading

variable {std : TextFunctions} {env : Env} {name : EnvName} {fallback minimum maximum n : Int}

def InRange (minimum maximum n : Int) : Prop := minimum ≤ n ∧ n ≤ maximum
  deriving Decidable

theorem envInt64_inRange (hfallback : InRange minimum maximum fallback)
    (h : envInt64 env name fallback minimum maximum = .ok n) : InRange minimum maximum n := by
  unfold envInt64 at h
  simp only at h
  split at h
  · cases h
    exact hfallback
  · split at h
    · cases h
    · split at h
      · cases h
      · rename_i hrange
        cases h
        exact ⟨by omega, by omega⟩

theorem envInt64_itoa (h : env name = Text.itoa n.toNat) (hn : InRange minimum maximum n)
    (hmin : 0 ≤ minimum) (hmax : maximum < 2 ^ 63) :
    envInt64 env name fallback minimum maximum = .ok n := by
  obtain ⟨hle, hge⟩ := hn
  have hcast : (n.toNat : Int) = n := Int.toNat_of_nonneg (hmin.trans hle)
  have hlt : n.toNat < 2 ^ 63 := by omega
  unfold envInt64
  simp only [h, if_neg (Text.itoa_ne_nil _), Text.atoi_itoa hlt, hcast]
  exact if_neg (by omega)

/-- A timeout in whole milliseconds, of at least one and at most a day. -/
def IsTimeout (d : Int) : Prop := ∃ ms, InRange 1 86400000 ms ∧ d = ms * Duration.millisecond

theorem maxConfiguredTimeout_eq : maxConfiguredTimeout / Duration.millisecond = 86400000 := by
  decide

theorem envDurationMilliseconds_isTimeout {d : Int}
    (hfallback : InRange 1 86400000 (fallback / Duration.millisecond))
    (h : envDurationMilliseconds env name fallback = .ok d) : IsTimeout d := by
  obtain ⟨ms, hms, h⟩ := bind_eq_ok.mp h
  cases h
  rw [maxConfiguredTimeout_eq] at hms
  exact ⟨ms, envInt64_inRange hfallback hms, rfl⟩

theorem envDurationMilliseconds_itoa {d : Int}
    (h : env name = Text.itoa (d / Duration.millisecond).toNat) (hd : IsTimeout d) :
    envDurationMilliseconds env name fallback = .ok d := by
  obtain ⟨ms, hms, rfl⟩ := hd
  have hdiv : ms * Duration.millisecond / Duration.millisecond = ms :=
    Int.mul_ediv_cancel ms (by decide)
  rw [hdiv] at h
  rw [envDurationMilliseconds, maxConfiguredTimeout_eq,
    envInt64_itoa h hms (by decide) (by decide)]
  rfl

def formatBool (b : Bool) : List UInt8 := ascii (if b then "true" else "false")

theorem envBool_formatBool {b fallback : Bool} (h : env name = formatBool b) :
    envBool std env name fallback = .ok b := by
  unfold envBool
  rw [h]
  cases b <;> rfl

theorem trimSpace_trimSpace (s : List UInt8) : trimSpace (trimSpace s) = trimSpace s := by
  obtain ⟨-, -, -, -, -, hs, he⟩ := trimSpace_spec s
  have htrim := trimSpace_eq .nil .nil hs he
  rwa [List.nil_append, List.append_nil] at htrim

theorem mem_of_mem_trimSpace {s : List UInt8} {b : UInt8} (h : b ∈ trimSpace s) : b ∈ s := by
  obtain ⟨x, y, -, -, hsplit, -, -⟩ := trimSpace_spec s
  rw [hsplit]
  exact List.mem_append_left y (List.mem_append_right x h)

/-- A text that a variable can hold with no space around it. -/
structure IsSetting (s : List UInt8) : Prop where
  trimmed : trimSpace s = s
  noNul : 0 ∉ s

theorem isSetting_trimSpace (env : Env) (name : EnvName) : IsSetting (trimSpace (env name)) :=
  ⟨trimSpace_trimSpace _, fun h => env.noNul name (mem_of_mem_trimSpace h)⟩

/-- A member of a list as `splitNonempty` gives it. -/
structure IsMember (s : List UInt8) : Prop extends IsSetting s where
  ne_nil : s ≠ []
  comma : 44 ∉ s

theorem isMember_of_splitNonempty {value s : List UInt8} (hnul : 0 ∉ value)
    (h : s ∈ splitNonempty value) : IsMember s := by
  obtain ⟨h, hne⟩ := List.mem_filter.mp h
  obtain ⟨raw, hraw, rfl⟩ := List.mem_map.mp h
  have hraw0 : 0 ∉ raw := fun h0 => hnul (join_splitOn 44 value ▸ mem_join h0 hraw)
  exact {
    trimmed := trimSpace_trimSpace raw
    noNul := fun h0 => hraw0 (mem_of_mem_trimSpace h0)
    ne_nil := of_decide_eq_true hne
    comma := fun hcomma => notMem_of_mem_splitOn hraw (mem_of_mem_trimSpace hcomma) }

theorem splitNonempty_join {members : List (List UInt8)} (h : ∀ s ∈ members, IsMember s) :
    splitNonempty (join 44 members) = members := by
  by_cases hne : members = []
  · subst hne
    decide +kernel
  · rw [splitNonempty, splitOn_join (fun s hs => (h s hs).comma) hne]
    have hmap : members.map trimSpace = members :=
      (List.map_congr_left fun s hs => (h s hs).trimmed).trans (List.map_id' members)
    rw [hmap, List.filter_eq_self]
    exact fun s hs => decide_eq_true (h s hs).ne_nil

end Reading

structure AppConfig.Valid (lib : TlsLibrary) (c : AppConfig) : Prop where
  upstreamTimeout : IsTimeout c.proxy.upstreamTimeout
  queueTimeout : IsTimeout c.proxy.queueTimeout
  port : InRange 1 65535 c.port
  metricsPort : InRange 1 65535 c.metricsPort
  pprofPort : InRange 1 65535 c.pprofPort
  clusterPort : InRange 1 65535 c.clusterPort
  clusterPeerPort : InRange 1 65535 c.clusterPeerPort
  clusterMaxNodes : InRange 1 invalidRequestSafetyLimit c.clusterMaxNodes
  maxBearerClients : InRange 1 1000000 c.proxy.maxBearerClients
  maxClientStates : InRange 1 1000000 c.proxy.maxClientStates
  maxInFlightRequests : InRange 1 1000000 c.proxy.maxInFlightRequests
  maxBucketStates : InRange 1 10000000 c.proxy.maxBucketStates
  maxQueueDepth : InRange 1 1000000 c.proxy.maxQueueDepth
  maxRetryCaptureBytes : InRange 0 1099511627776 c.proxy.maxRetryCaptureBytes
  maxRetryBodyBytes : InRange 0 1073741824 c.proxy.maxRetryBodyBytes
  enableMetrics : c.proxy.enableMetrics = c.enableMetrics
  bindIP : c.bindIP ≠ [] ∧ 0 ∉ c.bindIP
  clusterMembers : ∀ s ∈ c.clusterMembers, IsMember s
  clusterDNS : IsSetting c.clusterDNS
  nodeName : IsSetting c.nodeName
  clusterSecret : 0 ∉ c.clusterSecret
  outboundIP : IsSetting c.proxy.outboundIP
  globalOverrides : IsSetting c.proxy.globalOverrides
  limit : c.proxy.invalidRequestLimit = invalidRequestLimit c.clusteringEnabled c.clusterMaxNodes
  standAlone : c.clusteringEnabled = false → c.clusterServerTLS = none ∧ c.clusterClientTLS = none
  clustered : c.clusteringEnabled = true → 32 ≤ Utf8.runeCount c.clusterSecret ∧
    ∃ caFile certFile keyFile server client,
      IsSetting caFile ∧ IsSetting certFile ∧ IsSetting keyFile ∧
      lib.loadClusterTLS caFile certFile keyFile = .ok (server, client) ∧
      c.clusterServerTLS = some server ∧ c.clusterClientTLS = some client

section Loading

variable {std : TextFunctions} {lib : TlsLibrary} {env : Env} {c : AppConfig}

theorem loadCluster_standAlone {tls : Option ServerTLS × Option TlsConfig}
    (h : loadCluster lib env false = .ok tls) : tls = (none, none) := by
  cases h
  rfl

theorem loadCluster_clustered {tls : Option ServerTLS × Option TlsConfig}
    (h : loadCluster lib env true = .ok tls) : 32 ≤ Utf8.runeCount (env .clusterSecret) ∧
      ∃ caFile certFile keyFile server client,
        IsSetting caFile ∧ IsSetting certFile ∧ IsSetting keyFile ∧
        lib.loadClusterTLS caFile certFile keyFile = .ok (server, client) ∧
        tls = (some server, some client) := by
  rw [loadCluster, if_pos rfl] at h
  split at h
  · cases h
  · rename_i hsecret
    obtain ⟨⟨server, client⟩, htls, h⟩ := bind_eq_ok.mp h
    cases h
    exact ⟨not_lt.mp hsecret, _, _, _, server, client, isSetting_trimSpace _ _,
      isSetting_trimSpace _ _, isSetting_trimSpace _ _, htls, rfl⟩

theorem envString_ne_nil {name : EnvName} {fallback : List UInt8}
    (h : fallback ≠ [] ∧ 0 ∉ fallback) :
    envString env name fallback ≠ [] ∧ 0 ∉ envString env name fallback := by
  unfold envString
  split
  · exact h
  · exact ⟨‹_›, env.noNul name⟩

theorem valid_of_loadConfig (h : loadConfig std lib env = .ok c) : c.Valid lib := by
  obtain ⟨requestTimeout, hrequestTimeout, h⟩ := bind_eq_ok.mp h
  obtain ⟨queueTimeout, hqueueTimeout, h⟩ := bind_eq_ok.mp h
  obtain ⟨port, hport, h⟩ := bind_eq_ok.mp h
  obtain ⟨metricsPort, hmetricsPort, h⟩ := bind_eq_ok.mp h
  obtain ⟨pprofPort, hpprofPort, h⟩ := bind_eq_ok.mp h
  obtain ⟨clusterPort, hclusterPort, h⟩ := bind_eq_ok.mp h
  obtain ⟨clusterPeerPort, hclusterPeerPort, h⟩ := bind_eq_ok.mp h
  obtain ⟨clusterMaxNodes, hclusterMaxNodes, h⟩ := bind_eq_ok.mp h
  obtain ⟨maxBearerClients, hmaxBearerClients, h⟩ := bind_eq_ok.mp h
  obtain ⟨maxClientStates, hmaxClientStates, h⟩ := bind_eq_ok.mp h
  obtain ⟨maxInFlightRequests, hmaxInFlightRequests, h⟩ := bind_eq_ok.mp h
  obtain ⟨maxBucketStates, hmaxBucketStates, h⟩ := bind_eq_ok.mp h
  obtain ⟨maxQueueDepth, hmaxQueueDepth, h⟩ := bind_eq_ok.mp h
  obtain ⟨maxRetryCaptureBytes, hmaxRetryCaptureBytes, h⟩ := bind_eq_ok.mp h
  obtain ⟨maxRetryBodyBytes, hmaxRetryBodyBytes, h⟩ := bind_eq_ok.mp h
  obtain ⟨enableMetrics, -, h⟩ := bind_eq_ok.mp h
  obtain ⟨enablePprof, -, h⟩ := bind_eq_ok.mp h
  obtain ⟨disableHTTP2, -, h⟩ := bind_eq_ok.mp h
  obtain ⟨disable401Lock, -, h⟩ := bind_eq_ok.mp h
  obtain ⟨⟨serverTLS, clientTLS⟩, htls, h⟩ := bind_eq_ok.mp h
  cases h
  refine {
    upstreamTimeout := envDurationMilliseconds_isTimeout (by decide) hrequestTimeout
    queueTimeout := envDurationMilliseconds_isTimeout (by decide) hqueueTimeout
    port := envInt64_inRange (by decide) hport
    metricsPort := envInt64_inRange (by decide) hmetricsPort
    pprofPort := envInt64_inRange (by decide) hpprofPort
    clusterPort := envInt64_inRange (by decide) hclusterPort
    clusterPeerPort := envInt64_inRange (by decide) hclusterPeerPort
    clusterMaxNodes := envInt64_inRange (by decide) hclusterMaxNodes
    maxBearerClients := envInt64_inRange (by decide) hmaxBearerClients
    maxClientStates := envInt64_inRange (by decide) hmaxClientStates
    maxInFlightRequests := envInt64_inRange (by decide) hmaxInFlightRequests
    maxBucketStates := envInt64_inRange (by decide) hmaxBucketStates
    maxQueueDepth := envInt64_inRange (by decide) hmaxQueueDepth
    maxRetryCaptureBytes := envInt64_inRange (by decide) hmaxRetryCaptureBytes
    maxRetryBodyBytes := envInt64_inRange (by decide) hmaxRetryBodyBytes
    enableMetrics := rfl
    bindIP := envString_ne_nil (by decide)
    clusterMembers := fun s hs => isMember_of_splitNonempty (env.noNul _) hs
    clusterDNS := isSetting_trimSpace _ _
    nodeName := isSetting_trimSpace _ _
    clusterSecret := env.noNul _
    outboundIP := isSetting_trimSpace _ _
    globalOverrides := isSetting_trimSpace _ _
    limit := rfl
    standAlone := fun henabled => ?_
    clustered := fun henabled => ?_ }
  · unfold AppConfig.clusteringEnabled at henabled
    rw [henabled] at htls
    cases loadCluster_standAlone htls
    exact ⟨rfl, rfl⟩
  · unfold AppConfig.clusteringEnabled at henabled
    rw [henabled] at htls
    obtain ⟨hsecret, caFile, certFile, keyFile, server, client, hca, hcert, hkey, hload, heq⟩ :=
      loadCluster_clustered htls
    cases heq
    exact ⟨hsecret, caFile, certFile, keyFile, server, client, hca, hcert, hkey, hload, rfl, rfl⟩

/-- The variables for a configuration, with the three files of a cluster. -/
def AppConfig.environment (c : AppConfig) (caFile certFile keyFile : List UInt8) :
    EnvName → List UInt8
  | .requestTimeout => Text.itoa (c.proxy.upstreamTimeout / Duration.millisecond).toNat
  | .queueTimeout => Text.itoa (c.proxy.queueTimeout / Duration.millisecond).toNat
  | .port => Text.itoa c.port.toNat
  | .metricsPort => Text.itoa c.metricsPort.toNat
  | .pprofPort => Text.itoa c.pprofPort.toNat
  | .clusterPort => Text.itoa c.clusterPort.toNat
  | .clusterPeerPort => Text.itoa c.clusterPeerPort.toNat
  | .clusterMaxNodes => Text.itoa c.clusterMaxNodes.toNat
  | .maxBearerCount => Text.itoa c.proxy.maxBearerClients.toNat
  | .maxClientStates => Text.itoa c.proxy.maxClientStates.toNat
  | .maxInFlightRequests => Text.itoa c.proxy.maxInFlightRequests.toNat
  | .maxBucketStates => Text.itoa c.proxy.maxBucketStates.toNat
  | .maxQueueDepth => Text.itoa c.proxy.maxQueueDepth.toNat
  | .maxRetryCaptureBytes => Text.itoa c.proxy.maxRetryCaptureBytes.toNat
  | .maxRetryBodyBytes => Text.itoa c.proxy.maxRetryBodyBytes.toNat
  | .enableMetrics => formatBool c.enableMetrics
  | .enablePprof => formatBool c.enablePprof
  | .disableHTTP2 => formatBool c.proxy.disableHTTP2
  | .disable401Lock => formatBool c.proxy.disable401Lock
  | .clusterMembers => join 44 c.clusterMembers
  | .clusterDNS => c.clusterDNS
  | .clusterSecret => c.clusterSecret
  | .clusterCAFile => caFile
  | .clusterCertFile => certFile
  | .clusterKeyFile => keyFile
  | .bindIP => c.bindIP
  | .nodeName => c.nodeName
  | .outboundIP => c.proxy.outboundIP
  | .botRatelimitOverrides => c.proxy.globalOverrides

theorem zero_notMem_itoa (n : Nat) : 0 ∉ Text.itoa n :=
  fun h => absurd (Text.isDigit_of_mem_itoa h) (by decide)

theorem zero_notMem_formatBool (b : Bool) : 0 ∉ formatBool b := by
  cases b <;> decide

theorem AppConfig.Valid.zero_notMem_environment (h : c.Valid lib)
    {caFile certFile keyFile : List UInt8} (hca : IsSetting caFile) (hcert : IsSetting certFile)
    (hkey : IsSetting keyFile) (name : EnvName) :
    0 ∉ c.environment caFile certFile keyFile name := by
  cases name with
  | enableMetrics | enablePprof | disableHTTP2 | disable401Lock => exact zero_notMem_formatBool _
  | clusterMembers => exact notMem_join (by decide) fun s hs => (h.clusterMembers s hs).noNul
  | clusterDNS => exact h.clusterDNS.noNul
  | clusterSecret => exact h.clusterSecret
  | clusterCAFile => exact hca.noNul
  | clusterCertFile => exact hcert.noNul
  | clusterKeyFile => exact hkey.noNul
  | bindIP => exact h.bindIP.2
  | nodeName => exact h.nodeName.noNul
  | outboundIP => exact h.outboundIP.noNul
  | botRatelimitOverrides => exact h.globalOverrides.noNul
  | _ => exact zero_notMem_itoa _

theorem exists_loadCluster (h : c.Valid lib) : ∃ env : Env, ∃ caFile certFile keyFile,
    env.value = c.environment caFile certFile keyFile ∧
    loadCluster lib env c.clusteringEnabled = .ok (c.clusterServerTLS, c.clusterClientTLS) := by
  cases henabled : c.clusteringEnabled with
  | false =>
    obtain ⟨hserver, hclient⟩ := h.standAlone henabled
    have hempty : IsSetting [] := ⟨by decide, List.not_mem_nil⟩
    exact ⟨⟨_, h.zero_notMem_environment hempty hempty hempty⟩, [], [], [], rfl,
      by rw [hserver, hclient]; rfl⟩
  | true =>
    obtain ⟨hsecret, caFile, certFile, keyFile, server, client, hca, hcert, hkey, hload, hserver,
      hclient⟩ := h.clustered henabled
    refine ⟨⟨_, h.zero_notMem_environment hca hcert hkey⟩, caFile, certFile, keyFile, rfl, ?_⟩
    simp only [loadCluster, if_true, AppConfig.environment, if_neg (not_lt.mpr hsecret),
      hca.trimmed, hcert.trimmed, hkey.trimmed, hload, ok_bind, hserver, hclient]

theorem loadConfig_environment (std : TextFunctions) (h : c.Valid lib) {env : Env}
    {caFile certFile keyFile : List UInt8}
    (henv : env.value = c.environment caFile certFile keyFile)
    (hcluster : loadCluster lib env c.clusteringEnabled =
      .ok (c.clusterServerTLS, c.clusterClientTLS)) :
    loadConfig std lib env = .ok c := by
  have hmembers : splitNonempty (env .clusterMembers) = c.clusterMembers := by
    rw [henv]
    exact splitNonempty_join h.clusterMembers
  have hbind : envString env .bindIP (ascii "0.0.0.0") = c.bindIP := by
    rw [envString, henv]
    exact if_neg h.bindIP.1
  have hdns : trimSpace (env .clusterDNS) = c.clusterDNS := by
    rw [henv]
    exact h.clusterDNS.trimmed
  have hnode : trimSpace (env .nodeName) = c.nodeName := by
    rw [henv]
    exact h.nodeName.trimmed
  have houtbound : trimSpace (env .outboundIP) = c.proxy.outboundIP := by
    rw [henv]
    exact h.outboundIP.trimmed
  have hoverrides : trimSpace (env .botRatelimitOverrides) = c.proxy.globalOverrides := by
    rw [henv]
    exact h.globalOverrides.trimmed
  have hsecret : env .clusterSecret = c.clusterSecret := by
    rw [henv]
    rfl
  have hint (name : EnvName) {n minimum maximum : Int} (fallback : Int)
      (htext : c.environment caFile certFile keyFile name = Text.itoa n.toNat)
      (hn : InRange minimum maximum n) (hmin : 0 ≤ minimum) (hmax : maximum < 2 ^ 63) :
      envInt64 env name fallback minimum maximum = .ok n :=
    envInt64_itoa ((congrFun henv name).trans htext) hn hmin hmax
  have hbool (name : EnvName) {b : Bool} (fallback : Bool)
      (htext : c.environment caFile certFile keyFile name = formatBool b) :
      envBool std env name fallback = .ok b :=
    envBool_formatBool ((congrFun henv name).trans htext)
  have hduration (name : EnvName) {d : Int} (fallback : Int) (hd : IsTimeout d)
      (htext : c.environment caFile certFile keyFile name =
        Text.itoa (d / Duration.millisecond).toNat) :
      envDurationMilliseconds env name fallback = .ok d :=
    envDurationMilliseconds_itoa ((congrFun henv name).trans htext) hd
  unfold AppConfig.clusteringEnabled at hcluster
  simp only [loadConfig, envInt, hduration .requestTimeout _ h.upstreamTimeout rfl,
    hduration .queueTimeout _ h.queueTimeout rfl,
    hint .port 8080 rfl h.port (by decide) (by decide),
    hint .metricsPort 9000 rfl h.metricsPort (by decide) (by decide),
    hint .pprofPort 7654 rfl h.pprofPort (by decide) (by decide),
    hint .clusterPort 7946 rfl h.clusterPort (by decide) (by decide),
    hint .clusterPeerPort 8443 rfl h.clusterPeerPort (by decide) (by decide),
    hint .clusterMaxNodes 32 rfl h.clusterMaxNodes (by decide) (by decide),
    hint .maxBearerCount 1024 rfl h.maxBearerClients (by decide) (by decide),
    hint .maxClientStates 4096 rfl h.maxClientStates (by decide) (by decide),
    hint .maxInFlightRequests 4096 rfl h.maxInFlightRequests (by decide) (by decide),
    hint .maxBucketStates 65536 rfl h.maxBucketStates (by decide) (by decide),
    hint .maxQueueDepth 1000 rfl h.maxQueueDepth (by decide) (by decide),
    hint .maxRetryCaptureBytes 268435456 rfl h.maxRetryCaptureBytes (by decide) (by decide),
    hint .maxRetryBodyBytes 26214400 rfl h.maxRetryBodyBytes (by decide) (by decide),
    hbool .enableMetrics true rfl, hbool .enablePprof false rfl, hbool .disableHTTP2 true rfl,
    hbool .disable401Lock false rfl, hmembers, hdns, hcluster, hbind, hnode, houtbound, hoverrides,
    hsecret, ok_bind]
  have hproxy : { c.proxy with
      enableMetrics := c.enableMetrics
      invalidRequestLimit := invalidRequestLimit c.clusteringEnabled c.clusterMaxNodes } =
      c.proxy := by
    rw [← h.enableMetrics, ← h.limit]
  exact congrArg (fun proxy => Except.ok { c with proxy := proxy }) hproxy

/-- `loadConfig` can make exactly the valid configurations: every setting it accepts is in its
range, and every configuration in range can be written into the environment. -/
theorem loadable_iff (std : TextFunctions) (lib : TlsLibrary) (c : AppConfig) :
    (∃ env, loadConfig std lib env = .ok c) ↔ c.Valid lib := by
  constructor
  · rintro ⟨env, h⟩
    exact valid_of_loadConfig h
  · intro h
    obtain ⟨env, caFile, certFile, keyFile, henv, hcluster⟩ := exists_loadCluster h
    exact ⟨env, loadConfig_environment std h henv hcluster⟩

end Loading

end NirnProxy
