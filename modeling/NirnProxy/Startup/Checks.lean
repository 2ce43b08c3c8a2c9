import Mathlib.Algebra.Order.BigOperators.Group.Finset
import NirnProxy.Client.Budget
import NirnProxy.Limits.InvalidRequests
import NirnProxy.Startup.Config

/-! What `New` and `JoinCluster` check again of a configuration that `loadConfig` has made, and what
the limits of the nodes of a cluster come to together. -/

universe u

namespace NirnProxy

open Strings Trimming

structure ProxyParameters where
  globalOverrides : Overrides
  invalidLimit : Int
  bucketSlots : ResourceBudget
  inFlight : ResourceBudget
  retryCapture : ResourceBudget
  maxWaiters : Int

/-- `newHTTPTransport`, as far as it can fail; `resolve` gives the error of `net.ResolveTCPAddr`. -/
def newHTTPTransport (resolve : List UInt8 → Option (List UInt8)) (outboundIP : List UInt8) :
    Except (List UInt8) Unit :=
  if outboundIP = [] then .ok ()
  else match resolve (Text.joinHostPort outboundIP (ascii "0")) with
    | some err => .error (ascii "resolve OUTBOUND_IP: " ++ err)
    | none => .ok ()

/-- The first half of `New`. -/
def ProxyConfig.check (c : ProxyConfig) : Except (List UInt8) Unit :=
  if c.upstreamTimeout ≤ 0 then .error (ascii "upstream timeout must be positive")
  else if c.queueTimeout ≤ 0 then .error (ascii "queue timeout must be positive")
  else if c.maxBearerClients ≤ 0 then .error (ascii "max bearer clients must be positive")
  else if c.maxBucketStates ≤ 0 then .error (ascii "max bucket states must be positive")
  else if c.maxClientStates ≤ 0 then .error (ascii "max client states must be positive")
  else if c.maxInFlightRequests ≤ 0 then .error (ascii "max in-flight requests must be positive")
  else if c.maxQueueDepth ≤ 0 then .error (ascii "max queue depth must be positive")
  else if c.maxRetryBodyBytes < 0 then
    .error (ascii "max retry body bytes cannot be negative")
  else if c.maxRetryCaptureBytes < 0 then
    .error (ascii "max retry capture bytes cannot be negative")
  else if c.invalidRequestLimit < 0 then
    .error (ascii "invalid request limit cannot be negative")
  else .ok ()

def ProxyConfig.parameters (c : ProxyConfig) (overrides : Overrides) : ProxyParameters where
  globalOverrides := overrides
  invalidLimit :=
    if c.invalidRequestLimit = 0 then invalidRequestSafetyLimit else c.invalidRequestLimit
  bucketSlots := .newResourceBudget c.maxBucketStates
  inFlight := .newResourceBudget c.maxInFlightRequests
  retryCapture := .newResourceBudget c.maxRetryCaptureBytes
  maxWaiters := c.maxQueueDepth

/-- `New`, without the goroutine and the proxies that it sets up. -/
def newProxy (std : TextFunctions) (resolve : List UInt8 → Option (List UInt8)) (c : ProxyConfig) :
    Except (List UInt8) ProxyParameters := do
  c.check
  let overrides ← parseGlobalOverrides std c.globalOverrides
  newHTTPTransport resolve c.outboundIP
  .ok (c.parameters overrides)

/-- What `joinCluster` hands to `JoinCluster`; `isIP` is `net.ParseIP`. -/
def AppConfig.clusterConfig (c : AppConfig) (isIP : List UInt8 → Bool) : ClusterConfig where
  port := c.clusterPort
  peerPort := c.clusterPeerPort
  bindParses := c.bindIP = [] || isIP c.bindIP
  maxNodes := c.clusterMaxNodes
  secretRunes := Utf8.runeCount c.clusterSecret
  peerTLS := c.clusterClientTLS

/-- `validatePeerCertificateAddress`, for the text of the address. -/
def TlsLibrary.validatePeerCertificateAddress (lib : TlsLibrary) (config : Option TlsConfig)
    (address : List UInt8) : Except (List UInt8) Unit := do
  let certificate ← match config.bind (·.certificates.head?) with
    | none => .error (ascii "cluster peer TLS requires a static certificate")
    | some certificate => .ok certificate
  let leaf ← match certificate.leaf, certificate.certificate with
    | some leaf, _ => .ok leaf
    | none, [] => .error (ascii "cluster peer TLS certificate is empty")
    | none, raw :: _ => match lib.parseCertificate raw with
      | some err => .error (ascii "parse cluster peer TLS certificate: " ++ err)
      | none => .ok raw
  match lib.verifyHostname leaf address with
  | some err => .error (ascii "cluster certificate is not valid for advertised IP " ++ address ++
      ascii ": " ++ err)
  | none => .ok ()

/-- How long the servers of `run` let a request take. -/
def AppConfig.requestLifetime (c : AppConfig) : Int :=
  c.proxy.queueTimeout + c.proxy.upstreamTimeout + 5 * Duration.second

section Checks

variable {std : TextFunctions} {lib : TlsLibrary} {env : Env} {c : AppConfig} {d : Int}
  {resolve : List UInt8 → Option (List UInt8)}

theorem IsTimeout.bounds (h : IsTimeout d) : 0 < d ∧ d ≤ maxConfiguredTimeout := by
  obtain ⟨ms, ⟨hle, hge⟩, rfl⟩ := h
  simp only [maxConfiguredTimeout, Duration.hour, Duration.minute, Duration.second,
    Duration.millisecond]
  omega

/-- The limit of a node of a cluster: its share of the safety limit, which is never nothing. -/
theorem invalidRequestLimit_eq {enabled : Bool} {n : Int}
    (hn : InRange 1 invalidRequestSafetyLimit n) :
    invalidRequestLimit enabled n =
      if enabled then invalidRequestSafetyLimit / n else invalidRequestSafetyLimit := by
  obtain ⟨hpos, hle⟩ := hn
  unfold invalidRequestLimit
  split
  · rw [Int.tdiv_eq_ediv_of_nonneg (by decide), max_eq_right]
    exact (Int.le_ediv_iff_mul_le (by omega)).mpr (by omega)
  · rfl

theorem AppConfig.Valid.limit_pos (h : c.Valid lib) : 1 ≤ c.proxy.invalidRequestLimit := by
  have hn := h.clusterMaxNodes
  rw [h.limit]
  unfold invalidRequestLimit
  split
  · exact le_max_left _ _
  · decide

theorem AppConfig.Valid.check (h : c.Valid lib) : c.proxy.check = .ok () := by
  have hupstream := h.upstreamTimeout.bounds
  have hqueue := h.queueTimeout.bounds
  have hbearer := h.maxBearerClients.1
  have hbucket := h.maxBucketStates.1
  have hclient := h.maxClientStates.1
  have hinFlight := h.maxInFlightRequests.1
  have hdepth := h.maxQueueDepth.1
  have hbody := h.maxRetryBodyBytes.1
  have hcapture := h.maxRetryCaptureBytes.1
  have hlimit := h.limit_pos
  unfold ProxyConfig.check
  rw [if_neg (by omega), if_neg (by omega), if_neg (by omega), if_neg (by omega),
    if_neg (by omega), if_neg (by omega), if_neg (by omega), if_neg (by omega),
    if_neg (by omega), if_neg (by omega)]

theorem verifyUsages_ok {leaf : List UInt8} {roots intermediates : List (List UInt8)}
    {usages : List KeyUsage} (h : lib.verifyUsages leaf roots intermediates usages = .ok ()) :
    ∀ usage ∈ usages, lib.verify leaf roots intermediates usage = none := by
  induction usages with
  | nil => simp
  | cons usage usages ih =>
    unfold TlsLibrary.verifyUsages at h
    split at h
    · cases h
    · exact List.forall_mem_cons.mpr ⟨‹_›, ih h⟩

def TlsLibrary.Verified (lib : TlsLibrary) (roots : List (List UInt8))
    (certificate : TlsCertificate) (leaf : List UInt8) : Prop :=
  certificate.leaf = some leaf ∧ ∃ intermediates, certificate.certificate = leaf :: intermediates ∧
    ∀ usage, lib.verify leaf roots intermediates usage = none

theorem verifyClusterCertificate_ok {certificate verified : TlsCertificate}
    {roots : List (List UInt8)}
    (h : lib.verifyClusterCertificate certificate roots = .ok verified) :
    ∃ leaf, lib.Verified roots verified leaf := by
  unfold TlsLibrary.verifyClusterCertificate at h
  split at h
  · cases h
  · rename_i leaf intermediates hchain
    split at h
    · cases h
    · obtain ⟨-, -, h⟩ := bind_eq_ok.mp h
      obtain ⟨⟨⟩, husages, h⟩ := bind_eq_ok.mp h
      cases h
      refine ⟨leaf, rfl, intermediates, hchain, fun usage => verifyUsages_ok husages usage ?_⟩
      cases usage <;> simp

/-- What a cluster's TLS is like: each side has the same certificate to show, demands one of the
other side that its CA pool has signed, and speaks nothing older than TLS 1.3. -/
structure MutualTLS (lib : TlsLibrary) (server : ServerTLS) (client : TlsConfig)
    (leaf : List UInt8) : Prop where
  dials : newPeerHTTPTransport (some client) = .ok client
  serverVersion : server.minVersion = versionTLS13
  clientVersion : client.minVersion = versionTLS13 ∧ client.maxVersion = 0
  verifiesClient : server.requireAndVerifyClientCert = true ∧ server.clientCAs ≠ []
  verifiesServer : client.insecureSkipVerify = false ∧ client.rootCAs = some server.clientCAs
  certificate : ∃ certificate, server.certificates = [certificate] ∧
    client.certificates = [certificate] ∧ lib.Verified server.clientCAs certificate leaf

theorem mutualTLS_of_load {caFile certFile keyFile : List UInt8} {server : ServerTLS}
    {client : TlsConfig} (h : lib.loadClusterTLS caFile certFile keyFile = .ok (server, client)) :
    ∃ leaf, MutualTLS lib server client leaf := by
  obtain ⟨-, -, h⟩ := bind_eq_ok.mp h
  obtain ⟨caPEM, -, h⟩ := bind_eq_ok.mp h
  dsimp only at h
  split at h
  · cases h
  · rename_i hpool
    obtain ⟨certificate, -, h⟩ := bind_eq_ok.mp h
    obtain ⟨verified, hverify, h⟩ := bind_eq_ok.mp h
    obtain ⟨leaf, hleaf⟩ := verifyClusterCertificate_ok hverify
    cases h
    exact ⟨leaf, rfl, rfl, ⟨rfl, rfl⟩, ⟨rfl, hpool⟩, ⟨rfl, rfl⟩, verified, rfl, rfl, hleaf⟩

theorem MutualTLS.validatePeerCertificateAddress_iff {server : ServerTLS} {client : TlsConfig}
    {leaf : List UInt8} (h : MutualTLS lib server client leaf) (address : List UInt8) :
    lib.validatePeerCertificateAddress (some client) address = .ok () ↔
      lib.verifyHostname leaf address = none := by
  obtain ⟨certificate, -, hclient, hleaf, -⟩ := h.certificate
  simp only [TlsLibrary.validatePeerCertificateAddress, Option.bind_some, hclient,
    List.head?_cons, hleaf, ok_bind]
  cases lib.verifyHostname leaf address <;> simp

theorem clusterConfig_check (h : c.Valid lib) (henabled : c.clusteringEnabled = true)
    (isIP : List UInt8 → Bool) :
    (c.clusterConfig isIP).check = if isIP c.bindIP then none else some .bindAddress := by
  obtain ⟨hsecret, caFile, certFile, keyFile, server, client, -, -, -, hload, -, hclient⟩ :=
    h.clustered henabled
  obtain ⟨leaf, htls⟩ := mutualTLS_of_load hload
  have hport := h.clusterPort
  have hpeer := h.clusterPeerPort
  have hnodes := h.clusterMaxNodes
  simp only [AppConfig.clusterConfig, ClusterConfig.check, h.bindIP.1, decide_false,
    Bool.false_or, hclient, htls.dials, if_neg (not_lt.mpr hsecret)]
  rw [if_neg (by unfold InRange at hport hpeer; omega)]
  cases isIP c.bindIP
  · rfl
  · simp only [Bool.not_true, Bool.false_eq_true, if_false, if_true]
    exact if_neg (by unfold InRange at hnodes; omega)

theorem newProxy_cases (std : TextFunctions) (h : c.Valid lib)
    (resolve : List UInt8 → Option (List UInt8)) :
    (∃ err, newProxy std resolve c.proxy = .error err ∧
      (parseGlobalOverrides std c.proxy.globalOverrides = .error err ∨
        newHTTPTransport resolve c.proxy.outboundIP = .error err)) ∨
    ∃ overrides, newProxy std resolve c.proxy = .ok (c.proxy.parameters overrides) := by
  unfold newProxy
  rw [h.check, ok_bind]
  cases hoverrides : parseGlobalOverrides std c.proxy.globalOverrides with
  | error err => exact .inl ⟨err, rfl, .inl rfl⟩
  | ok overrides =>
    cases htransport : newHTTPTransport resolve c.proxy.outboundIP with
    | error err => exact .inl ⟨err, rfl, .inr rfl⟩
    | ok => exact .inr ⟨overrides, rfl⟩

theorem AppConfig.Valid.invalidLimit_eq (h : c.Valid lib) (overrides : Overrides) :
    (c.proxy.parameters overrides).invalidLimit = c.proxy.invalidRequestLimit := by
  have hpos := h.limit_pos
  exact if_neg (by omega)

/-- What is left to fail of a configuration that `loadConfig` has made: `New` can only refuse the
overrides or the outbound address, the checks that `JoinCluster` makes of its configuration only the
address to bind, and its check of the certificate only the address that the memberlist advertises.
The peers of a cluster are authenticated in both directions, and the time that the servers grant a
request is a duration. -/
theorem accepted_config_starts (std : TextFunctions) (lib : TlsLibrary) (env : Env) (c : AppConfig)
    (h : loadConfig std lib env = .ok c) :
    (∀ resolve err, newProxy std resolve c.proxy = .error err →
      parseGlobalOverrides std c.proxy.globalOverrides = .error err ∨
        newHTTPTransport resolve c.proxy.outboundIP = .error err) ∧
    (∀ resolve params, newProxy std resolve c.proxy = .ok params →
      params.invalidLimit = c.proxy.invalidRequestLimit ∧ 1 ≤ params.invalidLimit ∧
        params.invalidLimit ≤ invalidRequestSafetyLimit) ∧
    (c.clusteringEnabled = true →
      (∀ isIP, (c.clusterConfig isIP).check =
        if isIP c.bindIP then none else some .bindAddress) ∧
      ∃ server client leaf, c.clusterServerTLS = some server ∧
        c.clusterClientTLS = some client ∧ MutualTLS lib server client leaf ∧
        ∀ address, lib.validatePeerCertificateAddress c.clusterClientTLS address = .ok () ↔
          lib.verifyHostname leaf address = none) ∧
    0 < c.requestLifetime ∧ c.requestLifetime < 2 ^ 63 := by
  have hv := valid_of_loadConfig h
  have hupstream := hv.upstreamTimeout.bounds
  have hqueue := hv.queueTimeout.bounds
  refine ⟨fun resolve err herr => ?_, fun resolve params hparams => ?_, fun henabled => ?_, ?_⟩
  · obtain ⟨err', herr', hcause⟩ | ⟨overrides, hok⟩ := newProxy_cases std hv resolve
    · cases herr'.symm.trans herr
      exact hcause
    · cases hok.symm.trans herr
  · obtain ⟨err', herr', -⟩ | ⟨overrides, hok⟩ := newProxy_cases std hv resolve
    · cases herr'.symm.trans hparams
    · cases hok.symm.trans hparams
      rw [hv.invalidLimit_eq]
      refine ⟨rfl, hv.limit_pos, ?_⟩
      rw [hv.limit, invalidRequestLimit_eq hv.clusterMaxNodes]
      split
      · exact Int.ediv_le_self _ (by decide)
      · exact le_rfl
  · obtain ⟨-, caFile, certFile, keyFile, server, client, -, -, -, hload, hserver, hclient⟩ :=
      hv.clustered henabled
    obtain ⟨leaf, htls⟩ := mutualTLS_of_load hload
    rw [hclient]
    exact ⟨clusterConfig_check hv henabled, server, client, leaf, hserver, rfl, htls,
      htls.validatePeerCertificateAddress_iff⟩
  · simp only [AppConfig.requestLifetime, maxConfiguredTimeout, Duration.hour, Duration.minute,
      Duration.second, Duration.millisecond] at hupstream hqueue ⊢
    omega

def pairValue : EnvName → List UInt8
  | .clusterMembers => ascii "10.0.0.1, 10.0.0.2"
  | .clusterMaxNodes => ascii "2"
  | .clusterSecret => ascii "0123456789abcdef0123456789abcdef"
  | .clusterCAFile => ascii "/etc/nirn/ca.pem"
  | .clusterCertFile => ascii "/etc/nirn/node.pem"
  | .clusterKeyFile => ascii "/etc/nirn/node.key"
  | _ => []

def pairEnv : Env where
  value := pairValue
  noNul name := by cases name <;> decide

/-- Each file is one certificate, and each certificate is in order. -/
def trustingLibrary : TlsLibrary where
  readFile file := .ok file
  certsFromPEM pem := [pem]
  loadX509KeyPair certFile _ := .ok ⟨[certFile], none⟩
  parseCertificate _ := none
  verify _ _ _ _ := none
  verifyHostname _ _ := none

theorem ok_of_toOption {ε α : Type} {x : Except ε α} {a : α} (h : x.toOption = some a) :
    x = .ok a := by
  cases x with
  | error e => cases h
  | ok b => exact congrArg Except.ok (Option.some.inj h)

theorem accepted_config_starts_pair :
    ∃ c, loadConfig wholeSeconds trustingLibrary pairEnv = .ok c ∧ c.clusteringEnabled = true ∧
      (c.clusterConfig fun _ => true).check = none := by
  have hload : (loadConfig wholeSeconds trustingLibrary pairEnv).toOption.map
      (·.clusteringEnabled) = some true := by
    decide +kernel
  obtain ⟨c, hc, henabled⟩ := Option.map_eq_some_iff.mp hload
  have hok := ok_of_toOption hc
  exact ⟨c, hok, henabled,
    ((accepted_config_starts wholeSeconds trustingLibrary pairEnv c hok).2.2.1 henabled).1 _⟩

end Checks

section Cluster

variable {ν : Type u} [Fintype ν] {π : Type u} [DecidableEq π]

theorem GuardRun.windowed_le {L : Nat} {w : Int} {s : GuardRun π}
    (h : (GuardRun.system π L w).Reachable s) (T : Int) :
    (windowed w T s.recorded).length ≤ L := by
  have hi := inv_of_reachable h
  have hb := hi.budget_of_imp (P := fun _ => False) (T := T) (fun _ hp => hp.elim)
    (.zero fun _ hp => hp)
  rw [inWindow, hi.window] at hb
  omega

/-- The shares of at most `clusterMaxNodes` nodes fit into the safety limit together, also when the
nodes do not agree on that number. -/
theorem sum_share_le {m : ν → Int} (hm : ∀ i, (Fintype.card ν : Int) ≤ m i) (L : Int)
    (hL : 0 ≤ L) : ∑ i, L / m i ≤ L := by
  obtain hempty | hnonempty := isEmpty_or_nonempty ν
  · simpa using hL
  have hpos : (0 : Int) < Fintype.card ν := by exact_mod_cast Fintype.card_pos
  have hshare : ∀ i ∈ Finset.univ, L / m i ≤ L / Fintype.card ν := fun i _ => by
    have hm0 : 0 < m i := hpos.trans_le (hm i)
    refine (Int.le_ediv_iff_mul_le hpos).mpr ?_
    calc L / m i * Fintype.card ν ≤ L / m i * m i :=
          Int.mul_le_mul_of_nonneg_left (hm i) (Int.ediv_nonneg hL hm0.le)
      _ ≤ L := Int.ediv_mul_le _ hm0.ne'
  calc ∑ i, L / m i ≤ Fintype.card ν • (L / Fintype.card ν) :=
        Finset.sum_le_card_nsmul _ _ _ hshare
    _ = Fintype.card ν * (L / Fintype.card ν) := nsmul_eq_mul _ _
    _ ≤ L := Int.mul_ediv_self_le hpos.ne'

/-- The nodes of a cluster never have more than the safety limit of invalid requests in a window,
all taken together, as long as there are no more of them than each has been told: whatever the
requests at each node do, and wherever the window of each node ends. -/
theorem cluster_invalid_budget [DecidableEq ν] (std : TextFunctions) (lib : ν → TlsLibrary)
    (resolve : ν → List UInt8 → Option (List UInt8)) (env : ν → Env) (c : ν → AppConfig)
    (params : ν → ProxyParameters) (hload : ∀ i, loadConfig std (lib i) (env i) = .ok (c i))
    (henabled : ∀ i, (c i).clusteringEnabled = true)
    (hnew : ∀ i, newProxy std (resolve i) (c i).proxy = .ok (params i))
    (hnodes : ∀ i, (Fintype.card ν : Int) ≤ (c i).clusterMaxNodes) (s : ν → GuardRun π)
    (hs : (System.pi fun i =>
      GuardRun.system π (params i).invalidLimit.toNat invalidRequestWindow).Reachable s)
    (T : ν → Int) :
    ∑ i, ((GuardRun.windowed invalidRequestWindow (T i) (s i).recorded).length : Int) ≤
      invalidRequestSafetyLimit := by
  have hnode : ∀ i ∈ Finset.univ,
      ((GuardRun.windowed invalidRequestWindow (T i) (s i).recorded).length : Int) ≤
        invalidRequestSafetyLimit / (c i).clusterMaxNodes := fun i _ => by
    have hv := valid_of_loadConfig (hload i)
    have hle := GuardRun.windowed_le (hs.component i) (T i)
    obtain ⟨err, herr, -⟩ | ⟨overrides, hok⟩ := newProxy_cases std hv (resolve i)
    · cases herr.symm.trans (hnew i)
    · have hparams := Except.ok.inj ((hnew i).symm.trans hok)
      rw [hparams, hv.invalidLimit_eq] at hle
      have hpos := hv.limit_pos
      have hlimit := hv.limit
      rw [henabled i, invalidRequestLimit_eq hv.clusterMaxNodes, if_pos rfl] at hlimit
      omega
  exact (Finset.sum_le_sum hnode).trans (sum_share_le hnodes _ (by decide))

/-- Two nodes with half of the limit each, both of which have had an invalid request. -/
theorem cluster_invalid_budget_pair :
    ∃ s : Bool → GuardRun Unit,
      (System.pi fun _ => GuardRun.system Unit 4750 invalidRequestWindow).Reachable s ∧
      (s true).recorded = [0] ∧ (s false).recorded = [3] ∧
      ∀ T : Bool → Int,
        ∑ i, ((GuardRun.windowed invalidRequestWindow (T i) (s i).recorded).length : Int) ≤
          invalidRequestSafetyLimit := by
  have hstart : ((loadConfig wholeSeconds trustingLibrary pairEnv).toOption.bind fun c =>
      (newProxy wholeSeconds (fun _ => none) c.proxy).toOption.map fun params =>
        (c.clusteringEnabled, c.clusterMaxNodes, params.invalidLimit)) = some (true, 2, 4750) := by
    decide +kernel
  obtain ⟨c, hc, hstart⟩ := Option.bind_eq_some_iff.mp hstart
  obtain ⟨params, hparams, hstart⟩ := Option.map_eq_some_iff.mp hstart
  obtain ⟨henabled, hnodes, hlimit⟩ : c.clusteringEnabled = true ∧ c.clusterMaxNodes = 2 ∧
      params.invalidLimit = 4750 := by
    simpa using hstart
  have hrun : ((System.pi fun _ : Bool => GuardRun.system Unit 4750 invalidRequestWindow).run
      (fun _ => GuardRun.start 4750 invalidRequestWindow 0)
      [(true, .readReserve ()), (false, .tick 3), (false, .readReserve ()), (true, .reserve ()),
        (false, .reserve ()), (true, .readComplete ()), (false, .readComplete ()),
        (false, .complete () true), (true, .complete () true)]).map
        (fun s => ((s true).recorded, (s false).recorded)) = some ([0], [3]) := by
    decide +kernel
  obtain ⟨s, hs, hrecorded⟩ := Option.map_eq_some_iff.mp hrun
  have hr := System.Reachable.run (.init fun _ => ⟨0, rfl⟩) hs
  refine ⟨s, hr, congrArg Prod.fst hrecorded, congrArg Prod.snd hrecorded, ?_⟩
  refine cluster_invalid_budget wholeSeconds (fun _ => trustingLibrary) (fun _ _ => none)
    (fun _ => pairEnv) (fun _ => c) (fun _ => params) (fun _ => ok_of_toOption hc)
    (fun _ => henabled) (fun _ => ok_of_toOption hparams) (fun _ => ?_) s ?_
  · simp [hnodes]
  · rw [hlimit]
    exact hr

end Cluster

end NirnProxy
