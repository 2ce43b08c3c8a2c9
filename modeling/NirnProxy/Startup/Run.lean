import NirnProxy.Startup.Checks
import NirnProxy.Transition

/-! `run` of the main package: the listeners it opens, the goroutines that serve them, and how it
takes all of it down again.  What the network, the cluster and the signals do is chosen freely. -/

namespace NirnProxy

open Strings

inductive ServerName
  | proxy
  | metrics
  | pprof
  | clusterPeer
  deriving DecidableEq

def ServerName.text : ServerName → List UInt8
  | .proxy => ascii "proxy"
  | .metrics => ascii "metrics"
  | .pprof => ascii "pprof"
  | .clusterPeer => ascii "cluster peer"

/-- What the error of `net.Listen` is wrapped in, before the address. -/
def ServerName.purpose : ServerName → List UInt8
  | .proxy => ascii "listen on "
  | .metrics => ascii "listen for metrics on "
  | .pprof => ascii "listen for pprof on "
  | .clusterPeer => ascii "listen for cluster peers on "

namespace AppConfig

variable (c : AppConfig)

def serverPort : ServerName → Int
  | .proxy => c.port
  | .metrics => c.metricsPort
  | .pprof => c.pprofPort
  | .clusterPeer => c.clusterPeerPort

def address (n : ServerName) : List UInt8 :=
  Text.joinHostPort c.bindIP (Text.formatInt (c.serverPort n))

/-- The servers other than the one for peers, in the order in which `run` listens. -/
def publicServers : List ServerName :=
  .proxy :: ((if c.enableMetrics then [.metrics] else []) ++
    if c.enablePprof then [.pprof] else [])

def servers : List ServerName :=
  c.publicServers ++ if c.clusteringEnabled then [.clusterPeer] else []

end AppConfig

/-- The goroutine of a server: it sends at most one error. -/
inductive ServerPhase
  | idle
  | serving
  | failed (err : List UInt8)
  | over
  deriving DecidableEq

/-- The servers of `run`.  `stopped` says that `Shutdown` has been called. -/
structure RunningServers where
  servers : List ServerName
  phase : ServerName → ServerPhase
  listening : ServerName → Bool
  stopped : ServerName → Bool
  serveErrors : List (ServerName × List UInt8)
  joined : Bool

inductive RunPc
  | new
  | listen (rest : List ServerName)
  | startPeer
  | join
  | poll
  | start (rest : List ServerName)
  | select
  | close
  | shutdown (rest : List ServerName)
  | cleanup
  | cleanupServer (rest : List ServerName)
  | returned
  deriving DecidableEq

/-- `result` are the errors that `run` returns joined, none of them for nil. -/
structure Lifecycle where
  pc : RunPc
  running : RunningServers
  made : Bool
  signalled : Bool
  closes : Nat
  result : List (List UInt8)

inductive RunReply
  | ok
  | failed (err : List UInt8)
  | signal

inductive RunAction
  | main (reply : RunReply)
  | stop (n : ServerName) (err : Option (List UInt8)) (closed : Bool)
  | send (n : ServerName)

namespace RunningServers

variable (r : RunningServers) (n : ServerName)

def none : RunningServers where
  servers := []
  phase _ := .idle
  listening _ := false
  stopped _ := false
  serveErrors := []
  joined := false

def listen : RunningServers :=
  { r with servers := r.servers ++ [n]
           listening := Function.update r.listening n true }

def turn (x : ServerPhase) : RunningServers := { r with phase := Function.update r.phase n x }

def shutdown : RunningServers := { r with stopped := Function.update r.stopped n true }

/-- `Shutdown` and then `Close` of the listener. -/
def cleanup : RunningServers :=
  { r.shutdown n with listening := Function.update r.listening n false }

end RunningServers

namespace Lifecycle

def start : Lifecycle where
  pc := .new
  running := .none
  made := false
  signalled := false
  closes := 0
  result := []

variable (c : AppConfig) (s : Lifecycle)

def fail (err : List UInt8) : Lifecycle := { s with pc := .cleanup, result := [err] }

def receive (m : ServerName × List UInt8) (rest : List (ServerName × List UInt8)) : Lifecycle :=
  { s with running := { s.running with serveErrors := rest } }.fail
    (m.1.text ++ ascii " server: " ++ m.2)

def mainStep : RunPc → RunReply → Option Lifecycle
  | .new, .failed err =>
    some { s with pc := .returned, result := [ascii "configure proxy: " ++ err] }
  | .new, .ok => some { s with pc := .listen c.servers, made := true }
  | .listen (n :: _), .failed err =>
    some (s.fail (n.purpose ++ c.address n ++ ascii ": " ++ err))
  | .listen (n :: rest), .ok => some { s with pc := .listen rest, running := s.running.listen n }
  | .listen [], .ok =>
    some { s with pc := if c.clusteringEnabled then .startPeer else .start s.running.servers }
  -- the listener for peers is served before gossip advertises its port
  | .startPeer, .ok =>
    s.running.servers.getLast?.map fun n =>
      { s with pc := .join, running := s.running.turn n .serving }
  | .join, .failed err => some (s.fail err)
  | .join, .ok => some { s with pc := .poll, running := { s.running with joined := true } }
  -- a `select` with a `default`
  | .poll, .ok =>
    match s.running.serveErrors with
    | m :: rest => some (s.receive m rest)
    | [] => some { s with pc := .start s.running.servers.dropLast }
  | .start (n :: rest), .ok =>
    some { s with pc := .start rest, running := s.running.turn n .serving }
  | .start [], .ok => some { s with pc := .select }
  | .select, .signal => some { s with pc := .close, signalled := true }
  | .select, .ok =>
    match s.running.serveErrors with
    | m :: rest => some (s.receive m rest)
    | [] => none
  | .close, .failed err =>
    some { s with pc := .shutdown s.running.servers, closes := s.closes + 1
                  result := [ascii "close proxy: " ++ err] }
  | .close, .ok => some { s with pc := .shutdown s.running.servers, closes := s.closes + 1 }
  | .shutdown (n :: rest), .failed err =>
    some { s with
      pc := .shutdown rest
      running := s.running.shutdown n
      result := s.result ++ [ascii "shutdown " ++ n.text ++ ascii " server: " ++ err] }
  | .shutdown (n :: rest), .ok =>
    some { s with pc := .shutdown rest, running := s.running.shutdown n }
  | .shutdown [], .ok => some { s with pc := .cleanup }
  -- the deferred function, which drops the errors of what it calls
  | .cleanup, .ok =>
    some { s with pc := .cleanupServer s.running.servers, closes := s.closes + 1 }
  | .cleanupServer (n :: rest), .ok =>
    some { s with pc := .cleanupServer rest, running := s.running.cleanup n }
  | .cleanupServer [], .ok => some { s with pc := .returned }
  | _, _ => none

/-- `closed` says that the error is `ErrServerClosed` or `net.ErrClosed`. -/
def stopPhase (err : Option (List UInt8)) (closed : Bool) : ServerPhase :=
  match err with
  | none => .failed (ascii "server stopped unexpectedly")
  | some err => if closed then .over else .failed err

/-- `serveErrors` has room for as many errors as there are servers. -/
def step (s : Lifecycle) : RunAction → Option Lifecycle
  | .main reply => s.mainStep c s.pc reply
  | .stop n err closed =>
    if s.running.phase n = .serving then
      some { s with running := s.running.turn n (stopPhase err closed) }
    else none
  | .send n =>
    match s.running.phase n with
    | .failed err =>
      if s.running.serveErrors.length < c.servers.length then
        some { s with running := { s.running.turn n .over with
          serveErrors := s.running.serveErrors ++ [(n, err)] } }
      else none
    | _ => none

def system : System Lifecycle RunAction where
  init s := s = start
  step := step c

end Lifecycle

section Servers

variable {c : AppConfig}

theorem AppConfig.clusterPeer_notMem_public (c : AppConfig) : .clusterPeer ∉ c.publicServers := by
  simp [publicServers]

theorem AppConfig.publicServers_nodup (c : AppConfig) : c.publicServers.Nodup := by
  unfold publicServers
  cases c.enableMetrics <;> cases c.enablePprof <;> decide

theorem AppConfig.servers_of_clustered (h : c.clusteringEnabled = true) :
    c.servers = c.publicServers ++ [.clusterPeer] := by
  rw [servers, if_pos h]

theorem AppConfig.servers_nodup (c : AppConfig) : c.servers.Nodup := by
  cases h : c.clusteringEnabled with
  | false =>
    rw [servers, h]
    simpa using c.publicServers_nodup
  | true =>
    rw [servers_of_clustered h]
    rw [← List.concat_eq_append]
    exact c.publicServers_nodup.concat c.clusterPeer_notMem_public

end Servers

namespace RunningServers

variable {c : AppConfig} {r : RunningServers} {n : ServerName} {x : ServerPhase}

theorem listen_listening_ne {m : ServerName} (hmn : m ≠ n) :
    (r.listen n).listening m = r.listening m := Function.update_of_ne hmn ..

theorem turn_phase_ne {m : ServerName} (hmn : m ≠ n) : (r.turn n x).phase m = r.phase m :=
  Function.update_of_ne hmn ..

@[simp] theorem turn_phase_self : (r.turn n x).phase n = x := Function.update_self ..

@[simp] theorem cleanup_listening_self : (r.cleanup n).listening n = false :=
  Function.update_self ..

theorem cleanup_listening_ne {m : ServerName} (hmn : m ≠ n) :
    (r.cleanup n).listening m = r.listening m := Function.update_of_ne hmn ..

@[simp] theorem cleanup_stopped_self : (r.cleanup n).stopped n = true := Function.update_self ..

theorem cleanup_stopped_ne {m : ServerName} (hmn : m ≠ n) :
    (r.cleanup n).stopped m = r.stopped m := Function.update_of_ne hmn ..

theorem turn_idle_iff (hphase : r.phase n ≠ .idle) (hx : x ≠ .idle) (m : ServerName) :
    (r.turn n x).phase m = .idle ↔ r.phase m = .idle := by
  by_cases hmn : m = n
  · rw [hmn, turn_phase_self]
    exact ⟨fun h => absurd h hx, fun h => absurd h hphase⟩
  · rw [turn_phase_ne hmn]

/-- Whatever `run` is doing: errors come from goroutines that are over, and in a cluster no server
but the one for peers is started before the cluster has been joined. -/
structure Sound (c : AppConfig) (r : RunningServers) : Prop where
  opened : r.servers <+: c.servers
  listening : ∀ n, r.listening n = true → n ∈ r.servers
  started : ∀ n, r.phase n ≠ .idle → n ∈ r.servers
  distinct : (r.serveErrors.map Prod.fst).Nodup
  sent : ∀ n ∈ r.serveErrors.map Prod.fst, r.phase n = .over
  order : c.clusteringEnabled = true → ∀ n, n ≠ .clusterPeer → r.phase n ≠ .idle →
    r.joined = true
  peer : r.joined = true → r.phase .clusterPeer ≠ .idle

theorem Sound.none (c : AppConfig) : Sound c .none where
  opened := ⟨_, List.nil_append _⟩
  listening _ hn := absurd hn Bool.false_ne_true
  started _ hn := absurd rfl hn
  distinct := List.nodup_nil
  sent _ hn := absurd hn List.not_mem_nil
  order _ _ _ hn := absurd rfl hn
  peer hn := absurd hn Bool.false_ne_true

theorem Sound.listen (h : r.Sound c) {rest : List ServerName}
    (hservers : r.servers ++ n :: rest = c.servers) : (r.listen n).Sound c where
  opened := ⟨rest, by rw [← hservers]; exact List.append_assoc ..⟩
  listening m hm := by
    by_cases hmn : m = n
    · exact List.mem_append_right _ (List.mem_singleton.mpr hmn)
    · exact List.mem_append_left _
        (h.listening m (by rwa [listen_listening_ne hmn] at hm))
  started m hm := List.mem_append_left _ (h.started m hm)
  distinct := h.distinct
  sent := h.sent
  order := h.order
  peer := h.peer

theorem Sound.turn (h : r.Sound c) (hx : x ≠ .idle) (hn : n ∈ r.servers)
    (hover : r.phase n ≠ .over)
    (horder : c.clusteringEnabled = true → n ≠ .clusterPeer → r.joined = true) :
    (r.turn n x).Sound c where
  opened := h.opened
  listening := h.listening
  started m hm := by
    by_cases hmn : m = n
    · rwa [hmn]
    · exact h.started m (by rwa [turn_phase_ne hmn] at hm)
  distinct := h.distinct
  sent m hm := by
    have hphase := h.sent m hm
    rw [turn_phase_ne (by rintro rfl; exact hover hphase)]
    exact hphase
  order henabled m hm hphase := by
    by_cases hmn : m = n
    · exact horder henabled (hmn ▸ hm)
    · exact h.order henabled m hm (by rwa [turn_phase_ne hmn] at hphase)
  peer hjoined := by
    by_cases hmn : .clusterPeer = n
    · rwa [← hmn, turn_phase_self]
    · rw [turn_phase_ne hmn]
      exact h.peer hjoined

theorem Sound.unsent (h : r.Sound c) {err : List UInt8} (hphase : r.phase n = .failed err) :
    n ∉ r.serveErrors.map Prod.fst := fun hn => by
  have hover := h.sent n hn
  rw [hphase] at hover
  cases hover

theorem Sound.send (h : r.Sound c) (hn : n ∈ r.servers) {err : List UInt8}
    (hphase : r.phase n = .failed err) :
    { r.turn n .over with serveErrors := r.serveErrors ++ [(n, err)] }.Sound c := by
  have ht : (r.turn n .over).Sound c :=
    h.turn (by simp) hn (by simp [hphase])
      fun henabled hne => h.order henabled n hne (by simp [hphase])
  refine ⟨ht.opened, ht.listening, ht.started, ?_, fun m hm => ?_, ht.order, ht.peer⟩
  · rw [List.map_append, List.map_singleton, ← List.concat_eq_append]
    exact h.distinct.concat (h.unsent hphase)
  · rw [List.map_append] at hm
    obtain hm | hm := List.mem_append.mp hm
    · exact ht.sent m hm
    · rw [List.mem_singleton.mp hm]
      exact turn_phase_self

/-- There is room for the error of a goroutine that has one: the others in the channel are from
other servers. -/
theorem Sound.room (h : r.Sound c) {err : List UInt8} (hphase : r.phase n = .failed err) :
    r.serveErrors.length < c.servers.length := by
  have hmem : ∀ m, r.phase m ≠ .idle → m ∈ c.servers := fun m hm => h.opened.subset (h.started m hm)
  have hsub : n :: r.serveErrors.map Prod.fst ⊆ c.servers := by
    refine List.cons_subset.mpr ⟨hmem n (by simp [hphase]), fun m hm => hmem m ?_⟩
    simp [h.sent m hm]
  have hnodup := List.nodup_cons.mpr ⟨h.unsent hphase, h.distinct⟩
  have hle := (List.subperm_of_subset hnodup hsub).length_le
  rw [List.length_cons, List.length_map] at hle
  exact hle

theorem Sound.receive (h : r.Sound c) {m : ServerName × List UInt8}
    {rest : List (ServerName × List UInt8)} (hr : r.serveErrors = m :: rest) :
    { r with serveErrors := rest }.Sound c := by
  have hdistinct := h.distinct
  rw [hr] at hdistinct
  refine ⟨h.opened, h.listening, h.started, (List.nodup_cons.mp hdistinct).2, fun n hn => ?_,
    h.order, h.peer⟩
  refine h.sent n ?_
  rw [hr]
  exact List.mem_cons_of_mem _ hn

theorem Sound.join (h : r.Sound c) (hpeer : r.phase .clusterPeer ≠ .idle) :
    { r with joined := true }.Sound c :=
  ⟨h.opened, h.listening, h.started, h.distinct, h.sent, fun _ _ _ _ => rfl, fun _ => hpeer⟩

theorem Sound.shutdown (h : r.Sound c) (n : ServerName) : (r.shutdown n).Sound c :=
  ⟨h.opened, h.listening, h.started, h.distinct, h.sent, h.order, h.peer⟩

theorem Sound.cleanup (h : r.Sound c) (n : ServerName) : (r.cleanup n).Sound c := by
  refine ⟨h.opened, fun m hm => ?_, h.started, h.distinct, h.sent, h.order, h.peer⟩
  by_cases hmn : m = n
  · rw [hmn, cleanup_listening_self] at hm
    cases hm
  · exact h.listening m (by rwa [cleanup_listening_ne hmn] at hm)

end RunningServers

namespace Lifecycle

variable {c : AppConfig} {s t : Lifecycle} {n : ServerName} {rest : List ServerName}

def Ran (c : AppConfig) (s : Lifecycle) : Prop :=
  s.signalled = true ∧ s.running.servers = c.servers ∧
    ∀ n ∈ c.servers, s.running.phase n ≠ .idle

def Down (r : RunningServers) (n : ServerName) : Prop :=
  r.stopped n = true ∧ r.listening n = false

def Fits (c : AppConfig) (s : Lifecycle) : RunPc → Prop
  | .new => s.made = false ∧ s.running.servers = []
  | .listen rest => s.made = true ∧ s.running.servers ++ rest = c.servers ∧
    ∀ n, s.running.phase n = .idle
  | .startPeer => s.made = true ∧ s.running.servers = c.servers ∧ c.clusteringEnabled = true ∧
    ∀ n, s.running.phase n = .idle
  | .join => s.made = true ∧ s.running.servers = c.servers ∧ c.clusteringEnabled = true ∧
    s.running.phase .clusterPeer ≠ .idle ∧ ∀ n, n ≠ .clusterPeer → s.running.phase n = .idle
  | .poll => s.made = true ∧ s.running.servers = c.servers ∧ c.clusteringEnabled = true ∧
    s.running.joined = true ∧ ∀ n, n ≠ .clusterPeer → s.running.phase n = .idle
  | .start rest => s.made = true ∧ s.running.servers = c.servers ∧ rest.Nodup ∧
    (c.clusteringEnabled = true → s.running.joined = true) ∧
    (∀ n ∈ rest, n ∈ c.servers ∧ s.running.phase n = .idle) ∧
    ∀ n ∈ c.servers, n ∈ rest ∨ s.running.phase n ≠ .idle
  | .select => s.made = true ∧ s.running.servers = c.servers ∧
    ∀ n ∈ c.servers, s.running.phase n ≠ .idle
  | .close | .shutdown _ => s.made = true ∧ Ran c s
  | .cleanup => s.made = true ∧ (s.result = [] → Ran c s)
  | .cleanupServer rest => s.made = true ∧ (s.result = [] → Ran c s) ∧ 1 ≤ s.closes ∧
    ∀ n ∈ s.running.servers, n ∈ rest ∨ Down s.running n
  | .returned => (s.result = [] → Ran c s) ∧ (s.made = true → 1 ≤ s.closes) ∧
    ∀ n ∈ s.running.servers, Down s.running n

structure Inv (c : AppConfig) (s : Lifecycle) : Prop where
  sound : s.running.Sound c
  fits : s.Fits c s.pc

theorem Fits.serve {pc : RunPc} (h : s.Fits c pc) {r : RunningServers}
    (hservers : r.servers = s.running.servers)
    (hphase : ∀ n, r.phase n = .idle ↔ s.running.phase n = .idle)
    (hlistening : r.listening = s.running.listening) (hstopped : r.stopped = s.running.stopped)
    (hjoined : r.joined = s.running.joined) : Fits c { s with running := r } pc := by
  cases pc <;>
    simpa only [Fits, Ran, Down, ne_eq, hservers, hphase, hlistening, hstopped, hjoined] using h

theorem Inv.receive (hsound : s.running.Sound c) (hmade : s.made = true)
    {m : ServerName × List UInt8} {rest : List (ServerName × List UInt8)}
    (hr : s.running.serveErrors = m :: rest) : (s.receive m rest).Inv c :=
  ⟨hsound.receive hr, hmade, fun hnil => absurd hnil (List.cons_ne_nil _ _)⟩

theorem inv_start (c : AppConfig) : start.Inv c := ⟨.none c, rfl, rfl⟩

theorem Inv.listen (hsound : s.running.Sound c) (hfits : s.Fits c (.listen (n :: rest))) :
    Inv c { s with pc := .listen rest, running := s.running.listen n } := by
  obtain ⟨hmade, hservers, hidle⟩ := hfits
  exact ⟨hsound.listen hservers, hmade, by rw [← hservers]; exact List.append_assoc .., hidle⟩

theorem Inv.listened (hsound : s.running.Sound c) (hfits : s.Fits c (.listen [])) :
    Inv c { s with
      pc := if c.clusteringEnabled then .startPeer else .start s.running.servers } := by
  obtain ⟨hmade, hservers, hidle⟩ := hfits
  rw [List.append_nil] at hservers
  refine ⟨hsound, ?_⟩
  cases henabled : c.clusteringEnabled with
  | true => exact ⟨hmade, hservers, henabled, hidle⟩
  | false =>
    refine ⟨hmade, hservers, ?_, fun h => ?_, fun n hn => ⟨?_, hidle n⟩, fun n hn => .inl ?_⟩
    · rw [hservers]
      exact c.servers_nodup
    · rw [henabled] at h
      cases h
    · rwa [hservers] at hn
    · rwa [hservers]

theorem Inv.startPeer (hsound : s.running.Sound c) (hfits : s.Fits c .startPeer)
    (hn : s.running.servers.getLast? = some n) :
    Inv c { s with pc := .join, running := s.running.turn n .serving } := by
  obtain ⟨hmade, hservers, henabled, hidle⟩ := hfits
  rw [hservers, AppConfig.servers_of_clustered henabled, List.getLast?_concat] at hn
  cases hn
  refine ⟨hsound.turn (by simp) ?_ (by simp [hidle]) fun _ hne => absurd rfl hne,
    hmade, hservers, henabled, ?_, fun m hm => ?_⟩
  · rw [hservers, AppConfig.servers_of_clustered henabled]
    simp
  · simp only [RunningServers.turn_phase_self]
    simp
  · exact (RunningServers.turn_phase_ne hm).trans (hidle m)

theorem Inv.polled (hsound : s.running.Sound c) (hfits : s.Fits c .poll) :
    Inv c { s with pc := .start s.running.servers.dropLast } := by
  obtain ⟨hmade, hservers, henabled, hjoined, hidle⟩ := hfits
  have hlast : s.running.servers.dropLast = c.publicServers := by
    rw [hservers, AppConfig.servers_of_clustered henabled, List.dropLast_concat]
  refine ⟨hsound, hmade, hservers, ?_, fun _ => hjoined, fun n hn => ?_, fun n hn => ?_⟩
  · rw [hlast]
    exact c.publicServers_nodup
  · rw [hlast] at hn
    have hne : n ≠ .clusterPeer := by
      rintro rfl
      exact c.clusterPeer_notMem_public hn
    rw [AppConfig.servers_of_clustered henabled]
    exact ⟨List.mem_append_left _ hn, hidle n hne⟩
  · rw [AppConfig.servers_of_clustered henabled] at hn
    obtain hn | hn := List.mem_append.mp hn
    · exact .inl (by rwa [hlast])
    · rw [List.mem_singleton.mp hn]
      exact .inr (hsound.peer hjoined)

theorem Inv.startNext (hsound : s.running.Sound c) (hfits : s.Fits c (.start (n :: rest))) :
    Inv c { s with pc := .start rest, running := s.running.turn n .serving } := by
  obtain ⟨hmade, hservers, hnodup, hjoined, hidle, hall⟩ := hfits
  obtain ⟨hnotin, hnodup⟩ := List.nodup_cons.mp hnodup
  obtain ⟨hn, hphase⟩ := hidle n List.mem_cons_self
  refine ⟨hsound.turn (by simp) (by rwa [hservers]) (by simp [hphase]) fun h _ => hjoined h,
    hmade, hservers, hnodup, hjoined, fun m hm => ?_, fun m hm => ?_⟩
  · obtain ⟨hmem, hm'⟩ := hidle m (List.mem_cons_of_mem _ hm)
    have hmn : m ≠ n := by
      rintro rfl
      exact hnotin hm
    exact ⟨hmem, (RunningServers.turn_phase_ne hmn).trans hm'⟩
  · by_cases hmn : m = n
    · refine .inr ?_
      rw [hmn]
      simp only [RunningServers.turn_phase_self]
      simp
    · obtain hm | hm := hall m hm
      · exact .inl ((List.mem_cons.mp hm).resolve_left hmn)
      · exact .inr (by rwa [RunningServers.turn_phase_ne hmn])

theorem Inv.cleanupNext (hsound : s.running.Sound c)
    (hfits : s.Fits c (.cleanupServer (n :: rest))) :
    Inv c { s with pc := .cleanupServer rest, running := s.running.cleanup n } := by
  obtain ⟨hmade, hran, hcloses, hdown⟩ := hfits
  refine ⟨hsound.cleanup n, hmade, hran, hcloses, fun m hm => ?_⟩
  by_cases hmn : m = n
  · rw [hmn]
    exact .inr ⟨RunningServers.cleanup_stopped_self, RunningServers.cleanup_listening_self⟩
  · obtain hm | hm := hdown m hm
    · exact .inl ((List.mem_cons.mp hm).resolve_left hmn)
    · exact .inr ⟨(RunningServers.cleanup_stopped_ne hmn).trans hm.1,
        (RunningServers.cleanup_listening_ne hmn).trans hm.2⟩

theorem Inv.fail (hsound : s.running.Sound c) (hmade : s.made = true) (err : List UInt8) :
    (s.fail err).Inv c := ⟨hsound, hmade, fun hnil => absurd hnil (List.cons_ne_nil _ _)⟩

theorem Inv.main {pc : RunPc} {reply : RunReply} (hsound : s.running.Sound c)
    (hfits : s.Fits c pc) (hs : s.mainStep c pc reply = some t) : t.Inv c := by
  cases pc with
  | new =>
    obtain ⟨hmade, hservers⟩ := hfits
    cases reply with
    | ok =>
      cases hs
      refine ⟨hsound, rfl, by rw [hservers]; rfl, fun n => ?_⟩
      by_contra hphase
      have hn := hsound.started n hphase
      rw [hservers] at hn
      cases hn
    | failed err =>
      cases hs
      refine ⟨hsound, ⟨?_, fun h => ?_, fun n hn => ?_⟩⟩
      · rintro ⟨⟩
      · cases hmade.symm.trans h
      · rw [hservers] at hn
        cases hn
    | signal => cases hs
  | listen rest =>
    cases rest with
    | nil =>
      cases reply with
      | ok =>
        cases hs
        exact .listened hsound hfits
      | failed | signal => cases hs
    | cons n rest =>
      cases reply with
      | ok =>
        cases hs
        exact .listen hsound hfits
      | failed err =>
        cases hs
        exact .fail hsound hfits.1 _
      | signal => cases hs
  | startPeer =>
    cases reply with
    | ok =>
      obtain ⟨n, hn, rfl⟩ := Option.map_eq_some_iff.mp hs
      exact .startPeer hsound hfits hn
    | failed | signal => cases hs
  | join =>
    cases reply with
    | ok =>
      cases hs
      obtain ⟨hmade, hservers, henabled, hpeer, hidle⟩ := hfits
      exact ⟨hsound.join hpeer, hmade, hservers, henabled, rfl, hidle⟩
    | failed err =>
      cases hs
      exact .fail hsound hfits.1 _
    | signal => cases hs
  | poll =>
    cases reply with
    | ok =>
      simp only [mainStep] at hs
      split at hs
      · cases hs
        exact .receive hsound hfits.1 ‹_›
      · cases hs
        exact .polled hsound hfits
    | failed | signal => cases hs
  | start rest =>
    cases reply with
    | ok =>
      cases rest with
      | nil =>
        cases hs
        obtain ⟨hmade, hservers, -, -, -, hall⟩ := hfits
        exact ⟨hsound, hmade, hservers, fun n hn => (hall n hn).resolve_left (by simp)⟩
      | cons n rest =>
        cases hs
        exact .startNext hsound hfits
    | failed | signal => cases rest <;> cases hs
  | select =>
    obtain ⟨hmade, hservers, hall⟩ := hfits
    cases reply with
    | ok =>
      simp only [mainStep] at hs
      split at hs
      · cases hs
        exact .receive hsound hmade ‹_›
      · cases hs
    | signal =>
      cases hs
      exact ⟨hsound, hmade, rfl, hservers, hall⟩
    | failed => cases hs
  | close =>
    cases reply with
    | ok | failed =>
      cases hs
      exact ⟨hsound, hfits⟩
    | signal => cases hs
  | shutdown rest =>
    cases rest with
    | nil =>
      cases reply with
      | ok =>
        cases hs
        exact ⟨hsound, hfits.1, fun _ => hfits.2⟩
      | failed | signal => cases hs
    | cons n rest =>
      cases reply with
      | ok | failed =>
        cases hs
        exact ⟨hsound.shutdown n, hfits⟩
      | signal => cases hs
  | cleanup =>
    cases reply with
    | ok =>
      cases hs
      exact ⟨hsound, hfits.1, hfits.2, Nat.succ_pos _, fun n hn => .inl hn⟩
    | failed | signal => cases hs
  | cleanupServer rest =>
    cases reply with
    | ok =>
      cases rest with
      | nil =>
        cases hs
        obtain ⟨-, hran, hcloses, hdown⟩ := hfits
        exact ⟨hsound, hran, fun _ => hcloses, fun n hn => (hdown n hn).resolve_left (by simp)⟩
      | cons n rest =>
        cases hs
        exact .cleanupNext hsound hfits
    | failed | signal => cases rest <;> cases hs
  | returned => cases reply <;> cases hs

theorem stopPhase_ne_idle (err : Option (List UInt8)) (closed : Bool) :
    stopPhase err closed ≠ .idle := by
  unfold stopPhase
  split
  · simp
  · split <;> simp

theorem Inv.step {a : RunAction} (h : s.Inv c) (hs : s.step c a = some t) : t.Inv c := by
  obtain ⟨hsound, hfits⟩ := h
  cases a with
  | main reply => exact .main hsound hfits hs
  | stop n err closed =>
    simp only [Lifecycle.step] at hs
    split at hs
    · rename_i hphase
      cases hs
      have hne : s.running.phase n ≠ .idle := by simp [hphase]
      have hx := stopPhase_ne_idle err closed
      exact ⟨hsound.turn hx (hsound.started n hne) (by simp [hphase])
          fun henabled hn => hsound.order henabled n hn hne,
        hfits.serve rfl (RunningServers.turn_idle_iff hne hx) rfl rfl rfl⟩
    · cases hs
  | send n =>
    simp only [Lifecycle.step] at hs
    split at hs
    · rename_i err hphase
      split at hs
      · cases hs
        have hne : s.running.phase n ≠ .idle := by simp [hphase]
        exact ⟨hsound.send (hsound.started n hne) hphase,
          hfits.serve rfl (RunningServers.turn_idle_iff hne (by simp)) rfl rfl rfl⟩
      · cases hs
    · cases hs

theorem inv_of_reachable (h : (system c).Reachable s) : s.Inv c := by
  refine h.invariant (I := Inv c) (fun s hs => ?_) fun _ _ _ hi _ hs => hi.step hs
  cases hs
  exact inv_start c

def left (k : Nat) : RunPc → Nat
  | .new => 4 * k + 16
  | .listen rest => 3 * k + 15 + rest.length
  | .startPeer => 3 * k + 14
  | .join => 3 * k + 13
  | .poll => 3 * k + 12
  | .start rest => 2 * k + 10 + rest.length
  | .select => 2 * k + 9
  | .close => 2 * k + 8
  | .shutdown rest => k + 7 + rest.length
  | .cleanup => k + 6
  | .cleanupServer rest => 5 + rest.length
  | .returned => 0

/-- The main goroutine gets on, with a signal where it waits for one. -/
def Undisturbed (_ : Lifecycle) (a : RunAction) : Prop := a = .main .ok ∨ a = .main .signal

theorem Inv.next (h : s.Inv c) (hpc : s.pc ≠ .returned) :
    ∃ a t, Undisturbed s a ∧ s.step c a = some t ∧
      left c.servers.length t.pc < left c.servers.length s.pc := by
  obtain ⟨hsound, hfits⟩ := h
  have hlen := hsound.opened.length_le
  -- wherever no signal is waited for, the next call may succeed
  have hok : ∀ {pc t}, s.pc = pc → s.mainStep c pc .ok = some t →
      left c.servers.length t.pc < left c.servers.length pc →
      ∃ a t, Undisturbed s a ∧ s.step c a = some t ∧
        left c.servers.length t.pc < left c.servers.length s.pc := by
    rintro pc t rfl hs hlt
    exact ⟨.main .ok, t, .inl rfl, hs, hlt⟩
  cases hp : s.pc with
  | new => exact hp ▸ hok hp rfl (by simp only [left]; omega)
  | listen rest =>
    cases rest with
    | nil =>
      refine hp ▸ hok hp rfl ?_
      cases c.clusteringEnabled with
      | false =>
        simp only [left, Bool.false_eq_true, if_false, List.length_nil]
        omega
      | true =>
        simp only [left, if_true, List.length_nil]
        omega
    | cons n rest => exact hp ▸ hok hp rfl (by simp only [left, List.length_cons]; omega)
  | startPeer =>
    rw [hp] at hfits
    obtain ⟨-, hservers, henabled, -⟩ := hfits
    refine hp ▸ hok hp (t := { s with
      pc := .join, running := s.running.turn .clusterPeer .serving }) ?_
      (by simp only [left]; omega)
    rw [mainStep, hservers, AppConfig.servers_of_clustered henabled, List.getLast?_concat]
    rfl
  | join => exact hp ▸ hok hp rfl (by simp only [left]; omega)
  | poll =>
    cases herrors : s.running.serveErrors with
    | nil =>
      refine hp ▸ hok hp (t := { s with pc := .start s.running.servers.dropLast }) ?_ ?_
      · simp only [mainStep, herrors]
      · simp only [left, List.length_dropLast]
        omega
    | cons m rest =>
      refine hp ▸ hok hp (t := s.receive m rest) ?_ ?_
      · simp only [mainStep, herrors]
      · simp only [left, Lifecycle.receive, Lifecycle.fail]
        omega
  | start rest =>
    cases rest with
    | nil => exact hp ▸ hok hp rfl (by simp only [left, List.length_nil]; omega)
    | cons n rest => exact hp ▸ hok hp rfl (by simp only [left, List.length_cons]; omega)
  | select =>
    refine ⟨.main .signal, { s with pc := .close, signalled := true }, .inr rfl, ?_, ?_⟩
    · rw [Lifecycle.step, hp]
      rfl
    · simp only [left]
      omega
  | close => exact hp ▸ hok hp rfl (by simp only [left]; omega)
  | shutdown rest =>
    cases rest with
    | nil => exact hp ▸ hok hp rfl (by simp only [left, List.length_nil]; omega)
    | cons n rest => exact hp ▸ hok hp rfl (by simp only [left, List.length_cons]; omega)
  | cleanup => exact hp ▸ hok hp rfl (by simp only [left]; omega)
  | cleanupServer rest =>
    cases rest with
    | nil => exact hp ▸ hok hp rfl (by simp only [left, List.length_nil]; omega)
    | cons n rest => exact hp ▸ hok hp rfl (by simp only [left, List.length_cons]; omega)
  | returned => exact absurd hp hpc

theorem leads_returned (h : s.Inv c) :
    ∃ t, (system c).Leads Undisturbed s t ∧ t.pc = .returned := by
  obtain ⟨t, hl, -, hpc⟩ := System.Leads.of_rank (S := system c) (C := Undisturbed) (I := Inv c)
    (G := fun s => s.pc = .returned) (fun s => left c.servers.length s.pc) (fun s hi hpc => by
      obtain ⟨a, t, ha, hs, hlt⟩ := hi.next hpc
      exact ⟨t, .step .refl ha hs, hi.step hs, hlt⟩) h
  exact ⟨t, hl, hpc⟩

/-- The life of `run`.  The goroutine of a server that fails is never stuck with its error.  In a
cluster nothing but the peers' server is started before the cluster has been joined, and the cluster
is joined only once that server has been.  The main goroutine can always be brought to its end
without any other.  When `run` returns, everything it has set up is down again, and it returns no
error only after a signal, with all of the configured servers started. -/
theorem run_lifecycle (c : AppConfig) (s : Lifecycle) (h : (system c).Reachable s) :
    (∀ n err, s.running.phase n = .failed err → ∃ t, s.step c (.send n) = some t) ∧
    (c.clusteringEnabled = true →
      (∀ n, n ≠ .clusterPeer → s.running.phase n ≠ .idle → s.running.joined = true) ∧
      (s.running.joined = true → s.running.phase .clusterPeer ≠ .idle)) ∧
    (∃ t, (system c).Leads Undisturbed s t ∧ t.pc = .returned) ∧
    (s.pc = .returned →
      (s.made = true → 1 ≤ s.closes) ∧ (∀ n, s.running.listening n = false) ∧
      (∀ n ∈ s.running.servers, s.running.stopped n = true) ∧
      (s.result = [] → s.signalled = true ∧ s.running.servers = c.servers ∧
        ∀ n ∈ c.servers, s.running.phase n ≠ .idle)) := by
  obtain ⟨hsound, hfits⟩ := inv_of_reachable h
  refine ⟨fun n err hphase => ?_, fun henabled => ⟨hsound.order henabled, hsound.peer⟩,
    leads_returned ⟨hsound, hfits⟩, fun hpc => ?_⟩
  · have hroom := hsound.room hphase
    simp only [Lifecycle.step, hphase, if_pos hroom]
    exact ⟨_, rfl⟩
  · rw [hpc] at hfits
    obtain ⟨hran, hcloses, hdown⟩ := hfits
    refine ⟨hcloses, fun n => ?_, fun n hn => (hdown n hn).1, hran⟩
    by_contra hopen
    have hopen : s.running.listening n = true := by simpa using hopen
    exact absurd (hdown n (hsound.listening n hopen)).2 (by simp [hopen])

/-- The cluster cannot be joined, and the peers' server has failed as well. -/
theorem run_lifecycle_unjoined :
    ∃ (c : AppConfig) (s : Lifecycle), loadConfig wholeSeconds trustingLibrary pairEnv = .ok c ∧
      (system c).Reachable s ∧ s.running.servers = [.proxy, .metrics, .clusterPeer] ∧
      s.running.phase .clusterPeer = .failed (ascii "tls") ∧
      (∃ t, s.step c (.send .clusterPeer) = some t) ∧ ∀ n, s.running.listening n = false := by
  have hrun : ((loadConfig wholeSeconds trustingLibrary pairEnv).toOption.bind fun c =>
      ((system c).run start ([.main .ok, .main .ok, .main .ok, .main .ok, .main .ok, .main .ok,
        .stop .clusterPeer (some (ascii "tls")) false, .main (.failed (ascii "initialize cluster")),
        .main .ok, .main .ok, .main .ok, .main .ok, .main .ok])).map fun s =>
          decide (s.pc = .returned ∧ s.running.servers = [.proxy, .metrics, .clusterPeer] ∧
            s.running.phase .clusterPeer = .failed (ascii "tls"))) = some true := by
    decide +kernel
  obtain ⟨c, hc, hrun⟩ := Option.bind_eq_some_iff.mp hrun
  obtain ⟨s, hs, hobs⟩ := Option.map_eq_some_iff.mp hrun
  obtain ⟨hpc, hservers, hphase⟩ := of_decide_eq_true hobs
  have hreach : (system c).Reachable s := System.Reachable.run (.init rfl) hs
  obtain ⟨hsend, -, -, hreturned⟩ := run_lifecycle c s hreach
  exact ⟨c, s, ok_of_toOption hc, hreach, hservers, hphase, hsend _ _ hphase, (hreturned hpc).2.1⟩

end Lifecycle

end NirnProxy
