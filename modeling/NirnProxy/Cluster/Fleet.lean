import NirnProxy.Cluster.Agreement
import NirnProxy.Serve.Machine

/-! The nodes of a cluster, and the requests that they pass to each other.  A request is scheduled
by the owner of its key, so that all the requests of one credential meet the same limiters. -/

universe u

namespace NirnProxy

open Function (update)
open Strings Text Trimming

/-- `textproto.TrimString`. -/
def trimString (s : List UInt8) : List UInt8 :=
  ((s.dropWhile isASCIISpace).reverse.dropWhile isASCIISpace).reverse
where
  isASCIISpace (c : UInt8) : Bool := c = 32 || c = 9 || c = 10 || c = 13

namespace HttpRequest

/-- The `Connection` header names a header, which `ReverseProxy` then does not pass on. -/
def connectionNames (r : HttpRequest) (name : List UInt8) : Bool :=
  r.connection.any fun value =>
    (value.splitOn 44).any fun token => equalFold (trimString token) name

/-- What `peerProxy` sends: without the headers of the connection, and with its own hop count. -/
def forwarded (r : HttpRequest) (hop : Nat) : HttpRequest where
  method := r.method
  path := if hasPrefix r.path [slash] then r.path else slash :: r.path
  authorization := if r.connectionNames (ascii "Authorization") then [] else r.authorization
  hop := itoa hop
  upgrade := []
  connection := []

def key (now : Int) (r : HttpRequest) : UInt64 :=
  affinityHash (identify r.authorization).toIdentity (getOptimisticBucketPath now r.path r.method)
    (isInteractionEndpoint r.path)

end HttpRequest

/-- `scheduled` is where `ServeHTTP` goes on to the client state and the scheduler of its node. -/
inductive FleetPc
  | idle
  | arrived (node : Peer) (request : HttpRequest)
  | forwarded (target : List UInt8) (request : HttpRequest)
  | scheduled (node : Peer) (request : HttpRequest) (key : UInt64)
  | unconverged
  | refused
  deriving DecidableEq

structure FleetRun (π : Type u) where
  now : Int
  routes : Peer → Option ClusterTable
  overCapacity : Peer → Bool
  pc : π → FleetPc

/-- `refuse` is any other answer on the way: a node that is full or closing, a peer that is not
reached. -/
inductive FleetAction (π : Type u)
  | tick (d : Nat)
  | reindex (node : Peer) (members : List Node)
  | serve (r : π) (node : Peer)
  | route (r : π)
  | deliver (r : π) (node : Peer)
  | refuse (r : π)

abbrev FleetConfig (π : Type u) := π → HttpRequest

namespace FleetRun

variable {π : Type u} (digest : List UInt8 → List UInt8)

def start (view : Peer → List Node) (now : Int) : FleetRun π where
  now := now
  routes := fun p => (reindexed digest p.localAddr p.maxNodes (view p)).2
  overCapacity := fun p => (reindexed digest p.localAddr p.maxNodes (view p)).1
  pc := fun _ => .idle

variable [DecidableEq π]

def goto (s : FleetRun π) (r : π) (pc : FleetPc) : FleetRun π := { s with pc := update s.pc r pc }

def handle (s : FleetRun π) (node : Peer) (request : HttpRequest) : FleetPc :=
  if s.overCapacity node then .refused
  else
    let key := request.key s.now
    match routeDecision (calculateRoute (s.routes node) key) (forwardedHop request.hop) with
    | .serve => .scheduled node request key
    | .unconverged => .unconverged
    | .forward target hop => .forwarded target (request.forwarded hop)

def step (cfg : FleetConfig π) (s : FleetRun π) : FleetAction π → Option (FleetRun π)
  | .tick d => some { s with now := s.now + d }
  | .reindex node members =>
    let (overCapacity, routes) := reindexed digest node.localAddr node.maxNodes members
    some { s with
      routes := update s.routes node routes
      overCapacity := update s.overCapacity node overCapacity }
  | .serve r node => if s.pc r = .idle then some (s.goto r (.arrived node (cfg r))) else none
  | .route r =>
    match s.pc r with
    | .arrived node request => some (s.goto r (s.handle node request))
    | _ => none
  | .deliver r node =>
    match s.pc r with
    | .forwarded target request =>
      if node.localAddr = target then some (s.goto r (.arrived node request)) else none
    | _ => none
  | .refuse r =>
    match s.pc r with
    | .arrived _ _ | .forwarded _ _ => some (s.goto r .refused)
    | _ => none

def system (cfg : FleetConfig π) (peers : List Peer) : System (FleetRun π) (FleetAction π) where
  init s := ∃ view now, (∀ p ∈ peers, (view p).Perm (peers.map Peer.node)) ∧
    s = start digest view now
  step := step digest cfg

/-- The membership is settled: the nodes index the same members, and requests go to one of them. -/
def Settled (peers : List Peer) (_ : FleetRun π) : FleetAction π → Prop
  | .reindex node members => node ∈ peers ∧ members.Perm (peers.map Peer.node)
  | .serve _ node | .deliver _ node => node ∈ peers
  | .tick _ | .route _ | .refuse _ => True

end FleetRun

/-- A cluster whose nodes can be told apart, and in which every node has room for all. -/
structure Fleet (peers : List Peer) : Prop where
  ne_nil : peers ≠ []
  names : (peers.map Peer.name).Nodup
  addrs : (peers.map fun p => (p.addr, p.peerPort)).Nodup
  capacity : ∀ p ∈ peers, peers.length ≤ p.maxNodes

/-- The node that serves a key, whatever the order in which the nodes list the members. -/
def Peer.Owns (digest : List UInt8 → List UInt8) (peers : List Peer) (key : UInt64) (p : Peer) :
    Prop :=
  p ∈ peers ∧ ∀ q ∈ peers, ∀ members : List Node, members.Perm (peers.map Peer.node) →
    q.route digest members key = if q = p then [] else p.localAddr

section Owner

variable {digest : List UInt8 → List UInt8} {peers : List Peer} {key : UInt64} {p q : Peer}

theorem Fleet.localAddr_inj (F : Fleet peers) (hp : p ∈ peers) (hq : q ∈ peers)
    (h : p.localAddr = q.localAddr) : p = q :=
  List.inj_on_of_nodup_map F.addrs hp hq (Peer.localAddr_inj h)

theorem Fleet.exists_owns (F : Fleet peers) (digest : List UInt8 → List UInt8) (key : UInt64) :
    ∃ p : Peer, p.Owns digest peers key := by
  have hperm := List.Perm.refl (peers.map Peer.node)
  obtain ⟨first, hfirst⟩ := List.exists_mem_of_ne_nil _ F.ne_nil
  obtain ⟨m, hm⟩ : ∃ m, rendezvousMember key
      (buildTable digest [] (peers.map Peer.node)).members = some m :=
    rendezvousMember_isSome (List.ne_nil_of_mem ((Peer.mem_table hperm).mpr ⟨first, hfirst, rfl⟩))
  obtain ⟨p, hp, rfl⟩ := (Peer.mem_table hperm).mp (rendezvousMember_mem hm)
  refine ⟨p, hp, fun q hq members hview => ?_⟩
  rw [Peer.route_eq hview F.names (F.capacity q hq) hm]
  congr 1
  exact propext ⟨fun h => F.localAddr_inj hq hp h.symm, fun h => h ▸ rfl⟩

theorem Peer.Owns.unique (hp : p.Owns digest peers key) (hq : q.Owns digest peers key) : p = q := by
  by_contra hne
  have hself := hp.2 p hp.1 _ (List.Perm.refl _)
  rw [if_pos rfl, hq.2 p hp.1 _ (List.Perm.refl _), if_neg hne] at hself
  exact q.localAddr_ne_nil hself

end Owner

namespace HttpRequest

variable {r r' : HttpRequest}

/-- The key of a request does not change on its way. -/
def Steady (r : HttpRequest) : Prop := ∃ k, ∀ now, r.key now = k ∧ (r.forwarded 1).key now = k

def credentialKey (credential : List UInt8) : UInt64 :=
  UInt64.ofNat (bigEndian ((Sha256.digest credential).toList.take 8))

theorem key_of_carries {kind : AuthType} {credential : List UInt8}
    (h : Carries r.authorization kind credential) (now : Int) :
    r.key now = credentialKey credential := by
  have hkind : kind ≠ .none := by
    cases h with
    | bare => simp
    | scheme hkind => exact hkind
  have hidentity : (credentialIdentity kind credential).kind = kind ∧
      (credentialIdentity kind credential).key = Sha256.digest credential := by
    unfold credentialIdentity
    split <;> exact ⟨rfl, rfl⟩
  rw [key, h.identify_eq, affinityHash, if_neg (by rw [hidentity.1]; exact hkind), hidentity.2]
  rfl

theorem forwarded_authorization (h : r.connectionNames (ascii "Authorization") = false)
    (hop : Nat) : (r.forwarded hop).authorization = r.authorization := by
  simp [forwarded, h]

theorem steady_of_carries {kind : AuthType} {credential : List UInt8}
    (h : Carries r.authorization kind credential)
    (hkept : r.connectionNames (ascii "Authorization") = false) : r.Steady := by
  have hforwarded : Carries (r.forwarded 1).authorization kind credential := by
    rwa [forwarded_authorization hkept]
  exact ⟨_, fun now => ⟨key_of_carries h now, key_of_carries hforwarded now⟩⟩

theorem forwardedHop_forwarded (r : HttpRequest) : forwardedHop (r.forwarded 1).hop = 1 :=
  Journey.forwardedHop_itoa_one

end HttpRequest

namespace FleetRun

variable {π : Type u} [DecidableEq π] {digest : List UInt8 → List UInt8} {cfg : FleetConfig π}
  {peers : List Peer} {s t : FleetRun π} {r : π} {node : Peer} {request : HttpRequest}

/-- What a client has sent has been forwarded once, by a node that took `owner` for the owner of its
key. -/
structure Passed (digest : List UInt8 → List UInt8) (peers : List Peer) (sent : HttpRequest)
    (owner : Peer) (request : HttpRequest) : Prop where
  request_eq : request = sent.forwarded 1
  hop_eq : forwardedHop sent.hop = 0
  owns : ∃ now, owner.Owns digest peers (sent.key now)

def Placed (digest : List UInt8 → List UInt8) (peers : List Peer) (sent : HttpRequest) :
    FleetPc → Prop
  | .idle | .refused => True
  | .arrived node request => node ∈ peers ∧ (request = sent ∨ Passed digest peers sent node request)
  | .forwarded target request => ∃ owner, owner.localAddr = target ∧ owner ∈ peers ∧
      Passed digest peers sent owner request
  | .scheduled node request key => node.Owns digest peers key ∧ (∃ now, request.key now = key) ∧
      (request = sent ∨ request = sent.forwarded 1)
  | .unconverged => forwardedHop sent.hop = 0 → ¬ sent.Steady

structure Inv (digest : List UInt8 → List UInt8) (cfg : FleetConfig π) (peers : List Peer)
    (s : FleetRun π) : Prop where
  indexed : ∀ p ∈ peers, ∃ members : List Node, members.Perm (peers.map Peer.node) ∧
    (s.overCapacity p, s.routes p) = reindexed digest p.localAddr p.maxNodes members
  placed : ∀ r, Placed digest peers (cfg r) (s.pc r)

omit [DecidableEq π] in
theorem Inv.handle_eq {owner : Peer} (F : Fleet peers) (h : s.Inv digest cfg peers)
    (hnode : node ∈ peers) (howner : owner.Owns digest peers (request.key s.now)) :
    s.handle node request =
      if node = owner then .scheduled node request (request.key s.now)
      else if maxPeerHops ≤ forwardedHop request.hop then .unconverged
      else .forwarded owner.localAddr (request.forwarded (forwardedHop request.hop + 1)) := by
  obtain ⟨members, hperm, hindex⟩ := h.indexed node hnode
  have hcapacity : ¬node.maxNodes < members.length := by
    rw [hperm.length_eq, List.length_map]
    exact not_lt.mpr (F.capacity node hnode)
  have hover : s.overCapacity node = false := by
    have hfst := congrArg Prod.fst hindex
    rwa [reindexed, if_neg hcapacity] at hfst
  have hroute : calculateRoute (s.routes node) (request.key s.now) =
      if node = owner then [] else owner.localAddr := by
    have hsnd : s.routes node = (reindexed digest node.localAddr node.maxNodes members).2 :=
      congrArg Prod.snd hindex
    rw [hsnd]
    exact howner.2 node hnode members hperm
  simp only [FleetRun.handle, hover, Bool.false_eq_true, if_false, hroute]
  by_cases howns : node = owner
  · simp [howns, routeDecision]
  · rw [if_neg howns, if_neg howns, routeDecision, if_neg owner.localAddr_ne_nil]
    by_cases hhop : maxPeerHops ≤ forwardedHop request.hop
    · simp only [if_pos hhop]
    · simp only [if_neg hhop]

omit [DecidableEq π] in
theorem Inv.handle (F : Fleet peers) (h : s.Inv digest cfg peers)
    (hp : s.pc r = .arrived node request) :
    Placed digest peers (cfg r) (s.handle node request) := by
  have hplaced := h.placed r
  rw [hp] at hplaced
  obtain ⟨hnode, hsent⟩ := hplaced
  obtain ⟨owner, howner⟩ := F.exists_owns digest (request.key s.now)
  rw [h.handle_eq F hnode howner]
  split
  · rename_i howns
    exact ⟨howns ▸ howner, ⟨_, rfl⟩, hsent.imp_right (·.request_eq)⟩
  · rename_i howns
    split
    · rename_i hhop
      intro hzero hsteady
      obtain rfl | ⟨rfl, -, now, hpassed⟩ := hsent
      · rw [hzero] at hhop
        exact absurd hhop (by decide)
      · -- the node that forwarded it and this one see the same key
        obtain ⟨k, hk⟩ := hsteady
        rw [(hk now).1] at hpassed
        rw [(hk s.now).2] at howner
        exact howns (hpassed.unique howner)
    · rename_i hhop
      obtain rfl | ⟨rfl, -, -⟩ := hsent
      · have hzero : forwardedHop (cfg r).hop = 0 := by
          unfold maxPeerHops at hhop
          omega
        rw [hzero]
        exact ⟨owner, rfl, howner.1, rfl, hzero, s.now, howner⟩
      · rw [HttpRequest.forwardedHop_forwarded] at hhop
        exact absurd (le_refl _) hhop

theorem Inv.goto {pc : FleetPc} (h : s.Inv digest cfg peers)
    (hpc : Placed digest peers (cfg r) pc) : (s.goto r pc).Inv digest cfg peers := by
  refine ⟨h.indexed, fun q => ?_⟩
  by_cases hq : q = r
  · subst hq
    simpa [FleetRun.goto] using hpc
  · simpa [FleetRun.goto, hq] using h.placed q

omit [DecidableEq π] in
theorem Inv.reindex (h : s.Inv digest cfg peers) {members : List Node}
    (hperm : members.Perm (peers.map Peer.node)) :
    { s with
      routes := update s.routes node (reindexed digest node.localAddr node.maxNodes members).2
      overCapacity := update s.overCapacity node
        (reindexed digest node.localAddr node.maxNodes members).1 }.Inv digest cfg peers := by
  refine ⟨fun p hp => ?_, h.placed⟩
  by_cases hn : p = node
  · subst hn
    exact ⟨members, hperm, by simp⟩
  · simpa [hn] using h.indexed p hp

theorem Inv.step {a : FleetAction π} (F : Fleet peers) (h : s.Inv digest cfg peers)
    (ha : Settled peers s a) (hs : s.step digest cfg a = some t) : t.Inv digest cfg peers := by
  cases a with
  | tick d =>
    cases hs
    exact ⟨h.indexed, h.placed⟩
  | reindex node members =>
    cases hs
    exact h.reindex ha.2
  | serve r node =>
    obtain ⟨-, hs⟩ := Option.ite_none_right_eq_some.mp hs
    cases hs
    exact h.goto ⟨ha, .inl rfl⟩
  | route r =>
    simp only [FleetRun.step] at hs
    split at hs <;> cases hs
    exact h.goto (h.handle F ‹_›)
  | deliver r node =>
    simp only [FleetRun.step] at hs
    split at hs
    · rename_i target request hp
      obtain ⟨haddr, hs⟩ := Option.ite_none_right_eq_some.mp hs
      cases hs
      have hplaced := h.placed r
      rw [hp] at hplaced
      obtain ⟨owner, htarget, howner, hpassed⟩ := hplaced
      obtain rfl := F.localAddr_inj ha howner (haddr.trans htarget.symm)
      exact h.goto ⟨ha, .inr hpassed⟩
    · cases hs
  | refuse r =>
    simp only [FleetRun.step] at hs
    split at hs <;> cases hs <;> exact h.goto trivial

theorem inv_of_reach (F : Fleet peers)
    (h : (system digest cfg peers).Reach (Settled peers) s) : s.Inv digest cfg peers := by
  refine System.Reach.invariant ?_ (fun s a t ih ha hs => ih.step F ha hs) h
  rintro _ ⟨view, now, hview, rfl⟩
  exact ⟨fun p hp => ⟨view p, hview p hp, rfl⟩, fun _ => trivial⟩

/-- The steps that take `r` to its node. -/
def Onward (peers : List Peer) (r : π) (_ : FleetRun π) (a : FleetAction π) : Prop :=
  a = .route r ∨ ∃ node ∈ peers, a = .deliver r node

@[simp] theorem goto_pc_self (s : FleetRun π) (r : π) (pc : FleetPc) : (s.goto r pc).pc r = pc :=
  Function.update_self ..

theorem step_route (digest : List UInt8 → List UInt8) (cfg : FleetConfig π)
    (hp : s.pc r = .arrived node request) :
    s.step digest cfg (.route r) = some (s.goto r (s.handle node request)) := by
  simp only [FleetRun.step, hp]

theorem Inv.leads_at_owner (F : Fleet peers) (h : s.Inv digest cfg peers)
    (hp : s.pc r = .arrived node request) (howns : node.Owns digest peers (request.key s.now)) :
    ∃ t, (system digest cfg peers).Leads (Onward peers r) s t ∧
      t.pc r = .scheduled node request (request.key s.now) := by
  refine ⟨_, .step .refl (.inl rfl) (step_route digest cfg hp), ?_⟩
  rw [goto_pc_self, h.handle_eq F howns.1 howns, if_pos rfl]

theorem Inv.leads_from_wire {target : List UInt8} {k : UInt64} (F : Fleet peers)
    (h : s.Inv digest cfg peers) (hp : s.pc r = .forwarded target request)
    (hk : ∀ now, (cfg r).key now = k ∧ ((cfg r).forwarded 1).key now = k) :
    ∃ t owner request, (system digest cfg peers).Leads (Onward peers r) s t ∧
      t.pc r = .scheduled owner request k ∧ owner.Owns digest peers k := by
  have hplaced := h.placed r
  rw [hp] at hplaced
  obtain ⟨owner, rfl, howner, hpassed⟩ := hplaced
  have hs : s.step digest cfg (.deliver r owner) = some (s.goto r (.arrived owner request)) := by
    simp only [FleetRun.step, hp, if_true]
  have hinv : (s.goto r (.arrived owner request)).Inv digest cfg peers :=
    h.step F (a := .deliver r owner) howner hs
  obtain ⟨rfl, -, now, howns⟩ := hpassed
  rw [(hk now).1] at howns
  have hkey : ((cfg r).forwarded 1).key s.now = k := (hk s.now).2
  obtain ⟨t, hl, ht⟩ := hinv.leads_at_owner F (goto_pc_self ..) (hkey ▸ howns)
  exact ⟨t, owner, _, hl.head (.inr ⟨owner, howner, rfl⟩) hs, hkey ▸ ht, howns⟩

theorem Inv.leads_scheduled {k : UInt64} (F : Fleet peers) (h : s.Inv digest cfg peers)
    (hp : s.pc r = .arrived node request) (hhop : forwardedHop (cfg r).hop = 0)
    (hk : ∀ now, (cfg r).key now = k ∧ ((cfg r).forwarded 1).key now = k) :
    ∃ t owner request, (system digest cfg peers).Leads (Onward peers r) s t ∧
      t.pc r = .scheduled owner request k ∧ owner.Owns digest peers k := by
  have hplaced := h.placed r
  rw [hp] at hplaced
  have hkey : request.key s.now = k := by
    obtain rfl | ⟨rfl, -⟩ := hplaced.2
    · exact (hk s.now).1
    · exact (hk s.now).2
  obtain ⟨owner, howner⟩ := F.exists_owns digest (request.key s.now)
  by_cases howns : node = owner
  · subst howns
    obtain ⟨t, hl, ht⟩ := h.leads_at_owner F hp howner
    exact ⟨t, node, request, hl, hkey ▸ ht, hkey ▸ howner⟩
  · have hs := step_route digest cfg hp
    have hinv := h.step F (a := .route r) trivial hs
    have hhandle := h.handle_eq F hplaced.1 howner
    rw [if_neg howns] at hhandle
    split at hhandle
    · have hastray := h.handle F hp
      rw [hhandle] at hastray
      exact absurd ⟨k, hk⟩ (hastray hhop)
    · rw [hhandle] at hs hinv
      obtain ⟨t, owner', request', hl, ht⟩ := hinv.leads_from_wire F (goto_pc_self ..) hk
      exact ⟨t, owner', request', hl.head (.inl rfl) hs, ht⟩

theorem Placed.key_eq {kind : AuthType} {credential : List UInt8} {sent : HttpRequest}
    {key : UInt64} (h : Placed digest peers sent (.scheduled node request key))
    (hcarries : Carries sent.authorization kind credential)
    (hkept : sent.connectionNames (ascii "Authorization") = false) :
    key = HttpRequest.credentialKey credential := by
  obtain ⟨-, ⟨now, rfl⟩, rfl | rfl⟩ := h
  · exact HttpRequest.key_of_carries hcarries now
  · rw [← HttpRequest.forwarded_authorization hkept] at hcarries
    exact HttpRequest.key_of_carries hcarries now

/-- In a cluster whose membership is settled, every key has one scheduler, that of the node that
owns it.  Requests that carry the same credential, however they spell it and wherever they come in,
are scheduled by the same node, unless `Connection` names `Authorization` and the peer does not get
it.  A request whose key is steady and whose client has set no hop count always gets to the owner of
its key and is never told that the routing did not converge. -/
theorem one_scheduler (digest : List UInt8 → List UInt8) (cfg : FleetConfig π) (F : Fleet peers)
    (h : (system digest cfg peers).Reach (Settled peers) s) :
    (∀ r node request key, s.pc r = .scheduled node request key → node.Owns digest peers key) ∧
    (∀ r r' node node' request request' key, s.pc r = .scheduled node request key →
      s.pc r' = .scheduled node' request' key → node = node') ∧
    (∀ r r' kind kind' credential node node' request request' key key',
      Carries (cfg r).authorization kind credential →
      Carries (cfg r').authorization kind' credential →
      (cfg r).connectionNames (ascii "Authorization") = false →
      (cfg r').connectionNames (ascii "Authorization") = false →
      s.pc r = .scheduled node request key → s.pc r' = .scheduled node' request' key' →
      node = node') ∧
    ∀ r, (cfg r).Steady → forwardedHop (cfg r).hop = 0 → s.pc r ≠ .unconverged ∧
      ((∃ node request, s.pc r = .arrived node request) ∨
          (∃ target request, s.pc r = .forwarded target request) →
        ∃ t owner request, (system digest cfg peers).Leads (Onward peers r) s t ∧
          t.pc r = .scheduled owner request ((cfg r).key s.now) ∧
          owner.Owns digest peers ((cfg r).key s.now)) := by
  have hinv := inv_of_reach F h
  have hplaced := hinv.placed
  refine ⟨?_, ?_, ?_, ?_⟩
  · intro r node request key hr
    have howns := hplaced r
    rw [hr] at howns
    exact howns.1
  · intro r r' node node' request request' key hr hr'
    have howns := hplaced r
    have howns' := hplaced r'
    rw [hr] at howns
    rw [hr'] at howns'
    exact howns.1.unique howns'.1
  · intro r r' kind kind' credential node node' request request' key key' hcarries hcarries' hkept
      hkept' hr hr'
    have howns := hplaced r
    have howns' := hplaced r'
    rw [hr] at howns
    rw [hr'] at howns'
    obtain rfl := Placed.key_eq howns hcarries hkept
    obtain rfl := Placed.key_eq howns' hcarries' hkept'
    exact howns.1.unique howns'.1
  · intro r hsteady hhop
    refine ⟨fun hr => ?_, ?_⟩
    · have hastray := hplaced r
      rw [hr] at hastray
      exact hastray hhop hsteady
    · obtain ⟨k, hk⟩ := hsteady
      rw [(hk s.now).1]
      rintro (⟨node, request, hr⟩ | ⟨target, request, hr⟩)
      · exact hinv.leads_scheduled F hr hhop hk
      · exact hinv.leads_from_wire F hr hk

theorem fleet_three : Fleet [alphaPeer, betaPeer, gammaPeer] :=
  ⟨by decide, by decide, by decide, by decide⟩

def twoSpellings (r : Bool) : HttpRequest where
  method := ascii "GET"
  path := ascii "/api/v10/gateway"
  authorization := ascii (if r then "Bot token" else "  token")
  hop := []
  upgrade := []
  connection := []

/-- Both come to nodes that do not own the credential, and meet at its owner. -/
theorem one_scheduler_spellings :
    ∃ s : FleetRun Bool, ∃ node node' : Peer, ∃ request request' key key',
      s.pc true = .scheduled node request key ∧ s.pc false = .scheduled node' request' key' ∧
      (request.hop = itoa 1 ∧ request'.hop = itoa 1) ∧ node = node' ∧
      s.pc true ≠ .unconverged := by
  let peers := [alphaPeer, betaPeer, gammaPeer]
  let settled (_ : FleetRun Bool) : FleetAction Bool → Bool
    | .serve _ node | .deliver _ node => decide (node ∈ peers)
    | .route _ => true
    | .tick _ | .reindex _ _ | .refuse _ => false
  have hrun : (((system Sha256.sum256 twoSpellings peers).check settled).run
      (start Sha256.sum256 threeViews 0) [.serve true alphaPeer, .serve false betaPeer, .route true,
        .route false, .deliver true gammaPeer, .deliver false gammaPeer, .route true,
        .route false]).map (fun s => (s.pc true, s.pc false)) =
      some (.scheduled gammaPeer ((twoSpellings true).forwarded 1) 4343333289610212819,
        .scheduled gammaPeer ((twoSpellings false).forwarded 1) 4343333289610212819) := by
    decide +kernel
  obtain ⟨s, hs, hobs⟩ := Option.map_eq_some_iff.mp hrun
  obtain ⟨htrue, hfalse⟩ := Prod.mk.inj hobs
  have hsettled : ∀ (s : FleetRun Bool) a, settled s a = true → Settled peers s a := by
    intro s a hc
    cases a with
    | serve r node | deliver r node =>
      change node ∈ peers
      exact of_decide_eq_true hc
    | route r => trivial
    | tick | reindex | refuse => cases hc
  have hinit : (system Sha256.sum256 twoSpellings peers).init
      (start Sha256.sum256 threeViews 0) := ⟨threeViews, 0, by decide, rfl⟩
  have hreach : (system Sha256.sum256 twoSpellings peers).Reach (Settled peers) s :=
    System.Reach.of_check hsettled (System.Reachable.run (.init hinit) hs)
  have htrim : trimSpace (ascii "Bot token") = ascii "Bot" ++ 32 :: ascii "token" := by
    decide +kernel
  have htoken : Carries (ascii "Bot token") .bot (ascii "token") :=
    .scheme (by decide) htrim (by decide +kernel) (by decide +kernel) (by decide +kernel)
  have hbare : Carries (ascii "  token") .bot (ascii "token") :=
    Carries.bare (by decide +kernel) (by decide +kernel)
  obtain ⟨-, -, hsame, hsteady⟩ := one_scheduler Sha256.sum256 twoSpellings fleet_three hreach
  exact ⟨s, _, _, _, _, _, _, htrue, hfalse, ⟨rfl, rfl⟩,
    hsame true false _ _ _ _ _ _ _ _ _ htoken hbare (by decide) (by decide) htrue hfalse,
    (hsteady true (HttpRequest.steady_of_carries htoken (by decide)) (by decide)).1⟩

end FleetRun

end NirnProxy
