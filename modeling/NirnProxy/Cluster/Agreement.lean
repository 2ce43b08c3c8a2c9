import NirnProxy.Sha256
import NirnProxy.Cluster.Routing
import NirnProxy.Transition

/-! Nodes that know the same members agree on the owner of every key, and whatever the nodes know
a request passes from one node to another at most once. -/

namespace NirnProxy

open Text

/-- A node of a cluster as `JoinCluster` sets it up; the checks on its configuration are fields. -/
structure Peer where
  name : List UInt8
  addr : List UInt8
  peerPort : Nat
  maxNodes : Nat
  port_pos : 1 ≤ peerPort
  port_le : peerPort ≤ 65535
  deriving DecidableEq

namespace Peer

/-- What the other nodes learn of a peer; its delegate's `NodeMeta` is its peer port. -/
def node (peer : Peer) : Node := ⟨peer.name, peer.addr, itoa peer.peerPort⟩

def localAddr (peer : Peer) : List UInt8 := joinHostPort peer.addr (itoa peer.peerPort)

section Route

variable (digest : List UInt8 → List UInt8)

/-- Where a peer that has run `reindexMembers` on the listed members sends a key. -/
def route (peer : Peer) (members : List Node) (key : UInt64) : List UInt8 :=
  calculateRoute (reindexed digest peer.localAddr peer.maxNodes members).2 key

def member (peer : Peer) : ClusterMember := newClusterMember digest peer.name peer.localAddr

end Route

variable {digest : List UInt8 → List UInt8}

theorem validPort_itoa (peer : Peer) : validPort (itoa peer.peerPort) = true := by
  have hpos := peer.port_pos
  have hle := peer.port_le
  rw [validPort, atoi_itoa (by omega)]
  simp only [Bool.and_eq_true, decide_eq_true_eq]
  omega

theorem node_member (peer : Peer) : peer.node.member digest = some (peer.member digest) :=
  if_pos peer.validPort_itoa

theorem localAddr_ne_nil (peer : Peer) : peer.localAddr ≠ [] := joinHostPort_ne_nil _ _

theorem localAddr_inj {p q : Peer} (h : p.localAddr = q.localAddr) :
    (p.addr, p.peerPort) = (q.addr, q.peerPort) := by
  obtain ⟨haddr, hport⟩ :=
    joinHostPort_injective (colon_notMem_itoa _) (colon_notMem_itoa _) h
  rw [haddr, itoa_injective hport]

variable {peers : List Peer} {members : List Node} {peer : Peer} {key : UInt64}

theorem mem_table {localAddr : List UInt8} {m : ClusterMember}
    (hview : members.Perm (peers.map node)) :
    m ∈ (buildTable digest localAddr members).members ↔ ∃ p ∈ peers, p.member digest = m := by
  rw [mem_buildTable]
  constructor
  · rintro ⟨n, hn, hm⟩
    obtain ⟨p, hp, rfl⟩ := List.mem_map.mp (hview.mem_iff.mp hn)
    exact ⟨p, hp, Option.some.inj (p.node_member.symm.trans hm)⟩
  · rintro ⟨p, hp, rfl⟩
    exact ⟨p.node, hview.mem_iff.mpr (List.mem_map_of_mem hp), p.node_member⟩

/-- Every peer of the cluster chooses in the table a fixed listing of the members gives. -/
theorem route_eq (hview : members.Perm (peers.map node))
    (hnames : (peers.map Peer.name).Nodup) (hcap : peers.length ≤ peer.maxNodes)
    {owner : Peer} (howner : rendezvousMember key
      (buildTable digest [] (peers.map node)).members = some (owner.member digest)) :
    peer.route digest members key = if owner.localAddr = peer.localAddr then []
      else owner.localAddr := by
  have hlength : members.length = peers.length := by rw [hview.length_eq, List.length_map]
  have hnames' : (members.map Node.name).Nodup := by
    rw [(hview.map Node.name).nodup_iff, List.map_map]
    exact hnames
  have htable : (buildTable digest [] members).members =
      (buildTable digest [] (peers.map node)).members := buildTable_perm hview hnames'
  rw [route, reindexed, if_neg (by omega)]
  simp only [calculateRoute]
  rw [show (buildTable digest peer.localAddr members).members =
    (buildTable digest [] members).members from rfl, htable, howner]
  rfl

theorem exists_owner (digest : List UInt8 → List UInt8) (hne : peers ≠ [])
    (hnames : (peers.map Peer.name).Nodup)
    (haddrs : (peers.map fun p => (p.addr, p.peerPort)).Nodup) (view : Peer → List Node)
    (hview : ∀ p ∈ peers, (view p).Perm (peers.map node))
    (hcap : ∀ p ∈ peers, peers.length ≤ p.maxNodes) (key : UInt64) :
    ∃ owner ∈ peers, ∀ p ∈ peers,
      p.route digest (view p) key = if p = owner then [] else owner.localAddr := by
  have hperm := List.Perm.refl (peers.map node)
  obtain ⟨first, hfirst⟩ := List.exists_mem_of_ne_nil _ hne
  obtain ⟨m, hm⟩ : ∃ m, rendezvousMember key
      (buildTable digest [] (peers.map node)).members = some m :=
    rendezvousMember_isSome (List.ne_nil_of_mem ((mem_table hperm).mpr ⟨first, hfirst, rfl⟩))
  obtain ⟨owner, howner, rfl⟩ := (mem_table hperm).mp (rendezvousMember_mem hm)
  refine ⟨owner, howner, fun p hp => ?_⟩
  rw [route_eq (hview p hp) hnames (hcap p hp) hm]
  congr 1
  refine propext ⟨fun h => ?_, fun h => h ▸ rfl⟩
  exact List.inj_on_of_nodup_map haddrs hp howner (localAddr_inj h.symm)

end Peer

/-- A request on its way through the nodes: the `X-Nirn-Hop` value it carries, the addresses it has
been forwarded to, and whether a node has answered it. -/
structure Journey where
  header : List UInt8
  forwards : List (List UInt8)
  answered : Bool
  deriving DecidableEq

namespace Journey

/-- What a node knows when the request reaches it: its capacity flag, its table and the key it
computes for the request. -/
structure View where
  overCapacity : Bool
  table : Option ClusterTable
  key : UInt64
  deriving DecidableEq

/-- `ServeHTTP` at one node; a request it forwards carries the new hop count only. -/
def serve (j : Journey) (v : View) : Option Journey :=
  if j.answered then none
  else if v.overCapacity then some { j with answered := true }
  else match routeDecision (calculateRoute v.table v.key) (forwardedHop j.header) with
    | .serve | .unconverged => some { j with answered := true }
    | .forward target hop => some ⟨itoa hop, j.forwards ++ [target], false⟩

def system (header : List UInt8) : System Journey View where
  init j := j = ⟨header, [], false⟩
  step := serve

/-- Forwarded once, a request carries a count that no node forwards. -/
def Inv (j : Journey) : Prop :=
  j.forwards = [] ∨ (j.forwards.length = 1 ∧ (j.answered = false → forwardedHop j.header = 1))

theorem forwardedHop_itoa_one : forwardedHop (itoa 1) = 1 := by
  rw [forwardedHop, atoi_itoa (by decide)]
  rfl

theorem routeDecision_forward {target target' : List UInt8} {hop hop' : Nat}
    (h : routeDecision target hop = .forward target' hop') : hop = 0 ∧ hop' = 1 := by
  unfold routeDecision maxPeerHops at h
  split at h
  · cases h
  · split at h
    · cases h
    · cases h
      omega

theorem Inv.serve {j j' : Journey} {v : View} (hj : j.Inv) (h : j.serve v = some j') : j'.Inv := by
  unfold Journey.serve at h
  split at h
  · cases h
  split at h
  · cases h
    exact hj.imp_right fun hj => ⟨hj.1, nofun⟩
  split at h
  · cases h
    exact hj.imp_right fun hj => ⟨hj.1, nofun⟩
  · cases h
    exact hj.imp_right fun hj => ⟨hj.1, nofun⟩
  · rename_i hanswered _ _ target hop hroute
    obtain ⟨hzero, rfl⟩ := routeDecision_forward hroute
    cases h
    obtain hnil | ⟨-, hone⟩ := hj
    · exact .inr ⟨by simp [hnil], fun _ => forwardedHop_itoa_one⟩
    · rw [hone (by simpa using hanswered)] at hzero
      cases hzero

theorem forwards_le_one {header : List UInt8} {j : Journey} (h : (system header).Reachable j) :
    j.forwards.length ≤ 1 := by
  have hinv : j.Inv := by
    refine System.Reach.invariant ?_ ?_ h
    · rintro _ rfl
      exact .inl rfl
    · intro j v j' hj _ hs
      exact hj.serve hs
  obtain hnil | ⟨hone, -⟩ := hinv
  · simp [hnil]
  · exact hone.le

end Journey

/-- One owner for every key: in a cluster whose nodes list the same members, each in an order of
its own, exactly one node serves the key itself and the others send it to that node's address; and
with arbitrary views a request is forwarded at most once. -/
theorem cluster_agrees (digest : List UInt8 → List UInt8) :
    (∀ (peers : List Peer), peers ≠ [] → (peers.map Peer.name).Nodup →
      (peers.map fun p => (p.addr, p.peerPort)).Nodup →
      ∀ view : Peer → List Node, (∀ p ∈ peers, (view p).Perm (peers.map Peer.node)) →
      (∀ p ∈ peers, peers.length ≤ p.maxNodes) → ∀ key : UInt64,
      ∃ owner ∈ peers, owner.route digest (view owner) key = [] ∧
        ∀ p ∈ peers, p ≠ owner → p.route digest (view p) key = owner.localAddr ∧
          p.route digest (view p) key ≠ []) ∧
    ∀ (header : List UInt8) (j : Journey), (Journey.system header).Reachable j →
      j.forwards.length ≤ 1 := by
  refine ⟨?_, fun header j h => Journey.forwards_le_one h⟩
  intro peers hne hnames haddrs view hview hcap key
  obtain ⟨owner, howner, hroute⟩ :=
    Peer.exists_owner digest hne hnames haddrs view hview hcap key
  refine ⟨owner, howner, (hroute owner howner).trans (if_pos rfl), fun p hp hne => ?_⟩
  have hp' := (hroute p hp).trans (if_neg hne)
  exact ⟨hp', hp' ▸ owner.localAddr_ne_nil⟩

def alphaPeer : Peer := ⟨[97], [49, 48, 46, 49], 8080, 3, by decide, by decide⟩

def betaPeer : Peer := ⟨[98], [49, 48, 46, 50], 8080, 4, by decide, by decide⟩

def gammaPeer : Peer := ⟨[99], [58, 58, 49], 443, 5, by decide, by decide⟩

def threeViews (p : Peer) : List Node :=
  if p = alphaPeer then [alphaPeer.node, betaPeer.node, gammaPeer.node]
  else if p = betaPeer then [gammaPeer.node, alphaPeer.node, betaPeer.node]
  else [gammaPeer.node, betaPeer.node, alphaPeer.node]

theorem cluster_agrees_three :
    (alphaPeer.route Sha256.sum256 (threeViews alphaPeer) 7 = gammaPeer.localAddr ∧
      betaPeer.route Sha256.sum256 (threeViews betaPeer) 7 = gammaPeer.localAddr ∧
      gammaPeer.route Sha256.sum256 (threeViews gammaPeer) 7 = []) ∧
    (∃ owner ∈ [alphaPeer, betaPeer, gammaPeer],
      owner.route Sha256.sum256 (threeViews owner) 7 = []) ∧
    ∃ j, (Journey.system [45, 53]).Reachable j ∧ j.forwards = [gammaPeer.localAddr] ∧
      j.forwards.length ≤ 1 := by
  refine ⟨by decide +kernel, ?_, ?_⟩
  · obtain ⟨owner, howner, hroute, -⟩ := (cluster_agrees Sha256.sum256).1
      [alphaPeer, betaPeer, gammaPeer] nofun (by decide) (by decide) threeViews (by decide)
      (by decide) 7
    exact ⟨owner, howner, hroute⟩
  · have hrun : (Journey.system [45, 53]).run ⟨[45, 53], [], false⟩
        [⟨false, (reindexed Sha256.sum256 alphaPeer.localAddr 3 (threeViews alphaPeer)).2, 7⟩] =
        some ⟨itoa 1, [gammaPeer.localAddr], false⟩ := by decide +kernel
    have hj := System.Reachable.run (.init rfl) hrun
    exact ⟨_, hj, rfl, (cluster_agrees Sha256.sum256).2 _ _ hj⟩

end NirnProxy
