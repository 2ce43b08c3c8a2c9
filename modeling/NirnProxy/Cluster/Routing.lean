import Mathlib.Data.List.Sort
import NirnProxy.Text

/-! Which node of a cluster serves a key: the route table a node builds from the members it knows,
and the rendezvous choice made in it. -/

namespace NirnProxy

open Text (atoi itoa joinHostPort)

/-- What `reindexMembers` reads of a `memberlist.Node`: its name, the text of its IP address and
its metadata. -/
structure Node where
  name : List UInt8
  addr : List UInt8
  metadata : List UInt8
  deriving DecidableEq

structure ClusterMember where
  name : List UInt8
  address : List UInt8
  hash : UInt64
  deriving DecidableEq

structure ClusterTable where
  members : List ClusterMember
  localAddr : List UInt8
  deriving DecidableEq

def maxPeerHops : Nat := 1

def mix64 (value : UInt64) : UInt64 :=
  let value := value + 0x9e3779b97f4a7c15
  let value := (value ^^^ value >>> 30) * 0xbf58476d1ce4e5b9
  let value := (value ^^^ value >>> 27) * 0x94d049bb133111eb
  value ^^^ value >>> 31

namespace ClusterMember

def score (key : UInt64) (member : ClusterMember) : UInt64 := mix64 (key ^^^ member.hash)

/-- One turn of the loop of `rendezvousMember` after its first. -/
def better (key : UInt64) (selected : ClusterMember × UInt64) (member : ClusterMember) :
    ClusterMember × UInt64 :=
  if member.score key > selected.2 then (member, member.score key) else selected

end ClusterMember

/-- The first turn of the loop selects `members[0]` whatever its score is; without a member the
source panics. -/
def rendezvousMember (key : UInt64) : List ClusterMember → Option ClusterMember
  | [] => none
  | member :: members =>
    some (members.foldl (ClusterMember.better key) (member, member.score key)).1

/-- The empty text stands for the node itself. -/
def calculateRoute (table : Option ClusterTable) (key : UInt64) : List UInt8 :=
  match table with
  | none => []
  | some table =>
    match rendezvousMember key table.members with
    | none => []
    | some member => if member.address = table.localAddr then [] else member.address

section Index

variable (digest : List UInt8 → List UInt8)

def newClusterMember (name address : List UInt8) : ClusterMember where
  name := name
  address := address
  hash := UInt64.ofNat (Text.bigEndian ((digest name).take 8))

def validPort (port : List UInt8) : Bool :=
  match atoi port with
  | none => false
  | some parsedPort => 1 ≤ parsedPort && parsedPort ≤ 65535

/-- The entry of a node in a table; a node whose port is not valid has none. -/
def Node.member (node : Node) : Option ClusterMember :=
  if validPort node.metadata then
    some (newClusterMember digest node.name (joinHostPort node.addr node.metadata))
  else none

/-- The table `reindexMembers` builds from a list of at most `maxNodes` members. -/
def buildTable (localAddr : List UInt8) (nodes : List Node) : ClusterTable where
  members := (nodes.filterMap (Node.member digest)).insertionSort fun a b => a.name ≤ b.name
  localAddr := localAddr

/-- What a run of `reindexMembers` leaves in `clusterOverCapacity` and in `routes`. -/
def reindexed (localAddr : List UInt8) (maxNodes : Nat) (nodes : List Node) :
    Bool × Option ClusterTable :=
  if maxNodes < nodes.length then (true, none)
  else (false, some (buildTable digest localAddr nodes))

end Index

def forwardedHop (value : List UInt8) : Nat :=
  match atoi value with
  | none => 0
  | some hop => if hop < 0 then 0 else hop.toNat

inductive RouteDecision where
  | serve
  | forward (target : List UInt8) (hop : Nat)
  | unconverged
  deriving DecidableEq

/-- What `ServeHTTP` does with a request once it has read the route of its key. -/
def routeDecision (target : List UInt8) (hop : Nat) : RouteDecision :=
  if target = [] then .serve
  else if maxPeerHops ≤ hop then .unconverged
  else .forward target (hop + 1)

section Rendezvous

variable {key : UInt64} {members : List ClusterMember}

theorem better_mem (selected : ClusterMember × UInt64) (members : List ClusterMember) :
    (members.foldl (ClusterMember.better key) selected).1 ∈ selected.1 :: members := by
  induction members generalizing selected with
  | nil => simp
  | cons member members ih =>
    rw [List.foldl_cons]
    have hmem := ih (ClusterMember.better key selected member)
    revert hmem
    unfold ClusterMember.better
    split <;> simp only [List.mem_cons] <;> tauto

theorem rendezvousMember_mem {member : ClusterMember}
    (h : rendezvousMember key members = some member) : member ∈ members := by
  cases members with
  | nil => cases h
  | cons first members =>
    obtain rfl := Option.some.inj h
    exact better_mem _ members

theorem rendezvousMember_isSome (h : members ≠ []) :
    ∃ member, rendezvousMember key members = some member := by
  cases members with
  | nil => exact absurd rfl h
  | cons first members => exact ⟨_, rfl⟩

end Rendezvous

section Sorting

variable {digest : List UInt8 → List UInt8} {localAddr : List UInt8} {nodes : List Node}

instance : IsTrans ClusterMember fun a b => a.name ≤ b.name where
  trans _ _ _ h h' := List.le_trans h h'

instance : Std.Total fun a b : ClusterMember => a.name ≤ b.name where
  total a b := List.le_total a.name b.name

theorem mem_buildTable {member : ClusterMember} :
    member ∈ (buildTable digest localAddr nodes).members ↔
      ∃ node ∈ nodes, node.member digest = some member := by
  rw [buildTable, (List.perm_insertionSort _ _).mem_iff, List.mem_filterMap]

theorem Node.member_name {node : Node} {member : ClusterMember}
    (h : node.member digest = some member) : member.name = node.name := by
  obtain ⟨-, h⟩ := Option.ite_none_right_eq_some.mp h
  obtain rfl := Option.some.inj h
  rfl

theorem buildTable_perm {nodes' : List Node} (hperm : nodes.Perm nodes')
    (hnames : (nodes.map Node.name).Nodup) :
    (buildTable digest localAddr nodes).members = (buildTable digest localAddr nodes').members := by
  have hsorted := List.pairwise_insertionSort (fun a b : ClusterMember => a.name ≤ b.name)
  refine List.Perm.eq_of_pairwise ?_ (hsorted _) (hsorted _) ?_
  · intro a b ha hb hab hba
    obtain ⟨n, hn, han⟩ := mem_buildTable.mp ha
    obtain ⟨m, hm, hbm⟩ := mem_buildTable.mp hb
    have hname : n.name = m.name := by
      rw [← Node.member_name han, ← Node.member_name hbm]
      exact List.le_antisymm hab hba
    obtain rfl := List.inj_on_of_nodup_map hnames hn (hperm.mem_iff.mpr hm) hname
    exact Option.some.inj (han.symm.trans hbm)
  · exact (List.perm_insertionSort _ _).trans
      ((hperm.filterMap _).trans (List.perm_insertionSort _ _).symm)

end Sorting

end NirnProxy
