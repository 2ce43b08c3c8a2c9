import Mathlib.Algebra.Order.BigOperators.Group.Finset
import NirnProxy.Cluster.Capacity

/-! The members of a memberlist change while they are being indexed.  Every change starts a run of
`reindexMembers`, which takes `clusterIndexMu` before it reads the members and gives it back after
it has stored the table, so that no change is lost. -/

universe u

namespace NirnProxy

open Function (update)
open scoped Parties

/-- What a memberlist knows: it has no two nodes of one name. -/
structure Members where
  nodes : List Node
  distinct : (nodes.map Node.name).Nodup

structure MembershipRun (π : Type u) where
  node : ClusterRun π
  members : Nat → Members

/-- `change` is a change of a memberlist, which notifies of it before anyone else reads the
members. -/
inductive MembershipAction (π : Type u)
  | change (p : π) (cluster : Nat) (members : Members)
  | node (x : ClusterAction π)

namespace MembershipRun

variable {π : Type u}

def lists (s : MembershipRun π) : ClusterAction π → Bool
  | .index q members =>
    match s.node.index q with
    | .members cluster _ _ => decide (members.Perm (s.members cluster).nodes)
    | _ => true
  | _ => true

variable [DecidableEq π]

def step (digest : List UInt8 → List UInt8) (s : MembershipRun π) :
    MembershipAction π → Option (MembershipRun π)
  | .change p cluster members =>
    (s.node.step digest (.notify p)).map fun node =>
      { node := node, members := update s.members cluster members }
  | .node x =>
    if s.lists x then (s.node.step digest x).map fun node => { s with node := node } else none

def system (π : Type u) [DecidableEq π] (digest : List UInt8 → List UInt8) :
    System (MembershipRun π) (MembershipAction π) where
  init s := s.node = .empty
  step := step digest

end MembershipRun

def IndexPc.unread : IndexPc → Bool
  | .lock | .snapshot | .members .. => true
  | _ => false

def IndexPc.over : IndexPc → Bool
  | .idle | .finished => true
  | _ => false

def IndexPc.rank : IndexPc → Nat
  | .idle | .finished => 0
  | .unlock => 1
  | .publish _ => 2
  | .flag _ => 3
  | .members .. => 4
  | .snapshot => 5
  | .lock => 6

theorem reindexed_perm {digest : List UInt8 → List UInt8} {localAddr : List UInt8} {maxNodes : Nat}
    {nodes : List Node} {members : Members} (h : nodes.Perm members.nodes) :
    reindexed digest localAddr maxNodes nodes =
      reindexed digest localAddr maxNodes members.nodes := by
  have hmembers : (buildTable digest localAddr members.nodes).members =
      (buildTable digest localAddr nodes).members := buildTable_perm h.symm members.distinct
  simp only [reindexed, h.length_eq, buildTable] at hmembers ⊢
  rw [hmembers]

theorem reindexed_fst {digest : List UInt8 → List UInt8} {localAddr : List UInt8} {maxNodes : Nat}
    {nodes : List Node} : (reindexed digest localAddr maxNodes nodes).1 =
      (reindexed digest localAddr maxNodes nodes).2.isNone := by
  unfold reindexed
  split <;> rfl

namespace ClusterRun

variable {π : Type u}

def wanted (digest : List UInt8 → List UInt8) (members : Nat → Members) (s : ClusterRun π)
    (m : Nat) : Option ClusterTable :=
  (reindexed digest s.localAddr s.maxClusterNodes (members m).nodes).2

/-- The table is stored, or there is a run that will store it or has still to read the members. -/
inductive Settling (s : ClusterRun π) (table : Option ClusterTable) : Prop
  | unread (q) : (s.index q).unread = true → Settling s table
  | flag (q) : s.index q = .flag table → Settling s table
  | publish (q) : s.index q = .publish table → s.clusterOverCapacity = table.isNone →
      Settling s table
  | stored : (∀ q, (s.index q).storing = false) → s.routes = table →
      s.clusterOverCapacity = table.isNone → Settling s table

structure Current (digest : List UInt8 → List UInt8) (members : Nat → Members)
    (s : ClusterRun π) : Prop where
  snapshot : ∀ q m m' localAddr maxNodes, s.cluster = some m →
    s.index q = .members m' localAddr maxNodes →
    m' = m ∧ localAddr = s.localAddr ∧ maxNodes = s.maxClusterNodes
  fresh : s.cluster = none → s.closer.taken = none → ∀ q, (s.index q).pending = false
  settling : ∀ m, s.cluster = some m → s.Settling (s.wanted digest members m)

variable {digest : List UInt8 → List UInt8} {members : Nat → Members} {s t : ClusterRun π}
  {table : Option ClusterTable}

theorem Settling.frame (h : s.Settling table) (hindex : t.index = s.index)
    (hroutes : t.routes = s.routes) (hover : t.clusterOverCapacity = s.clusterOverCapacity) :
    t.Settling table := by
  cases h with
  | unread q hq => exact .unread q (hindex ▸ hq)
  | flag q hq => exact .flag q (hindex ▸ hq)
  | publish q hq ho => exact .publish q (hindex ▸ hq) (hover ▸ ho)
  | stored hq hr ho => exact .stored (fun q => hindex ▸ hq q) (hroutes ▸ hr) (hover ▸ ho)

theorem Current.frame (h : s.Current digest members) (hindex : t.index = s.index)
    (hcluster : t.cluster = s.cluster) (haddr : t.localAddr = s.localAddr)
    (hmax : t.maxClusterNodes = s.maxClusterNodes) (hroutes : t.routes = s.routes)
    (hover : t.clusterOverCapacity = s.clusterOverCapacity)
    (htaken : t.closer.taken = none → s.closer.taken = none) : t.Current digest members where
  snapshot q m m' localAddr maxNodes hm hq := by
    rw [haddr, hmax]
    exact h.snapshot q m m' localAddr maxNodes (hcluster ▸ hm) (hindex ▸ hq)
  fresh hm ht q := hindex ▸ h.fresh (hcluster ▸ hm) (htaken ht) q
  settling m hm := by
    have hw : t.wanted digest members m = s.wanted digest members m := by
      simp only [wanted, haddr, hmax]
    rw [hw]
    exact (h.settling m (hcluster ▸ hm)).frame hindex hroutes hover

theorem current_of_none (hcluster : s.cluster = none) (htaken : s.closer.taken ≠ none) :
    s.Current digest members where
  snapshot q m m' localAddr maxNodes hm := by cases hcluster.symm.trans hm
  fresh _ ht := absurd ht htaken
  settling m hm := by cases hcluster.symm.trans hm

variable [DecidableEq π]

theorem Current.begin {q : π ⊕ π} {members' : Nat → Members} (h : s.Current digest members) :
    (s.indexGo q .lock).Current digest members' where
  snapshot r m m' localAddr maxNodes hm hr := by
    by_cases hrq : r = q
    · subst hrq
      simp [indexGo] at hr
    · exact h.snapshot r m m' localAddr maxNodes hm (by simpa [indexGo, hrq] using hr)
  fresh hm ht r := pending_update rfl r (h.fresh hm ht r)
  settling m hm := .unread q (by simp [indexGo, IndexPc.unread])

theorem members_of_update {q r : π ⊕ π} {pc : IndexPc} {m n : Nat} {localAddr : List UInt8}
    (hr : update s.index q pc r = .members m localAddr n)
    (hpc : ∀ m localAddr n, pc ≠ .members m localAddr n) : s.index r = .members m localAddr n := by
  by_cases hrq : r = q
  · subst hrq
    rw [Function.update_self] at hr
    exact absurd hr (hpc _ _ _)
  · rwa [Function.update_of_ne hrq] at hr

theorem unread_update {q r : π ⊕ π} {pc : IndexPc} (hq : (s.index q).unread = false)
    (hr : (s.index r).unread = true) : (update s.index q pc r).unread = true := by
  have hrq : r ≠ q := by
    rintro rfl
    cases hq.symm.trans hr
  rwa [Function.update_of_ne hrq]

theorem Exclusive.storing_update {q : π ⊕ π} {pc : IndexPc} (hex : Exclusive s)
    (hq : (s.index q).holding = true) (hpc : pc.storing = false) (r : π ⊕ π) :
    (update s.index q pc r).storing = false := by
  by_cases hrq : r = q
  · subst hrq
    rwa [Function.update_self]
  · rw [Function.update_of_ne hrq]
    refine Bool.eq_false_iff.mpr fun hr => hrq (hex.eq_of_holding ?_ hq)
    cases hi : s.index r with
    | flag | publish => rfl
    | _ =>
      rw [hi] at hr
      cases hr

theorem Current.index {q : π ⊕ π} {nodes : List Node} (h : s.Current digest members)
    (hex : Exclusive s) (hm : IndexMoves digest q nodes s t)
    (hlist : ∀ m localAddr n, s.index q = .members m localAddr n →
      nodes.Perm (members m).nodes) : t.Current digest members := by
  cases hm with
  | lock hpc =>
    refine ⟨fun r m m' a n hm hr => h.snapshot r m m' a n hm (members_of_update hr (by simp)),
      fun hm ht r => pending_update rfl r (h.fresh hm ht r), fun m hm => .unread q ?_⟩
    simp [indexGo, IndexPc.unread]
  | skip hpc hnone =>
    refine ⟨fun r m m' a n hm hr => h.snapshot r m m' a n hm (members_of_update hr (by simp)),
      fun hm ht r => pending_update rfl r (h.fresh hm ht r), fun m hm => ?_⟩
    cases hnone.symm.trans hm
  | @snapshot m₀ hpc hsome =>
    refine ⟨fun r m m' a n hm hr => ?_, fun hm => ?_, fun m hm => .unread q ?_⟩
    · by_cases hrq : r = q
      · subst hrq
        simp only [indexGo, Function.update_self, IndexPc.members.injEq] at hr
        obtain ⟨rfl, rfl, rfl⟩ := hr
        exact ⟨Option.some.inj (hsome.symm.trans hm), rfl, rfl⟩
      · exact h.snapshot r m m' a n hm (by simpa [indexGo, hrq] using hr)
    · cases hsome.symm.trans hm
    · simp [indexGo, IndexPc.unread]
  | @members m₀ a n hpc =>
    refine ⟨fun r m m' a n hm hr => h.snapshot r m m' a n hm (members_of_update hr (by simp)),
      fun hm ht => ?_, fun m hm => .flag q ?_⟩
    · have hpending := h.fresh hm ht q
      rw [hpc] at hpending
      cases hpending
    · obtain ⟨rfl, rfl, rfl⟩ := h.snapshot q m m₀ a n hm hpc
      simp [indexGo, wanted, reindexed_perm (hlist _ _ _ hpc)]
  | @flag table hpc =>
    refine ⟨fun r m m' a n hm hr => h.snapshot r m m' a n hm (members_of_update hr (by simp)),
      fun hm ht => ?_, fun m hm => ?_⟩
    · have hpending := h.fresh hm ht q
      rw [hpc] at hpending
      cases hpending
    · cases h.settling m hm with
      | unread r hr => exact .unread r (unread_update (by rw [hpc]; rfl) hr)
      | flag r hr =>
        obtain rfl := hex.eq_of_holding (q := r) (r := q) (by rw [hr]; rfl) (by rw [hpc]; rfl)
        cases hpc.symm.trans hr
        exact .publish r (Function.update_self ..) rfl
      | publish r hr =>
        obtain rfl := hex.eq_of_holding (q := r) (r := q) (by rw [hr]; rfl) (by rw [hpc]; rfl)
        cases hpc.symm.trans hr
      | stored hstoring =>
        have hq := hstoring q
        rw [hpc] at hq
        cases hq
  | @publish table hpc =>
    refine ⟨fun r m m' a n hm hr => h.snapshot r m m' a n hm (members_of_update hr (by simp)),
      fun hm ht => ?_, fun m hm => ?_⟩
    · have hpending := h.fresh hm ht q
      rw [hpc] at hpending
      cases hpending
    · cases h.settling m hm with
      | unread r hr => exact .unread r (unread_update (by rw [hpc]; rfl) hr)
      | flag r hr =>
        obtain rfl := hex.eq_of_holding (q := r) (r := q) (by rw [hr]; rfl) (by rw [hpc]; rfl)
        cases hpc.symm.trans hr
      | publish r hr ho =>
        obtain rfl := hex.eq_of_holding (q := r) (r := q) (by rw [hr]; rfl) (by rw [hpc]; rfl)
        cases hpc.symm.trans hr
        exact .stored (hex.storing_update (by rw [hpc]; rfl) rfl) rfl ho
      | stored hstoring =>
        have hq := hstoring q
        rw [hpc] at hq
        cases hq
  | unlock hpc =>
    refine ⟨fun r m m' a n hm hr => h.snapshot r m m' a n hm (members_of_update hr (by simp)),
      fun hm ht r => pending_update rfl r (h.fresh hm ht r), fun m hm => ?_⟩
    cases h.settling m hm with
    | unread r hr => exact .unread r (unread_update (by rw [hpc]; rfl) hr)
    | flag r hr =>
      obtain rfl := hex.eq_of_holding (q := r) (r := q) (by rw [hr]; rfl) (by rw [hpc]; rfl)
      cases hpc.symm.trans hr
    | publish r hr ho =>
      obtain rfl := hex.eq_of_holding (q := r) (r := q) (by rw [hr]; rfl) (by rw [hpc]; rfl)
      cases hpc.symm.trans hr
    | stored hstoring hr ho =>
      exact .stored (hex.storing_update (by rw [hpc]; rfl) rfl) hr ho

theorem Refines.uninstalled {a : Slot π} {p : π} {d : Nat} {c : Option Nat} (h : Refines a s)
    (hp : (s.join p).hand = some (d, c)) : s.cluster = none ∧ s.closer.taken = none := by
  rw [h.cluster, h.taken, h.making hp]
  exact ⟨rfl, rfl⟩

theorem Current.join {p : π} {a : Slot π} (h : s.Current digest members) (hr : Refines a s)
    (hm : JoinMoves p s t) : t.Current digest members := by
  cases hm with
  | @install config d m localAddr hpc =>
    obtain ⟨hnone, htaken⟩ := hr.uninstalled (p := p) (d := d) (c := some m) (by rw [hpc]; rfl)
    have hfresh := h.fresh hnone htaken
    refine ⟨fun r m' m'' addr n _ hr => ?_, fun hm => ?_, fun m' _ => .unread (.inl p) ?_⟩
    · have hmem := members_of_update (s := s) hr (by simp)
      have hpending := hfresh r
      rw [hmem] at hpending
      cases hpending
    · cases hm
    · simp [indexGo, joinGo, IndexPc.unread]
  | _ => exact h.frame rfl rfl rfl rfl rfl rfl id

theorem Current.step {a : Slot π} {x : ClusterAction π} (h : s.Current digest members)
    (hex : Exclusive s) (hr : Refines a s) (htaken : t.closer.taken ≠ none → t.cluster = none)
    (hlist : ∀ q nodes m localAddr n, x = .index q nodes → s.index q = .members m localAddr n →
      nodes.Perm (members m).nodes)
    (hs : s.step digest x = some t) : t.Current digest members := by
  cases step_moves hs with
  | join hm => exact h.join hr hm
  | notify => exact h.begin
  | @index q nodes _ hm => exact h.index hex hm fun m a n hq => hlist q nodes m a n rfl hq
  | serve => exact h.frame rfl rfl rfl rfl rfl rfl id
  | request hm => cases hm <;> exact h.frame rfl rfl rfl rfl rfl rfl id
  | close hidle => exact h.frame rfl rfl rfl rfl rfl rfl fun _ => by rw [hidle]; rfl
  | again => exact h
  | closer hm =>
    cases hm with
    | wait hpc => exact h.frame rfl rfl rfl rfl rfl rfl fun _ => by rw [hpc]; rfl
    | wake hpc => exact h.frame rfl rfl rfl rfl rfl rfl fun _ => by rw [hpc]; rfl
    | _ => exact current_of_none (htaken nofun) nofun

end ClusterRun

namespace ClusterRun

variable {π : Type u} [DecidableEq π] {digest : List UInt8 → List UInt8} {s t : ClusterRun π}

def Occupied (s : ClusterRun π) : Prop :=
  ∀ q, s.clusterIndexMu = some q → (s.index q).holding = true

theorem Occupied.update {q : π ⊕ π} {pc : IndexPc} (h : Occupied s)
    (hpc : s.clusterIndexMu = some q → pc.holding = true) (r : π ⊕ π)
    (hr : s.clusterIndexMu = some r) : (Function.update s.index q pc r).holding = true := by
  by_cases hrq : r = q
  · subst hrq
    rw [Function.update_self]
    exact hpc hr
  · rw [Function.update_of_ne hrq]
    exact h r hr

theorem Occupied.index {q : π ⊕ π} {nodes : List Node} (h : Occupied s)
    (hm : IndexMoves digest q nodes s t) : Occupied t := by
  cases hm with
  | lock =>
    rintro r ⟨⟩
    simp [indexGo, IndexPc.holding]
  | skip | snapshot | members | flag | publish => exact h.update fun _ => rfl
  | unlock =>
    intro r hr
    cases hr

theorem Occupied.step {x : ClusterAction π} (h : Occupied s) (hex : Exclusive s)
    (hs : s.step digest x = some t) : Occupied t := by
  have hidle {q : π ⊕ π} (hq : (s.index q).holding = false) : s.clusterIndexMu ≠ some q :=
    fun hmu => by cases hq.symm.trans (h q hmu)
  cases step_moves hs with
  | @join x p _ hm =>
    have hframe := hm.frame
    intro r hr
    rw [hframe.clusterIndexMu] at hr
    obtain ⟨hindex, -⟩ | ⟨hearly, -, hindex⟩ := hframe.index
    · rw [hindex]
      exact h r hr
    · rw [hindex]
      refine h.update (fun hmu => ?_) r hr
      exact absurd hmu (hidle (by rw [hex.early p hearly]; rfl))
  | notify hpc => exact h.update fun hmu => absurd hmu (hidle (by rw [hpc]; rfl))
  | index hm => exact h.index hm
  | serve => exact h
  | request hm => cases hm <;> exact h
  | close => exact h
  | again => exact h
  | closer hm => cases hm <;> exact h

theorem occupied_of_reachable (h : (system π digest).Reachable s) : Occupied s := by
  refine h.invariant_with (J := Exclusive) (I := Occupied) (fun _ => exclusive_of_reach) ?_
    fun s x t hex _ ih _ hs => ih.step hex hs
  rintro _ rfl q hq
  cases hq

theorem index_enabled {q : π ⊕ π} (nodes : List Node) (hq : (s.index q).over = false)
    (hmu : (s.index q).holding = true ∨ s.clusterIndexMu = none) :
    ∃ t, s.indexStep digest q nodes = some t := by
  unfold indexStep
  split <;> rename_i hpc
  · rw [hpc] at hq
    cases hq
  · rw [hpc] at hq
    cases hq
  · have hfree : s.clusterIndexMu = none := hmu.resolve_left (by rw [hpc]; exact nofun)
    exact ⟨_, if_pos hfree⟩
  all_goals exact ⟨_, rfl⟩

theorem index_descends {q : π ⊕ π} {nodes : List Node} (hm : IndexMoves digest q nodes s t) :
    (∀ r, r ≠ q → t.index r = s.index r) ∧ (t.index q).rank < (s.index q).rank := by
  cases hm <;> exact ⟨fun r hr => Function.update_of_ne hr .., by simp [*, indexGo, IndexPc.rank]⟩

theorem mem_insert_of_over {runs : Finset (π ⊕ π)} {q r : π ⊕ π}
    (hin : ∀ r, (s.index r).over = false → r ∈ runs)
    (hsame : ∀ r, r ≠ q → t.index r = s.index r) (hr : (t.index r).over = false) :
    r ∈ insert q runs := by
  by_cases hrq : r = q
  · exact hrq ▸ Finset.mem_insert_self q runs
  · exact Finset.mem_insert_of_mem (hin r (hsame r hrq ▸ hr))

theorem exists_runs (h : (system π digest).Reachable s) :
    ∃ runs : Finset (π ⊕ π), ∀ q, (s.index q).over = false → q ∈ runs := by
  refine h.invariant (I := fun s => ∃ runs : Finset (π ⊕ π), ∀ q, (s.index q).over = false →
    q ∈ runs) ?_ fun s x t ⟨runs, hin⟩ _ hs => ?_
  · rintro _ rfl
    exact ⟨∅, fun q hq => by cases hq⟩
  · cases step_moves hs with
    | @join x p _ hm =>
      obtain ⟨hindex, -⟩ | ⟨-, -, hindex⟩ := hm.frame.index
      · exact ⟨runs, hindex ▸ hin⟩
      · refine ⟨insert (.inl p) runs, fun q => mem_insert_of_over hin fun r hr => ?_⟩
        rw [hindex, Function.update_of_ne hr]
    | @notify p =>
      refine ⟨insert (.inr p) runs, fun q => mem_insert_of_over hin fun r hr => ?_⟩
      simp [indexGo, hr]
    | @index q _ _ hm =>
      exact ⟨insert q runs, fun r => mem_insert_of_over hin (index_descends hm).1⟩
    | request hm => cases hm <;> exact ⟨runs, hin⟩
    | closer hm => cases hm <;> exact ⟨runs, hin⟩
    | serve | close | again => exact ⟨runs, hin⟩

end ClusterRun

namespace MembershipRun

variable {π : Type u} [DecidableEq π] {digest : List UInt8 → List UInt8} {s t : MembershipRun π}

theorem node_reachable (h : (system π digest).Reachable s) :
    (ClusterRun.system π digest).Reachable s.node := by
  induction h with
  | init h => exact .init h
  | @step s x t _ _ hs ih =>
    cases x with
    | change p m members =>
      obtain ⟨node, hn, rfl⟩ := Option.map_eq_some_iff.mp hs
      exact ih.next (a := ClusterAction.notify p) hn
    | node x =>
      obtain ⟨-, hs⟩ := Option.ite_none_right_eq_some.mp hs
      obtain ⟨node, hn, rfl⟩ := Option.map_eq_some_iff.mp hs
      exact ih.next hn

theorem current_of_reachable (h : (system π digest).Reachable s) :
    s.node.Current digest s.members := by
  induction h with
  | @init s h =>
    have hs : s.node = .empty := h
    rw [hs]
    refine ⟨fun q m m' a n h => ?_, fun _ _ _ => rfl, fun m h => ?_⟩ <;> cases h
  | @step s x t hr _ hs ih =>
    cases x with
    | change p m members =>
      obtain ⟨node, hn, rfl⟩ := Option.map_eq_some_iff.mp hs
      obtain ⟨-, hn⟩ := Option.ite_none_right_eq_some.mp hn
      cases hn
      exact ih.begin
    | node x =>
      obtain ⟨hlist, hs⟩ := Option.ite_none_right_eq_some.mp hs
      obtain ⟨node, hn, rfl⟩ := Option.map_eq_some_iff.mp hs
      have hnode := node_reachable hr
      obtain ⟨a, -, hrefines⟩ := ClusterRun.exists_slot hnode
      refine ih.step (ClusterRun.exclusive_of_reach hnode) hrefines
        (ClusterRun.cluster_of_taken (hnode.next hn)) ?_ hn
      rintro q nodes m a n rfl hq
      simpa [lists, hq] using hlist

/-- What is published is what the members of the memberlist give. -/
def Published (digest : List UInt8 → List UInt8) (s : MembershipRun π) (m : Nat) : Prop :=
  (s.node.clusterOverCapacity, s.node.routes) =
    reindexed digest s.node.localAddr s.node.maxClusterNodes (s.members m).nodes

omit [DecidableEq π] in
theorem published_of_quiet {m : Nat} (h : s.node.Current digest s.members)
    (hm : s.node.cluster = some m) (hquiet : ∀ q, (s.node.index q).over = true) :
    s.Published digest m := by
  have hnot {q : π ⊕ π} {pc : IndexPc} (hq : s.node.index q = pc) (hpc : pc.over = false) :
      False := by
    have := hquiet q
    rw [hq, hpc] at this
    cases this
  cases h.settling m hm with
  | unread q hq =>
    exfalso
    cases hpc : s.node.index q with
    | lock | snapshot | members => exact hnot hpc rfl
    | _ =>
      rw [hpc] at hq
      cases hq
  | flag q hq => exact (hnot hq rfl).elim
  | publish q hq => exact (hnot hq rfl).elim
  | stored _ hroutes hover =>
    rw [Published, hroutes, hover]
    exact Prod.ext reindexed_fst.symm rfl

def Indexing (_ : MembershipRun π) (x : MembershipAction π) : Prop :=
  ∃ q nodes, x = .node (.index q nodes)

/-- The memberlist and what a run reads of the proxy. -/
def SameIndex (s t : MembershipRun π) : Prop :=
  t.members = s.members ∧ t.node.cluster = s.node.cluster ∧
    t.node.localAddr = s.node.localAddr ∧ t.node.maxClusterNodes = s.node.maxClusterNodes

theorem indexing_step (h : (system π digest).Reachable s) {q : π ⊕ π}
    (hq : (s.node.index q).over = false) :
    ∃ r t, (system π digest).Leads Indexing s t ∧ (s.node.index r).over = false ∧ SameIndex s t ∧
      (∀ r', r' ≠ r → t.node.index r' = s.node.index r') ∧
      (t.node.index r).rank < (s.node.index r).rank := by
  have hnode := node_reachable h
  obtain ⟨r, hr, hmu⟩ : ∃ r, (s.node.index r).over = false ∧
      ((s.node.index r).holding = true ∨ s.node.clusterIndexMu = none) := by
    cases hmu : s.node.clusterIndexMu with
    | none => exact ⟨q, hq, .inr rfl⟩
    | some r =>
      have hr := ClusterRun.occupied_of_reachable hnode r hmu
      refine ⟨r, ?_, .inl hr⟩
      cases hpc : s.node.index r with
      | idle | finished =>
        rw [hpc] at hr
        cases hr
      | _ => rfl
  -- the run reads the members there are
  obtain ⟨nodes, hlists⟩ : ∃ nodes, s.lists (.index r nodes) = true := by
    cases hpc : s.node.index r with
    | members m a n => exact ⟨(s.members m).nodes, by simp [lists, hpc]⟩
    | _ => exact ⟨[], by simp [lists, hpc]⟩
  obtain ⟨node, hs⟩ : ∃ t, s.node.indexStep digest r nodes = some t :=
    ClusterRun.index_enabled nodes hr hmu
  have hmoves := ClusterRun.indexStep_moves hs
  obtain ⟨hother, hrank⟩ := ClusterRun.index_descends hmoves
  have hstep : (system π digest).step s (.node (.index r nodes)) = some { s with node := node } :=
    (if_pos hlists).trans (congrArg (Option.map _) hs)
  refine ⟨r, _, .step .refl ⟨r, nodes, rfl⟩ hstep, hr, ⟨rfl, ?_⟩, hother, hrank⟩
  cases hmoves <;> exact ⟨rfl, rfl, rfl⟩

theorem leads_quiet (h : (system π digest).Reachable s) :
    ∃ t, (system π digest).Leads Indexing s t ∧ (system π digest).Reachable t ∧ SameIndex s t ∧
      ∀ q, (t.node.index q).over = true := by
  obtain ⟨runs, hruns⟩ := ClusterRun.exists_runs (node_reachable h)
  suffices hstep : ∀ u : MembershipRun π,
      ((system π digest).Reachable u ∧ SameIndex s u ∧
        ∀ q, (u.node.index q).over = false → q ∈ runs) →
      ¬ (∀ q, (u.node.index q).over = true) →
      ∃ t, (system π digest).Leads Indexing u t ∧
        ((system π digest).Reachable t ∧ SameIndex s t ∧
          ∀ q, (t.node.index q).over = false → q ∈ runs) ∧
        ∑ q ∈ runs, (t.node.index q).rank < ∑ q ∈ runs, (u.node.index q).rank by
    obtain ⟨t, hl, ⟨hr, hsame, -⟩, hquiet⟩ := System.Leads.of_rank
      (fun u : MembershipRun π => ∑ q ∈ runs, (u.node.index q).rank) hstep
      ⟨h, ⟨rfl, rfl, rfl, rfl⟩, hruns⟩
    exact ⟨t, hl, hr, hsame, hquiet⟩
  rintro u ⟨hr, ⟨hmem, hcl, ha, hmax⟩, hin⟩ hbusy
  obtain ⟨q, hq⟩ := not_forall.mp hbusy
  obtain ⟨r, t, hl, hover, ⟨hmem', hcl', ha', hmax'⟩, hother, hrank⟩ :=
    indexing_step hr (Bool.eq_false_iff.mpr hq)
  refine ⟨t, hl, ⟨hl.reachable hr, ⟨hmem'.trans hmem, hcl'.trans hcl, ha'.trans ha,
    hmax'.trans hmax⟩, fun q hq => ?_⟩, Finset.sum_lt_sum (fun q _ => ?_) ⟨r, hin r hover, hrank⟩⟩
  · by_cases hqr : q = r
    · exact hqr ▸ hin r hover
    · exact hin q (hother q hqr ▸ hq)
  · by_cases hqr : q = r
    · exact hqr ▸ Nat.le_of_lt hrank
    · exact Nat.le_of_eq (congrArg IndexPc.rank (hother q hqr))

/-- No change of the membership is lost.  While a memberlist is installed and no run of
`reindexMembers` is left, the capacity flag and the table are those of the members it knows, however
many changes came in and in whatever order their runs were scheduled; and the runs that have begun
come to their ends by themselves. -/
theorem membership_converges (digest : List UInt8 → List UInt8) {m : Nat}
    (h : (system π digest).Reachable s) (hm : s.node.cluster = some m) :
    ((∀ q, (s.node.index q).over = true) → s.Published digest m) ∧
    ∃ t, (system π digest).Leads Indexing s t ∧ SameIndex s t ∧
      (∀ q, (t.node.index q).over = true) ∧ t.Published digest m := by
  refine ⟨published_of_quiet (current_of_reachable h) hm, ?_⟩
  obtain ⟨t, hl, hr, hsame, hquiet⟩ := leads_quiet h
  exact ⟨t, hl, hsame, hquiet,
    published_of_quiet (current_of_reachable hr) (hsame.2.1.trans hm) hquiet⟩

def alone : Members := ⟨[ClusterRun.localNode], by decide⟩

def pair : Members := ⟨[ClusterRun.remoteNode, ClusterRun.localNode], by decide⟩

/-- A node joins and leaves again: the run of the first change has read its members when the second
change comes in. -/
def joinAndLeave : List (MembershipAction (Fin 2)) :=
  (ClusterRun.joined 0 [ClusterRun.localNode]).map .node ++ .change 0 1 pair ::
    List.replicate 3 (.node (.index (.inr 0) [ClusterRun.localNode, ClusterRun.remoteNode])) ++
    [.change 1 1 alone]

/-- The table of two nodes is about to be stored, and the table of one comes after it. -/
theorem membership_converges_late :
    ∃ s t : MembershipRun (Fin 2), (s.node.index (.inr 0)).storing = true ∧
      s.node.index (.inr 1) = .lock ∧ (system (Fin 2) Sha256.sum256).Leads Indexing s t ∧
      (∀ q, (t.node.index q).over = true) ∧ t.Published Sha256.sum256 1 := by
  have hrun : ((system (Fin 2) Sha256.sum256).run ⟨.empty, fun _ => alone⟩ joinAndLeave).map
      (fun s => decide ((s.node.index (.inr 0)).storing = true ∧ s.node.index (.inr 1) = .lock ∧
        s.node.cluster = some 1)) = some true := by
    decide +kernel
  obtain ⟨s, hs, hobs⟩ := Option.map_eq_some_iff.mp hrun
  obtain ⟨hstoring, hlock, hm⟩ := of_decide_eq_true hobs
  have h0 : (system (Fin 2) Sha256.sum256).init ⟨.empty, fun _ => alone⟩ := rfl
  have hr : (system (Fin 2) Sha256.sum256).Reachable s := System.Reachable.run (.init h0) hs
  obtain ⟨t, hl, -, ht⟩ := (membership_converges Sha256.sum256 hr hm).2
  exact ⟨s, t, hstoring, hlock, hl, ht⟩

end MembershipRun

end NirnProxy
