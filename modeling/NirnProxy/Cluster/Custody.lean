import NirnProxy.Cluster.Steps
import NirnProxy.Sha256

/-! The memberlists and the `joinDone` channels of a proxy: `JoinCluster` and `Close` use the proxy
as a slot for one memberlist, whose ticket is the channel. -/

universe u

namespace NirnProxy

open Function (update)
open scoped Parties

def ClosePc.taken : ClosePc → Option (Option Nat)
  | .routes cluster | .flag cluster => some cluster
  | .leave cluster | .shutdown cluster => some (some cluster)
  | .returned | .closed => some none
  | .idle | .lock | .wait _ => none

namespace ClusterRun

variable {π : Type u} [DecidableEq π]

structure Refines (a : Slot π) (s : ClusterRun π) : Prop where
  ledger : s.ledger = a.ledger
  hand : ∀ p, (s.join p).hand = a.stage.hand p
  spent : ∀ p d, (s.join p).spent = some d →
    .take (.ticket d) ∈ s.ledger ∧ s.clusterJoinDone ≠ some d
  joinDone : s.clusterJoinDone = a.stage.ticket
  joining : s.clusterJoining = s.clusterJoinDone.isSome
  cluster : s.cluster = a.stage.content
  transport : s.peerTransport.isSome = s.cluster.isSome
  taken : s.closer.taken = a.stage.retirement
  cancelled : s.closer ≠ .idle → s.cancelled = true

variable {digest : List UInt8 → List UInt8} {a b : Slot π} {s t : ClusterRun π} {p : π}

theorem refines_empty : Refines (⟨.free, []⟩ : Slot π) empty where
  ledger := rfl
  hand _ := rfl
  spent _ _ := nofun
  joinDone := rfl
  joining := rfl
  cluster := rfl
  transport := rfl
  taken := rfl
  cancelled h := absurd rfl h

namespace Refines

theorem joinGo (h : Refines a s) {pc : JoinPc} (hpc : (s.join p).Keeps pc) :
    Refines a (s.joinGo p pc) := by
  refine { h with hand := fun q => ?_, spent := fun q d hq => ?_ }
  · by_cases hqp : q = p
    · subst hqp
      simpa [ClusterRun.joinGo, hpc.hand] using h.hand q
    · simpa [ClusterRun.joinGo, hqp] using h.hand q
  · by_cases hqp : q = p
    · subst hqp
      exact h.spent q d (hpc.spent d (by simpa [ClusterRun.joinGo] using hq))
    · exact h.spent q d (by simpa [ClusterRun.joinGo, hqp] using hq)

theorem hand_update (h : Refines a s) {pc : JoinPc} {g : SlotStage π} (hp : pc.hand = g.hand p)
    (hg : ∀ q, q ≠ p → g.hand q = a.stage.hand q) (q : π) :
    (update s.join p pc q).hand = g.hand q := by
  by_cases hqp : q = p
  · subst hqp
    simpa using hp
  · rw [Function.update_of_ne hqp, hg q hqp, h.hand q]

theorem making (h : Refines a s) {d : Nat} {c : Option Nat}
    (hp : (s.join p).hand = some (d, c)) : a = ⟨.making p d c, s.ledger⟩ := by
  have hstage := SlotStage.eq_making ((h.hand p).symm.trans hp)
  rw [h.ledger, ← hstage]

theorem spent_update (h : Refines a s) {pc : JoinPc} {e : Effect Token} {done : Option Nat}
    (hpc : ∀ d, pc.spent = some d → .take (.ticket d) ∈ s.ledger ∧ done ≠ some d)
    (hdone : ∀ d, .take (.ticket d) ∈ s.ledger → s.clusterJoinDone ≠ some d → done ≠ some d)
    (q : π) (d : Nat) (hq : (update s.join p pc q).spent = some d) :
    .take (.ticket d) ∈ e :: s.ledger ∧ done ≠ some d := by
  by_cases hqp : q = p
  · subst hqp
    obtain ⟨hmem, hne⟩ := hpc d (by simpa using hq)
    exact ⟨List.mem_cons_of_mem e hmem, hne⟩
  · obtain ⟨hmem, hne⟩ := h.spent q d (by simpa [hqp] using hq)
    exact ⟨List.mem_cons_of_mem e hmem, hdone d hmem hne⟩

theorem free (h : Refines a s) (hcluster : s.cluster = none) (hjoining : s.clusterJoining = false)
    (hcancelled : s.cancelled = false) : a = ⟨.free, s.ledger⟩ := by
  obtain ⟨g, log⟩ := a
  have hticket : g.ticket = none := by
    have hdone := h.joining.symm.trans hjoining
    rw [h.joinDone] at hdone
    exact Option.not_isSome_iff_eq_none.mp (Bool.eq_false_iff.mp hdone)
  have hcontent : g.content = none := h.cluster.symm.trans hcluster
  have hretired : g.retirement = none := by
    have htaken := h.taken
    have hidle : s.closer = .idle := by
      by_contra hne
      simp [h.cancelled hne] at hcancelled
    rw [hidle] at htaken
    exact htaken.symm
  rw [h.ledger]
  cases g with
  | free => rfl
  | making q d c => cases hticket
  | installed m => cases hcontent
  | retired c => cases hretired

theorem start (h : Refines a s) (ha : a = ⟨.free, s.ledger⟩) (hinv : a.Inv)
    {config : ClusterConfig} :
    Refines ⟨.making p s.ledger.length none, .take (.ticket s.ledger.length) :: s.ledger⟩
      { (s.enter (.take (.ticket s.ledger.length))).joinGo p (.create config s.ledger.length) with
        clusterJoining := true, clusterJoinDone := some s.ledger.length } := by
  subst ha
  have hfresh : .take (.ticket s.ledger.length) ∉ s.ledger := hinv.fresh rfl
  exact {
    ledger := rfl
    hand := h.hand_update (by simp [JoinPc.hand]) fun q hq =>
      SlotStage.hand_making_of_ne hq _ _
    spent := h.spent_update nofun fun d hmem _ hd => hfresh (Option.some.inj hd ▸ hmem)
    joinDone := rfl
    joining := rfl
    cluster := h.cluster
    transport := h.transport
    taken := h.taken
    cancelled := h.cancelled }

theorem remake (h : Refines a s) {d : Nat} {c c' : Option Nat} {pc : JoinPc} (e : Effect Token)
    (ha : a = ⟨.making p d c, s.ledger⟩) (hpc : pc.hand = some (d, c')) (hspent : pc.spent = none) :
    Refines ⟨.making p d c', e :: s.ledger⟩ ((s.enter e).joinGo p pc) := by
  subst ha
  exact {
    ledger := rfl
    hand := h.hand_update (by simp [hpc]) fun q hq => by
      rw [SlotStage.hand_making_of_ne hq, SlotStage.hand_making_of_ne hq]
    spent := h.spent_update (by simp [hspent]) fun _ _ hne => hne
    joinDone := h.joinDone
    joining := h.joining
    cluster := h.cluster
    transport := h.transport
    taken := h.taken
    cancelled := h.cancelled }

theorem abort (h : Refines a s) {d : Nat} {pc : JoinPc} (ha : a = ⟨.making p d none, s.ledger⟩)
    (hpc : pc.hand = none) (hspent : pc.spent = none) :
    Refines ⟨.free, .give (.ticket d) :: s.ledger⟩ ((s.joinOver d).joinGo p pc) := by
  subst ha
  exact {
    ledger := rfl
    hand := h.hand_update hpc fun q hq => (SlotStage.hand_making_of_ne hq _ _).symm
    spent := h.spent_update (by simp [hspent]) fun _ _ _ => nofun
    joinDone := rfl
    joining := rfl
    cluster := h.cluster
    transport := h.transport
    taken := h.taken
    cancelled := h.cancelled }

theorem install (h : Refines a s) {d m : Nat} {config : ClusterConfig} {localAddr : List UInt8}
    (hinv : a.Inv)
    (ha : a = ⟨.making p d (some m), s.ledger⟩) :
    Refines ⟨.installed m, .give (.ticket d) :: s.ledger⟩
      { ((s.joinOver d).joinGo p (.reindex d)).indexGo (.inl p) .lock with
        cluster := some m
        peerTransport := some d
        maxClusterNodes := config.maxNodes.toNat
        localAddr := localAddr } := by
  have htaken : .take (.ticket d) ∈ a.ledger := by
    rw [ha] at hinv ⊢
    exact hinv.taken (decide_eq_true rfl)
  subst ha
  exact {
    ledger := rfl
    hand := h.hand_update rfl fun q hq => (SlotStage.hand_making_of_ne hq _ _).symm
    spent := h.spent_update (fun d' hd => ⟨Option.some.inj hd ▸ htaken, nofun⟩) fun _ _ _ => nofun
    joinDone := rfl
    joining := rfl
    cluster := rfl
    transport := rfl
    taken := h.taken
    cancelled := h.cancelled }

end Refines

def Follows (a b : Slot π) : Prop := b = a ∨ Slot.Step a b

theorem JoinMoves.refines (hm : JoinMoves p s t) (h : Refines a s) (hinv : a.Inv) :
    ∃ b, Follows a b ∧ Refines b t := by
  cases hm with
  | go hpc => exact ⟨a, .inl rfl, h.joinGo hpc⟩
  | start hpc hcancelled hcluster hjoining =>
    have ha := h.free hcluster hjoining hcancelled
    exact ⟨_, .inr (ha ▸ .start p _), h.start ha hinv⟩
  | create hpc =>
    have ha := h.making (p := p) (by rw [hpc]; rfl)
    exact ⟨_, .inr (ha ▸ .make p _ _), h.remake _ ha rfl rfl⟩
  | shutdown hpc =>
    have ha := h.making (p := p) (by rw [hpc]; rfl)
    exact ⟨_, .inr (ha ▸ .discard p _ _ _), h.remake _ ha rfl rfl⟩
  | install hpc =>
    have ha := h.making (p := p) (by rw [hpc]; rfl)
    exact ⟨_, .inr (ha ▸ .install p _ _ _), h.install hinv ha⟩
  | @unwind d err hpc hdone =>
    cases err with
    | none =>
      -- a channel closed at the installation is not the one the proxy waits for now
      exact absurd hdone (h.spent p d (by rw [hpc]; rfl)).2
    | some err =>
      have ha := h.making (p := p) (by rw [hpc]; rfl)
      exact ⟨_, .inr (ha ▸ .abort p _ _), h.abort ha rfl rfl⟩
  | @leave d err hpc hdone =>
    cases err with
    | none => exact ⟨a, .inl rfl, h.joinGo (by rw [hpc]; exact ⟨rfl, nofun, id⟩)⟩
    | some err =>
      have ha := h.making (p := p) (by rw [hpc]; rfl)
      exact absurd (by rw [h.joinDone, ha]; rfl) hdone

theorem Refines.closerGo (h : Refines a s) {pc : ClosePc} (hpc : pc.taken = s.closer.taken)
    (hidle : s.closer ≠ .idle) {full : Bool} {routes : Option ClusterTable} :
    Refines a { s with clusterOverCapacity := full, routes := routes, closer := pc } :=
  { h with taken := hpc.trans h.taken, cancelled := fun _ => h.cancelled hidle }

theorem CloseMoves.refines (hm : CloseMoves s t) (h : Refines a s) :
    ∃ b, Follows a b ∧ Refines b t := by
  have hidle := hm.ne_idle
  cases hm with
  | wait hpc => exact ⟨a, .inl rfl, h.closerGo (by rw [hpc]; rfl) hidle⟩
  | wake hpc => exact ⟨a, .inl rfl, h.closerGo (by rw [hpc]; rfl) hidle⟩
  | take hpc hdone =>
    have hticket : a.stage.ticket = none := h.joinDone.symm.trans hdone
    have hretired : a.stage.retirement = none := by rw [← h.taken, hpc]; rfl
    refine ⟨⟨.retired a.stage.content, a.ledger⟩, .inr (.retire _ _ hticket hretired), ?_⟩
    exact { h with
      hand := fun q => (h.hand q).trans (SlotStage.hand_eq_none hticket q)
      joinDone := hdone
      cluster := rfl
      transport := rfl
      taken := congrArg some h.cluster
      cancelled := fun _ => h.cancelled hidle }
  | routes hpc => exact ⟨a, .inl rfl, h.closerGo (by rw [hpc]; rfl) hidle⟩
  | flag hpc => exact ⟨a, .inl rfl, h.closerGo (by rw [hpc]; rfl) hidle⟩
  | flagged hpc => exact ⟨a, .inl rfl, h.closerGo (by rw [hpc]; rfl) hidle⟩
  | leave hpc => exact ⟨a, .inl rfl, h.closerGo (by rw [hpc]; rfl) hidle⟩
  | @shutdown m hpc =>
    obtain ⟨g, log⟩ := a
    have hstage : g = .retired (some m) := by
      have htaken := h.taken
      rw [hpc] at htaken
      cases g with
      | retired c => exact congrArg _ (Option.some.inj htaken).symm
      | _ => cases htaken
    subst hstage
    refine ⟨_, .inr (.dispose m log), ?_⟩
    exact { h with
      ledger := congrArg _ h.ledger
      spent := fun q d hq => (h.spent q d hq).imp_left (List.mem_cons_of_mem _)
      taken := rfl
      cancelled := fun _ => h.cancelled hidle }
  | finish hpc => exact ⟨a, .inl rfl, h.closerGo (by rw [hpc]; rfl) hidle⟩

theorem step_refines {x : ClusterAction π} (h : Refines a s) (hinv : a.Inv)
    (hs : s.step digest x = some t) : ∃ b, Follows a b ∧ Refines b t := by
  cases step_moves hs with
  | join hm => exact hm.refines h hinv
  | notify => exact ⟨a, .inl rfl, { h with }⟩
  | index hm => cases hm <;> exact ⟨a, .inl rfl, { h with }⟩
  | serve => exact ⟨a, .inl rfl, { h with }⟩
  | request hm => cases hm <;> exact ⟨a, .inl rfl, { h with }⟩
  | close hidle =>
    refine ⟨a, .inl rfl, { h with taken := ?_, cancelled := fun _ => rfl }⟩
    rw [← h.taken, hidle]
    rfl
  | again => exact ⟨a, .inl rfl, h⟩
  | closer hm => exact hm.refines h

theorem exists_slot {C : ClusterRun π → ClusterAction π → Prop}
    (h : (system π digest).Reach C s) : ∃ a : Slot π, a.Inv ∧ Refines a s := by
  refine System.Reach.simulation (M := Slot.Step) ?_ ?_ (fun _ _ hi hs => hi.step hs) h
  · rintro _ rfl
    exact ⟨_, .empty, refines_empty⟩
  · intro a s x t hinv hr _ hs
    exact step_refines hr hinv hs

/-- A memberlist that was created and has not been shut down. -/
def Live (s : ClusterRun π) (m : Nat) : Prop :=
  .take (.item m) ∈ s.ledger ∧ .give (.item m) ∉ s.ledger

namespace Refines

theorem eq_of_inProgress (h : Refines a s) {q : π} (hp : (s.join p).InProgress)
    (hq : (s.join q).InProgress) : p = q := by
  obtain ⟨⟨d, c⟩, hp⟩ := Option.ne_none_iff_exists'.mp hp
  obtain ⟨⟨d', c'⟩, hq⟩ := Option.ne_none_iff_exists'.mp hq
  have hstage := (h.making hp).symm.trans (h.making hq)
  simp only [Slot.mk.injEq, SlotStage.making.injEq] at hstage
  exact hstage.1.1

theorem joining_iff (h : Refines a s) : s.clusterJoining = true ↔ ∃ p, (s.join p).InProgress := by
  rw [h.joining, h.joinDone]
  constructor
  · intro hticket
    obtain ⟨g, log⟩ := a
    cases g with
    | making p d c => exact ⟨p, by simp [JoinPc.InProgress, h.hand p]⟩
    | _ => cases hticket
  · rintro ⟨p, hp⟩
    obtain ⟨⟨d, c⟩, hp⟩ := Option.ne_none_iff_exists'.mp hp
    rw [h.making hp]
    rfl

theorem live_iff (h : Refines a s) (hinv : a.Inv) {m : Nat} :
    s.Live m ↔ a.stage.item = some m := by
  rw [Live, h.ledger]
  constructor
  · rintro ⟨htake, hgive⟩
    by_contra hne
    have hone := hinv.given htake (decide_eq_false hne)
    exact hgive (List.count_pos_iff.mp (by omega))
  · intro hitem
    have hheld : a.stage.holds (.item m) = true := decide_eq_true hitem
    exact ⟨hinv.taken hheld, List.count_eq_zero.mp (hinv.kept hheld)⟩

/-- A channel is closed once, and only a join in progress has one that is still open. -/
theorem channel (h : Refines a s) (hinv : a.Inv) {d : Nat} (hd : .take (.ticket d) ∈ s.ledger) :
    s.ledger.count (.give (.ticket d)) = 1 ∨
      s.ledger.count (.give (.ticket d)) = 0 ∧ ∃ p c, (s.join p).hand = some (d, c) := by
  rw [h.ledger] at hd ⊢
  by_cases hheld : a.stage.holds (.ticket d) = true
  · refine .inr ⟨hinv.kept hheld, ?_⟩
    have hticket : a.stage.ticket = some d := of_decide_eq_true hheld
    obtain ⟨g, log⟩ := a
    cases g with
    | making p e c =>
      obtain rfl := Option.some.inj hticket
      exact ⟨p, c, by simp [h.hand p]⟩
    | _ => cases hticket
  · exact .inl (hinv.given hd (Bool.not_eq_true _ ▸ hheld))

theorem closed (h : Refines a s) (hinv : a.Inv) (hclosed : s.closer = .closed) :
    s.cluster = none ∧ s.peerTransport = none ∧ (∀ p, ¬(s.join p).InProgress) ∧
      ∀ m, .take (.item m) ∈ s.ledger → s.ledger.count (.give (.item m)) = 1 := by
  have htaken := h.taken
  rw [hclosed] at htaken
  obtain ⟨g, log⟩ := a
  cases g with
  | retired c =>
    obtain rfl := Option.some.inj htaken
    have hcluster : s.cluster = none := h.cluster
    have htransport := h.transport
    rw [hcluster] at htransport
    refine ⟨hcluster, Option.not_isSome_iff_eq_none.mp (Bool.eq_false_iff.mp htransport),
      fun p hp => hp (h.hand p), fun m hm => ?_⟩
    rw [h.ledger] at hm ⊢
    exact hinv.given hm rfl
  | _ => cases htaken

end Refines

theorem closed_of_leads {C : ClusterRun π → ClusterAction π → Prop} (hs : s.closer = .closed)
    (h : (system π digest).Leads C s t) : t.closer = .closed := by
  induction h with
  | refl => exact hs
  | @step t x u _ _ hu ih =>
    by_cases hx : x = .closer
    · subst hx
      simp only [system, step, closeStep, ih] at hu
      cases hu
    · exact (closer_of_step hx (by simp [ih]) hu).trans ih

/-- Installation is atomic with respect to `Close`: one join at a time, one memberlist at a time,
every channel closed once, and after `closeDone` nothing is installed, now or later, and every
memberlist ever created has been shut down exactly once. -/
theorem installation_atomic (h : (system π digest).Reachable s) :
    (∀ p q, (s.join p).InProgress → (s.join q).InProgress → p = q) ∧
    (s.clusterJoining = true ↔ ∃ p, (s.join p).InProgress) ∧
    (∀ m n, s.Live m → s.Live n → m = n) ∧ (∀ m, s.cluster = some m → s.Live m) ∧
    (∀ d, .take (.ticket d) ∈ s.ledger → s.ledger.count (.give (.ticket d)) = 1 ∨
      s.ledger.count (.give (.ticket d)) = 0 ∧ ∃ p c, (s.join p).hand = some (d, c)) ∧
    (s.closer = .closed → ∀ t, (system π digest).Leads (fun _ _ => True) s t →
      t.cluster = none ∧ t.peerTransport = none ∧ (∀ p, ¬(t.join p).InProgress) ∧
      ∀ m, .take (.item m) ∈ t.ledger → t.ledger.count (.give (.item m)) = 1) := by
  obtain ⟨a, hinv, hr⟩ := exists_slot h
  refine ⟨fun p q => hr.eq_of_inProgress, hr.joining_iff, fun m n hm hn => ?_, fun m hm => ?_,
    fun d hd => hr.channel hinv hd, fun hclosed t ht => ?_⟩
  · rw [hr.live_iff hinv] at hm hn
    exact Option.some.inj (hm.symm.trans hn)
  · rw [hr.live_iff hinv]
    rw [hr.cluster] at hm
    cases hstage : a.stage with
    | installed n =>
      rw [hstage] at hm
      exact hm
    | _ =>
      rw [hstage] at hm
      cases hm
  · obtain ⟨b, hb, hrb⟩ := exists_slot (ht.reachable h)
    exact hrb.closed hb (closed_of_leads hclosed ht)

def threeNodes : ClusterConfig :=
  ⟨7946, 8443, true, 3, 32, some ⟨versionTLS13, 0, false, some [[1]], [⟨[[2]], none⟩], false⟩⟩

def fine : JoinReply := ⟨true, 2, [49, 48, 46, 49]⟩

/-- A join whose certificate is refused, one that installs its memberlist, one that comes too late,
and a `Close`. -/
def joinsThenClose : List (ClusterAction (Fin 3)) :=
  [.joinCluster 0 threeNodes, .join 0 fine, .join 0 fine, .join 0 ⟨false, 0, []⟩, .join 0 fine,
    .join 0 fine, .joinCluster 1 threeNodes, .join 1 fine, .join 1 fine, .join 1 fine,
    .join 1 fine, .join 1 fine, .join 1 fine, .joinCluster 2 threeNodes, .join 2 fine, .close,
    .closer, .closer, .closer, .closer, .closer, .closer]

theorem installation_atomic_closed : ∃ s : ClusterRun (Fin 3),
    (system (Fin 3) Sha256.sum256).Reachable s ∧ s.closer = .closed ∧
    s.join 0 = .returned (some .certificate) ∧ s.join 1 = .reindex 4 ∧
    s.join 2 = .returned (some .initialized) ∧
    s.ledger.count (.give (.item 1)) = 1 ∧ s.ledger.count (.give (.item 5)) = 1 ∧
    s.ledger.count (.give (.ticket 4)) = 1 := by
  have hrun : ((system (Fin 3) Sha256.sum256).run empty joinsThenClose).map (fun s =>
      decide (s.closer = .closed ∧ s.join 0 = .returned (some .certificate) ∧
        s.join 1 = .reindex 4 ∧ s.join 2 = .returned (some .initialized) ∧
        .take (.item 1) ∈ s.ledger ∧ .take (.item 5) ∈ s.ledger ∧ .take (.ticket 4) ∈ s.ledger ∧
        .give (.ticket 4) ∈ s.ledger)) = some true := by
    decide +kernel
  obtain ⟨s, hs, hobs⟩ := Option.map_eq_some_iff.mp hrun
  obtain ⟨hclosed, h0, h1, h2, hm1, hm5, hd4, hd4'⟩ := of_decide_eq_true hobs
  have hreach := System.Reachable.run (.init rfl) hs
  obtain ⟨-, -, -, -, hchannel, hafter⟩ := installation_atomic hreach
  obtain ⟨-, -, -, hshut⟩ := hafter hclosed s .refl
  refine ⟨s, hreach, hclosed, h0, h1, h2, hshut 1 hm1, hshut 5 hm5, ?_⟩
  obtain hone | ⟨hzero, -⟩ := hchannel 4 hd4
  · exact hone
  · exact absurd hd4' (List.count_eq_zero.mp hzero)

end ClusterRun

end NirnProxy
