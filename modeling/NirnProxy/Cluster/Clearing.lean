import Mathlib.Data.Fintype.Sum
import NirnProxy.Cluster.Custody

/-! What `closeCluster` leaves of the routing state: it clears the table and the capacity flag, and
a run of `reindexMembers` that still holds the old memberlist can store them again. -/

universe u

namespace NirnProxy

open Function (update)
open scoped Parties

def IndexPc.pending : IndexPc → Bool
  | .members .. | .flag _ | .publish _ => true
  | _ => false

def ClosePc.swept : ClosePc → Bool
  | .flag _ | .leave _ | .shutdown _ | .returned | .closed => true
  | _ => false

def ClosePc.reset : ClosePc → Bool
  | .leave _ | .shutdown _ | .returned | .closed => true
  | _ => false

def ClosePc.hasReturned : ClosePc → Bool
  | .returned | .closed => true
  | _ => false

theorem ClosePc.reset_of_hasReturned {pc : ClosePc} (h : pc.hasReturned) : pc.reset := by
  cases pc <;> first | rfl | cases h

theorem ClosePc.swept_of_reset {pc : ClosePc} (h : pc.reset) : pc.swept := by
  cases pc <;> first | rfl | cases h

theorem ClosePc.taken_of_swept {pc : ClosePc} (h : pc.swept) : pc.taken ≠ none := by
  cases pc <;> first | exact Option.some_ne_none _ | cases h

namespace ClusterRun

variable {π : Type u} [DecidableEq π] {digest : List UInt8 → List UInt8} {s t : ClusterRun π}

theorem cluster_of_taken {C : ClusterRun π → ClusterAction π → Prop}
    (h : (system π digest).Reach C s) (htaken : s.closer.taken ≠ none) : s.cluster = none := by
  obtain ⟨a, -, hr⟩ := exists_slot h
  rw [hr.taken] at htaken
  rw [hr.cluster]
  cases hstage : a.stage with
  | retired c => rfl
  | _ =>
    rw [hstage] at htaken
    exact absurd rfl htaken

structure Swept (s : ClusterRun π) : Prop where
  routes : s.closer.swept → s.routes = none
  idle : s.closer.swept → ∀ q, (s.index q).pending = false
  flag : s.closer.reset → s.clusterOverCapacity = false

omit [DecidableEq π] in
theorem Swept.of_unswept (h : s.closer.swept = false) : Swept s where
  routes hs := absurd (h.symm.trans hs) nofun
  idle hs := absurd (h.symm.trans hs) nofun
  flag hs := absurd (h.symm.trans (ClosePc.swept_of_reset hs)) nofun

omit [DecidableEq π] in
theorem Swept.frame (h : Swept s) (hcloser : t.closer = s.closer) (hroutes : t.routes = s.routes)
    (hflag : t.clusterOverCapacity = s.clusterOverCapacity)
    (hindex : ∀ q, (s.index q).pending = false → (t.index q).pending = false) : Swept t where
  routes hs := hroutes.trans (h.routes (hcloser ▸ hs))
  idle hs q := hindex q (h.idle (hcloser ▸ hs) q)
  flag hs := hflag.trans (h.flag (hcloser ▸ hs))

theorem pending_update {q : π ⊕ π} {pc : IndexPc} (hpc : pc.pending = false) (r : π ⊕ π)
    (hr : (s.index r).pending = false) : (update s.index q pc r).pending = false := by
  by_cases hrq : r = q
  · subst hrq
    simpa using hpc
  · simpa [hrq] using hr

omit [DecidableEq π] in
theorem Swept.unswept_of_pending {q : π ⊕ π} (h : Swept s) (hq : (s.index q).pending = true) :
    s.closer.swept = false := by
  rw [← Bool.not_eq_true]
  exact fun hs => Bool.noConfusion ((h.idle hs q).symm.trans hq)

theorem Swept.index {q : π ⊕ π} {members : List Node} (h : Swept s)
    (hcluster : s.closer.swept → s.cluster = none) (hm : IndexMoves digest q members s t) :
    Swept t := by
  have hopen (hq : (s.index q).pending = true) : s.closer.swept = false := h.unswept_of_pending hq
  cases hm with
  | lock => exact h.frame rfl rfl rfl (pending_update rfl)
  | skip => exact h.frame rfl rfl rfl (pending_update rfl)
  | snapshot _ hsome =>
    -- once the closer has taken the memberlist no run reads it any more
    refine .of_unswept (Bool.eq_false_iff.mpr fun hswept => ?_)
    exact absurd ((hcluster hswept).symm.trans hsome) nofun
  | members hpc => exact .of_unswept (hopen (by rw [hpc]; rfl))
  | flag hpc => exact .of_unswept (hopen (by rw [hpc]; rfl))
  | publish hpc => exact .of_unswept (hopen (by rw [hpc]; rfl))
  | unlock => exact h.frame rfl rfl rfl (pending_update rfl)

/-- When `closeCluster` stores the empty table, no run of `reindexMembers` that has read a
memberlist is unfinished. -/
def NoStaleIndex (s : ClusterRun π) (x : ClusterAction π) : Prop :=
  x = .closer → ∀ cluster, s.closer = .routes cluster → ∀ q, (s.index q).pending = false

omit [DecidableEq π] in
theorem Swept.close (h : Swept s) (hstale : NoStaleIndex s .closer) (hm : CloseMoves s t) :
    Swept t := by
  have hkeep (hreset : s.closer.reset) {pc : ClosePc} {ledger : List (Effect Token)} :
      Swept { s with closer := pc, ledger := ledger } :=
    ⟨fun _ => h.routes (ClosePc.swept_of_reset hreset),
      fun _ => h.idle (ClosePc.swept_of_reset hreset), fun _ => h.flag hreset⟩
  have hflag (hswept : s.closer.swept) {pc : ClosePc} :
      Swept { s with clusterOverCapacity := false, closer := pc } :=
    ⟨fun _ => h.routes hswept, fun _ => h.idle hswept, fun _ => rfl⟩
  cases hm with
  | wait => exact .of_unswept rfl
  | wake => exact .of_unswept rfl
  | take => exact .of_unswept rfl
  | routes hpc => exact ⟨fun _ => rfl, fun _ => hstale rfl _ hpc, nofun⟩
  | flag hpc => exact hflag (by rw [hpc]; rfl)
  | flagged hpc => exact hflag (by rw [hpc]; rfl)
  | leave hpc => exact hkeep (by rw [hpc]; rfl)
  | shutdown hpc => exact hkeep (by rw [hpc]; rfl)
  | finish hpc => exact hkeep (by rw [hpc]; rfl)

theorem Swept.step {x : ClusterAction π} (h : Swept s) (hstale : NoStaleIndex s x)
    (hcluster : s.closer.swept → s.cluster = none) (hs : s.step digest x = some t) : Swept t := by
  cases step_moves hs with
  | join hm =>
    have hframe := hm.frame
    refine h.frame hframe.closer hframe.routes hframe.clusterOverCapacity fun q hq => ?_
    obtain ⟨hindex, -⟩ | ⟨-, -, hindex⟩ := hframe.index
    · exact hindex ▸ hq
    · rw [hindex]
      exact pending_update rfl q hq
  | notify => exact h.frame rfl rfl rfl (pending_update rfl)
  | index hm => exact h.index hcluster hm
  | serve => exact h.frame rfl rfl rfl fun _ => id
  | request hm => cases hm <;> exact h.frame rfl rfl rfl fun _ => id
  | close => exact .of_unswept rfl
  | again => exact h
  | closer hm => exact h.close hstale hm

theorem swept_of_reach (h : (system π digest).Reach NoStaleIndex s) : Swept s := by
  refine System.Reach.invariant_with
    (fun s hs hswept => cluster_of_taken hs (ClosePc.taken_of_swept hswept)) ?_ ?_ h
  · rintro _ rfl
    exact .of_unswept rfl
  · intro s x t hcluster _ hi hstale hs
    exact hi.step hstale hcluster hs

theorem hasReturned_of_leads {C : ClusterRun π → ClusterAction π → Prop} (hs : s.closer.hasReturned)
    (h : (system π digest).Leads C s t) : t.closer.hasReturned := by
  induction h with
  | refl => exact hs
  | @step t x u _ _ hu ih =>
    by_cases hx : x = .closer
    · subst hx
      cases closeStep_moves hu with
      | finish => rfl
      | _ hpc =>
        rw [hpc] at ih
        cases ih
    · rwa [closer_of_step hx (by rintro e; rw [e] at ih; cases ih) hu]

/-- Without such a run, the routing state is empty once `closeCluster` has returned, and it stays
empty. -/
theorem closed_clears (h : (system π digest).Reach NoStaleIndex s)
    (hreturned : s.closer.hasReturned) (ht : (system π digest).Leads NoStaleIndex s t) :
    t.routes = none ∧ t.clusterOverCapacity = false := by
  have hreset := ClosePc.reset_of_hasReturned (hasReturned_of_leads hreturned ht)
  have hswept := swept_of_reach (ht.reach h)
  exact ⟨hswept.routes (ClosePc.swept_of_reset hreset), hswept.flag hreset⟩

def settled [Fintype π] (s : ClusterRun π) : ClusterAction π → Bool
  | .closer => match s.closer with
    | .routes _ => decide (∀ q, (s.index q).pending = false)
    | _ => true
  | _ => true

omit [DecidableEq π] in
theorem noStaleIndex_of_settled [Fintype π] (s : ClusterRun π) (x : ClusterAction π)
    (h : settled s x = true) : NoStaleIndex s x := by
  rintro rfl cluster hpc
  simpa only [settled, hpc, decide_eq_true_eq] using h

def localNode : Node := ⟨[97], [49, 48, 46, 49], [56, 52, 52, 51]⟩

def indexing {π : Type u} (q : π ⊕ π) (members : List Node) : List (ClusterAction π) :=
  List.replicate 6 (.index q members)

def joined {π : Type u} (p : π) (members : List Node) : List (ClusterAction π) :=
  .joinCluster p threeNodes :: List.replicate 6 (.join p fine) ++ indexing (.inl p) members ++
    [.join p fine, .join p fine]

/-- The run of a membership event starts after the memberlist is gone. -/
theorem closed_clears_event : ∃ s t : ClusterRun (Fin 1), s.closer.hasReturned ∧ s.published ≠ [] ∧
    t.index (.inr 0) = .finished ∧ t.routes = none ∧ t.clusterOverCapacity = false := by
  have hrun : (((system (Fin 1) Sha256.sum256).check settled).run empty
      (joined 0 [localNode] ++ .close :: List.replicate 5 .closer)).bind (fun s =>
        (((system (Fin 1) Sha256.sum256).check settled).run s
          (.notify 0 :: List.replicate 3 (.index (.inr 0) [localNode]))).map fun t =>
            decide (s.closer.hasReturned ∧ s.published ≠ [] ∧ t.index (.inr 0) = .finished)) =
      some true := by
    decide +kernel
  obtain ⟨s, hs, hrun⟩ := Option.bind_eq_some_iff.mp hrun
  obtain ⟨t, ht, hobs⟩ := Option.map_eq_some_iff.mp hrun
  obtain ⟨hreturned, hpublished, hfinished⟩ := of_decide_eq_true hobs
  have hreach : (system (Fin 1) Sha256.sum256).Reach NoStaleIndex s :=
    System.Reach.of_check noStaleIndex_of_settled (System.Reachable.run (.init rfl) hs)
  have hleads := System.Leads.of_run noStaleIndex_of_settled ht
  exact ⟨s, t, hreturned, hpublished, hfinished, closed_clears hreach hreturned hleads⟩

/-- A membership event has read the memberlist when `closeCluster` runs. -/
def staleIndex (members : List Node) : List (ClusterAction (Fin 1)) :=
  joined 0 [localNode] ++ .notify 0 :: List.replicate 2 (.index (.inr 0) []) ++
    .close :: List.replicate 5 .closer ++ List.replicate 4 (.index (.inr 0) members)

/-- `closeCluster` has returned, and the late run stores a table, or finds too many members. -/
theorem closed_routes_left :
    (∃ s : ClusterRun (Fin 1), (system (Fin 1) Sha256.sum256).Reachable s ∧ s.closer.hasReturned ∧
      s.routes ≠ none) ∧
    ∃ s : ClusterRun (Fin 1), (system (Fin 1) Sha256.sum256).Reachable s ∧ s.closer.hasReturned ∧
      s.clusterOverCapacity = true := by
  have hrun : (((system (Fin 1) Sha256.sum256).run empty (staleIndex [localNode])).map
        fun s => decide (s.closer.hasReturned ∧ s.routes ≠ none)) = some true ∧
      (((system (Fin 1) Sha256.sum256).run empty (staleIndex (List.replicate 4 localNode))).map
        fun s => decide (s.closer.hasReturned ∧ s.clusterOverCapacity = true)) = some true := by
    decide +kernel
  obtain ⟨s, hs, hobs⟩ := Option.map_eq_some_iff.mp hrun.1
  obtain ⟨t, ht, hobs'⟩ := Option.map_eq_some_iff.mp hrun.2
  exact ⟨⟨s, System.Reachable.run (.init rfl) hs, of_decide_eq_true hobs⟩,
    ⟨t, System.Reachable.run (.init rfl) ht, of_decide_eq_true hobs'⟩⟩

end ClusterRun

end NirnProxy
