import NirnProxy.Scheduler.Cooldown

/-! The cooldown of a bucket at the time of a pacer grant.  `RoundTrip` reads it before it queues
for the pacer and not again, so a cooldown that another route merges into the bucket in between
goes unnoticed. -/

universe u

namespace NirnProxy

open scoped Parties

namespace WaitPhase

def queues : WaitPhase → Bool
  | .reading _ | .pacing => true
  | .open | .cleared => false

variable {w : WaitPhase} {now t u : Int}

theorem knows_of_not_queues (h : w.queues = false) (hc : w ≠ .cleared) : w.Knows now t := by
  cases w with
  | «open» => trivial
  | reading => cases h
  | pacing => cases h
  | cleared => exact (hc rfl).elim

theorem Knows.max (h : w.Knows now t) (hu : u ≤ t ∨ u ≤ now) : w.Knows now (max t u) := by
  obtain hu | hu := hu
  · rw [max_eq_left hu]
    exact h
  · cases w with
    | «open» => trivial
    | reading readyAt =>
      obtain h | h := h
      · exact .inl (max_le h hu)
      · obtain htu | hut := le_total t u
        · exact .inl ((max_eq_right htu).trans_le hu)
        · exact .inr ((max_eq_left hut).trans_le h)
    | pacing => exact max_le h hu
    | cleared => exact max_le h hu

end WaitPhase

def BucketPhase.queues : BucketPhase → Bool
  | .held _ w => w.queues
  | _ => false

namespace BucketView

variable {π : Type u}

/-- What `p` learns does not raise, past the present, the cooldown of a bucket whose holder is an
ordinary request between its reading of the cooldown and its pacer grant. -/
def Timely (cfg : SchedulerConfig π) (v : BucketView π) (p : π) (canonical : UInt64) : Prop :=
  ∀ q b b' w w', v.phase p = .held b w → v.phase q = .held b' w' →
    (cfg.request q).interaction = false → w'.queues = true →
    v.table.buckets.lookup canonical = some b' →
    (v.bucketAt b).readyAt ≤ (v.bucketAt b').readyAt ∨ (v.bucketAt b).readyAt ≤ v.now

structure Fit (cfg : SchedulerConfig π) (v : BucketView π) : Prop extends v.Owned where
  ordinary : ∀ p b, v.phase p = .held b .pacing → (cfg.request p).interaction = false
  ready : ∀ p b w, v.phase p = .held b w → (cfg.request p).interaction = false → w ≠ .cleared →
    w.Knows v.now (v.bucketAt b).readyAt
  grants : ∀ p readyAt t, .grant p readyAt t ∈ v.events → readyAt ≤ t

variable [DecidableEq π] {cfg : SchedulerConfig π} {v v' : BucketView π} {p q : π} {b : Nat}
  {w : WaitPhase} {φ : BucketPhase}

theorem Fit.goto (h : v.Fit cfg) (ho : v'.Owned) (hnow : v'.now = v.now)
    (hphase : v'.phase = Function.update v.phase p φ)
    (hev : ∀ q readyAt t, .grant q readyAt t ∈ v'.events →
      .grant q readyAt t ∈ v.events ∨ readyAt ≤ t)
    (hothers : ∀ q b w, q ≠ p → v.phase q = .held b w → (cfg.request q).interaction = false →
      w ≠ .cleared → w.Knows v.now (v'.bucketAt b).readyAt)
    (hpacing : ∀ b, φ = .held b .pacing → (cfg.request p).interaction = false)
    (hself : ∀ b w, φ = .held b w → (cfg.request p).interaction = false → w ≠ .cleared →
      w.Knows v.now (v'.bucketAt b).readyAt) : v'.Fit cfg where
  toOwned := ho
  ordinary q b hq := by
    rw [hphase] at hq
    by_cases hqp : q = p
    · subst hqp
      exact hpacing b (by simpa using hq)
    · exact h.ordinary q b (by simpa [hqp] using hq)
  ready q b w hq := by
    rw [hphase] at hq
    rw [hnow]
    by_cases hqp : q = p
    · subst hqp
      exact hself b w (by simpa using hq)
    · exact hothers q b w hqp (by simpa [hqp] using hq)
  grants q readyAt t hm := (hev q readyAt t hm).elim (h.grants q readyAt t) id

theorem Fit.aside (h : v.Fit cfg) (ho : v'.Owned) (hnow : v'.now = v.now)
    (hphase : v'.phase = Function.update v.phase p φ) (hev : v'.events = v.events)
    (hready : ∀ b, (v'.bucketAt b).readyAt = (v.bucketAt b).readyAt)
    (hw : ∀ b w, φ = .held b w → w = .open) : v'.Fit cfg := by
  refine h.goto ho hnow hphase (fun q r t hm => .inl (hev ▸ hm)) (fun q b w _ hq hi hc => ?_)
    (fun b e => ?_) fun b w e _ _ => ?_
  · rw [hready]
    exact h.ready q b w hq hi hc
  · cases hw b _ e
  · rw [hw b w e]
    trivial

theorem Fit.wait {w' : WaitPhase} (h : v.Fit cfg) (ho : v'.Owned) (hnow : v'.now = v.now)
    (hphase : v'.phase = Function.update v.phase p (.held b w'))
    (hbucket : v'.bucketAt = v.bucketAt)
    (hev : ∀ q readyAt t, .grant q readyAt t ∈ v'.events →
      .grant q readyAt t ∈ v.events ∨ readyAt ≤ t)
    (hpacing : w' = .pacing → (cfg.request p).interaction = false)
    (hself : (cfg.request p).interaction = false → w' ≠ .cleared →
      w'.Knows v.now (v.bucketAt b).readyAt) : v'.Fit cfg := by
  refine h.goto ho hnow hphase hev (fun q x w _ hq hi hc => ?_) (fun x e => ?_)
    fun x w e hi hc => ?_
  · rw [hbucket]
    exact h.ready q x w hq hi hc
  · cases e
    exact hpacing rfl
  · cases e
    rw [hbucket]
    exact hself hi hc

theorem Fit.stay (h : v.Fit cfg) (he : (v.phase p).Eases φ) (ho : (v.goto p φ).Owned) :
    (v.goto p φ).Fit cfg := by
  generalize hp : v.phase p = ψ at he
  cases he with
  | refl =>
    rw [← hp, BucketView.goto, Function.update_eq_self]
    exact h
  | drop b w => exact h.aside ho rfl rfl rfl (fun _ => rfl) fun b' w' e => by cases e; rfl
  | keep b => exact h.aside ho rfl rfl rfl (fun _ => rfl) (fun _ _ h => by cases h)

theorem Fit.block {t : Int} {e : TripEvent π} (h : v.Fit cfg) (hp : v.phase p = .held b .open)
    (he : ∀ q readyAt u, e ≠ .grant q readyAt u)
    (ho : (((v.onBucket b (·.blockUntil t)).log e).goto p (.held b .open)).Owned) :
    (((v.onBucket b (·.blockUntil t)).log e).goto p (.held b .open)).Fit cfg := by
  refine h.goto ho rfl rfl (fun q r u hm => .inl ?_) (fun q x w hqp hq hi hc => ?_) nofun
    fun x w e _ _ => ?_
  · exact (List.mem_cons.mp hm).resolve_left fun e' => he q r u e'.symm
  · have hx : x ≠ b := by
      rintro rfl
      exact hqp (h.toOwned.unique (b := x) (hq ▸ rfl) (hp ▸ rfl))
    simpa [BucketView.goto, BucketView.log, BucketView.onBucket, hx] using h.ready q x w hq hi hc
  · cases e
    trivial

theorem Fit.learn {r c : UInt64} (h : v.Fit cfg) (hp : v.phase p = .held b .open)
    (hK : Timely cfg v p c) (ho : ((v.learn r c b).goto p (.kept b none)).Owned) :
    ((v.learn r c b).goto p (.kept b none)).Fit cfg := by
  refine h.goto ho rfl rfl (fun q r u hm => .inl hm) (fun q x w hqp hq hi hc => ?_) nofun nofun
  have hknows := h.ready q x w hq hi hc
  change w.Knows v.now ((v.learn r c b).bucketAt x).readyAt
  simp only [BucketView.learn]
  split
  · exact hknows
  · rename_i ht
    by_cases hx : x = (v.table.plan r c b).target
    · -- the target is not the current bucket, so it stood under the canonical hash before
      have hl : v.table.buckets.lookup c = some x := by
        cases hl : v.table.buckets.lookup c with
        | none => exact (ht (by simp [RouteTable.plan, hl])).elim
        | some y => simp [hx, RouteTable.plan, hl]
      subst hx
      rw [Function.update_self, BucketState.merge, BucketState.blockUntil_readyAt]
      cases hw : w.queues with
      | false => exact WaitPhase.knows_of_not_queues hw hc
      | true => exact hknows.max (hK q b _ _ w hp hq hi hw hl)
    · rw [Function.update_of_ne hx]
      exact hknows

omit [DecidableEq π] in
theorem Fit.create {r : UInt64} {n : Nat} (h : v.Fit cfg) : (v.create r n).Fit cfg where
  toOwned := h.toOwned.create
  ordinary := h.ordinary
  ready q b w hq hi hc := by
    have hb : b ≠ v.fresh := (h.place q b (by rw [show v.phase q = .held b w from hq]; rfl)).ne
    simpa [BucketView.create, hb] using h.ready q b w hq hi hc
  grants := h.grants

theorem Fit.trip (h : v.Fit cfg) (hm : TripMoves cfg (Timely cfg) v p v') : v'.Fit cfg := by
  have ho := h.toOwned.trip hm
  cases hm with
  | stay he => exact h.stay he ho
  | begin | began | finish | aim | giveUp =>
    exact h.aside ho rfl rfl rfl (fun _ => rfl) nofun
  | create => exact h.create.aside ho rfl rfl rfl (fun _ => rfl) nofun
  | activate | deactivate | uncount =>
    exact h.aside ho rfl rfl rfl (fun x => (addActive_ready v _ _ x).1) nofun
  | touch | leave => exact h.aside ho rfl rfl rfl (readyAt_touch v _) nofun
  | @gate b _ _ g r =>
    exact h.aside ho rfl rfl rfl (fun x => (gate_ready v b g x).1) (by cases r <;> nofun)
  | @release b _ _ g => exact h.aside ho rfl rfl rfl (fun x => (gate_ready v b g x).1) nofun
  | recheck =>
    exact h.aside ho rfl rfl rfl (fun _ => rfl) fun x w e => held_open_of_rechecked e
  | recreate =>
    exact h.create.aside ho rfl rfl rfl (fun _ => rfl) fun x w e => held_open_of_rechecked e
  | read hp =>
    exact h.wait ho rfl rfl rfl (fun _ _ _ hm => .inl hm) nofun fun _ _ => .inr le_rfl
  | @pass b readyAt hp hle =>
    refine h.wait ho rfl rfl rfl (fun _ _ _ hm => .inl hm) (fun e => ?_) fun hi _ => ?_
    · split at e
      · cases e
      · exact Bool.eq_false_iff.mpr ‹_›
    · rw [hi]
      obtain hr | hr := h.ready p b _ hp hi nofun
      · exact hr
      · exact hr.trans hle
  | @grant b hp =>
    refine h.wait ho rfl rfl rfl (fun q r t hm => ?_) nofun fun _ hc => (hc rfl).elim
    obtain e | hm := List.mem_cons.mp hm
    · cases e
      exact .inr (h.ready p b _ hp (h.ordinary p b hp) nofun)
    · exact .inl hm
  | dispatch hp =>
    refine h.wait ho rfl rfl rfl (fun q r t hm => .inl ?_) nofun fun _ _ => trivial
    exact (List.mem_cons.mp hm).resolve_left nofun
  | block hp => exact h.block hp nofun ho
  | learn hp _ hK => exact h.learn hp hK ho

theorem Fit.step {l : Option π} (h : v.Fit cfg) (hm : Moves cfg (Timely cfg) v l v') :
    v'.Fit cfg := by
  have ho := h.toOwned.step hm
  cases hm with
  | tick d =>
    have hle : v.now ≤ v.now + d := by omega
    exact ⟨ho, h.ordinary, fun p b w hp hi hc => (h.ready p b w hp hi hc).mono hle, h.grants⟩
  | same => exact h
  | trip hm => exact h.trip hm
  | sweep hm => cases hm <;> exact ⟨ho, h.ordinary, h.ready, h.grants⟩
  | evict hm => cases hm <;> exact ⟨ho, h.ordinary, h.ready, h.grants⟩

end BucketView

namespace SchedulerRun

variable {π : Type u} [DecidableEq π] {cfg : SchedulerConfig π} {s : SchedulerRun π}

/-- No `learnBucket` raises, past the present, the cooldown of a bucket held by an ordinary request
that has read its cooldown and not yet obtained its pacer grant. -/
def NoLateMerge (cfg : SchedulerConfig π) : SchedulerRun π → SchedulerAction π → Prop :=
  Learns cfg (BucketView.Timely cfg)

theorem fit_of_reach (h : (system cfg).Reach (NoLateMerge cfg) s) : s.view.Fit cfg :=
  invariant_of_moves (fun now => ⟨start_owned cfg now, nofun, nofun, nofun⟩)
    (fun _ _ _ hv hm => hv.step hm) h

/-- Without such merges, the bucket of an ordinary request is not blocked at its pacer grant. -/
theorem granted_unblocked (cfg : SchedulerConfig π) (h : (system cfg).Reach (NoLateMerge cfg) s)
    (p : π) (readyAt t : Int) (hg : .grant p readyAt t ∈ s.events) : readyAt ≤ t :=
  (fit_of_reach h).grants p readyAt t hg

def unqueued [Fintype π] (s : SchedulerRun π) : SchedulerAction π → Bool
  | .trip p _ => match s.pc p with
    | .held _ (.learn _) => decide (∀ q, (s.pc q).phase.queues = false)
    | _ => true
  | _ => true

omit [DecidableEq π] in
theorem noLateMerge_of_unqueued [Fintype π] (s : SchedulerRun π) (a : SchedulerAction π)
    (h : unqueued s a = true) : NoLateMerge cfg s a := by
  intro p x held r ha hp _ q b b' w w' _ hq _ hw
  subst ha
  simp only [unqueued, hp, decide_eq_true_eq] at h
  have hf := h q
  rw [show (s.pc q).phase = .held b' w' from hq, BucketPhase.queues, hw] at hf
  cases hf

/-- Request 2 waits for what was merged before it read the cooldown. -/
theorem granted_unblocked_remapped :
    ∃ s : SchedulerRun (Fin 3), ∃ readyAt t, .grant 2 readyAt t ∈ s.events ∧
      0 < readyAt ∧ readyAt ≤ t := by
  have hrun : (((system (twoRoutes 3)).check unqueued).run (start (twoRoutes 3) 0) remapped).map
      (fun s => s.events) =
      some [.dispatch 2 1 10030000000, .grant 2 10030000000 10030000000, .block 1 10030000000,
        .dispatch 0 1 30000000, .grant 0 0 30000000, .dispatch 1 2 0, .grant 1 0 0] := by
    decide +kernel
  obtain ⟨s, hs, hev⟩ := Option.map_eq_some_iff.mp hrun
  have hreach : (system (twoRoutes 3)).Reach (NoLateMerge (twoRoutes 3)) s :=
    System.Reach.of_check noLateMerge_of_unqueued (System.Reachable.run (.init ⟨0, rfl⟩) hs)
  have hg : .grant 2 10030000000 10030000000 ∈ s.events := by simp [hev]
  exact ⟨s, _, _, hg, by decide, granted_unblocked (twoRoutes 3) hreach 2 _ _ hg⟩

open TripAction in
/-- Route 1 has learned the shared bucket and request 2 of it sleeps in the pacer, when the
response to request 1 of the other route blocks for ten seconds and learns the same bucket. -/
def lateMerge : List (SchedulerAction (Fin 3)) :=
  acts 0 (arrive ++ acquire false ++ proceed ++ pace ++ send ++ observe sharing ++ leave) ++
  [.tick 30000000] ++
  acts 1 (arrive ++ acquire false ++ proceed ++ pace ++ send) ++
  acts 2 (arrive ++ acquire true ++ proceed ++
    [.pacer (.gate .enter), .pacer (.gate .check), .pacer .check, .pacer .lock, .pacer .test]) ++
  acts 1 (observe limited ++ [.go, .go]) ++
  [.tick 30000000] ++
  acts 2 [.pacer .timer, .pacer .check, .pacer .lock]

/-- The grant comes 30 ms after the merge, and the bucket is blocked for ten seconds. -/
theorem granted_blocked :
    ∃ s : SchedulerRun (Fin 3), (system (twoRoutes 3)).Reachable s ∧
      ((twoRoutes 3).request 2).interaction = false ∧
      s.pc 2 = .held ⟨0, 0, false⟩ (.pacer (.unlock .granted)) ∧
      .grant 2 10030000000 60000000 ∈ s.events ∧
      (s.client.bucketAt 0).readyAt = 10030000000 ∧ s.now = 60000000 := by
  have hrun : ((system (twoRoutes 3)).run (start (twoRoutes 3) 0) lateMerge).map (fun s =>
      (s.pc 2, s.events.head?, (s.client.bucketAt 0).readyAt, s.now)) =
      some (.held ⟨0, 0, false⟩ (.pacer (.unlock .granted)),
        some (.grant 2 10030000000 60000000), 10030000000, 60000000) := by
    decide +kernel
  obtain ⟨s, hs, he⟩ := Option.map_eq_some_iff.mp hrun
  simp only [Prod.mk.injEq] at he
  obtain ⟨hpc, hev, hready, hnow⟩ := he
  exact ⟨s, System.Reachable.run (.init ⟨0, rfl⟩) hs, rfl, hpc, List.mem_of_head? hev, hready,
    hnow⟩

end SchedulerRun

end NirnProxy
