import Mathlib.Data.Fintype.Basic
import NirnProxy.Scheduler.Gates

/-! Buckets are owned exclusively, across every remap: while a request is between its
`acquireBucket` and its `learnBucket` or release, its route resolves to the bucket it holds. -/

universe u

namespace NirnProxy

open scoped Parties

def BucketPhase.keeps : BucketPhase → Option Nat
  | .held b _ | .kept b _ => some b
  | .out | .begun | .live _ | .active _ | .queued _ | .owner _ | .leaving _ _ | .releasing _ _ =>
    none

theorem BucketPhase.counted_of_keeps {φ : BucketPhase} {b : Nat} (h : φ.keeps = some b) :
    φ.counted = some b := by
  cases φ <;> cases h <;> rfl

namespace BucketView

variable {π : Type u}

structure Resolved (cfg : SchedulerConfig π) (v : BucketView π) : Prop extends v.Owned where
  aliases : ∀ r c, v.table.aliases.lookup r = some c → ∀ q, c ≠ (cfg.request q).routeHash
  resolved : ∀ p b w, v.phase p = .held b w →
    v.table.resolve (cfg.request p).routeHash = some b
  swept : ∀ now n hash left b, v.mu = .sweep now n (.lastUsed hash left) →
    v.table.buckets.lookup hash = some b → ∀ p, (v.phase p).keeps ≠ some b

def Apart (cfg : SchedulerConfig π) (_ : BucketView π) (_ : π) (c : UInt64) : Prop :=
  ∀ q, c ≠ (cfg.request q).routeHash

variable [DecidableEq π] {cfg : SchedulerConfig π} {v v' : BucketView π} {p q : π} {b : Nat}
  {w : WaitPhase} {φ : BucketPhase}

omit [DecidableEq π] in
theorem Resolved.eq_of_canonical {r : UInt64} (h : v.Resolved cfg)
    (hr : v.table.canonical r = (cfg.request p).routeHash) : r = (cfg.request p).routeHash := by
  unfold RouteTable.canonical at hr
  cases ha : v.table.aliases.lookup r with
  | none => simpa [ha] using hr
  | some c => exact (h.aliases r c ha p (by simpa [ha] using hr)).elim

omit [DecidableEq π] in
theorem Resolved.unique (h : v.Resolved cfg) {w' : WaitPhase} {c : Nat} (hp : v.phase p = .held b w)
    (hq : v.phase q = .held c w')
    (hr : v.table.canonical (cfg.request p).routeHash =
      v.table.canonical (cfg.request q).routeHash) : p = q := by
  have hb := h.resolved p b w hp
  have hc := h.resolved q c w' hq
  unfold RouteTable.resolve at hb hc
  rw [hr, hc] at hb
  cases hb
  exact h.toOwned.unique (b := b) (hp ▸ rfl) (hq ▸ rfl)

omit [DecidableEq π] in
theorem Resolved.route_ne (h : v.Resolved cfg) {w' : WaitPhase} {c : Nat}
    (hp : v.phase p = .held b w) (hq : v.phase q = .held c w') (hne : q ≠ p) :
    (cfg.request q).routeHash ≠ (cfg.request p).routeHash :=
  fun e => hne (h.unique hq hp (congrArg v.table.canonical e))

theorem Resolved.goto (h : v.Resolved cfg) (ho : v'.Owned) (ht : v'.table = v.table)
    (hmu : v'.mu = v.mu) (hphase : v'.phase = Function.update v.phase p φ)
    (hr : ∀ b w, φ = .held b w → v.table.resolve (cfg.request p).routeHash = some b)
    (hk : ∀ b, φ.keeps = some b → (v.phase p).keeps = some b ∨ v.mu = .free) :
    v'.Resolved cfg where
  toOwned := ho
  aliases := by
    rw [ht]
    exact h.aliases
  resolved q b w hq := by
    rw [hphase] at hq
    rw [ht]
    by_cases hqp : q = p
    · subst hqp
      exact hr b w (by simpa using hq)
    · exact h.resolved q b w (by simpa [hqp] using hq)
  swept now n hash left b hs hl q hq := by
    rw [hmu] at hs
    rw [ht] at hl
    rw [hphase] at hq
    by_cases hqp : q = p
    · subst hqp
      obtain hold | hfree := hk b (by simpa using hq)
      · exact h.swept now n hash left b hs hl q hold
      · rw [hs] at hfree
        cases hfree
    · exact h.swept now n hash left b hs hl q (by simpa [hqp] using hq)

omit [DecidableEq π] in
theorem Resolved.create {r : UInt64} {n : Nat} (h : v.Resolved cfg) (hmu : v.mu = .free)
    (hr : v.table.resolve r = none) : (v.create r n).Resolved cfg where
  toOwned := h.toOwned.create
  aliases := h.aliases
  resolved p b w hp := by
    have hb := h.resolved p b w hp
    have hne : v.table.canonical (cfg.request p).routeHash ≠ v.table.canonical r := by
      intro e
      unfold RouteTable.resolve at hb hr
      rw [e, hr] at hb
      cases hb
    change (v.table.create r v.fresh).resolve _ = some b
    rw [RouteTable.resolve_create, if_neg hne]
    exact hb
  swept now n hash left b hs := by
    change v.mu = _ at hs
    rw [hmu] at hs
    cases hs

omit [DecidableEq π] in
theorem Resolved.resolve_learn {c : UInt64} {x : Nat} {r : UInt64} (h : v.Resolved cfg)
    (hx : v.table.resolve r = some x) (hne : r ≠ (cfg.request p).routeHash) :
    (v.learn (cfg.request p).routeHash c b).table.resolve r = some x := by
  have hroute : v.table.canonical r ≠ (cfg.request p).routeHash :=
    fun e => hne (h.eq_of_canonical e)
  change (v.table.publish _).resolve r = some x
  rw [RouteTable.resolve, RouteTable.canonical_publish, if_neg hne, RouteTable.lookup_publish,
    if_neg fun hd => hroute hd.2]
  unfold RouteTable.resolve at hx
  split
  · rename_i hcanonical
    rw [hcanonical] at hx
    simp [RouteTable.plan, hx]
  · exact hx

theorem Resolved.learn {c : UInt64} (h : v.Resolved cfg) (hp : v.phase p = .held b w)
    (hmu : v.mu = .free) (hc : ∀ q, c ≠ (cfg.request q).routeHash)
    (ho : ((v.learn (cfg.request p).routeHash c b).goto p (.kept b none)).Owned) :
    ((v.learn (cfg.request p).routeHash c b).goto p (.kept b none)).Resolved cfg where
  toOwned := ho
  aliases r k hk := by
    change (v.table.aliases.insert (cfg.request p).routeHash c).lookup r = some k at hk
    by_cases hr : r = (cfg.request p).routeHash
    · subst hr
      rw [AList.lookup_insert] at hk
      cases hk
      exact hc
    · rw [AList.lookup_insert_ne hr] at hk
      exact h.aliases r k hk
  resolved q x w' hq := by
    by_cases hqp : q = p
    · simp [BucketView.goto, hqp] at hq
    · replace hq : v.phase q = .held x w' := by
        simpa [BucketView.goto, BucketView.learn, hqp] using hq
      exact h.resolve_learn (h.resolved q x w' hq) (h.route_ne hp hq hqp)
  swept now n hash left b hs := by
    change v.mu = _ at hs
    rw [hmu] at hs
    cases hs

theorem held_of_rechecked {target c : Nat} (h : recheckedPhase b target = .held c w) :
    c = b ∧ target = b := by
  unfold recheckedPhase at h
  split at h <;> cases h
  exact ⟨rfl, ‹_›⟩

theorem Resolved.trip (h : v.Resolved cfg) (hm : TripMoves cfg (Apart cfg) v p v') :
    v'.Resolved cfg := by
  have ho := h.toOwned.trip hm
  cases hm with
  | stay he =>
    generalize hp : v.phase p = ψ at he
    cases he with
    | refl =>
      exact h.goto ho rfl rfl rfl (fun b w e => h.resolved p b w (hp.trans e))
        fun b e => .inl (hp ▸ e)
    | drop b w =>
      refine h.goto ho rfl rfl rfl (fun c w' e => ?_) fun c e => .inl (hp ▸ e)
      cases e
      exact h.resolved p b w hp
    | keep b => exact h.goto ho rfl rfl rfl nofun fun c e => .inl (hp ▸ e)
  | begin | began | finish | aim | activate | touch | deactivate | uncount | release | leave =>
    exact h.goto ho rfl rfl rfl nofun nofun
  | create hp hmu hr => exact (h.create hmu hr).goto ho rfl rfl rfl nofun nofun
  | @gate b _ _ _ r => exact h.goto ho rfl rfl rfl (by cases r <;> nofun) (by cases r <;> nofun)
  | recheck hp hmu hr =>
    refine h.goto ho rfl rfl rfl (fun c w e => ?_) fun c e => .inr hmu
    obtain ⟨rfl, rfl⟩ := held_of_rechecked e
    exact hr
  | @recreate b n hp hmu hr =>
    refine (h.create hmu hr).goto ho rfl rfl rfl (fun c w e => ?_) fun c e => .inr hmu
    obtain ⟨rfl, hb⟩ := held_of_rechecked e
    exact absurd (h.place p c (hp ▸ rfl)) (by omega)
  | giveUp hp hmu => exact h.goto ho rfl rfl rfl nofun fun c e => .inr hmu
  | read hp | pass hp | grant hp | dispatch hp | block hp =>
    refine h.goto ho rfl rfl rfl (fun c w e => ?_) fun c e => .inl (hp ▸ e)
    cases e
    exact h.resolved p _ _ hp
  | learn hp hmu hc => exact h.learn hp hmu hc ho

omit [DecidableEq π] in
theorem Resolved.sweep (h : v.Resolved cfg) (hm : SweepMoves v v') : v'.Resolved cfg := by
  have ho := h.toOwned.sweep hm
  cases hm with
  | start | next | skip | unblocked =>
    exact ⟨ho, h.aliases, h.resolved, fun _ _ _ _ _ h => by cases h⟩
  | inactive hmu hl ha =>
    refine ⟨ho, h.aliases, h.resolved, fun now n hash left b hs hb p hp => ?_⟩
    cases hs
    rw [hl] at hb
    cases hb
    have hpos := (h.counts _).pos (BucketPhase.counted_of_keeps hp)
    omega
  | delete hmu hl =>
    refine ⟨ho, h.aliases, fun p b w hp => ?_, fun _ _ _ _ _ hs => by cases hs⟩
    have hb := h.resolved p b w hp
    rw [RouteTable.resolve, RouteTable.canonical_eraseBucket, RouteTable.lookup_eraseBucket]
    rw [RouteTable.resolve] at hb
    split
    · rename_i hk
      rw [hk] at hb
      exact (h.swept _ _ _ _ b hmu hb p (hp ▸ rfl)).elim
    · exact hb
  | finish =>
    refine ⟨ho, fun r c hc => ?_, fun p b w hp => ?_, fun _ _ _ _ _ h => by cases h⟩
    · rw [RouteTable.aliases_eraseOrphans] at hc
      split at hc
      · cases hc
      · exact h.aliases r c hc
    · exact RouteTable.resolve_eraseOrphans (h.resolved p b w hp)

omit [DecidableEq π] in
theorem Resolved.evict (h : v.Resolved cfg) (hm : EvictMoves v v') : v'.Resolved cfg := by
  have ho := h.toOwned.evict hm
  cases hm with
  | clear hc hmu =>
    refine ⟨ho, nofun, fun p b w hp => ?_, fun now n hash left b hs => ?_⟩
    · have hlive := h.quiet (hc ▸ rfl) p
      rw [hp] at hlive
      cases hlive
    · rw [hmu] at hs
      cases hs
  | _ => exact ⟨ho, h.aliases, h.resolved, h.swept⟩

theorem Resolved.step {l : Option π} (h : v.Resolved cfg) (hm : Moves cfg (Apart cfg) v l v') :
    v'.Resolved cfg := by
  have ho := h.toOwned.step hm
  cases hm with
  | tick => exact ⟨ho, h.aliases, h.resolved, h.swept⟩
  | same => exact h
  | trip hm => exact h.trip hm
  | sweep hm => exact h.sweep hm
  | evict hm => exact h.evict hm

theorem TripMoves.phase_ne {K : BucketView π → π → UInt64 → Prop} (hm : TripMoves cfg K v q v')
    (hp : p ≠ q) : v'.phase p = v.phase p := by
  cases hm <;> exact Function.update_of_ne hp _ _

/-- Nobody but `p` itself changes where its route leads while it holds its bucket. -/
theorem Resolved.canonical_step {l : Option π} (h : v.Resolved cfg) (hp : v.phase p = .held b w)
    (hm : Moves cfg (Apart cfg) v l v') (hl : l ≠ some p) :
    v'.phase p = v.phase p ∧ v'.table.canonical (cfg.request p).routeHash =
      v.table.canonical (cfg.request p).routeHash := by
  cases hm with
  | tick | same => exact ⟨rfl, rfl⟩
  | @trip q _ hm =>
    have hne : p ≠ q := fun e => hl (e ▸ rfl)
    refine ⟨hm.phase_ne hne, ?_⟩
    cases hm with
    | learn hq => exact RouteTable.canonical_publish.trans (if_neg (h.route_ne hq hp hne))
    | _ => rfl
  | sweep hm =>
    cases hm with
    | finish => exact ⟨rfl, RouteTable.canonical_eraseOrphans (h.resolved p b w hp)⟩
    | _ => exact ⟨rfl, rfl⟩
  | evict hm =>
    cases hm with
    | clear hc =>
      have hlive := h.quiet (hc ▸ rfl) p
      rw [hp] at hlive
      cases hlive
    | _ => exact ⟨rfl, rfl⟩

end BucketView

namespace SchedulerRun

variable {π : Type u}

/-- No step learns a canonical hash that is also the hash of a route. -/
def NoCollision (cfg : SchedulerConfig π) : SchedulerRun π → SchedulerAction π → Prop :=
  Learns cfg (BucketView.Apart cfg)

/-- `p` is between an `acquireBucket` that returned `b` and its `learnBucket` or release. -/
def Holds (s : SchedulerRun π) (p : π) (b : Nat) : Prop :=
  ∃ h pc, s.pc p = .held h pc ∧ h.bucket = b

variable {cfg : SchedulerConfig π} {s t : SchedulerRun π} {p q : π} {b c : Nat}

theorem holds_iff : s.Holds p b ↔ ∃ w, s.view.phase p = .held b w := by
  constructor
  · rintro ⟨h, pc, hp, rfl⟩
    exact ⟨pc.waits, congrArg TripPc.phase hp⟩
  · rintro ⟨w, hw⟩
    change (s.pc p).phase = _ at hw
    cases hp : s.pc p with
    | held h pc =>
      rw [hp] at hw
      cases hw
      exact ⟨h, pc, hp, rfl⟩
    | acquire n pc =>
      rw [hp] at hw
      cases pc <;> cases hw
    | release x pc k =>
      rw [hp] at hw
      cases pc <;> cases hw
    | _ =>
      rw [hp] at hw
      cases hw

variable [DecidableEq π]

theorem resolved_of_reach (h : (system cfg).Reach (NoCollision cfg) s) : s.view.Resolved cfg :=
  invariant_of_moves (fun now => ⟨start_owned cfg now, nofun, nofun, nofun⟩)
    (fun _ _ _ hv hm => hv.step hm) h

/-- In the interval between an `acquireBucket` that returned `b` and the `learnBucket` or release
that ends it, a request has the gate of `b` alone and its route resolves to `b`.  So no two
requests of one route, nor of two routes with one canonical hash, are in their intervals at once,
and no step of anyone else changes what the route resolves to. -/
theorem bucket_ownership (cfg : SchedulerConfig π)
    (h : (system cfg).Reach (NoCollision cfg) s) :
    (∀ p b, s.Holds p b →
      (s.client.bucketAt b).gate.call p = .owner ∧
      (∀ q, (s.client.bucketAt b).gate.holds q = true → q = p) ∧
      s.client.table.resolve (cfg.request p).routeHash = some b) ∧
    (∀ p q b c, s.Holds p b → s.Holds q c →
      (cfg.request p).routeHash = (cfg.request q).routeHash → p = q) ∧
    (∀ p b a t, s.Holds p b → NoCollision cfg s a → s.step cfg a = some t → a.mover ≠ some p →
      t.Holds p b ∧
      t.client.table.canonical (cfg.request p).routeHash =
        s.client.table.canonical (cfg.request p).routeHash ∧
      t.client.table.resolve (cfg.request p).routeHash =
        s.client.table.resolve (cfg.request p).routeHash) ∧
    (∀ p q b c k, s.Holds p b → s.Holds q c →
      s.client.table.aliases.lookup (cfg.request p).routeHash = some k →
      s.client.table.aliases.lookup (cfg.request q).routeHash = some k → p = q) := by
  have hr := resolved_of_reach h
  refine ⟨fun p b hp => ?_, fun p q b c hp hq e => ?_, fun p b a t hp hK hs ha => ?_,
    fun p q b c k hp hq hk hk' => ?_⟩
  · obtain ⟨w, hw⟩ := holds_iff.mp hp
    have howned : (s.view.phase p).owned = some b := hw ▸ rfl
    exact ⟨hr.call howned, fun q hq => (hr.wf b).unique q p hq (hr.holds howned),
      hr.resolved p b w hw⟩
  · obtain ⟨w, hw⟩ := holds_iff.mp hp
    obtain ⟨w', hw'⟩ := holds_iff.mp hq
    exact hr.unique hw hw' (congrArg _ e)
  · obtain ⟨w, hw⟩ := holds_iff.mp hp
    have hm := step_moves hK hs
    obtain ⟨hphase, hcanonical⟩ := hr.canonical_step hw hm ha
    have hw' : t.view.phase p = .held b w := hphase.trans hw
    exact ⟨holds_iff.mpr ⟨w, hw'⟩, hcanonical,
      ((hr.step hm).resolved p b w hw').trans (hr.resolved p b w hw).symm⟩
  · obtain ⟨w, hw⟩ := holds_iff.mp hp
    obtain ⟨w', hw'⟩ := holds_iff.mp hq
    refine hr.unique hw hw' ?_
    change s.client.table.canonical _ = s.client.table.canonical _
    simp [RouteTable.canonical, hk, hk']

def apart [Fintype π] (cfg : SchedulerConfig π) (s : SchedulerRun π) : SchedulerAction π → Bool
  | .trip p _ => match s.pc p with
    | .held _ (.learn r) =>
      decide (∀ q, canonicalHash r.info.bucket (cfg.request p).majorKey ≠
        (cfg.request q).routeHash)
    | _ => true
  | _ => true

omit [DecidableEq π] in
theorem noCollision_of_apart [Fintype π] (s : SchedulerRun π) (a : SchedulerAction π)
    (h : apart cfg s a = true) : NoCollision cfg s a := by
  intro p x held r ha hp _
  subst ha
  simp only [apart, hp, decide_eq_true_eq] at h
  exact h

end SchedulerRun

namespace TripAction

def arrive : List TripAction := [.go, .go, .oracle true]

def acquire (known : Bool) : List TripAction :=
  (if known then [.go] else [.go, .go]) ++ [.go, .go, .gate .enter, .gate .check, .go]

def proceed : List TripAction := [.go, .go, .oracle true, .go, .go, .go, .go, .go]

def pace : List TripAction :=
  [.pacer (.gate .enter), .pacer (.gate .check), .pacer .check, .pacer .lock,
    .pacer (.gate .release)]

def send : List TripAction := [.oracle true, .oracle true, .go]

def observe (r : Response) : List TripAction := [.respond (some r), .go, .go, .go]

def leave : List TripAction := [.go, .go, .go, .go, .go, .go, .go, .go]

def acts {π : Type u} (p : π) (trip : List TripAction) : List (SchedulerAction π) :=
  trip.map (.trip p)

end TripAction

namespace SchedulerRun

def twoRoutes (n : Nat) : SchedulerConfig (Fin n) where
  request p := ⟨if p.val % 2 = 1 then 2 else 1, [], false⟩
  kind := .none
  globalLimit := 50
  maxQueueDepth := 4
  maxBucketStates := 8
  queueTimeout := 10 * Duration.minute
  upstreamTimeout := Duration.second
  disable401Lock := false

def sharing : Response := ⟨200, ⟨[7], 1, 0, false⟩, false⟩

open TripAction in
/-- Requests 0 and 1 learn that both routes share a bucket, 2 acquires it and 3 queues for it. -/
def shared : List (SchedulerAction (Fin 4)) :=
  acts 0 (arrive ++ acquire false ++ proceed ++ pace ++ send ++ observe sharing ++ leave) ++
  [.tick 30000000] ++
  acts 1 (arrive ++ acquire false ++ proceed ++ pace ++ send ++ observe sharing ++ leave) ++
  acts 2 (arrive ++ acquire true) ++
  acts 3 (arrive ++ [.go, .go, .go, .gate .enter])

/-- Two routes whose aliases name one bucket: request 2 has it, and request 3 does not. -/
theorem bucket_ownership_shared :
    ∃ s : SchedulerRun (Fin 4), s.Holds 2 0 ∧ s.pc 3 = .acquire 0 (.gate 0) ∧
      s.client.table.aliases.lookup 1 = s.client.table.aliases.lookup 2 ∧
      s.client.table.resolve 1 = some 0 ∧ (s.client.bucketAt 0).gate.holds 3 = false := by
  have hrun : (((system (twoRoutes 4)).check (apart (twoRoutes 4))).run (start (twoRoutes 4) 0)
      shared).map (fun s => (s.pc 2, s.pc 3, s.client.table.aliases.lookup 1,
        s.client.table.aliases.lookup 2)) =
      some (.held ⟨0, 0, false⟩ .validity, .acquire 0 (.gate 0),
        some (canonicalHash [7] []), some (canonicalHash [7] [])) := by
    decide +kernel
  obtain ⟨s, hs, he⟩ := Option.map_eq_some_iff.mp hrun
  simp only [Prod.mk.injEq] at he
  obtain ⟨h2, h3, ha, hb⟩ := he
  have hreach : (system (twoRoutes 4)).Reach (NoCollision (twoRoutes 4)) s :=
    System.Reach.of_check noCollision_of_apart (System.Reachable.run (.init ⟨0, rfl⟩) hs)
  have hholds : s.Holds 2 0 := ⟨_, _, h2, rfl⟩
  obtain ⟨-, hgate, hresolve⟩ := (bucket_ownership (twoRoutes 4) hreach).1 2 0 hholds
  refine ⟨s, hholds, h3, ha.trans hb.symm, hresolve, ?_⟩
  by_contra hg
  exact absurd (hgate 3 (by simpa using hg)) (by decide)

end SchedulerRun

end NirnProxy
