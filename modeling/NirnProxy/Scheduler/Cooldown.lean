import NirnProxy.Scheduler.Ownership

/-! A cooldown is never forgotten for a route: a bucket that still blocks is neither swept nor
evicted, and what replaces it for the route is blocked as long. -/

universe u

namespace NirnProxy

open scoped Parties

def WaitPhase.Knows (now t : Int) : WaitPhase → Prop
  | .open => True
  | .reading readyAt => t ≤ now ∨ t ≤ readyAt
  | .pacing | .cleared => t ≤ now

theorem WaitPhase.Knows.mono {now now' t : Int} {w : WaitPhase} (h : w.Knows now t)
    (hn : now ≤ now') : w.Knows now' t := by
  cases w with
  | «open» => trivial
  | reading readyAt => exact h.imp_left fun ht => ht.trans hn
  | pacing => exact le_trans h hn
  | cleared => exact le_trans h hn

def SweepPc.looking : SweepPc → Option UInt64
  | .active hash _ | .lastUsed hash _ => some hash
  | .next _ | .blocked _ _ => none

namespace TableMu

variable {π : Type u}

def since : TableMu π → Option Int
  | .idle now _ | .chosen now => some now
  | .free | .begin _ => none

def Unread : TableMu π → UInt64 → Prop
  | .idle _ (.buckets left), hash => hash ∈ left
  | .idle _ (.blocked read left), hash => hash = read ∨ hash ∈ left
  | .chosen _, _ => False
  | _, _ => True

theorem unread_of_not_quiet {mu : TableMu π} {hash : UInt64} (h : mu.quiet = false) :
    mu.Unread hash := by
  cases mu with
  | idle now pc =>
    cases pc with
    | global => trivial
    | active => trivial
    | _ => cases h
  | chosen now => cases h
  | free => trivial
  | begin p => trivial

end TableMu

namespace TripEvent

variable {π : Type u}

/-- A later dispatch of a route respects the cooldown of an earlier block of that route. -/
def Respects : TripEvent π → TripEvent π → Prop
  | .dispatch _ r d, .block r' t => r = r' → t ≤ d
  | _, _ => True

end TripEvent

namespace BucketView

variable {π : Type u}

structure Cooled (cfg : SchedulerConfig π) (v : BucketView π) : Prop extends v.Resolved cfg where
  blocks : ∀ r t, .block r t ∈ v.events →
    t ≤ v.now ∨ ∃ b, v.table.resolve r = some b ∧ t ≤ (v.bucketAt b).readyAt
  waited : ∀ p b w, v.phase p = .held b w → ∀ t, .block (cfg.request p).routeHash t ∈ v.events →
    w.Knows v.now t
  order : v.events.Pairwise TripEvent.Respects
  sweeping : ∀ now n pc, v.mu = .sweep now n pc → now ≤ v.now ∧
    ∀ hash b, pc.looking = some hash → v.table.buckets.lookup hash = some b →
      (v.bucketAt b).readyAt ≤ now ∨ now ≤ (v.bucketAt b).lastUsed ∨
        ∃ p, (v.phase p).keeps = some b
  searching : ∀ now, v.tableMu.since = some now → now ≤ v.now ∧
    ∀ hash b, v.table.buckets.lookup hash = some b →
      v.tableMu.Unread hash ∨ (v.bucketAt b).readyAt ≤ now

variable [DecidableEq π] {cfg : SchedulerConfig π} {v v' : BucketView π} {p q : π} {b : Nat}
  {w : WaitPhase} {φ : BucketPhase}

theorem Cooled.goto (h : v.Cooled cfg) (hr : v'.Resolved cfg) (hnow : v'.now = v.now)
    (ht : v'.table = v.table) (hmu : v'.mu = v.mu)
    (hphase : v'.phase = Function.update v.phase p φ) (hev : v'.events = v.events)
    (hready : ∀ b, (v'.bucketAt b).readyAt = (v.bucketAt b).readyAt)
    (hlast : ∀ b, (v'.bucketAt b).lastUsed = (v.bucketAt b).lastUsed ∨
      (v'.bucketAt b).lastUsed = v.now)
    (hkeep : ∀ b, (v.phase p).keeps = some b → φ.keeps = some b ∨
      (v'.bucketAt b).lastUsed = v.now)
    (hw : ∀ b w, φ = .held b w → ∀ t, .block (cfg.request p).routeHash t ∈ v.events →
      w.Knows v.now t)
    (hmu' : v'.tableMu = v.tableMu ∨ v'.tableMu.since = none) : v'.Cooled cfg where
  toResolved := hr
  blocks := by
    rw [hev, hnow, ht]
    simp only [hready]
    exact h.blocks
  waited q b w hq := by
    rw [hphase] at hq
    rw [hev, hnow]
    by_cases hqp : q = p
    · subst hqp
      exact hw b w (by simpa using hq)
    · exact h.waited q b w (by simpa [hqp] using hq)
  order := by
    rw [hev]
    exact h.order
  sweeping now n pc hs := by
    rw [hmu] at hs
    obtain ⟨hle, hlook⟩ := h.sweeping now n pc hs
    rw [hnow, ht]
    refine ⟨hle, fun hash b hl hb => ?_⟩
    rw [hready, hphase]
    obtain hd | hd | ⟨q, hq⟩ := hlook hash b hl hb
    · exact .inl hd
    · refine .inr (.inl ?_)
      obtain e | e := hlast b
      · rw [e]
        exact hd
      · rw [e]
        exact hle
    · by_cases hqp : q = p
      · subst hqp
        obtain e | e := hkeep b hq
        · exact .inr (.inr ⟨q, by simpa using e⟩)
        · refine .inr (.inl ?_)
          rw [e]
          exact hle
      · exact .inr (.inr ⟨q, by simpa [hqp] using hq⟩)
  searching now hs := by
    obtain e | e := hmu'
    · rw [e] at hs ⊢
      rw [hnow, ht]
      simp only [hready]
      exact h.searching now hs
    · rw [e] at hs
      cases hs

omit [DecidableEq π] in
theorem Owned.unread (h : v.Owned) (hp : (v.phase p).isLive = true) (hash : UInt64) :
    v.tableMu.Unread hash :=
  TableMu.unread_of_not_quiet (h.not_quiet hp)

omit [DecidableEq π] in
theorem Cooled.create {r : UInt64} {n : Nat} (h : v.Cooled cfg) (hmu : v.mu = .free)
    (hr : v.table.resolve r = none) (hp : (v.phase p).isLive = true) :
    (v.create r n).Cooled cfg where
  toResolved := h.toResolved.create hmu hr
  blocks r' t ht := by
    obtain hle | ⟨b, hb, hle⟩ := h.blocks r' t ht
    · exact .inl hle
    · have hne : v.table.canonical r' ≠ v.table.canonical r := by
        intro e
        unfold RouteTable.resolve at hb hr
        rw [e, hr] at hb
        cases hb
      have hfresh : b ≠ v.fresh := (h.table _ b hb).ne
      refine .inr ⟨b, RouteTable.resolve_create.trans ((if_neg hne).trans hb), ?_⟩
      simpa [BucketView.create, hfresh] using hle
  waited := h.waited
  order := h.order
  sweeping now n pc hs := by
    change v.mu = _ at hs
    rw [hmu] at hs
    cases hs
  searching now hs :=
    ⟨(h.searching now hs).1, fun hash _ _ => .inl (h.toOwned.unread hp hash)⟩

omit [DecidableEq π] in
theorem readyAt_le_learn (v : BucketView π) (r c : UInt64) (b x : Nat) :
    (v.bucketAt x).readyAt ≤ ((v.learn r c b).bucketAt x).readyAt := by
  obtain hx | hx := learn_bucketAt v r c b x
  · rw [hx]
  · rw [hx, BucketState.merge, BucketState.blockUntil_readyAt]
    exact le_max_left _ _

omit [DecidableEq π] in
theorem readyAt_le_target (v : BucketView π) (r c : UInt64) (b : Nat) :
    (v.bucketAt b).readyAt ≤
      ((v.learn r c b).bucketAt (v.table.plan r c b).target).readyAt := by
  simp only [BucketView.learn]
  split
  · rename_i ht
    rw [ht]
  · rw [Function.update_self, BucketState.merge, BucketState.blockUntil_readyAt]
    exact le_max_right _ _

omit [DecidableEq π] in
theorem resolve_learn_self {r c : UInt64} (hne : c ≠ r) :
    (v.learn r c b).table.resolve r = some (v.table.plan r c b).target := by
  change (v.table.publish _).resolve r = _
  rw [RouteTable.resolve, RouteTable.canonical_publish, if_pos rfl, RouteTable.lookup_publish,
    if_neg fun hd => hne hd.2, if_pos rfl]

theorem Cooled.learn {c : UInt64} (h : v.Cooled cfg) (hp : v.phase p = .held b w)
    (hmu : v.mu = .free) (hc : ∀ q, c ≠ (cfg.request q).routeHash)
    (hr : ((v.learn (cfg.request p).routeHash c b).goto p (.kept b none)).Resolved cfg) :
    ((v.learn (cfg.request p).routeHash c b).goto p (.kept b none)).Cooled cfg where
  toResolved := hr
  blocks r t ht := by
    obtain hle | ⟨x, hx, hle⟩ := h.blocks r t ht
    · exact .inl hle
    · refine .inr ?_
      by_cases hroute : r = (cfg.request p).routeHash
      · subst hroute
        rw [h.resolved p b w hp] at hx
        cases hx
        exact ⟨_, resolve_learn_self (hc p), hle.trans (readyAt_le_target v _ _ _)⟩
      · exact ⟨x, h.resolve_learn hx hroute, hle.trans (readyAt_le_learn v _ _ _ _)⟩
  waited q x w' hq := by
    by_cases hqp : q = p
    · simp [BucketView.goto, hqp] at hq
    · exact h.waited q x w' (by simpa [BucketView.goto, BucketView.learn, hqp] using hq)
  order := h.order
  sweeping now n pc hs := by
    change v.mu = _ at hs
    rw [hmu] at hs
    cases hs
  searching now hs :=
    ⟨(h.searching now hs).1, fun hash _ _ => .inl (h.toOwned.unread (p := p) (hp ▸ rfl) hash)⟩

omit [DecidableEq π] in
theorem readyAt_le_block (v : BucketView π) (b x : Nat) (t : Int) :
    (v.bucketAt x).readyAt ≤ ((v.onBucket b (·.blockUntil t)).bucketAt x).readyAt := by
  by_cases hx : x = b
  · subst hx
    simp only [BucketView.onBucket, Function.update_self, BucketState.blockUntil_readyAt]
    exact le_max_left _ _
  · simp [BucketView.onBucket, hx]

/-- A response blocks the bucket that its request holds, and to which its route resolves. -/
theorem Cooled.block {t : Int} (h : v.Cooled cfg) (hp : v.phase p = .held b .open)
    (hr : (((v.onBucket b (·.blockUntil t)).log (.block (cfg.request p).routeHash t)).goto p
      (.held b .open)).Resolved cfg) :
    (((v.onBucket b (·.blockUntil t)).log (.block (cfg.request p).routeHash t)).goto p
      (.held b .open)).Cooled cfg where
  toResolved := hr
  blocks r u hu := by
    obtain e | hu := List.mem_cons.mp hu
    · cases e
      refine .inr ⟨b, h.resolved p b _ hp, ?_⟩
      simp only [BucketView.goto, BucketView.log, BucketView.onBucket, Function.update_self,
        BucketState.blockUntil_readyAt]
      exact le_max_right _ _
    · obtain hle | ⟨x, hx, hle⟩ := h.blocks r u hu
      · exact .inl hle
      · exact .inr ⟨x, hx, hle.trans (readyAt_le_block v b x t)⟩
  waited q x w hq u hu := by
    by_cases hqp : q = p
    · subst hqp
      simp only [BucketView.goto, Function.update_self] at hq
      cases hq
      trivial
    · replace hq : v.phase q = .held x w := by
        simpa [BucketView.goto, BucketView.log, BucketView.onBucket, hqp] using hq
      obtain e | hu := List.mem_cons.mp hu
      · injection e with e
        exact (h.route_ne hp hq hqp e).elim
      · exact h.waited q x w hq u hu
  order := List.pairwise_cons.mpr ⟨fun _ _ => trivial, h.order⟩
  sweeping now n pc hs := by
    obtain ⟨hle, hlook⟩ := h.sweeping now n pc hs
    refine ⟨hle, fun hash x hl hx => ?_⟩
    by_cases hxb : x = b
    · subst hxb
      exact .inr (.inr ⟨p, by simp [BucketView.goto, BucketPhase.keeps]⟩)
    · obtain hd | hd | ⟨q, hq⟩ := hlook hash x hl hx
      · exact .inl (by simpa [BucketView.goto, BucketView.log, BucketView.onBucket, hxb] using hd)
      · exact .inr (.inl
          (by simpa [BucketView.goto, BucketView.log, BucketView.onBucket, hxb] using hd))
      · have hqp : q ≠ p := by
          rintro rfl
          rw [hp] at hq
          exact hxb (Option.some.inj hq).symm
        exact .inr (.inr ⟨q, by simpa [BucketView.goto, BucketView.log, BucketView.onBucket, hqp]
          using hq⟩)
  searching now hs :=
    ⟨(h.searching now hs).1, fun hash _ _ => .inl (h.toOwned.unread (p := p) (hp ▸ rfl) hash)⟩

theorem Cooled.logged {e : TripEvent π} {w' : WaitPhase} (h : v.Cooled cfg)
    (hp : v.phase p = .held b w) (hr : ((v.log e).goto p (.held b w')).Resolved cfg)
    (he : ∀ r t, e ≠ .block r t) (ho : ∀ x ∈ v.events, e.Respects x)
    (hw : ∀ t, .block (cfg.request p).routeHash t ∈ v.events → w'.Knows v.now t) :
    ((v.log e).goto p (.held b w')).Cooled cfg := by
  have hmem : ∀ r t, .block r t ∈ (v.log e).events → .block r t ∈ v.events := fun r t ht =>
    (List.mem_cons.mp ht).resolve_left fun e => he r t e.symm
  have hg : (v.goto p (.held b w')).Cooled cfg := by
    refine h.goto ?_ rfl rfl rfl rfl rfl (fun _ => rfl) (fun _ => .inl rfl)
      (fun x hx => .inl (by rw [hp] at hx; exact hx)) ?_ (.inl rfl)
    · exact ⟨⟨hr.wf, hr.stands, hr.counts, hr.place, hr.aim, hr.table, hr.live, hr.begun, hr.quiet⟩,
        hr.aliases, hr.resolved, hr.swept⟩
    · intro x w'' e
      cases e
      exact hw
  exact ⟨hr, fun r t ht => hg.blocks r t (hmem r t ht),
    fun q x w'' hq t ht => hg.waited q x w'' hq t (hmem _ t ht),
    List.pairwise_cons.mpr ⟨ho, h.order⟩, hg.sweeping, hg.searching⟩

omit [DecidableEq π] in
theorem lastUsed_touch (v : BucketView π) (b x : Nat) :
    ((v.onBucket b (.touch v.now)).bucketAt x).lastUsed = (v.bucketAt x).lastUsed ∨
      ((v.onBucket b (.touch v.now)).bucketAt x).lastUsed = v.now := by
  by_cases hx : x = b
  · subst hx
    exact .inr (by simp [BucketView.onBucket, BucketState.touch])
  · exact .inl (by simp [BucketView.onBucket, hx])

omit [DecidableEq π] in
theorem onBucket_apply {α : Type} (f : BucketState π → BucketState π) (g : BucketState π → α)
    (hg : ∀ x, g (f x) = g x) (v : BucketView π) (b x : Nat) :
    g ((v.onBucket b f).bucketAt x) = g (v.bucketAt x) := by
  by_cases hx : x = b
  · subst hx
    simp [BucketView.onBucket, hg]
  · simp [BucketView.onBucket, hx]

omit [DecidableEq π] in
theorem readyAt_touch (v : BucketView π) (b x : Nat) :
    ((v.onBucket b (.touch v.now)).bucketAt x).readyAt = (v.bucketAt x).readyAt :=
  onBucket_apply (.touch v.now) BucketState.readyAt (fun _ => rfl) v b x

theorem Cooled.aside (h : v.Cooled cfg) (hr : v'.Resolved cfg) (hnow : v'.now = v.now)
    (ht : v'.table = v.table) (hmu : v'.mu = v.mu)
    (hphase : v'.phase = Function.update v.phase p φ) (hev : v'.events = v.events)
    (hbucket : ∀ b, (v'.bucketAt b).readyAt = (v.bucketAt b).readyAt ∧
      (v'.bucketAt b).lastUsed = (v.bucketAt b).lastUsed)
    (hkeep : (v.phase p).keeps = none) (hw : ∀ b w, φ = .held b w → w = .open)
    (hmu' : v'.tableMu = v.tableMu ∨ v'.tableMu.since = none) : v'.Cooled cfg := by
  refine h.goto hr hnow ht hmu hphase hev (fun b => (hbucket b).1) (fun b => .inl (hbucket b).2)
    (fun b hb => ?_) (fun b w e t _ => ?_) hmu'
  · rw [hkeep] at hb
    cases hb
  · rw [hw b w e]
    trivial

omit [DecidableEq π] in
theorem addActive_ready (v : BucketView π) (b : Nat) (n : Int) (x : Nat) :
    ((v.onBucket b (.addActive n)).bucketAt x).readyAt = (v.bucketAt x).readyAt ∧
      ((v.onBucket b (.addActive n)).bucketAt x).lastUsed = (v.bucketAt x).lastUsed :=
  ⟨onBucket_apply (.addActive n) BucketState.readyAt (fun _ => rfl) v b x,
    onBucket_apply (.addActive n) BucketState.lastUsed (fun _ => rfl) v b x⟩

omit [DecidableEq π] in
theorem gate_ready (v : BucketView π) (b : Nat) (g : FifoGate π) (x : Nat) :
    ((v.onBucket b fun y => { y with gate := g }).bucketAt x).readyAt = (v.bucketAt x).readyAt ∧
      ((v.onBucket b fun y => { y with gate := g }).bucketAt x).lastUsed =
        (v.bucketAt x).lastUsed :=
  ⟨onBucket_apply (fun y => { y with gate := g }) BucketState.readyAt (fun _ => rfl) v b x,
    onBucket_apply (fun y => { y with gate := g }) BucketState.lastUsed (fun _ => rfl) v b x⟩

theorem Cooled.stay (h : v.Cooled cfg) (he : (v.phase p).Eases φ)
    (hr : (v.goto p φ).Resolved cfg) : (v.goto p φ).Cooled cfg := by
  refine h.goto hr rfl rfl rfl rfl rfl (fun _ => rfl) (fun _ => .inl rfl) ?_ ?_ (.inl rfl)
  · generalize v.phase p = ψ at he
    intro b hb
    cases he <;> exact .inl hb
  · generalize hp : v.phase p = ψ at he
    intro b w e
    cases he with
    | refl => exact h.waited p b w (hp.trans e)
    | drop b' w' =>
      cases e
      exact fun _ _ => trivial
    | keep => cases e

theorem Cooled.wait {w' : WaitPhase} (h : v.Cooled cfg) (hp : v.phase p = .held b w)
    (hr : (v.goto p (.held b w')).Resolved cfg)
    (hw : ∀ t, .block (cfg.request p).routeHash t ∈ v.events → w'.Knows v.now t) :
    (v.goto p (.held b w')).Cooled cfg := by
  refine h.goto hr rfl rfl rfl rfl rfl (fun _ => rfl) (fun _ => .inl rfl) (fun x hx => ?_) ?_
    (.inl rfl)
  · rw [hp] at hx
    exact .inl hx
  · intro x w'' e
    cases e
    exact hw

theorem held_open_of_rechecked {target x : Nat} (h : recheckedPhase b target = .held x w) :
    w = .open := by
  unfold recheckedPhase at h
  split at h <;> cases h
  rfl

theorem Cooled.trip (h : v.Cooled cfg) (hm : TripMoves cfg (Apart cfg) v p v') :
    v'.Cooled cfg := by
  have hr := h.toResolved.trip hm
  cases hm with
  | stay he => exact h.stay he hr
  | begin hp | began hp =>
    exact h.aside hr rfl rfl rfl rfl rfl (fun _ => ⟨rfl, rfl⟩) (hp ▸ rfl) nofun (.inr rfl)
  | finish hp | aim hp =>
    exact h.aside hr rfl rfl rfl rfl rfl (fun _ => ⟨rfl, rfl⟩) (hp ▸ rfl) nofun (.inl rfl)
  | create hp hmu hn =>
    exact (h.create (p := p) hmu hn (hp ▸ rfl)).aside hr rfl rfl rfl rfl rfl
      (fun _ => ⟨rfl, rfl⟩) (hp ▸ rfl) nofun (.inl rfl)
  | activate hp | deactivate hp | uncount hp =>
    exact h.aside hr rfl rfl rfl rfl rfl (addActive_ready v _ _) (hp ▸ rfl) nofun (.inl rfl)
  | @touch b hp =>
    refine h.goto hr rfl rfl rfl rfl rfl
      (readyAt_touch v b)
      (lastUsed_touch v b) (fun x hx => ?_) nofun (.inl rfl)
    rw [hp] at hx
    cases hx
  | @gate b _ _ g r hp =>
    exact h.aside hr rfl rfl rfl rfl rfl (gate_ready v b g) (hp ▸ rfl) (by cases r <;> nofun)
      (.inl rfl)
  | @release b aim _ g r hp =>
    exact h.aside hr rfl rfl rfl rfl rfl (gate_ready v b g) (hp ▸ rfl) nofun (.inl rfl)
  | recheck hp =>
    exact h.aside hr rfl rfl rfl rfl rfl (fun _ => ⟨rfl, rfl⟩) (hp ▸ rfl)
      (fun x w e => held_open_of_rechecked e) (.inl rfl)
  | recreate hp hmu hn =>
    exact (h.create (p := p) hmu hn (hp ▸ rfl)).aside hr rfl rfl rfl rfl rfl
      (fun _ => ⟨rfl, rfl⟩) (hp ▸ rfl) (fun x w e => held_open_of_rechecked e) (.inl rfl)
  | giveUp hp =>
    exact h.aside hr rfl rfl rfl rfl rfl (fun _ => ⟨rfl, rfl⟩) (hp ▸ rfl) nofun (.inl rfl)
  | read hp =>
    refine h.wait hp hr fun t ht => ?_
    obtain hle | ⟨x, hx, hle⟩ := h.blocks _ t ht
    · exact .inl hle
    · rw [h.resolved p _ _ hp] at hx
      cases hx
      exact .inr hle
  | pass hp hle =>
    refine h.wait hp hr fun t ht => ?_
    have ht : t ≤ v.now := (h.waited p _ _ hp t ht).elim id fun hr => hr.trans hle
    split
    · exact ht
    · exact ht
  | grant hp =>
    exact h.logged hp hr nofun (fun _ _ => trivial) fun t ht => h.waited p _ _ hp t ht
  | dispatch hp =>
    refine h.logged hp hr nofun (fun e he => ?_) fun _ _ => trivial
    cases e with
    | block r t =>
      rintro rfl
      exact h.waited p _ _ hp t he
    | grant => trivial
    | dispatch => trivial
  | block hp => exact h.block hp hr
  | learn hp hmu hc => exact h.learn hp hmu hc hr
  | @leave b aim hp =>
    refine h.goto hr rfl rfl rfl rfl rfl
      (readyAt_touch v b)
      (lastUsed_touch v b) (fun x hx => ?_) nofun (.inl rfl)
    rw [hp] at hx
    cases hx
    exact .inr (by simp [BucketView.goto, BucketView.onBucket, BucketState.touch])

omit [DecidableEq π] in
theorem Cooled.deleted {now n : Int} {hash : UInt64} {left : List UInt64} (h : v.Cooled cfg)
    (hmu : v.mu = .sweep now n (.lastUsed hash left))
    (hl : v.table.buckets.lookup hash = some b)
    (hidle : clientIdleTimeout < now - (v.bucketAt b).lastUsed) :
    (v.bucketAt b).readyAt ≤ v.now := by
  obtain ⟨hle, hlook⟩ := h.sweeping _ _ _ hmu
  obtain hd | hd | ⟨p, hp⟩ := hlook hash b rfl hl
  · exact hd.trans hle
  · have hpos : (0 : Int) ≤ clientIdleTimeout := by decide
    omega
  · exact (h.swept _ _ _ _ b hmu hl p hp).elim

omit [DecidableEq π] in
theorem Cooled.sweep (h : v.Cooled cfg) (hm : SweepMoves v v') : v'.Cooled cfg := by
  have hr := h.toResolved.sweep hm
  cases hm with
  | start hf hn =>
    refine ⟨hr, h.blocks, h.waited, h.order, fun now n pc hs => ?_, h.searching⟩
    cases hs
    exact ⟨hn, fun _ _ h => by cases h⟩
  | next hmu | skip hmu =>
    refine ⟨hr, h.blocks, h.waited, h.order, fun now n pc hs => ?_, h.searching⟩
    cases hs
    exact ⟨(h.sweeping _ _ _ hmu).1, fun _ _ h => by cases h⟩
  | unblocked hmu hl hready =>
    refine ⟨hr, h.blocks, h.waited, h.order, fun now n pc hs => ?_, h.searching⟩
    cases hs
    refine ⟨(h.sweeping _ _ _ hmu).1, fun k b hk hb => ?_⟩
    cases hk
    rw [hl] at hb
    cases hb
    exact .inl hready
  | inactive hmu =>
    refine ⟨hr, h.blocks, h.waited, h.order, fun now n pc hs => ?_, h.searching⟩
    cases hs
    obtain ⟨hle, hlook⟩ := h.sweeping _ _ _ hmu
    exact ⟨hle, fun k b hk hb => hlook k b hk hb⟩
  | @delete now n hash left b hmu hl hidle =>
    refine ⟨hr, fun r t ht => ?_, h.waited, h.order, fun now n pc hs => ?_, fun now hs => ?_⟩
    · obtain hle | ⟨x, hx, hle⟩ := h.blocks r t ht
      · exact .inl hle
      · rw [RouteTable.resolve] at hx
        by_cases hk : v.table.canonical r = hash
        · rw [hk, hl] at hx
          cases hx
          exact .inl (hle.trans (h.deleted hmu hl hidle))
        · refine .inr ⟨x, ?_, hle⟩
          rw [RouteTable.resolve, RouteTable.canonical_eraseBucket,
            RouteTable.lookup_eraseBucket, if_neg hk]
          exact hx
    · cases hs
      exact ⟨(h.sweeping _ _ _ hmu).1, fun _ _ h => by cases h⟩
    · refine ⟨(h.searching now hs).1, fun k b hb => ?_⟩
      rw [RouteTable.lookup_eraseBucket] at hb
      split at hb
      · cases hb
      · exact (h.searching now hs).2 k b hb
  | finish hmu =>
    refine ⟨hr, fun r t ht => ?_, h.waited, h.order, (fun _ _ _ h => by cases h), fun now hs => ?_⟩
    · obtain hle | ⟨x, hx, hle⟩ := h.blocks r t ht
      · exact .inl hle
      · exact .inr ⟨x, RouteTable.resolve_eraseOrphans hx, hle⟩
    · refine ⟨(h.searching now hs).1, fun k b hb => ?_⟩
      rw [RouteTable.buckets_eraseOrphans] at hb
      exact (h.searching now hs).2 k b hb

omit [DecidableEq π] in
theorem Cooled.search {now : Int} {pc pc' : IdlePc} (h : v.Cooled cfg)
    (hi : v.tableMu = .idle now pc) (hm : IdleMoves v now pc pc') (hash : UInt64) (b : Nat)
    (hb : v.table.buckets.lookup hash = some b) :
    (TableMu.idle now pc' : TableMu π).Unread hash ∨ (v.bucketAt b).readyAt ≤ now := by
  have hold := (h.searching now (hi ▸ rfl)).2 hash b hb
  rw [hi] at hold
  cases hm with
  | global | active | lastUsed => exact .inl trivial
  | rlock => exact .inl (AList.mem_keys.mp (mem_of_lookup_eq_some hb))
  | @buckets left k =>
    refine hold.imp_left fun hu => ?_
    by_cases hk : hash = k
    · exact .inl hk
    · exact .inr ((List.mem_erase_of_ne hk).mpr hu)
  | @blocked k left x hl hr =>
    obtain (rfl | hu) | hu := hold
    · rw [hl] at hb
      cases hb
      exact .inr hr
    · exact .inl hu
    · exact .inr hu

omit [DecidableEq π] in
theorem Cooled.evict (h : v.Cooled cfg) (hm : EvictMoves v v') : v'.Cooled cfg := by
  have hr := h.toResolved.evict hm
  cases hm with
  | start hf hn =>
    refine ⟨hr, h.blocks, h.waited, h.order, h.sweeping, fun now hs => ?_⟩
    cases hs
    exact ⟨hn, fun _ _ _ => .inl trivial⟩
  | read hi hm =>
    refine ⟨hr, h.blocks, h.waited, h.order, h.sweeping, fun now hs => ?_⟩
    cases hs
    exact ⟨(h.searching _ (hi ▸ rfl)).1, h.search hi hm⟩
  | @choose now hi =>
    refine ⟨hr, h.blocks, h.waited, h.order, h.sweeping, fun now hs => ?_⟩
    cases hs
    obtain ⟨hle, hread⟩ := h.searching now (hi ▸ rfl)
    refine ⟨hle, fun k b hb => .inr ((hread k b hb).resolve_left ?_)⟩
    rw [hi]
    exact List.not_mem_nil
  | refuse hi | spare hi => exact ⟨hr, h.blocks, h.waited, h.order, h.sweeping, nofun⟩
  | @clear now hc hmu =>
    obtain ⟨hle, hread⟩ := h.searching now (hc ▸ rfl)
    refine ⟨hr, fun r t ht => .inl ?_, h.waited, h.order, fun now n pc hs => ?_, nofun⟩
    · obtain ht | ⟨b, hb, ht⟩ := h.blocks r t ht
      · exact ht
      · have hready := (hread _ b hb).resolve_left (by rw [hc]; exact id)
        exact ht.trans (hready.trans hle)
    · rw [hmu] at hs
      cases hs

theorem Cooled.step {l : Option π} (h : v.Cooled cfg) (hm : Moves cfg (Apart cfg) v l v') :
    v'.Cooled cfg := by
  have hr := h.toResolved.step hm
  cases hm with
  | tick d =>
    have hle : v.now ≤ v.now + d := by omega
    refine ⟨hr, fun r t ht => (h.blocks r t ht).imp_left fun hb => hb.trans hle,
      fun p b w hp t ht => (h.waited p b w hp t ht).mono hle, h.order, fun now n pc hs => ?_,
      fun now hs => ?_⟩
    · exact ⟨(h.sweeping now n pc hs).1.trans hle, (h.sweeping now n pc hs).2⟩
    · exact ⟨(h.searching now hs).1.trans hle, (h.searching now hs).2⟩
  | same => exact h
  | trip hm => exact h.trip hm
  | sweep hm => exact h.sweep hm
  | evict hm => exact h.evict hm

end BucketView

namespace SchedulerRun

variable {π : Type u} [DecidableEq π] {cfg : SchedulerConfig π} {s : SchedulerRun π}

omit [DecidableEq π] in
theorem start_cooled (cfg : SchedulerConfig π) (now : Int) : (start cfg now).view.Cooled cfg where
  toOwned := start_owned cfg now
  aliases := nofun
  resolved := nofun
  swept := nofun
  blocks := nofun
  waited := nofun
  order := List.Pairwise.nil
  sweeping := nofun
  searching := nofun

theorem cooled_of_reach (h : (system cfg).Reach (NoCollision cfg) s) : s.view.Cooled cfg :=
  invariant_of_moves (start_cooled cfg) (fun _ _ _ hv hm => hv.step hm) h

/-- In the log of a run, newest first, no dispatch of a route comes before the time until which
an earlier response to that route blocked a bucket. -/
theorem cooldown_kept (cfg : SchedulerConfig π) (h : (system cfg).Reach (NoCollision cfg) s) :
    s.events.Pairwise fun later earlier => ∀ p r d t,
      later = .dispatch p r d → earlier = .block r t → t ≤ d := by
  refine (cooled_of_reach h).order.imp fun {later earlier} hr p r d t hl he => ?_
  subst hl he
  exact hr rfl

def limited : Response := ⟨429, ⟨[7], 0, 10 * Duration.second, false⟩, false⟩

open TripAction in
/-- Request 1 creates the shared bucket, the response to 0 moves its route there, and request 2 of
that route waits for what was merged. -/
def remapped : List (SchedulerAction (Fin 3)) :=
  acts 1 (arrive ++ acquire false ++ proceed ++ pace ++ send ++ observe sharing ++ leave) ++
  [.tick 30000000] ++
  acts 0 (arrive ++ acquire false ++ proceed ++ pace ++ send ++ observe limited ++
    [.go, .go, .go, .go, .prepare (some false), .go, .go, .go, .go, .go]) ++
  acts 2 (arrive ++ acquire true ++ proceed) ++
  [.tick 10000000000] ++
  acts 2 ([.timer, .go, .go, .go] ++ pace ++ send)

theorem cooldown_kept_remapped :
    ∃ s : SchedulerRun (Fin 3), ∃ d t, .dispatch 2 1 d ∈ s.events ∧ .block 1 t ∈ s.events ∧
      s.client.table.resolve 1 = some 0 ∧ t ≤ d := by
  have hrun : (((system (twoRoutes 3)).check (apart (twoRoutes 3))).run (start (twoRoutes 3) 0)
      remapped).map (fun s => (s.events, s.client.table.resolve 1)) =
      some ([.dispatch 2 1 10030000000, .grant 2 10030000000 10030000000, .block 1 10030000000,
        .dispatch 0 1 30000000, .grant 0 0 30000000, .dispatch 1 2 0, .grant 1 0 0],
        some 0) := by
    decide +kernel
  obtain ⟨s, hs, he⟩ := Option.map_eq_some_iff.mp hrun
  obtain ⟨hev, hr⟩ := Prod.mk.inj he
  have hreach : (system (twoRoutes 3)).Reach (NoCollision (twoRoutes 3)) s :=
    System.Reach.of_check noCollision_of_apart (System.Reachable.run (.init ⟨0, rfl⟩) hs)
  have hkept := cooldown_kept (twoRoutes 3) hreach
  rw [hev] at hkept
  refine ⟨s, 10030000000, 10030000000, by simp [hev], by simp [hev], hr, ?_⟩
  exact (List.pairwise_cons.mp hkept).1 (.block 1 10030000000) (by simp) 2 1 _ _ rfl rfl

end SchedulerRun

end NirnProxy
