import NirnProxy.Counting
import NirnProxy.Scheduler.Phases

/-! Gates and counters agree with the phases of the requests: a request owns the gate of the
bucket it holds and no other, `active` counts the users of a bucket and of the state, and a state
whose `active` a search has read as zero has no user until the search is over. -/

universe u

namespace NirnProxy

namespace BucketPhase

def place : BucketPhase → Option Nat
  | .active b | .queued b | .owner b | .held b _ | .kept b _ | .leaving b _ | .releasing b _ =>
    some b
  | .out | .begun | .live _ => none

def aim : BucketPhase → Option Nat
  | .live aim | .kept _ aim | .leaving _ aim | .releasing _ aim => aim
  | .out | .begun | .active _ | .queued _ | .owner _ | .held _ _ => none

def owned : BucketPhase → Option Nat
  | .owner b | .held b _ | .kept b _ | .leaving b _ | .releasing b _ => some b
  | .out | .begun | .live _ | .active _ | .queued _ => none

def counted : BucketPhase → Option Nat
  | .active b | .queued b | .owner b | .held b _ | .kept b _ | .leaving b _ => some b
  | .out | .begun | .live _ | .releasing _ _ => none

def isLive : BucketPhase → Bool
  | .out => false
  | _ => true

def Stands (φ : BucketPhase) (b : Nat) (c : GateCall) : Prop :=
  if φ.owned = some b then c = .owner else if φ = .queued b then c ≠ .owner else c = .out

variable {φ ψ : BucketPhase} {b : Nat} {c : GateCall}

theorem place_of_owned (h : φ.owned = some b) : φ.place = some b := by
  cases φ <;> cases h <;> rfl

theorem place_of_counted (h : φ.counted = some b) : φ.place = some b := by
  cases φ <;> cases h <;> rfl

theorem stands_elsewhere (h : φ.place ≠ some b) : φ.Stands b c ↔ c = .out := by
  have ho : φ.owned ≠ some b := fun e => h (place_of_owned e)
  have hq : φ ≠ .queued b := by
    rintro rfl
    exact h rfl
  simp [Stands, ho, hq]

theorem stands_of_owned {a : Nat} (hφ : φ.owned = some b) (hψ : ψ.owned = some b)
    (h : φ.Stands a c) : ψ.Stands a c := by
  by_cases ha : b = a
  · subst ha
    rw [Stands, if_pos hφ] at h
    rw [Stands, if_pos hψ]
    exact h
  · have hne : ∀ χ : BucketPhase, χ.owned = some b → χ.place ≠ some a := by
      intro χ hχ e
      rw [place_of_owned hχ] at e
      exact ha (Option.some.inj e)
    rw [stands_elsewhere (hne ψ hψ)]
    exact (stands_elsewhere (hne φ hφ)).mp h

theorem stands_of_nowhere {a : Nat} (hφ : φ.place = none) (hψ : ψ.place = none)
    (h : φ.Stands a c) : ψ.Stands a c := by
  rw [stands_elsewhere (by simp [hψ])]
  exact (stands_elsewhere (by simp [hφ])).mp h

theorem isLive_of_place (h : φ.place = some b) : φ.isLive = true := by
  cases φ <;> cases h <;> rfl

end BucketPhase

def TableMu.quiet {π : Type u} : TableMu π → Bool
  | .idle _ .global | .idle _ .active | .free | .begin _ => false
  | .idle _ _ | .chosen _ => true

namespace BucketView

variable {π : Type u}

structure Owned (v : BucketView π) : Prop where
  wf : ∀ b, (v.bucketAt b).gate.Wf
  stands : ∀ b p, (v.phase p).Stands b ((v.bucketAt b).gate.call p)
  counts : ∀ b, Counts (fun p => (v.phase p).counted = some b) (v.bucketAt b).active
  place : ∀ p b, (v.phase p).place = some b → b < v.fresh
  aim : ∀ p b, (v.phase p).aim = some b → b < v.fresh
  table : ∀ hash b, v.table.buckets.lookup hash = some b → b < v.fresh
  live : Counts (fun p => (v.phase p).isLive = true) v.active
  begun : ∀ p, v.phase p = .begun → v.tableMu = .begin p
  quiet : v.tableMu.quiet = true → ∀ p, (v.phase p).isLive = false

variable [DecidableEq π] {cfg : SchedulerConfig π} {K : BucketView π → π → UInt64 → Prop}
  {v v' : BucketView π} {p q : π} {b : Nat} {φ : BucketPhase}

omit [DecidableEq π] in
theorem Owned.call (h : v.Owned) (hp : (v.phase p).owned = some b) :
    (v.bucketAt b).gate.call p = .owner := by
  have hs := h.stands b p
  rw [BucketPhase.Stands, if_pos hp] at hs
  exact hs

omit [DecidableEq π] in
theorem Owned.holds (h : v.Owned) (hp : (v.phase p).owned = some b) :
    (v.bucketAt b).gate.holds p = true := by
  simp [FifoGate.holds, h.call hp]

omit [DecidableEq π] in
theorem Owned.unique (h : v.Owned) (hp : (v.phase p).owned = some b)
    (hq : (v.phase q).owned = some b) : p = q :=
  (h.wf b).unique p q (h.holds hp) (h.holds hq)

omit [DecidableEq π] in
theorem Owned.not_quiet (h : v.Owned) (hp : (v.phase p).isLive = true) :
    v.tableMu.quiet = false := by
  by_contra hq
  rw [h.quiet (by simpa using hq) p] at hp
  cases hp

theorem forall_goto {P : π → BucketPhase → Prop} (hp : P p φ)
    (hothers : ∀ q, q ≠ p → P q (v.phase q)) (q : π) : P q ((v.goto p φ).phase q) :=
  (Function.forall_update_iff v.phase P).mpr ⟨hp, hothers⟩ q

theorem Owned.move {x : BucketState π} (h : v.Owned)
    (hold : ∀ c, (v.phase p).place = some c → c = b)
    (hnew : ∀ c, φ.place = some c → c = b) (hb : b < v.fresh)
    (haim : ∀ c, φ.aim = some c → c < v.fresh) (hwf : x.gate.Wf)
    (hcall : ∀ q, q ≠ p → x.gate.call q = (v.bucketAt b).gate.call q)
    (hself : φ.Stands b (x.gate.call p))
    (hcount : Counts (fun q => (Function.update v.phase p φ q).counted = some b) x.active)
    (hlive : φ.isLive = (v.phase p).isLive) (hbegun : φ ≠ .begun) :
    ({ v with bucketAt := Function.update v.bucketAt b x }.goto p φ).Owned where
  wf c := by
    by_cases hc : c = b
    · subst hc
      simpa [goto] using hwf
    · simpa [goto, hc] using h.wf c
  stands c q := by
    by_cases hc : c = b
    · subst hc
      by_cases hq : q = p
      · subst hq
        simpa [goto] using hself
      · simpa [goto, hq, hcall q hq] using h.stands c q
    · by_cases hq : q = p
      · subst hq
        have hs := h.stands c q
        rw [BucketPhase.stands_elsewhere fun e => hc (hold c e)] at hs
        simpa [goto, hc, BucketPhase.stands_elsewhere fun e => hc (hnew c e)] using hs
      · simpa [goto, hc, hq] using h.stands c q
  counts c := by
    by_cases hc : c = b
    · subst hc
      simpa [goto] using hcount
    · simp only [goto, Function.update_of_ne hc]
      refine Counts.update_same (R := fun _ (x : BucketPhase) => x.counted = some c) (h.counts c) ?_
      constructor
      · intro e
        exact (hc (hnew c (BucketPhase.place_of_counted e))).elim
      · intro e
        exact (hc (hold c (BucketPhase.place_of_counted e))).elim
  place := forall_goto (P := fun _ ψ => ∀ c, ψ.place = some c → c < v.fresh)
    (fun c hc => hnew c hc ▸ hb) fun q _ => h.place q
  aim := forall_goto (P := fun _ ψ => ∀ c, ψ.aim = some c → c < v.fresh) haim fun q _ => h.aim q
  table := h.table
  live := by
    refine Counts.update_same (R := fun _ (x : BucketPhase) => x.isLive = true) h.live ?_
    rw [hlive]
  begun := forall_goto (P := fun q ψ => ψ = .begun → v.tableMu = .begin q)
    (fun e => (hbegun e).elim) fun q _ => h.begun q
  quiet hm := forall_goto (P := fun _ ψ => ψ.isLive = false) (hlive.trans (h.quiet hm p))
    fun q _ => h.quiet hm q

theorem Owned.goto (h : v.Owned) (hs : ∀ c x, (v.phase p).Stands c x → φ.Stands c x)
    (hc : φ.counted = (v.phase p).counted) (hplace : ∀ c, φ.place = some c → c < v.fresh)
    (haim : ∀ c, φ.aim = some c → c < v.fresh) (hlive : φ.isLive = (v.phase p).isLive)
    (hbegun : φ ≠ .begun) : (v.goto p φ).Owned where
  wf := h.wf
  stands c := forall_goto (P := fun q ψ => ψ.Stands c ((v.bucketAt c).gate.call q))
    (hs c _ (h.stands c p)) fun q _ => h.stands c q
  counts c := by
    refine Counts.update_same (R := fun _ (x : BucketPhase) => x.counted = some c) (h.counts c) ?_
    rw [hc]
  place := forall_goto (P := fun _ ψ => ∀ c, ψ.place = some c → c < v.fresh) hplace
    fun q _ => h.place q
  aim := forall_goto (P := fun _ ψ => ∀ c, ψ.aim = some c → c < v.fresh) haim fun q _ => h.aim q
  table := h.table
  live := by
    refine Counts.update_same (R := fun _ (x : BucketPhase) => x.isLive = true) h.live ?_
    rw [hlive]
  begun := forall_goto (P := fun q ψ => ψ = .begun → v.tableMu = .begin q)
    (fun e => (hbegun e).elim) fun q _ => h.begun q
  quiet hm := forall_goto (P := fun _ ψ => ψ.isLive = false) (hlive.trans (h.quiet hm p))
    fun q _ => h.quiet hm q

omit [DecidableEq π] in
theorem Owned.frame (h : v.Owned) (hgate : ∀ b, (v'.bucketAt b).gate = (v.bucketAt b).gate)
    (hactive : ∀ b, (v'.bucketAt b).active = (v.bucketAt b).active)
    (hphase : v'.phase = v.phase) (hfresh : v'.fresh = v.fresh) (hlive : v'.active = v.active)
    (htable : ∀ hash b, v'.table.buckets.lookup hash = some b → b < v.fresh)
    (hmu : v'.tableMu = v.tableMu) : v'.Owned where
  wf b := hgate b ▸ h.wf b
  stands b p := by
    rw [hphase, hgate]
    exact h.stands b p
  counts b := by
    rw [hphase, hactive]
    exact h.counts b
  place := by
    rw [hphase, hfresh]
    exact h.place
  aim := by
    rw [hphase, hfresh]
    exact h.aim
  table := by
    rw [hfresh]
    exact htable
  live := by
    rw [hphase, hlive]
    exact h.live
  begun := by
    rw [hphase, hmu]
    exact h.begun
  quiet := by
    rw [hphase, hmu]
    exact h.quiet

omit [DecidableEq π] in
theorem Owned.create {r : UInt64} {n : Nat} (h : v.Owned) : (v.create r n).Owned where
  wf b := by
    by_cases hb : b = v.fresh
    · subst hb
      simpa [BucketView.create, BucketState.newBucketState] using FifoGate.newFIFOGate_wf n
    · simpa [BucketView.create, hb] using h.wf b
  stands b p := by
    by_cases hb : b = v.fresh
    · subst hb
      have hp : (v.phase p).place ≠ some v.fresh := fun e => lt_irrefl _ (h.place p _ e)
      simp [BucketView.create, BucketPhase.stands_elsewhere hp, BucketState.newBucketState,
        FifoGate.newFIFOGate]
    · simpa [BucketView.create, hb] using h.stands b p
  counts b := by
    by_cases hb : b = v.fresh
    · subst hb
      have hz : ∀ p, (v.phase p).counted ≠ some v.fresh := fun p e =>
        lt_irrefl _ (h.place p _ (BucketPhase.place_of_counted e))
      simpa [BucketView.create, BucketState.newBucketState] using Counts.zero hz
    · simpa [BucketView.create, hb] using h.counts b
  place p b hb := Nat.lt_succ_of_lt (h.place p b hb)
  aim p b hb := Nat.lt_succ_of_lt (h.aim p b hb)
  table hash b hb := by
    simp only [BucketView.create, RouteTable.create] at hb
    by_cases hh : hash = v.table.canonical r
    · subst hh
      rw [AList.lookup_insert] at hb
      cases hb
      exact Nat.lt_succ_self _
    · rw [AList.lookup_insert_ne hh] at hb
      exact Nat.lt_succ_of_lt (h.table hash b hb)
  live := h.live
  begun := h.begun
  quiet := h.quiet

omit [DecidableEq π] in
theorem Owned.target_lt {r c : UInt64} (h : v.Owned) (hb : b < v.fresh) :
    (v.table.plan r c b).target < v.fresh := by
  simp only [RouteTable.plan]
  cases hc : v.table.buckets.lookup c with
  | none => exact hb
  | some x => exact h.table c x hc

omit [DecidableEq π] in
theorem learn_bucketAt (v : BucketView π) (r c : UInt64) (b x : Nat) :
    (v.learn r c b).bucketAt x = v.bucketAt x ∨
      (v.learn r c b).bucketAt x = (v.bucketAt x).merge (v.bucketAt b) := by
  simp only [BucketView.learn]
  split
  · exact .inl rfl
  · by_cases hx : x = (v.table.plan r c b).target
    · rw [hx, Function.update_self]
      exact .inr rfl
    · rw [Function.update_of_ne hx]
      exact .inl rfl

omit [DecidableEq π] in
theorem Owned.learn {r c : UInt64} (h : v.Owned) (hb : b < v.fresh) : (v.learn r c b).Owned := by
  refine h.frame (fun x => ?_) (fun x => ?_) rfl rfl rfl (fun hash x hx => ?_) rfl
  · obtain hx | hx := learn_bucketAt v r c b x
    · rw [hx]
    · rw [hx]
      exact BucketState.blockUntil_gate _ _
  · obtain hx | hx := learn_bucketAt v r c b x
    · rw [hx]
    · rw [hx]
      exact BucketState.blockUntil_active _ _
  · simp only [BucketView.learn, RouteTable.lookup_publish] at hx
    split at hx
    · cases hx
    · split at hx
      · cases hx
        exact h.target_lt hb
      · exact h.table hash x hx

omit [DecidableEq π] in
theorem Owned.onBucket {f : BucketState π → BucketState π} (h : v.Owned)
    (hg : ∀ x, (f x).gate = x.gate) (ha : ∀ x, (f x).active = x.active) :
    (v.onBucket b f).Owned := by
  refine h.frame (fun x => ?_) (fun x => ?_) rfl rfl rfl h.table rfl
  · by_cases hx : x = b
    · subst hx
      simp [BucketView.onBucket, hg]
    · simp [BucketView.onBucket, hx]
  · by_cases hx : x = b
    · subst hx
      simp [BucketView.onBucket, ha]
    · simp [BucketView.onBucket, hx]

omit [DecidableEq π] in
theorem Owned.touch (h : v.Owned) (b : Nat) : (v.onBucket b (.touch v.now)).Owned :=
  h.onBucket (fun _ => rfl) fun _ => rfl

theorem Owned.goto_place (h : v.Owned) (hp : (v.phase p).place = some b) (hφ : φ.place = some b)
    (hs : ∀ c x, (v.phase p).Stands c x → φ.Stands c x) (hc : φ.counted = (v.phase p).counted)
    (haim : ∀ c, φ.aim = some c → c < v.fresh) : (v.goto p φ).Owned := by
  refine h.goto hs hc ?_ haim ?_ ?_
  · intro c hc
    rw [hφ] at hc
    cases hc
    exact h.place p b hp
  · rw [BucketPhase.isLive_of_place hφ, BucketPhase.isLive_of_place hp]
  · rintro rfl
    cases hφ

omit [DecidableEq π] in
theorem Owned.log {e : TripEvent π} (h : v.Owned) : (v.log e).Owned :=
  h.frame (fun _ => rfl) (fun _ => rfl) rfl rfl rfl h.table rfl

theorem Owned.owner (h : v.Owned) (hp : (v.phase p).owned = some b) (hφ : φ.owned = some b)
    (hc : φ.counted = (v.phase p).counted) (haim : ∀ c, φ.aim = some c → c < v.fresh) :
    (v.goto p φ).Owned :=
  h.goto_place (BucketPhase.place_of_owned hp) (BucketPhase.place_of_owned hφ)
    (fun _ _ hs => BucketPhase.stands_of_owned hp hφ hs) hc haim

theorem Owned.stay (h : v.Owned) (he : (v.phase p).Eases φ) : (v.goto p φ).Owned := by
  generalize hp : v.phase p = ψ at he
  cases he with
  | refl =>
    rw [← hp, BucketView.goto, Function.update_eq_self]
    exact h
  | drop b w => exact h.owner (hp ▸ rfl) rfl (hp ▸ rfl) (fun _ h => by cases h)
  | keep b => exact h.owner (hp ▸ rfl) rfl (hp ▸ rfl) (fun _ h => by cases h)

theorem Owned.outside {mu : TableMu π} {n : Int} (h : v.Owned) (hp : (v.phase p).place = none)
    (hφ : φ.place = none) (haim : ∀ c, φ.aim = some c → c < v.fresh)
    (hlive : Counts (fun q => (Function.update v.phase p φ q).isLive = true) n)
    (hbegun : ∀ q, Function.update v.phase p φ q = .begun → mu = .begin q)
    (hquiet : mu.quiet = true → ∀ q, (Function.update v.phase p φ q).isLive = false) :
    ({ v with tableMu := mu, active := n }.goto p φ).Owned where
  wf := h.wf
  stands c := forall_goto (P := fun q ψ => ψ.Stands c ((v.bucketAt c).gate.call q))
    (BucketPhase.stands_of_nowhere hp hφ (h.stands c p)) fun q _ => h.stands c q
  counts c := by
    refine Counts.update_same (R := fun _ (x : BucketPhase) => x.counted = some c) (h.counts c) ?_
    have hne : ∀ ψ : BucketPhase, ψ.place = none → ψ.counted ≠ some c := by
      intro ψ hψ e
      rw [BucketPhase.place_of_counted e] at hψ
      cases hψ
    exact iff_of_false (hne φ hφ) (hne _ hp)
  place := forall_goto (P := fun _ ψ => ∀ c, ψ.place = some c → c < v.fresh)
    (fun c hc => (Option.some_ne_none c (hc.symm.trans hφ)).elim) fun q _ => h.place q
  aim := forall_goto (P := fun _ ψ => ∀ c, ψ.aim = some c → c < v.fresh) haim fun q _ => h.aim q
  table := h.table
  live := hlive
  begun := hbegun
  quiet := hquiet

theorem Owned.begin (h : v.Owned) (hp : v.phase p = .out) (hm : v.tableMu = .free) :
    ({ v with tableMu := .begin p, active := v.active + 1 }.goto p .begun).Owned := by
  refine h.outside (hp ▸ rfl) rfl nofun ?_ (fun q hq => ?_) nofun
  · refine Counts.update_add (R := fun _ (x : BucketPhase) => x.isLive = true) h.live ?_ rfl
    rw [hp]
    exact Bool.false_ne_true
  · by_cases hqp : q = p
    · rw [hqp]
    · have hbegin := h.begun q (by simpa [hqp] using hq)
      rw [hm] at hbegin
      cases hbegin

theorem Owned.began (h : v.Owned) (hp : v.phase p = .begun) :
    ({ v with tableMu := .free }.goto p (.live none)).Owned := by
  refine h.outside (hp ▸ rfl) rfl nofun ?_ (fun q hq => ?_) nofun
  · refine Counts.update_same (R := fun _ (x : BucketPhase) => x.isLive = true) h.live ?_
    rw [hp]
    rfl
  · by_cases hqp : q = p
    · simp [hqp] at hq
    · have hbegin := h.begun q (by simpa [hqp] using hq)
      rw [h.begun p hp] at hbegin
      cases hbegin
      exact (hqp rfl).elim

theorem Owned.finish (h : v.Owned) (hp : v.phase p = .live none) :
    ({ v with active := v.active + -1 }.goto p .out).Owned := by
  have hlive : (v.phase p).isLive = true := hp ▸ rfl
  refine h.outside (hp ▸ rfl) rfl nofun ?_ (fun q hq => ?_) fun hm => ?_
  · exact Counts.update_sub (R := fun _ (x : BucketPhase) => x.isLive = true) h.live hlive
      Bool.false_ne_true
  · by_cases hqp : q = p
    · simp [hqp] at hq
    · exact h.begun q (by simpa [hqp] using hq)
  · rw [h.not_quiet hlive] at hm
    cases hm

theorem Owned.activate (h : v.Owned) (hp : v.phase p = .live (some b)) :
    ((v.onBucket b (.addActive 1)).goto p (.active b)).Owned := by
  refine h.move (fun c hc => ?_) (fun c hc => (Option.some.inj hc).symm)
    (h.aim p b (hp ▸ rfl)) nofun (h.wf b) (fun _ _ => rfl) ?_ ?_ (hp ▸ rfl) nofun
  · rw [hp] at hc
    cases hc
  · have hs := h.stands b p
    rw [BucketPhase.stands_elsewhere (by rw [hp]; nofun)] at hs
    exact hs
  · refine Counts.update_add (R := fun _ (x : BucketPhase) => x.counted = some b) (h.counts b) ?_
      rfl
    rw [hp]
    nofun

omit [DecidableEq π] in
theorem place_eq {c : Nat} (hp : (v.phase p).place = some b) (hc : (v.phase p).place = some c) :
    c = b :=
  Option.some.inj (hc.symm.trans hp)

theorem Owned.deactivate (h : v.Owned) (hp : v.phase p = .active b) :
    ((v.onBucket b (.addActive (-1))).goto p (.live none)).Owned := by
  refine h.move (fun c hc => place_eq (hp ▸ rfl) hc) nofun (h.place p b (hp ▸ rfl)) nofun (h.wf b)
    (fun _ _ => rfl) ?_ ?_ (hp ▸ rfl) nofun
  · have hs := h.stands b p
    rw [hp] at hs
    exact hs
  · refine Counts.update_sub (R := fun _ (x : BucketPhase) => x.counted = some b) (h.counts b) ?_
      nofun
    rw [hp]
    rfl

theorem Owned.uncount {aim : Option Nat} (h : v.Owned) (hp : v.phase p = .leaving b aim) :
    ((v.onBucket b (.addActive (-1))).goto p (.releasing b aim)).Owned := by
  refine h.move (fun c hc => place_eq (hp ▸ rfl) hc) (fun c hc => (Option.some.inj hc).symm)
    (h.place p b (hp ▸ rfl)) (fun c hc => h.aim p c (hp ▸ hc)) (h.wf b) (fun _ _ => rfl)
    (BucketPhase.stands_of_owned (hp ▸ rfl) rfl (h.stands b p)) ?_ (hp ▸ rfl) nofun
  refine Counts.update_sub (R := fun _ (x : BucketPhase) => x.counted = some b) (h.counts b) ?_
    nofun
  rw [hp]
  rfl

theorem Owned.gate {done : Bool} {a : GateStep} {g : FifoGate π} {r : GateReturn} (h : v.Owned)
    (hp : v.phase p = .queued b) (hs : (v.bucketAt b).gate.step done p a = some (g, r)) :
    ((v.onBucket b fun x => { x with gate := g }).goto p (r.phase b)).Owned := by
  have hstands := h.stands b p
  have hcall : (v.bucketAt b).gate.call p ≠ .owner := by
    rw [hp] at hstands
    simpa [BucketPhase.Stands, BucketPhase.owned] using hstands
  refine h.move (fun c hc => place_eq (hp ▸ rfl) hc) (fun c hc => ?_) (h.place p b (hp ▸ rfl))
    (fun c hc => ?_) ((h.wf b).step hs) (fun q hq => FifoGate.step_call_ne hs hq) ?_ ?_ ?_ ?_
  · cases r <;> exact (Option.some.inj hc).symm
  · cases r <;> cases hc
  · have hl := FifoGate.step_call hs hcall
    cases r <;>
      simpa [BucketPhase.Stands, GateReturn.phase, BucketPhase.owned, FifoGate.GateReturn.Leaves]
        using hl
  · refine Counts.update_same (R := fun _ (x : BucketPhase) => x.counted = some b) (h.counts b) ?_
    rw [hp]
    cases r <;> rfl
  · rw [hp]
    cases r <;> rfl
  · cases r <;> exact fun h => by cases h

theorem Owned.release {aim : Option Nat} {done : Bool} {g : FifoGate π} {r : GateReturn}
    (h : v.Owned) (hp : v.phase p = .releasing b aim)
    (hs : (v.bucketAt b).gate.step done p .release = some (g, r)) :
    ((v.onBucket b fun x => { x with gate := g }).goto p (.live aim)).Owned := by
  refine h.move (fun c hc => place_eq (hp ▸ rfl) hc) nofun (h.place p b (hp ▸ rfl))
    (fun c hc => h.aim p c (hp ▸ hc)) ((h.wf b).step hs)
    (fun q hq => FifoGate.step_call_ne hs hq) (FifoGate.step_release hs) ?_ (hp ▸ rfl) nofun
  refine Counts.update_same (R := fun _ (x : BucketPhase) => x.counted = some b) (h.counts b) ?_
  rw [hp]
  rfl

theorem owned_rechecked (b target : Nat) : (recheckedPhase b target).owned = some b := by
  unfold recheckedPhase
  split <;> rfl

theorem counted_rechecked (b target : Nat) : (recheckedPhase b target).counted = some b := by
  unfold recheckedPhase
  split <;> rfl

theorem aim_rechecked {target c : Nat} (h : (recheckedPhase b target).aim = some c) :
    c = target := by
  unfold recheckedPhase at h
  split at h <;> cases h
  rfl

theorem Owned.trip (h : v.Owned) (hm : TripMoves cfg K v p v') : v'.Owned := by
  cases hm with
  | stay he => exact h.stay he
  | begin hp hm => exact h.begin hp hm
  | began hp => exact h.began hp
  | finish hp => exact h.finish hp
  | aim hp _ hr =>
    refine h.goto (fun _ _ => BucketPhase.stands_of_nowhere (hp ▸ rfl) rfl) (hp ▸ rfl) nofun ?_
      (hp ▸ rfl) nofun
    intro c hc
    cases hc
    exact h.table _ _ hr
  | create hp =>
    refine h.create.goto (fun _ _ => BucketPhase.stands_of_nowhere (hp ▸ rfl) rfl) (hp ▸ rfl) nofun
      ?_ (hp ▸ rfl) nofun
    intro c hc
    cases hc
    exact Nat.lt_succ_self _
  | activate hp => exact h.activate hp
  | @touch b hp =>
    refine (h.touch b).goto_place (hp ▸ rfl) rfl (fun c x hs => ?_) (hp ▸ rfl) nofun
    have hout : x = .out := by
      change (v.phase p).Stands c x at hs
      rw [hp] at hs
      exact hs
    rw [hout]
    by_cases hc : b = c
    · simp [BucketPhase.Stands, BucketPhase.owned, hc]
    · simp [BucketPhase.Stands, BucketPhase.owned, hc]
  | deactivate hp => exact h.deactivate hp
  | gate hp hs => exact h.gate hp hs
  | @recheck b target hp _ hr =>
    refine h.owner (hp ▸ rfl) (owned_rechecked b target) ?_ fun c hc => ?_
    · rw [counted_rechecked, hp]
      rfl
    · rw [aim_rechecked hc]
      exact h.table _ _ hr
  | @recreate b n hp =>
    refine h.create.owner (hp ▸ rfl) (owned_rechecked b v.fresh) ?_ fun c hc => ?_
    · rw [counted_rechecked]
      exact hp ▸ rfl
    · rw [aim_rechecked hc]
      exact Nat.lt_succ_self _
  | giveUp hp => exact h.owner (hp ▸ rfl) rfl (hp ▸ rfl) nofun
  | read hp => exact h.owner (hp ▸ rfl) rfl (hp ▸ rfl) nofun
  | pass hp => exact h.owner (hp ▸ rfl) rfl (hp ▸ rfl) nofun
  | grant hp => exact h.log.owner (hp ▸ rfl) rfl (hp ▸ rfl) nofun
  | dispatch hp => exact h.log.owner (hp ▸ rfl) rfl (hp ▸ rfl) nofun
  | block hp =>
    exact (h.onBucket (fun x => x.blockUntil_gate _) fun x => x.blockUntil_active _).log.owner
      (hp ▸ rfl) rfl (hp ▸ rfl) nofun
  | learn hp =>
    exact (h.learn (h.place p _ (hp ▸ rfl))).owner (hp ▸ rfl) rfl (hp ▸ rfl) nofun
  | @leave b aim hp =>
    exact (h.touch b).owner (hp ▸ rfl) rfl (hp ▸ rfl) fun c hc => h.aim p c (hp ▸ hc)
  | uncount hp => exact h.uncount hp
  | release hp hs => exact h.release hp hs

omit [DecidableEq π] in
theorem Owned.sweep (h : v.Owned) (hm : SweepMoves v v') : v'.Owned := by
  cases hm with
  | delete =>
    refine h.frame (fun _ => rfl) (fun _ => rfl) rfl rfl rfl (fun k b hl => ?_) rfl
    simp only [RouteTable.lookup_eraseBucket] at hl
    split at hl
    · cases hl
    · exact h.table k b hl
  | finish =>
    refine h.frame (fun _ => rfl) (fun _ => rfl) rfl rfl rfl (fun k b hl => ?_) rfl
    rw [RouteTable.buckets_eraseOrphans] at hl
    exact h.table k b hl
  | _ => exact h.frame (fun _ => rfl) (fun _ => rfl) rfl rfl rfl h.table rfl

omit [DecidableEq π] in
theorem Owned.not_begun (h : v.Owned) (hm : ∀ q, v.tableMu ≠ .begin q) : v.phase p ≠ .begun :=
  fun hp => hm p (h.begun p hp)

omit [DecidableEq π] in
theorem Owned.search {mu : TableMu π} (h : v.Owned) (hm : ∀ q, v.tableMu ≠ .begin q)
    (hq : mu.quiet = true → v.tableMu.quiet = true ∨ v.active = 0) :
    { v with tableMu := mu }.Owned :=
  { h with
    begun := fun q hb => (h.not_begun hm hb).elim
    quiet := by
      intro hmu p
      obtain hquiet | hzero := hq hmu
      · exact h.quiet hquiet p
      · by_contra hlive
        have hpos := h.live.pos (p := p) (by simpa using hlive)
        omega }

omit [DecidableEq π] in
theorem Owned.evict (h : v.Owned) (hm : EvictMoves v v') : v'.Owned := by
  cases hm with
  | start hf => exact h.search (by rw [hf]; nofun) nofun
  | read hi hr =>
    refine h.search (by rw [hi]; nofun) fun hq => ?_
    rw [hi]
    cases hr with
    | global => cases hq
    | active ha => exact .inr ha
    | _ => exact .inl rfl
  | choose hi => exact h.search (by rw [hi]; nofun) fun _ => .inl (hi ▸ rfl)
  | refuse hi => exact h.search (by rw [hi]; nofun) nofun
  | spare hc => exact h.search (by rw [hc]; nofun) nofun
  | clear hc =>
    have hnone : ∀ p, (v.phase p).isLive = false := h.quiet (hc ▸ rfl)
    exact { h with
      table := nofun
      live := Counts.zero fun p hp => by simp [hnone p] at hp
      begun := fun q hb => (h.not_begun (by rw [hc]; nofun) hb).elim
      quiet := nofun }

theorem Owned.step {l : Option π} (h : v.Owned) (hm : Moves cfg K v l v') : v'.Owned := by
  cases hm with
  | tick => exact h.frame (fun _ => rfl) (fun _ => rfl) rfl rfl rfl h.table rfl
  | same => exact h
  | trip hm => exact h.trip hm
  | sweep hm => exact h.sweep hm
  | evict hm => exact h.evict hm

end BucketView

namespace SchedulerRun

variable {π : Type u}

theorem start_owned (cfg : SchedulerConfig π) (now : Int) : (start cfg now).view.Owned where
  wf _ := FifoGate.newFIFOGate_wf _
  stands _ _ := rfl
  counts _ := Counts.zero fun _ => nofun
  place := nofun
  aim := nofun
  table := nofun
  live := Counts.zero fun _ => nofun
  begun := nofun
  quiet := nofun

end SchedulerRun

end NirnProxy
