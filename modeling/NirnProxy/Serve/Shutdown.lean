import NirnProxy.Client.Progress
import NirnProxy.Serve.Closing

/-! `Close` comes to its end whatever the requests do. -/

universe u

namespace NirnProxy

open scoped Parties

namespace ServeRun

variable {π : Type u} [DecidableEq π] {cfg : ServeConfig π} {s t : ServeRun π} {p : π}

theorem clients_reachable (h : (system cfg).Reachable s) (hc : s.cleared = false) :
    (ClientRun.system cfg.clients).Reachable s.clients := by
  revert hc
  refine System.Reach.invariant
    (I := fun s => s.cleared = false → (ClientRun.system cfg.clients).Reachable s.clients) ?_ ?_ h
  · rintro s ⟨now, rfl⟩ -
    exact .init ⟨now, rfl⟩
  · intro s a t ih _ hs hc
    obtain ⟨p, -, hturns⟩ | haround := step_cases hs
    · have hr := ih (hturns.own.cleared ▸ hc)
      obtain he | ⟨a, -, hstep⟩ := hturns.own.clients
      · exact he ▸ hr
      · exact hr.next hstep
    · cases haround with
      | clients _ hstep | table _ _ hstep _ | swept _ _ hstep => exact (ih hc).next hstep
      | lock _ hstep => exact (ih hc).next (a := .sweepClients _) hstep
      | clear => cases hc
      | _ => exact ih hc

theorem ticked_of_reachable {now : Int} (h : (system cfg).Reachable s)
    (hl : s.sweeper = .lock now) : now ≤ s.clients.now := by
  revert hl
  refine System.Reach.invariant (I := fun s => s.sweeper = .lock now → now ≤ s.clients.now) ?_ ?_ h
  · rintro s ⟨_, rfl⟩ hl
    cases hl
  · intro s a t ih _ hs hl
    have hnow := step_now hs
    obtain ⟨p, -, hturns⟩ | haround := step_cases hs
    · exact Int.le_trans (ih (hturns.own.sweeper ▸ hl)) hnow
    · cases haround with
      | ticker _ hle =>
        cases hl
        exact hle
      | swept | exit | lock | states | sweepLock | sweepUnlock => cases hl
      | _ => exact Int.le_trans (ih hl) hnow

/-- The steps of the proxy's own goroutines, the end of a join, and the steps of whoever holds
`clientsMu`. -/
def Teardown (_ : ServeRun π) : ServeAction π → Prop
  | .closer | .sweeper | .sweepLock _ | .joined | .table _ => True
  | _ => False

def Released (s : ServeRun π) : Prop := ∀ i left, s.sweeper ≠ .state i left

omit [DecidableEq π] in
theorem Released.unlocked (h : s.Released) (a : ClientAction π (Vector UInt8 32)) :
    s.unlocked a = true := by
  unfold ServeRun.unlocked
  split
  · exact absurd ‹_› (h _ _)
  · rfl

omit [DecidableEq π] in
@[simp] theorem unlocked_visited (s : ServeRun π) : s.unlocked .visited = true := by
  unfold ServeRun.unlocked
  split <;> rfl

theorem leads_released (cfg : ServeConfig π) (s : ServeRun π) :
    ∃ t, (system cfg).Leads Teardown s t ∧ t.Released ∧ t.clients = s.clients ∧
      t.closer = s.closer ∧ t.cleared = s.cleared := by
  cases hs : s.sweeper with
  | state i left =>
    refine ⟨{ s with sweeper := .states left }, .step (a := ServeAction.sweeper) .refl trivial ?_,
      by simp [Released], rfl, rfl, rfl⟩
    simp [system, step, sweeperStep, hs]
  | _ => exact ⟨s, .refl, by simp [Released, hs], rfl, rfl, rfl⟩

theorem leads_table {c : ClientRun π (Vector UInt8 32)}
    (h : (ClientRun.system cfg.clients).Leads ClientRun.Inside s.clients c)
    (hrel : s.Released) (hc : s.cleared = false) :
    ∃ t, (system cfg).Leads Teardown s t ∧ t.clients = c ∧ t.closer = s.closer ∧
      t.cleared = false ∧ t.Released := by
  induction h with
  | refl => exact ⟨s, .refl, rfl, rfl, hc, hrel⟩
  | @step c a c' _ hi hstep ih =>
    obtain ⟨t, ht, rfl, hcl, hclear, hrel⟩ := ih
    have htable : ∃ u, t.step cfg (.table a) = some u ∧ u.clients = c' ∧ u.closer = t.closer ∧
        u.cleared = t.cleared ∧ u.Released := by
      have hon : t.onClients cfg a = some { t with clients := c' } := by
        unfold onClients
        rw [show t.clients.step cfg.clients a = some c' from hstep]
        rfl
      simp only [step, tableStep, show a.internal = true from hi, hrel.unlocked, and_self, if_true,
        hclear, Bool.false_eq_true, false_and, if_false, hon, Option.map_some]
      refine ⟨_, rfl, ?_⟩
      split
      · exact ⟨rfl, rfl, rfl, by simp [Released]⟩
      · exact ⟨rfl, rfl, rfl, hrel⟩
    obtain ⟨u, hu, hcu, hclu, hclearu, hrelu⟩ := htable
    exact ⟨u, .step (a := ServeAction.table a) ht trivial hu, hcu, hclu.trans hcl,
      hclearu.trans hclear, hrelu⟩

theorem leads_bearers (cfg : ServeConfig π) {now : Int}
    (hmu : s.clients.mu = .search ⟨.sweepBearers, now, [], none, .next⟩) :
    ∃ left, (system cfg).Leads Teardown s
      { s with clients := { s.clients with mu := .free }, sweeper := .states left } := by
  let t : ServeRun π := { s with clients := { s.clients with mu := .free } }
  refine ⟨t.sweepStates, .step (a := ServeAction.table .visited) .refl trivial ?_⟩
  simp [t, system, step, tableStep, onClients, ClientRun.step, ClientRun.visited,
    ClientAction.internal, ClientsMu.creates, ClientsMu.swept, ClientsMu.isFree, hmu]

theorem leads_bots (cfg : ServeConfig π) {now : Int} (hm : s.clients.maps = ⟨∅, ∅⟩)
    (hmu : s.clients.mu = .search ⟨.sweepBots, now, [], none, .next⟩) :
    ∃ left, (system cfg).Leads Teardown s
      { s with clients := { s.clients with mu := .free }, sweeper := .states left } := by
  obtain ⟨left, h⟩ := leads_bearers cfg (s := { s with clients := { s.clients with
    mu := .search ⟨.sweepBearers, now, [], none, .next⟩ } }) rfl
  refine ⟨left, h.head (a := ServeAction.table .visited) trivial ?_⟩
  simp [system, step, tableStep, onClients, ClientRun.step, ClientRun.visited,
    ClientAction.internal, ClientsMu.creates, ClientsMu.isFree, hmu, hm, ClientMaps.bearerKeys]

theorem leads_swept (hm : s.clients.maps = ⟨∅, ∅⟩) (hd : Drained s.clients.mu)
    (hne : s.clients.mu ≠ .free) : ∃ left, (system cfg).Leads Teardown s
      { s with clients := { s.clients with mu := .free }, sweeper := .states left } := by
  generalize hmu : s.clients.mu = mu at hd hne
  cases hd with
  | free => exact absurd rfl hne
  | bots now => exact leads_bots cfg hm hmu
  | bearers now => exact leads_bearers cfg hmu

/-- `clientsMu` becomes free: its holder waits for nobody but the sweeper, which waits for nobody
while it holds the lock of a state. -/
theorem leads_free (h : (system cfg).Reachable s) :
    ∃ t, (system cfg).Leads Teardown s t ∧ t.clients.mu = .free ∧ t.closer = s.closer := by
  by_cases hc : s.cleared = true
  · by_cases hfree : s.clients.mu = .free
    · exact ⟨s, .refl, hfree, rfl⟩
    · obtain ⟨hm, hd⟩ := (closing_of_reachable h).drained hc
      obtain ⟨left, hl⟩ := leads_swept hm hd hfree
      exact ⟨_, hl, rfl, rfl⟩
  rw [Bool.not_eq_true] at hc
  obtain ⟨t, ht, hrel, hclients, hcl, hclear⟩ := leads_released cfg s
  have hready := ClientRun.ready_of_reachable (clients_reachable h hc)
  obtain ⟨c, hl, hfree⟩ := ClientRun.section_ends cfg.clients hready
  obtain ⟨u, hu, rfl, hclu, -⟩ := leads_table (hclients ▸ hl) hrel (hclear.trans hc)
  exact ⟨u, ht.trans hu, hfree, hclu.trans hcl⟩

def Finishes (cfg : ServeConfig π) (s : ServeRun π) : Prop :=
  ∃ t, (system cfg).Leads Teardown s t ∧ t.closer = .closed

theorem Finishes.leads (h : Finishes cfg t) (hl : (system cfg).Leads Teardown s t) :
    Finishes cfg s := by
  obtain ⟨u, hu, hclosed⟩ := h
  exact ⟨u, hl.trans hu, hclosed⟩

theorem Finishes.head {a : ServeAction π} (h : Finishes cfg t) (ha : Teardown s a)
    (hs : s.step cfg a = some t) : Finishes cfg s := h.leads (.step .refl ha hs)

theorem finishes_exited (hcl : s.closer = .wait) (hsw : s.sweeper = .exited) : Finishes cfg s :=
  ⟨{ s with closer := .closed }, .step (a := ServeAction.closer) .refl trivial
    (by simp [system, step, closerStep, hcl, hsw]), rfl⟩

theorem finishes_select (hcl : s.closer = .wait) (hc : s.cancelled = true)
    (hsw : s.sweeper = .select) : Finishes cfg s :=
  (finishes_exited (s := { s with sweeper := .exited }) hcl rfl).head (a := .sweeper) trivial
    (by simp [step, sweeperStep, hsw, hc])

theorem finishes_states {left : List Nat} (hcl : s.closer = .wait) (hc : s.cancelled = true)
    (hr : ∀ i, s.clients.rlocked i = false) (hsw : s.sweeper = .states left) : Finishes cfg s := by
  induction left generalizing s with
  | nil =>
    refine (finishes_select (s := { s with sweeper := .select }) hcl hc rfl).head (a := .sweeper)
      trivial ?_
    simp [step, sweeperStep, hsw]
  | cons i left ih =>
    have hlock : s.step cfg (.sweepLock i) = some { s with sweeper := .state i left } := by
      simp [step, sweepLockStep, hsw, hr]
    have hunlock : ({ s with sweeper := .state i left } : ServeRun π).step cfg .sweeper =
        some { s with sweeper := .states left } := rfl
    exact ((ih (s := { s with sweeper := .states left }) hcl hc hr rfl).head (a := .sweeper) trivial
      hunlock).head (a := .sweepLock i) trivial hlock

theorem finishes_state {i : Nat} {left : List Nat} (hcl : s.closer = .wait)
    (hc : s.cancelled = true) (hr : ∀ i, s.clients.rlocked i = false)
    (hsw : s.sweeper = .state i left) : Finishes cfg s :=
  (finishes_states (s := { s with sweeper := .states left }) hcl hc hr rfl).head (a := .sweeper)
    trivial (by simp [step, sweeperStep, hsw])

theorem finishes_lock {now : Int} (hcl : s.closer = .wait) (hc : s.cancelled = true)
    (hm : s.clients.maps = ⟨∅, ∅⟩) (hfree : s.clients.mu = .free) (hnow : now ≤ s.clients.now)
    (hsw : s.sweeper = .lock now) : Finishes cfg s := by
  let t : ServeRun π := { s with
    clients := { s.clients with mu := .search ⟨.sweepBots, now, [], none, .next⟩ }
    sweeper := .clients }
  have hs : s.step cfg .sweeper = some t := by
    simp [t, step, sweeperStep, onClients, ClientRun.step, hsw, hfree, hnow, hm, ClientMaps.botKeys]
  obtain ⟨left, hl⟩ := leads_bots cfg (s := t) hm rfl
  refine Finishes.head (a := .sweeper) (Finishes.leads ?_ hl) trivial hs
  exact finishes_states hcl hc (fun _ => rfl) rfl

theorem finishes_wait (h : (system cfg).Reachable s) (hcl : s.closer = .wait) :
    Finishes cfg s := by
  have hinv := closing_of_reachable h
  have hc := hinv.cancelled (by simp [hcl])
  obtain ⟨hm, hd⟩ := hinv.drained (by rw [hinv.cleared, hcl]; rfl)
  have hswept := hinv.swept
  cases hsw : s.sweeper with
  | exited => exact finishes_exited hcl hsw
  | select => exact finishes_select hcl hc hsw
  | states left => exact finishes_states hcl hc hd.rlocked hsw
  | state i left => exact finishes_state hcl hc hd.rlocked hsw
  | lock now =>
    refine finishes_lock hcl hc hm ?_ (ticked_of_reachable h hsw) hsw
    generalize s.clients.mu = mu at hd hswept
    cases hd with
    | free => rfl
    | bots | bearers => simp [hsw, ClientsMu.swept] at hswept
  | clients =>
    have hne : s.clients.mu ≠ .free := by
      intro hfree
      simp [hsw, hfree, ClientsMu.swept] at hswept
    obtain ⟨left, hl⟩ := leads_swept hm hd hne
    refine Finishes.leads ?_ hl
    exact finishes_states hcl hc (fun _ => rfl) rfl

theorem finishes_transport (h : (system cfg).Reachable s) (hcl : s.closer = .transport) :
    Finishes cfg s := by
  have hs : s.step cfg .closer = some { s with closer := .wait } := by simp [step, closerStep, hcl]
  exact (finishes_wait (h.next (a := ServeAction.closer) hs) rfl).head (a := .closer) trivial hs

theorem finishes_clients (h : (system cfg).Reachable s) (hcl : s.closer = .clients) :
    Finishes cfg s := by
  obtain ⟨t, ht, hfree, hcl'⟩ := leads_free h
  refine Finishes.leads ?_ ht
  obtain ⟨u, hu, hcu⟩ : ∃ u, t.step cfg .closer = some u ∧ u.closer = .transport := by
    simp only [step, closerStep, hcl', hcl, hfree]
    exact ⟨_, rfl, rfl⟩
  have hreach := (ht.reachable h).next (a := ServeAction.closer) hu
  exact (finishes_transport hreach hcu).head (a := .closer) trivial hu

theorem finishes_left (h : (system cfg).Reachable s) (hcl : s.closer = .cluster)
    (hjoin : s.joining = false) : Finishes cfg s := by
  obtain ⟨u, hu, hcu⟩ : ∃ u, s.step cfg .closer = some u ∧ u.closer = .clients := by
    simp only [step, closerStep, hcl, hjoin]
    exact ⟨_, rfl, rfl⟩
  exact (finishes_clients (h.next (a := ServeAction.closer) hu) hcu).head (a := .closer) trivial hu

theorem finishes_cluster (h : (system cfg).Reachable s) (hcl : s.closer = .cluster) :
    Finishes cfg s := by
  cases hjoin : s.joining with
  | false => exact finishes_left h hcl hjoin
  | true =>
    have hs : s.step cfg .joined = some { s with joining := false } := by simp [step, hjoin]
    exact (finishes_left (h.next (a := ServeAction.joined) hs) hcl rfl).head (a := .joined) trivial
      hs

theorem step_closed {a : ServeAction π} (hcl : s.closer = .closed) (hs : s.step cfg a = some t) :
    t.closer = .closed := by
  obtain ⟨p, -, hturns⟩ | haround := step_cases hs
  · exact hturns.own.closer.trans hcl
  · cases haround with
    | close h | leave h | clear h | transport h | wait h => cases hcl.symm.trans h
    | _ => exact hcl

theorem finishes_of_reachable (h : (system cfg).Reachable s) (hc : s.closer ≠ .idle) :
    Finishes cfg s := by
  cases hcl : s.closer with
  | idle => exact absurd hcl hc
  | cluster => exact finishes_cluster h hcl
  | clients => exact finishes_clients h hcl
  | transport => exact finishes_transport h hcl
  | wait => exact finishes_wait h hcl
  | closed => exact ⟨s, .refl, hcl⟩

/-- Once `Close` has been called, its own steps, those of the sweeper, the end of a join in progress
and the steps of the holder of `clientsMu` lead to its end, and from there on nothing is left. -/
theorem close_finishes (h : (system cfg).Reachable s) (hc : s.closer ≠ .idle) :
    ∃ t, (system cfg).Leads Teardown s t ∧ t.closer = .closed ∧
      ∀ u, (system cfg).Leads (fun _ _ => True) t u → u.closer = .closed ∧ u.sweeper = .exited ∧
        u.joining = false ∧ u.clients.maps = ⟨∅, ∅⟩ ∧ u.clients.mu = .free ∧
        u.panicked = false := by
  obtain ⟨t, ht, hclosed⟩ := finishes_of_reachable h hc
  refine ⟨t, ht, hclosed, fun u hu => ?_⟩
  have hcu : u.closer = .closed := by
    induction hu with
    | refl => exact hclosed
    | step _ _ hs ih => exact step_closed ih hs
  have hinv := closing_of_reachable (hu.reachable (ht.reachable h))
  have hex := hinv.closed hcu
  obtain ⟨hm, hd⟩ := hinv.drained (by rw [hinv.cleared, hcu]; rfl)
  refine ⟨hcu, hex, hinv.joined (by rw [hcu]; rfl), hm, ?_, hinv.panicked⟩
  have hswept := hinv.swept
  generalize u.clients.mu = mu at hd hswept
  cases hd with
  | free => rfl
  | bots | bearers => simp [hex, ClientsMu.swept] at hswept

theorem close_finishes_joining : ∃ s t : ServeRun (Fin 2), (system oneSlot).Reachable s ∧
    s.closer = .cluster ∧ s.joining = true ∧ s.sweeper = .clients ∧
    (system oneSlot).Leads Teardown s t ∧ t.closer = .closed := by
  have hrun : ((system oneSlot).run (start oneSlot 0) [.join, .ticker 0, .sweeper, .close]).map
      (fun s => decide (s.closer = .cluster ∧ s.joining = true ∧ s.sweeper = .clients)) =
        some true := by
    decide +kernel
  obtain ⟨s, hs, hobs⟩ := Option.map_eq_some_iff.mp hrun
  obtain ⟨hcl, hjoin, hsw⟩ := of_decide_eq_true hobs
  have hreach := System.Reachable.run (start_reachable 0) hs
  obtain ⟨t, ht, hclosed, -⟩ := close_finishes hreach (by simp [hcl])
  exact ⟨s, t, hreach, hcl, hjoin, hsw, ht, hclosed⟩

end ServeRun

end NirnProxy
