import NirnProxy.Serve.Books

/-! What the steps that are not a request's own leave alone, and how far `Close` has come. -/

universe u

namespace NirnProxy

open Function (update)
open Strings (ascii)
open scoped Parties

def FinishPc.hasCleared : FinishPc → Bool
  | .idle | .cluster | .clients => false
  | .transport | .wait | .closed => true

def FinishPc.hasLeft : FinishPc → Bool
  | .idle | .cluster => false
  | .clients | .transport | .wait | .closed => true

namespace ServeRun

variable {π : Type u} [DecidableEq π] {cfg : ServeConfig π} {s t : ServeRun π} {p : π}

inductive Around (cfg : ServeConfig π) (s : ServeRun π) (x : ServeAction π) : ServeRun π → Prop
  | cluster (overCapacity routes) :
      Around cfg s x { s with clusterOverCapacity := overCapacity, routes := routes }
  | join : s.cancelled = false → Around cfg s x { s with joining := true }
  | joined : Around cfg s x { s with joining := false }
  | context {p i} (f) : x = .context p i → Around cfg s x (s.onContexts p f)
  | clients {a clients} : a.aside = true → s.clients.step cfg.clients a = some clients →
      Around cfg s x { s with clients := clients }
  | panics : s.cleared = true → s.clients.mu.creates = true →
      Around cfg s x { s with panicked := true }
  | table {a clients} : a.internal = true → ¬(s.cleared ∧ s.clients.mu.creates) →
      s.clients.step cfg.clients a = some clients → ¬(s.clients.mu.swept ∧ clients.mu.isFree) →
      Around cfg s x { s with clients := clients }
  | swept {a clients} : a.internal = true → ¬(s.cleared ∧ s.clients.mu.creates) →
      s.clients.step cfg.clients a = some clients → s.clients.mu.swept = true →
      clients.mu.isFree = true → ∀ left,
      Around cfg s x { s with clients := clients, sweeper := .states left }
  | ticker {now} : s.sweeper = .select → now ≤ s.clients.now →
      Around cfg s x { s with sweeper := .lock now }
  | exit : s.sweeper = .select → s.cancelled = true → Around cfg s x { s with sweeper := .exited }
  | lock {now clients} : s.sweeper = .lock now →
      s.clients.step cfg.clients (.sweepClients now) = some clients →
      Around cfg s x { s with clients := clients, sweeper := .clients }
  | states {left} : s.sweeper = .states left → Around cfg s x { s with sweeper := .select }
  | sweepLock {i left left'} : s.sweeper = .states left →
      Around cfg s x { s with sweeper := .state i left' }
  | sweepUnlock {i left} : s.sweeper = .state i left →
      Around cfg s x { s with sweeper := .states left }
  | close : s.closer = .idle → Around cfg s x { s with cancelled := true, closer := .cluster }
  | again : Around cfg s x s
  | leave : s.closer = .cluster → s.joining = false → Around cfg s x
      { s with routes := none, clusterOverCapacity := false, closer := .clients }
  | clear : s.closer = .clients → s.clients.mu.isFree = true → Around cfg s x { s with
      clients := { s.clients with maps := ⟨∅, ∅⟩ }, cleared := true, closer := .transport }
  | transport : s.closer = .transport → Around cfg s x { s with closer := .wait }
  | wait : s.closer = .wait → s.sweeper = .exited → Around cfg s x { s with closer := .closed }

theorem contextStep_eq {i : ContextInput} (hs : s.contextStep p i = some t) :
    ∃ f, t = s.onContexts p f := by
  cases i with
  | disconnect =>
    cases hs
    exact ⟨_, rfl⟩
  | afterFunc =>
    obtain ⟨-, hs⟩ := Option.ite_none_right_eq_some.mp hs
    cases hs
    exact ⟨_, rfl⟩
  | inheritRequest | inheritQueue | inheritAttempt | expireQueue | expireAttempt =>
    obtain ⟨c, -, rfl⟩ := Option.map_eq_some_iff.mp hs
    exact ⟨_, rfl⟩

theorem step_around {a : ServeAction π} (ha : ∀ p i, a ≠ .serve p i) (hs : s.step cfg a = some t) :
    Around cfg s a t := by
  cases a with
  | serve p i => exact absurd rfl (ha p i)
  | tick d =>
    obtain ⟨clients, hc, rfl⟩ := onClients_eq hs
    exact .clients rfl hc
  | cluster overCapacity routes =>
    cases hs
    exact .cluster _ _
  | join =>
    obtain ⟨hopen, hs⟩ := Option.ite_none_left_eq_some.mp hs
    cases hs
    exact .join (by simpa using fun h => hopen (.inl h))
  | joined =>
    obtain ⟨-, hs⟩ := Option.ite_none_right_eq_some.mp hs
    cases hs
    exact .joined
  | context p i =>
    obtain ⟨f, rfl⟩ := contextStep_eq hs
    exact .context f rfl
  | op p o =>
    simp only [step] at hs
    split at hs
    · obtain ⟨-, hs⟩ := Option.ite_none_right_eq_some.mp hs
      obtain ⟨clients, hc, rfl⟩ := onClients_eq hs
      exact .clients rfl hc
    · cases hs
  | table a =>
    obtain ⟨⟨hi, -⟩, hs⟩ := Option.ite_none_right_eq_some.mp hs
    split at hs
    · rename_i h
      cases hs
      exact .panics h.1 h.2
    · rename_i hn
      obtain ⟨u, hu, rfl⟩ := Option.map_eq_some_iff.mp hs
      obtain ⟨clients, hc, rfl⟩ := onClients_eq hu
      split
      · rename_i h
        exact .swept hi hn hc h.1 h.2 _
      · exact .table hi hn hc ‹_›
  | ticker now =>
    obtain ⟨h, hs⟩ := Option.ite_none_right_eq_some.mp hs
    cases hs
    exact .ticker h.1 h.2
  | sweeper =>
    simp only [step, sweeperStep] at hs
    split at hs
    · obtain ⟨hc, hs⟩ := Option.ite_none_right_eq_some.mp hs
      cases hs
      exact .exit ‹_› hc
    · obtain ⟨u, hu, rfl⟩ := Option.map_eq_some_iff.mp hs
      obtain ⟨clients, hc, rfl⟩ := onClients_eq hu
      exact .lock ‹_› hc
    · cases hs
      exact .states ‹_›
    · cases hs
      exact .sweepUnlock ‹_›
    all_goals cases hs
  | sweepLock i =>
    simp only [step, sweepLockStep] at hs
    split at hs
    · obtain ⟨-, hs⟩ := Option.ite_none_right_eq_some.mp hs
      cases hs
      exact .sweepLock ‹_›
    · cases hs
  | sweepState a =>
    simp only [step, sweepStateStep] at hs
    split at hs
    · obtain ⟨ha, hs⟩ := Option.ite_none_right_eq_some.mp hs
      obtain ⟨clients, hc, rfl⟩ := onClients_eq hs
      exact .clients (ClientAction.aside_of_sweeping ha) hc
    · cases hs
  | close =>
    simp only [step] at hs
    split at hs <;> cases hs
    · exact .close ‹_›
    · exact .again
  | closer =>
    simp only [step, closerStep] at hs
    split at hs
    · cases hs
    · cases hs
    · obtain ⟨hjoin, hs⟩ := Option.ite_none_left_eq_some.mp hs
      cases hs
      exact .leave ‹_› (by simpa using hjoin)
    · obtain ⟨hfree, hs⟩ := Option.ite_none_right_eq_some.mp hs
      cases hs
      exact .clear ‹_› hfree
    · cases hs
      exact .transport ‹_›
    · obtain ⟨hexit, hs⟩ := Option.ite_none_right_eq_some.mp hs
      cases hs
      exact .wait ‹_› hexit

theorem step_cases {a : ServeAction π} (hs : s.step cfg a = some t) :
    (∃ p, (∃ i, a = .serve p i) ∧ Turns cfg s p t) ∨ Around cfg s a t := by
  by_cases ha : ∃ p i, a = .serve p i
  · obtain ⟨p, i, rfl⟩ := ha
    exact .inl ⟨p, ⟨i, rfl⟩, serve_turns hs⟩
  · exact .inr (step_around (fun p i e => ha ⟨p, i, e⟩) hs)

namespace Around

variable {x : ServeAction π}

theorem aside (h : Around cfg s x t) : s.Aside t := by
  cases h <;> exact ⟨rfl, rfl, rfl, rfl, rfl⟩

theorem cancelled (h : Around cfg s x t) (hc : s.cancelled = true) : t.cancelled = true := by
  cases h with
  | close => rfl
  | _ => exact hc

theorem beside (h : Around cfg s x t) (hx : ∀ i, x ≠ .context p i) : Beside s t p := by
  cases h with
  | @context q i f e =>
    have hq : p ≠ q := fun h => hx i (h ▸ e)
    exact ⟨rfl, by simp [onContexts, hq], rfl, rfl, rfl, rfl, rfl⟩
  | _ => exact ⟨rfl, rfl, rfl, rfl, rfl, rfl, rfl⟩

end Around

theorem step_cancelled {a : ServeAction π} (hs : s.step cfg a = some t)
    (hc : s.cancelled = true) : t.cancelled = true := by
  obtain ⟨p, -, hturns⟩ | haround := step_cases hs
  · rwa [hturns.own.cancelled]
  · exact haround.cancelled hc

/-- The client table takes at most one step of its own, or its maps are set to nil. -/
theorem step_clients {a : ServeAction π} (hs : s.step cfg a = some t) : t.clients = s.clients ∨
    (∃ a, s.clients.step cfg.clients a = some t.clients) ∨
    s.clients.mu.isFree = true ∧ t.clients = { s.clients with maps := ⟨∅, ∅⟩ } := by
  obtain ⟨p, -, hturns⟩ | haround := step_cases hs
  · obtain h | ⟨a, -, h⟩ := hturns.own.clients
    · exact .inl h
    · exact .inr (.inl ⟨a, h⟩)
  · cases haround with
    | clients _ h | table _ _ h _ | swept _ _ h | lock _ h => exact .inr (.inl ⟨_, h⟩)
    | clear _ hfree => exact .inr (.inr ⟨hfree, rfl⟩)
    | _ => exact .inl rfl

theorem step_now {a : ServeAction π} (hs : s.step cfg a = some t) :
    s.clients.now ≤ t.clients.now := by
  obtain h | ⟨a, h⟩ | ⟨-, h⟩ := step_clients hs
  · rw [h]
  · exact ClientRun.step_now h
  · rw [h]

theorem step_beside {a : ServeAction π} (hserve : ∀ i, a ≠ .serve p i)
    (hcontext : ∀ i, a ≠ .context p i) (hs : s.step cfg a = some t) : Beside s t p := by
  obtain ⟨q, ⟨i, rfl⟩, hturns⟩ | haround := step_cases hs
  · exact hturns.own.others p fun e => hserve i (e ▸ rfl)
  · exact haround.beside hcontext

structure Closing (s : ServeRun π) : Prop where
  cancelled : s.closer ≠ .idle → s.cancelled = true
  joined : s.closer.hasLeft = true → s.joining = false
  exited : s.sweeper = .exited → s.cancelled = true
  cleared : s.cleared = s.closer.hasCleared
  closed : s.closer = .closed → s.sweeper = .exited
  swept : s.clients.mu.swept = true ↔ s.sweeper = .clients
  drained : s.cleared = true → s.clients.maps = ⟨∅, ∅⟩ ∧ Drained s.clients.mu
  panicked : s.panicked = false

omit [DecidableEq π] in
theorem Closing.cancelled_of_cleared (h : s.Closing) (hc : s.cleared = true) :
    s.cancelled = true := by
  refine h.cancelled fun hidle => ?_
  rw [h.cleared, hidle] at hc
  cases hc

omit [DecidableEq π] in
theorem Closing.outside (h : s.Closing) (ho : s.clients.Outside t.clients)
    (hc : t.cancelled = s.cancelled) (hj : t.joining = s.joining) (hcl : t.cleared = s.cleared)
    (hp : t.panicked = s.panicked) (hsw : t.sweeper = s.sweeper) (hfin : t.closer = s.closer) :
    t.Closing where
  cancelled := by rw [hfin, hc]; exact h.cancelled
  joined := by rw [hfin, hj]; exact h.joined
  exited := by rw [hsw, hc]; exact h.exited
  cleared := by rw [hcl, hfin]; exact h.cleared
  closed := by rw [hfin, hsw]; exact h.closed
  swept := by rw [ho.mu, hsw]; exact h.swept
  drained := by rw [hcl, ho.mu, ho.maps]; exact h.drained
  panicked := by rw [hp]; exact h.panicked

theorem Closing.own (h : s.Closing) (ho : Own cfg s p t) : t.Closing := by
  obtain he | ⟨a, ha, hs⟩ := ho.clients
  · refine h.outside ⟨?_, ?_, ?_⟩ ho.cancelled ho.joining ho.cleared ho.panicked ho.sweeper
      ho.closer
    all_goals simp [he]
  · cases ha with
    | endActive | endTouch =>
      exact h.outside (ClientRun.step_outside rfl rfl hs) ho.cancelled ho.joining ho.cleared
        ho.panicked ho.sweeper ho.closer
    | client hopen =>
      obtain ⟨hfree, hswept, -⟩ := ClientRun.client_mu hs
      have hcl : s.cleared = false := by
        rw [Bool.eq_false_iff]
        intro hc
        rw [h.cancelled_of_cleared hc] at hopen
        cases hopen
      have hsw := h.swept
      rw [hfree] at hsw
      refine ⟨?_, ?_, ?_, ?_, ?_, ?_, ?_, ?_⟩
      · rw [ho.closer, ho.cancelled]
        exact h.cancelled
      · rw [ho.closer, ho.joining]
        exact h.joined
      · rw [ho.sweeper, ho.cancelled]
        exact h.exited
      · rw [ho.cleared, ho.closer]
        exact h.cleared
      · rw [ho.closer, ho.sweeper]
        exact h.closed
      · rw [hswept, ho.sweeper]
        exact hsw
      · rw [ho.cleared, hcl]
        exact fun h => absurd h Bool.false_ne_true
      · rw [ho.panicked]
        exact h.panicked

omit [DecidableEq π] in
theorem Closing.sweeps {pc : SweeperPc} (h : s.Closing) (hs : s.sweeper ≠ .exited)
    (hs' : s.sweeper ≠ .clients) (hpc : pc ≠ .exited) (hpc' : pc ≠ .clients) :
    ({ s with sweeper := pc } : ServeRun π).Closing where
  cancelled := h.cancelled
  joined := h.joined
  exited he := absurd he hpc
  cleared := h.cleared
  closed hc := absurd (h.closed hc) hs
  swept := iff_of_false (fun hsw => hs' (h.swept.mp hsw)) hpc'
  drained := h.drained
  panicked := h.panicked

omit [DecidableEq π] in
theorem Closing.goes (h : s.Closing) (pc : FinishPc) (hjoin : s.joining = false)
    (hc : s.cancelled = true) (hcleared : s.cleared = pc.hasCleared)
    (hclosed : pc = .closed → s.sweeper = .exited) {overCapacity : Bool}
    {routes : Option ClusterTable} :
    ({ s with clusterOverCapacity := overCapacity, routes := routes, closer := pc } :
      ServeRun π).Closing where
  cancelled _ := hc
  joined _ := hjoin
  exited _ := hc
  cleared := hcleared
  closed := hclosed
  swept := h.swept
  drained := h.drained
  panicked := h.panicked

theorem Closing.around {x : ServeAction π} (h : s.Closing) (ha : Around cfg s x t) : t.Closing := by
  cases ha with
  | cluster | again | context =>
    exact h.outside ⟨rfl, rfl, fun _ _ => rfl⟩ rfl rfl rfl rfl rfl rfl
  | clients ha hs =>
    exact h.outside (ClientRun.step_outside (ClientAction.internal_of_aside ha)
      (ClientAction.locks_of_aside ha) hs) rfl rfl rfl rfl rfl rfl
  | joined => exact { h with joined := fun _ => rfl }
  | join hopen =>
    refine { h with joined := fun hleft => ?_ }
    have hc := h.cancelled fun hidle => by rw [hidle] at hleft; cases hleft
    cases hopen.symm.trans hc
  | panics hc hm =>
    have hd := (h.drained hc).2
    generalize s.clients.mu = mu at hm hd
    cases hd <;> cases hm
  | table hi _ hs hnot =>
    obtain ⟨hback, hon⟩ := ClientRun.step_swept hi hs
    refine { h with swept := ⟨fun hsw => h.swept.mp (hback hsw), ?_⟩, drained := fun hc => ?_ }
    · intro hsw
      have hswept := h.swept.mpr hsw
      exact (hon hswept).resolve_right fun hfree => hnot ⟨hswept, hfree⟩
    · obtain ⟨hmaps, hd⟩ := h.drained hc
      obtain ⟨hd', hmaps'⟩ := hd.step hmaps hi hs
      exact ⟨hmaps'.trans hmaps, hd'⟩
  | swept hi _ hs hsw hfree left =>
    have hsweeper := h.swept.mp hsw
    refine { h with
      exited := nofun, closed := fun hc => ?_, swept := ?_, drained := fun hc => ?_ }
    · cases hsweeper.symm.trans (h.closed hc)
    · simp [ClientsMu.eq_free hfree, ClientsMu.swept]
    · obtain ⟨hmaps, hd⟩ := h.drained hc
      obtain ⟨hd', hmaps'⟩ := hd.step hmaps hi hs
      exact ⟨hmaps'.trans hmaps, hd'⟩
  | ticker hs | states hs | sweepLock hs | sweepUnlock hs =>
    exact h.sweeps (by simp [hs]) (by simp [hs]) nofun nofun
  | exit hsel hc =>
    exact { h with exited := fun _ => hc, closed := fun _ => rfl, swept := by simp [h.swept, hsel] }
  | lock hl hs =>
    obtain ⟨-, rfl⟩ := ClientRun.sweepClients_mu hs
    refine { h with
      exited := nofun, closed := fun hc => ?_, swept := by simp [ClientsMu.swept]
      drained := fun hc => ?_ }
    · cases hl.symm.trans (h.closed hc)
    · obtain ⟨hmaps, -⟩ := h.drained hc
      refine ⟨hmaps, ?_⟩
      simp only [hmaps]
      exact .bots _
  | close hidle =>
    have hcl : s.cleared = false := by rw [h.cleared, hidle]; rfl
    exact { h with
      cancelled := fun _ => rfl, joined := nofun, exited := fun _ => rfl, cleared := hcl
      closed := nofun }
  | leave hcl hjoin =>
    have hcleared : s.cleared = false := by rw [h.cleared, hcl]; rfl
    exact h.goes .clients hjoin (h.cancelled (by simp [hcl])) hcleared nofun
  | clear hcl hfree =>
    have hcan := h.cancelled (by simp [hcl])
    have hjoin := h.joined (by rw [hcl]; rfl)
    refine ⟨fun _ => hcan, fun _ => hjoin, fun _ => hcan, rfl, nofun, h.swept, fun _ => ⟨rfl, ?_⟩,
      h.panicked⟩
    simp only [ClientsMu.eq_free hfree]
    exact .free
  | transport hcl =>
    have hcleared : s.cleared = true := by rw [h.cleared, hcl]; rfl
    exact h.goes .wait (h.joined (by rw [hcl]; rfl)) (h.cancelled (by simp [hcl])) hcleared nofun
  | wait hcl hex =>
    have hcleared : s.cleared = true := by rw [h.cleared, hcl]; rfl
    exact h.goes .closed (h.joined (by rw [hcl]; rfl)) (h.cancelled (by simp [hcl])) hcleared
      fun _ => hex

theorem Closing.step {a : ServeAction π} (h : s.Closing) (hs : s.step cfg a = some t) :
    t.Closing := by
  obtain ⟨p, -, hturns⟩ | haround := step_cases hs
  · exact h.own hturns.own
  · exact h.around haround

theorem closing_of_reachable (h : (system cfg).Reachable s) : s.Closing := by
  refine System.Reach.invariant ?_ (fun s a t ih _ hs => ih.step hs) h
  rintro s ⟨now, rfl⟩
  constructor <;>
    simp [start, ClientRun.start, FinishPc.hasCleared, FinishPc.hasLeft, ClientsMu.swept]

theorem start_reachable (now : Int) : (system cfg).Reachable (start cfg now) := .init ⟨now, rfl⟩

def oneSlot : ServeConfig (Fin 2) where
  request _ := ⟨ascii "GET", ascii "/api/v10/gateway", [], [], [], []⟩
  enableMetrics := true
  maxBearerClients := 1
  maxBucketStates := 1
  maxClientStates := 1
  maxInFlightRequests := 1
  maxQueueDepth := 1
  globalLimit _ := 50
  queueTimeout := 60
  upstreamTimeout := 5

end ServeRun

end NirnProxy
