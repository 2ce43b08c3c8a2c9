import NirnProxy.Serve.Phases
import NirnProxy.Serve.Shutdown

/-! After `Close` the proxy empties: the end of its context reaches the requests in progress, and
they return and give back what they hold without a client, Discord or another node. -/

universe u

namespace NirnProxy

open Function (update update_self)
open scoped Parties

/-- The end of one context that ends another. -/
def ContextInput.passes : ContextInput → Bool
  | .afterFunc | .inheritRequest | .inheritQueue | .inheritAttempt => true
  | .disconnect | .expireQueue | .expireAttempt => false

namespace ServeRun

variable {π : Type u} [DecidableEq π] {cfg : ServeConfig π} {s t : ServeRun π} {p : π}

/-- What is decided elsewhere: whether the budget of invalid requests has room for a request, and
whether it tries again after a 429. -/
structure Verdicts (π : Type u) where
  budget : ServeRun π → π → Bool
  retry : ServeRun π → π → Bool

variable {v : Verdicts π}

/-- What a request gets on with when nobody answers it: it learns at most that its context has
ended. -/
def Unaided (v : Verdicts π) (s : ServeRun π) (p : π) : ServeInput → Prop
  | .go | .queueError .done => True
  | .oracle ok => ok = v.budget s p
  | .retry => v.retry s p = true
  | .relay => v.retry s p = false
  | .fails e => e = contextCanceled ∧ (s.contexts p).attempt.cause.isSome = true
  | .peer r => r = none ∧ (s.contexts p).request.cause.isSome = true
  | .abort => (s.contexts p).request.cause.isSome = true
  | _ => False

/-- The steps that are left when no request comes in. -/
def Winding (v : Verdicts π) (s : ServeRun π) : ServeAction π → Prop
  | .serve p i => (s.frame p).pc ≠ .idle ∧ Unaided v s p i
  | .context _ i => i.passes = true
  | a => Teardown s a

omit [DecidableEq π] in
theorem Teardown.winding {a : ServeAction π} (h : Teardown s a) : Winding v s a := by
  cases a with
  | serve | context => cases h
  | _ => exact h

structure Done (cfg : ServeConfig π) (s : ServeRun π) : Prop where
  reachable : (system cfg).Reachable s
  cancelled : s.cancelled = true

theorem Done.step {a : ServeAction π} (h : Done cfg s) (hs : s.step cfg a = some t) :
    Done cfg t := ⟨h.reachable.next hs, step_cancelled hs h.cancelled⟩

theorem Done.leads {C : ServeRun π → ServeAction π → Prop} (h : Done cfg s)
    (hl : (system cfg).Leads C s t) : Done cfg t := by
  induction hl with
  | refl => exact h
  | step _ _ hs ih => exact ih.step hs

theorem leads_teardown_frame (hl : (system cfg).Leads Teardown s t) : t.frame = s.frame := by
  induction hl with
  | refl => rfl
  | step _ hc hs ih =>
    obtain ⟨p, ⟨i, rfl⟩, -⟩ | haround := step_cases hs
    · cases hc
    · exact haround.aside.frame.trans ih

def Returns (v : Verdicts π) (cfg : ServeConfig π) (s : ServeRun π) (p : π) : Prop :=
  ∃ t, (system cfg).Leads (Winding v) s t ∧ (t.frame p).pc = .returned ∧
    ∀ q, q ≠ p → t.frame q = s.frame q

theorem Returns.leads (h : Returns v cfg t p) (hl : (system cfg).Leads (Winding v) s t)
    (hf : t.frame = s.frame) : Returns v cfg s p := by
  obtain ⟨u, hu, hpc, hq⟩ := h
  exact ⟨u, hl.trans hu, hpc, hf ▸ hq⟩

theorem returns_step {i : ServeInput} (h : Done cfg s) (hidle : (s.frame p).pc ≠ .idle)
    (hs : s.serveStep cfg p i = some t) (hi : Unaided v s p i)
    (ht : Done cfg t → Returns v cfg t p) : Returns v cfg s p := by
  obtain ⟨u, hu, hpc, hq⟩ := ht (h.step (a := .serve p i) hs)
  refine ⟨u, hu.head (a := ServeAction.serve p i) ⟨hidle, hi⟩ hs, hpc, fun q hne => ?_⟩
  exact (hq q hne).trans ((serve_turns hs).own.others q hne).frame

theorem exists_runDeferred {d : Deferred} {ds : List Deferred} (h : (system cfg).Reachable s)
    (hpc : (s.frame p).pc = .unwind) (hd : (s.frame p).deferred = d :: ds) :
    ∃ t, s.runDeferred cfg p d = some t := by
  have ha := agrees_of_reachable h p
  have hshape := (booked_of_reachable h).shaped p
  unfold Shaped at hshape
  rw [hpc, hd] at hshape
  cases d with
  | release | cancel | dec => exact ⟨_, rfl⟩
  | endActive =>
    obtain ⟨i, hi⟩ := ha.active (by rw [hd]; exact List.mem_cons_self)
    simp [runDeferred, onClients, ClientRun.step, hi]
  | endTouch =>
    have hnot : .endActive ∉ (s.frame p).deferred := by
      rw [hd]
      simpa using hshape.endActive_notMem
    obtain ⟨i, time, hi⟩ := ha.ending (by rw [hd]; exact List.mem_cons_self) hnot
    simp [runDeferred, onClients, ClientRun.step, hi]

theorem returns_unwind (h : Done cfg s) (hpc : (s.frame p).pc = .unwind) : Returns v cfg s p := by
  -- by the deferred calls that are left: each of them can be run, whatever the others do
  induction hd : (s.frame p).deferred generalizing s with
  | nil =>
    have hs : s.serveStep cfg p .go = some (s.goto p .returned) := by
      unfold serveStep
      rw [hpc, hd]
    exact returns_step h (by simp [hpc]) hs trivial fun _ => ⟨_, .refl, by simp, fun _ _ => rfl⟩
  | cons d ds ih =>
    obtain ⟨u, hu⟩ := exists_runDeferred h.reachable hpc hd
    have hs : s.serveStep cfg p .go = some { u with frame := update u.frame p ⟨.unwind, ds⟩ } := by
      unfold serveStep
      rw [hpc, hd]
      exact congrArg (Option.map _) hu
    exact returns_step h (by simp [hpc]) hs trivial fun ht => ih ht (by simp) (by simp)

theorem returns_back {i : ServeInput} (h : Done cfg s) (hidle : (s.frame p).pc ≠ .idle)
    (hs : s.serveStep cfg p i = some t) (hi : Unaided v s p i) (hpc : (t.frame p).pc = .unwind) :
    Returns v cfg s p := returns_step h hidle hs hi fun ht => returns_unwind ht hpc

theorem returns_failed {e : GoError} (h : Done cfg s) (hpc : (s.frame p).pc = .failed e) :
    Returns v cfg s p := by
  have hs : s.serveStep cfg p .go = some (s.answer p (discordError s.cancelled e)) := by
    unfold serveStep
    rw [hpc]
  exact returns_back h (by simp [hpc]) hs trivial (by simp [answer])

theorem leads_context {i : ContextInput} {f : RequestContexts → RequestContexts}
    (hi : i.passes = true) (hs : s.contextStep p i = some (s.onContexts p f)) :
    (system cfg).Leads (Winding v) s (s.onContexts p f) :=
  .step (a := ServeAction.context p i) .refl hi hs

theorem leads_request (h : Done cfg s)
    (hl : (s.frame p).pc.level ∈ [Level.opened, .client, .relay]) :
    ∃ t, (system cfg).Leads (Winding v) s t ∧ t.frame = s.frame ∧
      (t.contexts p).request.cause.isSome = true := by
  have hmem := ((booked_of_reachable h.reachable).shaped p).cancel_mem hl
  obtain hafter | hended := armed_of_reachable h.reachable p hmem
  · refine ⟨_, leads_context (p := p) (i := .afterFunc) (f := fun c => { c with
      request := c.request.cancel contextCanceled, afterFunc := false }) rfl ?_, rfl, ?_⟩
    · simp [contextStep, h.cancelled, hafter]
    · simp [onContexts]
  · exact ⟨s, .refl, rfl, hended⟩

theorem leads_queue (h : Done cfg s) (hl : (s.frame p).pc.level ∈ [Level.opened, .client, .relay]) :
    ∃ t, (system cfg).Leads (Winding v) s t ∧ t.frame = s.frame ∧
      (t.contexts p).queue.cause.isSome = true := by
  obtain ⟨t, ht, hf, hended⟩ := leads_request h hl
  obtain ⟨c, hc⟩ := Context.exists_inherit (c := (t.contexts p).queue) hended
  refine ⟨_, ht.trans (leads_context (p := p) (i := .inheritQueue) (f := ({ · with queue := c }))
    rfl ?_), hf, ?_⟩
  · simp [contextStep, hc]
  · simpa [onContexts] using Context.isSome_cause_inherit hc

theorem leads_attempt (h : Done cfg s)
    (hl : (s.frame p).pc.level ∈ [Level.opened, .client, .relay]) :
    ∃ t, (system cfg).Leads (Winding v) s t ∧ t.frame = s.frame ∧
      (t.contexts p).attempt.cause.isSome = true := by
  obtain ⟨t, ht, hf, hended⟩ := leads_queue h hl
  obtain ⟨c, hc⟩ := Context.exists_inherit (c := (t.contexts p).attempt) hended
  refine ⟨_, ht.trans (leads_context (p := p) (i := .inheritAttempt)
    (f := ({ · with attempt := c })) rfl ?_), hf, ?_⟩
  · simp [contextStep, hc]
  · simpa [onContexts] using Context.isSome_cause_inherit hc

theorem returns_relay (left : List UInt8) (h : Done cfg s) (hpc : (s.frame p).pc = .relay left) :
    Returns v cfg s p := by
  obtain ⟨t, ht, hf, hended⟩ := leads_request h (p := p) (by simp [hpc, HandlerPc.level])
  have hpc' : (t.frame p).pc = .relay left := by rw [hf, hpc]
  have hs : t.serveStep cfg p .abort =
      some (({ t with aborted := update t.aborted p true }.endContexts p).goto p .unwind) := by
    unfold serveStep
    rw [hpc']
  exact (returns_back (h.leads ht) (by simp [hpc']) hs hended (by simp)).leads ht hf

theorem returns_peer {target : List UInt8} {hop : Nat} (h : Done cfg s)
    (hpc : (s.frame p).pc = .peer target hop) : Returns v cfg s p := by
  obtain ⟨t, ht, hf, hended⟩ := leads_request h (p := p) (by simp [hpc, HandlerPc.level])
  have hpc' : (t.frame p).pc = .peer target hop := by rw [hf, hpc]
  have hs : t.serveStep cfg p (.peer none) = some (t.answer p peerError) := by
    unfold serveStep
    rw [hpc']
  exact (returns_back (h.leads ht) (by simp [hpc']) hs ⟨rfl, hended⟩ (by simp [answer])).leads ht hf

section Trip

variable {stage : TripStage} {i : ServeInput}

theorem returns_trip (h : Done cfg s) (hpc : (s.frame p).pc = .trip stage)
    (hs : s.tripStep cfg p stage i = some t) (hi : Unaided v s p i)
    (ht : Done cfg t → Returns v cfg t p) : Returns v cfg s p := by
  have hserve : s.serveStep cfg p i = some t := by
    unfold serveStep
    rw [hpc]
    exact hs
  exact returns_step h (by simp [hpc]) hserve hi ht

theorem returns_fail {s' : ServeRun π} {e : GoError} (h : Done cfg s)
    (hpc : (s.frame p).pc = .trip stage) (hs : s.tripStep cfg p stage i = some (s'.fail p e))
    (hi : Unaided v s p i) : Returns v cfg s p :=
  returns_trip h hpc hs hi fun ht => returns_failed (e := e) ht (by simp [fail])

theorem returns_respond {r : HttpResponse} (h : Done cfg s) (hpc : (s.frame p).pc = .trip stage)
    (hs : s.tripStep cfg p stage i = some (s.respond p r)) (hi : Unaided v s p i) :
    Returns v cfg s p := by
  by_cases hstatus : r.status = 101
  · rw [respond, if_pos hstatus] at hs
    exact returns_fail h hpc hs hi
  · rw [respond, if_neg hstatus] at hs
    exact returns_trip h hpc hs hi fun ht => returns_relay r.body ht (by simp)

end Trip

theorem returns_queued (h : Done cfg s) (hpc : (s.frame p).pc = .trip .queued) :
    Returns v cfg s p := by
  obtain ⟨t, ht, hf, hended⟩ := leads_queue h (p := p) (by simp [hpc, HandlerPc.level])
  obtain ⟨cause, hcause⟩ := Option.isSome_iff_exists.mp hended
  have hs : t.tripStep cfg p .queued (.queueError .done) = some (t.fail p cause) := by
    simp [tripStep, hcause]
  exact (returns_fail (h.leads ht) (by rw [hf, hpc]) hs trivial).leads ht hf

theorem returns_inFlight (h : Done cfg s) (hpc : (s.frame p).pc = .trip .inFlight) :
    Returns v cfg s p := by
  obtain ⟨t, ht, hf, hended⟩ := leads_attempt h (p := p) (by simp [hpc, HandlerPc.level])
  have hs : t.tripStep cfg p .inFlight (.fails contextCanceled) =
      some (t.fail p ((t.contexts p).attempt.causeOr contextCanceled)) := rfl
  exact (returns_fail (h.leads ht) (by rw [hf, hpc]) hs ⟨rfl, hended⟩).leads ht hf

theorem returns_reserved (h : Done cfg s) (hpc : (s.frame p).pc = .trip .reserve) :
    Returns v cfg s p := by
  cases hok : v.budget s p with
  | false =>
    have hs : s.tripStep cfg p .reserve (.oracle false) =
        some (s.fail p errInvalidRequestBudget) := rfl
    exact returns_fail h hpc hs hok.symm
  | true =>
    have hs : s.tripStep cfg p .reserve (.oracle true) = some (s.goto p (.trip .inFlight)) := rfl
    exact returns_trip h hpc hs hok.symm fun ht => returns_inFlight ht (by simp)

theorem returns_limited {r : HttpResponse} (h : Done cfg s)
    (hpc : (s.frame p).pc = .trip (.limited r)) : Returns v cfg s p := by
  cases hretry : v.retry s p with
  | false =>
    have hs : s.tripStep cfg p (.limited r) .relay = some (s.respond p r) := rfl
    exact returns_respond h hpc hs hretry
  | true =>
    have hs : s.tripStep cfg p (.limited r) .retry = some ((s.onContexts p fun c =>
        { c with attempt := c.attempt.cancel contextCanceled }).goto p (.trip .queued)) := rfl
    exact returns_trip h hpc hs hretry fun ht => returns_queued ht (by simp)

theorem returns_queueContext (h : Done cfg s) (hpc : (s.frame p).pc = .trip .queueContext) :
    Returns v cfg s p := by
  obtain ⟨t, hs, hpc'⟩ : ∃ t, s.tripStep cfg p .queueContext .go = some t ∧
      (t.frame p).pc = .trip .queued := ⟨_, rfl, by simp⟩
  exact returns_trip h hpc hs trivial fun ht => returns_queued ht hpc'

theorem returns_available (h : Done cfg s) (hpc : (s.frame p).pc = .trip .available) :
    Returns v cfg s p := by
  cases hok : v.budget s p with
  | false =>
    have hs : s.tripStep cfg p .available (.oracle false) =
        some (s.fail p errInvalidRequestBudget) := rfl
    exact returns_fail h hpc hs hok.symm
  | true =>
    have hs : s.tripStep cfg p .available (.oracle true) =
        some (s.goto p (.trip .queueContext)) := rfl
    exact returns_trip h hpc hs hok.symm fun ht => returns_queueContext ht (by simp)

theorem Done.leads_free (h : Done cfg s) : ∃ t, (system cfg).Leads (Winding v) s t ∧
    t.clients.mu = .free ∧ t.frame = s.frame := by
  obtain ⟨t, ht, hfree, -⟩ := ServeRun.leads_free h.reachable
  exact ⟨t, ht.mono fun _ _ => Teardown.winding, hfree, leads_teardown_frame ht⟩

theorem returns_admission (h : Done cfg s) (hpc : (s.frame p).pc = .admission) :
    Returns v cfg s p := by
  obtain ⟨t, ht, hfree, hf⟩ := h.leads_free
  refine Returns.leads ?_ ht hf
  have hdone := h.leads ht
  have hpc' : (t.frame p).pc = .admission := by rw [hf, hpc]
  have howned := owned_of_reachable hdone.reachable p
  obtain hp | hp | ⟨i, hp⟩ := (agrees_of_reachable hdone.reachable p).called hpc'
  · -- nobody is in `client` while `clientsMu` is free
    rw [howned, hfree] at hp
    cases hp
  · have hs : t.serveStep cfg p .go =
        some (t.answer p (.writeUnavailable errTooManyClients.text)) := by
      unfold serveStep
      rw [hpc', hp]
    exact returns_back hdone (by simp [hpc']) hs trivial (by simp [answer])
  · have hs : t.serveStep cfg p .go =
        some ((t.defer p [.endActive, .endTouch]).goto p (.trip .available)) := by
      unfold serveStep
      rw [hpc', hp]
    exact returns_step hdone (by simp [hpc']) hs trivial fun hu => returns_available hu (by simp)

theorem returns_client (h : Done cfg s) (hpc : (s.frame p).pc = .client) : Returns v cfg s p := by
  obtain ⟨t, ht, hfree, hf⟩ := h.leads_free
  refine Returns.leads ?_ ht hf
  have hdone := h.leads ht
  have hpc' : (t.frame p).pc = .client := by rw [hf, hpc]
  have hs : t.serveStep cfg p .go = some (t.answer p (.writeUnavailable errProxyClosed.text)) := by
    unfold serveStep
    rw [hpc', hfree, hdone.cancelled]
    rfl
  exact returns_back hdone (by simp [hpc']) hs trivial (by simp [answer])

theorem returns_route {bucketPath : List UInt8} (h : Done cfg s)
    (hpc : (s.frame p).pc = .route bucketPath) : Returns v cfg s p := by
  have hs : ∃ t, s.serveStep cfg p .go = some t ∧ ((t.frame p).pc = .client ∨
      (t.frame p).pc = .unwind ∨ ∃ target hop, (t.frame p).pc = .peer target hop) := by
    unfold serveStep
    rw [hpc]
    refine ⟨_, rfl, ?_⟩
    split
    · exact .inl (by simp)
    · exact .inr (.inl (by simp [answer]))
    · exact .inr (.inr ⟨_, _, by simp; exact ⟨rfl, rfl⟩⟩)
  obtain ⟨t, hs, hpc'⟩ := hs
  refine returns_step h (by simp [hpc]) hs trivial fun ht => ?_
  obtain hpc' | hpc' | ⟨target, hop, hpc'⟩ := hpc'
  · exact returns_client ht hpc'
  · exact returns_unwind ht hpc'
  · exact returns_peer ht hpc'

theorem returns_inc {path bucketPath : List UInt8} (h : Done cfg s)
    (hpc : (s.frame p).pc = .inc path bucketPath) : Returns v cfg s p := by
  obtain ⟨t, hs, hpc'⟩ : ∃ t, s.serveStep cfg p .go = some t ∧
      (t.frame p).pc = .route bucketPath := by
    unfold serveStep
    rw [hpc]
    exact ⟨_, rfl, by simp⟩
  exact returns_step h (by simp [hpc]) hs trivial fun ht => returns_route ht hpc'

theorem returns_label (h : Done cfg s) (hpc : (s.frame p).pc = .label) : Returns v cfg s p := by
  have hs : ∃ t, s.serveStep cfg p .go = some t ∧
      ((∃ path bucketPath, (t.frame p).pc = .inc path bucketPath) ∨
        ∃ bucketPath, (t.frame p).pc = .route bucketPath) := by
    unfold serveStep
    rw [hpc]
    dsimp only
    split
    · exact ⟨_, rfl, .inl ⟨_, _, by rw [frame_goto]⟩⟩
    · exact ⟨_, rfl, .inr ⟨_, by rw [frame_goto]⟩⟩
  obtain ⟨t, hs, hpc'⟩ := hs
  refine returns_step h (by simp [hpc]) hs trivial fun ht => ?_
  obtain ⟨path, bucketPath, hpc'⟩ | ⟨bucketPath, hpc'⟩ := hpc'
  · exact returns_inc ht hpc'
  · exact returns_route ht hpc'

theorem returns_context (h : Done cfg s) (hpc : (s.frame p).pc = .context) : Returns v cfg s p := by
  obtain ⟨t, hs, hpc'⟩ : ∃ t, s.serveStep cfg p .go = some t ∧ (t.frame p).pc = .label := by
    unfold serveStep
    rw [hpc]
    exact ⟨_, rfl, by simp⟩
  exact returns_step h (by simp [hpc]) hs trivial fun ht => returns_label ht hpc'

theorem returns_capacity (h : Done cfg s) (hpc : (s.frame p).pc = .capacity) :
    Returns v cfg s p := by
  obtain ⟨t, hs, hpc'⟩ : ∃ t, s.serveStep cfg p .go = some t ∧
      ((t.frame p).pc = .unwind ∨ (t.frame p).pc = .context) := by
    unfold serveStep
    rw [hpc]
    refine ⟨_, rfl, ?_⟩
    split <;> simp [answer]
  refine returns_step h (by simp [hpc]) hs trivial fun ht => ?_
  exact hpc'.elim (returns_unwind ht) (returns_context ht)

theorem returns_tests (h : Done cfg s) (hpc : (s.frame p).pc = .tests) : Returns v cfg s p := by
  obtain ⟨t, hs, hpc'⟩ : ∃ t, s.serveStep cfg p .go = some t ∧
      ((t.frame p).pc = .unwind ∨ (t.frame p).pc = .capacity) := by
    unfold serveStep
    rw [hpc]
    refine ⟨_, rfl, ?_⟩
    split
    · exact .inl (by rw [answer, frame_goto])
    · split
      · exact .inl (by rw [answer, frame_goto])
      · exact .inr (by rw [frame_goto])
  refine returns_step h (by simp [hpc]) hs trivial fun ht => ?_
  exact hpc'.elim (returns_unwind ht) (returns_capacity ht)

theorem returns_reserve (h : Done cfg s) (hpc : (s.frame p).pc = .reserve) : Returns v cfg s p := by
  obtain ⟨t, hs, hpc'⟩ : ∃ t, s.serveStep cfg p .go = some t ∧
      ((t.frame p).pc = .unwind ∨ (t.frame p).pc = .tests) := by
    unfold serveStep
    rw [hpc]
    refine ⟨_, rfl, ?_⟩
    split <;> simp [answer]
  refine returns_step h (by simp [hpc]) hs trivial fun ht => ?_
  exact hpc'.elim (returns_unwind ht) (returns_tests ht)

theorem returns_entry (h : Done cfg s)
    (hpc : (s.frame p).pc = .health ∨ (s.frame p).pc = .healthCapacity ∨ (s.frame p).pc = .entry) :
    Returns v cfg s p := by
  have hs : ∃ f, s.serveStep cfg p .go = some (s.answer p f) := by
    unfold serveStep
    obtain hpc | hpc | hpc := hpc
    · rw [hpc, h.cancelled]
      exact ⟨_, rfl⟩
    · rw [hpc]
      exact ⟨_, rfl⟩
    · rw [hpc, h.cancelled]
      exact ⟨_, rfl⟩
  obtain ⟨f, hs⟩ := hs
  refine returns_back h ?_ hs trivial (by simp [answer])
  rintro hidle
  simp [hidle] at hpc

theorem Done.returns (h : Done cfg s) (hidle : (s.frame p).pc ≠ .idle) : Returns v cfg s p := by
  cases hpc : (s.frame p).pc with
  | idle => exact absurd hpc hidle
  | health => exact returns_entry h (.inl hpc)
  | healthCapacity => exact returns_entry h (.inr (.inl hpc))
  | entry => exact returns_entry h (.inr (.inr hpc))
  | reserve => exact returns_reserve h hpc
  | tests => exact returns_tests h hpc
  | capacity => exact returns_capacity h hpc
  | context => exact returns_context h hpc
  | label => exact returns_label h hpc
  | inc path bucketPath => exact returns_inc h hpc
  | route bucketPath => exact returns_route h hpc
  | peer target hop => exact returns_peer h hpc
  | client => exact returns_client h hpc
  | admission => exact returns_admission h hpc
  | failed e => exact returns_failed h hpc
  | relay left => exact returns_relay left h hpc
  | unwind => exact returns_unwind h hpc
  | returned => exact ⟨s, .refl, hpc, fun _ _ => rfl⟩
  | trip stage =>
    cases stage with
    | available => exact returns_available h hpc
    | queueContext => exact returns_queueContext h hpc
    | queued => exact returns_queued h hpc
    | reserve => exact returns_reserved h hpc
    | inFlight => exact returns_inFlight h hpc
    | limited r => exact returns_limited h hpc

theorem begun_of_reachable (h : (system cfg).Reachable s) :
    ∃ F : Finset π, ∀ p, p ∉ F → (s.frame p).pc = .idle := by
  refine System.Reach.invariant (I := fun s => ∃ F : Finset π, ∀ p, p ∉ F → (s.frame p).pc = .idle)
    ?_ ?_ h
  · rintro s ⟨now, rfl⟩
    exact ⟨∅, fun _ _ => rfl⟩
  · rintro s a t ⟨F, hF⟩ - hs
    obtain ⟨p, -, hturns⟩ | haround := step_cases hs
    · refine ⟨insert p F, fun q hq => ?_⟩
      obtain ⟨hne, hq⟩ := not_or.mp (mt Finset.mem_insert.mpr hq)
      rw [(hturns.own.others q hne).frame]
      exact hF q hq
    · refine ⟨F, fun q hq => ?_⟩
      rw [haround.aside.frame]
      exact hF q hq

theorem leads_returned (h : Done cfg s) (F : Finset π) (hF : ∀ p ∈ F, (s.frame p).pc ≠ .idle) :
    ∃ t, (system cfg).Leads (Winding v) s t ∧ (∀ p ∈ F, (t.frame p).pc = .returned) ∧
      ∀ p, p ∉ F → t.frame p = s.frame p := by
  induction F using Finset.induction_on generalizing s with
  | empty => exact ⟨s, .refl, by simp, fun _ _ => rfl⟩
  | insert p F hp ih =>
    obtain ⟨t, ht, hpc, hothers⟩ := h.returns (hF p (Finset.mem_insert_self p F))
    have hF' : ∀ q ∈ F, (t.frame q).pc ≠ .idle := by
      intro q hq
      rw [hothers q fun e => hp (e ▸ hq)]
      exact hF q (Finset.mem_insert_of_mem hq)
    obtain ⟨u, hu, hreturned, hsame⟩ := ih (h.leads ht) hF'
    refine ⟨u, ht.trans hu, fun q hq => ?_, fun q hq => ?_⟩
    · obtain rfl | hq := Finset.mem_insert.mp hq
      · rw [hsame q hp, hpc]
      · exact hreturned q hq
    · obtain ⟨hne, hq⟩ := not_or.mp (mt Finset.mem_insert.mpr hq)
      exact (hsame q hq).trans (hothers q hne)

theorem leads_closer {C : ServeRun π → ServeAction π → Prop} (hc : s.closer ≠ .idle)
    (hl : (system cfg).Leads C s t) : t.closer ≠ .idle := by
  induction hl with
  | refl => exact hc
  | @step t a u _ _ hs ih =>
    obtain ⟨p, -, hturns⟩ | haround := step_cases hs
    · rwa [hturns.own.closer]
    · cases haround with
      | close | leave | clear | transport | wait => simp
      | _ => exact ih

/-- The request holds nothing: it has not got past the first test, or it is through. -/
structure Shut (s : ServeRun π) (p : π) : Prop where
  pc : (s.frame p).pc ∈ [HandlerPc.idle, .health, .entry, .unwind, .returned]
  deferred : (s.frame p).deferred = []

theorem Shut.serve {i : ServeInput} (h : s.Shut p) (hc : s.cancelled = true)
    (hs : s.serveStep cfg p i = some t) : t.Shut p := by
  obtain ⟨hpc, hd⟩ := h
  have hgoto : ∀ pc ∈ [HandlerPc.health, .entry, .unwind, .returned], (s.goto p pc).Shut p :=
    fun pc hpc => ⟨by rw [frame_goto]; exact List.mem_cons_of_mem _ hpc, by rw [frame_goto, hd]⟩
  have hanswer : ∀ f, (s.answer p f).Shut p :=
    fun f => ⟨by simp [answer], by rw [answer, frame_goto, hd]⟩
  unfold serveStep at hs
  simp only [List.mem_cons, List.not_mem_nil, or_false] at hpc
  obtain hpc | hpc | hpc | hpc | hpc := hpc
  · simp only [hpc] at hs
    cases i with
    | go =>
      cases hs
      split
      · exact hgoto .health (by simp)
      · exact hgoto .entry (by simp)
    | _ => cases hs
  · simp only [hpc, hc, if_true] at hs
    cases i with
    | go =>
      cases hs
      exact hanswer _
    | _ => cases hs
  · simp only [hpc, hc, if_true] at hs
    cases i with
    | go =>
      cases hs
      exact hanswer _
    | _ => cases hs
  · simp only [hpc, hd] at hs
    cases i with
    | go =>
      cases hs
      exact hgoto .returned (by simp)
    | _ => cases hs
  · simp only [hpc] at hs
    cases i <;> cases hs

theorem Shut.step {a : ServeAction π} (h : ∀ p, s.Shut p) (hc : s.cancelled = true)
    (hs : s.step cfg a = some t) (p : π) : t.Shut p := by
  obtain ⟨q, ⟨i, rfl⟩, hturns⟩ | haround := step_cases hs
  · by_cases hq : p = q
    · subst hq
      exact (h p).serve hc hs
    · have hf := (hturns.own.others p hq).frame
      exact ⟨hf ▸ (h p).pc, hf ▸ (h p).deferred⟩
  · have hf := congrFun haround.aside.frame p
    exact ⟨hf ▸ (h p).pc, hf ▸ (h p).deferred⟩

theorem Shut.leads {C : ServeRun π → ServeAction π → Prop} (h : ∀ p, s.Shut p) (hd : Done cfg s)
    (hl : (system cfg).Leads C s t) (p : π) : t.Shut p := by
  induction hl generalizing p with
  | refl => exact h p
  | step hl _ hs ih => exact Shut.step ih (hd.leads hl).cancelled hs p

theorem shut_of_outside (h : (system cfg).Reachable s)
    (hpc : (s.frame p).pc = .idle ∨ (s.frame p).pc = .returned) : s.Shut p := by
  refine ⟨?_, (booked_of_reachable h).deferred_nil ?_⟩
  · obtain hpc | hpc := hpc <;> simp [hpc]
  · obtain hpc | hpc := hpc <;> rw [hpc] <;> rfl

/-- From every state after `Close` has been called, whatever the budget of invalid requests and the
decisions to try again are, the requests in progress return and `finishClose` ends, without a new
request and without an answer from a client, Discord or another node.  From there on no slot is
taken and no connection counts as open, whatever requests come in. -/
theorem close_drains (v : Verdicts π) (h : (system cfg).Reachable s) (hc : s.closer ≠ .idle) :
    ∃ t, (system cfg).Leads (Winding v) s t ∧ t.closer = .closed ∧
      (∀ p, (s.frame p).pc ≠ .idle → (t.frame p).pc = .returned) ∧
      ∀ u, (system cfg).Leads (fun _ _ => True) t u → (∀ p, (u.frame p).deferred = []) ∧
        u.inFlight.used = 0 ∧ ∀ m l, u.connectionsOpen (m, l) = 0 := by
  have hdone : Done cfg s := ⟨h, (closing_of_reachable h).cancelled hc⟩
  obtain ⟨F, hF⟩ := begun_of_reachable h
  obtain ⟨t, ht, hreturned, hsame⟩ := leads_returned (v := v) hdone
    (F.filter fun p => (s.frame p).pc ≠ .idle) fun p hp => (Finset.mem_filter.mp hp).2
  obtain ⟨u, hu, hclosed⟩ := finishes_of_reachable (ht.reachable h) (leads_closer hc ht)
  have hframe := leads_teardown_frame hu
  have hbegun : ∀ p, (s.frame p).pc ≠ .idle → (u.frame p).pc = .returned := by
    intro p hp
    rw [hframe]
    exact hreturned p (Finset.mem_filter.mpr ⟨Classical.not_not.mp fun hmem => hp (hF p hmem), hp⟩)
  have hdone' := (hdone.leads ht).leads hu
  have hshut : ∀ p, u.Shut p := by
    intro p
    refine shut_of_outside hdone'.reachable ?_
    by_cases hp : (s.frame p).pc = .idle
    · rw [hframe, hsame p fun hmem => (Finset.mem_filter.mp hmem).2 hp]
      exact .inl hp
    · exact .inr (hbegun p hp)
  refine ⟨u, ht.trans (hu.mono fun _ _ => Teardown.winding), hclosed, hbegun, fun w hw => ?_⟩
  have hnil : ∀ p, (w.frame p).deferred = [] := fun p => (Shut.leads hshut hdone' hw p).deferred
  have hb := booked_of_reachable (hw.reachable hdone'.reachable)
  refine ⟨hnil, ?_, fun m l => ?_⟩
  · exact (hb.counts hb.used).eq_zero fun p hp => by simp [hnil p] at hp
  · exact (hb.counts (hb.gauge m l)).eq_zero fun p hp => by simp [hnil p] at hp

theorem close_drains_in_flight : ∃ s t : ServeRun (Fin 2), (system oneSlot).Reachable s ∧
    (s.frame 0).pc = .trip .inFlight ∧ s.inFlight.used = 1 ∧ s.closer = .cluster ∧
    (system oneSlot).Leads (Winding ⟨fun _ _ => false, fun _ _ => true⟩) s t ∧
    t.closer = .closed ∧ (t.frame 0).pc = .returned ∧ t.inFlight.used = 0 := by
  have hrun : ((system oneSlot).run (start oneSlot 0) (List.replicate 10 (.serve 0 .go) ++
      [.table .begin, .table .touch, .serve 0 .go, .serve 0 (.oracle true), .serve 0 .go,
        .serve 0 .attempt, .serve 0 (.oracle true), .close])).map (fun s =>
          decide ((s.frame 0).pc = .trip .inFlight ∧ s.inFlight.used = 1 ∧ s.closer = .cluster)) =
        some true := by
    decide +kernel
  obtain ⟨s, hs, hobs⟩ := Option.map_eq_some_iff.mp hrun
  obtain ⟨hpc, hused, hcl⟩ := of_decide_eq_true hobs
  have hreach := System.Reachable.run (start_reachable 0) hs
  obtain ⟨t, ht, hclosed, hreturned, hafter⟩ :=
    close_drains ⟨fun _ _ => false, fun _ _ => true⟩ hreach (by simp [hcl])
  exact ⟨s, t, hreach, hpc, hused, hcl, ht, hclosed, hreturned 0 (by simp [hpc]),
    (hafter t .refl).2.1⟩

end ServeRun

end NirnProxy
