import NirnProxy.Counting
import NirnProxy.Serve.Machine

/-! The deferred calls of a request are what it still has to give back.  What a step does to them is
said once here, and the counters are read off from that. -/

universe u

namespace NirnProxy

open Function (update update_self update_of_ne)
open Strings (ascii)

inductive Level
  | outside
  | slot
  | context
  | opened
  | client
  | relay
  | unwind
  deriving DecidableEq

namespace HandlerPc

def level : HandlerPc → Level
  | .idle | .health | .healthCapacity | .entry | .reserve | .returned => .outside
  | .tests | .capacity | .context => .slot
  | .label | .inc _ _ => .context
  | .route _ | .peer _ _ | .client | .admission => .opened
  | .trip _ | .failed _ => .client
  | .relay _ => .relay
  | .unwind => .unwind

/-- Between the reservation of a slot and the return of the handler. -/
def inside (pc : HandlerPc) : Bool := decide (pc.level ≠ .outside ∧ pc.level ≠ .unwind)

def isInc : HandlerPc → Bool
  | .inc _ _ => true
  | _ => false

/-- `client` has not been called yet, nor will it be when the handler unwinds. -/
def entering : HandlerPc → Bool
  | .idle | .health | .healthCapacity | .entry | .reserve | .tests | .capacity | .context | .label
  | .inc _ _ | .route _ | .peer _ _ | .client => true
  | .admission | .trip _ | .failed _ | .relay _ | .unwind | .returned => false

/-- The handler gets from `pc` to `pc'` without calling `client` or choosing a label. -/
def follows (pc pc' : HandlerPc) : Bool :=
  !pc'.isInc && pc' != .admission && (!pc'.entering || pc.entering)

end HandlerPc

/-- With metrics a connection is counted as open before it is routed. -/
inductive Opened : List Deferred → Prop
  | plain : Opened [.cancel, .release]
  | counted (m l) : Opened [.dec m l, .cancel, .release]

inductive Shape : Level → List Deferred → Prop
  | outside : Shape .outside []
  | slot : Shape .slot [.release]
  | context : Shape .context [.cancel, .release]
  | opened {ds} : Opened ds → Shape .opened ds
  | client {ds} : Opened ds → Shape .client (.endActive :: .endTouch :: ds)
  | forwarded {ds} : Opened ds → Shape .relay ds
  | served {ds} : Opened ds → Shape .relay (.endActive :: .endTouch :: ds)
  | unwind {ds es} : Opened es → ds <:+ .endActive :: .endTouch :: es → Shape .unwind ds

namespace Shape

variable {level : Level} {d : Deferred} {ds : List Deferred}

theorem toUnwind (h : Shape level ds) : Shape .unwind ds := by
  have hlow : [Deferred.cancel, .release] <:+ [.endActive, .endTouch, .cancel, .release] :=
    ⟨[.endActive, .endTouch], rfl⟩
  cases h with
  | outside => exact .unwind .plain List.nil_suffix
  | slot => exact .unwind .plain ((List.suffix_cons _ _).trans hlow)
  | context => exact .unwind .plain hlow
  | opened h | forwarded h => exact .unwind h ⟨[.endActive, .endTouch], rfl⟩
  | client h | served h => exact .unwind h List.suffix_rfl
  | unwind h hs => exact .unwind h hs

theorem tail (h : Shape .unwind (d :: ds)) : Shape .unwind ds := by
  cases h with
  | unwind h hs => exact .unwind h ((List.suffix_cons d ds).trans hs)

theorem opened_of_context (h : Shape .context ds) : Shape .opened ds := by
  cases h
  exact .opened .plain

theorem forwarded_of_opened (h : Shape .opened ds) : Shape .relay ds := by
  cases h with
  | opened h => exact .forwarded h

theorem served_of_client (h : Shape .client ds) : Shape .relay ds := by
  cases h with
  | client h => exact .served h

theorem nodup (h : Shape level ds) : ds.Nodup := by
  have hfull : ∀ es, Opened es → (.endActive :: .endTouch :: es : List Deferred).Nodup := by
    intro es he
    cases he <;> simp
  cases h.toUnwind with
  | unwind h hs => exact (hfull _ h).sublist hs.sublist

theorem release_mem (h : Shape level ds) (hl : level ≠ .outside) (hu : level ≠ .unwind) :
    .release ∈ ds := by
  have hopened : ∀ es, Opened es → Deferred.release ∈ es := by
    intro es he
    cases he <;> simp
  cases h with
  | outside => exact absurd rfl hl
  | unwind => exact absurd rfl hu
  | slot => exact List.mem_singleton_self _
  | context => simp
  | opened h | forwarded h => exact hopened _ h
  | client h | served h => exact List.mem_cons_of_mem _ (List.mem_cons_of_mem _ (hopened _ h))

theorem cancel_mem (h : Shape level ds) (hl : level ∈ [Level.opened, .client, .relay]) :
    .cancel ∈ ds := by
  have hopened : ∀ es, Opened es → Deferred.cancel ∈ es := by
    intro es he
    cases he <;> simp
  cases h with
  | outside | slot | context | unwind => simp at hl
  | opened h | forwarded h => exact hopened _ h
  | client h | served h => exact List.mem_cons_of_mem _ (List.mem_cons_of_mem _ (hopened _ h))

theorem endActive_notMem (h : Shape .unwind (.endTouch :: ds)) : .endActive ∉ ds := by
  cases h with
  | @unwind _ es he hs =>
    obtain h | h := List.suffix_cons_iff.mp hs
    · cases h
    · intro hmem
      have hes := h.subset (List.mem_cons_of_mem _ hmem)
      cases he <;> simp at hes

end Shape

namespace ServeRun

variable {π : Type u}

/-- What the deferred calls and the counters depend on is the same in `s` and `t`. -/
structure Aside (s t : ServeRun π) : Prop where
  frame : t.frame = s.frame
  inFlight : t.inFlight = s.inFlight
  metricsRoutes : t.metricsRoutes = s.metricsRoutes
  connectionsOpen : t.connectionsOpen = s.connectionsOpen
  series : t.series = s.series

theorem Aside.rfl {s : ServeRun π} : s.Aside s := ⟨.refl _, .refl _, .refl _, .refl _, .refl _⟩

variable [DecidableEq π] {cfg : ServeConfig π} {s t : ServeRun π} {p : π}

@[simp] theorem frame_goto (s : ServeRun π) (p : π) (pc : HandlerPc) :
    (s.goto p pc).frame p = ⟨pc, (s.frame p).deferred⟩ := by
  simp [goto]

@[simp] theorem frame_defer (s : ServeRun π) (p : π) (ds : List Deferred) :
    (s.defer p ds).frame p = ⟨(s.frame p).pc, ds ++ (s.frame p).deferred⟩ := by
  simp [defer]

/-- What a request does in the client table; it does not enter it once `p.ctx` is done. -/
inductive Calls (s : ServeRun π) (p : π) : ClientAction π (Vector UInt8 32) → Prop
  | client : s.cancelled = false → Calls s p (.client p)
  | endActive : Calls s p (.endActive p)
  | endTouch : Calls s p (.endTouch p)

structure Beside (s t : ServeRun π) (q : π) : Prop where
  frame : t.frame q = s.frame q
  contexts : t.contexts q = s.contexts q
  writer : t.writer q = s.writer q
  aborted : t.aborted q = s.aborted q
  queuedAt : t.queuedAt q = s.queuedAt q
  attemptAt : t.attemptAt q = s.attemptAt q
  received : t.received q = s.received q

/-- A step of the request `p` leaves the other requests, the sweeper and `Close` alone. -/
structure Own (cfg : ServeConfig π) (s : ServeRun π) (p : π) (t : ServeRun π) : Prop where
  others : ∀ q, q ≠ p → Beside s t q
  clients : t.clients = s.clients ∨
    ∃ a, s.Calls p a ∧ s.clients.step cfg.clients a = some t.clients
  cancelled : t.cancelled = s.cancelled
  joining : t.joining = s.joining
  cleared : t.cleared = s.cleared
  panicked : t.panicked = s.panicked
  sweeper : t.sweeper = s.sweeper
  closer : t.closer = s.closer

theorem own_rfl : Own cfg s p s :=
  ⟨fun _ _ => ⟨rfl, rfl, rfl, rfl, rfl, rfl, rfl⟩, .inl rfl, rfl, rfl, rfl, rfl, rfl, rfl⟩

theorem Own.frame {f : Frame} (h : Own cfg s p t) :
    Own cfg s p { t with frame := update t.frame p f } := by
  refine ⟨fun q hq => ?_, h.clients, h.cancelled, h.joining, h.cleared, h.panicked, h.sweeper,
    h.closer⟩
  obtain ⟨h1, h2, h3, h4, h5, h6, h7⟩ := h.others q hq
  exact ⟨by simp [hq, h1], h2, h3, h4, h5, h6, h7⟩

theorem Own.onContexts (h : Own cfg s p t) (f : RequestContexts → RequestContexts) :
    Own cfg s p (t.onContexts p f) := by
  refine ⟨fun q hq => ?_, h.clients, h.cancelled, h.joining, h.cleared, h.panicked, h.sweeper,
    h.closer⟩
  obtain ⟨h1, h2, h3, h4, h5, h6, h7⟩ := h.others q hq
  exact ⟨h1, by simp [ServeRun.onContexts, hq, h2], h3, h4, h5, h6, h7⟩

theorem Own.writer (h : Own cfg s p t) (w : ResponseWriter) :
    Own cfg s p { t with writer := update t.writer p w } := by
  refine ⟨fun q hq => ?_, h.clients, h.cancelled, h.joining, h.cleared, h.panicked, h.sweeper,
    h.closer⟩
  obtain ⟨h1, h2, h3, h4, h5, h6, h7⟩ := h.others q hq
  exact ⟨h1, h2, by simp [hq, h3], h4, h5, h6, h7⟩

theorem own_aborted (b : Bool) : Own cfg s p { s with aborted := update s.aborted p b } :=
  ⟨fun q hq => ⟨rfl, rfl, rfl, by simp [hq], rfl, rfl, rfl⟩, .inl rfl, rfl, rfl, rfl, rfl, rfl, rfl⟩

theorem own_queuedAt (now : Int) : Own cfg s p { s with queuedAt := update s.queuedAt p now } :=
  ⟨fun q hq => ⟨rfl, rfl, rfl, rfl, by simp [hq], rfl, rfl⟩, .inl rfl, rfl, rfl, rfl, rfl, rfl, rfl⟩

theorem own_attemptAt (now : Int) : Own cfg s p { s with attemptAt := update s.attemptAt p now } :=
  ⟨fun q hq => ⟨rfl, rfl, rfl, rfl, rfl, by simp [hq], rfl⟩, .inl rfl, rfl, rfl, rfl, rfl, rfl, rfl⟩

theorem own_receive (r : HttpResponse) : Own cfg s p (s.receive p r) :=
  ⟨fun q hq => ⟨rfl, rfl, rfl, rfl, rfl, rfl, by simp [receive, hq]⟩, .inl rfl, rfl, rfl, rfl, rfl,
    rfl, rfl⟩

theorem onClients_eq {a : ClientAction π (Vector UInt8 32)} (hs : s.onClients cfg a = some t) :
    ∃ clients, s.clients.step cfg.clients a = some clients ∧ t = { s with clients := clients } := by
  obtain ⟨clients, hc, rfl⟩ := Option.map_eq_some_iff.mp hs
  exact ⟨clients, hc, rfl⟩

theorem onClients_aside {a : ClientAction π (Vector UInt8 32)} (hs : s.onClients cfg a = some t) :
    s.Aside t := by
  obtain ⟨clients, -, rfl⟩ := onClients_eq hs
  exact ⟨rfl, rfl, rfl, rfl, rfl⟩

theorem onClients_own {a : ClientAction π (Vector UInt8 32)} (ha : s.Calls p a)
    (hs : s.onClients cfg a = some t) : Own cfg s p t := by
  obtain ⟨clients, hc, rfl⟩ := onClients_eq hs
  exact ⟨fun _ _ => ⟨rfl, rfl, rfl, rfl, rfl, rfl, rfl⟩, .inr ⟨a, ha, hc⟩, rfl, rfl, rfl, rfl, rfl,
    rfl⟩

theorem runDeferred_own {d : Deferred} (hs : s.runDeferred cfg p d = some t) : Own cfg s p t := by
  cases d with
  | cancel =>
    cases hs
    exact own_rfl.onContexts _
  | endActive => exact onClients_own .endActive hs
  | endTouch => exact onClients_own .endTouch hs
  | release | dec method path =>
    cases hs
    exact ⟨fun _ _ => ⟨rfl, rfl, rfl, rfl, rfl, rfl, rfl⟩, .inl rfl, rfl, rfl, rfl, rfl, rfl, rfl⟩

structure Within (cfg : ServeConfig π) (s : ServeRun π) (p : π) (s' : ServeRun π) : Prop where
  aside : s.Aside s'
  own : Own cfg s p s'
  clients : s'.clients = s.clients
  request : (s'.contexts p).request = (s.contexts p).request
  afterFunc : (s'.contexts p).afterFunc = (s.contexts p).afterFunc

theorem within_rfl : Within cfg s p s := ⟨.rfl, own_rfl, rfl, rfl, rfl⟩

variable {s' : ServeRun π}

theorem Within.onContexts (h : Within cfg s p s') {f : RequestContexts → RequestContexts}
    (hr : ∀ c, (f c).request = c.request) (ha : ∀ c, (f c).afterFunc = c.afterFunc) :
    Within cfg s p (s'.onContexts p f) where
  aside := ⟨h.aside.frame, h.aside.inFlight, h.aside.metricsRoutes, h.aside.connectionsOpen,
    h.aside.series⟩
  own := h.own.onContexts f
  clients := h.clients
  request := by simp [ServeRun.onContexts, hr, h.request]
  afterFunc := by simp [ServeRun.onContexts, ha, h.afterFunc]

theorem Within.endContexts (h : Within cfg s p s') : Within cfg s p (s'.endContexts p) :=
  h.onContexts (fun _ => rfl) fun _ => rfl

theorem Within.writer (h : Within cfg s p s') (w : ResponseWriter) :
    Within cfg s p { s' with writer := update s'.writer p w } where
  aside := ⟨h.aside.frame, h.aside.inFlight, h.aside.metricsRoutes, h.aside.connectionsOpen,
    h.aside.series⟩
  own := h.own.writer w
  clients := h.clients
  request := h.request
  afterFunc := h.afterFunc

theorem within_aborted (b : Bool) : Within cfg s p { s with aborted := update s.aborted p b } :=
  ⟨⟨rfl, rfl, rfl, rfl, rfl⟩, own_aborted b, rfl, rfl, rfl⟩

theorem within_queuedAt (now : Int) :
    Within cfg s p { s with queuedAt := update s.queuedAt p now } :=
  ⟨⟨rfl, rfl, rfl, rfl, rfl⟩, own_queuedAt now, rfl, rfl, rfl⟩

theorem within_attemptAt (now : Int) :
    Within cfg s p { s with attemptAt := update s.attemptAt p now } :=
  ⟨⟨rfl, rfl, rfl, rfl, rfl⟩, own_attemptAt now, rfl, rfl, rfl⟩

theorem within_receive (r : HttpResponse) : Within cfg s p (s.receive p r) :=
  ⟨⟨rfl, rfl, rfl, rfl, rfl⟩, own_receive r, rfl, rfl, rfl⟩

/-- A step of the request `p`, as far as its deferred calls go. -/
inductive Turns (cfg : ServeConfig π) (s : ServeRun π) (p : π) : ServeRun π → Prop
  | goto {s' : ServeRun π} (pc : HandlerPc) : Within cfg s p s' → (s.frame p).pc.follows pc = true →
      (Shape (s.frame p).pc.level (s.frame p).deferred → Shape pc.level (s.frame p).deferred) →
      Turns cfg s p (s'.goto p pc)
  | reserve {inFlight} : (s.frame p).pc = .reserve → s.inFlight.reserve 1 = some inFlight →
      Turns cfg s p (({ s with inFlight := inFlight }.defer p [.release]).goto p .tests)
  | context : (s.frame p).pc = .context →
      Turns cfg s p (((s.onContexts p fun c => { c with
        request := c.client.withCancel
        afterFunc := true }).defer p [.cancel]).goto p .label)
  | label {route bucketPath} : (s.frame p).pc = .label →
      Turns cfg s p ({ s with metricsRoutes := (s.metricsRoutes.label route).1 }.goto p
        (.inc (s.metricsRoutes.label route).2 bucketPath))
  | inc {path bucketPath labels} : (s.frame p).pc = .inc path bucketPath →
      labels = (metricsMethodLabel (cfg.request p).method, path) →
      Turns cfg s p (({ s with
        series := insert labels s.series
        connectionsOpen := update s.connectionsOpen labels (s.connectionsOpen labels + 1) }.defer p
          [.dec labels.1 labels.2]).goto p (.route bucketPath))
  | called {clients} : (s.frame p).pc = .client → s.cancelled = false →
      s.clients.step cfg.clients (.client p) = some clients →
      Turns cfg s p ({ s with clients := clients }.goto p .admission)
  | admitted {i} : (s.frame p).pc = .admission → s.clients.phase p = .active i →
      Turns cfg s p ((s.defer p [.endActive, .endTouch]).goto p (.trip .available))
  | pop {d ds} {s' : ServeRun π} : (s.frame p).pc = .unwind → (s.frame p).deferred = d :: ds →
      s.runDeferred cfg p d = some s' →
      Turns cfg s p { s' with frame := update s'.frame p ⟨.unwind, ds⟩ }

theorem turns_same {pc pc' : HandlerPc} (hpc : (s.frame p).pc = pc) (hw : Within cfg s p s')
    (hf : pc.follows pc' = true) (hl : pc'.level = pc.level) : Turns cfg s p (s'.goto p pc') :=
  .goto pc' hw (hpc ▸ hf) fun h => by rwa [hl, ← hpc]

theorem turns_answer (f : ResponseWriter → ResponseWriter) : Turns cfg s p (s.answer p f) :=
  .goto .unwind (within_rfl.writer _) rfl .toUnwind

theorem turns_fail {stage : TripStage} (hpc : (s.frame p).pc = .trip stage)
    (hw : Within cfg s p s') (e : GoError) : Turns cfg s p (s'.fail p e) :=
  turns_same hpc hw.endContexts rfl rfl

theorem turns_respond {stage : TripStage} (hpc : (s.frame p).pc = .trip stage)
    (hw : Within cfg s p s') (r : HttpResponse) : Turns cfg s p (s'.respond p r) := by
  unfold respond
  split
  · exact turns_fail hpc hw _
  · refine .goto _ (hw.writer _) (by rw [hpc]; rfl) fun h => ?_
    rw [hpc] at h
    exact h.served_of_client

theorem trip_turns {stage : TripStage} {i : ServeInput} (hpc : (s.frame p).pc = .trip stage)
    (hs : s.tripStep cfg p stage i = some t) : Turns cfg s p t := by
  unfold tripStep at hs
  split at hs
  · cases hs
    split
    · exact turns_same hpc within_rfl rfl rfl
    · exact turns_fail hpc within_rfl _
  · cases hs
    exact turns_same hpc ((within_queuedAt _).onContexts (fun _ => rfl) fun _ => rfl) rfl rfl
  · simp only at hs
    split at hs
    · cases hs
      exact turns_fail hpc within_rfl _
    · cases hs
      exact turns_fail hpc within_rfl _
    · obtain ⟨e, -, rfl⟩ := Option.map_eq_some_iff.mp hs
      exact turns_fail hpc within_rfl _
    · cases hs
      exact turns_fail hpc within_rfl _
    · cases hs
      exact turns_fail hpc within_rfl _
  · cases hs
    exact turns_respond hpc within_rfl _
  · cases hs
    exact turns_respond hpc within_rfl _
  · cases hs
    exact turns_same hpc ((within_attemptAt _).onContexts (fun _ => rfl) fun _ => rfl) rfl rfl
  · cases hs
    split
    · exact turns_same hpc within_rfl rfl rfl
    · exact turns_fail hpc within_rfl _
  · obtain ⟨-, hs⟩ := Option.ite_none_right_eq_some.mp hs
    cases hs
    exact turns_fail hpc within_rfl _
  · cases hs
    exact turns_fail hpc within_rfl _
  · cases hs
    split
    · exact turns_same hpc (within_receive _) rfl rfl
    · exact turns_respond hpc (within_receive _) _
  · cases hs
    exact turns_same hpc (within_rfl.onContexts (fun _ => rfl) fun _ => rfl) rfl rfl
  · cases hs
    exact turns_respond hpc within_rfl _
  · cases hs
    exact turns_fail hpc within_rfl _
  · cases hs

theorem serve_turns {i : ServeInput} (hs : s.serveStep cfg p i = some t) : Turns cfg s p t := by
  unfold serveStep at hs
  simp only at hs
  split at hs
  any_goals rename_i hpc
  · cases hs
    split <;> exact turns_same hpc within_rfl rfl rfl
  · cases hs
    split
    · exact turns_answer _
    · exact turns_same hpc within_rfl rfl rfl
  · cases hs
    exact turns_answer _
  · cases hs
    split
    · exact turns_answer _
    · exact turns_same hpc within_rfl rfl rfl
  · cases hs
    split
    · exact turns_answer _
    · exact .reserve hpc ‹_›
  · cases hs
    split
    · exact turns_answer _
    · split
      · exact turns_answer _
      · exact turns_same hpc within_rfl rfl rfl
  · cases hs
    split
    · exact turns_answer _
    · exact turns_same hpc within_rfl rfl rfl
  · cases hs
    exact .context hpc
  · split at hs <;> cases hs
    · exact .label hpc
    · refine .goto _ within_rfl (by rw [hpc]; rfl) fun h => ?_
      rw [hpc] at h
      exact h.opened_of_context
  · cases hs
    exact .inc hpc rfl
  · cases hs
    split
    · exact turns_same hpc within_rfl rfl rfl
    · exact turns_answer _
    · exact turns_same hpc within_rfl rfl rfl
  · cases hs
    exact turns_answer _
  · cases hs
    split
    · exact turns_answer _
    · rename_i hstatus
      unfold respond
      rw [if_neg hstatus]
      refine .goto _ ((within_receive _).writer _) (by rw [hpc]; rfl) fun h => ?_
      rw [hpc] at h
      exact h.forwarded_of_opened
  · obtain ⟨-, hs⟩ := Option.ite_none_right_eq_some.mp hs
    split at hs
    · cases hs
      exact turns_answer _
    · rename_i hopen
      obtain ⟨u, hu, rfl⟩ := Option.map_eq_some_iff.mp hs
      obtain ⟨clients, hc, rfl⟩ := onClients_eq hu
      exact .called hpc (by simpa using fun h => hopen (.inl h)) hc
  · split at hs
    · cases hs
      exact turns_answer _
    · cases hs
      exact .admitted hpc ‹_›
    · cases hs
  · exact trip_turns hpc hs
  · cases hs
    exact turns_answer _
  · cases hs
    exact turns_same hpc (within_rfl.writer _) rfl rfl
  · cases hs
    exact .goto _ within_rfl.endContexts (by rw [hpc]; rfl) .toUnwind
  · cases hs
    exact .goto _ (within_aborted _).endContexts (by rw [hpc]; rfl) .toUnwind
  · split at hs
    · rename_i hd
      cases hs
      exact .goto _ within_rfl (by rw [hpc]; rfl) fun _ => hd ▸ .outside
    · rename_i hd
      obtain ⟨u, hu, rfl⟩ := Option.map_eq_some_iff.mp hs
      exact .pop hpc hd hu
  · cases hs

theorem Turns.own (h : Turns cfg s p t) : Own cfg s p t := by
  cases h with
  | goto pc hw => exact hw.own.frame
  | context => exact (own_rfl.onContexts _).frame.frame
  | called _ hopen hs =>
    refine Own.frame ?_
    exact ⟨fun _ _ => ⟨rfl, rfl, rfl, rfl, rfl, rfl, rfl⟩, .inr ⟨_, .client hopen, hs⟩, rfl, rfl,
      rfl, rfl, rfl, rfl⟩
  | admitted => exact own_rfl.frame.frame
  | pop _ _ hs => exact (runDeferred_own hs).frame
  | label =>
    refine Own.frame ?_
    exact ⟨fun _ _ => ⟨rfl, rfl, rfl, rfl, rfl, rfl, rfl⟩, .inl rfl, rfl, rfl, rfl, rfl, rfl, rfl⟩
  | reserve | inc =>
    refine Own.frame (Own.frame ?_)
    exact ⟨fun _ _ => ⟨rfl, rfl, rfl, rfl, rfl, rfl, rfl⟩, .inl rfl, rfl, rfl, rfl, rfl, rfl, rfl⟩

end ServeRun

end NirnProxy
