import Mathlib.Data.Finset.Prod
import NirnProxy.Serve.Closing

/-! How many requests are inside: `inFlight` and the gauge of open connections count the requests
that have deferred giving back what they count. -/

universe u

namespace NirnProxy

open Function (update update_self update_of_ne)
open Strings (ascii)
open scoped Parties

namespace ServeRun

variable {π : Type u}

def Shaped (s : ServeRun π) (p : π) : Prop := Shape (s.frame p).pc.level (s.frame p).deferred

variable [DecidableEq π] {cfg : ServeConfig π} {s t : ServeRun π} {p : π}

theorem Turns.shaped (h : Turns cfg s p t) (hs : s.Shaped p) : t.Shaped p := by
  unfold Shaped at hs ⊢
  cases h with
  | goto pc hw _ hl =>
    rw [frame_goto, hw.aside.frame]
    exact hl hs
  | reserve hpc _ =>
    rw [frame_goto, frame_defer]
    rw [hpc] at hs
    generalize (s.frame p).deferred = ds at hs
    cases hs
    exact .slot
  | context hpc =>
    rw [hpc] at hs
    simp only [frame_goto, frame_defer, onContexts]
    generalize (s.frame p).deferred = ds at hs
    cases hs
    exact .context
  | label hpc | called hpc =>
    rw [frame_goto]
    rw [hpc] at hs
    exact hs
  | inc hpc _ =>
    rw [frame_goto, frame_defer]
    rw [hpc] at hs
    generalize (s.frame p).deferred = ds at hs
    cases hs
    exact .opened (.counted _ _)
  | admitted hpc _ =>
    rw [frame_goto, frame_defer]
    rw [hpc] at hs
    generalize (s.frame p).deferred = ds at hs
    cases hs with
    | opened h => exact .client h
  | pop hpc hd _ =>
    rw [hpc, hd] at hs
    simp only [update_self]
    exact hs.tail

/-- Only `p` moves between `s` and `t`, and the counters move with its deferred calls. -/
structure Moved (s : ServeRun π) (p : π) (t : ServeRun π) : Prop where
  others : ∀ q, q ≠ p → t.frame q = s.frame q
  limit : t.inFlight.limit = s.inFlight.limit
  used_le : s.inFlight.used ≤ s.inFlight.limit → t.inFlight.used ≤ t.inFlight.limit
  used : t.inFlight.used = s.inFlight.used - (s.frame p).deferred.count .release +
    (t.frame p).deferred.count .release
  gauge : ∀ m l, t.connectionsOpen (m, l) = s.connectionsOpen (m, l) -
    (s.frame p).deferred.count (.dec m l) + (t.frame p).deferred.count (.dec m l)

theorem moved_defer {s' : ServeRun π} (ds : List Deferred) (pc : HandlerPc)
    (hf : s'.frame = s.frame) (hl : s'.inFlight.limit = s.inFlight.limit)
    (hle : s.inFlight.used ≤ s.inFlight.limit → s'.inFlight.used ≤ s'.inFlight.limit)
    (hu : s'.inFlight.used = s.inFlight.used + ds.count .release)
    (hg : ∀ m l, s'.connectionsOpen (m, l) = s.connectionsOpen (m, l) + ds.count (.dec m l)) :
    s.Moved p ((s'.defer p ds).goto p pc) := by
  refine ⟨fun q hq => by simp [goto, defer, hf, hq], hl, hle, ?_, fun m l => ?_⟩
  · rw [frame_goto, frame_defer, hf, List.count_append]
    exact hu.trans (by push_cast; omega)
  · rw [frame_goto, frame_defer, hf, List.count_append]
    exact (hg m l).trans (by push_cast; omega)

theorem moved_goto {s' : ServeRun π} (pc : HandlerPc) (hf : s'.frame = s.frame)
    (hi : s'.inFlight = s.inFlight) (hg : s'.connectionsOpen = s.connectionsOpen) :
    s.Moved p (s'.goto p pc) := by
  have hnil : s'.goto p pc = (s'.defer p []).goto p pc := by simp [goto, defer]
  rw [hnil]
  refine moved_defer [] pc hf (by rw [hi]) (by rw [hi]; exact id) ?_ fun m l => ?_
  · simp [hi]
  · simp [hg]

theorem update_gauge (gauge : List UInt8 × List UInt8 → Int) (method path m l : List UInt8)
    (n : Int) : update gauge (method, path) (gauge (method, path) + n) (m, l) =
      gauge (m, l) + n * [Deferred.dec method path].count (.dec m l) := by
  by_cases h : (m, l) = (method, path)
  · cases h
    simp
  · have h' : ¬(method = m ∧ path = l) := fun e => h (by rw [e.1, e.2])
    simp [update_of_ne h, h']

theorem moved_pop {s' : ServeRun π} {d : Deferred} {ds : List Deferred}
    (hd : (s.frame p).deferred = d :: ds) (hs : s.runDeferred cfg p d = some s') :
    s.Moved p { s' with frame := update s'.frame p ⟨.unwind, ds⟩ } := by
  have hcall : s'.frame = s.frame ∧ s'.inFlight.limit = s.inFlight.limit ∧
      s'.inFlight.used = s.inFlight.used - [d].count .release ∧
      ∀ m l, s'.connectionsOpen (m, l) = s.connectionsOpen (m, l) - [d].count (.dec m l) := by
    cases d with
    | release =>
      cases hs
      exact ⟨rfl, ResourceBudget.release_limit, ResourceBudget.release_used, fun m l => by simp⟩
    | cancel =>
      cases hs
      exact ⟨rfl, rfl, by simp [onContexts], by simp [onContexts]⟩
    | dec method path =>
      cases hs
      refine ⟨rfl, rfl, by simp, fun m l => ?_⟩
      have h := update_gauge s.connectionsOpen method path m l (-1)
      rw [← Int.sub_eq_add_neg] at h
      exact h.trans (by omega)
    | endActive | endTouch =>
      obtain ⟨clients, -, rfl⟩ := onClients_eq hs
      exact ⟨rfl, rfl, by simp, by simp⟩
  obtain ⟨hf, hl, hu, hg⟩ := hcall
  refine ⟨fun q hq => by simp [hf, hq], hl, fun hle => ?_, ?_, fun m l => ?_⟩
  · simp only [hu, hl]
    omega
  · simp only [hu, hd, update_self, List.count_cons, List.count_nil]
    push_cast
    omega
  · simp only [hg m l, hd, update_self, List.count_cons, List.count_nil]
    push_cast
    omega

theorem Turns.moved (h : Turns cfg s p t) : s.Moved p t := by
  cases h with
  | goto pc hw =>
    exact moved_goto pc hw.aside.frame hw.aside.inFlight hw.aside.connectionsOpen
  | reserve _ hroom =>
    exact moved_defer _ _ rfl (ResourceBudget.reserve_limit hroom) (ResourceBudget.reserve_le hroom)
      (ResourceBudget.reserve_used hroom) (by simp)
  | context _ => exact moved_defer _ _ rfl rfl id (by simp [onContexts]) (by simp [onContexts])
  | label _ | called _ => exact moved_goto _ rfl rfl rfl
  | inc _ hl =>
    cases hl
    refine moved_defer _ _ rfl rfl id (by simp) fun m l => ?_
    exact (update_gauge s.connectionsOpen _ _ m l 1).trans (by rw [Int.one_mul])
  | admitted => exact moved_defer _ _ rfl rfl id (by simp) (by simp)
  | pop _ hd hs => exact moved_pop hd hs

structure Booked (cfg : ServeConfig π) (s : ServeRun π) : Prop where
  shaped : ∀ p, s.Shaped p
  limit : s.inFlight.limit = cfg.maxInFlightRequests
  used_le : s.inFlight.used ≤ s.inFlight.limit
  used : Sums (fun p => ((s.frame p).deferred.count .release : Int)) s.inFlight.used
  gauge : ∀ m l, Sums (fun p => ((s.frame p).deferred.count (.dec m l) : Int))
    (s.connectionsOpen (m, l))

theorem sums_moved {d : Deferred} {n n' : Int}
    (h : Sums (fun p => ((s.frame p).deferred.count d : Int)) n)
    (ho : ∀ q, q ≠ p → t.frame q = s.frame q)
    (hn : n' = n - (s.frame p).deferred.count d + (t.frame p).deferred.count d) :
    Sums (fun p => ((t.frame p).deferred.count d : Int)) n' := by
  have hfun : (fun q => ((t.frame q).deferred.count d : Int)) =
      update (fun q => ((s.frame q).deferred.count d : Int)) p ((t.frame p).deferred.count d) := by
    funext q
    by_cases hq : q = p
    · simp [hq]
    · simp [hq, ho q hq]
  rw [hfun, hn]
  exact h.update p _

theorem Booked.step {a : ServeAction π} (h : s.Booked cfg) (hs : s.step cfg a = some t) :
    t.Booked cfg := by
  obtain ⟨p, -, hturns⟩ | haround := step_cases hs
  · obtain ⟨ho, hl, hle, hu, hg⟩ := hturns.moved
    refine ⟨fun q => ?_, hl.trans h.limit, hle h.used_le, sums_moved h.used ho hu,
      fun m l => sums_moved (h.gauge m l) ho (hg m l)⟩
    by_cases hq : q = p
    · subst hq
      exact hturns.shaped (h.shaped q)
    · simpa [Shaped, ho q hq] using h.shaped q
  · obtain ⟨hf, hi, -, hg, -⟩ := haround.aside
    refine ⟨fun p => ?_, ?_, ?_, ?_, fun m l => ?_⟩
    · simpa [Shaped, hf] using h.shaped p
    · rw [hi, h.limit]
    · rw [hi]
      exact h.used_le
    · rw [hf, hi]
      exact h.used
    · rw [hf, hg]
      exact h.gauge m l

theorem booked_of_reachable (h : (system cfg).Reachable s) : s.Booked cfg := by
  refine System.Reach.invariant ?_ (fun s a t ih _ hs => ih.step hs) h
  rintro s ⟨now, rfl⟩
  exact ⟨fun _ => .outside, rfl, by simp [start, ResourceBudget.newResourceBudget], Sums.zero,
    fun _ _ => Sums.zero⟩

omit [DecidableEq π] in
theorem Booked.counts (h : s.Booked cfg) {d : Deferred} {n : Int}
    (hn : Sums (fun p => ((s.frame p).deferred.count d : Int)) n) :
    Counts (fun p => d ∈ (s.frame p).deferred) n := by
  have hone : ∀ p, (((s.frame p).deferred.count d : Int) = 0 ∨
      ((s.frame p).deferred.count d : Int) = 1) := by
    intro p
    have := List.nodup_iff_count_le_one.mp (h.shaped p).nodup d
    omega
  refine (hn.counts hone).congr fun p => ?_
  rw [← List.count_pos_iff]
  have hp := hone p
  omega

omit [DecidableEq π] in
theorem Booked.reserve_eq_none (h : s.Booked cfg) :
    s.inFlight.reserve 1 = none ↔ s.inFlight.used = cfg.maxInFlightRequests := by
  have hle := h.used_le
  rw [h.limit] at hle
  simp only [ResourceBudget.reserve, h.limit]
  split
  · omega
  · split
    · simp only [true_iff]
      omega
    · simp only [reduceCtorEq, false_iff]
      omega

omit [DecidableEq π] in
theorem Booked.deferred_nil (h : s.Booked cfg) (hp : (s.frame p).pc.level = .outside) :
    (s.frame p).deferred = [] := by
  have hs := h.shaped p
  unfold Shaped at hs
  rw [hp] at hs
  generalize (s.frame p).deferred = ds at hs
  cases hs
  rfl

/-- In every reachable state `inFlight` counts the requests that have yet to release their slot.
There are at most `MaxInFlightRequests` of them, and no slot is refused before there are as many.
A request has a slot all the time from its reservation to the return of the handler, and none
before its reservation and once it is through. -/
theorem in_flight_exact (h : (system cfg).Reachable s) :
    (∃ F : Finset π, (∀ p, p ∈ F ↔ .release ∈ (s.frame p).deferred) ∧
      s.inFlight.used = F.card ∧ F.card ≤ cfg.maxInFlightRequests ∧
      (s.inFlight.reserve 1 = none ↔ F.card = cfg.maxInFlightRequests)) ∧
    (∀ p, (s.frame p).pc.inside = true → .release ∈ (s.frame p).deferred) ∧
    ∀ p, (s.frame p).pc.level = .outside → (s.frame p).deferred = [] := by
  have hb := booked_of_reachable h
  obtain ⟨F, hF, hused⟩ := hb.counts hb.used
  have hle := hb.used_le
  rw [hb.limit, hused] at hle
  refine ⟨⟨F, hF, hused, by exact_mod_cast hle, ?_⟩, fun p hp => ?_, fun p => hb.deferred_nil⟩
  · rw [hb.reserve_eq_none, hused]
    exact_mod_cast Iff.rfl
  · obtain ⟨ho, hu⟩ := of_decide_eq_true hp
    exact (hb.shaped p).release_mem ho hu

theorem in_flight_exact_full : ∃ s : ServeRun (Fin 2), (system oneSlot).Reachable s ∧
    .release ∈ (s.frame 0).deferred ∧ (s.frame 1).pc = .reserve ∧ (s.frame 1).deferred = [] ∧
    s.inFlight.reserve 1 = none := by
  have hrun : ((system oneSlot).run (start oneSlot 0) [.serve 0 .go, .serve 1 .go, .serve 1 .go,
      .serve 0 .go, .serve 0 .go]).map (fun s => decide (s.inFlight.used = 1 ∧
        (s.frame 0).pc = .tests ∧ (s.frame 1).pc = .reserve)) = some true := by
    decide +kernel
  obtain ⟨s, hs, hobs⟩ := Option.map_eq_some_iff.mp hrun
  obtain ⟨hused, h0, h1⟩ := of_decide_eq_true hobs
  have hreach := System.Reachable.run (start_reachable 0) hs
  obtain ⟨⟨F, -, hF, -, hnone⟩, hinside, houtside⟩ := in_flight_exact hreach
  refine ⟨s, hreach, hinside 0 (by rw [h0]; rfl), h1, houtside 1 (by rw [h1]; rfl), hnone.mpr ?_⟩
  have hcard : (F.card : Int) = 1 := hF.symm.trans hused
  exact_mod_cast hcard

def methodLabels : Finset (List UInt8) := insert (ascii "OTHER") metricsMethods.toFinset

omit [DecidableEq π] in
theorem metricsMethodLabel_mem (method : List UInt8) :
    metricsMethodLabel method ∈ methodLabels := by
  unfold metricsMethodLabel methodLabels
  split
  · exact Finset.mem_insert_of_mem (List.mem_toFinset.mpr ‹_›)
  · exact Finset.mem_insert_self _ _

structure Labelled (s : ServeRun π) : Prop where
  bounded : s.metricsRoutes.Bounded
  limit : s.metricsRoutes.limit = maxMetricsRouteLabels
  chosen : ∀ p path bucketPath, (s.frame p).pc = .inc path bucketPath → path ∈ s.metricsRoutes.seen
  series : s.series ⊆ methodLabels ×ˢ s.metricsRoutes.seen
  dec : ∀ p m l, .dec m l ∈ (s.frame p).deferred → (m, l) ∈ s.series

structure Relabels (s : ServeRun π) (p : π) (t : ServeRun π) : Prop where
  bounded : s.metricsRoutes.Bounded → t.metricsRoutes.Bounded
  limit : t.metricsRoutes.limit = s.metricsRoutes.limit
  seen : s.metricsRoutes.seen ⊆ t.metricsRoutes.seen
  chosen : s.metricsRoutes.Bounded → ∀ path bucketPath, (t.frame p).pc = .inc path bucketPath →
    path ∈ t.metricsRoutes.seen
  series : s.series ⊆ t.series
  added : ∀ m l, (m, l) ∈ t.series → (m, l) ∈ s.series ∨
    m ∈ methodLabels ∧ ∃ bucketPath, (s.frame p).pc = .inc l bucketPath
  dec : ∀ m l, .dec m l ∈ (t.frame p).deferred →
    .dec m l ∈ (s.frame p).deferred ∨ (m, l) ∈ t.series

omit [DecidableEq π] in
theorem relabels_same (hm : t.metricsRoutes = s.metricsRoutes) (hs : t.series = s.series)
    (hinc : (t.frame p).pc.isInc = false)
    (hd : ∀ m l, .dec m l ∈ (t.frame p).deferred → .dec m l ∈ (s.frame p).deferred) :
    s.Relabels p t where
  bounded h := hm ▸ h
  limit := by rw [hm]
  seen := by rw [hm]
  chosen _ path bucketPath hpc := by simp [hpc, HandlerPc.isInc] at hinc
  series := by rw [hs]
  added m l h := .inl (hs ▸ h)
  dec m l h := .inl (hd m l h)

theorem Turns.relabels (h : Turns cfg s p t) : s.Relabels p t := by
  cases h with
  | goto pc hw hf _ =>
    refine relabels_same hw.aside.metricsRoutes hw.aside.series ?_ fun m l => ?_
    · simp only [HandlerPc.follows, Bool.and_eq_true, Bool.not_eq_true'] at hf
      rw [frame_goto]
      exact hf.1.1
    · rw [frame_goto, hw.aside.frame]
      exact id
  | reserve _ _ => exact relabels_same rfl rfl (by rw [frame_goto]; rfl) (by simp)
  | context _ => exact relabels_same rfl rfl (by rw [frame_goto]; rfl) (by simp [onContexts])
  | called _ => exact relabels_same rfl rfl (by rw [frame_goto]; rfl) (by simp)
  | @label route _ _ =>
    refine ⟨fun h => (h.label route).1, RouteLabelLimiter.label_limit _ _,
      RouteLabelLimiter.seen_subset_label _ _, fun h path bucketPath hpc => ?_,
      Finset.Subset.refl _, fun m l => .inl, fun m l h => .inl (by simpa using h)⟩
    rw [frame_goto] at hpc
    cases hpc
    exact (h.label route).2
  | @inc path bucketPath labels hpc hl =>
    cases hl
    refine ⟨id, rfl, Finset.Subset.refl _, fun _ path' bucketPath' h => ?_,
      Finset.subset_insert _ _, fun m l h => ?_, fun m l h => ?_⟩
    · rw [frame_goto, frame_defer] at h
      cases h
    · obtain h | h := Finset.mem_insert.mp h
      · cases h
        exact .inr ⟨metricsMethodLabel_mem _, bucketPath, hpc⟩
      · exact .inl h
    · rw [frame_goto, frame_defer] at h
      obtain h | h := List.mem_cons.mp h
      · cases h
        exact .inr (Finset.mem_insert_self _ _)
      · exact .inl h
  | admitted => exact relabels_same rfl rfl (by rw [frame_goto]; rfl) (by simp)
  | @pop d ds s' hpc hd hs =>
    have hcall : s'.metricsRoutes = s.metricsRoutes ∧ s'.series = s.series := by
      cases d with
      | release | cancel | dec =>
        cases hs
        exact ⟨rfl, rfl⟩
      | endActive | endTouch =>
        exact ⟨(onClients_aside hs).metricsRoutes, (onClients_aside hs).series⟩
    refine relabels_same hcall.1 hcall.2 (by simp [HandlerPc.isInc]) fun m l h => ?_
    rw [hd]
    simp only [update_self] at h
    exact List.mem_cons_of_mem _ h

theorem Labelled.step {a : ServeAction π} (h : s.Labelled) (hs : s.step cfg a = some t) :
    t.Labelled := by
  obtain ⟨p, -, hturns⟩ | haround := step_cases hs
  · have ho := hturns.moved.others
    obtain ⟨hb, hl, hseen, hchosen, hsub, hadd, hdec⟩ := hturns.relabels
    refine ⟨hb h.bounded, hl.trans h.limit, fun q path bucketPath hpc => ?_, ?_, fun q m l hd => ?_⟩
    · by_cases hq : q = p
      · subst hq
        exact hchosen h.bounded path bucketPath hpc
      · rw [ho q hq] at hpc
        exact hseen (h.chosen q path bucketPath hpc)
    · rintro ⟨m, l⟩ hx
      rw [Finset.mem_product]
      obtain hx | ⟨hm, bucketPath, hpc⟩ := hadd m l hx
      · obtain ⟨hm, hl⟩ := Finset.mem_product.mp (h.series hx)
        exact ⟨hm, hseen hl⟩
      · exact ⟨hm, hseen (h.chosen p l bucketPath hpc)⟩
    · by_cases hq : q = p
      · subst hq
        obtain hd | hd := hdec m l hd
        · exact hsub (h.dec q m l hd)
        · exact hd
      · rw [ho q hq] at hd
        exact hsub (h.dec q m l hd)
  · obtain ⟨hf, -, hm, -, hser⟩ := haround.aside
    refine ⟨hm ▸ h.bounded, hm ▸ h.limit, ?_, ?_, ?_⟩
    · rw [hf, hm]
      exact h.chosen
    · rw [hser, hm]
      exact h.series
    · rw [hf, hser]
      exact h.dec

theorem labelled_of_reachable (h : (system cfg).Reachable s) : s.Labelled := by
  refine System.Reach.invariant ?_ (fun s a t ih _ hs => ih.step hs) h
  rintro s ⟨now, rfl⟩
  exact ⟨RouteLabelLimiter.newRouteLabelLimiter_bounded _, rfl, by simp [start], by simp [start],
    by simp [start]⟩

/-- In every reachable state the gauge of open connections counts, for each pair of labels, the
requests that have yet to take themselves off it.  Whatever methods and paths are requested, the
pairs in use consist of one of ten labels for methods and one of the route labels seen, of which
there are at most 1024, the overflow label among them, and none has more than 512 bytes. -/
theorem open_connections_exact (h : (system cfg).Reachable s) :
    (∀ m l, ∃ F : Finset π, (∀ p, p ∈ F ↔ .dec m l ∈ (s.frame p).deferred) ∧
      s.connectionsOpen (m, l) = F.card) ∧
    (∀ m l, s.connectionsOpen (m, l) ≠ 0 → (m, l) ∈ s.series) ∧
    s.series ⊆ methodLabels ×ˢ s.metricsRoutes.seen ∧ methodLabels.card = 10 ∧
    overflowMetricsRouteLabel ∈ s.metricsRoutes.seen ∧
    s.metricsRoutes.seen.card ≤ maxMetricsRouteLabels ∧
    s.series.card ≤ 10 * maxMetricsRouteLabels ∧
    (∀ l ∈ s.metricsRoutes.seen, l.length ≤ maxMetricsRouteLabelBytes) ∧
    ∀ x ∈ s.series, x.2.length ≤ maxMetricsRouteLabelBytes := by
  have hb := booked_of_reachable h
  have hl := labelled_of_reachable h
  have hseen : s.metricsRoutes.seen.card ≤ maxMetricsRouteLabels := by
    have := hl.bounded.card_le
    rwa [hl.limit] at this
  have hmethods : methodLabels.card = 10 := by decide
  refine ⟨fun m l => hb.counts (hb.gauge m l), fun m l hne => ?_, hl.series, hmethods,
    hl.bounded.overflow, hseen, ?_, hl.bounded.short, fun x hx => ?_⟩
  · obtain ⟨F, hF, hcard⟩ := hb.counts (hb.gauge m l)
    obtain ⟨p, hp⟩ : F.Nonempty := by
      rw [Finset.nonempty_iff_ne_empty]
      rintro rfl
      exact hne (by simpa using hcard)
    exact hl.dec p m l ((hF p).mp hp)
  · calc s.series.card ≤ (methodLabels ×ˢ s.metricsRoutes.seen).card :=
          Finset.card_le_card hl.series
      _ = methodLabels.card * s.metricsRoutes.seen.card := Finset.card_product _ _
      _ ≤ 10 * maxMetricsRouteLabels := Nat.mul_le_mul hmethods.le hseen
  · exact hl.bounded.short x.2 (Finset.mem_product.mp (hl.series hx)).2

theorem open_connections_exact_one : ∃ s : ServeRun (Fin 2), (system oneSlot).Reachable s ∧
    s.connectionsOpen (ascii "GET", ascii "/gateway") = 1 ∧
    (ascii "GET", ascii "/gateway") ∈ s.series := by
  have hrun : ((system oneSlot).run (start oneSlot 0) [.serve 0 .go, .serve 0 .go, .serve 0 .go,
      .serve 0 .go, .serve 0 .go, .serve 0 .go, .serve 0 .go, .serve 0 .go]).map (fun s =>
        s.connectionsOpen (ascii "GET", ascii "/gateway")) = some 1 := by
    decide +kernel
  obtain ⟨s, hs, hobs⟩ := Option.map_eq_some_iff.mp hrun
  have hreach := System.Reachable.run (start_reachable 0) hs
  exact ⟨s, hreach, hobs, (open_connections_exact hreach).2.1 _ _ (by rw [hobs]; decide)⟩

end ServeRun

end NirnProxy
