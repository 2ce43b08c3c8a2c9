import NirnProxy.Client.Calls
import NirnProxy.Serve.InFlight

/-! Where the handler of a request stands says how far the request is in the client table, and the
context of a request is tied to that of the proxy for as long as its cancellation is deferred. -/

universe u

namespace NirnProxy

open Function (update update_self update_of_ne)

/-- A request in the phase `ph` may stand at `f`. -/
structure Frame.Agrees (f : Frame) (ph : RequestPhase) : Prop where
  entering : f.pc.entering = true → ph = .new
  called : f.pc = .admission → ph.pending = true ∨ ph = .refused ∨ ∃ i, ph = .active i
  active : .endActive ∈ f.deferred → ∃ i, ph = .active i
  ending : .endTouch ∈ f.deferred → .endActive ∉ f.deferred → ∃ i time, ph = .ending i time

namespace Frame.Agrees

variable {f : Frame} {ph ph' : RequestPhase}

theorem away {pc : HandlerPc} {ds : List Deferred} (hpc : pc.entering = false)
    (hne : pc ≠ .admission) (ha : .endActive ∈ ds → ∃ i, ph = .active i)
    (he : .endTouch ∈ ds → .endActive ∉ ds → ∃ i time, ph = .ending i time) :
    (⟨pc, ds⟩ : Frame).Agrees ph where
  entering hin := by cases hpc.symm.trans hin
  called hin := absurd hin hne
  active := ha
  ending := he

theorem goto {pc : HandlerPc} (h : f.Agrees ph) (hf : f.pc.follows pc = true) :
    ({ f with pc := pc } : Frame).Agrees ph := by
  simp only [HandlerPc.follows, Bool.and_eq_true, Bool.or_eq_true, Bool.not_eq_true', bne_iff_ne]
    at hf
  obtain ⟨⟨-, hne⟩, hpc⟩ := hf
  refine ⟨fun he => h.entering (hpc.resolve_left ?_), fun he => absurd he hne, h.active, h.ending⟩
  simp [show pc.entering = true from he]

theorem defer {d : Deferred} {pc : HandlerPc} (h : f.Agrees ph) (hpc : f.pc.entering = true)
    (hne : pc ≠ .admission) (ha : d ≠ .endActive) (ht : d ≠ .endTouch) :
    (⟨pc, d :: f.deferred⟩ : Frame).Agrees ph where
  entering _ := h.entering hpc
  called he := absurd he hne
  active hmem := h.active ((List.mem_cons.mp hmem).resolve_left ha.symm)
  ending hmem hnot := h.ending ((List.mem_cons.mp hmem).resolve_left ht.symm)
    fun hmem => hnot (List.mem_cons_of_mem _ hmem)

theorem settles (h : f.Agrees ph) (hp : ph.pending = true)
    (hph : ph'.pending = true ∨ ph' = .refused ∨ ∃ i, ph' = .active i) : f.Agrees ph' where
  entering he := by
    rw [h.entering he] at hp
    cases hp
  called _ := hph
  active ha := by
    obtain ⟨i, rfl⟩ := h.active ha
    cases hp
  ending ht ha := by
    obtain ⟨i, time, rfl⟩ := h.ending ht ha
    cases hp

theorem pop {d : Deferred} {ds : List Deferred} (h : f.Agrees ph) (hd : f.deferred = d :: ds)
    (ha : d ≠ .endActive) : (⟨.unwind, ds⟩ : Frame).Agrees ph := by
  refine away rfl (by simp) (fun hmem => h.active (hd ▸ List.mem_cons_of_mem _ hmem))
    fun hmem hnot => h.ending (hd ▸ List.mem_cons_of_mem _ hmem) ?_
  rw [hd]
  exact fun hmem => hnot ((List.mem_cons.mp hmem).resolve_left ha.symm)

end Frame.Agrees

namespace ServeRun

variable {π : Type u} [DecidableEq π] {cfg : ServeConfig π} {s t : ServeRun π} {p q : π}

theorem Own.phase (h : Own cfg s p t) (hq : q ≠ p) : t.clients.phase q = s.clients.phase q := by
  obtain he | ⟨a, ha, hs⟩ := h.clients
  · rw [he]
  · cases ha with
    | client => rw [ClientRun.client_phase hs, update_of_ne hq]
    | endActive =>
      obtain ⟨i, hphase⟩ := ClientRun.endActive_phase hs
      rw [hphase, update_of_ne hq]
    | endTouch =>
      obtain ⟨-, i, hphase⟩ := ClientRun.endTouch_phase hs
      rw [hphase, update_of_ne hq]

theorem Turns.agrees (h : Turns cfg s p t) (hshape : s.Shaped p)
    (ha : (s.frame p).Agrees (s.clients.phase p)) : (t.frame p).Agrees (t.clients.phase p) := by
  cases h with
  | goto pc hw hf _ =>
    rw [frame_goto, hw.aside.frame]
    simp only [ServeRun.goto, hw.clients]
    exact ha.goto hf
  | reserve hpc _ =>
    rw [frame_goto, frame_defer]
    exact ha.defer (by rw [hpc]; rfl) (by simp) (by simp) (by simp)
  | context hpc =>
    rw [frame_goto, frame_defer]
    exact ha.defer (by rw [hpc]; rfl) (by simp) (by simp) (by simp)
  | inc hpc _ =>
    rw [frame_goto, frame_defer]
    exact ha.defer (by rw [hpc]; rfl) (by simp) (by simp) (by simp)
  | label hpc =>
    rw [frame_goto]
    exact ⟨fun _ => ha.entering (by rw [hpc]; rfl), fun he => absurd he (by simp), ha.active,
      ha.ending⟩
  | called hpc _ hs =>
    rw [frame_goto]
    simp only [ServeRun.goto, ClientRun.client_phase hs, update_self]
    have hnew := ha.entering (by rw [hpc]; rfl)
    refine ⟨fun he => absurd he (by simp [HandlerPc.entering]), fun _ => .inl rfl, fun hmem => ?_,
      fun hmem hnot => ?_⟩
    · obtain ⟨i, hi⟩ := ha.active hmem
      cases hnew.symm.trans hi
    · obtain ⟨i, time, hi⟩ := ha.ending hmem hnot
      cases hnew.symm.trans hi
  | @admitted i hpc hp =>
    rw [frame_goto, frame_defer]
    exact .away rfl (by simp) (fun _ => ⟨i, hp⟩) fun _ hnot => absurd List.mem_cons_self hnot
  | @pop d ds s' hpc hd hs =>
    unfold Shaped at hshape
    rw [hpc, hd] at hshape
    have hnodup := List.nodup_cons.mp hshape.nodup
    simp only [update_self]
    cases d with
    | release | dec method path | cancel =>
      cases hs
      exact ha.pop hd (by simp)
    | endActive =>
      obtain ⟨clients, hc, rfl⟩ := onClients_eq hs
      obtain ⟨i, hphase⟩ := ClientRun.endActive_phase hc
      rw [hphase, update_self]
      exact .away rfl (by simp) (fun hmem => absurd hmem hnodup.1) fun _ _ => ⟨i, _, rfl⟩
    | endTouch =>
      obtain ⟨clients, hc, rfl⟩ := onClients_eq hs
      exact .away rfl (by simp) (fun hmem => absurd hmem hshape.endActive_notMem)
        fun hmem => absurd hmem hnodup.1

/-- What the others do to a request in the client table: they bring it out of `client`. -/
theorem Around.phase {x : ServeAction π} (h : Around cfg s x t) (ho : s.clients.Owned) (q : π) :
    t.clients.phase q = s.clients.phase q ∨ (s.clients.phase q).pending = true ∧
      ((t.clients.phase q).pending = true ∨ t.clients.phase q = .refused ∨
        ∃ i, t.clients.phase q = .active i) := by
  cases h with
  | clients ha hs => exact .inl (congrFun (ClientRun.step_aside ha hs) q)
  | lock _ hs =>
    obtain ⟨-, rfl⟩ := ClientRun.sweepClients_mu hs
    exact .inl rfl
  | table hi _ hs _ | swept hi _ hs =>
    cases ClientRun.step_settles hi hs with
    | stays hphase _ => exact .inl (congrFun hphase q)
    | @begins p i hmu _ hphase =>
      by_cases hq : q = p
      · subst hq
        refine .inr ⟨(ho q).mpr hmu, .inl ?_⟩
        simp [hphase, RequestPhase.pending]
      · exact .inl (by simp [hphase, hq])
    | @leaves p ph hmu _ hphase hph =>
      by_cases hq : q = p
      · subst hq
        refine .inr ⟨(ho q).mpr hmu, .inr ?_⟩
        simpa [hphase] using hph
      · exact .inl (by simp [hphase, hq])
  | _ => exact .inl rfl

theorem owned_step {a : ServeAction π} (h : s.clients.Owned) (hs : s.step cfg a = some t) :
    t.clients.Owned := by
  obtain he | ⟨a, hs⟩ | ⟨-, he⟩ := step_clients hs
  · rwa [he]
  · exact h.step hs
  · rw [he]
    exact h

theorem owned_of_reachable (h : (system cfg).Reachable s) : s.clients.Owned := by
  refine System.Reach.invariant (I := fun s => s.clients.Owned) ?_ (fun s a t ih _ hs =>
    owned_step ih hs) h
  rintro s ⟨now, rfl⟩ p
  simp [start, ClientRun.start, RequestPhase.pending, ClientsMu.request]

theorem agrees_of_reachable (h : (system cfg).Reachable s) (p : π) :
    (s.frame p).Agrees (s.clients.phase p) := by
  refine System.Reach.invariant_with (J := fun s => s.clients.Owned ∧ s.Booked cfg)
    (I := fun s => ∀ p, (s.frame p).Agrees (s.clients.phase p))
    (fun s h => ⟨owned_of_reachable h, booked_of_reachable h⟩) ?_ ?_ h p
  · rintro s ⟨now, rfl⟩ p
    exact ⟨fun _ => rfl, by simp [start], by simp [start], by simp [start]⟩
  · rintro s a t ⟨ho, hb⟩ - ih - hs q
    obtain ⟨p, -, hturns⟩ | haround := step_cases hs
    · by_cases hq : q = p
      · subst hq
        exact hturns.agrees (hb.shaped q) (ih q)
      · rw [(hturns.own.others q hq).frame, hturns.own.phase hq]
        exact ih q
    · rw [haround.aside.frame]
      obtain he | ⟨hp, hph⟩ := haround.phase ho q
      · rw [he]
        exact ih q
      · exact (ih q).settles hp hph

def Armed (s : ServeRun π) (p : π) : Prop :=
  .cancel ∈ (s.frame p).deferred →
    (s.contexts p).afterFunc = true ∨ (s.contexts p).request.cause.isSome = true

omit [DecidableEq π] in
theorem Armed.congr (h : s.Armed p)
    (hd : .cancel ∈ (t.frame p).deferred → .cancel ∈ (s.frame p).deferred)
    (hr : (t.contexts p).request = (s.contexts p).request)
    (ha : (t.contexts p).afterFunc = (s.contexts p).afterFunc) : t.Armed p := by
  intro hmem
  rw [hr, ha]
  exact h (hd hmem)

theorem Armed.turns (h : s.Armed p) (ht : Turns cfg s p t) (hshape : s.Shaped p) : t.Armed p := by
  cases ht with
  | goto pc hw hf _ =>
    refine h.congr (fun hmem => ?_) hw.request hw.afterFunc
    rwa [frame_goto, hw.aside.frame] at hmem
  | reserve | inc | admitted => exact h.congr (by simp) rfl rfl
  | label | called => exact h.congr (by simp) rfl rfl
  | context =>
    intro _
    exact .inl (by simp [ServeRun.goto, defer, onContexts])
  | @pop d ds s' hpc hd hs =>
    unfold Shaped at hshape
    rw [hpc, hd] at hshape
    have hnodup := List.nodup_cons.mp hshape.nodup
    have hback : .cancel ∈ (({ s' with frame := update s'.frame p ⟨.unwind, ds⟩ } :
        ServeRun π).frame p).deferred → .cancel ∈ (s.frame p).deferred := by
      simp only [update_self, hd]
      exact List.mem_cons_of_mem _
    cases d with
    | release | dec method path =>
      cases hs
      exact h.congr hback rfl rfl
    | endActive | endTouch =>
      obtain ⟨clients, -, rfl⟩ := onClients_eq hs
      exact h.congr hback rfl rfl
    | cancel =>
      cases hs
      intro hmem
      simp only [update_self] at hmem
      exact absurd hmem hnodup.1

theorem Armed.context {i : ContextInput} (h : s.Armed p) (hs : s.contextStep p i = some t) :
    t.Armed p := by
  cases i with
  | disconnect =>
    cases hs
    exact h.congr id (by simp [onContexts]) (by simp [onContexts])
  | afterFunc =>
    obtain ⟨-, hs⟩ := Option.ite_none_right_eq_some.mp hs
    cases hs
    intro _
    exact .inr (by simp [onContexts])
  | inheritRequest =>
    obtain ⟨c, hc, rfl⟩ := Option.map_eq_some_iff.mp hs
    intro _
    exact .inr (by simpa [onContexts] using Context.isSome_cause_inherit hc)
  | inheritQueue | inheritAttempt | expireQueue | expireAttempt =>
    obtain ⟨c, -, rfl⟩ := Option.map_eq_some_iff.mp hs
    exact h.congr id (by simp [onContexts]) (by simp [onContexts])

theorem armed_of_reachable (h : (system cfg).Reachable s) (p : π) : s.Armed p := by
  refine System.Reach.invariant_with (J := Booked cfg) (I := fun s => ∀ p, s.Armed p)
    (fun s h => booked_of_reachable h) ?_ ?_ h p
  · rintro s ⟨now, rfl⟩ p hmem
    cases hmem
  · rintro s a t hb - ih - hs p
    by_cases hserve : ∃ i, a = .serve p i
    · obtain ⟨i, rfl⟩ := hserve
      exact (ih p).turns (serve_turns hs) (hb.shaped p)
    by_cases hcontext : ∃ i, a = .context p i
    · obtain ⟨i, rfl⟩ := hcontext
      exact (ih p).context hs
    have hbeside := step_beside (fun i e => hserve ⟨i, e⟩) (fun i e => hcontext ⟨i, e⟩) hs
    refine (ih p).congr (fun hmem => ?_) ?_ ?_
    · rwa [hbeside.frame] at hmem
    all_goals rw [hbeside.contexts]

end ServeRun

end NirnProxy
