import NirnProxy.Client.Sections

/-! What becomes of the requests that call `client`: one at a time holds `clientsMu` for it, and it
comes out with a state, or refused because the maps had no room. -/

universe u v

namespace NirnProxy

variable {π : Type u} {κ : Type v}

def ClientMaps.Full (cfg : ClientConfig π κ) (id : Identity κ)
    (m : ClientMaps κ) : Prop :=
  id.kind = .bearer ∧ cfg.maxBearerClients ≤ m.bearerCount ∨ cfg.maxClientStates ≤ m.total

def SearchFor.request : SearchFor π κ → Option π
  | .bearers A | .all A => some A.request
  | .sweepBots | .sweepBearers => none

theorem SearchFor.request_charge (f : SearchFor π κ) (n : Int) :
    (f.charge n).request = f.request := by
  cases f <;> rfl

def ClientsMu.request : ClientsMu π κ → Option π
  | .free => none
  | .search S => S.purpose.request
  | .cap A | .create A | .begin A _ | .touch A _ => some A.request

def RequestPhase.pending : RequestPhase → Bool
  | .calling | .beginning _ => true
  | .new | .active _ | .ending _ _ | .ended _ _ | .refused => false

namespace ClientRun

/-- A search for room goes on only while there is none, and a request that is refused has come from
maps without room. -/
structure Crowded (cfg : ClientConfig π κ) (s : ClientRun π κ) : Prop where
  searching : ∀ S p, s.mu = .search S → S.purpose.request = some p →
    s.maps.Full cfg (cfg.identity p)
  refused : ∀ p, s.phase p = .refused → ∃ r ∈ s.returned, r.call.request = p ∧
    r.tooManyClients = true ∧ r.after.Full cfg (cfg.identity p)

variable {cfg : ClientConfig π κ} {s t : ClientRun π κ} {a : ClientAction π κ}

theorem Crowded.mono (h : s.Crowded cfg)
    (hsearch : ∀ S p, t.mu = .search S → S.purpose.request = some p →
      t.maps.Full cfg (cfg.identity p))
    (hphase : ∀ p, t.phase p = .refused → s.phase p = .refused) (hret : s.returned ⊆ t.returned) :
    t.Crowded cfg := by
  refine ⟨hsearch, fun p hp => ?_⟩
  obtain ⟨r, hr, hfull⟩ := h.refused p (hphase p hp)
  exact ⟨r, hret hr, hfull⟩

theorem Crowded.unsearched (h : s.Crowded cfg) (hmu : ∀ S, t.mu ≠ .search S)
    (hphase : ∀ p, t.phase p = .refused → s.phase p = .refused) (hret : s.returned ⊆ t.returned) :
    t.Crowded cfg := h.mono (fun S _ hS => absurd hS (hmu S)) hphase hret

theorem Crowded.outside (h : s.Crowded cfg) (hmu : t.mu = s.mu) (hmaps : t.maps = s.maps)
    (hphase : ∀ p, t.phase p = .refused → s.phase p = .refused) (hret : s.returned ⊆ t.returned) :
    t.Crowded cfg := by
  refine h.mono (fun S p hS hp => ?_) hphase hret
  rw [hmaps]
  exact h.searching S p (hmu ▸ hS) hp

variable [DecidableEq π] [DecidableEq κ]

omit [DecidableEq κ] in
theorem refused_of_goto {p q : π} {ph : RequestPhase} (hph : ph ≠ .refused)
    (h : Function.update s.phase p ph q = .refused) : s.phase q = .refused := by
  by_cases hq : q = p
  · subst hq
    rw [Function.update_self] at h
    exact absurd h hph
  · rwa [Function.update_of_ne hq] at h

omit [DecidableEq κ] in
theorem Crowded.visited {S : IdleSearch π κ} (h : s.Crowded cfg) (hmu : s.mu = .search S) :
    (s.visited S).Crowded cfg := by
  unfold ClientRun.visited
  have hrefuse : ∀ A : Admission π κ, S.purpose.request = some A.request →
      ({ s with mu := .free, returned := ⟨A, true, s.maps⟩ :: s.returned }.goto A.request
        .refused : ClientRun π κ).Crowded cfg := by
    refine fun A hA => ⟨fun S' _ hS => absurd hS (by simp [goto]), fun q hq => ?_⟩
    by_cases hqA : q = A.request
    · subst hqA
      exact ⟨_, List.mem_cons_self, rfl, rfl, h.searching S _ hmu hA⟩
    · obtain ⟨r, hr, hfull⟩ := h.refused q (by simpa [goto, hqA] using hq)
      exact ⟨r, List.mem_cons_of_mem _ hr, hfull⟩
  split
  · exact h.mono (by rintro S' p ⟨⟩ ⟨⟩) (fun _ => id) (List.Subset.refl _)
  · exact h.unsearched (by simp) (fun _ => id) (List.Subset.refl _)
  · rename_i hpurpose _
    refine h.mono ?_ (fun _ => id) (List.Subset.refl _)
    rintro S' p ⟨⟩ hp
    exact h.searching S p hmu hp
  · refine h.mono ?_ (fun _ => id) (List.Subset.refl _)
    rintro S' p ⟨⟩ hp
    exact h.searching S p hmu hp
  · rename_i A hpurpose _
    exact hrefuse A (by rw [hpurpose]; rfl)
  · rename_i A hpurpose _
    exact hrefuse A (by rw [hpurpose]; rfl)

theorem Crowded.step (h : s.Crowded cfg) (hs : s.step cfg a = some t) : t.Crowded cfg := by
  cases a with
  | tick d =>
    cases hs
    exact h.outside rfl rfl (fun _ => id) (List.Subset.refl _)
  | client p =>
    simp only [ClientRun.step] at hs
    have hgo : ∀ q, Function.update s.phase p .calling q = .refused → s.phase q = .refused :=
      fun q => refused_of_goto (by simp)
    split at hs
    · split at hs
      · cases hs
        exact h.unsearched (by simp [goto]) hgo (List.Subset.refl _)
      · split at hs <;> cases hs
        · rename_i hfull
          refine h.mono ?_ hgo (List.Subset.refl _)
          rintro S q ⟨⟩ hq
          cases hq
          exact .inl hfull
        · exact h.unsearched (by simp [goto]) hgo (List.Subset.refl _)
    · cases hs
  | cap =>
    simp only [ClientRun.step] at hs
    split at hs
    · split at hs <;> cases hs
      · rename_i hfull
        refine h.mono ?_ (fun _ => id) (List.Subset.refl _)
        rintro S q ⟨⟩ -
        exact .inr hfull
      · exact h.unsearched (by simp) (fun _ => id) (List.Subset.refl _)
    · cases hs
  | sweepClients now =>
    obtain ⟨-, rfl⟩ := sweepClients_mu hs
    refine h.mono ?_ (fun _ => id) (List.Subset.refl _)
    rintro S q ⟨⟩ ⟨⟩
  | read r =>
    simp only [ClientRun.step] at hs
    split at hs
    · rename_i S hmu
      obtain ⟨S', hr, rfl⟩ := Option.map_eq_some_iff.mp hs
      refine h.mono ?_ (fun _ => id) (List.Subset.refl _)
      rintro S q ⟨⟩ hq
      exact h.searching _ q hmu (IdleSearch.read_purpose hr ▸ hq)
    · cases hs
  | visited =>
    simp only [ClientRun.step] at hs
    split at hs
    · cases hs
      exact h.visited ‹_›
    · cases hs
  | clear =>
    simp only [ClientRun.step] at hs
    split at hs
    · rename_i hmu
      cases hs
      refine h.mono ?_ (fun _ => id) (List.Subset.refl _)
      rintro S q ⟨⟩ hq
      rw [SearchFor.request_charge] at hq
      exact h.searching _ q hmu hq
    · cases hs
  | delete =>
    simp only [ClientRun.step] at hs
    split at hs
    · rename_i f _ _ _ _ _ _
      cases hs
      refine h.mono ?_ (fun _ => id) (List.Subset.refl _)
      intro S q hS hq
      cases f <;> cases hS <;> cases hq
    · cases hs
  | create =>
    simp only [ClientRun.step] at hs
    split at hs <;> cases hs
    exact h.unsearched (by simp) (fun _ => id) (List.Subset.refl _)
  | begin =>
    simp only [ClientRun.step] at hs
    split at hs <;> cases hs
    exact h.unsearched (by simp [goto, onState]) (fun _ => refused_of_goto (by simp))
      (List.Subset.refl _)
  | touch =>
    simp only [ClientRun.step] at hs
    split at hs <;> cases hs
    exact h.unsearched (by simp [goto, onState]) (fun _ => refused_of_goto (by simp))
      (List.subset_cons_self _ _)
  | op p o =>
    simp only [ClientRun.step] at hs
    split at hs
    · split at hs <;> cases hs
      exact h.outside rfl rfl (fun _ => id) (List.Subset.refl _)
    · cases hs
  | endActive p | endTouch p =>
    simp only [ClientRun.step] at hs
    split at hs <;> cases hs
    exact h.outside rfl rfl (fun _ => refused_of_goto (by simp)) (List.Subset.refl _)
  | sweepBucket i hash | sweepAlias i route =>
    simp only [ClientRun.step] at hs
    split at hs
    · cases hs
    · split at hs <;> cases hs
      exact h.outside rfl rfl (fun _ => id) (List.Subset.refl _)

/-- What a step in a critical section does to the requests: the one that holds `clientsMu` stays in
`client`, or comes out of it with a state or refused. -/
inductive Settles (s t : ClientRun π κ) : Prop
  | stays : t.phase = s.phase → t.mu.request = s.mu.request → Settles s t
  | begins {p : π} {i : Nat} : s.mu.request = some p → t.mu.request = some p →
      t.phase = Function.update s.phase p (.beginning i) → Settles s t
  | leaves {p : π} {ph : RequestPhase} : s.mu.request = some p → t.mu.request = none →
      t.phase = Function.update s.phase p ph → ph = .refused ∨ (∃ i, ph = .active i) → Settles s t

theorem step_settles (hi : a.internal = true) (hs : s.step cfg a = some t) : Settles s t := by
  cases a with
  | tick d | client p | sweepClients now | op p o | endActive p | endTouch p | sweepBucket i hash
  | sweepAlias i route => cases hi
  | cap =>
    simp only [ClientRun.step] at hs
    split at hs
    · rename_i hmu
      split at hs <;> cases hs <;> exact .stays rfl (by rw [hmu]; rfl)
    · cases hs
  | read r =>
    simp only [ClientRun.step] at hs
    split at hs
    · rename_i hmu
      obtain ⟨S', hr, rfl⟩ := Option.map_eq_some_iff.mp hs
      refine .stays rfl ?_
      rw [hmu]
      exact congrArg SearchFor.request (IdleSearch.read_purpose hr)
    · cases hs
  | visited =>
    simp only [ClientRun.step] at hs
    split at hs
    · rename_i f now oldest hmu
      cases hs
      cases f with
      | sweepBots | sweepBearers => exact .stays rfl (by rw [hmu]; rfl)
      | bearers A | all A =>
        cases oldest with
        | none => exact .leaves (by rw [hmu]; rfl) rfl rfl (.inl rfl)
        | some x => exact .stays rfl (by rw [hmu]; rfl)
    · cases hs
  | clear =>
    simp only [ClientRun.step] at hs
    split at hs
    · rename_i hmu
      cases hs
      refine .stays rfl ?_
      rw [hmu]
      exact SearchFor.request_charge _ _
    · cases hs
  | delete =>
    simp only [ClientRun.step] at hs
    split at hs
    · rename_i f _ _ _ _ _ hmu
      cases hs
      refine .stays rfl ?_
      rw [hmu]
      cases f <;> rfl
    · cases hs
  | create =>
    simp only [ClientRun.step] at hs
    split at hs
    · rename_i hmu
      cases hs
      exact .stays rfl (by rw [hmu]; rfl)
    · cases hs
  | begin =>
    simp only [ClientRun.step] at hs
    split at hs
    · rename_i hmu
      cases hs
      exact .begins (by rw [hmu]; rfl) rfl rfl
    · cases hs
  | touch =>
    simp only [ClientRun.step] at hs
    split at hs
    · rename_i hmu
      cases hs
      exact .leaves (by rw [hmu]; rfl) rfl rfl (.inr ⟨_, rfl⟩)
    · cases hs

theorem step_aside (ha : a.aside = true) (hs : s.step cfg a = some t) : t.phase = s.phase := by
  cases a with
  | tick d =>
    cases hs
    rfl
  | op p o =>
    simp only [ClientRun.step] at hs
    split at hs
    · split at hs <;> cases hs
      rfl
    · cases hs
  | sweepBucket i hash | sweepAlias i route =>
    simp only [ClientRun.step] at hs
    split at hs
    · cases hs
    · split at hs <;> cases hs
      rfl
  | _ => cases ha

theorem client_phase {p : π} (hs : s.step cfg (.client p) = some t) :
    t.phase = Function.update s.phase p .calling := by
  simp only [ClientRun.step] at hs
  split at hs
  · split at hs
    · cases hs
      rfl
    · split at hs <;> cases hs <;> rfl
  · cases hs

theorem endActive_phase {p : π} (hs : s.step cfg (.endActive p) = some t) :
    ∃ i, t.phase = Function.update s.phase p (.ending i s.now) := by
  simp only [ClientRun.step] at hs
  split at hs <;> cases hs
  exact ⟨_, rfl⟩

theorem endTouch_phase {p : π} (hs : s.step cfg (.endTouch p) = some t) :
    (∃ i time, s.phase p = .ending i time) ∧
      ∃ i, t.phase = Function.update s.phase p (.ended i s.now) := by
  simp only [ClientRun.step] at hs
  split at hs <;> cases hs
  exact ⟨⟨_, _, ‹_›⟩, _, rfl⟩

def Owned (s : ClientRun π κ) : Prop :=
  ∀ p, (s.phase p).pending = true ↔ s.mu.request = some p

omit [DecidableEq κ] in
theorem Owned.goto {p : π} {ph : RequestPhase} (h : s.Owned) (hp : (s.phase p).pending = false)
    (hph : ph.pending = false) (hmu : t.mu = s.mu)
    (ht : t.phase = Function.update s.phase p ph) : t.Owned := by
  intro q
  rw [hmu, ht, ← h q]
  by_cases hq : q = p
  · subst hq
    rw [Function.update_self, hph, hp]
  · rw [Function.update_of_ne hq]

omit [DecidableEq κ] in
theorem Owned.settles (h : s.Owned) (hs : s.Settles t) : t.Owned := by
  intro q
  cases hs with
  | stays hphase hmu =>
    rw [hphase, hmu]
    exact h q
  | @begins p i hmu hmu' hphase =>
    rw [hphase, hmu']
    by_cases hq : q = p
    · subst hq
      simp [RequestPhase.pending]
    · rw [Function.update_of_ne hq, h q, hmu]
  | @leaves p ph hmu hmu' hphase hph =>
    rw [hphase, hmu']
    by_cases hq : q = p
    · subst hq
      obtain rfl | ⟨i, rfl⟩ := hph <;> simp [RequestPhase.pending]
    · rw [Function.update_of_ne hq, h q, hmu]
      simp [Ne.symm hq]

theorem Owned.step (h : s.Owned) (hs : s.step cfg a = some t) : t.Owned := by
  cases a with
  | cap | read r | visited | clear | delete | create | begin | touch =>
    exact h.settles (step_settles rfl hs)
  | tick d =>
    cases hs
    exact h
  | client p =>
    simp only [ClientRun.step] at hs
    split at hs
    · rename_i hmu hp
      have hgo : ∀ mu : ClientsMu π κ, mu.request = some p →
          ({ s with mu := mu }.goto p .calling : ClientRun π κ).Owned := by
        intro mu hreq q
        simp only [ClientRun.goto, hreq]
        by_cases hq : q = p
        · subst hq
          simp [RequestPhase.pending]
        · rw [Function.update_of_ne hq, h q, hmu]
          simp [ClientsMu.request, Ne.symm hq]
      split at hs
      · cases hs
        exact hgo _ rfl
      · split at hs <;> cases hs <;> exact hgo _ rfl
    · cases hs
  | sweepClients now =>
    obtain ⟨hmu, rfl⟩ := sweepClients_mu hs
    intro q
    rw [h q, hmu]
    rfl
  | op p o =>
    simp only [ClientRun.step] at hs
    split at hs
    · split at hs <;> cases hs
      exact h
    · cases hs
  | endActive p | endTouch p =>
    simp only [ClientRun.step] at hs
    split at hs <;> cases hs
    rename_i hp
    exact h.goto (by rw [hp]; rfl) rfl rfl rfl
  | sweepBucket i hash | sweepAlias i route =>
    simp only [ClientRun.step] at hs
    split at hs
    · cases hs
    · split at hs <;> cases hs
      exact h

end ClientRun

end NirnProxy
