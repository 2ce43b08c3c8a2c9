import NirnProxy.Retry.Accounting

/-! Bodies that have no capture never reserve anything, so after `close` nothing is reserved for
any kind of body. -/

universe u

namespace NirnProxy

namespace CaptureCell

def Plain (c : CaptureCell) : Prop :=
  c.replay.kind ≠ .capture → c.capture.reserved = 0 ∧ c.pc = .idle

theorem plain_newBodyReplay {request : BodyRequest} {limit : Int} {budget budget' : ResourceBudget}
    {r : BodyReplay} {b : CaptureBody}
    (h : BodyReplay.newBodyReplay request limit budget = some (r, b, budget')) :
    Plain ⟨r, b, .idle⟩ := by
  intro hk
  refine ⟨?_, rfl⟩
  unfold BodyReplay.newBodyReplay at h
  simp only at h
  split at h
  · cases h
    rfl
  split at h
  · cases h
    rfl
  split at h
  · cases h
    exact (hk rfl).elim
  split at h
  · cases h
    exact (hk rfl).elim
  split at h
  · obtain ⟨budget, -, h⟩ := Option.map_eq_some_iff.mp h
    cases h
    exact (hk rfl).elim
  · cases h
    exact (hk rfl).elim

theorem prepareRetry_kind (r : BodyReplay) (b : CaptureBody) (closeOk : Bool) :
    (r.prepareRetry b closeOk).1.kind = r.kind := by
  unfold BodyReplay.prepareRetry
  split
  · rfl
  · split
    · rfl
    · split <;> rfl

end CaptureCell

namespace CaptureRun

variable {π : Type u}

/-- Nothing more will be reserved for `p`: its capture is lost or closed, or there is none. -/
def Settled (s : CaptureRun π) (p : π) : Prop :=
  s.Discarded p ∨ ∃ c, s.cell p = some c ∧ c.replay.kind ≠ .capture

variable [DecidableEq π] {cfg : CaptureConfig} {s t : CaptureRun π} {p : π}

theorem step_cell {a : CaptureAction π} (hs : s.step cfg a = some t) :
    t.cell = s.cell ∨
    ∃ p c', t.cell = Function.update s.cell p (some c') ∧
      ((∃ request, a = .newBodyReplay p request) ∧ s.cell p = none ∧ c'.Plain ∨
        ∃ c, s.cell p = some c ∧ c'.replay.kind = c.replay.kind ∧ (c.Plain → c'.Plain)) := by
  cases step_moves hs with
  | create hc hnew =>
    exact .inr ⟨_, _, rfl, .inl ⟨⟨_, rfl⟩, hc, CaptureCell.plain_newBodyReplay hnew⟩⟩
  | refuse => exact .inl rfl
  | read hc hk => exact .inr ⟨_, _, rfl, .inr ⟨_, hc, rfl, fun _ hne => (hne hk).elim⟩⟩
  | reserve hc => exact .inr ⟨_, _, rfl, .inr ⟨_, hc, rfl, fun h hne => nomatch (h hne).2⟩⟩
  | keep hc => exact .inr ⟨_, _, rfl, .inr ⟨_, hc, rfl, fun h hne => nomatch (h hne).2⟩⟩
  | @prepareRetry p closeOk r b hc =>
    have hkind := CaptureCell.prepareRetry_kind r b closeOk
    refine .inr ⟨p, _, rfl, .inr ⟨_, hc, hkind, fun h hne => ?_⟩⟩
    refine ⟨?_, rfl⟩
    exact (CaptureCell.prepareRetry_keeps _ _ closeOk).1.trans (h (hkind ▸ hne)).1
  | close hc hk => exact .inr ⟨_, _, rfl, .inr ⟨_, hc, rfl, fun _ hne => (hne hk).elim⟩⟩
  | skip => exact .inl rfl

theorem none_of_step {a : CaptureAction π} (h : s.cell p = none)
    (ha : ∀ request, a ≠ .newBodyReplay p request) (hs : s.step cfg a = some t) :
    t.cell p = none := by
  obtain ht | ⟨q, c', ht, hq⟩ := step_cell hs
  · exact ht ▸ h
  · rw [ht]
    by_cases hpq : p = q
    · subst hpq
      obtain ⟨⟨request, hr⟩, -⟩ | ⟨c, hc, -⟩ := hq
      · exact (ha request hr).elim
      · cases h.symm.trans hc
    · simpa [hpq] using h

theorem plain_of_reachable (h : (system π cfg).Reachable s) :
    ∀ p c, s.cell p = some c → c.Plain := by
  refine h.invariant (I := fun s : CaptureRun π => ∀ p c, s.cell p = some c → c.Plain) ?_ ?_
  · rintro _ rfl p c hc
    cases hc
  · intro s a t hi _ hs q d hd
    obtain ht | ⟨p, c', ht, hp⟩ := step_cell hs
    · exact hi q d (ht ▸ hd)
    · rw [ht] at hd
      by_cases hq : q = p
      · subst hq
        simp only [Function.update_self, Option.some.injEq] at hd
        subst hd
        obtain ⟨-, -, hc'⟩ | ⟨c, hc, -, hc'⟩ := hp
        · exact hc'
        · exact hc' (hi q c hc)
      · exact hi q d (by simpa [hq] using hd)

theorem Settled.step {a : CaptureAction π} (hi : s.Inv cfg) (h : s.Settled p)
    (hs : s.step cfg a = some t) : t.Settled p := by
  obtain h | ⟨c, hc, hk⟩ := h
  · exact .inl (h.step hi hs)
  · refine .inr ?_
    obtain ht | ⟨q, c', ht, hq⟩ := step_cell hs
    · exact ⟨c, ht ▸ hc, hk⟩
    · rw [ht]
      by_cases hpq : p = q
      · subst hpq
        obtain ⟨-, hn, -⟩ | ⟨d, hd, hkind, -⟩ := hq
        · cases hn.symm.trans hc
        · cases hd.symm.trans hc
          exact ⟨c', Function.update_self .., hkind ▸ hk⟩
      · exact ⟨c, by simpa [hpq] using hc, hk⟩

theorem Settled.reserved (h : (system π cfg).Reachable s) (hp : s.Settled p) :
    s.reserved p = 0 := by
  obtain hp | ⟨c, hc, hk⟩ := hp
  · exact (inv_of_reachable h).reserved_of_discarded hp
  · exact (reserved_of_cell hc).trans (plain_of_reachable h p c hc hk).1

theorem settled_of_close (hs : s.step cfg (.close p) = some t) : t.Settled p := by
  have hcell : ∃ c, t.cell p = some c := by
    simp only [CaptureRun.step] at hs
    split at hs
    · rename_i hc
      split at hs <;> cases hs
      · exact ⟨_, Function.update_self ..⟩
      · exact ⟨_, hc⟩
    · cases hs
  obtain ⟨c, hc⟩ := hcell
  by_cases hk : c.replay.kind = .capture
  · exact .inl (discarded_of_close hs hc hk)
  · exact .inr ⟨c, hc, hk⟩

end CaptureRun

end NirnProxy
