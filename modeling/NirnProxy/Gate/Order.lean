import Mathlib.Data.List.Basic
import NirnProxy.Gate.Core

/-! Who comes first at a gate: `p` is ahead of a queued `q` if it has the gate or stands before `q`
in the queue. -/

universe u

namespace NirnProxy

namespace FifoGate

variable {π : Type u} [DecidableEq π]

def Ahead (g : FifoGate π) (p q : π) : Prop :=
  q ∈ g.waiters ∧ (g.holds p = true ∨ [p, q].Sublist g.waiters)

variable {g g' : FifoGate π} {p q x : π} {done : Bool} {a : GateStep} {r : GateReturn}

omit [DecidableEq π] in
theorem Wf.queued_or_holds (h : g.Wf) (hp : g.call p ≠ .out) :
    p ∈ g.waiters ∨ g.holds p = true := by
  by_cases he : (g.waiter p).element = true
  · exact .inl ((h.element p).mpr he)
  · refine .inr ?_
    cases hc : g.call p with
    | out => exact (hp hc).elim
    | _ => simp [holds, hc, he]

omit [DecidableEq π] in
theorem Ahead.congr (h : g.Ahead p q) (hw : g'.waiters = g.waiters)
    (hh : g'.holds p = g.holds p) : g'.Ahead p q := by
  obtain ⟨hq, hp⟩ := h
  exact ⟨hw ▸ hq, hp.imp (fun hp => hh.trans hp) fun hp => hw ▸ hp⟩

theorem Ahead.release (wf : g.Wf) (h : g.Ahead p q) (hx : g.holds x = true) (hne : x ≠ p) :
    (g.release.goto x .out).Ahead p q := by
  obtain ⟨hq, hp | hp⟩ := h
  · exact (hne (wf.unique x p hx hp)).elim
  · have hfirst := wf.holds_release (q := p) hx
    cases hw : g.waiters with
    | nil => simp [hw] at hq
    | cons front rest =>
      have hw' : (g.release.goto x .out).waiters = rest := by simp [hw]
      rw [hw] at hp hfirst
      rw [Ahead, hw']
      cases hp with
      | cons _ hp => exact ⟨hp.subset (by simp), .inr hp⟩
      | cons_cons _ hp => exact ⟨hp.subset (by simp), .inl (hfirst.mpr rfl)⟩

/-- Nobody is overtaken in the queue: `p` stays ahead of `q` until one of them leaves. -/
theorem Ahead.step (wf : g.Wf) (h : g.Ahead p q) (hs : g.step done x a = some (g', r)) :
    g'.Ahead p q ∨ (x = p ∨ x = q) ∧ (a = .release ∨ ∃ e, r = .refused e) := by
  cases step_moves hs with
  | take _ hf =>
    have hq := h.1
    simp [wf.idle hf] at hq
  | full => exact .inl h
  | pushBack hx =>
    obtain ⟨hq, hp⟩ := h
    refine .inl ⟨List.mem_append_left _ hq, ?_⟩
    rw [holds_pushBack hx]
    exact hp.imp_right fun hp => hp.trans (List.sublist_append_left _ _)
  | remove hx he =>
    by_cases hxpq : x = p ∨ x = q
    · exact .inr ⟨hxpq, .inr ⟨_, rfl⟩⟩
    · obtain ⟨hxp, hxq⟩ := not_or.mp hxpq
      obtain ⟨hq, hp⟩ := h
      refine .inl ⟨(List.mem_erase_of_ne (Ne.symm hxq)).mpr hq, ?_⟩
      rw [wf.holds_remove ((wf.element x).mpr he)]
      refine hp.imp_right fun hp => ?_
      have herase := hp.erase x
      rwa [List.erase_of_not_mem (by simp [hxp, hxq])] at herase
  | giveBack hx =>
    by_cases hxp : x = p
    · exact .inr ⟨.inl hxp, .inr ⟨_, rfl⟩⟩
    · exact .inl (h.release wf (by simp [holds, hx]) hxp)
  | release hx =>
    by_cases hxp : x = p
    · exact .inr ⟨.inl hxp, .inl rfl⟩
    · exact .inl (h.release wf (by simp [holds, hx]) hxp)
  | grant hx => exact .inl (h.congr (goto_waiters _ _ _) (holds_goto_of_took hx (.inl rfl)))
  | back hx => exact .inl (h.congr (goto_waiters _ _ _) (holds_goto_of_took hx (.inr rfl)))
  | resume hx hr => exact .inl (h.congr (goto_waiters _ _ _) (wf.holds_resume hx hr))
  | leave hx => exact .inl (h.congr (goto_waiters _ _ _) (holds_leave hx))
  | passOn hx he => exact .inl (h.congr (goto_waiters _ _ _) (holds_passOn hx he))

theorem ahead_of_enter (wf : g.Wf) (hp : g.call p ≠ .out)
    (hs : g.step done q .enter = some (g', r)) : g'.Ahead p q ∨ ∃ e, r = .refused e := by
  have hin := wf.queued_or_holds hp
  cases step_moves hs with
  | take hq hf =>
    obtain hin | hin := hin
    · simp [wf.idle hf] at hin
    · simp [wf.held.mpr ⟨p, hin⟩] at hf
  | full hq => exact .inr ⟨_, rfl⟩
  | pushBack hq =>
    refine .inl ⟨List.mem_append_right _ (List.mem_singleton_self q), ?_⟩
    rw [holds_pushBack hq]
    refine hin.symm.imp_right fun hin => ?_
    exact (List.singleton_sublist.mpr hin).append (List.Sublist.refl [q])

theorem owner_of_release (hs : g.step done p .release = some (g', r)) : g.call p = .owner := by
  cases step_moves hs with
  | release hp => exact hp

theorem enter_of_out (hq : g.call q = .out) (hs : g.step done q a = some (g', r)) : a = .enter := by
  cases step_moves hs with
  | take | full | pushBack => rfl
  | grant h | back h => obtain h | h := h <;> cases h.symm.trans hq
  | remove h | giveBack h | release h | resume h | leave h | passOn h => cases h.symm.trans hq

omit [DecidableEq π] in
theorem Ahead.call (wf : g.Wf) (h : g.Ahead p q) : g.call q = .waiting ∨ g.call q = .leaving :=
  wf.queued q h.1

end FifoGate

end NirnProxy
