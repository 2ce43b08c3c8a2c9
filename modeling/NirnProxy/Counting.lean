import Mathlib.Algebra.BigOperators.Group.Finset.Piecewise
import Mathlib.Algebra.Order.BigOperators.Group.Finset
import Mathlib.Data.Finset.Card
import Mathlib.Data.Set.Finite.Basic

/-! Integer counters that count the parties in some condition, or sum what each of them holds, out
of a type of parties that need not be finite. -/

universe u v

namespace NirnProxy

variable {π : Type u} {φ : Type v} {P Q : π → Prop} {m n : Int} {p : π}

def Counts (P : π → Prop) (n : Int) : Prop :=
  ∃ F : Finset π, (∀ p, p ∈ F ↔ P p) ∧ n = F.card

namespace Counts

theorem zero (h : ∀ p, ¬P p) : Counts P 0 := ⟨∅, by simp [h], by simp⟩

theorem congr (h : Counts P n) (hPQ : ∀ p, P p ↔ Q p) : Counts Q n := by
  obtain ⟨F, hF, rfl⟩ := h
  exact ⟨F, fun p => (hF p).trans (hPQ p), rfl⟩

theorem nonneg (h : Counts P n) : 0 ≤ n := by
  obtain ⟨F, -, rfl⟩ := h
  exact Int.natCast_nonneg _

theorem pos (h : Counts P n) (hp : P p) : 0 < n := by
  obtain ⟨F, hF, rfl⟩ := h
  exact_mod_cast Finset.card_pos.mpr ⟨p, (hF p).mpr hp⟩

theorem mono (hP : Counts P m) (hQ : Counts Q n) (h : ∀ p, P p → Q p) : m ≤ n := by
  obtain ⟨F, hF, rfl⟩ := hP
  obtain ⟨G, hG, rfl⟩ := hQ
  exact_mod_cast Finset.card_le_card fun p hp => (hG p).mpr (h p ((hF p).mp hp))

theorem eq_zero (h : Counts P n) (hP : ∀ p, ¬P p) : n = 0 := by
  obtain ⟨F, hF, rfl⟩ := h
  have hempty : F = ∅ := Finset.eq_empty_of_forall_notMem fun p hp => hP p ((hF p).mp hp)
  simp [hempty]

theorem restrict (hQ : Counts Q n) (h : ∀ p, P p → Q p) : ∃ m, Counts P m := by
  classical
  obtain ⟨G, hG, rfl⟩ := hQ
  refine ⟨_, G.filter P, fun p => ?_, rfl⟩
  rw [Finset.mem_filter, hG p]
  exact ⟨fun hp => hp.2, fun hp => ⟨h p hp, hp⟩⟩

theorem add (h : Counts P n) (hp : ¬P p) (hQ : ∀ q, Q q ↔ q = p ∨ P q) : Counts Q (n + 1) := by
  classical
  obtain ⟨F, hF, rfl⟩ := h
  refine ⟨insert p F, fun q => ?_, ?_⟩
  · rw [Finset.mem_insert, hF q, hQ q]
  · rw [Finset.card_insert_of_notMem fun hm => hp ((hF p).mp hm)]
    push_cast
    rfl

theorem sub (h : Counts P n) (hp : P p) (hQ : ∀ q, Q q ↔ q ≠ p ∧ P q) : Counts Q (n - 1) := by
  classical
  obtain ⟨F, hF, rfl⟩ := h
  have hm : p ∈ F := (hF p).mpr hp
  refine ⟨F.erase p, fun q => ?_, ?_⟩
  · rw [Finset.mem_erase, hF q, hQ q]
  · have := Finset.card_pos.mpr ⟨p, hm⟩
    rw [Finset.card_erase_of_mem hm]
    omega

variable [DecidableEq π] {f : π → φ} {x : φ} {R : π → φ → Prop}

theorem update_add (h : Counts (fun q => R q (f q)) n) (hp : ¬R p (f p)) (hx : R p x) :
    Counts (fun q => R q (Function.update f p x q)) (n + 1) := by
  refine h.add hp fun q => ?_
  by_cases hq : q = p
  · subst hq
    simp [hx]
  · simp [hq]

theorem update_sub (h : Counts (fun q => R q (f q)) n) (hp : R p (f p)) (hx : ¬R p x) :
    Counts (fun q => R q (Function.update f p x q)) (n - 1) := by
  refine h.sub hp fun q => ?_
  by_cases hq : q = p
  · subst hq
    simp [hx]
  · simp [hq]

theorem update_same (h : Counts (fun q => R q (f q)) n) (hx : R p x ↔ R p (f p)) :
    Counts (fun q => R q (Function.update f p x q)) n := by
  refine h.congr fun q => ?_
  by_cases hq : q = p
  · subst hq
    simp [hx]
  · simp [hq]

end Counts

/-- All but finitely many parties hold nothing, and `n` is what they hold together. -/
def Sums (f : π → Int) (n : Int) : Prop :=
  ∃ F : Finset π, (∀ p, p ∉ F → f p = 0) ∧ n = ∑ p ∈ F, f p

namespace Sums

variable {f : π → Int} {x : Int}

theorem zero : Sums (fun _ : π => 0) 0 := ⟨∅, by simp⟩

theorem nonneg (h : Sums f n) (hf : ∀ p, 0 ≤ f p) : 0 ≤ n := by
  obtain ⟨F, -, rfl⟩ := h
  exact Finset.sum_nonneg fun p _ => hf p

theorem sum_le (h : Sums f n) (hf : ∀ p, 0 ≤ f p) (G : Finset π) : ∑ p ∈ G, f p ≤ n := by
  classical
  obtain ⟨F, hF, rfl⟩ := h
  have hsub : ∑ p ∈ G ∩ F, f p = ∑ p ∈ G, f p := by
    refine Finset.sum_subset Finset.inter_subset_left fun p hG hp => hF p fun hm => ?_
    exact hp (Finset.mem_inter.mpr ⟨hG, hm⟩)
  rw [← hsub]
  exact Finset.sum_le_sum_of_subset_of_nonneg Finset.inter_subset_right fun p _ _ => hf p

theorem update [DecidableEq π] (h : Sums f n) (p : π) (x : Int) :
    Sums (Function.update f p x) (n - f p + x) := by
  obtain ⟨F, hF, rfl⟩ := h
  refine ⟨insert p F, fun q hq => ?_, ?_⟩
  · obtain ⟨hqp, hqF⟩ := not_or.mp (Finset.mem_insert.not.mp hq)
    rw [Function.update_of_ne hqp]
    exact hF q hqF
  · have hins : ∑ q ∈ insert p F, f q = ∑ q ∈ F, f q :=
      (Finset.sum_subset (Finset.subset_insert p F) fun q _ hq => hF q hq).symm
    have hsum := Finset.sum_update_of_mem (Finset.mem_insert_self p F) f x
    have hold := Finset.add_sum_erase (insert p F) f (Finset.mem_insert_self p F)
    rw [Finset.sdiff_singleton_eq_erase] at hsum
    rw [hsum, ← hins, ← hold]
    omega

theorem counts (h : Sums f n) (hf : ∀ p, f p = 0 ∨ f p = 1) : Counts (fun p => f p = 1) n := by
  obtain ⟨F, hF, rfl⟩ := h
  refine ⟨F.filter (f · = 1), fun p => ?_, ?_⟩
  · rw [Finset.mem_filter, and_iff_right_iff_imp]
    intro hp
    by_contra hmem
    rw [hF p hmem] at hp
    cases hp
  · have hsum : ∑ p ∈ F, f p = ∑ p ∈ F.filter (f · = 1), 1 := by
      rw [Finset.sum_filter]
      refine Finset.sum_congr rfl fun p _ => ?_
      obtain hp | hp := hf p <;> simp [hp]
    rw [hsum]
    simp

end Sums

end NirnProxy
