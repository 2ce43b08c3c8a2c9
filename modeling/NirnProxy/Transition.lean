import Mathlib.Logic.Function.Basic

/-! Labelled transition systems given by an executable step function, their runs,
and the induction rules every safety result below goes through. -/

universe u v w

namespace NirnProxy

structure System (σ : Type u) (α : Type v) where
  init : σ → Prop
  step : σ → α → Option σ

namespace System

variable {σ : Type u} {α : Type v}

/-- `S.Reach C s`: some run from an initial state ends in `s`, and each of its steps
satisfies `C` in the state in which it is taken. -/
inductive Reach (S : System σ α) (C : σ → α → Prop) : σ → Prop
  | init {s} : S.init s → Reach S C s
  | step {s a t} : Reach S C s → C s a → S.step s a = some t → Reach S C t

abbrev Reachable (S : System σ α) : σ → Prop := S.Reach fun _ _ => True

variable {S : System σ α} {C : σ → α → Prop} {s t : σ} {a : α}

theorem Reachable.next (h : S.Reachable s) (hs : S.step s a = some t) : S.Reachable t :=
  Reach.step h trivial hs

theorem Reach.mono {D : σ → α → Prop} (hCD : ∀ s a, C s a → D s a) (h : S.Reach C s) :
    S.Reach D s := by
  induction h with
  | init h => exact .init h
  | step _ hc hs ih => exact .step ih (hCD _ _ hc) hs

theorem Reach.reachable (h : S.Reach C s) : S.Reachable s := h.mono fun _ _ _ => trivial

/-- The invariant rule: what holds initially and is kept by every step holds throughout. -/
theorem Reach.invariant {I : σ → Prop} (h0 : ∀ s, S.init s → I s)
    (hstep : ∀ s a t, I s → C s a → S.step s a = some t → I t) (h : S.Reach C s) : I s := by
  induction h with
  | init h => exact h0 _ h
  | step _ hc hs ih => exact hstep _ _ _ ih hc hs

theorem Reach.invariant_with {I J : σ → Prop} (hJ : ∀ s, S.Reach C s → J s)
    (h0 : ∀ s, S.init s → I s)
    (hstep : ∀ s a t, J s → J t → I s → C s a → S.step s a = some t → I t)
    (h : S.Reach C s) : I s := by
  induction h with
  | init h => exact h0 _ h
  | step hr hc hs ih => exact hstep _ _ _ (hJ _ hr) (hJ _ (.step hr hc hs)) ih hc hs

/-- The invariant rule through an abstraction: each step that satisfies `C` is seen through `f` as
a step of the relation `M`, which keeps `I`. -/
theorem Reach.invariant_view {τ : Type w} {f : σ → τ} {M : τ → τ → Prop} {I : τ → Prop}
    (h0 : ∀ s, S.init s → I (f s)) (hM : ∀ s a t, C s a → S.step s a = some t → M (f s) (f t))
    (hI : ∀ v v', I v → M v v' → I v') (h : S.Reach C s) : I (f s) :=
  Reach.invariant (I := fun s => I (f s)) h0
    (fun s a t ih hc hs => hI _ _ ih (hM s a t hc hs)) h

/-- The simulation rule: each step that satisfies `C` is matched by at most one step of the relation
`M`, which keeps `I`. -/
theorem Reach.simulation {τ : Type w} {R : τ → σ → Prop} {M : τ → τ → Prop} {I : τ → Prop}
    (h0 : ∀ s, S.init s → ∃ v, I v ∧ R v s)
    (hM : ∀ v s a t, I v → R v s → C s a → S.step s a = some t → ∃ v', (v' = v ∨ M v v') ∧ R v' t)
    (hI : ∀ v v', I v → M v v' → I v') (h : S.Reach C s) : ∃ v, I v ∧ R v s := by
  induction h with
  | init h => exact h0 _ h
  | step _ hc hs ih =>
    obtain ⟨v, hv, hr⟩ := ih
    obtain ⟨v', rfl | hm, hr'⟩ := hM v _ _ _ hv hr hc hs
    · exact ⟨v', hv, hr'⟩
    · exact ⟨v', hI v v' hv hm, hr'⟩

/-- `S.Leads C s t`: some run from `s` ends in `t`, and each of its steps satisfies `C`. -/
inductive Leads (S : System σ α) (C : σ → α → Prop) (s : σ) : σ → Prop
  | refl : Leads S C s s
  | step {t a u} : Leads S C s t → C t a → S.step t a = some u → Leads S C s u

theorem Leads.reach (h : S.Leads C s t) (hs : S.Reach C s) : S.Reach C t := by
  induction h with
  | refl => exact hs
  | step _ hc ht ih => exact .step ih hc ht

theorem Leads.reachable (h : S.Leads C s t) (hs : S.Reachable s) : S.Reachable t := by
  induction h with
  | refl => exact hs
  | step _ _ ht ih => exact ih.next ht

theorem Leads.head {u : σ} (hc : C s a) (hs : S.step s a = some t) (h : S.Leads C t u) :
    S.Leads C s u := by
  induction h with
  | refl => exact .step .refl hc hs
  | step _ hc' ht ih => exact .step ih hc' ht

theorem Leads.mono {D : σ → α → Prop} (hCD : ∀ s a, C s a → D s a) (h : S.Leads C s t) :
    S.Leads D s t := by
  induction h with
  | refl => exact .refl
  | step _ hc ht ih => exact .step ih (hCD _ _ hc) ht

theorem Leads.trans {u : σ} (h : S.Leads C s t) (h' : S.Leads C t u) : S.Leads C s u := by
  induction h' with
  | refl => exact h
  | step _ hc ht ih => exact .step ih hc ht

theorem Leads.keeps {I J : σ → Prop} (hJ : ∀ s, S.Reach C s → J s)
    (hstep : ∀ s a t, J s → I s → C s a → S.step s a = some t → I t) (hs : S.Reach C s)
    (hI : I s) (h : S.Leads C s t) : I t := by
  induction h with
  | refl => exact hI
  | step h hc ht ih => exact hstep _ _ _ (hJ _ (h.reach hs)) ih hc ht

/-- Where every state of `I` leads to a lower one or is as wanted, a wanted one is in reach. -/
theorem Leads.of_rank {I G : σ → Prop} (rank : σ → Nat)
    (hstep : ∀ s, I s → ¬ G s → ∃ t, S.Leads C s t ∧ I t ∧ rank t < rank s) (hs : I s) :
    ∃ t, S.Leads C s t ∧ I t ∧ G t := by
  induction hn : rank s using Nat.strongRecOn generalizing s with
  | ind n ih =>
    by_cases hg : G s
    · exact ⟨s, .refl, hs, hg⟩
    · obtain ⟨t, hl, ht, hlt⟩ := hstep s hs hg
      obtain ⟨u, hu, hiu, hgu⟩ := ih _ (hn ▸ hlt) ht rfl
      exact ⟨u, hl.trans hu, hiu, hgu⟩

def check (S : System σ α) (c : σ → α → Bool) : System σ α where
  init := S.init
  step s a := if c s a then S.step s a else none

theorem Reach.of_check {c : σ → α → Bool} (hc : ∀ s a, c s a = true → C s a)
    (h : (S.check c).Reachable s) : S.Reach C s := by
  induction h with
  | init h => exact .init h
  | step _ _ hs ih =>
    obtain ⟨h, hs⟩ := Option.ite_none_right_eq_some.mp hs
    exact .step ih (hc _ _ h) hs

def run (S : System σ α) : σ → List α → Option σ
  | s, [] => some s
  | s, a :: as => (S.step s a).bind fun t => S.run t as

theorem run_of_append {u : σ} {as bs : List α} (h : S.run s as = some t)
    (h' : S.run s (as ++ bs) = some u) : S.run t bs = some u := by
  induction as generalizing s with
  | nil =>
    cases h
    exact h'
  | cons a as ih =>
    obtain ⟨s', hs, h⟩ := Option.bind_eq_some_iff.mp h
    obtain ⟨_, hs', h'⟩ := Option.bind_eq_some_iff.mp h'
    cases hs.symm.trans hs'
    exact ih h h'

theorem Reachable.run {as : List α} (h : S.Reachable s) (hr : S.run s as = some t) :
    S.Reachable t := by
  induction as generalizing s with
  | nil =>
    cases hr
    exact h
  | cons a as ih =>
    obtain ⟨s', hs, hr'⟩ := Option.bind_eq_some_iff.mp hr
    exact ih (h.next hs) hr'

theorem countP_le_rank {I : σ → Prop} (rank : σ → Nat) (c : α → Bool) {as : List α}
    (hI : ∀ s a t, I s → S.step s a = some t → I t)
    (hle : ∀ s a t, I s → S.step s a = some t → rank t ≤ rank s)
    (hlt : ∀ s a t, I s → c a = true → S.step s a = some t → rank t < rank s)
    (hs : I s) (hr : S.run s as = some t) : rank t + as.countP c ≤ rank s := by
  induction as generalizing s with
  | nil =>
    cases hr
    exact Nat.le_refl _
  | cons a as ih =>
    obtain ⟨s', hs', hr'⟩ := Option.bind_eq_some_iff.mp hr
    have hrest := ih (hI _ _ _ hs hs') hr'
    have hfirst := hle _ _ _ hs hs'
    rw [List.countP_cons]
    split
    · have := hlt _ _ _ hs ‹_› hs'
      omega
    · omega

theorem Leads.of_run {c : σ → α → Bool} {as : List α} (hc : ∀ s a, c s a = true → C s a)
    (hr : (S.check c).run s as = some t) : S.Leads C s t := by
  induction as generalizing s with
  | nil =>
    cases hr
    exact .refl
  | cons a as ih =>
    obtain ⟨s', hs, hr'⟩ := Option.bind_eq_some_iff.mp hr
    obtain ⟨h, hs⟩ := Option.ite_none_right_eq_some.mp hs
    exact (ih hr').head (hc _ _ h) hs

/-- Systems beside each other, each of which takes its own steps. -/
def pi {ι : Type w} [DecidableEq ι] (S : ι → System σ α) : System (ι → σ) (ι × α) where
  init s := ∀ i, (S i).init (s i)
  step s a := ((S a.1).step (s a.1) a.2).map (Function.update s a.1)

theorem Reachable.component {ι : Type w} [DecidableEq ι] {S : ι → System σ α} {s : ι → σ}
    (h : (pi S).Reachable s) (i : ι) : (S i).Reachable (s i) := by
  induction h with
  | init h => exact .init (h i)
  | @step s a t _ _ hs ih =>
    obtain ⟨x, hx, rfl⟩ := Option.map_eq_some_iff.mp hs
    by_cases hi : i = a.1
    · subst hi
      rw [Function.update_self]
      exact ih.next hx
    · rwa [Function.update_of_ne hi]

end System

/-! The runs given as examples have their parties in `Fin n`.  With these their numerals refer to a
named fact, and a run carries no proof of its own. -/

namespace Parties

scoped instance (priority := 2000) neZero_one : @NeZero Nat Zero.ofOfNat0 1 := ⟨by decide⟩

scoped instance (priority := 2000) neZero_two : @NeZero Nat Zero.ofOfNat0 2 := ⟨by decide⟩

scoped instance (priority := 2000) neZero_three : @NeZero Nat Zero.ofOfNat0 3 := ⟨by decide⟩

scoped instance (priority := 2000) neZero_four : @NeZero Nat Zero.ofOfNat0 4 := ⟨by decide⟩

scoped instance (priority := 2000) neZero_six : @NeZero Nat Zero.ofOfNat0 6 := ⟨by decide⟩

end Parties

end NirnProxy
