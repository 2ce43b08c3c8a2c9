import NirnProxy.Atomic
import NirnProxy.Client.Budget
import NirnProxy.Counting
import NirnProxy.Transition

/-! `resourceBudget` as the processor runs it: any number of callers in the compare-and-swap loop of
`reserve` and in `release`, on a 64-bit word.  They do what they would do one after the other on the
budget of the other modules, and the word does not overflow. -/

universe u

namespace NirnProxy

open Function (update)
open scoped Parties

def maxInt64 : Int := 9223372036854775807

/-- What is left of an integer in an `int64`. -/
def int64 (x : Int) : Int := x.bmod 18446744073709551616

theorem int64_eq {x : Int} (h : 0 ≤ x + maxInt64) (h' : x ≤ maxInt64) : int64 x = x := by
  unfold maxInt64 at h h'
  exact Int.bmod_eq_of_le_mul_two (by omega) (by omega)

inductive BudgetOp
  | reserve (size : Int)
  | release (size : Int)
  deriving DecidableEq

/-- A `release` returns nothing, which is taken for `true`. -/
def ResourceBudget.atomic : Atomic ResourceBudget BudgetOp Bool where
  apply b op := match op with
    | .reserve size => match b.reserve size with
      | some b' => (b', true)
      | none => (b, false)
    | .release size => (b.release size, true)

/-- `since` is the number of calls that had taken effect when the word was loaded. -/
inductive ReservePc
  | idle
  | load (size : Int)
  | swap (size used : Int) (since : Nat)
  | returned (size : Int) (ok : Bool)
  deriving DecidableEq

def ReservePc.pending : ReservePc → Bool
  | .load _ | .swap _ _ _ => true
  | .idle | .returned _ _ => false

/-- `used` is the word.  For the proofs: what each caller has reserved and not released, how often
it has called, and the calls that have taken effect, the last first. -/
structure BudgetRun (π : Type u) where
  used : Int
  call : π → ReservePc
  held : π → Int
  calls : π → Nat
  history : List (π × BudgetOp × Bool)

inductive BudgetAction (π : Type u)
  | reserve (p : π) (size : Int)
  | load (p : π)
  | swap (p : π)
  | release (p : π) (size : Int)
  | next (p : π)

namespace BudgetRun

variable {π : Type u}

def start : BudgetRun π where
  used := 0
  call := fun _ => .idle
  held := fun _ => 0
  calls := fun _ => 0
  history := []

variable [DecidableEq π]

def goto (p : π) (pc : ReservePc) (s : BudgetRun π) : BudgetRun π :=
  { s with call := update s.call p pc }

def begin (p : π) (s : BudgetRun π) : BudgetRun π :=
  { s with calls := update s.calls p (s.calls p + 1) }

def effect (p : π) (op : BudgetOp) (ok : Bool) (used size : Int) (s : BudgetRun π) : BudgetRun π :=
  { s with
    used := used
    held := update s.held p (s.held p + size)
    history := (p, op, ok) :: s.history }

/-- Nobody releases more than it has reserved. -/
def step (limit : Int) (s : BudgetRun π) : BudgetAction π → Option (BudgetRun π)
  | .reserve p size =>
    if s.call p = .idle then
      if size ≤ 0 then
        some (((s.begin p).effect p (.reserve size) true s.used 0).goto p (.returned size true))
      else some ((s.begin p).goto p (.load size))
    else none
  | .load p =>
    match s.call p with
    | .load size =>
      if s.used > limit ∨ size > int64 (limit - s.used) then
        some ((s.effect p (.reserve size) false s.used 0).goto p (.returned size false))
      else some (s.goto p (.swap size s.used s.history.length))
    | _ => none
  | .swap p =>
    match s.call p with
    | .swap size used _ =>
      if s.used = used then
        some ((s.effect p (.reserve size) true (int64 (used + size)) size).goto p
          (.returned size true))
      else some (s.goto p (.load size))
    | _ => none
  | .release p size =>
    if s.call p = .idle ∧ size ≤ s.held p then
      some (if 0 < size then
        (s.begin p).effect p (.release size) true (int64 (s.used + int64 (-size))) (-size)
      else (s.begin p).effect p (.release size) true s.used 0)
    else none
  | .next p =>
    match s.call p with
    | .returned _ _ => some (s.goto p .idle)
    | _ => none

def system (π : Type u) [DecidableEq π] (limit : Int) : System (BudgetRun π) (BudgetAction π) where
  init s := s = start
  step := step limit

/-- The last call of `p` that has taken effect. -/
def last (s : BudgetRun π) (p : π) : Option (BudgetOp × Bool) :=
  (s.history.find? fun e => e.1 = p).map Prod.snd

structure Linear (limit : Int) (s : BudgetRun π) : Prop where
  explained : ResourceBudget.atomic.Explains (.newResourceBudget limit) s.history ⟨limit, s.used⟩
  le_limit : s.used ≤ limit
  sums : Sums s.held s.used
  nonneg : ∀ p, 0 ≤ s.held p
  counted : ∀ p, s.calls p =
    s.history.countP (fun e => decide (e.1 = p)) + (s.call p).pending.toNat
  answered : ∀ p size ok, s.call p = .returned size ok → s.last p = some (.reserve size, ok)
  loading : ∀ p size, s.call p = .load size → 0 < size
  swapping : ∀ p size used since, s.call p = .swap size used since →
    0 < size ∧ used + size ≤ limit ∧ since ≤ s.history.length ∧
      (since = s.history.length → s.used = used)

variable {limit : Int} {s t : BudgetRun π} {p : π}

theorem Linear.used_nonneg (h : s.Linear limit) : 0 ≤ s.used := h.sums.nonneg h.nonneg

theorem Linear.move {pc : ReservePc} {calls : π → Nat} (h : s.Linear limit)
    (hother : ∀ q, q ≠ p → calls q = s.calls q)
    (hself : calls p = s.history.countP (fun e => decide (e.1 = p)) + pc.pending.toNat)
    (hreturned : ∀ size ok, pc ≠ .returned size ok) (hload : ∀ size, pc = .load size → 0 < size)
    (hswap : ∀ size used since, pc = .swap size used since →
      0 < size ∧ used + size ≤ limit ∧ since = s.history.length ∧ s.used = used) :
    Linear limit { s with calls := calls, call := update s.call p pc } where
  explained := h.explained
  le_limit := h.le_limit
  sums := h.sums
  nonneg := h.nonneg
  counted q := by
    by_cases hq : q = p
    · subst hq
      simpa using hself
    · simpa [hq, hother q hq] using h.counted q
  answered q size ok hc := by
    by_cases hq : q = p
    · subst hq
      exact absurd (by simpa using hc) (hreturned size ok)
    · exact h.answered q size ok (by simpa [hq] using hc)
  loading q size hc := by
    by_cases hq : q = p
    · subst hq
      exact hload size (by simpa using hc)
    · exact h.loading q size (by simpa [hq] using hc)
  swapping q size used since hc := by
    by_cases hq : q = p
    · subst hq
      obtain ⟨hpos, hle, hsince, hused⟩ := hswap size used since (by simpa using hc)
      exact ⟨hpos, hle, hsince.le, fun _ => hused⟩
    · exact h.swapping q size used since (by simpa [hq] using hc)

theorem Linear.effect {pc : ReservePc} {calls : π → Nat} {op : BudgetOp} {ok : Bool}
    {used size : Int} (h : s.Linear limit) (hother : ∀ q, q ≠ p → calls q = s.calls q)
    (hself : calls p = s.history.countP (fun e => decide (e.1 = p)) + 1)
    (hop : ResourceBudget.atomic.apply ⟨limit, s.used⟩ op = (⟨limit, used⟩, ok))
    (hle : used ≤ limit) (hused : used = s.used + size) (hheld : 0 ≤ s.held p + size)
    (hpc : pc = .idle ∨ ∃ size, pc = .returned size ok ∧ op = .reserve size) :
    Linear limit ⟨used, update s.call p pc, update s.held p (s.held p + size), calls,
      (p, op, ok) :: s.history⟩ where
  explained := .cons h.explained hop
  le_limit := hle
  sums := by
    have hsums := h.sums.update p (s.held p + size)
    have he : s.used - s.held p + (s.held p + size) = used := by omega
    rwa [he] at hsums
  nonneg q := by
    by_cases hq : q = p
    · subst hq
      simpa using hheld
    · simpa [hq] using h.nonneg q
  counted q := by
    by_cases hq : q = p
    · subst hq
      have hpending : pc.pending = false := by obtain rfl | ⟨_, rfl, -⟩ := hpc <;> rfl
      simp [hself, hpending]
    · have hne : p ≠ q := fun e => hq e.symm
      simpa [hq, hne, hother q hq] using h.counted q
  answered q size' ok' hc := by
    by_cases hq : q = p
    · subst hq
      obtain rfl | ⟨_, rfl, rfl⟩ := hpc
      · simp at hc
      · simp only [Function.update_self, ReservePc.returned.injEq] at hc
        obtain ⟨rfl, rfl⟩ := hc
        simp [last]
    · have hne : p ≠ q := fun e => hq e.symm
      have hlast := h.answered q size' ok' (by simpa [hq] using hc)
      simpa [last, hne] using hlast
  loading q size' hc := by
    by_cases hq : q = p
    · subst hq
      obtain rfl | ⟨_, rfl, -⟩ := hpc <;> simp at hc
    · exact h.loading q size' (by simpa [hq] using hc)
  swapping q size' used' since hc := by
    by_cases hq : q = p
    · subst hq
      obtain rfl | ⟨_, rfl, -⟩ := hpc <;> simp at hc
    · obtain ⟨hpos, hroom, hsince, -⟩ := h.swapping q size' used' since (by simpa [hq] using hc)
      refine ⟨hpos, hroom, Nat.le_succ_of_le hsince, fun he => ?_⟩
      simp only [List.length_cons] at he
      omega

theorem atomic_reserve {used size : Int} (hpos : 0 < size) (h : used + size ≤ limit) :
    ResourceBudget.atomic.apply ⟨limit, used⟩ (.reserve size) = (⟨limit, used + size⟩, true) := by
  have hroom : ¬ (limit < used ∨ limit - used < size) := by omega
  simp [ResourceBudget.atomic, ResourceBudget.reserve, not_le.mpr hpos, hroom]

theorem atomic_refuse {used size : Int} (hpos : 0 < size) (h : limit < used + size) :
    ResourceBudget.atomic.apply ⟨limit, used⟩ (.reserve size) = (⟨limit, used⟩, false) := by
  have hroom : limit < used ∨ limit - used < size := by omega
  simp [ResourceBudget.atomic, ResourceBudget.reserve, not_le.mpr hpos, hroom]

theorem Linear.step (hmax : limit ≤ maxInt64) {a : BudgetAction π} (h : s.Linear limit)
    (hs : s.step limit a = some t) : t.Linear limit := by
  have hnonneg := h.used_nonneg
  have hlimit := h.le_limit
  have hbegin (p : π) (q : π) (hq : q ≠ p) : (s.begin p).calls q = s.calls q := by
    simp [begin, hq]
  have hself {p : π} (hp : s.call p = .idle) : (s.begin p).calls p =
      s.history.countP (fun e => decide (e.1 = p)) + 1 := by
    simp [begin, h.counted p, hp, ReservePc.pending]
  cases a with
  | reserve p size =>
    obtain ⟨hidle, hs⟩ := Option.ite_none_right_eq_some.mp hs
    split at hs <;> rename_i hsize <;> cases hs
    · have hop : ResourceBudget.atomic.apply ⟨limit, s.used⟩ (.reserve size) =
          (⟨limit, s.used⟩, true) := by
        simp [ResourceBudget.atomic, ResourceBudget.reserve, hsize]
      refine h.effect (hbegin p) (hself hidle) hop hlimit (Int.add_zero _).symm ?_
        (.inr ⟨size, rfl, rfl⟩)
      simpa using h.nonneg p
    · refine h.move (hbegin p) (hself hidle) (by simp) (fun size' he => ?_) (by simp)
      cases he
      exact not_le.mp hsize
  | load p =>
    simp only [BudgetRun.step] at hs
    split at hs
    · rename_i size hc
      have hpos := h.loading p size hc
      have hword : int64 (limit - s.used) = limit - s.used :=
        int64_eq (by unfold maxInt64 at *; omega) (by omega)
      rw [hword] at hs
      have hcount := h.counted p
      rw [hc] at hcount
      split at hs <;> rename_i hroom <;> cases hs
      · refine h.effect (fun _ _ => rfl) hcount (atomic_refuse hpos (by omega)) hlimit
          (Int.add_zero _).symm ?_ (.inr ⟨size, rfl, rfl⟩)
        simpa using h.nonneg p
      · refine h.move (fun _ _ => rfl) hcount (by simp) (by simp) fun size' used since he => ?_
        cases he
        exact ⟨hpos, by omega, rfl, rfl⟩
    · cases hs
  | swap p =>
    simp only [BudgetRun.step] at hs
    split at hs
    · rename_i size used since hc
      obtain ⟨hpos, hroom, -⟩ := h.swapping p size used since hc
      have hcount := h.counted p
      rw [hc] at hcount
      split at hs <;> rename_i hused <;> cases hs
      · subst hused
        have hword : int64 (s.used + size) = s.used + size :=
          int64_eq (by unfold maxInt64; omega) (by omega)
        rw [hword]
        refine h.effect (fun _ _ => rfl) hcount (atomic_reserve hpos hroom) hroom rfl ?_
          (.inr ⟨size, rfl, rfl⟩)
        have := h.nonneg p
        omega
      · refine h.move (fun _ _ => rfl) hcount (by simp) (fun size' he => ?_) (by simp)
        cases he
        exact hpos
    · cases hs
  | release p size =>
    obtain ⟨⟨hidle, hheld⟩, hs⟩ := Option.ite_none_right_eq_some.mp hs
    have hcall : update s.call p .idle = s.call := by rw [← hidle, Function.update_eq_self]
    split at hs <;> rename_i hpos <;> cases hs
    · have hle := h.sums.sum_le h.nonneg {p}
      rw [Finset.sum_singleton] at hle
      have hword : int64 (s.used + int64 (-size)) = s.used - size := by
        rw [int64_eq (x := -size) (by omega) (by unfold maxInt64; omega),
          int64_eq (by unfold maxInt64; omega) (by omega)]
        rfl
      have hnext : Linear limit ⟨s.used - size, update s.call p .idle,
          update s.held p (s.held p + -size), (s.begin p).calls,
          (p, .release size, true) :: s.history⟩ := by
        refine h.effect (hbegin p) (hself hidle) ?_ (by omega) rfl (by omega) (.inl rfl)
        simp [ResourceBudget.atomic, ResourceBudget.release, hpos]
      rw [hcall, ← hword] at hnext
      exact hnext
    · have hnext : Linear limit ⟨s.used, update s.call p .idle, update s.held p (s.held p + 0),
          (s.begin p).calls, (p, .release size, true) :: s.history⟩ := by
        refine h.effect (hbegin p) (hself hidle) ?_ hlimit (Int.add_zero _).symm ?_ (.inl rfl)
        · simp [ResourceBudget.atomic, ResourceBudget.release, hpos]
        · simpa using h.nonneg p
      rw [hcall] at hnext
      exact hnext
  | next p =>
    simp only [BudgetRun.step] at hs
    split at hs
    · rename_i size ok hc
      cases hs
      have hcount := h.counted p
      rw [hc] at hcount
      exact h.move (fun _ _ => rfl) hcount (by simp) (by simp) (by simp)
    · cases hs

theorem linear_of_reachable (h0 : 0 ≤ limit) (hmax : limit ≤ maxInt64)
    (h : (system π limit).Reachable s) : s.Linear limit := by
  refine System.Reach.invariant ?_ (fun s a t ih _ hs => ih.step hmax hs) h
  rintro _ rfl
  exact ⟨.nil, h0, .zero, fun _ => le_rfl, fun _ => rfl, by simp [start], by simp [start],
    by simp [start]⟩

/-- The compare-and-swap loop is atomic.  In every interleaving the calls that have taken effect,
in that order, have the results and leave the word that the budget of one caller after another
has; each call takes effect once, after it began and before it returns, and returns the result of
that moment.  The word is what the callers hold and stays within the limit, so that nothing
overflows, and a swap fails only if another call has taken effect since the load. -/
theorem budget_atomic (h0 : 0 ≤ limit) (hmax : limit ≤ maxInt64)
    (h : (system π limit).Reachable s) :
    ResourceBudget.atomic.Explains (.newResourceBudget limit) s.history ⟨limit, s.used⟩ ∧
    (0 ≤ s.used ∧ s.used ≤ limit ∧ Sums s.held s.used) ∧
    (∀ p, s.calls p = s.history.countP (fun e => decide (e.1 = p)) + (s.call p).pending.toNat) ∧
    (∀ p size ok, s.call p = .returned size ok → s.last p = some (.reserve size, ok)) ∧
    ∀ p size used since, s.call p = .swap size used since → s.used ≠ used →
      since < s.history.length := by
  have hl := linear_of_reachable h0 hmax h
  refine ⟨hl.explained, ⟨hl.used_nonneg, hl.le_limit, hl.sums⟩, hl.counted, hl.answered, ?_⟩
  intro p size used since hc hne
  obtain ⟨-, -, hle, hsame⟩ := hl.swapping p size used since hc
  exact lt_of_le_of_ne hle fun he => hne (hsame he)

def contended : List (BudgetAction (Fin 2)) :=
  [.reserve 0 1, .reserve 1 1, .load 0, .load 1, .swap 0, .swap 1, .load 1]

/-- There is room for one of them. -/
theorem budget_atomic_contended :
    ∃ s : BudgetRun (Fin 2), s.call 0 = .returned 1 true ∧ s.call 1 = .returned 1 false ∧
      ResourceBudget.atomic.Explains (.newResourceBudget 1)
        [(1, .reserve 1, false), ((0 : Fin 2), .reserve 1, true)] ⟨1, s.used⟩ := by
  have hrun : ((system (Fin 2) 1).run start contended).map (fun s =>
      decide (s.call 0 = .returned 1 true ∧ s.call 1 = .returned 1 false ∧
        s.history = [(1, .reserve 1, false), (0, .reserve 1, true)])) = some true := by
    decide +kernel
  obtain ⟨s, hs, hobs⟩ := Option.map_eq_some_iff.mp hrun
  obtain ⟨h0, h1, hh⟩ := of_decide_eq_true hobs
  have hr : (system (Fin 2) 1).Reachable s := System.Reachable.run (.init rfl) hs
  exact ⟨s, h0, h1, hh ▸ (budget_atomic (by decide) (by decide) hr).1⟩

end BudgetRun

end NirnProxy
