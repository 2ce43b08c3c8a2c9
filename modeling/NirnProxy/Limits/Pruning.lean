import Mathlib.Algebra.Order.Group.Multiset
import NirnProxy.Limits.InvalidRequests

/-! The guard against the plain record of what happened: all invalid completions as a multiset,
and the number of reservations.  Called with readings of the clock that do not go back, the slice
with its head index answers as that record does, wherever `prune` has cut it. -/

namespace NirnProxy

inductive GuardCall
  | available (now : Int)
  | reserve (now : Int)
  | complete (now : Int) (invalid : Bool)
  deriving DecidableEq

def GuardCall.now : GuardCall → Int
  | .available now | .reserve now | .complete now _ => now

def GuardCall.completes : GuardCall → Bool
  | .complete _ _ => true
  | .available _ | .reserve _ => false

/-- What the calls have done, with nothing forgotten. -/
structure InvalidRecord where
  recorded : Multiset Int
  outstanding : Nat
  deriving DecidableEq

namespace InvalidRecord

def empty : InvalidRecord where
  recorded := 0
  outstanding := 0

def load (window now : Int) (e : InvalidRecord) : Int :=
  e.recorded.countP (now - window < ·) + e.outstanding

def call (limit window : Int) (e : InvalidRecord) : GuardCall → InvalidRecord
  | .available _ => e
  | .reserve now =>
    if e.load window now < limit then { e with outstanding := e.outstanding + 1 } else e
  | .complete now invalid =>
    { recorded := if invalid then now ::ₘ e.recorded else e.recorded
      outstanding := e.outstanding - 1 }

/-- The readings of the clock do not go back, and only a reservation is completed. -/
def Proper (limit window : Int) : InvalidRecord → List GuardCall → Prop
  | _, [] => True
  | e, c :: calls =>
    (∀ d ∈ calls, c.now ≤ d.now) ∧ (c.completes → 0 < e.outstanding) ∧
      Proper limit window (e.call limit window c) calls

instance decidableProper (limit window : Int) :
    ∀ e calls, Decidable (Proper limit window e calls)
  | _, [] => .isTrue trivial
  | e, c :: calls =>
    have := decidableProper limit window (e.call limit window c) calls
    inferInstanceAs (Decidable (_ ∧ _ ∧ _))

end InvalidRecord

namespace InvalidRequestGuard

def call (g : InvalidRequestGuard) : GuardCall → InvalidRequestGuard
  | .available now => (g.available now).1
  | .reserve now => (g.reserve now).1
  | .complete now invalid => g.complete now invalid

/-- `g` stands for the record `e`, after calls with readings up to `latest`: the entries that it has
dropped are out of every window to come, and those it has kept are in the order of time. -/
structure Represents (limit window latest : Int) (g : InvalidRequestGuard) (e : InvalidRecord) :
    Prop where
  wf : g.Wf
  limit_eq : g.limit = limit
  window_eq : g.window = window
  reserved_eq : g.reserved = e.outstanding
  sorted : g.live.Pairwise (· ≤ ·)
  le_latest : ∀ t ∈ g.live, t ≤ latest
  dropped : ∃ old : List Int, e.recorded = old + g.live ∧ ∀ t ∈ old, t ≤ latest - window

variable {limit window latest now : Int} {g : InvalidRequestGuard} {e : InvalidRecord}

theorem represents_empty (limit window latest : Int) :
    (newInvalidRequestGuard limit window).Represents limit window latest .empty where
  wf := Nat.le_refl _
  limit_eq := rfl
  window_eq := rfl
  reserved_eq := rfl
  sorted := List.Pairwise.nil
  le_latest := by simp [live, newInvalidRequestGuard]
  dropped := ⟨[], rfl, by simp⟩

theorem Represents.wait (h : g.Represents limit window latest e) (hnow : latest ≤ now) :
    g.Represents limit window now e where
  wf := h.wf
  limit_eq := h.limit_eq
  window_eq := h.window_eq
  reserved_eq := h.reserved_eq
  sorted := h.sorted
  le_latest t ht := (h.le_latest t ht).trans hnow
  dropped := by
    obtain ⟨old, hrec, hold⟩ := h.dropped
    refine ⟨old, hrec, fun t ht => ?_⟩
    have := hold t ht
    omega

theorem Represents.prune (h : g.Represents limit window now e) :
    (g.prune now).Represents limit window now e where
  wf := h.wf.prune
  limit_eq := prune_limit.trans h.limit_eq
  window_eq := prune_window.trans h.window_eq
  reserved_eq := prune_reserved.trans h.reserved_eq
  sorted := by
    rw [prune_live]
    exact h.sorted.sublist (List.dropWhile_sublist _)
  le_latest t ht := by
    rw [prune_live] at ht
    exact h.le_latest t ((List.dropWhile_sublist _).mem ht)
  dropped := by
    obtain ⟨old, hrec, hold⟩ := h.dropped
    refine ⟨old ++ g.live.takeWhile (· ≤ now - g.window), ?_, fun t ht => ?_⟩
    · rw [hrec, prune_live, ← Multiset.coe_add, add_assoc, Multiset.coe_add (List.takeWhile _ _),
        List.takeWhile_append_dropWhile]
    · obtain ht | ht := List.mem_append.mp ht
      · exact hold t ht
      · have hle := List.mem_takeWhile_imp ht
        rw [h.window_eq, decide_eq_true_eq] at hle
        exact hle

theorem lt_of_mem_dropWhile {ts : List Int} {oldest t : Int} (hsorted : ts.Pairwise (· ≤ ·))
    (ht : t ∈ ts.dropWhile (· ≤ oldest)) : oldest < t := by
  induction ts with
  | nil => cases ht
  | cons s ts ih =>
    obtain ⟨hs, hts⟩ := List.pairwise_cons.mp hsorted
    by_cases hle : s ≤ oldest
    · rw [List.dropWhile_cons_of_pos (by simpa using hle)] at ht
      exact ih hts ht
    · rw [List.dropWhile_cons_of_neg (by simpa using hle)] at ht
      obtain rfl | ht := List.mem_cons.mp ht
      · exact not_le.mp hle
      · exact lt_of_lt_of_le (not_le.mp hle) (hs t ht)

theorem Represents.load_eq (h : g.Represents limit window now e) :
    (g.prune now).load = e.load window now := by
  have hp := h.prune
  obtain ⟨old, hrec, hold⟩ := hp.dropped
  have hout : (old : Multiset Int).countP (now - window < ·) = 0 := by
    refine Multiset.countP_eq_zero.mpr fun t ht => ?_
    have := hold t ht
    omega
  have hin : ((g.prune now).live : Multiset Int).countP (now - window < ·) =
      (g.prune now).live.length := by
    refine (Multiset.countP_eq_card.mpr fun t ht => ?_).trans (Multiset.coe_card _)
    have hmem : t ∈ g.live.dropWhile (· ≤ now - window) := by
      rw [← h.window_eq, ← prune_live]
      exact ht
    exact lt_of_mem_dropWhile h.sorted hmem
  rw [hp.wf.load_eq, InvalidRecord.load, hp.reserved_eq, hrec, Multiset.countP_add, hout, hin,
    zero_add]

theorem Represents.full_iff (h : g.Represents limit window now e) :
    (g.prune now).limit ≤ (g.prune now).load ↔ ¬e.load window now < limit := by
  rw [h.load_eq, h.prune.limit_eq, not_lt]

theorem Represents.record (h : g.Represents limit window now e) :
    { g with timestamps := g.timestamps ++ [now] }.Represents limit window now
      { e with recorded := now ::ₘ e.recorded } := by
  have hwf := h.wf
  have hlive : InvalidRequestGuard.live { g with timestamps := g.timestamps ++ [now] } =
      g.live ++ [now] := List.drop_append_of_le_length hwf
  refine ⟨?_, h.limit_eq, h.window_eq, h.reserved_eq, ?_, ?_, ?_⟩
  · simp only [Wf, List.length_append] at hwf ⊢
    omega
  · rw [hlive]
    refine List.pairwise_append.mpr ⟨h.sorted, List.pairwise_singleton .., fun t ht s hs => ?_⟩
    obtain rfl := List.mem_singleton.mp hs
    exact h.le_latest t ht
  · intro t ht
    rw [hlive] at ht
    obtain ht | ht := List.mem_append.mp ht
    · exact h.le_latest t ht
    · exact (List.mem_singleton.mp ht).le
  · obtain ⟨old, hrec, hold⟩ := h.dropped
    refine ⟨old, ?_, hold⟩
    rw [hlive, ← Multiset.coe_add, ← add_assoc, ← hrec, add_comm]
    exact (Multiset.singleton_add _ _).symm

theorem Represents.call {c : GuardCall} (h : g.Represents limit window c.now e)
    (hc : c.completes → 0 < e.outstanding) :
    (g.call c).Represents limit window c.now (e.call limit window c) := by
  cases c with
  | available now => exact h.prune
  | reserve now =>
    replace h : g.Represents limit window now e := h
    have hp := h.prune
    have hfull := h.full_iff
    simp only [InvalidRequestGuard.call, InvalidRequestGuard.reserve, InvalidRecord.call]
    by_cases hfree : e.load window now < limit
    · rw [if_neg fun hle => hfull.mp hle hfree, if_pos hfree]
      refine { hp with reserved_eq := ?_ }
      have := hp.reserved_eq
      push_cast
      omega
    · rw [if_pos (hfull.mpr hfree), if_neg hfree]
      exact hp
  | complete now invalid =>
    have hpos := hc rfl
    have hdone : { g with reserved := g.reserved - 1 }.Represents limit window now
        { e with outstanding := e.outstanding - 1 } := by
      refine { h with reserved_eq := ?_ }
      have := h.reserved_eq
      simp only
      omega
    cases invalid with
    | false => exact hdone.prune
    | true => exact hdone.record.prune

theorem Represents.calls {calls : List GuardCall} (h : g.Represents limit window latest e)
    (hlatest : ∀ c ∈ calls, latest ≤ c.now) (hproper : e.Proper limit window calls)
    (hnow : ∀ c ∈ calls, c.now ≤ now) (hle : latest ≤ now) :
    (calls.foldl InvalidRequestGuard.call g).Represents limit window now
      (calls.foldl (InvalidRecord.call limit window) e) := by
  induction calls generalizing g e latest with
  | nil => exact h.wait hle
  | cons c calls ih =>
    obtain ⟨hlater, hcomplete, hrest⟩ := hproper
    have hcall := (h.wait (hlatest c List.mem_cons_self)).call hcomplete
    exact ih hcall hlater hrest (fun d hd => hnow d (List.mem_cons_of_mem _ hd))
      (hnow c List.mem_cons_self)

theorem represents_calls {calls : List GuardCall}
    (hproper : InvalidRecord.empty.Proper limit window calls) (hnow : ∀ c ∈ calls, c.now ≤ now) :
    (calls.foldl InvalidRequestGuard.call (newInvalidRequestGuard limit window)).Represents limit
      window now (calls.foldl (InvalidRecord.call limit window) .empty) := by
  cases calls with
  | nil => exact represents_empty limit window now
  | cons c calls =>
    refine (represents_empty limit window c.now).calls (fun d hd => ?_) hproper hnow
      (hnow c List.mem_cons_self)
    obtain rfl | hd := List.mem_cons.mp hd
    · exact le_rfl
    · exact hproper.1 d hd

/-- After every proper sequence of calls, `available` and `reserve` answer by the record of all that
happened, and the head index lies in the slice. -/
theorem pruning_invisible (limit window now : Int) (calls : List GuardCall)
    (hproper : InvalidRecord.empty.Proper limit window calls) (hnow : ∀ c ∈ calls, c.now ≤ now) :
    let g := calls.foldl InvalidRequestGuard.call (newInvalidRequestGuard limit window)
    let e := calls.foldl (InvalidRecord.call limit window) .empty
    g.head ≤ g.timestamps.length ∧
      ((g.available now).2 = true ↔ e.load window now < limit) ∧
      ((g.reserve now).2 = true ↔ e.load window now < limit) := by
  intro g e
  have h : g.Represents limit window now e := represents_calls hproper hnow
  have hfull := h.full_iff
  refine ⟨h.wf, ?_, ?_⟩
  · rw [InvalidRequestGuard.available, decide_eq_true_eq, h.load_eq, h.prune.limit_eq]
  · simp only [InvalidRequestGuard.reserve]
    split
    · exact iff_of_false Bool.false_ne_true (hfull.mp ‹_›)
    · exact iff_of_true rfl (not_not.mp fun hno => ‹¬_› (hfull.mpr hno))

/-- With a budget of two, one event has expired and one reservation is out. -/
theorem pruning_invisible_expired :
    let calls : List GuardCall :=
      [.reserve 0, .complete 0 true, .reserve 5, .complete 5 true, .available 10, .reserve 11]
    let g := calls.foldl InvalidRequestGuard.call (newInvalidRequestGuard 2 10)
    (g.reserve 12).2 = false ∧ (g.reserve 15).2 = true := by
  intro calls g
  have hproper : InvalidRecord.empty.Proper 2 10 calls := by decide
  have hat (now : Int) (hnow : 11 ≤ now) := (pruning_invisible 2 10 now calls hproper (by
    simp only [calls, List.mem_cons, List.not_mem_nil, or_false, forall_eq_or_imp, forall_eq,
      GuardCall.now]
    omega)).2.2
  have hrec : calls.foldl (InvalidRecord.call 2 10) .empty = ⟨{5, 0}, 1⟩ := by decide
  refine ⟨?_, ?_⟩
  · have h := hat 12 (by decide)
    rw [hrec] at h
    exact Bool.eq_false_iff.mpr fun hr => absurd (h.mp hr) (by decide)
  · have h := hat 15 (by decide)
    rw [hrec] at h
    exact h.mpr (by decide)

end InvalidRequestGuard

end NirnProxy
