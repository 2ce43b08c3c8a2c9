import Mathlib.Data.List.TakeWhile
import NirnProxy.Clock
import NirnProxy.Counting
import NirnProxy.Transition

/-! `invalidRequestGuard` and its runs.  Attempts read the clock outside `g.mu`, so the
critical sections may see readings out of order and the timestamps need not be sorted. -/

universe u

namespace NirnProxy

def invalidRequestWindow : Int := 10 * Duration.minute

structure InvalidRequestGuard where
  limit : Int
  window : Int
  timestamps : List Int
  head : Nat
  reserved : Int
  deriving DecidableEq

namespace InvalidRequestGuard

def newInvalidRequestGuard (limit window : Int) : InvalidRequestGuard where
  limit := limit
  window := window
  timestamps := []
  head := 0
  reserved := 0

/-- The loop of `prune`, over the timestamps from `head` on. -/
def skipExpired (oldest : Int) : List Int → Nat → Nat
  | [], head => head
  | t :: ts, head => if oldest < t then head else skipExpired oldest ts (head + 1)

def compact (g : InvalidRequestGuard) : InvalidRequestGuard :=
  if 4096 < g.head ∧ g.timestamps.length < g.head * 2 then
    { g with timestamps := g.timestamps.drop g.head, head := 0 }
  else g

def prune (g : InvalidRequestGuard) (now : Int) : InvalidRequestGuard :=
  compact { g with head := skipExpired (now - g.window) (g.timestamps.drop g.head) g.head }

def load (g : InvalidRequestGuard) : Int := g.timestamps.length - g.head + g.reserved

def available (g : InvalidRequestGuard) (now : Int) : InvalidRequestGuard × Bool :=
  let g := g.prune now
  (g, decide (g.load < g.limit))

def reserve (g : InvalidRequestGuard) (now : Int) : InvalidRequestGuard × Bool :=
  let g := g.prune now
  if g.limit ≤ g.load then (g, false) else ({ g with reserved := g.reserved + 1 }, true)

def complete (g : InvalidRequestGuard) (now : Int) (invalid : Bool) : InvalidRequestGuard :=
  let g := { g with reserved := g.reserved - 1 }
  let g := if invalid then { g with timestamps := g.timestamps ++ [now] } else g
  g.prune now

def live (g : InvalidRequestGuard) : List Int := g.timestamps.drop g.head

variable {g : InvalidRequestGuard} {now oldest : Int}

theorem skipExpired_eq (ts : List Int) (head : Nat) :
    skipExpired oldest ts head = head + (ts.takeWhile (· ≤ oldest)).length := by
  induction ts generalizing head with
  | nil => rfl
  | cons t ts ih =>
    simp only [skipExpired]
    split
    · simp [not_le.mpr ‹_›]
    · rw [ih, List.takeWhile_cons_of_pos (by simpa using not_lt.mp ‹_›)]
      simp only [List.length_cons]
      omega

theorem drop_length_takeWhile {α : Type u} (f : α → Bool) (l : List α) :
    l.drop (l.takeWhile f).length = l.dropWhile f := by
  induction l with
  | nil => rfl
  | cons a l ih => by_cases h : f a = true <;> simp [h, ih]

@[simp] theorem compact_live : g.compact.live = g.live := by
  unfold compact
  split <;> simp [live]

@[simp] theorem compact_reserved : g.compact.reserved = g.reserved := by
  unfold compact
  split <;> rfl

@[simp] theorem compact_limit : g.compact.limit = g.limit := by
  unfold compact
  split <;> rfl

@[simp] theorem compact_window : g.compact.window = g.window := by
  unfold compact
  split <;> rfl

theorem prune_live : (g.prune now).live = g.live.dropWhile (· ≤ now - g.window) := by
  rw [prune, compact_live]
  simp only [live, skipExpired_eq]
  rw [← List.drop_drop]
  exact drop_length_takeWhile _ _

@[simp] theorem prune_reserved : (g.prune now).reserved = g.reserved := by simp [prune]

@[simp] theorem prune_limit : (g.prune now).limit = g.limit := by simp [prune]

@[simp] theorem prune_window : (g.prune now).window = g.window := by simp [prune]

/-- `head` stays inside the slice, so that `len(g.timestamps) - g.head` is a length. -/
def Wf (g : InvalidRequestGuard) : Prop := g.head ≤ g.timestamps.length

theorem Wf.load_eq (h : g.Wf) : g.load = g.live.length + g.reserved := by
  unfold Wf at h
  simp only [load, live, List.length_drop]
  omega

theorem Wf.compact (h : g.Wf) : g.compact.Wf := by
  unfold InvalidRequestGuard.compact
  split
  · exact Nat.zero_le _
  · exact h

theorem Wf.prune (h : g.Wf) : (g.prune now).Wf := by
  unfold Wf at h
  apply Wf.compact
  simp only [Wf, skipExpired_eq]
  have := (List.takeWhile_sublist (l := g.timestamps.drop g.head)
    (fun t => decide (t ≤ now - g.window))).length_le
  rw [List.length_drop] at this
  omega

end InvalidRequestGuard

/-- Where an attempt stands: the readings of the clock it carries into its next critical
section, and whether it holds a reservation. -/
inductive AttemptPhase
  | out
  | polling (now : Int)
  | reserving (now : Int)
  | admitted
  | completing (now : Int)
  deriving DecidableEq

def AttemptPhase.Outstanding : AttemptPhase → Prop
  | .admitted | .completing _ => True
  | .out | .polling _ | .reserving _ => False

structure GuardRun (π : Type u) where
  guard : InvalidRequestGuard
  clock : Int
  phase : π → AttemptPhase
  recorded : List Int

inductive GuardAction (π : Type u)
  | tick (d : Nat)
  | readAvailable (p : π)
  | available (p : π)
  | readReserve (p : π)
  | reserve (p : π)
  | readComplete (p : π)
  | complete (p : π) (invalid : Bool)

namespace GuardRun

variable {π : Type u} [DecidableEq π]

def start (limit : Nat) (window : Int) (clock : Int) : GuardRun π where
  guard := .newInvalidRequestGuard limit window
  clock := clock
  phase := fun _ => .out
  recorded := []

def goto (s : GuardRun π) (p : π) (x : AttemptPhase) : GuardRun π :=
  { s with phase := Function.update s.phase p x }

def step (s : GuardRun π) : GuardAction π → Option (GuardRun π)
  | .tick d => some { s with clock := s.clock + d }
  | .readAvailable p => if s.phase p = .out then some (s.goto p (.polling s.clock)) else none
  | .available p =>
    match s.phase p with
    | .polling now => some ({ s with guard := (s.guard.available now).1 }.goto p .out)
    | _ => none
  | .readReserve p => if s.phase p = .out then some (s.goto p (.reserving s.clock)) else none
  | .reserve p =>
    match s.phase p with
    | .reserving now =>
      let (guard, ok) := s.guard.reserve now
      some ({ s with guard := guard }.goto p (if ok then .admitted else .out))
    | _ => none
  | .readComplete p =>
    if s.phase p = .admitted then some (s.goto p (.completing s.clock)) else none
  | .complete p invalid =>
    match s.phase p with
    | .completing now =>
      some ({ s with guard := s.guard.complete now invalid
                     recorded := if invalid then s.recorded ++ [now] else s.recorded }.goto p .out)
    | _ => none

def system (π : Type u) [DecidableEq π] (limit : Nat) (window : Int) :
    System (GuardRun π) (GuardAction π) where
  init s := ∃ clock, s = start limit window clock
  step := step

/-- The instants in the window `(T - w, T]`. -/
def windowed (w T : Int) (ts : List Int) : List Int :=
  ts.filter fun t => decide (T - w < t) && decide (t ≤ T)

def inWindow (s : GuardRun π) (T : Int) : List Int := windowed s.guard.window T s.recorded

def MayLand (window : Int) (clock T : Int) : AttemptPhase → Prop
  | .admitted => clock ≤ T
  | .completing t => T - window < t ∧ t ≤ T
  | .out | .polling _ | .reserving _ => False

/-- The timestamps dropped by `prune` are out of every window that ends now or later. -/
structure Inv (L : Nat) (w : Int) (s : GuardRun π) : Prop where
  wf : s.guard.Wf
  limit : s.guard.limit = L
  window : s.guard.window = w
  reading : ∀ p now, s.phase p = .polling now ∨ s.phase p = .reserving now ∨
    s.phase p = .completing now → now ≤ s.clock
  reserved : Counts (fun p => (s.phase p).Outstanding) s.guard.reserved
  dropped : ∃ old, s.recorded = old ++ s.guard.live ∧ ∀ t ∈ old, t ≤ s.clock - w
  budget : ∀ T m, Counts (fun p => MayLand w s.clock T (s.phase p)) m →
    ((s.inWindow T).length : Int) + m ≤ L

variable {s t : GuardRun π} {p q : π} {x : AttemptPhase} {L : Nat} {w now : Int}

@[simp] theorem goto_guard : (s.goto p x).guard = s.guard := rfl

@[simp] theorem goto_clock : (s.goto p x).clock = s.clock := rfl

@[simp] theorem goto_recorded : (s.goto p x).recorded = s.recorded := rfl

@[simp] theorem goto_phase_self : (s.goto p x).phase p = x := Function.update_self ..

@[simp] theorem goto_phase_ne (h : q ≠ p) : (s.goto p x).phase q = s.phase q :=
  Function.update_of_ne h ..

theorem windowed_length_concat (T : Int) (ts : List Int) :
    (windowed w T (ts ++ [now])).length =
      (windowed w T ts).length + if T - w < now ∧ now ≤ T then 1 else 0 := by
  simp only [windowed, List.filter_append, List.length_append]
  by_cases h : T - w < now ∧ now ≤ T
  · simp [h]
  · simp only [h, if_false, List.filter_cons, Bool.and_eq_true, decide_eq_true_eq, List.filter_nil,
      List.length_nil]

theorem MayLand.outstanding {clock T : Int} (h : MayLand w clock T x) : x.Outstanding := by
  cases x <;> trivial

omit [DecidableEq π] in
theorem start_inv (clock : Int) : (start L w clock : GuardRun π).Inv L w := by
  refine ⟨Nat.zero_le _, rfl, rfl, by simp [start], .zero fun p hp => hp, ?_, ?_⟩
  · exact ⟨[], by simp [start, InvalidRequestGuard.live,
      InvalidRequestGuard.newInvalidRequestGuard]⟩
  · intro T m hm
    have h0 : Counts (fun _ : π => False) 0 := .zero fun _ hp => hp
    have := hm.mono h0 fun _ hp => hp
    simp only [inWindow, start, windowed, List.filter_nil, List.length_nil]
    omega

omit [DecidableEq π] in
theorem Inv.budget_of_imp (h : s.Inv L w) {P : π → Prop} {T m : Int}
    (himp : ∀ q, P q → MayLand w s.clock T (s.phase q)) (hm : Counts P m) :
    ((s.inWindow T).length : Int) + m ≤ L := by
  obtain ⟨k, hk⟩ := h.reserved.restrict (P := fun q => MayLand w s.clock T (s.phase q))
    fun q hq => hq.outstanding
  have := hm.mono hk himp
  have := h.budget T k hk
  omega

theorem Inv.reading_goto (h : s.Inv L w)
    (hr : ∀ now, x = .polling now ∨ x = .reserving now ∨ x = .completing now → now ≤ s.clock)
    (q : π) (now : Int) (hq : (s.goto p x).phase q = .polling now ∨
      (s.goto p x).phase q = .reserving now ∨ (s.goto p x).phase q = .completing now) :
    now ≤ s.clock := by
  by_cases hqp : q = p
  · subst hqp
    exact hr now (by simpa using hq)
  · exact h.reading q now (by simpa [hqp] using hq)

theorem Inv.goto (h : s.Inv L w)
    (hr : ∀ now, x = .polling now ∨ x = .reserving now ∨ x = .completing now → now ≤ s.clock)
    (ho : x.Outstanding ↔ (s.phase p).Outstanding)
    (hl : ∀ T, MayLand w s.clock T x → MayLand w s.clock T (s.phase p)) :
    (s.goto p x).Inv L w := by
  refine ⟨h.wf, h.limit, h.window, h.reading_goto hr, ?_, h.dropped, ?_⟩
  · exact h.reserved.update_same (R := fun _ x => AttemptPhase.Outstanding x) ho
  · intro T m hm
    refine h.budget_of_imp (fun q hq => ?_) hm
    by_cases hqp : q = p
    · subst hqp
      exact hl T (by simpa using hq)
    · simpa [hqp] using hq

omit [DecidableEq π] in
theorem Inv.prune (h : s.Inv L w) (hn : now ≤ s.clock) :
    { s with guard := s.guard.prune now }.Inv L w := by
  obtain ⟨old, hrec, hold⟩ := h.dropped
  have hw := h.window
  refine ⟨h.wf.prune, by simpa using h.limit, by simpa using h.window, h.reading,
    by simpa using h.reserved, ?_, ?_⟩
  · refine ⟨old ++ s.guard.live.takeWhile (· ≤ now - s.guard.window), ?_, ?_⟩
    · rw [InvalidRequestGuard.prune_live, List.append_assoc, List.takeWhile_append_dropWhile]
      exact hrec
    · intro t ht
      obtain ht | ht := List.mem_append.mp ht
      · exact hold t ht
      · have := List.mem_takeWhile_imp ht
        simp only [decide_eq_true_eq] at this
        simp only
        omega
  · intro T m hm
    have := h.budget T m hm
    simpa [inWindow] using this

omit [DecidableEq π] in
theorem Inv.tick (h : s.Inv L w) (d : Nat) : { s with clock := s.clock + d }.Inv L w := by
  refine ⟨h.wf, h.limit, h.window, ?_, h.reserved, ?_, ?_⟩
  · intro p now hp
    have := h.reading p now hp
    simp only
    omega
  · obtain ⟨old, hrec, hold⟩ := h.dropped
    refine ⟨old, hrec, fun t ht => ?_⟩
    have := hold t ht
    simp only
    omega
  · intro T m hm
    refine h.budget_of_imp (fun q hq => ?_) hm
    cases hph : s.phase q with
    | admitted =>
      simp only [hph, MayLand] at hq ⊢
      omega
    | completing t => simpa only [hph, MayLand] using hq
    | out | polling | reserving => simp [hph, MayLand] at hq

omit [DecidableEq π] in
theorem Inv.inWindow_le_live (h : s.Inv L w) {T : Int} (hT : s.clock ≤ T) :
    (s.inWindow T).length ≤ s.guard.live.length := by
  obtain ⟨old, hrec, hold⟩ := h.dropped
  have hw := h.window
  have hnil : windowed s.guard.window T old = [] := by
    rw [windowed, List.filter_eq_nil_iff]
    intro t ht
    have := hold t ht
    simp only [Bool.and_eq_true, decide_eq_true_eq]
    omega
  rw [inWindow, hrec, windowed, List.filter_append, ← windowed, hnil, List.nil_append]
  exact List.length_filter_le _ _

/-- Admission: the check counted every event and every reservation that can share a window
with the new attempt. -/
theorem Inv.admission (h : s.Inv L w) (hp : ¬(s.phase p).Outstanding) (hfree : s.guard.load < L) :
    ({ s with guard := { s.guard with reserved := s.guard.reserved + 1 } }.goto p
      .admitted).Inv L w := by
  have hload := h.wf.load_eq
  refine ⟨h.wf, h.limit, h.window, h.reading_goto (by simp), ?_, h.dropped, ?_⟩
  · exact h.reserved.update_add (R := fun _ x => AttemptPhase.Outstanding x) hp trivial
  · intro T m hm
    change ((s.inWindow T).length : Int) + m ≤ L
    by_cases hT : s.clock ≤ T
    · have hall := h.reserved.update_add (x := AttemptPhase.admitted)
        (R := fun _ x => AttemptPhase.Outstanding x) hp trivial
      have h1 := hm.mono hall fun q hq => hq.outstanding
      have h2 := h.inWindow_le_live hT
      omega
    · refine h.budget_of_imp (fun q hq => ?_) hm
      by_cases hqp : q = p
      · subst hqp
        rw [goto_phase_self] at hq
        exact absurd hq hT
      · rwa [goto_phase_ne hqp] at hq

theorem Inv.settle (h : s.Inv L w) (hp : s.phase p = .completing now) (invalid : Bool) :
    ({ s with guard := { s.guard with
                reserved := s.guard.reserved - 1
                timestamps := if invalid then s.guard.timestamps ++ [now] else s.guard.timestamps }
              recorded := if invalid then s.recorded ++ [now] else s.recorded }.goto p .out).Inv
      L w := by
  have hout : (s.phase p).Outstanding := by simp [hp, AttemptPhase.Outstanding]
  have hres : Counts (fun q => (Function.update s.phase p .out q).Outstanding)
      (s.guard.reserved - 1) :=
    h.reserved.update_sub (R := fun _ x => AttemptPhase.Outstanding x) hout id
  have hother : ∀ q T, MayLand w s.clock T (Function.update s.phase p .out q) →
      q ≠ p ∧ MayLand w s.clock T (s.phase q) := by
    intro q T hq
    by_cases hqp : q = p
    · subst hqp
      simp [MayLand] at hq
    · exact ⟨hqp, by rwa [Function.update_of_ne hqp] at hq⟩
  have hwf := h.wf
  obtain ⟨old, hrec, hold⟩ := h.dropped
  cases invalid with
  | false =>
    exact ⟨hwf, h.limit, h.window, h.reading_goto (by simp), hres, ⟨old, hrec, hold⟩,
      fun T m hm => h.budget_of_imp (fun q hq => (hother q T hq).2) hm⟩
  | true =>
    simp only [if_true]
    refine ⟨?_, h.limit, h.window, h.reading_goto (by simp), hres, ⟨old, ?_, hold⟩, ?_⟩
    · simp only [InvalidRequestGuard.Wf, goto_guard, List.length_append] at hwf ⊢
      omega
    · simp only [goto_recorded, goto_guard, InvalidRequestGuard.live]
      rw [List.drop_append_of_le_length hwf, hrec, List.append_assoc]
      rfl
    · intro T m hm
      change ((windowed s.guard.window T (s.recorded ++ [now])).length : Int) + m ≤ L
      rw [windowed_length_concat, h.window]
      have hin : s.inWindow T = windowed w T s.recorded := by rw [inWindow, h.window]
      split
      · rename_i hT
        have hmore : Counts (fun q => q = p ∨ MayLand w s.clock T
            (Function.update s.phase p .out q)) (m + 1) := by
          refine hm.add (p := p) ?_ fun q => Iff.rfl
          simp [MayLand]
        have hb : ((s.inWindow T).length : Int) + (m + 1) ≤ L := by
          refine h.budget_of_imp (fun q hq => ?_) hmore
          obtain rfl | hq := hq
          · simpa [hp, MayLand] using hT
          · exact (hother q T hq).2
        rw [hin] at hb
        push_cast
        omega
      · have hb := h.budget_of_imp (fun q hq => (hother q T hq).2) hm
        rw [hin] at hb
        omega

theorem Inv.step {a : GuardAction π} (h : s.Inv L w) (hs : s.step a = some t) : t.Inv L w := by
  cases a with
  | tick d =>
    cases hs
    exact h.tick d
  | readAvailable p =>
    simp only [GuardRun.step, Option.ite_none_right_eq_some, Option.some.injEq] at hs
    obtain ⟨hp, rfl⟩ := hs
    exact h.goto (by simp) (by simp [hp, AttemptPhase.Outstanding]) (by simp [MayLand])
  | available p =>
    simp only [GuardRun.step] at hs
    split at hs
    · rename_i now hp
      cases hs
      exact (h.prune (h.reading p now (.inl hp))).goto (by simp)
        (by simp [hp, AttemptPhase.Outstanding]) (by simp [MayLand])
    · cases hs
  | readReserve p =>
    simp only [GuardRun.step, Option.ite_none_right_eq_some, Option.some.injEq] at hs
    obtain ⟨hp, rfl⟩ := hs
    exact h.goto (by simp) (by simp [hp, AttemptPhase.Outstanding]) (by simp [MayLand])
  | reserve p =>
    simp only [GuardRun.step] at hs
    split at hs
    · rename_i now hp
      cases hs
      have hpr := h.prune (h.reading p now (.inr (.inl hp)))
      have hno : ¬(s.phase p).Outstanding := by simp [hp, AttemptPhase.Outstanding]
      unfold InvalidRequestGuard.reserve
      simp only
      split
      · exact hpr.goto (by simp) (by simp [hp, AttemptPhase.Outstanding]) (by simp [MayLand])
      · rename_i hlt
        rw [InvalidRequestGuard.prune_limit, h.limit] at hlt
        exact hpr.admission hno (not_le.mp hlt)
    · cases hs
  | readComplete p =>
    simp only [GuardRun.step, Option.ite_none_right_eq_some, Option.some.injEq] at hs
    obtain ⟨hp, rfl⟩ := hs
    refine h.goto (by simp) (by simp [hp, AttemptPhase.Outstanding]) fun T hT => ?_
    simpa [hp, MayLand] using hT.2
  | complete p invalid =>
    simp only [GuardRun.step] at hs
    split at hs
    · rename_i now hp
      cases hs
      have := (h.settle hp invalid).prune (h.reading p now (.inr (.inr hp)))
      cases invalid <;> exact this
    · cases hs

theorem inv_of_reachable (h : (system π L w).Reachable s) : s.Inv L w := by
  refine System.Reach.invariant ?_ ?_ h
  · rintro s ⟨clock, rfl⟩
    exact start_inv clock
  · intro s a t hi _ hs
    exact hi.step hs

/-- In every state of every run, at most `limit` invalid completions lie in any one window,
and `reserved` counts the admitted attempts that have not completed. -/
theorem invalid_request_budget (limit : Nat) (window : Int) (s : GuardRun π)
    (h : (system π limit window).Reachable s) :
    (∀ T, (windowed window T s.recorded).length ≤ limit) ∧
    Counts (fun p => (s.phase p).Outstanding) s.guard.reserved := by
  have hi := inv_of_reachable h
  refine ⟨fun T => ?_, hi.reserved⟩
  obtain ⟨m, hm⟩ := hi.reserved.restrict (P := fun q => MayLand window s.clock T (s.phase q))
    fun q hq => hq.outstanding
  have hb := hi.budget T m hm
  have := hm.nonneg
  rw [inWindow, hi.window] at hb
  omega

/-- With a budget of one, an attempt that is admitted once the first event has expired. -/
theorem invalid_request_budget_expiry :
    ∃ s, (system Bool 1 10).run (start 1 10 0)
        [.readReserve true, .reserve true, .readComplete true, .complete true true,
          .readReserve false, .reserve false, .tick 10, .readReserve false, .reserve false,
          .readComplete false, .complete false true] = some s ∧
      s.recorded = [0, 10] ∧ ∀ T, (windowed 10 T s.recorded).length ≤ 1 := by
  generalize hrun : (system Bool 1 10).run (start 1 10 0) _ = result
  have hresult : result.map (·.recorded) = some [0, 10] := by
    rw [← hrun]
    rfl
  obtain ⟨s, rfl, hrec⟩ := Option.map_eq_some_iff.mp hresult
  have hr : (system Bool 1 10).Reachable s := System.Reachable.run (.init ⟨0, rfl⟩) hrun
  exact ⟨s, rfl, hrec, (invalid_request_budget 1 10 s hr).1⟩

end GuardRun

end NirnProxy
