import NirnProxy.Limits.Pacer

/-! Runs of one pacer under any number of `waitFor` and `blockFor` calls.  The log holds the
turns taken and the blocks imposed, newest first; `advanced` says whether a step of the
current or latest call of a party changed `next`. -/

universe u

namespace NirnProxy

inductive PacerEvent
  | grant (now : Int)
  | block (now delay : Int)
  deriving DecidableEq

structure PacerRun (π : Type u) where
  pacer : Pacer π
  clock : Int
  context : π → WaitContext
  pc : π → Option WaitForPc
  advanced : π → Bool
  log : List PacerEvent

inductive PacerAction (π : Type u)
  | tick (d : Nat)
  | cancel (p : π)
  | call (p : π) (c : WaitContext)
  | step (p : π) (a : WaitForStep)
  | blockFor (delay : Int)

namespace PacerRun

variable {π : Type u} [DecidableEq π]

def start (limit maxWaiters : Nat) (clock : Int) : PacerRun π where
  pacer := .newPacer limit maxWaiters
  clock := clock
  context := fun _ => ⟨false, none, 0⟩
  pc := fun _ => none
  advanced := fun _ => false
  log := []

def Busy (s : PacerRun π) (p : π) : Bool :=
  match s.pc p with
  | none | some (.returned _) => false
  | some _ => true

def turn (s : PacerRun π) (pc' : WaitForPc) (p : π) : List PacerEvent :=
  if s.pc p = some .lock ∧ pc' = .unlock .granted then [.grant s.clock] else []

def step (s : PacerRun π) : PacerAction π → Option (PacerRun π)
  | .tick d => some { s with clock := s.clock + d }
  | .cancel p =>
    some { s with context := Function.update s.context p { s.context p with done := true } }
  | .call p c =>
    if s.Busy p then none
    else some { s with context := Function.update s.context p c
                       pc := Function.update s.pc p (some .gate)
                       advanced := Function.update s.advanced p false }
  | .step p a =>
    match s.pc p with
    | none => none
    | some pc =>
      (s.pacer.waitFor s.clock (s.context p) p pc a).map fun (pacer, pc') =>
        { s with pacer := pacer
                 pc := Function.update s.pc p (some pc')
                 advanced := Function.update s.advanced p
                   (s.advanced p || decide (pacer.next ≠ s.pacer.next))
                 log := s.turn pc' p ++ s.log }
  | .blockFor d =>
    some { s with pacer := s.pacer.blockFor s.clock d, log := .block s.clock d :: s.log }

def system (π : Type u) [DecidableEq π] (limit maxWaiters : Nat) :
    System (PacerRun π) (PacerAction π) where
  init s := ∃ clock, s = start limit maxWaiters clock
  step := step

inductive Moves (s : PacerRun π) : PacerAction π → PacerRun π → Prop
  | tick (d : Nat) : Moves s (.tick d) { s with clock := s.clock + d }
  | cancel (p : π) : Moves s (.cancel p)
      { s with context := Function.update s.context p { s.context p with done := true } }
  | call {p : π} {c : WaitContext} : s.Busy p = false → Moves s (.call p c)
      { s with context := Function.update s.context p c
               pc := Function.update s.pc p (some .gate)
               advanced := Function.update s.advanced p false }
  | step {p : π} {a : WaitForStep} {pc pc' : WaitForPc} {P : Pacer π} : s.pc p = some pc →
      s.pacer.waitFor s.clock (s.context p) p pc a = some (P, pc') → Moves s (.step p a)
      { s with pacer := P
               pc := Function.update s.pc p (some pc')
               advanced := Function.update s.advanced p
                 (s.advanced p || decide (P.next ≠ s.pacer.next))
               log := s.turn pc' p ++ s.log }
  | blockFor (d : Int) : Moves s (.blockFor d)
      { s with pacer := s.pacer.blockFor s.clock d, log := .block s.clock d :: s.log }

theorem step_moves {s t : PacerRun π} {a : PacerAction π} (hs : s.step a = some t) :
    s.Moves a t := by
  cases a with
  | tick d =>
    cases hs
    exact .tick d
  | cancel p =>
    cases hs
    exact .cancel p
  | call p c =>
    obtain ⟨hidle, hs⟩ := Option.ite_none_left_eq_some.mp hs
    cases hs
    exact .call (Bool.eq_false_iff.mpr hidle)
  | step p a =>
    simp only [step] at hs
    split at hs
    · cases hs
    · obtain ⟨⟨P, pc'⟩, hw, rfl⟩ := Option.map_eq_some_iff.mp hs
      exact .step ‹_› hw
  | blockFor d =>
    cases hs
    exact .blockFor d

/-- The instants at which turns were taken, newest first. -/
def grants (log : List PacerEvent) : List Int :=
  log.filterMap fun
    | .grant now => some now
    | .block _ _ => none

def Clear (later earlier : PacerEvent) : Prop :=
  ∀ now t d, later = .grant now → earlier = .block t d →
    ¬(t ≤ now ∧ now < t + max d minimumRetryDelay)

structure Inv (i : Int) (s : PacerRun π) : Prop where
  interval : s.pacer.interval = i
  next : ∀ now ∈ grants s.log, now + i ≤ s.pacer.next
  spaced : (grants s.log).Pairwise fun later earlier => earlier + i ≤ later
  blocks : ∀ t d, .block t d ∈ s.log → t + max d minimumRetryDelay ≤ s.pacer.blockedUntil
  clear : s.log.Pairwise Clear
  advanced : ∀ p, s.pc p ≠ some (.unlock .granted) → s.pc p ≠ some (.returned .granted) →
    s.advanced p = false

variable {s t : PacerRun π} {p : π} {i : Int}

omit [DecidableEq π] in
theorem start_inv (limit maxWaiters : Nat) (clock : Int) :
    (start limit maxWaiters clock : PacerRun π).Inv
      (Pacer.pacingInterval (if limit = 0 then discordGlobalLimit else limit)) := by
  constructor <;> simp [start, grants, Pacer.newPacer]

omit [DecidableEq π] in
/-- Taking a turn: `readyAt` has passed, so the last turn and every block are behind. -/
theorem Inv.grant (h : s.Inv i) (hi : 0 ≤ i) (hready : s.pacer.readyAt ≤ s.clock)
    (pc : π → Option WaitForPc) (advanced : π → Bool)
    (hadv : ∀ p, pc p ≠ some (.unlock .granted) → pc p ≠ some (.returned .granted) →
      advanced p = false) :
    { s with pacer := { s.pacer with next := s.clock + s.pacer.interval }, pc := pc
             advanced := advanced, log := .grant s.clock :: s.log }.Inv i := by
  have hnext : s.pacer.next ≤ s.clock := le_trans (le_max_left _ _) hready
  have hblock : s.pacer.blockedUntil ≤ s.clock := le_trans (le_max_right _ _) hready
  have hold : ∀ now ∈ grants s.log, now + i ≤ s.clock :=
    fun now hn => le_trans (h.next now hn) hnext
  refine ⟨h.interval, ?_, ?_, ?_, ?_, hadv⟩
  · intro now hn
    rw [h.interval]
    obtain rfl | hn := List.mem_cons.mp hn
    · exact le_refl _
    · have := hold now hn
      simp only
      omega
  · exact List.pairwise_cons.mpr ⟨hold, h.spaced⟩
  · intro t d hm
    obtain hm | hm := List.mem_cons.mp hm
    · cases hm
    · exact h.blocks t d hm
  · refine List.pairwise_cons.mpr ⟨?_, h.clear⟩
    rintro e he now t d hnow rfl
    cases hnow
    have := h.blocks t d he
    omega

theorem Inv.advanced_step (h : s.Inv i) {a : WaitForStep} {pc pc' : WaitForPc} {P : Pacer π}
    (hpc : s.pc p = some pc)
    (hw : s.pacer.waitFor s.clock (s.context p) p pc a = some (P, pc')) {q : π}
    (hq : Function.update s.pc p (some pc') q ≠ some (.unlock .granted))
    (hq' : Function.update s.pc p (some pc') q ≠ some (.returned .granted)) :
    Function.update s.advanced p (s.advanced p || decide (P.next ≠ s.pacer.next)) q = false := by
  by_cases hqp : q = p
  · subst hqp
    rw [Function.update_self, Ne, Option.some.injEq] at hq hq'
    rw [Function.update_self]
    obtain ⟨-, -, -, rfl⟩ | ⟨hne, -, -, g, rfl⟩ | ⟨ret, rfl, rfl, g, rfl⟩ :=
      Pacer.waitFor_cases hw
    · exact absurd rfl hq
    · have hret : pc ≠ .returned .granted := by
        rintro rfl
        cases a <;> simp [Pacer.waitFor] at hw
      simpa using h.advanced q (by simpa [hpc] using hne) (by simpa [hpc] using hret)
    · have hne : ret ≠ .granted := by simpa using hq'
      simpa using h.advanced q (by simpa [hpc] using hne) (by simp [hpc])
  · rw [Function.update_of_ne hqp] at hq hq' ⊢
    exact h.advanced q hq hq'

theorem Inv.step {a : PacerAction π} (h : s.Inv i) (hi : 0 ≤ i) (hs : s.step a = some t) :
    t.Inv i := by
  cases step_moves hs with
  | tick | cancel => exact ⟨h.interval, h.next, h.spaced, h.blocks, h.clear, h.advanced⟩
  | @call p c =>
    refine ⟨h.interval, h.next, h.spaced, h.blocks, h.clear, fun q => ?_⟩
    by_cases hq : q = p
    · simp [hq]
    · simpa [hq] using h.advanced q
  | blockFor d =>
    refine ⟨by simpa using h.interval, by simpa [grants] using h.next,
      by simpa [grants] using h.spaced, ?_, ?_, h.advanced⟩
    · intro t d' hm
      simp only [Pacer.blockFor_blockedUntil]
      obtain hm | hm := List.mem_cons.mp hm
      · cases hm
        exact le_max_right _ _
      · exact le_trans (h.blocks t d' hm) (le_max_left _ _)
    · refine List.pairwise_cons.mpr ⟨?_, h.clear⟩
      intro e _ now t d' hnow
      cases hnow
  | @step p a pc pc' P hpc hw =>
    have hadvanced := fun q => h.advanced_step (q := q) hpc hw
    obtain ⟨rfl, hready, rfl, rfl⟩ | ⟨-, hpc', -, g, rfl⟩ | ⟨ret, -, rfl, g, rfl⟩ :=
      Pacer.waitFor_cases hw
    · have hturn : s.turn (.unlock .granted) p = [.grant s.clock] := by simp [turn, hpc]
      rw [hturn]
      exact h.grant hi hready _ _ hadvanced
    · have hturn : s.turn pc' p = [] := by simp [turn, hpc']
      rw [hturn]
      exact ⟨h.interval, h.next, h.spaced, h.blocks, h.clear, hadvanced⟩
    · have hturn : s.turn (.returned ret) p = [] := by simp [turn]
      rw [hturn]
      exact ⟨h.interval, h.next, h.spaced, h.blocks, h.clear, hadvanced⟩

theorem inv_of_reachable {limit maxWaiters : Nat} (hl : 0 < limit)
    (h : (system π limit maxWaiters).Reachable s) : s.Inv (Pacer.pacingInterval limit) := by
  refine System.Reach.invariant ?_ ?_ h
  · rintro s ⟨clock, rfl⟩
    have := start_inv (π := π) limit maxWaiters clock
    rwa [if_neg (Nat.ne_of_gt hl)] at this
  · intro s a t hinv _ hs
    exact hinv.step (Pacer.pacingInterval_nonneg limit) hs

theorem spaced_span {l : List Int} {x T : Int}
    (h : (x :: l).Pairwise fun later earlier => earlier + i ≤ later)
    (hlow : ∀ z ∈ x :: l, T ≤ z) : T + l.length * i ≤ x := by
  induction l generalizing x with
  | nil => simpa using hlow x List.mem_cons_self
  | cons z l ih =>
    obtain ⟨hx, hl⟩ := List.pairwise_cons.mp h
    have hxz := hx z List.mem_cons_self
    have hz := ih hl fun w hw => hlow w (List.mem_cons_of_mem _ hw)
    rw [List.length_cons]
    push_cast
    rw [Int.add_mul, Int.one_mul]
    omega

theorem spaced_length_le {l : List Int} {T W : Int} {n : Nat} (hi : 0 ≤ i) (hn : W ≤ n * i)
    (h : l.Pairwise fun later earlier => earlier + i ≤ later)
    (hin : ∀ z ∈ l, T ≤ z ∧ z < T + W) : l.length ≤ n := by
  cases l with
  | nil => exact Nat.zero_le _
  | cons x l =>
    have hspan := spaced_span h fun z hz => (hin z hz).1
    have hx := (hin x List.mem_cons_self).2
    have hlt : (l.length : Int) * i < n * i := by omega
    have := Int.lt_of_mul_lt_mul_right hlt hi
    rw [List.length_cons]
    omega

def grantsInSecond (T : Int) (log : List PacerEvent) : List Int :=
  (grants log).filter fun now => decide (T ≤ now) && decide (now < T + Duration.second)

/-- Every run of a pacer keeps its rate: turns are an interval apart, at most `limit` of them
fall into any second, none falls into an earlier block, and a call that did not end with a
turn has left `next` alone. -/
theorem pacer_rate (limit maxWaiters : Nat) (s : PacerRun π) (hl : 1 ≤ limit)
    (h : (system π limit maxWaiters).Reachable s) :
    (grants s.log).Pairwise (fun later earlier => earlier + s.pacer.interval ≤ later) ∧
    (∀ T, (grantsInSecond T s.log).length ≤ limit) ∧
    s.log.Pairwise (fun later earlier => ∀ now t d, later = .grant now → earlier = .block t d →
      ¬(t ≤ now ∧ now < t + max d minimumRetryDelay)) ∧
    (∀ p ret, s.pc p = some (.returned ret) → ret ≠ .granted → s.advanced p = false) := by
  have hinv := inv_of_reachable hl h
  have hnonneg := Pacer.pacingInterval_nonneg limit
  refine ⟨by rw [hinv.interval]; exact hinv.spaced, fun T => ?_, hinv.clear, ?_⟩
  · refine spaced_length_le (T := T) hnonneg (Pacer.second_le_pacingInterval hl)
      (hinv.spaced.sublist List.filter_sublist) fun z hz => ?_
    have := (List.mem_filter.mp hz).2
    simpa only [Bool.and_eq_true, decide_eq_true_eq] using this
  · intro p ret hp hne
    exact hinv.advanced p (by simp [hp]) (by simpa [hp] using hne)

/-- Two calls against a limit of fifty: the second takes its turn one interval later. -/
theorem pacer_rate_two_turns :
    ∃ s, (system Bool 50 1).run (start 50 1 0)
        [.call true ⟨false, none, 0⟩, .step true (.gate .enter), .step true (.gate .check),
          .step true .check, .step true .lock, .step true (.gate .release),
          .call false ⟨false, none, 0⟩, .step false (.gate .enter), .step false (.gate .check),
          .step false .check, .step false .lock, .step false .test, .tick 20100000,
          .step false .timer, .step false .check, .step false .lock] = some s ∧
      s.log = [.grant 20100000, .grant 0] ∧ (grantsInSecond 0 s.log).length ≤ 50 := by
  generalize hrun : (system Bool 50 1).run (start 50 1 0) _ = result
  have hresult : result.map (·.log) = some [.grant 20100000, .grant 0] := by
    rw [← hrun]
    decide
  obtain ⟨s, rfl, hlog⟩ := Option.map_eq_some_iff.mp hresult
  have hr : (system Bool 50 1).Reachable s := System.Reachable.run (.init ⟨0, rfl⟩) hrun
  exact ⟨s, rfl, hlog, (pacer_rate 50 1 s (by decide) hr).2.1 0⟩

end PacerRun

end NirnProxy
