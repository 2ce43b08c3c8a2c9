import Mathlib.Data.List.Nodup
import NirnProxy.Transition

/-! `fifoGate`: a FIFO semaphore of capacity one whose callers may be cancelled.
A step is one critical section of `g.mu`, one `ctx.Err()` or one arm of the `select`;
`call` is where each caller stands between two of them. -/

universe u

namespace NirnProxy

inductive GateError
  | queueFull
  | context
  deriving DecidableEq

inductive GateCall
  | out
  | took
  | waiting
  | resumed
  | leaving
  | giving
  | owner
  deriving DecidableEq

inductive GateReturn
  | pending
  | granted
  | refused (err : GateError)
  deriving DecidableEq

/-- `ready` says that the channel is closed, `element` that the pointer is not nil. -/
structure GateWaiter where
  ready : Bool
  element : Bool
  deriving DecidableEq

structure FifoGate (π : Type u) where
  held : Bool
  maxWaiters : Nat
  waiters : List π
  waiter : π → GateWaiter
  call : π → GateCall

inductive GateStep
  | enter
  | check
  | ready
  | done
  | abandon
  | giveBack
  | release
  deriving DecidableEq

namespace FifoGate

variable {π : Type u}

def newFIFOGate (maxWaiters : Nat) : FifoGate π where
  held := false
  maxWaiters := maxWaiters
  waiters := []
  waiter := fun _ => ⟨false, false⟩
  call := fun _ => .out

variable [DecidableEq π]

def goto (g : FifoGate π) (p : π) (c : GateCall) : FifoGate π :=
  { g with call := Function.update g.call p c }

def release (g : FifoGate π) : FifoGate π :=
  match g.waiters with
  | [] => { g with held := false }
  | front :: rest =>
    { g with waiters := rest, waiter := Function.update g.waiter front ⟨true, false⟩ }

def take (g : FifoGate π) (p : π) : FifoGate π := { g with held := true }.goto p .took

def pushBack (g : FifoGate π) (p : π) : FifoGate π :=
  { g with waiters := g.waiters ++ [p]
           waiter := Function.update g.waiter p ⟨false, true⟩ }.goto p .waiting

def remove (g : FifoGate π) (p : π) : FifoGate π :=
  { g with waiters := g.waiters.erase p
           waiter := Function.update g.waiter p ⟨(g.waiter p).ready, false⟩ }.goto p .out

/-- The first critical section of `acquire`. -/
def enter (g : FifoGate π) (p : π) : FifoGate π × GateReturn :=
  if g.held = false then (g.take p, .pending)
  else if g.maxWaiters ≤ g.waiters.length then (g, .refused .queueFull)
  else (g.pushBack p, .pending)

/-- The critical section after `<-ctx.Done()`.  A nil `element` means that `release` has
already handed the gate to this waiter, which then has to pass it on. -/
def abandon (g : FifoGate π) (p : π) : FifoGate π × GateReturn :=
  if (g.waiter p).element then (g.remove p, .refused .context)
  else (g.goto p .giving, .pending)

def step (done : Bool) (p : π) (g : FifoGate π) : GateStep → Option (FifoGate π × GateReturn)
  | .enter => if g.call p = .out then some (g.enter p) else none
  | .check =>
    if g.call p = .took ∨ g.call p = .resumed then
      if done then some (g.goto p .giving, .pending) else some (g.goto p .owner, .granted)
    else none
  | .ready =>
    if g.call p = .waiting ∧ (g.waiter p).ready then some (g.goto p .resumed, .pending) else none
  | .done => if g.call p = .waiting ∧ done then some (g.goto p .leaving, .pending) else none
  | .abandon => if g.call p = .leaving then some (g.abandon p) else none
  | .giveBack =>
    if g.call p = .giving then some (g.release.goto p .out, .refused .context) else none
  | .release => if g.call p = .owner then some (g.release.goto p .out, .pending) else none

/-- `p` has the gate: it set `held` itself, or `release` handed it over, whether or not
`p` has noticed yet. -/
def holds (g : FifoGate π) (p : π) : Bool :=
  match g.call p with
  | .out => false
  | .took | .resumed | .giving | .owner => true
  | .waiting | .leaving => !(g.waiter p).element

structure Wf (g : FifoGate π) : Prop where
  nodup : g.waiters.Nodup
  bound : g.waiters.length ≤ g.maxWaiters
  element : ∀ p, p ∈ g.waiters ↔ (g.waiter p).element = true
  queued : ∀ p ∈ g.waiters, g.call p = .waiting ∨ g.call p = .leaving
  ready : ∀ p, (g.waiter p).ready = true → (g.waiter p).element = false
  handed : ∀ p, g.call p = .waiting → (g.waiter p).element = false → (g.waiter p).ready = true
  unique : ∀ p q, g.holds p = true → g.holds q = true → p = q
  held : g.held = true ↔ ∃ p, g.holds p = true
  idle : g.held = false → g.waiters = []

@[simp] theorem goto_call_self (g : FifoGate π) (p : π) (c : GateCall) :
    (g.goto p c).call p = c := by simp [goto]

theorem goto_call_ne (g : FifoGate π) {p q : π} (c : GateCall) (h : q ≠ p) :
    (g.goto p c).call q = g.call q := by simp [goto, h]

@[simp] theorem goto_waiters (g : FifoGate π) (p : π) (c : GateCall) :
    (g.goto p c).waiters = g.waiters := rfl

@[simp] theorem goto_waiter (g : FifoGate π) (p : π) (c : GateCall) :
    (g.goto p c).waiter = g.waiter := rfl

@[simp] theorem goto_held (g : FifoGate π) (p : π) (c : GateCall) :
    (g.goto p c).held = g.held := rfl

@[simp] theorem goto_maxWaiters (g : FifoGate π) (p : π) (c : GateCall) :
    (g.goto p c).maxWaiters = g.maxWaiters := rfl

theorem holds_goto_ne (g : FifoGate π) {p q : π} (c : GateCall) (h : q ≠ p) :
    (g.goto p c).holds q = g.holds q := by simp [holds, goto_call_ne g c h]

@[simp] theorem holds_goto_out (g : FifoGate π) (p : π) : (g.goto p .out).holds p = false := by
  simp [holds]

@[simp] theorem release_call (g : FifoGate π) : g.release.call = g.call := by
  unfold release
  split <;> rfl

@[simp] theorem release_maxWaiters (g : FifoGate π) : g.release.maxWaiters = g.maxWaiters := by
  unfold release
  split <;> rfl

@[simp] theorem release_waiters (g : FifoGate π) : g.release.waiters = g.waiters.tail := by
  unfold release
  split <;> simp_all

variable {g g' : FifoGate π} {p q : π} {done : Bool} {r : GateReturn}

omit [DecidableEq π] in
theorem not_holds_of_out (hp : g.call p = .out) : g.holds p = false := by simp [holds, hp]

omit [DecidableEq π] in
theorem Wf.not_holds_of_mem (h : g.Wf) (hq : q ∈ g.waiters) : g.holds q = false := by
  have he := (h.element q).mp hq
  obtain hc | hc := h.queued q hq <;> simp [holds, hc, he]

omit [DecidableEq π] in
theorem Wf.notMem_of_holds (h : g.Wf) (hp : g.holds p = true) : p ∉ g.waiters := by
  intro hm
  simp [h.not_holds_of_mem hm] at hp

omit [DecidableEq π] in
theorem Wf.notMem_of_out (h : g.Wf) (hp : g.call p = .out) : p ∉ g.waiters := by
  intro hm
  obtain hc | hc := h.queued p hm <;> simp [hc] at hp

omit [DecidableEq π] in
theorem newFIFOGate_wf (n : Nat) : (newFIFOGate n : FifoGate π).Wf := by
  constructor <;> simp [newFIFOGate, holds]

theorem Wf.goto (h : g.Wf) {c : GateCall} (hh : (g.goto p c).holds p = g.holds p)
    (hq : p ∈ g.waiters → c = .waiting ∨ c = .leaving)
    (hr : c = .waiting → (g.waiter p).element = false → (g.waiter p).ready = true) :
    (g.goto p c).Wf := by
  have hold : ∀ q, (g.goto p c).holds q = g.holds q := by
    intro q
    by_cases hqp : q = p
    · rw [hqp, hh]
    · exact holds_goto_ne g c hqp
  refine ⟨h.nodup, h.bound, h.element, ?_, h.ready, ?_, ?_, ?_, h.idle⟩
  · intro q hm
    by_cases hqp : q = p
    · subst hqp
      simpa using hq hm
    · rw [goto_call_ne g c hqp]
      exact h.queued q hm
  · intro q hc he
    by_cases hqp : q = p
    · subst hqp
      exact hr (by simpa using hc) he
    · rw [goto_call_ne g c hqp] at hc
      exact h.handed q hc he
  · intro q q' h1 h2
    rw [hold] at h1 h2
    exact h.unique q q' h1 h2
  · simp only [hold]
    exact h.held

theorem Wf.take (h : g.Wf) (hp : g.call p = .out) (hheld : g.held = false) : (g.take p).Wf := by
  have hnm := h.notMem_of_out hp
  have hother : ∀ q, q ≠ p → (g.take p).holds q = false := by
    intro q hq
    have hnone : g.holds q = false := by
      by_contra hc
      simp [h.held.mpr ⟨q, by simpa using hc⟩] at hheld
    rw [FifoGate.take, holds_goto_ne _ _ hq]
    exact hnone
  refine ⟨h.nodup, h.bound, h.element, ?_, h.ready, ?_, ?_, ?_, by simp [FifoGate.take]⟩
  · intro q hm
    have hqp : q ≠ p := fun e => hnm (e ▸ hm)
    rw [FifoGate.take, goto_call_ne _ _ hqp]
    exact h.queued q hm
  · intro q hc he
    by_cases hqp : q = p
    · simp [FifoGate.take, hqp] at hc
    · rw [FifoGate.take, goto_call_ne _ _ hqp] at hc
      exact h.handed q hc he
  · intro q q' h1 h2
    have only : ∀ q, (g.take p).holds q = true → q = p := by
      intro q hq
      by_contra hne
      simp [hother q hne] at hq
    rw [only q h1, only q' h2]
  · simp only [FifoGate.take, goto_held, true_iff]
    exact ⟨p, by simp [holds]⟩

theorem holds_pushBack (hp : g.call p = .out) : (g.pushBack p).holds q = g.holds q := by
  by_cases hqp : q = p
  · subst hqp
    simp [holds, pushBack, FifoGate.goto, hp]
  · simp [holds, pushBack, FifoGate.goto, hqp]

theorem Wf.pushBack (h : g.Wf) (hp : g.call p = .out) (hheld : g.held = true)
    (hlen : g.waiters.length < g.maxWaiters) : (g.pushBack p).Wf := by
  have hnm := h.notMem_of_out hp
  refine ⟨?_, ?_, ?_, ?_, ?_, ?_, ?_, ?_, ?_⟩
  · exact List.Nodup.append h.nodup (List.nodup_singleton p) (by simpa using hnm)
  · simp only [FifoGate.pushBack, goto_waiters, List.length_append, List.length_singleton,
      goto_maxWaiters]
    omega
  · intro q
    by_cases hqp : q = p
    · simp [FifoGate.pushBack, hqp]
    · simpa [FifoGate.pushBack, hqp] using h.element q
  · intro q hm
    by_cases hqp : q = p
    · simp [FifoGate.pushBack, hqp]
    · rw [FifoGate.pushBack, goto_call_ne _ _ hqp]
      exact h.queued q (by simpa [FifoGate.pushBack, hqp] using hm)
  · intro q hr
    by_cases hqp : q = p
    · simp [FifoGate.pushBack, hqp] at hr
    · simp only [FifoGate.pushBack, goto_waiter, Function.update_of_ne hqp] at hr ⊢
      exact h.ready q hr
  · intro q hc he
    by_cases hqp : q = p
    · simp [FifoGate.pushBack, hqp] at he
    · rw [FifoGate.pushBack, goto_call_ne _ _ hqp] at hc
      simp only [FifoGate.pushBack, goto_waiter, Function.update_of_ne hqp] at he ⊢
      exact h.handed q hc he
  · intro q q' h1 h2
    rw [holds_pushBack hp] at h1 h2
    exact h.unique q q' h1 h2
  · simp only [holds_pushBack hp]
    exact h.held
  · intro hf
    simp [FifoGate.pushBack, hheld] at hf

theorem Wf.holds_release (h : g.Wf) (hp : g.holds p = true) :
    (g.release.goto p .out).holds q = true ↔ g.waiters.head? = some q := by
  have hnm := h.notMem_of_holds hp
  have hone : ∀ q, q ≠ p → g.holds q = false := by
    intro q hq
    by_contra hc
    exact hq (h.unique q p (by simpa using hc) hp)
  by_cases hqp : q = p
  · subst hqp
    have hne : g.waiters.head? ≠ some q := fun e => hnm (List.mem_of_mem_head? e)
    simp [hne]
  · rw [holds_goto_ne _ _ hqp]
    unfold FifoGate.release
    split
    · rename_i hw
      have := hone q hqp
      simp only [holds] at this ⊢
      simp [this, hw]
    · rename_i front rest hw
      simp only [hw, List.head?_cons, Option.some.injEq]
      by_cases hf : q = front
      · subst hf
        have hm : q ∈ g.waiters := by simp [hw]
        obtain hc | hc := h.queued q hm <;> simp [holds, hc]
      · have := hone q hqp
        simp only [holds] at this ⊢
        simp [Function.update_of_ne hf, this, Ne.symm hf]

theorem Wf.release (h : g.Wf) (hp : g.holds p = true) : (g.release.goto p .out).Wf := by
  have hnm := h.notMem_of_holds hp
  have hiff := fun q => h.holds_release (q := q) hp
  refine ⟨?_, ?_, ?_, ?_, ?_, ?_, ?_, ?_, ?_⟩
  · simpa using h.nodup.tail
  · have := h.bound
    simp only [goto_waiters, release_waiters, goto_maxWaiters, release_maxWaiters,
      List.length_tail]
    omega
  · intro q
    simp only [goto_waiters, release_waiters, goto_waiter]
    unfold FifoGate.release
    split
    · rename_i hw
      have := h.element q
      simpa [hw] using this
    · rename_i front rest hw
      have hnd : front ∉ rest := by
        have := h.nodup
        rw [hw] at this
        exact (List.nodup_cons.mp this).1
      by_cases hf : q = front
      · subst hf
        simp [hw, hnd]
      · have := h.element q
        simpa [hw, hf] using this
  · intro q hm
    have hm' : q ∈ g.waiters := List.mem_of_mem_tail (by simpa using hm)
    have hqp : q ≠ p := fun e => hnm (e ▸ hm')
    rw [goto_call_ne _ _ hqp, release_call]
    exact h.queued q hm'
  · intro q hr
    simp only [goto_waiter] at hr ⊢
    unfold FifoGate.release at hr ⊢
    split at hr
    · exact h.ready q hr
    · rename_i front rest hw
      by_cases hf : q = front
      · simp [hf]
      · simp only [Function.update_of_ne hf] at hr ⊢
        exact h.ready q hr
  · intro q hc he
    have hqp : q ≠ p := by
      intro e
      simp [e] at hc
    rw [goto_call_ne _ _ hqp, release_call] at hc
    simp only [goto_waiter] at he ⊢
    unfold FifoGate.release at he ⊢
    split at he
    · exact h.handed q hc he
    · rename_i front rest hw
      by_cases hf : q = front
      · simp [hf]
      · simp only [Function.update_of_ne hf] at he ⊢
        exact h.handed q hc he
  · intro q q' h1 h2
    rw [hiff] at h1 h2
    rw [h1] at h2
    simpa using h2
  · simp only [hiff, goto_held]
    unfold FifoGate.release
    split
    · rename_i hw
      simp [hw]
    · rename_i front rest hw
      have : g.held = true := h.held.mpr ⟨p, hp⟩
      simp [hw, this]
  · simp only [goto_held, goto_waiters, release_waiters]
    unfold FifoGate.release
    split
    · rename_i hw
      simp [hw]
    · have : g.held = true := h.held.mpr ⟨p, hp⟩
      simp [this]

theorem Wf.holds_remove (h : g.Wf) (hm : p ∈ g.waiters) :
    (g.remove p).holds q = g.holds q := by
  by_cases hqp : q = p
  · subst hqp
    rw [h.not_holds_of_mem hm, FifoGate.remove, holds_goto_out]
  · simp [holds, FifoGate.remove, FifoGate.goto, hqp]

theorem Wf.remove (h : g.Wf) (hm : p ∈ g.waiters) : (g.remove p).Wf := by
  refine ⟨h.nodup.erase p, ?_, ?_, ?_, ?_, ?_, ?_, ?_, ?_⟩
  · have := h.bound
    have := List.length_erase_of_mem hm
    simp only [FifoGate.remove, goto_waiters, goto_maxWaiters]
    omega
  · intro q
    by_cases hqp : q = p
    · simp [FifoGate.remove, hqp, h.nodup.not_mem_erase]
    · simpa [FifoGate.remove, hqp, List.mem_erase_of_ne hqp] using h.element q
  · intro q hq
    have hqp : q ≠ p := by
      intro e
      subst e
      exact h.nodup.not_mem_erase hq
    rw [FifoGate.remove, goto_call_ne _ _ hqp]
    exact h.queued q (List.mem_of_mem_erase hq)
  · intro q hr
    by_cases hqp : q = p
    · simp [FifoGate.remove, hqp]
    · simp only [FifoGate.remove, goto_waiter, Function.update_of_ne hqp] at hr ⊢
      exact h.ready q hr
  · intro q hc hel
    by_cases hqp : q = p
    · simp [FifoGate.remove, hqp] at hc
    · rw [FifoGate.remove, goto_call_ne _ _ hqp] at hc
      simp only [FifoGate.remove, goto_waiter, Function.update_of_ne hqp] at hel ⊢
      exact h.handed q hc hel
  · intro q q' h1 h2
    rw [h.holds_remove hm] at h1 h2
    exact h.unique q q' h1 h2
  · simp only [h.holds_remove hm]
    exact h.held
  · intro hf
    have := h.idle hf
    simp [this] at hm

/-- Everything one step of `p` can do, with the steps that change neither the queue nor
who has the gate collected in `move`. -/
inductive Moves (done : Bool) (p : π) (g : FifoGate π) :
    GateStep → FifoGate π → GateReturn → Prop
  | take : g.call p = .out → g.held = false → Moves done p g .enter (g.take p) .pending
  | full : g.call p = .out → g.held = true → g.maxWaiters ≤ g.waiters.length →
      Moves done p g .enter g (.refused .queueFull)
  | pushBack : g.call p = .out → g.held = true → g.waiters.length < g.maxWaiters →
      Moves done p g .enter (g.pushBack p) .pending
  | remove : g.call p = .leaving → (g.waiter p).element = true →
      Moves done p g .abandon (g.remove p) (.refused .context)
  | giveBack : g.call p = .giving →
      Moves done p g .giveBack (g.release.goto p .out) (.refused .context)
  | release : g.call p = .owner → Moves done p g .release (g.release.goto p .out) .pending
  | grant : g.call p = .took ∨ g.call p = .resumed → done = false →
      Moves done p g .check (g.goto p .owner) .granted
  | back : g.call p = .took ∨ g.call p = .resumed → done = true →
      Moves done p g .check (g.goto p .giving) .pending
  | resume : g.call p = .waiting → (g.waiter p).ready = true →
      Moves done p g .ready (g.goto p .resumed) .pending
  | leave : g.call p = .waiting → done = true →
      Moves done p g .done (g.goto p .leaving) .pending
  | passOn : g.call p = .leaving → (g.waiter p).element = false →
      Moves done p g .abandon (g.goto p .giving) .pending

theorem step_moves {a : GateStep} (hs : g.step done p a = some (g', r)) :
    Moves done p g a g' r := by
  cases a with
  | enter =>
    simp only [FifoGate.step, Option.ite_none_right_eq_some, Option.some.injEq] at hs
    obtain ⟨hp, hs⟩ := hs
    unfold FifoGate.enter at hs
    split at hs
    · cases hs
      exact .take hp ‹_›
    · split at hs <;> cases hs
      · exact .full hp (by simp_all) ‹_›
      · exact .pushBack hp (by simp_all) (by omega)
  | check =>
    simp only [FifoGate.step] at hs
    split at hs
    · split at hs <;> cases hs
      · exact .back ‹_› ‹_›
      · exact .grant ‹_› (by simp_all)
    · cases hs
  | ready =>
    simp only [FifoGate.step, Option.ite_none_right_eq_some, Option.some.injEq] at hs
    obtain ⟨⟨hp, hr⟩, hs⟩ := hs
    cases hs
    exact .resume hp hr
  | done =>
    simp only [FifoGate.step, Option.ite_none_right_eq_some, Option.some.injEq] at hs
    obtain ⟨⟨hp, hd⟩, hs⟩ := hs
    cases hs
    exact .leave hp hd
  | abandon =>
    simp only [FifoGate.step, Option.ite_none_right_eq_some, Option.some.injEq] at hs
    obtain ⟨hp, hs⟩ := hs
    unfold FifoGate.abandon at hs
    split at hs <;> cases hs
    · exact .remove hp ‹_›
    · exact .passOn hp (by simp_all)
  | giveBack =>
    simp only [FifoGate.step, Option.ite_none_right_eq_some, Option.some.injEq] at hs
    obtain ⟨hp, hs⟩ := hs
    cases hs
    exact .giveBack hp
  | release =>
    simp only [FifoGate.step, Option.ite_none_right_eq_some, Option.some.injEq] at hs
    obtain ⟨hp, hs⟩ := hs
    cases hs
    exact .release hp

theorem holds_goto_of_took {c : GateCall} (hp : g.call p = .took ∨ g.call p = .resumed)
    (hc : c = .owner ∨ c = .giving) : (g.goto p c).holds q = g.holds q := by
  by_cases hqp : q = p
  · subst hqp
    obtain hp | hp := hp <;> obtain hc | hc := hc <;> simp [holds, hp, hc]
  · exact holds_goto_ne g c hqp

theorem Wf.holds_resume (h : g.Wf) (hp : g.call p = .waiting) (hr : (g.waiter p).ready = true) :
    (g.goto p .resumed).holds q = g.holds q := by
  by_cases hqp : q = p
  · subst hqp
    simp [holds, hp, h.ready q hr]
  · exact holds_goto_ne g _ hqp

theorem holds_leave (hp : g.call p = .waiting) : (g.goto p .leaving).holds q = g.holds q := by
  by_cases hqp : q = p
  · subst hqp
    simp [holds, hp]
  · exact holds_goto_ne g _ hqp

theorem holds_passOn (hp : g.call p = .leaving) (he : (g.waiter p).element = false) :
    (g.goto p .giving).holds q = g.holds q := by
  by_cases hqp : q = p
  · subst hqp
    simp [holds, hp, he]
  · exact holds_goto_ne g _ hqp

theorem Wf.step (h : g.Wf) {a : GateStep} (hs : g.step done p a = some (g', r)) : g'.Wf := by
  cases step_moves hs with
  | take hp hf => exact h.take hp hf
  | full => exact h
  | pushBack hp hh hl => exact h.pushBack hp hh hl
  | remove hp he => exact h.remove ((h.element p).mpr he)
  | giveBack hp => exact h.release (by simp [holds, hp])
  | release hp => exact h.release (by simp [holds, hp])
  | grant hp hd =>
    have hh : g.holds p = true := by obtain hp | hp := hp <;> simp [holds, hp]
    exact h.goto (holds_goto_of_took hp (.inl rfl)) (fun hm => absurd hm (h.notMem_of_holds hh))
      (by simp)
  | back hp hd =>
    have hh : g.holds p = true := by obtain hp | hp := hp <;> simp [holds, hp]
    exact h.goto (holds_goto_of_took hp (.inr rfl)) (fun hm => absurd hm (h.notMem_of_holds hh))
      (by simp)
  | resume hp hr =>
    have hh : g.holds p = true := by simp [holds, hp, h.ready p hr]
    exact h.goto (h.holds_resume hp hr) (fun hm => absurd hm (h.notMem_of_holds hh)) (by simp)
  | leave hp hd => exact h.goto (holds_leave hp) (fun _ => .inr rfl) (by simp)
  | passOn hp he =>
    have hh : g.holds p = true := by simp [holds, hp, he]
    exact h.goto (holds_passOn hp he) (fun hm => absurd hm (h.notMem_of_holds hh)) (by simp)

theorem step_call_ne {a : GateStep} (hs : g.step done p a = some (g', r)) (hq : q ≠ p) :
    g'.call q = g.call q := by
  cases step_moves hs with
  | full => rfl
  | giveBack | release => rw [goto_call_ne _ _ hq, release_call]
  | _ => exact goto_call_ne _ _ hq

def GateReturn.Leaves : GateReturn → GateCall → Prop
  | .pending, c => c ≠ .owner
  | .granted, c => c = .owner
  | .refused _, c => c = .out

theorem step_call {a : GateStep} (hs : g.step done p a = some (g', r)) (hp : g.call p ≠ .owner) :
    GateReturn.Leaves r (g'.call p) := by
  cases step_moves hs with
  | full ho => exact ho
  | take | pushBack | back | resume | leave | passOn =>
    simp [GateReturn.Leaves, FifoGate.take, FifoGate.pushBack]
  | remove | giveBack => simp [GateReturn.Leaves, FifoGate.remove]
  | release ho => exact (hp ho).elim
  | grant => simp [GateReturn.Leaves]

theorem step_release (hs : g.step done p .release = some (g', r)) : g'.call p = .out := by
  cases step_moves hs with
  | release => exact goto_call_self _ _ _

end FifoGate

end NirnProxy
