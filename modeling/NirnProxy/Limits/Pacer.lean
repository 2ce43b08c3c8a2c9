import Mathlib.Order.Lattice
import NirnProxy.Clock
import NirnProxy.Gate.Roles

/-! `pacer`: the global pacing of one client.  `waitFor` is cut at its critical sections, its
context checks and the arms of its `select`; the current `wake` channel is numbered, and the
channels with smaller numbers are the closed ones. -/

universe u

namespace NirnProxy

def discordGlobalLimit : Nat := 50

def minimumRetryDelay : Int := 50 * Duration.millisecond

def globalPacingSlack : Int := 200

structure Pacer (π : Type u) where
  gate : FifoGate π
  interval : Int
  next : Int
  blockedUntil : Int
  wake : Nat

inductive PacerReturn
  | granted
  | delayed (delay : Int)
  | failed (err : GateError)
  deriving DecidableEq

inductive WaitForPc
  | gate
  | check
  | lock
  | test (readyAt blockedDelay : Int) (wake : Nat)
  | sleep (readyAt : Int) (wake : Nat)
  | unlock (ret : PacerReturn)
  | returned (ret : PacerReturn)
  deriving DecidableEq

inductive WaitForStep
  | gate (a : GateStep)
  | check
  | lock
  | test
  | timer
  | woken
  | done
  deriving DecidableEq

/-- What `waitFor` is called with: its context and the time to reserve for an attempt. -/
structure WaitContext where
  done : Bool
  deadline : Option Int
  reserve : Int

def WaitForPc.role : WaitForPc → GateRole
  | .gate => .queued
  | .check | .lock | .test _ _ _ | .sleep _ _ | .unlock _ => .owner
  | .returned _ => .out

namespace Pacer

variable {π : Type u}

def pacingInterval (limit : Nat) : Int :=
  let interval := (Duration.second + limit - 1) / limit
  interval + interval / globalPacingSlack

def newPacer (limit : Nat) (maxWaiters : Nat) : Pacer π where
  gate := .newFIFOGate maxWaiters
  interval := pacingInterval (if limit = 0 then discordGlobalLimit else limit)
  next := zeroTime
  blockedUntil := zeroTime
  wake := 0

def blockFor (now delay : Int) (P : Pacer π) : Pacer π :=
  let readyAt := now + max delay minimumRetryDelay
  if P.blockedUntil < readyAt then { P with blockedUntil := readyAt, wake := P.wake + 1 } else P

def retryAfter (P : Pacer π) (now : Int) : Int :=
  if P.blockedUntil ≤ now then 0 else P.blockedUntil - now

def blocked (P : Pacer π) (now : Int) : Bool := decide (0 < P.retryAfter now)

def readyAt (P : Pacer π) : Int := max P.next P.blockedUntil

variable [DecidableEq π]

def waitFor (now : Int) (c : WaitContext) (p : π) (P : Pacer π) :
    WaitForPc → WaitForStep → Option (Pacer π × WaitForPc)
  | .gate, .gate a =>
    (P.gate.step c.done p a).map fun (g, r) =>
      ({ P with gate := g }, match r with
        | .pending => .gate
        | .granted => .check
        | .refused e => .returned (.failed e))
  | .check, .check => some (P, if c.done then .unlock (.failed .context) else .lock)
  | .lock, .lock =>
    if P.readyAt ≤ now then some ({ P with next := now + P.interval }, .unlock .granted)
    else some (P, .test P.readyAt (P.blockedUntil - now) P.wake)
  | .test readyAt blockedDelay wake, .test =>
    if 0 < blockedDelay ∧ ∃ d ∈ c.deadline, d - now ≤ blockedDelay + c.reserve then
      some (P, .unlock (.delayed blockedDelay))
    else some (P, .sleep readyAt wake)
  | .sleep readyAt _, .timer => if readyAt ≤ now then some (P, .check) else none
  | .sleep _ wake, .woken => if wake < P.wake then some (P, .check) else none
  | .sleep _ _, .done => if c.done then some (P, .unlock (.failed .context)) else none
  | .unlock ret, .gate .release =>
    (P.gate.step c.done p .release).map fun (g, _) => ({ P with gate := g }, .returned ret)
  | _, _ => none

variable {P P' : Pacer π} {p : π} {now : Int} {c : WaitContext} {pc pc' : WaitForPc}
  {a : WaitForStep}

theorem waitFor_cases (h : P.waitFor now c p pc a = some (P', pc')) :
    (pc = .lock ∧ P.readyAt ≤ now ∧ P' = { P with next := now + P.interval } ∧
      pc' = .unlock .granted) ∨
    (pc ≠ .unlock .granted ∧ pc' ≠ .unlock .granted ∧ pc' ≠ .returned .granted ∧
      ∃ g, P' = { P with gate := g }) ∨
    (∃ ret, pc = .unlock ret ∧ pc' = .returned ret ∧ ∃ g, P' = { P with gate := g }) := by
  unfold waitFor at h
  split at h
  · obtain ⟨⟨g, r⟩, -, h⟩ := Option.map_eq_some_iff.mp h
    simp only [Prod.mk.injEq] at h
    obtain ⟨rfl, rfl⟩ := h
    refine .inr (.inl ⟨by simp, ?_, ?_, g, rfl⟩) <;> cases r <;> simp
  · cases h
    refine .inr (.inl ⟨by simp, ?_, ?_, P.gate, rfl⟩) <;> split <;> simp
  · split at h <;> cases h
    · exact .inl ⟨rfl, ‹_›, rfl, rfl⟩
    · exact .inr (.inl ⟨by simp, by simp, by simp, P.gate, rfl⟩)
  · split at h <;> cases h <;> exact .inr (.inl ⟨by simp, by simp, by simp, P.gate, rfl⟩)
  · split at h <;> cases h
    exact .inr (.inl ⟨by simp, by simp, by simp, P.gate, rfl⟩)
  · split at h <;> cases h
    exact .inr (.inl ⟨by simp, by simp, by simp, P.gate, rfl⟩)
  · split at h <;> cases h
    exact .inr (.inl ⟨by simp, by simp, by simp, P.gate, rfl⟩)
  · obtain ⟨⟨g, r⟩, -, h⟩ := Option.map_eq_some_iff.mp h
    cases h
    exact .inr (.inr ⟨_, rfl, rfl, g, rfl⟩)
  · cases h

/-- A step of `waitFor` is a step at the gate of the pacer, or its caller has that gate. -/
theorem waitFor_roles (h : P.waitFor now c p pc a = some (P', pc')) :
    (pc.role = .queued ∧ ∃ a r, P.gate.step c.done p a = some (P'.gate, r) ∧ pc'.role = r.role) ∨
    (pc.role = .owner ∧ pc'.role = .owner ∧ P'.gate = P.gate) ∨
    (pc.role = .owner ∧ pc'.role = .out ∧
      ∃ r, P.gate.step c.done p .release = some (P'.gate, r)) := by
  unfold waitFor at h
  split at h
  · obtain ⟨⟨g, r⟩, hg, h⟩ := Option.map_eq_some_iff.mp h
    cases h
    refine .inl ⟨rfl, _, r, hg, ?_⟩
    cases r <;> rfl
  · cases h
    refine .inr (.inl ⟨rfl, ?_, rfl⟩)
    split <;> rfl
  · split at h <;> cases h <;> exact .inr (.inl ⟨rfl, rfl, rfl⟩)
  · split at h <;> cases h <;> exact .inr (.inl ⟨rfl, rfl, rfl⟩)
  · split at h <;> cases h
    exact .inr (.inl ⟨rfl, rfl, rfl⟩)
  · split at h <;> cases h
    exact .inr (.inl ⟨rfl, rfl, rfl⟩)
  · split at h <;> cases h
    exact .inr (.inl ⟨rfl, rfl, rfl⟩)
  · obtain ⟨⟨g, r⟩, hg, h⟩ := Option.map_eq_some_iff.mp h
    cases h
    exact .inr (.inr ⟨rfl, rfl, r, hg⟩)
  · cases h

omit [DecidableEq π] in
theorem blockFor_blockedUntil (P : Pacer π) (now d : Int) :
    (P.blockFor now d).blockedUntil = max P.blockedUntil (now + max d minimumRetryDelay) := by
  simp only [blockFor]
  split
  · exact (max_eq_right (le_of_lt ‹_›)).symm
  · exact (max_eq_left (not_lt.mp ‹_›)).symm

omit [DecidableEq π] in
theorem retryAfter_eq_max (P : Pacer π) (now : Int) :
    P.retryAfter now = max 0 (P.blockedUntil - now) := by
  unfold retryAfter
  split <;> omega

omit [DecidableEq π] in
theorem blocked_eq_false : P.blocked now = false ↔ P.blockedUntil ≤ now := by
  simp only [blocked, retryAfter_eq_max, decide_eq_false_iff_not, not_lt]
  omega

omit [DecidableEq π] in
@[simp] theorem blockFor_next (P : Pacer π) (now d : Int) : (P.blockFor now d).next = P.next := by
  unfold blockFor
  simp only
  split <;> rfl

omit [DecidableEq π] in
@[simp] theorem blockFor_interval (P : Pacer π) (now d : Int) :
    (P.blockFor now d).interval = P.interval := by
  unfold blockFor
  simp only
  split <;> rfl

theorem second_le_pacingInterval {limit : Nat} (h : 0 < limit) :
    Duration.second ≤ limit * pacingInterval limit := by
  have hl : (0 : Int) < limit := by exact_mod_cast h
  have hs := Duration.second_eq
  have hd := Int.emod_add_mul_ediv (Duration.second + limit - 1) limit
  have hm := Int.emod_lt_of_pos (Duration.second + limit - 1) hl
  have hi : 0 ≤ (Duration.second + limit - 1) / (limit : Int) :=
    Int.ediv_nonneg (by omega) (by omega)
  have hq : 0 ≤ (Duration.second + limit - 1) / (limit : Int) / globalPacingSlack :=
    Int.ediv_nonneg hi (by decide)
  have := Int.mul_nonneg (Int.le_of_lt hl) hq
  rw [pacingInterval, Int.mul_add]
  omega

theorem pacingInterval_nonneg (limit : Nat) : 0 ≤ pacingInterval limit := by
  have hs := Duration.second_eq
  have hi : 0 ≤ (Duration.second + limit - 1) / (limit : Int) :=
    Int.ediv_nonneg (by omega) (by omega)
  have hq : 0 ≤ (Duration.second + limit - 1) / (limit : Int) / globalPacingSlack :=
    Int.ediv_nonneg hi (by decide)
  unfold pacingInterval
  simp only
  omega

end Pacer

end NirnProxy
