import NirnProxy.Client.Bucket
import NirnProxy.Limits.Pacer
import NirnProxy.Signal
import NirnProxy.Transition

/-! Cooldowns of buckets: any number of `wait` calls among `blockUntil` and `merge` calls.  `wait`
is cut at its context check, its critical section, each reading of the clock and its `select`. -/

universe u v

namespace NirnProxy

inductive WaitPc
  | check
  | read
  | elapse (readyAt : Int) (wake : Nat)
  | deadline (readyAt delay : Int) (wake : Nat)
  | arm (readyAt delay : Int) (wake : Nat)
  | sleep (readyAt fires : Int) (wake : Nat)
  | returned (ret : PacerReturn)
  deriving DecidableEq

inductive WaitStep
  | go
  | timer
  | woken
  | done
  deriving DecidableEq

def WaitPc.captured : WaitPc → Option (Int × Nat)
  | .elapse readyAt wake | .deadline readyAt _ wake | .arm readyAt _ wake | .sleep readyAt _ wake =>
    some (readyAt, wake)
  | .check | .read | .returned _ => none

namespace BucketState

variable {π : Type u}

def wait (now : Int) (c : WaitContext) (closes : List Nat) (b : BucketState π) :
    WaitPc → WaitStep → Option WaitPc
  | .check, .go => some (if c.done then .returned (.failed .context) else .read)
  | .read, .go => some (.elapse b.readyAt b.wake)
  | .elapse readyAt wake, .go =>
    let delay := readyAt - now
    some (if delay ≤ 0 then .returned .granted else .deadline readyAt delay wake)
  | .deadline readyAt delay wake, .go =>
    some (if ∃ d ∈ c.deadline, d - now ≤ delay + c.reserve then .returned (.delayed delay)
      else .arm readyAt delay wake)
  | .arm readyAt delay wake, .go => some (.sleep readyAt (now + delay) wake)
  | .sleep _ fires _, .timer => if fires ≤ now then some .check else none
  | .sleep _ _ wake, .woken => if wake ∈ closes then some .check else none
  | .sleep _ _ _, .done => if c.done then some (.returned (.failed .context)) else none
  | _, _ => none

inductive WaitMoves (b : BucketState π) (now : Int) : WaitPc → WaitPc → Prop
  | read : WaitMoves b now .read (.elapse b.readyAt b.wake)
  | ready {readyAt wake} : readyAt ≤ now →
      WaitMoves b now (.elapse readyAt wake) (.returned .granted)
  | early {readyAt wake} : WaitMoves b now (.elapse readyAt wake)
      (.deadline readyAt (readyAt - now) wake)
  | go_on {pc pc'} : (pc ≠ .read ∧ ∀ readyAt wake, pc ≠ .elapse readyAt wake) →
      pc' ≠ .returned .granted → (∀ readyAt wake, pc' ≠ .elapse readyAt wake) →
      (pc'.captured = none ∨ pc'.captured = pc.captured) → WaitMoves b now pc pc'

theorem wait_moves {now : Int} {c : WaitContext} {closes : List Nat} {b : BucketState π}
    {pc pc' : WaitPc} {a : WaitStep} (h : b.wait now c closes pc a = some pc') :
    b.WaitMoves now pc pc' := by
  unfold wait at h
  split at h
  · cases h
    split <;> exact .go_on ⟨by simp, by simp⟩ (by simp) (by simp) (.inl rfl)
  · cases h
    exact .read
  · rename_i readyAt wake
    cases h
    split
    · exact .ready (by omega)
    · exact .early
  · cases h
    split
    · exact .go_on ⟨by simp, by simp⟩ (by simp) (by simp) (.inl rfl)
    · exact .go_on ⟨by simp, by simp⟩ (by simp) (by simp) (.inr rfl)
  · cases h
    exact .go_on ⟨by simp, by simp⟩ (by simp) (by simp) (.inr rfl)
  · obtain ⟨-, h⟩ := Option.ite_none_right_eq_some.mp h
    cases h
    exact .go_on ⟨by simp, by simp⟩ (by simp) (by simp) (.inl rfl)
  · obtain ⟨-, h⟩ := Option.ite_none_right_eq_some.mp h
    cases h
    exact .go_on ⟨by simp, by simp⟩ (by simp) (by simp) (.inl rfl)
  · obtain ⟨-, h⟩ := Option.ite_none_right_eq_some.mp h
    cases h
    exact .go_on ⟨by simp, by simp⟩ (by simp) (by simp) (.inl rfl)
  · cases h

end BucketState

/-- What a party is doing: `wait` on a bucket, `merge` before it has read the other bucket, or
`blockUntil` before its critical section. -/
inductive CoolingPc (β : Type v)
  | idle
  | wait (b : β) (pc : WaitPc)
  | merge (b other : β)
  | extend (b : β) (readyAt : Int)
  deriving DecidableEq

/-- `closes` are the calls of `close` on the channels of each bucket, newest first.  `read` is the
ready time that a call of `wait` read last, and `compared` the clock it was compared with. -/
structure CoolingRun (β : Type v) (π : Type u) where
  clock : Int
  bucketAt : β → BucketState π
  closes : β → List Nat
  context : π → WaitContext
  pc : π → CoolingPc β
  read : π → Int
  compared : π → Int

inductive CoolingAction (β : Type v) (π : Type u)
  | tick (d : Nat)
  | cancel (p : π)
  | wait (p : π) (b : β) (c : WaitContext)
  | merge (p : π) (b other : β)
  | blockUntil (p : π) (b : β) (readyAt : Int)
  | step (p : π) (a : WaitStep)

namespace CoolingRun

variable {β : Type v} {π : Type u} [DecidableEq β] [DecidableEq π]

omit [DecidableEq β] [DecidableEq π] in
def start (maxWaiters : Nat) (clock : Int) : CoolingRun β π where
  clock := clock
  bucketAt := fun _ => .newBucketState maxWaiters clock
  closes := fun _ => []
  context := fun _ => ⟨false, none, 0⟩
  pc := fun _ => .idle
  read := fun _ => 0
  compared := fun _ => 0

def Busy (s : CoolingRun β π) (p : π) : Bool :=
  match s.pc p with
  | .idle | .wait _ (.returned _) => false
  | .wait _ _ | .merge _ _ | .extend _ _ => true

def goto (p : π) (pc : CoolingPc β) (s : CoolingRun β π) : CoolingRun β π :=
  { s with pc := Function.update s.pc p pc }

def note (p : π) (b : β) (s : CoolingRun β π) : WaitPc → CoolingRun β π
  | .read => { s with read := Function.update s.read p (s.bucketAt b).readyAt }
  | .elapse _ _ => { s with compared := Function.update s.compared p s.clock }
  | _ => s

/-- The critical section of `blockUntil`. -/
def extend (b : β) (readyAt : Int) (s : CoolingRun β π) : CoolingRun β π :=
  { s with
    bucketAt := Function.update s.bucketAt b ((s.bucketAt b).blockUntil readyAt)
    closes := if (s.bucketAt b).readyAt < readyAt then
        Function.update s.closes b ((s.bucketAt b).wake :: s.closes b)
      else s.closes }

def partyStep (s : CoolingRun β π) (p : π) (a : WaitStep) : Option (CoolingRun β π) :=
  match s.pc p, a with
  | .wait b pc, a =>
    ((s.bucketAt b).wait s.clock (s.context p) (s.closes b) pc a).map fun pc' =>
      (s.note p b pc).goto p (.wait b pc')
  | .merge b other, .go => some (s.goto p (.extend b (s.bucketAt other).readyAt))
  | .extend b readyAt, .go => some ((s.extend b readyAt).goto p .idle)
  | _, _ => none

def step (s : CoolingRun β π) : CoolingAction β π → Option (CoolingRun β π)
  | .tick d => some { s with clock := s.clock + d }
  | .cancel p =>
    some { s with context := Function.update s.context p { s.context p with done := true } }
  | .wait p b c =>
    if s.Busy p then none
    else some ({ s with context := Function.update s.context p c }.goto p (.wait b .check))
  | .merge p b other => if s.Busy p then none else some (s.goto p (.merge b other))
  | .blockUntil p b readyAt => if s.Busy p then none else some (s.goto p (.extend b readyAt))
  | .step p a => s.partyStep p a

def system (β : Type v) (π : Type u) [DecidableEq β] [DecidableEq π] (maxWaiters : Nat) :
    System (CoolingRun β π) (CoolingAction β π) where
  init s := ∃ clock, s = start maxWaiters clock
  step := step

def signal (s : CoolingRun β π) (b : β) : Signal Int :=
  ⟨(s.bucketAt b).readyAt, (s.bucketAt b).wake, s.closes b⟩

omit [DecidableEq π] in
theorem signal_extend (s : CoolingRun β π) (b : β) (readyAt : Int) (b' : β) :
    (s.extend b readyAt).signal b' =
      if b' = b ∧ (s.bucketAt b).readyAt < readyAt then (s.signal b).publish readyAt
      else s.signal b' := by
  unfold signal extend BucketState.blockUntil
  by_cases hb : b' = b
  · subst hb
    by_cases hlt : (s.bucketAt b').readyAt < readyAt
    · simp [hlt, Signal.publish]
    · simp [hlt]
  · by_cases hlt : (s.bucketAt b).readyAt < readyAt <;> simp [hb, hlt]

structure Inv (s : CoolingRun β π) : Prop where
  tidy : ∀ b, (s.signal b).Tidy
  captured : ∀ p b pc readyAt wake, s.pc p = .wait b pc → pc.captured = some (readyAt, wake) →
    (s.signal b).Captured readyAt wake
  read : ∀ p b readyAt wake, s.pc p = .wait b (.elapse readyAt wake) → s.read p = readyAt
  ready : ∀ p b, s.pc p = .wait b (.returned .granted) → s.read p ≤ s.compared p

variable {s t : CoolingRun β π} {p : π} {b : β}

omit [DecidableEq β] [DecidableEq π] in
theorem start_inv (maxWaiters : Nat) (clock : Int) :
    (start maxWaiters clock : CoolingRun β π).Inv := by
  refine ⟨fun _ => Signal.tidy_new _, ?_, ?_, ?_⟩ <;> intros <;> contradiction

omit [DecidableEq β] in
theorem goto_pc_self (s : CoolingRun β π) (p : π) (pc : CoolingPc β) : (s.goto p pc).pc p = pc :=
  Function.update_self ..

omit [DecidableEq β] in
theorem goto_pc_ne (s : CoolingRun β π) {p q : π} (pc : CoolingPc β) (h : q ≠ p) :
    (s.goto p pc).pc q = s.pc q :=
  Function.update_of_ne h ..

omit [DecidableEq β] in
theorem Inv.move (h : s.Inv) {pc : CoolingPc β} {read compared : π → Int}
    (hread : ∀ q ≠ p, read q = s.read q) (hcompared : ∀ q ≠ p, compared q = s.compared q)
    (hcaptured : ∀ b w readyAt wake, pc = .wait b w → w.captured = some (readyAt, wake) →
      (s.signal b).Captured readyAt wake)
    (helapse : ∀ b readyAt wake, pc = .wait b (.elapse readyAt wake) → read p = readyAt)
    (hready : ∀ b, pc = .wait b (.returned .granted) → read p ≤ compared p) :
    ({ s with read := read, compared := compared }.goto p pc).Inv := by
  refine ⟨h.tidy, fun q b w readyAt wake hq hw => ?_, fun q b readyAt wake hq => ?_,
    fun q b hq => ?_⟩ <;> by_cases hqp : q = p
  · subst hqp
    rw [goto_pc_self] at hq
    exact hcaptured b w readyAt wake hq hw
  · rw [goto_pc_ne _ _ hqp] at hq
    exact h.captured q b w readyAt wake hq hw
  · subst hqp
    rw [goto_pc_self] at hq
    exact helapse b readyAt wake hq
  · rw [goto_pc_ne _ _ hqp] at hq
    exact (hread q hqp).trans (h.read q b readyAt wake hq)
  · subst hqp
    rw [goto_pc_self] at hq
    exact hready b hq
  · rw [goto_pc_ne _ _ hqp] at hq
    have hle := h.ready q b hq
    rw [← hread q hqp, ← hcompared q hqp] at hle
    exact hle

omit [DecidableEq β] in
theorem Inv.goto (h : s.Inv) {pc : CoolingPc β} (hpc : ∀ b w, pc = .wait b w → w = .check) :
    (s.goto p pc).Inv := by
  refine h.move (fun _ _ => rfl) (fun _ _ => rfl) ?_ ?_ ?_
  · intro b w _ _ hw hcaptured
    cases hpc b w hw
    cases hcaptured
  · intro b _ _ hw
    cases hpc b _ hw
  · intro b hw
    cases hpc b _ hw

omit [DecidableEq π] in
theorem Inv.extend (h : s.Inv) (b : β) (readyAt : Int) : (s.extend b readyAt).Inv := by
  refine ⟨fun b' => ?_, fun q b' w v c hq hw => ?_, h.read, h.ready⟩
  · rw [signal_extend]
    split
    · exact (h.tidy b).publish readyAt
    · exact h.tidy b'
  · have hcaptured := h.captured q b' w v c hq hw
    rw [signal_extend]
    split
    · rename_i hb
      exact (hb.1 ▸ hcaptured).publish readyAt
    · exact hcaptured

omit [DecidableEq β] in
theorem Inv.wait (h : s.Inv) {pc pc' : WaitPc} (hp : s.pc p = .wait b pc)
    (hm : (s.bucketAt b).WaitMoves s.clock pc pc') :
    ((s.note p b pc).goto p (.wait b pc')).Inv := by
  cases hm with
  | read =>
    refine h.move (fun q hq => Function.update_of_ne hq ..) (fun _ _ => rfl) ?_ ?_ ?_
    · intro _ _ _ _ hw hcaptured
      cases hw
      cases hcaptured
      exact (s.signal b).captured_current
    · intro _ _ _ hw
      cases hw
      exact Function.update_self ..
    · intro _ hw
      cases hw
  | ready hle =>
    refine h.move (fun _ _ => rfl) (fun q hq => Function.update_of_ne hq ..) ?_ ?_ ?_
    · intro _ _ _ _ hw hcaptured
      cases hw
      cases hcaptured
    · intro _ _ _ hw
      cases hw
    · intro _ _
      rw [h.read p b _ _ hp, Function.update_self]
      exact hle
  | early =>
    refine h.move (fun _ _ => rfl) (fun q hq => Function.update_of_ne hq ..) ?_ ?_ ?_
    · intro _ _ _ _ hw hcaptured
      cases hw
      cases hcaptured
      exact h.captured p b _ _ _ hp rfl
    · intro _ _ _ hw
      cases hw
    · intro _ hw
      cases hw
  | go_on hpc hgranted helapse hcaptured =>
    have hnote : s.note p b pc = s := by
      cases pc with
      | read => exact absurd rfl hpc.1
      | elapse readyAt wake => exact absurd rfl (hpc.2 readyAt wake)
      | _ => rfl
    rw [hnote]
    refine h.move (fun _ _ => rfl) (fun _ _ => rfl) ?_ ?_ ?_
    · intro _ _ _ _ hw hc
      cases hw
      obtain hnone | hsame := hcaptured
      · rw [hnone] at hc
        cases hc
      · exact h.captured p b pc _ _ hp (hsame ▸ hc)
    · intro _ _ _ hw
      cases hw
      exact absurd rfl (helapse _ _)
    · intro _ hw
      cases hw
      exact absurd rfl hgranted

inductive Moves (s : CoolingRun β π) : CoolingRun β π → Prop
  | outside (clock : Int) (context : π → WaitContext) :
      Moves s { s with clock := clock, context := context }
  | turn {p : π} {pc : CoolingPc β} (context : π → WaitContext) :
      (∀ b w, pc = .wait b w → w = .check) →
      Moves s ({ s with context := context }.goto p pc)
  | wait {p : π} {b : β} {pc pc' : WaitPc} :
      s.pc p = .wait b pc → (s.bucketAt b).WaitMoves s.clock pc pc' →
      Moves s ((s.note p b pc).goto p (.wait b pc'))
  | extend {p : π} (b : β) (readyAt : Int) : Moves s ((s.extend b readyAt).goto p .idle)

theorem step_moves {a : CoolingAction β π} (hs : s.step a = some t) : s.Moves t := by
  cases a with
  | tick d =>
    cases hs
    exact .outside _ s.context
  | cancel p =>
    cases hs
    exact .outside s.clock _
  | wait p b c =>
    obtain ⟨-, hs⟩ := Option.ite_none_left_eq_some.mp hs
    cases hs
    refine .turn _ fun b w hw => ?_
    cases hw
    rfl
  | merge p b other =>
    obtain ⟨-, hs⟩ := Option.ite_none_left_eq_some.mp hs
    cases hs
    exact .turn s.context fun _ _ hw => by cases hw
  | blockUntil p b readyAt =>
    obtain ⟨-, hs⟩ := Option.ite_none_left_eq_some.mp hs
    cases hs
    exact .turn s.context fun _ _ hw => by cases hw
  | step p a =>
    simp only [step, partyStep] at hs
    split at hs
    · obtain ⟨pc', hw, hs⟩ := Option.map_eq_some_iff.mp hs
      cases hs
      exact .wait ‹_› (BucketState.wait_moves hw)
    · cases hs
      exact .turn s.context fun _ _ hw => by cases hw
    · cases hs
      exact .extend _ _
    · cases hs

theorem Inv.step (h : s.Inv) {a : CoolingAction β π} (hs : s.step a = some t) : t.Inv := by
  cases step_moves hs with
  | outside clock context => exact ⟨h.tidy, h.captured, h.read, h.ready⟩
  | turn context hpc =>
    have h' : { s with context := context }.Inv := ⟨h.tidy, h.captured, h.read, h.ready⟩
    exact h'.goto hpc
  | wait hp hm => exact h.wait hp hm
  | extend b readyAt => exact (h.extend b readyAt).goto fun _ _ hw => by cases hw

theorem inv_of_reachable {n : Nat} (h : (system β π n).Reachable s) : s.Inv := by
  refine System.Reach.invariant ?_ ?_ h
  · rintro _ ⟨clock, rfl⟩
    exact start_inv n clock
  · intro _ _ _ hi _ hs
    exact hi.step hs

omit [DecidableEq β] in
theorem note_bucketAt (s : CoolingRun β π) (p : π) (b : β) (pc : WaitPc) :
    (s.note p b pc).bucketAt = s.bucketAt := by
  cases pc <;> rfl

omit [DecidableEq π] in
theorem readyAt_le_extend (s : CoolingRun β π) (b : β) (readyAt : Int) (b' : β) :
    (s.bucketAt b').readyAt ≤ ((s.extend b readyAt).bucketAt b').readyAt := by
  by_cases hb : b' = b
  · subst hb
    simp only [extend, Function.update_self, BucketState.blockUntil_readyAt]
    exact le_max_left _ _
  · simp only [extend, Function.update_of_ne hb]
    exact le_refl _

theorem readyAt_le_step {a : CoolingAction β π} (hs : s.step a = some t) (b : β) :
    (s.bucketAt b).readyAt ≤ (t.bucketAt b).readyAt := by
  cases step_moves hs with
  | outside clock context => exact le_refl _
  | turn context hpc => exact le_refl _
  | wait hp hm => rw [goto, note_bucketAt]
  | extend b' readyAt => exact readyAt_le_extend s b' readyAt b

theorem readyAt_le {n : Nat} (h : (system β π n).Leads (fun _ _ => True) s t) (b : β) :
    (s.bucketAt b).readyAt ≤ (t.bucketAt b).readyAt := by
  induction h with
  | refl => exact le_refl _
  | step _ _ hs ih => exact ih.trans (readyAt_le_step hs b)

omit [DecidableEq β] [DecidableEq π] in
theorem Inv.sleep (h : s.Inv) {readyAt fires : Int} {wake : Nat}
    (hp : s.pc p = .wait b (.sleep readyAt fires wake)) (hopen : wake ∉ s.closes b) :
    readyAt = (s.bucketAt b).readyAt :=
  (h.captured p b _ readyAt wake hp rfl).value_eq (h.tidy b) hopen

end CoolingRun

end NirnProxy
