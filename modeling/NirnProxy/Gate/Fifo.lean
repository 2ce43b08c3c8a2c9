import NirnProxy.Gate.Core

/-! Runs of one `fifoGate` under any number of callers.  The run numbers the arrivals and
keeps the numbers in the order in which ownership was granted; `left` holds those whose
caller was cancelled while it was still queued. -/

universe u

namespace NirnProxy

structure GateRun (π : Type u) where
  gate : FifoGate π
  done : π → Bool
  result : π → GateReturn
  next : Nat
  ticket : π → Nat
  granted : List Nat
  left : List Nat

inductive GateAction (π : Type u)
  | cancel (p : π)
  | renew (p : π)
  | call (p : π) (a : GateStep)

namespace GateRun

variable {π : Type u}

def start (maxWaiters : Nat) (done : π → Bool) : GateRun π where
  gate := .newFIFOGate maxWaiters
  done := done
  result := fun _ => .pending
  next := 0
  ticket := fun _ => 0
  granted := []
  left := []

variable [DecidableEq π]

def arrive (s : GateRun π) (p : π) : GateRun π :=
  { s with next := s.next + 1, ticket := Function.update s.ticket p s.next }

def grantFront (s : GateRun π) : GateRun π :=
  match s.gate.waiters with
  | [] => s
  | front :: _ => { s with granted := s.ticket front :: s.granted }

def record (s : GateRun π) (p : π) : GateStep → GateRun π
  | .enter =>
    if s.gate.held = false then { s.arrive p with granted := s.next :: s.granted }
    else if s.gate.maxWaiters ≤ s.gate.waiters.length then s
    else s.arrive p
  | .abandon => if (s.gate.waiter p).element then { s with left := s.ticket p :: s.left } else s
  | .giveBack | .release => s.grantFront
  | .check | .ready | .done => s

def call (s : GateRun π) (p : π) (a : GateStep) : Option (GateRun π) :=
  (s.gate.step (s.done p) p a).map fun x =>
    { s.record p a with gate := x.1, result := Function.update s.result p x.2 }

def step (s : GateRun π) : GateAction π → Option (GateRun π)
  | .cancel p => some { s with done := Function.update s.done p true }
  | .renew p =>
    if s.gate.call p = .out then some { s with done := Function.update s.done p false } else none
  | .call p a => s.call p a

def system (π : Type u) [DecidableEq π] (maxWaiters : Nat) : System (GateRun π) (GateAction π) where
  init s := ∃ done, s = start maxWaiters done
  step := step

structure Ordered (s : GateRun π) : Prop where
  granted : s.granted.Pairwise (· > ·)
  queue : (s.gate.waiters.map s.ticket).Pairwise (· < ·)
  ahead : ∀ k ∈ s.granted, ∀ q ∈ s.gate.waiters, k < s.ticket q
  lt : ∀ k ∈ s.granted, k < s.next
  waiting : ∀ q ∈ s.gate.waiters, s.ticket q < s.next
  left : ∀ k ∈ s.left, k < s.next ∧ k ∉ s.granted ∧ ∀ q ∈ s.gate.waiters, s.ticket q ≠ k
  issued : ∀ k < s.next, k ∈ s.granted ∨ k ∈ s.left ∨ ∃ q ∈ s.gate.waiters, s.ticket q = k
  holder : ∀ p, s.gate.holds p = true → s.granted.head? = some (s.ticket p)

structure Inv (maxWaiters : Nat) (s : GateRun π) : Prop where
  wf : s.gate.Wf
  bound : s.gate.maxWaiters = maxWaiters
  refused : ∀ p e, s.result p = .refused e → s.gate.call p = .out
  ordered : s.Ordered

variable {s t : GateRun π} {p q : π} {a : GateStep} {n : Nat}

omit [DecidableEq π] in
theorem start_inv (done : π → Bool) : (start n done).Inv n := by
  refine ⟨FifoGate.newFIFOGate_wf n, rfl, by simp [start], ?_⟩
  constructor <;> simp [start, FifoGate.newFIFOGate, FifoGate.holds]

theorem arrive_ticket_ne (h : q ≠ p) : (s.arrive p).ticket q = s.ticket q := by
  simp [arrive, h]

theorem arrive_map (h : p ∉ s.gate.waiters) :
    s.gate.waiters.map (s.arrive p).ticket = s.gate.waiters.map s.ticket := by
  apply List.map_congr_left
  intro q hq
  exact arrive_ticket_ne fun e => h (e ▸ hq)

omit [DecidableEq π] in
theorem Ordered.frame (h : s.Ordered) {g : FifoGate π} (hw : g.waiters = s.gate.waiters)
    (hh : ∀ q, g.holds q = s.gate.holds q) (res : π → GateReturn) :
    { s with gate := g, result := res }.Ordered := by
  refine ⟨h.granted, ?_, ?_, h.lt, ?_, ?_, ?_, ?_⟩ <;> simp only [hw, hh]
  · exact h.queue
  · exact h.ahead
  · exact h.waiting
  · exact h.left
  · exact h.issued
  · exact h.holder

omit [DecidableEq π] in
theorem Ordered.done (h : s.Ordered) (d : π → Bool) : { s with done := d }.Ordered :=
  ⟨h.granted, h.queue, h.ahead, h.lt, h.waiting, h.left, h.issued, h.holder⟩

theorem Ordered.take (h : s.Ordered) (wf : s.gate.Wf) (hf : s.gate.held = false)
    (res : π → GateReturn) :
    { s.arrive p with granted := s.next :: s.granted, gate := s.gate.take p
                      result := res }.Ordered := by
  have hw : (s.gate.take p).waiters = [] := wf.idle hf
  have hone : ∀ q, (s.gate.take p).holds q = true → q = p := by
    intro q hq
    by_contra hne
    rw [FifoGate.take, FifoGate.holds_goto_ne _ _ hne] at hq
    simp [wf.held.mpr ⟨q, hq⟩] at hf
  refine ⟨?_, ?_, ?_, ?_, ?_, ?_, ?_, ?_⟩ <;> simp only [hw]
  · exact List.pairwise_cons.mpr ⟨h.lt, h.granted⟩
  · simp
  · simp
  · intro k hk
    obtain rfl | hk := List.mem_cons.mp hk
    · exact Nat.lt_succ_self _
    · exact Nat.lt_succ_of_lt (h.lt k hk)
  · simp
  · intro k hk
    obtain ⟨h1, h2, -⟩ := h.left k hk
    refine ⟨Nat.lt_succ_of_lt h1, ?_, by simp⟩
    simp only [List.mem_cons, not_or]
    exact ⟨Nat.ne_of_lt h1, h2⟩
  · intro k hk
    obtain hk | hk := Nat.lt_succ_iff_lt_or_eq.mp hk
    · obtain h1 | h1 | ⟨q, hq, -⟩ := h.issued k hk
      · exact .inl (List.mem_cons_of_mem _ h1)
      · exact .inr (.inl h1)
      · simp [wf.idle hf] at hq
    · exact .inl (hk ▸ List.mem_cons_self)
  · intro q hq
    rw [hone q hq]
    simp [arrive]

theorem Ordered.pushBack (h : s.Ordered) (wf : s.gate.Wf) (hp : s.gate.call p = .out)
    (res : π → GateReturn) :
    { s.arrive p with gate := s.gate.pushBack p, result := res }.Ordered := by
  have hnm := wf.notMem_of_out hp
  have hno : s.gate.holds p = false := by simp [FifoGate.holds, hp]
  have hw : (s.gate.pushBack p).waiters = s.gate.waiters ++ [p] := rfl
  have hself : (s.arrive p).ticket p = s.next := by simp [arrive]
  have hold : ∀ q ∈ s.gate.waiters, (s.arrive p).ticket q = s.ticket q :=
    fun q hq => arrive_ticket_ne fun e => hnm (e ▸ hq)
  have hlast : ∀ {P : π → Prop}, (∀ q ∈ s.gate.waiters, P q) → P p →
      ∀ q ∈ s.gate.waiters ++ [p], P q := by
    intro P h1 h2 q hq
    obtain hq | hq := List.mem_append.mp hq
    · exact h1 q hq
    · exact List.mem_singleton.mp hq ▸ h2
  refine ⟨h.granted, ?_, ?_, fun k hk => Nat.lt_succ_of_lt (h.lt k hk), ?_, ?_, ?_, ?_⟩ <;>
    simp only [hw]
  · rw [List.map_append, arrive_map hnm, List.pairwise_append]
    refine ⟨h.queue, by simp, ?_⟩
    intro k hk j hj
    obtain ⟨q, hq, rfl⟩ := List.mem_map.mp hk
    rw [List.map_singleton, List.mem_singleton, hself] at hj
    exact hj ▸ h.waiting q hq
  · intro k hk
    exact hlast (fun q hq => hold q hq ▸ h.ahead k hk q hq) (hself ▸ h.lt k hk)
  · exact hlast (fun q hq => hold q hq ▸ Nat.lt_succ_of_lt (h.waiting q hq))
      (hself ▸ Nat.lt_succ_self _)
  · intro k hk
    obtain ⟨h1, h2, h3⟩ := h.left k hk
    exact ⟨Nat.lt_succ_of_lt h1, h2,
      hlast (fun q hq => hold q hq ▸ h3 q hq) (hself ▸ (Nat.ne_of_lt h1).symm)⟩
  · intro k hk
    obtain hk | hk := Nat.lt_succ_iff_lt_or_eq.mp hk
    · obtain h1 | h1 | ⟨q, hq, rfl⟩ := h.issued k hk
      · exact .inl h1
      · exact .inr (.inl h1)
      · exact .inr (.inr ⟨q, List.mem_append_left _ hq, hold q hq⟩)
    · exact .inr (.inr ⟨p, by simp, hk ▸ hself⟩)
  · intro q hq
    rw [FifoGate.holds_pushBack hp] at hq
    have hne : q ≠ p := by
      intro e
      simp [e, hno] at hq
    rw [arrive_ticket_ne hne]
    exact h.holder q hq

omit [DecidableEq π] in
theorem Ordered.ticket_injOn (h : s.Ordered) {x y : π} (hx : x ∈ s.gate.waiters)
    (hy : y ∈ s.gate.waiters) (he : s.ticket x = s.ticket y) : x = y := by
  have hn : (s.gate.waiters.map s.ticket).Nodup := h.queue.imp Nat.ne_of_lt
  exact List.inj_on_of_nodup_map hn hx hy he

theorem Ordered.remove (h : s.Ordered) (wf : s.gate.Wf) (hm : p ∈ s.gate.waiters)
    (res : π → GateReturn) :
    { s with left := s.ticket p :: s.left, gate := s.gate.remove p, result := res }.Ordered := by
  have hw : (s.gate.remove p).waiters = s.gate.waiters.erase p := rfl
  refine ⟨h.granted, ?_, ?_, h.lt, ?_, ?_, ?_, ?_⟩ <;> simp only [hw]
  · exact h.queue.sublist (List.erase_sublist.map _)
  · intro k hk q hq
    exact h.ahead k hk q (List.mem_of_mem_erase hq)
  · intro q hq
    exact h.waiting q (List.mem_of_mem_erase hq)
  · intro k hk
    obtain rfl | hk := List.mem_cons.mp hk
    · refine ⟨h.waiting p hm, fun hg => Nat.lt_irrefl _ (h.ahead _ hg p hm), ?_⟩
      intro q hq he
      have := h.ticket_injOn (List.mem_of_mem_erase hq) hm he
      subst this
      exact wf.nodup.not_mem_erase hq
    · obtain ⟨h1, h2, h3⟩ := h.left k hk
      exact ⟨h1, h2, fun q hq => h3 q (List.mem_of_mem_erase hq)⟩
  · intro k hk
    obtain h1 | h1 | ⟨q, hq, rfl⟩ := h.issued k hk
    · exact .inl h1
    · exact .inr (.inl (List.mem_cons_of_mem _ h1))
    · by_cases hqp : q = p
      · exact .inr (.inl (hqp ▸ List.mem_cons_self))
      · exact .inr (.inr ⟨q, (List.mem_erase_of_ne hqp).mpr hq, rfl⟩)
  · intro q hq
    rw [wf.holds_remove hm] at hq
    exact h.holder q hq

theorem Ordered.release (h : s.Ordered) (wf : s.gate.Wf) (hp : s.gate.holds p = true)
    (res : π → GateReturn) :
    { s.grantFront with gate := s.gate.release.goto p .out, result := res }.Ordered := by
  have hiff := fun q => wf.holds_release (q := q) hp
  have hw : (s.gate.release.goto p .out).waiters = s.gate.waiters.tail := by simp
  cases hq : s.gate.waiters with
  | nil =>
    have hg : s.grantFront = s := by simp [grantFront, hq]
    rw [hg]
    refine ⟨h.granted, ?_, ?_, h.lt, ?_, ?_, ?_, ?_⟩ <;>
      simp only [hw, hq, List.tail_nil, hiff]
    · simp
    · simp
    · simp
    · intro k hk
      obtain ⟨h1, h2, -⟩ := h.left k hk
      exact ⟨h1, h2, by simp⟩
    · intro k hk
      simpa [hq] using h.issued k hk
    · simp
  | cons front rest =>
    have hg : s.grantFront = { s with granted := s.ticket front :: s.granted } := by
      simp [grantFront, hq]
    have hfront : front ∈ s.gate.waiters := by simp [hq]
    have hrest : ∀ q ∈ rest, q ∈ s.gate.waiters := fun q hm => hq ▸ List.mem_cons_of_mem _ hm
    have hqueue := h.queue
    rw [hq, List.map_cons, List.pairwise_cons] at hqueue
    have hlt : ∀ q ∈ rest, s.ticket front < s.ticket q :=
      fun q hm => hqueue.1 _ (List.mem_map_of_mem hm)
    rw [hg]
    refine ⟨?_, ?_, ?_, ?_, ?_, ?_, ?_, ?_⟩ <;> simp only [hw, hq, List.tail_cons, hiff]
    · refine List.pairwise_cons.mpr ⟨?_, h.granted⟩
      exact fun k hk => h.ahead k hk front hfront
    · exact hqueue.2
    · intro k hk q hm
      obtain rfl | hk := List.mem_cons.mp hk
      · exact hlt q hm
      · exact h.ahead k hk q (hrest q hm)
    · intro k hk
      obtain rfl | hk := List.mem_cons.mp hk
      · exact h.waiting front hfront
      · exact h.lt k hk
    · exact fun q hm => h.waiting q (hrest q hm)
    · intro k hk
      obtain ⟨h1, h2, h3⟩ := h.left k hk
      refine ⟨h1, ?_, fun q hm => h3 q (hrest q hm)⟩
      simp only [List.mem_cons, not_or]
      exact ⟨fun e => h3 front hfront e.symm, h2⟩
    · intro k hk
      obtain h1 | h1 | ⟨q, hm, rfl⟩ := h.issued k hk
      · exact .inl (List.mem_cons_of_mem _ h1)
      · exact .inr (.inl h1)
      · rw [hq] at hm
        obtain rfl | hm := List.mem_cons.mp hm
        · exact .inl List.mem_cons_self
        · exact .inr (.inr ⟨q, hm, rfl⟩)
    · intro q he
      simp only [List.head?_cons, Option.some.injEq] at he ⊢
      rw [he]

theorem call_eq_some (hs : s.call p a = some t) :
    ∃ g r, FifoGate.Moves (s.done p) p s.gate a g r ∧ s.gate.step (s.done p) p a = some (g, r) ∧
      t = { s.record p a with gate := g, result := Function.update s.result p r } := by
  obtain ⟨⟨g, r⟩, hg, ht⟩ := Option.map_eq_some_iff.mp hs
  exact ⟨g, r, FifoGate.step_moves hg, hg, ht.symm⟩

theorem Ordered.call (h : s.Ordered) (wf : s.gate.Wf) (hs : s.call p a = some t) : t.Ordered := by
  obtain ⟨g, r, hm, -, rfl⟩ := call_eq_some hs
  cases hm with
  | take hp hf =>
    simp only [record, hf, if_true]
    exact h.take wf hf _
  | full hp hh hl =>
    simp only [record, hh, hl, Bool.true_eq_false, if_true, if_false]
    exact h.frame rfl (fun _ => rfl) _
  | pushBack hp hh hl =>
    simp only [record, hh, Nat.not_le.mpr hl, Bool.true_eq_false, if_false]
    exact h.pushBack wf hp _
  | remove hp he =>
    simp only [record, he, if_true]
    exact h.remove wf ((wf.element p).mpr he) _
  | giveBack hp => exact h.release wf (by simp [FifoGate.holds, hp]) _
  | release hp => exact h.release wf (by simp [FifoGate.holds, hp]) _
  | grant hp hd =>
    exact h.frame (s.gate.goto_waiters p .owner)
      (fun _ => FifoGate.holds_goto_of_took hp (.inl rfl)) _
  | back hp hd =>
    exact h.frame (s.gate.goto_waiters p .giving)
      (fun _ => FifoGate.holds_goto_of_took hp (.inr rfl)) _
  | resume hp hr =>
    exact h.frame (s.gate.goto_waiters p .resumed) (fun _ => wf.holds_resume hp hr) _
  | leave hp hd =>
    exact h.frame (s.gate.goto_waiters p .leaving) (fun _ => FifoGate.holds_leave hp) _
  | passOn hp he =>
    simp only [record, he, Bool.false_eq_true, if_false]
    exact h.frame (s.gate.goto_waiters p .giving) (fun _ => FifoGate.holds_passOn hp he) _

theorem Inv.call (h : s.Inv n) (hs : s.call p a = some t) : t.Inv n := by
  have ho := h.ordered.call h.wf hs
  obtain ⟨g, r, hm, hg, rfl⟩ := call_eq_some hs
  have hcall : ∀ q, q ≠ p → g.call q = s.gate.call q := by
    intro q hq
    cases hm with
    | full => rfl
    | giveBack | release => rw [FifoGate.goto_call_ne _ _ hq, FifoGate.release_call]
    | take | pushBack | remove | grant | back | resume | leave | passOn =>
      exact FifoGate.goto_call_ne _ _ hq
  refine ⟨h.wf.step hg, ?_, ?_, ho⟩
  · rw [← h.bound]
    cases hm with
    | giveBack | release => simp
    | take | full | pushBack | remove | grant | back | resume | leave | passOn => rfl
  · intro q e he
    by_cases hq : q = p
    · subst hq
      simp only [Function.update_self] at he
      cases hm with
      | full hp => exact hp
      | remove | giveBack => exact FifoGate.goto_call_self _ _ _
      | take | pushBack | release | grant | back | resume | leave | passOn => cases he
    · simp only [Function.update_of_ne hq] at he
      rw [hcall q hq]
      exact h.refused q e he

theorem Inv.step {x : GateAction π} (h : s.Inv n) (hs : s.step x = some t) : t.Inv n := by
  cases x with
  | cancel p =>
    cases hs
    exact ⟨h.wf, h.bound, h.refused, h.ordered.done _⟩
  | renew p =>
    simp only [GateRun.step, Option.ite_none_right_eq_some, Option.some.injEq] at hs
    obtain ⟨-, rfl⟩ := hs
    exact ⟨h.wf, h.bound, h.refused, h.ordered.done _⟩
  | call p a => exact h.call hs

theorem inv_of_reachable (h : (system π n).Reachable s) : s.Inv n := by
  refine System.Reach.invariant ?_ ?_ h
  · rintro s ⟨done, rfl⟩
    exact start_inv done
  · intro s x t hi _ hs
    exact hi.step hs

/-- The gate as a cancellation-safe FIFO mutex, in every reachable state: one owner at most,
`held` exactly while there is one, nobody queued at a free gate, a bounded queue; a refused
`acquire` has not kept the gate, and one that had been handed it passed it on; ownership was
granted in the order of arrival, skipping only callers that were cancelled in the queue. -/
theorem fifo_mutex (n : Nat) (s : GateRun π) (h : (system π n).Reachable s) :
    (∀ p q, s.gate.holds p = true → s.gate.holds q = true → p = q) ∧
    (s.gate.held = true ↔ ∃ p, s.gate.holds p = true) ∧
    (s.gate.held = false → s.gate.waiters = []) ∧
    s.gate.waiters.length ≤ n ∧
    (∀ p e, s.result p = .refused e → s.gate.holds p = false) ∧
    (∀ p a t e, (system π n).step s (.call p a) = some t → t.result p = .refused e →
      s.gate.holds p = true →
      s.gate.waiters = [] ∧ t.gate.held = false ∨
        ∃ q rest, s.gate.waiters = q :: rest ∧ t.gate.waiters = rest ∧ t.gate.holds q = true) ∧
    s.granted.Pairwise (· > ·) ∧
    (∀ k ∈ s.granted, ∀ j < k, j ∈ s.granted ∨ j ∈ s.left) ∧
    (∀ j ∈ s.left, j ∉ s.granted) ∧
    (∀ p, s.gate.holds p = true → s.granted.head? = some (s.ticket p)) ∧
    (s.gate.waiters.map s.ticket).Pairwise (· < ·) ∧
    (∀ k ∈ s.granted, ∀ q ∈ s.gate.waiters, k < s.ticket q) := by
  have hi := inv_of_reachable h
  have ho := hi.ordered
  refine ⟨hi.wf.unique, hi.wf.held, hi.wf.idle, hi.bound ▸ hi.wf.bound, ?_, ?_, ho.granted, ?_,
    fun j hj => (ho.left j hj).2.1, ho.holder, ho.queue, ho.ahead⟩
  · intro p e he
    simp [FifoGate.holds, hi.refused p e he]
  · intro p a t e hs he hp
    obtain ⟨g, r, hm, -, rfl⟩ := call_eq_some hs
    simp only [Function.update_self] at he
    have hpass : s.gate.waiters = [] ∧ (s.gate.release.goto p .out).held = false ∨
        ∃ q rest, s.gate.waiters = q :: rest ∧ (s.gate.release.goto p .out).waiters = rest ∧
          (s.gate.release.goto p .out).holds q = true := by
      cases hw : s.gate.waiters with
      | nil => exact .inl ⟨rfl, by simp [FifoGate.release, hw]⟩
      | cons q rest =>
        exact .inr ⟨q, rest, rfl, by simp [hw], (hi.wf.holds_release hp).mpr (by simp [hw])⟩
    cases hm with
    | full hc => simp [FifoGate.holds, hc] at hp
    | remove hc hel => simp [FifoGate.holds, hc, hel] at hp
    | giveBack => exact hpass
    | take | pushBack | release | grant | back | resume | leave | passOn => cases he
  · intro k hk j hj
    obtain h1 | h1 | ⟨q, hq, rfl⟩ := ho.issued j (Nat.lt_trans hj (ho.lt k hk))
    · exact .inl h1
    · exact .inr h1
    · exact absurd (ho.ahead k hk q hq) (Nat.not_lt.mpr (Nat.le_of_lt hj))

/-- Three callers at a gate that holds two waiters; the first is released after the second
has been cancelled, and the third is the one that gets the gate. -/
theorem fifo_mutex_skips_cancelled :
    ∃ s, (system Nat 2).run (start 2 fun _ => false)
        [.call 0 .enter, .call 0 .check, .call 1 .enter, .call 2 .enter, .cancel 1,
          .call 1 .done, .call 1 .abandon, .call 0 .release] = some s ∧
      s.left = [1] ∧ s.gate.holds 2 = true ∧ s.granted.head? = some (s.ticket 2) := by
  generalize hrun : (system Nat 2).run (start 2 fun _ => false) _ = result
  have hresult : result.map (fun s => (s.left, s.gate.holds 2)) = some ([1], true) := by
    rw [← hrun]
    rfl
  obtain ⟨s, rfl, he⟩ := Option.map_eq_some_iff.mp hresult
  obtain ⟨hl, hh⟩ := Prod.mk.inj he
  have hr : (system Nat 2).Reachable s := System.Reachable.run (.init ⟨_, rfl⟩) hrun
  exact ⟨s, rfl, hl, hh, (fifo_mutex 2 s hr).2.2.2.2.2.2.2.2.2.1 2 hh⟩

end GateRun

end NirnProxy
