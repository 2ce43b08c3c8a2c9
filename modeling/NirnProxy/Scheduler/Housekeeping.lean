import NirnProxy.Client.Progress
import NirnProxy.Scheduler.Phases

/-! The sweep of a state and the search under `clientsMu` keep the requests out of the maps for a
while, and need no request to let them in again: what they have still to visit is there. -/

universe u

namespace NirnProxy

variable {π : Type u}

def SweepPc.Present (table : RouteTable) : SweepPc → Prop
  | .next left => left.Nodup ∧ ∀ x ∈ left, x ∈ table.buckets
  | .blocked hash left | .active hash left | .lastUsed hash left =>
    (hash :: left).Nodup ∧ ∀ x ∈ hash :: left, x ∈ table.buckets

def SweepPc.rank : SweepPc → Nat
  | .next left => 4 * left.length
  | .lastUsed _ left => 4 * left.length + 1
  | .active _ left => 4 * left.length + 2
  | .blocked _ left => 4 * left.length + 3

def StateMu.rank : StateMu → Nat
  | .free => 0
  | .sweep _ _ pc => pc.rank + 1

namespace TableMu

def reads : TableMu π → Bool
  | .idle _ (.buckets _) | .idle _ (.blocked _ _) => true
  | .free | .begin _ | .idle _ _ | .chosen _ => false

def rank : TableMu π → Nat
  | .idle _ (.buckets left) => 2 * left.length + 1
  | .idle _ (.blocked _ left) => 2 * left.length + 2
  | .free | .begin _ | .idle _ _ | .chosen _ => 0

theorem reads_of_ne_idle {mu : TableMu π} (h : ∀ now pc, mu ≠ .idle now pc) : mu.reads = false := by
  cases mu with
  | idle now pc => exact absurd rfl (h now pc)
  | _ => rfl

theorem present_of_not_reads {now : Int} {pc : IdlePc} {table : RouteTable}
    (h : (TableMu.idle (π := π) now pc).reads = false) : pc.Present table := by
  cases pc with
  | buckets | blocked => cases h
  | _ => trivial

end TableMu

def SchedulerAction.housekeeping : SchedulerAction π → Bool
  | .sweepStep _ | .evictStep _ => true
  | _ => false

theorem SchedulerAction.mover_of_housekeeping {a : SchedulerAction π}
    (h : a.housekeeping = true) : a.mover = none := by
  cases a with
  | trip => cases h
  | _ => rfl

namespace SchedulerRun

structure Present (s : SchedulerRun π) : Prop where
  sweep : ∀ now n pc, s.mu = .sweep now n pc →
    pc.Present s.client.table ∧ s.tableMu.reads = false
  idle : ∀ now pc, s.tableMu = .idle now pc → pc.Present s.client.table

/-- A request changes the maps only under the write lock, and takes no part in a search. -/
structure Outside (s t : SchedulerRun π) : Prop where
  mu_eq : t.mu = s.mu
  done_eq : t.done = s.done
  table : t.client.table = s.client.table ∨ s.writable = true
  tableMu : t.tableMu = s.tableMu ∨ ∀ now pc, t.tableMu ≠ .idle now pc

variable {cfg : SchedulerConfig π} {s t : SchedulerRun π} {p : π} {h : Held}

theorem writable_iff : s.writable = true ↔ s.mu = .free ∧ s.tableMu.reads = false := by
  simp only [writable, readable, Bool.and_eq_true, beq_iff_eq]
  refine and_congr_right fun _ => ?_
  cases s.tableMu with
  | idle now pc => cases pc <;> simp [TableMu.reads]
  | _ => simp [TableMu.reads]

theorem readable_iff : s.readable = true ↔ s.mu = .free := beq_iff_eq

variable [DecidableEq π]

theorem trip_outside {a : TripAction} (hs : s.tripStep cfg p a = some t) : s.Outside t := by
  obtain ⟨s', pc', hm, rfl⟩ := tripStep_trips hs
  generalize s.pc p = pc at hm
  cases hm with
  | begin | beginTouch => exact ⟨rfl, rfl, .inl rfl, .inr fun _ _ h => by cases h⟩
  | create hw | recheckCreate hw | learn _ hw => exact ⟨rfl, rfl, .inr hw, .inl rfl⟩
  | _ => exact ⟨rfl, rfl, .inl rfl, .inl rfl⟩

omit [DecidableEq π] in
theorem Outside.reads (ho : s.Outside t) (h : s.tableMu.reads = false) :
    t.tableMu.reads = false := by
  obtain he | hne := ho.tableMu
  · rw [he]
    exact h
  · exact TableMu.reads_of_ne_idle hne

omit [DecidableEq π] in
theorem Present.outside (h : s.Present) (ho : s.Outside t) : t.Present := by
  refine ⟨fun now n pc hmu => ?_, fun now pc hmu => ?_⟩
  · rw [ho.mu_eq] at hmu
    obtain ⟨hp, hr⟩ := h.sweep now n pc hmu
    obtain ht | hw := ho.table
    · exact ⟨ht ▸ hp, ho.reads hr⟩
    · cases hmu.symm.trans (mu_of_writable hw)
  · obtain he | hne := ho.tableMu
    · rw [he] at hmu
      obtain ht | hw := ho.table
      · exact ht ▸ h.idle now pc hmu
      · have hr := (writable_iff.mp hw).2
        rw [hmu] at hr
        exact TableMu.present_of_not_reads hr
    · exact absurd hmu (hne now pc)

omit [DecidableEq π] in
theorem bucket_of_present {hash : UInt64} {left : List UInt64}
    (h : ∀ x ∈ hash :: left, x ∈ s.client.table.buckets) :
    ∃ b, s.client.bucketUnder hash = some b :=
  ClientRun.bucketUnder_of_mem (h hash List.mem_cons_self)

omit [DecidableEq π] in
theorem Present.present_sweep {now n : Int} {pc : SweepPc} (h : s.Present)
    (hmu : s.mu = .sweep now n pc) (htable : t.tableMu = s.tableMu)
    (hpc : ∀ now' n' pc', t.mu = .sweep now' n' pc' → pc'.Present t.client.table) : t.Present := by
  have hr := (h.sweep now n pc hmu).2
  refine ⟨fun now' n' pc' ht => ⟨hpc now' n' pc' ht, htable ▸ hr⟩, fun now' pc' ht => ?_⟩
  rw [htable] at ht
  rw [ht] at hr
  exact TableMu.present_of_not_reads hr

omit [DecidableEq π] in
theorem Present.sweepStep {choice : Option UInt64} (h : s.Present)
    (hs : s.sweepStep choice = some t) : t.Present := by
  unfold SchedulerRun.sweepStep at hs
  split at hs
  · cases hs
  · rename_i now released left hmu
    obtain ⟨hnodup, hmem⟩ := (h.sweep _ _ _ hmu).1
    split at hs
    · obtain ⟨-, hs⟩ := Option.ite_none_right_eq_some.mp hs
      cases hs
      exact h.present_sweep hmu rfl fun now' n' pc' ht => by cases ht
    · rename_i hash
      obtain ⟨hin, hs⟩ := Option.ite_none_right_eq_some.mp hs
      cases hs
      refine h.present_sweep hmu rfl fun now' n' pc' ht => ?_
      cases ht
      refine ⟨List.nodup_cons.mpr ⟨hnodup.not_mem_erase, hnodup.erase hash⟩, fun x hx => ?_⟩
      obtain rfl | hx := List.mem_cons.mp hx
      · exact hmem x hin
      · exact hmem x (List.mem_of_mem_erase hx)
  · rename_i now released hash left hmu
    obtain ⟨hnodup, hmem⟩ := (h.sweep _ _ _ hmu).1
    obtain ⟨b, -, rfl⟩ := Option.map_eq_some_iff.mp hs
    refine h.present_sweep hmu rfl fun now' n' pc' ht => ?_
    cases ht
    split
    · exact ⟨hnodup.of_cons, fun x hx => hmem x (List.mem_cons_of_mem hash hx)⟩
    · exact ⟨hnodup, hmem⟩
  · rename_i now released hash left hmu
    obtain ⟨hnodup, hmem⟩ := (h.sweep _ _ _ hmu).1
    obtain ⟨b, -, rfl⟩ := Option.map_eq_some_iff.mp hs
    refine h.present_sweep hmu rfl fun now' n' pc' ht => ?_
    cases ht
    split
    · exact ⟨hnodup.of_cons, fun x hx => hmem x (List.mem_cons_of_mem hash hx)⟩
    · exact ⟨hnodup, hmem⟩
  · rename_i now released hash left hmu
    obtain ⟨hnodup, hmem⟩ := (h.sweep _ _ _ hmu).1
    obtain ⟨b, -, rfl⟩ := Option.map_eq_some_iff.mp hs
    split
    · refine h.present_sweep hmu rfl fun now' n' pc' ht => ?_
      cases ht
      refine ⟨hnodup.of_cons, fun x hx => AList.mem_erase.mpr ⟨?_, ?_⟩⟩
      · rintro rfl
        exact (List.nodup_cons.mp hnodup).1 hx
      · exact hmem x (List.mem_cons_of_mem hash hx)
    · refine h.present_sweep hmu rfl fun now' n' pc' ht => ?_
      cases ht
      exact ⟨hnodup.of_cons, fun x hx => hmem x (List.mem_cons_of_mem hash hx)⟩

omit [DecidableEq π] in
theorem Present.search (h : s.Present) (hmu : t.mu = s.mu)
    (htable : t.client.table = s.client.table)
    (hr : t.tableMu.reads = true → s.tableMu.reads = true ∨ s.mu = .free)
    (hi : ∀ now pc, t.tableMu = .idle now pc → pc.Present s.client.table) : t.Present := by
  refine ⟨fun now n pc ht => ?_, fun now pc ht => htable ▸ hi now pc ht⟩
  rw [hmu] at ht
  obtain ⟨hp, hout⟩ := h.sweep now n pc ht
  refine ⟨htable ▸ hp, Bool.eq_false_iff.mpr fun hreads => ?_⟩
  obtain hreads | hfree := hr hreads
  · cases hreads.symm.trans hout
  · cases ht.symm.trans hfree

omit [DecidableEq π] in
theorem Present.evictStep {choice : Option UInt64} (h : s.Present)
    (hs : s.evictStep choice = some t) : t.Present := by
  unfold SchedulerRun.evictStep at hs
  split at hs
  · rename_i now pc hmu
    split at hs
    · cases hs
    · rename_i hguard
      obtain ⟨o, ho, rfl⟩ := Option.map_eq_some_iff.mp hs
      split
      · rename_i pc'
        refine h.search rfl rfl (fun hr => ?_) fun now' pc'' ht => ?_
        · -- the read lock is taken at `rlock`, and only there
          cases ClientState.idleStep_moves ho with
          | global | active | lastUsed => cases hr
          | rlock =>
            refine .inr (readable_iff.mp (Bool.eq_true_of_not_eq_false fun hread => ?_))
            exact hguard ⟨rfl, hread⟩
          | buckets | blocked =>
            left
            rw [hmu]
            rfl
        · cases ht
          exact (h.idle now pc hmu).next ho
      · exact h.search rfl rfl (fun hr => by cases hr) fun now' pc'' ht => by cases ht
      · exact h.search rfl rfl (fun hr => by cases hr) fun now' pc'' ht => by cases ht
  · cases hs

theorem Present.step {a : SchedulerAction π} (h : s.Present) (hs : s.step cfg a = some t) :
    t.Present := by
  cases a with
  | tick d | cancel p | others used =>
    cases hs
    exact ⟨h.sweep, h.idle⟩
  | trip p a => exact h.outside (trip_outside hs)
  | sweep now =>
    obtain ⟨⟨hw, -⟩, hs⟩ := Option.ite_none_right_eq_some.mp hs
    cases hs
    refine ⟨fun now' n pc ht => ?_, h.idle⟩
    cases ht
    exact ⟨⟨s.client.table.buckets.keys_nodup, fun x hx => AList.mem_keys.mpr hx⟩,
      (writable_iff.mp hw).2⟩
  | sweepStep choice => exact h.sweepStep hs
  | evict now =>
    simp only [SchedulerRun.step] at hs
    split at hs
    · obtain ⟨-, hs⟩ := Option.ite_none_right_eq_some.mp hs
      cases hs
      refine h.search rfl rfl (fun hr => by cases hr) fun now' pc ht => ?_
      cases ht
      trivial
    · cases hs
  | evictStep choice => exact h.evictStep hs
  | spare =>
    simp only [SchedulerRun.step] at hs
    split at hs <;> cases hs
    exact h.search rfl rfl (fun hr => by cases hr) fun now' pc ht => by cases ht
  | clear =>
    obtain ⟨-, hw, rfl⟩ := step_clear hs
    refine ⟨fun now n pc ht => ?_, fun now pc ht => by cases ht⟩
    have hfree : s.mu = .free := mu_of_writable hw
    cases hfree.symm.trans ht

theorem present_of_reachable (h : (system cfg).Reachable s) : s.Present := by
  refine System.Reach.invariant ?_ (fun s a t ih _ hs => ih.step hs) h
  rintro _ ⟨now, rfl⟩
  refine ⟨fun now n pc h => ?_, fun now pc h => ?_⟩ <;> cases h

omit [DecidableEq π] in
theorem sweep_descends {now n : Int} {pc : SweepPc} (h : s.Present)
    (hmu : s.mu = .sweep now n pc) :
    ∃ choice t, s.sweepStep choice = some t ∧ t.mu.rank < s.mu.rank ∧ t.tableMu = s.tableMu := by
  have hp := (h.sweep now n pc hmu).1
  cases pc with
  | next left =>
    cases left with
    | nil =>
      refine ⟨none, _, by simp only [SchedulerRun.sweepStep, hmu, if_true]; rfl, ?_, ?_⟩
      · rw [hmu]
        exact Nat.succ_pos _
      · rfl
    | cons hash left =>
      refine ⟨some hash, _,
        by simp only [SchedulerRun.sweepStep, hmu, List.mem_cons_self, if_true]; rfl, ?_, ?_⟩
      · simp only [hmu, StateMu.rank, SweepPc.rank, List.erase_cons_head, List.length_cons]
        omega
      · rfl
  | blocked hash left =>
    obtain ⟨b, hb⟩ := bucket_of_present hp.2
    refine ⟨none, _, by simp only [SchedulerRun.sweepStep, hmu, hb, Option.map_some]; rfl, ?_, ?_⟩
    · simp only [hmu, StateMu.rank]
      split <;> simp only [SweepPc.rank] <;> omega
    · rfl
  | active hash left =>
    obtain ⟨b, hb⟩ := bucket_of_present hp.2
    refine ⟨none, _, by simp only [SchedulerRun.sweepStep, hmu, hb, Option.map_some]; rfl, ?_, ?_⟩
    · simp only [hmu, StateMu.rank]
      split <;> simp only [SweepPc.rank] <;> omega
    · rfl
  | lastUsed hash left =>
    obtain ⟨b, hb⟩ := bucket_of_present hp.2
    refine ⟨none, _, by simp only [SchedulerRun.sweepStep, hmu, hb, Option.map_some]; rfl, ?_, ?_⟩
    · split <;> simp only [hmu, StateMu.rank, SweepPc.rank] <;> omega
    · split <;> rfl

omit [DecidableEq π] in
theorem search_descends {now : Int} {pc : IdlePc} (h : s.Present)
    (hmu : s.tableMu = .idle now pc) (hr : s.tableMu.reads = true) :
    ∃ choice t, s.evictStep choice = some t ∧ t.tableMu.rank < s.tableMu.rank ∧ t.mu = s.mu := by
  have hp := h.idle now pc hmu
  have hanswer (choice : Option UInt64) {o : IdlePc ⊕ Bool} (hne : pc ≠ .rlock)
      (ho : s.client.idleStep now choice pc = some o)
      (hlt : ∀ pc', o = .inl pc' →
        (TableMu.idle (π := π) now pc').rank < s.tableMu.rank) (hpos : 0 < s.tableMu.rank) :
      ∃ choice t, s.evictStep choice = some t ∧ t.tableMu.rank < s.tableMu.rank ∧ t.mu = s.mu := by
    refine ⟨choice, _, by
      simp only [SchedulerRun.evictStep, hmu, hne, false_and, if_false, ho, Option.map_some]
      rfl, ?_, ?_⟩
    · obtain pc' | b := o
      · exact hlt pc' rfl
      · cases b <;> exact hpos
    · obtain pc' | b := o
      · rfl
      · cases b <;> rfl
  rw [hmu] at hr
  cases pc with
  | global | active | lastUsed | rlock => cases hr
  | buckets left =>
    have hpos : 0 < s.tableMu.rank := by simp [hmu, TableMu.rank]
    cases left with
    | nil => exact hanswer none (by simp) rfl (by simp) hpos
    | cons hash left =>
      obtain ⟨b, hb⟩ := bucket_of_present hp
      refine hanswer (some hash) (by simp)
        (by simp only [ClientState.idleStep, List.mem_cons_self, if_true, hb, Option.map_some]; rfl)
        (fun pc' ho => ?_) hpos
      split at ho <;> cases ho
      simp [hmu, TableMu.rank]
      omega
  | blocked hash left =>
    have hpos : 0 < s.tableMu.rank := by simp [hmu, TableMu.rank]
    obtain ⟨b, hb⟩ := ClientRun.bucketUnder_of_mem hp.1
    refine hanswer none (by simp)
      (by simp only [ClientState.idleStep, hb, Option.map_some]; rfl) (fun pc' ho => ?_) hpos
    split at ho <;> cases ho
    simp [hmu, TableMu.rank]

theorem lock_frees (cfg : SchedulerConfig π) (h : s.Present) :
    ∃ t, (system cfg).Leads (fun _ a => a.housekeeping = true) s t ∧ t.writable = true := by
  suffices hstep : ∀ s : SchedulerRun π, s.Present → ¬ s.writable = true →
      ∃ t, (system cfg).Leads (fun _ a => a.housekeeping = true) s t ∧ t.Present ∧
        t.mu.rank + t.tableMu.rank < s.mu.rank + s.tableMu.rank by
    obtain ⟨t, hl, -, hw⟩ := System.Leads.of_rank (fun s => s.mu.rank + s.tableMu.rank) hstep h
    exact ⟨t, hl, hw⟩
  intro s h hw
  cases hmu : s.mu with
  | sweep now n pc =>
    obtain ⟨choice, t, hs, hlt, htable⟩ := sweep_descends h hmu
    rw [hmu] at hlt
    refine ⟨t, .step (a := SchedulerAction.sweepStep choice) .refl rfl hs, h.sweepStep hs, ?_⟩
    rw [htable]
    exact Nat.add_lt_add_right hlt _
  | free =>
    have hr : s.tableMu.reads = true :=
      Bool.eq_true_of_not_eq_false fun hr => hw (writable_iff.mpr ⟨hmu, hr⟩)
    cases htable : s.tableMu with
    | idle now pc =>
      obtain ⟨choice, t, hs, hlt, hmu'⟩ := search_descends h htable hr
      rw [htable] at hlt
      refine ⟨t, .step (a := SchedulerAction.evictStep choice) .refl rfl hs, h.evictStep hs, ?_⟩
      rw [hmu', hmu]
      exact Nat.add_lt_add_left hlt _
    | _ =>
      rw [htable] at hr
      cases hr

end SchedulerRun

end NirnProxy
