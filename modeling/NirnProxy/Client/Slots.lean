import Mathlib.Algebra.BigOperators.Group.List.Basic
import Mathlib.Algebra.Order.BigOperators.Group.List
import Mathlib.Algebra.Ring.Int.Defs
import NirnProxy.Client.Budget
import NirnProxy.Client.Table
import NirnProxy.Transition

/-! The shared slot budget over all client states.  Each client has its own lock, so critical
sections of different clients overlap; each is cut between its operation on the shared counter
and its changes of the maps.  Eviction is `clear`, and a client keeps its place in the list. -/

namespace NirnProxy

inductive SlotSection
  | free
  | insert (routeHash : UInt64) (fresh : Nat)
  | learn (plan : LearnPlan)
  | sweep (released : Nat)
  | release (released : Int)
  | clear
  deriving DecidableEq

structure SlotClient where
  table : RouteTable
  pos : SlotSection
  aliasLimit : Bool

inductive SlotOp
  | bucket (routeHash : UInt64) (fresh : Nat)
  | insert
  | learnBucket (routeHash canonical : UInt64) (current : Nat)
  | publish
  | sweep
  | sweepBucket (hash : UInt64)
  | sweepAlias (route : UInt64)
  | sweepDone
  | release
  | clear
  | cleared
  deriving DecidableEq

namespace SlotClient

def new : SlotClient := ⟨.empty, .free, false⟩

/-- One step of a client's critical section; the flag reports a refused reservation. -/
def step (c : SlotClient) (slots : ResourceBudget) :
    SlotOp → Option (SlotClient × ResourceBudget × Bool)
  | .bucket routeHash fresh =>
    if c.pos = .free then
      match c.table.resolve routeHash with
      | some _ => some (c, slots, false)
      | none =>
        match slots.reserve 1 with
        | none => some (c, slots, true)
        | some slots => some ({ c with pos := .insert routeHash fresh }, slots, false)
    else none
  | .insert =>
    match c.pos with
    | .insert routeHash fresh =>
      some ({ c with table := c.table.create routeHash fresh, pos := .free }, slots, false)
    | _ => none
  | .learnBucket routeHash canonical current =>
    if c.pos = .free then
      let plan := c.table.plan routeHash canonical current
      match slots.reserve (plan.additions - plan.removals) with
      | none => some ({ c with aliasLimit := true }, slots, true)
      | some slots => some ({ c with pos := .learn plan }, slots, false)
    else none
  | .publish =>
    match c.pos with
    | .learn plan =>
      some ({ c with table := c.table.publish plan
                     pos := .release (plan.removals - plan.additions) }, slots, false)
    | _ => none
  | .sweep => if c.pos = .free then some ({ c with pos := .sweep 0 }, slots, false) else none
  | .sweepBucket hash =>
    match c.pos with
    | .sweep released =>
      if hash ∈ c.table.buckets then
        some ({ c with
          table := c.table.eraseBucket hash, pos := .sweep (released + 1) }, slots, false)
      else none
    | _ => none
  | .sweepAlias route =>
    match c.pos with
    | .sweep released =>
      if c.table.orphan route then
        some ({ c with
          table := c.table.eraseAlias route, pos := .sweep (released + 1) }, slots, false)
      else none
    | _ => none
  | .sweepDone =>
    match c.pos with
    | .sweep released =>
      if c.table.aliases.keys.any c.table.orphan then none
      else some ({ c with pos := .release released
                          aliasLimit := c.aliasLimit && released == 0 }, slots, false)
    | _ => none
  | .release =>
    match c.pos with
    | .release released => some ({ c with pos := .free }, slots.release released, false)
    | _ => none
  | .clear =>
    if c.pos = .free then some ({ c with pos := .clear }, slots.release c.table.size, false)
    else none
  | .cleared =>
    match c.pos with
    | .clear => some ({ c with table := .empty, pos := .free }, slots, false)
    | _ => none

/-- The slots that the counter holds for a client beyond the entries of its maps. -/
def pending (c : SlotClient) : Int :=
  match c.pos with
  | .free => 0
  | .insert _ _ => 1
  | .learn plan => max (plan.additions - plan.removals) 0
  | .sweep released => released
  | .release released => max released 0
  | .clear => -c.table.size

def load (c : SlotClient) : Int := c.table.size + c.pending

def Sound (c : SlotClient) : Prop :=
  match c.pos with
  | .insert routeHash _ => c.table.resolve routeHash = none
  | .learn plan => ∃ r k b, plan = c.table.plan r k b
  | .free | .sweep _ | .release _ | .clear => True

theorem load_nonneg (c : SlotClient) : 0 ≤ c.load := by
  have := RouteTable.size_nonneg (t := c.table)
  unfold load pending
  split <;> omega

structure Steps (c c' : SlotClient) (slots slots' : ResourceBudget) (refused : Bool) : Prop where
  sound : c'.Sound
  limit : slots'.limit = slots.limit
  le : slots.used ≤ slots.limit → slots'.used ≤ slots'.limit
  load : slots'.used - slots.used = c'.load - c.load
  refused : refused = true → c'.table = c.table ∧ slots' = slots

variable {c c' : SlotClient} {slots slots' : ResourceBudget} {op : SlotOp} {refused : Bool}

theorem Steps.same (h : c'.Sound) (hl : c'.load = c.load) :
    c.Steps c' slots slots false :=
  ⟨h, rfl, id, by rw [hl]; omega, nofun⟩

theorem Steps.refuse (h : c'.Sound) (hl : c'.load = c.load) (ht : c'.table = c.table) :
    c.Steps c' slots slots true :=
  ⟨h, rfl, id, by rw [hl]; omega, fun _ => ⟨ht, rfl⟩⟩

theorem Steps.reserve {size : Int} (h : c'.Sound) (hr : slots.reserve size = some slots')
    (hl : c'.load = c.load + max size 0) : c.Steps c' slots slots' false :=
  ⟨h, ResourceBudget.reserve_limit hr, ResourceBudget.reserve_le hr,
    by rw [ResourceBudget.reserve_used hr, hl]; omega, nofun⟩

theorem Steps.release {size : Int} (h : c'.Sound) (hl : c'.load = c.load - max size 0) :
    c.Steps c' slots (slots.release size) false := by
  have hu : (slots.release size).used = slots.used - max size 0 := ResourceBudget.release_used
  refine ⟨h, by simp, fun hle => ?_, by rw [hu, hl]; omega, nofun⟩
  rw [hu, ResourceBudget.release_limit]
  omega

theorem step_steps (h : c.Sound) (hs : c.step slots op = some (c', slots', refused)) :
    c.Steps c' slots slots' refused := by
  cases op with
  | bucket routeHash fresh =>
    simp only [step, Option.ite_none_right_eq_some] at hs
    obtain ⟨hfree, hs⟩ := hs
    split at hs
    · cases hs
      exact .same h rfl
    · rename_i hnone
      split at hs <;> cases hs
      · exact .refuse h rfl rfl
      · refine .reserve hnone ‹slots.reserve 1 = _› ?_
        simp [load, pending, hfree]
  | insert =>
    simp only [step] at hs
    split at hs <;> cases hs
    rename_i routeHash fresh hpos
    refine .same trivial ?_
    have hnone : c.table.resolve routeHash = none := by simpa [Sound, hpos] using h
    simp only [load, pending, hpos, RouteTable.size_create hnone]
    omega
  | learnBucket routeHash canonical current =>
    simp only [step, Option.ite_none_right_eq_some] at hs
    obtain ⟨hfree, hs⟩ := hs
    split at hs <;> cases hs
    · exact .refuse (by simp [Sound, hfree]) rfl rfl
    · refine .reserve ⟨routeHash, canonical, current, rfl⟩ ‹_› ?_
      simp [load, pending, hfree]
  | publish =>
    simp only [step] at hs
    split at hs <;> cases hs
    rename_i plan hpos
    obtain ⟨r, k, b, rfl⟩ : ∃ r k b, plan = c.table.plan r k b := by simpa [Sound, hpos] using h
    refine .same trivial ?_
    simp only [load, pending, hpos, RouteTable.size_publish]
    omega
  | sweep =>
    simp only [step, Option.ite_none_right_eq_some] at hs
    obtain ⟨hfree, hs⟩ := hs
    cases hs
    exact .same trivial (by simp [load, pending, hfree])
  | sweepBucket hash =>
    simp only [step] at hs
    split at hs
    · rename_i released hpos
      split at hs <;> cases hs
      refine .same trivial ?_
      simp only [load, pending, hpos, RouteTable.size_eraseBucket ‹_›]
      push_cast
      omega
    · cases hs
  | sweepAlias route =>
    simp only [step] at hs
    split at hs
    · rename_i released hpos
      split at hs <;> cases hs
      refine .same trivial ?_
      simp only [load, pending, hpos,
        RouteTable.size_eraseAlias (RouteTable.mem_aliases_of_orphan ‹_›)]
      push_cast
      omega
    · cases hs
  | sweepDone =>
    simp only [step] at hs
    split at hs
    · rename_i released hpos
      split at hs <;> cases hs
      refine .same trivial ?_
      simp only [load, pending, hpos]
      omega
    · cases hs
  | release =>
    simp only [step] at hs
    split at hs <;> cases hs
    rename_i released hpos
    refine .release trivial ?_
    simp only [load, pending, hpos]
    omega
  | clear =>
    simp only [step, Option.ite_none_right_eq_some] at hs
    obtain ⟨hfree, hs⟩ := hs
    cases hs
    have := RouteTable.size_nonneg (t := c.table)
    refine .release trivial ?_
    simp only [load, pending, hfree]
    omega
  | cleared =>
    simp only [step] at hs
    split at hs <;> cases hs
    rename_i hpos
    refine .same trivial ?_
    simp [load, pending, hpos]

end SlotClient

structure SlotRun where
  slots : ResourceBudget
  clients : List SlotClient
  refused : Bool

inductive SlotAction
  | newClient
  | client (i : Nat) (op : SlotOp)
  deriving DecidableEq

namespace SlotRun

def start (maxBucketStates : Nat) : SlotRun where
  slots := .newResourceBudget maxBucketStates
  clients := [.new]
  refused := false

def step (s : SlotRun) : SlotAction → Option SlotRun
  | .newClient => some { s with clients := s.clients ++ [.new], refused := false }
  | .client i op =>
    match s.clients[i]? with
    | none => none
    | some c =>
      (c.step s.slots op).map fun (c', slots, refused) =>
        { slots := slots, clients := s.clients.set i c', refused := refused }

def system (maxBucketStates : Nat) : System SlotRun SlotAction where
  init s := s = start maxBucketStates
  step := step

def total (clients : List SlotClient) : Int := (clients.map SlotClient.load).sum

structure Inv (max : Nat) (s : SlotRun) : Prop where
  limit : s.slots.limit = max
  le : s.slots.used ≤ s.slots.limit
  used : s.slots.used = total s.clients
  sound : ∀ c ∈ s.clients, c.Sound

variable {s t : SlotRun} {max : Nat}

theorem total_set {l : List SlotClient} {i : Nat} {c c' : SlotClient} (h : l[i]? = some c) :
    total (l.set i c') = total l + (c'.load - c.load) := by
  induction l generalizing i with
  | nil => simp at h
  | cons x l ih =>
    cases i with
    | zero =>
      obtain rfl : x = c := by simpa using h
      simp only [total, List.set_cons_zero, List.map_cons, List.sum_cons]
      omega
    | succ i =>
      have := ih (i := i) (by simpa using h)
      simp only [total, List.set_cons_succ, List.map_cons, List.sum_cons] at this ⊢
      omega

theorem total_nonneg (l : List SlotClient) : 0 ≤ total l :=
  List.sum_nonneg fun _ hx => by
    obtain ⟨c, -, rfl⟩ := List.mem_map.mp hx
    exact c.load_nonneg

theorem start_inv : (start max).Inv max := by
  refine ⟨rfl, ?_, rfl, ?_⟩
  · simp [start, ResourceBudget.newResourceBudget]
  · simp [start, SlotClient.new, SlotClient.Sound]

theorem step_client {i : Nat} {op : SlotOp} (h : ∀ c ∈ s.clients, c.Sound)
    (hs : s.step (.client i op) = some t) :
    ∃ c c', s.clients[i]? = some c ∧ t.clients = s.clients.set i c' ∧
      c.Steps c' s.slots t.slots t.refused := by
  simp only [step] at hs
  split at hs
  · cases hs
  · rename_i c hc
    obtain ⟨⟨c', slots, refused⟩, hstep, rfl⟩ := Option.map_eq_some_iff.mp hs
    exact ⟨c, c', hc, rfl, SlotClient.step_steps (h c (List.mem_of_getElem? hc)) hstep⟩

theorem Inv.step {a : SlotAction} (h : s.Inv max) (hs : s.step a = some t) : t.Inv max := by
  cases a with
  | newClient =>
    cases hs
    refine ⟨h.limit, h.le, ?_, ?_⟩
    · simp [total, h.used, SlotClient.load, SlotClient.new, SlotClient.pending]
    · intro c hc
      obtain hc | hc := List.mem_append.mp hc
      · exact h.sound c hc
      · rw [List.mem_singleton.mp hc]
        trivial
  | client i op =>
    obtain ⟨c, c', hc, hset, hst⟩ := step_client h.sound hs
    refine ⟨hst.limit.trans h.limit, hst.le h.le, ?_, ?_⟩
    · have := hst.load
      have := h.used
      rw [hset, total_set hc]
      omega
    · intro d hd
      rw [hset] at hd
      obtain hd | rfl := List.mem_or_eq_of_mem_set hd
      · exact h.sound d hd
      · exact hst.sound

theorem inv_of_reachable (h : (system max).Reachable s) : s.Inv max := by
  refine System.Reach.invariant ?_ ?_ h
  · rintro s rfl
    exact start_inv
  · intro s a t hi _ hs
    exact hi.step hs

/-- Slot accounting: with no critical section under way the counter is the number of entries
in all maps of all clients; it never leaves `0..MaxBucketStates`; and a refused reservation
changes neither a map nor the counter. -/
theorem slot_accounting (maxBucketStates : Nat) (s : SlotRun)
    (h : (system maxBucketStates).Reachable s) :
    ((∀ c ∈ s.clients, c.pos = .free) →
      s.slots.used = (s.clients.map fun c => c.table.size).sum) ∧
    0 ≤ s.slots.used ∧ s.slots.used ≤ maxBucketStates ∧
    (∀ a t, (system maxBucketStates).step s a = some t → t.refused = true →
      t.clients.map (·.table) = s.clients.map (·.table) ∧ t.slots = s.slots) := by
  have hi := inv_of_reachable h
  refine ⟨fun hfree => ?_, ?_, ?_, ?_⟩
  · rw [hi.used, total]
    congr 1
    refine List.map_congr_left fun c hc => ?_
    simp [SlotClient.load, SlotClient.pending, hfree c hc]
  · rw [hi.used]
    exact total_nonneg _
  · exact hi.limit ▸ hi.le
  · intro a t hs href
    cases a with
    | newClient =>
      cases hs
      cases href
    | client i op =>
      obtain ⟨c, c', hc, hset, hst⟩ := step_client hi.sound hs
      obtain ⟨htable, hslots⟩ := hst.refused href
      refine ⟨?_, hslots⟩
      obtain ⟨hlt, hget⟩ := List.getElem?_eq_some_iff.mp hc
      rw [hset, List.map_set, htable]
      apply List.ext_getElem (by simp)
      intro j h1 h2
      by_cases hj : i = j
      · subst hj
        simp [hget]
      · simp [hj]

/-- Two clients share three slots.  The first learns an alias into a vacant canonical bucket;
the second then finds one slot and is refused its next bucket. -/
theorem slot_accounting_refused :
    ∃ s, (system 3).run (start 3)
        [.newClient, .client 0 (.bucket 1 0), .client 0 .insert, .client 0 (.learnBucket 1 9 0),
          .client 0 .publish, .client 0 .release, .client 1 (.bucket 1 1), .client 1 .insert,
          .client 1 (.bucket 2 2)] = some s ∧
      s.refused = true ∧ s.slots.used = (s.clients.map fun c => c.table.size).sum := by
  generalize hrun : (system 3).run (start 3) _ = result
  have hresult : result.map (fun s => (s.refused, s.clients.map (·.pos))) =
      some (true, [.free, .free]) := by
    rw [← hrun]
    decide
  obtain ⟨s, rfl, he⟩ := Option.map_eq_some_iff.mp hresult
  obtain ⟨href, hpos⟩ := Prod.mk.inj he
  have hr : (system 3).Reachable s := System.Reachable.run (.init rfl) hrun
  refine ⟨s, rfl, href, (slot_accounting 3 s hr).1 fun c hc => ?_⟩
  have hm : c.pos ∈ s.clients.map (·.pos) := List.mem_map_of_mem hc
  rw [hpos] at hm
  simpa using hm

end SlotRun

end NirnProxy
