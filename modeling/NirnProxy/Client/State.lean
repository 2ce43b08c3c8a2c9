import NirnProxy.Client.Bucket
import NirnProxy.Client.Budget
import NirnProxy.Client.Table
import NirnProxy.Limits.Pacer

/-! `clientState`: the maps, the bucket objects they name, the pacer and the counters of one
credential, with the effects of its critical sections and the reads of `idle`. -/

universe u

namespace NirnProxy

inductive AuthType
  | bot
  | none
  | bearer
  deriving DecidableEq

inductive Validity
  | unknown
  | valid
  | invalid
  deriving DecidableEq

structure ClientState (π : Type u) where
  table : RouteTable
  bucketAt : Nat → BucketState π
  fresh : Nat
  global : Pacer π
  validation : FifoGate π
  validity : Validity
  active : Int
  lastUsed : Int
  aliasLimit : Bool
  maxWaiters : Nat

/-- Where a call of `clientState.idle` stands; `left` are the map entries not yet ranged over. -/
inductive IdlePc
  | global
  | active
  | lastUsed
  | rlock
  | buckets (left : List UInt64)
  | blocked (hash : UInt64) (left : List UInt64)
  deriving DecidableEq

namespace ClientState

variable {π : Type u}

def newClientState (kind : AuthType) (globalLimit maxWaiters : Nat) (now : Int) :
    ClientState π where
  table := .empty
  bucketAt := fun _ => .newBucketState maxWaiters now
  fresh := 0
  global := .newPacer globalLimit maxWaiters
  validation := .newFIFOGate maxWaiters
  validity := if kind = .none then .valid else .unknown
  active := 0
  lastUsed := now
  aliasLimit := false
  maxWaiters := maxWaiters

def touch (now : Int) (s : ClientState π) : ClientState π := { s with lastUsed := now }

def addActive (n : Int) (s : ClientState π) : ClientState π := { s with active := s.active + n }

def onBucket (b : Nat) (f : BucketState π → BucketState π) (s : ClientState π) : ClientState π :=
  { s with bucketAt := Function.update s.bucketAt b (f (s.bucketAt b)) }

/-- The critical section of `bucket` after its fast path has failed. -/
def bucketSlow (now : Int) (routeHash : UInt64) (slots : ResourceBudget) (s : ClientState π) :
    Option (ClientState π × ResourceBudget × Nat) :=
  match s.table.resolve routeHash with
  | some b => some (s, slots, b)
  | none => (slots.reserve 1).map fun slots =>
    ({ s with table := s.table.create routeHash s.fresh
              bucketAt := Function.update s.bucketAt s.fresh (.newBucketState s.maxWaiters now)
              fresh := s.fresh + 1 }, slots, s.fresh)

/-- The critical section of `learnBucket`, with the bucket it returns. -/
def learnBucket (routeHash canonical : UInt64) (current : Nat) (slots : ResourceBudget)
    (s : ClientState π) : ClientState π × ResourceBudget × Nat :=
  let plan := s.table.plan routeHash canonical current
  match slots.reserve (plan.additions - plan.removals) with
  | none => ({ s with aliasLimit := true }, slots, current)
  | some slots =>
    let merged :=
      if plan.target = current then s
      else s.onBucket plan.target fun b => b.merge (s.bucketAt current)
    ({ merged with table := s.table.publish plan },
      slots.release (plan.removals - plan.additions), plan.target)

def clear (slots : ResourceBudget) (s : ClientState π) : ClientState π × ResourceBudget :=
  ({ s with table := .empty }, slots.release s.table.size)

def bucketUnder (s : ClientState π) (hash : UInt64) : Option (BucketState π) :=
  (s.table.buckets.lookup hash).map s.bucketAt

/-- One read of `idle`: `inl` goes on, `inr` is the answer.  `choice` is the entry that the
range statement yields next. -/
def idleStep (s : ClientState π) (now : Int) (choice : Option UInt64) :
    IdlePc → Option (IdlePc ⊕ Bool)
  | .global => some (if s.global.blocked now then .inr false else .inl .active)
  | .active => some (if s.active ≠ 0 then .inr false else .inl .lastUsed)
  | .lastUsed => some (if now - s.lastUsed ≤ clientIdleTimeout then .inr false else .inl .rlock)
  | .rlock => some (.inl (.buckets s.table.buckets.keys))
  | .buckets [] => some (.inr true)
  | .buckets left =>
    match choice with
    | none => none
    | some hash =>
      if hash ∈ left then
        (s.bucketUnder hash).map fun b =>
          if b.active ≠ 0 then .inr false else .inl (.blocked hash (left.erase hash))
      else none
  | .blocked hash left =>
    (s.bucketUnder hash).map fun b => if b.blocked now then .inr false else .inl (.buckets left)

variable {s s' : ClientState π} {now : Int} {r : UInt64} {slots slots' : ResourceBudget} {b : Nat}

theorem bucketSlow_cases (h : s.bucketSlow now r slots = some (s', slots', b)) :
    (s.table.resolve r = some b ∧ s' = s) ∨
    (s.table.resolve r = none ∧ b = s.fresh ∧
      s' = { s with
        table := s.table.create r s.fresh
        bucketAt := Function.update s.bucketAt s.fresh (.newBucketState s.maxWaiters now)
        fresh := s.fresh + 1 }) := by
  unfold bucketSlow at h
  split at h
  · cases h
    exact .inl ⟨‹_›, rfl⟩
  · obtain ⟨_, _, hs⟩ := Option.map_eq_some_iff.mp h
    cases hs
    exact .inr ⟨‹_›, rfl, rfl⟩

theorem learnBucket_cases {c : UInt64} {current : Nat}
    (h : s.learnBucket r c current slots = (s', slots', b)) :
    s' = { s with aliasLimit := true } ∨
    (s'.table = s.table.publish (s.table.plan r c current) ∧
      s'.bucketAt = (if (s.table.plan r c current).target = current then s.bucketAt
        else Function.update s.bucketAt (s.table.plan r c current).target
          ((s.bucketAt (s.table.plan r c current).target).merge (s.bucketAt current))) ∧
      s'.fresh = s.fresh ∧ s'.active = s.active) := by
  unfold learnBucket at h
  simp only at h
  split at h <;> cases h
  · exact .inl rfl
  · refine .inr ⟨rfl, ?_, ?_, ?_⟩ <;> split <;> rfl

theorem learnBucket_target {c : UInt64} {current : Nat}
    (h : s.learnBucket r c current slots = (s', slots', b)) :
    b = if slots.reserve ((s.table.plan r c current).additions -
        (s.table.plan r c current).removals) = none then current
      else (s.table.plan r c current).target := by
  unfold learnBucket at h
  simp only at h
  split at h <;> cases h
  · rw [if_pos ‹_›]
  · rename_i hroom
    rw [if_neg]
    rw [hroom]
    exact Option.some_ne_none _

theorem learnBucket_frame {c : UInt64} {current : Nat}
    (h : s.learnBucket r c current slots = (s', slots', b)) :
    s'.validity = s.validity ∧ s'.validation = s.validation ∧ s'.global = s.global := by
  unfold learnBucket at h
  simp only at h
  split at h <;> cases h
  · exact ⟨rfl, rfl, rfl⟩
  · refine ⟨?_, ?_, ?_⟩ <;> split <;> rfl

inductive IdleMoves (s : ClientState π) (now : Int) : IdlePc → IdlePc → Prop
  | global : s.global.blockedUntil ≤ now → IdleMoves s now .global .active
  | active : s.active = 0 → IdleMoves s now .active .lastUsed
  | lastUsed : clientIdleTimeout < now - s.lastUsed → IdleMoves s now .lastUsed .rlock
  | rlock : IdleMoves s now .rlock (.buckets s.table.buckets.keys)
  | buckets {hash left} : IdleMoves s now (.buckets left) (.blocked hash (left.erase hash))
  | blocked {hash left b} : s.table.buckets.lookup hash = some b → (s.bucketAt b).readyAt ≤ now →
      IdleMoves s now (.blocked hash left) (.buckets left)

variable {choice : Option UInt64} {pc pc' : IdlePc}

theorem idleStep_moves (h : s.idleStep now choice pc = some (.inl pc')) :
    s.IdleMoves now pc pc' := by
  unfold idleStep at h
  split at h
  · split at h <;> cases h
    exact .global (Pacer.blocked_eq_false.mp (Bool.eq_false_iff.mpr ‹_›))
  · split at h <;> cases h
    exact .active (not_not.mp ‹_›)
  · split at h <;> cases h
    exact .lastUsed (not_le.mp ‹_›)
  · cases h
    exact .rlock
  · cases h
  · split at h
    · cases h
    · obtain ⟨-, h⟩ := Option.ite_none_right_eq_some.mp h
      obtain ⟨bucket, -, h⟩ := Option.map_eq_some_iff.mp h
      split at h <;> cases h
      exact .buckets
  · obtain ⟨bucket, hb, h⟩ := Option.map_eq_some_iff.mp h
    obtain ⟨b, hl, rfl⟩ := Option.map_eq_some_iff.mp hb
    split at h <;> cases h
    exact .blocked hl (BucketState.blocked_eq_false.mp (Bool.eq_false_iff.mpr ‹_›))

theorem idleStep_true (h : s.idleStep now choice pc = some (.inr true)) : pc = .buckets [] := by
  unfold idleStep at h
  split at h
  · split at h <;> cases h
  · split at h <;> cases h
  · split at h <;> cases h
  · cases h
  · rfl
  · split at h
    · cases h
    · obtain ⟨-, h⟩ := Option.ite_none_right_eq_some.mp h
      obtain ⟨bucket, -, h⟩ := Option.map_eq_some_iff.mp h
      split at h <;> cases h
  · obtain ⟨bucket, -, h⟩ := Option.map_eq_some_iff.mp h
    split at h <;> cases h

end ClientState

end NirnProxy
