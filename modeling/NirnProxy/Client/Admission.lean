import NirnProxy.Client.State
import NirnProxy.Counting

/-! The client table: `Proxy.client`, `evictOldestIdle` and `sweepClients` under `clientsMu`,
with `begin`, `end` and the reads of `idle` as single atomic steps.  Requests that are using a
state change it while another call is reading it. -/

universe u v

namespace NirnProxy

structure Identity (κ : Type v) where
  kind : AuthType
  key : κ
  deriving DecidableEq

structure ClientMaps (κ : Type v) where
  bots : AList fun _ : κ => Nat
  bearers : AList fun _ : κ => Nat

namespace ClientMaps

variable {κ : Type v} [DecidableEq κ]

/-- The state of requests without credentials is in neither map. -/
def noAuth : Nat := 0

def lookup (m : ClientMaps κ) (id : Identity κ) : Option Nat :=
  match id.kind with
  | .none => some noAuth
  | .bot => m.bots.lookup id.key
  | .bearer => m.bearers.lookup id.key

def insert (m : ClientMaps κ) (id : Identity κ) (i : Nat) : ClientMaps κ :=
  match id.kind with
  | .none => m
  | .bot => { m with bots := m.bots.insert id.key i }
  | .bearer => { m with bearers := m.bearers.insert id.key i }

def erase (m : ClientMaps κ) (id : Identity κ) : ClientMaps κ :=
  match id.kind with
  | .none => m
  | .bot => { m with bots := m.bots.erase id.key }
  | .bearer => { m with bearers := m.bearers.erase id.key }

def indices (m : ClientMaps κ) : List Nat :=
  m.bots.entries.map (·.2) ++ m.bearers.entries.map (·.2)

def botKeys (m : ClientMaps κ) : List (Identity κ) := m.bots.keys.map (⟨.bot, ·⟩)

def bearerKeys (m : ClientMaps κ) : List (Identity κ) := m.bearers.keys.map (⟨.bearer, ·⟩)

def bearerCount (m : ClientMaps κ) : Nat := m.bearers.keys.length

def total (m : ClientMaps κ) : Nat := m.bots.keys.length + m.bearers.keys.length

variable {m : ClientMaps κ} {id id' : Identity κ} {i : Nat}

theorem kind_ne_none (h : m.lookup id = none) : id.kind ≠ .none := by
  intro hk
  simp [lookup, hk] at h

theorem lookup_insert_self (h : id.kind ≠ .none) : (m.insert id i).lookup id = some i := by
  cases hk : id.kind <;> simp_all [lookup, insert]

theorem lookup_insert_ne (h : id' ≠ id) : (m.insert id i).lookup id' = m.lookup id' := by
  obtain ⟨k, x⟩ := id
  obtain ⟨k', x'⟩ := id'
  cases k <;> cases k' <;> simp_all [lookup, insert, AList.lookup_insert_ne]

theorem lookup_erase_ne (h : id' ≠ id) : (m.erase id).lookup id' = m.lookup id' := by
  obtain ⟨k, x⟩ := id
  obtain ⟨k', x'⟩ := id'
  cases k <;> cases k' <;> simp_all [lookup, erase, AList.lookup_erase_ne]

theorem lookup_of_lookup_erase {j : Nat} (h : (m.erase id).lookup id' = some j) :
    m.lookup id' = some j := by
  by_cases hid : id' = id
  · subst hid
    cases hk : id'.kind <;> simp_all [lookup, erase]
  · rwa [lookup_erase_ne hid] at h

theorem total_insert_le : (m.insert id i).total ≤ m.total + 1 := by
  unfold total insert
  cases id.kind <;> simp only [AList.keys_insert, List.length_cons] <;>
    have := List.length_erase_le (a := id.key) (l := m.bots.keys) <;>
    have := List.length_erase_le (a := id.key) (l := m.bearers.keys) <;> omega

theorem bearerCount_insert_le :
    (m.insert id i).bearerCount ≤ m.bearerCount + if id.kind = .bearer then 1 else 0 := by
  unfold bearerCount insert
  cases id.kind <;> simp only [AList.keys_insert, List.length_cons]
  case bearer =>
    have := List.length_erase_le (a := id.key) (l := m.bearers.keys)
    simp only [if_true]
    omega
  all_goals omega

theorem total_erase (h : m.lookup id = some i) (hk : id.kind ≠ .none) :
    (m.erase id).total + 1 = m.total := by
  unfold total erase
  unfold lookup at h
  cases hkind : id.kind with
  | none => exact absurd hkind hk
  | bot =>
    simp only [hkind] at h ⊢
    have := length_keys_erase_of_mem (mem_of_lookup_eq_some h)
    omega
  | bearer =>
    simp only [hkind] at h ⊢
    have := length_keys_erase_of_mem (mem_of_lookup_eq_some h)
    omega

theorem bearerCount_erase_le : (m.erase id).bearerCount ≤ m.bearerCount := by
  unfold bearerCount erase
  cases id.kind <;> simp only [AList.keys_erase] <;>
    have := List.length_erase_le (a := id.key) (l := m.bearers.keys) <;> omega

theorem bearerCount_erase (h : m.lookup id = some i) (hk : id.kind = .bearer) :
    (m.erase id).bearerCount + 1 = m.bearerCount := by
  unfold bearerCount erase
  unfold lookup at h
  simp only [hk] at h ⊢
  have := length_keys_erase_of_mem (mem_of_lookup_eq_some h)
  omega

end ClientMaps

structure ClientConfig (π : Type u) (κ : Type v) where
  identity : π → Identity κ
  maxBearerClients : Nat
  maxClientStates : Nat
  maxBucketStates : Nat
  maxQueueDepth : Nat
  globalLimit : Identity κ → Nat

/-- A request between its admission and its `end`, which first decrements `active` and then
touches the state; the times are those of the two steps. -/
inductive RequestPhase
  | new
  | calling
  | beginning (i : Nat)
  | active (i : Nat)
  | ending (i : Nat) (time : Int)
  | ended (i : Nat) (time : Int)
  | refused
  deriving DecidableEq

structure Admission (π : Type u) (κ : Type v) where
  request : π
  before : ClientMaps κ
  evicted : Nat
  released : Int

structure ClientReturn (π : Type u) (κ : Type v) where
  call : Admission π κ
  tooManyClients : Bool
  after : ClientMaps κ

inductive SearchFor (π : Type u) (κ : Type v)
  | bearers (call : Admission π κ)
  | all (call : Admission π κ)
  | sweepBots
  | sweepBearers

inductive SearchPc (κ : Type v)
  | next
  | idle (id : Identity κ) (i : Nat) (pc : IdlePc)
  | candidate (id : Identity κ) (i : Nat)
  | compare (id : Identity κ) (i : Nat) (lastUsed : Int)
  | clear (id : Identity κ) (i : Nat)
  | delete (id : Identity κ) (i : Nat)

structure IdleSearch (π : Type u) (κ : Type v) where
  purpose : SearchFor π κ
  now : Int
  left : List (Identity κ)
  oldest : Option (Identity κ × Nat)
  pc : SearchPc κ

inductive ClientsMu (π : Type u) (κ : Type v)
  | free
  | cap (call : Admission π κ)
  | search (S : IdleSearch π κ)
  | create (call : Admission π κ)
  | begin (call : Admission π κ) (i : Nat)
  | touch (call : Admission π κ) (i : Nat)

inductive ClientOp
  | bucket (routeHash : UInt64)
  | acquire (b : Nat)
  | touch (b : Nat)
  | leave (b : Nat)
  | blockUntil (b : Nat) (readyAt : Int)
  | blockFor (delay : Int)
  | learnBucket (routeHash canonical : UInt64) (current : Nat)
  deriving DecidableEq

inductive SearchRead (κ : Type v)
  | visit (id : Identity κ)
  | idle (choice : Option UInt64)
  | candidate
  | compare

inductive ClientAction (π : Type u) (κ : Type v)
  | tick (d : Nat)
  | client (p : π)
  | sweepClients (now : Int)
  | cap
  | read (r : SearchRead κ)
  | visited
  | clear
  | delete
  | create
  | begin
  | touch
  | op (p : π) (o : ClientOp)
  | endActive (p : π)
  | endTouch (p : π)
  | sweepBucket (i : Nat) (hash : UInt64)
  | sweepAlias (i : Nat) (route : UInt64)

structure ClientRun (π : Type u) (κ : Type v) where
  now : Int
  states : Nat → ClientState π
  fresh : Nat
  maps : ClientMaps κ
  mu : ClientsMu π κ
  phase : π → RequestPhase
  slots : ResourceBudget
  returned : List (ClientReturn π κ)

namespace ClientState

variable {π : Type u}

def apply (now : Int) (slots : ResourceBudget) (s : ClientState π) :
    ClientOp → ClientState π × ResourceBudget
  | .bucket routeHash =>
    match s.bucketSlow now routeHash slots with
    | none => (s, slots)
    | some (s, slots, _) => (s, slots)
  | .acquire b => (s.onBucket b (.addActive 1), slots)
  | .touch b => (s.onBucket b (.touch now), slots)
  | .leave b => (s.onBucket b (.addActive (-1)), slots)
  | .blockUntil b readyAt => (s.onBucket b (·.blockUntil readyAt), slots)
  | .blockFor delay => ({ s with global := s.global.blockFor now delay }, slots)
  | .learnBucket routeHash canonical current =>
    let (s, slots, _) := s.learnBucket routeHash canonical current slots
    (s, slots)

theorem apply_counters (now : Int) (slots : ResourceBudget) (s : ClientState π) (o : ClientOp) :
    (s.apply now slots o).1.active = s.active ∧ (s.apply now slots o).1.lastUsed = s.lastUsed := by
  cases o with
  | bucket routeHash =>
    simp only [apply, bucketSlow]
    split
    · exact ⟨rfl, rfl⟩
    · rename_i hs
      split at hs
      · cases hs
        exact ⟨rfl, rfl⟩
      · obtain ⟨slots, -, hs⟩ := Option.map_eq_some_iff.mp hs
        cases hs
        exact ⟨rfl, rfl⟩
  | learnBucket routeHash canonical current =>
    simp only [apply, learnBucket]
    split
    · exact ⟨rfl, rfl⟩
    · simp only
      split <;> exact ⟨rfl, rfl⟩
  | acquire b | touch b | leave b | blockUntil b readyAt | blockFor delay => exact ⟨rfl, rfl⟩

end ClientState

namespace ClientOp

/-- The critical sections that write the maps exclude the bucket loop of `idle`. -/
def locks : ClientOp → Bool
  | .bucket _ | .learnBucket _ _ _ => true
  | .acquire _ | .touch _ | .leave _ | .blockUntil _ _ | .blockFor _ => false

end ClientOp

namespace IdleSearch

variable {π : Type u} {κ : Type v}

/-- The candidate is idle.  A sweep removes it at once, an admission keeps the oldest. -/
def found (S : IdleSearch π κ) (id : Identity κ) (i : Nat) : IdleSearch π κ :=
  match S.purpose, S.oldest with
  | .sweepBots, _ | .sweepBearers, _ => { S with pc := .clear id i }
  | .bearers _, none | .all _, none => { S with oldest := some (id, i), pc := .next }
  | .bearers _, some _ | .all _, some _ => { S with pc := .candidate id i }

variable [DecidableEq κ]

/-- One read of a search.  The range statement yields entries that are still there. -/
def read (S : IdleSearch π κ) (states : Nat → ClientState π) (maps : ClientMaps κ) :
    SearchRead κ → Option (IdleSearch π κ)
  | .visit id =>
    match S.pc with
    | .next =>
      if id ∈ S.left then
        (maps.lookup id).map fun i =>
          { S with left := S.left.erase id, pc := .idle id i .global }
      else none
    | _ => none
  | .idle choice =>
    match S.pc with
    | .idle id i pc =>
      ((states i).idleStep S.now choice pc).map fun
        | .inl pc => { S with pc := .idle id i pc }
        | .inr false => { S with pc := .next }
        | .inr true => S.found id i
    | _ => none
  | .candidate =>
    match S.pc with
    | .candidate id i => some { S with pc := .compare id i (states i).lastUsed }
    | _ => none
  | .compare =>
    match S.pc, S.oldest with
    | .compare id i lastUsed, some (_, o) =>
      some (if lastUsed < (states o).lastUsed then { S with oldest := some (id, i), pc := .next }
        else { S with pc := .next })
    | _, _ => none

end IdleSearch

namespace SearchFor

variable {π : Type u} {κ : Type v}

def charge (size : Int) : SearchFor π κ → SearchFor π κ
  | .bearers A => .bearers { A with released := A.released + size }
  | .all A => .all { A with released := A.released + size }
  | .sweepBots => .sweepBots
  | .sweepBearers => .sweepBearers

end SearchFor

namespace IdleSearch

variable {π : Type u} {κ : Type v}

def deleted (S : IdleSearch π κ) : ClientsMu π κ :=
  match S.purpose with
  | .bearers A => .cap { A with evicted := A.evicted + 1 }
  | .all A => .create { A with evicted := A.evicted + 1 }
  | .sweepBots | .sweepBearers => .search { S with oldest := none, pc := .next }

end IdleSearch

namespace ClientRun

variable {π : Type u} {κ : Type v}

def start (cfg : ClientConfig π κ) (now : Int) : ClientRun π κ where
  now := now
  states := fun _ => .newClientState .none discordGlobalLimit cfg.maxQueueDepth now
  fresh := 1
  maps := ⟨∅, ∅⟩
  mu := .free
  phase := fun _ => .new
  slots := .newResourceBudget cfg.maxBucketStates
  returned := []

/-- The read lock of state `i` is held by the bucket loop of `idle`. -/
def rlocked (s : ClientRun π κ) (i : Nat) : Bool :=
  match s.mu with
  | .search ⟨_, _, _, _, .idle _ j (.buckets _)⟩ => i == j
  | .search ⟨_, _, _, _, .idle _ j (.blocked _ _)⟩ => i == j
  | _ => false

def onState (i : Nat) (f : ClientState π → ClientState π) (s : ClientRun π κ) : ClientRun π κ :=
  { s with states := Function.update s.states i (f (s.states i)) }

variable [DecidableEq π]

def goto (p : π) (ph : RequestPhase) (s : ClientRun π κ) : ClientRun π κ :=
  { s with phase := Function.update s.phase p ph }

def visited (s : ClientRun π κ) (S : IdleSearch π κ) : ClientRun π κ :=
  match S.purpose, S.oldest with
  | .sweepBots, _ =>
    { s with mu := .search ⟨.sweepBearers, S.now, s.maps.bearerKeys, none, .next⟩ }
  | .sweepBearers, _ => { s with mu := .free }
  | .bearers _, some (id, i) | .all _, some (id, i) =>
    { s with mu := .search { S with pc := .clear id i } }
  | .bearers A, none | .all A, none =>
    { s with mu := .free, returned := ⟨A, true, s.maps⟩ :: s.returned }.goto A.request .refused

variable [DecidableEq κ]

def step (cfg : ClientConfig π κ) (s : ClientRun π κ) :
    ClientAction π κ → Option (ClientRun π κ)
  | .tick d => some { s with now := s.now + d }
  | .client p =>
    match s.mu, s.phase p with
    | .free, .new =>
      let A : Admission π κ := ⟨p, s.maps, 0, 0⟩
      match s.maps.lookup (cfg.identity p) with
      | some i => some ({ s with mu := .begin A i }.goto p .calling)
      | none =>
        if (cfg.identity p).kind = .bearer ∧ cfg.maxBearerClients ≤ s.maps.bearerCount then
          some ({ s with mu := .search ⟨.bearers A, s.now, s.maps.bearerKeys, none, .next⟩ }.goto
            p .calling)
        else some ({ s with mu := .cap A }.goto p .calling)
    | _, _ => none
  | .cap =>
    match s.mu with
    | .cap A =>
      if cfg.maxClientStates ≤ s.maps.total then
        let left := s.maps.botKeys ++ s.maps.bearerKeys
        some { s with mu := .search ⟨.all A, s.now, left, none, .next⟩ }
      else some { s with mu := .create A }
    | _ => none
  | .sweepClients now =>
    match s.mu with
    | .free =>
      if now ≤ s.now then
        some { s with mu := .search ⟨.sweepBots, now, s.maps.botKeys, none, .next⟩ }
      else none
    | _ => none
  | .read r =>
    match s.mu with
    | .search S => (S.read s.states s.maps r).map fun S => { s with mu := .search S }
    | _ => none
  | .visited =>
    match s.mu with
    | .search ⟨purpose, now, [], oldest, .next⟩ =>
      some (s.visited ⟨purpose, now, [], oldest, .next⟩)
    | _ => none
  | .clear =>
    match s.mu with
    | .search ⟨purpose, now, left, oldest, .clear id i⟩ =>
      let (st, slots) := (s.states i).clear s.slots
      some { s with states := Function.update s.states i st, slots := slots
                    mu := .search ⟨purpose.charge (s.states i).table.size, now, left, oldest,
                            .delete id i⟩ }
    | _ => none
  | .delete =>
    match s.mu with
    | .search ⟨purpose, now, left, oldest, .delete id i⟩ =>
      some { s with maps := s.maps.erase id
                    mu := IdleSearch.deleted ⟨purpose, now, left, oldest, .delete id i⟩ }
    | _ => none
  | .create =>
    match s.mu with
    | .create A =>
      let id := cfg.identity A.request
      let st := .newClientState id.kind (cfg.globalLimit id) cfg.maxQueueDepth s.now
      some { s with states := Function.update s.states s.fresh st, fresh := s.fresh + 1
                    maps := s.maps.insert id s.fresh, mu := .begin A s.fresh }
    | _ => none
  | .begin =>
    match s.mu with
    | .begin A i =>
      some (({ s with mu := .touch A i }.onState i (.addActive 1)).goto A.request (.beginning i))
    | _ => none
  | .touch =>
    match s.mu with
    | .touch A i =>
      some (({ s with mu := .free, returned := ⟨A, false, s.maps⟩ :: s.returned }.onState i
        (.touch s.now)).goto A.request (.active i))
    | _ => none
  | .op p o =>
    match s.phase p with
    | .active i =>
      if o.locks && s.rlocked i then none
      else
        let (st, slots) := (s.states i).apply s.now s.slots o
        some { s with states := Function.update s.states i st, slots := slots }
    | _ => none
  | .endActive p =>
    match s.phase p with
    | .active i => some ((s.onState i (.addActive (-1))).goto p (.ending i s.now))
    | _ => none
  | .endTouch p =>
    match s.phase p with
    | .ending i _ => some ((s.onState i (.touch s.now)).goto p (.ended i s.now))
    | _ => none
  | .sweepBucket i hash =>
    if s.rlocked i then none
    else if hash ∈ (s.states i).table.buckets then
      some ({ s with slots := s.slots.release 1 }.onState i fun st =>
        { st with table := st.table.eraseBucket hash })
    else none
  | .sweepAlias i route =>
    if s.rlocked i then none
    else if (s.states i).table.orphan route then
      some ({ s with slots := s.slots.release 1 }.onState i fun st =>
        { st with table := st.table.eraseAlias route })
    else none

def system (cfg : ClientConfig π κ) : System (ClientRun π κ) (ClientAction π κ) where
  init s := ∃ now, s = start cfg now
  step := step cfg

end ClientRun

end NirnProxy
