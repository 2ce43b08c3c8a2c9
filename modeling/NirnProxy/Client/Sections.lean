import NirnProxy.Client.Admission

/-! The critical sections of `clientsMu`: whose they are, and that whoever is in one can leave it
without waiting for anybody. -/

universe u v

namespace NirnProxy

namespace ClientAction

variable {π : Type u} {κ : Type v}

/-- The steps in the critical sections of `clientsMu` after their first. -/
def internal : ClientAction π κ → Bool
  | .cap | .read _ | .visited | .clear | .delete | .create | .begin | .touch => true
  | .tick _ | .client _ | .sweepClients _ | .op _ _ | .endActive _ | .endTouch _
  | .sweepBucket _ _ | .sweepAlias _ _ => false

def sweeping (i : Nat) : ClientAction π κ → Bool
  | .sweepBucket j _ | .sweepAlias j _ => i == j
  | _ => false

/-- The first steps of the critical sections of `clientsMu`. -/
def locks : ClientAction π κ → Bool
  | .client _ | .sweepClients _ => true
  | _ => false

def aside : ClientAction π κ → Bool
  | .tick _ | .op _ _ | .sweepBucket _ _ | .sweepAlias _ _ => true
  | _ => false

variable {a : ClientAction π κ} {i : Nat}

theorem aside_of_sweeping (h : a.sweeping i = true) : a.aside = true := by
  cases a <;> first | rfl | cases h

theorem internal_of_aside (h : a.aside = true) : a.internal = false := by
  cases a <;> first | rfl | cases h

theorem locks_of_aside (h : a.aside = true) : a.locks = false := by
  cases a <;> first | rfl | cases h

end ClientAction

namespace ClientsMu

variable {π : Type u} {κ : Type v}

def isFree : ClientsMu π κ → Bool
  | .free => true
  | _ => false

theorem eq_free {mu : ClientsMu π κ} (h : mu.isFree = true) : mu = .free := by
  cases mu with
  | free => rfl
  | cap | search | create | begin | touch => cases h

def swept : ClientsMu π κ → Bool
  | .search ⟨.sweepBots, _, _, _, _⟩ | .search ⟨.sweepBearers, _, _, _, _⟩ => true
  | _ => false

def creates : ClientsMu π κ → Bool
  | .create _ => true
  | _ => false

end ClientsMu

theorem ClientRun.step_now {π : Type u} {κ : Type v} [DecidableEq π] [DecidableEq κ]
    {cfg : ClientConfig π κ} {s t : ClientRun π κ} {a : ClientAction π κ}
    (hs : s.step cfg a = some t) : s.now ≤ t.now := by
  cases a with
  | tick d =>
    cases hs
    simp only
    omega
  | visited =>
    simp only [step] at hs
    split at hs
    · cases hs
      unfold ClientRun.visited
      split <;> exact Int.le_refl _
    · cases hs
  | read r =>
    simp only [step] at hs
    split at hs
    · obtain ⟨S, -, rfl⟩ := Option.map_eq_some_iff.mp hs
      exact Int.le_refl _
    · cases hs
  | _ =>
    simp only [step] at hs
    repeat' split at hs
    all_goals first
      | cases hs; exact Int.le_refl _
      | cases hs

def ClientRun.takes {π : Type u} {κ : Type v} (s : ClientRun π κ) : ClientAction π κ → Option Nat
  | .op p o =>
    match s.phase p with
    | .active i => if o.locks then some i else none
    | _ => none
  | .read (.idle _) =>
    match s.mu with
    | .search ⟨_, _, _, _, .idle _ i .rlock⟩ => some i
    | _ => none
  | .clear =>
    match s.mu with
    | .search ⟨_, _, _, _, .clear _ i⟩ => some i
    | _ => none
  | _ => none

def SearchFor.sweeps {π : Type u} {κ : Type v} : SearchFor π κ → Bool
  | .sweepBots | .sweepBearers => true
  | .bearers _ | .all _ => false

theorem ClientsMu.swept_search {π : Type u} {κ : Type v} (S : IdleSearch π κ) :
    (ClientsMu.search S).swept = S.purpose.sweeps := by
  obtain ⟨purpose, now, left, oldest, pc⟩ := S
  cases purpose <;> rfl

theorem SearchFor.sweeps_charge {π : Type u} {κ : Type v} (f : SearchFor π κ) (n : Int) :
    (f.charge n).sweeps = f.sweeps := by
  cases f <;> rfl

theorem IdleSearch.read_purpose {π : Type u} {κ : Type v} [DecidableEq κ] {S S' : IdleSearch π κ}
    {states : Nat → ClientState π} {maps : ClientMaps κ} {r : SearchRead κ}
    (h : S.read states maps r = some S') : S'.purpose = S.purpose := by
  cases r with
  | visit id =>
    simp only [IdleSearch.read] at h
    split at h
    · obtain ⟨-, h⟩ := Option.ite_none_right_eq_some.mp h
      obtain ⟨i, -, rfl⟩ := Option.map_eq_some_iff.mp h
      rfl
    · cases h
  | idle choice =>
    simp only [IdleSearch.read] at h
    split at h
    · obtain ⟨o, -, rfl⟩ := Option.map_eq_some_iff.mp h
      split
      · rfl
      · rfl
      · unfold IdleSearch.found
        split <;> rfl
    · cases h
  | candidate =>
    simp only [IdleSearch.read] at h
    split at h <;> cases h
    rfl
  | compare =>
    simp only [IdleSearch.read] at h
    split at h <;> cases h
    split <;> rfl

namespace ClientRun

variable {π : Type u} {κ : Type v} [DecidableEq π] [DecidableEq κ] {cfg : ClientConfig π κ}
  {s t : ClientRun π κ} {a : ClientAction π κ}

/-- What the steps outside the critical sections of `clientsMu` leave alone. -/
structure Outside (s t : ClientRun π κ) : Prop where
  mu : t.mu = s.mu
  maps : t.maps = s.maps
  tables : ∀ i, s.rlocked i = true → (t.states i).table = (s.states i).table

omit [DecidableEq π] [DecidableEq κ] in
theorem outside_state {i : Nat} {st : ClientState π} (hmu : t.mu = s.mu) (hmaps : t.maps = s.maps)
    (hst : t.states = Function.update s.states i st)
    (htable : s.rlocked i = true → st.table = (s.states i).table) : s.Outside t := by
  refine ⟨hmu, hmaps, fun j hj => ?_⟩
  rw [hst]
  by_cases hji : j = i
  · subst hji
    rw [Function.update_self]
    exact htable hj
  · rw [Function.update_of_ne hji]

theorem step_outside (hi : a.internal = false) (hl : a.locks = false)
    (hs : s.step cfg a = some t) : s.Outside t := by
  cases a with
  | client p => cases hl
  | sweepClients now => cases hl
  | cap | read r | visited | clear | delete | create | begin | touch => cases hi
  | tick d =>
    cases hs
    exact ⟨rfl, rfl, fun _ _ => rfl⟩
  | op p o =>
    simp only [step] at hs
    split at hs
    · rename_i i hp
      split at hs <;> cases hs
      rename_i hlock
      refine outside_state (i := i) rfl rfl rfl fun hr => ?_
      cases o with
      | bucket routeHash => simp [ClientOp.locks, hr] at hlock
      | learnBucket routeHash canonical current => simp [ClientOp.locks, hr] at hlock
      | acquire b | touch b | leave b | blockUntil b readyAt | blockFor delay => rfl
    · cases hs
  | endActive p =>
    simp only [step] at hs
    split at hs <;> cases hs
    exact outside_state rfl rfl rfl fun _ => rfl
  | endTouch p =>
    simp only [step] at hs
    split at hs <;> cases hs
    exact outside_state rfl rfl rfl fun _ => rfl
  | sweepBucket i hash =>
    simp only [step] at hs
    split at hs
    · cases hs
    · rename_i hlock
      obtain ⟨-, hs⟩ := Option.ite_none_right_eq_some.mp hs
      cases hs
      exact outside_state rfl rfl rfl fun hr => absurd hr hlock
  | sweepAlias i route =>
    simp only [step] at hs
    split at hs
    · cases hs
    · rename_i hlock
      obtain ⟨-, hs⟩ := Option.ite_none_right_eq_some.mp hs
      cases hs
      exact outside_state rfl rfl rfl fun hr => absurd hr hlock

theorem client_mu {p : π} (hs : s.step cfg (.client p) = some t) :
    s.mu = .free ∧ t.mu.swept = false ∧ t.maps = s.maps := by
  simp only [step] at hs
  split at hs
  · rename_i hmu _
    split at hs
    · cases hs
      exact ⟨hmu, rfl, rfl⟩
    · split at hs <;> cases hs <;> exact ⟨hmu, rfl, rfl⟩
  · cases hs

theorem sweepClients_mu {now : Int} (hs : s.step cfg (.sweepClients now) = some t) :
    s.mu = .free ∧ t = { s with mu := .search ⟨.sweepBots, now, s.maps.botKeys, none, .next⟩ } := by
  simp only [step] at hs
  split at hs
  · rename_i hmu
    obtain ⟨-, hs⟩ := Option.ite_none_right_eq_some.mp hs
    cases hs
    exact ⟨hmu, rfl⟩
  · cases hs

theorem step_swept (hi : a.internal = true) (hs : s.step cfg a = some t) :
    (t.mu.swept = true → s.mu.swept = true) ∧
      (s.mu.swept = true → t.mu.swept = true ∨ t.mu.isFree = true) := by
  have no {P : Prop} : false = true → P := fun h => absurd h Bool.false_ne_true
  cases a with
  | tick d | client p | sweepClients now | op p o | endActive p | endTouch p | sweepBucket i hash
  | sweepAlias i route => cases hi
  | cap =>
    simp only [step] at hs
    split at hs
    · rename_i hmu
      rw [hmu]
      split at hs <;> cases hs <;> exact ⟨no, no⟩
    · cases hs
  | read r =>
    simp only [step] at hs
    split at hs
    · rename_i S hmu
      obtain ⟨S', hr, rfl⟩ := Option.map_eq_some_iff.mp hs
      rw [hmu, ClientsMu.swept_search, ClientsMu.swept_search, IdleSearch.read_purpose hr]
      exact ⟨id, .inl⟩
    · cases hs
  | visited =>
    simp only [step] at hs
    split at hs
    · rename_i purpose now oldest hmu
      cases hs
      rw [hmu, ClientsMu.swept_search]
      cases purpose with
      | sweepBots => exact ⟨fun _ => rfl, fun _ => .inl rfl⟩
      | sweepBearers => exact ⟨fun _ => rfl, fun _ => .inr rfl⟩
      | bearers A | all A => cases oldest <;> exact ⟨no, no⟩
    · cases hs
  | clear =>
    simp only [step] at hs
    split at hs
    · rename_i hmu
      cases hs
      rw [hmu, ClientsMu.swept_search, ClientsMu.swept_search, SearchFor.sweeps_charge]
      exact ⟨id, .inl⟩
    · cases hs
  | delete =>
    simp only [step] at hs
    split at hs
    · rename_i purpose now left oldest id i hmu
      cases hs
      rw [hmu, ClientsMu.swept_search]
      cases purpose with
      | bearers A | all A => exact ⟨no, no⟩
      | sweepBots | sweepBearers => exact ⟨fun _ => rfl, fun _ => .inl rfl⟩
    · cases hs
  | create =>
    simp only [step] at hs
    split at hs
    · rename_i hmu
      cases hs
      rw [hmu]
      exact ⟨no, no⟩
    · cases hs
  | begin =>
    simp only [step] at hs
    split at hs
    · rename_i hmu
      cases hs
      rw [hmu]
      exact ⟨no, no⟩
    · cases hs
  | touch =>
    simp only [step] at hs
    split at hs
    · rename_i hmu
      cases hs
      rw [hmu]
      exact ⟨no, no⟩
    · cases hs

end ClientRun

/-- The critical sections that there are when the maps are empty and no request comes in. -/
inductive Drained {π : Type u} {κ : Type v} : ClientsMu π κ → Prop
  | free : Drained .free
  | bots (now : Int) : Drained (.search ⟨.sweepBots, now, [], none, .next⟩)
  | bearers (now : Int) : Drained (.search ⟨.sweepBearers, now, [], none, .next⟩)

theorem Drained.rlocked {π : Type u} {κ : Type v} {s : ClientRun π κ} (h : Drained s.mu) (i : Nat) :
    s.rlocked i = false := by
  unfold ClientRun.rlocked
  generalize s.mu = mu at h
  cases h <;> rfl

theorem Drained.step {π : Type u} {κ : Type v} [DecidableEq π] [DecidableEq κ]
    {cfg : ClientConfig π κ} {s t : ClientRun π κ} {a : ClientAction π κ} (h : Drained s.mu)
    (hm : s.maps = ⟨∅, ∅⟩) (hi : a.internal = true) (hs : s.step cfg a = some t) :
    Drained t.mu ∧ t.maps = s.maps := by
  have hread : ∀ r, a ≠ .read r := by
    rintro r rfl
    generalize hmu : s.mu = mu at h
    cases h <;> cases r <;> simp [ClientRun.step, IdleSearch.read, hmu] at hs
  have hvisited : a = .visited := by
    generalize hmu : s.mu = mu at h
    cases a with
    | visited => rfl
    | read r => exact absurd rfl (hread r)
    | tick d | client p | sweepClients now | op p o | endActive p | endTouch p | sweepBucket i hash
    | sweepAlias i route => cases hi
    | cap | clear | delete | create | begin | touch =>
      cases h <;> simp [ClientRun.step, hmu] at hs
  subst hvisited
  generalize hmu : s.mu = mu at h
  cases h with
  | free => simp [ClientRun.step, hmu] at hs
  | bots now =>
    simp only [ClientRun.step, hmu] at hs
    cases hs
    refine ⟨?_, rfl⟩
    simp only [ClientRun.visited, hm]
    exact .bearers now
  | bearers now =>
    simp only [ClientRun.step, hmu] at hs
    cases hs
    exact ⟨.free, rfl⟩

end NirnProxy
