import NirnProxy.Client.Caps

/-! When a state is evicted.  `idle` reads `blockedUntil`, `active` and `lastUsed` one after the
other, and `end` decrements `active` before it touches the state: a request that outlived the
idle timeout can be seen as gone and long unused.  Without such a torn `end`, what is evicted is
quiet and unblocked. -/

universe u v

namespace NirnProxy

open scoped Parties

variable {π : Type u} {κ : Type v}

namespace RequestPhase

def isEnding (i : Nat) : RequestPhase → Bool
  | .ending j _ => j == i
  | .new | .calling | .beginning _ | .active _ | .ended _ _ | .refused => false

end RequestPhase

def Busy (phase : π → RequestPhase) (i : Nat) (now : Int) : Prop :=
  ∃ p, (phase p).Uses i ∧ ∀ t, phase p = .ended i t → now ≤ t

def OverBefore (phase : π → RequestPhase) (i : Nat) (limit : Int) : Prop :=
  ∀ p, (phase p).Uses i → ∃ t, phase p = .ended i t ∧ t < limit

namespace ClientState

def Ready (st : ClientState π) (now : Int) (left : UInt64 → Prop) : Prop :=
  ∀ hash b, st.table.buckets.lookup hash = some b → ¬left hash → (st.bucketAt b).readyAt ≤ now

end ClientState

def IdlePc.Knows (states : Nat → ClientState π) (phase : π → RequestPhase) (now : Int) (i : Nat) :
    IdlePc → Prop
  | .global => True
  | .active | .lastUsed => (states i).global.blockedUntil ≤ now ∨ Busy phase i now
  | .rlock => OverBefore phase i (now - clientIdleTimeout) ∧
      (states i).global.blockedUntil ≤ now
  | .buckets left => OverBefore phase i (now - clientIdleTimeout) ∧
      (states i).global.blockedUntil ≤ now ∧ (states i).Ready now (· ∈ left)
  | .blocked hash left => OverBefore phase i (now - clientIdleTimeout) ∧
      (states i).global.blockedUntil ≤ now ∧ (states i).Ready now (fun x => x = hash ∨ x ∈ left)

structure Settled (states : Nat → ClientState π) (phase : π → RequestPhase) (now : Int)
    (i : Nat) : Prop where
  past : OverBefore phase i (now - clientIdleTimeout)
  global : (states i).global.blockedUntil ≤ now
  buckets : (states i).Ready now fun _ => False

namespace SearchPc

def Knows (states : Nat → ClientState π) (phase : π → RequestPhase) (now : Int) :
    SearchPc κ → Prop
  | .next => True
  | .idle _ i pc => pc.Knows states phase now i
  | .candidate _ i | .compare _ i _ | .clear _ i | .delete _ i => Settled states phase now i

end SearchPc

structure IdleSearch.Knows (states : Nat → ClientState π) (phase : π → RequestPhase)
    (S : IdleSearch π κ) : Prop where
  oldest : ∀ id i, S.oldest = some (id, i) → Settled states phase S.now i
  pc : S.pc.Knows states phase S.now

namespace ClientRun

structure Aged (s : ClientRun π κ) : Prop where
  lastUsed : ∀ i, (s.states i).lastUsed ≤ s.now
  ended : ∀ p i t, s.phase p = .ended i t → t ≤ (s.states i).lastUsed
  now : ∀ S, s.mu = .search S → S.now ≤ s.now
  search : ∀ S, s.mu = .search S → S.Knows s.states s.phase

/-- The step reads a `lastUsed` while `end` of request `p` stands between its decrement and its
touch of the same state. -/
def tornEnd (s : ClientRun π κ) (p : π) : ClientAction π κ → Bool
  | .read (.idle _) =>
    match s.mu with
    | .search ⟨_, _, _, _, .idle _ i .lastUsed⟩ => (s.phase p).isEnding i
    | _ => false
  | _ => false

def NoTornEnd (s : ClientRun π κ) (a : ClientAction π κ) : Prop := ∀ p, s.tornEnd p a = false

end ClientRun

section Frame

variable {states states' : Nat → ClientState π} {phase phase' : π → RequestPhase} {now : Int}
  {i : Nat}

theorem Busy.not_over (h : Busy phase i now) (ho : OverBefore phase i (now - clientIdleTimeout)) :
    False := by
  obtain ⟨p, hu, hlt⟩ := h
  obtain ⟨t, ht, hlim⟩ := ho p hu
  have := hlt t ht
  have : (0 : Int) ≤ clientIdleTimeout := by decide
  omega

theorem IdlePc.Knows.busy {pc : IdlePc} (h : pc.Knows states phase now i)
    (hb : Busy phase i now) (hb' : Busy phase' i now) : pc.Knows states' phase' now i := by
  cases pc with
  | global => trivial
  | active => exact .inr hb'
  | lastUsed => exact .inr hb'
  | rlock => exact (hb.not_over h.1).elim
  | buckets left => exact (hb.not_over h.1).elim
  | blocked hash left => exact (hb.not_over h.1).elim

structure Lessens (st st' : ClientState π) : Prop where
  global : st'.global = st.global
  bucketAt : st'.bucketAt = st.bucketAt
  buckets : ∀ hash b, st'.table.buckets.lookup hash = some b →
    st.table.buckets.lookup hash = some b

theorem Lessens.refl (st : ClientState π) : Lessens st st := ⟨rfl, rfl, fun _ _ => id⟩

theorem Lessens.ready {st st' : ClientState π} {left : UInt64 → Prop} (h : Lessens st st')
    (hr : st.Ready now left) : st'.Ready now left := fun hash b hl hn => by
  rw [h.bucketAt]
  exact hr hash b (h.buckets hash b hl) hn

def Agree (phase phase' : π → RequestPhase) (i : Nat) : Prop :=
  ∀ p, (phase p).Uses i ∨ (phase' p).Uses i → phase' p = phase p

theorem Agree.refl (phase : π → RequestPhase) (i : Nat) : Agree phase phase i := fun _ _ => rfl

theorem OverBefore.agree {limit : Int} (h : OverBefore phase i limit) (ha : Agree phase phase' i) :
    OverBefore phase' i limit := fun p hu => by
  have he := ha p (.inr hu)
  rw [he] at hu ⊢
  exact h p hu

theorem Busy.agree (h : Busy phase i now) (ha : Agree phase phase' i) : Busy phase' i now := by
  obtain ⟨p, hu, ht⟩ := h
  refine ⟨p, ?_⟩
  rw [ha p (.inl hu)]
  exact ⟨hu, ht⟩

theorem IdlePc.Knows.lessens {pc : IdlePc} (h : pc.Knows states phase now i)
    (ha : Agree phase phase' i) (hl : Lessens (states i) (states' i)) :
    pc.Knows states' phase' now i := by
  have hg : ∀ {t}, (states i).global.blockedUntil ≤ t → (states' i).global.blockedUntil ≤ t := by
    intro t ht
    rwa [hl.global]
  cases pc with
  | global => trivial
  | active => exact h.imp hg (·.agree ha)
  | lastUsed => exact h.imp hg (·.agree ha)
  | rlock => exact ⟨h.1.agree ha, hg h.2⟩
  | buckets left => exact ⟨h.1.agree ha, hg h.2.1, hl.ready h.2.2⟩
  | blocked hash left => exact ⟨h.1.agree ha, hg h.2.1, hl.ready h.2.2⟩

theorem Settled.lessens (h : Settled states phase now i) (ha : Agree phase phase' i)
    (hl : Lessens (states i) (states' i)) : Settled states' phase' now i := by
  refine ⟨h.past.agree ha, ?_, hl.ready h.buckets⟩
  rw [hl.global]
  exact h.global

/-- A step leaves state `i` to its users: they stay where they are and nothing but buckets goes
away, or there is one who is busy with it. -/
def Leaves (states states' : Nat → ClientState π) (phase phase' : π → RequestPhase) (now : Int)
    (i : Nat) : Prop :=
  Agree phase phase' i ∧ Lessens (states i) (states' i) ∨ Busy phase i now ∧ Busy phase' i now

theorem Settled.leaves (h : Settled states phase now i)
    (hl : Leaves states states' phase phase' now i) : Settled states' phase' now i := by
  obtain ⟨ha, hl⟩ | ⟨hb, -⟩ := hl
  · exact h.lessens ha hl
  · exact (hb.not_over h.past).elim

theorem IdlePc.Knows.leaves {pc : IdlePc} (h : pc.Knows states phase now i)
    (hl : Leaves states states' phase phase' now i) : pc.Knows states' phase' now i := by
  obtain ⟨ha, hl⟩ | ⟨hb, hb'⟩ := hl
  · exact h.lessens ha hl
  · exact h.busy hb hb'

theorem IdleSearch.Knows.leaves {S : IdleSearch π κ} (h : S.Knows states phase)
    (hl : ∀ i, Leaves states states' phase phase' S.now i) : S.Knows states' phase' := by
  refine ⟨fun id i ho => (h.oldest id i ho).leaves (hl i), ?_⟩
  have hpc := h.pc
  cases hS : S.pc with
  | next => trivial
  | idle id i pc =>
    rw [hS] at hpc
    exact IdlePc.Knows.leaves hpc (hl i)
  | candidate id i | compare id i l | clear id i | delete id i =>
    rw [hS] at hpc
    exact Settled.leaves hpc (hl i)

end Frame

section Read

variable {st : ClientState π} {states : Nat → ClientState π} {phase : π → RequestPhase}
  {now : Int} {i : Nat} {choice : Option UInt64} {pc pc' : IdlePc}

/-- Passing the test of `lastUsed` with no torn `end` settles who used the state, and with it
what was read of the pacer before. -/
theorem settled_of_lastUsed (hk : IdlePc.Knows states phase now i .lastUsed)
    (hq : Quiet phase i) (hend : ∀ p, (phase p).isEnding i = false)
    (hlast : ∀ p t, phase p = .ended i t → t ≤ (states i).lastUsed)
    (hold : clientIdleTimeout < now - (states i).lastUsed) :
    IdlePc.Knows states phase now i .rlock := by
  have hover : OverBefore phase i (now - clientIdleTimeout) := by
    intro p hu
    have hn := hq p
    have he := hend p
    cases hp : phase p with
    | ended j t =>
      rw [hp] at hu
      obtain rfl : j = i := hu
      have := hlast p t hp
      exact ⟨t, rfl, by omega⟩
    | ending j t =>
      rw [hp] at hu he
      obtain rfl : j = i := hu
      simp [RequestPhase.isEnding] at he
    | beginning j | active j =>
      rw [hp] at hu hn
      exact (hn hu).elim
    | new | calling | refused =>
      rw [hp] at hu
      exact hu.elim
  exact ⟨hover, hk.resolve_right fun hb => hb.not_over hover⟩

theorem ready_keys (st : ClientState π) (now : Int) : st.Ready now (· ∈ st.table.buckets.keys) :=
  fun _ _ hl hn => (hn (AList.mem_keys.mp (mem_of_lookup_eq_some hl))).elim

theorem IdlePc.Knows.idleStep (hk : pc.Knows states phase now i)
    (hs : (states i).idleStep now choice pc = some (.inl pc'))
    (hq : pc.counted = true → Quiet phase i)
    (hend : pc = .lastUsed → ∀ p, (phase p).isEnding i = false)
    (hlast : ∀ p t, phase p = .ended i t → t ≤ (states i).lastUsed) :
    pc'.Knows states phase now i := by
  cases ClientState.idleStep_moves hs with
  | global hg => exact .inl hg
  | active => exact hk
  | lastUsed hl => exact settled_of_lastUsed hk (hq rfl) (hend rfl) hlast hl
  | rlock => exact ⟨hk.1, hk.2, ready_keys _ _⟩
  | @buckets hash left =>
    refine ⟨hk.1, hk.2.1, fun y b hl hn => hk.2.2 y b hl fun hm => hn ?_⟩
    by_cases hy : y = hash
    · exact .inl hy
    · exact .inr ((List.mem_erase_of_ne hy).mpr hm)
  | @blocked hash left b hb hr =>
    refine ⟨hk.1, hk.2.1, fun y c hl hn => ?_⟩
    by_cases hy : y = hash
    · subst hy
      cases hb.symm.trans hl
      exact hr
    · exact hk.2.2 y c hl fun h => h.elim hy hn

theorem settled_of_idle (hk : pc.Knows states phase now i)
    (hs : (states i).idleStep now choice pc = some (.inr true)) : Settled states phase now i := by
  cases ClientState.idleStep_true hs
  exact ⟨hk.1, hk.2.1, fun y b hl _ => hk.2.2 y b hl List.not_mem_nil⟩

end Read

section Search

variable [DecidableEq κ] {cfg : ClientConfig π κ} {maps : ClientMaps κ}
  {states : Nat → ClientState π} {phase : π → RequestPhase} {S S' : IdleSearch π κ}

omit [DecidableEq κ] in
theorem IdleSearch.Knows.found {id : Identity κ} {i : Nat} (h : S.Knows states phase)
    (hs : Settled states phase S.now i) : (S.found id i).Knows states phase := by
  unfold IdleSearch.found
  split
  all_goals
    first
    | exact ⟨h.oldest, hs⟩
    | refine ⟨?_, trivial⟩
      rintro _ _ ⟨⟩
      exact hs

theorem IdleSearch.Knows.read {r : SearchRead κ} (h : S.Knows states phase)
    (hi : S.Inv cfg maps phase) (hr : S.read states maps r = some S')
    (hend : ∀ choice id i, r = .idle choice → S.pc = .idle id i .lastUsed →
      ∀ p, (phase p).isEnding i = false)
    (hlast : ∀ p i t, phase p = .ended i t → t ≤ (states i).lastUsed) :
    S'.Knows states phase ∧ S'.now = S.now := by
  have hpc := h.pc
  have hipc := hi.pc
  cases r with
  | visit id =>
    simp only [IdleSearch.read] at hr
    split at hr
    · split at hr
      · obtain ⟨i, -, rfl⟩ := Option.map_eq_some_iff.mp hr
        exact ⟨⟨h.oldest, trivial⟩, rfl⟩
      · cases hr
    · cases hr
  | idle choice =>
    simp only [IdleSearch.read] at hr
    split at hr
    · rename_i id i pc hS
      rw [hS] at hpc hipc
      obtain ⟨o, ho, rfl⟩ := Option.map_eq_some_iff.mp hr
      obtain pc' | b := o
      · refine ⟨⟨h.oldest, ?_⟩, rfl⟩
        refine IdlePc.Knows.idleStep hpc ho hipc.2 ?_ fun p t => hlast p i t
        rintro rfl
        exact hend choice id i rfl hS
      · cases b with
        | false => exact ⟨⟨h.oldest, trivial⟩, rfl⟩
        | true =>
          refine ⟨h.found (settled_of_idle hpc ho), ?_⟩
          change (S.found id i).now = S.now
          unfold IdleSearch.found
          split <;> rfl
    · cases hr
  | candidate =>
    simp only [IdleSearch.read] at hr
    split at hr <;> cases hr
    rename_i id i hS
    rw [hS] at hpc
    exact ⟨⟨h.oldest, hpc⟩, rfl⟩
  | compare =>
    simp only [IdleSearch.read] at hr
    split at hr <;> cases hr
    rename_i id i l ido o hS ho
    rw [hS] at hpc
    split
    · refine ⟨⟨?_, trivial⟩, rfl⟩
      rintro _ _ ⟨⟩
      exact hpc
    · exact ⟨⟨h.oldest, trivial⟩, rfl⟩

end Search

namespace ClientRun

variable [DecidableEq π] [DecidableEq κ] {cfg : ClientConfig π κ} {s t : ClientRun π κ}

omit [DecidableEq π] [DecidableEq κ] in
theorem start_aged (now : Int) : (start cfg now).Aged where
  lastUsed _ := le_refl now
  ended := nofun
  now _ hS := by cases hS
  search _ hS := by cases hS

omit [DecidableEq π] [DecidableEq κ] in
theorem Aged.holder (h : s.Aged) (hn : t.now = s.now) (hp : t.phase = s.phase)
    (hl : ∀ i, (t.states i).lastUsed = (s.states i).lastUsed)
    (hmu : ∀ S, t.mu = .search S → S.now ≤ s.now ∧ S.Knows t.states s.phase) : t.Aged where
  lastUsed i := by rw [hl, hn]; exact h.lastUsed i
  ended p i x hx := by
    rw [hp] at hx
    rw [hl]
    exact h.ended p i x hx
  now S hS := by rw [hn]; exact (hmu S hS).1
  search S hS := by rw [hp]; exact (hmu S hS).2

omit [DecidableEq π] [DecidableEq κ] in
theorem Aged.user (h : s.Aged) (hn : t.now = s.now) (hmu : t.mu = s.mu)
    (hl : ∀ i, (s.states i).lastUsed ≤ (t.states i).lastUsed ∧ (t.states i).lastUsed ≤ s.now)
    (he : ∀ p i x, t.phase p = .ended i x → s.phase p = .ended i x ∨ x ≤ (t.states i).lastUsed)
    (hst : ∀ i now, now ≤ s.now → Leaves s.states t.states s.phase t.phase now i) : t.Aged where
  lastUsed i := by rw [hn]; exact (hl i).2
  ended p i x hx := (he p i x hx).elim (fun h' => (h.ended p i x h').trans (hl i).1) id
  now S hS := by rw [hn]; exact h.now S (hmu ▸ hS)
  search S hS := by
    rw [hmu] at hS
    exact (h.search S hS).leaves fun i => hst i S.now (h.now S hS)

omit [DecidableEq π] [DecidableEq κ] in
theorem Aged.restart (h : s.Aged) (hn : t.now = s.now)
    (hl : ∀ i, (t.states i).lastUsed ≤ s.now ∧
      ((s.states i).lastUsed ≤ (t.states i).lastUsed ∨ ∀ p x, t.phase p ≠ .ended i x))
    (he : ∀ p i x, t.phase p = .ended i x → s.phase p = .ended i x)
    (hmu : ∀ S, t.mu = .search S → S.now ≤ s.now ∧ S.oldest = none ∧ S.pc = .next) : t.Aged where
  lastUsed i := by rw [hn]; exact (hl i).1
  ended p i x hx := by
    obtain hle | hno := (hl i).2
    · exact (h.ended p i x (he p i x hx)).trans hle
    · exact (hno p x hx).elim
  now S hS := by rw [hn]; exact (hmu S hS).1
  search S hS := by
    obtain ⟨-, ho, hpc⟩ := hmu S hS
    exact ⟨by simp [ho], by rw [hpc]; trivial⟩

omit [DecidableEq κ] in
theorem ended_goto {p q : π} {ph : RequestPhase} {i : Nat} {x : Int}
    (h : (s.goto p ph).phase q = .ended i x) (hne : ∀ j y, ph ≠ .ended j y) :
    s.phase q = .ended i x := by
  by_cases hq : q = p
  · subst hq
    simp only [ClientRun.goto, Function.update_self] at h
    exact (hne i x h).elim
  · simpa [ClientRun.goto, hq] using h

omit [DecidableEq π] [DecidableEq κ] in
theorem lastUsed_touch (h : s.Aged) (i j : Nat) :
    (s.states j).lastUsed ≤ ((s.onState i (.touch s.now)).states j).lastUsed ∧
      ((s.onState i (.touch s.now)).states j).lastUsed ≤ s.now := by
  by_cases hj : j = i
  · subst hj
    simpa [onState, ClientState.touch] using h.lastUsed j
  · simpa [onState, hj] using h.lastUsed j

theorem Aged.client {p : π} (h : s.Aged) (hs : s.step cfg (.client p) = some t) : t.Aged := by
  simp only [step] at hs
  split at hs
  · have hgo : ∀ mu : ClientsMu π κ,
        (∀ S, mu = .search S → S.now ≤ s.now ∧ S.oldest = none ∧ S.pc = .next) →
        ({ s with mu := mu }.goto p .calling).Aged := fun mu hmu =>
      h.restart rfl (fun i => ⟨h.lastUsed i, .inl (le_refl _)⟩)
        (fun q i x hx => ended_goto (s := { s with mu := mu }) hx (by simp)) hmu
    split at hs
    · cases hs
      exact hgo _ fun _ hS => by cases hS
    · split at hs <;> cases hs
      · refine hgo _ ?_
        rintro S ⟨⟩
        exact ⟨le_refl _, rfl, rfl⟩
      · exact hgo _ fun _ hS => by cases hS
  · cases hs

theorem Aged.visited (h : s.Aged) (hs : s.step cfg .visited = some t) : t.Aged := by
  simp only [step] at hs
  split at hs
  · rename_i f now oldest hmu
    cases hs
    have hle : now ≤ s.now := h.now _ hmu
    have hrefuse : ∀ (A : Admission π κ) (r : List (ClientReturn π κ)),
        ({ s with mu := .free, returned := r }.goto A.request .refused).Aged := fun A r =>
      h.restart rfl (fun i => ⟨h.lastUsed i, .inl (le_refl _)⟩)
        (fun q i x hx => ended_goto (s := { s with mu := .free, returned := r }) hx (by simp))
        fun _ hS => by cases hS
    have hclear : ∀ id i, oldest = some (id, i) →
        ({ s with mu := .search ⟨f, now, [], some (id, i), .clear id i⟩ } :
          ClientRun π κ).Aged := by
      rintro id i rfl
      have hk := h.search _ hmu
      refine h.holder rfl rfl (fun _ => rfl) ?_
      rintro S ⟨⟩
      exact ⟨hle, hk.oldest, hk.oldest id i rfl⟩
    unfold ClientRun.visited
    cases f with
    | sweepBots =>
      refine h.restart rfl (fun i => ⟨h.lastUsed i, .inl (le_refl _)⟩) (fun _ _ _ => id) ?_
      rintro S ⟨⟩
      exact ⟨hle, rfl, rfl⟩
    | sweepBearers =>
      exact h.restart rfl (fun i => ⟨h.lastUsed i, .inl (le_refl _)⟩) (fun _ _ _ => id)
        fun _ hS => by cases hS
    | bearers A | all A =>
      obtain _ | ⟨id, i⟩ := oldest
      · exact hrefuse A _
      · exact hclear id i rfl
  · cases hs

theorem Aged.clear (h : s.Aged) (hs : s.step cfg .clear = some t) : t.Aged := by
  simp only [step] at hs
  split at hs
  · rename_i f now left oldest id i hmu
    cases hs
    have hk := h.search _ hmu
    have hle : now ≤ s.now := h.now _ hmu
    have hl : ∀ j, Lessens (s.states j)
        (Function.update s.states i ((s.states i).clear s.slots).1 j) := fun j => by
      by_cases hj : j = i
      · subst hj
        rw [Function.update_self]
        refine ⟨rfl, rfl, fun hash b hb => ?_⟩
        simp [ClientState.clear, RouteTable.empty] at hb
      · rw [Function.update_of_ne hj]
        exact .refl _
    refine h.holder rfl rfl (fun j => ?_) ?_
    · by_cases hj : j = i
      · subst hj
        simp [ClientState.clear]
      · simp [hj]
    · rintro S ⟨⟩
      refine ⟨hle, fun id j ho => ?_, ?_⟩
      · exact (hk.oldest id j ho).lessens (.refl _ _) (hl j)
      · exact Settled.lessens hk.pc (.refl _ _) (hl i)
  · cases hs

theorem Aged.delete (h : s.Aged) (hs : s.step cfg .delete = some t) : t.Aged := by
  simp only [step] at hs
  split at hs
  · rename_i f now left oldest id i hmu
    cases hs
    refine h.restart rfl (fun i => ⟨h.lastUsed i, .inl (le_refl _)⟩) (fun _ _ _ hx => hx) ?_
    intro S hS
    have hle : now ≤ s.now := h.now _ hmu
    cases f <;> cases hS <;> exact ⟨hle, rfl, rfl⟩
  · cases hs

theorem Aged.create (h : s.Aged) (hi : s.Inv cfg) (hs : s.step cfg .create = some t) :
    t.Aged := by
  simp only [step] at hs
  split at hs
  · cases hs
    refine h.restart rfl (fun i => ?_) (fun _ _ _ => id) fun _ hS => by cases hS
    by_cases hif : i = s.fresh
    · subst hif
      simp only [Function.update_self]
      refine ⟨le_refl _, .inr fun p x hx => ?_⟩
      have hu : (s.phase p).Uses s.fresh := by rw [hx]; rfl
      exact (hi.used p s.fresh hu).ne rfl
    · simp only [Function.update_of_ne hif]
      exact ⟨h.lastUsed i, .inl (le_refl _)⟩
  · cases hs

theorem Aged.begin (h : s.Aged) (hs : s.step cfg .begin = some t) : t.Aged := by
  simp only [step] at hs
  split at hs
  · rename_i A i hmu
    cases hs
    refine h.restart rfl (fun j => ?_) (fun q j x hx => ended_goto (s := s) hx (by simp))
      fun _ hS => by cases hS
    by_cases hj : j = i
    · subst hj
      simpa [ClientRun.goto, onState, ClientState.addActive] using h.lastUsed j
    · simpa [ClientRun.goto, onState, hj] using h.lastUsed j
  · cases hs

theorem Aged.touch (h : s.Aged) (hs : s.step cfg .touch = some t) : t.Aged := by
  simp only [step] at hs
  split at hs
  · rename_i A i hmu
    cases hs
    refine h.restart rfl (fun j => ?_) (fun q j x hx => ended_goto (s := s) hx (by simp))
      fun _ hS => by cases hS
    exact ⟨(lastUsed_touch h i j).2, .inl (lastUsed_touch h i j).1⟩
  · cases hs

omit [DecidableEq π] [DecidableEq κ] in
theorem busy_of_phase {phase : π → RequestPhase} {p : π} {i : Nat} {now : Int}
    (hu : (phase p).Uses i) (ht : ∀ x, phase p = .ended i x → now ≤ x) : Busy phase i now :=
  ⟨p, hu, ht⟩

omit [DecidableEq κ] in
theorem leaves_goto {p : π} {i j : Nat} {f : ClientState π → ClientState π} {ph : RequestPhase}
    {now : Int} (hp : (s.phase p).Uses i) (hne : ∀ x, s.phase p ≠ .ended i x) (hph : ph.Uses i)
    (hnow : ∀ x, ph = .ended i x → now ≤ x) :
    Leaves s.states ((s.onState i f).goto p ph).states s.phase
      ((s.onState i f).goto p ph).phase now j := by
  by_cases hj : j = i
  · subst hj
    refine .inr ⟨busy_of_phase hp fun x hx => (hne x hx).elim, busy_of_phase (p := p) ?_ ?_⟩
    · simpa [ClientRun.goto] using hph
    · intro x hx
      exact hnow x (by simpa [ClientRun.goto] using hx)
  · refine .inl ⟨fun q hq => ?_, ?_⟩
    · by_cases hqp : q = p
      · subst hqp
        have huniq : ∀ ph : RequestPhase, ph.Uses i → ph.Uses j → j = i := fun ph h1 h2 => by
          cases ph <;> first | exact h2.symm.trans h1 | exact h1.elim
        obtain hq | hq := hq
        · exact (hj (huniq _ hp hq)).elim
        · exact (hj (huniq _ hph (by simpa [ClientRun.goto] using hq))).elim
      · simp [ClientRun.goto, onState, hqp]
    · simpa [ClientRun.goto, onState, hj] using Lessens.refl _

theorem Aged.endActive {p : π} (h : s.Aged) (hs : s.step cfg (.endActive p) = some t) :
    t.Aged := by
  simp only [step] at hs
  split at hs
  · rename_i i hp
    cases hs
    refine h.user rfl rfl (fun j => ?_)
      (fun q j x hx => .inl (ended_goto (s := s.onState i _) hx (by simp))) fun j now _ => ?_
    · by_cases hj : j = i
      · subst hj
        simpa [ClientRun.goto, onState, ClientState.addActive] using h.lastUsed j
      · simpa [ClientRun.goto, onState, hj] using h.lastUsed j
    · exact leaves_goto (by rw [hp]; rfl) (by simp [hp]) rfl (fun _ h => by cases h)
  · cases hs

theorem Aged.endTouch {p : π} (h : s.Aged) (hs : s.step cfg (.endTouch p) = some t) :
    t.Aged := by
  simp only [step] at hs
  split at hs
  · rename_i i l hp
    cases hs
    refine h.user rfl rfl (lastUsed_touch h i) (fun q j x hx => ?_) fun j now hn => ?_
    · by_cases hq : q = p
      · subst hq
        simp only [ClientRun.goto, Function.update_self, RequestPhase.ended.injEq] at hx
        obtain ⟨rfl, rfl⟩ := hx
        right
        simp [ClientRun.goto, onState, ClientState.touch]
      · left
        simpa [ClientRun.goto, onState, hq] using hx
    · refine leaves_goto (by rw [hp]; rfl) (by simp [hp]) rfl fun x hx => ?_
      cases hx
      exact hn
  · cases hs

theorem Aged.op {p : π} {o : ClientOp} (h : s.Aged) (hs : s.step cfg (.op p o) = some t) :
    t.Aged := by
  simp only [step] at hs
  split at hs
  · rename_i i hp
    split at hs <;> cases hs
    refine h.user rfl rfl (fun j => ?_) (fun _ _ _ => .inl) fun j now _ => ?_
    · by_cases hj : j = i
      · subst hj
        simpa [ClientState.apply_counters] using h.lastUsed j
      · simpa [hj] using h.lastUsed j
    · by_cases hj : j = i
      · subst hj
        have hb : Busy s.phase j now := busy_of_phase (p := p) (by rw [hp]; rfl) (by simp [hp])
        exact .inr ⟨hb, hb⟩
      · refine .inl ⟨.refl _ _, ?_⟩
        simpa [hj] using Lessens.refl _
  · cases hs

omit [DecidableEq π] [DecidableEq κ] in
theorem Aged.sweep {i : Nat} {f : ClientState π → ClientState π} {slots : ResourceBudget}
    (h : s.Aged) (hl : ∀ st, (f st).lastUsed = st.lastUsed) (hf : ∀ st, Lessens st (f st)) :
    ({ s with slots := slots }.onState i f).Aged := by
  refine h.user rfl rfl (fun j => ?_) (fun _ _ _ => .inl) fun j now _ => .inl ⟨.refl _ _, ?_⟩
  · by_cases hj : j = i
    · subst hj
      simpa [onState, hl] using h.lastUsed j
    · simpa [onState, hj] using h.lastUsed j
  · by_cases hj : j = i
    · subst hj
      simpa [onState] using hf _
    · simpa [onState, hj] using Lessens.refl _

theorem Aged.step {a : ClientAction π κ} (h : s.Aged) (hi : s.Inv cfg) (hc : s.NoTornEnd a)
    (hs : s.step cfg a = some t) : t.Aged := by
  cases a with
  | tick d =>
    cases hs
    refine ⟨fun i => ?_, h.ended, fun S hS => ?_, h.search⟩
    · have := h.lastUsed i
      change (s.states i).lastUsed ≤ s.now + d
      omega
    · have := h.now S hS
      change S.now ≤ s.now + d
      omega
  | client p => exact h.client hs
  | sweepClients now =>
    simp only [ClientRun.step] at hs
    split at hs
    · split at hs <;> cases hs
      refine h.restart rfl (fun i => ⟨h.lastUsed i, .inl (le_refl _)⟩) (fun _ _ _ => id) ?_
      rintro S ⟨⟩
      exact ⟨‹_›, rfl, rfl⟩
    · cases hs
  | cap =>
    simp only [ClientRun.step] at hs
    split at hs
    · split at hs <;> cases hs
      all_goals
        refine h.restart rfl (fun i => ⟨h.lastUsed i, .inl (le_refl _)⟩) (fun _ _ _ => id) ?_
        rintro S ⟨⟩
      exact ⟨le_refl _, rfl, rfl⟩
    · cases hs
  | read r =>
    simp only [ClientRun.step] at hs
    split at hs
    · rename_i S hmu
      obtain ⟨S', hr, rfl⟩ := Option.map_eq_some_iff.mp hs
      have hiS := hi.mu
      rw [hmu] at hiS
      have hend : ∀ choice id i, r = .idle choice → S.pc = .idle id i .lastUsed →
          ∀ p, (s.phase p).isEnding i = false := by
        rintro choice id i rfl hpc
        obtain ⟨f, now, left, oldest, pc⟩ := S
        obtain rfl : pc = _ := hpc
        simpa [NoTornEnd, tornEnd, hmu] using hc
      obtain ⟨hk, hn⟩ := (h.search S hmu).read hiS hr hend h.ended
      refine h.holder rfl rfl (fun _ => rfl) ?_
      rintro _ ⟨⟩
      exact ⟨hn ▸ h.now S hmu, hk⟩
    · cases hs
  | visited => exact h.visited hs
  | clear => exact h.clear hs
  | delete => exact h.delete hs
  | create => exact h.create hi hs
  | begin => exact h.begin hs
  | touch => exact h.touch hs
  | op p o => exact h.op hs
  | endActive p => exact h.endActive hs
  | endTouch p => exact h.endTouch hs
  | sweepBucket i hash =>
    simp only [ClientRun.step] at hs
    split at hs
    · cases hs
    · split at hs <;> cases hs
      refine h.sweep (fun _ => rfl) fun st => ⟨rfl, rfl, fun x b hx => ?_⟩
      by_cases hxh : x = hash
      · subst hxh
        simp [RouteTable.eraseBucket] at hx
      · rwa [RouteTable.eraseBucket, AList.lookup_erase_ne hxh] at hx
  | sweepAlias i route =>
    simp only [ClientRun.step] at hs
    split at hs
    · cases hs
    · split at hs <;> cases hs
      exact h.sweep (fun _ => rfl) fun st => ⟨rfl, rfl, fun _ _ => id⟩

theorem aged_of_reach (h : (system cfg).Reach NoTornEnd s) : s.Aged := by
  refine System.Reach.invariant_with (J := Inv cfg) (fun s h => inv_of_reachable h.reachable) ?_ ?_
    h
  · rintro s ⟨now, rfl⟩
    exact start_aged now
  · intro s a t hi _ ha hc hs
    exact ha.step hi hc hs

/-- The state that a search has decided to evict, and clears and deletes next. -/
def evicting (s : ClientRun π κ) : Option Nat :=
  match s.mu with
  | .search ⟨_, _, _, _, .clear _ i⟩ => some i
  | .search ⟨_, _, _, _, .delete _ i⟩ => some i
  | _ => none

/-- Every request that ever used state `i` ended before the idle timeout, and nothing that the
state knows is still blocked. -/
structure QuietAt (s : ClientRun π κ) (i : Nat) : Prop where
  ended : ∀ p, (s.phase p).Uses i →
    ∃ t, s.phase p = .ended i t ∧ t < s.now - clientIdleTimeout
  global : (s.states i).global.blockedUntil ≤ s.now
  buckets : ∀ hash b, (s.states i).table.buckets.lookup hash = some b →
    ((s.states i).bucketAt b).readyAt ≤ s.now

omit [DecidableEq π] [DecidableEq κ] in
theorem Aged.settled {i : Nat} (h : s.Aged) (he : s.evicting = some i) :
    ∃ now ≤ s.now, Settled s.states s.phase now i := by
  unfold evicting at he
  split at he <;> cases he
  all_goals
    rename_i hmu
    exact ⟨_, h.now _ hmu, (h.search _ hmu).pc⟩

/-- In every run in which no `idle` reads `lastUsed` amid an `end`, only quiet, unblocked states
are evicted. -/
theorem evicted_quiet (cfg : ClientConfig π κ) (s : ClientRun π κ) (i : Nat)
    (h : (system cfg).Reach NoTornEnd s) (he : s.evicting = some i) : s.QuietAt i := by
  obtain ⟨now, hle, hset⟩ := (aged_of_reach h).settled he
  refine ⟨fun p hu => ?_, hset.global.trans hle, fun hash b hl => ?_⟩
  · obtain ⟨t, ht, hlt⟩ := hset.past p hu
    exact ⟨t, ht, by omega⟩
  · exact (hset.buckets hash b hl id).trans hle

/-- One bot whose request takes eleven minutes.  The sweep has read that the pacer is free when
the request is told to wait an hour and decrements `active`; the sweep then reads zero requests
and a `lastUsed` eleven minutes old. -/
theorem evicts_amid_end :
    let cfg : ClientConfig (Fin 1) (Fin 1) := ⟨fun p => ⟨.bot, p⟩, 1, 1, 1, 1, fun _ => 50⟩
    let T : Nat := 11 * 60 * 1000000000
    ∃ s, (system cfg).run (start cfg 0)
        [.client 0, .cap, .create, .begin, .touch, .tick T,
          .sweepClients T, .read (.visit ⟨.bot, 0⟩), .read (.idle none),
          .op 0 (.blockFor Duration.hour), .endActive 0,
          .read (.idle none), .read (.idle none), .read (.idle none), .read (.idle none)] = some s ∧
      s.evicting = some 1 ∧ s.now = T ∧ s.phase 0 = .ending 1 T ∧
      s.now < (s.states 1).global.blockedUntil ∧ ¬s.QuietAt 1 := by
  intro cfg T
  generalize hrun : (system cfg).run (start cfg 0) _ = result
  have hresult : result.map (fun s =>
      (s.now, s.phase 0, (s.states 1).global.blockedUntil, s.evicting)) =
        some ((T : Int), .ending 1 T, T + Duration.hour, some 1) := by
    rw [← hrun]
    decide
  obtain ⟨s, rfl, he⟩ := Option.map_eq_some_iff.mp hresult
  simp only [Prod.mk.injEq] at he
  obtain ⟨hnow, hp, hb, hev⟩ := he
  refine ⟨s, rfl, hev, hnow, hp, ?_, fun hq => ?_⟩
  · rw [hnow, hb]
    decide
  · obtain ⟨t, ht, -⟩ := hq.ended 0 (by rw [hp]; rfl)
    rw [hp] at ht
    cases ht

/-- The same sweep, eleven minutes after the request has ended. -/
theorem evicted_quiet_after_end :
    let cfg : ClientConfig (Fin 1) (Fin 1) := ⟨fun p => ⟨.bot, p⟩, 1, 1, 1, 1, fun _ => 50⟩
    ∃ s, (system cfg).Reach NoTornEnd s ∧ s.evicting = some 1 ∧ s.phase 0 = .ended 1 0 ∧
      s.QuietAt 1 := by
  intro cfg
  let T : Nat := 11 * 60 * 1000000000
  let S := (system cfg).check fun s a => !s.tornEnd 0 a
  have hrun : (S.run (start cfg 0)
      [.client 0, .cap, .create, .begin, .touch, .endActive 0, .endTouch 0, .tick T,
        .sweepClients T, .read (.visit ⟨.bot, 0⟩), .read (.idle none),
        .read (.idle none), .read (.idle none), .read (.idle none), .read (.idle none)]).map
      (fun s => (s.evicting, s.phase 0)) = some (some 1, .ended 1 0) := by decide
  obtain ⟨s, hs, he⟩ := Option.map_eq_some_iff.mp hrun
  obtain ⟨hev, hp⟩ := Prod.mk.inj he
  have hS : S.Reachable s := System.Reachable.run (.init ⟨0, rfl⟩) hs
  have hr : (system cfg).Reach NoTornEnd s := System.Reach.of_check (fun s a h p => by
    rw [Subsingleton.elim p 0]
    simpa using h) hS
  exact ⟨s, hr, hev, hp, evicted_quiet cfg s 1 hr hev⟩

end ClientRun

end NirnProxy
