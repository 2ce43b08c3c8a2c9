import NirnProxy.Client.Sections
import NirnProxy.Transition

/-! Whoever holds `clientsMu` can go on to the end of the critical section, whatever the requests
have done to the states it looks at: the entries it still has to visit are there. -/

universe u v

namespace NirnProxy

variable {π : Type u} {κ : Type v}

def IdlePc.Present (table : RouteTable) : IdlePc → Prop
  | .global | .active | .lastUsed | .rlock => True
  | .buckets left => ∀ hash ∈ left, hash ∈ table.buckets
  | .blocked hash left => hash ∈ table.buckets ∧ ∀ x ∈ left, x ∈ table.buckets

def SearchPc.Ready (states : Nat → ClientState π) (left : List (Identity κ))
    (oldest : Option (Identity κ × Nat)) : SearchPc κ → Prop
  | .next => True
  | .idle id i pc => id ∉ left ∧ pc.Present (states i).table
  | .candidate _ _ | .compare _ _ _ => oldest.isSome = true
  | .clear id _ | .delete id _ => id ∉ left

section

variable [DecidableEq κ]

structure IdleSearch.Ready (states : Nat → ClientState π) (maps : ClientMaps κ)
    (S : IdleSearch π κ) : Prop where
  nodup : S.left.Nodup
  present : ∀ id ∈ S.left, (maps.lookup id).isSome = true
  pc : S.pc.Ready states S.left S.oldest

variable {states : Nat → ClientState π} {maps : ClientMaps κ} {S S' : IdleSearch π κ}

namespace ClientMaps

omit [DecidableEq κ] in
theorem botKeys_nodup (m : ClientMaps κ) : m.botKeys.Nodup :=
  m.bots.keys_nodup.map fun _ _ h => (Identity.mk.inj h).2

omit [DecidableEq κ] in
theorem bearerKeys_nodup (m : ClientMaps κ) : m.bearerKeys.Nodup :=
  m.bearers.keys_nodup.map fun _ _ h => (Identity.mk.inj h).2

theorem lookup_botKeys {id : Identity κ} (h : id ∈ maps.botKeys) :
    (maps.lookup id).isSome = true := by
  obtain ⟨k, hk, rfl⟩ := List.mem_map.mp h
  exact AList.lookup_isSome.mpr (AList.mem_keys.mpr hk)

theorem lookup_bearerKeys {id : Identity κ} (h : id ∈ maps.bearerKeys) :
    (maps.lookup id).isSome = true := by
  obtain ⟨k, hk, rfl⟩ := List.mem_map.mp h
  exact AList.lookup_isSome.mpr (AList.mem_keys.mpr hk)

omit [DecidableEq κ] in
theorem allKeys_nodup (m : ClientMaps κ) : (m.botKeys ++ m.bearerKeys).Nodup := by
  refine List.nodup_append.mpr ⟨m.botKeys_nodup, m.bearerKeys_nodup, ?_⟩
  rintro _ ha _ hb rfl
  obtain ⟨k, -, rfl⟩ := List.mem_map.mp ha
  obtain ⟨k', -, h⟩ := List.mem_map.mp hb
  cases h

end ClientMaps

theorem ready_all (f : SearchFor π κ) (now : Int) : (⟨f, now, maps.botKeys ++ maps.bearerKeys, none,
    .next⟩ : IdleSearch π κ).Ready states maps := by
  refine ⟨maps.allKeys_nodup, fun id h => ?_, trivial⟩
  obtain h | h := List.mem_append.mp h
  · exact ClientMaps.lookup_botKeys h
  · exact ClientMaps.lookup_bearerKeys h

theorem ready_bots (f : SearchFor π κ) (now : Int) :
    (⟨f, now, maps.botKeys, none, .next⟩ : IdleSearch π κ).Ready states maps :=
  ⟨maps.botKeys_nodup, fun _ => ClientMaps.lookup_botKeys, trivial⟩

theorem ready_bearers (f : SearchFor π κ) (now : Int) :
    (⟨f, now, maps.bearerKeys, none, .next⟩ : IdleSearch π κ).Ready states maps :=
  ⟨maps.bearerKeys_nodup, fun _ => ClientMaps.lookup_bearerKeys, trivial⟩

omit [DecidableEq κ] in
theorem IdlePc.Present.next {st : ClientState π} {now : Int} {choice : Option UInt64}
    {pc pc' : IdlePc} (h : pc.Present st.table)
    (hs : st.idleStep now choice pc = some (.inl pc')) : pc'.Present st.table := by
  unfold ClientState.idleStep at hs
  split at hs
  · split at hs <;> cases hs
    trivial
  · split at hs <;> cases hs
    trivial
  · split at hs <;> cases hs
    trivial
  · cases hs
    exact fun hash hh => AList.mem_keys.mpr hh
  · cases hs
  · split at hs
    · cases hs
    · obtain ⟨hmem, hs⟩ := Option.ite_none_right_eq_some.mp hs
      obtain ⟨b, -, hs⟩ := Option.map_eq_some_iff.mp hs
      split at hs <;> cases hs
      exact ⟨h _ hmem, fun x hx => h x (List.mem_of_mem_erase hx)⟩
  · obtain ⟨b, -, hs⟩ := Option.map_eq_some_iff.mp hs
    split at hs <;> cases hs
    exact h.2

theorem IdleSearch.Ready.found {id : Identity κ} {i : Nat} (h : S.Ready states maps)
    (hid : id ∉ S.left) : (S.found id i).Ready states maps := by
  unfold IdleSearch.found
  split
  · exact ⟨h.nodup, h.present, hid⟩
  · exact ⟨h.nodup, h.present, hid⟩
  · exact ⟨h.nodup, h.present, trivial⟩
  · exact ⟨h.nodup, h.present, trivial⟩
  · rename_i ho
    exact ⟨h.nodup, h.present, by simp [SearchPc.Ready, ho]⟩
  · rename_i ho
    exact ⟨h.nodup, h.present, by simp [SearchPc.Ready, ho]⟩

theorem IdleSearch.Ready.read {r : SearchRead κ} (h : S.Ready states maps)
    (hr : S.read states maps r = some S') : S'.Ready states maps := by
  have hpc := h.pc
  cases r with
  | visit id =>
    simp only [IdleSearch.read] at hr
    split at hr
    · obtain ⟨hmem, hr⟩ := Option.ite_none_right_eq_some.mp hr
      obtain ⟨i, -, rfl⟩ := Option.map_eq_some_iff.mp hr
      exact ⟨h.nodup.erase id, fun x hx => h.present x (List.mem_of_mem_erase hx),
        h.nodup.not_mem_erase, trivial⟩
    · cases hr
  | idle choice =>
    simp only [IdleSearch.read] at hr
    split at hr
    · rename_i id i pc hp
      rw [hp] at hpc
      obtain ⟨o, ho, rfl⟩ := Option.map_eq_some_iff.mp hr
      split
      · exact ⟨h.nodup, h.present, hpc.1, hpc.2.next ho⟩
      · exact ⟨h.nodup, h.present, trivial⟩
      · exact h.found hpc.1
    · cases hr
  | candidate =>
    simp only [IdleSearch.read] at hr
    split at hr <;> cases hr
    rename_i hp
    rw [hp] at hpc
    exact ⟨h.nodup, h.present, hpc⟩
  | compare =>
    simp only [IdleSearch.read] at hr
    split at hr <;> cases hr
    split <;> exact ⟨h.nodup, h.present, trivial⟩

end

namespace ClientRun

def Ready [DecidableEq κ] (s : ClientRun π κ) : Prop :=
  ∀ S, s.mu = .search S → S.Ready s.states s.maps

variable [DecidableEq π] [DecidableEq κ] {cfg : ClientConfig π κ} {s t : ClientRun π κ}
  {a : ClientAction π κ}

omit [DecidableEq π] in
theorem Ready.outside (h : s.Ready) (ho : s.Outside t) : t.Ready := by
  intro S hS
  rw [ho.mu] at hS
  obtain ⟨hn, hp, hpc⟩ := h S hS
  refine ⟨hn, ho.maps ▸ hp, ?_⟩
  obtain ⟨f, now, left, oldest, pc⟩ := S
  cases pc with
  | next => trivial
  | candidate id i | compare id i l | clear id i | delete id i => exact hpc
  | idle id i pc =>
    refine ⟨hpc.1, ?_⟩
    -- the read lock is held from the first bucket on
    cases pc with
    | global | active | lastUsed | rlock => trivial
    | buckets left' =>
      have hr : s.rlocked i = true := by simp [rlocked, hS]
      rw [IdlePc.Present, ho.tables i hr]
      exact hpc.2
    | blocked hash left' =>
      have hr : s.rlocked i = true := by simp [rlocked, hS]
      rw [IdlePc.Present, ho.tables i hr]
      exact hpc.2

omit [DecidableEq π] in
theorem ready_of_search {S : IdleSearch π κ} (hmu : t.mu = .search S)
    (hS : S.Ready t.states t.maps) : t.Ready := by
  intro S' h
  rw [hmu] at h
  cases h
  exact hS

omit [DecidableEq π] in
theorem ready_of_ne (h : ∀ S, t.mu ≠ .search S) : t.Ready := fun S hS => absurd hS (h S)

theorem Ready.step (h : s.Ready) (hs : s.step cfg a = some t) : t.Ready := by
  by_cases hout : a.internal = false ∧ a.locks = false
  · exact h.outside (step_outside hout.1 hout.2 hs)
  cases a with
  | tick d | op p o | endActive p | endTouch p | sweepBucket i hash | sweepAlias i route =>
    exact absurd ⟨rfl, rfl⟩ hout
  | client p =>
    simp only [ClientRun.step] at hs
    split at hs
    · split at hs
      · cases hs
        exact ready_of_ne fun S => by simp [goto]
      · split at hs <;> cases hs
        · exact ready_of_search rfl (ready_bearers _ _)
        · exact ready_of_ne fun S => by simp [goto]
    · cases hs
  | sweepClients now =>
    obtain ⟨-, rfl⟩ := sweepClients_mu hs
    exact ready_of_search rfl (ready_bots _ _)
  | cap =>
    simp only [ClientRun.step] at hs
    split at hs
    · split at hs <;> cases hs
      · exact ready_of_search rfl (ready_all _ _)
      · exact ready_of_ne fun S => by simp
    · cases hs
  | read r =>
    simp only [ClientRun.step] at hs
    split at hs
    · rename_i S hmu
      obtain ⟨S', hr, rfl⟩ := Option.map_eq_some_iff.mp hs
      exact ready_of_search rfl ((h S hmu).read hr)
    · cases hs
  | visited =>
    simp only [ClientRun.step] at hs
    split at hs
    · rename_i f now oldest hmu
      cases hs
      unfold ClientRun.visited
      split
      · exact ready_of_search rfl (ready_bearers _ _)
      · exact ready_of_ne fun S => by simp
      · exact ready_of_search rfl ⟨List.nodup_nil, by simp, by simp [SearchPc.Ready]⟩
      · exact ready_of_search rfl ⟨List.nodup_nil, by simp, by simp [SearchPc.Ready]⟩
      · exact ready_of_ne fun S => by simp [goto]
      · exact ready_of_ne fun S => by simp [goto]
    · cases hs
  | clear =>
    simp only [ClientRun.step] at hs
    split at hs
    · rename_i hmu
      cases hs
      obtain ⟨hn, hp, hpc⟩ := h _ hmu
      exact ready_of_search rfl ⟨hn, hp, hpc⟩
    · cases hs
  | delete =>
    simp only [ClientRun.step] at hs
    split at hs
    · rename_i f now left oldest id i hmu
      cases hs
      obtain ⟨hn, hp, hpc⟩ := h _ hmu
      have hp' : ∀ x ∈ left, ((s.maps.erase id).lookup x).isSome = true := by
        intro x hx
        have hne : x ≠ id := by
          rintro rfl
          exact hpc hx
        rw [ClientMaps.lookup_erase_ne hne]
        exact hp x hx
      cases f with
      | bearers A | all A => exact ready_of_ne fun S => by simp [IdleSearch.deleted]
      | sweepBots | sweepBearers => exact ready_of_search rfl ⟨hn, hp', trivial⟩
    · cases hs
  | create | begin | touch =>
    simp only [ClientRun.step] at hs
    split at hs <;> cases hs
    exact ready_of_ne fun S => by simp [goto, onState]

theorem ready_of_reachable (h : (system cfg).Reachable s) : s.Ready := by
  refine System.Reach.invariant ?_ (fun s a t ih _ hs => ih.step hs) h
  rintro s ⟨now, rfl⟩
  exact ready_of_ne fun S => by simp [start]

end ClientRun

def SearchFor.rank : SearchFor π κ → Nat
  | .sweepBearers => 1
  | .sweepBots => 2
  | .all _ => 4
  | .bearers _ => 6

def ClientsMu.rank : ClientsMu π κ → Nat
  | .free => 0
  | .touch _ _ => 1
  | .begin _ _ => 2
  | .create _ => 3
  | .cap _ => 5
  | .search S => S.purpose.rank

namespace ClientRun

variable [DecidableEq π] [DecidableEq κ] {cfg : ClientConfig π κ} {s t : ClientRun π κ}
  {S : IdleSearch π κ} {id : Identity κ} {i : Nat}

def Inside (_ : ClientRun π κ) (a : ClientAction π κ) : Prop := a.internal = true

theorem Ready.leads (h : s.Ready) (hl : (system cfg).Leads Inside s t) : t.Ready := by
  induction hl with
  | refl => exact h
  | step _ _ hs ih => exact ih.step hs

theorem leads_step {a : ClientAction π κ} (ha : a.internal = true) (hs : s.step cfg a = some t) :
    (system cfg).Leads Inside s t := .step .refl ha hs

theorem leads_read (cfg : ClientConfig π κ) {S' : IdleSearch π κ} (r : SearchRead κ)
    (hmu : s.mu = .search S)
    (hr : S.read s.states s.maps r = some S') :
    (system cfg).Leads Inside s { s with mu := .search S' } :=
  leads_step (a := .read r) rfl (by simp [step, hmu, hr])

def Returns (cfg : ClientConfig π κ) (s : ClientRun π κ) (S : IdleSearch π κ) (id : Identity κ)
    (i : Nat) : Prop :=
  ∃ S', (system cfg).Leads Inside s { s with mu := .search S' } ∧
    (S' = { S with pc := .next } ∨ S' = S.found id i)

theorem returns_step {pc : IdlePc} {o : IdlePc ⊕ Bool} (choice : Option UInt64)
    (hmu : s.mu = .search S) (hpc : S.pc = .idle id i pc)
    (ho : (s.states i).idleStep S.now choice pc = some o)
    (hnext : ∀ pc', o = .inl pc' →
      Returns cfg { s with mu := .search { S with pc := .idle id i pc' } }
        { S with pc := .idle id i pc' } id i) : Returns cfg s S id i := by
  cases o with
  | inl pc' =>
    obtain ⟨S', hl, hS'⟩ := hnext pc' rfl
    refine ⟨S', (leads_read cfg (.idle choice) hmu ?_).trans hl, hS'⟩
    simp [IdleSearch.read, hpc, ho]
  | inr b =>
    cases b with
    | false =>
      refine ⟨_, leads_read cfg (.idle choice) hmu ?_, .inl rfl⟩
      simp [IdleSearch.read, hpc, ho]
    | true =>
      refine ⟨_, leads_read cfg (.idle choice) hmu ?_, .inr rfl⟩
      simp [IdleSearch.read, hpc, ho]

omit [DecidableEq π] in
theorem bucketUnder_of_mem {st : ClientState π} {hash : UInt64} (h : hash ∈ st.table.buckets) :
    ∃ b, st.bucketUnder hash = some b := by
  obtain ⟨n, hn⟩ := Option.isSome_iff_exists.mp (AList.lookup_isSome.mpr h)
  exact ⟨st.bucketAt n, by simp [ClientState.bucketUnder, hn]⟩

theorem buckets_return {left : List UInt64} (hmu : s.mu = .search S)
    (hpc : S.pc = .idle id i (.buckets left))
    (hp : ∀ hash ∈ left, hash ∈ (s.states i).table.buckets) : Returns cfg s S id i := by
  induction left generalizing s S with
  | nil =>
    refine returns_step none hmu hpc rfl fun pc' h => ?_
    cases h
  | cons hash left ih =>
    obtain ⟨b, hb⟩ := bucketUnder_of_mem (hp hash List.mem_cons_self)
    refine returns_step (some hash) hmu hpc
      (by simp only [ClientState.idleStep, List.mem_cons_self, if_true, hb, Option.map_some]; rfl)
      fun pc' h => ?_
    split at h <;> cases h
    refine returns_step none rfl rfl
      (by simp only [ClientState.idleStep, hb, Option.map_some]; rfl) fun pc' h => ?_
    split at h <;> cases h
    exact ih rfl (by simp) fun x hx => hp x (List.mem_cons_of_mem _ hx)

theorem idle_returns (cfg : ClientConfig π κ) {pc : IdlePc} (hmu : s.mu = .search S)
    (hpc : S.pc = .idle id i pc) (hp : pc.Present (s.states i).table) : Returns cfg s S id i := by
  have hrlock {s : ClientRun π κ} {S : IdleSearch π κ} (hmu : s.mu = .search S)
      (hpc : S.pc = .idle id i .rlock) : Returns cfg s S id i := by
    refine returns_step none hmu hpc rfl fun pc' h => ?_
    cases h
    exact buckets_return rfl rfl fun hash hh => AList.mem_keys.mpr hh
  have hlastUsed {s : ClientRun π κ} {S : IdleSearch π κ} (hmu : s.mu = .search S)
      (hpc : S.pc = .idle id i .lastUsed) : Returns cfg s S id i := by
    refine returns_step none hmu hpc rfl fun pc' h => ?_
    split at h <;> cases h
    exact hrlock rfl rfl
  have hactive {s : ClientRun π κ} {S : IdleSearch π κ} (hmu : s.mu = .search S)
      (hpc : S.pc = .idle id i .active) : Returns cfg s S id i := by
    refine returns_step none hmu hpc rfl fun pc' h => ?_
    split at h <;> cases h
    exact hlastUsed rfl rfl
  cases pc with
  | global =>
    refine returns_step none hmu hpc rfl fun pc' h => ?_
    split at h <;> cases h
    exact hactive rfl rfl
  | active => exact hactive hmu hpc
  | lastUsed => exact hlastUsed hmu hpc
  | rlock => exact hrlock hmu hpc
  | buckets left => exact buckets_return hmu hpc hp
  | blocked hash left =>
    obtain ⟨b, hb⟩ := bucketUnder_of_mem hp.1
    refine returns_step none hmu hpc
      (by simp only [ClientState.idleStep, hb, Option.map_some]; rfl) fun pc' h => ?_
    split at h <;> cases h
    exact buckets_return rfl rfl hp.2

def Comes (cfg : ClientConfig π κ) (s : ClientRun π κ) (S : IdleSearch π κ) : Prop :=
  ∃ t, (system cfg).Leads Inside s t ∧ (t.mu.rank < S.purpose.rank ∨
    ∃ S', t.mu = .search S' ∧ S'.pc = .next ∧ S'.left = S.left ∧
      S'.purpose.rank = S.purpose.rank)

theorem Comes.head {S' : IdleSearch π κ} (hl : (system cfg).Leads Inside s t)
    (h : Comes cfg t S') (hleft : S'.left = S.left)
    (hf : S'.purpose.rank = S.purpose.rank) :
    Comes cfg s S := by
  obtain ⟨u, hu, h⟩ := h
  refine ⟨u, hl.trans hu, ?_⟩
  rwa [hleft, hf] at h

theorem comes_next (hmu : s.mu = .search S) (hpc : S.pc = .next) : Comes cfg s S :=
  ⟨s, .refl, .inr ⟨S, hmu, hpc, rfl, rfl⟩⟩

theorem delete_leads (cfg : ClientConfig π κ) (hmu : s.mu = .search S) (hpc : S.pc = .delete id i) :
    ∃ t, (system cfg).Leads Inside s t ∧ t.mu = S.deleted := by
  obtain ⟨f, now, left, oldest, pc⟩ := S
  cases hpc
  exact ⟨_, leads_step (a := .delete) rfl (by simp only [step, hmu]; rfl), rfl⟩

theorem clear_leads (cfg : ClientConfig π κ) (hmu : s.mu = .search S) (hpc : S.pc = .clear id i) :
    ∃ t n, (system cfg).Leads Inside s t ∧
      t.mu = IdleSearch.deleted { S with purpose := S.purpose.charge n, pc := .delete id i } := by
  obtain ⟨f, now, left, oldest, pc⟩ := S
  cases hpc
  obtain ⟨u, hu, hmu'⟩ : ∃ u, s.step cfg .clear = some u ∧
      u.mu = .search ⟨f.charge (s.states i).table.size, now, left, oldest, .delete id i⟩ :=
    ⟨_, by simp only [step, hmu]; rfl, rfl⟩
  obtain ⟨t, ht, hdel⟩ := delete_leads cfg hmu' rfl
  exact ⟨t, (s.states i).table.size, (leads_step rfl hu).trans ht, hdel⟩

omit [DecidableEq π] [DecidableEq κ] in
theorem rank_charge (f : SearchFor π κ) (n : Int) : (f.charge n).rank = f.rank := by
  cases f <;> rfl

omit [DecidableEq π] [DecidableEq κ] in
theorem rank_deleted (h : S.purpose.sweeps = false) : S.deleted.rank < S.purpose.rank := by
  obtain ⟨f, now, left, oldest, pc⟩ := S
  cases f with
  | bearers A | all A => simp [IdleSearch.deleted, ClientsMu.rank, SearchFor.rank]
  | sweepBots | sweepBearers => cases h

omit [DecidableEq κ] [DecidableEq π] in
theorem deleted_next (h : S.purpose.sweeps = true) :
    S.deleted = .search { S with oldest := none, pc := .next } := by
  obtain ⟨f, now, left, oldest, pc⟩ := S
  cases f with
  | bearers A | all A => cases h
  | sweepBots | sweepBearers => rfl

theorem comes_deleted (hmu : s.mu = S.deleted) : Comes cfg s S := by
  cases hf : S.purpose.sweeps with
  | false => exact ⟨s, .refl, .inl (hmu ▸ rank_deleted hf)⟩
  | true => exact ⟨s, .refl, .inr ⟨_, hmu.trans (deleted_next hf), rfl, rfl, rfl⟩⟩

theorem comes_delete (hmu : s.mu = .search S) (hpc : S.pc = .delete id i) : Comes cfg s S := by
  obtain ⟨t, ht, hdel⟩ := delete_leads cfg hmu hpc
  exact .head ht (comes_deleted hdel) rfl rfl

theorem comes_clear (hmu : s.mu = .search S) (hpc : S.pc = .clear id i) : Comes cfg s S := by
  obtain ⟨t, n, ht, hdel⟩ := clear_leads cfg hmu hpc
  exact .head ht (comes_deleted hdel) rfl (rank_charge _ _)

theorem comes_compare {l : Int} (hmu : s.mu = .search S) (hpc : S.pc = .compare id i l)
    (ho : S.oldest.isSome = true) : Comes cfg s S := by
  obtain ⟨⟨id', o⟩, ho⟩ := Option.isSome_iff_exists.mp ho
  have hread := leads_read cfg .compare hmu (by
    simp only [IdleSearch.read, hpc, ho]
    rfl)
  split at hread
  · exact .head hread (comes_next rfl rfl) rfl rfl
  · exact .head hread (comes_next rfl rfl) rfl rfl

theorem comes_candidate (hmu : s.mu = .search S) (hpc : S.pc = .candidate id i)
    (ho : S.oldest.isSome = true) : Comes cfg s S := by
  have hread := leads_read cfg .candidate hmu (by
    simp only [IdleSearch.read, hpc]
    rfl)
  exact .head hread (comes_compare rfl rfl ho) rfl rfl

theorem comes_idle {pc : IdlePc} (hmu : s.mu = .search S) (hpc : S.pc = .idle id i pc)
    (hp : pc.Present (s.states i).table) : Comes cfg s S := by
  obtain ⟨S', hl, rfl | rfl⟩ := idle_returns cfg hmu hpc hp
  · exact .head hl (comes_next rfl rfl) rfl rfl
  · unfold IdleSearch.found at hl
    split at hl
    · exact .head hl (comes_clear rfl rfl) rfl rfl
    · exact .head hl (comes_clear rfl rfl) rfl rfl
    · exact .head hl (comes_next rfl rfl) rfl rfl
    · exact .head hl (comes_next rfl rfl) rfl rfl
    · rename_i ho
      exact .head hl (comes_candidate rfl rfl (by simp [ho])) rfl rfl
    · rename_i ho
      exact .head hl (comes_candidate rfl rfl (by simp [ho])) rfl rfl

theorem search_comes (cfg : ClientConfig π κ) (h : s.Ready) (hmu : s.mu = .search S) :
    Comes cfg s S := by
  have hpc := (h S hmu).pc
  cases hp : S.pc with
  | next => exact comes_next hmu hp
  | idle id i pc =>
    rw [hp] at hpc
    exact comes_idle hmu hp hpc.2
  | candidate id i =>
    rw [hp] at hpc
    exact comes_candidate hmu hp hpc
  | compare id i l =>
    rw [hp] at hpc
    exact comes_compare hmu hp hpc
  | clear id i => exact comes_clear hmu hp
  | delete id i => exact comes_delete hmu hp

theorem search_descends (cfg : ClientConfig π κ) {n : Nat} (hn : S.left.length = n) (h : s.Ready)
    (hmu : s.mu = .search S) (hpc : S.pc = .next) :
    ∃ t, (system cfg).Leads Inside s t ∧ t.mu.rank < S.purpose.rank := by
  induction n generalizing s S with
  | zero =>
    obtain ⟨f, now, left, oldest, pc⟩ := S
    cases hpc
    cases List.eq_nil_of_length_eq_zero hn
    have hvisited : (system cfg).Leads Inside s (s.visited ⟨f, now, [], oldest, .next⟩) :=
      leads_step (a := .visited) rfl (by simp only [step, hmu])
    -- an eviction follows where an idle state was found
    have hevict : ∀ id i, f.sweeps = false →
        (s.visited ⟨f, now, [], oldest, .next⟩).mu = .search ⟨f, now, [], oldest, .clear id i⟩ →
        ∃ t, (system cfg).Leads Inside s t ∧ t.mu.rank < f.rank := by
      intro id i hf hmu'
      obtain ⟨t, m, ht, hdel⟩ := clear_leads cfg hmu' rfl
      refine ⟨t, hvisited.trans ht, ?_⟩
      rw [hdel, ← rank_charge f m]
      exact rank_deleted (by rwa [SearchFor.sweeps_charge])
    cases f with
    | sweepBots => exact ⟨_, hvisited, Nat.lt_succ_self 1⟩
    | sweepBearers => exact ⟨_, hvisited, Nat.one_pos⟩
    | bearers A =>
      cases oldest with
      | none => exact ⟨_, hvisited, Nat.succ_pos 5⟩
      | some e => exact hevict e.1 e.2 rfl rfl
    | all A =>
      cases oldest with
      | none => exact ⟨_, hvisited, Nat.succ_pos 3⟩
      | some e => exact hevict e.1 e.2 rfl rfl
  | succ n ih =>
    obtain ⟨id, rest, hleft⟩ := List.exists_cons_of_length_eq_add_one hn
    have hmem : id ∈ S.left := by simp [hleft]
    obtain ⟨i, hi⟩ := Option.isSome_iff_exists.mp ((h S hmu).present id hmem)
    have hvisit := leads_read cfg (.visit id) hmu (by
      simp only [IdleSearch.read, hpc, hmem, if_true, hi, Option.map_some]
      rfl)
    obtain ⟨t, ht, hdown | ⟨S', hmu', hpc', hleft', hf⟩⟩ :=
      search_comes cfg (h.leads hvisit) rfl
    · exact ⟨t, hvisit.trans ht, hdown⟩
    · have hlen : S'.left.length = n := by
        rw [hleft']
        simp only [hleft, List.erase_cons_head, List.length_cons] at hn ⊢
        omega
      obtain ⟨u, hu, hdown⟩ := ih hlen (h.leads (hvisit.trans ht)) hmu' hpc'
      exact ⟨u, (hvisit.trans ht).trans hu, hf ▸ hdown⟩

theorem section_descends (cfg : ClientConfig π κ) (h : s.Ready) (hmu : s.mu ≠ .free) :
    ∃ t, (system cfg).Leads Inside s t ∧ t.mu.rank < s.mu.rank := by
  cases hm : s.mu with
  | free => exact absurd hm hmu
  | cap A =>
    by_cases hfull : cfg.maxClientStates ≤ s.maps.total
    · refine ⟨_, leads_step (a := .cap) rfl (by simp only [step, hm, hfull, if_true]; rfl), ?_⟩
      exact Nat.lt_succ_self 4
    · refine ⟨_, leads_step (a := .cap) rfl (by simp only [step, hm, hfull, if_false]; rfl), ?_⟩
      exact Nat.lt_of_lt_of_le (Nat.lt_succ_self 3) (Nat.le_succ 4)
  | create A =>
    refine ⟨_, leads_step (a := .create) rfl (by simp only [step, hm]; rfl), ?_⟩
    exact Nat.lt_succ_self 2
  | begin A i =>
    refine ⟨_, leads_step (a := .begin) rfl (by simp only [step, hm]; rfl), ?_⟩
    exact Nat.lt_succ_self 1
  | touch A i =>
    refine ⟨_, leads_step (a := .touch) rfl (by simp only [step, hm]; rfl), ?_⟩
    exact Nat.one_pos
  | search S =>
    obtain ⟨t, ht, hdown | ⟨S', hmu', hpc', -, hf⟩⟩ := search_comes cfg h hm
    · exact ⟨t, ht, hdown⟩
    · obtain ⟨u, hu, hdown⟩ := search_descends cfg rfl (h.leads ht) hmu' hpc'
      exact ⟨u, ht.trans hu, Nat.lt_of_lt_of_eq hdown hf⟩

/-- Every critical section of `clientsMu` can be left by its holder alone. -/
theorem section_ends (cfg : ClientConfig π κ) (h : s.Ready) :
    ∃ t, (system cfg).Leads Inside s t ∧ t.mu = .free := by
  induction hn : s.mu.rank using Nat.strongRecOn generalizing s with
  | ind n ih =>
    by_cases hmu : s.mu = .free
    · exact ⟨s, .refl, hmu⟩
    · obtain ⟨t, ht, hlt⟩ := section_descends cfg h hmu
      obtain ⟨u, hu, hfree⟩ := ih _ (hn ▸ hlt) (h.leads ht) rfl
      exact ⟨u, ht.trans hu, hfree⟩

end ClientRun

end NirnProxy
