import NirnProxy.Client.Admission

/-! The caps of the client table, and that a state in use is the one stored under its
credential.  A search may evict only what is quiet: nobody begins while it holds `clientsMu`. -/

universe u v

namespace NirnProxy

open scoped Parties

variable {π : Type u} {κ : Type v}

namespace RequestPhase

/-- The request is counted in the `active` of state `i`. -/
def Live (i : Nat) : RequestPhase → Prop
  | .beginning j | .active j => j = i
  | .new | .calling | .ending _ _ | .ended _ _ | .refused => False

def Uses (i : Nat) : RequestPhase → Prop
  | .beginning j | .active j | .ending j _ | .ended j _ => j = i
  | .new | .calling | .refused => False

theorem Live.uses {i : Nat} {ph : RequestPhase} (h : ph.Live i) : ph.Uses i := by
  cases ph <;> first | exact h | exact h.elim

end RequestPhase

def Quiet (phase : π → RequestPhase) (i : Nat) : Prop := ∀ p, ¬(phase p).Live i

namespace Admission

variable [DecidableEq κ]

structure Pending (cfg : ClientConfig π κ) (maps : ClientMaps κ) (phase : π → RequestPhase)
    (A : Admission π κ) : Prop where
  absent : maps.lookup (cfg.identity A.request) = none
  calling : phase A.request = .calling

structure Untouched (maps : ClientMaps κ) (A : Admission π κ) : Prop where
  evicted : A.evicted = 0
  released : A.released = 0
  before : A.before = maps

end Admission

namespace SearchFor

def ranges : SearchFor π κ → AuthType → Prop
  | .bearers _, k => k = .bearer
  | .all _, k => k ≠ .none
  | .sweepBots, k => k = .bot
  | .sweepBearers, k => k = .bearer

theorem ranges_ne_none {f : SearchFor π κ} {k : AuthType} (h : f.ranges k) : k ≠ .none := by
  cases f <;> simp_all [ranges]

variable [DecidableEq κ]

def Inv (cfg : ClientConfig π κ) (maps : ClientMaps κ) (phase : π → RequestPhase)
    (deleting : Bool) : SearchFor π κ → Prop
  | .bearers A => A.Pending cfg maps phase ∧ A.evicted = 0 ∧ (deleting = false → A.Untouched maps)
  | .all A => A.Pending cfg maps phase ∧ A.evicted = 0 ∧ (deleting = false → A.Untouched maps) ∧
      ((cfg.identity A.request).kind = .bearer → maps.bearerCount < cfg.maxBearerClients)
  | .sweepBots | .sweepBearers => True

end SearchFor

namespace IdlePc

def counted : IdlePc → Bool
  | .global | .active => false
  | .lastUsed | .rlock | .buckets _ | .blocked _ _ => true

end IdlePc

variable [DecidableEq κ]

structure Visits (maps : ClientMaps κ) (f : SearchFor π κ) (id : Identity κ) (i : Nat) : Prop where
  lookup : maps.lookup id = some i
  ranges : f.ranges id.kind

omit [DecidableEq κ] in
theorem SearchFor.charge_ranges (n : Int) (f : SearchFor π κ) : (f.charge n).ranges = f.ranges := by
  cases f <;> rfl

theorem Visits.charge {maps : ClientMaps κ} {f : SearchFor π κ} {id : Identity κ} {i : Nat}
    (h : Visits maps f id i) (n : Int) : Visits maps (f.charge n) id i :=
  ⟨h.lookup, (SearchFor.charge_ranges n f) ▸ h.ranges⟩

namespace SearchPc

def Inv (maps : ClientMaps κ) (phase : π → RequestPhase) (f : SearchFor π κ) : SearchPc κ → Prop
  | .next => True
  | .idle id i pc => Visits maps f id i ∧ (pc.counted = true → Quiet phase i)
  | .candidate id i | .compare id i _ | .clear id i | .delete id i =>
    Visits maps f id i ∧ Quiet phase i

def deleting : SearchPc κ → Bool
  | .delete _ _ => true
  | .next | .idle _ _ _ | .candidate _ _ | .compare _ _ _ | .clear _ _ => false

end SearchPc

structure IdleSearch.Inv (cfg : ClientConfig π κ) (maps : ClientMaps κ)
    (phase : π → RequestPhase) (S : IdleSearch π κ) : Prop where
  left : ∀ id ∈ S.left, S.purpose.ranges id.kind
  oldest : ∀ id i, S.oldest = some (id, i) → Visits maps S.purpose id i ∧ Quiet phase i
  pc : S.pc.Inv maps phase S.purpose
  purpose : S.purpose.Inv cfg maps phase S.pc.deleting

namespace ClientsMu

def Inv (cfg : ClientConfig π κ) (maps : ClientMaps κ) (phase : π → RequestPhase) :
    ClientsMu π κ → Prop
  | .free => True
  | .cap A => A.Pending cfg maps phase ∧
      (A.Untouched maps ∨ A.evicted = 1 ∧ maps.total < cfg.maxClientStates) ∧
      ((cfg.identity A.request).kind = .bearer → maps.bearerCount < cfg.maxBearerClients)
  | .search S => S.Inv cfg maps phase
  | .create A => A.Pending cfg maps phase ∧ A.evicted ≤ 1 ∧ maps.total < cfg.maxClientStates ∧
      ((cfg.identity A.request).kind = .bearer → maps.bearerCount < cfg.maxBearerClients)
  | .begin A i => maps.lookup (cfg.identity A.request) = some i ∧ phase A.request = .calling ∧
      A.evicted ≤ 1
  | .touch A i => phase A.request = .beginning i ∧ A.evicted ≤ 1

end ClientsMu

namespace ClientReturn

structure Ok (r : ClientReturn π κ) : Prop where
  evicted : r.call.evicted ≤ 1
  refused : r.tooManyClients = true →
    r.call.evicted = 0 ∧ r.call.released = 0 ∧ r.after = r.call.before

end ClientReturn

section Mono

variable {cfg : ClientConfig π κ} {maps : ClientMaps κ} {phase phase' : π → RequestPhase}

structure Calmer (phase phase' : π → RequestPhase) : Prop where
  live : ∀ p i, (phase' p).Live i → (phase p).Live i
  calling : ∀ p, phase p = .calling → phase' p = .calling
  beginning : ∀ p i, phase p = .beginning i → phase' p = .beginning i

omit [DecidableEq κ] in
theorem Quiet.mono {i : Nat} (h : Quiet phase i) (hc : Calmer phase phase') : Quiet phase' i :=
  fun p hl => h p (hc.live p i hl)

theorem Admission.Pending.mono {A : Admission π κ} (h : A.Pending cfg maps phase)
    (hc : Calmer phase phase') : A.Pending cfg maps phase' := ⟨h.absent, hc.calling _ h.calling⟩

theorem SearchFor.Inv.mono {f : SearchFor π κ} {d : Bool} (h : f.Inv cfg maps phase d)
    (hc : Calmer phase phase') : f.Inv cfg maps phase' d := by
  cases f with
  | bearers A => exact ⟨h.1.mono hc, h.2⟩
  | all A => exact ⟨h.1.mono hc, h.2⟩
  | sweepBots => trivial
  | sweepBearers => trivial

theorem SearchPc.Inv.mono {f : SearchFor π κ} {pc : SearchPc κ} (h : pc.Inv maps phase f)
    (hc : Calmer phase phase') : pc.Inv maps phase' f := by
  cases pc with
  | next => trivial
  | idle id i pc => exact ⟨h.1, fun hq => (h.2 hq).mono hc⟩
  | candidate id i => exact ⟨h.1, h.2.mono hc⟩
  | compare id i l => exact ⟨h.1, h.2.mono hc⟩
  | clear id i => exact ⟨h.1, h.2.mono hc⟩
  | delete id i => exact ⟨h.1, h.2.mono hc⟩

theorem ClientsMu.Inv.mono {mu : ClientsMu π κ} (h : mu.Inv cfg maps phase)
    (hc : Calmer phase phase') : mu.Inv cfg maps phase' := by
  cases mu with
  | free => trivial
  | cap A => exact ⟨h.1.mono hc, h.2⟩
  | search S =>
    exact ⟨h.left, fun id i ho => ⟨(h.oldest id i ho).1, (h.oldest id i ho).2.mono hc⟩,
      h.pc.mono hc, h.purpose.mono hc⟩
  | create A => exact ⟨h.1.mono hc, h.2⟩
  | begin A i => exact ⟨h.1, hc.calling _ h.2.1, h.2.2⟩
  | touch A i => exact ⟨hc.beginning _ _ h.1, h.2⟩

end Mono

section Read

variable {cfg : ClientConfig π κ} {maps : ClientMaps κ} {phase : π → RequestPhase}
  {states : Nat → ClientState π} {S S' : IdleSearch π κ}

omit [DecidableEq κ] in
theorem ClientState.idleStep_counted {st : ClientState π} {now : Int} {choice : Option UInt64}
    {pc pc' : IdlePc} (h : st.idleStep now choice pc = some (.inl pc'))
    (hq : pc'.counted = true) : pc.counted = true ∨ st.active = 0 := by
  cases idleStep_moves h with
  | global => cases hq
  | active ha => exact .inr ha
  | _ => exact .inl rfl

omit [DecidableEq κ] in
theorem ClientState.counted_of_idle {st : ClientState π} {now : Int} {choice : Option UInt64}
    {pc : IdlePc} (h : st.idleStep now choice pc = some (.inr true)) : pc.counted = true := by
  rw [idleStep_true h]
  rfl

theorem IdleSearch.Inv.searching (h : S.Inv cfg maps phase) (hd : S.pc.deleting = false) :
    S.purpose.Inv cfg maps phase false := hd ▸ h.purpose

theorem IdleSearch.Inv.next (h : S.Inv cfg maps phase) (hd : S.pc.deleting = false) :
    ({ S with pc := .next } : IdleSearch π κ).Inv cfg maps phase :=
  ⟨h.left, h.oldest, trivial, h.searching hd⟩

theorem IdleSearch.Inv.found {id : Identity κ} {i : Nat} (h : S.Inv cfg maps phase)
    (hd : S.pc.deleting = false) (hv : Visits maps S.purpose id i) (hq : Quiet phase i) :
    (S.found id i).Inv cfg maps phase := by
  have hp := h.searching hd
  unfold IdleSearch.found
  split
  all_goals
    first
    | exact ⟨h.left, h.oldest, ⟨hv, hq⟩, hp⟩
    | refine ⟨h.left, ?_, trivial, hp⟩
      rintro _ _ ⟨⟩
      exact ⟨hv, hq⟩

theorem IdleSearch.Inv.read {r : SearchRead κ} (h : S.Inv cfg maps phase)
    (hcount : ∀ i, Counts (fun p => (phase p).Live i) (states i).active)
    (hr : S.read states maps r = some S') : S'.Inv cfg maps phase := by
  have hquiet : ∀ i, (states i).active = 0 → Quiet phase i := fun i h0 p hl => by
    have := (hcount i).pos hl
    omega
  cases r with
  | visit id =>
    simp only [IdleSearch.read] at hr
    split at hr
    · rename_i hpc
      split at hr
      · rename_i hm
        obtain ⟨i, hi, rfl⟩ := Option.map_eq_some_iff.mp hr
        refine ⟨fun x hx => h.left x (List.mem_of_mem_erase hx), h.oldest,
          ⟨⟨hi, h.left id hm⟩, nofun⟩, ?_⟩
        have := h.purpose
        rwa [hpc] at this
      · cases hr
    · cases hr
  | idle choice =>
    simp only [IdleSearch.read] at hr
    split at hr
    · rename_i id i pc hpc
      have hinv := h.pc
      rw [hpc] at hinv
      have hd : S.pc.deleting = false := by rw [hpc]; rfl
      obtain ⟨o, ho, rfl⟩ := Option.map_eq_some_iff.mp hr
      obtain pc' | b := o
      · refine ⟨h.left, h.oldest, ⟨hinv.1, fun hq => ?_⟩, h.searching hd⟩
        obtain hc | h0 := ClientState.idleStep_counted ho hq
        · exact hinv.2 hc
        · exact hquiet i h0
      · cases b with
        | false => exact h.next hd
        | true => exact h.found hd hinv.1 (hinv.2 (ClientState.counted_of_idle ho))
    · cases hr
  | candidate =>
    simp only [IdleSearch.read] at hr
    split at hr <;> cases hr
    rename_i id i hpc
    have hinv := h.pc
    rw [hpc] at hinv
    have hd : S.pc.deleting = false := by rw [hpc]; rfl
    exact ⟨h.left, h.oldest, hinv, h.searching hd⟩
  | compare =>
    simp only [IdleSearch.read] at hr
    split at hr <;> cases hr
    rename_i id i l ido o hpc ho
    have hinv := h.pc
    rw [hpc] at hinv
    have hd : S.pc.deleting = false := by rw [hpc]; rfl
    split
    · refine ⟨h.left, ?_, trivial, h.searching hd⟩
      rintro _ _ ⟨⟩
      exact hinv
    · exact h.next hd

end Read

namespace ClientRun

structure Inv (cfg : ClientConfig π κ) (s : ClientRun π κ) : Prop where
  bearers : s.maps.bearerCount ≤ cfg.maxBearerClients
  total : s.maps.total ≤ cfg.maxClientStates
  fresh : 0 < s.fresh
  mapped : ∀ id i, s.maps.lookup id = some i → i < s.fresh
  used : ∀ p i, (s.phase p).Uses i → i < s.fresh
  stored : ∀ p i, (s.phase p).Live i → s.maps.lookup (cfg.identity p) = some i
  active : ∀ i, Counts (fun p => (s.phase p).Live i) (s.states i).active
  mu : s.mu.Inv cfg s.maps s.phase
  returned : ∀ r ∈ s.returned, r.Ok

variable {cfg : ClientConfig π κ} {s t : ClientRun π κ}

theorem start_inv (now : Int) : (start cfg now).Inv cfg where
  bearers := Nat.zero_le _
  total := Nat.zero_le _
  fresh := Nat.one_pos
  mapped id i h := by
    cases hk : id.kind <;> simp_all [start, ClientMaps.lookup, ClientMaps.noAuth]
  used _ _ h := h.elim
  stored _ _ h := h.elim
  active _ := .zero fun _ h => h
  mu := trivial
  returned := by simp [start]

variable [DecidableEq π]

omit [DecidableEq κ] in
theorem calmer_goto {p : π} {ph : RequestPhase} (hl : ∀ i, ph.Live i → (s.phase p).Live i)
    (hc : s.phase p ≠ .calling) (hb : ∀ i, s.phase p ≠ .beginning i) :
    Calmer s.phase (Function.update s.phase p ph) := by
  refine ⟨fun q i h => ?_, fun q h => ?_, fun q i h => ?_⟩
  all_goals
    by_cases hq : q = p
    · subst hq
      simp_all
    · simpa [hq] using h

theorem Inv.goto {p : π} {ph : RequestPhase} (h : s.Inv cfg)
    (hl : ∀ i, ph.Live i ↔ (s.phase p).Live i) (hu : ∀ i, ph.Uses i → i < s.fresh)
    (hmu : s.mu.Inv cfg s.maps (Function.update s.phase p ph)) : (s.goto p ph).Inv cfg where
  bearers := h.bearers
  total := h.total
  fresh := h.fresh
  mapped := h.mapped
  used q i hq := by
    by_cases hqp : q = p
    · subst hqp
      exact hu i (by simpa [ClientRun.goto] using hq)
    · exact h.used q i (by simpa [ClientRun.goto, hqp] using hq)
  stored q i hq := by
    by_cases hqp : q = p
    · subst hqp
      exact h.stored q i ((hl i).mp (by simpa [ClientRun.goto] using hq))
    · exact h.stored q i (by simpa [ClientRun.goto, hqp] using hq)
  active i := (h.active i).update_same (R := fun _ (x : RequestPhase) => x.Live i) (hl i)
  mu := hmu
  returned := h.returned

omit [DecidableEq π] in
theorem Inv.frame (h : s.Inv cfg) (hm : t.maps = s.maps) (hp : t.phase = s.phase)
    (hf : t.fresh = s.fresh) (ha : ∀ i, (t.states i).active = (s.states i).active)
    (hmu : t.mu.Inv cfg s.maps s.phase) (hr : t.returned = s.returned) : t.Inv cfg where
  bearers := hm ▸ h.bearers
  total := hm ▸ h.total
  fresh := hf ▸ h.fresh
  mapped := by rw [hm, hf]; exact h.mapped
  used := by rw [hp, hf]; exact h.used
  stored := by rw [hm, hp]; exact h.stored
  active i := by rw [hp, ha]; exact h.active i
  mu := by rw [hm, hp]; exact hmu
  returned := by rw [hr]; exact h.returned

omit [DecidableEq κ] [DecidableEq π] in
theorem onState_active {i : Nat} {f : ClientState π → ClientState π}
    (hf : ∀ st, (f st).active = st.active) (j : Nat) :
    ((s.onState i f).states j).active = (s.states j).active := by
  by_cases hj : j = i
  · subst hj
    simp [onState, hf]
  · simp [onState, hj]

theorem Inv.client {p : π} (h : s.Inv cfg) (hs : s.step cfg (.client p) = some t) :
    t.Inv cfg := by
  simp only [step] at hs
  split at hs
  · rename_i hmu hp
    have hgo : ∀ mu : ClientsMu π κ, mu.Inv cfg s.maps (Function.update s.phase p .calling) →
        ({ s with mu := mu }.goto p .calling).Inv cfg := fun mu hmu' => by
      refine Inv.goto (h.frame (t := { s with mu := .free }) rfl rfl rfl (fun _ => rfl) trivial rfl)
        ?_ (fun _ => False.elim) trivial |>.frame rfl rfl rfl (fun _ => rfl) hmu' rfl
      intro i
      simp [hp, RequestPhase.Live]
    split at hs
    · rename_i i hi
      cases hs
      exact hgo _ ⟨hi, by simp, Nat.zero_le _⟩
    · rename_i hnone
      have hpend : Admission.Pending cfg s.maps (Function.update s.phase p .calling)
          ⟨p, s.maps, 0, 0⟩ := ⟨hnone, by simp⟩
      split at hs
      · cases hs
        refine hgo _ ⟨?_, nofun, trivial, hpend, rfl, fun _ => ⟨rfl, rfl, rfl⟩⟩
        intro id hid
        obtain ⟨k, -, rfl⟩ := List.mem_map.mp hid
        rfl
      · rename_i hcap
        cases hs
        refine hgo _ ⟨hpend, .inl ⟨rfl, rfl, rfl⟩, fun hk => ?_⟩
        exact Nat.lt_of_not_le fun hle => hcap ⟨hk, hle⟩
  · cases hs

theorem Inv.cap (h : s.Inv cfg) (hs : s.step cfg .cap = some t) : t.Inv cfg := by
  simp only [step] at hs
  split at hs
  · rename_i A hmu
    have hi := h.mu
    rw [hmu] at hi
    obtain ⟨hpend, hdone, hbearer⟩ := hi
    split at hs
    · rename_i hfull
      cases hs
      have hun : A.Untouched s.maps := hdone.resolve_right fun hx => by
        have := hx.2
        omega
      refine h.frame rfl rfl rfl (fun _ => rfl) ⟨?_, nofun, trivial, hpend, hun.evicted,
        fun _ => hun, hbearer⟩ rfl
      intro id hid
      obtain hid | hid := List.mem_append.mp hid <;> obtain ⟨k, -, rfl⟩ := List.mem_map.mp hid <;>
        simp [SearchFor.ranges]
    · rename_i hroom
      cases hs
      refine h.frame rfl rfl rfl (fun _ => rfl) ⟨hpend, ?_, Nat.lt_of_not_le hroom, hbearer⟩ rfl
      obtain hun | hx := hdone
      · exact hun.evicted ▸ Nat.zero_le _
      · exact hx.1.le
  · cases hs

theorem Inv.sweepClients {now : Int} (h : s.Inv cfg)
    (hs : s.step cfg (.sweepClients now) = some t) : t.Inv cfg := by
  simp only [step] at hs
  split at hs
  · split at hs <;> cases hs
    refine h.frame rfl rfl rfl (fun _ => rfl) ⟨?_, nofun, trivial, trivial⟩ rfl
    intro id hid
    obtain ⟨k, -, rfl⟩ := List.mem_map.mp hid
    rfl
  · cases hs

theorem Inv.read {r : SearchRead κ} (h : s.Inv cfg) (hs : s.step cfg (.read r) = some t) :
    t.Inv cfg := by
  simp only [step] at hs
  split at hs
  · rename_i S hmu
    obtain ⟨S', hr, rfl⟩ := Option.map_eq_some_iff.mp hs
    have hi := h.mu
    rw [hmu] at hi
    exact h.frame rfl rfl rfl (fun _ => rfl) (IdleSearch.Inv.read hi h.active hr) rfl
  · cases hs

theorem Inv.refuse {A : Admission π κ} (h : s.Inv cfg) (hA : A.Untouched s.maps)
    (hc : s.phase A.request = .calling) :
    ({ s with mu := .free, returned := ⟨A, true, s.maps⟩ :: s.returned }.goto
      A.request .refused).Inv cfg := by
  have hret : ({ s with mu := .free, returned := ⟨A, true, s.maps⟩ :: s.returned } :
      ClientRun π κ).Inv cfg := by
    refine { h with mu := trivial, returned := ?_ }
    refine List.forall_mem_cons.mpr ⟨⟨hA.evicted ▸ Nat.zero_le _, fun _ => ?_⟩, h.returned⟩
    exact ⟨hA.evicted, hA.released, hA.before.symm⟩
  refine hret.goto (fun i => ?_) (fun _ => False.elim) trivial
  simp [hc, RequestPhase.Live]

theorem Inv.visited (h : s.Inv cfg) (hs : s.step cfg .visited = some t) : t.Inv cfg := by
  simp only [step] at hs
  split at hs
  · rename_i f now oldest hmu
    cases hs
    have hi := h.mu
    rw [hmu] at hi
    unfold ClientRun.visited
    have hclear : ∀ id i, oldest = some (id, i) →
        ({ s with mu := .search ⟨f, now, [], some (id, i), .clear id i⟩ } :
          ClientRun π κ).Inv cfg := by
      rintro id i rfl
      exact h.frame rfl rfl rfl (fun _ => rfl)
        ⟨hi.left, hi.oldest, hi.oldest id i rfl, hi.purpose⟩ rfl
    cases f with
    | sweepBots =>
      refine h.frame rfl rfl rfl (fun _ => rfl) ⟨?_, nofun, trivial, trivial⟩ rfl
      intro id hid
      obtain ⟨k, -, rfl⟩ := List.mem_map.mp hid
      rfl
    | sweepBearers => exact h.frame rfl rfl rfl (fun _ => rfl) trivial rfl
    | bearers A =>
      obtain _ | ⟨id, i⟩ := oldest
      · exact h.refuse (hi.purpose.2.2 rfl) hi.purpose.1.calling
      · exact hclear id i rfl
    | all A =>
      obtain _ | ⟨id, i⟩ := oldest
      · exact h.refuse (hi.purpose.2.2.1 rfl) hi.purpose.1.calling
      · exact hclear id i rfl
  · cases hs

theorem Inv.clear (h : s.Inv cfg) (hs : s.step cfg .clear = some t) : t.Inv cfg := by
  simp only [step] at hs
  split at hs
  · rename_i f now left oldest id i hmu
    cases hs
    have hi := h.mu
    rw [hmu] at hi
    refine h.frame rfl rfl rfl ?_ ?_ rfl
    · exact onState_active (f := fun st => (st.clear s.slots).1) fun _ => rfl
    · refine ⟨?_, fun id i ho => ?_, ⟨hi.pc.1.charge _, hi.pc.2⟩, ?_⟩
      · exact (SearchFor.charge_ranges _ f) ▸ hi.left
      · exact ⟨(hi.oldest id i ho).1.charge _, (hi.oldest id i ho).2⟩
      · cases f with
        | bearers A => exact ⟨⟨hi.purpose.1.absent, hi.purpose.1.calling⟩, hi.purpose.2.1, nofun⟩
        | all A =>
          refine ⟨⟨hi.purpose.1.absent, hi.purpose.1.calling⟩, hi.purpose.2.1, nofun, ?_⟩
          exact hi.purpose.2.2.2
        | sweepBots => trivial
        | sweepBearers => trivial
  · cases hs

omit [DecidableEq π] in
theorem Inv.erase {id : Identity κ} {i : Nat} {mu : ClientsMu π κ} (h : s.Inv cfg)
    (hl : s.maps.lookup id = some i) (hq : Quiet s.phase i)
    (hmu : mu.Inv cfg (s.maps.erase id) s.phase) (hk : id.kind ≠ .none) :
    ({ s with maps := s.maps.erase id, mu := mu } : ClientRun π κ).Inv cfg where
  bearers := ClientMaps.bearerCount_erase_le.trans h.bearers
  total := by
    have := ClientMaps.total_erase hl hk
    have := h.total
    change (s.maps.erase id).total ≤ _
    omega
  fresh := h.fresh
  mapped _ _ hm := h.mapped _ _ (ClientMaps.lookup_of_lookup_erase hm)
  used := h.used
  stored p j hj := by
    have hp := h.stored p j hj
    by_cases hid : cfg.identity p = id
    · rw [hid, hl, Option.some.injEq] at hp
      subst hp
      exact absurd hj (hq p)
    · change (s.maps.erase id).lookup _ = _
      rwa [ClientMaps.lookup_erase_ne hid]
  active := h.active
  mu := hmu
  returned := h.returned

omit [DecidableEq π] in
theorem pending_erase {A : Admission π κ} {maps : ClientMaps κ}
    {phase : π → RequestPhase} {id : Identity κ} {i : Nat} (h : A.Pending cfg maps phase)
    (hl : maps.lookup id = some i) : A.Pending cfg (maps.erase id) phase := by
  refine ⟨?_, h.calling⟩
  have hne : cfg.identity A.request ≠ id := fun he => by
    have := h.absent
    rw [he, hl] at this
    cases this
  rw [ClientMaps.lookup_erase_ne hne]
  exact h.absent

/-- After an eviction the total is below its cap, so the second check passes. -/
theorem Inv.delete (h : s.Inv cfg) (hs : s.step cfg .delete = some t) : t.Inv cfg := by
  simp only [step] at hs
  split at hs
  · rename_i f now left oldest id i hmu
    cases hs
    have hi := h.mu
    rw [hmu] at hi
    obtain ⟨hv, hq⟩ := hi.pc
    have hk := SearchFor.ranges_ne_none hv.ranges
    have htotal := ClientMaps.total_erase hv.lookup hk
    have hle := h.total
    refine h.erase hv.lookup hq ?_ hk
    cases f with
    | bearers A =>
      obtain ⟨hpend, hev, -⟩ := hi.purpose
      have hpend' := pending_erase hpend hv.lookup
      refine ⟨⟨hpend'.absent, hpend'.calling⟩, .inr ⟨?_, by omega⟩, fun _ => ?_⟩
      · exact congrArg (· + 1) hev
      · have := ClientMaps.bearerCount_erase hv.lookup hv.ranges
        have := h.bearers
        omega
    | all A =>
      obtain ⟨hpend, hev, -, hbearer⟩ := hi.purpose
      have hpend' := pending_erase hpend hv.lookup
      refine ⟨⟨hpend'.absent, hpend'.calling⟩, ?_, by omega, fun hb => ?_⟩
      · exact (congrArg (· + 1) hev).le
      · exact Nat.lt_of_le_of_lt ClientMaps.bearerCount_erase_le (hbearer hb)
    | sweepBots => exact ⟨hi.left, nofun, trivial, trivial⟩
    | sweepBearers => exact ⟨hi.left, nofun, trivial, trivial⟩
  · cases hs

theorem Inv.create (h : s.Inv cfg) (hs : s.step cfg .create = some t) : t.Inv cfg := by
  simp only [step] at hs
  split at hs
  · rename_i A hmu
    cases hs
    have hi := h.mu
    rw [hmu] at hi
    obtain ⟨hpend, hev, htotal, hbearer⟩ := hi
    have hk := ClientMaps.kind_ne_none hpend.absent
    have hunused : Quiet s.phase s.fresh := fun p hl => (h.used p _ hl.uses).ne rfl
    have hself : (s.maps.insert (cfg.identity A.request) s.fresh).lookup
        (cfg.identity A.request) = some s.fresh := ClientMaps.lookup_insert_self hk
    constructor
    case bearers =>
      refine ClientMaps.bearerCount_insert_le.trans ?_
      split
      · exact hbearer ‹_›
      · exact h.bearers
    case total => exact ClientMaps.total_insert_le.trans htotal
    case fresh => exact Nat.succ_pos _
    case mapped =>
      intro id i hid
      by_cases he : id = cfg.identity A.request
      · subst he
        cases hself.symm.trans hid
        exact Nat.lt_succ_self _
      · change (s.maps.insert _ _).lookup id = some i at hid
        rw [ClientMaps.lookup_insert_ne he] at hid
        exact Nat.lt_succ_of_lt (h.mapped id i hid)
    case used => exact fun p i hu => Nat.lt_succ_of_lt (h.used p i hu)
    case stored =>
      intro p i hl
      have hp := h.stored p i hl
      have he : cfg.identity p ≠ cfg.identity A.request := fun he => by
        rw [he, hpend.absent] at hp
        cases hp
      change (s.maps.insert _ _).lookup _ = _
      rwa [ClientMaps.lookup_insert_ne he]
    case active =>
      intro i
      by_cases hif : i = s.fresh
      · subst hif
        simpa [ClientState.newClientState] using Counts.zero hunused
      · simpa [hif] using h.active i
    case mu => exact ⟨hself, hpend.calling, hev⟩
    case returned => exact h.returned
  · cases hs

theorem Inv.begin (h : s.Inv cfg) (hs : s.step cfg .begin = some t) : t.Inv cfg := by
  simp only [step] at hs
  split at hs
  · rename_i A i hmu
    cases hs
    have hi := h.mu
    rw [hmu] at hi
    obtain ⟨hl, hc, hev⟩ := hi
    have hat : ∀ q j, (Function.update s.phase A.request (.beginning i) q).Uses j →
        q = A.request ∧ j = i ∨ (s.phase q).Uses j := fun q j hq => by
      by_cases hqp : q = A.request
      · subst hqp
        left
        simpa [RequestPhase.Uses, eq_comm] using hq
      · right
        simpa [hqp] using hq
    constructor
    case bearers => exact h.bearers
    case total => exact h.total
    case fresh => exact h.fresh
    case mapped => exact h.mapped
    case used =>
      intro q j hq
      obtain ⟨-, rfl⟩ | hq := hat q j hq
      · exact h.mapped _ _ hl
      · exact h.used q j hq
    case stored =>
      intro q j hq
      by_cases hqp : q = A.request
      · subst hqp
        obtain rfl : i = j := by simpa [ClientRun.goto, RequestPhase.Live] using hq
        exact hl
      · exact h.stored q j (by simpa [ClientRun.goto, onState, hqp] using hq)
    case active =>
      intro j
      by_cases hj : j = i
      · subst hj
        have hn : ¬(s.phase A.request).Live j := by simp [hc, RequestPhase.Live]
        have hb : (RequestPhase.beginning j).Live j := rfl
        have := (h.active j).update_add (R := fun _ (x : RequestPhase) => x.Live j) hn hb
        simpa [ClientRun.goto, onState, ClientState.addActive] using this
      · have hn : (RequestPhase.beginning i).Live j ↔ (s.phase A.request).Live j := by
          simp [hc, RequestPhase.Live, Ne.symm hj]
        have := (h.active j).update_same (R := fun _ (x : RequestPhase) => x.Live j) hn
        simpa [ClientRun.goto, onState, hj] using this
    case mu => exact ⟨by simp [ClientRun.goto], hev⟩
    case returned => exact h.returned
  · cases hs

theorem Inv.touch (h : s.Inv cfg) (hs : s.step cfg .touch = some t) : t.Inv cfg := by
  simp only [step] at hs
  split at hs
  · rename_i A i hmu
    cases hs
    have hi := h.mu
    rw [hmu] at hi
    obtain ⟨hb, hev⟩ := hi
    let s' : ClientRun π κ :=
      { s with mu := .free, returned := ⟨A, false, s.maps⟩ :: s.returned }
    have hret : s'.Inv cfg :=
      { h with mu := trivial, returned := List.forall_mem_cons.mpr ⟨⟨hev, nofun⟩, h.returned⟩ }
    have htouch : (s'.onState i (.touch s.now)).Inv cfg :=
      hret.frame rfl rfl rfl (onState_active fun _ => rfl) trivial rfl
    refine htouch.goto (fun j => ?_) (fun j hj => ?_) trivial
    · change _ ↔ (s.phase A.request).Live j
      rw [hb]
      rfl
    · refine h.used A.request j ?_
      rw [hb]
      exact hj
  · cases hs

theorem Inv.endActive {p : π} (h : s.Inv cfg) (hs : s.step cfg (.endActive p) = some t) :
    t.Inv cfg := by
  simp only [step] at hs
  split at hs
  · rename_i i hp
    cases hs
    have hc : Calmer s.phase (Function.update s.phase p (.ending i s.now)) :=
      calmer_goto (fun _ => False.elim) (by simp [hp]) (by simp [hp])
    refine { h with used := ?_, stored := fun q j hq => h.stored q j (hc.live q j hq)
                    active := ?_, mu := h.mu.mono hc }
    · intro q j hq
      by_cases hqp : q = p
      · subst hqp
        refine h.used q j ?_
        rw [hp]
        simpa [ClientRun.goto, RequestPhase.Uses] using hq
      · exact h.used q j (by simpa [ClientRun.goto, onState, hqp] using hq)
    · intro j
      by_cases hj : j = i
      · subst hj
        have hl : (s.phase p).Live j := by simp [hp, RequestPhase.Live]
        have hn : ¬(RequestPhase.ending j s.now).Live j := id
        have := (h.active j).update_sub (R := fun _ (x : RequestPhase) => x.Live j) hl hn
        simpa [ClientRun.goto, onState, ClientState.addActive, Int.sub_eq_add_neg] using this
      · have hn : (RequestPhase.ending i s.now).Live j ↔ (s.phase p).Live j := by
          simp [hp, RequestPhase.Live, Ne.symm hj]
        have := (h.active j).update_same (R := fun _ (x : RequestPhase) => x.Live j) hn
        simpa [ClientRun.goto, onState, hj] using this
  · cases hs

theorem Inv.endTouch {p : π} (h : s.Inv cfg) (hs : s.step cfg (.endTouch p) = some t) :
    t.Inv cfg := by
  simp only [step] at hs
  split at hs
  · rename_i i l hp
    cases hs
    have htouch := h.frame (t := s.onState i (.touch s.now)) rfl rfl rfl
      (onState_active fun _ => rfl) h.mu rfl
    refine htouch.goto (fun j => ?_) (fun j hj => ?_) ?_
    · simp [onState, hp, RequestPhase.Live]
    · refine h.used p j ?_
      rw [hp]
      exact hj
    · exact h.mu.mono (calmer_goto (fun _ => False.elim) (by simp [hp]) (by simp [hp]))
  · cases hs

theorem Inv.step {a : ClientAction π κ} (h : s.Inv cfg) (hs : s.step cfg a = some t) :
    t.Inv cfg := by
  cases a with
  | tick d =>
    cases hs
    exact h.frame rfl rfl rfl (fun _ => rfl) h.mu rfl
  | client p => exact h.client hs
  | sweepClients now => exact h.sweepClients hs
  | cap => exact h.cap hs
  | read r => exact h.read hs
  | visited => exact h.visited hs
  | clear => exact h.clear hs
  | delete => exact h.delete hs
  | create => exact h.create hs
  | begin => exact h.begin hs
  | touch => exact h.touch hs
  | endActive p => exact h.endActive hs
  | endTouch p => exact h.endTouch hs
  | op p o =>
    simp only [ClientRun.step] at hs
    split at hs
    · split at hs <;> cases hs
      refine h.frame rfl rfl rfl ?_ h.mu rfl
      exact onState_active (f := fun st => (st.apply s.now s.slots o).1) fun st =>
        (ClientState.apply_counters _ _ st o).1
    · cases hs
  | sweepBucket i hash =>
    simp only [ClientRun.step] at hs
    split at hs
    · cases hs
    · split at hs <;> cases hs
      refine h.frame rfl rfl rfl ?_ h.mu rfl
      exact onState_active (f := fun st => { st with table := st.table.eraseBucket hash })
        fun _ => rfl
  | sweepAlias i route =>
    simp only [ClientRun.step] at hs
    split at hs
    · cases hs
    · split at hs <;> cases hs
      refine h.frame rfl rfl rfl ?_ h.mu rfl
      exact onState_active (f := fun st => { st with table := st.table.eraseAlias route })
        fun _ => rfl

theorem inv_of_reachable (h : (system cfg).Reachable s) : s.Inv cfg := by
  refine System.Reach.invariant ?_ ?_ h
  · rintro s ⟨now, rfl⟩
    exact start_inv now
  · intro s a t hi _ hs
    exact hi.step hs

/-- The client table keeps its caps; a state with requests in use is the one stored under its
credential, so requests of one credential share it; an admission evicts at most one state, and
one that is refused has evicted nothing, released no slot and left both maps as they were. -/
theorem client_caps (cfg : ClientConfig π κ) (s : ClientRun π κ)
    (h : (system cfg).Reachable s) :
    s.maps.bearerCount ≤ cfg.maxBearerClients ∧ s.maps.total ≤ cfg.maxClientStates ∧
    (∀ i, 0 < (s.states i).active →
      ∃ p, (s.phase p).Live i ∧ s.maps.lookup (cfg.identity p) = some i) ∧
    (∀ p i, (s.phase p).Live i → s.maps.lookup (cfg.identity p) = some i) ∧
    (∀ p q i j, (s.phase p).Live i → (s.phase q).Live j → cfg.identity p = cfg.identity q →
      i = j) ∧
    (∀ r ∈ s.returned, r.call.evicted ≤ 1 ∧ (r.tooManyClients = true →
      r.call.evicted = 0 ∧ r.call.released = 0 ∧ r.after = r.call.before)) := by
  have hi := inv_of_reachable h
  refine ⟨hi.bearers, hi.total, fun i hpos => ?_, hi.stored, fun p q i j hp hq he => ?_,
    fun r hr => ⟨(hi.returned r hr).evicted, (hi.returned r hr).refused⟩⟩
  · obtain ⟨F, hF, hcard⟩ := hi.active i
    have hne : 0 < F.card := by omega
    obtain ⟨p, hp⟩ := Finset.card_pos.mp hne
    exact ⟨p, (hF p).mp hp, hi.stored p i ((hF p).mp hp)⟩
  · have h1 := hi.stored p i hp
    rw [he, hi.stored q j hq, Option.some.injEq] at h1
    exact h1.symm

/-- One bearer state is allowed.  While request 0 uses it, request 1 is refused; eleven minutes
after it ended, request 2 evicts it. -/
theorem client_caps_evicts_idle :
    let cfg : ClientConfig (Fin 3) (Fin 3) := ⟨fun p => ⟨.bearer, p⟩, 1, 2, 1, 1, fun _ => 50⟩
    let create := [.cap, .create, .begin, .touch]
    ∃ s, (system cfg).run (start cfg 0)
        ([.client 0] ++ create ++
          [.client 1, .read (.visit ⟨.bearer, 0⟩), .read (.idle none), .read (.idle none), .visited,
            .endActive 0, .endTouch 0, .tick (11 * 60 * 1000000000),
            .client 2, .read (.visit ⟨.bearer, 0⟩), .read (.idle none), .read (.idle none),
            .read (.idle none), .read (.idle none), .read (.idle none), .visited, .clear,
            .delete] ++
          create) = some s ∧
      s.returned.map (fun r => (r.call.evicted, r.tooManyClients)) =
        [(1, false), (0, true), (0, false)] ∧
      (s.phase 2).Live 2 ∧ s.maps.lookup ⟨.bearer, 2⟩ = some 2 ∧ s.maps.bearerCount ≤ 1 := by
  intro cfg create
  generalize hrun : (system cfg).run (start cfg 0) _ = result
  have hresult : result.map (fun s =>
      (s.returned.map (fun r => (r.call.evicted, r.tooManyClients)), s.phase 2)) =
        some ([(1, false), (0, true), (0, false)], .active 2) := by
    rw [← hrun]
    decide
  obtain ⟨s, rfl, he⟩ := Option.map_eq_some_iff.mp hresult
  obtain ⟨hret, hp⟩ := Prod.mk.inj he
  have hr : (system cfg).Reachable s := System.Reachable.run (.init ⟨0, rfl⟩) hrun
  have hl : (s.phase 2).Live 2 := by rw [hp]; rfl
  obtain ⟨hb, -, -, hstored, -⟩ := client_caps cfg s hr
  exact ⟨s, rfl, hret, hl, hstored 2 2 hl, hb⟩

end ClientRun

end NirnProxy
