import NirnProxy.Scheduler.Credential
import NirnProxy.Scheduler.Ownership

/-! The validation of a credential and the lock after a 401.  Who has the validation gate and has
not seen a response yet knows that the validity is unknown; who has passed the check without the
gate knows that it is not. -/

universe u

namespace NirnProxy

open scoped Parties

variable {π : Type u}

def SchedulerConfig.Ordinary (cfg : SchedulerConfig π) (p : π) : Prop :=
  (cfg.request p).interaction = false

def CheckStage.Fits (own : Bool) : CheckStage → Prop
  | .granted | .rejected | .stored _ => own = true
  | .before | .queued | .settled _ | .retrying => own = false
  | .deciding | .admitted | .observed _ | .unwinding => True

def CheckStage.Knows (cfg : SchedulerConfig π) (p : π) (v : Validity) (own : Bool) :
    CheckStage → Prop
  | .before | .queued | .granted | .unwinding => True
  | .rejected | .stored _ => v ≠ .unknown
  | .deciding | .admitted => if own then v = .unknown else cfg.Ordinary p → v ≠ .unknown
  | .observed u =>
    if own then v = if u && !cfg.disable401Lock then .invalid else .unknown
    else cfg.Ordinary p → v ≠ .unknown
  | .settled _ | .retrying => cfg.Ordinary p → v ≠ .unknown

namespace CheckPhase

def Fits (cfg : SchedulerConfig π) (p : π) : CheckPhase → Prop
  | .out | .between => True
  | .held own stage => stage.Fits own ∧ (own = true ∨ stage = .queued → cfg.Ordinary p)

def Knows (cfg : SchedulerConfig π) (p : π) (v : Validity) : CheckPhase → Prop
  | .out => True
  | .between => cfg.Ordinary p → v ≠ .unknown
  | .held own stage => stage.Knows cfg p v own

variable {cfg : SchedulerConfig π} {p : π} {v w : Validity} {φ ψ : CheckPhase}

theorem Eases.fits (he : φ.Eases (cfg.request p).interaction v ψ) (hf : φ.Fits cfg p) :
    ψ.Fits cfg p := by
  cases he with
  | refl => exact hf
  | begin | resume => exact ⟨by trivial, nofun⟩
  | stop | answer | again | giveUp | leave => trivial
  | ask hi hv => exact ⟨hf.1, fun _ => hi⟩
  | skip | enter | refuse | fail | settle | retry | reject | confirm =>
    refine ⟨?_, fun h => hf.2 (h.imp_right nofun)⟩
    first | exact hf.1 | trivial

theorem Eases.knows (he : φ.Eases (cfg.request p).interaction v ψ) (hf : φ.Fits cfg p)
    (hk : φ.Knows cfg p v) : ψ.Knows cfg p v := by
  cases he with
  | refl => exact hk
  | begin | stop | ask | refuse | fail | answer | giveUp | leave => trivial
  | resume | enter | settle | retry | again => exact hk
  | reject hv => exact hv
  | skip hv =>
    obtain ⟨rfl, -⟩ := hf
    exact hv
  | confirm hv =>
    obtain ⟨rfl, -⟩ := hf
    exact hv

theorem Eases.role (he : φ.Eases (cfg.request p).interaction v ψ) (hf : φ.Fits cfg p) :
    ψ.role = φ.role ∨ φ.role = .out ∧ ψ.role = .queued := by
  cases he with
  | refl | begin | resume | stop | settle | leave => exact .inl rfl
  | ask | answer | again | giveUp =>
    obtain ⟨rfl, -⟩ := hf
    first | exact .inl rfl | exact .inr ⟨rfl, rfl⟩
  | @skip own | @reject own | @confirm own | @enter own | @refuse own | @fail own | @retry own =>
    cases own <;> exact .inl rfl

theorem Knows.set (hk : φ.Knows cfg p v) (hw : w ≠ .unknown)
    (hown : ∀ stage, φ = .held true stage → v ≠ .unknown ∧ (v = .invalid → w = .invalid)) :
    φ.Knows cfg p w := by
  cases φ with
  | out => trivial
  | between => exact fun _ => hw
  | held own stage =>
    cases own with
    | false => cases stage <;> first | trivial | exact hw | exact fun _ => hw
    | true =>
      obtain ⟨hv, hvw⟩ := hown stage rfl
      cases stage with
      | deciding | admitted => exact (hv hk).elim
      | observed u =>
        simp only [Knows, CheckStage.Knows, if_true] at hk ⊢
        by_cases hu : (u && !cfg.disable401Lock) = true
        · rw [if_pos hu] at hk ⊢
          exact hvw hk
        · rw [if_neg hu] at hk
          exact (hv hk).elim
      | _ => first | trivial | exact hw | exact fun _ => hw

end CheckPhase

namespace CredentialView

variable [DecidableEq π]

structure Checked (cfg : SchedulerConfig π) (v : CredentialView π) : Prop where
  validation : v.validation.Manned fun p => (v.check p).role
  pacer : v.pacer.Manned v.pace
  fits : ∀ p, (v.check p).Fits cfg p
  knows : ∀ p, (v.check p).Knows cfg p v.validity
  pacing : ∀ p, v.pace p ≠ .out → ∃ own, v.check p = .held own .admitted
  unlocked : cfg.disable401Lock = true → v.validity ≠ .invalid
  anonymous : cfg.kind = .none → v.validity = .valid

variable {cfg : SchedulerConfig π} {K : CredentialView π → π → Prop} {v v' : CredentialView π}
  {p q : π} {φ : CheckPhase} {ρ : GateRole} {w : Validity} {g g' : FifoGate π}

theorem Checked.own_unique {stage stage' : CheckStage} (h : v.Checked cfg)
    (hp : v.check p = .held true stage) (hq : v.check q = .held true stage') : p = q :=
  h.validation.unique (by simp only [hp]; rfl) (by simp only [hq]; rfl)

theorem Checked.update (h : v.Checked cfg)
    (hg : g.Manned (Function.update (fun q => (v.check q).role) p φ.role))
    (hg' : g'.Manned (Function.update v.pace p ρ)) (hfits : φ.Fits cfg p)
    (hknows : φ.Knows cfg p w) (hothers : ∀ q, q ≠ p → (v.check q).Knows cfg q w)
    (hpacing : ρ ≠ .out → ∃ own, φ = .held own .admitted)
    (hunlocked : cfg.disable401Lock = true → w ≠ .invalid)
    (hanonymous : cfg.kind = .none → w = .valid) :
    ({ v with validity := w, validation := g, pacer := g' }.goto p φ ρ).Checked cfg where
  validation := by
    have hroles : (fun q => (Function.update v.check p φ q).role) =
        Function.update (fun q => (v.check q).role) p φ.role :=
      Function.comp_update CheckPhase.role v.check p φ
    exact hroles ▸ hg
  pacer := hg'
  fits q := by
    by_cases hq : q = p
    · subst hq
      simpa [goto] using hfits
    · simpa [goto, hq] using h.fits q
  knows q := by
    by_cases hq : q = p
    · subst hq
      simpa [goto] using hknows
    · simpa [goto, hq] using hothers q hq
  pacing q hq := by
    by_cases hqp : q = p
    · subst hqp
      simpa [goto] using hpacing (by simpa [goto] using hq)
    · simpa [goto, hqp] using h.pacing q (by simpa [goto, hqp] using hq)
  unlocked := hunlocked
  anonymous := hanonymous

omit [DecidableEq π] in
theorem locks_eq {u : Bool} (hp : cfg.Ordinary p) (hk : cfg.kind ≠ .none) :
    cfg.locks p u = (u && !cfg.disable401Lock) := by
  unfold SchedulerConfig.Ordinary at hp
  simp [SchedulerConfig.locks, hp, bne_iff_ne.mpr hk]

omit [DecidableEq π] in
theorem of_locks {u : Bool} (h : cfg.locks p u = true) :
    u = true ∧ cfg.Ordinary p ∧ cfg.kind ≠ .none ∧ cfg.disable401Lock = false := by
  simpa [SchedulerConfig.locks, SchedulerConfig.Ordinary, and_assoc] using h

theorem Checked.observe {own u : Bool} (h : v.Checked cfg) (hp : v.pace p = .out)
    (hc : v.check p = .held own .admitted) :
    ({ v with validity := if cfg.locks p u then .invalid else v.validity }.goto p
      (.held own (.observed u)) .out).Checked cfg := by
  have hf := h.fits p
  have hk := h.knows p
  rw [hc] at hf hk
  have hrole : (CheckPhase.held own (.observed u)).role = (v.check p).role := by
    rw [hc]
    cases own <;> rfl
  refine h.update ?_ ?_ ⟨trivial, fun e => hf.2 (e.imp_right nofun)⟩ ?_ (fun q hq => ?_)
    (absurd rfl) (fun hd => ?_) (fun hn => ?_)
  · rw [hrole, Function.update_eq_self]
    exact h.validation
  · rw [← hp, Function.update_eq_self]
    exact h.pacer
  · cases own with
    | true =>
      have hv : v.validity = .unknown := hk
      have hkind : cfg.kind ≠ .none := fun hn => nomatch hv.symm.trans (h.anonymous hn)
      rw [locks_eq (hf.2 (.inl rfl)) hkind, hv]
      rfl
    | false =>
      intro ho
      split
      · exact nofun
      · exact hk ho
  · split
    · rename_i hlock
      obtain ⟨-, ho, -, -⟩ := of_locks hlock
      refine (h.knows q).set nofun fun stage hstage => ⟨?_, fun _ => rfl⟩
      cases own with
      | true => exact (hq (h.own_unique hstage hc)).elim
      | false => exact hk ho
    · exact h.knows q
  · have hlock : cfg.locks p u = false := by simp [SchedulerConfig.locks, hd]
    simpa [hlock] using h.unlocked hd
  · have hlock : cfg.locks p u = false := by simp [SchedulerConfig.locks, hn]
    simpa [hlock] using h.anonymous hn

theorem Checked.store {u : Bool} (h : v.Checked cfg) (hp : v.pace p = .out)
    (hc : v.check p = .held true (.observed u)) :
    ({ v with validity := if u && !cfg.disable401Lock then .invalid else .valid }.goto p
      (.held true (.stored u)) .out).Checked cfg := by
  have hf := h.fits p
  have hk := h.knows p
  rw [hc] at hf hk
  have hv : v.validity = if u && !cfg.disable401Lock then .invalid else .unknown := hk
  have hw : (if u && !cfg.disable401Lock then Validity.invalid else .valid) ≠ .unknown := by
    split <;> exact nofun
  refine h.update ?_ ?_ ⟨rfl, fun e => hf.2 (.inl rfl)⟩ hw (fun q hq => ?_) (absurd rfl)
    (fun hd => ?_) (fun hn => ?_)
  · have hrole : (CheckPhase.held true (.stored u)).role = (v.check p).role := by
      rw [hc]
      rfl
    rw [hrole, Function.update_eq_self]
    exact h.validation
  · rw [← hp, Function.update_eq_self]
    exact h.pacer
  · exact (h.knows q).set hw fun stage hstage => (hq (h.own_unique hstage hc)).elim
  · simp [hd]
  · rw [h.anonymous hn] at hv
    split at hv <;> cases hv

theorem Checked.move (h : v.Checked cfg) (hrole : φ.role = (v.check p).role)
    (hg' : g'.Manned (Function.update v.pace p ρ)) (hfits : φ.Fits cfg p)
    (hknows : φ.Knows cfg p v.validity) (hpacing : ρ ≠ .out → ∃ own, φ = .held own .admitted) :
    ({ v with pacer := g' }.goto p φ ρ).Checked cfg := by
  refine h.update ?_ hg' hfits hknows (fun q _ => h.knows q) hpacing h.unlocked h.anonymous
  rw [hrole, Function.update_eq_self]
  exact h.validation

theorem Checked.pace {own : Bool} (h : v.Checked cfg) (hp : v.check p = .held own .admitted)
    (hg' : g'.Manned (Function.update v.pace p ρ))
    (hφ : φ = .held own .admitted ∨ φ = .held own .unwinding ∧ ρ = .out) :
    ({ v with pacer := g' }.goto p φ ρ).Checked cfg := by
  have hf := h.fits p
  have hk := h.knows p
  rw [hp] at hf hk
  obtain rfl | ⟨rfl, rfl⟩ := hφ
  · exact h.move (by rw [hp]) hg' hf hk fun _ => ⟨own, rfl⟩
  · refine h.move ?_ hg' ⟨trivial, fun e => hf.2 (e.imp_right nofun)⟩ trivial (absurd rfl)
    rw [hp]
    cases own <;> rfl

theorem Checked.trip (h : v.Checked cfg) (hm : TripMoves cfg K v p v') : v'.Checked cfg := by
  have hf := h.fits p
  have hk := h.knows p
  have hpacer : v.pace p = .out → v.pacer.Manned (Function.update v.pace p .out) :=
    fun hp => by
      rw [← hp, Function.update_eq_self]
      exact h.pacer
  cases hm with
  | stay hp he =>
    refine h.update ?_ (hpacer hp) (he.fits hf) (he.knows hf hk) (fun q _ => h.knows q)
      (absurd rfl) h.unlocked h.anonymous
    obtain hr | ⟨hr, hr'⟩ := he.role hf
    · rw [hr, Function.update_eq_self]
      exact h.validation
    · rw [hr']
      exact h.validation.enter hr
  | @validation own done a g r hp hc hs =>
    rw [hc] at hf
    obtain ⟨rfl, ho⟩ := hf
    refine h.update ?_ (hpacer hp) ?_ ?_ (fun q _ => h.knows q) (absurd rfl) h.unlocked h.anonymous
    · have hrole : (r.check false).role = r.role := by cases r <;> rfl
      rw [hrole]
      exact h.validation.step (by simp only [hc]; rfl) hs
    · cases r with
      | pending => exact ⟨rfl, ho⟩
      | granted => exact ⟨rfl, fun _ => ho (.inr rfl)⟩
      | refused => exact ⟨trivial, nofun⟩
    · cases r <;> trivial
  | @release own stage stage' done g r hp hc hr hs =>
    rw [hc] at hk
    refine h.update ?_ (hpacer hp) ?_ ?_ (fun q _ => h.knows q) (absurd rfl) h.unlocked h.anonymous
    · have hrole : (CheckPhase.held false stage').role = .out := by cases hr <;> rfl
      rw [hrole]
      exact h.validation.release hs
    · cases hr <;> exact ⟨by trivial, nofun⟩
    · cases hr with
      | rejected => exact fun _ => hk
      | stored => exact fun _ => hk
      | unwinding => trivial
  | observe hp hc => exact h.observe hp hc
  | store hp hc => exact h.store hp hc
  | @approach own hp hc => exact h.pace hc (h.pacer.enter hp) (.inl rfl)
  | pacer hp hc hs hφ =>
    exact h.pace hc (h.pacer.step hp hs) hφ
  | @paced own hp hc =>
    refine h.pace hc ?_ (.inl rfl)
    rw [← hp, Function.update_eq_self]
    exact h.pacer
  | yield hp hc hs hφ => exact h.pace hc (h.pacer.release hs) (hφ.imp_right fun e => ⟨e, rfl⟩)

theorem Checked.clear {n m k : Nat} (h : v.Checked cfg)
    (hout : ∀ p, v.check p = .out ∧ v.pace p = .out) :
    Checked cfg { v with
      generation := k
      validity := if cfg.kind = .none then .valid else .unknown
      validation := .newFIFOGate n
      pacer := .newFIFOGate m } where
  validation := by
    have hroles : (fun p => (v.check p).role) = fun _ => .out := by
      funext p
      rw [(hout p).1]
      rfl
    exact hroles ▸ FifoGate.manned_new n
  pacer := by
    have hroles : v.pace = fun _ => .out := funext fun p => (hout p).2
    exact hroles ▸ FifoGate.manned_new m
  fits := h.fits
  knows p := by
    simp only [(hout p).1]
    trivial
  pacing := h.pacing
  unlocked _ := by
    simp only
    split <;> exact nofun
  anonymous hn := if_pos hn

theorem Checked.step {l : Option π} (h : v.Checked cfg) (hm : Moves cfg K v l v') :
    v'.Checked cfg := by
  cases hm with
  | same => exact h
  | trip hm => exact h.trip hm
  | clear hout => exact h.clear hout

/-- What a state has come to know about its credential it does not forget, and a lock stays. -/
def Remembers (v v' : CredentialView π) : Prop :=
  (v.validity ≠ .unknown → v'.validity ≠ .unknown) ∧
    (v.validity = .invalid → v'.validity = .invalid)

omit [DecidableEq π] in
theorem Remembers.refl (v : CredentialView π) : v.Remembers v := ⟨id, id⟩

omit [DecidableEq π] in
theorem Remembers.trans {v'' : CredentialView π} (h : v.Remembers v') (h' : v'.Remembers v'') :
    v.Remembers v'' :=
  ⟨h'.1 ∘ h.1, h'.2 ∘ h.2⟩

theorem Checked.remembers {l : Option π} (h : v.Checked cfg) (hm : Moves cfg K v l v') :
    v.generation ≤ v'.generation ∧ (v'.generation = v.generation → v.Remembers v') := by
  cases hm with
  | same => exact ⟨le_rfl, fun _ => .refl v⟩
  | clear => exact ⟨Nat.le_succ _, fun e => absurd e (Nat.succ_ne_self _)⟩
  | @trip p _ hm =>
    have hk := h.knows p
    cases hm with
    | observe =>
      refine ⟨le_rfl, fun _ => ⟨fun hv => ?_, fun hv => ?_⟩⟩ <;> simp only [goto] <;> split
      · exact fun h => by cases h
      · exact hv
      · rfl
      · exact hv
    | @store u hp hc =>
      rw [hc] at hk
      have hv : v.validity = if u && !cfg.disable401Lock then .invalid else .unknown := hk
      refine ⟨le_rfl, fun _ => ⟨fun _ => ?_, fun hinvalid => ?_⟩⟩
      · simp only [goto]
        split <;> exact fun h => by cases h
      · rw [hinvalid] at hv
        simp only [goto]
        split at hv
        · rename_i hu
          exact if_pos hu
        · cases hv
    | _ => exact ⟨le_rfl, fun _ => .refl v⟩

end CredentialView

namespace SchedulerRun

variable [DecidableEq π] {cfg : SchedulerConfig π} {C : SchedulerRun π → SchedulerAction π → Prop}
  {s t : SchedulerRun π} {p q : π}

theorem owned_of_reach (h : (system cfg).Reach C s) : s.view.Owned :=
  invariant_of_moves (K := fun _ _ _ => True) (start_owned cfg) (fun _ _ _ hv hm => hv.step hm)
    (h.mono fun _ _ _ _ _ _ _ _ _ _ => trivial)

omit [DecidableEq π] in
theorem locks_trivial (s : SchedulerRun π) (a : SchedulerAction π) :
    Locks cfg (fun _ _ => True) s a :=
  fun _ _ _ _ _ _ _ => trivial

theorem start_checked (cfg : SchedulerConfig π) (now : Int) :
    (start cfg now).credential.Checked cfg where
  validation := FifoGate.manned_new _
  pacer := FifoGate.manned_new _
  fits _ := trivial
  knows _ := trivial
  pacing _ h := absurd rfl h
  unlocked _ := by
    simp only [credential, start, ClientState.newClientState]
    split <;> exact fun h => by cases h
  anonymous hn := if_pos hn

theorem checked_of_reach (h : (system cfg).Reach C s) : s.credential.Checked cfg := by
  refine h.invariant_with (J := fun s => s.view.Owned) (I := fun s => s.credential.Checked cfg)
    (fun _ => owned_of_reach) ?_ fun s a t ho _ hi _ hs => ?_
  · rintro _ ⟨now, rfl⟩
    exact start_checked cfg now
  · exact hi.step (step_checks ho (locks_trivial s a) hs)

theorem remembers_of_leads (hs : (system cfg).Reach C s) (h : (system cfg).Leads C s t) :
    s.generation ≤ t.generation ∧
      (t.generation = s.generation → s.credential.Remembers t.credential) := by
  induction h with
  | refl => exact ⟨le_rfl, fun _ => .refl _⟩
  | @step t a u h hc ht ih =>
    have hr := h.reach hs
    obtain ⟨hle, hkeep⟩ := (checked_of_reach hr).remembers
      (step_checks (owned_of_reach hr) (locks_trivial t a) ht)
    change t.generation ≤ u.generation at hle
    refine ⟨ih.1.trans hle, fun e => ?_⟩
    have hst : t.generation = s.generation := le_antisymm (e ▸ hle) ih.1
    exact (ih.2 hst).trans (hkeep (e.trans hst.symm))

/-- An attempt of `p` is in flight. -/
def InFlight (s : SchedulerRun π) (p : π) : Prop := ∃ h, s.pc p = .held h .inFlight

/-- While the validity of the credential is unknown, an ordinary attempt in flight belongs to the
owner of the validation gate, so that there is at most one.  As long as the state lives, its
validity does not become unknown again, and an invalid credential stays invalid; with
`disable401Lock` it never becomes invalid. -/
theorem validation_serialised (cfg : SchedulerConfig π) (h : (system cfg).Reachable s) :
    (s.client.validity = .unknown → ∀ p, cfg.Ordinary p → s.InFlight p →
      s.client.validation.call p = .owner ∧ ∀ q, cfg.Ordinary q → s.InFlight q → q = p) ∧
    (∀ t, (system cfg).Leads (fun _ _ => True) s t → t.generation = s.generation →
      (s.client.validity ≠ .unknown → t.client.validity ≠ .unknown) ∧
      (s.client.validity = .invalid → t.client.validity = .invalid)) ∧
    (cfg.disable401Lock = true → s.client.validity ≠ .invalid) := by
  have hi := checked_of_reach h
  refine ⟨fun hv => ?_, fun t ht hg => (remembers_of_leads h ht).2 hg, hi.unlocked⟩
  have hown : ∀ p, cfg.Ordinary p → s.InFlight p →
      s.credential.check p = .held true .admitted := by
    rintro p ho ⟨held, hp⟩
    have hc : s.credential.check p = .held held.validation .admitted := congrArg TripPc.check hp
    have hk := hi.knows p
    rw [hc] at hk
    cases hval : held.validation with
    | true => rw [hc, hval]
    | false =>
      rw [hval] at hk
      exact (hk ho hv).elim
  intro p ho hp
  have hc := hown p ho hp
  exact ⟨hi.validation.call_owner (by simp only [hc]; rfl), fun q hoq hq =>
    hi.own_unique (hown q hoq hq) hc⟩

def guarded (n : Nat) : SchedulerConfig (Fin n) := { twoRoutes n with kind := .bot }

def plain (status : Nat) : Response := ⟨status, ⟨[], 1, 0, false⟩, false⟩

end SchedulerRun

namespace TripAction

def validate : List TripAction :=
  [.go, .gate .enter, .gate .check, .go, .go, .oracle true, .go, .go, .go, .go, .go]

def settle : List TripAction := .go :: leave

end TripAction

namespace SchedulerRun

open TripAction in
/-- Request 0 is in flight with the validation gate, and request 1 waits for that gate. -/
def validating : List (SchedulerAction (Fin 2)) :=
  acts 0 (arrive ++ acquire false ++ validate ++ pace ++ send) ++
  acts 1 (arrive ++ acquire false ++ [.go, .gate .enter])

theorem validation_serialised_queued :
    ∃ s : SchedulerRun (Fin 2), s.client.validity = .unknown ∧ s.InFlight 0 ∧
      s.pc 1 = .held ⟨1, 0, false⟩ .validation ∧ s.client.validation.call 0 = .owner ∧
      ¬s.InFlight 1 := by
  have hrun : ((system (guarded 2)).run (start (guarded 2) 0) validating).map
      (fun s => (s.client.validity, s.pc 0, s.pc 1)) =
      some (.unknown, .held ⟨0, 0, true⟩ .inFlight, .held ⟨1, 0, false⟩ .validation) := by
    decide +kernel
  obtain ⟨s, hs, he⟩ := Option.map_eq_some_iff.mp hrun
  simp only [Prod.mk.injEq] at he
  obtain ⟨hv, h0, h1⟩ := he
  have hflight : s.InFlight 0 := ⟨_, h0⟩
  obtain ⟨hserial, -, -⟩ :=
    validation_serialised (guarded 2) (System.Reachable.run (.init ⟨0, rfl⟩) hs)
  obtain ⟨howner, honly⟩ := hserial hv 0 rfl hflight
  exact ⟨s, hv, hflight, h1, howner, fun hf => absurd (honly 1 rfl hf) (by decide)⟩

end SchedulerRun

/-- A request in this stage has passed its validity check and may yet send an attempt. -/
def CheckStage.past : CheckStage → Bool
  | .admitted | .retrying => true
  | .observed unauthorized | .stored unauthorized | .settled unauthorized => !unauthorized
  | .before | .queued | .granted | .rejected | .deciding | .unwinding => false

def CheckPhase.past : CheckPhase → Bool
  | .out => false
  | .between => true
  | .held _ stage => stage.past

namespace CredentialView

variable [DecidableEq π] {cfg : SchedulerConfig π} {v v' : CredentialView π} {p q : π}

def Alone (cfg : SchedulerConfig π) (v : CredentialView π) (p : π) : Prop :=
  ∀ q, q ≠ p → cfg.Ordinary q → (v.check q).past = false

/-- Nobody who might send an ordinary attempt is left once the credential is locked. -/
def Shut (cfg : SchedulerConfig π) (v : CredentialView π) : Prop :=
  v.validity = .invalid → ∀ q, cfg.Ordinary q → (v.check q).past = false

theorem past_of_eases {i : Bool} {φ ψ : CheckPhase} (he : φ.Eases i .invalid ψ)
    (h : φ.past = false) : ψ.past = false := by
  cases he with
  | refl => exact h
  | enter hv => exact absurd rfl hv
  | settle => exact h
  | resume | retry | again => cases h
  | _ => rfl

theorem Shut.goto {φ : CheckPhase} {ρ : GateRole} {g g' : FifoGate π} (h : v.Shut cfg)
    (hp : v.validity = .invalid → (v.check p).past = false → φ.past = false) :
    ({ v with validation := g, pacer := g' }.goto p φ ρ).Shut cfg := by
  intro hv q ho
  by_cases hq : q = p
  · subst hq
    simpa [CredentialView.goto] using hp hv (h hv q ho)
  · simpa [CredentialView.goto, hq] using h hv q ho

theorem Shut.step {l : Option π} (hi : v.Checked cfg) (h : v.Shut cfg)
    (hm : Moves cfg (Alone cfg) v l v') : v'.Shut cfg := by
  cases hm with
  | same => exact h
  | clear hout =>
    intro _ q _
    simp only [(hout q).1]
    rfl
  | @trip p _ hm =>
    cases hm with
    | stay hp he =>
      refine h.goto fun hv => past_of_eases (i := (cfg.request p).interaction) ?_
      exact hv ▸ he
    | @validation own _ _ _ r => exact h.goto fun _ _ => by cases r <;> rfl
    | @release own stage stage' _ _ _ hp hc hr =>
      refine h.goto fun _ => ?_
      rw [hc]
      cases hr <;> exact id
    | @observe own u hp hc hK =>
      intro hv q ho
      by_cases hlock : cfg.locks p u = true
      · obtain ⟨rfl, -⟩ := of_locks hlock
        by_cases hq : q = p
        · simp [CredentialView.goto, hq, CheckPhase.past, CheckStage.past]
        · simpa [CredentialView.goto, hq] using hK hlock q hq ho
      · simp only [CredentialView.goto, hlock] at hv
        have hpast : ∀ q, cfg.Ordinary q → (v.check q).past = false := h (by simpa using hv)
        by_cases hq : q = p
        · subst hq
          have := hpast q ho
          rw [hc] at this
          cases this
        · simpa [CredentialView.goto, hq] using hpast q ho
    | @store u hp hc =>
      have hk := hi.knows p
      rw [hc] at hk
      have hv : v.validity = if u && !cfg.disable401Lock then .invalid else .unknown := hk
      intro hv' q ho
      simp only [CredentialView.goto] at hv'
      split at hv'
      · rename_i hu
        obtain ⟨rfl, -⟩ := Bool.and_eq_true_iff.mp hu
        by_cases hq : q = p
        · simp [CredentialView.goto, hq, CheckPhase.past, CheckStage.past]
        · simpa [CredentialView.goto, hq] using h (hv.trans (if_pos hu)) q ho
      · cases hv'
    | approach hp hc => exact h.goto fun _ hpast => hc ▸ hpast
    | paced hp hc => exact h.goto fun _ hpast => hc ▸ hpast
    | pacer hp hc _ hφ =>
      refine h.goto fun _ hpast => ?_
      rw [hc] at hpast
      cases hpast
    | yield hp hc _ hφ =>
      refine h.goto fun _ hpast => ?_
      rw [hc] at hpast
      cases hpast

end CredentialView

namespace SchedulerRun

variable [DecidableEq π] {cfg : SchedulerConfig π} {s t : SchedulerRun π} {p q : π}

/-- When the 401 of an ordinary request locks the credential, no other ordinary request is on its
way from its validity check to an attempt or from one attempt to the next. -/
def NoLateLock (cfg : SchedulerConfig π) : SchedulerRun π → SchedulerAction π → Prop :=
  Locks cfg (CredentialView.Alone cfg)

/-- The ordinary attempts handed to the base transport, the last one first. -/
def ordinaryAttempts (cfg : SchedulerConfig π) (s : SchedulerRun π) : List (TripEvent π) :=
  s.events.filter fun
    | .dispatch p _ _ => !(cfg.request p).interaction
    | .block _ _ | .grant _ _ _ => false

theorem shut_of_reach (h : (system cfg).Reach (NoLateLock cfg) s) : s.credential.Shut cfg := by
  refine h.invariant_with (J := fun s => s.view.Owned ∧ s.credential.Checked cfg)
    (I := fun s => s.credential.Shut cfg) (fun _ hr => ⟨owned_of_reach hr, checked_of_reach hr⟩)
    ?_ fun s a t hJ _ hi hc hs => hi.step hJ.2 (step_checks hJ.1 hc hs)
  rintro _ ⟨now, rfl⟩ hv
  simp only [credential, start, ClientState.newClientState] at hv
  split at hv <;> cases hv

omit [DecidableEq π] in
theorem past_of_cleared {b : Nat} (h : s.view.phase p = .held b .cleared) :
    (s.credential.check p).past = true := by
  obtain ⟨held, pc, hp, -⟩ := holds_iff.mpr ⟨_, h⟩
  change (s.pc p).phase = _ at h
  change (s.pc p).check.past = true
  rw [hp] at h ⊢
  simp only [TripPc.phase, BucketPhase.held.injEq] at h
  cases pc with
  | pacer | body | reserve | dispatch => rfl
  | _ => cases h.2

theorem ordinaryAttempts_step {a : SchedulerAction π} (hs : s.step cfg a = some t)
    (h : ∀ p b, cfg.Ordinary p → s.view.phase p ≠ .held b .cleared) :
    t.ordinaryAttempts cfg = s.ordinaryAttempts cfg := by
  have hm := step_moves (K := fun _ _ _ => True) (fun _ _ _ _ _ _ _ => trivial) hs
  change List.filter _ t.view.events = List.filter _ s.view.events
  generalize s.view = v at *
  generalize t.view = v' at *
  generalize a.mover = mover at hm
  cases hm with
  | tick | same => rfl
  | sweep hm => cases hm <;> rfl
  | evict hm => cases hm <;> rfl
  | @trip p _ hm =>
    cases hm with
    | @dispatch b hp =>
      have hi : (cfg.request p).interaction = true := by
        by_contra hi
        exact h p b (by simpa [SchedulerConfig.Ordinary] using hi) hp
      simp [BucketView.goto, BucketView.log, hi]
    | _ => rfl

/-- Once the credential is locked, no ordinary attempt is handed to the base transport any more
for as long as the state lives, in every run in which no 401 overtakes the check of another
ordinary request. -/
theorem no_attempt_after_lock (cfg : SchedulerConfig π)
    (h : (system cfg).Reach (NoLateLock cfg) s) (hv : s.client.validity = .invalid)
    (ht : (system cfg).Leads (NoLateLock cfg) s t) (hg : t.generation = s.generation) :
    t.ordinaryAttempts cfg = s.ordinaryAttempts cfg := by
  induction ht with
  | refl => rfl
  | @step t a u hlead hc hs ih =>
    have hr := hlead.reach h
    have hle := (remembers_of_leads hr (.step .refl hc hs)).1
    obtain ⟨hle', hkeep⟩ := remembers_of_leads h hlead
    have hst : t.generation = s.generation := le_antisymm (hg ▸ hle) hle'
    have hshut := shut_of_reach hr ((hkeep hst).2 hv)
    refine (ordinaryAttempts_step hs fun p b ho hp => ?_).trans (ih hst)
    have hpast := past_of_cleared hp
    rw [hshut p ho] at hpast
    cases hpast

def lone [Fintype π] (cfg : SchedulerConfig π) (s : SchedulerRun π) : SchedulerAction π → Bool
  | .trip p _ => match s.pc p with
    | .held _ (.observe r) => !cfg.locks p r.unauthorized || decide (∀ q, q ≠ p →
        (cfg.request q).interaction = false → (s.pc q).check.past = false)
    | _ => true
  | _ => true

theorem noLateLock_of_lone [Fintype π] (s : SchedulerRun π) (a : SchedulerAction π)
    (h : lone cfg s a = true) : NoLateLock cfg s a := by
  intro p x held r ha hp hlock q hq ho
  subst ha
  simp only [lone, hp, hlock, Bool.not_true, Bool.false_or, decide_eq_true_eq] at h
  exact h q hq ho

open TripAction in
/-- What follows on `validating` when request 0 gets a 401: the lock, and then the rest of both
trips, in which request 1 gets the validation gate and is turned away. -/
def locking : List (SchedulerAction (Fin 2)) :=
  acts 0 ([.respond (some (plain 401)), .go])

open TripAction in
def turning : List (SchedulerAction (Fin 2)) :=
  acts 0 ([.go, .go] ++ settle) ++
  acts 1 [.gate .ready, .gate .check, .go, .go, .go, .go, .go, .go, .go]

theorem no_attempt_after_lock_turned :
    ∃ s t : SchedulerRun (Fin 2), s.client.validity = .invalid ∧
      t.pc 1 = .returned .unauthorized ∧ (s.ordinaryAttempts (guarded 2)).length = 1 ∧
      t.ordinaryAttempts (guarded 2) = s.ordinaryAttempts (guarded 2) := by
  have hrun : (((system (guarded 2)).check (lone (guarded 2))).run (start (guarded 2) 0)
      (validating ++ locking)).map (fun s => (s.client.validity, s.generation,
        (s.ordinaryAttempts (guarded 2)).length,
        (((system (guarded 2)).check (lone (guarded 2))).run s turning).map fun t =>
          (t.generation, t.pc 1))) =
      some (.invalid, 0, 1, some (0, .returned .unauthorized)) := by
    decide +kernel
  obtain ⟨s, hs, he⟩ := Option.map_eq_some_iff.mp hrun
  simp only [Prod.mk.injEq] at he
  obtain ⟨hv, hgs, hlen, he⟩ := he
  obtain ⟨t, ht, he⟩ := Option.map_eq_some_iff.mp he
  simp only [Prod.mk.injEq] at he
  obtain ⟨hgt, h1⟩ := he
  refine ⟨s, t, hv, h1, hlen, no_attempt_after_lock (guarded 2) ?_ hv ?_ (hgt.trans hgs.symm)⟩
  · exact System.Reach.of_check noLateLock_of_lone (System.Reachable.run (.init ⟨0, rfl⟩) hs)
  · exact System.Leads.of_run noLateLock_of_lone ht

open TripAction in
/-- Request 0 validates the credential; requests 1 and 2 pass the check, and request 2 sleeps in
the pacer when request 1 gets a 401. -/
def overtaken : List (SchedulerAction (Fin 3)) :=
  acts 0 (arrive ++ acquire false ++ validate ++ pace ++ send ++ observe (plain 200) ++ settle) ++
  [.tick 30000000] ++
  acts 1 (arrive ++ acquire false ++ proceed ++ pace ++ send) ++
  acts 2 (arrive ++ acquire true ++ proceed ++
    [.pacer (.gate .enter), .pacer (.gate .check), .pacer .check, .pacer .lock, .pacer .test]) ++
  acts 1 [.respond (some (plain 401)), .go]

open TripAction in
def woken : List (SchedulerAction (Fin 3)) :=
  [.tick 30000000] ++
  acts 2 ([.pacer .timer, .pacer .check, .pacer .lock, .pacer (.gate .release)] ++ send)

/-- A request that sleeps in the pacer while another one locks the credential sends its attempt
nevertheless. -/
theorem attempt_after_lock :
    ∃ s t : SchedulerRun (Fin 3), (system (guarded 3)).Reachable s ∧
      s.client.validity = .invalid ∧ (∃ readyAt wake, s.pc 2 =
        .held ⟨0, 0, false⟩ (.pacer (.sleep readyAt wake))) ∧
      (system (guarded 3)).Leads (fun _ _ => True) s t ∧ t.generation = s.generation ∧
      t.ordinaryAttempts (guarded 3) =
        .dispatch 2 1 60000000 :: s.ordinaryAttempts (guarded 3) := by
  have hrun : ((system (guarded 3)).run (start (guarded 3) 0) overtaken).map
      (fun s => (s.client.validity, s.pc 2,
        (((system (guarded 3)).check fun _ _ => true).run s woken).map fun t =>
          decide (t.generation = s.generation ∧ t.ordinaryAttempts (guarded 3) =
            .dispatch 2 1 60000000 :: s.ordinaryAttempts (guarded 3)))) =
      some (.invalid, .held ⟨0, 0, false⟩ (.pacer (.sleep 50100000 0)), some true) := by
    decide +kernel
  obtain ⟨s, hs, he⟩ := Option.map_eq_some_iff.mp hrun
  simp only [Prod.mk.injEq] at he
  obtain ⟨hv, hpc, he⟩ := he
  obtain ⟨t, ht, he⟩ := Option.map_eq_some_iff.mp he
  obtain ⟨hg, ha⟩ := decide_eq_true_eq.mp he
  refine ⟨s, t, System.Reachable.run (.init ⟨0, rfl⟩) hs, hv, ⟨_, _, hpc⟩, ?_, hg, ha⟩
  exact System.Leads.of_run (fun _ _ _ => trivial) ht

end SchedulerRun

end NirnProxy
