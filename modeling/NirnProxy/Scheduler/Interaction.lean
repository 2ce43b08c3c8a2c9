import NirnProxy.Scheduler.Validity

/-! Interaction requests and the validity of their credential: they never change it, and it changes
nothing for them but the outcome of one check. -/

universe u

namespace NirnProxy

open scoped Parties

namespace CredentialView

variable {π : Type u} [DecidableEq π] {cfg : SchedulerConfig π} {K : CredentialView π → π → Prop}
  {v v' : CredentialView π} {p q : π}

theorem TripMoves.fits (hm : TripMoves cfg K v p v') (hf : (v.check p).Fits cfg p) :
    (v'.check p).Fits cfg p := by
  cases hm with
  | stay hp he =>
    simp only [goto, Function.update_self]
    exact he.fits hf
  | @validation own done a g r hp hc hg =>
    rw [hc] at hf
    simp only [goto, Function.update_self]
    cases r with
    | pending => exact hf
    | granted => exact ⟨rfl, fun _ => hf.2 (.inr rfl)⟩
    | refused e => exact ⟨trivial, fun h => hf.2 (.inr rfl)⟩
  | release hp hc hr hg =>
    simp only [goto, Function.update_self]
    cases hr <;> exact ⟨by trivial, fun h => by simp at h⟩
  | observe hp hc hK =>
    rw [hc] at hf
    simp only [goto, Function.update_self]
    exact ⟨trivial, fun h => hf.2 (h.imp_right fun h => by cases h)⟩
  | store hp hc =>
    rw [hc] at hf
    simp only [goto, Function.update_self]
    exact ⟨rfl, fun _ => hf.2 (.inl rfl)⟩
  | approach hp hc =>
    rw [hc] at hf
    simp only [goto, Function.update_self]
    exact hf
  | pacer hp hc hg hφ =>
    rw [hc] at hf
    simp only [goto, Function.update_self]
    obtain rfl | ⟨rfl, -⟩ := hφ
    · exact hf
    · exact ⟨trivial, fun h => hf.2 (h.imp_right fun h => by cases h)⟩
  | paced hp hc =>
    rw [hc] at hf
    simp only [goto, Function.update_self]
    exact hf
  | yield hp hc hg hφ =>
    rw [hc] at hf
    simp only [goto, Function.update_self]
    obtain rfl | rfl := hφ
    · exact hf
    · exact ⟨trivial, fun h => hf.2 (h.imp_right fun h => by cases h)⟩

theorem TripMoves.check_of_ne (hm : TripMoves cfg K v p v') (hq : q ≠ p) :
    v'.check q = v.check q := by
  cases hm <;> exact Function.update_of_ne hq ..

theorem TripMoves.validity_eq (hm : TripMoves cfg K v p v')
    (hi : (cfg.request p).interaction = true) (hf : (v.check p).Fits cfg p) :
    v'.validity = v.validity := by
  cases hm with
  | observe hp hc hK => simp [goto, SchedulerConfig.locks, hi]
  | store hp hc =>
    rw [hc] at hf
    exact absurd (hf.2 (.inl rfl)) (by simp [SchedulerConfig.Ordinary, hi])
  | _ => rfl

end CredentialView

namespace ClientState

variable {π : Type u} {v : Validity}

theorem bucketSlow_validity (s : ClientState π) (now : Int) (r : UInt64) (slots : ResourceBudget) :
    { s with validity := v }.bucketSlow now r slots =
      (s.bucketSlow now r slots).map fun (s', rest) => ({ s' with validity := v }, rest) := by
  simp only [bucketSlow]
  cases s.table.resolve r with
  | some b => rfl
  | none => cases slots.reserve 1 <;> rfl

theorem learnBucket_validity (s : ClientState π) (r c : UInt64) (b : Nat) (slots : ResourceBudget) :
    { s with validity := v }.learnBucket r c b slots =
      ({ (s.learnBucket r c b slots).1 with validity := v }, (s.learnBucket r c b slots).2) := by
  simp only [learnBucket]
  cases slots.reserve _ with
  | none => rfl
  | some slots =>
    simp only
    split <;> rfl

end ClientState

namespace SchedulerRun

variable {π : Type u} [DecidableEq π] {cfg : SchedulerConfig π} {s t : SchedulerRun π} {p : π}
  {v : Validity}

/-- The check before an attempt is the only step of an interaction request that depends on the
validity. -/
theorem TripSteps.withValidity {a : TripAction} {s' : SchedulerRun π} {pc pc' : TripPc}
    (hm : TripSteps cfg p s pc a s' pc') (hi : (cfg.request p).interaction = true)
    (hf : pc.check.Fits cfg p)
    (hr : ∀ h, pc = .held h .invalid → a = .go → (v = .invalid ↔ s.client.validity = .invalid)) :
    TripSteps cfg p (s.withValidity v) pc a (s'.withValidity v) pc' := by
  have hordinary : ¬cfg.Ordinary p := by simp [SchedulerConfig.Ordinary, hi]
  have hslow := s.client.bucketSlow_validity (v := v) s.now (cfg.request p).routeHash s.slots
  cases hm with
  | create hw hb => exact .create hw (hslow.trans (by rw [hb]; rfl))
  | createFull hw hb => exact .createFull hw (hslow.trans (by rw [hb]; rfl))
  | recheckCreate hw hb => exact .recheckCreate hw (hslow.trans (by rw [hb]; rfl))
  | recheckFull hw hb => exact .recheckFull hw (hslow.trans (by rw [hb]; rfl))
  | @learn h r _ _ _ hb hw hl =>
    have hlearn := s.client.learnBucket_validity (v := v) (cfg.request p).routeHash
      (canonicalHash r.info.bucket (cfg.request p).majorKey) h.bucket s.slots
    exact .learn hb hw (hlearn.trans (by rw [hl]; rfl))
  -- an interaction request does not take part in the validation
  | ask hno => cases hno.symm.trans hi
  | skip => exact .skip fun hno => by cases hno.symm.trans hi
  | validation => exact absurd (hf.2 (.inr rfl)) hordinary
  | superseded | confirmed | validationRelease | stored =>
    exact absurd (hf.2 (.inl hf.1)) hordinary
  | store hown | unwindValidation hown => exact absurd (hf.2 (.inl hown)) hordinary
  | lock hlock => simp [SchedulerConfig.locks, hi] at hlock
  | unauthorized hv => exact .unauthorized ((hr _ rfl rfl).mpr hv)
  | authorized hv => exact .authorized fun h => hv ((hr _ rfl rfl).mp h)
  -- the limits are read as they are
  | refuse hk hx => exact .refuse hk hx
  | current hk hpos => exact .current hk hpos
  | expired hx => exact .expired hx
  | _ => constructor <;> assumption

theorem tripStep_withValidity (hi : (cfg.request p).interaction = true) {a : TripAction}
    (hf : (s.pc p).check.Fits cfg p)
    (hr : ∀ h, s.pc p = .held h .invalid → a = .go →
      (v = .invalid ↔ s.client.validity = .invalid)) :
    (s.withValidity v).tripStep cfg p a =
      (s.tripStep cfg p a).map (SchedulerRun.withValidity v) := by
  cases hs : s.tripStep cfg p a with
  | some t =>
    obtain ⟨s', pc', hm, rfl⟩ := tripStep_trips hs
    exact (hm.withValidity hi hf hr).tripStep_eq rfl
  | none =>
    refine Option.eq_none_iff_forall_ne_some.mpr fun t ht => ?_
    obtain ⟨s', pc', hm, rfl⟩ := tripStep_trips ht
    have hback := (hm.withValidity (v := s.client.validity) hi hf fun h hp hgo =>
      (hr h hp hgo).symm).tripStep_eq rfl
    cases hs.symm.trans hback

omit [DecidableEq π] in
theorem sweepStep_withValidity (choice : Option UInt64) :
    (s.withValidity v).sweepStep choice = (s.sweepStep choice).map (withValidity v) := by
  have hmu : (s.withValidity v).mu = s.mu := rfl
  have hunder : (s.withValidity v).client.bucketUnder = s.client.bucketUnder := rfl
  simp only [sweepStep, hmu, hunder]
  cases s.mu with
  | free => rfl
  | sweep now released pc =>
    cases pc with
    | next left =>
      cases choice with
      | none | some =>
        simp only
        split <;> rfl
    | blocked | active =>
      simp only [Option.map_map]
      rfl
    | lastUsed hash left =>
      simp only [Option.map_map]
      refine congrFun (congrArg Option.map (funext fun b => ?_)) _
      simp only [Function.comp_apply]
      split <;> rfl

omit [DecidableEq π] in
theorem evictStep_withValidity (choice : Option UInt64) :
    (s.withValidity v).evictStep choice = (s.evictStep choice).map (withValidity v) := by
  have htable : (s.withValidity v).tableMu = s.tableMu := rfl
  have hreadable : (s.withValidity v).readable = s.readable := rfl
  have hidle : (s.withValidity v).client.idleStep = s.client.idleStep := by
    funext now choice pc
    cases pc <;> rfl
  simp only [evictStep, htable, hreadable, hidle]
  cases s.tableMu with
  | idle now pc =>
    simp only
    split
    · rfl
    · simp only [Option.map_map]
      refine congrFun (congrArg Option.map (funext fun x => ?_)) _
      obtain pc | answer := x
      · rfl
      · cases answer <;> rfl
  | _ => rfl

/-- Steps of interaction requests, and of whatever runs beside the requests, in the life of one
state. -/
def Exempt (cfg : SchedulerConfig π) : SchedulerAction π → Prop
  | .trip p _ => (cfg.request p).interaction = true
  | .clear => False
  | _ => True

def readsValidity (s : SchedulerRun π) : SchedulerAction π → Bool
  | .trip p .go =>
    match s.pc p with
    | .held _ .invalid => true
    | _ => false
  | _ => false

theorem step_withValidity {a : SchedulerAction π} (ha : Exempt cfg a)
    (hf : ∀ p, (cfg.request p).interaction = true → (s.pc p).check.Fits cfg p)
    (hr : s.readsValidity a = true → (v = .invalid ↔ s.client.validity = .invalid)) :
    (s.withValidity v).step cfg a = (s.step cfg a).map (withValidity v) := by
  cases a with
  | trip p a =>
    refine tripStep_withValidity ha (hf p ha) fun h hp hgo => hr ?_
    simp [hgo, readsValidity, hp]
  | clear => exact ha.elim
  | tick | cancel | others => rfl
  | sweep now =>
    have hwritable : (s.withValidity v).writable = s.writable := rfl
    have hnow : (s.withValidity v).now = s.now := rfl
    simp only [step, hwritable, hnow]
    split <;> rfl
  | sweepStep choice => exact sweepStep_withValidity choice
  | evict now =>
    have htable : (s.withValidity v).tableMu = s.tableMu := rfl
    have hnow : (s.withValidity v).now = s.now := rfl
    simp only [step, htable, hnow]
    cases s.tableMu with
    | free =>
      simp only
      split <;> rfl
    | _ => rfl
  | evictStep choice => exact evictStep_withValidity choice
  | spare =>
    have htable : (s.withValidity v).tableMu = s.tableMu := rfl
    simp only [step, htable]
    cases s.tableMu <;> rfl

def Bypassing (cfg : SchedulerConfig π) (s : SchedulerRun π) : Prop :=
  ∀ p, (cfg.request p).interaction = true → (s.pc p).check.Fits cfg p

omit [DecidableEq π] in
theorem bypassing_of_idle (h : ∀ p, (cfg.request p).interaction = true → s.pc p = .idle) :
    s.Bypassing cfg := by
  intro p hp
  rw [h p hp]
  trivial

theorem Bypassing.step {a : SchedulerAction π} (h : s.Bypassing cfg) (ha : Exempt cfg a)
    (hs : s.step cfg a = some t) :
    t.Bypassing cfg ∧ t.client.validity = s.client.validity := by
  cases a with
  | trip p a =>
    have hm := trip_checks (locks_trivial s (.trip p a)) hs
    refine ⟨fun q hq => ?_, hm.validity_eq ha (h p ha)⟩
    by_cases hqp : q = p
    · subst hqp
      exact hm.fits (h q hq)
    · have hcheck : (t.pc q).check = (s.pc q).check := hm.check_of_ne hqp
      rw [hcheck]
      exact h q hq
  | clear => exact ha.elim
  | _ =>
    have hsame := credential_step rfl (by simp) hs
    refine ⟨fun q hq => ?_, congrArg CredentialView.validity hsame⟩
    have hcheck : (t.pc q).check = (s.pc q).check :=
      congrFun (congrArg CredentialView.check hsame) q
    rw [hcheck]
    exact h q hq

/-- Whether a run takes a request through the check of the validity. -/
def reads (cfg : SchedulerConfig π) : SchedulerRun π → List (SchedulerAction π) → Bool
  | _, [] => false
  | s, a :: as =>
    s.readsValidity a || match s.step cfg a with
      | some t => reads cfg t as
      | none => false

variable {as : List (SchedulerAction π)}

/-- Where the values of the validity agree on whether it is invalid, or nobody looks, a run of
interaction requests is the same with both. -/
theorem run_withValidity (h : s.Bypassing cfg) (has : ∀ a ∈ as, Exempt cfg a)
    (hv : (v = .invalid ↔ s.client.validity = .invalid) ∨ reads cfg s as = false)
    {bs : List (SchedulerAction π)} (hbs : bs <+: as) :
    (system cfg).run (s.withValidity v) bs =
      ((system cfg).run s bs).map (withValidity v) := by
  induction bs generalizing s as with
  | nil => rfl
  | cons a bs ih =>
    obtain ⟨cs, rfl⟩ := hbs
    have ha := has a List.mem_cons_self
    have hread : s.readsValidity a = true → (v = .invalid ↔ s.client.validity = .invalid) := by
      intro hread
      refine hv.resolve_right fun hnone => ?_
      simp [reads, hread] at hnone
    have hstep := step_withValidity ha h hread
    simp only [System.run, system]
    rw [hstep]
    cases hs : s.step cfg a with
    | none => rfl
    | some t =>
      obtain ⟨ht, hvalidity⟩ := h.step ha hs
      refine ih ht (fun b hb => has b (List.mem_cons_of_mem _ hb)) ?_ (List.prefix_append bs cs)
      rw [hvalidity]
      refine hv.imp_right fun hnone => ?_
      simp only [reads, List.cons_append, hs, Bool.or_eq_false_iff] at hnone
      exact hnone.2

theorem run_validity (h : s.Bypassing cfg) (has : ∀ a ∈ as, Exempt cfg a)
    (hr : (system cfg).run s as = some t) : t.client.validity = s.client.validity := by
  induction as generalizing s with
  | nil =>
    cases hr
    rfl
  | cons a as ih =>
    obtain ⟨s', hs, hr⟩ := Option.bind_eq_some_iff.mp hr
    obtain ⟨h', hvalidity⟩ := h.step (has a List.mem_cons_self) hs
    exact (ih h' (fun b hb => has b (List.mem_cons_of_mem _ hb)) hr).trans hvalidity

omit [DecidableEq π] in
theorem exists_of_readsValidity {a : SchedulerAction π} (hread : s.readsValidity a = true) :
    ∃ p h, a = .trip p .go ∧ s.pc p = .held h .invalid := by
  unfold readsValidity at hread
  split at hread
  · rename_i p
    split at hread
    · exact ⟨p, _, rfl, ‹_›⟩
    · cases hread
  · cases hread

theorem step_of_invalid {h : Held} (hp : s.pc p = .held h .invalid) :
    s.step cfg (.trip p .go) = some (s.goto p (.held h
      (if s.client.validity = .invalid then .unwind .unauthorized else .replay))) := by
  simp only [step, tripStep, hp, heldStep]

theorem run_ne_of_reads (h : s.Bypassing cfg) (has : ∀ a ∈ as, Exempt cfg a)
    (hv : ¬(v = .invalid ↔ s.client.validity = .invalid)) (hreads : reads cfg s as = true) :
    ∃ bs, bs <+: as ∧ (system cfg).run (s.withValidity v) bs ≠
      ((system cfg).run s bs).map (withValidity v) := by
  induction as generalizing s with
  | nil => cases hreads
  | cons a as ih =>
    have ha := has a List.mem_cons_self
    by_cases hread : s.readsValidity a = true
    · refine ⟨[a], by simp, fun heq => hv ?_⟩
      obtain ⟨p, held, rfl, hp⟩ := exists_of_readsValidity hread
      have hp' : (s.withValidity v).pc p = .held held .invalid := hp
      simp only [System.run, system, step_of_invalid hp, step_of_invalid hp', Option.bind_some,
        Option.map_some, Option.some.injEq] at heq
      have hpc := congrFun (congrArg SchedulerRun.pc heq) p
      replace hpc : TripPc.held held (if v = .invalid then .unwind .unauthorized else .replay) =
          .held held (if s.client.validity = .invalid then .unwind .unauthorized else .replay) :=
        (Function.update_self ..).symm.trans (hpc.trans (Function.update_self ..))
      by_cases hinvalid : v = .invalid <;> by_cases hinvalid' : s.client.validity = .invalid
      · exact iff_of_true hinvalid hinvalid'
      · rw [if_pos hinvalid, if_neg hinvalid'] at hpc
        cases hpc
      · rw [if_neg hinvalid, if_pos hinvalid'] at hpc
        cases hpc
      · exact iff_of_false hinvalid hinvalid'
    · obtain ⟨t, hs, ht⟩ : ∃ t, s.step cfg a = some t ∧ reads cfg t as = true := by
        simp only [reads, Bool.eq_false_iff.mpr hread, Bool.false_or] at hreads
        split at hreads
        · exact ⟨_, ‹_›, hreads⟩
        · cases hreads
      have hstep := step_withValidity ha h (v := v) fun hr => absurd hr hread
      obtain ⟨h', hvalidity⟩ := h.step ha hs
      obtain ⟨bs, hbs, hne⟩ := ih h' (fun b hb => has b (List.mem_cons_of_mem _ hb))
        (by rw [hvalidity]; exact hv) ht
      refine ⟨a :: bs, List.prefix_cons_inj a |>.mpr hbs, ?_⟩
      simp only [System.run, system]
      rw [hstep, hs]
      exact hne

/-- A run of interaction requests, and of whatever runs beside the requests, is the same with two
values of the validity exactly where they agree on whether it is invalid, or where nobody comes to
the check before an attempt.  No such run changes the validity. -/
theorem interaction_exempt_iff (cfg : SchedulerConfig π) (s : SchedulerRun π)
    (hidle : ∀ p, (cfg.request p).interaction = true → s.pc p = .idle)
    (as : List (SchedulerAction π)) (has : ∀ a ∈ as, Exempt cfg a) (v v' : Validity) :
    ((∀ bs, bs <+: as → (system cfg).run (s.withValidity v) bs =
        ((system cfg).run (s.withValidity v') bs).map (withValidity v)) ↔
      ((v = .invalid ↔ v' = .invalid) ∨ reads cfg (s.withValidity v') as = false)) ∧
    ∀ t, (system cfg).run (s.withValidity v) as = some t → t.client.validity = v := by
  have hbypass : (s.withValidity v').Bypassing cfg := bypassing_of_idle hidle
  have hbypass' : (s.withValidity v).Bypassing cfg := bypassing_of_idle hidle
  refine ⟨⟨fun hsame => ?_, fun hv bs hbs => ?_⟩, fun t ht => run_validity hbypass' has ht⟩
  · by_contra hno
    obtain ⟨hv, hreads⟩ := not_or.mp hno
    obtain ⟨bs, hbs, hne⟩ := run_ne_of_reads (v := v) hbypass has hv (by simpa using hreads)
    exact hne (hsame bs hbs)
  · exact run_withValidity hbypass has hv hbs

def mixed : SchedulerConfig (Fin 2) :=
  { guarded 2 with request := fun p => ⟨if p = 1 then 2 else 1, [], decide (p = 1)⟩ }

open TripAction in
def locked : List (SchedulerAction (Fin 2)) :=
  acts 0 (arrive ++ acquire false ++ validate ++ pace ++ send ++ observe (plain 401) ++ settle)

open TripAction in
def turnedAway : List (SchedulerAction (Fin 2)) :=
  acts 1 (arrive ++ acquire false ++ [.go, .go, .go, .go, .go, .go])

open TripAction in
def refused : List (SchedulerAction (Fin 2)) :=
  acts 1 (arrive ++ acquire false ++ proceed ++ send ++ observe (plain 401) ++ leave)

theorem refused_exempt : ∀ a ∈ refused, Exempt mixed a := by
  intro a ha
  obtain ⟨x, -, rfl⟩ := List.mem_map.mp ha
  rfl

theorem interaction_exempt_iff_refused :
    ∃ t : SchedulerRun (Fin 2),
      (system mixed).run ((start mixed 0).withValidity .valid) refused = some t ∧
      t.pc 1 = .ended ∧ t.client.validity = .valid ∧
      (system mixed).run ((start mixed 0).withValidity .unknown) refused =
        some (t.withValidity .unknown) := by
  have hrun : ((system mixed).run ((start mixed 0).withValidity .valid) refused).map
      (fun t => t.pc 1) = some .ended := by
    decide +kernel
  obtain ⟨t, ht, hpc⟩ := Option.map_eq_some_iff.mp hrun
  have hidle : ∀ p, (mixed.request p).interaction = true → (start mixed 0).pc p = .idle :=
    fun _ _ => rfl
  obtain ⟨-, hkept⟩ := interaction_exempt_iff mixed (start mixed 0) hidle refused refused_exempt
    .valid .unknown
  obtain ⟨hsame, -⟩ := interaction_exempt_iff mixed (start mixed 0) hidle refused refused_exempt
    .unknown .valid
  refine ⟨t, ht, hpc, hkept t ht, ?_⟩
  rw [hsame.mpr (.inl (by decide)) refused (List.prefix_refl _), ht]
  rfl

/-- With an invalid credential an interaction request gets a 401 without an attempt, and with a
valid one it is sent.  A 401 of an ordinary request leads there. -/
theorem interaction_turned_away :
    (mixed.request 1).interaction = true ∧
    ((system mixed).run ((start mixed 0).withValidity .invalid) turnedAway).map
        (fun t => (t.pc 1, t.events)) = some (.returned .unauthorized, []) ∧
    ((system mixed).run ((start mixed 0).withValidity .valid) refused).map
        (fun t => (t.pc 1, t.events)) = some (.ended, [.dispatch 1 2 0]) ∧
    ((system mixed).run (start mixed 0) (locked ++ turnedAway)).map
        (fun t => (t.pc 1, t.events)) =
      some (.returned .unauthorized, [.dispatch 0 1 0, .grant 0 0 0]) := by
  decide +kernel

end SchedulerRun

end NirnProxy
