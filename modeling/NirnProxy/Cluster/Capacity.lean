import NirnProxy.Cluster.Clearing

/-! A node that has indexed its members serves a request itself only if it owns the key.  The
capacity flag and the route table are stored and loaded one after the other, so a request can pass
the flag and still find no table; where it cannot, the node fails closed. -/

universe u

namespace NirnProxy

open Function (update)
open scoped Parties

def IndexPc.holding : IndexPc → Bool
  | .idle | .lock | .finished => false
  | _ => true

def IndexPc.storing : IndexPc → Bool
  | .flag _ | .publish _ => true
  | _ => false

def IndexPc.table : IndexPc → Option ClusterTable
  | .flag table | .publish table => table
  | _ => none

theorem IndexPc.table_of_not_storing {pc : IndexPc} (h : pc.storing = false) : pc.table = none := by
  cases pc <;> first | rfl | cases h

def ServePc.between : ServePc → Bool
  | .route .. => true
  | _ => false

def ServePc.loaded : ServePc → Bool
  | .routed .. => true
  | _ => false

namespace ClusterTable

/-- The node with this table is the rendezvous owner of the key. -/
def Owns (table : ClusterTable) (key : UInt64) : Prop :=
  ∃ member, rendezvousMember key table.members = some member ∧ member.address = table.localAddr

instance (table : ClusterTable) (key : UInt64) : Decidable (table.Owns key) :=
  decidable_of_iff ((rendezvousMember key table.members).any
    fun member => member.address = table.localAddr) (by
      cases h : rendezvousMember key table.members <;> simp [Owns, h])

structure Complete (table : ClusterTable) : Prop where
  inhabited : table.members ≠ []
  addressed : ∀ member ∈ table.members, member.address ≠ []

theorem Complete.owns {table : ClusterTable} {key : UInt64} (h : table.Complete)
    (hroute : calculateRoute (some table) key = []) : table.Owns key := by
  obtain ⟨member, hmember⟩ : ∃ member, rendezvousMember key table.members = some member :=
    rendezvousMember_isSome h.inhabited
  refine ⟨member, hmember, ?_⟩
  by_contra hne
  simp only [calculateRoute, hmember, if_neg hne] at hroute
  exact h.addressed member (rendezvousMember_mem hmember) hroute

theorem complete_buildTable {digest : List UInt8 → List UInt8} {localAddr : List UInt8}
    {nodes : List Node} {node : Node} (hnode : node ∈ nodes) (hport : validPort node.metadata) :
    (buildTable digest localAddr nodes).Complete where
  inhabited := List.ne_nil_of_mem (mem_buildTable.mpr ⟨node, hnode, if_pos hport⟩)
  addressed member hm := by
    obtain ⟨other, -, hother⟩ := mem_buildTable.mp hm
    obtain ⟨-, hother⟩ := Option.ite_none_right_eq_some.mp hother
    obtain rfl := Option.some.inj hother
    exact Text.joinHostPort_ne_nil _ _

end ClusterTable

namespace ClusterRun

variable {π : Type u} {digest : List UInt8 → List UInt8} {s t : ClusterRun π}

/-- Only the holder of `clusterIndexMu` indexes, and a join has not indexed before it installs. -/
structure Exclusive (s : ClusterRun π) : Prop where
  lock : ∀ q, (s.index q).holding → s.clusterIndexMu = some q
  early : ∀ p, (s.join p).early → s.index (.inl p) = .idle

theorem Exclusive.eq_of_holding (h : Exclusive s) {q r : π ⊕ π} (hq : (s.index q).holding)
    (hr : (s.index r).holding) : q = r :=
  Option.some.inj ((h.lock q hq).symm.trans (h.lock r hr))

variable [DecidableEq π]

theorem Exclusive.early_update (h : Exclusive s) {q : π ⊕ π} {pc : IndexPc}
    (hq : s.index q ≠ .idle) (p : π) (hp : (s.join p).early) :
    update s.index q pc (.inl p) = .idle := by
  have hidle := h.early p hp
  rwa [Function.update_of_ne]
  rintro rfl
  exact hq hidle

theorem holding_of_update {q r : π ⊕ π} {pc : IndexPc} (hpc : pc.holding = false)
    (hr : (update s.index q pc r).holding) : r ≠ q ∧ (s.index r).holding := by
  by_cases hrq : r = q
  · subst hrq
    simp [hpc] at hr
  · exact ⟨hrq, by simpa [hrq] using hr⟩

theorem Exclusive.indexGo (h : Exclusive s) {q : π ⊕ π} {pc : IndexPc} {full indexed : Bool}
    {routes : Option ClusterTable} {published : List ClusterTable} (hq : (s.index q).holding) :
    Exclusive { s.indexGo q pc with
      clusterOverCapacity := full, routes := routes, indexed := indexed
      published := published } where
  lock r hr := by
    by_cases hrq : r = q
    · subst hrq
      exact h.lock r hq
    · exact h.lock r (by simpa [ClusterRun.indexGo, hrq] using hr)
  early := h.early_update fun hidle => by simp [hidle, IndexPc.holding] at hq

theorem Exclusive.index {q : π ⊕ π} {members : List Node} (h : Exclusive s)
    (hm : IndexMoves digest q members s t) : Exclusive t := by
  cases hm with
  | lock hpc hfree =>
    refine ⟨fun r hr => ?_, h.early_update (by simp [hpc])⟩
    by_cases hrq : r = q
    · rw [hrq]
    · have hheld := h.lock r (by simpa [ClusterRun.indexGo, hrq] using hr)
      exact absurd (hfree.symm.trans hheld) (fun h => by cases h)
  | skip hpc => exact h.indexGo (by rw [hpc]; rfl)
  | snapshot hpc => exact h.indexGo (by rw [hpc]; rfl)
  | members hpc => exact h.indexGo (by rw [hpc]; rfl)
  | flag hpc => exact h.indexGo (by rw [hpc]; rfl)
  | publish hpc => exact h.indexGo (by rw [hpc]; rfl)
  | unlock hpc =>
    refine ⟨fun r hr => ?_, h.early_update (by simp [hpc])⟩
    obtain ⟨hrq, hheld⟩ := holding_of_update rfl hr
    exact absurd (h.eq_of_holding hheld (by rw [hpc]; rfl)) hrq

theorem Exclusive.join (h : Exclusive s) {p : π} (hframe : JoinFrame p s t) : Exclusive t := by
  obtain ⟨hindex, hearly⟩ | ⟨-, hlate, hindex⟩ := hframe.index
  · refine ⟨fun r hr => ?_, fun q hq => ?_⟩
    · rw [hframe.clusterIndexMu]
      exact h.lock r (hindex ▸ hr)
    · rw [hindex]
      by_cases hqp : q = p
      · subst hqp
        exact h.early q (hearly hq)
      · exact h.early q (hframe.join q hqp ▸ hq)
  · refine ⟨fun r hr => ?_, fun q hq => ?_⟩
    · rw [hindex] at hr
      rw [hframe.clusterIndexMu]
      exact h.lock r (holding_of_update rfl hr).2
    · have hqp : q ≠ p := by
        rintro rfl
        exact Bool.noConfusion (hlate.symm.trans hq)
      rw [hindex, Function.update_of_ne (by simpa using hqp)]
      exact h.early q (hframe.join q hqp ▸ hq)

theorem Exclusive.step {x : ClusterAction π} (h : Exclusive s) (hs : s.step digest x = some t) :
    Exclusive t := by
  cases step_moves hs with
  | join hm => exact h.join hm.frame
  | notify => exact ⟨fun r hr => h.lock r (holding_of_update rfl hr).2, h.early⟩
  | index hm => exact h.index hm
  | serve => exact { h with }
  | request hm => cases hm <;> exact { h with }
  | close => exact { h with }
  | again => exact h
  | closer hm => cases hm <;> exact { h with }

theorem exclusive_of_reach {C : ClusterRun π → ClusterAction π → Prop}
    (h : (system π digest).Reach C s) : Exclusive s := by
  refine System.Reach.invariant ?_ (fun s x t hi _ hs => hi.step hs) h
  rintro _ rfl
  exact ⟨nofun, fun _ _ => rfl⟩

/-- The memberlist library lists the local node, under the metadata it was created with. -/
def ListsLocal (s : ClusterRun π) (x : ClusterAction π) : Prop :=
  ∀ q members cluster localAddr maxNodes, x = .index q members → s.cancelled = false →
    s.index q = .members cluster localAddr maxNodes →
    ∃ node ∈ members, validPort node.metadata ∧
      Text.joinHostPort node.addr node.metadata = localAddr

/-- No run of `reindexMembers` takes the table away while a request stands between its two loads,
and no request loads the capacity flag, without a table, between the two stores of a run that has
one. -/
structure KeepsClosed (s : ClusterRun π) (x : ClusterAction π) : Prop where
  overflow : ∀ q members, x = .index q members → s.index q = .publish none →
    ∀ p key hop, s.request p ≠ .route key hop true
  recovery : ∀ p key hop, x = .request p → s.request p = .capacity key hop → s.routes = none →
    ∀ q table, s.index q ≠ .publish (some table)

structure Serving (s : ClusterRun π) : Prop where
  flagged : ∀ q table, s.index q = .publish table → s.clusterOverCapacity = table.isNone
  stored : ∀ q table, (s.index q).table = some table → table.Complete
  routes : ∀ table, s.routes = some table → table ∈ s.published ∧ table.Complete
  closed : s.indexed → s.routes = none →
    s.clusterOverCapacity = true ∨ ∃ q table, s.index q = .publish (some table)
  admitted : ∀ p key hop, s.request p = .route key hop true → s.routes ≠ none

omit [DecidableEq π] in
theorem Serving.frame (h : Serving s) (hfull : t.clusterOverCapacity = s.clusterOverCapacity)
    (hroutes : t.routes = s.routes) (hindexed : t.indexed = s.indexed)
    (hpublished : t.published = s.published)
    (hindex : ∀ q, t.index q = s.index q ∨
      (s.index q).storing = false ∧ (t.index q).storing = false)
    (hrequest : ∀ p, t.request p = s.request p ∨ (t.request p).between = false) :
    Serving t where
  flagged q table hq := by
    obtain hsame | ⟨-, hnot⟩ := hindex q
    · exact hfull.trans (h.flagged q table (hsame ▸ hq))
    · rw [hq] at hnot
      cases hnot
  stored q table hq := by
    obtain hsame | ⟨-, hnot⟩ := hindex q
    · exact h.stored q table (hsame ▸ hq)
    · rw [IndexPc.table_of_not_storing hnot] at hq
      cases hq
  routes table htable := by
    rw [hpublished]
    exact h.routes table (hroutes ▸ htable)
  closed hi hr := by
    rw [hfull]
    refine (h.closed (hindexed ▸ hi) (hroutes ▸ hr)).imp_right ?_
    rintro ⟨q, table, hq⟩
    obtain hsame | ⟨hnot, -⟩ := hindex q
    · exact ⟨q, table, hsame.trans hq⟩
    · rw [hq] at hnot
      cases hnot
  admitted p key hop hp := by
    rw [hroutes]
    obtain hsame | hnot := hrequest p
    · exact h.admitted p key hop (hsame ▸ hp)
    · rw [hp] at hnot
      cases hnot

theorem index_update {q : π ⊕ π} {pc : IndexPc} (hq : (s.index q).storing = false)
    (hpc : pc.storing = false) (r : π ⊕ π) : update s.index q pc r = s.index r ∨
      (s.index r).storing = false ∧ (update s.index q pc r).storing = false := by
  by_cases hrq : r = q
  · subst hrq
    exact .inr ⟨hq, by simpa using hpc⟩
  · exact .inl (Function.update_of_ne hrq ..)

theorem Serving.members (h : Serving s) {q : π ⊕ π} {table : Option ClusterTable}
    (hq : (s.index q).storing = false) (htable : ∀ x, table = some x → x.Complete) :
    Serving (s.indexGo q (.flag table)) where
  flagged r x hr := by
    by_cases hrq : r = q
    · subst hrq
      simp [indexGo] at hr
    · exact h.flagged r x (by simpa [indexGo, hrq] using hr)
  stored r x hr := by
    by_cases hrq : r = q
    · subst hrq
      exact htable x (by simpa [indexGo, IndexPc.table] using hr)
    · exact h.stored r x (by simpa [indexGo, hrq] using hr)
  routes := h.routes
  closed hi hr := by
    refine (h.closed hi hr).imp_right ?_
    rintro ⟨r, x, hx⟩
    have hrq : r ≠ q := by
      rintro rfl
      rw [hx] at hq
      cases hq
    exact ⟨r, x, by simpa [indexGo, hrq] using hx⟩
  admitted := h.admitted

theorem Serving.flag (h : Serving s) (hex : Exclusive s) {q : π ⊕ π}
    {table : Option ClusterTable} (hq : s.index q = .flag table) :
    Serving { s.indexGo q (.publish table) with clusterOverCapacity := table.isNone } where
  flagged r x hr := by
    by_cases hrq : r = q
    · subst hrq
      obtain rfl : table = x := by simpa [indexGo] using hr
      rfl
    · have hx : s.index r = .publish x := by simpa [indexGo, hrq] using hr
      exact absurd (hex.eq_of_holding (by rw [hx]; rfl) (by rw [hq]; rfl)) hrq
  stored r x hr := by
    by_cases hrq : r = q
    · subst hrq
      exact h.stored r x (by simpa [hq, indexGo, IndexPc.table] using hr)
    · exact h.stored r x (by simpa [indexGo, hrq] using hr)
  routes := h.routes
  closed _ _ := by
    cases table with
    | none => exact .inl rfl
    | some x => exact .inr ⟨q, x, by simp [indexGo]⟩
  admitted := h.admitted

theorem Serving.publish (h : Serving s) (hex : Exclusive s) {q : π ⊕ π}
    {table : Option ClusterTable} (hq : s.index q = .publish table)
    (hkeep : table = none → ∀ p key hop, s.request p ≠ .route key hop true) :
    Serving { s.indexGo q .unlock with
      routes := table, indexed := true, published := table.toList ++ s.published } where
  flagged r x hr := by
    have hrq : r ≠ q := by
      rintro rfl
      simp [indexGo] at hr
    have hx : s.index r = .publish x := by simpa [indexGo, hrq] using hr
    exact absurd (hex.eq_of_holding (by rw [hx]; rfl) (by rw [hq]; rfl)) hrq
  stored r x hr := by
    by_cases hrq : r = q
    · subst hrq
      simp [indexGo, IndexPc.table] at hr
    · exact h.stored r x (by simpa [indexGo, hrq] using hr)
  routes x hx := by
    obtain rfl : table = some x := hx
    exact ⟨by simp, h.stored q x (by rw [hq]; rfl)⟩
  closed _ hr := by
    obtain rfl : table = none := hr
    exact .inl (h.flagged q none hq)
  admitted p key hop hp hr := hkeep hr p key hop hp

theorem Serving.index {q : π ⊕ π} {members : List Node} (h : Serving s) (hex : Exclusive s)
    (hopen : s.cancelled = false) (hkeep : KeepsClosed s (.index q members))
    (hlists : ListsLocal s (.index q members)) (hm : IndexMoves digest q members s t) :
    Serving t := by
  have hgo {pc : IndexPc} {mu : Option (π ⊕ π)} (hq : (s.index q).storing = false)
      (hpc : pc.storing = false) : Serving { s.indexGo q pc with clusterIndexMu := mu } :=
    h.frame rfl rfl rfl rfl (index_update hq hpc) fun _ => .inl rfl
  cases hm with
  | lock hpc => exact hgo (by rw [hpc]; rfl) rfl
  | skip hpc => exact hgo (by rw [hpc]; rfl) rfl
  | snapshot hpc => exact hgo (by rw [hpc]; rfl) rfl
  | members hpc =>
    refine h.members (by rw [hpc]; rfl) fun table htable => ?_
    obtain ⟨node, hnode, hport, -⟩ := hlists q members _ _ _ rfl hopen hpc
    unfold reindexed at htable
    split at htable
    · cases htable
    · obtain rfl := Option.some.inj htable
      exact ClusterTable.complete_buildTable hnode hport
  | flag hpc => exact h.flag hex hpc
  | publish hpc =>
    exact h.publish hex hpc fun hnone => hkeep.overflow q members rfl (hnone ▸ hpc)
  | unlock hpc => exact hgo (by rw [hpc]; rfl) rfl

def Answered (s : ClusterRun π) : Prop :=
  ∀ p key table decision, s.request p = .routed key table decision true →
    ∃ published ∈ s.published, table = some published ∧ published.Complete ∧
      ∃ hop, decision = routeDecision (calculateRoute table key) hop

omit [DecidableEq π] in
theorem Answered.frame (h : Answered s) (hpublished : ∀ table ∈ s.published, table ∈ t.published)
    (hrequest : ∀ p, t.request p = s.request p ∨ (t.request p).loaded = false) : Answered t := by
  intro p key table decision hp
  obtain hsame | hnot := hrequest p
  · obtain ⟨x, hx, hrest⟩ := h p key table decision (hsame ▸ hp)
    exact ⟨x, hpublished x hx, hrest⟩
  · rw [hp] at hnot
    cases hnot

theorem request_update {p : π} {pc : ServePc} {f : ServePc → Bool} (hpc : f pc = false) (q : π) :
    update s.request p pc q = s.request q ∨ f (update s.request p pc q) = false := by
  by_cases hqp : q = p
  · subst hqp
    exact .inr (by simpa using hpc)
  · exact .inl (Function.update_of_ne hqp ..)

theorem Serving.letIn (h : Serving s) {p : π} {key : UInt64} {hop : Nat}
    (hpc : s.request p = .capacity key hop) (hfull : s.clusterOverCapacity = false)
    (hkeep : KeepsClosed s (.request p)) {clustered : Bool} (hindexed : clustered → s.indexed) :
    Serving (s.requestGo p (.route key hop clustered)) := by
  refine { h with admitted := fun q key' hop' hq hnone => ?_ }
  by_cases hqp : q = p
  · subst hqp
    obtain ⟨-, -, rfl⟩ : key = key' ∧ hop = hop' ∧ clustered = true := by
      simpa [requestGo] using hq
    obtain hover | ⟨r, table, hr⟩ := h.closed (hindexed rfl) hnone
    · exact Bool.noConfusion (hfull.symm.trans hover)
    · exact hkeep.recovery q key hop rfl hpc hnone r table hr
  · exact h.admitted q key' hop' (by simpa [requestGo, hqp] using hq) hnone

structure Guarded (s : ClusterRun π) : Prop where
  serving : s.cancelled = false → Serving s
  answered : Answered s

theorem Guarded.request {p : π} (h : Guarded s) (hkeep : KeepsClosed s (.request p))
    (hm : RequestMoves p s t) : Guarded t := by
  cases hm with
  | refuse =>
    exact ⟨fun hopen => (h.serving hopen).frame rfl rfl rfl rfl (fun _ => .inl rfl)
      (request_update rfl), h.answered.frame (fun _ => id) (request_update rfl)⟩
  | enter hpc hfull =>
    refine ⟨fun hopen => ?_, h.answered.frame (fun _ => id) (request_update rfl)⟩
    exact (h.serving hopen).letIn hpc hfull hkeep (by simp +contextual)
  | @route key hop clustered hpc =>
    refine ⟨fun hopen => (h.serving hopen).frame rfl rfl rfl rfl (fun _ => .inl rfl)
      (request_update rfl), fun q key' table decision hq => ?_⟩
    by_cases hqp : q = p
    · subst hqp
      simp only [requestGo, Function.update_self, ServePc.routed.injEq, Bool.and_eq_true,
        Bool.not_eq_true'] at hq
      obtain ⟨rfl, rfl, rfl, rfl, hopen⟩ := hq
      obtain ⟨x, hx⟩ := Option.ne_none_iff_exists'.mp
        ((h.serving hopen).admitted q key hop hpc)
      obtain ⟨hmem, hcomplete⟩ := (h.serving hopen).routes x hx
      exact ⟨x, hmem, hx, hcomplete, hop, rfl⟩
    · exact h.answered q key' table decision (by simpa [requestGo, hqp] using hq)

theorem Guarded.index {q : π ⊕ π} {members : List Node} (h : Guarded s) (hex : Exclusive s)
    (hkeep : KeepsClosed s (.index q members)) (hlists : ListsLocal s (.index q members))
    (hm : IndexMoves digest q members s t) : Guarded t := by
  have hserving (hopen : s.cancelled = false) : Serving t :=
    (h.serving hopen).index hex hopen hkeep hlists hm
  cases hm with
  | publish =>
    exact ⟨hserving, h.answered.frame (fun _ => List.mem_append_right _) fun _ => .inl rfl⟩
  | _ => exact ⟨hserving, h.answered⟩

theorem Guarded.join {p : π} (h : Guarded s) (hex : Exclusive s) (hframe : JoinFrame p s t) :
    Guarded t := by
  have hrequest (q : π) : t.request q = s.request q := by rw [hframe.request]
  refine ⟨fun hopen => (h.serving (hframe.cancelled ▸ hopen)).frame hframe.clusterOverCapacity
    hframe.routes hframe.indexed hframe.published (fun q => ?_) fun q => .inl (hrequest q),
    h.answered.frame (fun _ => hframe.published ▸ id) fun q => .inl (hrequest q)⟩
  obtain ⟨hindex, -⟩ | ⟨hearly, -, hindex⟩ := hframe.index
  · exact .inl (by rw [hindex])
  · rw [hindex]
    exact index_update (by rw [hex.early p hearly]; rfl) rfl q

theorem Guarded.step {x : ClusterAction π} (h : Guarded s) (hex : Exclusive s)
    (hclosing : s.closer ≠ .idle → s.cancelled = true) (hkeep : KeepsClosed s x)
    (hlists : ListsLocal s x) (hs : s.step digest x = some t) : Guarded t := by
  cases step_moves hs with
  | join hm => exact h.join hex hm.frame
  | notify hidle =>
    exact ⟨fun hopen => (h.serving hopen).frame rfl rfl rfl rfl
      (index_update (by rw [hidle]; rfl) rfl) fun _ => .inl rfl, h.answered⟩
  | index hm => exact h.index hex hkeep hlists hm
  | serve =>
    refine ⟨fun hopen => (h.serving hopen).frame rfl rfl rfl rfl (fun _ => .inl rfl)
      (request_update ?_), h.answered.frame (fun _ => id) (request_update ?_)⟩
    · split <;> rfl
    · split <;> rfl
  | request hm => exact h.request hkeep hm
  | close => exact ⟨nofun, h.answered⟩
  | again => exact h
  | closer hm =>
    have hcancelled := hclosing hm.ne_idle
    cases hm <;> exact ⟨fun hopen => Bool.noConfusion (hcancelled.symm.trans hopen), h.answered⟩

theorem guarded_of_reach
    (h : (system π digest).Reach (fun s x => KeepsClosed s x ∧ ListsLocal s x) s) : Guarded s := by
  refine System.Reach.invariant_with (J := fun s => Exclusive s ∧
    (s.closer ≠ .idle → s.cancelled = true)) (fun s hs => ?_) ?_ ?_ h
  · obtain ⟨a, -, hr⟩ := exists_slot hs
    exact ⟨exclusive_of_reach hs, hr.cancelled⟩
  · rintro _ rfl
    exact ⟨fun _ => ⟨nofun, nofun, nofun, nofun, nofun⟩, nofun⟩
  · rintro s x t ⟨hex, hclosing⟩ - hi ⟨hkeep, hlists⟩ hs
    exact hi.step hex hclosing hkeep hlists hs

/-- A clustered node that keeps closed: a request that loaded both atomics between the first
indexing and `Close` has read a table that the node published, and the node serves it itself only
if it owns the key there. -/
theorem served_by_owner
    (h : (system π digest).Reach (fun s x => KeepsClosed s x ∧ ListsLocal s x) s) {p : π}
    {key : UInt64} {table : Option ClusterTable} {decision : RouteDecision}
    (hp : s.request p = .routed key table decision true) :
    ∃ published ∈ s.published, table = some published ∧
      (decision = .serve → published.Owns key) := by
  obtain ⟨published, hmem, rfl, hcomplete, hop, rfl⟩ := (guarded_of_reach h).answered p _ _ _ hp
  refine ⟨published, hmem, rfl, fun hserve => hcomplete.owns ?_⟩
  unfold routeDecision at hserve
  split at hserve
  · assumption
  · split at hserve <;> cases hserve

def guardedTest [Fintype π] (s : ClusterRun π) : ClusterAction π → Bool
  | .index q members => match s.index q with
    | .members _ localAddr _ => members.any fun node =>
        validPort node.metadata && Text.joinHostPort node.addr node.metadata == localAddr
    | .publish none => decide (∀ p, (s.request p).between = false)
    | _ => true
  | .request _ => s.routes.isSome || decide (∀ q, (s.index q).table = none)
  | _ => true

omit [DecidableEq π] in
theorem guarded_of_test [Fintype π] (s : ClusterRun π) (x : ClusterAction π)
    (h : guardedTest s x = true) : KeepsClosed s x ∧ ListsLocal s x := by
  refine ⟨⟨?_, ?_⟩, ?_⟩
  · rintro q members rfl hpc p key hop hp
    simp only [guardedTest, hpc, decide_eq_true_eq] at h
    have hbetween := h p
    rw [hp] at hbetween
    cases hbetween
  · rintro p key hop rfl hpc hnone q table hq
    simp only [guardedTest, hnone, Option.isSome_none, Bool.false_or, decide_eq_true_eq] at h
    have htable := h q
    rw [hq] at htable
    cases htable
  · rintro q members cluster localAddr maxNodes rfl - hpc
    simpa [guardedTest, hpc, List.any_eq_true] using h

def remoteNode : Node := ⟨[98], [49, 48, 46, 50], [56, 52, 52, 51]⟩

def tooMany : List Node := [localNode, remoteNode, localNode, localNode]

def overflowAndRecover : List (ClusterAction (Fin 2)) :=
  joined 0 [remoteNode, localNode] ++ .notify 0 :: indexing (.inr 0) tooMany ++
    .notify 1 :: indexing (.inr 1) [localNode, remoteNode] ++
    [.serve 1 0 [], .request 1, .request 1]

theorem served_by_owner_recovered : ∃ s : ClusterRun (Fin 2),
    ∃ table ∈ s.published, s.request 1 = .routed 0 (some table) .serve true ∧ table.Owns 0 := by
  have hrun : (((system (Fin 2) Sha256.sum256).check guardedTest).run empty
      overflowAndRecover).map (fun s => s.request 1) =
      some (.routed 0 (some (buildTable Sha256.sum256
        (Text.joinHostPort localNode.addr localNode.metadata) [localNode, remoteNode]))
        .serve true) := by
    decide +kernel
  obtain ⟨s, hs, hpc⟩ := Option.map_eq_some_iff.mp hrun
  have hreach : (system (Fin 2) Sha256.sum256).Reach
      (fun s x => KeepsClosed s x ∧ ListsLocal s x) s :=
    System.Reach.of_check guarded_of_test (System.Reachable.run (.init rfl) hs)
  obtain ⟨table, hmem, htable, howns⟩ := served_by_owner hreach hpc
  exact ⟨s, table, hmem, htable ▸ hpc, howns rfl⟩

/-- The table is taken away between the two loads of a request. -/
def overflowRace : List (ClusterAction (Fin 2)) :=
  joined 0 [localNode, remoteNode] ++ [.serve 0 4 [], .request 0, .notify 0] ++
    List.replicate 5 (.index (.inr 0) tooMany) ++ [.request 0]

/-- The capacity flag is reset before there is a table again. -/
def recoveryRace : List (ClusterAction (Fin 2)) :=
  joined 0 [localNode, remoteNode] ++ .notify 0 :: indexing (.inr 0) tooMany ++
    .notify 1 :: List.replicate 4 (.index (.inr 1) [localNode, remoteNode]) ++
    [.serve 0 4 [], .request 0, .request 0]

/-- The request found no table and is served here, where no published table says so. -/
def ServedUnowned (s : ClusterRun (Fin 2)) : Prop :=
  s.cancelled = false ∧ s.request 0 = .routed 4 none .serve true ∧ s.published ≠ [] ∧
    ∀ table ∈ s.published, ¬table.Owns 4

instance (s : ClusterRun (Fin 2)) : Decidable s.ServedUnowned :=
  inferInstanceAs (Decidable (_ ∧ _ ∧ _ ∧ ∀ table ∈ s.published, ¬table.Owns 4))

theorem served_without_table :
    (∃ s, (system (Fin 2) Sha256.sum256).Reachable s ∧
      (system (Fin 2) Sha256.sum256).run empty overflowRace = some s ∧ s.ServedUnowned) ∧
    ∃ s, (system (Fin 2) Sha256.sum256).Reachable s ∧
      (system (Fin 2) Sha256.sum256).run empty recoveryRace = some s ∧ s.ServedUnowned := by
  have hrun : ((system (Fin 2) Sha256.sum256).run empty overflowRace).map
        (fun s => decide s.ServedUnowned) = some true ∧
      ((system (Fin 2) Sha256.sum256).run empty recoveryRace).map
        (fun s => decide s.ServedUnowned) = some true := by
    decide +kernel
  obtain ⟨s, hs, hobs⟩ := Option.map_eq_some_iff.mp hrun.1
  obtain ⟨t, ht, hobs'⟩ := Option.map_eq_some_iff.mp hrun.2
  exact ⟨⟨s, System.Reachable.run (.init rfl) hs, hs, of_decide_eq_true hobs⟩,
    ⟨t, System.Reachable.run (.init rfl) ht, ht, of_decide_eq_true hobs'⟩⟩

end ClusterRun

end NirnProxy
