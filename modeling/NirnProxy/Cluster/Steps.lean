import NirnProxy.Cluster.Machine

/-! What a step can do, procedure by procedure. -/

universe u

namespace NirnProxy

open Function (update)

namespace JoinPc

/-- The channel that a join has to close and the memberlist that it has to shut down or install. -/
def hand : JoinPc → Option (Nat × Option Nat)
  | .create _ joinDone => some (joinDone, none)
  | .certificate _ joinDone cluster => some (joinDone, some cluster)
  | .joinKnown _ joinDone cluster => some (joinDone, some cluster)
  | .capacity _ joinDone cluster => some (joinDone, some cluster)
  | .leave joinDone cluster _ => some (joinDone, some cluster)
  | .install _ joinDone cluster => some (joinDone, some cluster)
  | .shutdown joinDone cluster _ => some (joinDone, some cluster)
  | .unwind joinDone (some _) => some (joinDone, none)
  | _ => none

def InProgress (pc : JoinPc) : Prop := pc.hand ≠ none

def spent : JoinPc → Option Nat
  | .reindex joinDone => some joinDone
  | .unwind joinDone none => some joinDone
  | _ => none

def early : JoinPc → Bool
  | .reindex _ | .unwind _ none | .returned none => false
  | _ => true

structure Keeps (pc pc' : JoinPc) : Prop where
  hand : pc'.hand = pc.hand
  spent : ∀ d, pc'.spent = some d → pc.spent = some d
  early : pc'.early → pc.early

theorem Keeps.of_ite {pc pc₁ pc₂ : JoinPc} {c : Prop} [Decidable c] (h₁ : Keeps pc pc₁)
    (h₂ : Keeps pc pc₂) : Keeps pc (if c then pc₁ else pc₂) := by
  split <;> assumption

end JoinPc

namespace ClusterRun

variable {π : Type u} [DecidableEq π]

inductive JoinMoves (p : π) (s : ClusterRun π) : ClusterRun π → Prop
  | go {pc} : (s.join p).Keeps pc → JoinMoves p s (s.joinGo p pc)
  | start {config} : s.join p = .enter config → s.cancelled = false → s.cluster = none →
    s.clusterJoining = false →
    JoinMoves p s { (s.enter (.take (.ticket s.ledger.length))).joinGo p
        (.create config s.ledger.length) with
      clusterJoining := true, clusterJoinDone := some s.ledger.length }
  | create {config d} : s.join p = .create config d →
    JoinMoves p s ((s.enter (.take (.item s.ledger.length))).joinGo p
      (.certificate config d s.ledger.length))
  | shutdown {d m err} : s.join p = .shutdown d m err →
    JoinMoves p s ((s.enter (.give (.item m))).joinGo p (.unwind d (some err)))
  | install {config d m localAddr} : s.join p = .install config d m → s.cancelled = false →
    JoinMoves p s { ((s.joinOver d).joinGo p (.reindex d)).indexGo (.inl p) .lock with
      cluster := some m
      peerTransport := some d
      maxClusterNodes := config.maxNodes.toNat
      localAddr := localAddr }
  | unwind {d err} : s.join p = .unwind d err → s.clusterJoinDone = some d →
    JoinMoves p s ((s.joinOver d).joinGo p (.returned err))
  | leave {d err} : s.join p = .unwind d err → s.clusterJoinDone ≠ some d →
    JoinMoves p s (s.joinGo p (.returned err))

inductive IndexMoves (digest : List UInt8 → List UInt8) (q : π ⊕ π) (members : List Node)
    (s : ClusterRun π) : ClusterRun π → Prop
  | lock : s.index q = .lock → s.clusterIndexMu = none →
    IndexMoves digest q members s { s.indexGo q .snapshot with clusterIndexMu := some q }
  | skip : s.index q = .snapshot → s.cluster = none →
    IndexMoves digest q members s (s.indexGo q .unlock)
  | snapshot {m} : s.index q = .snapshot → s.cluster = some m →
    IndexMoves digest q members s (s.indexGo q (.members m s.localAddr s.maxClusterNodes))
  | members {m localAddr maxNodes} : s.index q = .members m localAddr maxNodes →
    IndexMoves digest q members s
      (s.indexGo q (.flag (reindexed digest localAddr maxNodes members).2))
  | flag {table} : s.index q = .flag table →
    IndexMoves digest q members s
      { s.indexGo q (.publish table) with clusterOverCapacity := table.isNone }
  | publish {table} : s.index q = .publish table →
    IndexMoves digest q members s { s.indexGo q .unlock with
      routes := table, indexed := true, published := table.toList ++ s.published }
  | unlock : s.index q = .unlock →
    IndexMoves digest q members s { s.indexGo q .finished with clusterIndexMu := none }

inductive RequestMoves (p : π) (s : ClusterRun π) : ClusterRun π → Prop
  | refuse {key hop} : s.request p = .capacity key hop → RequestMoves p s (s.requestGo p .refused)
  | enter {key hop} : s.request p = .capacity key hop → s.clusterOverCapacity = false →
    RequestMoves p s (s.requestGo p (.route key hop (s.indexed && !s.cancelled)))
  | route {key hop clustered} : s.request p = .route key hop clustered →
    RequestMoves p s (s.requestGo p (.routed key s.routes
      (routeDecision (calculateRoute s.routes key) hop) (clustered && !s.cancelled)))

inductive CloseMoves (s : ClusterRun π) : ClusterRun π → Prop
  | wait {d} : s.closer = .lock → CloseMoves s { s with closer := .wait d }
  | wake {d} : s.closer = .wait d → CloseMoves s { s with closer := .lock }
  | take : s.closer = .lock → s.clusterJoinDone = none →
    CloseMoves s { s with
      cluster := none, peerTransport := none, maxClusterNodes := 0, localAddr := []
      closer := .routes s.cluster }
  | routes {c} : s.closer = .routes c → CloseMoves s { s with routes := none, closer := .flag c }
  | flag : s.closer = .flag none →
    CloseMoves s { s with clusterOverCapacity := false, closer := .returned }
  | flagged {m} : s.closer = .flag (some m) →
    CloseMoves s { s with clusterOverCapacity := false, closer := .leave m }
  | leave {m} : s.closer = .leave m → CloseMoves s { s with closer := .shutdown m }
  | shutdown {m} : s.closer = .shutdown m →
    CloseMoves s { s.enter (.give (.item m)) with closer := .returned }
  | finish : s.closer = .returned → CloseMoves s { s with closer := .closed }

/-- What the action of a step can do; `JoinCluster` begins like any other move of a join. -/
inductive Moves (digest : List UInt8 → List UInt8) (s : ClusterRun π) :
    ClusterAction π → ClusterRun π → Prop
  | join {x p t} : JoinMoves p s t → Moves digest s x t
  | notify {p} : s.index (.inr p) = .idle → Moves digest s (.notify p) (s.indexGo (.inr p) .lock)
  | index {q members t} : IndexMoves digest q members s t → Moves digest s (.index q members) t
  | serve {p key header hop} : s.request p = .idle →
    Moves digest s (.serve p key header)
      (s.requestGo p (if s.cancelled then .refused else .capacity key hop))
  | request {p t} : RequestMoves p s t → Moves digest s (.request p) t
  | close : s.closer = .idle → Moves digest s .close { s with cancelled := true, closer := .lock }
  | again : s.closer ≠ .idle → Moves digest s .close s
  | closer {t} : CloseMoves s t → Moves digest s .closer t

variable {digest : List UInt8 → List UInt8} {s t : ClusterRun π} {p : π}

theorem joinStep_moves {reply : JoinReply} (hs : s.joinStep p reply = some t) :
    JoinMoves p s t := by
  unfold joinStep at hs
  split at hs <;> rename_i hpc
  · cases hs
  · cases hs
  · have hreturn (err : JoinError) : (s.join p).Keeps (.returned (some err)) := by
      rw [hpc]
      exact ⟨rfl, nofun, id⟩
    split at hs
    · cases hs
      exact .go (hreturn .closed)
    rename_i hcancelled
    split at hs
    · cases hs
      exact .go (hreturn .initialized)
    · rename_i hbusy
      cases hs
      simp only [Bool.or_eq_true, not_or, Bool.not_eq_true] at hbusy hcancelled
      exact .start hpc hcancelled (by simpa using hbusy.1) hbusy.2
  · split at hs
    · cases hs
      exact .create hpc
    · cases hs
      exact .go (by rw [hpc]; exact ⟨rfl, nofun, id⟩)
  · cases hs
    exact .go (by rw [hpc]; exact .of_ite ⟨rfl, nofun, id⟩ ⟨rfl, nofun, id⟩)
  · cases hs
    exact .go (by rw [hpc]; exact .of_ite ⟨rfl, nofun, id⟩ ⟨rfl, nofun, id⟩)
  · cases hs
    exact .go (by rw [hpc]; exact .of_ite ⟨rfl, nofun, id⟩ ⟨rfl, nofun, id⟩)
  · cases hs
    exact .go (by rw [hpc]; exact ⟨rfl, nofun, id⟩)
  · split at hs
    · cases hs
      exact .go (by rw [hpc]; exact ⟨rfl, nofun, id⟩)
    · rename_i hcancelled
      cases hs
      exact .install hpc (by simpa using hcancelled)
  · cases hs
    exact .shutdown hpc
  · obtain ⟨-, hs⟩ := Option.ite_none_right_eq_some.mp hs
    cases hs
    exact .go (by rw [hpc]; exact ⟨rfl, fun _ => id, id⟩)
  · split at hs
    · rename_i hdone
      cases hs
      exact .unwind hpc hdone
    · rename_i hdone
      cases hs
      exact .leave hpc hdone

theorem indexStep_moves {q : π ⊕ π} {members : List Node}
    (hs : s.indexStep digest q members = some t) : IndexMoves digest q members s t := by
  unfold indexStep at hs
  split at hs <;> rename_i hpc
  · cases hs
  · cases hs
  · obtain ⟨hfree, hs⟩ := Option.ite_none_right_eq_some.mp hs
    cases hs
    exact .lock hpc hfree
  · cases hs
    split
    · exact .skip hpc ‹_›
    · exact .snapshot hpc ‹_›
  · cases hs
    exact .members hpc
  · cases hs
    exact .flag hpc
  · cases hs
    exact .publish hpc
  · cases hs
    exact .unlock hpc

theorem requestStep_moves (hs : s.requestStep p = some t) : RequestMoves p s t := by
  unfold requestStep at hs
  split at hs <;> rename_i hpc
  · cases hs
  · cases hs
  · cases hs
  · split at hs
    · cases hs
      exact .refuse hpc
    · rename_i hfull
      cases hs
      exact .enter hpc (by simpa using hfull)
  · cases hs
    exact .route hpc

omit [DecidableEq π] in
theorem closeStep_moves (hs : s.closeStep = some t) : CloseMoves s t := by
  unfold closeStep at hs
  split at hs <;> rename_i hpc
  · cases hs
  · cases hs
  · split at hs
    · cases hs
      exact .wait hpc
    · cases hs
      exact .take hpc ‹_›
  · obtain ⟨-, hs⟩ := Option.ite_none_right_eq_some.mp hs
    cases hs
    exact .wake hpc
  · cases hs
    exact .routes hpc
  · rename_i cluster
    cases hs
    cases cluster with
    | none => exact .flag hpc
    | some m => exact .flagged hpc
  · cases hs
    exact .leave hpc
  · cases hs
    exact .shutdown hpc
  · cases hs
    exact .finish hpc

theorem step_moves {x : ClusterAction π} (hs : s.step digest x = some t) :
    Moves digest s x t := by
  cases x with
  | joinCluster p config =>
    obtain ⟨hidle, hs⟩ := Option.ite_none_right_eq_some.mp hs
    cases hs
    refine .join (.go ?_)
    rw [hidle]
    split
    · exact ⟨rfl, nofun, id⟩
    · exact ⟨rfl, nofun, id⟩
  | join p reply => exact .join (joinStep_moves hs)
  | notify p =>
    obtain ⟨hidle, hs⟩ := Option.ite_none_right_eq_some.mp hs
    cases hs
    exact .notify hidle
  | index q members => exact .index (indexStep_moves hs)
  | serve p key header =>
    obtain ⟨hidle, hs⟩ := Option.ite_none_right_eq_some.mp hs
    cases hs
    exact .serve hidle
  | request p => exact .request (requestStep_moves hs)
  | close =>
    simp only [step] at hs
    split at hs <;> rename_i hidle <;> cases hs
    · exact .close hidle
    · exact .again hidle
  | closer => exact .closer (closeStep_moves hs)

/-- A move of a join changes nothing that is published or read by a request; the installation also
starts a run of `reindexMembers`, and it is not made once the proxy is closing. -/
structure JoinFrame (p : π) (s t : ClusterRun π) : Prop where
  clusterIndexMu : t.clusterIndexMu = s.clusterIndexMu
  clusterOverCapacity : t.clusterOverCapacity = s.clusterOverCapacity
  routes : t.routes = s.routes
  cancelled : t.cancelled = s.cancelled
  request : t.request = s.request
  closer : t.closer = s.closer
  indexed : t.indexed = s.indexed
  published : t.published = s.published
  join : ∀ q, q ≠ p → t.join q = s.join q
  index : t.index = s.index ∧ ((t.join p).early → (s.join p).early) ∨
    (s.join p).early ∧ (t.join p).early = false ∧ t.index = update s.index (.inl p) .lock

theorem joinGo_frame {pc : JoinPc} (h : pc.early → (s.join p).early) :
    JoinFrame p s (s.joinGo p pc) where
  clusterIndexMu := rfl
  clusterOverCapacity := rfl
  routes := rfl
  cancelled := rfl
  request := rfl
  closer := rfl
  indexed := rfl
  published := rfl
  join q hq := Function.update_of_ne hq ..
  index := .inl ⟨rfl, by simpa [joinGo] using h⟩

theorem JoinMoves.frame (h : JoinMoves p s t) : JoinFrame p s t := by
  cases h with
  | go hpc => exact joinGo_frame hpc.early
  | start hpc => exact { joinGo_frame (s := s) (p := p) fun _ => by rw [hpc]; rfl with }
  | create hpc => exact { joinGo_frame (s := s) (p := p) fun _ => by rw [hpc]; rfl with }
  | shutdown hpc => exact { joinGo_frame (s := s) (p := p) fun _ => by rw [hpc]; rfl with }
  | @install config d m localAddr hpc =>
    have hframe : JoinFrame p s (s.joinGo p (.reindex d)) := joinGo_frame nofun
    exact { hframe with
      index := .inr ⟨by rw [hpc]; rfl, by simp [joinGo, indexGo, JoinPc.early], rfl⟩ }
  | @unwind d err hpc =>
    have hearly : (JoinPc.returned err).early → (s.join p).early := by
      rw [hpc]
      cases err <;> exact id
    exact { joinGo_frame (s := s) hearly with }
  | @leave d err hpc =>
    refine joinGo_frame ?_
    rw [hpc]
    cases err <;> exact id

omit [DecidableEq π] in
theorem CloseMoves.ne_idle (h : CloseMoves s t) : s.closer ≠ .idle := by
  cases h <;> simp [*]

theorem closer_of_step {x : ClusterAction π} (hx : x ≠ .closer) (hidle : s.closer ≠ .idle)
    (hs : s.step digest x = some t) : t.closer = s.closer := by
  cases step_moves hs with
  | join hm => exact hm.frame.closer
  | notify => rfl
  | index hm => cases hm <;> rfl
  | serve => rfl
  | request hm => cases hm <;> rfl
  | close h => exact absurd h hidle
  | again => rfl
  | closer => exact absurd rfl hx

end ClusterRun

end NirnProxy
