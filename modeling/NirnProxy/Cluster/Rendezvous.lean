import Mathlib.Data.List.MinMax
import Mathlib.Data.List.Nodup
import NirnProxy.Cluster.Routing
import NirnProxy.Words

/-! The rendezvous choice is a maximum: the member with the greatest score, and among these the one
that comes first in the table.  A member that is not chosen therefore has no say in the choice.  The
scores are a permutation of the words, so members with different hashes are never level. -/

namespace NirnProxy

def ClusterMember.rank (key : UInt64) (member : ClusterMember) : Nat := (member.score key).toNat

section Argmax

variable {key : UInt64}

theorem better_eq (selected member : ClusterMember) :
    ClusterMember.better key (selected, selected.score key) member =
      if selected.rank key < member.rank key then (member, member.score key)
      else (selected, selected.score key) := by
  by_cases hlt : selected.rank key < member.rank key
  · rw [if_pos hlt]
    exact if_pos (UInt64.lt_iff_toNat_lt.mpr hlt)
  · rw [if_neg hlt]
    exact if_neg fun h => hlt (UInt64.lt_iff_toNat_lt.mp h)

theorem foldl_better (selected : ClusterMember) (members : List ClusterMember) :
    some (members.foldl (ClusterMember.better key) (selected, selected.score key)).1 =
      members.foldl (List.argAux fun b c => c.rank key < b.rank key) (some selected) := by
  induction members generalizing selected with
  | nil => rfl
  | cons member members ih =>
    rw [List.foldl_cons, List.foldl_cons, better_eq]
    by_cases hlt : selected.rank key < member.rank key
    · have hstep : List.argAux (fun b c => c.rank key < b.rank key) (some selected) member =
          some member := if_pos hlt
      rw [hstep, if_pos hlt]
      exact ih member
    · have hstep : List.argAux (fun b c => c.rank key < b.rank key) (some selected) member =
          some selected := if_neg hlt
      rw [hstep, if_neg hlt]
      exact ih selected

theorem rendezvousMember_eq_argmax (members : List ClusterMember) :
    rendezvousMember key members = members.argmax (ClusterMember.rank key) := by
  cases members with
  | nil => rfl
  | cons member members => exact foldl_better member members

end Argmax

theorem name_le_of_idxOf_le {members : List ClusterMember} {a b : ClusterMember}
    (hsorted : members.Pairwise fun a b => a.name < b.name) (ha : a ∈ members) (hb : b ∈ members)
    (h : members.idxOf a ≤ members.idxOf b) : a.name ≤ b.name := by
  obtain heq | hlt := Nat.eq_or_lt_of_le h
  · rw [(List.idxOf_inj ha).mp heq]
    exact List.le_refl _
  · have hlen := List.idxOf_lt_length_iff.mpr hb
    have hname := List.pairwise_iff_getElem.mp hsorted _ _ (hlt.trans hlen) hlen hlt
    rw [List.getElem_idxOf, List.getElem_idxOf] at hname
    exact List.le_of_lt hname

section Choice

variable {key : UInt64} {members : List ClusterMember} {chosen member : ClusterMember}

theorem chosen_first (hsorted : members.Pairwise fun a b => a.name < b.name)
    (h : rendezvousMember key members = some chosen) (hm : member ∈ members) :
    member.rank key ≤ chosen.rank key ∧
      (chosen.rank key ≤ member.rank key → chosen.name ≤ member.name) := by
  rw [rendezvousMember_eq_argmax] at h
  obtain ⟨hmem, hmax, hfirst⟩ := List.mem_argmax_iff.mp h
  exact ⟨hmax member hm, fun hle => name_le_of_idxOf_le hsorted hmem hm (hfirst member hm hle)⟩

theorem chosen_unique {members' : List ClusterMember} {chosen' : ClusterMember}
    (hsorted : members.Pairwise fun a b => a.name < b.name)
    (hsorted' : members'.Pairwise fun a b => a.name < b.name)
    (hsame : ∀ m ∈ members, ∀ m' ∈ members', m.name = m'.name → m = m')
    (h : rendezvousMember key members = some chosen)
    (h' : rendezvousMember key members' = some chosen') (hin : chosen ∈ members')
    (hin' : chosen' ∈ members) : chosen = chosen' := by
  obtain ⟨hle', hname⟩ := chosen_first hsorted h hin'
  obtain ⟨hle, hname'⟩ := chosen_first hsorted' h' hin
  have hmem := rendezvousMember_mem h
  have hmem' := rendezvousMember_mem h'
  exact hsame _ hmem _ hmem' (List.le_antisymm (hname hle) (hname' hle'))

end Choice

/-- The choice does not depend on members that neither list chooses: where each list has the choice
of the other, the choices agree.  So a key moves only to an added member, and only the keys of
removed members move. -/
theorem rendezvous_independent (key : UInt64) (members members' : List ClusterMember)
    (hne : members ≠ []) (hne' : members' ≠ [])
    (hsorted : members.Pairwise fun a b => a.name < b.name)
    (hsorted' : members'.Pairwise fun a b => a.name < b.name)
    (hsame : ∀ m ∈ members, ∀ m' ∈ members', m.name = m'.name → m = m') :
    ∃ chosen chosen', rendezvousMember key members = some chosen ∧
      rendezvousMember key members' = some chosen' ∧
      (chosen ∈ members' → chosen' ∈ members → chosen = chosen') ∧
      (members ⊆ members' → chosen' ≠ chosen → chosen' ∉ members) ∧
      (members' ⊆ members → chosen' ≠ chosen → chosen ∉ members') := by
  obtain ⟨chosen, h⟩ : ∃ chosen, rendezvousMember key members = some chosen :=
    rendezvousMember_isSome hne
  obtain ⟨chosen', h'⟩ : ∃ chosen', rendezvousMember key members' = some chosen' :=
    rendezvousMember_isSome hne'
  have hunique := chosen_unique hsorted hsorted' hsame h h'
  refine ⟨chosen, chosen', h, h', hunique, fun hadded hmoved hin' => ?_,
    fun hremoved hmoved hin => ?_⟩
  · exact hmoved (hunique (hadded (rendezvousMember_mem h)) hin').symm
  · exact hmoved (hunique hin (hremoved (rendezvousMember_mem h'))).symm

def threeMembers : List ClusterMember :=
  [⟨[97], [1], 5⟩, ⟨[98], [2], 5⟩, ⟨[99], [3], 7⟩]

theorem rendezvous_independent_added :
    ∃ chosen chosen', rendezvousMember 6 (threeMembers.take 2) = some chosen ∧
      rendezvousMember 6 threeMembers = some chosen' ∧ chosen' ≠ chosen ∧
      chosen' ∉ threeMembers.take 2 := by
  obtain ⟨chosen, chosen', h, h', -, hadded, -⟩ :=
    rendezvous_independent 6 (threeMembers.take 2) threeMembers (by decide) (by decide)
      (by decide) (by decide) (by decide)
  have hmoved : chosen' ≠ chosen := by
    have hne : rendezvousMember 6 threeMembers ≠ rendezvousMember 6 (threeMembers.take 2) := by
      decide
    rw [h, h'] at hne
    exact fun heq => hne (congrArg some heq)
  exact ⟨chosen, chosen', h, h', hmoved, hadded (by decide) hmoved⟩

section Mixing

variable {key : UInt64} {members : List ClusterMember}

/-- `mix64` is a sum, two products by odd words and the xor-shifts between and behind them. -/
theorem mix64_bijective : Function.Bijective mix64 := by
  have hfirst := Words.bijective_mul (c := 0xbf58476d1ce4e5b9) (d := 0x96de1b173f119089) rfl
  have hsecond := Words.bijective_mul (c := 0x94d049bb133111eb) (d := 0x319642b2d24d8ec3) rfl
  have hshift (k : UInt64) (hk : 0 < k.toNat % 64) := Words.bijective_xorShift hk
  exact (hshift 31 (by decide)).comp <| hsecond.comp <| (hshift 27 (by decide)).comp <|
    hfirst.comp <| (hshift 30 (by decide)).comp <| Words.bijective_add 0x9e3779b97f4a7c15

theorem score_eq_iff (key : UInt64) (member member' : ClusterMember) :
    member.score key = member'.score key ↔ member.hash = member'.hash := by
  rw [ClusterMember.score, ClusterMember.score, mix64_bijective.injective.eq_iff,
    UInt64.xor_right_inj]

theorem rank_le_iff (key : UInt64) (member member' : ClusterMember) :
    member.rank key ≤ member'.rank key ↔ member.score key ≤ member'.score key :=
  UInt64.le_iff_toNat_le.symm

theorem eq_of_maximal (hdistinct : members.Pairwise fun a b => a.hash ≠ b.hash)
    {member member' : ClusterMember} (hm : member ∈ members) (hm' : member' ∈ members)
    (hmax : ∀ other ∈ members, other.score key ≤ member.score key)
    (hmax' : ∀ other ∈ members, other.score key ≤ member'.score key) : member = member' := by
  have hscore : member.score key = member'.score key :=
    UInt64.le_antisymm (hmax' member hm) (hmax member' hm')
  have hhash := (score_eq_iff key member member').mp hscore
  exact List.inj_on_of_nodup_map (List.pairwise_map.mpr hdistinct) hm hm' hhash

/-- `mix64` permutes the words: two members have the same score exactly where they have the same
hash, and among members with distinct hashes the choice is the only one with the greatest score. -/
theorem mix64_permutes :
    Function.Bijective mix64 ∧
    (∀ (key : UInt64) (member member' : ClusterMember),
      member.score key = member'.score key ↔ member.hash = member'.hash) ∧
    ∀ (key : UInt64) (members : List ClusterMember), members ≠ [] →
      members.Pairwise (fun a b => a.hash ≠ b.hash) →
      ∃ chosen ∈ members, rendezvousMember key members = some chosen ∧
        ∀ member ∈ members,
          (∀ other ∈ members, other.score key ≤ member.score key) ↔ member = chosen := by
  refine ⟨mix64_bijective, score_eq_iff, fun key members hne hdistinct => ?_⟩
  obtain ⟨chosen, h⟩ : ∃ chosen, rendezvousMember key members = some chosen :=
    rendezvousMember_isSome hne
  have hchosen := rendezvousMember_mem h
  rw [rendezvousMember_eq_argmax] at h
  have hmax : ∀ other ∈ members, other.score key ≤ chosen.score key := fun other hother =>
    (rank_le_iff key other chosen).mp ((List.mem_argmax_iff.mp h).2.1 other hother)
  rw [← rendezvousMember_eq_argmax] at h
  refine ⟨chosen, hchosen, h, fun member hmember => ⟨fun hmember' => ?_, fun heq => heq ▸ hmax⟩⟩
  exact eq_of_maximal hdistinct hmember hchosen hmember' hmax

/-- The last two of the members have different hashes. -/
theorem mix64_permutes_apart :
    ∃ chosen ∈ threeMembers.drop 1, rendezvousMember 6 (threeMembers.drop 1) = some chosen ∧
      ∀ member ∈ threeMembers.drop 1,
        (∀ other ∈ threeMembers.drop 1, other.score 6 ≤ member.score 6) ↔ member = chosen :=
  mix64_permutes.2.2 6 (threeMembers.drop 1) (by decide) (by decide)

end Mixing

end NirnProxy
