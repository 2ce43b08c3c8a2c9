import NirnProxy.Routes.Prefix

/-! What the bucket path keeps of a route: its resource and, for channels, guilds and webhooks, the
id that Discord's limits depend on. -/

namespace NirnProxy

open Strings

def pathSegments (bucketPath : List UInt8) : List (List UInt8) :=
  (trimPrefix bucketPath [slash]).splitOn slash

/-- The first segment is the resource, and the second is the id where that is a major parameter. -/
def KeepsResource (S : List (List UInt8)) (bucketPath : List UInt8) : Prop :=
  (pathSegments bucketPath)[0]? = S[0]? ∧
    (S[0]? = some majorChannels ∨ S[0]? = some majorGuilds ∨ S[0]? = some majorWebhooks →
      (pathSegments bucketPath)[1]? = S[1]?)

/-- The routes under `guilds` that are taken for a callback. -/
def GuildCallback (S : List (List UInt8)) : Prop :=
  S.length = 4 ∧ S[0]? = some majorGuilds ∧ S[3]? = some (ascii "callback")

instance (S : List (List UInt8)) (bucketPath : List UInt8) :
    Decidable (KeepsResource S bucketPath) :=
  inferInstanceAs (Decidable (_ ∧ _))

instance (S : List (List UInt8)) : Decidable (GuildCallback S) :=
  inferInstanceAs (Decidable (_ ∧ _))

variable {path first second : List UInt8} {S parts : List (List UInt8)}

theorem pathSegments_two (hfirst : slash ∉ first) (hsecond : slash ∉ second) {tail : List UInt8}
    (htail : tail = [] ∨ ∃ t, tail = slash :: t) :
    (pathSegments (slash :: first ++ slash :: second ++ tail))[0]? = some first ∧
      (pathSegments (slash :: first ++ slash :: second ++ tail))[1]? = some second := by
  have htrim : trimPrefix (slash :: first ++ slash :: second ++ tail) [slash] =
      first ++ slash :: (second ++ tail) := by
    have h := trimPrefix_append [slash] (first ++ slash :: (second ++ tail))
    simpa using h
  rw [pathSegments, htrim, List.splitOn_append_cons_self_of_not_mem hfirst]
  obtain rfl | ⟨t, rfl⟩ := htail
  · rw [List.append_nil, List.splitOn_eq_singleton hsecond]
    exact ⟨rfl, rfl⟩
  · rw [List.splitOn_append_cons_self_of_not_mem hsecond]
    exact ⟨rfl, rfl⟩

theorem pathSegments_one (hfirst : slash ∉ first) : pathSegments first = [first] := by
  have hnot : ¬[slash] <+: first := by
    rintro ⟨t, rfl⟩
    exact hfirst List.mem_cons_self
  rw [pathSegments, trimPrefix_of_not hnot, List.splitOn_eq_singleton hfirst]

theorem dropAPIPrefix_subset : dropAPIPrefix parts ⊆ parts := by
  obtain _ | ⟨first, _ | ⟨version, rest⟩⟩ := parts
  · exact List.Subset.refl _
  · simp only [dropAPIPrefix]
    split_ifs
    · exact List.nil_subset _
    · exact List.Subset.refl _
  · simp only [dropAPIPrefix]
    split_ifs
    · exact List.subset_cons_of_subset _ (List.subset_cons_self _ _)
    · exact List.subset_cons_self _ _
    · exact List.Subset.refl _

theorem splitOn_cleanPath (hpath : path.head? = some slash) (hne : cleanAPIPath path ≠ []) :
    (cleanPath path).splitOn slash = cleanAPIPath path ∧ ∀ s ∈ cleanAPIPath path, slash ∉ s := by
  obtain ⟨rest, rfl⟩ : ∃ rest, path = slash :: rest := by
    cases path with
    | nil => cases hpath
    | cons c rest => exact ⟨rest, by rw [Option.some.inj hpath]⟩
  have hbefore : before 63 (slash :: rest) = slash :: before 63 rest :=
    before_cons_of_ne (by decide)
  have hjoin := hbefore.trans (congrArg (slash :: ·) (join_splitOn slash (before 63 rest)).symm)
  have hnil := List.splitOn_ne_nil slash (before 63 rest)
  have hfree : ∀ s ∈ (before 63 rest).splitOn slash, slash ∉ s := fun _ => notMem_of_mem_splitOn
  have hclean := cleanAPIPath_eq hnil hfree hjoin
  have hfree' : ∀ s ∈ cleanAPIPath (slash :: rest), slash ∉ s := by
    rw [hclean]
    exact fun s hs => hfree s (dropAPIPrefix_subset hs)
  refine ⟨?_, hfree'⟩
  obtain h | ⟨h, -⟩ := cleanPath_eq hnil hfree hjoin
  · rw [h, ← hclean, splitOn_join hfree' hne]
  · exact absurd (hclean.trans h) hne

theorem callback_head : ascii "/!/callback" = [] ∨ ∃ t, ascii "/!/callback" = slash :: t :=
  .inr ⟨_, rfl⟩

theorem messageAge_head (now : Int) (part : List UInt8) :
    messageAge now part = [] ∨ ∃ t, messageAge now part = slash :: t := by
  unfold messageAge
  simp only
  split
  · exact .inr ⟨_, rfl⟩
  · split
    · exact .inr ⟨_, rfl⟩
    · exact .inl rfl

theorem remainingPath_head (now : Int) (method major : List UInt8) (index : Nat)
    (previous : List UInt8) (parts : List (List UInt8)) :
    remainingPath now method major index previous parts = [] ∨
      ∃ t, remainingPath now method major index previous parts = slash :: t := by
  cases parts with
  | nil => exact .inl rfl
  | cons part parts =>
    unfold remainingPath
    simp only
    split
    · split
      · rename_i h
        rw [h.2.2.2, remainingPath, List.append_nil]
        exact messageAge_head now part
      · exact .inr ⟨_, rfl⟩
    · split
      · split <;> exact .inr ⟨_, rfl⟩
      · split
        · split <;> exact .inr ⟨_, rfl⟩
        · exact .inr ⟨_, rfl⟩

theorem resourcePath_eq (first : List UInt8) (hsecond : slash ∉ second) :
    ∃ id, slash ∉ id ∧ resourcePath first second = slash :: first ++ slash :: id ∧
      (first ≠ ascii "users" → first ≠ majorInvites → id = second) := by
  unfold resourcePath
  split
  · rename_i h
    refine ⟨_, ?_, rfl, fun hne => absurd h hne⟩
    split
    · decide
    · exact hsecond
  · split
    · rename_i h
      exact ⟨ascii "!", by decide, rfl, fun _ hne => absurd h hne⟩
    · exact ⟨second, hsecond, rfl, fun _ _ => rfl⟩

theorem keepsResource_of_not (now : Int) (method : List UInt8) (hpath : path.head? = some slash)
    (hne : cleanAPIPath path ≠ []) (hnot : ¬GuildCallback (cleanAPIPath path)) :
    KeepsResource (cleanAPIPath path) (getOptimisticBucketPath now path method) := by
  obtain ⟨hsplit, hfree⟩ := splitOn_cleanPath hpath hne
  have hjoin := join_splitOn slash (cleanPath path)
  rw [hsplit] at hjoin
  rw [getOptimisticBucketPath, hsplit]
  generalize cleanAPIPath path = S at hne hnot hfree hjoin ⊢
  obtain _ | ⟨first, _ | ⟨second, parts⟩⟩ := S
  · exact absurd rfl hne
  · rw [join_singleton] at hjoin
    have hone := pathSegments_one (hfree first List.mem_cons_self)
    rw [KeepsResource, ← hjoin, hone]
    exact ⟨rfl, fun _ => rfl⟩
  · have hfirst := hfree first List.mem_cons_self
    have hsecond := hfree second (List.mem_cons_of_mem _ List.mem_cons_self)
    simp only
    split
    · rename_i h
      obtain ⟨hresource, hlength, hcallback⟩ := h
      obtain rfl | rfl := hresource
      · exact absurd ⟨by simp [hlength], rfl, by simpa using hcallback⟩ hnot
      · obtain ⟨h0, h1⟩ := pathSegments_two hfirst hsecond callback_head
        exact ⟨h0, fun _ => h1⟩
    · obtain ⟨id, hid, hresource, hkept⟩ := resourcePath_eq first hsecond
      obtain ⟨h0, h1⟩ := pathSegments_two hfirst hid
        (remainingPath_head now method first 0 second parts)
      rw [hresource]
      refine ⟨h0, fun hmajor => ?_⟩
      have hmajor' : first = majorChannels ∨ first = majorGuilds ∨ first = majorWebhooks := by
        simpa using hmajor
      have hid : first ≠ ascii "users" ∧ first ≠ majorInvites := by
        obtain rfl | rfl | rfl := hmajor' <;> decide
      rw [h1, hkept hid.1 hid.2]
      rfl

theorem bucketPath_guildCallback (now : Int) (method : List UInt8)
    (hpath : path.head? = some slash) (h : GuildCallback (cleanAPIPath path)) :
    (pathSegments (getOptimisticBucketPath now path method))[0]? = some majorInteractions := by
  obtain ⟨hlength, hguilds, hcallback⟩ := h
  have hne : cleanAPIPath path ≠ [] := fun hnil => by simp [hnil] at hlength
  obtain ⟨hsplit, hfree⟩ := splitOn_cleanPath hpath hne
  rw [getOptimisticBucketPath, hsplit]
  generalize cleanAPIPath path = S at hlength hguilds hcallback hfree
  obtain ⟨first, second, third, fourth, rfl⟩ := List.length_eq_four.mp hlength
  obtain rfl : first = majorGuilds := by simpa using hguilds
  obtain rfl : fourth = ascii "callback" := by simpa using hcallback
  have hsecond := hfree second (by simp)
  simp only [true_or, List.length_cons, List.length_nil, true_and]
  exact (pathSegments_two (by decide) hsecond callback_head).1

/-- Two routes with one bucket path name one resource, and one id where it is a major parameter. -/
theorem KeepsResource.resource_eq {S' : List (List UInt8)} {bucketPath : List UInt8}
    (h : KeepsResource S bucketPath) (h' : KeepsResource S' bucketPath) :
    S[0]? = S'[0]? ∧
      (S[0]? = some majorChannels ∨ S[0]? = some majorGuilds ∨ S[0]? = some majorWebhooks →
        S[1]? = S'[1]?) := by
  have hresource : S[0]? = S'[0]? := h.1.symm.trans h'.1
  refine ⟨hresource, fun hmajor => ?_⟩
  exact (h.2 hmajor).symm.trans (h'.2 (hresource ▸ hmajor))

/-- The bucket path keeps the resource and the major parameter of a route exactly where the route is
not a guild's taken for a callback; two such routes that differ in either never share one. -/
theorem resource_kept (now : Int) (path method : List UInt8) (hpath : path.head? = some slash) :
    ((2 ≤ (cleanAPIPath path).length →
        KeepsResource (cleanAPIPath path) (getOptimisticBucketPath now path method)) ↔
      ¬GuildCallback (cleanAPIPath path)) ∧
    ∀ (now' : Int) (path' method' : List UInt8), path'.head? = some slash →
      cleanAPIPath path ≠ [] → cleanAPIPath path' ≠ [] →
      ¬GuildCallback (cleanAPIPath path) → ¬GuildCallback (cleanAPIPath path') →
      (cleanAPIPath path)[0]? ≠ (cleanAPIPath path')[0]? ∨
        ((cleanAPIPath path)[0]? = some majorChannels ∨
            (cleanAPIPath path)[0]? = some majorGuilds ∨
            (cleanAPIPath path)[0]? = some majorWebhooks) ∧
          (cleanAPIPath path)[1]? ≠ (cleanAPIPath path')[1]? →
      getOptimisticBucketPath now path method ≠ getOptimisticBucketPath now' path' method' := by
  refine ⟨⟨fun hkept h => ?_, fun hnot hlength => ?_⟩, ?_⟩
  · obtain ⟨hlength, hguilds, -⟩ := id h
    have hresource := (hkept (by omega)).1
    rw [bucketPath_guildCallback now method hpath h, hguilds] at hresource
    exact absurd hresource (by decide)
  · exact keepsResource_of_not now method hpath (by rintro h; simp [h] at hlength) hnot
  · intro now' path' method' hpath' hne hne' hnot hnot' hdiffer hshared
    have hkept := keepsResource_of_not now method hpath hne hnot
    have hkept' := keepsResource_of_not now' method' hpath' hne' hnot'
    rw [← hshared] at hkept'
    obtain ⟨hresource, hid⟩ := hkept.resource_eq hkept'
    obtain h | ⟨hmajor, h⟩ := hdiffer
    · exact h hresource
    · exact h (hid hmajor)

theorem resource_kept_message :
    KeepsResource (cleanAPIPath (ascii "/api/v9/channels/1/messages/2"))
        (getOptimisticBucketPath 0 (ascii "/api/v9/channels/1/messages/2") (ascii "GET")) ∧
      getOptimisticBucketPath 0 (ascii "/api/v9/channels/1/messages/2") (ascii "GET") ≠
        getOptimisticBucketPath 0 (ascii "/api/v9/channels/3/messages/2") (ascii "GET") :=
  have h := resource_kept 0 (ascii "/api/v9/channels/1/messages/2") (ascii "GET") (by decide)
  ⟨h.1.mpr (by decide) (by decide),
    h.2 0 (ascii "/api/v9/channels/3/messages/2") (ascii "GET") (by decide) (by decide) (by decide)
      (by decide) (by decide) (.inr ⟨.inl (by decide), by decide⟩)⟩

/-- The bucket of a guild's route is that of an interaction's callback. -/
theorem guild_callback_misfiled :
    (ascii "/guilds/1/a/callback").head? = some slash ∧
      2 ≤ (cleanAPIPath (ascii "/guilds/1/a/callback")).length ∧
      ¬KeepsResource (cleanAPIPath (ascii "/guilds/1/a/callback"))
        (getOptimisticBucketPath 0 (ascii "/guilds/1/a/callback") (ascii "GET")) ∧
      getOptimisticBucketPath 0 (ascii "/guilds/1/a/callback") (ascii "GET") =
        getOptimisticBucketPath 0 (ascii "/interactions/1/a/callback") (ascii "GET") := by
  decide +kernel

end NirnProxy
