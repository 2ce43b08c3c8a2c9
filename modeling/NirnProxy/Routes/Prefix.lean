import NirnProxy.Routes.Path

/-! The two functions that take the API prefix off a path agree: one works on the text, the other on
the parts between the slashes. -/

namespace NirnProxy

open Strings

variable {path : List UInt8} {parts : List (List UInt8)} {version : List UInt8}

theorem isVersion_cons (digits : List UInt8) :
    isVersion (118 :: digits) = isNumericInput digits := rfl

theorem isVersion_of_ne (h : ¬[118] <+: version) : isVersion version = false := by
  unfold isVersion
  split
  · exact absurd ⟨_, rfl⟩ h
  · rfl

theorem notMem_of_numeric {value : List UInt8} {c : UInt8} (h : isNumericInput value = true)
    (hc : Text.isDigit c = false) : c ∉ value := by
  intro hmem
  have hall := (Bool.and_eq_true_iff.mp h).2
  exact absurd (List.all_eq_true.mp hall c hmem) (Bool.eq_false_iff.mp hc)

theorem v_prefix_join (hfree : slash ∉ version) :
    [118] <+: join slash (version :: parts) ↔ [118] <+: version := by
  cases parts with
  | nil => rw [join_singleton]
  | cons t parts =>
    rw [join_cons_cons]
    cases version with
    | nil => simp [slash]
    | cons c version => simp

theorem cleanPath_api (hfree : ∀ s ∈ version :: parts, slash ∉ s)
    (hpath : before 63 path = ascii "/api/" ++ join slash (version :: parts)) :
    cleanPath path =
      if isVersion version ∧ parts ≠ [] then join slash parts
      else join slash (version :: parts) := by
  have hunversioned := trimPrefix_append (ascii "/api/") (join slash (version :: parts))
  have hshort : join slash (version :: parts) ≠ ascii "/api/" ++ join slash (version :: parts) :=
    fun h => absurd (congrArg List.length h) (by simp [ascii]; omega)
  by_cases hv : [118] <+: version
  · obtain ⟨digits, rfl⟩ := hv
    have hdigits : slash ∉ digits := fun hmem =>
      hfree _ List.mem_cons_self (List.mem_cons_of_mem _ hmem)
    have hjoin : join slash (([118] ++ digits) :: parts) = 118 :: join slash (digits :: parts) := by
      cases parts <;> simp
    have hversioned : trimPrefix (before 63 path) (ascii "/api/v") =
        join slash (digits :: parts) := by
      rw [hpath, hjoin]
      exact trimPrefix_append (ascii "/api/v") _
    have hne : join slash (digits :: parts) ≠ before 63 path := by
      rw [hpath, hjoin]
      exact fun h => absurd (congrArg List.length h) (by simp [ascii]; omega)
    rw [cleanPath, hversioned, if_pos hne, hpath, hunversioned]
    cases parts with
    | nil => simp [hdigits]
    | cons t parts =>
      rw [join_cons_cons, before_append hdigits, after_append hdigits]
      simp [isVersion_cons]
  · have hnot : ¬ascii "/api/v" <+: ascii "/api/" ++ join slash (version :: parts) := by
      intro h
      have h' : ascii "/api/" ++ [118] <+: ascii "/api/" ++ join slash (version :: parts) := h
      rw [List.prefix_append_right_inj, v_prefix_join (hfree _ List.mem_cons_self)] at h'
      exact hv h'
    rw [cleanPath, hpath, trimPrefix_of_not hnot, if_neg (not_not.mpr rfl), hunversioned,
      if_pos hshort, isVersion_of_ne hv]
    simp

theorem cleanPath_plain (hfree : ∀ s ∈ parts, slash ∉ s)
    (hapi : ∀ rest, rest ≠ [] → parts ≠ ascii "api" :: rest)
    (hpath : before 63 path = slash :: join slash parts) : cleanPath path = join slash parts := by
  have hnot : ¬ascii "/api/" <+: slash :: join slash parts := by
    intro h
    have h' : [slash] ++ (ascii "api" ++ [slash]) <+: [slash] ++ join slash parts := h
    rw [List.prefix_append_right_inj, prefix_join_iff (by decide) hfree] at h'
    obtain ⟨rest, hne, hparts⟩ := h'
    exact hapi rest hne hparts
  have hnot' : ¬ascii "/api/v" <+: slash :: join slash parts := fun h =>
    hnot (List.IsPrefix.trans (by decide) h)
  have hslash := trimPrefix_append [slash] (join slash parts)
  rw [List.singleton_append] at hslash
  rw [cleanPath, hpath, trimPrefix_of_not hnot', if_neg (not_not.mpr rfl), trimPrefix_of_not hnot,
    if_neg (not_not.mpr rfl), hslash]

theorem cleanPath_eq (hne : parts ≠ []) (hfree : ∀ s ∈ parts, slash ∉ s)
    (hpath : before 63 path = slash :: join slash parts) :
    cleanPath path = join slash (dropAPIPrefix parts) ∨
      dropAPIPrefix parts = [] ∧ slash ∉ cleanPath path := by
  cases parts with
  | nil => exact absurd rfl hne
  | cons first parts =>
    by_cases hfirst : first = ascii "api"
    · subst hfirst
      cases parts with
      | nil =>
        rw [cleanPath_plain hfree (by simp) hpath]
        exact .inr ⟨rfl, by decide⟩
      | cons version parts =>
        have hrest : ∀ s ∈ version :: parts, slash ∉ s := fun s hs =>
          hfree s (List.mem_cons_of_mem _ hs)
        rw [join_cons_cons] at hpath
        rw [cleanPath_api hrest hpath]
        simp only [dropAPIPrefix, if_true]
        by_cases hv : isVersion version = true
        · cases parts with
          | nil => exact .inr ⟨by simp [hv], by simpa using hrest version List.mem_cons_self⟩
          | cons t parts => simp [hv]
        · simp [hv]
    · rw [cleanPath_plain hfree (fun rest _ h => hfirst (List.cons.inj h).1) hpath]
      simp [dropAPIPrefix, hfirst]

theorem cleanAPIPath_eq (hne : parts ≠ []) (hfree : ∀ s ∈ parts, slash ∉ s)
    (hpath : before 63 path = slash :: join slash parts) :
    cleanAPIPath path = dropAPIPrefix parts := by
  have hslash := trimPrefix_append [slash] (join slash parts)
  rw [List.singleton_append] at hslash
  rw [cleanAPIPath, hpath, hslash, splitOn_join hfree hne]

/-- `path` is a spelling of the route `S`: with or without the prefix, a version and a query. -/
def Spells (S : List (List UInt8)) (path : List UInt8) : Prop :=
  ∃ pre suffix, path = pre ++ join slash S ++ suffix ∧
    (pre = [slash] ∨ pre = ascii "/api/" ∨
      ∃ N, isNumericInput N = true ∧ pre = ascii "/api/v" ++ N ++ [slash]) ∧
    (suffix = [] ∨ ∃ query, suffix = 63 :: query)

variable {S : List (List UInt8)}

/-- The parts of a spelling are those of the route, behind those of the prefix. -/
theorem Spells.exists_parts (h : Spells S path) (hne : S ≠ []) (hfree : ∀ s ∈ S, slash ∉ s ∧ 63 ∉ s)
    (hfirst : ∀ s, S.head? = some s → s ≠ ascii "api" ∧ isVersion s = false) :
    ∃ parts, parts ≠ [] ∧ (∀ s ∈ parts, slash ∉ s) ∧ dropAPIPrefix parts = S ∧
      before 63 path = slash :: join slash parts := by
  obtain ⟨pre, suffix, rfl, hpre, hsuffix⟩ := h
  have hquery (hmark : 63 ∉ pre) :
      before 63 (pre ++ join slash S ++ suffix) = pre ++ join slash S := by
    have hmem : 63 ∉ pre ++ join slash S := fun hm =>
      (List.mem_append.mp hm).elim hmark (notMem_join (by decide) fun s hs => (hfree s hs).2)
    obtain rfl | ⟨query, rfl⟩ := hsuffix
    · rw [List.append_nil]
      exact before_of_notMem hmem
    · exact before_append hmem
  have hslash : ∀ s ∈ S, slash ∉ s := fun s hs => (hfree s hs).1
  obtain ⟨first, rest, rfl⟩ := List.exists_cons_of_ne_nil hne
  obtain ⟨hapi, hversion⟩ := hfirst first rfl
  obtain rfl | rfl | ⟨N, hN, rfl⟩ := hpre
  · exact ⟨_, hne, hslash, by simp [dropAPIPrefix, hapi], hquery (by decide)⟩
  · refine ⟨ascii "api" :: first :: rest, by simp, ?_, by simp [dropAPIPrefix, hversion], ?_⟩
    · exact List.forall_mem_cons.mpr ⟨by decide, hslash⟩
    · rw [hquery (by decide), join_cons_cons]
      rfl
  · have hmark : 63 ∉ ascii "/api/v" ++ N ++ [slash] := by
      have hnumber := notMem_of_numeric (c := 63) hN rfl
      simp only [List.mem_append, hnumber, or_false]
      decide
    refine ⟨ascii "api" :: (118 :: N) :: first :: rest, by simp, ?_,
      by simp [dropAPIPrefix, isVersion_cons, hN], ?_⟩
    · refine List.forall_mem_cons.mpr ⟨by decide, List.forall_mem_cons.mpr ⟨?_, hslash⟩⟩
      exact List.not_mem_cons_of_ne_of_not_mem (by decide) (notMem_of_numeric hN rfl)
    · rw [hquery hmark, join_cons_cons, join_cons_cons]
      simp [ascii, slash]

/-- However the prefix and the query are written, the route is the same. -/
theorem Spells.clean (h : Spells S path) (hne : S ≠ []) (hfree : ∀ s ∈ S, slash ∉ s ∧ 63 ∉ s)
    (hfirst : ∀ s, S.head? = some s → s ≠ ascii "api" ∧ isVersion s = false) :
    cleanPath path = join slash S ∧ cleanAPIPath path = S := by
  obtain ⟨parts, hparts, hslash, hdrop, hpath⟩ := h.exists_parts hne hfree hfirst
  refine ⟨?_, (cleanAPIPath_eq hparts hslash hpath).trans hdrop⟩
  obtain heq | ⟨hnil, -⟩ := cleanPath_eq hparts hslash hpath
  · rw [heq, hdrop]
  · exact absurd (hdrop.symm.trans hnil) hne

/-- All spellings of a route, with or without the prefix of the API, its version and a query, have
the same bucket path, major parameter and kind of endpoint, and so the same hashes. -/
theorem spelling_invisible (S : List (List UInt8)) (hne : S ≠ [])
    (hfree : ∀ s ∈ S, slash ∉ s ∧ 63 ∉ s)
    (hfirst : ∀ s, S.head? = some s → s ≠ ascii "api" ∧ isVersion s = false)
    (path path' : List UInt8) (h : Spells S path) (h' : Spells S path') (method : List UInt8)
    (now : Int) (identity : Identity (Vector UInt8 32)) :
    getOptimisticBucketPath now path method = getOptimisticBucketPath now path' method ∧
    majorParameter path = majorParameter path' ∧
    isInteractionEndpoint path = isInteractionEndpoint path' ∧
    routeHash method (getOptimisticBucketPath now path method) (majorParameter path) =
      routeHash method (getOptimisticBucketPath now path' method) (majorParameter path') ∧
    affinityHash identity (getOptimisticBucketPath now path method) (isInteractionEndpoint path) =
      affinityHash identity (getOptimisticBucketPath now path' method)
        (isInteractionEndpoint path') := by
  obtain ⟨hclean, hparts⟩ := h.clean hne hfree hfirst
  obtain ⟨hclean', hparts'⟩ := h'.clean hne hfree hfirst
  have hbucket :
      getOptimisticBucketPath now path method = getOptimisticBucketPath now path' method := by
    rw [getOptimisticBucketPath, getOptimisticBucketPath, hclean, hclean']
  have hmajor : majorParameter path = majorParameter path' := by
    rw [majorParameter, majorParameter, hparts, hparts']
  have hinteraction : isInteractionEndpoint path = isInteractionEndpoint path' := by
    rw [isInteractionEndpoint, isInteractionEndpoint, hparts, hparts']
  exact ⟨hbucket, hmajor, hinteraction, by rw [hbucket, hmajor], by rw [hbucket, hinteraction]⟩

/-- A path whose first part starts with a `v` and another character, with and without a version. -/
theorem spelling_invisible_versioned :
    getOptimisticBucketPath 0 (ascii "/vanity/7") (ascii "GET") =
      getOptimisticBucketPath 0 (ascii "/api/v10/vanity/7?x=1") (ascii "GET") :=
  (spelling_invisible [ascii "vanity", ascii "7"] (by decide) (by decide) (by decide)
    (ascii "/vanity/7") (ascii "/api/v10/vanity/7?x=1")
    ⟨[slash], [], by decide, .inl rfl, .inl rfl⟩
    ⟨ascii "/api/v10/", ascii "?x=1", by decide, .inr (.inr ⟨ascii "10", by decide, by decide⟩),
      .inr ⟨ascii "x=1", by decide⟩⟩
    (ascii "GET") 0 ⟨.none, .replicate 32 0⟩).1

end NirnProxy
