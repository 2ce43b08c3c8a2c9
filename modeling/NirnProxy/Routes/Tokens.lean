import NirnProxy.Routes.Prefix

/-! What the bucket path shows of a webhook's or an interaction's token: an exclamation mark, or the
id that an interaction token carries. -/

namespace NirnProxy

open Strings

def tokenLabel (token : List UInt8) : List UInt8 :=
  if hasPrefix token interactionTokenPrefix then interactionID token else ascii "!"

/-- What both functions take off in front of a route. -/
def APIPrefix (pre : List UInt8) : Prop :=
  pre = [] ∨ pre = [slash] ∨ pre = ascii "/api/" ∨
    ∃ N, isNumericInput N = true ∧ pre = ascii "/api/v" ++ N ++ [slash]

variable {major id token token' : List UInt8}

section Label

theorem tokenLabel_of_not (h : hasPrefix token interactionTokenPrefix = false) :
    tokenLabel token = ascii "!" := by
  simp [tokenLabel, h]

theorem tokenLabel_of_decodes {decoded : List UInt8}
    (h : hasPrefix token interactionTokenPrefix = true)
    (hdecode : Base64.decodeString (padToken token) = some decoded) (hid : idField decoded ≠ []) :
    tokenLabel token = idField decoded := by
  simp [tokenLabel, h, interactionID, hdecode, hid]

theorem tokenLabel_of_fails (h : hasPrefix token interactionTokenPrefix = true)
    (hdecode : Base64.decodeString (padToken token) = none) :
    tokenLabel token = ascii "Unknown" := by
  simp [tokenLabel, h, interactionID, hdecode]

theorem not_snowflake (h : hasPrefix token interactionTokenPrefix = true) :
    isSnowflake token = false := by
  obtain ⟨rest, rfl⟩ := of_decide_eq_true h
  have hnumeric : isNumericInput (interactionTokenPrefix ++ rest) = false := by
    rw [isNumericInput, List.all_append]
    simp [show interactionTokenPrefix.all Text.isDigit = false by decide]
  unfold isSnowflake
  split
  · rfl
  · exact hnumeric

end Label

section Loop

variable (now : Int) (method : List UInt8)

theorem remainingPath_previous (hmajor : major ≠ majorChannels) (index : Nat)
    (previous previous' : List UInt8) (parts : List (List UInt8)) :
    remainingPath now method major index previous parts =
      remainingPath now method major index previous' parts := by
  cases parts with
  | nil => rfl
  | cons part parts => simp only [remainingPath, hmajor, false_and, if_false]

theorem remainingPath_token (hmajor : major = majorWebhooks ∨ major = majorInteractions)
    (previous token : List UInt8) (parts : List (List UInt8)) :
    remainingPath now method major 0 previous (token :: parts) =
      slash :: tokenLabel token ++ remainingPath now method major 1 [] parts := by
  have hchannels : major ≠ majorChannels := by
    obtain rfl | rfl := hmajor <;> decide
  rw [remainingPath_previous now method hchannels 1 [] token]
  simp only [remainingPath, hchannels, false_and, if_false, hmajor, and_self, true_or, if_true]
  cases hprefix : hasPrefix token interactionTokenPrefix with
  | true =>
    rw [not_snowflake hprefix]
    simp [tokenLabel, hprefix]
  | false =>
    rw [tokenLabel_of_not hprefix]
    split <;> rfl

end Loop

section Path

variable {pre rest : List UInt8}

def tokenPath (pre major id rest token : List UInt8) : List UInt8 :=
  pre ++ join slash [major, id, token] ++ rest

theorem bucketPath_congr {path path' : List UInt8} (h : before 63 path = before 63 path')
    (now : Int) (method : List UInt8) :
    getOptimisticBucketPath now path method = getOptimisticBucketPath now path' method := by
  have hclean : cleanPath path = cleanPath path' := by
    rw [cleanPath, cleanPath, h]
  rw [getOptimisticBucketPath, getOptimisticBucketPath, hclean]

theorem exists_parts (r : List UInt8) :
    ∃ parts suffix, parts ≠ [] ∧ (∀ s ∈ parts, slash ∉ s ∧ 63 ∉ s) ∧
      (suffix = [] ∨ ∃ query, suffix = 63 :: query) ∧ r = join slash parts ++ suffix := by
  have hjoin := join_splitOn slash (before 63 r)
  have hfree : ∀ s ∈ (before 63 r).splitOn slash, slash ∉ s ∧ 63 ∉ s := fun s hs =>
    ⟨notMem_of_mem_splitOn hs, fun hmark => notMem_before 63 r (hjoin ▸ mem_join hmark hs)⟩
  by_cases hquery : 63 ∈ r
  · refine ⟨_, 63 :: after 63 r, List.splitOn_ne_nil slash _, hfree, .inr ⟨_, rfl⟩, ?_⟩
    rw [hjoin, before_append_after hquery]
  · refine ⟨_, [], List.splitOn_ne_nil slash _, hfree, .inl rfl, ?_⟩
    rw [hjoin, before_of_notMem hquery, List.append_nil]

theorem exists_tail (hrest : rest = [] ∨ ∃ r, rest = slash :: r ∨ rest = 63 :: r) :
    ∃ tail suffix, (∀ s ∈ tail, slash ∉ s ∧ 63 ∉ s) ∧
      (suffix = [] ∨ ∃ query, suffix = 63 :: query) ∧
      ∀ token, token ++ rest = join slash (token :: tail) ++ suffix := by
  obtain rfl | ⟨r, rfl | rfl⟩ := hrest
  · exact ⟨[], [], by simp, .inl rfl, by simp⟩
  · obtain ⟨parts, suffix, hne, hfree, hsuffix, rfl⟩ := exists_parts r
    refine ⟨parts, suffix, hfree, hsuffix, fun token => ?_⟩
    rw [join_cons token hne, List.append_assoc, List.cons_append]
  · exact ⟨[], 63 :: r, by simp, .inr ⟨r, rfl⟩, by simp⟩

theorem cleanPath_bare {path first : List UInt8} {parts : List (List UInt8)}
    (hfirst : first ≠ []) (hfree : slash ∉ first)
    (hpath : before 63 path = join slash (first :: parts)) :
    cleanPath path = join slash (first :: parts) := by
  have hnot (t : List UInt8) : ¬slash :: t <+: join slash (first :: parts) := by
    obtain ⟨c, first, rfl⟩ := List.exists_cons_of_ne_nil hfirst
    have hc : slash ≠ c := fun h => hfree (h ▸ List.mem_cons_self)
    cases parts with
    | nil => simp [hc]
    | cons t parts => simp [hc]
  have hapi : trimPrefix (join slash (first :: parts)) (ascii "/api/") = _ :=
    trimPrefix_of_not (hnot _)
  have hversion : trimPrefix (join slash (first :: parts)) (ascii "/api/v") = _ :=
    trimPrefix_of_not (hnot _)
  have hslash : trimPrefix (join slash (first :: parts)) [slash] = _ := trimPrefix_of_not (hnot _)
  rw [cleanPath, hpath]
  simp only [hversion, hapi, hslash, ne_eq, not_true, if_false]

theorem splitOn_cleanPath_of_spelling {S : List (List UInt8)} {suffix : List UInt8}
    (hpre : APIPrefix pre) (hfree : ∀ s ∈ major :: S, slash ∉ s ∧ 63 ∉ s)
    (hmajor : major = majorWebhooks ∨ major = majorInteractions)
    (hsuffix : suffix = [] ∨ ∃ query, suffix = 63 :: query) :
    (cleanPath (pre ++ join slash (major :: S) ++ suffix)).splitOn slash = major :: S := by
  have hslash : ∀ s ∈ major :: S, slash ∉ s := fun s hs => (hfree s hs).1
  have hclean : cleanPath (pre ++ join slash (major :: S) ++ suffix) = join slash (major :: S) := by
    obtain rfl | hpre := hpre
    · apply cleanPath_bare
      · obtain rfl | rfl := hmajor <;> decide
      · exact hslash major List.mem_cons_self
      · have hmark : 63 ∉ join slash (major :: S) :=
          notMem_join (by decide) fun s hs => (hfree s hs).2
        obtain rfl | ⟨query, rfl⟩ := hsuffix
        · rw [List.append_nil]
          exact before_of_notMem hmark
        · exact before_append hmark
    · have hspells : Spells (major :: S) (pre ++ join slash (major :: S) ++ suffix) :=
        ⟨pre, suffix, rfl, hpre, hsuffix⟩
      refine (hspells.clean (List.cons_ne_nil _ _) hfree fun s hs => ?_).1
      obtain rfl := Option.some.inj hs
      obtain rfl | rfl := hmajor <;> decide
  rw [hclean, splitOn_join hslash (List.cons_ne_nil _ _)]

def shownPath (now : Int) (method major id : List UInt8) (tail : List (List UInt8))
    (label : List UInt8) : List UInt8 :=
  if major = majorInteractions ∧ tail = [ascii "callback"] then
    slash :: majorInteractions ++ slash :: id ++ ascii "/!/callback"
  else resourcePath major id ++ (slash :: label ++ remainingPath now method major 1 [] tail)

theorem callback_iff (hmajor : major = majorWebhooks ∨ major = majorInteractions)
    (token : List UInt8) (tail : List (List UInt8)) :
    ((major = majorGuilds ∨ major = majorInteractions) ∧ (token :: tail).length = 2 ∧
        (token :: tail)[1]? = some (ascii "callback")) ↔
      major = majorInteractions ∧ tail = [ascii "callback"] := by
  have hguilds : major ≠ majorGuilds := by
    obtain rfl | rfl := hmajor <;> decide
  rw [or_iff_right hguilds]
  obtain _ | ⟨second, _ | ⟨third, tail⟩⟩ := tail <;> simp

theorem bucketPath_token (now : Int) (method : List UInt8) (hpre : APIPrefix pre)
    (hmajor : major = majorWebhooks ∨ major = majorInteractions) (hid : slash ∉ id)
    (hrest : rest = [] ∨ ∃ r, rest = slash :: r ∨ rest = 63 :: r) :
    ∃ shown : List UInt8 → List UInt8, ∀ token, slash ∉ token → 63 ∉ token →
      getOptimisticBucketPath now (tokenPath pre major id rest token) method =
        shown (tokenLabel token) := by
  by_cases hmark : 63 ∈ id
  · -- the query starts in front of the token
    have hfront : 63 ∈ pre ++ (major ++ slash :: id) :=
      List.mem_append_right _ (List.mem_append_right _ (List.mem_cons_of_mem _ hmark))
    have hpath (token : List UInt8) : tokenPath pre major id rest token =
        pre ++ (major ++ slash :: id) ++ slash :: (token ++ rest) := by
      simp [tokenPath]
    refine ⟨fun _ => getOptimisticBucketPath now (pre ++ (major ++ slash :: id)) method,
      fun token _ _ => bucketPath_congr ?_ now method⟩
    rw [hpath, before_append_of_mem hfront]
  · obtain ⟨tail, suffix, htail, hsuffix, hsplit⟩ := exists_tail hrest
    refine ⟨shownPath now method major id tail, fun token hslash hquery => ?_⟩
    have hpath : tokenPath pre major id rest token =
        pre ++ join slash (major :: id :: token :: tail) ++ suffix := by
      simp [tokenPath, hsplit token]
    have hfree : ∀ s ∈ major :: id :: token :: tail, slash ∉ s ∧ 63 ∉ s := by
      have hmajor' : slash ∉ major ∧ 63 ∉ major := by
        obtain rfl | rfl := hmajor <;> decide
      simp only [List.forall_mem_cons]
      exact ⟨hmajor', ⟨hid, hmark⟩, ⟨hslash, hquery⟩, htail⟩
    rw [getOptimisticBucketPath, hpath, splitOn_cleanPath_of_spelling hpre hfree hmajor hsuffix]
    simp only [callback_iff hmajor, remainingPath_token now method hmajor]
    rfl

end Path

/-- Tokens do not leak into bucket paths: a token without the prefix is not shown, one with the
prefix shows its interaction id or, where it cannot be decoded, nothing of itself.  The bucket path
is a function of that label. -/
theorem token_hidden (now : Int) (method pre major id rest token token' : List UInt8)
    (hpre : APIPrefix pre) (hmajor : major = majorWebhooks ∨ major = majorInteractions)
    (hid : slash ∉ id) (hrest : rest = [] ∨ ∃ r, rest = slash :: r ∨ rest = 63 :: r)
    (htoken : slash ∉ token ∧ 63 ∉ token) (htoken' : slash ∉ token' ∧ 63 ∉ token') :
    let bucketPath := fun token =>
      getOptimisticBucketPath now (tokenPath pre major id rest token) method
    (hasPrefix token interactionTokenPrefix = false →
      hasPrefix token' interactionTokenPrefix = false → bucketPath token = bucketPath token') ∧
    (hasPrefix token interactionTokenPrefix = true →
      hasPrefix token' interactionTokenPrefix = true →
      (∀ decoded decoded', Base64.decodeString (padToken token) = some decoded →
        Base64.decodeString (padToken token') = some decoded' →
        idField decoded = idField decoded' → idField decoded ≠ [] →
        bucketPath token = bucketPath token') ∧
      (Base64.decodeString (padToken token) = none →
        Base64.decodeString (padToken token') = none → bucketPath token = bucketPath token')) ∧
    (tokenLabel token = tokenLabel token' → bucketPath token = bucketPath token') := by
  intro bucketPath
  obtain ⟨shown, hshown⟩ := bucketPath_token now method hpre hmajor hid hrest
  have hlabel (h : tokenLabel token = tokenLabel token') :
      bucketPath token = bucketPath token' := by
    calc
      bucketPath token = shown (tokenLabel token) := hshown token htoken.1 htoken.2
      _ = shown (tokenLabel token') := congrArg shown h
      _ = bucketPath token' := (hshown token' htoken'.1 htoken'.2).symm
  refine ⟨fun h h' => hlabel ?_, fun h h' => ⟨?_, fun hd hd' => hlabel ?_⟩, hlabel⟩
  · rw [tokenLabel_of_not h, tokenLabel_of_not h']
  · intro decoded decoded' hd hd' hfield hne
    apply hlabel
    rw [tokenLabel_of_decodes h hd hne, tokenLabel_of_decodes h' hd' (hfield ▸ hne), hfield]
  · rw [tokenLabel_of_fails h hd, tokenLabel_of_fails h' hd']

/-- Two tokens of the interaction 123, one with `a` for its secret and one with `b`. -/
theorem token_hidden_interaction :
    getOptimisticBucketPath 0 (ascii "/api/v10/webhooks/1/aW50ZXJhY3Rpb246MTIzOmE/messages")
        (ascii "POST") =
      getOptimisticBucketPath 0 (ascii "/api/v10/webhooks/1/aW50ZXJhY3Rpb246MTIzOmI/messages")
        (ascii "POST") := by
  have hpre : APIPrefix (ascii "/api/v10/") := .inr (.inr (.inr ⟨ascii "10", by decide, by decide⟩))
  obtain ⟨-, hinteraction, -⟩ := token_hidden 0 (ascii "POST") (ascii "/api/v10/") majorWebhooks
    (ascii "1") (ascii "/messages") (ascii "aW50ZXJhY3Rpb246MTIzOmE")
    (ascii "aW50ZXJhY3Rpb246MTIzOmI") hpre (.inl rfl) (by decide)
    (.inr ⟨ascii "messages", .inl (by decide)⟩) (by decide) (by decide)
  have hfirst : tokenPath (ascii "/api/v10/") majorWebhooks (ascii "1") (ascii "/messages")
      (ascii "aW50ZXJhY3Rpb246MTIzOmE") =
        ascii "/api/v10/webhooks/1/aW50ZXJhY3Rpb246MTIzOmE/messages" := by decide +kernel
  have hsecond : tokenPath (ascii "/api/v10/") majorWebhooks (ascii "1") (ascii "/messages")
      (ascii "aW50ZXJhY3Rpb246MTIzOmI") =
        ascii "/api/v10/webhooks/1/aW50ZXJhY3Rpb246MTIzOmI/messages" := by decide +kernel
  rw [← hfirst, ← hsecond]
  exact (hinteraction (by decide) (by decide)).1 (ascii "interaction:123:a")
    (ascii "interaction:123:b") (by decide +kernel) (by decide +kernel) (by decide) (by decide)

end NirnProxy
