import Mathlib.Data.Set.Function
import NirnProxy.Routes.Path
import NirnProxy.Sha256
import NirnProxy.Trimming

/-! Whose request it is: `identify` takes the credential out of an `Authorization` value, however
that is spelled, and names the client by the digest of it. -/

namespace NirnProxy

open Strings Trimming

/-- `identity`, with the fields that the client table does not use. -/
structure FullIdentity extends Identity (Vector UInt8 32) where
  botID : List UInt8
  label : List UInt8
  deriving DecidableEq

def noAuthIdentity : FullIdentity where
  kind := .none
  key := Vector.replicate 32 0
  botID := []
  label := ascii "NoAuth"

/-- The id that the first part of a bot token encodes. -/
def botIDFromToken (token : List UInt8) : List UInt8 :=
  let encoded := before 46 token
  let decoded := Base64.decodeRawString Base64.index encoded <|>
    Base64.decodeRawString Base64.indexURL encoded
  match decoded with
  | none => []
  | some decoded => if isNumericInput decoded then decoded else []

/-- The end of `identify`. -/
def credentialIdentity (kind : AuthType) (credential : List UInt8) : FullIdentity :=
  let key := Sha256.digest credential
  if kind = .bearer then
    { kind := kind, key := key, botID := [], label := ascii "Bearer" }
  else { kind := kind, key := key, botID := botIDFromToken credential, label := ascii "Bot" }

/-- The `switch` of `identify`. -/
def schemeIdentity (scheme credential : List UInt8) : FullIdentity :=
  if equalFoldASCII scheme (ascii "Basic") then noAuthIdentity
  else if equalFoldASCII scheme (ascii "Bearer") then credentialIdentity .bearer credential
  else if !equalFoldASCII scheme (ascii "Bot") then noAuthIdentity
  else credentialIdentity .bot credential

def isSeparator (c : UInt8) : Bool := c = 32 || c = 9

def identify (authorization : List UInt8) : FullIdentity :=
  let authorization := trimSpace authorization
  if authorization = [] then noAuthIdentity
  else if authorization.any isSeparator then
    schemeIdentity (authorization.takeWhile (!isSeparator ·))
      (trimSpace (authorization.dropWhile (!isSeparator ·)).tail)
  else schemeIdentity (ascii "Bot") authorization

def FullIdentity.fingerprint (i : FullIdentity) : List UInt8 :=
  ascii "sha256:" ++ Text.hexEncode i.key.toList

def AuthType.scheme : AuthType → List UInt8
  | .bot => ascii "bot"
  | .none => []
  | .bearer => ascii "bearer"

/-- The credential that a value carries: all of it, or what follows the scheme. -/
inductive Carries (authorization : List UInt8) : AuthType → List UInt8 → Prop
  | bare : trimSpace authorization ≠ [] → (∀ c ∈ trimSpace authorization, isSeparator c = false) →
      Carries authorization .bot (trimSpace authorization)
  | scheme {kind : AuthType} {name rest : List UInt8} {sep : UInt8} : kind ≠ .none →
      trimSpace authorization = name ++ sep :: rest → (∀ c ∈ name, isSeparator c = false) →
      isSeparator sep = true → name.map lowerByte = kind.scheme →
      Carries authorization kind (trimSpace rest)

section Identify

variable {authorization name rest credential : List UInt8} {sep : UInt8} {kind : AuthType}

theorem schemeIdentity_of_kind (hkind : kind ≠ .none) (hname : name.map lowerByte = kind.scheme)
    (credential : List UInt8) :
    schemeIdentity name credential = credentialIdentity kind credential := by
  have hfold : simpleFold name = kind.scheme := by
    refine (simpleFold_eq_iff ?_).mpr hname
    cases kind <;> decide +kernel
  cases kind with
  | none => exact absurd rfl hkind
  | bot | bearer =>
    simp only [schemeIdentity, equalFoldASCII, hfold]
    rfl

theorem schemeIdentity_other (hbot : name.map lowerByte ≠ AuthType.bot.scheme)
    (hbearer : name.map lowerByte ≠ AuthType.bearer.scheme) (credential : List UInt8) :
    schemeIdentity name credential = noAuthIdentity := by
  have hfold (kind : AuthType) (hkind : kind ≠ .none) (hne : name.map lowerByte ≠ kind.scheme) :
      simpleFold name ≠ kind.scheme := by
    refine (simpleFold_eq_iff ?_).not.mpr hne
    cases kind <;> decide +kernel
  have hbot' : equalFoldASCII name (ascii "Bot") = false :=
    beq_eq_false_iff_ne.mpr (hfold .bot (by simp) hbot)
  have hbearer' : equalFoldASCII name (ascii "Bearer") = false :=
    beq_eq_false_iff_ne.mpr (hfold .bearer (by simp) hbearer)
  simp [schemeIdentity, hbot', hbearer']

theorem identify_bare (hne : trimSpace authorization ≠ [])
    (hbare : ∀ c ∈ trimSpace authorization, isSeparator c = false) :
    identify authorization = credentialIdentity .bot (trimSpace authorization) := by
  have hany : (trimSpace authorization).any isSeparator = false :=
    List.any_eq_false.mpr fun c hc => Bool.eq_false_iff.mp (hbare c hc)
  have hscheme : (ascii "Bot").map lowerByte = AuthType.bot.scheme := by decide
  rw [identify]
  simp only [if_neg hne, hany]
  exact schemeIdentity_of_kind (by simp) hscheme _

theorem takeWhile_scheme (hname : ∀ c ∈ name, isSeparator c = false) (hsep : isSeparator sep = true)
    (rest : List UInt8) :
    (name ++ sep :: rest).takeWhile (!isSeparator ·) = name ∧
      (name ++ sep :: rest).dropWhile (!isSeparator ·) = sep :: rest := by
  have hpos : ∀ c ∈ name, (!isSeparator c) = true := by simpa using hname
  rw [List.takeWhile_append_of_pos hpos, List.dropWhile_append_of_pos hpos]
  simp [hsep]

theorem identify_scheme (h : trimSpace authorization = name ++ sep :: rest)
    (hname : ∀ c ∈ name, isSeparator c = false) (hsep : isSeparator sep = true) :
    identify authorization = schemeIdentity name (trimSpace rest) := by
  have hne : trimSpace authorization ≠ [] := by simp [h]
  have hany : (trimSpace authorization).any isSeparator = true := by simp [h, hsep]
  obtain ⟨htake, hdrop⟩ := takeWhile_scheme hname hsep rest
  rw [identify]
  simp only [if_neg hne, hany, if_true]
  rw [h, htake, hdrop, List.tail_cons]

theorem Carries.identify_eq (h : Carries authorization kind credential) :
    identify authorization = credentialIdentity kind credential := by
  cases h with
  | bare hne hbare => exact identify_bare hne hbare
  | scheme hkind heq hname hsep hscheme =>
    rw [identify_scheme heq hname hsep, schemeIdentity_of_kind hkind hscheme]

theorem exists_separator {s : List UInt8} (h : ¬∀ c ∈ s, isSeparator c = false) :
    ∃ name sep rest, s = name ++ sep :: rest ∧ (∀ c ∈ name, isSeparator c = false) ∧
      isSeparator sep = true := by
  induction s with
  | nil => exact absurd (by simp) h
  | cons c s ih =>
    cases hc : isSeparator c with
    | true => exact ⟨[], c, s, rfl, by simp, hc⟩
    | false =>
      obtain ⟨name, sep, rest, rfl, hname, hsep⟩ :=
        ih fun hs => h (List.forall_mem_cons.mpr ⟨hc, hs⟩)
      exact ⟨c :: name, sep, rest, rfl, List.forall_mem_cons.mpr ⟨hc, hname⟩, hsep⟩

theorem credentialIdentity_kind (kind : AuthType) (credential : List UInt8) :
    (credentialIdentity kind credential).kind = kind ∧
      (credentialIdentity kind credential).key = Sha256.digest credential := by
  unfold credentialIdentity
  simp only
  split <;> exact ⟨rfl, rfl⟩

theorem exists_carries (h : (identify authorization).kind ≠ .none) :
    ∃ kind credential, Carries authorization kind credential := by
  by_cases hbare : ∀ c ∈ trimSpace authorization, isSeparator c = false
  · refine ⟨_, _, .bare (fun hnil => h ?_) hbare⟩
    simp [identify, hnil, noAuthIdentity]
  · obtain ⟨name, sep, rest, heq, hname, hsep⟩ := exists_separator hbare
    rw [identify_scheme heq hname hsep] at h
    by_cases hbot : name.map lowerByte = AuthType.bot.scheme
    · exact ⟨_, _, .scheme (by simp) heq hname hsep hbot⟩
    · by_cases hbearer : name.map lowerByte = AuthType.bearer.scheme
      · exact ⟨_, _, .scheme (by simp) heq hname hsep hbearer⟩
      · rw [schemeIdentity_other hbot hbearer] at h
        exact absurd rfl h

theorem Carries.kind_eq (h : Carries authorization kind credential) :
    (identify authorization).kind = kind ∧
      (identify authorization).key = Sha256.digest credential := by
  rw [h.identify_eq]
  exact credentialIdentity_kind kind credential

theorem Carries.unique {kind' : AuthType} {credential' : List UInt8}
    (h : Carries authorization kind credential) (h' : Carries authorization kind' credential') :
    credential = credential' := by
  cases h with
  | bare hne hbare =>
    cases h' with
    | bare => rfl
    | scheme hkind heq hname hsep hscheme =>
      rename_i sep
      have := hbare sep (by simp [heq])
      simp [hsep] at this
  | scheme hkind heq hname hsep hscheme =>
    rename_i name rest sep
    cases h' with
    | bare hne hbare =>
      have := hbare sep (by simp [heq])
      simp [hsep] at this
    | scheme hkind' heq' hname' hsep' hscheme' =>
      have hdrop := (takeWhile_scheme hname hsep rest).2
      rw [← heq, heq', (takeWhile_scheme hname' hsep' _).2] at hdrop
      rw [(List.cons.inj hdrop).2]

end Identify

section Spelling

variable {token authorization name : List UInt8} {kind : AuthType} {c : UInt8}

/-- A scheme in any case, spaces and tabs, the token, and whitespace around them. -/
def Writes (kind : AuthType) (token authorization : List UInt8) : Prop :=
  ∃ front name run back, Blank spaces front ∧ Blank spaces back ∧
    name.map lowerByte = kind.scheme ∧ run ≠ [] ∧ (∀ c ∈ run, isSeparator c = true) ∧
    authorization = front ++ (name ++ run ++ token) ++ back

def WritesBare (token authorization : List UInt8) : Prop :=
  ∃ front back, Blank spaces front ∧ Blank spaces back ∧ authorization = front ++ token ++ back

theorem mem_spaces_of_separator (h : isSeparator c = true) : [c] ∈ spaces := by
  obtain rfl | rfl : c = 32 ∨ c = 9 := by simpa [isSeparator] using h
  · decide
  · decide

theorem blank_of_separators {run : List UInt8} (h : ∀ c ∈ run, isSeparator c = true) :
    Blank spaces run := by
  induction run with
  | nil => exact .nil
  | cons c run ih =>
    obtain ⟨hc, hrun⟩ := List.forall_mem_cons.mp h
    exact .cons (mem_spaces_of_separator hc) (ih hrun)

theorem visible_of_scheme (h : name.map lowerByte = kind.scheme) (hc : c ∈ name) :
    ¬(c < 33 ∨ 128 ≤ c) := by
  intro hblank
  have hlower : lowerByte c = c := by
    refine if_neg fun hupper => ?_
    obtain hc | hc := hblank
    · exact absurd (UInt8.lt_of_le_of_lt hupper.1 hc) (by decide)
    · exact absurd (UInt8.le_trans hc hupper.2) (by decide)
  have hmem : c ∈ kind.scheme := h ▸ hlower ▸ List.mem_map_of_mem hc
  have hvisible : ∀ c ∈ kind.scheme, ¬(c < 33 ∨ 128 ≤ c) := by
    cases kind <;> decide +kernel
  exact hvisible c hmem hblank

theorem not_separator_of_visible (h : ¬(c < 33 ∨ 128 ≤ c)) : isSeparator c = false := by
  refine Bool.eq_false_iff.mpr fun hsep => ?_
  obtain rfl | rfl : c = 32 ∨ c = 9 := by simpa [isSeparator] using hsep
  · exact h (by decide)
  · exact h (by decide)

theorem WritesBare.carries (h : WritesBare token authorization) (hne : token ≠ [])
    (hfree : SpaceFree token) : Carries authorization .bot token := by
  obtain ⟨front, back, hfront, hback, rfl⟩ := h
  have htrim := trimSpace_eq hfront hback hfree.not_starts hfree.not_ends
  have hbare : Carries (front ++ token ++ back) .bot (trimSpace (front ++ token ++ back)) := by
    apply Carries.bare
    · rw [htrim]
      exact hne
    · intro c hc
      rw [htrim] at hc
      exact Bool.eq_false_iff.mpr fun hsep => hfree.notMem (mem_spaces_of_separator hsep) hc
  rwa [htrim] at hbare

theorem Writes.carries (h : Writes kind token authorization) (hkind : kind ≠ .none)
    (hne : token ≠ []) (hfree : SpaceFree token) : Carries authorization kind token := by
  obtain ⟨front, name, run, back, hfront, hback, hname, hrun, hseps, rfl⟩ := h
  have hstarts : ¬Starts spaces (name ++ run ++ token) := by
    obtain ⟨c, name', rfl⟩ : ∃ c name', name = c :: name' := by
      apply List.exists_cons_of_ne_nil
      rintro rfl
      cases kind with
      | none => exact hkind rfl
      | bot | bearer => exact absurd hname (by decide)
    exact not_starts_cons (visible_of_scheme hname List.mem_cons_self) _
  have hends : ¬Ends spaces (name ++ run ++ token) := by
    obtain rfl | ⟨run', c, rfl⟩ := List.eq_nil_or_concat' run
    · exact absurd rfl hrun
    · rw [← List.append_assoc]
      exact code_spaces.not_ends_append (mem_spaces_of_separator (hseps c (by simp))) hne
        hfree.not_ends _
  have htrim := trimSpace_eq hfront hback hstarts hends
  obtain ⟨sep, run', rfl⟩ := List.exists_cons_of_ne_nil hrun
  obtain ⟨hsep, hseps⟩ := List.forall_mem_cons.mp hseps
  have hcredential : trimSpace (run' ++ token) = token := by
    have := trimSpace_eq (blank_of_separators hseps) .nil hfree.not_starts hfree.not_ends
    rwa [List.append_nil] at this
  have hsplit : name ++ sep :: run' ++ token = name ++ sep :: (run' ++ token) := by simp
  have hscheme := Carries.scheme hkind (htrim.trans hsplit)
    (fun c hc => not_separator_of_visible (visible_of_scheme hname hc)) hsep hname
  rwa [hcredential] at hscheme

/-- All spellings of a bot's token are one identity, and all of a bearer's.  Where the digest has no
collision, only the same credential has the same kind and key, and a bot is never a bearer.  A value
with any other scheme is without credentials. -/
theorem identify_canonical (credentials : Set (List UInt8))
    (hdigest : Set.InjOn Sha256.digest credentials) :
    (∀ token, token ≠ [] → SpaceFree token →
      (identify token).kind = .bot ∧
      (∀ authorization, WritesBare token authorization ∨ Writes .bot token authorization →
        identify authorization = identify token) ∧
      ∃ bearer, bearer.kind = .bearer ∧
        ∀ authorization, Writes .bearer token authorization → identify authorization = bearer) ∧
    (∀ authorization, (identify authorization).kind ≠ .none →
      ∃! credential, Carries authorization (identify authorization).kind credential) ∧
    (∀ authorization authorization' credential credential',
      Carries authorization (identify authorization).kind credential →
      Carries authorization' (identify authorization').kind credential' →
      credential ∈ credentials → credential' ∈ credentials →
      (identify authorization).kind = (identify authorization').kind →
      (identify authorization).key = (identify authorization').key → credential = credential') ∧
    (∀ authorization authorization' credential credential',
      Carries authorization .bot credential → Carries authorization' .bearer credential' →
      identify authorization ≠ identify authorization') ∧
    ∀ authorization name sep rest, trimSpace authorization = name ++ sep :: rest →
      (∀ c ∈ name, isSeparator c = false) → isSeparator sep = true →
      name.map lowerByte ≠ AuthType.bot.scheme → name.map lowerByte ≠ AuthType.bearer.scheme →
      identify authorization = noAuthIdentity := by
  refine ⟨fun token hne hfree => ?_, fun a hnone => ?_, ?_, ?_, ?_⟩
  · have hself : WritesBare token token := ⟨[], [], .nil, .nil, by simp⟩
    have hbare := hself.carries hne hfree
    refine ⟨hbare.kind_eq.1, fun a ha => ?_, credentialIdentity .bearer token,
      (credentialIdentity_kind .bearer token).1, fun a ha => ?_⟩
    · have hcarries : Carries a .bot token :=
        ha.elim (fun h => h.carries hne hfree) fun h => h.carries (by simp) hne hfree
      rw [hcarries.identify_eq, hbare.identify_eq]
    · exact (ha.carries (by simp) hne hfree).identify_eq
  · obtain ⟨kind, credential, h⟩ := exists_carries hnone
    rw [h.kind_eq.1]
    exact ⟨credential, h, fun credential' h' => h'.unique h⟩
  · intro a b credential credential' ha hb hmem hmem' hkind hkey
    apply hdigest hmem hmem'
    rw [← ha.kind_eq.2, ← hb.kind_eq.2, hkey]
  · intro a b credential credential' ha hb heq
    have hkind := congrArg (fun i : FullIdentity => i.kind) heq
    rw [ha.kind_eq.1, hb.kind_eq.1] at hkind
    cases hkind
  · intro a name sep rest heq hname hsep hbot hbearer
    rw [identify_scheme heq hname hsep, schemeIdentity_other hbot hbearer]

/-- A spelling with spaces and tabs, and two tokens whose digests differ. -/
theorem identify_canonical_opaque :
    identify (ascii "\t bOT \topaque ") = identify (ascii "opaque") ∧
      (identify (ascii "Bot opaque")).key ≠ (identify (ascii "Bot other")).key := by
  have hdigest : Set.InjOn Sha256.digest {ascii "opaque", ascii "other"} :=
    Set.injOn_pair.mpr fun h => absurd (Sha256.digest_inj.mp h) (by decide +kernel)
  obtain ⟨hspellings, -, hsame, -⟩ := identify_canonical _ hdigest
  constructor
  · refine (hspellings (ascii "opaque") (by decide) (by decide)).2.1 _ (.inr ?_)
    exact ⟨ascii "\t ", ascii "bOT", ascii " \t", ascii " ",
      blank_of_separators (by decide +kernel), blank_of_separators (by decide +kernel),
      by decide, by decide, by decide +kernel, by decide⟩
  · intro hkey
    have hfirst : Writes .bot (ascii "opaque") (ascii "Bot opaque") :=
      ⟨[], ascii "Bot", ascii " ", [], .nil, .nil,
        by decide, by decide, by decide +kernel, by decide⟩
    have hsecond : Writes .bot (ascii "other") (ascii "Bot other") :=
      ⟨[], ascii "Bot", ascii " ", [], .nil, .nil,
        by decide, by decide, by decide +kernel, by decide⟩
    have ha := hfirst.carries (by decide) (by decide) (by decide)
    have hb := hsecond.carries (by decide) (by decide) (by decide)
    have hkind := ha.kind_eq.1.trans hb.kind_eq.1.symm
    rw [← ha.kind_eq.1] at ha
    rw [← hb.kind_eq.1] at hb
    exact absurd (hsame _ _ _ _ ha hb (by simp) (by simp) hkind hkey) (by decide)

end Spelling

end NirnProxy
