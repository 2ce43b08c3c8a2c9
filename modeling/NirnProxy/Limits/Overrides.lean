import Mathlib.Data.Finmap
import NirnProxy.Client.Identify
import NirnProxy.Limits.Headers

/-! Configured global limits: `parseGlobalOverrides` reads a map from bot ids and fingerprints to
limits, and `globalLimit` looks an identity up in it. -/

namespace NirnProxy

open Strings Trimming

abbrev Overrides := Finmap fun _ : List UInt8 => Nat

section Parser

variable (std : TextFunctions)

def parseLimit (rawLimit : List UInt8) : Except (List UInt8) Nat :=
  match Text.parseUint32 rawLimit with
  | none => .error (ascii "invalid global rate limit " ++ std.quote rawLimit)
  | some limit =>
    if limit = 0 then .error (ascii "invalid global rate limit " ++ std.quote rawLimit)
    else .ok limit

/-- An entry whose key is `sha256`, from its first colon on. -/
def parseTokenOverride (rawOverride rawLimit : List UInt8) :
    Except (List UInt8) (List UInt8 × Nat) :=
  let fingerprint := before 58 rawLimit
  let remainder := after 58 rawLimit
  if 58 ∉ rawLimit then
    .error (ascii "invalid token fingerprint override " ++ std.quote rawOverride)
  else if fingerprint ≠ toLower std.lowerUnicode fingerprint then
    .error (ascii "token fingerprint must use lowercase hexadecimal")
  else match Text.hexDecode fingerprint with
    | none => .error (ascii "invalid token fingerprint " ++ std.quote fingerprint)
    | some decoded =>
      if decoded.length ≠ 32 then
        .error (ascii "invalid token fingerprint " ++ std.quote fingerprint)
      else (parseLimit std remainder).map (ascii "sha256:" ++ fingerprint, ·)

def parseOverride (rawOverride : List UInt8) : Except (List UInt8) (List UInt8 × Nat) :=
  let override := trimSpace rawOverride
  let key := before 58 override
  let rawLimit := after 58 override
  if 58 ∉ override then
    .error (ascii "invalid BOT_RATELIMIT_OVERRIDES entry " ++ std.quote rawOverride)
  else if key = ascii "sha256" then parseTokenOverride std rawOverride rawLimit
  else if key = [] ∨ isNumericInput key = false then
    .error (ascii "override key must be a bot ID or sha256 fingerprint")
  else (parseLimit std rawLimit).map (key, ·)

def parseOverrides : List (List UInt8) → Overrides → Except (List UInt8) Overrides
  | [], overrides => .ok overrides
  | rawOverride :: rest, overrides =>
    match parseOverride std rawOverride with
    | .error err => .error err
    | .ok (key, limit) => parseOverrides rest (overrides.insert key limit)

def parseGlobalOverrides (value : List UInt8) : Except (List UInt8) Overrides :=
  if trimSpace value = [] then .ok ∅ else parseOverrides std (value.splitOn 44) ∅

end Parser

def globalLimit (overrides : Overrides) (identity : FullIdentity) : Nat :=
  let limit := (overrides.lookup identity.botID).getD 0
  if limit ≠ 0 then limit
  else
    let limit := (overrides.lookup identity.fingerprint).getD 0
    if limit ≠ 0 then limit else discordGlobalLimit

/-- A decimal numeral, leading zeros allowed, for a number from 1 to the greatest 32-bit one. -/
structure LimitText (text : List UInt8) (limit : Nat) : Prop where
  ne_nil : text ≠ []
  digits : ∀ c ∈ text, Text.isDigit c = true
  value : Text.decimal text = limit
  pos : 1 ≤ limit
  lt : limit < 4294967296

inductive OverrideKey : List UInt8 → Prop
  | bot {id : List UInt8} : id ≠ [] → (∀ c ∈ id, Text.isDigit c = true) → OverrideKey id
  | token {hash : List UInt8} : hash.length = 64 → (∀ c ∈ hash, Text.isLowerHex c = true) →
      OverrideKey (ascii "sha256:" ++ hash)

/-- The documented form of an entry: a key, a colon and a limit. -/
structure OverrideText (text key : List UInt8) (limit : Nat) : Prop where
  isKey : OverrideKey key
  spelled : ∃ rawLimit, LimitText rawLimit limit ∧ text = key ++ 58 :: rawLimit

def WritesOverride (raw key : List UInt8) (limit : Nat) : Prop :=
  ∃ front text back, Blank spaces front ∧ Blank spaces back ∧ raw = front ++ text ++ back ∧
    OverrideText text key limit

def WritesOverrides (value : List UInt8) (entries : List (List UInt8 × Nat)) : Prop :=
  ∃ raws, raws ≠ [] ∧ value = join 44 raws ∧
    List.Forall₂ (fun raw entry => WritesOverride raw entry.1 entry.2) raws entries

/-- The last entry with this key has this limit. -/
def LastEntry (entries : List (List UInt8 × Nat)) (key : List UInt8) (limit : Nat) : Prop :=
  ∃ earlier later, entries = earlier ++ (key, limit) :: later ∧ ∀ entry ∈ later, entry.1 ≠ key

/-- A map written out, its entries in some order. -/
def render (entries : AList fun _ : List UInt8 => Nat) : List UInt8 :=
  join 44 (entries.entries.map fun entry => entry.1 ++ 58 :: Text.itoa entry.2)

section Entry

variable {std : TextFunctions} {rawLimit rawOverride key text : List UInt8} {limit : Nat}

theorem parseLimit_iff : parseLimit std rawLimit = .ok limit ↔ LimitText rawLimit limit := by
  constructor
  · intro h
    unfold parseLimit at h
    split at h
    · cases h
    · rename_i n hn
      obtain ⟨hdigits, hlt⟩ := Option.filter_eq_some_iff.mp hn
      obtain ⟨hne, hall, hvalue⟩ := Text.parseDigits_iff.mp hdigits
      split at h
      · cases h
      · cases h
        exact ⟨hne, hall, hvalue, Nat.one_le_iff_ne_zero.mpr ‹_›, of_decide_eq_true hlt⟩
  · rintro ⟨hne, hall, hvalue, hpos, hlt⟩
    have hparse : Text.parseUint32 rawLimit = some limit :=
      Option.filter_eq_some_iff.mpr
        ⟨Text.parseDigits_iff.mpr ⟨hne, hall, hvalue⟩, decide_eq_true hlt⟩
    rw [parseLimit, hparse]
    exact if_neg (Nat.one_le_iff_ne_zero.mp hpos)

theorem map_parseLimit_iff {f : Nat → List UInt8 × Nat} {entry : List UInt8 × Nat} :
    (parseLimit std rawLimit).map f = .ok entry ↔
      ∃ limit, LimitText rawLimit limit ∧ f limit = entry := by
  cases h : parseLimit std rawLimit with
  | error err =>
    refine iff_of_false (by simp [Except.map]) ?_
    rintro ⟨limit, hlimit, -⟩
    rw [parseLimit_iff.mpr hlimit] at h
    cases h
  | ok limit =>
    constructor
    · intro hmap
      exact ⟨limit, parseLimit_iff.mp h, Except.ok.inj hmap⟩
    · rintro ⟨limit', hlimit, hf⟩
      rw [parseLimit_iff.mpr hlimit] at h
      cases h
      exact congrArg Except.ok hf

theorem isLowerHex_iff : ∀ c : UInt8,
    Text.isLowerHex c = true ↔ (Text.hexValue c).isSome = true ∧ lowerByte c = c := by
  apply Text.forall_byte
  decide +kernel

theorem fingerprint_iff (std : TextFunctions) (hash : List UInt8) :
    (hash = toLower std.lowerUnicode hash ∧
        ∃ decoded, Text.hexDecode hash = some decoded ∧ decoded.length = 32) ↔
      hash.length = 64 ∧ ∀ c ∈ hash, Text.isLowerHex c = true := by
  have hlower (hall : ∀ c ∈ hash, (Text.hexValue c).isSome = true) :
      hash = toLower std.lowerUnicode hash ↔ ∀ c ∈ hash, lowerByte c = c := by
    have hascii : hash.all (· < 128) = true :=
      List.all_eq_true.mpr fun c hc => decide_eq_true (Text.lt_of_hexValue c (hall c hc))
    have hmap := List.map_inj_left (l := hash) (f := lowerByte) (g := id)
    rw [List.map_id] at hmap
    rw [toLower, if_pos hascii, eq_comm, hmap]
    rfl
  constructor
  · rintro ⟨hcase, decoded, hdecode, hsize⟩
    obtain ⟨hlength, hall⟩ := Text.hexDecode_eq_some hdecode
    refine ⟨by omega, fun c hc => (isLowerHex_iff c).mpr ⟨hall c hc, ?_⟩⟩
    exact (hlower hall).mp hcase c hc
  · rintro ⟨hlength, hhex⟩
    have hall : ∀ c ∈ hash, (Text.hexValue c).isSome = true := fun c hc =>
      ((isLowerHex_iff c).mp (hhex c hc)).1
    refine ⟨(hlower hall).mpr fun c hc => ((isLowerHex_iff c).mp (hhex c hc)).2, ?_⟩
    exact Text.exists_hexDecode (n := 32) hlength hall

theorem parseOverride_bot {id : List UInt8} (h : trimSpace rawOverride = id ++ 58 :: rawLimit)
    (hid : 58 ∉ id) (hname : id ≠ ascii "sha256") :
    parseOverride std rawOverride = .ok (key, limit) ↔
      (id ≠ [] ∧ ∀ c ∈ id, Text.isDigit c = true) ∧ LimitText rawLimit limit ∧ id = key := by
  have hcolon : ¬58 ∉ trimSpace rawOverride := by simp [h]
  have hnumeric : isNumericInput id = true ↔ id ≠ [] ∧ ∀ c ∈ id, Text.isDigit c = true := by
    simp [isNumericInput]
  rw [parseOverride, if_neg hcolon, h, before_append hid, after_append hid, if_neg hname]
  by_cases hkey : isNumericInput id = true
  · rw [if_neg (by simp [hkey, (hnumeric.mp hkey).1]), map_parseLimit_iff,
      and_iff_right (hnumeric.mp hkey)]
    simp [and_comm]
  · rw [if_pos (.inr (Bool.eq_false_iff.mpr hkey))]
    exact iff_of_false (by simp) fun hentry => hkey (hnumeric.mpr hentry.1)

theorem parseOverride_token {hash : List UInt8}
    (h : trimSpace rawOverride = ascii "sha256:" ++ hash ++ 58 :: rawLimit) (hhash : 58 ∉ hash) :
    parseOverride std rawOverride = .ok (key, limit) ↔
      (hash.length = 64 ∧ ∀ c ∈ hash, Text.isLowerHex c = true) ∧ LimitText rawLimit limit ∧
        ascii "sha256:" ++ hash = key := by
  have hsplit : trimSpace rawOverride = ascii "sha256" ++ 58 :: (hash ++ 58 :: rawLimit) := by
    rw [h, List.append_assoc]
    rfl
  have hcolon : ¬58 ∉ trimSpace rawOverride := by simp [hsplit]
  rw [parseOverride, if_neg hcolon, hsplit, before_append (by decide), after_append (by decide),
    if_pos rfl, parseTokenOverride, if_neg (by simp), before_append hhash, after_append hhash,
    ← fingerprint_iff std hash]
  by_cases hlower : hash = toLower std.lowerUnicode hash
  · rw [if_neg (not_not.mpr hlower), and_iff_right hlower]
    cases hdecode : Text.hexDecode hash with
    | none => simp
    | some decoded =>
      by_cases hsize : decoded.length = 32
      · simp only [hsize, ne_eq, not_true, if_false, map_parseLimit_iff]
        simp [hsize, and_comm]
      · simp [hsize]
  · rw [if_pos hlower]
    exact iff_of_false (by simp) fun hentry => hlower hentry.1.1

theorem parseOverride_iff :
    parseOverride std rawOverride = .ok (key, limit) ↔
      OverrideText (trimSpace rawOverride) key limit := by
  constructor
  · intro h
    have hcolon : 58 ∈ trimSpace rawOverride := by
      by_contra hcolon
      simp [parseOverride, hcolon] at h
    have htext := before_append_after hcolon
    have hid := notMem_before 58 (trimSpace rawOverride)
    by_cases hname : before 58 (trimSpace rawOverride) = ascii "sha256"
    · have hcolon' : 58 ∈ after 58 (trimSpace rawOverride) := by
        by_contra hcolon'
        simp [parseOverride, parseTokenOverride, hcolon, hcolon', hname] at h
      have htext' : trimSpace rawOverride =
          ascii "sha256:" ++ before 58 (after 58 (trimSpace rawOverride)) ++
            58 :: after 58 (after 58 (trimSpace rawOverride)) := by
        rw [List.append_assoc, before_append_after hcolon']
        exact (hname ▸ htext).symm
      obtain ⟨⟨hlength, hhex⟩, hlimit, rfl⟩ :=
        (parseOverride_token htext' (notMem_before _ _)).mp h
      exact ⟨.token hlength hhex, _, hlimit, htext'⟩
    · obtain ⟨⟨hne, hdigits⟩, hlimit, rfl⟩ := (parseOverride_bot htext.symm hid hname).mp h
      exact ⟨.bot hne hdigits, _, hlimit, htext.symm⟩
  · rintro ⟨hkey, rawLimit, hlimit, htext⟩
    cases hkey with
    | bot hne hdigits =>
      have hid : 58 ∉ key := fun hmem => absurd (hdigits 58 hmem) (by decide)
      have hname : key ≠ ascii "sha256" := by
        rintro rfl
        exact absurd (hdigits 115 (by decide)) (by decide)
      exact (parseOverride_bot htext hid hname).mpr ⟨⟨hne, hdigits⟩, hlimit, rfl⟩
    | @token hash hlength hhex =>
      have hhash : 58 ∉ hash := fun hmem => absurd (hhex 58 hmem) (by decide)
      exact (parseOverride_token htext hhash).mpr ⟨⟨hlength, hhex⟩, hlimit, rfl⟩

theorem visible_of_hex : ∀ c : UInt8, Text.isLowerHex c = true → ¬(c < 33 ∨ 128 ≤ c) ∧ c ≠ 44 := by
  apply Text.forall_byte
  decide +kernel

theorem isLowerHex_of_digit {c : UInt8} (h : Text.isDigit c = true) : Text.isLowerHex c = true := by
  rw [Text.isLowerHex, h, Bool.true_or]

theorem OverrideKey.visible (h : OverrideKey key) :
    key ≠ [] ∧ ∀ c ∈ key, ¬(c < 33 ∨ 128 ≤ c) ∧ c ≠ 44 := by
  cases h with
  | bot hne hdigits =>
    exact ⟨hne, fun c hc => visible_of_hex c (isLowerHex_of_digit (hdigits c hc))⟩
  | token hlength hhash =>
    refine ⟨by simp [ascii], fun c hc => ?_⟩
    obtain hc | hc := List.mem_append.mp hc
    · exact (by decide +kernel : ∀ c ∈ ascii "sha256:", ¬(c < 33 ∨ 128 ≤ c) ∧ c ≠ 44) c hc
    · exact visible_of_hex c (hhash c hc)

theorem OverrideText.visible (h : OverrideText text key limit) :
    ∀ c ∈ text, ¬(c < 33 ∨ 128 ≤ c) ∧ c ≠ 44 := by
  obtain ⟨hkey, rawLimit, hlimit, rfl⟩ := h
  intro c hc
  obtain hc | hc := List.mem_append.mp hc
  · exact hkey.visible.2 c hc
  · obtain rfl | hc := List.mem_cons.mp hc
    · decide
    · exact visible_of_hex c (isLowerHex_of_digit (hlimit.digits c hc))

theorem OverrideText.spaceFree (h : OverrideText text key limit) : SpaceFree text :=
  spaceFree_of_visible fun c hc => (h.visible c hc).1

theorem writesOverride_iff :
    WritesOverride rawOverride key limit ↔ OverrideText (trimSpace rawOverride) key limit := by
  constructor
  · rintro ⟨front, text, back, hfront, hback, rfl, htext⟩
    rwa [trimSpace_eq hfront hback htext.spaceFree.not_starts htext.spaceFree.not_ends]
  · intro h
    obtain ⟨front, back, hfront, hback, heq, -, -⟩ := trimSpace_spec rawOverride
    exact ⟨front, _, back, hfront, hback, heq, h⟩

theorem WritesOverride.comma_notMem (h : WritesOverride rawOverride key limit) :
    44 ∉ rawOverride := by
  obtain ⟨front, text, back, hfront, hback, rfl, htext⟩ := h
  intro hmem
  simp only [List.mem_append] at hmem
  obtain (hmem | hmem) | hmem := hmem
  · exact absurd (byte_of_mem_blank hfront hmem) (by decide)
  · exact (htext.visible 44 hmem).2 rfl
  · exact absurd (byte_of_mem_blank hback hmem) (by decide)

theorem WritesOverride.colon_mem (h : WritesOverride rawOverride key limit) : 58 ∈ rawOverride := by
  obtain ⟨front, text, back, -, -, rfl, -, rawLimit, -, rfl⟩ := h
  simp

end Entry

section Loop

variable {std : TextFunctions} {value : List UInt8} {raws : List (List UInt8)}
  {entries : List (List UInt8 × Nat)} {overrides overrides' : Overrides} {key : List UInt8}
  {limit : Nat}

def insertAll (overrides : Overrides) (entries : List (List UInt8 × Nat)) : Overrides :=
  entries.foldl (fun overrides entry => overrides.insert entry.1 entry.2) overrides

theorem insertAll_cons (entry : List UInt8 × Nat) :
    insertAll overrides (entry :: entries)
      = insertAll (overrides.insert entry.1 entry.2) entries := rfl

theorem parseOverrides_iff :
    parseOverrides std raws overrides = .ok overrides' ↔
      ∃ entries, List.Forall₂ (fun raw entry => WritesOverride raw entry.1 entry.2) raws entries ∧
        overrides' = insertAll overrides entries := by
  -- the map is general: the loop goes on with what it has written so far
  induction raws generalizing overrides with
  | nil =>
    rw [parseOverrides]
    constructor
    · intro h
      exact ⟨[], .nil, (Except.ok.inj h).symm⟩
    · rintro ⟨_, ⟨⟩, rfl⟩
      rfl
  | cons raw raws ih =>
    rw [parseOverrides]
    constructor
    · intro h
      split at h
      · cases h
      · rename_i key limit hentry
        obtain ⟨entries, hentries, rfl⟩ := ih.mp h
        exact ⟨(key, limit) :: entries,
          .cons (writesOverride_iff.mpr (parseOverride_iff.mp hentry)) hentries, rfl⟩
    · rintro ⟨_, ⟨⟩, rfl⟩
      rename_i entry entries hentry hentries
      rw [parseOverride_iff.mpr (writesOverride_iff.mp hentry)]
      exact ih.mpr ⟨entries, hentries, rfl⟩

theorem WritesOverrides.splitOn (h : WritesOverrides value entries) :
    List.Forall₂ (fun raw entry => WritesOverride raw entry.1 entry.2) (value.splitOn 44) entries ∧
      58 ∈ value := by
  obtain ⟨raws, hne, rfl, hentries⟩ := h
  have hcomma : ∀ raw ∈ raws, 44 ∉ raw := by
    intro raw hraw
    obtain ⟨i, hi, rfl⟩ := List.getElem_of_mem hraw
    exact (hentries.get hi (hentries.length_eq ▸ hi)).comma_notMem
  rw [splitOn_join hcomma hne]
  refine ⟨hentries, ?_⟩
  cases hentries with
  | nil => exact absurd rfl hne
  | cons hentry _ => exact mem_join hentry.colon_mem List.mem_cons_self

theorem parseGlobalOverrides_iff :
    parseGlobalOverrides std value = .ok overrides ↔
      Blank spaces value ∧ overrides = ∅ ∨
        ∃ entries, WritesOverrides value entries ∧ overrides = insertAll ∅ entries := by
  have hblank : Blank spaces value → ∀ entries, ¬WritesOverrides value entries :=
    fun hblank entries h => absurd (byte_of_mem_blank hblank h.splitOn.2) (by decide)
  rw [parseGlobalOverrides]
  by_cases hvalue : Blank spaces value
  · rw [if_pos (trimSpace_eq_nil_iff.mpr hvalue)]
    simp [hvalue, hblank hvalue, eq_comm]
  · rw [if_neg (trimSpace_eq_nil_iff.not.mpr hvalue), parseOverrides_iff]
    simp only [hvalue, false_and, false_or]
    constructor
    · rintro ⟨entries, hentries, heq⟩
      have hvalue := (join_splitOn 44 value).symm
      exact ⟨entries, ⟨_, List.splitOn_ne_nil 44 value, hvalue, hentries⟩, heq⟩
    · rintro ⟨entries, hentries, heq⟩
      exact ⟨entries, hentries.splitOn.1, heq⟩

theorem lastEntry_cons {entry : List UInt8 × Nat} :
    LastEntry (entry :: entries) key limit ↔
      LastEntry entries key limit ∨ entry = (key, limit) ∧ ∀ entry ∈ entries, entry.1 ≠ key := by
  constructor
  · rintro ⟨earlier, later, heq, hlater⟩
    cases earlier with
    | nil =>
      obtain ⟨rfl, rfl⟩ := List.cons.inj heq
      exact .inr ⟨rfl, hlater⟩
    | cons _ earlier => exact .inl ⟨earlier, later, (List.cons.inj heq).2, hlater⟩
  · rintro (⟨earlier, later, rfl, hlater⟩ | ⟨rfl, hlater⟩)
    · exact ⟨entry :: earlier, later, rfl, hlater⟩
    · exact ⟨[], entries, rfl, hlater⟩

theorem LastEntry.mem (h : LastEntry entries key limit) : (key, limit) ∈ entries := by
  obtain ⟨earlier, later, rfl, -⟩ := h
  simp

theorem lastEntry_of_nodup (hnodup : (entries.map Prod.fst).Nodup)
    (hmem : (key, limit) ∈ entries) : LastEntry entries key limit := by
  obtain ⟨earlier, later, rfl⟩ := List.append_of_mem hmem
  refine ⟨earlier, later, rfl, ?_⟩
  rintro entry hentry rfl
  rw [List.map_append, List.map_cons] at hnodup
  have hlater := (List.nodup_cons.mp (List.Nodup.of_append_right hnodup)).1
  exact hlater (List.mem_map.mpr ⟨entry, hentry, rfl⟩)

theorem lookup_insertAll :
    (insertAll overrides entries).lookup key = some limit ↔
      LastEntry entries key limit ∨
        (∀ entry ∈ entries, entry.1 ≠ key) ∧ overrides.lookup key = some limit := by
  induction entries generalizing overrides with
  | nil =>
    have hnil : ¬LastEntry [] key limit := fun h => List.not_mem_nil h.mem
    simp [insertAll, hnil]
  | cons entry entries ih =>
    rw [insertAll_cons, ih, lastEntry_cons, List.forall_mem_cons, or_assoc]
    apply or_congr_right
    -- no later entry has the key, so it is this entry's or the map's from before
    by_cases hkey : entry.1 = key
    · subst hkey
      rw [Finmap.lookup_insert]
      simp [Prod.ext_iff, and_comm]
    · rw [Finmap.lookup_insert_of_ne _ (Ne.symm hkey)]
      simp [Prod.ext_iff, hkey]

theorem mem_insertAll :
    key ∈ insertAll overrides entries ↔ key ∈ overrides ∨ ∃ entry ∈ entries, entry.1 = key := by
  induction entries generalizing overrides with
  | nil => simp [insertAll]
  | cons entry entries ih =>
    rw [insertAll_cons, ih, Finmap.mem_insert, List.exists_mem_cons_iff, eq_comm,
      or_comm (a := entry.1 = key), or_assoc]

theorem WritesOverrides.limits (h : WritesOverrides value entries)
    (hmem : (key, limit) ∈ entries) :
    OverrideKey key ∧ 1 ≤ limit ∧ limit < 4294967296 := by
  obtain ⟨raws, -, -, hentries⟩ := h
  obtain ⟨i, hi, heq⟩ := List.getElem_of_mem hmem
  have hentry := hentries.get (hentries.length_eq ▸ hi) hi
  rw [List.get_eq_getElem, List.get_eq_getElem, heq] at hentry
  obtain ⟨-, text, -, -, -, -, hkey, rawLimit, hlimit, -⟩ := hentry
  exact ⟨hkey, hlimit.pos, hlimit.lt⟩

theorem parseGlobalOverrides_limits (h : parseGlobalOverrides std value = .ok overrides)
    (hlookup : overrides.lookup key = some limit) :
    OverrideKey key ∧ 1 ≤ limit ∧ limit < 4294967296 := by
  obtain ⟨-, rfl⟩ | ⟨entries, hentries, rfl⟩ := parseGlobalOverrides_iff.mp h
  · rw [Finmap.lookup_empty] at hlookup
    cases hlookup
  · obtain hlast | ⟨-, hempty⟩ := lookup_insertAll.mp hlookup
    · exact hentries.limits hlast.mem
    · rw [Finmap.lookup_empty] at hempty
      cases hempty

theorem globalLimit_eq (h : ∀ key limit, overrides.lookup key = some limit → 1 ≤ limit)
    (identity : FullIdentity) :
    globalLimit overrides identity
      = ((overrides.lookup identity.botID).or (overrides.lookup identity.fingerprint)).getD
          discordGlobalLimit := by
  have hne : ∀ {key limit}, overrides.lookup key = some limit → limit ≠ 0 :=
    fun hlookup => Nat.one_le_iff_ne_zero.mp (h _ _ hlookup)
  unfold globalLimit
  cases hbot : overrides.lookup identity.botID with
  | some limit => simp [hne hbot]
  | none =>
    cases htoken : overrides.lookup identity.fingerprint with
    | some limit => simp [hne htoken]
    | none => simp

theorem globalLimit_pos (overrides : Overrides) (identity : FullIdentity) :
    1 ≤ globalLimit overrides identity := by
  unfold globalLimit
  grind [discordGlobalLimit]

theorem overrideText_itoa (hkey : OverrideKey key)
    (hpos : 1 ≤ limit) (hlt : limit < 4294967296) :
    OverrideText (key ++ 58 :: Text.itoa limit) key limit := by
  obtain ⟨hne, hdigits, hvalue⟩ := Text.parseDigits_iff.mp (Text.parseDigits_itoa limit)
  exact ⟨hkey, Text.itoa limit, ⟨hne, hdigits, hvalue, hpos, hlt⟩, rfl⟩

end Loop

section Render

variable {std : TextFunctions} {m : AList fun _ : List UInt8 => Nat}

def pairs (m : AList fun _ : List UInt8 => Nat) : List (List UInt8 × Nat) :=
  m.entries.map fun entry => (entry.1, entry.2)

theorem writesOverrides_render
    (h : ∀ entry ∈ m.entries, OverrideKey entry.1 ∧ 1 ≤ entry.2 ∧ entry.2 < 4294967296)
    (hne : m.entries ≠ []) : WritesOverrides (render m) (pairs m) := by
  refine ⟨_, by simpa using hne, rfl, ?_⟩
  rw [pairs, List.forall₂_map_left_iff, List.forall₂_map_right_iff, List.forall₂_same]
  intro entry hentry
  obtain ⟨hkey, hpos, hlt⟩ := h entry hentry
  exact ⟨[], _, [], .nil, .nil, by simp, overrideText_itoa hkey hpos hlt⟩

theorem insertAll_pairs : insertAll ∅ (pairs m) = m.toFinmap := by
  have hnodup : ((pairs m).map Prod.fst).Nodup := by
    rw [pairs, List.map_map]
    exact m.nodupKeys
  have hmem : ∀ key limit, (key, limit) ∈ pairs m ↔ m.lookup key = some limit := by
    intro key limit
    rw [← Option.mem_def, AList.mem_lookup_iff, pairs, List.mem_map]
    constructor
    · rintro ⟨entry, hentry, heq⟩
      cases heq
      exact hentry
    · intro hentry
      exact ⟨_, hentry, rfl⟩
  refine Finmap.ext_lookup fun key => Option.ext fun limit => ?_
  rw [lookup_insertAll, Finmap.lookup_toFinmap, Finmap.lookup_empty, ← hmem]
  constructor
  · rintro (hlast | ⟨-, hnone⟩)
    · exact hlast.mem
    · cases hnone
  · exact fun h => .inl (lastEntry_of_nodup hnodup h)

theorem parseGlobalOverrides_render
    (h : ∀ entry ∈ m.entries, OverrideKey entry.1 ∧ 1 ≤ entry.2 ∧ entry.2 < 4294967296) :
    parseGlobalOverrides std (render m) = .ok m.toFinmap := by
  rw [← insertAll_pairs, parseGlobalOverrides_iff]
  by_cases hne : m.entries = []
  · refine .inl ⟨?_, ?_⟩
    · rw [render, hne]
      exact .nil
    · rw [pairs, hne]
      rfl
  · exact .inr ⟨_, writesOverrides_render h hne, rfl⟩

end Render

/-- The values the parser accepts are those of the grammar, a value means the last limit it gives
each of its keys, and every map over such keys and limits can be written down. -/
theorem overrides_grammar (std : TextFunctions) :
    (∀ value, (∃ overrides, parseGlobalOverrides std value = .ok overrides) ↔
      Blank spaces value ∨ ∃ entries, WritesOverrides value entries) ∧
    (∀ value overrides, parseGlobalOverrides std value = .ok overrides →
      (Blank spaces value → overrides = ∅) ∧
      (∀ entries, WritesOverrides value entries →
        (∀ key, key ∈ overrides ↔ ∃ entry ∈ entries, entry.1 = key) ∧
        ∀ key limit, overrides.lookup key = some limit ↔ LastEntry entries key limit) ∧
      [] ∉ overrides ∧
      (∀ key limit, overrides.lookup key = some limit →
        OverrideKey key ∧ 1 ≤ limit ∧ limit < 4294967296) ∧
      ∀ identity, 1 ≤ globalLimit overrides identity ∧
        globalLimit overrides identity
          = ((overrides.lookup identity.botID).or (overrides.lookup identity.fingerprint)).getD
              discordGlobalLimit) ∧
    ∀ m : AList fun _ : List UInt8 => Nat,
      (∀ entry ∈ m.entries, OverrideKey entry.1 ∧ 1 ≤ entry.2 ∧ entry.2 < 4294967296) →
        parseGlobalOverrides std (render m) = .ok m.toFinmap := by
  refine ⟨fun value => ?_, fun value overrides hparse => ?_, fun m hm => ?_⟩
  · constructor
    · rintro ⟨overrides, hparse⟩
      obtain ⟨hblank, -⟩ | ⟨entries, hentries, -⟩ := parseGlobalOverrides_iff.mp hparse
      · exact .inl hblank
      · exact .inr ⟨entries, hentries⟩
    · rintro (hblank | ⟨entries, hentries⟩)
      · exact ⟨_, parseGlobalOverrides_iff.mpr (.inl ⟨hblank, rfl⟩)⟩
      · exact ⟨_, parseGlobalOverrides_iff.mpr (.inr ⟨entries, hentries, rfl⟩)⟩
  · have hlimits : ∀ key limit, overrides.lookup key = some limit →
        OverrideKey key ∧ 1 ≤ limit ∧ limit < 4294967296 :=
      fun _ _ hlookup => parseGlobalOverrides_limits hparse hlookup
    have hpos : ∀ key limit, overrides.lookup key = some limit → 1 ≤ limit :=
      fun key limit hlookup => (hlimits key limit hlookup).2.1
    refine ⟨fun hblank => ?_, fun entries hentries => ?_, fun hnil => ?_, hlimits,
      fun identity => ⟨globalLimit_pos overrides identity, globalLimit_eq hpos identity⟩⟩
    · rw [parseGlobalOverrides_iff.mpr (.inl ⟨hblank, rfl⟩)] at hparse
      exact (Except.ok.inj hparse).symm
    · rw [parseGlobalOverrides_iff.mpr (.inr ⟨entries, hentries, rfl⟩)] at hparse
      obtain rfl := Except.ok.inj hparse
      refine ⟨fun key => ?_, fun key limit => ?_⟩
      · rw [mem_insertAll, or_iff_right Finmap.notMem_empty]
      · rw [lookup_insertAll]
        simp
    · obtain ⟨limit, hlimit⟩ := Finmap.mem_iff.mp hnil
      exact (hlimits [] limit hlimit).1.visible.1 rfl
  · exact parseGlobalOverrides_render hm

def twoOverrides : AList fun _ : List UInt8 => Nat where
  entries := [⟨ascii "42", 75⟩, ⟨ascii "sha256:" ++ List.replicate 64 97, 4294967295⟩]
  nodupKeys := by
    rw [List.NodupKeys]
    decide

theorem overrides_grammar_two :
    parseGlobalOverrides wholeSeconds (render twoOverrides) = .ok twoOverrides.toFinmap ∧
      ∃ overrides,
        parseGlobalOverrides wholeSeconds (ascii " 42:050,\t42:060 ") = .ok overrides := by
  refine ⟨(overrides_grammar wholeSeconds).2.2 twoOverrides ?_,
    ((overrides_grammar wholeSeconds).1 _).mpr (.inr ⟨[(ascii "42", 50), (ascii "42", 60)],
      [ascii " 42:050", ascii "\t42:060 "], by decide, by decide, ?_⟩)⟩
  · rintro entry hentry
    simp only [twoOverrides, List.mem_cons, List.not_mem_nil, or_false] at hentry
    obtain rfl | rfl := hentry
    · exact ⟨.bot (by decide) (by decide +kernel), by decide, by decide⟩
    · exact ⟨.token (by decide) (by decide +kernel), by decide, by decide⟩
  · have hkey : OverrideKey (ascii "42") := .bot (by decide) (by decide +kernel)
    have hspace : Blank spaces [32] := blank_word (by decide)
    have htab : Blank spaces [9] := blank_word (by decide)
    have hfifty : OverrideText (ascii "42:050") (ascii "42") 50 :=
      ⟨hkey, ascii "050", ⟨by decide, by decide +kernel, by decide, by decide, by decide⟩,
        by decide⟩
    have hsixty : OverrideText (ascii "42:060") (ascii "42") 60 :=
      ⟨hkey, ascii "060", ⟨by decide, by decide +kernel, by decide, by decide, by decide⟩,
        by decide⟩
    exact .cons ⟨[32], _, [], hspace, .nil, by decide, hfifty⟩
      (.cons ⟨[9], _, [32], htab, hspace, by decide, hsixty⟩ .nil)

end NirnProxy
