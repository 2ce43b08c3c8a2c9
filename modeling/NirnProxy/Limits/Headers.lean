import NirnProxy.Clock
import NirnProxy.Limits.Pacer
import NirnProxy.Strings
import NirnProxy.Text
import Mathlib.Data.Rat.Floor

/-! The rate limit that a response announces: `parseRateLimitHeaders`, and the delays that
`observeResponse` takes from what it returns.  Seconds are exact rationals. -/

namespace NirnProxy

open Strings

def rateLimitHeaderSlack : Int := 5 * Duration.millisecond

def maximumRateLimitDelay : Int := 24 * Duration.hour

structure RateLimitInfo where
  bucket : List UInt8
  remaining : Int
  resetAfter : Int
  global : Bool
  deriving DecidableEq

/-- A response with what `parseRateLimitHeaders` made of it; `malformed` is its error. -/
structure Response where
  status : Nat
  info : RateLimitInfo
  malformed : Bool
  deriving DecidableEq

namespace Response

def tooManyRequests (r : Response) : Bool := r.status == 429

def unauthorized (r : Response) : Bool := r.status == 401

def globalDelay (r : Response) : Option Int :=
  if r.tooManyRequests && r.info.global then
    some (if r.malformed then minimumRetryDelay else r.info.resetAfter)
  else none

def bucketDelay (r : Response) (interaction : Bool) : Option Int :=
  if r.malformed then
    if r.tooManyRequests && (!r.info.global || interaction) then some minimumRetryDelay else none
  else if r.info.global then
    if r.tooManyRequests && interaction then some (max r.info.resetAfter minimumRetryDelay)
    else none
  else if r.info.remaining == 0 || r.tooManyRequests then
    some (if decide (r.info.resetAfter < minimumRetryDelay) && r.tooManyRequests then
      minimumRetryDelay else r.info.resetAfter)
  else none

end Response

inductive HeaderName
  | bucket
  | scope
  | global
  | remaining
  | resetAfter
  | retryAfter
  | reset
  deriving DecidableEq

abbrev Header := HeaderName → List (List UInt8)

/-- `http.Header.Get`: the first value, and the empty text where there is none. -/
def Header.get (header : Header) (name : HeaderName) : List UInt8 := (header name).headD []

/-- The functions of `strconv`, `strings` and `fmt` that are not spelled out.  `parseFloat` gives
nothing for a text that is refused and for one that stands for an infinity or no number. -/
structure TextFunctions where
  parseFloat : List UInt8 → Option ℚ
  lowerUnicode : List UInt8 → List UInt8
  quote : List UInt8 → List UInt8

/-- `rateLimitInfo` with the field that nothing but the parser reads. -/
structure ScopedRateLimitInfo extends RateLimitInfo where
  scope : List UInt8
  deriving DecidableEq

def ScopedRateLimitInfo.none : ScopedRateLimitInfo where
  bucket := []
  scope := []
  remaining := -1
  resetAfter := 0
  global := false

/-- Seconds cut to whole nanoseconds, but not more than the longest delay. -/
def clampSeconds (seconds : ℚ) : Int :=
  if 24 * 60 * 60 ≤ seconds then maximumRateLimitDelay else ⌊seconds * Duration.second⌋

namespace Header

variable (std : TextFunctions) (header : Header) (status : Nat) (now : Int)

def parseScope : List UInt8 := toLower std.lowerUnicode (header.get .scope)

def parseGlobal : Bool :=
  equalFold (header.get .global) (ascii "true") || header.parseScope std == ascii "global"

def parseRemaining : Except (List UInt8) Int :=
  if header.get .remaining = [] then .ok (-1)
  else match Text.parseInt32 (header.get .remaining) with
    | some remaining =>
      if 0 ≤ remaining then .ok remaining
      else .error (ascii "invalid X-RateLimit-Remaining " ++ std.quote (header.get .remaining))
    | none => .error (ascii "invalid X-RateLimit-Remaining " ++ std.quote (header.get .remaining))

def resetValue : List UInt8 :=
  if status = 429 ∧ header.get .retryAfter ≠ [] then header.get .retryAfter
  else header.get .resetAfter

def parseReset : Except (List UInt8) Int :=
  if header.resetValue status ≠ [] then
    match std.parseFloat (header.resetValue status) with
    | some seconds =>
      if 0 ≤ seconds then .ok (clampSeconds seconds)
      else .error (ascii "invalid rate-limit reset " ++ std.quote (header.resetValue status))
    | none => .error (ascii "invalid rate-limit reset " ++ std.quote (header.resetValue status))
  else if header.get .reset ≠ [] then
    match std.parseFloat (header.get .reset) with
    | some seconds =>
      let remainingSeconds := seconds - unixNano now / Duration.second
      .ok (if remainingSeconds ≤ 0 then 0 else clampSeconds remainingSeconds)
    | none => .error (ascii "invalid X-RateLimit-Reset " ++ std.quote (header.get .reset))
  else .ok 0

/-- `parseRateLimitHeaders` from the extraction of the bucket on; the second component is the
text of its error. -/
def parseFields : ScopedRateLimitInfo × Option (List UInt8) :=
  let info : ScopedRateLimitInfo :=
    { ScopedRateLimitInfo.none with
      bucket := header.get .bucket
      scope := header.parseScope std
      global := header.parseGlobal std }
  match header.parseRemaining std with
  | .error err => (info, some err)
  | .ok remaining =>
    let info := { info with remaining := remaining }
    match header.parseReset std status now with
    | .error err => (info, some err)
    | .ok resetAfter =>
      let slack :=
        if (remaining = 0 ∨ status = 429) ∧ 0 < resetAfter then rateLimitHeaderSlack else 0
      ({ info with resetAfter := resetAfter + slack }, none)

def Silent : Prop :=
  header.get .bucket = [] ∧ header.get .remaining = [] ∧ header.get .resetAfter = [] ∧
    header.get .retryAfter = [] ∧ header.get .global = [] ∧ header.get .scope = []

instance : Decidable header.Silent := inferInstanceAs (Decidable (_ ∧ _))

end Header

/-- A header that is `nil` is an error of its own. -/
def parseRateLimitHeaders (std : TextFunctions) (header : Option Header) (status : Nat)
    (now : Int) : ScopedRateLimitInfo × Option (List UInt8) :=
  match header with
  | none => (.none, some (ascii "missing rate-limit headers"))
  | some header =>
    if header.Silent then (.none, none) else header.parseFields std status now

section Shortcut

variable {std : TextFunctions} {header : Header} {status : Nat} {now : Int}

theorem cast_second : (Duration.second : ℚ) = 1000000000 := by
  norm_num [Duration.second_eq]

theorem clampSeconds_nonneg {seconds : ℚ} (h : 0 ≤ seconds) : 0 ≤ clampSeconds seconds := by
  unfold clampSeconds
  split
  · decide
  · have hsecond : (0 : ℚ) ≤ Duration.second := by norm_num [cast_second]
    exact Int.floor_nonneg.mpr (mul_nonneg h hsecond)

theorem clampSeconds_eq_zero {seconds : ℚ} (h : 0 ≤ seconds) :
    clampSeconds seconds = 0 ↔ seconds * Duration.second < 1 := by
  unfold clampSeconds
  split
  · rename_i hlong
    refine iff_of_false (by decide) (not_lt.mpr ?_)
    rw [cast_second]
    linarith
  · rw [Int.floor_eq_zero_iff, Set.mem_Ico, and_iff_right]
    rw [cast_second]
    positivity

theorem Header.Silent.parseFields (h : header.Silent) :
    header.parseFields std status now =
      match header.parseReset std status now with
      | .error err => (.none, some err)
      | .ok resetAfter =>
        ({ ScopedRateLimitInfo.none with
            resetAfter := resetAfter +
              if status = 429 ∧ 0 < resetAfter then rateLimitHeaderSlack else 0 }, none) := by
  obtain ⟨hbucket, hremaining, -, -, hglobal, hscope⟩ := h
  have hscope' : header.parseScope std = [] := by
    rw [Header.parseScope, hscope]
    rfl
  have hglobal' : header.parseGlobal std = false := by
    rw [Header.parseGlobal, hglobal, hscope']
    decide
  have hremaining' : header.parseRemaining std = .ok (-1) := by
    rw [Header.parseRemaining, if_pos hremaining]
  simp only [Header.parseFields, hremaining', hbucket, hscope', hglobal']
  cases header.parseReset std status now with
  | error err => rfl
  | ok resetAfter => simp [ScopedRateLimitInfo.none]

def ResetPassed (std : TextFunctions) (header : Header) (now : Int) : Prop :=
  ∃ seconds, std.parseFloat (header.get .reset) = some seconds ∧
    seconds * Duration.second < unixNano now + 1

theorem Header.Silent.parseReset_iff (h : header.Silent) (status : Nat) :
    header.parseReset std status now = .ok 0 ↔
      header.get .reset = [] ∨ ResetPassed std header now := by
  obtain ⟨-, -, hresetAfter, hretryAfter, -, -⟩ := h
  have hvalue : header.resetValue status = [] := by
    simp [Header.resetValue, hresetAfter, hretryAfter]
  rw [Header.parseReset, if_neg (not_not.mpr hvalue)]
  by_cases hreset : header.get .reset = []
  · simp [hreset]
  · rw [if_pos hreset, or_iff_right hreset]
    cases hparse : std.parseFloat (header.get .reset) with
    | none => simp [ResetPassed, hparse]
    | some seconds =>
      simp only [ResetPassed, hparse, Option.some.injEq, exists_eq_left', Except.ok.injEq]
      have hscale : (seconds - unixNano now / Duration.second) * Duration.second =
          seconds * Duration.second - unixNano now := by
        rw [cast_second]
        ring
      split
      · rename_i hpast
        refine iff_of_true rfl ?_
        have := mul_nonpos_of_nonpos_of_nonneg hpast (by rw [cast_second]; norm_num :
          (0 : ℚ) ≤ Duration.second)
        linarith
      · rename_i hfuture
        rw [clampSeconds_eq_zero (le_of_lt (not_le.mp hfuture)), hscale]
        constructor <;> intro h <;> linarith

/-- The shortcut changes nothing exactly where it is not taken, where there is no absolute reset, or
where that has passed. -/
theorem shortcut_invisible_iff (std : TextFunctions) (header : Header) (status : Nat) (now : Int) :
    parseRateLimitHeaders std (some header) status now = header.parseFields std status now ↔
      ¬header.Silent ∨ header.get .reset = [] ∨ ResetPassed std header now := by
  by_cases h : header.Silent
  · rw [or_iff_right (not_not.mpr h), ← h.parseReset_iff status, h.parseFields]
    simp only [parseRateLimitHeaders, if_pos h]
    cases header.parseReset std status now with
    | error err => simp
    | ok resetAfter =>
      simp only [Except.ok.injEq]
      constructor
      · intro heq
        have hreset : (0 : Int) = resetAfter +
            if status = 429 ∧ 0 < resetAfter then rateLimitHeaderSlack else 0 :=
          congrArg (fun result => result.1.resetAfter) heq
        split at hreset
        · have hslack : 0 ≤ rateLimitHeaderSlack := by decide
          omega
        · omega
      · rintro rfl
        simp [ScopedRateLimitInfo.none]
  · simp [parseRateLimitHeaders, h]

def wholeSeconds : TextFunctions where
  parseFloat s := (Text.parseDigits s).map fun n => (n : ℚ)
  lowerUnicode s := s
  quote s := s

def onlyReset : Header
  | .reset => [ascii "2"]
  | _ => []

theorem shortcut_ignores_reset :
    parseRateLimitHeaders wholeSeconds (some onlyReset) 429 unixEpoch = (.none, none) ∧
      onlyReset.parseFields wholeSeconds 429 unixEpoch =
        ({ ScopedRateLimitInfo.none with
            resetAfter := 2 * Duration.second + rateLimitHeaderSlack }, none) ∧
      parseRateLimitHeaders wholeSeconds (some onlyReset) 429 unixEpoch ≠
        onlyReset.parseFields wholeSeconds 429 unixEpoch := by
  decide +kernel

end Shortcut

end NirnProxy
