import Mathlib.Data.Nat.Digits.Defs
import Mathlib.Data.List.Basic

/-! Byte texts: decimal numerals as `strconv.Itoa` writes and `strconv.Atoi` reads them, host and
port as `net.JoinHostPort` joins them, big-endian words, and hexadecimal texts. -/

namespace NirnProxy.Text

def digit (d : Nat) : UInt8 := 48 + UInt8.ofNat d

def isDigit (b : UInt8) : Bool := 48 ≤ b && b ≤ 57

def value (b : UInt8) : Nat := b.toNat - 48

theorem forall_byte {P : UInt8 → Prop} (h : ∀ n < 256, P (UInt8.ofNat n)) (c : UInt8) : P c := by
  have hc := h c.toNat c.toNat_lt
  rwa [UInt8.ofNat_toNat] at hc

theorem digit_value {d : Nat} (h : d < 10) : value (digit d) = d := by
  simp only [value, digit, UInt8.toNat_add, UInt8.toNat_ofNat', UInt8.reduceToNat]
  omega

theorem isDigit_digit {d : Nat} (h : d < 10) : isDigit (digit d) = true := by
  simp only [isDigit, digit, Bool.and_eq_true, decide_eq_true_eq, UInt8.le_iff_toNat_le,
    UInt8.toNat_add, UInt8.toNat_ofNat', UInt8.reduceToNat]
  omega

/-- `strconv.Itoa` of a number that is not negative. -/
def itoa (n : Nat) : List UInt8 :=
  if n = 0 then [48] else ((Nat.digits 10 n).map digit).reverse

/-- `strconv.FormatInt` in base ten. -/
def formatInt (n : Int) : List UInt8 := if n < 0 then 45 :: itoa n.natAbs else itoa n.natAbs

def parseDigits (s : List UInt8) : Option Nat :=
  if s ≠ [] ∧ s.all isDigit then some (s.foldl (fun n b => value b + 10 * n) 0) else none

/-- `strconv.Atoi` on a platform with 64-bit integers; `none` stands for its error. -/
def atoi : List UInt8 → Option Int
  | 45 :: s => (parseDigits s).bind fun n => if n ≤ 2 ^ 63 then some (-(n : Int)) else none
  | 43 :: s => (parseDigits s).bind fun n => if n < 2 ^ 63 then some (n : Int) else none
  | s => (parseDigits s).bind fun n => if n < 2 ^ 63 then some (n : Int) else none

/-- `strconv.ParseInt` in base ten with 32 bits. -/
def parseInt32 (s : List UInt8) : Option Int :=
  (atoi s).filter fun n => -2 ^ 31 ≤ n ∧ n < 2 ^ 31

/-- `strconv.ParseUint` in base ten with 32 bits. -/
def parseUint32 (s : List UInt8) : Option Nat :=
  (parseDigits s).filter fun n => n < 4294967296

def decimal (s : List UInt8) : Nat := Nat.ofDigits 10 (s.reverse.map value)

theorem parseDigits_iff {s : List UInt8} {n : Nat} :
    parseDigits s = some n ↔ s ≠ [] ∧ (∀ c ∈ s, isDigit c = true) ∧ decimal s = n := by
  have hfold : s.foldl (fun n b => value b + 10 * n) 0 = decimal s := by
    rw [decimal, Nat.ofDigits_eq_foldr, List.foldr_map, List.foldr_reverse]
    rfl
  rw [parseDigits, Option.ite_none_right_eq_some, hfold, Option.some.injEq, List.all_eq_true,
    and_assoc]

theorem isDigit_of_mem_itoa {n : Nat} {b : UInt8} (h : b ∈ itoa n) : isDigit b = true := by
  unfold itoa at h
  split at h
  · obtain rfl := List.mem_singleton.mp h
    rfl
  · obtain ⟨d, hd, rfl⟩ := List.mem_map.mp (List.mem_reverse.mp h)
    exact isDigit_digit (Nat.digits_lt_base (by decide) hd)

theorem itoa_ne_nil (n : Nat) : itoa n ≠ [] := by
  unfold itoa
  split
  · nofun
  · rename_i hn
    simpa using Nat.digits_ne_nil_iff_ne_zero.mpr hn

theorem foldr_digits {ds : List Nat} (h : ∀ d ∈ ds, d < 10) :
    (ds.map digit).foldr (fun b n => value b + 10 * n) 0 = Nat.ofDigits 10 ds := by
  induction ds with
  | nil => rfl
  | cons d ds ih =>
    simp only [List.map_cons, List.foldr_cons, Nat.ofDigits_cons, digit_value (h d (by simp))]
    rw [ih fun e he => h e (List.mem_cons_of_mem d he)]

theorem parseDigits_itoa (n : Nat) : parseDigits (itoa n) = some n := by
  have hall : (itoa n).all isDigit := List.all_eq_true.mpr fun _ hb => isDigit_of_mem_itoa hb
  rw [parseDigits, if_pos ⟨itoa_ne_nil n, hall⟩]
  congr 1
  unfold itoa
  split
  · simp [value, *]
  · rw [List.foldl_reverse, foldr_digits fun d hd => Nat.digits_lt_base (by decide) hd]
    exact Nat.ofDigits_digits 10 n

theorem atoi_of_digits {s : List UInt8} (h : s.all isDigit) :
    atoi s = (parseDigits s).bind fun n => if n < 2 ^ 63 then some (n : Int) else none := by
  unfold atoi
  split <;> simp_all [isDigit]

theorem atoi_itoa {n : Nat} (h : n < 2 ^ 63) : atoi (itoa n) = some (n : Int) := by
  rw [atoi_of_digits (List.all_eq_true.mpr fun _ hb => isDigit_of_mem_itoa hb), parseDigits_itoa]
  exact if_pos h

theorem itoa_injective {m n : Nat} (h : itoa m = itoa n) : m = n := by
  have hp := congrArg parseDigits h
  rw [parseDigits_itoa, parseDigits_itoa] at hp
  exact Option.some.inj hp

theorem colon_notMem_itoa (n : Nat) : 58 ∉ itoa n := by
  intro h
  exact absurd (isDigit_of_mem_itoa h) (by decide)

/-- `net.JoinHostPort`: a host with a colon in it is put in brackets. -/
def joinHostPort (host port : List UInt8) : List UInt8 :=
  if 58 ∈ host then 91 :: host ++ 93 :: 58 :: port else host ++ 58 :: port

theorem joinHostPort_ne_nil (host port : List UInt8) : joinHostPort host port ≠ [] := by
  unfold joinHostPort
  split <;> simp

theorem append_cons_inj {α : Type*} {c : α} {l m p q : List α} (hp : c ∉ p) (hq : c ∉ q)
    (h : l ++ c :: p = m ++ c :: q) : l = m ∧ p = q := by
  obtain ⟨k, rfl, hk⟩ | ⟨k, rfl, hk⟩ := List.append_eq_append_iff.mp h
  all_goals
    cases k with
    | nil => simpa [eq_comm] using hk
    | cons a k =>
      obtain ⟨-, rfl⟩ := List.cons.inj hk
      simp at hp hq

theorem joinHostPort_injective {host host' port port' : List UInt8} (hp : 58 ∉ port)
    (hp' : 58 ∉ port') (h : joinHostPort host port = joinHostPort host' port') :
    host = host' ∧ port = port' := by
  have hsplit (g p : List UInt8) : joinHostPort g p =
      (if 58 ∈ g then 91 :: g ++ [93] else g) ++ 58 :: p := by
    unfold joinHostPort
    split <;> simp
  rw [hsplit, hsplit] at h
  obtain ⟨hhost, rfl⟩ := append_cons_inj hp hp' h
  refine ⟨?_, rfl⟩
  -- a bracketed host has a colon and a bare one has none
  split at hhost <;> split at hhost
  · simpa using hhost
  · rename_i hg hg'
    exact absurd (hhost ▸ by simp [hg]) hg'
  · rename_i hg hg'
    exact absurd (hhost.symm ▸ by simp [hg']) hg
  · exact hhost

def bigEndian (bytes : List UInt8) : Nat := bytes.foldl (fun n b => 256 * n + b.toNat) 0

/-- `hex.EncodeToString`. -/
def hexEncode (bytes : List UInt8) : List UInt8 :=
  bytes.flatMap fun b => [hexDigit (b.toNat / 16), hexDigit (b.toNat % 16)]
where
  hexDigit (d : Nat) : UInt8 := if d < 10 then digit d else 87 + UInt8.ofNat d

def hexValue (c : UInt8) : Option Nat :=
  if isDigit c then some (value c)
  else if 97 ≤ c ∧ c ≤ 102 then some (c.toNat - 87)
  else if 65 ≤ c ∧ c ≤ 70 then some (c.toNat - 55)
  else none

/-- `hex.DecodeString`; `none` stands for its errors. -/
def hexDecode : List UInt8 → Option (List UInt8)
  | [] => some []
  | [_] => none
  | a :: b :: s => do
    let a ← hexValue a
    let b ← hexValue b
    let decoded ← hexDecode s
    some (UInt8.ofNat (16 * a + b) :: decoded)

def isLowerHex (c : UInt8) : Bool := isDigit c || (97 ≤ c && c ≤ 102)

theorem lt_of_hexValue : ∀ c : UInt8, (hexValue c).isSome = true → c < 128 := by
  apply forall_byte
  decide +kernel

theorem hexDecode_eq_some {s decoded : List UInt8} (h : hexDecode s = some decoded) :
    s.length = 2 * decoded.length ∧ ∀ c ∈ s, (hexValue c).isSome := by
  induction s using hexDecode.induct generalizing decoded with
  | case1 =>
    cases h
    exact ⟨rfl, by simp⟩
  | case2 c => cases h
  | case3 a b s ih =>
    simp only [hexDecode, Option.bind_eq_bind, Option.bind_eq_some_iff, Option.some.injEq] at h
    obtain ⟨x, hx, y, hy, rest, hrest, rfl⟩ := h
    obtain ⟨hlength, hall⟩ := ih hrest
    refine ⟨by simp [hlength, Nat.mul_add], ?_⟩
    simp only [List.forall_mem_cons, hx, hy, Option.isSome_some, true_and]
    exact hall

theorem exists_hexDecode {s : List UInt8} {n : Nat} (hlength : s.length = 2 * n)
    (hall : ∀ c ∈ s, (hexValue c).isSome) : ∃ decoded, hexDecode s = some decoded ∧
      decoded.length = n := by
  induction n generalizing s with
  | zero =>
    obtain rfl := List.eq_nil_of_length_eq_zero hlength
    exact ⟨[], rfl, rfl⟩
  | succ n ih =>
    obtain _ | ⟨a, _ | ⟨b, s⟩⟩ := s
    · simp at hlength
    · simp at hlength
      omega
    · simp only [List.forall_mem_cons] at hall
      obtain ⟨x, hx⟩ := Option.isSome_iff_exists.mp hall.1
      obtain ⟨y, hy⟩ := Option.isSome_iff_exists.mp hall.2.1
      simp only [List.length_cons] at hlength
      obtain ⟨rest, hrest, rfl⟩ := ih (by omega) hall.2.2
      exact ⟨UInt8.ofNat (16 * x + y) :: rest, by simp [hexDecode, hx, hy, hrest], rfl⟩

end NirnProxy.Text
