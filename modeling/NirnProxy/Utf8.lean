import Mathlib.Data.List.Basic

/-! UTF-8 as far as its well-formedness goes: the sequences of one character, the texts made of
them, and the replacement of what is not one. -/

namespace NirnProxy.Utf8

def isTail (b : UInt8) : Bool := decide (0x80 ≤ b ∧ b ≤ 0xBF)

/-- What may follow the first byte of a character of several bytes: the least and the greatest
second byte, and how many bytes come after it. -/
def second (a : UInt8) : Option (UInt8 × UInt8 × Nat) :=
  if 0xC2 ≤ a ∧ a ≤ 0xDF then some (0x80, 0xBF, 0)
  else if a = 0xE0 then some (0xA0, 0xBF, 1)
  else if a = 0xED then some (0x80, 0x9F, 1)
  else if 0xE1 ≤ a ∧ a ≤ 0xEF then some (0x80, 0xBF, 1)
  else if a = 0xF0 then some (0x90, 0xBF, 2)
  else if 0xF1 ≤ a ∧ a ≤ 0xF3 then some (0x80, 0xBF, 2)
  else if a = 0xF4 then some (0x80, 0x8F, 2)
  else none

inductive Rune : List UInt8 → Prop
  | single {a} : a < 0x80 → Rune [a]
  | several {a b lo hi n tail} : second a = some (lo, hi, n) → lo ≤ b → b ≤ hi → tail.length = n →
      (∀ c ∈ tail, isTail c = true) → Rune (a :: b :: tail)

inductive WellFormed : List UInt8 → Prop
  | nil : WellFormed []
  | cons {r s} : Rune r → WellFormed s → WellFormed (r ++ s)

/-- The length of the character with which a text begins, and zero where it begins with none. -/
def runeLength : List UInt8 → Nat
  | [] => 0
  | a :: s =>
    if a < 0x80 then 1
    else match second a, s with
      | some (lo, hi, n), b :: s =>
        if lo ≤ b ∧ b ≤ hi ∧ n ≤ s.length ∧ (s.take n).all isTail then n + 2 else 0
      | _, _ => 0

/-- `utf8.ValidString` after `skip` bytes, which belong to a character that was looked at. -/
def validFrom : Nat → List UInt8 → Bool
  | _, [] => true
  | skip + 1, _ :: s => validFrom skip s
  | 0, a :: s => runeLength (a :: s) ≠ 0 && validFrom (runeLength (a :: s) - 1) s

def validString (s : List UInt8) : Bool := validFrom 0 s

/-- The loop of `strings.ToValidUTF8`; `invalid` says that the byte before was replaced. -/
def replaceFrom (replacement : List UInt8) : Nat → Bool → List UInt8 → List UInt8
  | _, _, [] => []
  | skip + 1, invalid, a :: s => a :: replaceFrom replacement skip invalid s
  | 0, invalid, a :: s =>
    match runeLength (a :: s) with
    | 0 => (if invalid then [] else replacement) ++ replaceFrom replacement 0 true s
    | n + 1 => a :: replaceFrom replacement n false s

def toValidUTF8 (s replacement : List UInt8) : List UInt8 := replaceFrom replacement 0 false s

/-- `utf8.RuneCountInString` after `skip` bytes; a byte that begins no character counts as one. -/
def runeCountFrom : Nat → List UInt8 → Nat
  | _, [] => 0
  | skip + 1, _ :: s => runeCountFrom skip s
  | 0, a :: s => runeCountFrom (runeLength (a :: s) - 1) s + 1

def runeCount (s : List UInt8) : Nat := runeCountFrom 0 s

variable {a c : UInt8} {r s t replacement : List UInt8} {n : Nat} {invalid : Bool}

theorem Rune.ne_nil (h : Rune r) : r ≠ [] := by
  cases h <;> exact List.cons_ne_nil _ _

theorem second_eq_none (h : a < 0x80) : second a = none := by
  have hle : ∀ b : UInt8, 0x80 ≤ b → ¬b ≤ a := fun b hb h' =>
    UInt8.not_le.mpr h (UInt8.le_trans hb h')
  have hne : ∀ b : UInt8, 0x80 ≤ b → a ≠ b := fun b hb e => hle b hb (e ▸ UInt8.le_refl a)
  unfold second
  rw [if_neg fun h => hle _ (by decide) h.1, if_neg (hne _ (by decide)),
    if_neg (hne _ (by decide)), if_neg fun h => hle _ (by decide) h.1,
    if_neg (hne _ (by decide)), if_neg fun h => hle _ (by decide) h.1, if_neg (hne _ (by decide))]

theorem Rune.runeLength_append (h : Rune r) (t : List UInt8) : runeLength (r ++ t) = r.length := by
  cases h with
  | single ha => simp [runeLength, ha]
  | @several a b lo hi n tail hs hlo hhi hn htail =>
    have ha : ¬a < 0x80 := fun ha => by simp [second_eq_none ha] at hs
    have htake : (tail ++ t).take n = tail := by rw [← hn, List.take_left]
    simp only [List.cons_append, runeLength, if_neg ha, hs, htake]
    rw [if_pos ⟨hlo, hhi, by simp [← hn], List.all_eq_true.mpr htail⟩]
    simp [← hn]

theorem exists_rune (h : runeLength s = n + 1) :
    ∃ r t, s = r ++ t ∧ Rune r ∧ r.length = n + 1 := by
  cases s with
  | nil => cases h
  | cons a s =>
    by_cases ha : a < 0x80
    · simp only [runeLength, if_pos ha] at h
      exact ⟨[a], s, rfl, .single ha, h⟩
    · simp only [runeLength, if_neg ha] at h
      split at h
      · rename_i lo hi k b s hs
        split at h
        · rename_i hb
          obtain ⟨hlo, hhi, hk, htail⟩ := hb
          refine ⟨a :: b :: s.take k, s.drop k, by simp, ?_, by simp [hk, h]⟩
          exact .several hs hlo hhi (by simp [hk]) (List.all_eq_true.mp htail)
        · cases h
      · cases h

theorem Rune.wellFormed (h : Rune r) : WellFormed r := by
  simpa using WellFormed.cons h .nil

theorem WellFormed.append (hs : WellFormed s) (ht : WellFormed t) : WellFormed (s ++ t) := by
  induction hs with
  | nil => exact ht
  | cons hr _ ih => exact List.append_assoc _ _ _ ▸ .cons hr ih

theorem wellFormed_of_single (h : ∀ a ∈ s, a < 0x80) : WellFormed s := by
  induction s with
  | nil => exact .nil
  | cons a s ih =>
    obtain ⟨ha, hs⟩ := List.forall_mem_cons.mp h
    exact .cons (.single ha) (ih hs)

theorem validFrom_append (r s : List UInt8) : validFrom r.length (r ++ s) = validFrom 0 s := by
  induction r with
  | nil => rfl
  | cons a r ih => exact ih

theorem validFrom_rune (h : Rune r) (s : List UInt8) : validFrom 0 (r ++ s) = validFrom 0 s := by
  have hlen := h.runeLength_append s
  obtain _ | ⟨a, r⟩ := r
  · exact absurd rfl h.ne_nil
  · simp only [List.cons_append, List.length_cons] at hlen ⊢
    simp only [validFrom, hlen, Nat.add_one_sub_one, validFrom_append]
    simp

theorem validString_iff : validString s = true ↔ WellFormed s := by
  constructor
  · intro h
    induction hn : s.length using Nat.strongRecOn generalizing s with
    | _ n ih =>
      obtain _ | ⟨a, s⟩ := s
      · exact .nil
      · obtain ⟨n, hlen⟩ : ∃ n, runeLength (a :: s) = n + 1 := by
          refine Nat.exists_eq_succ_of_ne_zero fun h0 => ?_
          simp [validString, validFrom, h0] at h
        obtain ⟨r, t, hrt, hr, -⟩ := exists_rune hlen
        rw [hrt] at h hn ⊢
        have hpos := List.length_pos_of_ne_nil hr.ne_nil
        rw [List.length_append] at hn
        refine .cons hr (ih t.length (by omega) ?_ rfl)
        rwa [validString, validFrom_rune hr] at h
  · intro h
    induction h with
    | nil => rfl
    | cons hr _ ih => rwa [validString, validFrom_rune hr]

theorem replaceFrom_append (r s : List UInt8) :
    replaceFrom replacement r.length invalid (r ++ s) =
      r ++ replaceFrom replacement 0 invalid s := by
  induction r with
  | nil => rfl
  | cons a r ih => exact congrArg (a :: ·) ih

theorem replaceFrom_rune (h : Rune r) (s : List UInt8) :
    replaceFrom replacement 0 invalid (r ++ s) = r ++ replaceFrom replacement 0 false s := by
  have hlen := h.runeLength_append s
  obtain _ | ⟨a, r⟩ := r
  · exact absurd rfl h.ne_nil
  · simp only [List.cons_append, List.length_cons] at hlen ⊢
    simp only [replaceFrom, hlen, replaceFrom_append]

theorem replaceFrom_byte (h : runeLength (a :: s) = 0) :
    replaceFrom replacement 0 invalid (a :: s) =
      (if invalid then [] else replacement) ++ replaceFrom replacement 0 true s := by
  simp only [replaceFrom, h]

theorem begins (hs : s ≠ []) :
    (∃ r t, s = r ++ t ∧ Rune r) ∨ ∃ a t, s = a :: t ∧ runeLength (a :: t) = 0 := by
  obtain _ | ⟨a, t⟩ := s
  · exact absurd rfl hs
  · cases hlen : runeLength (a :: t) with
    | zero => exact .inr ⟨a, t, rfl, hlen⟩
    | succ n =>
      obtain ⟨r, t', hrt, hr, -⟩ := exists_rune hlen
      exact .inl ⟨r, t', hrt, hr⟩

theorem replaceFrom_wellFormed (h : WellFormed replacement) (invalid : Bool) (s : List UInt8) :
    WellFormed (replaceFrom replacement 0 invalid s) := by
  induction hn : s.length using Nat.strongRecOn generalizing s invalid with
  | _ n ih =>
    by_cases hs : s = []
    · rw [hs]
      exact .nil
    · obtain ⟨r, t, rfl, hr⟩ | ⟨a, t, rfl, hbyte⟩ := begins hs
      · have hpos := List.length_pos_of_ne_nil hr.ne_nil
        rw [List.length_append] at hn
        rw [replaceFrom_rune hr]
        exact .cons hr (ih t.length (by omega) false t rfl)
      · rw [List.length_cons] at hn
        have htail := ih t.length (by omega) true t rfl
        rw [replaceFrom_byte hbyte]
        cases invalid
        · exact h.append htail
        · exact htail

theorem toValidUTF8_wellFormed (h : WellFormed replacement) (s : List UInt8) :
    WellFormed (toValidUTF8 s replacement) := replaceFrom_wellFormed h false s

theorem WellFormed.toValidUTF8_eq (h : WellFormed s) (replacement : List UInt8) :
    toValidUTF8 s replacement = s := by
  induction h with
  | nil => rfl
  | cons hr _ ih =>
    rw [toValidUTF8, replaceFrom_rune hr]
    exact congrArg _ ih

/-- A character of one byte is never a part of another one. -/
theorem Rune.eq_single (h : Rune r) (hc : c ∈ r) (hlt : c < 0x80) : r = [c] := by
  cases h with
  | single ha => rw [List.mem_singleton.mp hc]
  | @several a b lo hi n tail hs hlo hhi hn htail =>
    have hlow : (0x80 : UInt8) ≤ lo := by
      unfold second at hs
      repeat' split at hs
      all_goals simp only [Option.some.injEq, Prod.mk.injEq, reduceCtorEq] at hs
      all_goals obtain ⟨rfl, -, -⟩ := hs; decide
    have hge : (0x80 : UInt8) ≤ c := by
      obtain rfl | rfl | hc := by simpa using hc
      · refine UInt8.not_lt.mp fun ha => ?_
        simp [second_eq_none ha] at hs
      · exact UInt8.le_trans hlow hlo
      · exact (of_decide_eq_true (htail c hc)).1
    exact absurd hlt (UInt8.not_lt.mpr hge)

theorem runeLength_append_single (hc : c < 0x80) (h : runeLength (a :: s) = 0) (t : List UInt8) :
    runeLength (a :: (s ++ c :: t)) = 0 := by
  by_contra hne
  obtain ⟨n, hlen⟩ := Nat.exists_eq_succ_of_ne_zero hne
  obtain ⟨r, u, heq, hr, -⟩ := exists_rune hlen
  have hnot : ∀ v, a :: s ≠ r ++ v := fun v hv => by
    rw [hv, hr.runeLength_append] at h
    exact hr.ne_nil (List.eq_nil_of_length_eq_zero h)
  rw [← List.cons_append] at heq
  obtain ⟨v, rfl, hv⟩ | ⟨v, hv, -⟩ := List.append_eq_append_iff.mp heq
  · obtain _ | ⟨b, v⟩ := v
    · exact hnot [] (by simp)
    · cases hv
      have hsingle := congrArg List.length (hr.eq_single (c := c) (by simp) hc)
      simp at hsingle
  · exact hnot v hv

theorem replaceFrom_single (hc : c < 0x80) (invalid : Bool) (s t : List UInt8) :
    replaceFrom replacement 0 invalid (s ++ c :: t) =
      replaceFrom replacement 0 invalid s ++ c :: replaceFrom replacement 0 false t := by
  induction hn : s.length using Nat.strongRecOn generalizing s invalid with
  | _ n ih =>
    by_cases hs : s = []
    · subst hs
      exact replaceFrom_rune (.single hc) t
    · obtain ⟨r, u, rfl, hr⟩ | ⟨a, u, rfl, hbyte⟩ := begins hs
      · have hpos := List.length_pos_of_ne_nil hr.ne_nil
        rw [List.length_append] at hn
        rw [List.append_assoc, replaceFrom_rune hr, replaceFrom_rune hr,
          ih u.length (by omega) false u rfl, List.append_assoc]
      · rw [List.length_cons] at hn
        rw [List.cons_append, replaceFrom_byte (runeLength_append_single hc hbyte t),
          replaceFrom_byte hbyte, ih u.length (by omega) true u rfl, List.append_assoc]

theorem mem_replaceFrom (h : c ∈ replaceFrom replacement 0 invalid s) :
    c ∈ s ∨ c ∈ replacement := by
  induction hn : s.length using Nat.strongRecOn generalizing s invalid with
  | _ n ih =>
    by_cases hs : s = []
    · rw [hs] at h
      cases h
    · obtain ⟨r, t, rfl, hr⟩ | ⟨a, t, rfl, hbyte⟩ := begins hs
      · have hpos := List.length_pos_of_ne_nil hr.ne_nil
        rw [List.length_append] at hn
        rw [replaceFrom_rune hr] at h
        obtain h | h := List.mem_append.mp h
        · exact .inl (List.mem_append_left t h)
        · exact (ih t.length (by omega) h rfl).imp_left (List.mem_append_right r)
      · rw [List.length_cons] at hn
        rw [replaceFrom_byte hbyte] at h
        obtain h | h := List.mem_append.mp h
        · cases invalid
          · exact .inr h
          · cases h
        · exact (ih t.length (by omega) h rfl).imp_left (List.mem_cons_of_mem a)

theorem toValidUTF8_eq_self (h : c ∉ toValidUTF8 s [c]) : toValidUTF8 s [c] = s := by
  unfold toValidUTF8 at h ⊢
  induction hn : s.length using Nat.strongRecOn generalizing s with
  | _ n ih =>
    by_cases hs : s = []
    · rw [hs]
      rfl
    · obtain ⟨r, t, rfl, hr⟩ | ⟨a, t, rfl, hbyte⟩ := begins hs
      · have hpos := List.length_pos_of_ne_nil hr.ne_nil
        rw [List.length_append] at hn
        rw [replaceFrom_rune hr] at h ⊢
        rw [ih t.length (by omega) (fun hc => h (List.mem_append_right r hc)) rfl]
      · rw [replaceFrom_byte hbyte] at h
        exact absurd List.mem_cons_self h

theorem toValidUTF8_ne_nil (hr : replacement ≠ []) (hs : s ≠ []) :
    toValidUTF8 s replacement ≠ [] := by
  unfold toValidUTF8
  obtain ⟨r, t, rfl, hrune⟩ | ⟨a, t, rfl, hbyte⟩ := begins hs
  · rw [replaceFrom_rune hrune]
    exact List.append_ne_nil_of_left_ne_nil hrune.ne_nil _
  · rw [replaceFrom_byte hbyte]
    exact List.append_ne_nil_of_left_ne_nil hr _

end NirnProxy.Utf8
