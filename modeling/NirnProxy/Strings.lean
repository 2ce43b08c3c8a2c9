import Mathlib.Data.List.TakeWhile

/-! Texts as lists: prefixes, the parts between separators, and what a separator cuts. -/

universe u

namespace NirnProxy.Strings

/-- The bytes of a text that is ASCII only. -/
def ascii (s : String) : List UInt8 := s.toList.map fun c => UInt8.ofNat c.toNat

def lowerByte (b : UInt8) : UInt8 := if 65 ≤ b ∧ b ≤ 90 then b + 32 else b

/-- `strings.ToLower`, with what it does to a text that is not ASCII only. -/
def toLower (unicode : List UInt8 → List UInt8) (s : List UInt8) : List UInt8 :=
  if s.all (· < 128) then s.map lowerByte else unicode s

/-- `strings.EqualFold` with an ASCII text that has no `k` and no `s`, the two letters that a
symbol outside ASCII folds to. -/
def equalFold (s word : List UInt8) : Bool := s.map lowerByte == word.map lowerByte

/-- The simple folding of Unicode as far as it ends in ASCII: upper case, the long `s` and the sign
of the kelvin. -/
def simpleFold : List UInt8 → List UInt8
  | 0xc5 :: 0xbf :: s => 115 :: simpleFold s
  | 0xe2 :: 0x84 :: 0xaa :: s => 107 :: simpleFold s
  | b :: s => lowerByte b :: simpleFold s
  | [] => []

/-- `strings.EqualFold` with any ASCII text. -/
def equalFoldASCII (s word : List UInt8) : Bool := simpleFold s == word.map lowerByte

theorem simpleFold_eq_iff {s word : List UInt8} (h : ∀ b ∈ word, b < 128 ∧ b ≠ 107 ∧ b ≠ 115) :
    simpleFold s = word ↔ s.map lowerByte = word := by
  induction s using simpleFold.induct generalizing word with
  | case1 s ih =>
    rw [simpleFold]
    refine iff_of_false (fun hs => ?_) fun hs => ?_
    · exact (h 115 (hs ▸ List.mem_cons_self)).2.2 rfl
    · exact absurd (h 0xc5 (hs ▸ List.mem_cons_self)).1 (by decide)
  | case2 s ih =>
    rw [simpleFold]
    refine iff_of_false (fun hs => ?_) fun hs => ?_
    · exact (h 107 (hs ▸ List.mem_cons_self)).2.1 rfl
    · exact absurd (h 0xe2 (hs ▸ List.mem_cons_self)).1 (by decide)
  | case3 b s hlong hkelvin ih =>
    rw [simpleFold, List.map_cons]
    · cases word with
      | nil => simp
      | cons c word =>
        rw [List.cons.injEq, List.cons.injEq, ih (List.forall_mem_cons.mp h).2]
    · exact hlong
    · exact hkelvin
  | case4 => rfl

variable {α : Type u} [DecidableEq α]

def hasPrefix (s pre : List α) : Bool := decide (pre <+: s)

def trimPrefix (s pre : List α) : List α := if pre <+: s then s.drop pre.length else s

/-- The text before the first separator, as in `strings.SplitN(s, sep, 2)[0]`. -/
def before (sep : α) (s : List α) : List α := s.takeWhile (· ≠ sep)

/-- The text after the first separator, and nothing where there is none. -/
def after (sep : α) (s : List α) : List α := (s.dropWhile (· ≠ sep)).tail

def join (sep : α) (parts : List (List α)) : List α := [sep].intercalate parts

variable {sep : α} {s t pre : List α} {parts : List (List α)}

theorem trimPrefix_append (pre s : List α) : trimPrefix (pre ++ s) pre = s := by
  rw [trimPrefix, if_pos (List.prefix_append pre s), List.drop_left]

theorem trimPrefix_of_not (h : ¬pre <+: s) : trimPrefix s pre = s := if_neg h

theorem before_cons_of_ne {a : α} (h : a ≠ sep) : before sep (a :: s) = a :: before sep s :=
  List.takeWhile_cons_of_pos (by simpa using h)

theorem after_cons_of_ne {a : α} (h : a ≠ sep) : after sep (a :: s) = after sep s :=
  congrArg List.tail (List.dropWhile_cons_of_pos (by simpa using h))

theorem before_append (h : sep ∉ s) : before sep (s ++ sep :: t) = s := by
  induction s with
  | nil => simp [before]
  | cons a s ih =>
    obtain ⟨ha, hs⟩ := List.ne_and_not_mem_of_not_mem_cons h
    rw [List.cons_append, before_cons_of_ne ha.symm, ih hs]

theorem before_append_of_mem (h : sep ∈ s) (t : List α) : before sep (s ++ t) = before sep s := by
  induction s with
  | nil => exact absurd h List.not_mem_nil
  | cons a s ih =>
    by_cases ha : a = sep
    · simp [before, ha]
    · rw [List.cons_append, before_cons_of_ne ha, before_cons_of_ne ha,
        ih (List.mem_of_ne_of_mem (Ne.symm ha) h)]

theorem before_of_notMem (h : sep ∉ s) : before sep s = s := by
  rw [before, List.takeWhile_eq_self_iff]
  intro a ha
  simpa using fun e : a = sep => h (e ▸ ha)

theorem after_append (h : sep ∉ s) : after sep (s ++ sep :: t) = t := by
  induction s with
  | nil => simp [after]
  | cons a s ih =>
    obtain ⟨ha, hs⟩ := List.ne_and_not_mem_of_not_mem_cons h
    rw [List.cons_append, after_cons_of_ne ha.symm, ih hs]

theorem notMem_before (sep : α) (s : List α) : sep ∉ before sep s := by
  intro h
  simpa using List.mem_takeWhile_imp h

theorem before_append_after (h : sep ∈ s) : before sep s ++ sep :: after sep s = s := by
  induction s with
  | nil => exact absurd h List.not_mem_nil
  | cons a s ih =>
    by_cases ha : a = sep
    · simp [before, after, ha]
    · rw [before_cons_of_ne ha, after_cons_of_ne ha, List.cons_append,
        ih (List.mem_of_ne_of_mem (Ne.symm ha) h)]

omit [DecidableEq α] in
@[simp] theorem join_singleton (s : List α) : join sep [s] = s := by simp [join]

omit [DecidableEq α] in
@[simp] theorem join_cons_cons (s t : List α) (parts : List (List α)) :
    join sep (s :: t :: parts) = s ++ sep :: join sep (t :: parts) := by
  simp [join, List.intercalate]

omit [DecidableEq α] in
theorem join_cons (s : List α) (h : parts ≠ []) :
    join sep (s :: parts) = s ++ sep :: join sep parts := by
  cases parts with
  | nil => exact absurd rfl h
  | cons t parts => exact join_cons_cons s t parts

omit [DecidableEq α] in
theorem mem_join {a : α} (ha : a ∈ s) (hs : s ∈ parts) : a ∈ join sep parts := by
  induction parts with
  | nil => exact absurd hs List.not_mem_nil
  | cons t parts ih =>
    cases parts with
    | nil =>
      rw [join_singleton, ← List.mem_singleton.mp hs]
      exact ha
    | cons u parts =>
      rw [join_cons_cons]
      obtain rfl | hs := List.mem_cons.mp hs
      · exact List.mem_append_left _ ha
      · exact List.mem_append_right _ (List.mem_cons_of_mem _ (ih hs))

omit [DecidableEq α] in
theorem notMem_join {a : α} (ha : a ≠ sep) (h : ∀ s ∈ parts, a ∉ s) : a ∉ join sep parts := by
  induction parts with
  | nil => exact List.not_mem_nil
  | cons s parts ih =>
    have hs := h s List.mem_cons_self
    cases parts with
    | nil => rwa [join_singleton]
    | cons t parts =>
      rw [join_cons_cons]
      intro hmem
      obtain hmem | hmem := List.mem_append.mp hmem
      · exact hs hmem
      · obtain hmem | hmem := List.mem_cons.mp hmem
        · exact ha hmem
        · exact ih (fun u hu => h u (List.mem_cons_of_mem _ hu)) hmem

theorem join_splitOn (sep : α) (s : List α) : join sep (s.splitOn sep) = s :=
  List.intercalate_splitOn sep

theorem splitOn_join (hparts : ∀ s ∈ parts, sep ∉ s) (hne : parts ≠ []) :
    (join sep parts).splitOn sep = parts :=
  List.splitOn_intercalate sep hparts hne

theorem notMem_of_mem_splitOn (h : t ∈ s.splitOn sep) : sep ∉ t := by
  induction s generalizing t with
  | nil =>
    obtain rfl := List.mem_singleton.mp h
    exact List.not_mem_nil
  | cons a s ih =>
    rw [List.splitOn_cons_eq_if_modifyHead] at h
    split at h
    · obtain rfl | h := List.mem_cons.mp h
      · exact List.not_mem_nil
      · exact ih h
    · rename_i ha
      generalize hs : s.splitOn sep = split at h ih
      cases split with
      | nil => cases h
      | cons u split =>
        obtain rfl | h := List.mem_cons.mp h
        · refine List.not_mem_cons_of_ne_of_not_mem (fun e => ?_) (ih List.mem_cons_self)
          exact ha (beq_iff_eq.mpr e.symm)
        · exact ih (List.mem_cons_of_mem _ h)

theorem prefix_join_iff (hpre : sep ∉ pre) (hparts : ∀ s ∈ parts, sep ∉ s) :
    pre ++ [sep] <+: join sep parts ↔ ∃ rest, rest ≠ [] ∧ parts = pre :: rest := by
  constructor
  · rintro ⟨t, ht⟩
    cases parts with
    | nil => simp [join] at ht
    | cons s rest =>
      cases rest with
      | nil =>
        rw [join_singleton] at ht
        exact absurd (ht ▸ by simp) (hparts s List.mem_cons_self)
      | cons u rest =>
        rw [join_cons_cons, List.append_assoc] at ht
        have hs := congrArg (before sep) ht
        rw [List.singleton_append, before_append hpre,
          before_append (hparts s List.mem_cons_self)] at hs
        exact ⟨u :: rest, List.cons_ne_nil _ _, by rw [hs]⟩
  · rintro ⟨rest, hne, rfl⟩
    rw [join_cons pre hne]
    exact ⟨join sep rest, by simp⟩

end NirnProxy.Strings
