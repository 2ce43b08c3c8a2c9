import Mathlib.Data.List.Infix

/-! Texts trimmed of the words of a code, and `strings.TrimSpace`, whose code are the encodings of
the whitespace symbols.  The words can be told apart wherever they stand, so what trimming leaves
does not depend on the side it begins with. -/

universe u

namespace NirnProxy.Trimming

variable {α : Type u}

/-- No word is empty, none starts with another, and the first symbol of a word stands in none at a
later place. -/
structure Code (words : List (List α)) : Prop where
  ne_nil : ∀ w ∈ words, w ≠ []
  prefixFree : ∀ v ∈ words, ∀ w ∈ words, v <+: w → v = w
  sync : ∀ v ∈ words, ∀ w ∈ words, ∀ a ∈ v.head?, a ∉ w.tail

inductive Blank (words : List (List α)) : List α → Prop
  | nil : Blank words []
  | cons {w s : List α} : w ∈ words → Blank words s → Blank words (w ++ s)

def Starts (words : List (List α)) (s : List α) : Prop := ∃ w ∈ words, w <+: s

def Ends (words : List (List α)) (s : List α) : Prop := ∃ w ∈ words, w <:+ s

section Words

variable {words : List (List α)} {s t x y v w z : List α}

theorem Blank.append (hx : Blank words x) (hy : Blank words y) : Blank words (x ++ y) := by
  induction hx with
  | nil => exact hy
  | cons hw _ ih =>
    rw [List.append_assoc]
    exact .cons hw ih

theorem blank_word (hw : w ∈ words) : Blank words w := by
  rw [← List.append_nil w]
  exact .cons hw .nil

theorem Blank.reverse (hx : Blank words x) : Blank (words.map List.reverse) x.reverse := by
  induction hx with
  | nil => exact .nil
  | cons hw _ ih =>
    rw [List.reverse_append]
    exact ih.append (blank_word (List.mem_map_of_mem hw))

theorem starts_reverse : Starts (words.map List.reverse) s.reverse ↔ Ends words s := by
  constructor
  · rintro ⟨w, hw, h⟩
    obtain ⟨v, hv, rfl⟩ := List.mem_map.mp hw
    exact ⟨v, hv, List.reverse_prefix.mp h⟩
  · rintro ⟨w, hw, h⟩
    exact ⟨w.reverse, List.mem_map_of_mem hw, List.reverse_prefix.mpr h⟩

theorem blank_of_reverse (hx : Blank (words.map List.reverse) x.reverse) : Blank words x := by
  simpa using hx.reverse

theorem eq_of_blank_append (hfree : ∀ v ∈ words, ∀ w ∈ words, v <+: w → v = w)
    (hx : Blank words x) (hy : Blank words y) (hs : ¬Starts words s) (ht : ¬Starts words t)
    (h : x ++ s = y ++ t) : s = t := by
  induction hx generalizing y with
  | nil =>
    cases hy with
    | nil => exact h
    | cons hw _ =>
      rw [List.nil_append, List.append_assoc] at h
      exact absurd ⟨_, hw, _, h.symm⟩ hs
  | cons hv _ ih =>
    rw [List.append_assoc] at h
    cases hy with
    | nil => exact absurd ⟨_, hv, _, h⟩ ht
    | cons hw hy =>
      rw [List.append_assoc] at h
      obtain rfl : _ = _ := by
        obtain hpre | hpre := List.prefix_or_prefix_of_prefix ⟨_, h⟩ (List.prefix_append _ _)
        · exact hfree _ hv _ hw hpre
        · exact (hfree _ hw _ hv hpre).symm
      exact ih hy (List.append_cancel_left h)

theorem Code.not_starts_append (C : Code words) (hne : t ≠ []) (ht : ¬Starts words t)
    (hy : Blank words y) : ¬Starts words (t ++ y) := by
  rintro ⟨w, hw, hpre⟩
  obtain h | ⟨z, rfl⟩ := List.prefix_or_prefix_of_prefix hpre (List.prefix_append t y)
  · exact ht ⟨w, hw, h⟩
  · cases hy with
    | nil =>
      rw [List.append_nil] at hpre
      exact ht ⟨_, hw, hpre⟩
    | cons hv hy =>
      rename_i v y
      rw [List.prefix_append_right_inj] at hpre
      cases z with
      | nil =>
        rw [List.append_nil] at hw
        exact ht ⟨t, hw, List.prefix_rfl⟩
      | cons a z =>
        obtain ⟨b, v, rfl⟩ := List.exists_cons_of_ne_nil (C.ne_nil v hv)
        rw [List.cons_append, List.cons_prefix_cons] at hpre
        refine C.sync _ hv _ hw a (by simp [hpre.1]) ?_
        obtain ⟨c, t, rfl⟩ := List.exists_cons_of_ne_nil hne
        simp

/-- No word stands in another behind its first place. -/
theorem Code.not_inside (C : Code words) (hv : v ∈ words) (hz : z ≠ []) (t : List α) :
    z ++ (v ++ t) ∉ words := by
  intro hw
  obtain ⟨a, v, rfl⟩ := List.exists_cons_of_ne_nil (C.ne_nil v hv)
  obtain ⟨c, z, rfl⟩ := List.exists_cons_of_ne_nil hz
  exact C.sync _ hv _ hw a rfl (by simp)

theorem Code.suffixFree (C : Code words) (hv : v ∈ words) (hw : w ∈ words) (h : v <:+ w) :
    v = w := by
  obtain ⟨z, rfl⟩ := h
  by_cases hz : z = []
  · rw [hz, List.nil_append]
  · have := C.not_inside hv hz []
    rw [List.append_nil] at this
    exact absurd hw this

theorem Code.not_ends_append (C : Code words) (hv : v ∈ words) (hne : t ≠ [])
    (ht : ¬Ends words t) (u : List α) : ¬Ends words (u ++ v ++ t) := by
  rintro ⟨w, hw, hsuf⟩
  obtain h | ⟨z, rfl⟩ := List.suffix_or_suffix_of_suffix hsuf (List.suffix_append (u ++ v) t)
  · exact ht ⟨w, hw, h⟩
  · have hz : z ≠ [] := by
      rintro rfl
      exact ht ⟨t, hw, List.suffix_rfl⟩
    have hlong : v ++ t ∉ words := fun h => hne <| by
      simpa using C.prefixFree v hv (v ++ t) h (List.prefix_append v t)
    -- the word that ends the text starts before or inside `v`
    obtain ⟨z', rfl⟩ | ⟨v', rfl⟩ := List.suffix_or_suffix_of_suffix (List.suffix_append u v)
      (List.suffix_append_self_iff.mp hsuf)
    · by_cases hz' : z' = []
      · exact hlong (by simpa [hz'] using hw)
      · exact C.not_inside hv hz' t (by simpa using hw)
    · by_cases hv' : v' = []
      · exact hlong (by simpa [hv'] using hw)
      · obtain ⟨a, z, rfl⟩ := List.exists_cons_of_ne_nil hz
        obtain ⟨c, v', rfl⟩ := List.exists_cons_of_ne_nil hv'
        exact C.sync _ hw _ hv a rfl (by simp)

end Words

section Trim

variable [DecidableEq α] (words : List (List α))

def dropWord (s : List α) : Option (List α) :=
  words.findSome? fun w => if w <+: s then some (s.drop w.length) else none

def dropWords : Nat → List α → List α
  | 0, s => s
  | n + 1, s =>
    match dropWord words s with
    | none => s
    | some rest => dropWords n rest

def trimLeft (s : List α) : List α := dropWords words s.length s

def trimRight (s : List α) : List α := (trimLeft (words.map List.reverse) s.reverse).reverse

def trim (s : List α) : List α := trimRight words (trimLeft words s)

variable {words} {s t x y : List α}

theorem dropWord_none (h : dropWord words s = none) : ¬Starts words s := by
  rintro ⟨w, hw, hpre⟩
  have := List.findSome?_eq_none_iff.mp h w hw
  simp [hpre] at this

theorem dropWord_some {rest : List α} (h : dropWord words s = some rest) :
    ∃ w ∈ words, s = w ++ rest := by
  obtain ⟨w, hw, hrest⟩ := List.exists_of_findSome?_eq_some h
  obtain ⟨⟨t, rfl⟩, hrest⟩ := Option.ite_none_right_eq_some.mp hrest
  rw [List.drop_left] at hrest
  exact ⟨w, hw, by rw [Option.some.inj hrest]⟩

theorem dropWords_spec (hne : ∀ w ∈ words, w ≠ []) {n : Nat} (hn : s.length ≤ n) :
    ∃ x, Blank words x ∧ s = x ++ dropWords words n s ∧ ¬Starts words (dropWords words n s) := by
  induction n generalizing s with
  | zero =>
    obtain rfl := List.eq_nil_of_length_eq_zero (Nat.le_zero.mp hn)
    refine ⟨[], .nil, rfl, ?_⟩
    rintro ⟨w, hw, hpre⟩
    exact hne w hw (List.prefix_nil.mp hpre)
  | succ n ih =>
    rw [dropWords]
    split
    · rename_i h
      exact ⟨[], .nil, rfl, dropWord_none h⟩
    · rename_i rest h
      obtain ⟨w, hw, rfl⟩ := dropWord_some h
      have hpos := List.length_pos_of_ne_nil (hne w hw)
      rw [List.length_append] at hn
      obtain ⟨x, hx, hrest, hstarts⟩ := ih (s := rest) (by omega)
      refine ⟨w ++ x, .cons hw hx, ?_, hstarts⟩
      rw [List.append_assoc, ← hrest]

theorem trimLeft_spec (hne : ∀ w ∈ words, w ≠ []) (s : List α) :
    ∃ x, Blank words x ∧ s = x ++ trimLeft words s ∧ ¬Starts words (trimLeft words s) :=
  dropWords_spec hne le_rfl

theorem trimLeft_eq (hne : ∀ w ∈ words, w ≠ [])
    (hfree : ∀ v ∈ words, ∀ w ∈ words, v <+: w → v = w) (hx : Blank words x)
    (ht : ¬Starts words t) : trimLeft words (x ++ t) = t := by
  obtain ⟨y, hy, heq, hstarts⟩ := trimLeft_spec hne (x ++ t)
  exact (eq_of_blank_append hfree hx hy ht hstarts heq).symm

omit [DecidableEq α] in
theorem Code.reverse (C : Code words) :
    (∀ w ∈ words.map List.reverse, w ≠ []) ∧
      ∀ v ∈ words.map List.reverse, ∀ w ∈ words.map List.reverse, v <+: w → v = w := by
  simp only [List.forall_mem_map, List.reverse_prefix]
  refine ⟨fun w hw h => C.ne_nil w hw (List.reverse_eq_nil_iff.mp h), fun v hv w hw h => ?_⟩
  rw [C.suffixFree hv hw h]

theorem Code.trimRight_spec (C : Code words) (s : List α) :
    ∃ y, Blank words y ∧ s = trimRight words s ++ y ∧ ¬Ends words (trimRight words s) := by
  obtain ⟨x, hx, heq, hstarts⟩ := trimLeft_spec C.reverse.1 s.reverse
  refine ⟨x.reverse, blank_of_reverse (by rwa [List.reverse_reverse]), ?_, ?_⟩
  · rw [trimRight, ← List.reverse_append, ← heq, List.reverse_reverse]
  · rw [← starts_reverse, trimRight, List.reverse_reverse]
    exact hstarts

theorem Code.trimRight_eq (C : Code words) (hy : Blank words y) (ht : ¬Ends words t) :
    trimRight words (t ++ y) = t := by
  rw [trimRight, List.reverse_append,
    trimLeft_eq C.reverse.1 C.reverse.2 hy.reverse (starts_reverse.not.mpr ht),
    List.reverse_reverse]

theorem Code.trim_spec (C : Code words) (s : List α) :
    ∃ x y, Blank words x ∧ Blank words y ∧ s = x ++ trim words s ++ y ∧
      ¬Starts words (trim words s) ∧ ¬Ends words (trim words s) := by
  obtain ⟨x, hx, hleft, hstarts⟩ := trimLeft_spec C.ne_nil s
  obtain ⟨y, hy, hright, hends⟩ := C.trimRight_spec (trimLeft words s)
  refine ⟨x, y, hx, hy, ?_, ?_, hends⟩
  · rw [trim, List.append_assoc, ← hright, ← hleft]
  · rintro ⟨w, hw, hpre⟩
    exact hstarts ⟨w, hw, hpre.trans ⟨y, hright.symm⟩⟩

theorem Code.trim_eq (C : Code words) (hx : Blank words x) (hy : Blank words y)
    (hs : ¬Starts words t) (he : ¬Ends words t) : trim words (x ++ t ++ y) = t := by
  have hleft : trimLeft words (x ++ t ++ y) = t ++ y ∨
      t = [] ∧ trimLeft words (x ++ t ++ y) = [] := by
    by_cases ht : t = []
    · subst ht
      have := trimLeft_eq C.ne_nil C.prefixFree (hx.append hy) hs
      rw [List.append_nil] at this
      exact .inr ⟨rfl, by rwa [List.append_nil]⟩
    · rw [List.append_assoc]
      exact .inl (trimLeft_eq C.ne_nil C.prefixFree hx (C.not_starts_append ht hs hy))
  obtain h | ⟨rfl, h⟩ := hleft
  · rw [trim, h, C.trimRight_eq hy he]
  · rw [trim, h]
    rfl

end Trim

section Space

/-- The whitespace of Unicode, encoded in UTF-8. -/
def spaces : List (List UInt8) :=
  [[9], [10], [11], [12], [13], [32], [0xc2, 0x85], [0xc2, 0xa0], [0xe1, 0x9a, 0x80]] ++
    (List.range 11).map (fun i => [0xe2, 0x80, 0x80 + UInt8.ofNat i]) ++
    [[0xe2, 0x80, 0xa8], [0xe2, 0x80, 0xa9], [0xe2, 0x80, 0xaf], [0xe2, 0x81, 0x9f],
      [0xe3, 0x80, 0x80]]

theorem code_spaces : Code spaces where
  ne_nil := by decide
  prefixFree := by decide +kernel
  sync := by decide +kernel

def trimSpace (s : List UInt8) : List UInt8 := trim spaces s

def SpaceFree (s : List UInt8) : Prop := ∀ w ∈ spaces, ¬w <:+: s

instance (s : List UInt8) : Decidable (SpaceFree s) :=
  inferInstanceAs (Decidable (∀ w ∈ spaces, ¬w <:+: s))

variable {a : UInt8} {s t x y : List UInt8}

theorem trimSpace_spec (s : List UInt8) :
    ∃ x y, Blank spaces x ∧ Blank spaces y ∧ s = x ++ trimSpace s ++ y ∧
      ¬Starts spaces (trimSpace s) ∧ ¬Ends spaces (trimSpace s) :=
  code_spaces.trim_spec s

theorem trimSpace_eq (hx : Blank spaces x) (hy : Blank spaces y) (hs : ¬Starts spaces t)
    (he : ¬Ends spaces t) : trimSpace (x ++ t ++ y) = t :=
  code_spaces.trim_eq hx hy hs he

theorem not_starts_nil : ¬Starts spaces [] := by
  rintro ⟨w, hw, h⟩
  exact code_spaces.ne_nil w hw (List.prefix_nil.mp h)

theorem not_ends_nil : ¬Ends spaces [] := by
  rintro ⟨w, hw, h⟩
  exact code_spaces.ne_nil w hw (List.suffix_nil.mp h)

theorem trimSpace_eq_nil_iff : trimSpace s = [] ↔ Blank spaces s := by
  constructor
  · intro h
    obtain ⟨x, y, hx, hy, heq, -, -⟩ := trimSpace_spec s
    rw [heq, h, List.append_nil]
    exact hx.append hy
  · intro h
    have := trimSpace_eq h .nil not_starts_nil not_ends_nil
    rwa [List.append_nil, List.append_nil] at this

theorem SpaceFree.not_starts (h : SpaceFree s) : ¬Starts spaces s := by
  rintro ⟨w, hw, hpre⟩
  exact h w hw hpre.isInfix

theorem SpaceFree.not_ends (h : SpaceFree s) : ¬Ends spaces s := by
  rintro ⟨w, hw, hsuf⟩
  exact h w hw hsuf.isInfix

theorem SpaceFree.notMem (h : SpaceFree s) (ha : [a] ∈ spaces) : a ∉ s := by
  intro hmem
  obtain ⟨x, y, rfl⟩ := List.append_of_mem hmem
  exact h [a] ha ⟨x, y, by simp⟩

theorem byte_of_mem_spaces : ∀ w ∈ spaces, ∀ a ∈ w, a < 33 ∨ 128 ≤ a := by decide +kernel

theorem byte_of_mem_blank (h : Blank spaces s) (ha : a ∈ s) : a < 33 ∨ 128 ≤ a := by
  induction h with
  | nil => exact absurd ha List.not_mem_nil
  | cons hw _ ih =>
    obtain ha | ha := List.mem_append.mp ha
    · exact byte_of_mem_spaces _ hw a ha
    · exact ih ha

theorem not_starts_cons (ha : ¬(a < 33 ∨ 128 ≤ a)) (s : List UInt8) : ¬Starts spaces (a :: s) := by
  rintro ⟨w, hw, hpre⟩
  obtain ⟨b, w', rfl⟩ := List.exists_cons_of_ne_nil (code_spaces.ne_nil w hw)
  obtain ⟨rfl, -⟩ := List.cons_prefix_cons.mp hpre
  exact ha (byte_of_mem_spaces _ hw b List.mem_cons_self)

theorem spaceFree_of_visible (h : ∀ a ∈ s, ¬(a < 33 ∨ 128 ≤ a)) : SpaceFree s := by
  intro w hw hword
  obtain ⟨b, w', rfl⟩ := List.exists_cons_of_ne_nil (code_spaces.ne_nil w hw)
  exact h b (hword.subset List.mem_cons_self) (byte_of_mem_spaces _ hw b List.mem_cons_self)

end Space

end NirnProxy.Trimming
