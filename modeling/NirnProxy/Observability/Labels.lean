import Mathlib.Data.Finset.Insert
import Mathlib.Data.Finset.Card
import NirnProxy.Routes.Path
import NirnProxy.Utf8

/-! The labels under which a request is counted: its method, and its bucket path with everything
taken out of it that could take many values.  `routeLabelLimiter` bounds what is left. -/

namespace NirnProxy

open Strings (ascii join)
open Utf8 (WellFormed replaceFrom toValidUTF8 validString)

def maxMetricsRouteLabels : Nat := 1024

def maxMetricsRouteLabelBytes : Nat := 512

def overflowMetricsRouteLabel : List UInt8 := ascii "/unknown"

def metricsPart (part : List UInt8) : List UInt8 :=
  if part = [] then []
  else if isNumericInput part then ascii "/!"
  else slash :: part

def metricsPathFromBucket (route : List UInt8) : List UInt8 :=
  let result := (route.splitOn slash).flatMap metricsPart
  if validString result then result else toValidUTF8 result (ascii "@")

def metricsMethods : List (List UInt8) :=
  ["GET", "HEAD", "POST", "PUT", "PATCH", "DELETE", "CONNECT", "OPTIONS", "TRACE"].map ascii

def metricsMethodLabel (method : List UInt8) : List UInt8 :=
  if method ∈ metricsMethods then method else ascii "OTHER"

structure RouteLabelLimiter where
  limit : Nat
  seen : Finset (List UInt8)

namespace RouteLabelLimiter

def newRouteLabelLimiter (limit : Nat) : RouteLabelLimiter := ⟨limit, {overflowMetricsRouteLabel}⟩

def label (l : RouteLabelLimiter) (route : List UInt8) : RouteLabelLimiter × List UInt8 :=
  if maxMetricsRouteLabelBytes < route.length then (l, overflowMetricsRouteLabel)
  else if route ∈ l.seen then (l, route)
  else if l.limit ≤ l.seen.card then (l, overflowMetricsRouteLabel)
  else ({ l with seen := insert route l.seen }, route)

structure Bounded (l : RouteLabelLimiter) : Prop where
  overflow : overflowMetricsRouteLabel ∈ l.seen
  card_le : l.seen.card ≤ max l.limit 1
  short : ∀ route ∈ l.seen, route.length ≤ maxMetricsRouteLabelBytes

theorem newRouteLabelLimiter_bounded (limit : Nat) : (newRouteLabelLimiter limit).Bounded where
  overflow := Finset.mem_singleton_self _
  card_le := by simp [newRouteLabelLimiter]
  short route h := by
    rw [Finset.mem_singleton.mp h]
    decide

variable {l : RouteLabelLimiter} {route : List UInt8}

theorem label_limit (l : RouteLabelLimiter) (route : List UInt8) :
    (l.label route).1.limit = l.limit := by
  unfold label
  split
  · rfl
  · split
    · rfl
    · split <;> rfl

theorem seen_subset_label (l : RouteLabelLimiter) (route : List UInt8) :
    l.seen ⊆ (l.label route).1.seen := by
  unfold label
  split
  · exact Finset.Subset.refl _
  · split
    · exact Finset.Subset.refl _
    · split
      · exact Finset.Subset.refl _
      · exact Finset.subset_insert _ _

theorem Bounded.label (h : l.Bounded) (route : List UInt8) :
    (l.label route).1.Bounded ∧ (l.label route).2 ∈ (l.label route).1.seen := by
  unfold RouteLabelLimiter.label
  split
  · exact ⟨h, h.overflow⟩
  · split
    · exact ⟨h, ‹_›⟩
    · split
      · exact ⟨h, h.overflow⟩
      · rename_i hlen hnew hroom
        refine ⟨⟨Finset.mem_insert_of_mem h.overflow, ?_, ?_⟩, Finset.mem_insert_self _ _⟩
        · simp only [Finset.card_insert_of_notMem hnew]
          omega
        · intro other ho
          obtain rfl | ho := Finset.mem_insert.mp ho
          · exact not_lt.mp hlen
          · exact h.short other ho

end RouteLabelLimiter

section Path

variable {part : List UInt8} {parts : List (List UInt8)}

def labelPart (part : List UInt8) : List UInt8 :=
  if isNumericInput part then ascii "!" else toValidUTF8 part (ascii "@")

theorem isNumericInput_of_single {c : UInt8} (hc : Text.isDigit c = false) (h : c ∈ part) :
    isNumericInput part = false := by
  simp only [isNumericInput, Bool.and_eq_false_iff, List.all_eq_false]
  exact .inr ⟨c, h, by simp [hc]⟩

structure LabelPart (part : List UInt8) : Prop where
  ne_nil : part ≠ []
  slash_notMem : slash ∉ part
  not_numeric : isNumericInput part = false
  wellFormed : WellFormed part

theorem labelPart_spec (hne : part ≠ []) (hslash : slash ∉ part) : LabelPart (labelPart part) := by
  unfold labelPart
  split
  · exact ⟨by decide, by decide, by decide, Utf8.wellFormed_of_single (by decide +kernel)⟩
  · rename_i hnum
    refine ⟨Utf8.toValidUTF8_ne_nil (by decide) hne, fun h => ?_, ?_, ?_⟩
    · obtain h | h := Utf8.mem_replaceFrom h
      · exact hslash h
      · exact absurd h (by decide)
    · by_cases hat : 64 ∈ toValidUTF8 part (ascii "@")
      · exact isNumericInput_of_single (by decide) hat
      · rw [show ascii "@" = [64] from rfl] at hat ⊢
        rw [Utf8.toValidUTF8_eq_self hat]
        exact Bool.not_eq_true _ ▸ hnum
    · exact Utf8.toValidUTF8_wellFormed (Utf8.wellFormed_of_single (by decide +kernel)) part

theorem LabelPart.labelPart_eq (h : LabelPart part) : labelPart part = part := by
  rw [labelPart, h.not_numeric, if_neg Bool.false_ne_true, h.wellFormed.toValidUTF8_eq]

theorem flatMap_metricsPart (parts : List (List UInt8)) :
    parts.flatMap metricsPart = [] ∨ ∃ t, parts.flatMap metricsPart = slash :: t := by
  induction parts with
  | nil => exact .inl rfl
  | cons part parts ih =>
    rw [List.flatMap_cons]
    unfold metricsPart
    split
    · exact ih
    · split
      · exact .inr ⟨_, rfl⟩
      · exact .inr ⟨_, rfl⟩

theorem toValidUTF8_slash {s t : List UInt8} (ht : t = [] ∨ ∃ u, t = slash :: u) :
    toValidUTF8 (s ++ t) (ascii "@") = toValidUTF8 s (ascii "@") ++ toValidUTF8 t (ascii "@") := by
  obtain rfl | ⟨u, rfl⟩ := ht
  · simp [toValidUTF8, replaceFrom]
  · have hu : toValidUTF8 (slash :: u) (ascii "@") = slash :: toValidUTF8 u (ascii "@") :=
      Utf8.replaceFrom_rune (.single (by decide)) u
    rw [hu]
    exact Utf8.replaceFrom_single (by decide) false s u

theorem toValidUTF8_metricsPart (part : List UInt8) :
    toValidUTF8 (metricsPart part) (ascii "@") =
      if part = [] then [] else slash :: labelPart part := by
  unfold metricsPart labelPart
  split
  · rfl
  · split
    · rfl
    · exact Utf8.replaceFrom_rune (.single (by decide)) part

theorem metricsPathFromBucket_eq (route : List UInt8) :
    metricsPathFromBucket route =
      (((route.splitOn slash).filter (· ≠ [])).map labelPart).flatMap (slash :: ·) := by
  have hvalid : metricsPathFromBucket route =
      toValidUTF8 ((route.splitOn slash).flatMap metricsPart) (ascii "@") := by
    unfold metricsPathFromBucket
    simp only
    split
    · exact ((Utf8.validString_iff.mp ‹_›).toValidUTF8_eq _).symm
    · rfl
  rw [hvalid]
  induction route.splitOn slash with
  | nil => rfl
  | cons part parts ih =>
    rw [List.flatMap_cons, toValidUTF8_slash (flatMap_metricsPart parts), ih,
      toValidUTF8_metricsPart]
    by_cases hpart : part = [] <;> simp [hpart]

theorem splitOn_flatMap (hne : parts ≠ []) (h : ∀ part ∈ parts, slash ∉ part) :
    (parts.flatMap (slash :: ·)).splitOn slash = [] :: parts := by
  have hjoin : parts.flatMap (slash :: ·) = join slash ([] :: parts) := by
    rw [Strings.join_cons [] hne, List.nil_append]
    induction parts with
    | nil => exact absurd rfl hne
    | cons part parts ih =>
      cases parts with
      | nil => simp
      | cons next parts =>
        rw [List.flatMap_cons, ih (List.cons_ne_nil _ _) fun p hp =>
          h p (List.mem_cons_of_mem _ hp), Strings.join_cons_cons]
        rfl
  rw [hjoin, Strings.splitOn_join (List.forall_mem_cons.mpr ⟨List.not_mem_nil, h⟩)
    (List.cons_ne_nil _ _)]

theorem metricsPathFromBucket_parts (h : ∀ part ∈ parts, LabelPart part) :
    metricsPathFromBucket (parts.flatMap (slash :: ·)) = parts.flatMap (slash :: ·) := by
  by_cases hne : parts = []
  · rw [hne]
    rfl
  · have hfilter : parts.filter (· ≠ []) = parts :=
      List.filter_eq_self.mpr fun part hp => decide_eq_true (h part hp).ne_nil
    have hmap : parts.map labelPart = parts :=
      List.map_congr_left (fun part hp => (h part hp).labelPart_eq) |>.trans (List.map_id _)
    rw [metricsPathFromBucket_eq, splitOn_flatMap hne fun part hp => (h part hp).slash_notMem,
      List.filter_cons_of_neg (by simp), hfilter, hmap]

theorem wellFormed_flatMap (h : ∀ part ∈ parts, LabelPart part) :
    WellFormed (parts.flatMap (slash :: ·)) := by
  induction parts with
  | nil => exact .nil
  | cons part parts ih =>
    obtain ⟨hpart, hparts⟩ := List.forall_mem_cons.mp h
    exact (Utf8.WellFormed.cons (.single (by decide)) hpart.wellFormed).append (ih hparts)

/-- The label of any path is UTF-8 text, has no empty and no numeric part, and is its own label. -/
theorem metrics_label_normal (route : List UInt8) :
    WellFormed (metricsPathFromBucket route) ∧
      (∃ parts : List (List UInt8), metricsPathFromBucket route = parts.flatMap (slash :: ·) ∧
        ∀ part ∈ parts, part ≠ [] ∧ slash ∉ part ∧ isNumericInput part = false) ∧
      metricsPathFromBucket (metricsPathFromBucket route) = metricsPathFromBucket route := by
  have hparts : ∀ part ∈ ((route.splitOn slash).filter (· ≠ [])).map labelPart, LabelPart part := by
    intro part hp
    obtain ⟨raw, hraw, rfl⟩ := List.mem_map.mp hp
    obtain ⟨hmem, hne⟩ := List.mem_filter.mp hraw
    exact labelPart_spec (of_decide_eq_true hne) (Strings.notMem_of_mem_splitOn hmem)
  rw [metricsPathFromBucket_eq]
  exact ⟨wellFormed_flatMap hparts, ⟨_, rfl, fun part hp =>
    ⟨(hparts part hp).ne_nil, (hparts part hp).slash_notMem, (hparts part hp).not_numeric⟩⟩,
    metricsPathFromBucket_parts hparts⟩

end Path

end NirnProxy
