import Mathlib.Data.Int.Notation
import Mathlib.Data.Option.Basic

/-! Contexts that end once, for the cause that comes first: a call, the context's own timer, or the
end of its parent, which reaches it later. -/

universe u

namespace NirnProxy

/-- `timer` is the cause for which the context's own timer ends it.  There is none where the parent
has a sooner deadline. -/
structure Context (ε : Type u) where
  deadline : Option Int
  timer : Option ε
  cause : Option ε
  deriving DecidableEq

namespace Context

variable {ε : Type u}

def background : Context ε := ⟨none, none, none⟩

def cancel (e : ε) (c : Context ε) : Context ε := { c with cause := c.cause <|> some e }

def withCancel (parent : Context ε) : Context ε := { parent with timer := none }

def withTimeoutCause (now timeout : Int) (e : ε) (parent : Context ε) : Context ε :=
  if parent.deadline.any (· < now + timeout) then parent.withCancel
  else ⟨some (now + timeout), some e, parent.cause <|> if timeout ≤ 0 then some e else none⟩

def inherit (parent c : Context ε) : Option (Context ε) := parent.cause.map c.cancel

def expire (now : Int) (c : Context ε) : Option (Context ε) :=
  match c.deadline, c.timer with
  | some deadline, some e => if deadline ≤ now then some (c.cancel e) else none
  | _, _ => none

def causeOr (e : ε) (c : Context ε) : ε := c.cause.getD e

variable {c c' parent : Context ε} {e x : ε} {now timeout : Int}

@[simp] theorem isSome_cause_cancel : (c.cancel e).cause.isSome = true := by
  unfold cancel
  cases c.cause <;> rfl

theorem isSome_cause_inherit (h : parent.inherit c = some c') : c'.cause.isSome = true := by
  obtain ⟨x, -, rfl⟩ := Option.map_eq_some_iff.mp h
  exact isSome_cause_cancel

theorem exists_inherit (h : parent.cause.isSome = true) : ∃ c', parent.inherit c = some c' := by
  obtain ⟨x, hx⟩ := Option.isSome_iff_exists.mp h
  exact ⟨c.cancel x, by rw [inherit, hx]; rfl⟩

theorem cause_cancel (h : (c.cancel e).cause = some x) : c.cause = some x ∨ x = e := by
  unfold cancel at h
  cases hc : c.cause with
  | none =>
    rw [hc] at h
    cases h
    exact .inr rfl
  | some y =>
    rw [hc] at h
    exact .inl h

theorem cause_causeOr (c : Context ε) (e : ε) : c.cause = some (c.causeOr e) ∨ c.causeOr e = e := by
  unfold causeOr
  cases c.cause with
  | none => exact .inr rfl
  | some y => exact .inl rfl

/-- The causes of a context and of its timer satisfy `J`, and those of its timer at its deadline. -/
structure Caused (J : ε → Prop) (K : Int → ε → Prop) (c : Context ε) : Prop where
  cause : ∀ x, c.cause = some x → J x
  timer : ∀ x, c.timer = some x → ∀ d, c.deadline = some d → K d x

variable {J J' : ε → Prop} {K : Int → ε → Prop}

theorem Caused.mono (h : c.Caused J K) (hJ : ∀ x, J x → J' x) : c.Caused J' K :=
  ⟨fun x hx => hJ x (h.cause x hx), h.timer⟩

theorem Caused.cancel (h : c.Caused J K) (he : J e) : (c.cancel e).Caused J K where
  cause x hx := by
    obtain hx | rfl := cause_cancel hx
    · exact h.cause x hx
    · exact he
  timer := h.timer

theorem Caused.withCancel (h : c.Caused J K) : c.withCancel.Caused J K :=
  ⟨h.cause, by simp [Context.withCancel]⟩

theorem deadline_withTimeoutCause (h : parent.deadline = none) :
    (parent.withTimeoutCause now timeout e).deadline = some (now + timeout) := by
  simp [Context.withTimeoutCause, h]

theorem Caused.withTimeoutCause {K₀ : Int → ε → Prop} (h : parent.Caused J K₀)
    (hJ : ∀ x, J x → J' x)
    (he : timeout ≤ 0 → (∀ d, parent.deadline = some d → now + timeout ≤ d) → J' e)
    (hK : (∀ d, parent.deadline = some d → now + timeout ≤ d) → K (now + timeout) e) :
    (parent.withTimeoutCause now timeout e).Caused J' K := by
  unfold Context.withTimeoutCause
  split
  · exact ⟨fun x hx => hJ x (h.cause x hx), by simp [Context.withCancel]⟩
  · rename_i hd
    have hlate : ∀ d, parent.deadline = some d → now + timeout ≤ d := by
      intro d hd'
      simp only [hd', Option.any_some, decide_eq_true_eq] at hd
      omega
    refine ⟨fun x hx => ?_, fun x hx d hd' => ?_⟩
    · cases hc : parent.cause with
      | some y =>
        simp only [hc] at hx
        cases hx
        exact hJ x (h.cause x hc)
      | none =>
        rw [hc] at hx
        obtain ⟨hle, hx⟩ := Option.ite_none_right_eq_some.mp hx
        cases hx
        exact he hle hlate
    · cases hx
      cases hd'
      exact hK hlate

theorem Caused.inherit (h : c.Caused J K) (hp : ∀ x, parent.cause = some x → J x)
    (hi : parent.inherit c = some c') : c'.Caused J K := by
  obtain ⟨x, hx, rfl⟩ := Option.map_eq_some_iff.mp hi
  exact h.cancel (hp x hx)

theorem deadline_inherit (hi : parent.inherit c = some c') : c'.deadline = c.deadline := by
  obtain ⟨x, -, rfl⟩ := Option.map_eq_some_iff.mp hi
  rfl

theorem expire_eq (hx : c.expire now = some c') : ∃ d e, d ≤ now ∧ c.deadline = some d ∧
    c.timer = some e ∧ c' = c.cancel e := by
  unfold Context.expire at hx
  split at hx
  · rename_i deadline e hd ht
    obtain ⟨hle, hx⟩ := Option.ite_none_right_eq_some.mp hx
    cases hx
    exact ⟨deadline, e, hle, hd, ht, rfl⟩
  · cases hx

theorem Caused.expire (h : c.Caused J K) (hK : ∀ d x, d ≤ now → K d x → J x)
    (hx : c.expire now = some c') : c'.Caused J K := by
  obtain ⟨d, e, hle, hd, ht, rfl⟩ := expire_eq hx
  exact h.cancel (hK d e hle (h.timer e ht d hd))

theorem deadline_expire (hx : c.expire now = some c') : c'.deadline = c.deadline := by
  obtain ⟨d, e, -, -, -, rfl⟩ := expire_eq hx
  rfl

end Context

end NirnProxy
