import Mathlib.Data.List.Nodup

/-! A value with a channel that is closed and replaced whenever the value changes: who has read both
together and finds the channel open knows the value.  Channels are numbered as they are made. -/

universe u

namespace NirnProxy

structure Signal (α : Type u) where
  value : α
  channel : Nat
  closes : List Nat

namespace Signal

variable {α : Type u}

/-- A new value: the channel is closed and another one is made. -/
def publish (v : α) (s : Signal α) : Signal α := ⟨v, s.channel + 1, s.channel :: s.closes⟩

def Tidy (s : Signal α) : Prop := s.closes = (List.range s.channel).reverse

def Captured (s : Signal α) (v : α) (c : Nat) : Prop :=
  c ≤ s.channel ∧ (c = s.channel → v = s.value)

variable {s : Signal α} {v w : α} {c : Nat}

theorem tidy_new (v : α) : (⟨v, 0, []⟩ : Signal α).Tidy := rfl

theorem Tidy.publish (h : s.Tidy) (v : α) : (s.publish v).Tidy := by
  unfold Tidy at *
  simp [Signal.publish, h, List.range_succ]

theorem Tidy.nodup (h : s.Tidy) : s.closes.Nodup := by
  rw [h, List.nodup_reverse]
  exact List.nodup_range

theorem Tidy.mem_closes (h : s.Tidy) : c ∈ s.closes ↔ c < s.channel := by
  rw [h, List.mem_reverse, List.mem_range]

theorem captured_current (s : Signal α) : s.Captured s.value s.channel :=
  ⟨Nat.le_refl _, fun _ => rfl⟩

theorem Captured.publish (h : s.Captured v c) (w : α) : (s.publish w).Captured v c :=
  ⟨Nat.le_succ_of_le h.1, fun e => absurd h.1 (by rw [e]; exact Nat.not_succ_le_self _)⟩

theorem Captured.value_eq (h : s.Captured v c) (ht : s.Tidy) (hopen : c ∉ s.closes) :
    v = s.value := by
  rw [ht.mem_closes, Nat.not_lt] at hopen
  exact h.2 (Nat.le_antisymm h.1 hopen)

end Signal

end NirnProxy
