import NirnProxy.Ledger

/-! A slot for one item.  A party that holds the ticket may make an item and install it or discard
it; retiring the slot takes the item out for good.  Each item made is disposed of once and each
ticket is given back once. -/

universe u

namespace NirnProxy

inductive Token
  | item (n : Nat)
  | ticket (n : Nat)
  deriving DecidableEq

def Token.number : Token → Nat
  | .item n | .ticket n => n

def Effect.token {ρ : Type u} : Effect ρ → ρ
  | .take r | .give r => r

inductive SlotStage (π : Type u)
  | free
  | making (p : π) (ticket : Nat) (item : Option Nat)
  | installed (item : Nat)
  | retired (item : Option Nat)

namespace SlotStage

variable {π : Type u}

def ticket : SlotStage π → Option Nat
  | .making _ d _ => some d
  | _ => none

def item : SlotStage π → Option Nat
  | .free => none
  | .making _ _ c => c
  | .installed m => some m
  | .retired c => c

def content : SlotStage π → Option Nat
  | .installed m => some m
  | _ => none

def retirement : SlotStage π → Option (Option Nat)
  | .retired c => some c
  | _ => none

def holds (g : SlotStage π) : Token → Bool
  | .item n => g.item = some n
  | .ticket n => g.ticket = some n

theorem holds_of_ne_item {g h : SlotStage π} {m : Nat} (ht : h.ticket = g.ticket)
    (hi : ∀ n, n ≠ m → (h.item = some n ↔ g.item = some n)) (x : Token) (hx : x ≠ .item m) :
    h.holds x = g.holds x := by
  cases x with
  | item n => exact decide_eq_decide.mpr (hi n fun hn => hx (congrArg _ hn))
  | ticket n => simp only [holds, ht]

theorem holds_of_ne_ticket {g h : SlotStage π} {d : Nat} (hi : h.item = g.item)
    (ht : ∀ n, n ≠ d → (h.ticket = some n ↔ g.ticket = some n)) (x : Token)
    (hx : x ≠ .ticket d) : h.holds x = g.holds x := by
  cases x with
  | item n => simp only [holds, hi]
  | ticket n => exact decide_eq_decide.mpr (ht n fun hn => hx (congrArg _ hn))

variable [DecidableEq π]

def hand (g : SlotStage π) (p : π) : Option (Nat × Option Nat) :=
  match g with
  | .making q d c => if p = q then some (d, c) else none
  | _ => none

theorem hand_eq_none {g : SlotStage π} (h : g.ticket = none) (p : π) : g.hand p = none := by
  cases g with
  | making q d c => cases h
  | _ => rfl

theorem eq_making {g : SlotStage π} {p : π} {d : Nat} {c : Option Nat}
    (h : g.hand p = some (d, c)) : g = .making p d c := by
  cases g with
  | making q e b =>
    obtain ⟨rfl, he⟩ := Option.ite_none_right_eq_some.mp h
    obtain ⟨rfl, rfl⟩ := Prod.mk.inj (Option.some.inj he)
    rfl
  | _ => cases h

@[simp] theorem hand_making_self (p : π) (d : Nat) (c : Option Nat) :
    (making p d c).hand p = some (d, c) := if_pos rfl

theorem hand_making_of_ne {p q : π} (h : q ≠ p) (d : Nat) (c : Option Nat) :
    (making p d c).hand q = none := if_neg h

end SlotStage

structure Slot (π : Type u) where
  stage : SlotStage π
  ledger : List (Effect Token)

namespace Slot

variable {π : Type u} {a b : Slot π}

/-- New tokens are numbered by the length of the ledger. -/
inductive Step : Slot π → Slot π → Prop
  | start (p log) :
    Step ⟨.free, log⟩ ⟨.making p log.length none, .take (.ticket log.length) :: log⟩
  | make (p d log) :
    Step ⟨.making p d none, log⟩
      ⟨.making p d (some log.length), .take (.item log.length) :: log⟩
  | discard (p d m log) :
    Step ⟨.making p d (some m), log⟩ ⟨.making p d none, .give (.item m) :: log⟩
  | abort (p d log) : Step ⟨.making p d none, log⟩ ⟨.free, .give (.ticket d) :: log⟩
  | install (p d m log) :
    Step ⟨.making p d (some m), log⟩ ⟨.installed m, .give (.ticket d) :: log⟩
  | retire (g log) : g.ticket = none → g.retirement = none →
    Step ⟨g, log⟩ ⟨.retired g.content, log⟩
  | dispose (m log) : Step ⟨.retired (some m), log⟩ ⟨.retired none, .give (.item m) :: log⟩

structure Inv (a : Slot π) : Prop where
  balanced : Balanced a.ledger a.stage.holds
  numbered : ∀ e ∈ a.ledger, e.token.number < a.ledger.length
  once : ∀ r, a.ledger.count (.take r) ≤ 1

theorem Inv.empty : Inv (⟨.free, []⟩ : Slot π) where
  balanced r := by cases r <;> rfl
  numbered := nofun
  once _ := Nat.zero_le 1

theorem Inv.taken (h : Inv a) {r : Token} (hr : a.stage.holds r = true) :
    .take r ∈ a.ledger := by
  have hb := h.balanced r
  rw [hr] at hb
  exact List.count_pos_iff.mp (by simp only [Bool.toNat_true] at hb; omega)

theorem Inv.fresh (h : Inv a) {e : Effect Token} (he : e.token.number = a.ledger.length) :
    e ∉ a.ledger :=
  fun hm => absurd (h.numbered e hm) (by omega)

theorem Inv.take (h : Inv a) {r : Token} {g : SlotStage π} (hr : r.number = a.ledger.length)
    (hg : g.holds r = true) (hne : ∀ x, x ≠ r → g.holds x = a.stage.holds x) :
    Inv ⟨g, .take r :: a.ledger⟩ where
  balanced := by
    have hheld : a.stage.holds r = false := by
      rw [← Bool.not_eq_true]
      exact fun hheld => h.fresh (e := .take r) hr (h.taken hheld)
    exact h.balanced.turn (.take hheld hg hne)
  numbered e he := by
    simp only [List.length_cons]
    obtain rfl | he := List.mem_cons.mp he
    · exact Nat.lt_succ_of_le (Nat.le_of_eq hr)
    · exact Nat.lt_succ_of_lt (h.numbered e he)
  once x := by
    rw [List.count_cons]
    split
    · rename_i hx
      obtain rfl : r = x := by simpa using hx
      have hzero := List.count_eq_zero_of_not_mem (h.fresh (e := .take r) hr)
      omega
    · exact h.once x

theorem Inv.give (h : Inv a) {r : Token} {g : SlotStage π} (hr : a.stage.holds r = true)
    (hg : g.holds r = false) (hne : ∀ x, x ≠ r → g.holds x = a.stage.holds x) :
    Inv ⟨g, .give r :: a.ledger⟩ where
  balanced := h.balanced.turn (.give hr hg hne)
  numbered e he := by
    simp only [List.length_cons]
    obtain rfl | he := List.mem_cons.mp he
    · exact Nat.lt_succ_of_lt (h.numbered (.take r) (h.taken hr))
    · exact Nat.lt_succ_of_lt (h.numbered e he)
  once x := by simpa using h.once x

theorem Inv.step (h : Inv a) (hs : Step a b) : Inv b := by
  cases hs with
  | start p log =>
    refine h.take rfl (decide_eq_true rfl) (SlotStage.holds_of_ne_ticket rfl fun n hn => ?_)
    simp [SlotStage.ticket, hn.symm]
  | make p d log =>
    refine h.take rfl (decide_eq_true rfl) (SlotStage.holds_of_ne_item rfl fun n hn => ?_)
    simp [SlotStage.item, hn.symm]
  | discard p d m log =>
    refine h.give (decide_eq_true rfl) rfl (SlotStage.holds_of_ne_item rfl fun n hn => ?_)
    simp [SlotStage.item, hn.symm]
  | abort p d log =>
    refine h.give (decide_eq_true rfl) rfl (SlotStage.holds_of_ne_ticket rfl fun n hn => ?_)
    simp [SlotStage.ticket, hn.symm]
  | install p d m log =>
    refine h.give (decide_eq_true rfl) rfl (SlotStage.holds_of_ne_ticket rfl fun n hn => ?_)
    simp [SlotStage.ticket, hn.symm]
  | retire g log ht hr =>
    have hsame : SlotStage.holds (.retired g.content : SlotStage π) = g.holds := by
      funext x
      cases g with
      | making q d c => cases ht
      | retired c => cases hr
      | _ => cases x <;> rfl
    exact ⟨hsame ▸ h.balanced, h.numbered, h.once⟩
  | dispose m log =>
    refine h.give (decide_eq_true rfl) rfl (SlotStage.holds_of_ne_item rfl fun n hn => ?_)
    simp [SlotStage.item, hn.symm]

/-- What has been taken and is not held any more has been given back exactly once. -/
theorem Inv.given (h : Inv a) {r : Token} (hr : .take r ∈ a.ledger)
    (hheld : a.stage.holds r = false) : a.ledger.count (.give r) = 1 := by
  have hb := h.balanced.settled hheld
  have hpos := List.count_pos_iff.mpr hr
  have hone := h.once r
  omega

theorem Inv.kept (h : Inv a) {r : Token} (hr : a.stage.holds r = true) :
    a.ledger.count (.give r) = 0 := by
  have hb := h.balanced r
  have hone := h.once r
  rw [hr, Bool.toNat_true] at hb
  omega

end Slot

end NirnProxy
