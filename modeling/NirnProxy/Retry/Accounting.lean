import NirnProxy.Counting
import NirnProxy.Retry.Replay

/-! The budget that captured bodies share.  The lock of a body keeps its own calls apart, but not
those of other bodies, so a `Read` is cut where it goes to the budget. -/

universe u

namespace NirnProxy

open scoped Parties

inductive ReadPc
  | idle
  | reserve (data : List UInt8) (err : Option ReadError)
  | keep (data : List UInt8) (err : Option ReadError)

namespace CaptureBody

def readEnd (b : CaptureBody) (err : Option ReadError) : CaptureBody :=
  if err = some .eof ∨ 0 ≤ b.contentLength ∧ b.read = b.contentLength then
    { b with complete := true }
  else b

/-- `Read` up to its first call of `reserve`. -/
def readBegin (b : CaptureBody) (e : CaptureEnv) (data : List UInt8) (err : Option ReadError) :
    CaptureBody × CaptureEnv × ReadPc :=
  if data = [] then (b.readEnd err, e, .idle)
  else
    let b := { b with read := b.read + data.length }
    if b.overflow || b.sealed then (b.readEnd err, e, .idle)
    else if b.limit < b.read then
      let (b, e) := b.discardLocked e
      (b.readEnd err, e, .idle)
    else (b, e, .reserve data err)

def readReserve (b : CaptureBody) (e : CaptureEnv) (data : List UInt8) (err : Option ReadError) :
    CaptureBody × CaptureEnv × ReadPc :=
  match b.reserveLocked e with
  | none =>
    let (b, e) := b.discardLocked e
    (b.readEnd err, e, .idle)
  | some (b, e) => (b, e, .keep data err)

def readKeep (b : CaptureBody) (e : CaptureEnv) (o : FileOutcome) (data : List UInt8)
    (err : Option ReadError) : CaptureBody × CaptureEnv × ReadPc :=
  let (b, e) := b.keepLocked e o data
  (b.readEnd err, e, .idle)

def readRest (o : FileOutcome) : CaptureBody × CaptureEnv × ReadPc → CaptureBody × CaptureEnv
  | (b, e, .idle) => (b, e)
  | (b, e, .reserve data err) =>
    match b.readReserve e data err with
    | (b, e, .keep data err) => let (b, e, _) := b.readKeep e o data err; (b, e)
    | (b, e, _) => (b, e)
  | (b, e, .keep data err) => let (b, e, _) := b.readKeep e o data err; (b, e)

theorem readRest_readBegin (b : CaptureBody) (e : CaptureEnv) (o : FileOutcome)
    (data : List UInt8) (err : Option ReadError) :
    readRest o (b.readBegin e data err) = b.readLocked e o data err := by
  have hend : ∀ b : CaptureBody, ∀ e : CaptureEnv, (b.readEnd err, e) =
      if err = some .eof ∨ 0 ≤ b.contentLength ∧ b.read = b.contentLength then
        ({ b with complete := true }, e) else (b, e) := by
    intro b e
    unfold readEnd
    split <;> rfl
  unfold readBegin readLocked
  by_cases hd : data = []
  · simp only [hd, if_true, readRest]
    exact hend b e
  · simp only [hd, if_false]
    unfold captureLocked
    split
    · exact hend _ e
    · split
      · exact hend _ _
      · simp only [readRest, readReserve]
        cases hr : { b with read := b.read + data.length }.reserveLocked e with
        | none => exact hend _ _
        | some r => exact hend _ _

/-- What a call does to the budget and the files: what it takes from the budget it writes into
`reserved`, and of the files it touches its own and new ones. -/
structure Settles (b : CaptureBody) (e : CaptureEnv) (r : CaptureBody × CaptureEnv) : Prop where
  used : r.2.budget.used - r.1.reserved = e.budget.used - b.reserved
  capacity : r.2.budget.limit = e.budget.limit
  bound : e.budget.used ≤ e.budget.limit → r.2.budget.used ≤ r.2.budget.limit
  nonneg : 0 ≤ r.1.reserved
  limit : r.1.limit = b.limit
  nextFile : e.nextFile ≤ r.2.nextFile
  name : ∀ n, r.1.fileName = some n →
    b.fileName = some n ∨ e.nextFile ≤ n ∧ n < r.2.nextFile
  disk : ∀ n, n < e.nextFile → b.fileName ≠ some n → r.2.disk n = e.disk n

structure Gone (b : CaptureBody) : Prop where
  overflow : b.overflow = true
  reserved : b.reserved = 0
  buffer : b.buffer = []
  fileName : b.fileName = none

variable {b b' : CaptureBody} {e e' : CaptureEnv} {o : FileOutcome} {data bytes : List UInt8}
  {name : Nat} {ok : Bool}

theorem Settles.refl (h : 0 ≤ b.reserved) : b.Settles e (b, e) where
  used := rfl
  capacity := rfl
  bound := id
  nonneg := h
  limit := rfl
  nextFile := le_rfl
  name _ := .inl
  disk _ _ _ := rfl

theorem Settles.trans {r : CaptureBody × CaptureEnv} (h : b.Settles e (b', e'))
    (h' : b'.Settles e' r) : b.Settles e r where
  used := h'.used.trans h.used
  capacity := h'.capacity.trans h.capacity
  bound := h'.bound ∘ h.bound
  nonneg := h'.nonneg
  limit := h'.limit.trans h.limit
  nextFile := h.nextFile.trans h'.nextFile
  name n hn := by
    obtain hn | ⟨hl, hu⟩ := h'.name n hn
    · obtain hn | ⟨hl, hu⟩ := h.name n hn
      · exact .inl hn
      · exact .inr ⟨hl, hu.trans_le h'.nextFile⟩
    · exact .inr ⟨h.nextFile.trans hl, hu⟩
  disk n hn hb := by
    have hb' : b'.fileName ≠ some n := by
      intro e'
      obtain he | ⟨hl, -⟩ := h.name n e'
      · exact hb he
      · exact absurd hn (not_lt.mpr hl)
    exact (h'.disk n (hn.trans_le h.nextFile) hb').trans (h.disk n hn hb)

theorem releaseReservationLocked_eq (b : CaptureBody) (e : CaptureEnv) :
    b.releaseReservationLocked e =
      ({ b with reserved := 0 }, { e with budget := e.budget.release b.reserved }) := by
  unfold releaseReservationLocked
  split
  · rename_i hr
    rw [hr]
    exact congrArg (·, e) (hr ▸ rfl)
  · rfl

def removed (b : CaptureBody) (e : CaptureEnv) : CaptureEnv :=
  match b.fileName with
  | none => e
  | some name => e.remove name

theorem discardLocked_eq (b : CaptureBody) (e : CaptureEnv) :
    b.discardLocked e =
      ({ b with overflow := true, buffer := [], file := none, fileName := none, reserved := 0 },
        { b.removed e with budget := (b.removed e).budget.release b.reserved }) := by
  unfold discardLocked
  exact releaseReservationLocked_eq _ _

theorem removed_budget (b : CaptureBody) (e : CaptureEnv) :
    (b.removed e).budget = e.budget ∧ (b.removed e).nextFile = e.nextFile := by
  unfold removed
  split <;> exact ⟨rfl, rfl⟩

theorem removed_disk {n : Nat} (hn : b.fileName ≠ some n) : (b.removed e).disk n = e.disk n := by
  unfold removed
  split
  · rfl
  · rename_i m hm
    have hne : n ≠ m := fun e => hn (hm.trans (congrArg some e.symm))
    exact Function.update_of_ne hne _ _

theorem discardLocked_gone (b : CaptureBody) (e : CaptureEnv) : (b.discardLocked e).1.Gone := by
  rw [discardLocked_eq]
  exact ⟨rfl, rfl, rfl, rfl⟩

theorem discardLocked_settles (h : 0 ≤ b.reserved) : b.Settles e (b.discardLocked e) := by
  obtain ⟨hbudget, hnext⟩ := removed_budget b e
  have hused : (e.budget.release b.reserved).used = e.budget.used - b.reserved := by
    rw [ResourceBudget.release_used, max_eq_left h]
  rw [discardLocked_eq]
  exact {
    used := by simp [hbudget, hused]
    capacity := by simp [hbudget]
    bound := by
      intro hb
      simp only [hbudget, hused, ResourceBudget.release_limit]
      omega
    nonneg := le_rfl
    limit := rfl
    nextFile := hnext.ge
    name := nofun
    disk := fun n _ hn => removed_disk hn }

theorem reserveLocked_settles (h : 0 ≤ b.reserved) (hr : b.reserveLocked e = some (b', e')) :
    b.Settles e (b', e') ∧ b'.read ≤ b'.reserved ∧ b.reserved ≤ b'.reserved := by
  unfold reserveLocked at hr
  simp only at hr
  split at hr
  · obtain ⟨budget, hb, hr⟩ := Option.map_eq_some_iff.mp hr
    cases hr
    have hused := ResourceBudget.reserve_used hb
    refine ⟨⟨?_, ResourceBudget.reserve_limit hb, ResourceBudget.reserve_le hb, ?_, rfl, le_rfl,
      fun _ => .inl, fun _ _ _ => rfl⟩, ?_, ?_⟩ <;> simp only <;> omega
  · cases hr
    refine ⟨.refl h, ?_, le_rfl⟩
    omega

theorem write_settles {buffer : List UInt8} (h : 0 ≤ b.reserved) (hf : b.fileName = some name) :
    b.Settles e ({ b with buffer := buffer }, e.write name data) where
  used := rfl
  capacity := rfl
  bound := id
  nonneg := h
  limit := rfl
  nextFile := le_rfl
  name _ := .inl
  disk n _ hn := by
    have hne : n ≠ name := fun e => hn (hf.trans (congrArg some e.symm))
    simp [CaptureEnv.write, hne]

theorem writeLocked_settles (h : 0 ≤ b.reserved) (hf : b.fileName = some name) :
    b.Settles e (b.writeLocked e name ok data) := by
  unfold writeLocked
  split
  · exact write_settles h hf
  · exact discardLocked_settles h

theorem createTemp_settles (h : 0 ≤ b.reserved) :
    b.Settles e
      ({ b with file := some e.nextFile, fileName := some e.nextFile }, e.createTemp) where
  used := rfl
  capacity := rfl
  bound := id
  nonneg := h
  limit := rfl
  nextFile := Nat.le_succ _
  name n hn := by
    cases hn
    exact .inr ⟨le_rfl, Nat.lt_succ_self _⟩
  disk n hn _ := by
    have hne : n ≠ e.nextFile := hn.ne
    simp [CaptureEnv.createTemp, hne]

theorem spillLocked_settles (h : 0 ≤ b.reserved) : b.Settles e (b.spillLocked e o data) := by
  unfold spillLocked
  split
  · have hc := createTemp_settles (e := e) h
    simp only
    split
    · exact (hc.trans (write_settles h rfl)).trans (writeLocked_settles h rfl)
    · exact hc.trans (discardLocked_settles h)
  · exact discardLocked_settles h

theorem keepLocked_settles (h : 0 ≤ b.reserved) (hk : b.Kept e bytes) :
    b.Settles e (b.keepLocked e o data) := by
  unfold keepLocked
  split
  · split
    · exact ⟨rfl, rfl, id, h, rfl, le_rfl, fun _ => .inl, fun _ _ _ => rfl⟩
    · exact spillLocked_settles h
  · rename_i name hf
    simp only [Kept, hf] at hk
    exact writeLocked_settles h hk.2.1

def Outcome (b b' : CaptureBody) : Prop :=
  b'.Gone ∨ b'.overflow = b.overflow ∧ b'.reserved = b.reserved

theorem writeLocked_outcome : b.Outcome (b.writeLocked e name ok data).1 := by
  unfold writeLocked
  split
  · exact .inr ⟨rfl, rfl⟩
  · exact .inl (discardLocked_gone b e)

theorem keepLocked_outcome : b.Outcome (b.keepLocked e o data).1 := by
  unfold keepLocked spillLocked
  split
  · split
    · exact .inr ⟨rfl, rfl⟩
    · split
      · simp only
        split
        · exact writeLocked_outcome (b := { b with
            file := some e.nextFile, fileName := some e.nextFile, buffer := [] })
        · exact .inl (discardLocked_gone _ _)
      · exact .inl (discardLocked_gone b e)
  · exact writeLocked_outcome

def retained (b : CaptureBody) (e : CaptureEnv) : Nat :=
  b.buffer.length + match b.fileName with
    | none => 0
    | some name => ((e.disk name).getD []).length

theorem Kept.retained (h : b.Kept e bytes) : b.retained e = bytes.length := by
  unfold Kept at h
  unfold CaptureBody.retained
  split at h
  · obtain ⟨hb, hn⟩ := h
    simp [hb, hn]
  · obtain ⟨hb, hn, hd⟩ := h
    simp [hb, hn, hd]

theorem retained_congr (h : ∀ n, b.fileName = some n → e'.disk n = e.disk n) :
    b.retained e' = b.retained e := by
  unfold CaptureBody.retained
  split
  · rfl
  · rw [h _ ‹_›]

theorem Kept.congr (h : b.Kept e bytes) (hd : ∀ n, b.fileName = some n → e'.disk n = e.disk n) :
    b.Kept e' bytes := by
  unfold Kept at h ⊢
  split at h
  · exact h
  · obtain ⟨hb, hn, h⟩ := h
    exact ⟨hb, hn, (hd _ hn).trans h⟩

end CaptureBody

/-- The limits for captures; `New` refuses negative ones. -/
structure CaptureConfig where
  limit : Int
  capacity : Int
  limit_nonneg : 0 ≤ limit
  capacity_nonneg : 0 ≤ capacity

structure CaptureCell where
  replay : BodyReplay
  capture : CaptureBody
  pc : ReadPc

namespace CaptureCell

/-- The bytes kept for a retry, by the capture or, once it has handed them over, by the replay. -/
def retained (c : CaptureCell) (e : CaptureEnv) : Nat :=
  c.capture.retained e + c.replay.data.length

def Whole (c : CaptureCell) (e : CaptureEnv) (n : Int) : Prop :=
  c.replay.data = [] ∧ ∃ bytes, c.capture.Kept e bytes ∧ (bytes.length : Int) = n

def Fits (limit : Int) (e : CaptureEnv) (c : CaptureCell) : Prop :=
  match c.pc with
  | .idle => c.retained e ≤ c.capture.reserved ∧ c.retained e ≤ limit ∧
      (c.capture.sealed = true ∨ c.Whole e c.capture.read)
  | .reserve data _ => c.capture.sealed = false ∧ c.Whole e (c.capture.read - data.length) ∧
      c.capture.read ≤ limit ∧ c.capture.read - data.length ≤ c.capture.reserved
  | .keep data _ => c.capture.sealed = false ∧ c.Whole e (c.capture.read - data.length) ∧
      c.capture.read ≤ limit ∧ c.capture.read ≤ c.capture.reserved

structure Ok (limit : Int) (e : CaptureEnv) (c : CaptureCell) : Prop where
  capped : c.capture.limit = limit
  nonneg : 0 ≤ c.capture.reserved
  gone : c.capture.overflow = true → c.capture.Gone ∧ c.pc = .idle
  fits : c.capture.overflow = false → c.Fits limit e

variable {c : CaptureCell} {e e' : CaptureEnv} {limit n : Int}

theorem Whole.retained (h : c.Whole e n) : (c.retained e : Int) = n := by
  obtain ⟨hd, bytes, hk, hn⟩ := h
  simp [CaptureCell.retained, hd, hk.retained, hn]

theorem Fits.retained_le (h : c.Fits limit e) :
    c.retained e ≤ c.capture.reserved ∧ c.retained e ≤ limit := by
  unfold Fits at h
  split at h
  · exact ⟨h.1, h.2.1⟩
  · obtain ⟨-, hw, hl, hr⟩ := h
    have := hw.retained
    omega
  · obtain ⟨-, hw, hl, hr⟩ := h
    have := hw.retained
    omega

theorem Fits.congr (h : c.Fits limit e)
    (hd : ∀ n, c.capture.fileName = some n → e'.disk n = e.disk n) : c.Fits limit e' := by
  have hr : c.retained e' = c.retained e := by
    rw [CaptureCell.retained, CaptureBody.retained_congr hd, CaptureCell.retained]
  have hw : ∀ n, c.Whole e n → c.Whole e' n := by
    rintro n ⟨hdata, bytes, hk, hn⟩
    exact ⟨hdata, bytes, hk.congr hd, hn⟩
  unfold Fits at h ⊢
  split at h
  · rw [hr]
    exact ⟨h.1, h.2.1, h.2.2.imp_right (hw _)⟩
  · exact ⟨h.1, hw _ h.2.1, h.2.2⟩
  · exact ⟨h.1, hw _ h.2.1, h.2.2⟩

theorem Ok.congr (h : c.Ok limit e)
    (hd : ∀ n, c.capture.fileName = some n → e'.disk n = e.disk n) : c.Ok limit e' :=
  ⟨h.capped, h.nonneg, h.gone, fun ho => (h.fits ho).congr hd⟩

def Steps (limit : Int) (c : CaptureCell) (e : CaptureEnv) (c' : CaptureCell) (e' : CaptureEnv) :
    Prop :=
  c.capture.Settles e (c'.capture, e') ∧ c'.Ok limit e'

variable {b : CaptureBody} {r : BodyReplay} {data : List UInt8} {err : Option ReadError}
  {o : FileOutcome}

theorem ok_of_gone (hb : b.limit = limit) (hg : b.Gone) : Ok limit e ⟨r, b, .idle⟩ where
  capped := hb
  nonneg := hg.reserved.ge
  gone _ := ⟨hg, rfl⟩
  fits ho := by
    rw [hg.overflow] at ho
    cases ho

theorem Steps.readEnd (h : c.Steps limit e ⟨r, b, .idle⟩ e') :
    c.Steps limit e ⟨r, b.readEnd err, .idle⟩ e' := by
  unfold CaptureBody.readEnd
  split
  · obtain ⟨hs, hok⟩ := h
    refine ⟨⟨hs.1, hs.2, hs.3, hs.4, hs.5, hs.6, hs.7, hs.8⟩, hok.capped, hok.nonneg, fun ho => ?_,
      hok.fits⟩
    obtain ⟨hg, hp⟩ := hok.gone ho
    exact ⟨⟨hg.1, hg.2, hg.3, hg.4⟩, hp⟩
  · exact h

theorem Ok.discard {r' : BodyReplay} {pc : ReadPc} (h : Ok limit e ⟨r, b, pc⟩) :
    Steps limit ⟨r, b, pc⟩ e ⟨r', (b.discardLocked e).1, .idle⟩ (b.discardLocked e).2 :=
  ⟨CaptureBody.discardLocked_settles h.nonneg,
    ok_of_gone ((CaptureBody.discardLocked_same _ _).limit.trans h.capped)
      (CaptureBody.discardLocked_gone _ _)⟩

theorem Ok.readBegin (h : Ok limit e ⟨r, b, .idle⟩) :
    Steps limit ⟨r, b, .idle⟩ e
      ⟨r, (b.readBegin e data err).1, (b.readBegin e data err).2.2⟩
      (b.readBegin e data err).2.1 := by
  unfold CaptureBody.readBegin
  split
  · exact Steps.readEnd ⟨.refl h.nonneg, h⟩
  · have hread : b.Settles e ({ b with read := b.read + data.length }, e) :=
      ⟨rfl, rfl, id, h.nonneg, rfl, le_rfl, fun _ => .inl, fun _ _ _ => rfl⟩
    simp only
    split
    · rename_i hstop
      refine Steps.readEnd ⟨hread, h.capped, h.nonneg, fun ho => ?_, fun ho => ?_⟩
      · obtain ⟨hg, -⟩ := h.gone ho
        exact ⟨⟨hg.1, hg.2, hg.3, hg.4⟩, rfl⟩
      · obtain ⟨hr, hl⟩ := (h.fits ho).retained_le
        exact ⟨hr, hl, .inl ((Bool.or_eq_true_iff.mp hstop).resolve_left (by simpa using ho))⟩
    · split
      · exact Steps.readEnd ⟨hread.trans (CaptureBody.discardLocked_settles h.nonneg),
          ok_of_gone ((CaptureBody.discardLocked_same _ _).limit.trans h.capped)
            (CaptureBody.discardLocked_gone _ _)⟩
      · rename_i hgo hover
        obtain ⟨hno, hse⟩ := Bool.or_eq_false_iff.mp (Bool.eq_false_iff.mpr hgo)
        refine ⟨hread, h.capped, h.nonneg, fun ho => ?_, fun ho => ?_⟩
        · rw [hno] at ho
          cases ho
        · obtain ⟨hr, hl, hw⟩ := h.fits hno
          obtain ⟨hd, bytes, hk, hn⟩ := hw.resolve_left (by simpa using hse)
          have hlen := Whole.retained (c := ⟨r, b, .idle⟩) ⟨hd, bytes, hk, hn⟩
          have hcap : b.limit = limit := h.capped
          simp only at hn hr hover hlen
          refine ⟨hse, ⟨hd, bytes, hk, ?_⟩, ?_, ?_⟩ <;> simp only <;> omega

theorem Ok.readReserve (h : Ok limit e ⟨r, b, .reserve data err⟩) :
    Steps limit ⟨r, b, .reserve data err⟩ e
      ⟨r, (b.readReserve e data err).1, (b.readReserve e data err).2.2⟩
      (b.readReserve e data err).2.1 := by
  unfold CaptureBody.readReserve
  split
  · exact h.discard.readEnd
  · rename_i b' e' hr
    obtain ⟨hs, hread, -⟩ := CaptureBody.reserveLocked_settles h.nonneg hr
    obtain ⟨hsame, ho, hk⟩ := CaptureBody.reserveLocked_same hr
    refine ⟨hs, hs.limit.trans h.capped, hs.nonneg, fun hlost => ?_, fun hkept => ?_⟩
    · obtain ⟨-, hp⟩ := h.gone (ho.symm.trans hlost)
      cases hp
    · obtain ⟨hse, ⟨hd, bytes, hb, hn⟩, hl, -⟩ := h.fits (ho.symm.trans hkept)
      refine ⟨hsame.sealed.trans hse, ⟨hd, bytes, hk bytes hb, ?_⟩, ?_, hread⟩
      · exact hn.trans (congrArg (· - (data.length : Int)) hsame.read.symm)
      · exact hsame.read.le.trans hl

theorem Ok.readKeep (h : Ok limit e ⟨r, b, .keep data err⟩) :
    Steps limit ⟨r, b, .keep data err⟩ e
      ⟨r, (b.readKeep e o data err).1, (b.readKeep e o data err).2.2⟩
      (b.readKeep e o data err).2.1 := by
  have hno : b.overflow = false := by
    by_contra ho
    obtain ⟨-, hp⟩ := h.gone (by simpa using ho)
    cases hp
  obtain ⟨hse, ⟨hd, bytes, hk, hn⟩, hl, hres⟩ := h.fits hno
  have hs : b.Settles e (b.keepLocked e o data) := CaptureBody.keepLocked_settles h.nonneg hk
  have hsame : b.Same (b.keepLocked e o data).1 := CaptureBody.keepLocked_same
  have hout : b.Outcome (b.keepLocked e o data).1 := CaptureBody.keepLocked_outcome
  have ht : CaptureBody.Takes bytes data (b.keepLocked e o data) :=
    CaptureBody.keepLocked_takes hno hk
  unfold CaptureBody.readKeep
  generalize b.keepLocked e o data = kept at hs hsame hout ht
  obtain ⟨b', e'⟩ := kept
  refine Steps.readEnd ⟨hs, ?_⟩
  obtain hg | ⟨ho, hr⟩ := hout
  · exact ok_of_gone (hs.limit.trans h.capped) hg
  · refine ⟨hs.limit.trans h.capped, hs.nonneg, fun hlost => ?_, fun _ => ?_⟩
    · rw [ho.trans hno] at hlost
      cases hlost
    · obtain ht | ⟨-, ht⟩ := ht
      · rw [ho.trans hno] at ht
        cases ht
      · have hw : Whole ⟨r, b', .idle⟩ e' b.read := by
          refine ⟨hd, _, ht, ?_⟩
          simp only at hn
          simp only [List.length_append]
          push_cast
          omega
        exact ⟨hw.retained.le.trans (hres.trans hr.ge), hw.retained.le.trans hl,
          .inr (hsame.read.symm ▸ hw)⟩

theorem prepareRetry_keeps (r : BodyReplay) (b : CaptureBody) (closeOk : Bool) :
    (r.prepareRetry b closeOk).2.1.reserved = b.reserved ∧
    (r.prepareRetry b closeOk).2.1.limit = b.limit ∧
    (r.prepareRetry b closeOk).2.1.fileName = b.fileName ∧
    (r.prepareRetry b closeOk).2.1.overflow = b.overflow ∧
    ((r.prepareRetry b closeOk).2.1 = b ∧ (r.prepareRetry b closeOk).1.data = r.data ∨
      (r.prepareRetry b closeOk).2.1.sealed = true ∧ b.overflow = false ∧
        (r.prepareRetry b closeOk).2.1.buffer.length + (r.prepareRetry b closeOk).1.data.length ≤
          b.buffer.length + r.data.length) := by
  unfold BodyReplay.prepareRetry CaptureBody.replay
  split
  · exact ⟨rfl, rfl, rfl, rfl, .inl ⟨rfl, rfl⟩⟩
  · split
    · exact ⟨rfl, rfl, rfl, rfl, .inl ⟨rfl, rfl⟩⟩
    · cases hc : b.complete <;> cases ho : b.overflow <;> cases hf : b.file <;> cases closeOk <;>
        simp [ho]

theorem Ok.prepareRetry (closeOk : Bool) (h : Ok limit e ⟨r, b, .idle⟩) :
    Steps limit ⟨r, b, .idle⟩ e
      ⟨(r.prepareRetry b closeOk).1, (r.prepareRetry b closeOk).2.1, .idle⟩ e := by
  obtain ⟨hres, hlim, hname, hover, hkeeps⟩ := prepareRetry_keeps r b closeOk
  generalize r.prepareRetry b closeOk = x at *
  obtain ⟨r', b', report⟩ := x
  simp only at hres hlim hname hover hkeeps
  have hs : b.Settles e (b', e) := by
    refine ⟨by simp [hres], rfl, id, hres ▸ h.nonneg, hlim, le_rfl, fun n hn => ?_,
      fun _ _ _ => rfl⟩
    exact .inl (hname.symm.trans hn)
  refine ⟨hs, hlim.trans h.capped, hs.nonneg, ?_, ?_⟩
  · obtain ⟨rfl, hdata⟩ | ⟨hse, hno, hlen⟩ := hkeeps
    · exact h.gone
    · intro ho
      rw [hover.trans hno] at ho
      cases ho
  · intro ho
    obtain ⟨hr, hl, hw⟩ := h.fits (hover.symm.trans ho)
    obtain ⟨rfl, hdata⟩ | ⟨hse, hno, hlen⟩ := hkeeps
    · have hret : retained ⟨r', b', .idle⟩ e = retained ⟨r, b', .idle⟩ e := by
        simp [CaptureCell.retained, hdata]
      refine ⟨hret ▸ hr, hret ▸ hl, hw.imp_right ?_⟩
      rintro ⟨hd, hkept⟩
      exact ⟨hdata.trans hd, hkept⟩
    · have hret : retained ⟨r', b', .idle⟩ e ≤ retained ⟨r, b, .idle⟩ e := by
        simp only [CaptureCell.retained, CaptureBody.retained, hname]
        omega
      have hret' : (retained ⟨r', b', .idle⟩ e : Int) ≤ retained ⟨r, b, .idle⟩ e := by
        exact_mod_cast hret
      exact ⟨hret'.trans (hr.trans hres.ge), hret'.trans hl, .inl hse⟩

theorem ok_newBodyReplay {request : BodyRequest} {budget : ResourceBudget} (h0 : 0 ≤ limit)
    (h : BodyReplay.newBodyReplay request limit e.budget = some (r, b, budget)) :
    (BodyReplay.newCapture request limit).Settles e (b, { e with budget := budget }) ∧
      Ok limit { e with budget := budget } ⟨r, b, .idle⟩ := by
  have hempty : ∀ {r : BodyReplay} {n : Int} {e : CaptureEnv}, 0 ≤ n → r.data = [] →
      Ok limit e ⟨r, { BodyReplay.newCapture request limit with reserved := n }, .idle⟩ := by
    intro r n e hn hr
    refine ⟨rfl, hn, nofun, fun _ => ?_⟩
    have hw : Whole ⟨r, { BodyReplay.newCapture request limit with reserved := n }, .idle⟩ e 0 :=
      ⟨hr, [], ⟨rfl, rfl⟩, rfl⟩
    exact ⟨hw.retained.le.trans hn, hw.retained.le.trans h0, .inr hw⟩
  have hlost : ∀ {r : BodyReplay} {e : CaptureEnv},
      Ok limit e ⟨r, { BodyReplay.newCapture request limit with overflow := true }, .idle⟩ :=
    fun {_ _} => ok_of_gone rfl ⟨rfl, rfl, rfl, rfl⟩
  unfold BodyReplay.newBodyReplay at h
  simp only at h
  split at h
  · cases h
    exact ⟨.refl le_rfl, hempty le_rfl rfl⟩
  split at h
  · cases h
    exact ⟨.refl le_rfl, hempty le_rfl rfl⟩
  split at h
  · cases h
    exact ⟨⟨rfl, rfl, id, le_rfl, rfl, le_rfl, nofun, fun _ _ _ => rfl⟩, hlost⟩
  split at h
  · cases h
    exact ⟨⟨rfl, rfl, id, le_rfl, rfl, le_rfl, nofun, fun _ _ _ => rfl⟩, hlost⟩
  split at h
  · rename_i hpos
    obtain ⟨budget, hb, h⟩ := Option.map_eq_some_iff.mp h
    cases h
    have hused := ResourceBudget.reserve_used hb
    refine ⟨⟨?_, ResourceBudget.reserve_limit hb, ResourceBudget.reserve_le hb, hpos.le, rfl,
      le_rfl, nofun, fun _ _ _ => rfl⟩, hempty hpos.le rfl⟩
    simp only [BodyReplay.newCapture]
    omega
  · cases h
    exact ⟨.refl le_rfl, hempty le_rfl rfl⟩

end CaptureCell

structure CaptureRun (π : Type u) where
  env : CaptureEnv
  cell : π → Option CaptureCell

/-- `read` has what the underlying `Read` returned; `reserve` and `keep` are its later pieces. -/
inductive CaptureAction (π : Type u)
  | newBodyReplay (p : π) (request : BodyRequest)
  | read (p : π) (data : List UInt8) (err : Option ReadError)
  | reserve (p : π)
  | keep (p : π) (o : FileOutcome)
  | prepareRetry (p : π) (closeOk : Bool)
  | close (p : π)

namespace CaptureRun

variable {π : Type u}

def start (cfg : CaptureConfig) : CaptureRun π where
  env := ⟨.newResourceBudget cfg.capacity, fun _ => none, 0⟩
  cell := fun _ => none

def reserved (s : CaptureRun π) (p : π) : Int :=
  match s.cell p with
  | some c => c.capture.reserved
  | none => 0

def fileName (s : CaptureRun π) (p : π) : Option Nat :=
  (s.cell p).bind fun c => c.capture.fileName

def retained (s : CaptureRun π) (p : π) : Nat :=
  match s.cell p with
  | some c => if c.capture.overflow then 0 else c.retained s.env
  | none => 0

def Discarded (s : CaptureRun π) (p : π) : Prop :=
  ∃ c, s.cell p = some c ∧ c.capture.overflow = true

variable [DecidableEq π]

def put (s : CaptureRun π) (p : π) (e : CaptureEnv) (c : CaptureCell) : CaptureRun π where
  env := e
  cell := Function.update s.cell p (some c)

def step (cfg : CaptureConfig) (s : CaptureRun π) : CaptureAction π → Option (CaptureRun π)
  | .newBodyReplay p request =>
    match s.cell p, BodyReplay.newBodyReplay request cfg.limit s.env.budget with
    | none, some (replay, capture, budget) =>
      some (s.put p { s.env with budget := budget } ⟨replay, capture, .idle⟩)
    | none, none => some s
    | some _, _ => none
  | .read p data err =>
    match s.cell p with
    | some ⟨replay, capture, .idle⟩ =>
      if replay.kind = .capture then
        let (capture, env, pc) := capture.readBegin s.env data err
        some (s.put p env ⟨replay, capture, pc⟩)
      else none
    | _ => none
  | .reserve p =>
    match s.cell p with
    | some ⟨replay, capture, .reserve data err⟩ =>
      let (capture, env, pc) := capture.readReserve s.env data err
      some (s.put p env ⟨replay, capture, pc⟩)
    | _ => none
  | .keep p o =>
    match s.cell p with
    | some ⟨replay, capture, .keep data err⟩ =>
      let (capture, env, pc) := capture.readKeep s.env o data err
      some (s.put p env ⟨replay, capture, pc⟩)
    | _ => none
  | .prepareRetry p closeOk =>
    match s.cell p with
    | some ⟨replay, capture, .idle⟩ =>
      let (replay, capture, _) := replay.prepareRetry capture closeOk
      some (s.put p s.env ⟨replay, capture, .idle⟩)
    | _ => none
  | .close p =>
    match s.cell p with
    | some ⟨replay, capture, .idle⟩ =>
      if replay.kind = .capture then
        let (capture, env) := capture.cleanup s.env
        some (s.put p env ⟨{ replay with fileName := none }, capture, .idle⟩)
      else some s
    | _ => none

def system (π : Type u) [DecidableEq π] (cfg : CaptureConfig) :
    System (CaptureRun π) (CaptureAction π) where
  init s := s = start cfg
  step := step cfg

inductive Moves (cfg : CaptureConfig) (s : CaptureRun π) :
    CaptureAction π → CaptureRun π → Prop
  | create {p request r b budget} : s.cell p = none →
    BodyReplay.newBodyReplay request cfg.limit s.env.budget = some (r, b, budget) →
    Moves cfg s (.newBodyReplay p request) (s.put p { s.env with budget := budget } ⟨r, b, .idle⟩)
  | refuse {p request} : s.cell p = none → Moves cfg s (.newBodyReplay p request) s
  | read {p data err r b} : s.cell p = some ⟨r, b, .idle⟩ → r.kind = .capture →
    Moves cfg s (.read p data err) (s.put p (b.readBegin s.env data err).2.1
      ⟨r, (b.readBegin s.env data err).1, (b.readBegin s.env data err).2.2⟩)
  | reserve {p data err r b} : s.cell p = some ⟨r, b, .reserve data err⟩ →
    Moves cfg s (.reserve p) (s.put p (b.readReserve s.env data err).2.1
      ⟨r, (b.readReserve s.env data err).1, (b.readReserve s.env data err).2.2⟩)
  | keep {p o data err r b} : s.cell p = some ⟨r, b, .keep data err⟩ →
    Moves cfg s (.keep p o) (s.put p (b.readKeep s.env o data err).2.1
      ⟨r, (b.readKeep s.env o data err).1, (b.readKeep s.env o data err).2.2⟩)
  | prepareRetry {p closeOk r b} : s.cell p = some ⟨r, b, .idle⟩ →
    Moves cfg s (.prepareRetry p closeOk)
      (s.put p s.env ⟨(r.prepareRetry b closeOk).1, (r.prepareRetry b closeOk).2.1, .idle⟩)
  | close {p r b} : s.cell p = some ⟨r, b, .idle⟩ → r.kind = .capture →
    Moves cfg s (.close p) (s.put p (b.cleanup s.env).2
      ⟨{ r with fileName := none }, (b.cleanup s.env).1, .idle⟩)
  | skip {p r b} : s.cell p = some ⟨r, b, .idle⟩ → r.kind ≠ .capture → Moves cfg s (.close p) s

structure Inv (cfg : CaptureConfig) (s : CaptureRun π) : Prop where
  capacity : s.env.budget.limit = cfg.capacity
  bound : s.env.budget.used ≤ s.env.budget.limit
  sums : Sums s.reserved s.env.budget.used
  cells : ∀ p c, s.cell p = some c → c.Ok cfg.limit s.env
  named : ∀ p n, s.fileName p = some n → n < s.env.nextFile
  apart : ∀ p q n, s.fileName p = some n → s.fileName q = some n → p = q

variable {cfg : CaptureConfig} {s t : CaptureRun π} {p q : π} {c c' : CaptureCell}
  {e : CaptureEnv} {b : CaptureBody}

theorem step_moves {a : CaptureAction π} (hs : s.step cfg a = some t) : Moves cfg s a t := by
  cases a with
  | newBodyReplay p request =>
    simp only [CaptureRun.step] at hs
    split at hs <;> cases hs
    · exact .create ‹_› ‹_›
    · exact .refuse ‹_›
  | read p data err =>
    simp only [CaptureRun.step] at hs
    split at hs
    · obtain ⟨hkind, hs⟩ := Option.ite_none_right_eq_some.mp hs
      cases hs
      exact .read ‹_› hkind
    · cases hs
  | reserve p =>
    simp only [CaptureRun.step] at hs
    split at hs <;> cases hs
    exact .reserve ‹_›
  | keep p o =>
    simp only [CaptureRun.step] at hs
    split at hs <;> cases hs
    exact .keep ‹_›
  | prepareRetry p closeOk =>
    simp only [CaptureRun.step] at hs
    split at hs <;> cases hs
    exact .prepareRetry ‹_›
  | close p =>
    simp only [CaptureRun.step] at hs
    split at hs
    · split at hs <;> cases hs
      · exact .close ‹_› ‹_›
      · exact .skip ‹_› ‹_›
    · cases hs

omit [DecidableEq π] in
theorem reserved_of_cell (h : s.cell p = some c) : s.reserved p = c.capture.reserved := by
  simp [reserved, h]

omit [DecidableEq π] in
theorem fileName_of_cell (h : s.cell p = some c) : s.fileName p = c.capture.fileName := by
  simp [fileName, h]

theorem fileName_put_ne (hq : q ≠ p) : (s.put p e c).fileName q = s.fileName q := by
  simp [fileName, put, hq]

@[simp] theorem fileName_put_self : (s.put p e c).fileName p = c.capture.fileName := by
  simp [fileName, put]

theorem reserved_put :
    (s.put p e c).reserved = Function.update s.reserved p c.capture.reserved := by
  funext q
  by_cases hq : q = p
  · subst hq
    simp [reserved, put]
  · simp [reserved, put, hq]

omit [DecidableEq π] in
theorem start_inv (cfg : CaptureConfig) : (start cfg : CaptureRun π).Inv cfg where
  capacity := rfl
  bound := cfg.capacity_nonneg
  sums := Sums.zero (π := π)
  cells p c hc := by cases hc
  named p n hn := by cases hn
  apart p q n hn := by cases hn

theorem Inv.put (h : s.Inv cfg) (hr : s.reserved p = b.reserved) (hn : s.fileName p = b.fileName)
    (hs : b.Settles s.env (c.capture, e)) (hok : c.Ok cfg.limit e) : (s.put p e c).Inv cfg where
  capacity := hs.capacity.trans h.capacity
  bound := hs.bound h.bound
  sums := by
    have hsums := h.sums.update p c.capture.reserved
    have hused := hs.used
    rw [hr] at hsums
    rw [reserved_put]
    have heq : s.env.budget.used - b.reserved + c.capture.reserved = e.budget.used := by
      simp only at hused
      omega
    exact heq ▸ hsums
  cells q d hd := by
    by_cases hq : q = p
    · subst hq
      simp only [CaptureRun.put, Function.update_self, Option.some.injEq] at hd
      exact hd ▸ hok
    · simp only [CaptureRun.put, Function.update_of_ne hq] at hd
      refine (h.cells q d hd).congr fun n hdn => ?_
      have hqn : s.fileName q = some n := (fileName_of_cell hd).trans hdn
      refine hs.disk n (h.named q n hqn) fun hbn => ?_
      exact hq (h.apart q p n hqn (hn.trans hbn))
  named q n hq := by
    by_cases hqp : q = p
    · subst hqp
      rw [fileName_put_self] at hq
      obtain hb | ⟨-, hlt⟩ := hs.name n hq
      · exact (h.named q n (hn.trans hb)).trans_le hs.nextFile
      · exact hlt
    · rw [fileName_put_ne hqp] at hq
      exact (h.named q n hq).trans_le hs.nextFile
  apart q q' n hq hq' := by
    -- a file of `p` is its old one or a new one, so nobody else has it
    have hother : ∀ x, x ≠ p → c.capture.fileName = some n → s.fileName x ≠ some n := by
      intro x hx hcn hxn
      obtain hb | ⟨hle, -⟩ := hs.name n hcn
      · exact hx (h.apart x p n hxn (hn.trans hb))
      · exact absurd (h.named x n hxn) (not_lt.mpr hle)
    by_cases hqp : q = p
    · by_cases hqp' : q' = p
      · rw [hqp, hqp']
      · subst hqp
        rw [fileName_put_self] at hq
        rw [fileName_put_ne hqp'] at hq'
        exact (hother q' hqp' hq hq').elim
    · rw [fileName_put_ne hqp] at hq
      by_cases hqp' : q' = p
      · subst hqp'
        rw [fileName_put_self] at hq'
        exact (hother q hqp hq' hq).elim
      · rw [fileName_put_ne hqp'] at hq'
        exact h.apart q q' n hq hq'

theorem Inv.steps (h : s.Inv cfg) (hc : s.cell p = some c)
    (hs : c.Steps cfg.limit s.env c' e) : (s.put p e c').Inv cfg :=
  h.put (reserved_of_cell hc) (fileName_of_cell hc) hs.1 hs.2

theorem Inv.step {a : CaptureAction π} (h : s.Inv cfg) (hs : s.step cfg a = some t) :
    t.Inv cfg := by
  cases step_moves hs with
  | create hc hnew =>
    obtain ⟨hset, hok⟩ := CaptureCell.ok_newBodyReplay cfg.limit_nonneg hnew
    exact h.put (by simp [reserved, hc, BodyReplay.newCapture])
      (by simp [fileName, hc, BodyReplay.newCapture]) hset hok
  | refuse => exact h
  | read hc => exact h.steps hc (h.cells _ _ hc).readBegin
  | reserve hc => exact h.steps hc (h.cells _ _ hc).readReserve
  | keep hc => exact h.steps hc (h.cells _ _ hc).readKeep
  | prepareRetry hc => exact h.steps hc ((h.cells _ _ hc).prepareRetry _)
  | close hc => exact h.steps hc (h.cells _ _ hc).discard
  | skip => exact h

theorem inv_of_reachable (h : (system π cfg).Reachable s) : s.Inv cfg := by
  refine h.invariant ?_ fun _ _ _ hi _ hs => Inv.step hi hs
  rintro _ rfl
  exact start_inv cfg

theorem readBegin_overflow {data : List UInt8} {err : Option ReadError} (h : b.overflow = true) :
    (b.readBegin e data err).1.overflow = true := by
  have hend : ∀ b : CaptureBody, (b.readEnd err).overflow = b.overflow := by
    intro b
    unfold CaptureBody.readEnd
    split <;> rfl
  unfold CaptureBody.readBegin
  split
  · exact (hend b).trans h
  · simp only [h, Bool.true_or, if_true]
    exact hend _

theorem Discarded.put (h : s.Discarded q) (hp : q = p → c.capture.overflow = true) :
    (s.put p e c).Discarded q := by
  by_cases hq : q = p
  · subst hq
    exact ⟨c, by simp [CaptureRun.put], hp rfl⟩
  · obtain ⟨d, hd, ho⟩ := h
    exact ⟨d, by simpa [CaptureRun.put, hq] using hd, ho⟩

theorem Discarded.steps (h : s.Discarded q) (hc : s.cell p = some c)
    (ho : c.capture.overflow = true → c'.capture.overflow = true) :
    (s.put p e c').Discarded q := by
  refine h.put ?_
  rintro rfl
  obtain ⟨d, hd, hdo⟩ := h
  rw [hc] at hd
  cases hd
  exact ho hdo

theorem Discarded.step {a : CaptureAction π} (hi : s.Inv cfg) (h : s.Discarded q)
    (hs : s.step cfg a = some t) : t.Discarded q := by
  -- a lost capture is in the middle of no `Read`
  have hidle : ∀ {p c}, s.cell p = some c → c.capture.overflow = true → c.pc = .idle :=
    fun hc ho => ((hi.cells _ _ hc).gone ho).2
  cases step_moves hs with
  | create hc =>
    refine h.put ?_
    rintro rfl
    obtain ⟨d, hd, -⟩ := h
    rw [hc] at hd
    cases hd
  | refuse => exact h
  | read hc => exact h.steps hc readBegin_overflow
  | reserve hc => exact h.steps hc fun ho => nomatch hidle hc ho
  | keep hc => exact h.steps hc fun ho => nomatch hidle hc ho
  | prepareRetry hc =>
    refine h.steps hc fun ho => ?_
    exact (CaptureCell.prepareRetry_keeps _ _ _).2.2.2.1.trans ho
  | close hc => exact h.steps hc fun _ => CaptureBody.discardLocked_overflow
  | skip => exact h

omit [DecidableEq π] in
theorem Inv.reserved_of_discarded (hi : s.Inv cfg) (h : s.Discarded p) : s.reserved p = 0 := by
  obtain ⟨c, hc, ho⟩ := h
  exact (reserved_of_cell hc).trans ((hi.cells p c hc).gone ho).1.reserved

omit [DecidableEq π] in
theorem Inv.reserved_nonneg (hi : s.Inv cfg) (p : π) : 0 ≤ s.reserved p := by
  unfold reserved
  split
  · exact (hi.cells p _ ‹_›).nonneg
  · exact le_rfl

omit [DecidableEq π] in
theorem Inv.retained_le (hi : s.Inv cfg) (p : π) : s.retained p ≤ s.reserved p := by
  unfold retained
  split
  · rename_i c hc
    rw [reserved_of_cell hc]
    split
    · exact (hi.cells p c hc).nonneg
    · exact ((hi.cells p c hc).fits (Bool.eq_false_iff.mpr ‹_›)).retained_le.1
  · exact hi.reserved_nonneg p

theorem discarded_of_close (hs : s.step cfg (.close p) = some t) (hc : t.cell p = some c)
    (hk : c.replay.kind = .capture) : t.Discarded p := by
  cases step_moves hs with
  | close => exact ⟨_, Function.update_self .., CaptureBody.discardLocked_overflow⟩
  | skip hcell hne =>
    rw [hcell] at hc
    cases hc
    exact (hne hk).elim

/-- The budget is the sum of what the captures have reserved and stays within its limits; what is
kept for a capture that is not lost is within its reservation and within the limit for one body,
so that all of them together stay within the budget; and a capture that was discarded or closed
reserves nothing, whatever is called on it afterwards. -/
theorem capture_accounting (cfg : CaptureConfig) (h : (system π cfg).Reachable s) :
    (Sums s.reserved s.env.budget.used ∧ 0 ≤ s.env.budget.used ∧
      s.env.budget.used ≤ cfg.capacity) ∧
    (∀ p c, s.cell p = some c → c.capture.overflow = false →
      c.retained s.env ≤ c.capture.reserved ∧ c.retained s.env ≤ cfg.limit) ∧
    (∀ F : Finset π, ∑ p ∈ F, (s.retained p : Int) ≤ cfg.capacity) ∧
    (∀ p t c, s.step cfg (.close p) = some t → t.cell p = some c → c.replay.kind = .capture →
      t.Discarded p) ∧
    (∀ p t, s.Discarded p → (system π cfg).Leads (fun _ _ => True) s t →
      t.Discarded p ∧ t.reserved p = 0) := by
  have hi := inv_of_reachable h
  have hbound : s.env.budget.used ≤ cfg.capacity := hi.capacity ▸ hi.bound
  refine ⟨⟨hi.sums, hi.sums.nonneg hi.reserved_nonneg, hbound⟩,
    fun p c hc ho => ((hi.cells p c hc).fits ho).retained_le, fun F => ?_,
    fun p t c hs hc hk => discarded_of_close hs hc hk, fun p t hd ht => ?_⟩
  · calc ∑ p ∈ F, (s.retained p : Int)
        ≤ ∑ p ∈ F, s.reserved p := Finset.sum_le_sum fun p _ => hi.retained_le p
      _ ≤ s.env.budget.used := hi.sums.sum_le hi.reserved_nonneg F
      _ ≤ cfg.capacity := hbound
  · have hlost : t.Discarded p :=
      ht.keeps (I := fun s => s.Discarded p) (fun _ => inv_of_reachable)
        (fun _ _ _ hi hd _ hs => hd.step hi hs) h hd
    exact ⟨hlost, (inv_of_reachable (ht.reach h)).reserved_of_discarded hlost⟩

def narrow : CaptureConfig := ⟨4, 5, by decide, by decide⟩

/-- Body 0 reserves three bytes and body 1 learns by and by that there is no room for it; body 0
is prepared for a retry. -/
def crowded : List (CaptureAction (Fin 2)) :=
  [.newBodyReplay 0 ⟨[1, 2, 3], true, false, 3⟩, .newBodyReplay 1 ⟨[4, 5, 6, 7], true, false, 0⟩,
    .read 1 [4, 5] none, .reserve 1, .read 0 [1, 2, 3] none, .keep 1 ⟨true, true, true⟩,
    .read 1 [6] none, .reserve 0, .reserve 1, .keep 0 ⟨true, true, true⟩, .prepareRetry 0 true]

theorem capture_accounting_crowded :
    ∃ s : CaptureRun (Fin 2), s.env.budget.used = 3 ∧ Sums s.reserved 3 ∧
      (s.retained 0 : Int) = 3 ∧ ∑ p : Fin 2, (s.retained p : Int) ≤ 5 ∧
      ∀ t, (system (Fin 2) narrow).Leads (fun _ _ => True) s t → t.reserved 1 = 0 := by
  have hrun : ((system (Fin 2) narrow).run (start narrow) crowded).map (fun s =>
      (s.env.budget.used, s.retained 0, (s.cell 1).map fun c => c.capture.overflow)) =
      some (3, 3, some true) := by
    decide +kernel
  obtain ⟨s, hs, he⟩ := Option.map_eq_some_iff.mp hrun
  simp only [Prod.mk.injEq] at he
  obtain ⟨hused, hretained, hover⟩ := he
  obtain ⟨c, hc, ho⟩ := Option.map_eq_some_iff.mp hover
  obtain ⟨⟨hsums, -, -⟩, -, htotal, -, hlost⟩ :=
    capture_accounting narrow (System.Reachable.run (.init rfl) hs)
  refine ⟨s, hused, hused ▸ hsums, by exact_mod_cast hretained, htotal Finset.univ, fun t ht => ?_⟩
  exact (hlost 1 t ⟨c, hc, ho⟩ ht).2

end CaptureRun

end NirnProxy
