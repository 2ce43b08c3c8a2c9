import Mathlib.Logic.Function.Basic
import NirnProxy.Client.Budget

/-! `captureBody`: a request body that remembers what the first attempt reads of it, in memory
and from a threshold on in a temporary file.  Files are numbered; a file operation that does not
fail does what it says. -/

namespace NirnProxy

def retryMemoryLimit : Int := 1048576

inductive ReadError
  | eof
  | other
  deriving DecidableEq

structure CaptureEnv where
  budget : ResourceBudget
  disk : Nat → Option (List UInt8)
  nextFile : Nat

/-- Which file operations of one call succeed. -/
structure FileOutcome where
  create : Bool
  writeBuffer : Bool
  writeData : Bool

structure CaptureBody where
  buffer : List UInt8
  file : Option Nat
  fileName : Option Nat
  limit : Int
  contentLength : Int
  read : Int
  complete : Bool
  overflow : Bool
  sealed : Bool
  reserved : Int

inductive ReplayResult
  | no
  | memory (data : List UInt8)
  | file (name : Nat)
  | failed

namespace CaptureEnv

def write (e : CaptureEnv) (name : Nat) (data : List UInt8) : CaptureEnv :=
  { e with disk := Function.update e.disk name (some ((e.disk name).getD [] ++ data)) }

def createTemp (e : CaptureEnv) : CaptureEnv :=
  { e with disk := Function.update e.disk e.nextFile (some []), nextFile := e.nextFile + 1 }

def remove (e : CaptureEnv) (name : Nat) : CaptureEnv :=
  { e with disk := Function.update e.disk name none }

end CaptureEnv

namespace CaptureBody

def releaseReservationLocked (b : CaptureBody) (e : CaptureEnv) : CaptureBody × CaptureEnv :=
  if b.reserved = 0 then (b, e)
  else ({ b with reserved := 0 }, { e with budget := e.budget.release b.reserved })

def discardLocked (b : CaptureBody) (e : CaptureEnv) : CaptureBody × CaptureEnv :=
  let e := match b.fileName with
    | none => e
    | some name => e.remove name
  { b with
    overflow := true, buffer := [], file := none, fileName := none }.releaseReservationLocked e

def reserveLocked (b : CaptureBody) (e : CaptureEnv) : Option (CaptureBody × CaptureEnv) :=
  let additional := b.read - b.reserved
  if 0 < additional then
    (e.budget.reserve additional).map fun budget =>
      ({ b with reserved := b.reserved + additional }, { e with budget := budget })
  else some (b, e)

def writeLocked (b : CaptureBody) (e : CaptureEnv) (name : Nat) (ok : Bool) (data : List UInt8) :
    CaptureBody × CaptureEnv :=
  if ok then (b, e.write name data) else b.discardLocked e

/-- The part of `captureLocked` that moves the buffer to a new file. -/
def spillLocked (b : CaptureBody) (e : CaptureEnv) (o : FileOutcome) (data : List UInt8) :
    CaptureBody × CaptureEnv :=
  if o.create then
    let name := e.nextFile
    let b := { b with file := some name, fileName := some name }
    let e := e.createTemp
    if o.writeBuffer then
      { b with buffer := [] }.writeLocked (e.write name b.buffer) name o.writeData data
    else b.discardLocked e
  else b.discardLocked e

def keepLocked (b : CaptureBody) (e : CaptureEnv) (o : FileOutcome) (data : List UInt8) :
    CaptureBody × CaptureEnv :=
  match b.file with
  | none =>
    if b.buffer.length + data.length ≤ min b.limit retryMemoryLimit then
      ({ b with buffer := b.buffer ++ data }, e)
    else b.spillLocked e o data
  | some name => b.writeLocked e name o.writeData data

def captureLocked (b : CaptureBody) (e : CaptureEnv) (o : FileOutcome) (data : List UInt8) :
    CaptureBody × CaptureEnv :=
  if b.overflow || b.sealed then (b, e)
  else if b.limit < b.read then b.discardLocked e
  else match b.reserveLocked e with
    | none => b.discardLocked e
    | some (b, e) => b.keepLocked e o data

/-- What `Read` does under the lock with what the underlying `Read` returned. -/
def readLocked (b : CaptureBody) (e : CaptureEnv) (o : FileOutcome) (data : List UInt8)
    (err : Option ReadError) : CaptureBody × CaptureEnv :=
  let (b, e) :=
    if data = [] then (b, e)
    else { b with read := b.read + data.length }.captureLocked e o data
  if err = some .eof ∨ 0 ≤ b.contentLength ∧ b.read = b.contentLength then
    ({ b with complete := true }, e)
  else (b, e)

def replay (b : CaptureBody) (closeOk : Bool) : CaptureBody × ReplayResult :=
  if !b.complete || b.overflow then (b, .no)
  else match b.file with
    | none => ({ b with sealed := true, buffer := [] }, .memory b.buffer)
    | some name =>
      if closeOk then ({ b with sealed := true, file := none }, .file (b.fileName.getD name))
      else ({ b with sealed := true, file := none }, .failed)

def cleanup (b : CaptureBody) (e : CaptureEnv) : CaptureBody × CaptureEnv := b.discardLocked e

def Kept (b : CaptureBody) (e : CaptureEnv) (bytes : List UInt8) : Prop :=
  match b.file with
  | none => b.buffer = bytes ∧ b.fileName = none
  | some name => b.buffer = [] ∧ b.fileName = some name ∧ e.disk name = some bytes

structure Same (b b' : CaptureBody) : Prop where
  limit : b'.limit = b.limit
  contentLength : b'.contentLength = b.contentLength
  read : b'.read = b.read
  complete : b'.complete = b.complete
  sealed : b'.sealed = b.sealed

def Takes (bytes data : List UInt8) (r : CaptureBody × CaptureEnv) : Prop :=
  r.1.overflow = true ∨ r.1.overflow = false ∧ r.1.Kept r.2 (bytes ++ data)

variable {b b' : CaptureBody} {e e' : CaptureEnv} {o : FileOutcome} {bytes data : List UInt8}
  {name : Nat} {ok : Bool}

theorem Same.refl (b : CaptureBody) : b.Same b := ⟨rfl, rfl, rfl, rfl, rfl⟩

theorem Same.of {b'' : CaptureBody} (h' : b'.Same b'') (h : b.Same b') : b.Same b'' where
  limit := h'.limit.trans h.limit
  contentLength := h'.contentLength.trans h.contentLength
  read := h'.read.trans h.read
  complete := h'.complete.trans h.complete
  sealed := h'.sealed.trans h.sealed

theorem releaseReservationLocked_same (b : CaptureBody) (e : CaptureEnv) :
    b.Same (b.releaseReservationLocked e).1 := by
  unfold releaseReservationLocked
  split <;> exact ⟨rfl, rfl, rfl, rfl, rfl⟩

@[simp] theorem releaseReservationLocked_overflow :
    (b.releaseReservationLocked e).1.overflow = b.overflow := by
  unfold releaseReservationLocked
  split <;> rfl

theorem discardLocked_same (b : CaptureBody) (e : CaptureEnv) : b.Same (b.discardLocked e).1 :=
  (releaseReservationLocked_same _ _).of ⟨rfl, rfl, rfl, rfl, rfl⟩

@[simp] theorem discardLocked_overflow : (b.discardLocked e).1.overflow = true := by
  simp [discardLocked]

theorem writeLocked_same : b.Same (b.writeLocked e name ok data).1 := by
  unfold writeLocked
  split
  · exact .refl b
  · exact discardLocked_same b e

theorem spillLocked_same : b.Same (b.spillLocked e o data).1 := by
  unfold spillLocked
  split
  · simp only
    split
    · exact writeLocked_same.of ⟨rfl, rfl, rfl, rfl, rfl⟩
    · exact (discardLocked_same _ _).of ⟨rfl, rfl, rfl, rfl, rfl⟩
  · exact discardLocked_same b e

theorem keepLocked_same : b.Same (b.keepLocked e o data).1 := by
  unfold keepLocked
  split
  · split
    · exact ⟨rfl, rfl, rfl, rfl, rfl⟩
    · exact spillLocked_same
  · exact writeLocked_same

theorem reserveLocked_same (h : b.reserveLocked e = some (b', e')) :
    b.Same b' ∧ b'.overflow = b.overflow ∧ ∀ bytes, b.Kept e bytes → b'.Kept e' bytes := by
  unfold reserveLocked at h
  simp only at h
  split at h
  · obtain ⟨budget, -, h⟩ := Option.map_eq_some_iff.mp h
    cases h
    exact ⟨⟨rfl, rfl, rfl, rfl, rfl⟩, rfl, fun _ => id⟩
  · cases h
    exact ⟨.refl b, rfl, fun _ => id⟩

theorem captureLocked_same (b : CaptureBody) (e : CaptureEnv) (o : FileOutcome)
    (data : List UInt8) : b.Same (b.captureLocked e o data).1 := by
  unfold captureLocked
  split
  · exact .refl b
  · split
    · exact discardLocked_same b e
    · split
      · exact discardLocked_same b e
      · exact keepLocked_same.of (reserveLocked_same ‹_›).1

theorem writeLocked_takes (ho : b.overflow = false) (hf : b.file = some name)
    (hk : b.Kept e bytes) : Takes bytes data (b.writeLocked e name ok data) := by
  unfold writeLocked
  split
  · refine .inr ⟨ho, ?_⟩
    simp only [Kept, hf] at hk ⊢
    obtain ⟨hb, hn, hd⟩ := hk
    exact ⟨hb, hn, by simp [CaptureEnv.write, hd]⟩
  · exact .inl discardLocked_overflow

theorem spillLocked_takes (ho : b.overflow = false) (hb : b.buffer = bytes) :
    Takes bytes data (b.spillLocked e o data) := by
  unfold spillLocked
  split
  · simp only
    split
    · refine writeLocked_takes ho rfl ⟨rfl, rfl, ?_⟩
      simp [CaptureEnv.write, CaptureEnv.createTemp, hb]
    · exact .inl discardLocked_overflow
  · exact .inl discardLocked_overflow

theorem keepLocked_takes (ho : b.overflow = false) (hk : b.Kept e bytes) :
    Takes bytes data (b.keepLocked e o data) := by
  unfold keepLocked
  split
  · rename_i hf
    simp only [Kept, hf] at hk
    split
    · refine .inr ⟨ho, ?_⟩
      simp only [Kept, hf]
      exact ⟨congrArg (· ++ data) hk.1, hk.2⟩
    · exact spillLocked_takes ho hk.1
  · exact writeLocked_takes ho ‹_› hk

/-- A capture that is not lost takes in what was read, whichever of memory, file, limit and
budget it meets. -/
theorem captureLocked_takes (ho : b.overflow = false) (hs : b.sealed = false)
    (hk : b.Kept e bytes) : Takes bytes data (b.captureLocked e o data) := by
  unfold captureLocked
  simp only [ho, hs, Bool.or_self, Bool.false_eq_true, if_false]
  split
  · exact .inl discardLocked_overflow
  · split
    · exact .inl discardLocked_overflow
    · obtain ⟨-, ho', hk'⟩ := reserveLocked_same ‹_›
      exact keepLocked_takes (ho'.trans ho) (hk' _ hk)

theorem captureLocked_stays (h : b.overflow = true ∨ b.sealed = true) :
    b.captureLocked e o data = (b, e) := by
  unfold captureLocked
  rw [if_pos (by simpa using h)]

structure Reads (b : CaptureBody) (e : CaptureEnv) (data : List UInt8) (err : Option ReadError)
    (r : CaptureBody × CaptureEnv) : Prop where
  read : r.1.read = b.read + data.length
  contentLength : r.1.contentLength = b.contentLength
  sealed : r.1.sealed = b.sealed
  complete : r.1.complete = true ↔ b.complete = true ∨ err = some .eof ∨
    0 ≤ b.contentLength ∧ r.1.read = b.contentLength
  takes : ∀ bytes, b.overflow = false → b.sealed = false → b.Kept e bytes → Takes bytes data r
  stays : b.overflow = true ∨ b.sealed = true → r.1.overflow = b.overflow ∧ r.2 = e

theorem Reads.finish {r : CaptureBody × CaptureEnv} {err : Option ReadError}
    (hr : r.1.read = b.read + data.length) (hl : r.1.contentLength = b.contentLength)
    (hs : r.1.sealed = b.sealed) (hc : r.1.complete = b.complete)
    (ht : ∀ bytes, b.overflow = false → b.sealed = false → b.Kept e bytes → Takes bytes data r)
    (hst : b.overflow = true ∨ b.sealed = true → r.1.overflow = b.overflow ∧ r.2 = e) :
    b.Reads e data err
      (if err = some .eof ∨ 0 ≤ r.1.contentLength ∧ r.1.read = r.1.contentLength then
        ({ r.1 with complete := true }, r.2) else r) := by
  split
  · refine ⟨hr, hl, hs, ?_, ht, hst⟩
    rename_i h
    rw [hl] at h
    exact iff_of_true rfl (.inr h)
  · refine ⟨hr, hl, hs, ?_, ht, hst⟩
    rename_i h
    rw [hl] at h
    rw [hc, or_iff_left h]

theorem readLocked_reads (b : CaptureBody) (e : CaptureEnv) (o : FileOutcome) (data : List UInt8)
    (err : Option ReadError) : b.Reads e data err (b.readLocked e o data err) := by
  unfold readLocked
  by_cases hd : data = []
  · subst hd
    simp only [if_true]
    refine Reads.finish (r := (b, e)) (by simp) rfl rfl rfl (fun bytes ho _ hk => ?_)
      fun _ => ⟨rfl, rfl⟩
    exact .inr ⟨ho, by simpa using hk⟩
  · simp only [if_neg hd]
    have hs := captureLocked_same { b with read := b.read + data.length } e o data
    refine Reads.finish hs.read hs.contentLength hs.sealed hs.complete
      (fun bytes ho hse hk => captureLocked_takes ho hse hk) fun h => ?_
    rw [captureLocked_stays (b := { b with read := b.read + data.length }) h]
    exact ⟨rfl, rfl⟩

end CaptureBody

end NirnProxy
