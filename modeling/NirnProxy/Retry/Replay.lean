import NirnProxy.Retry.Capture
import NirnProxy.Transition

/-! `bodyReplay` in the retry loop of `RoundTrip`.  The transport reads the first body whenever it
likes once it has it, also while a retry is being prepared and after `RoundTrip` has returned. -/

namespace NirnProxy

/-- The body of a request.  `present` says that it is neither nil nor `http.NoBody`. -/
structure BodyRequest where
  content : List UInt8
  present : Bool
  getBody : Bool
  contentLength : Int

inductive BodyKind
  | noBody
  | getBody
  | capture
  deriving DecidableEq

structure BodyReplay where
  kind : BodyKind
  data : List UInt8
  fileName : Option Nat
  prepared : Bool

inductive AttemptBody
  | nil
  | first
  | fresh
  | replayed (bytes : List UInt8)
  deriving DecidableEq

inductive UpstreamResult
  | error
  | tooManyRequests
  | other
  deriving DecidableEq

namespace BodyReplay

def knownLength (request : BodyRequest) : Int :=
  if request.contentLength = 0 then -1 else request.contentLength

def newCapture (request : BodyRequest) (limit : Int) : CaptureBody where
  buffer := []
  file := none
  fileName := none
  limit := limit
  contentLength := knownLength request
  read := 0
  complete := false
  overflow := false
  sealed := false
  reserved := 0

/-- `none` is the error that the budget is exhausted. -/
def newBodyReplay (request : BodyRequest) (limit : Int) (budget : ResourceBudget) :
    Option (BodyReplay × CaptureBody × ResourceBudget) :=
  let capture := newCapture request limit
  if request.present = false then some (⟨.noBody, [], none, false⟩, capture, budget)
  else if request.getBody then some (⟨.getBody, [], none, false⟩, capture, budget)
  else
    let replay : BodyReplay := ⟨.capture, [], none, false⟩
    if limit < knownLength request then some (replay, { capture with overflow := true }, budget)
    else if budget.limit = 0 then some (replay, { capture with overflow := true }, budget)
    else if 0 < knownLength request then
      (budget.reserve (knownLength request)).map fun budget =>
        (replay, { capture with reserved := knownLength request }, budget)
    else some (replay, capture, budget)

/-- The report of `prepareRetry`; `none` is an error. -/
def prepareRetry (r : BodyReplay) (b : CaptureBody) (closeOk : Bool) :
    BodyReplay × CaptureBody × Option Bool :=
  if r.kind ≠ .capture then ({ r with prepared := true }, b, some true)
  else if r.prepared then (r, b, some true)
  else match b.replay closeOk with
    | (b, .failed) => (r, b, none)
    | (b, .no) => (r, b, some false)
    | (b, .memory data) =>
      ({ r with data := data, fileName := none, prepared := true }, b, some true)
    | (b, .file name) =>
      ({ r with data := [], fileName := some name, prepared := true }, b, some true)

/-- What is left of `body` once a retry has been prepared. -/
def replayBody (r : BodyReplay) (e : CaptureEnv) (openOk : Bool) : Option AttemptBody :=
  match r.fileName with
  | some name => if openOk then (e.disk name).map .replayed else none
  | none => some (.replayed r.data)

/-- `body`; the last component is `none` on an error. -/
def body (r : BodyReplay) (b : CaptureBody) (e : CaptureEnv) (attempt : Nat)
    (closeOk openOk : Bool) : BodyReplay × CaptureBody × Option AttemptBody :=
  match r.kind with
  | .noBody => (r, b, some .nil)
  | .getBody =>
    (r, b, if attempt = 0 then some .first else if openOk then some .fresh else none)
  | .capture =>
    if attempt = 0 then (r, b, some .first)
    else if r.prepared then (r, b, r.replayBody e openOk)
    else
      let (r, b, report) := r.prepareRetry b closeOk
      (r, b, if report = some true then r.replayBody e openOk else none)

variable {r : BodyReplay} {b : CaptureBody}

theorem prepareRetry_prepared {closeOk : Bool} (hk : r.kind = .capture) (hp : r.prepared = true) :
    r.prepareRetry b closeOk = (r, b, some true) := by
  simp [prepareRetry, hk, hp]

theorem prepareRetry_cases (closeOk : Bool) (hk : r.kind = .capture) (hp : r.prepared = false) :
    ((b.complete = false ∨ b.overflow = true) ∧ r.prepareRetry b closeOk = (r, b, some false)) ∨
    b.complete = true ∧ b.overflow = false ∧
      (b.file = none ∧ r.prepareRetry b closeOk =
          ({ r with data := b.buffer, fileName := none, prepared := true },
            { b with sealed := true, buffer := [] }, some true) ∨
        ∃ name, b.file = some name ∧
          (closeOk = true ∧ r.prepareRetry b closeOk =
              ({ r with data := [], fileName := some (b.fileName.getD name), prepared := true },
                { b with sealed := true, file := none }, some true) ∨
            closeOk = false ∧ r.prepareRetry b closeOk =
              (r, { b with sealed := true, file := none }, none))) := by
  unfold prepareRetry CaptureBody.replay
  cases hc : b.complete <;> cases ho : b.overflow <;> cases hf : b.file <;> cases closeOk <;>
    simp [hk, hp]

end BodyReplay

inductive RetryPc
  | new
  | top (attempt : Nat)
  | made (attempt : Nat)
  | sent (attempt : Nat)
  | prepare (attempt : Nat)
  | retryable (attempt : Nat)
  | returning
  | returned
  deriving DecidableEq

structure RetryRun where
  env : CaptureEnv
  capture : CaptureBody
  replay : BodyReplay
  rest : List UInt8
  reading : Option (List UInt8 × Option ReadError)
  delivered : List UInt8
  eof : Bool
  lost : Bool
  pc : RetryPc
  reports : List (Option Bool)
  attempts : List (Nat × AttemptBody)

inductive RetryAction
  | newBodyReplay
  | leave
  | body (closeOk openOk : Bool)
  | refuse
  | dispatch
  | readSource (n : Nat) (err : Option ReadError)
  | readCapture (o : FileOutcome)
  | response (r : UpstreamResult)
  | prepareRetry (closeOk : Bool)
  | retry
  | close
  | others (used : Int)

namespace RetryRun

def start (request : BodyRequest) (limit : Int) (env : CaptureEnv) : RetryRun where
  env := env
  capture := BodyReplay.newCapture request limit
  replay := ⟨.noBody, [], none, false⟩
  rest := request.content
  reading := none
  delivered := []
  eof := false
  lost := false
  pc := .new
  reports := []
  attempts := []

def step (request : BodyRequest) (limit : Int) (s : RetryRun) : RetryAction → Option RetryRun
  | .newBodyReplay =>
    match s.pc, BodyReplay.newBodyReplay request limit s.env.budget with
    | .new, none => some { s with pc := .returned }
    | .new, some (replay, capture, budget) =>
      some { s with replay := replay, capture := capture, env := { s.env with budget := budget }
                    lost := capture.overflow, pc := .top 0 }
    | _, _ => none
  | .leave =>
    -- a rate limit, a deadline or a cancellation met before the next attempt
    match s.pc with
    | .top _ | .retryable _ => some { s with pc := .returning }
    | _ => none
  | .body closeOk openOk =>
    match s.pc with
    | .top k =>
      match s.replay.body s.capture s.env k closeOk openOk with
      | (replay, capture, none) =>
        some { s with replay := replay, capture := capture, pc := .returning }
      | (replay, capture, some b) =>
        some { s with replay := replay, capture := capture, pc := .made k
                      attempts := (k, b) :: s.attempts }
    | _ => none
  | .refuse =>
    match s.pc with
    | .made _ => some { s with pc := .returning }
    | _ => none
  | .dispatch =>
    match s.pc with
    | .made k => some { s with pc := .sent k }
    | _ => none
  | .readSource n err =>
    if s.replay.kind = .capture ∧ s.attempts ≠ [] ∧ s.reading = none ∧ n ≤ s.rest.length ∧
        (err = some .eof → n = s.rest.length) then
      some { s with reading := some (s.rest.take n, err), rest := s.rest.drop n }
    else none
  | .readCapture o =>
    match s.reading with
    | some (data, err) =>
      let (capture, env) := s.capture.readLocked s.env o data err
      some { s with capture := capture, env := env, reading := none
                    delivered := s.delivered ++ data, eof := s.eof || err == some .eof
                    lost := s.lost || !s.capture.overflow && capture.overflow }
    | none => none
  | .response r =>
    match s.pc, r with
    | .sent k, .tooManyRequests => some { s with pc := .prepare k }
    | .sent _, _ => some { s with pc := .returning }
    | _, _ => none
  | .prepareRetry closeOk =>
    match s.pc with
    | .prepare k =>
      match s.replay.prepareRetry s.capture closeOk with
      | (replay, capture, some true) =>
        some { s with replay := replay, capture := capture, pc := .retryable k
                      reports := some true :: s.reports }
      | (replay, capture, some false) =>
        some { s with replay := replay, capture := capture, pc := .returning
                      reports := some false :: s.reports }
      | (replay, capture, none) =>
        some { s with replay := replay, capture := capture, pc := .returning, lost := true
                      reports := none :: s.reports }
    | _ => none
  | .retry =>
    match s.pc with
    | .retryable k => some { s with pc := .top (k + 1) }
    | _ => none
  | .close =>
    match s.pc with
    | .returning =>
      if s.replay.kind = .capture then
        let (capture, env) := s.capture.cleanup s.env
        some { s with capture := capture, env := env
                      replay := { s.replay with fileName := none }, pc := .returned }
      else some { s with pc := .returned }
    | _ => none
  | .others used =>
    some { s with env := { s.env with budget := { s.env.budget with used := used } } }

def system (request : BodyRequest) (limit : Int) : System RetryRun RetryAction where
  init s := ∃ env, s = start request limit env
  step := step request limit

def pending (s : RetryRun) : List UInt8 :=
  match s.reading with
  | some (data, _) => data
  | none => []

def Stored (s : RetryRun) : Prop :=
  match s.replay.fileName with
  | none => s.replay.data = s.delivered
  | some name => s.env.disk name = some s.delivered

def pastFirst : RetryPc → Bool
  | .top k | .made k | .sent k | .prepare k => decide (0 < k)
  | .retryable _ => true
  | .new | .returning | .returned => false

def looping : RetryPc → Bool
  | .top _ | .made _ | .sent _ | .prepare _ | .retryable _ => true
  | .new | .returning | .returned => false

structure Inv (request : BodyRequest) (limit : Int) (s : RetryRun) : Prop where
  new : s.pc = .new → ∃ env, s = start request limit env
  source : s.delivered ++ s.pending ++ s.rest = request.content
  pendingEof : ∀ data, s.reading = some (data, some .eof) → s.rest = []
  read : s.capture.read = s.delivered.length
  contentLength : s.capture.contentLength = BodyReplay.knownLength request
  eof : s.eof = true → s.delivered = request.content
  complete : s.capture.complete = true →
    s.eof = true ∨ 0 < request.contentLength ∧ s.capture.read = request.contentLength
  kind : s.replay.kind = .capture ∨
    s.attempts = [] ∧ s.reports = [] ∧ (s.pc = .new ∨ s.pc = .returned) ∧ s.reading = none
  kept : s.capture.overflow = false → s.capture.sealed = false → s.capture.Kept s.env s.delivered
  overflow : s.capture.overflow = true → s.lost = true ∨ s.pc = .returned
  lost : s.lost = true → s.capture.overflow = true ∨ looping s.pc = false
  sealed : s.capture.sealed = true → s.replay.prepared = true ∨ looping s.pc = false
  prepared : s.replay.prepared = true →
    s.lost = false ∧ s.capture.complete = true ∧ s.capture.sealed = true
  stored : s.replay.prepared = true → s.pc ≠ .returned → s.Stored
  retrying : pastFirst s.pc = true → s.replay.prepared = true
  reports : some true ∈ s.reports → s.replay.prepared = true
  attempts : ∀ k b, (k, b) ∈ s.attempts → 0 < k →
    s.replay.prepared = true ∧ b = .replayed s.delivered

variable {request : BodyRequest} {limit : Int} {s t : RetryRun}

theorem start_inv (env : CaptureEnv) : (start request limit env).Inv request limit where
  new _ := ⟨env, rfl⟩
  source := rfl
  pendingEof := nofun
  read := rfl
  contentLength := rfl
  eof := nofun
  complete := nofun
  kind := .inr ⟨rfl, rfl, .inl rfl, rfl⟩
  kept _ _ := ⟨rfl, rfl⟩
  overflow := nofun
  lost := nofun
  sealed := nofun
  prepared := nofun
  stored := nofun
  retrying := nofun
  reports := nofun
  attempts := nofun

theorem Inv.goto (h : s.Inv request limit) (pc : RetryPc) (hs : looping s.pc = true)
    (hp : pastFirst pc = true → s.replay.prepared = true) (hn : pc ≠ .new) :
    ({ s with pc := pc } : RetryRun).Inv request limit := by
  have hne : s.pc ≠ .returned := by rintro he; simp [he, looping] at hs
  have hk : s.replay.kind = .capture := by
    obtain hk | ⟨-, -, hpc, -⟩ := h.kind
    · exact hk
    · obtain hpc | hpc := hpc <;> simp [hpc, looping] at hs
  exact { h with
    new := fun he => (hn he).elim
    kind := .inl hk
    overflow := fun ho => .inl ((h.overflow ho).resolve_right hne)
    lost := fun hl => .inl ((h.lost hl).resolve_right (by simp [hs]))
    sealed := fun hse => .inl ((h.sealed hse).resolve_right (by simp [hs]))
    stored := fun hpr _ => h.stored hpr hne
    retrying := hp }

theorem Inv.capture_kind (h : s.Inv request limit) (hn : s.pc ≠ .new) (hr : s.pc ≠ .returned) :
    s.replay.kind = .capture :=
  h.kind.resolve_right fun hx => hx.2.2.1.elim hn hr

theorem knownLength_of_nonneg (h : 0 ≤ BodyReplay.knownLength request) :
    0 < request.contentLength ∧ BodyReplay.knownLength request = request.contentLength := by
  unfold BodyReplay.knownLength at h ⊢
  split at h
  · omega
  · rw [if_neg ‹_›]
    exact ⟨by omega, rfl⟩

theorem Inv.delivered_of_complete (h : s.Inv request limit)
    (hlen : 0 < request.contentLength → request.content.length ≤ request.contentLength)
    (hc : s.capture.complete = true) : s.delivered = request.content := by
  obtain he | ⟨hpos, hread⟩ := h.complete hc
  · exact h.eof he
  · have hsrc := h.source
    have hl := hlen hpos
    rw [← hread, h.read, ← hsrc] at hl
    simp only [List.length_append] at hl
    have hp : s.pending = [] := List.length_eq_zero_iff.mp (by omega)
    have hr : s.rest = [] := List.length_eq_zero_iff.mp (by omega)
    rw [hp, hr] at hsrc
    simpa using hsrc

theorem newBodyReplay_capture {r : BodyReplay} {c : CaptureBody} {budget budget' : ResourceBudget}
    (hcap : request.present = true ∧ request.getBody = false)
    (h : BodyReplay.newBodyReplay request limit budget = some (r, c, budget')) :
    r = ⟨.capture, [], none, false⟩ ∧ ∃ overflow reserved, c =
      { BodyReplay.newCapture request limit with overflow := overflow, reserved := reserved } := by
  unfold BodyReplay.newBodyReplay at h
  simp only [hcap.1, hcap.2, Bool.true_eq_false, Bool.false_eq_true, if_false] at h
  split at h
  · cases h
    exact ⟨rfl, true, _, rfl⟩
  · split at h
    · cases h
      exact ⟨rfl, true, _, rfl⟩
    · split at h
      · obtain ⟨_, -, h⟩ := Option.map_eq_some_iff.mp h
        cases h
        exact ⟨rfl, _, _, rfl⟩
      · cases h
        exact ⟨rfl, _, _, rfl⟩

theorem Inv.newBodyReplay (hcap : request.present = true ∧ request.getBody = false)
    (h : s.Inv request limit) (hs : s.step request limit .newBodyReplay = some t) :
    t.Inv request limit := by
  simp only [step] at hs
  split at hs
  · rename_i hpc _
    cases hs
    obtain ⟨env, rfl⟩ := h.new hpc
    exact { h with
      new := nofun
      kind := .inr ⟨rfl, rfl, .inr rfl, rfl⟩
      overflow := nofun
      stored := nofun }
  · rename_i r c budget hpc hnew
    cases hs
    obtain ⟨env, rfl⟩ := h.new hpc
    obtain ⟨rfl, o, n, rfl⟩ := newBodyReplay_capture hcap hnew
    exact { h with
      new := nofun
      kind := .inl rfl
      kept := fun _ _ => ⟨rfl, rfl⟩
      overflow := .inl
      lost := .inl
      sealed := nofun
      prepared := nofun
      stored := nofun
      retrying := nofun }
  · cases hs

theorem replayBody_stored {openOk : Bool} {b : AttemptBody} (h : s.Stored)
    (hb : s.replay.replayBody s.env openOk = some b) : b = .replayed s.delivered := by
  unfold Stored at h
  unfold BodyReplay.replayBody at hb
  split at h
  · rename_i hn
    simp only [hn, h, Option.some.injEq] at hb
    exact hb.symm
  · rename_i name hn
    simp only [hn, h, Option.map_some, Option.ite_none_right_eq_some, Option.some.injEq] at hb
    exact hb.2.symm

theorem Inv.body {closeOk openOk : Bool} (h : s.Inv request limit)
    (hs : s.step request limit (.body closeOk openOk) = some t) : t.Inv request limit := by
  simp only [step] at hs
  split at hs
  · rename_i k hpc
    have hloop : looping s.pc = true := by rw [hpc]; rfl
    have hk : s.replay.kind = .capture := h.capture_kind (by simp [hpc]) (by simp [hpc])
    have hpast : pastFirst (.made k) = true → s.replay.prepared = true := fun hm =>
      h.retrying (by rw [hpc]; exact hm)
    have hmade := h.goto (.made k) hloop hpast nofun
    cases k with
    | zero =>
      simp only [BodyReplay.body, hk, if_true] at hs
      cases hs
      refine { hmade with new := nofun, kind := .inl hk, attempts := fun j b hm hj => ?_ }
      obtain hm | hm := List.mem_cons.mp hm
      · cases hm
        exact (Nat.lt_irrefl 0 hj).elim
      · exact h.attempts j b hm hj
    | succ k =>
      have hpr : s.replay.prepared = true := hpast rfl
      simp only [BodyReplay.body, hk, hpr, Nat.succ_ne_zero, if_true, if_false] at hs
      have hst := h.stored hpr (by simp [hpc])
      cases hb : s.replay.replayBody s.env openOk with
      | none =>
        rw [hb] at hs
        cases hs
        exact h.goto _ hloop nofun nofun
      | some b =>
        rw [hb] at hs
        cases hs
        have hbytes := replayBody_stored hst hb
        refine { hmade with new := nofun, kind := .inl hk, attempts := fun j b' hm hj => ?_ }
        obtain hm | hm := List.mem_cons.mp hm
        · cases hm
          exact ⟨hpr, hbytes⟩
        · exact h.attempts j b' hm hj
  · cases hs

theorem Inv.readSource {n : Nat} {err : Option ReadError} (h : s.Inv request limit)
    (hs : s.step request limit (.readSource n err) = some t) : t.Inv request limit := by
  simp only [step, Option.ite_none_right_eq_some] at hs
  obtain ⟨⟨hk, ha, hr, hn, he⟩, hs⟩ := hs
  cases hs
  have hsrc := h.source
  simp only [pending, hr, List.append_nil] at hsrc
  refine { h with new := fun hpc => ?_, source := ?_, pendingEof := ?_, kind := .inl hk }
  · obtain ⟨env, rfl⟩ := h.new hpc
    exact (ha rfl).elim
  · simpa [pending] using hsrc
  · rintro data ⟨⟩
    simp [he rfl]

theorem Inv.readCapture {o : FileOutcome}
    (hlen : 0 < request.contentLength → request.content.length ≤ request.contentLength)
    (h : s.Inv request limit) (hs : s.step request limit (.readCapture o) = some t) :
    t.Inv request limit := by
  simp only [step] at hs
  split at hs
  · rename_i data err hr
    cases hs
    have hrd := CaptureBody.readLocked_reads s.capture s.env o data err
    have hsrc := h.source
    simp only [pending, hr] at hsrc
    have hk : s.replay.kind = .capture := h.kind.resolve_right fun hx => by
      rw [hr] at hx
      cases hx.2.2.2
    -- after the whole body has been delivered there is nothing left to read
    have hnil : s.delivered = request.content → data = [] := fun hd => by
      rw [hd] at hsrc
      have : data = [] ∧ s.rest = [] := by simpa using hsrc
      exact this.1
    have hdone : s.capture.complete = true → data = [] := fun hc =>
      hnil (h.delivered_of_complete hlen hc)
    have hpend : err = some .eof → s.delivered ++ data = request.content := by
      rintro rfl
      rw [← hsrc, h.pendingEof data hr, List.append_nil]
    constructor
    case new =>
      intro hpc
      obtain ⟨env, rfl⟩ := h.new hpc
      cases hr
    case source => simpa [pending] using hsrc
    case pendingEof => exact nofun
    case read =>
      rw [hrd.read, h.read, List.length_append]
      push_cast
      rfl
    case contentLength => exact hrd.contentLength.trans h.contentLength
    case eof =>
      intro he
      simp only [Bool.or_eq_true, beq_iff_eq] at he
      obtain he | he := he
      · have hd := h.eof he
        change s.delivered ++ data = _
        rw [hnil hd, List.append_nil, hd]
      · exact hpend he
    case complete =>
      intro hc
      obtain hc | he | ⟨hpos, hread⟩ := hrd.complete.mp hc
      · obtain he | ⟨hpos, hread⟩ := h.complete hc
        · exact .inl (by simp [he])
        · refine .inr ⟨hpos, ?_⟩
          rw [hrd.read, hdone hc, hread]
          simp
      · exact .inl (by simp [he])
      · right
        rw [h.contentLength] at hpos hread
        obtain ⟨hpos, hknown⟩ := knownLength_of_nonneg hpos
        exact ⟨hpos, hread.trans hknown⟩
    case kind => exact .inl hk
    case kept =>
      intro ho hse
      have hse' : s.capture.sealed = false := hrd.sealed ▸ hse
      have ho' : s.capture.overflow = false := by
        by_contra hov
        rw [Bool.not_eq_false] at hov
        have := (hrd.stays (.inl hov)).1
        simp_all
      obtain hov | ⟨-, hkept⟩ := hrd.takes s.delivered ho' hse' (h.kept ho' hse')
      · simp_all
      · exact hkept
    case overflow =>
      intro ho
      cases hov : s.capture.overflow with
      | true =>
        obtain hl | hpc := h.overflow hov
        · exact .inl (by simp [hl])
        · exact .inr hpc
      | false =>
        have ho' : (s.capture.readLocked s.env o data err).1.overflow = true := ho
        exact .inl (by simp [ho'])
    case lost =>
      intro hl
      simp only [Bool.or_eq_true, Bool.and_eq_true] at hl
      obtain hl | ⟨-, hov⟩ := hl
      · obtain hov | hpc := h.lost hl
        · exact .inl ((hrd.stays (.inl hov)).1.trans hov)
        · exact .inr hpc
      · exact .inl hov
    case sealed =>
      intro hse
      exact h.sealed (hrd.sealed ▸ hse)
    case prepared =>
      intro hp
      obtain ⟨hl, hc, hse⟩ := h.prepared hp
      refine ⟨?_, hrd.complete.mpr (.inl hc), hrd.sealed.trans hse⟩
      simp only [hl, (hrd.stays (.inr hse)).1, Bool.false_or, Bool.not_and_self]
    case stored =>
      intro hp hpc
      obtain ⟨-, hc, hse⟩ := h.prepared hp
      have hst := h.stored hp hpc
      have henv := (hrd.stays (.inr hse)).2
      unfold Stored at hst ⊢
      simp only [henv]
      simpa only [hdone hc, List.append_nil] using hst
    case retrying => exact h.retrying
    case reports => exact h.reports
    case attempts =>
      intro k b hm hk
      obtain ⟨hp, hb⟩ := h.attempts k b hm hk
      refine ⟨hp, ?_⟩
      rw [hdone (h.prepared hp).2.1, List.append_nil]
      exact hb
  · cases hs

theorem Inv.prepare {k : Nat} {r : BodyReplay} {file : Option Nat} {buffer : List UInt8}
    {pc : RetryPc} (h : ({ s with pc := pc } : RetryRun).Inv request limit)
    (hk : r.kind = .capture) (hp : r.prepared = true) (hl : s.lost = false)
    (hc : s.capture.complete = true) (ho : s.capture.overflow = false)
    (hfirst : ∀ j b, (j, b) ∈ s.attempts → ¬0 < j)
    (hst : ({ s with replay := r } : RetryRun).Stored) :
    ({ s with replay := r, pc := .retryable k, reports := some true :: s.reports
              capture := { s.capture with sealed := true, file := file, buffer := buffer } } :
      RetryRun).Inv request limit :=
  { h with
    new := nofun
    kind := .inl hk
    kept := nofun
    overflow := fun hov => by simp [ho] at hov
    lost := fun hlost => by simp [hl] at hlost
    sealed := fun _ => .inl hp
    prepared := fun _ => ⟨hl, hc, rfl⟩
    stored := fun _ _ => hst
    retrying := fun _ => hp
    reports := fun _ => hp
    attempts := fun j b hm hj => (hfirst j b hm hj).elim }

theorem Inv.prepareRetry {closeOk : Bool} (h : s.Inv request limit)
    (hs : s.step request limit (.prepareRetry closeOk) = some t) : t.Inv request limit := by
  simp only [step] at hs
  split at hs
  · rename_i k hpc
    have hloop : looping s.pc = true := by rw [hpc]; rfl
    have hk : s.replay.kind = .capture := h.capture_kind (by simp [hpc]) (by simp [hpc])
    have hback := h.goto .returning hloop (fun h => by cases h) (fun h => by cases h)
    cases hp : s.replay.prepared with
    | true =>
      have hret := h.goto (.retryable k) hloop (fun _ => hp) (fun h => by cases h)
      rw [BodyReplay.prepareRetry_prepared hk hp] at hs
      cases hs
      exact { hret with new := (fun h => by cases h), kind := .inl hk, reports := fun _ => hp }
    | false =>
      have hse : s.capture.sealed = false := by
        by_contra hse
        have := h.sealed (by simpa using hse)
        simp [hp, hloop] at this
      have hl : s.capture.overflow = false → s.lost = false := fun ho => by
        by_contra hl
        have := (h.lost (by simpa using hl)).resolve_right (by simp [hloop])
        simp [ho] at this
      have hno : some true ∉ s.reports := fun hm => by simp [h.reports hm] at hp
      have hfirst : ∀ j b, (j, b) ∈ s.attempts → ¬0 < j := fun j b hm hj => by
        simp [(h.attempts j b hm hj).1] at hp
      obtain ⟨-, he⟩ | ⟨hc, ho, ⟨hf, he⟩ | ⟨name, hf, ⟨-, he⟩ | ⟨-, he⟩⟩⟩ :=
        BodyReplay.prepareRetry_cases closeOk hk hp
      all_goals
        rw [he] at hs
        cases hs
      · refine { hback with new := fun h => ?_, kind := .inl hk, reports := fun hm => ?_ }
        · cases h
        · simp [hno] at hm
      · have hkept := h.kept ho hse
        simp only [CaptureBody.Kept, hf] at hkept
        exact hback.prepare hk rfl (hl ho) hc ho hfirst hkept.1
      · have hkept := h.kept ho hse
        simp only [CaptureBody.Kept, hf] at hkept
        refine hback.prepare hk rfl (hl ho) hc ho hfirst ?_
        simpa [Stored, hkept.2.1] using hkept.2.2
      · exact { hback with
          new := fun h => by cases h
          kind := .inl hk
          kept := fun _ h => by cases h
          overflow := fun _ => .inl rfl
          lost := fun _ => .inr rfl
          sealed := fun _ => .inr rfl
          prepared := fun hpr => by simp [hp] at hpr
          reports := fun hm => by simp [hno] at hm }
  · cases hs

theorem Inv.close (h : s.Inv request limit) (hs : s.step request limit .close = some t) :
    t.Inv request limit := by
  simp only [step] at hs
  split at hs
  · rename_i hpc
    have hk : s.replay.kind = .capture := h.capture_kind (by simp [hpc]) (by simp [hpc])
    rw [if_pos hk] at hs
    cases hs
    have hsame := CaptureBody.discardLocked_same s.capture s.env
    exact { h with
      new := nofun
      read := hsame.read.trans h.read
      contentLength := hsame.contentLength.trans h.contentLength
      complete := fun hc => by
        simp only [CaptureBody.cleanup, hsame.read]
        exact h.complete (hsame.complete ▸ hc)
      kind := .inl hk
      kept := fun ho => by simp [CaptureBody.cleanup] at ho
      overflow := fun _ => .inr rfl
      lost := fun _ => .inr rfl
      sealed := fun _ => .inr rfl
      prepared := fun hp => by
        obtain ⟨hl, hc, hse⟩ := h.prepared hp
        exact ⟨hl, hsame.complete.trans hc, hsame.sealed.trans hse⟩
      stored := fun _ hne => (hne rfl).elim
      retrying := nofun }
  · cases hs

theorem Inv.step {a : RetryAction} (hcap : request.present = true ∧ request.getBody = false)
    (hlen : 0 < request.contentLength → request.content.length ≤ request.contentLength)
    (h : s.Inv request limit) (hs : s.step request limit a = some t) : t.Inv request limit := by
  cases a with
  | newBodyReplay => exact h.newBodyReplay hcap hs
  | leave =>
    simp only [RetryRun.step] at hs
    split at hs <;> cases hs
    all_goals
      rename_i hpc
      exact h.goto _ (by rw [hpc]; rfl) nofun nofun
  | body closeOk openOk => exact h.body hs
  | refuse =>
    simp only [RetryRun.step] at hs
    split at hs <;> cases hs
    rename_i hpc
    exact h.goto _ (by rw [hpc]; rfl) nofun nofun
  | dispatch =>
    simp only [RetryRun.step] at hs
    split at hs <;> cases hs
    rename_i k hpc
    exact h.goto _ (by rw [hpc]; rfl) (fun hk => h.retrying (by rw [hpc]; exact hk)) nofun
  | readSource n err => exact h.readSource hs
  | readCapture o => exact h.readCapture hlen hs
  | response r =>
    simp only [RetryRun.step] at hs
    split at hs <;> cases hs
    · rename_i k hpc
      exact h.goto _ (by rw [hpc]; rfl) (fun hk => h.retrying (by rw [hpc]; exact hk)) nofun
    · rename_i k hpc _
      exact h.goto _ (by rw [hpc]; rfl) nofun nofun
  | prepareRetry closeOk => exact h.prepareRetry hs
  | retry =>
    simp only [RetryRun.step] at hs
    split at hs <;> cases hs
    rename_i k hpc
    exact h.goto _ (by rw [hpc]; rfl) (fun _ => h.retrying (by rw [hpc]; rfl)) nofun
  | close => exact h.close hs
  | others used =>
    cases hs
    refine { h with new := fun hpc => ?_ }
    obtain ⟨env, rfl⟩ := h.new hpc
    exact ⟨_, rfl⟩

theorem inv_of_reachable (hcap : request.present = true ∧ request.getBody = false)
    (hlen : 0 < request.contentLength → request.content.length ≤ request.contentLength)
    (h : (system request limit).Reachable s) : s.Inv request limit := by
  refine System.Reach.invariant ?_ ?_ h
  · rintro s ⟨env, rfl⟩
    exact start_inv env
  · intro s a t hi _ hs
    exact hi.step hcap hlen hs

/-- A retried request carries the original body: when `prepareRetry` reports true for a captured
body, the first attempt has read it to its end; every later attempt is given exactly the bytes
the first one read, which are the whole body; and a capture that is lost or not complete never
leads to a second attempt. -/
theorem retried_body (request : BodyRequest) (limit : Int) (s : RetryRun)
    (hcap : request.present = true ∧ request.getBody = false)
    (hlen : 0 < request.contentLength → request.content.length ≤ request.contentLength)
    (h : (system request limit).Reachable s) :
    (some true ∈ s.reports →
      (s.eof = true ∨ 0 < request.contentLength ∧ s.capture.read = request.contentLength) ∧
      s.delivered = request.content) ∧
    (∀ k b, (k, b) ∈ s.attempts → 1 ≤ k → b = .replayed s.delivered ∧
      s.delivered = request.content) ∧
    (s.lost = true ∨ s.capture.complete = false →
      some true ∉ s.reports ∧ ∀ k b, (k, b) ∈ s.attempts → k = 0) := by
  have hi := inv_of_reachable hcap hlen h
  refine ⟨fun hr => ?_, fun k b hm hk => ?_, fun hbad => ?_⟩
  · have hc := (hi.prepared (hi.reports hr)).2.1
    exact ⟨hi.complete hc, hi.delivered_of_complete hlen hc⟩
  · obtain ⟨hp, hb⟩ := hi.attempts k b hm hk
    exact ⟨hb, hi.delivered_of_complete hlen (hi.prepared hp).2.1⟩
  · have hp : s.replay.prepared ≠ true := fun hp => by
      obtain ⟨hl, hc, -⟩ := hi.prepared hp
      simp [hl, hc] at hbad
    refine ⟨fun hr => hp (hi.reports hr), fun k b hm => ?_⟩
    by_contra hk
    exact hp (hi.attempts k b hm (Nat.pos_of_ne_zero hk)).1

/-- A body of two bytes is read in two parts and replayed after a 429. -/
theorem retried_body_two_reads :
    let request : BodyRequest := ⟨[1, 2], true, false, -1⟩
    let env : CaptureEnv := ⟨.newResourceBudget 8, fun _ => none, 0⟩
    let o : FileOutcome := ⟨true, true, true⟩
    ∃ s, (system request 8).run (start request 8 env)
        [.newBodyReplay, .body true true, .dispatch, .readSource 1 none, .readCapture o,
          .readSource 1 (some .eof), .readCapture o, .response .tooManyRequests,
          .prepareRetry true, .retry, .body true true] = some s ∧
      (1, AttemptBody.replayed [1, 2]) ∈ s.attempts ∧ s.delivered = request.content := by
  intro request env o
  generalize hrun : (system request 8).run (start request 8 env) _ = result
  have hresult : result.map (·.attempts) = some [(1, .replayed [1, 2]), (0, .first)] := by
    rw [← hrun]
    decide
  obtain ⟨s, rfl, he⟩ := Option.map_eq_some_iff.mp hresult
  have hr : (system request 8).Reachable s := System.Reachable.run (.init ⟨env, rfl⟩) hrun
  have hm : (1, AttemptBody.replayed [1, 2]) ∈ s.attempts := by rw [he]; simp
  refine ⟨s, rfl, hm, ?_⟩
  exact ((retried_body request 8 s ⟨rfl, rfl⟩ (by decide) hr).2.1 1 _ hm (Nat.le_refl 1)).2

end RetryRun

end NirnProxy
