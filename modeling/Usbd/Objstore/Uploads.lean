import Usbd.Foundations.Machine
import Usbd.Objstore.Stacks

/-!
# Uploads through pipes

A wrapping container's `Put` hands the container below a pipe, and starts a goroutine that copies
the reader it was given through a compressor or a cipher into that pipe.  With compression over
encryption there are two of them, and the second one reads the pipe of the first.  Each closes its
encoder and its pipe in an order of its own for success, for a copy that failed and for a `Close`
that failed.

`PipeChain` is the chain of those goroutines over the reader given to the outermost `Put`, and
`PipedPut` adds the base container, which reads the last pipe to its end.  Every goroutine takes its
steps at any time.  The reader may break off with an error behind any number of bytes, an encoder
may fail at any time while it is in use.

What is assumed of the libraries: a pipe delivers what is written to it, and ends with the first
error it is closed with; `io.Copy` returns the first error it meets.  A cipher's `Write` returns
when its bytes are through the pipe, with the error if there is one, and its `Close` does nothing.
A compressor may write behind the back of its `Write`, and keep an error to itself until `Close`,
which returns when all is written and reports any failure.
-/

namespace Usbd

open Machine

/-! ## Encoders -/

/-- A writer that encodes: what it has made so far of the chunks written to it, and what it adds
when it is closed.  A `direct` one has nothing to add. -/
structure Encoder where
  emit : List Bytes → Bytes
  finish : List Bytes → Bytes
  direct : Bool
  emit_nil : emit [] = []
  emit_append : ∀ chunks chunk, emit chunks <+: emit (chunks ++ [chunk])
  finish_direct : direct = true → ∀ chunks, finish chunks = []

namespace Encoder

variable (enc : Encoder)

/-- What it makes of one chunk behind others. -/
def makes (chunks : List Bytes) (chunk : Bytes) : Bytes :=
  (enc.emit (chunks ++ [chunk])).drop (enc.emit chunks).length

/-- The whole encoded stream. -/
def complete (chunks : List Bytes) : Bytes := enc.emit chunks ++ enc.finish chunks

lemma emit_makes (chunks : List Bytes) (chunk : Bytes) :
    enc.emit chunks ++ enc.makes chunks chunk = enc.emit (chunks ++ [chunk]) := by
  obtain ⟨rest, hrest⟩ := enc.emit_append chunks chunk
  rw [makes, ← hrest, List.drop_left]

end Encoder

/-- The stream is the whole content through all the encoders.  The content meets the last of the
list first. -/
def Encodes : List Encoder → Bytes → Bytes → Prop
  | [], content, stream => stream = content
  | enc :: encs, content, stream =>
    ∃ chunks, Encodes encs content chunks.flatten ∧ stream = enc.complete chunks

/-! ## The goroutine of a `Put` -/

/-- Where the goroutine is. -/
inductive CopyPc
  /-- In `io.Copy`, before a `Read`. -/
  | reading
  /-- In `io.Copy`, inside `wtr.Write`. -/
  | writing
  /-- `io.Copy` has returned. -/
  | copied (err : Option GoError)
  /-- Inside `wtr.Close`, behind a copy without an error. -/
  | closing
  /-- That `Close` has returned. -/
  | closed (err : Option GoError)
  /-- Before `wtr.Close`, behind a copy that failed. -/
  | abandoning
  | done
  deriving DecidableEq

/-- A goroutine with its encoder and its pipe.  `pending` is what the encoder has made and the pipe
has not taken yet, `failed` the error of an encoder that has failed, `pipe` the error the pipe is
closed with (`none` is `io.EOF`).  `chunks` and `out` record what was written to the encoder and
read from the pipe. -/
structure CopyStage where
  enc : Encoder
  what : String
  pc : CopyPc
  chunks : List Bytes
  pending : Bytes
  failed : Option GoError
  pipe : Option (Option GoError)
  out : Bytes

inductive ReadResult
  | bytes (bs : Bytes)
  | ended (err : Option GoError)

namespace CopyStage

/-- The goroutine as `Put` starts it. -/
def start (enc : Encoder) (what : String) : CopyStage where
  enc := enc
  what := what
  pc := .reading
  chunks := []
  pending := []
  failed := none
  pipe := none
  out := []

variable (st : CopyStage)

/-- `pipeWtr.CloseWithError`, and `pipeWtr.Close` for `none`: the first error stays. -/
def closePipe (err : Option GoError) : CopyStage :=
  { st with pipe := some (st.pipe.getD err) }

/-- `pipeRdr.Read` into `k + 1` bytes.  A pipe that is open and has nothing makes it wait. -/
def read (k : ℕ) : Option (ReadResult × CopyStage) :=
  match st.pipe with
  | some err => some (.ended err, st)
  | none =>
    if st.pending = [] then none
    else
      some (.bytes (st.pending.take (k + 1)), { st with
        pending := st.pending.drop (k + 1)
        out := st.out ++ st.pending.take (k + 1) })

/-- What `io.Copy` does with the outcome of its `Read`. -/
def receive : ReadResult → CopyStage
  | .bytes chunk =>
    { st with
      chunks := st.chunks ++ [chunk]
      pending := st.pending ++ st.enc.makes st.chunks chunk
      pc := .writing }
  | .ended err => { st with pc := .copied err }

/-- The next step of the goroutine outside a `Read`. -/
def advance : Option CopyStage :=
  match st.pc with
  | .reading => none
  | .writing =>
    -- a cipher's `Write` returns without an error when its bytes are through
    if st.enc.direct = true → st.pending = [] ∧ st.failed = none then
      some { st with pc := .reading }
    else none
  | .copied none =>
    some { st with pc := .closing, pending := st.pending ++ st.enc.finish st.chunks }
  | .copied (some e) =>
    some { st.closePipe (some (.wrap ("Copy failed during stream " ++ st.what) e)) with
      pc := .abandoning }
  | .closing =>
    if st.pending = [] ∧ st.failed = none then some { st with pc := .closed none } else none
  | .closed err =>
    some { st.closePipe (err.map (.wrap ("Close failed during stream " ++ st.what))) with
      pc := .done }
  -- what the encoder still writes meets a closed pipe, and its error is dropped
  | .abandoning => some { st with pc := .done }
  | .done => none

/-- `Write` returns the error of an encoder that has failed, or `Close` does.  The `Close` of a
cipher has none to report. -/
def report : Option CopyStage :=
  match st.pc, st.failed with
  | .writing, some e => some { st with pc := .copied (some e) }
  | .closing, some e => if st.enc.direct then none else some { st with pc := .closed (some e) }
  | _, _ => none

/-- The encoder is in use: a cipher inside its `Write`, a compressor up to the return of its
`Close`. -/
def inUse : Bool :=
  match st.pc with
  | .writing => true
  | .reading | .copied none | .closing => !st.enc.direct
  | _ => false

/-- The encoder fails. -/
def fail (e : GoError) : Option CopyStage :=
  if st.inUse ∧ st.failed = none then some { st with failed := some e } else none

end CopyStage

/-! ## The chain -/

/-- The reader given to the outermost `Put`, with what has been read from it, and the goroutines
over it. -/
inductive PipeChain
  | source (rdr : Reader) (out : Bytes)
  | pipe (src : PipeChain) (st : CopyStage)

inductive ChainEvent
  /-- The goroutine reads, into `k + 1` bytes. -/
  | read (k : ℕ)
  | advance
  | report
  | fail (e : GoError)
  | inner (e : ChainEvent)

/-- It is an encoder that fails, and not a step of a goroutine. -/
def ChainEvent.isFailure : ChainEvent → Bool
  | fail _ => true
  | inner e => e.isFailure
  | _ => false

namespace PipeChain

/-- What has been read from the end of the chain. -/
def out : PipeChain → Bytes
  | source _ out => out
  | pipe _ st => st.out

/-- The end of the stream, if the reader behind the chain would find it there. -/
def end? : PipeChain → Option (Option GoError)
  | source rdr _ => if rdr.data = [] then some rdr.err else none
  | pipe _ st => st.pipe

/-- A `Read` at the end of the chain. -/
def read (k : ℕ) : PipeChain → Option (ReadResult × PipeChain)
  | source rdr out =>
    if rdr.data = [] then some (.ended rdr.err, source rdr out)
    else
      some (.bytes (rdr.data.take (k + 1)),
        source ⟨rdr.data.drop (k + 1), rdr.err⟩ (out ++ rdr.data.take (k + 1)))
  | pipe src st => (st.read k).map fun (got, st) => (got, pipe src st)

def step : PipeChain → ChainEvent → Option PipeChain
  | source _ _, _ => none
  | pipe src st, .read k =>
    if st.pc = .reading then (src.read k).map fun (got, src) => pipe src (st.receive got)
    else none
  | pipe src st, .advance => st.advance.map (pipe src)
  | pipe src st, .report => st.report.map (pipe src)
  | pipe src st, .fail e => (st.fail e).map (pipe src)
  | pipe src st, .inner e => (src.step e).map (pipe · st)

/-- The reader breaks off, or an encoder has failed. -/
def Failed : PipeChain → Prop
  | source rdr _ => rdr.err ≠ none
  | pipe src st => src.Failed ∨ st.failed ≠ none

/-- The encoders the content goes through, the last one first. -/
def encoders : PipeChain → List Encoder
  | source _ _ => []
  | pipe src st => st.enc :: src.encoders

end PipeChain

/-- The base container at the end of a chain: it reads until it is told the end. -/
structure PipedPut where
  chain : PipeChain
  ended : Option (Option GoError)

inductive PutEvent
  /-- The base container reads, into `k + 1` bytes. -/
  | read (k : ℕ)
  | chain (e : ChainEvent)

namespace PipedPut

def step (u : PipedPut) : PutEvent → Option PipedPut
  | .read k =>
    if u.ended = none then
      (u.chain.read k).map fun
        | (.bytes _, chain) => { u with chain }
        | (.ended err, chain) => ⟨chain, some err⟩
    else none
  | .chain e => (u.chain.step e).map fun chain => { u with chain }

end PipedPut

/-! ## What a chain keeps -/

namespace CopyStage

variable {src src' : PipeChain} {st st' : CopyStage} {k : ℕ} {got : ReadResult}

/-- A cipher that is not in its `Write` has nothing to write and has not failed. -/
def Settled (st : CopyStage) : Prop := st.enc.direct = true → st.pending = [] ∧ st.failed = none

/-- The encoder has failed, or what is copied has ended with an error. -/
def Broken (src : PipeChain) (st : CopyStage) : Prop :=
  st.failed ≠ none ∨ ∃ e, src.end? = some (some e)

/-- What is copied has ended without an error, and all that was made of it has been read. -/
structure Whole (src : PipeChain) (st : CopyStage) : Prop where
  src_end : src.end? = some none
  failed : st.failed = none
  pending : st.pending = []
  out : st.out = st.enc.complete st.chunks

/-- What is known of a goroutine at each of its places. -/
def Phase (src : PipeChain) (st : CopyStage) : CopyPc → Prop
  | .reading => st.pipe = none ∧ st.out ++ st.pending = st.enc.emit st.chunks ∧ st.Settled
  | .writing => st.pipe = none ∧ st.out ++ st.pending = st.enc.emit st.chunks
  | .copied none => st.pipe = none ∧ st.out ++ st.pending = st.enc.emit st.chunks ∧ st.Settled ∧
    src.end? = some none
  | .copied (some _) => st.pipe = none ∧ Broken src st
  | .closing => st.pipe = none ∧ st.out ++ st.pending = st.enc.complete st.chunks ∧ st.Settled ∧
    src.end? = some none
  | .closed none => st.pipe = none ∧ st.Whole src
  | .closed (some _) => st.pipe = none ∧ Broken src st
  | .abandoning => (∃ e, st.pipe = some (some e)) ∧ Broken src st
  | .done => st.pipe = some none ∧ st.Whole src ∨ (∃ e, st.pipe = some (some e)) ∧ Broken src st

/-- An end of what is copied stays its end. -/
lemma Phase.mono (hend : ∀ x, src.end? = some x → src'.end? = some x) {pc : CopyPc}
    (h : st.Phase src pc) : st.Phase src' pc := by
  have hbroken : Broken src st → Broken src' st := by
    rintro (hfailed | ⟨e, he⟩)
    · exact .inl hfailed
    · exact .inr ⟨e, hend _ he⟩
  have hwhole : st.Whole src → st.Whole src' := fun h =>
    { h with src_end := hend _ h.src_end }
  match pc, h with
  | .reading, h => exact h
  | .writing, h => exact h
  | .copied none, ⟨hpipe, hout, hset, hsrc⟩ => exact ⟨hpipe, hout, hset, hend _ hsrc⟩
  | .copied (some _), ⟨hpipe, hb⟩ => exact ⟨hpipe, hbroken hb⟩
  | .closing, ⟨hpipe, hout, hset, hsrc⟩ => exact ⟨hpipe, hout, hset, hend _ hsrc⟩
  | .closed none, ⟨hpipe, hw⟩ => exact ⟨hpipe, hwhole hw⟩
  | .closed (some _), ⟨hpipe, hb⟩ => exact ⟨hpipe, hbroken hb⟩
  | .abandoning, ⟨hpipe, hb⟩ => exact ⟨hpipe, hbroken hb⟩
  | .done, h => exact h.imp (And.imp_right hwhole) (And.imp_right hbroken)

/-- A pipe that is closed without an error has delivered the whole stream, and it is closed with an
error only if something has failed. -/
lemma Phase.pipe_cases {pc : CopyPc} (h : st.Phase src pc) :
    st.pipe = none ∨ st.pipe = some none ∧ st.Whole src ∨
      (∃ e, st.pipe = some (some e)) ∧ Broken src st := by
  match pc, h with
  | .reading, h => exact .inl h.1
  | .writing, h => exact .inl h.1
  | .copied none, h => exact .inl h.1
  | .copied (some _), h => exact .inl h.1
  | .closing, h => exact .inl h.1
  | .closed none, h => exact .inl h.1
  | .closed (some _), h => exact .inl h.1
  | .abandoning, h => exact .inr (.inr h)
  | .done, h => exact .inr h

lemma read_cases (h : st.read k = some (got, st')) :
    (∃ err, st.pipe = some err ∧ got = .ended err ∧ st' = st) ∨
      st.pipe = none ∧ st.pending ≠ [] ∧ got = .bytes (st.pending.take (k + 1)) ∧
        st' = { st with
          pending := st.pending.drop (k + 1)
          out := st.out ++ st.pending.take (k + 1) } := by
  unfold read at h
  cases hpipe : st.pipe with
  | some err =>
    simp only [hpipe, Option.some.injEq, Prod.mk.injEq] at h
    exact .inl ⟨err, rfl, h.1.symm, h.2.symm⟩
  | none =>
    simp only [hpipe] at h
    split_ifs at h with hpending
    obtain ⟨rfl, rfl⟩ := Prod.mk.inj (Option.some.inj h)
    exact .inr ⟨rfl, hpending, rfl, rfl⟩

lemma Phase.read {pc : CopyPc} (h : st.Phase src pc) (hpending : st.pending ≠ []) (k : ℕ) :
    ({ st with
      pending := st.pending.drop (k + 1)
      out := st.out ++ st.pending.take (k + 1) } : CopyStage).Phase src pc := by
  have hset : st.Settled → st.enc.direct ≠ true := fun hset hd => hpending (hset hd).1
  have hout : st.out ++ st.pending.take (k + 1) ++ st.pending.drop (k + 1) =
      st.out ++ st.pending := by
    rw [List.append_assoc, List.take_append_drop]
  match pc, h with
  | .reading, ⟨hpipe, hmade, hs⟩ => exact ⟨hpipe, hout.trans hmade, fun hd => absurd hd (hset hs)⟩
  | .writing, ⟨hpipe, hmade⟩ => exact ⟨hpipe, hout.trans hmade⟩
  | .copied none, ⟨hpipe, hmade, hs, hsrc⟩ =>
    exact ⟨hpipe, hout.trans hmade, fun hd => absurd hd (hset hs), hsrc⟩
  | .copied (some _), h => exact h
  | .closing, ⟨hpipe, hmade, hs, hsrc⟩ =>
    exact ⟨hpipe, hout.trans hmade, fun hd => absurd hd (hset hs), hsrc⟩
  | .closed none, h => exact absurd h.2.pending hpending
  | .closed (some _), h => exact h
  | .abandoning, h => exact h
  | .done, .inl h => exact absurd h.2.pending hpending
  | .done, .inr h => exact .inr h

/-- What the goroutine has still to do before its next `Read` from the chain. -/
def weight (st : CopyStage) : CopyPc → ℕ
  | .writing => (st.enc.finish st.chunks).length + 6
  | .reading => (st.enc.finish st.chunks).length + 5
  | .copied _ => (st.enc.finish st.chunks).length + 4
  | .closing => 3
  | .closed _ => 2
  | .abandoning => 1
  | .done => 0

/-- A bound on the steps of the goroutine and the reads of its pipe before that `Read`. -/
def rank (st : CopyStage) : ℕ :=
  st.pending.length + st.weight st.pc + if st.failed = none then 1 else 0

/-- The goroutine goes on without reading from the chain. -/
structure Goes (src : PipeChain) (st st' : CopyStage) : Prop where
  phase : st'.Phase src st'.pc
  enc : st'.enc = st.enc
  chunks : st'.chunks = st.chunks
  out : st'.out = st.out
  pipe : ∀ x, st.pipe = some x → st'.pipe = some x
  rank : st'.rank < st.rank

lemma goes_closePipe {pc : CopyPc} {err : Option GoError} (hpipe : st.pipe = none)
    (hphase : ({ st with pc, pipe := some err } : CopyStage).Phase src pc)
    (hlt : st.weight pc < st.weight st.pc) : Goes src st { st.closePipe err with pc } := by
  have heq : ({ st.closePipe err with pc } : CopyStage) = { st with pc, pipe := some err } := by
    simp [closePipe, hpipe]
  rw [heq]
  exact ⟨hphase, rfl, rfl, rfl, by simp [hpipe], by simpa [CopyStage.rank, weight] using hlt⟩

lemma goes_pc {pc : CopyPc} (hphase : ({ st with pc } : CopyStage).Phase src pc)
    (hlt : st.weight pc < st.weight st.pc) : Goes src st { st with pc } :=
  ⟨hphase, rfl, rfl, rfl, fun _ => id, by simpa [CopyStage.rank, weight] using hlt⟩

lemma Phase.advance (h : st.Phase src st.pc) (hstep : st.advance = some st') :
    Goes src st st' := by
  unfold CopyStage.advance at hstep
  cases hpc : st.pc with
  | reading => simp [hpc] at hstep
  | writing =>
    rw [hpc] at h
    simp only [hpc] at hstep
    split_ifs at hstep with hset
    obtain rfl := Option.some.inj hstep
    exact goes_pc ⟨h.1, h.2, hset⟩ (by simp [weight, hpc])
  | copied err =>
    rw [hpc] at h
    simp only [hpc] at hstep
    cases err with
    | none =>
      -- `Close` of the encoder writes what makes the stream complete
      obtain rfl := Option.some.inj hstep
      obtain ⟨hpipe, hmade, hset, hsrc⟩ := h
      refine ⟨⟨hpipe, ?_, fun hd => ?_, hsrc⟩, rfl, rfl, rfl, fun _ => id, ?_⟩
      · rw [Encoder.complete, ← hmade, List.append_assoc]
      · simp [hset hd, st.enc.finish_direct hd]
      · simp only [CopyStage.rank, weight, hpc, List.length_append]
        omega
    | some e =>
      obtain rfl := Option.some.inj hstep
      exact goes_closePipe h.1 ⟨⟨_, rfl⟩, h.2⟩ (by simp [weight, hpc])
  | closing =>
    rw [hpc] at h
    simp only [hpc] at hstep
    split_ifs at hstep with hclosed
    obtain rfl := Option.some.inj hstep
    obtain ⟨hpipe, hmade, -, hsrc⟩ := h
    rw [hclosed.1, List.append_nil] at hmade
    exact goes_pc ⟨hpipe, hsrc, hclosed.2, hclosed.1, hmade⟩ (by simp [weight, hpc])
  | closed err =>
    rw [hpc] at h
    simp only [hpc] at hstep
    obtain rfl := Option.some.inj hstep
    cases err with
    | none =>
      obtain ⟨hpipe, hsrc, hfailed, hpending, hout⟩ := h
      exact goes_closePipe hpipe (.inl ⟨rfl, hsrc, hfailed, hpending, hout⟩) (by simp [weight, hpc])
    | some e => exact goes_closePipe h.1 (.inr ⟨⟨_, rfl⟩, h.2⟩) (by simp [weight, hpc])
  | abandoning =>
    rw [hpc] at h
    simp only [hpc] at hstep
    obtain rfl := Option.some.inj hstep
    exact goes_pc (.inr h) (by simp [weight, hpc])
  | done => simp [hpc] at hstep

lemma Phase.report (h : st.Phase src st.pc) (hstep : st.report = some st') :
    Goes src st st' := by
  unfold CopyStage.report at hstep
  split at hstep
  case _ e hpc hfailed =>
    rw [hpc] at h
    obtain rfl := Option.some.inj hstep
    exact goes_pc ⟨h.1, .inl (by simp [hfailed])⟩ (by simp [weight, hpc])
  case _ e hpc hfailed =>
    rw [hpc] at h
    split_ifs at hstep
    obtain rfl := Option.some.inj hstep
    exact goes_pc ⟨h.1, .inl (by simp [hfailed])⟩ (by simp [weight, hpc])
  case _ => cases hstep

lemma Phase.fail (h : st.Phase src st.pc) {e : GoError} (hstep : st.fail e = some st') :
    Goes src st st' := by
  unfold CopyStage.fail at hstep
  split_ifs at hstep with hfail
  obtain rfl := Option.some.inj hstep
  obtain ⟨huse, hnone⟩ := hfail
  have hrank : ({ st with failed := some e } : CopyStage).rank < st.rank := by
    simp [CopyStage.rank, weight, hnone]
  refine ⟨?_, rfl, rfl, rfl, fun _ => id, hrank⟩
  -- only a compressor fails outside a `Write`
  unfold inUse at huse
  have hset : st.enc.direct = false → ({ st with failed := some e } : CopyStage).Settled :=
    fun hd hd' => by simp [hd] at hd'
  cases hpc : st.pc with
  | writing =>
    rw [hpc] at h
    exact ⟨h.1, h.2⟩
  | reading =>
    rw [hpc] at h
    simp only [hpc, Bool.not_eq_eq_eq_not, Bool.not_true] at huse
    exact ⟨h.1, h.2.1, hset huse⟩
  | copied err =>
    cases err with
    | none =>
      rw [hpc] at h
      simp only [hpc, Bool.not_eq_eq_eq_not, Bool.not_true] at huse
      exact ⟨h.1, h.2.1, hset huse, h.2.2.2⟩
    | some e' => simp [hpc] at huse
  | closing =>
    rw [hpc] at h
    simp only [hpc, Bool.not_eq_eq_eq_not, Bool.not_true] at huse
    exact ⟨h.1, h.2.1, hset huse, h.2.2.2⟩
  | closed err => simp [hpc] at huse
  | abandoning => simp [hpc] at huse
  | done => simp [hpc] at huse

/-- The goroutine goes on with what it has read. -/
lemma Phase.receive_bytes (h : st.Phase src .reading) (chunk : Bytes) :
    (st.receive (.bytes chunk)).Phase src' (st.receive (.bytes chunk)).pc := by
  refine ⟨h.1, ?_⟩
  simp only [CopyStage.receive]
  rw [← List.append_assoc, h.2.1, st.enc.emit_makes]

lemma Phase.receive_ended (h : st.Phase src .reading) (hpc : st.pc = .reading)
    {err : Option GoError} (hend : src.end? = some err) :
    Goes src st (st.receive (.ended err)) := by
  obtain ⟨hpipe, hmade, hset⟩ := h
  refine goes_pc ?_ (by simp [weight, hpc])
  cases err with
  | none => exact ⟨hpipe, hmade, hset, hend⟩
  | some e => exact ⟨hpipe, .inr ⟨e, hend⟩⟩

/-- A pipe that is closed, or that something is pending for, can be read. -/
lemma exists_read (h : st.pipe ≠ none ∨ st.pending ≠ []) :
    ∃ got st', st.read 0 = some (got, st') := by
  unfold CopyStage.read
  cases hpipe : st.pipe with
  | some err => exact ⟨_, _, rfl⟩
  | none =>
    simp only [if_neg (h.resolve_left fun hne => hne hpipe)]
    exact ⟨_, _, rfl⟩

/-- A goroutine that is not about to read can go on, or its pipe can be read. -/
lemma Phase.progress (h : st.Phase src st.pc) (hpc : st.pc ≠ .reading) :
    (∃ got st', st.read 0 = some (got, st')) ∨ (∃ st', st.advance = some st') ∨
      ∃ st', st.report = some st' := by
  by_cases hread : st.pipe ≠ none ∨ st.pending ≠ []
  · exact .inl (exists_read hread)
  obtain ⟨hpipe, hpending⟩ : st.pipe = none ∧ st.pending = [] := by simpa [not_or] using hread
  right
  cases hplace : st.pc with
  | reading => exact absurd hplace hpc
  | writing =>
    cases hfailed : st.failed with
    | none => exact .inl ⟨{ st with pc := .reading }, by simp [CopyStage.advance, *]⟩
    | some e => exact .inr ⟨{ st with pc := .copied (some e) }, by simp [CopyStage.report, *]⟩
  | closing =>
    rw [hplace] at h
    cases hfailed : st.failed with
    | none => exact .inl ⟨{ st with pc := .closed none }, by simp [CopyStage.advance, *]⟩
    | some e =>
      -- a cipher has not failed when its `Close` is called
      have hbuffered : st.enc.direct = false := by
        by_contra hdirect
        have hset := h.2.2.1 (by simpa using hdirect)
        simp [hfailed] at hset
      exact .inr ⟨{ st with pc := .closed (some e) }, by simp [CopyStage.report, *]⟩
  | copied err =>
    left
    cases err <;> simp [CopyStage.advance, hplace]
  | closed err => exact .inl (by simp [CopyStage.advance, hplace])
  | abandoning => exact .inl (by simp [CopyStage.advance, hplace])
  | done =>
    rw [hplace] at h
    simp [Phase, hpipe] at h

end CopyStage

namespace PipeChain

variable {c c' : PipeChain} {k : ℕ} {got : ReadResult} {content : Bytes}

/-- What every chain is: the goroutines' encoders have what was read further in, and nothing of the
content is lost on the way. -/
def Inv (content : Bytes) : PipeChain → Prop
  | source rdr out => out ++ rdr.data = content
  | pipe src st => src.Inv content ∧ st.chunks.flatten = src.out ∧ st.Phase src st.pc

/-- A chain that is further on: something was read further in, or a goroutine has gone on. -/
inductive Further : PipeChain → PipeChain → Prop
  | source {rdr rdr' : Reader} {out out' : Bytes} (h : rdr'.data.length < rdr.data.length) :
      Further (source rdr' out') (source rdr out)
  | inner {src src' : PipeChain} {st st' : CopyStage} (h : Further src' src) :
      Further (pipe src' st') (pipe src st)
  | stage {src : PipeChain} {st st' : CopyStage} (h : st'.rank < st.rank) :
      Further (pipe src st') (pipe src st)

/-- A goroutine cannot go on for ever over a chain that cannot. -/
lemma acc_pipe {src : PipeChain} (h : Acc Further src) (st : CopyStage) :
    Acc Further (pipe src st) := by
  induction h generalizing st with
  | intro src _ ihsrc =>
    induction hrank : st.rank using Nat.strong_induction_on generalizing st with
    | _ n ihrank =>
      refine Acc.intro _ fun c' hc' => ?_
      cases hc' with
      | inner hsrc => exact ihsrc _ hsrc _
      | stage hlt => exact ihrank _ (hrank ▸ hlt) _ rfl

lemma acc_source (rdr : Reader) (out : Bytes) : Acc Further (source rdr out) := by
  induction hlen : rdr.data.length using Nat.strong_induction_on generalizing rdr out with
  | _ n ih =>
    refine Acc.intro _ fun c' hc' => ?_
    cases hc' with
    | source hlt => exact ih _ (hlen ▸ hlt) _ _ rfl

lemma acc_further (c : PipeChain) : Acc Further c := by
  induction c with
  | source rdr out => exact acc_source rdr out
  | pipe src st ih => exact acc_pipe ih st

/-- A `Read` finds the end of the chain, or takes bytes off it. -/
lemma read_cases (h : c.read k = some (got, c')) :
    (∃ err, c.end? = some err ∧ got = .ended err ∧ c' = c) ∨
      ∃ bs, got = .bytes bs ∧ c.end? = none ∧ c'.out = c.out ++ bs ∧ c'.encoders = c.encoders ∧
        Further c' c := by
  cases c with
  | source rdr out =>
    simp only [read] at h
    split_ifs at h with hempty
    · obtain ⟨rfl, rfl⟩ := Prod.mk.inj (Option.some.inj h)
      exact .inl ⟨_, if_pos hempty, rfl, rfl⟩
    · obtain ⟨rfl, rfl⟩ := Prod.mk.inj (Option.some.inj h)
      refine .inr ⟨_, rfl, if_neg hempty, rfl, rfl, .source ?_⟩
      have hpos : 0 < rdr.data.length := List.length_pos_iff.mpr hempty
      rw [List.length_drop]
      omega
  | pipe src st =>
    obtain ⟨⟨got', st'⟩, hread, heq⟩ := Option.map_eq_some_iff.mp h
    obtain ⟨rfl, rfl⟩ := Prod.mk.inj heq
    rcases st.read_cases hread with ⟨err, hpipe, rfl, rfl⟩ | ⟨hpipe, hpending, rfl, rfl⟩
    · exact .inl ⟨err, hpipe, rfl, rfl⟩
    · refine .inr ⟨_, rfl, hpipe, rfl, rfl, .stage ?_⟩
      have hpos : 0 < st.pending.length := List.length_pos_iff.mpr hpending
      simp only [CopyStage.rank, CopyStage.weight, List.length_drop]
      omega

lemma Inv.read (h : c.Inv content) (hread : c.read k = some (got, c')) : c'.Inv content := by
  cases c with
  | source rdr out =>
    simp only [PipeChain.read] at hread
    split_ifs at hread
    · obtain ⟨rfl, rfl⟩ := Prod.mk.inj (Option.some.inj hread)
      exact h
    · obtain ⟨rfl, rfl⟩ := Prod.mk.inj (Option.some.inj hread)
      change out ++ _ ++ _ = content
      rw [List.append_assoc, List.take_append_drop]
      exact h
  | pipe src st =>
    obtain ⟨⟨got', st'⟩, hpipe, heq⟩ := Option.map_eq_some_iff.mp hread
    obtain ⟨rfl, rfl⟩ := Prod.mk.inj heq
    rcases st.read_cases hpipe with ⟨err, -, rfl, rfl⟩ | ⟨-, hpending, rfl, rfl⟩
    · exact h
    · exact ⟨h.1, h.2.1, h.2.2.read hpending k⟩

/-- One step of a goroutine keeps the chain in order, takes nothing off its end and leaves an end
that is there; and it brings the chain further. -/
structure Goes (content : Bytes) (c c' : PipeChain) : Prop where
  inv : c'.Inv content
  out : c'.out = c.out
  end_eq : ∀ x, c.end? = some x → c'.end? = some x
  encoders : c'.encoders = c.encoders
  further : Further c' c

lemma Goes.of_stage {src : PipeChain} {st st' : CopyStage} (h : (pipe src st).Inv content)
    (hgoes : CopyStage.Goes src st st') : Goes content (pipe src st) (pipe src st') where
  inv := ⟨h.1, hgoes.chunks ▸ h.2.1, hgoes.phase⟩
  out := hgoes.out
  end_eq := hgoes.pipe
  encoders := congrArg (· :: src.encoders) hgoes.enc
  further := .stage hgoes.rank

lemma Inv.step (h : c.Inv content) {e : ChainEvent} (hstep : c.step e = some c') :
    Goes content c c' := by
  induction c generalizing e c' with
  | source rdr out => cases hstep
  | pipe src st ih =>
    obtain ⟨hsrc, hflat, hphase⟩ := id h
    cases e with
    | read k =>
      simp only [PipeChain.step] at hstep
      split_ifs at hstep with hpc
      obtain ⟨⟨got, src'⟩, hread, rfl⟩ := Option.map_eq_some_iff.mp hstep
      have hphase' : st.Phase src .reading := hpc ▸ hphase
      rcases read_cases hread with ⟨err, hend, rfl, rfl⟩ | ⟨bs, rfl, -, hout, henc, hfurther⟩
      · exact .of_stage h (hphase'.receive_ended hpc hend)
      · refine ⟨⟨hsrc.read hread, ?_, hphase'.receive_bytes bs⟩, rfl, fun _ => id,
          congrArg (st.enc :: ·) henc, .inner hfurther⟩
        simp [CopyStage.receive, hflat, hout]
    | advance =>
      obtain ⟨st', hadv, rfl⟩ := Option.map_eq_some_iff.mp hstep
      exact .of_stage h (hphase.advance hadv)
    | report =>
      obtain ⟨st', hrep, rfl⟩ := Option.map_eq_some_iff.mp hstep
      exact .of_stage h (hphase.report hrep)
    | fail e =>
      obtain ⟨st', hfail, rfl⟩ := Option.map_eq_some_iff.mp hstep
      exact .of_stage h (hphase.fail hfail)
    | inner e =>
      obtain ⟨src', hinner, rfl⟩ := Option.map_eq_some_iff.mp hstep
      obtain ⟨hinv, hout, hend, henc, hfurther⟩ := ih hsrc hinner
      exact ⟨⟨hinv, hflat.trans hout.symm, hphase.mono hend⟩, rfl, fun _ => id,
        congrArg (st.enc :: ·) henc, .inner hfurther⟩

/-! ### The end of a chain -/

/-- A chain that ends without an error has delivered the complete stream, and nothing has failed. -/
lemma Inv.of_eof (h : c.Inv content) (hend : c.end? = some none) :
    ¬ c.Failed ∧ Encodes c.encoders content c.out := by
  induction c with
  | source rdr out =>
    simp only [end?] at hend
    split_ifs at hend with hempty
    refine ⟨fun hfailed => hfailed (Option.some.inj hend), ?_⟩
    have hall : out ++ rdr.data = content := h
    rwa [hempty, List.append_nil] at hall
  | pipe src st ih =>
    obtain ⟨hsrc, hflat, hphase⟩ := h
    have hwhole : st.Whole src := by
      rcases hphase.pipe_cases with hopen | ⟨-, hwhole⟩ | ⟨⟨e, he⟩, -⟩
      · cases hopen.symm.trans hend
      · exact hwhole
      · cases he.symm.trans hend
    obtain ⟨hfine, hcomplete⟩ := ih hsrc hwhole.src_end
    refine ⟨?_, st.chunks, hflat ▸ hcomplete, hwhole.out⟩
    rintro (hfailed | hfailed)
    · exact hfine hfailed
    · exact hfailed hwhole.failed

/-- A chain ends with an error only if something has failed. -/
lemma Inv.of_error (h : c.Inv content) {e : GoError} (hend : c.end? = some (some e)) :
    c.Failed := by
  induction c generalizing e with
  | source rdr out =>
    simp only [end?] at hend
    split_ifs at hend
    simp [Failed, Option.some.inj hend]
  | pipe src st ih =>
    obtain ⟨hsrc, -, hphase⟩ := h
    rcases hphase.pipe_cases with hopen | ⟨heof, -⟩ | ⟨-, hfailed | ⟨e', he'⟩⟩
    · cases hopen.symm.trans hend
    · cases heof.symm.trans hend
    · exact .inr hfailed
    · exact .inl (ih hsrc he')

/-! ### The next step of a chain -/

/-- There is something to read at the end of a chain, or one of its goroutines can go on. -/
lemma Inv.progress (h : c.Inv content) : (∃ got c', c.read 0 = some (got, c')) ∨
    ∃ e c', e.isFailure = false ∧ c.step e = some c' := by
  induction c with
  | source rdr out =>
    left
    simp only [PipeChain.read]
    split_ifs
    · exact ⟨_, _, rfl⟩
    · exact ⟨_, _, rfl⟩
  | pipe src st ih =>
    obtain ⟨hsrc, -, hphase⟩ := h
    by_cases hpc : st.pc = .reading
    · rcases ih hsrc with ⟨got, src', hread⟩ | ⟨e, src', hregular, hstep⟩
      · exact .inr ⟨.read 0, pipe src' (st.receive got), rfl, by simp [PipeChain.step, hpc, hread]⟩
      · exact .inr ⟨.inner e, pipe src' st, hregular, by simp [PipeChain.step, hstep]⟩
    · rcases hphase.progress hpc with ⟨got, st', hread⟩ | ⟨st', hadv⟩ | ⟨st', hrep⟩
      · exact .inl ⟨got, pipe src st', by simp [PipeChain.read, hread]⟩
      · exact .inr ⟨.advance, pipe src st', rfl, by simp [PipeChain.step, hadv]⟩
      · exact .inr ⟨.report, pipe src st', rfl, by simp [PipeChain.step, hrep]⟩

lemma inv_source (rdr : Reader) : (source rdr []).Inv rdr.data := List.nil_append _

/-- A goroutine is started over a chain nothing has been read from. -/
lemma Inv.start (h : c.Inv content) (hout : c.out = []) (enc : Encoder) (what : String) :
    (pipe c (.start enc what)).Inv content := by
  refine ⟨h, hout.symm, rfl, enc.emit_nil.symm, fun _ => ⟨rfl, rfl⟩⟩

end PipeChain

/-! ## The base container -/

/-- It is an encoder that fails. -/
def PutEvent.isFailure : PutEvent → Bool
  | read _ => false
  | chain e => e.isFailure

namespace PipedPut

variable {u u' : PipedPut} {encs : List Encoder} {content : Bytes}

/-- The end the base container has been told is the end of the chain. -/
structure Inv (encs : List Encoder) (content : Bytes) (u : PipedPut) : Prop where
  chain : u.chain.Inv content
  encoders : u.chain.encoders = encs
  ended : ∀ err, u.ended = some err → u.chain.end? = some err

/-- The chain is further on, or the base container has been told its end. -/
def Further (u' u : PipedPut) : Prop :=
  Prod.Lex PipeChain.Further (· < ·) (u'.chain, if u'.ended = none then 1 else 0)
    (u.chain, if u.ended = none then 1 else 0)

lemma acc_further (u : PipedPut) : Acc Further u :=
  InvImage.accessible (fun u : PipedPut => (u.chain, if u.ended = none then 1 else 0))
    (Prod.lexAccessible (PipeChain.acc_further u.chain) (fun n => Nat.lt_wfRel.wf.apply n) _)

lemma Inv.step (h : Inv encs content u) {e : PutEvent} (hstep : u.step e = some u') :
    Inv encs content u' ∧ Further u' u := by
  cases e with
  | read k =>
    simp only [PipedPut.step] at hstep
    split_ifs at hstep with hended
    obtain ⟨⟨got, c'⟩, hread, heq⟩ := Option.map_eq_some_iff.mp hstep
    rcases PipeChain.read_cases hread with ⟨err, hend, rfl, rfl⟩ | ⟨bs, rfl, -, -, henc, hfurther⟩
    · obtain rfl := heq
      refine ⟨⟨h.chain, h.encoders, fun err' herr => Option.some.inj herr ▸ hend⟩, ?_⟩
      exact Prod.Lex.right _ (by simp [hended])
    · obtain rfl := heq
      refine ⟨⟨h.chain.read hread, henc.trans h.encoders, fun err herr => ?_⟩,
        Prod.Lex.left _ _ hfurther⟩
      cases hended.symm.trans herr
  | chain e =>
    obtain ⟨c', hc', rfl⟩ := Option.map_eq_some_iff.mp hstep
    obtain ⟨hinv, -, hend, henc, hfurther⟩ := h.chain.step hc'
    exact ⟨⟨hinv, henc.trans h.encoders, fun err herr => hend _ (h.ended err herr)⟩,
      Prod.Lex.left _ _ hfurther⟩

/-- Until the base container has been told the end it can read, or a goroutine can go on. -/
lemma Inv.progress (h : Inv encs content u) (hended : u.ended = none) :
    ∃ e u', e.isFailure = false ∧ u.step e = some u' := by
  rcases h.chain.progress with ⟨got, c', hread⟩ | ⟨e, c', hreg, hstep⟩
  · refine ⟨.read 0, ?_⟩
    simp only [PipedPut.step, if_pos hended, hread, Option.map_some]
    exact ⟨_, rfl, rfl⟩
  · exact ⟨.chain e, { u with chain := c' }, hreg, by simp [PipedPut.step, hstep]⟩

/-- The end is without an error exactly if nothing has failed, and then the stream is complete. -/
lemma Inv.of_ended (h : Inv encs content u) {err : Option GoError} (hended : u.ended = some err) :
    (err = none ↔ ¬ u.chain.Failed) ∧
      (err = none → Encodes encs content u.chain.out) := by
  have hend := h.ended err hended
  cases err with
  | none =>
    obtain ⟨hfine, hcomplete⟩ := h.chain.of_eof hend
    exact ⟨by simp [hfine], fun _ => h.encoders ▸ hcomplete⟩
  | some e => exact ⟨by simp [h.chain.of_error hend], by simp⟩

end PipedPut

/-! ## The stacks -/

/-- The writers of the modes.  A cipher's is direct. -/
structure Writers where
  compressor : CompressMode → Encoder
  encryptor : EncryptMode → Bytes → Bytes → Encoder
  encryptor_direct : ∀ m key initVect, (encryptor m key initVect).direct = true

/-- The reader `compressedContainer.Put` hands on. -/
def CompressMode.piped (ws : Writers) (m : CompressMode) (src : PipeChain) :
    Except GoError PipeChain :=
  match m with
  | .identity => .ok src
  | .unknown => .error (.wrap "Could not create stream compressor"
      (.new "Cannot create decompressor for unknown compression mode"))
  | m => .ok (src.pipe (.start (ws.compressor m) "compression"))

/-- The reader `encryptedContainer.Put` hands on. -/
def EncryptMode.piped (ws : Writers) (m : EncryptMode) (key initVect : Bytes) (src : PipeChain) :
    Except GoError PipeChain :=
  match m with
  | .identity => .ok src
  | m =>
    if aesKeyLength key then
      if m = .unknown then .error (.wrap "Could not create stream encryptor"
        (.new "Cannot create encryptor for unknown cipher"))
      else .ok (src.pipe (.start (ws.encryptor m key initVect) "encryption"))
    else .error (.wrap "Could not create stream encryptor"
      (.wrap "Could not create AES encryptor" (.new "invalid key size")))

/-- The reader the base container is handed by a `Put` on compression over encryption. -/
def stackPiped (ws : Writers) (compress : CompressMode) (encrypt : EncryptMode)
    (key initVect : Bytes) (rdr : Reader) : Except GoError PipeChain :=
  (compress.piped ws (.source rdr [])).bind (encrypt.piped ws key initVect)

/-- The writers of a stack, the last one first. -/
def stackWriters (ws : Writers) (compress : CompressMode) (encrypt : EncryptMode)
    (key initVect : Bytes) : List Encoder :=
  (if encrypt = .identity then [] else [ws.encryptor encrypt key initVect]) ++
    if compress = .identity then [] else [ws.compressor compress]

section Stacks

variable {ws : Writers} {src c : PipeChain} {content : Bytes}

lemma CompressMode.piped_cases {m : CompressMode} (h : m.piped ws src = .ok c) :
    m = .identity ∧ c = src ∨
      m ≠ .identity ∧ c = src.pipe (.start (ws.compressor m) "compression") := by
  cases m with
  | identity => exact .inl ⟨rfl, (Except.ok.inj h).symm⟩
  | unknown => cases h
  | s2 => exact .inr ⟨by decide, (Except.ok.inj h).symm⟩
  | gzip => exact .inr ⟨by decide, (Except.ok.inj h).symm⟩

lemma EncryptMode.piped_cases {m : EncryptMode} {key initVect : Bytes}
    (h : m.piped ws key initVect src = .ok c) : m = .identity ∧ c = src ∨
      m ≠ .identity ∧ c = src.pipe (.start (ws.encryptor m key initVect) "encryption") := by
  unfold EncryptMode.piped at h
  split at h
  case _ => exact .inl ⟨rfl, (Except.ok.inj h).symm⟩
  case _ hm =>
    split_ifs at h
    exact .inr ⟨hm, (Except.ok.inj h).symm⟩

/-- A stack hands the base container a chain that is in order. -/
lemma inv_stackPiped {compress : CompressMode} {encrypt : EncryptMode} {key initVect : Bytes}
    {rdr : Reader} (h : stackPiped ws compress encrypt key initVect rdr = .ok c) :
    c.Inv rdr.data ∧ c.encoders = stackWriters ws compress encrypt key initVect := by
  unfold stackPiped at h
  cases hcompress : compress.piped ws (.source rdr []) with
  | error e =>
    rw [hcompress] at h
    cases h
  | ok c₁ =>
    rw [hcompress] at h
    obtain ⟨hinv, hout, henc⟩ : c₁.Inv rdr.data ∧ c₁.out = [] ∧
        c₁.encoders = if compress = .identity then [] else [ws.compressor compress] := by
      rcases CompressMode.piped_cases hcompress with ⟨hm, rfl⟩ | ⟨hm, rfl⟩
      · exact ⟨PipeChain.inv_source rdr, rfl, (if_pos hm).symm⟩
      · exact ⟨(PipeChain.inv_source rdr).start rfl _ _, rfl, (if_neg hm).symm⟩
    rcases EncryptMode.piped_cases h with ⟨hm, rfl⟩ | ⟨hm, rfl⟩
    · exact ⟨hinv, by simp [stackWriters, hm, henc]⟩
    · refine ⟨hinv.start hout _ _, ?_⟩
      simp [stackWriters, hm, PipeChain.encoders, henc, CopyStage.start]

/-- The writers make of a whole stream what the codec and the cipher make of it. -/
structure Writers.Implements {σ : Type} (ws : Writers) (codecs : Codecs) (cipher : Cipher σ) :
    Prop where
  compressor : ∀ m chunks, (ws.compressor m).complete chunks = (codecs m).encode chunks.flatten
  encryptor : ∀ m key initVect chunks,
    (ws.encryptor m key initVect).complete chunks = cipher.encrypt m key initVect chunks.flatten

/-- The complete stream is what the container model stores. -/
lemma Writers.Implements.stored_eq {σ : Type} {codecs : Codecs} {cipher : Cipher σ}
    (h : ws.Implements codecs cipher) {compress : CompressMode} {encrypt : EncryptMode}
    {key initVect stream : Bytes}
    (hstream : Encodes (stackWriters ws compress encrypt key initVect) content stream) :
    stream = encrypt.stored cipher key initVect (compress.stored codecs content) := by
  have hcompress : ∀ {mid}, Encodes (if compress = .identity then [] else [ws.compressor compress])
      content mid → mid = compress.stored codecs content := by
    intro mid hmid
    unfold CompressMode.stored
    split_ifs at hmid ⊢ with hm
    · exact hmid
    · obtain ⟨chunks, hchunks, rfl⟩ := hmid
      rw [h.compressor, show chunks.flatten = content from hchunks]
  rw [stackWriters] at hstream
  by_cases hm : encrypt = .identity
  · rw [if_pos hm] at hstream
    rw [EncryptMode.stored, if_pos hm]
    exact hcompress hstream
  · rw [if_neg hm] at hstream
    obtain ⟨chunks, hchunks, rfl⟩ := hstream
    rw [EncryptMode.stored, if_neg hm, h.encryptor, hcompress hchunks]

end Stacks

/-- For every content and every point at which the reader given to `Put` breaks off, every stack of
modes, every failure of an encoder and every interleaving of the goroutines: the end the base
container is told is `io.EOF` exactly if nothing has failed, and then it has read the complete
encoded stream.  It is told an end: until then a goroutine can go on or the base container can
read, and no run goes on for ever. -/
theorem uploads_never_truncated (ws : Writers) (compress : CompressMode) (encrypt : EncryptMode)
    (key initVect : Bytes) (rdr : Reader) (chain : PipeChain)
    (hput : stackPiped ws compress encrypt key initVect rdr = .ok chain) (es : List PutEvent)
    (u : PipedPut) (hrun : run PipedPut.step ⟨chain, none⟩ es = some u) :
    (∀ err, u.ended = some err → (err = none ↔ ¬ u.chain.Failed) ∧
        (err = none →
          Encodes (stackWriters ws compress encrypt key initVect) rdr.data u.chain.out)) ∧
      (u.ended = none → ∃ e u', e.isFailure = false ∧ u.step e = some u') ∧
      Halts PipedPut.step u := by
  obtain ⟨hchain, hencoders⟩ := inv_stackPiped hput
  have hstep : ∀ u e u', PipedPut.Inv chain.encoders rdr.data u → PipedPut.step u e = some u' →
      PipedPut.Inv chain.encoders rdr.data u' ∧ PipedPut.Further u' u :=
    fun _ _ _ h hstep => h.step hstep
  have hstart : PipedPut.Inv chain.encoders rdr.data ⟨chain, none⟩ := ⟨hchain, rfl, by simp⟩
  have hinv : PipedPut.Inv chain.encoders rdr.data u :=
    invariant (fun u e u' h hu => (hstep u e u' h hu).1) hstart hrun
  rw [← hencoders]
  exact ⟨fun err hended => hinv.of_ended hended, hinv.progress,
    halts_of_acc hstep hinv (PipedPut.acc_further u)⟩

/-- A compressor that appends a byte when it is closed. -/
def appending : Encoder where
  emit := List.flatten
  finish _ := [7]
  direct := false
  emit_nil := rfl
  emit_append chunks chunk := by simp
  finish_direct := by simp

/-- A cipher that counts every byte up. -/
def counting : Encoder where
  emit chunks := chunks.flatten.map (· + 1)
  finish _ := []
  direct := true
  emit_nil := rfl
  emit_append chunks chunk := by simp
  finish_direct _ _ := rfl

/-- The two of them, for every mode. -/
def toyWriters : Writers := ⟨fun _ => appending, fun _ _ _ => counting, fun _ _ _ => rfl⟩

/-- The reader breaks off behind one byte.  The byte goes through both pipes, and then the error
does. -/
def brokenOff : List PutEvent :=
  [.chain (.inner (.read 0)), .chain (.inner .advance), .chain (.read 0), .read 0, .chain .advance,
    .chain (.inner (.read 0)), .chain (.inner .advance), .chain (.read 0), .chain .advance, .read 0]

/-- The base container has read one byte, and is told the error. -/
theorem uploads_never_truncated_broken_off :
    ∃ chain u, stackPiped toyWriters .gzip .aesCTR (List.replicate 16 1) []
        ⟨[1], some errInputOutput⟩ = .ok chain ∧
      run PipedPut.step ⟨chain, none⟩ brokenOff = some u ∧ u.chain.out = [2] ∧
      u.ended = some (some (.wrap "Copy failed during stream encryption"
        (.wrap "Copy failed during stream compression" errInputOutput))) ∧ u.chain.Failed := by
  refine ⟨_, _, rfl, rfl, rfl, rfl, ?_⟩
  have hends := (uploads_never_truncated toyWriters .gzip .aesCTR (List.replicate 16 1) []
    ⟨[1], some errInputOutput⟩ _ rfl brokenOff _ rfl).1 _ rfl
  by_contra hfine
  cases hends.1.mpr hfine

end Usbd
