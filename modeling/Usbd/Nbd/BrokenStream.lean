import Usbd.Nbd.Pools

/-!
# When the command stream breaks

`writeStrmWorker` takes responses off their queue, at one of two receives, and has each write
itself to the command stream: a header and, for a read, the data.  Either write may fail behind any
part of its bytes.  `resp.Write` reports that, but the worker tests another variable: the `err` it
compares with `nil` is the one of `bufStrm.Flush`, and nothing ever goes into that buffer.  So the
worker does not cancel the context, and the next response follows the torn one.

`WriteWorker` is the worker with both of its receives, the flush between them and the writes of a
response one by one.  Responses arrive, the queue is closed and the context is cancelled by others
at any time, and the environment decides about each write.
-/

namespace Usbd

open Machine

/-! ## Writes -/

/-- `cmdStrm.Write`: what gets through, and the error. -/
def strmWrite (buf : Bytes) : Option ℕ → Bytes × Option GoError
  | none => (buf, none)
  | some n => (buf.take n, some errInputOutput)

/-- A `bufio.Writer`: the bytes it holds back, and the first error it has met. -/
structure BufWriter where
  buf : Bytes
  err : Option GoError
  deriving DecidableEq

/-- `bufio.Writer.Flush`: what it writes, and its error. -/
def BufWriter.flush (b : BufWriter) (fault : Option ℕ) : BufWriter × Bytes × Option GoError :=
  if b.err ≠ none then (b, [], b.err)
  else if b.buf = [] then (b, [], none)
  else
    let (out, err) := strmWrite b.buf fault
    (⟨b.buf.drop out.length, err⟩, out, err)

/-- The first half of `response.Write`, `respBuffer.WriteTo`.  An empty buffer is not written. -/
def Response.writeHeader (resp : Response) (fault : Option ℕ) :
    Response × Bytes × Option GoError :=
  if resp.respBuffer = [] then (resp, [], none)
  else
    let (out, err) := strmWrite resp.respBuffer fault
    ({ resp with respBuffer := resp.respBuffer.drop out.length }, out,
      err.map (.wrap "Could not write response to response stream"))

lemma Response.writeHeader_fields (resp : Response) (fault : Option ℕ) :
    (resp.writeHeader fault).1.reqType = resp.reqType ∧
      (resp.writeHeader fault).1.readBuffer = resp.readBuffer := by
  unfold Response.writeHeader
  split_ifs <;> exact ⟨rfl, rfl⟩

lemma Response.writeHeader_ok {resp : Response} {fault : Option ℕ}
    (h : (resp.writeHeader fault).2.2 = none) :
    (resp.writeHeader fault).2.1 = resp.respBuffer := by
  unfold Response.writeHeader at h ⊢
  split_ifs at h ⊢ with hempty
  · exact hempty.symm
  · cases fault with
    | none => rfl
    | some n => cases h

/-- The second half of `response.Write`, for the response to a read. -/
def Response.writeData (resp : Response) (fault : Option ℕ) : Bytes × Option GoError :=
  let (out, err) := strmWrite resp.readBuffer.bytes fault
  (out, err.map (.wrap "Could not write data read to response stream"))

lemma Response.writeData_ok {resp : Response} {fault : Option ℕ}
    (h : (resp.writeData fault).2 = none) : (resp.writeData fault).1 = resp.readBuffer.bytes := by
  cases fault with
  | none => rfl
  | some n => cases h

/-! ## The worker -/

/-- A response as it was taken off the queue, what has been written of it, and whether one of its
writes has failed. -/
structure SentReply where
  resp : Response
  bytes : Bytes
  torn : Bool
  deriving DecidableEq

/-- A write for the response. -/
def SentReply.add (r : SentReply) (out : Bytes) (err : Option GoError) : SentReply :=
  { r with bytes := r.bytes ++ out, torn := r.torn || err.isSome }

/-- Where the worker is. -/
inductive StrmPc
  /-- The outer `select`. -/
  | select
  /-- Its default branch, before `bufStrm.Flush`. -/
  | flush
  /-- The inner `select`. -/
  | wait
  /-- In `resp.Write`, before the header. -/
  | header (resp : Response) (r : SentReply)
  /-- In `resp.Write`, before the data. -/
  | data (resp : Response) (r : SentReply)
  /-- `resp.Write` has returned. -/
  | wrote (r : SentReply)
  | exited
  deriving DecidableEq

/-- The response in hand. -/
def StrmPc.reply? : StrmPc → Option SentReply
  | header _ r => some r
  | data _ r => some r
  | wrote r => some r
  | _ => none

/-- The worker with its queue, its stream and the processor's context.  `done` lists the responses
that are back in the pool; no step looks at it. -/
structure WriteWorker where
  respQueue : List Response
  closed : Bool
  pc : StrmPc
  err : Option GoError
  bufStrm : BufWriter
  strm : Bytes
  cancelled : Bool
  done : List SentReply
  deriving DecidableEq

/-- What can happen next. -/
inductive StrmEvent
  /-- An IO worker puts a response on the queue. -/
  | arrive (resp : Response)
  /-- The queue is closed. -/
  | close
  /-- Another goroutine cancels the context. -/
  | cancel
  /-- The worker takes its next step; a write it makes has this outcome. -/
  | advance (fault : Option ℕ)
  deriving DecidableEq

namespace WriteWorker

/-- Nothing has arrived yet. -/
def init : WriteWorker where
  respQueue := []
  closed := false
  pc := .select
  err := none
  bufStrm := ⟨[], none⟩
  strm := []
  cancelled := false
  done := []

variable (s : WriteWorker)

/-- The responses taken so far. -/
def replies : List SentReply := s.done ++ s.pc.reply?.toList

/-- `bufStrm.Flush()`. -/
def flushBuf (fault : Option ℕ) : WriteWorker × Option GoError :=
  let (bufStrm, out, err) := s.bufStrm.flush fault
  ({ s with bufStrm, strm := s.strm ++ out }, err)

/-- A receive from the queue that finds a response, or finds the queue closed.  The worker then
returns, by way of its deferred `Flush`. -/
def receive (fault : Option ℕ) : Option WriteWorker :=
  match s.respQueue with
  | resp :: rest => some { s with respQueue := rest, pc := .header resp ⟨resp, [], false⟩ }
  | [] => if s.closed then some { (s.flushBuf fault).1 with pc := .exited } else none

/-- `if err != nil { ... proc.ctxCancel() }`. -/
def cancelOnErr : WriteWorker := if s.err ≠ none then { s with cancelled := true } else s

/-- The next step of the worker. -/
def advance (fault : Option ℕ) : Option WriteWorker :=
  match s.pc with
  | .select => some ((s.receive fault).getD { s with pc := .flush })
  | .flush =>
    let (s, err) := s.flushBuf fault
    some { { s with err }.cancelOnErr with pc := .wait }
  | .wait => s.receive fault
  | .header resp r =>
    let (resp, out, err) := resp.writeHeader fault
    let r := r.add out err
    -- the error goes no further than the return of `resp.Write`
    some { s with
      strm := s.strm ++ out
      pc := if err = none ∧ resp.reqType = nbdRead then .data resp r else .wrote r }
  | .data resp r =>
    let (out, err) := resp.writeData fault
    some { s with strm := s.strm ++ out, pc := .wrote (r.add out err) }
  | .wrote r => some { s.cancelOnErr with pc := .select, done := s.done ++ [r] }
  | .exited => none

/-- The worker and those around it. -/
def step : StrmEvent → Option WriteWorker
  | .arrive resp =>
    if s.closed = false ∧ s.respQueue.length < respQueueCap then
      some { s with respQueue := s.respQueue ++ [resp] }
    else none
  | .close => if s.closed = false then some { s with closed := true } else none
  | .cancel => some { s with cancelled := true }
  | .advance fault => s.advance fault

/-- The stream is abandoned once a reply on it is torn: the context is cancelled, and nothing is
written of a later response. -/
def Abandoned : Prop :=
  (∀ r ∈ s.replies, r.torn = true → s.cancelled = true) ∧
    s.replies.Pairwise fun r r' => r.torn = true → r'.bytes = []

instance : Decidable s.Abandoned := inferInstanceAs (Decidable (_ ∧ _))

end WriteWorker

/-! ## What the worker keeps -/

/-- A response none of whose writes has failed is on the stream from beginning to end. -/
def SentReply.Whole (r : SentReply) : Prop := r.torn = false → r.bytes = r.resp.write.1

/-- The response in hand. -/
def StrmPc.Inv : StrmPc → Prop
  | header resp r => r = ⟨resp, [], false⟩
  | data resp r => r.resp.reqType = nbdRead ∧ resp.readBuffer = r.resp.readBuffer ∧
    r.bytes = r.resp.respBuffer
  | wrote r => r.Whole
  | _ => True

namespace WriteWorker

variable {s s' : WriteWorker} {fault : Option ℕ}

/-- `err` is never set, the buffer stays empty, and the stream is made of the replies. -/
structure Inv (s : WriteWorker) : Prop where
  err : s.err = none
  bufStrm : s.bufStrm = ⟨[], none⟩
  strm : s.strm = s.replies.flatMap SentReply.bytes
  whole : ∀ r ∈ s.done, r.Whole
  pc : s.pc.Inv

lemma inv_init : Inv init := ⟨rfl, rfl, rfl, by simp [init], trivial⟩

lemma Inv.flushBuf (h : Inv s) (fault : Option ℕ) : s.flushBuf fault = (s, none) := by
  have hflush : s.bufStrm.flush fault = (s.bufStrm, [], none) := by
    rw [h.bufStrm]
    rfl
  simp [WriteWorker.flushBuf, hflush]

lemma Inv.cancelOnErr (h : Inv s) : s.cancelOnErr = s := by
  simp [WriteWorker.cancelOnErr, h.err]

/-- A step of the worker, by the place it is at. -/
inductive Moves (s : WriteWorker) : StrmPc → WriteWorker → Prop
  /-- Without a response in hand nothing changes but the place, or a response is taken. -/
  | turns {p q : StrmPc} (hp : p.reply? = none) (hq : q.reply? = none) (hinv : q.Inv) :
      Moves s p { s with pc := q }
  | takes {p : StrmPc} {resp : Response} {rest : List Response} (hp : p.reply? = none) :
      Moves s p { s with respQueue := rest, pc := .header resp ⟨resp, [], false⟩ }
  | writes {p : StrmPc} {r : SentReply} {out : Bytes} {err : Option GoError} {q : StrmPc}
      (hp : p.reply? = some r) (hq : q.reply? = some (r.add out err)) (hinv : p.Inv → q.Inv) :
      Moves s p { s with strm := s.strm ++ out, pc := q }
  | recycles {r : SentReply} :
      Moves s (.wrote r) { s with pc := .select, done := s.done ++ [r] }

lemma receive_moves (h : Inv s) {p : StrmPc} (hp : p.reply? = none)
    (hrecv : s.receive fault = some s') : Moves s p s' := by
  unfold receive at hrecv
  split at hrecv
  · obtain rfl := Option.some.inj hrecv
    exact .takes hp
  · rw [h.flushBuf] at hrecv
    split_ifs at hrecv
    obtain rfl := Option.some.inj hrecv
    exact .turns hp rfl trivial

lemma advance_moves (h : Inv s) (hadv : s.advance fault = some s') : Moves s s.pc s' := by
  cases hpc : s.pc with
  | select =>
    simp only [advance, hpc, Option.some.injEq] at hadv
    subst hadv
    cases hrecv : s.receive fault with
    | none => exact .turns rfl rfl trivial
    | some t => exact receive_moves h rfl hrecv
  | flush =>
    -- the flush writes nothing and sets `err` to what it was
    have hcancel : ({ s with err := none } : WriteWorker).cancelOnErr = s := by
      rw [← h.err]
      exact h.cancelOnErr
    simp only [advance, hpc] at hadv
    simp only [h.flushBuf, hcancel, Option.some.injEq] at hadv
    subst hadv
    exact .turns rfl rfl trivial
  | wait =>
    simp only [advance, hpc] at hadv
    exact receive_moves h rfl hadv
  | header resp r =>
    simp only [advance, hpc, Option.some.injEq] at hadv
    subst hadv
    refine .writes rfl (by split_ifs <;> rfl) fun hr => ?_
    obtain rfl : r = ⟨resp, [], false⟩ := hr
    obtain ⟨htype, hbuf⟩ := resp.writeHeader_fields fault
    split_ifs with hdata
    · refine ⟨htype ▸ hdata.2, hbuf, ?_⟩
      simpa [SentReply.add] using Response.writeHeader_ok hdata.1
    · intro htorn
      have hok : (resp.writeHeader fault).2.2 = none := by simpa [SentReply.add] using htorn
      have hread : resp.reqType ≠ nbdRead := fun hread => hdata ⟨hok, htype ▸ hread⟩
      simpa [SentReply.add, Response.write, hread] using Response.writeHeader_ok hok
  | data resp r =>
    simp only [advance, hpc, Option.some.injEq] at hadv
    subst hadv
    refine .writes rfl rfl fun hr htorn => ?_
    obtain ⟨hread, hbuf, hbytes⟩ := hr
    have hok : (resp.writeData fault).2 = none := by
      simpa [SentReply.add] using (Bool.or_eq_false_iff.mp htorn).2
    simp [SentReply.add, Response.write, hread, hbytes, Response.writeData_ok hok, hbuf]
  | wrote r =>
    simp only [advance, hpc, h.cancelOnErr, Option.some.injEq] at hadv
    subst hadv
    exact .recycles
  | exited => simp only [advance, hpc, reduceCtorEq] at hadv

/-- Every step of the worker keeps the invariant, and none cancels the context. -/
lemma Inv.moves (h : Inv s) (hmoves : Moves s s.pc s') : Inv s' ∧ s'.cancelled = s.cancelled := by
  obtain ⟨herr, hbuf, hstrm, hwhole, hpc⟩ := h
  rw [replies] at hstrm
  generalize hp : s.pc = p at *
  cases hmoves with
  | turns hp' hq hinv =>
    refine ⟨⟨herr, hbuf, ?_, hwhole, hinv⟩, rfl⟩
    simpa [replies, hp', hq] using hstrm
  | takes hp' =>
    refine ⟨⟨herr, hbuf, ?_, hwhole, rfl⟩, rfl⟩
    change s.strm = (s.done ++ [_]).flatMap SentReply.bytes
    simpa [hp'] using hstrm
  | writes hp' hq hinv =>
    refine ⟨⟨herr, hbuf, ?_, hwhole, hinv hpc⟩, rfl⟩
    simp [replies, hq, hstrm, hp', SentReply.add]
  | recycles =>
    refine ⟨⟨herr, hbuf, ?_, ?_, trivial⟩, rfl⟩
    · simpa [replies, StrmPc.reply?] using hstrm
    · intro r hr
      rcases List.mem_append.mp hr with hr | hr
      · exact hwhole r hr
      · rw [List.mem_singleton.mp hr]
        exact hpc

/-- What every step keeps: only others cancel the context. -/
lemma Inv.step (h : Inv s) {e : StrmEvent} (hstep : s.step e = some s') :
    Inv s' ∧ (s'.cancelled = true ↔ s.cancelled = true ∨ e = .cancel) := by
  obtain ⟨herr, hbuf, hstrm, hwhole, hpc⟩ := id h
  cases e with
  | arrive resp =>
    simp only [WriteWorker.step] at hstep
    split_ifs at hstep
    obtain rfl := Option.some.inj hstep
    exact ⟨⟨herr, hbuf, hstrm, hwhole, hpc⟩, by simp⟩
  | close =>
    simp only [WriteWorker.step] at hstep
    split_ifs at hstep
    obtain rfl := Option.some.inj hstep
    exact ⟨⟨herr, hbuf, hstrm, hwhole, hpc⟩, by simp⟩
  | cancel =>
    obtain rfl := Option.some.inj hstep
    exact ⟨⟨herr, hbuf, hstrm, hwhole, hpc⟩, by simp⟩
  | advance fault =>
    obtain ⟨hinv, hcancelled⟩ := h.moves (advance_moves h hstep)
    exact ⟨hinv, by simp [hcancelled]⟩

/-- The context is cancelled in a run exactly if another goroutine does it. -/
lemma Inv.run (h : Inv s) {es : List StrmEvent} (hrun : run WriteWorker.step s es = some s') :
    Inv s' ∧ (s'.cancelled = true ↔ s.cancelled = true ∨ .cancel ∈ es) := by
  induction es generalizing s with
  | nil =>
    obtain rfl := Option.some.inj hrun
    exact ⟨h, by simp⟩
  | cons e es ih =>
    obtain ⟨t, ht, hrest⟩ := run_cons_eq_some.mp hrun
    obtain ⟨hinv, hcancelled⟩ := h.step ht
    obtain ⟨hinv', hcancelled'⟩ := ih hinv hrest
    refine ⟨hinv', ?_⟩
    rw [hcancelled', hcancelled, List.mem_cons, or_assoc, @eq_comm _ e]

end WriteWorker

open WriteWorker

/-- For every sequence of responses, every outcome of every write and every interleaving: the worker
never cancels the context itself, so the stream is abandoned only as long as no write fails.  What
it puts on the stream is the replies one after the other, torn or not, and each reply none of whose
own writes fails is there in full, whatever came before it. -/
theorem broken_stream_abandoned_iff (es : List StrmEvent) (s : WriteWorker)
    (hrun : run WriteWorker.step init es = some s) :
    (s.cancelled = true ↔ .cancel ∈ es) ∧
      (.cancel ∉ es → (s.Abandoned ↔ ∀ r ∈ s.replies, r.torn = false)) ∧
      s.strm = s.replies.flatMap SentReply.bytes ∧
      ∀ r ∈ s.done, r.torn = false → r.bytes = r.resp.write.1 := by
  obtain ⟨hinv, hcancelled⟩ := inv_init.run hrun
  have hcancelled : s.cancelled = true ↔ .cancel ∈ es := by simpa [init] using hcancelled
  refine ⟨hcancelled, fun hnone => ?_, hinv.strm, hinv.whole⟩
  constructor
  · intro habandoned r hr
    by_contra htorn
    have htorn : r.torn = true := by simpa using htorn
    exact hnone (hcancelled.mp (habandoned.1 r hr htorn))
  · intro hwhole
    refine ⟨fun r hr htorn => ?_, ?_⟩
    · rw [hwhole r hr] at htorn
      cases htorn
    · refine List.pairwise_of_forall_mem_list fun r hr _ _ htorn => ?_
      rw [hwhole r hr] at htorn
      cases htorn

/-- The response to a flush. -/
def flushReply (handle : UInt8) : Response :=
  newResponse.set ⟨nbdFlush, List.replicate 8 handle, 0, 0, [], rfl⟩ nbdRespSuccess

/-- Two responses arrive.  The header of the first breaks off behind five bytes, unless `fault` is
`none`; the second is written without an error. -/
def twoReplies (fault : Option ℕ) : List StrmEvent :=
  [.arrive (flushReply 1), .arrive (flushReply 2), .advance none, .advance fault, .advance none,
    .advance none, .advance none, .advance none]

/-- With both replies in full the stream has nothing to be abandoned for. -/
theorem broken_stream_abandoned_iff_two_replies :
    ∃ s, run WriteWorker.step init (twoReplies none) = some s ∧
      (s.Abandoned ↔ ∀ r ∈ s.replies, r.torn = false) :=
  ⟨_, rfl, (broken_stream_abandoned_iff (twoReplies none) _ rfl).2.1 (by decide)⟩

/-- Five bytes of the first reply, and behind them the second one in full; the context is not
cancelled. -/
theorem torn_reply_is_followed :
    ∃ s, run WriteWorker.step init (twoReplies (some 5)) = some s ∧ ¬ s.Abandoned ∧
      s.cancelled = false ∧
      s.strm = (flushReply 1).respBuffer.take 5 ++ (flushReply 2).respBuffer :=
  ⟨_, rfl, by decide +kernel, rfl, by decide +kernel⟩

end Usbd
