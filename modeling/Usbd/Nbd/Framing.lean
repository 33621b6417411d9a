import Usbd.Nbd.Execute

/-!
# Framing of replies

What a client of the protocol expects back for a request is `replyFrame`: the sixteen-byte header,
followed by the data when the request is a read that succeeded and by nothing otherwise.  It is a
function of the request and of what the device answered, `deviceReply`, in which no response object
occurs.

`execute_write_eq_frame_iff` compares it with what the code sends.  They agree on every request but
one kind: a read that fails, answered through a response object whose read buffer is not empty at
that point.  An aligned read that the device fails has just sized the buffer to its own count; a
misaligned read leaves the buffer as the object's previous use left it.  `reply_framing` carries the
comparison through whole runs — requests executed with recycled objects, responses waiting in the
queue, responses sent — and `parseReplies` reads a well-framed stream back.
-/

namespace Usbd

open Endian

variable {δ : Type}

/-! ## The expected frame -/

/-- What the device answers to a request: the error code, and the data of a successful read. -/
def deviceReply (dev : Device δ) (req : Request) (d : δ) : NbdErr × Bytes :=
  if req.reqType = nbdRead then
    if req.Aligned dev.blockSize then
      let (data, err) := (dev.readAt d req.count req.pos).1
      (ioErrCode err, if err = none then data else [])
    else (ndbRespErrInvalid, [])
  else if req.reqType = nbdWrite then
    if req.Aligned dev.blockSize then
      (ioErrCode (dev.writeAt d req.writeBuffer req.pos).1.2, [])
    else (ndbRespErrInvalid, [])
  else if req.reqType = nbdFlush then (ioErrCode (dev.flush d).1, [])
  else if req.reqType = nbdTrim then (ioErrCode (dev.trim d req.pos req.count).1, [])
  else (ndbRespErrInvalid, [])

/-- A reply as the client sees it. -/
structure Reply where
  handle : Bytes
  errCode : NbdErr
  data : Bytes
  deriving DecidableEq

/-- The reply a request is due. -/
def dueReply (dev : Device δ) (req : Request) (d : δ) : Reply where
  handle := req.handle
  errCode := (deviceReply dev req d).1
  data := (deviceReply dev req d).2

/-- A simple reply on the wire: magic, big-endian error code, handle, data. -/
def Reply.frame (r : Reply) : Bytes :=
  beBytes 4 NBD_REPLY_MAGIC ++ beBytes 4 r.errCode.toNat ++ r.handle ++ r.data

/-- A reply is well formed for a request: its handle, and data of exactly the requested length for
a read without error, no data otherwise. -/
structure Reply.Answers (r : Reply) (req : Request) : Prop where
  handle : r.handle = req.handle
  data : r.data.length =
    if req.reqType = nbdRead ∧ r.errCode = nbdRespSuccess then req.count else 0

lemma ioErrCode_eq_success {err : Option GoError} :
    ioErrCode err = nbdRespSuccess ↔ err = none := by
  cases err with
  | none => simp [ioErrCode]
  | some e =>
    simp only [ioErrCode, Option.isSome_some, if_true, reduceCtorEq, iff_false]
    decide

lemma deviceReply_data_of_ne {dev : Device δ} {req : Request} {d : δ}
    (hr : req.reqType ≠ nbdRead) : (deviceReply dev req d).2 = [] := by
  rw [deviceReply, if_neg hr]
  split_ifs <;> rfl

/-- The reply a request is due is well formed for it. -/
lemma dueReply_answers (dev : Device δ) (req : Request) (d : δ) :
    (dueReply dev req d).Answers req := by
  refine ⟨rfl, ?_⟩
  simp only [dueReply]
  by_cases hr : req.reqType = nbdRead
  · by_cases ha : req.Aligned dev.blockSize
    · simp only [deviceReply, hr, ha, if_true, true_and, ioErrCode_eq_success]
      split_ifs with herr
      · exact dev.readAt_full d req.count req.pos herr
      · rfl
    · have hinv : ndbRespErrInvalid ≠ nbdRespSuccess := by decide
      simp [deviceReply, hr, ha, hinv]
  · simp [hr, deviceReply_data_of_ne hr]

/-! ## What the code sends -/

/-- The kind of request on which code and protocol part: a read that fails while the read buffer
it is answered with is not empty. -/
def StrayData (dev : Device δ) (req : Request) (resp : Response) (d : δ) : Prop :=
  req.reqType = nbdRead ∧
    if req.Aligned dev.blockSize then
      (dev.readAt d req.count req.pos).1.2 ≠ none ∧ req.count ≠ 0
    else resp.readBuffer.len ≠ 0

/-- The header `execute` leaves in the response is the one of the reply the request is due. -/
lemma execute_respBuffer (dev : Device δ) (req : Request) (resp : Response) (d : δ) :
    (execute dev req resp d).1.respBuffer = replyHeader req (deviceReply dev req d).1 := by
  unfold execute deviceReply
  split_ifs with hr ha hw ha hf ht
  all_goals try rfl
  simp only [Response.getReadBuffer, Slice.len_resize, Response.set]

lemma execute_reqType (dev : Device δ) (req : Request) (resp : Response) (d : δ) :
    (execute dev req resp d).1.reqType = req.reqType := by
  unfold execute
  split_ifs <;> rfl

/-- A header is the frame of a reply without its data. -/
lemma replyHeader_append (req : Request) (errCode : NbdErr) (data : Bytes) :
    replyHeader req errCode ++ data = Reply.frame ⟨req.handle, errCode, data⟩ := by
  rw [replyHeader, leBytes_nbdReplyMagic, Reply.frame]

lemma execute_readBuffer_of_aligned {dev : Device δ} {req : Request} (resp : Response) {d : δ}
    (hr : req.reqType = nbdRead) (ha : req.Aligned dev.blockSize) :
    (execute dev req resp d).1.readBuffer =
      (resp.readBuffer.resize req.count).fill (dev.readAt d req.count req.pos).1.1 := by
  simp [execute, hr, ha, Response.getReadBuffer, Response.set]

lemma execute_readBuffer_of_not_aligned {dev : Device δ} {req : Request} (resp : Response) {d : δ}
    (hr : req.reqType = nbdRead) (ha : ¬ req.Aligned dev.blockSize) :
    (execute dev req resp d).1.readBuffer = resp.readBuffer := by
  simp [execute, hr, ha, Response.set]

/-- **One reply.**  What the response writes is the frame of the reply the request is due, unless
the request is a failing read answered with a non-empty read buffer; then it is not. -/
lemma execute_write_eq_frame_iff (dev : Device δ) (req : Request) (resp : Response) (d : δ) :
    (execute dev req resp d).1.write.1 = (dueReply dev req d).frame ↔
      ¬ StrayData dev req resp d := by
  have hframe : (dueReply dev req d).frame =
      replyHeader req (deviceReply dev req d).1 ++ (deviceReply dev req d).2 :=
    (replyHeader_append ..).symm
  rw [Response.write, execute_respBuffer, execute_reqType, hframe, List.append_cancel_left_eq]
  by_cases hr : req.reqType = nbdRead
  · rw [if_pos hr]
    by_cases ha : req.Aligned dev.blockSize
    · rw [execute_readBuffer_of_aligned resp hr ha]
      simp only [StrayData, deviceReply, hr, ha, if_true, true_and]
      by_cases herr : (dev.readAt d req.count req.pos).1.2 = none
      · have hfull := dev.readAt_full d req.count req.pos herr
        have hfill : ((resp.readBuffer.resize req.count).fill
            (dev.readAt d req.count req.pos).1.1).bytes = (dev.readAt d req.count req.pos).1.1 :=
          Slice.bytes_fill_of_length_eq (by simpa using hfull)
        simp [herr, hfill]
      · simp [herr, Slice.bytes_eq_nil_iff]
    · rw [execute_readBuffer_of_not_aligned resp hr ha]
      simp [StrayData, deviceReply, hr, ha, Slice.bytes_eq_nil_iff]
  · -- other kinds carry no data on either side
    simp [hr, deviceReply_data_of_ne hr, StrayData]

/-! ## Reading a reply stream -/

/-- The length of a reply header. -/
def ndbRespBytes : ℕ := 16

/-- A client reading the replies to the given requests, in the order they are sent: header, handle
check, and as much data as a successful read asked for. -/
def parseReplies : List Request → Bytes → Option (List Reply)
  | [], [] => some []
  | [], _ :: _ => none
  | req :: reqs, bs =>
    let errCode := UInt32.ofNat (ofBE ((bs.drop 4).take 4))
    let handle := (bs.drop 8).take ndbHandleLen
    let n := if req.reqType = nbdRead ∧ errCode = nbdRespSuccess then req.count else 0
    if bs.take 4 = beBytes 4 NBD_REPLY_MAGIC ∧ handle = req.handle ∧
        ndbRespBytes + n ≤ bs.length then
      (parseReplies reqs (bs.drop (ndbRespBytes + n))).map
        (⟨handle, errCode, (bs.drop ndbRespBytes).take n⟩ :: ·)
    else none

lemma parseReplies_frame {r : Reply} {req : Request} (h : r.Answers req) (reqs : List Request)
    (rest : Bytes) :
    parseReplies (req :: reqs) (r.frame ++ rest) = (parseReplies reqs rest).map (r :: ·) := by
  have hlen : r.handle.length = 8 := by rw [h.handle, req.handle_length]; rfl
  have hmagic : (r.frame ++ rest).take 4 = beBytes 4 NBD_REPLY_MAGIC := by
    simp [Reply.frame]
  have herr : ((r.frame ++ rest).drop 4).take 4 = beBytes 4 r.errCode.toNat := by
    simp [Reply.frame, List.drop_left']
  have hhandle : ((r.frame ++ rest).drop 8).take ndbHandleLen = r.handle := by
    simp [Reply.frame, List.take_append, List.drop_append, hlen, ndbHandleLen]
  have hcode : UInt32.ofNat (ofBE (beBytes 4 r.errCode.toNat)) = r.errCode := by
    rw [ofBE_beBytes (by have := r.errCode.toNat_lt; omega), UInt32.ofNat_toNat]
  have hheader : (beBytes 4 NBD_REPLY_MAGIC ++ beBytes 4 r.errCode.toNat ++ r.handle).length =
      ndbRespBytes := by
    simp [hlen, ndbRespBytes]
  have hdrop : (r.frame ++ rest).drop ndbRespBytes = r.data ++ rest := by
    rw [Reply.frame, List.append_assoc _ r.data rest, List.drop_left' hheader]
  have hle : ndbRespBytes + r.data.length ≤ (r.frame ++ rest).length := by
    simp only [Reply.frame, ndbRespBytes, List.length_append, length_beBytes, hlen]
    omega
  have htake : (r.data ++ rest).take r.data.length = r.data := List.take_left
  have hskip : (r.frame ++ rest).drop (ndbRespBytes + r.data.length) = rest := by
    rw [← List.drop_drop, hdrop, List.drop_left]
  simp only [parseReplies, hmagic, herr, hhandle, hcode, ← h.data, hdrop, hle, htake, hskip,
    h.handle, and_self, if_true]
  rw [← h.handle]

/-! ## Runs -/

/-- One step: an IO worker executes a request with a response object from the pool (a fresh one
when the pool has none at that index), or the writer sends the response at the head of the
queue. -/
inductive ReplyOp
  | exec (req : Request) (pick : ℕ)
  | send

/-- An executed request: the reply it is due, and the response object that carries it. -/
structure Served where
  req : Request
  due : Reply
  resp : Response

/-- A sent reply: the request, the reply it was due, and the bytes that were sent. -/
structure Sent where
  req : Request
  due : Reply
  bytes : Bytes

/-- The device, the pooled response objects, the responses waiting to be sent, and what was
sent. -/
structure ReplyRun (δ : Type) where
  dev : δ
  pool : List Response
  respQueue : List Served
  sent : List Sent

namespace ReplyRun

def get (r : ReplyRun δ) (pick : ℕ) : Response := (r.pool[pick]?).getD newResponse

def step (dev : Device δ) (r : ReplyRun δ) : ReplyOp → ReplyRun δ
  | .exec req pick =>
    let (resp, d) := execute dev req (r.get pick) r.dev
    { r with
      dev := d
      pool := r.pool.eraseIdx pick
      respQueue := r.respQueue ++ [⟨req, dueReply dev req r.dev, resp⟩] }
  | .send =>
    match r.respQueue with
    | [] => r
    | s :: rest =>
      let (bytes, resp) := s.resp.write
      { r with
        pool := resp :: r.pool
        respQueue := rest
        sent := r.sent ++ [⟨s.req, s.due, bytes⟩] }

def run (dev : Device δ) (r : ReplyRun δ) (ops : List ReplyOp) : ReplyRun δ :=
  ops.foldl (step dev) r

/-- A run starts with nothing queued or sent, over a pool of objects in any state. -/
def start (d : δ) (pool : List Response) : ReplyRun δ where
  dev := d
  pool := pool
  respQueue := []
  sent := []

/-- The bytes sent so far. -/
def stream (r : ReplyRun δ) : Bytes := r.sent.flatMap Sent.bytes

/-- Every reply sent, or waiting to be sent, is the frame of the reply its request is due. -/
def Framed (r : ReplyRun δ) : Prop :=
  (∀ s ∈ r.sent, s.bytes = s.due.frame) ∧ ∀ s ∈ r.respQueue, s.resp.write.1 = s.due.frame

/-- No request of the run is a failing read answered with a non-empty read buffer. -/
def NoStrayData (dev : Device δ) (r : ReplyRun δ) : List ReplyOp → Prop
  | [] => True
  | op :: ops =>
    (∀ req pick, op = .exec req pick → ¬ StrayData dev req (r.get pick) r.dev) ∧
    NoStrayData dev (r.step dev op) ops

/-- One step keeps everything framed exactly when it was and the step sends no stray data. -/
lemma framed_step_iff (dev : Device δ) (r : ReplyRun δ) (op : ReplyOp) :
    (r.step dev op).Framed ↔ r.Framed ∧
      ∀ req pick, op = .exec req pick → ¬ StrayData dev req (r.get pick) r.dev := by
  cases op with
  | exec req pick =>
    have hone := execute_write_eq_frame_iff dev req (r.get pick) r.dev
    have hop : (∀ req' pick', ReplyOp.exec req pick = .exec req' pick' →
        ¬ StrayData dev req' (r.get pick') r.dev) ↔ ¬ StrayData dev req (r.get pick) r.dev := by
      constructor
      · exact fun h => h req pick rfl
      · rintro h _ _ ⟨rfl, rfl⟩
        exact h
    rw [hop]
    simp only [Framed, step, List.mem_append, List.mem_singleton, or_imp, forall_and,
      forall_eq, hone, and_assoc]
  | send =>
    simp only [reduceCtorEq, false_implies, implies_true, and_true]
    cases hq : r.respQueue with
    | nil => simp [step, hq]
    | cons s rest =>
      simp only [Framed, step, hq, List.mem_append, List.mem_cons, or_imp, forall_and, forall_eq]
      tauto

/-- A run keeps everything framed exactly when none of its requests sends stray data. -/
lemma framed_run_iff (dev : Device δ) (r : ReplyRun δ) (ops : List ReplyOp) :
    (∀ n, (r.run dev (ops.take n)).Framed) ↔ r.Framed ∧ r.NoStrayData dev ops := by
  induction ops generalizing r with
  | nil => simp [run, NoStrayData]
  | cons op ops ih =>
    have hsplit : (∀ n, (r.run dev ((op :: ops).take n)).Framed) ↔
        r.Framed ∧ ∀ n, ((r.step dev op).run dev (ops.take n)).Framed := by
      constructor
      · intro h
        exact ⟨h 0, fun n => h (n + 1)⟩
      · rintro ⟨h0, h⟩ n
        cases n with
        | zero => exact h0
        | succ n => exact h n
    rw [hsplit, ih, framed_step_iff, NoStrayData]
    tauto

/-- Every executed request carries a reply that is well formed for it. -/
def Answered (r : ReplyRun δ) : Prop :=
  (∀ s ∈ r.sent, s.due.Answers s.req) ∧ ∀ s ∈ r.respQueue, s.due.Answers s.req

lemma Answered.step {dev : Device δ} {r : ReplyRun δ} (h : r.Answered) (op : ReplyOp) :
    (r.step dev op).Answered := by
  cases op with
  | exec req pick =>
    refine ⟨h.1, fun s hs => ?_⟩
    rcases List.mem_append.mp hs with hs | hs
    · exact h.2 s hs
    · rw [List.mem_singleton.mp hs]
      exact dueReply_answers dev req r.dev
  | send =>
    cases hq : r.respQueue with
    | nil => simpa [ReplyRun.step, hq] using h
    | cons s rest =>
      obtain ⟨hsent, hqueue⟩ := h
      rw [hq] at hqueue
      simp only [ReplyRun.step, hq, Answered, List.mem_append, List.mem_singleton]
      refine ⟨?_, fun x hx => hqueue x (List.mem_cons_of_mem _ hx)⟩
      rintro x (hx | rfl)
      · exact hsent x hx
      · exact hqueue s (List.mem_cons_self ..)

lemma Answered.run {dev : Device δ} {r : ReplyRun δ} (h : r.Answered) (ops : List ReplyOp) :
    (r.run dev ops).Answered := by
  induction ops generalizing r with
  | nil => exact h
  | cons op ops ih => exact ih (h.step op)

/-- A framed stream parses back into one reply per request. -/
lemma parseReplies_stream : ∀ sent : List Sent,
    (∀ s ∈ sent, s.bytes = s.due.frame) → (∀ s ∈ sent, s.due.Answers s.req) →
    parseReplies (sent.map Sent.req) (sent.flatMap Sent.bytes) = some (sent.map Sent.due)
  | [], _, _ => rfl
  | s :: sent, hf, ha => by
      rw [List.map_cons, List.flatMap_cons, hf s (List.mem_cons_self ..),
        parseReplies_frame (ha s (List.mem_cons_self ..)),
        parseReplies_stream sent (fun x hx => hf x (List.mem_cons_of_mem _ hx))
          (fun x hx => ha x (List.mem_cons_of_mem _ hx))]
      rfl

/-- What the protocol demands of a run: every reply is the frame its request is due, whatever the
response object was used for before, and the stream reads back as one reply per request. -/
def WellFramed (r : ReplyRun δ) : Prop :=
  r.Framed ∧ r.Answered ∧
    parseReplies (r.sent.map Sent.req) r.stream = some (r.sent.map Sent.due)

/-- **Reply framing.**  Over any device and any pool of response objects, a run is well framed at
every point exactly when none of its requests is a failing read answered with a read buffer that
is not empty: an aligned non-empty read that the device fails, or a misaligned read served with an
object whose last read buffer was not empty. -/
theorem reply_framing (dev : Device δ) (d : δ) (pool : List Response) (ops : List ReplyOp) :
    (∀ n, ((start d pool).run dev (ops.take n)).WellFramed) ↔
      (start d pool).NoStrayData dev ops := by
  have hstart : (start d pool).Framed := by simp [Framed, start]
  have hans : (start d pool).Answered := by simp [Answered, start]
  have hiff := framed_run_iff dev (start d pool) ops
  constructor
  · intro h
    exact (hiff.mp fun n => (h n).1).2
  · intro h n
    have hf := hiff.mpr ⟨hstart, h⟩ n
    have ha : ((start d pool).run dev (ops.take n)).Answered := hans.run _
    exact ⟨hf, ha, parseReplies_stream _ hf.1 ha.1⟩

end ReplyRun

/-- A one-block device that fails every read. -/
def failingDevice : Device Unit where
  blockSize := 4
  readAt := fun _ _ _ => (([], some errInputOutput), ())
  writeAt := fun _ buf _ => ((buf.length, none), ())
  trim := fun _ _ _ => (none, ())
  flush := fun _ => (none, ())
  readAt_le := by simp
  readAt_full := by simp

/-- A read of one block of `failingDevice`. -/
def failingRead : Request where
  reqType := nbdRead
  handle := [1, 2, 3, 4, 5, 6, 7, 8]
  pos := 0
  count := 4
  writeBuffer := []
  handle_length := rfl

/-- The reply to a failed read carries the error code and, after it, four bytes of data that the
protocol does not allow; the stream does not parse. -/
theorem failed_read_sends_data :
    let r := (ReplyRun.start () []).run failingDevice [.exec failingRead 0, .send]
    r.sent.map Sent.bytes =
        [[0x67, 0x44, 0x66, 0x98, 0, 0, 0, 5, 1, 2, 3, 4, 5, 6, 7, 8, 0, 0, 0, 0]] ∧
      r.sent.map (fun s => s.due.frame) =
        [[0x67, 0x44, 0x66, 0x98, 0, 0, 0, 5, 1, 2, 3, 4, 5, 6, 7, 8]] ∧
      parseReplies [failingRead] r.stream = none ∧ ¬ r.WellFramed := by
  have hparse : parseReplies [failingRead]
      ((ReplyRun.start () []).run failingDevice [.exec failingRead 0, .send]).stream = none := by
    decide
  refine ⟨by decide, by decide, hparse, ?_⟩
  rintro ⟨-, -, h⟩
  exact absurd (hparse.symm.trans h) (by simp)

end Usbd
