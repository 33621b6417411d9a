import Usbd.Foundations.Ownership
import Usbd.Nbd.Framing
import Usbd.Nbd.HoldBalance

/-!
# Requests and responses as objects

The request processor once more, with the objects its queues and workers pass on.  A request is
decoded into an object from one pool and executed into an object from another; the reader, the
workers and the writer hold the objects by name, and each reads what is in them when it comes to it.
A pool hands out any object that is in it, or a new one.  The response to a request goes to the
writer through a second bounded queue, and the request goes back to its pool before or after it
does, as the queue has room.

`PoolProc.step` is that machine.  A device call returns what the event says, so that any device will
do.  `PoolProc.abs` is the processor with the objects read off, and `Owned.simulates` says that it
does what `ReqProc` does: as long as every object has one owner, nobody sees another's.
-/

namespace Usbd

open Ownership

/-- The capacity of `respQueue`. -/
def respQueueCap : ℕ := 32

/-- What a device call returns: the bytes a read has put at the start of its buffer, and the
error. -/
structure DevAnswer where
  data : Bytes
  err : Option GoError
  deriving DecidableEq

/-- What `io.ReaderAt` demands of the answer to a read. -/
def DevAnswer.Fits (ans : DevAnswer) (req : Request) : Prop :=
  req.reqType = nbdRead →
    ans.data.length ≤ req.count ∧ (ans.err = none → ans.data.length = req.count)

instance (ans : DevAnswer) (req : Request) : Decidable (ans.Fits req) :=
  inferInstanceAs (Decidable (_ → _))

/-- The device is called for the request. -/
def Request.Reaches (req : Request) (blockSize : ℤ) : Prop :=
  (req.reqType = nbdRead ∨ req.reqType = nbdWrite) ∧ req.Aligned blockSize ∨
    req.reqType = nbdFlush ∨ req.reqType = nbdTrim

instance (req : Request) (blockSize : ℤ) : Decidable (req.Reaches blockSize) :=
  inferInstanceAs (Decidable (_ ∨ _))

/-- Where a worker is, with the request and the response object it holds. -/
inductive PoolWorker
  | idle
  /-- With a request, on the way into `execute`. -/
  | taken (a : ℕ)
  /-- Inside `execute`. -/
  | running (a b : ℕ) (pc : Pc) (errCode : NbdErr)
  | executed (a b : ℕ)
  /-- The response is on its queue. -/
  | queued (a : ℕ)
  /-- The queue was full. -/
  | refused (a b : ℕ)
  /-- The request is back in its pool. -/
  | blocked (b : ℕ)
  | exited
  deriving DecidableEq

/-- The request object a worker holds. -/
def PoolWorker.req? : PoolWorker → Option ℕ
  | taken a => some a
  | running a _ _ _ => some a
  | executed a _ => some a
  | queued a => some a
  | refused a _ => some a
  | _ => none

/-- The response object a worker holds. -/
def PoolWorker.resp? : PoolWorker → Option ℕ
  | running _ b _ _ => some b
  | executed _ b => some b
  | refused _ b => some b
  | blocked b => some b
  | _ => none

/-- Where the writer is. -/
inductive PoolWriter
  | idle
  | writing (b : ℕ)
  | written (b : ℕ)
  | exited
  deriving DecidableEq

/-- The response object the writer holds. -/
def PoolWriter.resp? : PoolWriter → Option ℕ
  | writing b => some b
  | written b => some b
  | _ => none

/-- The request processor with its objects.  `answers` records what the device has returned for a
position of the stream, `replyOf` the position a response object answers and `replies` what has been
written; no step looks at them. -/
structure PoolProc where
  decoded : ℕ
  epoch : ℕ
  locks : ℕ → RWMutex
  pending : Option ℕ
  readerDone : Bool
  reqQueue : List ℕ
  workers : ℕ → PoolWorker
  respQueue : List ℕ
  writer : PoolWriter
  reqs : ℕ → Task
  reqPool : List ℕ
  reqsMade : ℕ
  resps : ℕ → Response
  respPool : List ℕ
  respsMade : ℕ
  returned : Finset ℕ
  released : Finset ℕ
  finished : Finset ℕ
  answers : ℕ → Option DevAnswer
  replyOf : ℕ → ℕ
  replies : List (ℕ × Bytes)

/-- What can happen next.  The object a pool hands out is one that is in it, or a new one. -/
inductive PoolEvent
  | decode (pick : Option ℕ)
  | enqueue
  | cancel
  | dequeue (w : ℕ)
  /-- A worker with a request gets a response object. -/
  | fetch (w : ℕ) (pick : Option ℕ)
  | advance (w : ℕ) (ans : DevAnswer)
  /-- A worker tries to put its response on the queue. -/
  | offer (w : ℕ)
  /-- A worker puts its request back. -/
  | recycle (w : ℕ)
  /-- A worker that has found the queue full puts its response on it. -/
  | send (w : ℕ)
  | exit (w : ℕ)
  | receive
  | write
  | putBack
  | stop
  deriving DecidableEq

namespace PoolProc

def newRequest : Task := ⟨0, ⟨0, zeros ndbHandleLen, 0, 0, [], length_zeros ndbHandleLen⟩, 0⟩

/-- Nothing decoded yet, every worker idle, the pools empty. -/
def init : PoolProc where
  decoded := 0
  epoch := 0
  locks := fun _ => RWMutex.new
  pending := none
  readerDone := false
  reqQueue := []
  workers := fun _ => .idle
  respQueue := []
  writer := .idle
  reqs := fun _ => newRequest
  reqPool := []
  reqsMade := 0
  resps := fun _ => newResponse
  respPool := []
  respsMade := 0
  returned := ∅
  released := ∅
  finished := ∅
  answers := fun _ => none
  replyOf := fun _ => 0
  replies := []

variable (s : PoolProc)

def setWorker (w : ℕ) (x : PoolWorker) : PoolProc :=
  { s with workers := Function.update s.workers w x }

def setLock (e : ℕ) (m : RWMutex) : PoolProc :=
  { s with locks := Function.update s.locks e m }

def setResp (b : ℕ) (resp : Response) : PoolProc :=
  { s with resps := Function.update s.resps b resp }

def getReq : Option ℕ → Option (ℕ × PoolProc)
  | none => some (s.reqsMade, { s with reqsMade := s.reqsMade + 1 })
  | some a => if a ∈ s.reqPool then some (a, { s with reqPool := s.reqPool.erase a }) else none

def getResp : Option ℕ → Option (ℕ × PoolProc)
  | none =>
    some (s.respsMade, { s.setResp s.respsMade newResponse with respsMade := s.respsMade + 1 })
  | some b => if b ∈ s.respPool then some (b, { s with respPool := s.respPool.erase b }) else none

/-- The reader's treatment of a request decoded into object `a`, by its type. -/
def decodeReq (a : ℕ) (req : Request) : Option PoolProc :=
  let s := { s with
    reqs := Function.update s.reqs a ⟨s.decoded, req, s.epoch⟩
    decoded := s.decoded + 1 }
  if req.reqType = nbdWrite ∨ req.reqType = nbdTrim then
    (s.locks s.epoch).rLock.map fun m => { s.setLock s.epoch m with pending := some a }
  else if req.reqType = nbdFlush then
    some { s with pending := some a, epoch := s.epoch + 1 }
  else if req.reqType = nbdDisconnect then
    some { s with readerDone := true }
  else some { s with pending := some a }

/-- The end of `execute`: the response is set, from the request as it is then. -/
def finish (w a b : ℕ) (errCode : NbdErr) : PoolProc :=
  { (s.setResp b ((s.resps b).set (s.reqs a).req errCode)).setWorker w (.executed a b) with
    replyOf := Function.update s.replyOf b (s.reqs a).idx
    finished := insert (s.reqs a).idx s.finished }

/-- The device is called, for a read with the buffer of the response. -/
def enter (w a b : ℕ) : PoolProc :=
  (if (s.reqs a).req.reqType = nbdRead then s.setResp b ((s.resps b).getReadBuffer (s.reqs a).req)
    else s).setWorker w (.running a b .inDev nbdRespSuccess)

/-- The device call has returned. -/
def devReturn (w a b : ℕ) (ans : DevAnswer) : PoolProc :=
  { (if (s.reqs a).req.reqType = nbdRead then
      s.setResp b { s.resps b with readBuffer := (s.resps b).readBuffer.fill ans.data }
    else s).setWorker w (.running a b .returned (ioErrCode ans.err)) with
    returned := insert (s.reqs a).idx s.returned
    answers := Function.update s.answers (s.reqs a).idx (some ans) }

/-- The dispatch on the request type. -/
def dispatch (blockSize : ℤ) (w a b : ℕ) : PoolProc :=
  if (s.reqs a).req.reqType = nbdRead ∨ (s.reqs a).req.reqType = nbdWrite then
    if (s.reqs a).req.Aligned blockSize then s.enter w a b else s.finish w a b ndbRespErrInvalid
  else if (s.reqs a).req.reqType = nbdFlush then
    (s.setLock (s.reqs a).flushMu (s.locks (s.reqs a).flushMu).lockRequest).setWorker w
      (.running a b .lockWait nbdRespSuccess)
  else if (s.reqs a).req.reqType = nbdTrim then s.enter w a b
  else s.finish w a b ndbRespErrInvalid

/-- The rest of `execute` behind the device call, with the deferred `RUnlock` of a write or trim. -/
def leave (w a b : ℕ) (errCode : NbdErr) : Option PoolProc :=
  if (s.reqs a).req.reqType = nbdWrite ∨ (s.reqs a).req.reqType = nbdTrim then
    (s.locks (s.reqs a).flushMu).rUnlock.map fun m =>
      { (s.setLock (s.reqs a).flushMu m).finish w a b errCode with
        released := insert (s.reqs a).idx s.released }
  else some (s.finish w a b errCode)

/-- One step of a worker inside `execute`. -/
def advance (blockSize : ℤ) (w : ℕ) (ans : DevAnswer) : Option PoolProc :=
  match s.workers w with
  | .running a b .start _ => some (s.dispatch blockSize w a b)
  | .running a b .lockWait errCode =>
    (s.locks (s.reqs a).flushMu).lockAcquire.map fun m =>
      (s.setLock (s.reqs a).flushMu m).setWorker w (.running a b .locked errCode)
  | .running a b .locked errCode =>
    some ((s.setLock (s.reqs a).flushMu (s.locks (s.reqs a).flushMu).unlock).setWorker w
      (.running a b .unlocked errCode))
  | .running a b .unlocked _ => some (s.enter w a b)
  | .running a b .inDev _ =>
    if ans.Fits (s.reqs a).req then some (s.devReturn w a b ans) else none
  | .running a b .returned errCode => s.leave w a b errCode
  | _ => none

/-- A worker gets the response object for its request. -/
def fetch (w : ℕ) (pick : Option ℕ) : Option PoolProc :=
  match s.workers w with
  | .taken a => (s.getResp pick).map fun (b, s) =>
    s.setWorker w (.running a b .start nbdRespSuccess)
  | _ => none

/-- A worker with its response in hand: it goes on the queue if there is room. -/
def offer (w : ℕ) : Option PoolProc :=
  match s.workers w with
  | .executed a b =>
    if s.respQueue.length < respQueueCap then
      some { s.setWorker w (.queued a) with respQueue := s.respQueue ++ [b] }
    else some (s.setWorker w (.refused a b))
  | _ => none

def recycle (w : ℕ) : Option PoolProc :=
  match s.workers w with
  | .queued a => some { s.setWorker w .idle with reqPool := a :: s.reqPool }
  | .refused a b => some { s.setWorker w (.blocked b) with reqPool := a :: s.reqPool }
  | _ => none

/-- The send that waits for room. -/
def send (w : ℕ) : Option PoolProc :=
  match s.workers w with
  | .blocked b =>
    if s.respQueue.length < respQueueCap then
      some { s.setWorker w .idle with respQueue := s.respQueue ++ [b] }
    else none
  | _ => none

/-- The writer takes a response, writes it and puts it back, and stops when its queue is closed. -/
def writerStep (n : ℕ) : PoolEvent → Option PoolProc
  | .receive =>
    match s.writer, s.respQueue with
    | .idle, b :: rest => some { s with writer := .writing b, respQueue := rest }
    | _, _ => none
  | .write =>
    match s.writer with
    | .writing b =>
      let (bytes, resp) := (s.resps b).write
      some { s.setResp b resp with
        writer := .written b
        replies := s.replies ++ [(s.replyOf b, bytes)] }
    | _ => none
  | .putBack =>
    match s.writer with
    | .written b => some { s with writer := .idle, respPool := b :: s.respPool }
    | _ => none
  | .stop =>
    if s.writer = .idle ∧ s.respQueue = [] ∧ ∀ w < n, s.workers w = .exited then
      some { s with writer := .exited }
    else none
  | _ => none

/-- `reqQueue` is closed: the reader has returned. -/
def Closed : Prop := s.readerDone = true ∧ s.pending = none

instance : Decidable s.Closed := inferInstanceAs (Decidable (_ ∧ _))

/-- The processor over a stream, with a device of the given block size and `n` IO workers. -/
def step (blockSize : ℤ) (stream : List Request) (n : ℕ) (s : PoolProc) :
    PoolEvent → Option PoolProc
  | .decode pick =>
    if s.pending = none ∧ s.readerDone = false then
      stream[s.decoded]?.bind fun req => (s.getReq pick).bind fun (a, s) => s.decodeReq a req
    else none
  | .enqueue =>
    if s.reqQueue.length < reqQueueCap then
      s.pending.map fun a => { s with pending := none, reqQueue := s.reqQueue ++ [a] }
    else none
  | .cancel => if s.pending = none then some { s with readerDone := true } else none
  | .dequeue w =>
    if w < n ∧ s.workers w = .idle then
      match s.reqQueue with
      | [] => none
      | a :: rest => some ({ s with reqQueue := rest }.setWorker w (.taken a))
    else none
  | .fetch w pick => s.fetch w pick
  | .advance w ans => if w < n then s.advance blockSize w ans else none
  | .offer w => s.offer w
  | .recycle w => s.recycle w
  | .send w => s.send w
  | .exit w =>
    if w < n ∧ s.workers w = .idle ∧ s.Closed ∧ s.reqQueue = [] then
      some (s.setWorker w .exited)
    else none
  | e => s.writerStep n e

/-! ## What a worker can do -/

/-- The step of worker `w` inside `execute` of object `a` into object `b`, by the place it is at and
the error code so far. -/
inductive Acts (blockSize : ℤ) (s : PoolProc) (w a b : ℕ) (ans : DevAnswer) :
    Pc → NbdErr → PoolProc → Prop
  /-- A flush on its way through the lock. -/
  | waits {pc pc' : Pc} {code code' : NbdErr} {locks : ℕ → RWMutex} (hpc : pc' ≠ .inDev)
      (hpc' : pc' ≠ .returned) : Acts blockSize s w a b ans pc code
        { s with locks, workers := Function.update s.workers w (.running a b pc' code') }
  | enters {pc : Pc} {code : NbdErr}
      (hreach : pc = .unlocked ∨ (s.reqs a).req.Reaches blockSize) :
      Acts blockSize s w a b ans pc code (s.enter w a b)
  /-- A misaligned request, or one of an unknown type. -/
  | refuses {code : NbdErr} (hout : ¬ (s.reqs a).req.Reaches blockSize) :
      Acts blockSize s w a b ans .start code (s.finish w a b ndbRespErrInvalid)
  | returns {code : NbdErr} (hfits : ans.Fits (s.reqs a).req) :
      Acts blockSize s w a b ans .inDev code (s.devReturn w a b ans)
  | leaves {code : NbdErr} {locks : ℕ → RWMutex} {released : Finset ℕ} :
      Acts blockSize s w a b ans .returned code { s.finish w a b code with locks, released }

section Acts

variable {blockSize : ℤ} {s s' : PoolProc} {w a b : ℕ} {ans : DevAnswer} {code : NbdErr}

lemma dispatch_acts :
    Acts blockSize s w a b ans .start code (s.dispatch blockSize w a b) := by
  unfold dispatch
  split_ifs with hrw hal hf htr
  · exact .enters (Or.inr (Or.inl ⟨hrw, hal⟩))
  · refine .refuses ?_
    rintro (⟨-, hal'⟩ | hf | htr)
    · exact hal hal'
    · rw [hf] at hrw
      exact absurd hrw (by decide)
    · rw [htr] at hrw
      exact absurd hrw (by decide)
  · exact .waits (by decide) (by decide)
  · exact .enters (Or.inr (Or.inr (Or.inr htr)))
  · refine .refuses ?_
    rintro (⟨hrw', -⟩ | hf' | htr')
    · exact hrw hrw'
    · exact hf hf'
    · exact htr htr'

lemma leave_acts (h : s.leave w a b code = some s') :
    Acts blockSize s w a b ans .returned code s' := by
  unfold leave at h
  split_ifs at h
  · obtain ⟨m, -, rfl⟩ := Option.map_eq_some_iff.mp h
    exact .leaves
  · obtain rfl := Option.some.inj h
    exact .leaves

lemma advance_acts (h : s.advance blockSize w ans = some s') :
    ∃ a b pc code, s.workers w = .running a b pc code ∧ Acts blockSize s w a b ans pc code s' := by
  unfold advance at h
  cases hw : s.workers w with
  | running a b pc code =>
    refine ⟨a, b, pc, code, rfl, ?_⟩
    simp only [hw] at h
    cases pc with
    | start =>
      obtain rfl := Option.some.inj h
      exact dispatch_acts
    | lockWait =>
      obtain ⟨m, -, rfl⟩ := Option.map_eq_some_iff.mp h
      exact .waits (by decide) (by decide)
    | locked =>
      obtain rfl := Option.some.inj h
      exact .waits (by decide) (by decide)
    | unlocked =>
      obtain rfl := Option.some.inj h
      exact .enters (Or.inl rfl)
    | inDev =>
      simp only at h
      split_ifs at h with hfits
      obtain rfl := Option.some.inj h
      exact .returns hfits
    | returned => exact leave_acts h
  | _ => simp [hw] at h

/-- What can happen, and what comes of it. -/
inductive Happens (blockSize : ℤ) (stream : List Request) (n : ℕ) (s : PoolProc) :
    PoolEvent → PoolProc → Prop
  | decodes {pick : Option ℕ} {req : Request} {a : ℕ} {s₁ s' : PoolProc} (hpend : s.pending = none)
      (hdone : s.readerDone = false) (hreq : stream[s.decoded]? = some req)
      (hget : s.getReq pick = some (a, s₁)) (hdec : s₁.decodeReq a req = some s') :
      Happens blockSize stream n s (.decode pick) s'
  | enqueues {a : ℕ} (hroom : s.reqQueue.length < reqQueueCap) (hpend : s.pending = some a) :
      Happens blockSize stream n s .enqueue
        { s with pending := none, reqQueue := s.reqQueue ++ [a] }
  | cancels (hpend : s.pending = none) :
      Happens blockSize stream n s .cancel { s with readerDone := true }
  | dequeues {w a : ℕ} {rest : List ℕ} (hlt : w < n) (hidle : s.workers w = .idle)
      (hq : s.reqQueue = a :: rest) : Happens blockSize stream n s (.dequeue w)
        ({ s with reqQueue := rest }.setWorker w (.taken a))
  | fetches {w : ℕ} {pick : Option ℕ} {a b : ℕ} {s₁ : PoolProc} (hw : s.workers w = .taken a)
      (hget : s.getResp pick = some (b, s₁)) : Happens blockSize stream n s (.fetch w pick)
        (s₁.setWorker w (.running a b .start nbdRespSuccess))
  | acts {w a b : ℕ} {ans : DevAnswer} {pc : Pc} {code : NbdErr} {s' : PoolProc} (hlt : w < n)
      (hw : s.workers w = .running a b pc code) (hadv : s.advance blockSize w ans = some s')
      (hacts : Acts blockSize s w a b ans pc code s') :
      Happens blockSize stream n s (.advance w ans) s'
  | offers {w a b : ℕ} (hw : s.workers w = .executed a b) : Happens blockSize stream n s (.offer w)
      { s.setWorker w (.queued a) with respQueue := s.respQueue ++ [b] }
  | findsFull {w a b : ℕ} (hw : s.workers w = .executed a b) :
      Happens blockSize stream n s (.offer w) (s.setWorker w (.refused a b))
  | recycles {w a : ℕ} (hw : s.workers w = .queued a) : Happens blockSize stream n s (.recycle w)
      { s.setWorker w .idle with reqPool := a :: s.reqPool }
  | recyclesFirst {w a b : ℕ} (hw : s.workers w = .refused a b) :
      Happens blockSize stream n s (.recycle w)
        { s.setWorker w (.blocked b) with reqPool := a :: s.reqPool }
  | sends {w b : ℕ} (hw : s.workers w = .blocked b) : Happens blockSize stream n s (.send w)
      { s.setWorker w .idle with respQueue := s.respQueue ++ [b] }
  | exits {w : ℕ} (hlt : w < n) (hidle : s.workers w = .idle) (hclosed : s.Closed)
      (hq : s.reqQueue = []) : Happens blockSize stream n s (.exit w)
        (s.setWorker w .exited)
  | receives {b : ℕ} {rest : List ℕ} (hwriter : s.writer = .idle) (hq : s.respQueue = b :: rest) :
      Happens blockSize stream n s .receive { s with writer := .writing b, respQueue := rest }
  | writes {b : ℕ} (hwriter : s.writer = .writing b) : Happens blockSize stream n s .write
      { s.setResp b (s.resps b).write.2 with
        writer := .written b, replies := s.replies ++ [(s.replyOf b, (s.resps b).write.1)] }
  | putsBack {b : ℕ} (hwriter : s.writer = .written b) : Happens blockSize stream n s .putBack
      { s with writer := .idle, respPool := b :: s.respPool }
  | stops (hwriter : s.writer = .idle) :
      Happens blockSize stream n s .stop { s with writer := .exited }

lemma worker_happens {stream : List Request} {n : ℕ} {e : PoolEvent}
    (hstep : s.step blockSize stream n e = some s')
    (he : e = .offer w ∨ e = .recycle w ∨ e = .send w) :
    Happens blockSize stream n s e s' := by
  rcases he with rfl | rfl | rfl
  · simp only [step, offer] at hstep
    split at hstep
    · next a b hw =>
      split_ifs at hstep
      · obtain rfl := Option.some.inj hstep
        exact .offers hw
      · obtain rfl := Option.some.inj hstep
        exact .findsFull hw
    · cases hstep
  · simp only [step, recycle] at hstep
    split at hstep
    · next a hw =>
      obtain rfl := Option.some.inj hstep
      exact .recycles hw
    · next a b hw =>
      obtain rfl := Option.some.inj hstep
      exact .recyclesFirst hw
    · cases hstep
  · simp only [step, send] at hstep
    split at hstep
    · next b hw =>
      split_ifs at hstep
      obtain rfl := Option.some.inj hstep
      exact .sends hw
    · cases hstep

lemma writerStep_happens {stream : List Request} {n : ℕ} {e : PoolEvent}
    (hstep : s.writerStep n e = some s') : Happens blockSize stream n s e s' := by
  cases e with
  | receive =>
    simp only [writerStep] at hstep
    split at hstep
    · next b rest hwriter hq =>
      obtain rfl := Option.some.inj hstep
      exact .receives hwriter hq
    · cases hstep
  | write =>
    simp only [writerStep] at hstep
    split at hstep
    · next b hwriter =>
      obtain rfl := Option.some.inj hstep
      exact .writes hwriter
    · cases hstep
  | putBack =>
    simp only [writerStep] at hstep
    split at hstep
    · next b hwriter =>
      obtain rfl := Option.some.inj hstep
      exact .putsBack hwriter
    · cases hstep
  | stop =>
    simp only [writerStep] at hstep
    split_ifs at hstep with hg
    obtain rfl := Option.some.inj hstep
    exact .stops hg.1
  | _ => cases hstep

lemma step_happens {stream : List Request} {n : ℕ} {e : PoolEvent}
    (hstep : s.step blockSize stream n e = some s') : Happens blockSize stream n s e s' := by
  cases e with
  | decode pick =>
    simp only [step] at hstep
    split_ifs at hstep with hg
    obtain ⟨req, hreq, hstep⟩ := Option.bind_eq_some_iff.mp hstep
    obtain ⟨⟨a, s₁⟩, hget, hdec⟩ := Option.bind_eq_some_iff.mp hstep
    exact .decodes hg.1 hg.2 hreq hget hdec
  | enqueue =>
    simp only [step] at hstep
    split_ifs at hstep with hroom
    obtain ⟨a, hpend, rfl⟩ := Option.map_eq_some_iff.mp hstep
    exact .enqueues hroom hpend
  | cancel =>
    simp only [step] at hstep
    split_ifs at hstep with hpend
    obtain rfl := Option.some.inj hstep
    exact .cancels hpend
  | dequeue w =>
    simp only [step] at hstep
    split_ifs at hstep with hg
    split at hstep
    · cases hstep
    · next a rest hq =>
      obtain rfl := Option.some.inj hstep
      exact .dequeues hg.1 hg.2 hq
  | fetch w pick =>
    simp only [step, fetch] at hstep
    split at hstep
    · next a hw =>
      obtain ⟨⟨b, s₁⟩, hget, rfl⟩ := Option.map_eq_some_iff.mp hstep
      exact .fetches hw hget
    · cases hstep
  | advance w ans =>
    simp only [step] at hstep
    split_ifs at hstep with hlt
    obtain ⟨a, b, pc, code, hw, hacts⟩ := advance_acts hstep
    exact .acts hlt hw hstep hacts
  | exit w =>
    simp only [step] at hstep
    split_ifs at hstep with hg
    obtain rfl := Option.some.inj hstep
    exact .exits hg.1 hg.2.1 hg.2.2.1 hg.2.2.2
  | offer w => exact worker_happens hstep (Or.inl rfl)
  | recycle w => exact worker_happens hstep (Or.inr (Or.inl rfl))
  | send w => exact worker_happens hstep (Or.inr (Or.inr rfl))
  | _ => exact writerStep_happens hstep

end Acts

/-! ## The processor without its objects -/

end PoolProc

/-- A worker with its request read off. -/
def PoolWorker.abs (reqs : ℕ → Task) : PoolWorker → Worker
  | .taken a => .running (reqs a) .start
  | .running a _ pc _ => .running (reqs a) pc
  | _ => .idle

/-- The event the processor sees. -/
def PoolEvent.abs : PoolEvent → Option ProcEvent
  | .decode _ => some .decode
  | .enqueue => some .enqueue
  | .cancel => some .cancel
  | .dequeue w => some (.dequeue w)
  | .advance w _ => some (.advance w)
  | _ => none

namespace PoolProc

/-- The objects read off. -/
def abs (s : PoolProc) : ReqProc where
  decoded := s.decoded
  epoch := s.epoch
  locks := s.locks
  pending := s.pending.map s.reqs
  readerDone := s.readerDone
  reqQueue := s.reqQueue.map s.reqs
  workers := PoolWorker.abs s.reqs ∘ s.workers
  returned := s.returned
  released := s.released
  finished := s.finished

section Abs

variable (s : PoolProc) (w a b : ℕ)

@[simp] lemma setLock_reqs (e : ℕ) (m : RWMutex) : (s.setLock e m).reqs = s.reqs := rfl

@[simp] lemma setResp_reqs (resp : Response) : (s.setResp b resp).reqs = s.reqs := rfl

@[simp] lemma abs_workers : s.abs.workers w = (s.workers w).abs s.reqs := rfl

@[simp] lemma abs_locks : s.abs.locks = s.locks := rfl

@[simp] lemma abs_setWorker (x : PoolWorker) :
    (s.setWorker w x).abs = s.abs.setWorker w (x.abs s.reqs) := by
  simp only [abs, setWorker, ReqProc.setWorker, Function.comp_update]

@[simp] lemma abs_setLock (e : ℕ) (m : RWMutex) : (s.setLock e m).abs = s.abs.setLock e m := rfl

@[simp] lemma abs_setResp (resp : Response) : (s.setResp b resp).abs = s.abs := rfl

@[simp] lemma abs_finish (errCode : NbdErr) :
    (s.finish w a b errCode).abs = s.abs.finish w (s.reqs a) := by
  have h := abs_setWorker (s.setResp b ((s.resps b).set (s.reqs a).req errCode)) w (.executed a b)
  simp only [abs, finish, ReqProc.finish, setWorker, ReqProc.setWorker, setResp] at h ⊢
  simpa [PoolWorker.abs] using h

@[simp] lemma abs_enter :
    (s.enter w a b).abs = s.abs.setWorker w (.running (s.reqs a) .inDev) := by
  unfold enter
  split_ifs <;> simp [PoolWorker.abs]

@[simp] lemma abs_devReturn (ans : DevAnswer) :
    (s.devReturn w a b ans).abs = s.abs.devReturn w (s.reqs a) := by
  unfold devReturn
  split_ifs <;>
    simp [abs, ReqProc.devReturn, setWorker, ReqProc.setWorker, setResp, Function.comp_update,
      PoolWorker.abs]

lemma abs_dispatch (blockSize : ℤ) :
    (s.dispatch blockSize w a b).abs = s.abs.dispatch blockSize w (s.reqs a) := by
  unfold dispatch ReqProc.dispatch
  split_ifs <;> simp [PoolWorker.abs]

lemma abs_leave {errCode : NbdErr} {s' : PoolProc} (h : s.leave w a b errCode = some s') :
    s.abs.leave w (s.reqs a) = some s'.abs := by
  unfold leave at h
  unfold ReqProc.leave
  split_ifs at h ⊢ with hholds
  · obtain ⟨m, hm, rfl⟩ := Option.map_eq_some_iff.mp h
    rw [abs_locks, hm, Option.map_some, Option.some.injEq]
    have habs := abs_finish (s.setLock (s.reqs a).flushMu m) w a b errCode
    rw [setLock_reqs, abs_setLock] at habs
    rw [← habs]
    rfl
  · obtain rfl := Option.some.inj h
    simp

/-- A worker inside `execute` does what the processor's worker does. -/
lemma abs_advance {blockSize : ℤ} {ans : DevAnswer} {s' : PoolProc}
    (h : s.advance blockSize w ans = some s') : s.abs.advance blockSize w = some s'.abs := by
  unfold advance at h
  unfold ReqProc.advance
  rw [abs_workers]
  cases hw : s.workers w with
  | running a b pc errCode =>
    simp only [hw] at h
    simp only [PoolWorker.abs]
    cases pc with
    | start =>
      obtain rfl := Option.some.inj h
      rw [abs_dispatch]
    | lockWait =>
      obtain ⟨m, hm, rfl⟩ := Option.map_eq_some_iff.mp h
      simp [hm, PoolWorker.abs]
    | locked =>
      obtain rfl := Option.some.inj h
      simp [PoolWorker.abs]
    | unlocked =>
      obtain rfl := Option.some.inj h
      simp
    | inDev =>
      simp only at h
      split_ifs at h
      obtain rfl := Option.some.inj h
      simp
    | returned => exact abs_leave s w a b h
  | _ => simp [hw] at h

end Abs

/-! ## Every object has one owner -/

/-- The request objects that no worker holds. -/
def reqsParked (s : PoolProc) : List ℕ := s.reqPool ++ s.reqQueue ++ s.pending.toList

/-- The response objects that no worker holds. -/
def respsParked (s : PoolProc) : List ℕ := s.respPool ++ s.respQueue ++ s.writer.resp?.toList

/-- No object is in two places. -/
structure Owned (s : PoolProc) : Prop where
  reqs : Exclusive s.reqsParked (PoolWorker.req? ∘ s.workers) s.reqsMade
  resps : Exclusive s.respsParked (PoolWorker.resp? ∘ s.workers) s.respsMade

variable {blockSize : ℤ} {stream : List Request} {n : ℕ} {s s' s₁ : PoolProc} {w a b : ℕ}

lemma Owned.init : Owned init := ⟨Exclusive.nothing, Exclusive.nothing⟩

lemma Owned.of_eq (h : Owned s) {x : PoolWorker} (hreqs : s'.reqsParked = s.reqsParked)
    (hresps : s'.respsParked = s.respsParked) (hmade : s'.reqsMade = s.reqsMade)
    (hmade' : s'.respsMade = s.respsMade) (hworkers : s'.workers = Function.update s.workers w x)
    (hreq : x.req? = (s.workers w).req?) (hresp : x.resp? = (s.workers w).resp?) : Owned s' := by
  refine ⟨?_, ?_⟩
  · rw [hreqs, hmade, hworkers, comp_update_eq hreq]
    exact h.reqs
  · rw [hresps, hmade', hworkers, comp_update_eq hresp]
    exact h.resps

lemma Owned.getReq (h : Owned s) (hpend : s.pending = none) {pick : Option ℕ}
    (hget : s.getReq pick = some (a, s₁)) : ∃ reqPool reqsMade,
      s₁ = { s with reqPool, reqsMade } ∧
        Exclusive (a :: (reqPool ++ s.reqQueue)) (PoolWorker.req? ∘ s.workers) reqsMade := by
  have hparked : s.reqsParked = s.reqPool ++ s.reqQueue := by simp [reqsParked, hpend]
  have hreqs := h.reqs
  rw [hparked] at hreqs
  cases pick with
  | none =>
    obtain ⟨rfl, rfl⟩ := Prod.mk.inj (Option.some.inj hget)
    exact ⟨_, _, rfl, hreqs.make⟩
  | some c =>
    simp only [PoolProc.getReq] at hget
    split_ifs at hget with hmem
    obtain ⟨rfl, rfl⟩ := Prod.mk.inj (Option.some.inj hget)
    exact ⟨_, _, rfl, hreqs.perm ((List.perm_cons_erase hmem).append_right _)⟩

/-- `respPool.Get` takes an object that nobody has, and touches no other. -/
lemma Owned.getResp (h : Owned s) {pick : Option ℕ} (hget : s.getResp pick = some (b, s₁)) :
    ∃ respPool respsMade resps, s₁ = { s with respPool, respsMade, resps } ∧
      (∀ b', b' ≠ b → resps b' = s.resps b') ∧
      Exclusive (b :: (respPool ++ s.respQueue ++ s.writer.resp?.toList))
        (PoolWorker.resp? ∘ s.workers) respsMade := by
  cases pick with
  | none =>
    obtain ⟨rfl, rfl⟩ := Prod.mk.inj (Option.some.inj hget)
    exact ⟨_, _, _, rfl, fun b' hne => Function.update_of_ne hne _ _, h.resps.make⟩
  | some c =>
    simp only [PoolProc.getResp] at hget
    split_ifs at hget with hmem
    obtain ⟨rfl, rfl⟩ := Prod.mk.inj (Option.some.inj hget)
    refine ⟨_, _, _, rfl, fun _ _ => rfl, h.resps.perm ?_⟩
    exact ((List.perm_cons_erase hmem).append_right _).append_right _

/-- What a decoded request changes: its object holds it, and waits unless the reader is done. -/
lemma decodeReq_frame {req : Request} (h : s.decodeReq a req = some s') :
    ∃ locks epoch pending readerDone,
      s' = { s with
        reqs := Function.update s.reqs a ⟨s.decoded, req, s.epoch⟩, decoded := s.decoded + 1,
        locks, epoch, pending, readerDone } ∧
      (pending = some a ∨ pending = s.pending) := by
  unfold PoolProc.decodeReq at h
  simp only at h
  split_ifs at h
  · obtain ⟨m, -, rfl⟩ := Option.map_eq_some_iff.mp h
    exact ⟨_, _, _, _, rfl, Or.inl rfl⟩
  all_goals
    obtain rfl := Option.some.inj h
    exact ⟨_, _, _, _, rfl, by simp⟩

lemma Owned.decodeReq (h : Owned s) (hpend : s.pending = none) {reqPool : List ℕ} {reqsMade : ℕ}
    (hnew : Exclusive (a :: (reqPool ++ s.reqQueue)) (PoolWorker.req? ∘ s.workers) reqsMade)
    {req : Request} (hdec : PoolProc.decodeReq { s with reqPool, reqsMade } a req = some s') :
    Owned s' := by
  have hheld : Exclusive (reqPool ++ s.reqQueue ++ [a]) (PoolWorker.req? ∘ s.workers) reqsMade :=
    hnew.perm (List.perm_append_singleton a _).symm
  obtain ⟨_, _, _, _, rfl, rfl | rfl⟩ := decodeReq_frame hdec
  · exact ⟨hheld, h.resps⟩
  · refine ⟨?_, h.resps⟩
    simpa [reqsParked, hpend] using hnew.drop

lemma Owned.acts (h : Owned s) {ans : DevAnswer} {pc : Pc} {code : NbdErr}
    (hw : s.workers w = .running a b pc code) (hacts : Acts blockSize s w a b ans pc code s') :
    Owned s' := by
  cases hacts with
  | waits _ _ => exact h.of_eq rfl rfl rfl rfl rfl (by rw [hw]; rfl) (by rw [hw]; rfl)
  | enters _ =>
    unfold enter
    split_ifs <;> exact h.of_eq rfl rfl rfl rfl rfl (by rw [hw]; rfl) (by rw [hw]; rfl)
  | refuses _ => exact h.of_eq rfl rfl rfl rfl rfl (by rw [hw]; rfl) (by rw [hw]; rfl)
  | returns _ =>
    unfold devReturn
    split_ifs <;> exact h.of_eq rfl rfl rfl rfl rfl (by rw [hw]; rfl) (by rw [hw]; rfl)
  | leaves => exact h.of_eq rfl rfl rfl rfl rfl (by rw [hw]; rfl) (by rw [hw]; rfl)

lemma Owned.dequeue (h : Owned s) (hidle : s.workers w = .idle) {rest : List ℕ}
    (hq : s.reqQueue = a :: rest) : Owned ({ s with reqQueue := rest }.setWorker w (.taken a)) := by
  have hreqs : Exclusive (a :: (s.reqPool ++ rest ++ s.pending.toList))
      (PoolWorker.req? ∘ s.workers) s.reqsMade := by
    refine h.reqs.perm ?_
    rw [reqsParked, hq]
    exact List.perm_middle.append_right _
  have hfree : (s.workers w).req? = none ∧ (PoolWorker.taken a).resp? = (s.workers w).resp? := by
    rw [hidle]
    exact ⟨rfl, rfl⟩
  exact ⟨hreqs.take_comp hfree.1 rfl, (comp_update_eq hfree.2).symm ▸ h.resps⟩

lemma Owned.fetch (h : Owned s) (hw : s.workers w = .taken a) {respPool : List ℕ} {respsMade : ℕ}
    {resps : ℕ → Response}
    (hnew : Exclusive (b :: (respPool ++ s.respQueue ++ s.writer.resp?.toList))
      (PoolWorker.resp? ∘ s.workers) respsMade) {pc : Pc} {code : NbdErr} :
    Owned ({ s with respPool, respsMade, resps }.setWorker w (.running a b pc code)) := by
  have hfree : (s.workers w).resp? = none ∧
      (PoolWorker.running a b pc code).req? = (s.workers w).req? := by
    rw [hw]
    exact ⟨rfl, rfl⟩
  exact ⟨(comp_update_eq hfree.2).symm ▸ h.reqs, hnew.take_comp hfree.1 rfl⟩

lemma Owned.enqueueResp (h : Owned s) {x : PoolWorker} (hreq : x.req? = (s.workers w).req?)
    (hresp : (s.workers w).resp? = some b) (hx : x.resp? = none) :
    Owned { s.setWorker w x with respQueue := s.respQueue ++ [b] } := by
  refine ⟨?_, (h.resps.give_comp hresp hx).perm ?_⟩
  · exact (comp_update_eq (g := PoolWorker.req?) hreq).symm ▸ h.reqs
  · have hsnoc : (b :: (s.respPool ++ s.respQueue)).Perm (s.respPool ++ (s.respQueue ++ [b])) := by
      rw [← List.append_assoc]
      exact (List.perm_append_singleton b _).symm
    exact hsnoc.append_right _

lemma Owned.putReq (h : Owned s) {x : PoolWorker} (hresp : x.resp? = (s.workers w).resp?)
    (hreq : (s.workers w).req? = some a) (hx : x.req? = none) :
    Owned { s.setWorker w x with reqPool := a :: s.reqPool } :=
  ⟨h.reqs.give_comp hreq hx, (comp_update_eq (g := PoolWorker.resp?) hresp).symm ▸ h.resps⟩

lemma Owned.step (h : Owned s) {e : PoolEvent} (hstep : s.step blockSize stream n e = some s') :
    Owned s' := by
  cases step_happens hstep with
  | decodes hpend hdone hreq hget hdec =>
    obtain ⟨reqPool, reqsMade, rfl, hnew⟩ := h.getReq hpend hget
    exact h.decodeReq hpend hnew hdec
  | enqueues hroom hpend =>
    have hreqs := h.reqs
    rw [reqsParked, hpend] at hreqs
    refine ⟨hreqs.perm ?_, h.resps⟩
    simp [reqsParked]
  | cancels hpend => exact ⟨h.reqs, h.resps⟩
  | dequeues hlt hidle hq => exact h.dequeue hidle hq
  | fetches hw hget =>
    obtain ⟨respPool, respsMade, resps, rfl, -, hnew⟩ := h.getResp hget
    exact h.fetch hw hnew
  | acts hlt hw hadv hacts => exact h.acts hw hacts
  | offers hw => exact h.enqueueResp (by rw [hw]; rfl) (by rw [hw]; rfl) rfl
  | findsFull hw => exact h.of_eq rfl rfl rfl rfl rfl (by rw [hw]; rfl) (by rw [hw]; rfl)
  | recycles hw => exact h.putReq (by rw [hw]; rfl) (by rw [hw]; rfl) rfl
  | recyclesFirst hw => exact h.putReq (by rw [hw]; rfl) (by rw [hw]; rfl) rfl
  | sends hw => exact h.enqueueResp (by rw [hw]; rfl) (by rw [hw]; rfl) rfl
  | exits _ hidle _ _ => exact h.of_eq rfl rfl rfl rfl rfl (by rw [hidle]; rfl) (by rw [hidle]; rfl)
  | @receives b rest hwriter hq =>
    have hresps := h.resps
    rw [respsParked, hwriter, hq] at hresps
    refine ⟨h.reqs, hresps.perm ?_⟩
    simpa [respsParked, PoolWriter.resp?] using
      (List.perm_append_singleton b rest).symm.append_left s.respPool
  | writes hwriter =>
    have hresps := h.resps
    rw [respsParked, hwriter] at hresps
    exact ⟨h.reqs, hresps⟩
  | @putsBack b hwriter =>
    have hresps := h.resps
    rw [respsParked, hwriter] at hresps
    refine ⟨h.reqs, hresps.perm ((List.perm_append_singleton b _).trans ?_)⟩
    simp [respsParked, PoolWriter.resp?]
  | stops hwriter =>
    have hresps := h.resps
    rw [respsParked, hwriter] at hresps
    exact ⟨h.reqs, hresps⟩

/-! ## Nobody sees another's object -/

/-- Who has not got a request object does not see it written. -/
lemma abs_update_reqs (s : PoolProc) {a : ℕ} (t : Task) (hq : a ∉ s.reqQueue)
    (hheld : ∀ w, (s.workers w).req? ≠ some a) :
    s.reqQueue.map (Function.update s.reqs a t) = s.reqQueue.map s.reqs ∧
      PoolWorker.abs (Function.update s.reqs a t) ∘ s.workers =
        PoolWorker.abs s.reqs ∘ s.workers := by
  constructor
  · refine List.map_congr_left fun c hc => Function.update_of_ne ?_ _ _
    rintro rfl
    exact hq hc
  · funext w
    have hw := hheld w
    simp only [Function.comp_apply]
    cases hx : s.workers w with
    | taken c =>
      rw [hx] at hw
      have hne : c ≠ a := fun hc => hw (congrArg some hc)
      simp only [PoolWorker.abs, Function.update_of_ne hne]
    | running c b pc code =>
      rw [hx] at hw
      have hne : c ≠ a := fun hc => hw (congrArg some hc)
      simp only [PoolWorker.abs, Function.update_of_ne hne]
    | _ => rfl

lemma abs_decodeReq (hpend : s.pending = none) {reqPool : List ℕ} {reqsMade : ℕ}
    (hnew : Exclusive (a :: (reqPool ++ s.reqQueue)) (PoolWorker.req? ∘ s.workers) reqsMade)
    {req : Request} (hdec : PoolProc.decodeReq { s with reqPool, reqsMade } a req = some s') :
    s.abs.decodeReq req = some s'.abs := by
  have hq : a ∉ s.reqQueue := fun hmem =>
    (List.nodup_cons.mp hnew.nodup).1 (List.mem_append_right _ hmem)
  have hheld : ∀ w, (s.workers w).req? ≠ some a := fun w hw =>
    hnew.held_notMem w a hw (List.mem_cons_self ..)
  obtain ⟨hqueue, hworkers⟩ := abs_update_reqs s ⟨s.decoded, req, s.epoch⟩ hq hheld
  unfold PoolProc.decodeReq at hdec
  unfold ReqProc.decodeReq
  simp only at hdec ⊢
  split_ifs at hdec ⊢
  · obtain ⟨m, hm, rfl⟩ := Option.map_eq_some_iff.mp hdec
    refine Option.map_eq_some_iff.mpr ⟨m, hm, ?_⟩
    simp [abs, PoolProc.setLock, ReqProc.setLock, hqueue, hworkers]
  all_goals
    obtain rfl := Option.some.inj hdec
    simp [abs, hqueue, hworkers, hpend]

/-- A worker does something that is not seen. -/
lemma abs_setWorker_eq {x : PoolWorker} (hx : x.abs s.reqs = (s.workers w).abs s.reqs) :
    (s.setWorker w x).abs = s.abs := by
  have hworkers : PoolWorker.abs s.reqs ∘ Function.update s.workers w x =
      PoolWorker.abs s.reqs ∘ s.workers := comp_update_eq hx
  simp only [abs, setWorker, hworkers]

/-- A worker outside `execute` is not seen. -/
lemma abs_setWorker_idle {x : PoolWorker} (hx : x.abs s.reqs = .idle)
    (hw : (s.workers w).abs s.reqs = .idle) : (s.setWorker w x).abs = s.abs :=
  abs_setWorker_eq (hx.trans hw.symm)

/-- **The objects do not show.**  As long as every object has one owner, the processor does what the
processor without objects does. -/
lemma Owned.simulates (h : Owned s) {e : PoolEvent}
    (hstep : s.step blockSize stream n e = some s') :
    (∃ pe, e.abs = some pe ∧ s.abs.step blockSize stream n pe = some s'.abs) ∨ s'.abs = s.abs := by
  cases step_happens hstep with
  | decodes hpend hdone hreq hget hdec =>
    obtain ⟨reqPool, reqsMade, rfl, hnew⟩ := h.getReq hpend hget
    refine Or.inl ⟨.decode, rfl, ?_⟩
    have habs := abs_decodeReq hpend hnew hdec
    simpa [ReqProc.step, abs, hpend, hdone, hreq] using habs
  | enqueues hroom hpend =>
    refine Or.inl ⟨.enqueue, rfl, ?_⟩
    simp [ReqProc.step, abs, hpend, hroom]
  | cancels hpend =>
    refine Or.inl ⟨.cancel, rfl, ?_⟩
    simp [ReqProc.step, abs, hpend]
  | @dequeues w a rest hlt hidle hq =>
    refine Or.inl ⟨.dequeue w, rfl, ?_⟩
    have habs : s.abs.workers w = .idle := by
      rw [abs_workers, hidle]
      rfl
    rw [ReqProc.step, if_pos ⟨hlt, habs⟩, abs_setWorker]
    simp [abs, hq, PoolWorker.abs]
  | @fetches w _ a b _ hw hget =>
    obtain ⟨respPool, respsMade, resps, rfl, -, -⟩ := h.getResp hget
    have habs : (s.setWorker w (.running a b .start nbdRespSuccess)).abs = s.abs :=
      abs_setWorker_eq (by rw [hw]; rfl)
    exact Or.inr habs
  | acts hlt hw hadv hacts =>
    refine Or.inl ⟨.advance _, rfl, ?_⟩
    rw [ReqProc.step, if_pos hlt]
    exact abs_advance s _ hadv
  | offers hw => exact Or.inr (abs_setWorker_idle rfl (by rw [hw]; rfl))
  | findsFull hw => exact Or.inr (abs_setWorker_idle rfl (by rw [hw]; rfl))
  | recycles hw => exact Or.inr (abs_setWorker_idle rfl (by rw [hw]; rfl))
  | recyclesFirst hw => exact Or.inr (abs_setWorker_idle rfl (by rw [hw]; rfl))
  | sends hw => exact Or.inr (abs_setWorker_idle rfl (by rw [hw]; rfl))
  | exits _ hidle _ _ => exact Or.inr (abs_setWorker_idle rfl (by rw [hidle]; rfl))
  | receives _ _ => exact Or.inr rfl
  | writes _ => exact Or.inr rfl
  | putsBack _ => exact Or.inr rfl
  | stops _ => exact Or.inr rfl

/-- Every object has one owner, and the processor without objects keeps what it keeps. -/
structure Simulated (blockSize : ℤ) (stream : List Request) (n : ℕ) (s : PoolProc) : Prop where
  owned : Owned s
  kept : ReqProc.Kept blockSize stream n s.abs

lemma Simulated.init : Simulated blockSize stream n init := ⟨.init, .init⟩

lemma Simulated.step (h : Simulated blockSize stream n s) {e : PoolEvent}
    (hstep : s.step blockSize stream n e = some s') : Simulated blockSize stream n s' := by
  refine ⟨h.owned.step hstep, ?_⟩
  rcases h.owned.simulates hstep with ⟨pe, -, habs⟩ | habs
  · exact h.kept.step habs
  · rw [habs]
    exact h.kept

end PoolProc
end Usbd
