import Usbd.Foundations.Machine
import Usbd.Runtime.Sync
import Usbd.Nbd.Protocol

/-!
# The request workers

One goroutine (`readStrmWorker`) decodes the command stream, any number of IO workers
(`reqIOWorker`) take decoded requests off a bounded FIFO queue and execute them concurrently.
Flushes are ordered after writes by a chain of reader-writer locks, one per *epoch*: the reader
takes a read hold on the current lock for every write or trim it decodes, and a flush is handed the
current lock while the reader goes on with a fresh one.  `execute` gives the hold back when the
write is done, and makes a flush wait for the exclusive lock first.

`ReqProc.step` is that machine, one event per point at which the goroutines can interleave.  A
device call has two: the call and its return.  Locks are named by the number of flushes decoded
before their epoch began.  `returned`, `released` and `finished` record, by position in the stream,
which device calls have returned, which read holds were given back and which requests are through
`execute`; no step looks at them.
-/

namespace Usbd

def reqQueueCap : ℕ := 64

structure Task where
  idx : ℕ
  req : Request
  flushMu : ℕ
  deriving DecidableEq

/-- Where a worker is inside `execute`. -/
inductive Pc
  /-- Before the dispatch on the request type. -/
  | start
  /-- A flush, waiting in `flushMu.Lock`. -/
  | lockWait
  /-- A flush, holding the lock. -/
  | locked
  /-- A flush that has released the lock; the next step calls `dev.Flush`. -/
  | unlocked
  /-- Inside the device call. -/
  | inDev
  /-- The device call has returned; a write or trim still has its deferred `RUnlock` to do. -/
  | returned
  deriving DecidableEq, Repr

/-- A worker: waiting for a request, or executing one. -/
inductive Worker
  | idle
  | running (t : Task) (pc : Pc)
  deriving DecidableEq

structure ReqProc where
  decoded : ℕ
  epoch : ℕ
  locks : ℕ → RWMutex
  pending : Option Task
  readerDone : Bool
  reqQueue : List Task
  workers : ℕ → Worker
  returned : Finset ℕ
  released : Finset ℕ
  finished : Finset ℕ

/-- What can happen next. -/
inductive ProcEvent
  /-- The reader decodes the next request of the stream. -/
  | decode
  /-- The reader puts the decoded request on the queue. -/
  | enqueue
  /-- The context is cancelled and the reader stops. -/
  | cancel
  /-- An idle worker takes the request at the head of the queue. -/
  | dequeue (w : ℕ)
  /-- A worker takes its next step inside `execute`. -/
  | advance (w : ℕ)
  deriving DecidableEq, Repr

namespace ReqProc

/-- Nothing decoded yet, every worker idle. -/
def init : ReqProc where
  decoded := 0
  epoch := 0
  locks := fun _ => RWMutex.new
  pending := none
  readerDone := false
  reqQueue := []
  workers := fun _ => .idle
  returned := ∅
  released := ∅
  finished := ∅

def setWorker (s : ReqProc) (w : ℕ) (x : Worker) : ReqProc :=
  { s with workers := Function.update s.workers w x }

def setLock (s : ReqProc) (e : ℕ) (m : RWMutex) : ReqProc :=
  { s with locks := Function.update s.locks e m }

/-- The reader's treatment of a decoded request, by its type. -/
def decodeReq (s : ReqProc) (req : Request) : Option ReqProc :=
  let t : Task := ⟨s.decoded, req, s.epoch⟩
  let s := { s with decoded := s.decoded + 1 }
  if req.reqType = nbdWrite ∨ req.reqType = nbdTrim then
    (s.locks s.epoch).rLock.map fun m => { s.setLock s.epoch m with pending := some t }
  else if req.reqType = nbdFlush then
    some { s with pending := some t, epoch := s.epoch + 1 }
  else if req.reqType = nbdDisconnect then
    some { s with readerDone := true }
  else some { s with pending := some t }

/-- `execute` returns: the worker is idle again. -/
def finish (s : ReqProc) (w : ℕ) (t : Task) : ReqProc :=
  { s.setWorker w .idle with finished := insert t.idx s.finished }

def devReturn (s : ReqProc) (w : ℕ) (t : Task) : ReqProc :=
  { s.setWorker w (.running t .returned) with returned := insert t.idx s.returned }

/-- The dispatch on the request type. -/
def dispatch (blockSize : ℤ) (s : ReqProc) (w : ℕ) (t : Task) : ReqProc :=
  if t.req.reqType = nbdRead ∨ t.req.reqType = nbdWrite then
    -- a misaligned request leaves the switch before its `defer RUnlock`
    if t.req.Aligned blockSize then s.setWorker w (.running t .inDev) else s.finish w t
  else if t.req.reqType = nbdFlush then
    (s.setLock t.flushMu (s.locks t.flushMu).lockRequest).setWorker w (.running t .lockWait)
  else if t.req.reqType = nbdTrim then s.setWorker w (.running t .inDev)
  else s.finish w t

/-- The deferred `RUnlock` of a write or trim, and the return of `execute`. -/
def leave (s : ReqProc) (w : ℕ) (t : Task) : Option ReqProc :=
  if t.req.reqType = nbdWrite ∨ t.req.reqType = nbdTrim then
    (s.locks t.flushMu).rUnlock.map fun m =>
      { (s.setLock t.flushMu m).finish w t with released := insert t.idx s.released }
  else some (s.finish w t)

def advance (blockSize : ℤ) (s : ReqProc) (w : ℕ) : Option ReqProc :=
  match s.workers w with
  | .idle => none
  | .running t .start => some (s.dispatch blockSize w t)
  | .running t .lockWait =>
    (s.locks t.flushMu).lockAcquire.map fun m =>
      (s.setLock t.flushMu m).setWorker w (.running t .locked)
  | .running t .locked =>
    some ((s.setLock t.flushMu (s.locks t.flushMu).unlock).setWorker w (.running t .unlocked))
  | .running t .unlocked => some (s.setWorker w (.running t .inDev))
  | .running t .inDev => some (s.devReturn w t)
  | .running t .returned => s.leave w t

/-- The processor over a stream, with a device of the given block size and `n` IO workers. -/
def step (blockSize : ℤ) (stream : List Request) (n : ℕ) (s : ReqProc) :
    ProcEvent → Option ReqProc
  | .decode =>
    if s.pending = none ∧ s.readerDone = false then
      (stream[s.decoded]?).bind s.decodeReq
    else none
  | .enqueue =>
    if s.reqQueue.length < reqQueueCap then
      s.pending.map fun t => { s with pending := none, reqQueue := s.reqQueue ++ [t] }
    else none
  | .cancel => if s.pending = none then some { s with readerDone := true } else none
  | .dequeue w =>
    if w < n ∧ s.workers w = .idle then
      match s.reqQueue with
      | [] => none
      | t :: rest => some ({ s with reqQueue := rest }.setWorker w (.running t .start))
    else none
  | .advance w => if w < n then s.advance blockSize w else none

/-! ## What a worker can do -/

/-- The step of worker `w` inside `execute` of `t`, by the place it is at. -/
inductive Moves (blockSize : ℤ) (s : ReqProc) (w : ℕ) (t : Task) : Pc → ReqProc → Prop
  | enters (hin : (t.req.reqType = nbdRead ∨ t.req.reqType = nbdWrite) ∧ t.req.Aligned blockSize ∨
      t.req.reqType = nbdTrim) : Moves blockSize s w t .start (s.setWorker w (.running t .inDev))
  /-- A misaligned request, or one of an unknown type. -/
  | refuses (hflush : t.req.reqType ≠ nbdFlush) (htrim : t.req.reqType ≠ nbdTrim)
      (hout : t.req.reqType = nbdRead ∨ t.req.reqType = nbdWrite → ¬ t.req.Aligned blockSize) :
      Moves blockSize s w t .start (s.finish w t)
  | asks (hflush : t.req.reqType = nbdFlush) : Moves blockSize s w t .start
      ((s.setLock t.flushMu (s.locks t.flushMu).lockRequest).setWorker w (.running t .lockWait))
  | locks {m : RWMutex} (hm : (s.locks t.flushMu).lockAcquire = some m) :
      Moves blockSize s w t .lockWait ((s.setLock t.flushMu m).setWorker w (.running t .locked))
  | unlocks : Moves blockSize s w t .locked
      ((s.setLock t.flushMu (s.locks t.flushMu).unlock).setWorker w (.running t .unlocked))
  | flushes : Moves blockSize s w t .unlocked (s.setWorker w (.running t .inDev))
  | returns : Moves blockSize s w t .inDev (s.devReturn w t)
  | releases {m : RWMutex} (hholds : t.req.reqType = nbdWrite ∨ t.req.reqType = nbdTrim)
      (hm : (s.locks t.flushMu).rUnlock = some m) : Moves blockSize s w t .returned
      { (s.setLock t.flushMu m).finish w t with released := insert t.idx s.released }
  | leaves (hfree : ¬ (t.req.reqType = nbdWrite ∨ t.req.reqType = nbdTrim)) :
      Moves blockSize s w t .returned (s.finish w t)

/-- What a decoded request changes: it waits, unless it asks to disconnect. -/
lemma decodeReq_frame {s s' : ReqProc} {req : Request} (h : s.decodeReq req = some s') :
    ∃ locks epoch pending readerDone,
      s' = { s with decoded := s.decoded + 1, locks, epoch, pending, readerDone } ∧
      (pending = some ⟨s.decoded, req, s.epoch⟩ ∧ req.reqType ≠ nbdDisconnect ∨
        pending = s.pending) := by
  unfold decodeReq at h
  split_ifs at h with hholds hflush hdisc
  · obtain ⟨m, -, rfl⟩ := Option.map_eq_some_iff.mp h
    refine ⟨_, _, _, _, rfl, Or.inl ⟨rfl, ?_⟩⟩
    rcases hholds with hreq | hreq <;> simp [hreq, nbdWrite, nbdTrim, nbdDisconnect]
  · obtain rfl := Option.some.inj h
    exact ⟨_, _, _, _, rfl, Or.inl ⟨rfl, by simp [hflush, nbdFlush, nbdDisconnect]⟩⟩
  · obtain rfl := Option.some.inj h
    exact ⟨_, _, _, _, rfl, Or.inr rfl⟩
  · obtain rfl := Option.some.inj h
    exact ⟨_, _, _, _, rfl, Or.inl ⟨rfl, hdisc⟩⟩

lemma dispatch_moves (blockSize : ℤ) (s : ReqProc) (w : ℕ) (t : Task) :
    Moves blockSize s w t .start (s.dispatch blockSize w t) := by
  unfold dispatch
  split_ifs with hrw hal hf htr
  · exact .enters (Or.inl ⟨hrw, hal⟩)
  · refine .refuses ?_ ?_ fun _ => hal
    · rcases hrw with h | h <;> rw [h] <;> decide
    · rcases hrw with h | h <;> rw [h] <;> decide
  · exact .asks hf
  · exact .enters (Or.inr htr)
  · exact .refuses hf htr fun hw => absurd hw hrw

lemma leave_moves {blockSize : ℤ} {s s' : ReqProc} {w : ℕ} {t : Task}
    (h : s.leave w t = some s') : Moves blockSize s w t .returned s' := by
  unfold leave at h
  split_ifs at h with hholds
  · obtain ⟨m, hm, rfl⟩ := Option.map_eq_some_iff.mp h
    exact .releases hholds hm
  · obtain rfl := Option.some.inj h
    exact .leaves hholds

lemma advance_moves {blockSize : ℤ} {s s' : ReqProc} {w : ℕ}
    (h : s.advance blockSize w = some s') :
    ∃ t pc, s.workers w = .running t pc ∧ Moves blockSize s w t pc s' := by
  unfold advance at h
  cases hw : s.workers w with
  | idle => simp [hw] at h
  | running t pc =>
    refine ⟨t, pc, rfl, ?_⟩
    cases pc with
    | start =>
      obtain rfl := by simpa only [hw, Option.some.injEq] using h
      exact dispatch_moves blockSize s w t
    | lockWait =>
      simp only [hw] at h
      obtain ⟨m, hm, rfl⟩ := Option.map_eq_some_iff.mp h
      exact .locks hm
    | locked =>
      obtain rfl := by simpa only [hw, Option.some.injEq] using h
      exact .unlocks
    | unlocked =>
      obtain rfl := by simpa only [hw, Option.some.injEq] using h
      exact .flushes
    | inDev =>
      obtain rfl := by simpa only [hw, Option.some.injEq] using h
      exact .returns
    | returned =>
      simp only [hw] at h
      exact leave_moves h

end ReqProc
end Usbd
