import Usbd.Objstore.DeviceRace

/-!
# A device and its clients

`ReadAt`, `WriteAt`, `Flush` and `Close` of the device, called by any number of goroutines at once:
the workers of the request processor, and the autoflush worker, which is a client that calls
`Flush`.  `DevState` has the segments with their locks and the flushes; here are the loops above it.

A client of `ioAt` holds `pendingOpMu` for reading, goes from segment to segment, and where a
segment finds no permit it looks for another one to evict.  `removeLeastRecentUsed` reads the flags
and times of the segments one atomic load after the other, without a lock, while others change them.
`Close` waits until it has `pendingOpMu` for itself, and nobody who comes later gets past the check
of the context.

Every step is a step of `DevState` or leaves it alone (`step_dev`).  `Linked` ties the two levels
together: which goroutine is in which segment, and on whose behalf.
-/

namespace Usbd

open ListMemory

variable {σ : Type}

/-! ## Calls -/

inductive DevCall
  | readAt (buf : Bytes) (pos : ℕ)
  | writeAt (buf : Bytes) (pos : ℕ)
  | flush
  | close
  deriving DecidableEq

/-- What a call of the device returns. -/
inductive DevResult
  | read (buf : Bytes) (count : ℕ) (err : Option GoError)
  | wrote (count : ℕ) (err : Option GoError)
  | flushed (err : Option GoError)
  | closed (err : Option GoError)
  deriving DecidableEq

/-- What a call gets on a device that is shut down. -/
def errDeviceShutdown : GoError := .wrap "Device is shutdown" contextCanceled

namespace SegResult

/-- The error of a segment's call. -/
def err : SegResult → Option GoError
  | read _ _ err => err
  | wrote _ err => err
  | flushed err => err
  | deleted err => err

/-- The count it returns. -/
def count : SegResult → ℕ
  | read _ count _ => count
  | wrote count _ => count
  | flushed _ => 0
  | deleted _ => 0

/-- The buffer behind it. -/
def fill (segBuf : Bytes) : SegResult → Bytes
  | read got _ _ => got
  | _ => segBuf

end SegResult

/-- The loop of `ioAt`: the segment and the position in it that come next, the bytes done, and the
buffer in two parts. -/
structure IoAt where
  readOp : Bool
  segID : ℕ
  pos : ℕ
  total : ℕ
  got : Bytes
  rest : Bytes
  deriving DecidableEq

namespace IoAt

variable (segmentBytes : ℕ) (io : IoAt)

def start (readOp : Bool) (buf : Bytes) (pos : ℕ) : IoAt :=
  ⟨readOp, pos / segmentBytes, pos % segmentBytes, 0, [], buf⟩

def segBuf : Bytes := io.rest.take (segmentBytes - io.pos)

def call : SegCall :=
  if io.readOp then .readAt (io.segBuf segmentBytes) io.pos
  else .writeAt (io.segBuf segmentBytes) io.pos

/-- The buffer behind a call of the segment. -/
def fill (res : SegResult) : IoAt :=
  { io with
    rest := res.fill (io.segBuf segmentBytes) ++ io.rest.drop (io.segBuf segmentBytes).length }

def next (count : ℕ) : IoAt :=
  ⟨io.readOp, io.segID + 1, 0, io.total + count, io.got ++ io.rest.take count, io.rest.drop count⟩

/-- What `ioAt` returns. -/
def result (count : ℕ) (err : Option GoError) : DevResult :=
  if io.readOp then .read (io.got ++ io.rest) count err else .wrote count err

end IoAt

/-! ## Looking for a segment to evict -/

/-- The next load of `removeLeastRecentUsed`. -/
inductive Look
  | backed
  | dirty
  | lastWrite (dirty : Bool)
  | lastRead (dirty : Bool) (lastWrite : ℤ)
  /-- The candidate of this round once more. -/
  | again (idx : ℕ) (lastOp : ℤ)
  | againWrite (idx : ℕ) (lastOp : ℤ)
  | againRead (idx : ℕ) (lastOp lastWrite : ℤ)
  deriving DecidableEq

/-- A round of `removeLeastRecentUsed` that has come to segment `next`. -/
structure Scan where
  tries : ℕ
  next : ℕ
  clean : Option (ℕ × ℤ)
  dirty : Option (ℕ × ℤ)
  look : Look
  deriving DecidableEq

/-- What a load comes to. -/
inductive Scanned
  | goes (scan : Scan)
  | nothing
  | takes (idx : ℕ)
  deriving DecidableEq

namespace Scan

def round (tries : ℕ) : Scan := ⟨tries, 0, none, none, .backed⟩

def maxTries : ℕ := 16

/-- `LastOp`, of the two times it has loaded. -/
def lastOpOf (lastWrite lastRead : ℤ) : ℤ := if lastRead < lastWrite then lastRead else lastWrite

variable (forIdx : ℕ) (scan : Scan)

/-- The next segment of the round. -/
def skip : Scan := { scan with next := scan.next + 1, look := .backed }

/-- The segment has been looked at. -/
def note (dirty : Bool) (lastOp : ℤ) : Scan :=
  if dirty then { scan.skip with dirty := pickOlder scan.dirty scan.next lastOp }
  else { scan.skip with clean := pickOlder scan.clean scan.next lastOp }

/-- Behind the last segment: a clean candidate if there is one. -/
def choose : Scanned :=
  match scan.clean.or scan.dirty with
  | none => .nothing
  | some (idx, lastOp) => .goes { scan with look := .again idx lastOp }

/-- One load from a segment of the scan. -/
def onSegment (seg : Segment σ) : Scanned :=
  match scan.look with
  | .backed => if scan.next = forIdx ∨ seg.backed = false then .goes scan.skip
    else .goes { scan with look := .dirty }
  | .dirty => .goes { scan with look := .lastWrite seg.dirty }
  | .lastWrite dirty => .goes { scan with look := .lastRead dirty (Segment.loadTime seg.lastWrite) }
  | .lastRead dirty lastWrite =>
    .goes (scan.note dirty (lastOpOf lastWrite (Segment.loadTime seg.lastRead)))
  | .again idx lastOp =>
    if seg.backed then .goes { scan with look := .againWrite idx lastOp }
    else .goes (round (scan.tries + 1))
  | .againWrite idx lastOp =>
    .goes { scan with look := .againRead idx lastOp (Segment.loadTime seg.lastWrite) }
  | .againRead idx lastOp lastWrite =>
    if lastOpOf lastWrite (Segment.loadTime seg.lastRead) = lastOp ∨ scan.tries + 1 ≥ maxTries then
      .takes idx
    else .goes (round (scan.tries + 1))

/-- The segment the next load is from. -/
def target : ℕ :=
  match scan.look with
  | .again idx _ => idx
  | .againWrite idx _ => idx
  | .againRead idx _ _ => idx
  | _ => scan.next

def step (segments : List (Segment σ)) : Scanned :=
  match segments[scan.target]? with
  | some seg => scan.onSegment forIdx seg
  | none => scan.choose

end Scan

/-! ## The machine -/

/-- How far a client has got. -/
inductive Client
  | idle
  /-- Before `pendingOpMu`. -/
  | called (call : DevCall)
  /-- At the head of the loop of `ioAt`. -/
  | looping (io : IoAt)
  /-- Before a call of the segment, with so many evictions left. -/
  | trying (io : IoAt) (tries : ℕ)
  | accessing (io : IoAt) (tries : ℕ)
  /-- In `removeLeastRecentUsed`, after a call that has returned `count`. -/
  | scanning (io : IoAt) (tries count : ℕ) (scan : Scan)
  | evicting (io : IoAt) (tries count idx : ℕ)
  | flushing (f : ℕ)
  /-- `Close` before it has the lock, in its flush, before and in the `DeleteFile` of a segment. -/
  | waiting
  | closing (f : ℕ)
  | dropping (i : ℕ) (err : Option GoError)
  | deleting (i : ℕ) (err : Option GoError)
  /-- The result is there, and the lock still held. -/
  | done (res : DevResult)
  deriving DecidableEq

/-- `pendingOpMu`: those that hold it for reading, and the one whose `Lock` has begun, which keeps
new readers out and has the lock when the last reader is gone. -/
structure OpLock where
  readers : Finset ℕ
  writer : Option ℕ
  deriving DecidableEq

namespace OpLock

variable (m : OpLock) (t : ℕ)

def rLock : Option OpLock :=
  if m.writer = none then some { m with readers := insert t m.readers } else none

def announce : Option OpLock := if m.writer = none then some { m with writer := some t } else none

def release : OpLock :=
  ⟨m.readers.erase t, if m.writer = some t then none else m.writer⟩

end OpLock

/-- A device in use: segments and flushes, `pendingOpMu`, whether the context is cancelled, and the
clients. -/
structure DevUse (σ : Type) where
  dev : DevState σ
  mu : OpLock
  shutdown : Bool
  clients : ℕ → Client

/-- What happens next: a client calls, goes on or returns, or a flush goes on. -/
inductive UseEvent
  | call (t : ℕ) (call : DevCall)
  | advance (t : ℕ)
  | flush (e : DevEvent)
  | ret (t : ℕ)
  deriving DecidableEq

/-- A step of a flush under way. -/
def DevEvent.OfFlush : DevEvent → Prop
  | .look _ => True
  | .recheck _ => True
  | .spawn _ _ => True
  | .work _ _ => True
  | .collect _ _ => True
  | .finish _ => True
  | _ => False

instance : ∀ e : DevEvent, Decidable e.OfFlush
  | .call _ _ _ => isFalse not_false
  | .move _ _ => isFalse not_false
  | .ret _ _ => isFalse not_false
  | .flush => isFalse not_false
  | .look _ => isTrue trivial
  | .recheck _ => isTrue trivial
  | .spawn _ _ => isTrue trivial
  | .work _ _ => isTrue trivial
  | .collect _ _ => isTrue trivial
  | .finish _ => isTrue trivial

namespace IoAt

/-- `ioAt` behind a call of a segment. -/
def collect (segmentBytes : ℕ) (io : IoAt) (tries : ℕ) (res : SegResult) : Client :=
  let io := io.fill segmentBytes res
  match res.err with
  | none => .looping (io.next res.count)
  | some e =>
    match tries with
    | 0 => .done (io.result res.count (some (.wrap "Could not access segment" e)))
    | tries + 1 =>
      if e.is errCapacityClaim then .scanning io tries res.count (.round 0)
      else .done (io.result res.count (some (.wrap "Could not access segment" e)))

/-- `ioAt` behind an eviction. -/
def evicted (io : IoAt) (tries count : ℕ) : Option GoError → Client
  | none => .trying io tries
  | some e => .done (io.result count (some (.wrap "Could not free capacity to load segment" e)))

end IoAt

namespace DevUse

def new (segments : List (Segment σ)) (w : World σ) : DevUse σ :=
  ⟨.new segments w, ⟨∅, none⟩, false, fun _ => .idle⟩

variable (sp : StoreParams σ) (totalBytes concurFlush : ℕ) (s : DevUse σ) (t : ℕ)

def goto (p : Client) : DevUse σ := { s with clients := Function.update s.clients t p }

/-- A step of the segments and flushes. -/
def onDev (e : DevEvent) : Option (DevUse σ) :=
  (s.dev.step sp concurFlush e).map fun dev => { s with dev }

/-- A client calls a segment. -/
def callSegment (i : ℕ) (made : SegCall) (p : Client) : Option (DevUse σ) :=
  (s.onDev sp concurFlush (.call i t made)).map fun s => s.goto t p

/-- The call of a segment goes on, and when it has returned the client does. -/
def onSegment (i : ℕ) (p : SegResult → Client) : Option (DevUse σ) :=
  s.dev.cells[i]?.bind fun c =>
    match c.procs (clientID t) with
    | .done res => (s.onDev sp concurFlush (.ret i t)).map fun s => s.goto t (p res)
    | _ => s.onDev sp concurFlush (.move i t)

def startFlush (p : ℕ → Client) : Option (DevUse σ) :=
  (s.onDev sp concurFlush .flush).map fun s' => s'.goto t (p s.dev.flushes.length)

/-- Where `ioAt` goes when it has the lock. -/
def enter (readOp : Bool) (buf : Bytes) (pos : ℕ) : Client :=
  let io := IoAt.start sp.segmentBytes readOp buf pos
  if s.shutdown then .done (io.result 0 (some errDeviceShutdown))
  else if pos > totalBytes then .done (io.result 0 (some ioEOF))
  else .looping io

/-- The head of the loop of `ioAt`. -/
def loop (io : IoAt) : Client :=
  if io.rest = [] then .done (io.result io.total none)
  else if io.segID ≥ s.dev.cells.length then .done (io.result io.total (some ioEOF))
  else .trying io maxCapTries

/-- `Close` behind its flush. -/
def flushed : Option GoError → Client
  | some e => .done (.closed
      (some (.wrap "Failed to write local cache back to remote store during shutdown" e)))
  | none => if sp.persistCache then .done (.closed none) else .dropping 0 none

/-- A client goes on, if it need not wait. -/
def advance : Option (DevUse σ) :=
  match s.clients t with
  | .idle => none
  | .called (.readAt buf pos) => (s.mu.rLock t).map fun mu =>
    { s with mu }.goto t (s.enter sp totalBytes true buf pos)
  | .called (.writeAt buf pos) => (s.mu.rLock t).map fun mu =>
    { s with mu }.goto t (s.enter sp totalBytes false buf pos)
  | .called .flush => (s.mu.rLock t).bind fun mu =>
    if s.shutdown then some ({ s with mu }.goto t (.done (.flushed (some errDeviceShutdown))))
    else { s with mu }.startFlush sp concurFlush t .flushing
  | .called .close => (s.mu.announce t).map fun mu => { s with mu }.goto t .waiting
  | .looping io => some (s.goto t (s.loop io))
  | .trying io tries =>
    s.callSegment sp concurFlush t io.segID (io.call sp.segmentBytes) (.accessing io tries)
  | .accessing io tries =>
    s.onSegment sp concurFlush t io.segID (io.collect sp.segmentBytes tries)
  | .scanning io tries count scan =>
    match scan.step io.segID (s.dev.cells.map Cell.seg) with
    | .goes scan => some (s.goto t (.scanning io tries count scan))
    | .nothing => some (s.goto t (io.evicted tries count
        (some (.new "Could not remove any segments as none are backed"))))
    | .takes idx => s.callSegment sp concurFlush t idx .deleteFile (.evicting io tries count idx)
  | .evicting io tries count idx =>
    s.onSegment sp concurFlush t idx fun res => io.evicted tries count res.err
  | .flushing f =>
    match s.dev.flushes[f]? with
    | some (.returned err) => some (s.goto t (.done (.flushed err)))
    | _ => none
  | .waiting =>
    if s.mu.readers = ∅ then
      if s.shutdown then some (s.goto t (.done (.closed none)))
      else { s with shutdown := true }.startFlush sp concurFlush t .closing
    else none
  | .closing f =>
    match s.dev.flushes[f]? with
    | some (.returned err) => some (s.goto t (flushed sp err))
    | _ => none
  | .dropping i err =>
    if i < s.dev.cells.length then
      s.callSegment sp concurFlush t i .deleteFile (.deleting i err)
    else some (s.goto t (.done (.closed
      (err.map (.wrap "Could not delete one or more local cache files during shutdown")))))
  | .deleting i err =>
    s.onSegment sp concurFlush t i fun res => .dropping (i + 1) (err.or res.err)
  | .done _ => none

def step : UseEvent → Option (DevUse σ)
  | .call t call =>
    match s.clients t with
    | .idle => some (s.goto t (.called call))
    | _ => none
  | .advance t => s.advance sp totalBytes concurFlush t
  | .flush e => if e.OfFlush then s.onDev sp concurFlush e else none
  | .ret t =>
    match s.clients t with
    | .done _ => some ({ s with mu := s.mu.release t }.goto t .idle)
    | _ => none

end DevUse

/-! ## What a client does next -/

namespace Client

/-- The segment a client is in, and its call there. -/
def inside (segmentBytes : ℕ) : Client → Option (ℕ × SegCall)
  | accessing io _ => some (io.segID, io.call segmentBytes)
  | evicting _ _ _ idx => some (idx, .deleteFile)
  | deleting i _ => some (i, .deleteFile)
  | _ => none

/-- A client that comes back from a segment. -/
def back (segmentBytes : ℕ) (res : SegResult) : Client → Client
  | accessing io tries => io.collect segmentBytes tries res
  | evicting io tries count _ => io.evicted tries count res.err
  | deleting i err => dropping (i + 1) (err.or res.err)
  | p => p

end Client

namespace DevUse

/-- What a client does next: where it is and where it goes, and what there is of the rest then. -/
inductive Advance (sp : StoreParams σ) (totalBytes concurFlush : ℕ) (s : DevUse σ) (t : ℕ) :
    Client → Client → DevState σ → OpLock → Bool → Prop
  | readAt {buf : Bytes} {pos : ℕ} {mu : OpLock} (hlock : s.mu.rLock t = some mu) :
      Advance sp totalBytes concurFlush s t (.called (.readAt buf pos))
        (s.enter sp totalBytes true buf pos) s.dev mu s.shutdown
  | writeAt {buf : Bytes} {pos : ℕ} {mu : OpLock} (hlock : s.mu.rLock t = some mu) :
      Advance sp totalBytes concurFlush s t (.called (.writeAt buf pos))
        (s.enter sp totalBytes false buf pos) s.dev mu s.shutdown
  | flushShut {mu : OpLock} (hlock : s.mu.rLock t = some mu) (hshut : s.shutdown = true) :
      Advance sp totalBytes concurFlush s t (.called .flush)
        (.done (.flushed (some errDeviceShutdown))) s.dev mu s.shutdown
  | flush {mu : OpLock} {dev : DevState σ} (hlock : s.mu.rLock t = some mu)
      (hopen : s.shutdown = false) (hdev : s.dev.step sp concurFlush .flush = some dev) :
      Advance sp totalBytes concurFlush s t (.called .flush) (.flushing s.dev.flushes.length) dev mu
        s.shutdown
  | close {mu : OpLock} (hlock : s.mu.announce t = some mu) :
      Advance sp totalBytes concurFlush s t (.called .close) .waiting s.dev mu s.shutdown
  | loop {io : IoAt} : Advance sp totalBytes concurFlush s t (.looping io) (s.loop io) s.dev s.mu
      s.shutdown
  | access {io : IoAt} {tries : ℕ} {dev : DevState σ}
      (hdev : s.dev.step sp concurFlush (.call io.segID t (io.call sp.segmentBytes)) = some dev) :
      Advance sp totalBytes concurFlush s t (.trying io tries) (.accessing io tries) dev s.mu
      s.shutdown
  | scan {io : IoAt} {tries count : ℕ} {scan scan' : Scan}
      (hscan : scan.step io.segID (s.dev.cells.map Cell.seg) = .goes scan') :
      Advance sp totalBytes concurFlush s t (.scanning io tries count scan)
        (.scanning io tries count scan') s.dev s.mu s.shutdown
  | nothing {io : IoAt} {tries count : ℕ} {scan : Scan}
      (hscan : scan.step io.segID (s.dev.cells.map Cell.seg) = .nothing) :
      Advance sp totalBytes concurFlush s t (.scanning io tries count scan)
        (io.evicted tries count (some (.new "Could not remove any segments as none are backed")))
        s.dev s.mu s.shutdown
  | evict {io : IoAt} {tries count idx : ℕ} {scan : Scan} {dev : DevState σ}
      (hscan : scan.step io.segID (s.dev.cells.map Cell.seg) = .takes idx)
      (hdev : s.dev.step sp concurFlush (.call idx t .deleteFile) = some dev) :
      Advance sp totalBytes concurFlush s t (.scanning io tries count scan)
        (.evicting io tries count idx) dev s.mu s.shutdown
  | flushed {f : ℕ} {err : Option GoError} (hflush : s.dev.flushes[f]? = some (.returned err)) :
      Advance sp totalBytes concurFlush s t (.flushing f) (.done (.flushed err)) s.dev s.mu
      s.shutdown
  | closedBefore (hreaders : s.mu.readers = ∅) (hshut : s.shutdown = true) :
      Advance sp totalBytes concurFlush s t .waiting (.done (.closed none)) s.dev s.mu s.shutdown
  | shut {dev : DevState σ} (hreaders : s.mu.readers = ∅) (hopen : s.shutdown = false)
      (hdev : s.dev.step sp concurFlush .flush = some dev) :
      Advance sp totalBytes concurFlush s t .waiting (.closing s.dev.flushes.length) dev s.mu true
  | closeFlushed {f : ℕ} {err : Option GoError}
      (hflush : s.dev.flushes[f]? = some (.returned err)) :
      Advance sp totalBytes concurFlush s t (.closing f) (DevUse.flushed sp err) s.dev s.mu
      s.shutdown
  | drop {i : ℕ} {err : Option GoError} {dev : DevState σ}
      (hdev : s.dev.step sp concurFlush (.call i t .deleteFile) = some dev) :
      Advance sp totalBytes concurFlush s t (.dropping i err) (.deleting i err) dev s.mu s.shutdown
  | dropped {i : ℕ} {err : Option GoError} (hend : s.dev.cells.length ≤ i) :
      Advance sp totalBytes concurFlush s t (.dropping i err) (.done (.closed
        (err.map (.wrap "Could not delete one or more local cache files during shutdown")))) s.dev
        s.mu s.shutdown
  | move {p : Client} {i : ℕ} {call : SegCall} {dev : DevState σ}
      (hin : p.inside sp.segmentBytes = some (i, call))
      (hdev : s.dev.step sp concurFlush (.move i t) = some dev) :
      Advance sp totalBytes concurFlush s t p p dev s.mu s.shutdown
  | ret {p : Client} {i : ℕ} {call : SegCall} {res : SegResult} {c : Cell σ} {dev : DevState σ}
      (hin : p.inside sp.segmentBytes = some (i, call)) (hc : s.dev.cells[i]? = some c)
      (hdone : c.procs (clientID t) = .done res)
      (hdev : s.dev.step sp concurFlush (.ret i t) = some dev) :
      Advance sp totalBytes concurFlush s t p (p.back sp.segmentBytes res) dev s.mu s.shutdown

variable {sp : StoreParams σ} {totalBytes concurFlush : ℕ} {s s' : DevUse σ} {t : ℕ}

lemma onDev_eq_some {e : DevEvent} (h : s.onDev sp concurFlush e = some s') :
    ∃ dev, s.dev.step sp concurFlush e = some dev ∧ s' = { s with dev } := by
  obtain ⟨dev, hdev, rfl⟩ := Option.map_eq_some_iff.mp h
  exact ⟨dev, hdev, rfl⟩

lemma callSegment_eq_some {i : ℕ} {made : SegCall} {p : Client}
    (h : s.callSegment sp concurFlush t i made p = some s') :
    ∃ dev, s.dev.step sp concurFlush (.call i t made) = some dev ∧
      s' = { s with dev }.goto t p := by
  obtain ⟨s₁, h₁, rfl⟩ := Option.map_eq_some_iff.mp h
  obtain ⟨dev, hdev, rfl⟩ := onDev_eq_some h₁
  exact ⟨dev, hdev, rfl⟩

lemma startFlush_eq_some {p : ℕ → Client} (h : s.startFlush sp concurFlush t p = some s') :
    ∃ dev, s.dev.step sp concurFlush .flush = some dev ∧
      s' = { s with dev }.goto t (p s.dev.flushes.length) := by
  obtain ⟨s₁, h₁, rfl⟩ := Option.map_eq_some_iff.mp h
  obtain ⟨dev, hdev, rfl⟩ := onDev_eq_some h₁
  exact ⟨dev, hdev, rfl⟩

lemma goto_self {p : Client} (hp : s.clients t = p) : s.goto t p = s := by
  rw [← hp, goto, Function.update_eq_self]

lemma onSegment_advance (totalBytes : ℕ) {p : Client} {i : ℕ} {call : SegCall}
    (hp : s.clients t = p)
    (hin : p.inside sp.segmentBytes = some (i, call)) {next : SegResult → Client}
    (hnext : ∀ res, next res = p.back sp.segmentBytes res)
    (h : s.onSegment sp concurFlush t i next = some s') :
    ∃ p' dev mu shutdown, Advance sp totalBytes concurFlush s t p p' dev mu shutdown ∧
      s' = ⟨dev, mu, shutdown, Function.update s.clients t p'⟩ := by
  obtain ⟨c, hc, h⟩ := Option.bind_eq_some_iff.mp h
  split at h
  · next res hdone =>
    obtain ⟨s₁, h₁, rfl⟩ := Option.map_eq_some_iff.mp h
    obtain ⟨dev, hdev, rfl⟩ := onDev_eq_some h₁
    exact ⟨_, dev, _, _, .ret hin hc hdone hdev, by rw [hnext]; rfl⟩
  · obtain ⟨dev, hdev, rfl⟩ := onDev_eq_some h
    exact ⟨p, dev, _, _, .move hin hdev, (goto_self (s := { s with dev }) hp).symm⟩

/-- **What a client does next.** -/
lemma advance_eq_some (h : s.advance sp totalBytes concurFlush t = some s') :
    ∃ p dev mu shutdown,
      Advance sp totalBytes concurFlush s t (s.clients t) p dev mu shutdown ∧
        s' = ⟨dev, mu, shutdown, Function.update s.clients t p⟩ := by
  unfold advance at h
  cases hp : s.clients t with
  | idle => simp [hp] at h
  | done res => simp [hp] at h
  | called call =>
    cases call with
    | readAt buf pos =>
      simp only [hp] at h
      obtain ⟨mu, hlock, rfl⟩ := Option.map_eq_some_iff.mp h
      exact ⟨_, _, _, _, .readAt hlock, rfl⟩
    | writeAt buf pos =>
      simp only [hp] at h
      obtain ⟨mu, hlock, rfl⟩ := Option.map_eq_some_iff.mp h
      exact ⟨_, _, _, _, .writeAt hlock, rfl⟩
    | flush =>
      simp only [hp] at h
      obtain ⟨mu, hlock, h⟩ := Option.bind_eq_some_iff.mp h
      split_ifs at h with hshut
      · obtain rfl := Option.some.inj h
        exact ⟨_, _, _, _, .flushShut hlock hshut, rfl⟩
      · obtain ⟨dev, hdev, rfl⟩ := startFlush_eq_some h
        exact ⟨_, _, _, _, .flush hlock (by simpa using hshut) hdev, rfl⟩
    | close =>
      simp only [hp] at h
      obtain ⟨mu, hlock, rfl⟩ := Option.map_eq_some_iff.mp h
      exact ⟨_, _, _, _, .close hlock, rfl⟩
  | looping io =>
    simp only [hp, Option.some.injEq] at h
    exact ⟨_, _, _, _, .loop, h.symm⟩
  | trying io tries =>
    simp only [hp] at h
    obtain ⟨dev, hdev, rfl⟩ := callSegment_eq_some h
    exact ⟨_, _, _, _, .access hdev, rfl⟩
  | accessing io tries =>
    simp only [hp] at h
    exact onSegment_advance totalBytes hp rfl (fun _ => rfl) h
  | scanning io tries count scan =>
    simp only [hp] at h
    split at h
    · next scan' hscan =>
      obtain rfl := Option.some.inj h
      exact ⟨_, _, _, _, .scan hscan, rfl⟩
    · next hscan =>
      obtain rfl := Option.some.inj h
      exact ⟨_, _, _, _, .nothing hscan, rfl⟩
    · next idx hscan =>
      obtain ⟨dev, hdev, rfl⟩ := callSegment_eq_some h
      exact ⟨_, _, _, _, .evict hscan hdev, rfl⟩
  | evicting io tries count idx =>
    simp only [hp] at h
    exact onSegment_advance totalBytes hp rfl (fun _ => rfl) h
  | flushing f =>
    simp only [hp] at h
    split at h
    · next err hflush =>
      obtain rfl := Option.some.inj h
      exact ⟨_, _, _, _, .flushed hflush, rfl⟩
    · cases h
  | waiting =>
    simp only [hp] at h
    split_ifs at h with hreaders hshut
    · obtain rfl := Option.some.inj h
      exact ⟨_, _, _, _, .closedBefore hreaders hshut, rfl⟩
    · obtain ⟨dev, hdev, rfl⟩ := startFlush_eq_some h
      exact ⟨_, _, _, _, .shut hreaders (by simpa using hshut) hdev, rfl⟩
  | closing f =>
    simp only [hp] at h
    split at h
    · next err hflush =>
      obtain rfl := Option.some.inj h
      exact ⟨_, _, _, _, .closeFlushed hflush, rfl⟩
    · cases h
  | dropping i err =>
    simp only [hp] at h
    split_ifs at h with hi
    · obtain ⟨dev, hdev, rfl⟩ := callSegment_eq_some h
      exact ⟨_, _, _, _, .drop hdev, rfl⟩
    · obtain rfl := Option.some.inj h
      exact ⟨_, _, _, _, .dropped (by omega), rfl⟩
  | deleting i err =>
    simp only [hp] at h
    exact onSegment_advance totalBytes hp rfl (fun _ => rfl) h

/-- The segments and flushes take a step of their own, or stay as they are. -/
lemma Advance.step_dev {p p' : Client} {dev : DevState σ} {mu : OpLock} {shutdown : Bool}
    (h : Advance sp totalBytes concurFlush s t p p' dev mu shutdown) :
    dev = s.dev ∨ ∃ e, s.dev.step sp concurFlush e = some dev := by
  cases h with
  | flush _ _ hdev => exact .inr ⟨_, hdev⟩
  | access hdev => exact .inr ⟨_, hdev⟩
  | evict _ hdev => exact .inr ⟨_, hdev⟩
  | shut _ _ hdev => exact .inr ⟨_, hdev⟩
  | drop hdev => exact .inr ⟨_, hdev⟩
  | move _ hdev => exact .inr ⟨_, hdev⟩
  | ret _ _ _ hdev => exact .inr ⟨_, hdev⟩
  | _ => exact .inl rfl

/-- The steps of a device in use. -/
inductive Stepped (sp : StoreParams σ) (totalBytes concurFlush : ℕ) (s : DevUse σ) :
    UseEvent → DevUse σ → Prop
  | call {t : ℕ} {call : DevCall} (hidle : s.clients t = .idle) :
      Stepped sp totalBytes concurFlush s (.call t call) (s.goto t (.called call))
  | advance {t : ℕ} {p : Client} {dev : DevState σ} {mu : OpLock} {shutdown : Bool}
      (hadv : Advance sp totalBytes concurFlush s t (s.clients t) p dev mu shutdown) :
      Stepped sp totalBytes concurFlush s (.advance t)
        ⟨dev, mu, shutdown, Function.update s.clients t p⟩
  | flush {e : DevEvent} {dev : DevState σ} (he : e.OfFlush)
      (hdev : s.dev.step sp concurFlush e = some dev) :
      Stepped sp totalBytes concurFlush s (.flush e) { s with dev }
  | ret {t : ℕ} {res : DevResult} (hdone : s.clients t = .done res) :
      Stepped sp totalBytes concurFlush s (.ret t)
        ({ s with mu := s.mu.release t }.goto t .idle)

lemma step_stepped {e : UseEvent} (h : s.step sp totalBytes concurFlush e = some s') :
    Stepped sp totalBytes concurFlush s e s' := by
  cases e with
  | call t call =>
    simp only [step] at h
    split at h
    · next hidle =>
      obtain rfl := Option.some.inj h
      exact .call hidle
    · cases h
  | advance t =>
    obtain ⟨p, dev, mu, shutdown, hadv, rfl⟩ := advance_eq_some h
    exact .advance hadv
  | flush e =>
    simp only [step] at h
    split_ifs at h with he
    obtain ⟨dev, hdev, rfl⟩ := onDev_eq_some h
    exact .flush he hdev
  | ret t =>
    simp only [step] at h
    split at h
    · next hdone =>
      obtain rfl := Option.some.inj h
      exact .ret hdone
    · cases h

lemma step_dev {e : UseEvent} (h : s.step sp totalBytes concurFlush e = some s') :
    s'.dev = s.dev ∨ ∃ de, s.dev.step sp concurFlush de = some s'.dev := by
  cases step_stepped h with
  | call => exact .inl rfl
  | advance hadv => exact hadv.step_dev
  | flush _ hdev => exact .inr ⟨_, hdev⟩
  | ret => exact .inl rfl

end DevUse

end Usbd
