import Usbd.Objstore.StoreParams

/-!
# Segments

A `segment` is one fixed-size piece of the device.  Its bytes live in a local file, in a remote
object, in both, or nowhere (all zeros, never written).  The two flags say what the code itself
believes: `backed`, that there is a local file, and `dirty`, that it has writes the remote object
does not.

The calls take the segment and return it changed.  Their locks do not show here; where a call
holds which lock matters is the subject of the concurrent model.
-/

namespace Usbd

open ListMemory

/-- `os.ErrInvalid`, what the methods of a nil `*os.File` return. -/
def osErrInvalid : GoError := .new "invalid argument"

def errNoDataFile : GoError :=
  .new "Segment found to be dirty during flush request but is missing a backing data file"

structure Segment (σ : Type) where
  ID : ℕ
  localFile : Option File
  remoteItem : Option (Item σ)
  dirty : Bool
  backed : Bool
  lastRead : ℤ
  lastWrite : ℤ

namespace Segment

variable {σ : Type} (sp : StoreParams σ) (seg : Segment σ)

/-- A segment as `loadSegments` makes it. -/
def new (ID : ℕ) : Segment σ := ⟨ID, none, none, false, false, 0, 0⟩

/-- `loadFile`.  Without a local file and a remote item there is only something to return when a
write is to follow. -/
def loadFile (createWrite : Bool) : Go σ (Segment σ × Except GoError (Option File)) := do
  match seg.localFile with
  | some file => pure (seg, .ok (some file))
  | none =>
    let loaded (r : Except GoError (Option File)) : Segment σ × Except GoError (Option File) :=
      match r with
      | .error e => (seg, .error e)
      | .ok file => ({ seg with localFile := file, backed := true }, .ok file)
    match seg.remoteItem with
    | some item => do
      let r ← sp.downloadFile item
      pure (loaded r)
    | none =>
      if createWrite then
        let r ← sp.createFile (itoa seg.ID)
        pure (loaded r)
      else pure (seg, .ok none)

/-- `ReadAt` behind its mark of the time. -/
def readLoaded (buf : Bytes) (pos : ℤ) : Go σ (Segment σ × Bytes × ℕ × Option GoError) := do
  let (seg, data) ← seg.loadFile sp false
  match data with
  | .error e => pure (seg, buf, 0, some (.wrap "Could not load segment data for reading" e))
  | .ok none =>
    let short := pos + buf.length > sp.segmentBytes
    let bufLen : ℤ := if short then sp.segmentBytes - pos else buf.length
    if bufLen < 0 then Prog.stop .panic
    else
      pure (seg, zeroFill (buf.take bufLen.toNat) ++ buf.drop bufLen.toNat, bufLen.toNat,
        if short then some ioEOF else none)
  | .ok (some file) =>
    let (got, err) ← file.readAt sp.env buf.length pos
    pure (seg, goCopy buf got, got.length, err)

/-- `ReadAt` into `buf`: the buffer afterwards, the count and the error. -/
def readAt (buf : Bytes) (pos : ℤ) : Go σ (Segment σ × Bytes × ℕ × Option GoError) := do
  let now ← timeNow sp.env
  { seg with lastRead := now }.readLoaded sp buf pos

/-- `WriteAt` behind its mark of the time and its look for zeros. -/
def writeLoaded (buf : Bytes) (pos : ℤ) : Go σ (Segment σ × ℕ × Option GoError) := do
  let (seg, data) ← seg.loadFile sp true
  match data with
  | .error e => pure (seg, 0, some (.wrap "Could not load segment data for writing" e))
  | .ok none => pure (seg, 0, some osErrInvalid)
  | .ok (some file) =>
    let (count, err) ← file.writeAt sp.env buf pos .writeAt
    pure ({ seg with dirty := seg.dirty || decide (count > 0) }, count, err)

/-- `WriteAt`.  Zeros written to a segment without a local file are not written. -/
def writeAt (buf : Bytes) (pos : ℤ) : Go σ (Segment σ × ℕ × Option GoError) := do
  let now ← timeNow sp.env
  let seg := { seg with lastWrite := now }
  if isZeros buf ∧ seg.localFile = none then pure (seg, buf.length, none)
  else seg.writeLoaded sp buf pos

/-- `flush`.  The segment is marked clean before the upload, and takes over whatever item the
upload returns, `nil` when it fails. -/
def flush (buffered : Bool) : Go σ (Segment σ × Option GoError) := do
  match seg.localFile with
  | none => pure (seg, some errNoDataFile)
  | some file =>
    let (item, err) ← sp.syncFile file (itoa seg.ID) buffered
    pure ({ seg with dirty := false, remoteItem := item }, err)

def Flush (buffered : Bool) : Go σ (Segment σ × Option GoError) :=
  if seg.dirty then seg.flush sp buffered else pure (seg, none)

/-- `DeleteFile` behind its flush: the local file goes, and its permit. -/
def dropFile : Go σ (Segment σ × Option GoError) := do
  match seg.localFile with
  | none => Prog.stop .panic
  | some file =>
    let (file, err) ← sp.removeFile file
    match err with
    | some e =>
      pure ({ seg with localFile := some file }, some (.wrap "Could not remove local file" e))
    | none =>
      sp.releaseCapacity
      pure ({ seg with localFile := none, backed := false }, none)

def deleteFile : Go σ (Segment σ × Option GoError) := do
  if seg.backed then
    if seg.dirty then
      let (seg, err) ← seg.flush sp false
      match err, seg.localFile with
      | some _, none => Prog.stop .panic
      | some e, some _ => pure (seg, some (.wrap "Flush during DeleteFile failed" e))
      | none, _ => seg.dropFile sp
    else seg.dropFile sp
  else pure (seg, none)

/-- `atomicLoadTime`; the zero `time.Time` is `0`. -/
def loadTime (nsec : ℤ) : ℤ := if nsec < 1 then 0 else nsec

def lastOp : ℤ :=
  if loadTime seg.lastRead < loadTime seg.lastWrite then loadTime seg.lastRead
  else loadTime seg.lastWrite

end Segment
end Usbd
