import Usbd.Runtime.Zeros
import Usbd.Objstore.World

/-!
# Local files of remote objects

`storeParams`: how a segment gets a local file — new (`createFile`) or filled from its remote
object (`downloadFile`, by way of `cachedFile` when the cache directory already has it) — and how
it is given back (`syncFile`, `removeFile`).  The bodies follow the source statement by statement,
with its error texts.

`syncFile` is three pieces, because an upload outlives the locks around it: `prepare` (the fsync
and the snapshot), `upload` (the container's `Put`) and `finishSync` (the ETag file).

Two places where the source does not do what its deferred calls suggest are kept as they are.  In
`createFile` and `downloadFile` a `return nil, err` has already cleared the named result `file`
when the deferred clean-up runs, so that the handle is never closed; and a failing `os.Create` in
`createFile` leaves the permit claimed.
-/

namespace Usbd

open ListMemory

def errCapacityClaim : GoError := .new "Maximum number of local segments already loaded"

/-- `osbdPrefix`, `devicePrefix` and `blockPrefix`. -/
def osbdPrefix : GoString := ['o', 's', 'b', 'd']
def devicePrefix : GoString := ['-', 'd', 'e', 'v', '_']
def blockPrefix : GoString := ['-', 'b', 'l', 'k', '_']

/-- `storeParams`.  The semaphore is its number of permits; `nil` is no limit. -/
structure StoreParams (σ : Type) where
  container : Container σ
  segmentBytes : ℕ
  thickProvision : Bool
  persistCache : Bool
  quotaSema : Option ℕ
  env : Env

def eTagFileName (assocFilename : GoString) : GoString :=
  assocFilename ++ ['.', 'e', 't', 'a', 'g']

/-! ## Sparse copies -/

def minSeqSparseZeros : ℕ := 4096

/-- A copy in progress: the file so far, its offset, the zeros held back and the bytes counted.  The
last `buffered` bytes are still in the `bufio.Writer`, and the file is as it was `flushed`. -/
structure SparseCopy where
  file : Bytes
  off : ℕ
  pendZeros : ℕ
  n : ℕ
  flushed : Bytes
  buffered : ℕ
  deriving DecidableEq, Repr

namespace SparseCopy

def start : SparseCopy := ⟨[], 0, 0, 0, [], 0⟩

/-- `WriteByte` for each of at most `bufWriterSize` bytes.  A full buffer is flushed. -/
def write (s : SparseCopy) (bs : Bytes) : SparseCopy :=
  let file := overwrite 0 s.file s.off bs
  let off := s.off + bs.length
  if s.buffered + bs.length ≤ bufWriterSize then
    { s with file, off, buffered := s.buffered + bs.length }
  else
    let flushed := overwrite 0 s.file s.off (bs.take (bufWriterSize - s.buffered))
    { s with file, off, flushed, buffered := s.buffered + bs.length - bufWriterSize }

/-- One byte of the source. -/
def byte (s : SparseCopy) (cur : UInt8) : SparseCopy :=
  if cur = 0 then { s with pendZeros := s.pendZeros + 1 }
  else
    let s :=
      if s.pendZeros > 0 then
        if s.pendZeros ≥ minSeqSparseZeros then
          -- flushed before the seek
          { s with off := s.off + s.pendZeros, n := s.n + s.pendZeros, pendZeros := 0,
                   flushed := s.file, buffered := 0 }
        else { s.write (zeros s.pendZeros) with n := s.n + s.pendZeros, pendZeros := 0 }
      else s
    { s.write [cur] with n := s.n + 1 }

/-- The end of the source: the zeros held back become a gap and one written zero.  With none held
back that zero is written too. -/
def finish (s : SparseCopy) : SparseCopy :=
  let s' := if s.pendZeros - 1 > 0 then { s with off := s.off + (s.pendZeros - 1) } else s
  { s'.write [0] with n := s.n + s.pendZeros }

end SparseCopy

/-- `sparseCopy` into an empty file: the file, the count and the error.  With a source that breaks
off, what is in the buffer is lost. -/
def sparseCopy (src : Reader) : Bytes × ℕ × Option GoError :=
  let s := src.data.foldl SparseCopy.byte .start
  match src.err with
  | some e => (s.flushed, s.n, some e)
  | none => (s.finish.file, s.finish.n, none)

/-- `io.LimitedReader`. -/
def Reader.limit (rdr : Reader) (n : ℕ) : Reader :=
  if n ≤ rdr.data.length then ⟨rdr.data.take n, none⟩ else rdr

namespace StoreParams

variable {σ : Type} (sp : StoreParams σ)

/-- What the names of a device's objects begin with. -/
def itemPrefix : GoString := osbdPrefix ++ devicePrefix ++ sp.container.name ++ blockPrefix

/-- The name of a segment's object. -/
def itemName (segID : GoString) : GoString := sp.itemPrefix ++ segID

/-! ## Capacity -/

def claimCapacity : Go σ (Option GoError) :=
  match sp.quotaSema with
  | none => pure none
  | some permits => do
    let w ← Prog.get
    if w.held < permits then
      Prog.modify fun w => { w with held := w.held + 1 }
      pure none
    else pure (some errCapacityClaim)

def releaseCapacity : Go σ Unit :=
  match sp.quotaSema with
  | none => pure ()
  | some _ => do
    let w ← Prog.get
    if w.held = 0 then Prog.stop .panic
    else Prog.modify fun w => { w with held := w.held - 1 }

/-! ## Getting a local file -/

/-- The end of `createFile`: the new file is filled, and removed again when that fails. -/
def fillNew (file : File) (buf : Bytes) (pos : ℤ) (text : String) (fpath : GoString) :
    Go σ (Except GoError (Option File)) := do
  match ← file.writeAt sp.env buf pos .fill with
  | (_, none) => pure (.ok (some file))
  | (_, some e) =>
    let _ ← osRemove sp.env fpath
    pure (.error (.wrap text e))

def createFile (segID : GoString) : Go σ (Except GoError (Option File)) := do
  match ← sp.claimCapacity with
  | some e => pure (.error (.wrap "Not enough capacity to create file" e))
  | none =>
    let fpath := sp.itemName segID
    match ← osCreate sp.env fpath with
    | .error e => pure (.error (.wrap "Could not create new object local file" e))
    | .ok file =>
      if sp.thickProvision then
        sp.fillNew file (zeros sp.segmentBytes) 0 "Could not write zeros to new object local file"
          fpath
      else
        sp.fillNew file [0] ((sp.segmentBytes : ℤ) - 1)
          "Could not allocate new sparse object local file" fpath

/-- `rmDataFile` and `rmETagFile` of `cachedFile`. -/
def rmCacheFile (text : String) (name : GoString) : Go σ (Option GoError) := do
  let err ← osRemove sp.env name
  pure (err.map (GoError.wrap text))

/-- The end of `cachedFile` where one of the two files is there without the other. -/
def rmStray (text : String) (name : GoString) : Go σ (Except GoError (Option File)) := do
  match ← sp.rmCacheFile text name with
  | some e => pure (.error e)
  | none => pure (.ok none)

/-- `cachedFile`: a local file that can be used again, if there is one. -/
def cachedFile (item : Item σ) (fpath : GoString) (remoteSize : ℕ) :
    Go σ (Except GoError (Option File)) := do
  let eTagPath := eTagFileName fpath
  let dataSize ← osStat sp.env fpath
  let eTagSize ← osStat sp.env eTagPath
  match dataSize, eTagSize with
  | some _, none => sp.rmStray "Could not remove local cache file" fpath
  | none, some _ => sp.rmStray "Could not remove local cache eTag metadata file" eTagPath
  | none, none => pure (.ok none)
  | some size, some _ =>
    if sp.persistCache then
      match ← osReadFile sp.env eTagPath with
      | .error e => pure (.error (.wrap "Could not read eTag metadata file" e))
      | .ok fileETag =>
        let w ← Prog.get
        match item.etag w.store with
        | .error e => pure (.error (.wrap "Could not get remote item eTag metadata" e))
        | .ok itemETag =>
          if fileETag ≠ [] ∧ fileETag = itemETag ∧ size = remoteSize then
            match ← osOpenFile sp.env fpath with
            | .error e => pure (.error (.wrap "Could not open locally cached data file" e))
            | .ok file => pure (.ok (some file))
          else
            let rmDataErr ← sp.rmCacheFile "Could not remove local cache file" fpath
            let rmETagErr ←
              sp.rmCacheFile "Could not remove local cache eTag metadata file" eTagPath
            match rmDataErr, rmETagErr with
            | some e, _ => pure (.error e)
            | none, some e => pure (.error e)
            | none, none => pure (.ok none)
    else pure (.error (.new "Local cache and/or eTag metadata files exist"))

/-- Copy a download into its new file, by `io.CopyBuffer` or `sparseCopy`. -/
def copyDownload (file : File) (src : Reader) : Go σ (ℕ × Option GoError) := do
  if sp.thickProvision then
    match ← file.writeAt sp.env src.data 0 .copy with
    | (n, none) => pure (n, src.err)
    | (n, some e) => pure (n, some e)
  else
    let fault ← syscall sp.env .copy
    let (copied, n, err) := sparseCopy src
    match fault with
    | none =>
      setFile file.name (some copied)
      pure (n, err)
    | some k =>
      setFile file.name (some (copied.take k))
      pure (min k n, some errInputOutput)

/-- `downloadFile` behind its `os.Create`: the object is copied into the new file. -/
def fetch (item : Item σ) (file : File) : Go σ (Except GoError (Option File)) := do
  let w ← Prog.get
  match item.openItem w.store with
  | .error e => pure (.error (.wrap "Could not open for downloading" e))
  | .ok data =>
    let (downloadedBytes, err) ← sp.copyDownload file (data.limit (sp.segmentBytes + 1))
    match err with
    | some e => pure (.error (.wrap "Could not download" e))
    | none =>
      if sp.segmentBytes + 1 ≤ data.data.length then
        pure (.error (.new "contained more than the expected bytes of data"))
      else if downloadedBytes ≠ sp.segmentBytes then
        pure (.error (.new "Store download was wrong size"))
      else pure (.ok (some file))

/-- `downloadFile` behind its claim of a permit. -/
def download (item : Item σ) : Go σ (Except GoError (Option File)) := do
  let w ← Prog.get
  match item.size w.store with
  | .error e => pure (.error (.wrap "Could not obtain size" e))
  | .ok remoteSize =>
    if remoteSize = 0 then pure (.ok none)
    else if remoteSize ≠ sp.segmentBytes then pure (.error (.new "Store reported wrong size"))
    else
      match ← sp.cachedFile item item.name sp.segmentBytes with
      | .error e => pure (.error (.wrap "Local cache is unusable" e))
      | .ok (some file) => pure (.ok (some file))
      | .ok none =>
        match ← osCreate sp.env item.name with
        | .error e => pure (.error (.wrap "Could not create download object local file" e))
        | .ok file => sp.fetch item file

/-- `downloadFile`.  The object of no bytes has no local file, and keeps its permit. -/
def downloadFile (item : Item σ) : Go σ (Except GoError (Option File)) := do
  match ← sp.claimCapacity with
  | some e => pure (.error (.wrap "Not enough capacity to download file" e))
  | none =>
    match ← sp.download item with
    | .error e =>
      sp.releaseCapacity
      pure (.error e)
    | .ok file => pure (.ok file)

/-! ## Giving it back -/

def removeFile (file : File) : Go σ (File × Option GoError) := do
  let (file, err) ← file.close sp.env
  match err with
  | some e => pure (file, some (.wrap "Could not close local cache file before deleting it" e))
  | none =>
    match ← osRemove sp.env file.name with
    | some e => pure (file, some (.wrap "Could not remove local cache file" e))
    | none =>
      if sp.persistCache then
        match ← osRemove sp.env (eTagFileName file.name) with
        | some e =>
          if e.is osErrNotExist then pure (file, none)
          else pure (file, some (.wrap "Could not remove local file" e))
        | none => pure (file, none)
      else pure (file, none)

/-- The first piece of `syncFile`: the fsync, and the stream to upload.  With a buffer the file is
read here; without one it is read while the upload goes on. -/
def prepare (file : File) (buffered : Bool) : Go σ (Except GoError Reader) := do
  match ← file.sync sp.env with
  | some e => pure (.error (.wrap "Failed to fsync local file" e))
  | none =>
    let fault ← syscall sp.env .snapshot
    let w ← Prog.get
    let data := file.bytes w
    match buffered, fault with
    | true, some _ =>
      pure (.error (.wrap "Could not buffer file for transmission" errInputOutput))
    | true, none =>
      if data.length ≠ sp.segmentBytes then
        pure (.error (.new "Fewer bytes than expected were read while buffering file"))
      else pure (.ok ⟨data, none⟩)
    | false, some n => pure (.ok ⟨data.take n, some errInputOutput⟩)
    | false, none => pure (.ok ⟨data, none⟩)

/-- The second piece of `syncFile`: `container.Put`.  A call that fails may have stored the object
all the same. -/
def upload (segID : GoString) (src : Reader) : Go σ (Except GoError (Item σ)) := do
  let fault ← syscall sp.env .put
  let w ← Prog.get
  let (item, store) := sp.container.put (sp.itemName segID) src sp.segmentBytes .nil w.store
  match fault with
  | none =>
    Prog.modify fun w => { w with store }
    match item with
    | .ok item => pure (.ok item)
    | .error e => pure (.error (.wrap "Could not upload to remote item" e))
  | some stored =>
    Prog.modify fun w => { w with store := if stored = 0 then w.store else store }
    pure (.error (.wrap "Could not upload to remote item" errInputOutput))

def persistEtag (assocFilename : GoString) (item : Item σ) : Go σ (Option GoError) := do
  let w ← Prog.get
  match item.etag w.store with
  | .error e => pure (some (.wrap "Could not get eTag from remote object" e))
  | .ok eTag =>
    if eTag = [] then pure none
    else
      let err ← osWriteFile sp.env (eTagFileName assocFilename) eTag
      pure (err.map (.wrap "Could not write eTag metadata file for cache persistence"))

/-- The third piece of `syncFile`. -/
def finishSync (file : File) (item : Item σ) : Go σ (Option GoError) :=
  if sp.persistCache then sp.persistEtag file.name item else pure none

/-- `syncFile`.  `buffered` says that it was given an early unlock and a large enough buffer. -/
def syncFile (file : File) (segID : GoString) (buffered : Bool) :
    Go σ (Option (Item σ) × Option GoError) := do
  match ← sp.prepare file buffered with
  | .error e => pure (none, some e)
  | .ok src =>
    match ← sp.upload segID src with
    | .error e => pure (none, some e)
    | .ok item =>
      let err ← sp.finishSync file item
      pure (some item, err)

end StoreParams
end Usbd
