import Usbd.Objstore.Segment
import Usbd.Objstore.Wrappers

/-!
# The object-store device

`device` of the object-store package.  A position is cut into segments by `ioAt`, which makes room
for a segment it cannot load by evicting the least recently used one; `Flush` uploads the dirty
segments, `Close` uploads them and gives the local files up; `NewDevice` finds the uploaded segments
again by the names of their objects.

`Flush` runs one goroutine for each dirty segment, a bounded number at a time.  They work on
different segments, files and object names, and the only shared thing they touch is the container,
by one `Put` each; the order in which those happen is the environment's (`flushOrder`).
-/

namespace Usbd

open ListMemory

def contextCanceled : GoError := .new "context canceled"

/-- `device`, with the state of its context.  Its sizes and options are those of `params`. -/
structure ObjDevice (σ : Type) where
  params : StoreParams σ
  totalBytes : ℕ
  segments : List (Segment σ)
  concurFlush : ℕ
  shutdown : Bool

structure ObjOptions where
  concurFlush : ℕ
  compressMode : CompressMode
  quotaBytes : ℤ
  noMetadata : Bool
  thickProvision : Bool
  persistCache : Bool
  encryptMode : EncryptMode
  encryptKey : Bytes

variable {σ : Type}

/-! ## Construction -/

/-- The containers `applyOpts` puts over the given one. -/
def containerStack (codecs : Codecs) (cipher : Cipher σ) (opts : ObjOptions) (c : Container σ) :
    Except GoError (Container σ) :=
  if opts.noMetadata then
    if opts.compressMode ≠ .identity then
      .error (.new "Backing store does not support metadata, but store compression is enabled")
    else if opts.encryptMode ≠ .identity then
      .error (.new "Backing store does not support metadata, but store encryption is enabled")
    else .ok c
  else if opts.encryptMode ≠ .identity then
    if opts.encryptKey.length < 1 then
      .error (.new "store encryption is enabled but no key was provided")
    else
      match validAESKey opts.encryptKey with
      | some e => .error (.wrap "Invalid AES key provided" e)
      | none =>
        .ok (compressedContainer codecs opts.compressMode
          (encryptedContainer cipher opts.encryptMode opts.encryptKey c))
  else .ok (compressedContainer codecs opts.compressMode c)

/-- The quota `applyOpts` sets up, in segments. -/
def quotaPermits (quotaBytes : ℤ) (totalBytes segmentBytes : ℕ) : Except GoError (Option ℕ) :=
  if quotaBytes > 0 then
    if quotaBytes < segmentBytes then
      .error (.new "Provided quota was smaller than a single segment/object")
    else if quotaBytes < totalBytes then .ok (some (quotaBytes.toNat / segmentBytes))
    else .ok none
  else .ok none

/-- The id in an item's name, as `loadSegments` reads it. -/
def parseSegID (pre name : GoString) : Option ℤ :=
  let segIDStr := trimPrefix name pre
  atoi (trimSuffix segIDStr (fileExt segIDStr))

/-- Attach the listed items to their segments. -/
def attachItems (pre : GoString) (count : ℕ) :
    List (Item σ) → List (Segment σ) → Except Stop (Except GoError (List (Segment σ)))
  | [], segments => .ok (.ok segments)
  | item :: items, segments =>
    match parseSegID pre item.name with
    | none => .ok (.error (.new "Could not parse name into block ID while iterating on items"))
    | some segID =>
      if segID < 0 ∨ segID > count then
        .ok (.error (.new "Parsed ID was not in expected range"))
      else
        match segments[segID.toNat]? with
        | none => .error .panic
        | some seg =>
          attachItems pre count items
            (segments.set segID.toNat { seg with remoteItem := some item })

def loadSegments (sp : StoreParams σ) (totalBytes : ℕ) :
    Go σ (Except GoError (List (Segment σ))) := do
  if sp.segmentBytes = 0 then Prog.stop .panic
  else
    let count := totalBytes / sp.segmentBytes
    let segments := (List.range count).map Segment.new
    let w ← Prog.get
    match sp.container.items w.store sp.itemPrefix cursorStart (count + 1) with
    | .error e => pure (.error (.wrap "Could not enumerate items" e))
    | .ok (items, cursor) =>
      if items.length > count then
        pure (.error (.new "Enumeration revealed more than the expected items"))
      else if !isCursorEnd cursor then
        pure (.error (.new "After enumerating the expected items more items exist"))
      else
        match attachItems sp.itemPrefix count items segments with
        | .error stop => Prog.stop stop
        | .ok r => pure r

def newDevice (codecs : Codecs) (cipher : Cipher σ) (env : Env) (container : Container σ)
    (totalBytes objectBytes : ℕ) (opts : ObjOptions) : Go σ (Except GoError (ObjDevice σ)) := do
  if objectBytes > totalBytes then
    pure (.error (.new "Provided object size must be not exceeds provided total size"))
  else
    match containerStack codecs cipher opts container with
    | .error e => pure (.error (.wrap "Could not apply configuration options" e))
    | .ok container =>
      match quotaPermits opts.quotaBytes totalBytes objectBytes with
      | .error e => pure (.error (.wrap "Could not apply configuration options" e))
      | .ok quotaSema =>
        -- a new semaphore has all its permits
        Prog.modify fun w => { w with held := 0 }
        let params : StoreParams σ :=
          ⟨container, objectBytes, opts.thickProvision, opts.persistCache, quotaSema, env⟩
        match ← loadSegments params totalBytes with
        | .error e => pure (.error (.wrap "Could not create device" e))
        | .ok segments =>
          pure (.ok ⟨params, totalBytes, segments, max 1 opts.concurFlush, false⟩)

/-! ## Eviction -/

/-- The better of the best segment so far and another: the one used longer ago. -/
def pickOlder (best : Option (ℕ × ℤ)) (i : ℕ) (lastOp : ℤ) : Option (ℕ × ℤ) :=
  match best with
  | none => some (i, lastOp)
  | some (j, t) => if lastOp < t ∨ t = 0 then some (i, lastOp) else some (j, t)

/-- The scan of `removeLeastRecentUsed`: the best clean and the best dirty segment. -/
def lruScan (forIdx : ℕ) : List (Segment σ) → ℕ → Option (ℕ × ℤ) → Option (ℕ × ℤ) →
    Option (ℕ × ℤ) × Option (ℕ × ℤ)
  | [], _, clean, dirty => (clean, dirty)
  | seg :: segments, i, clean, dirty =>
    if i = forIdx ∨ seg.backed = false then lruScan forIdx segments (i + 1) clean dirty
    else if seg.dirty then
      lruScan forIdx segments (i + 1) clean (pickOlder dirty i seg.lastOp)
    else lruScan forIdx segments (i + 1) (pickOlder clean i seg.lastOp) dirty

/-- The segment to evict: a clean one if there is one. -/
def lruCandidate (segments : List (Segment σ)) (forIdx : ℕ) : Option ℕ :=
  let (clean, dirty) := lruScan forIdx segments 0 none none
  (clean.or dirty).map Prod.fst

/-- `removeLeastRecentUsed`.  Nobody else uses the segments meanwhile, so that the candidate of the
first scan has not been touched and is taken. -/
def removeLeastRecentUsed (sp : StoreParams σ) (segments : List (Segment σ)) (forIdx : ℕ) :
    Go σ (List (Segment σ) × Option GoError) := do
  match lruCandidate segments forIdx with
  | none =>
    pure (segments, some (.new "Could not remove any segments as none are backed"))
  | some idx =>
    match segments[idx]? with
    | none => Prog.stop .panic
    | some seg =>
      let (seg, err) ← seg.deleteFile sp
      pure (segments.set idx seg, err)

/-! ## Reading and writing -/

/-- A segment's `ReadAt` or `WriteAt`; a write leaves the buffer as it is. -/
def segmentOp (sp : StoreParams σ) (readOp : Bool) (seg : Segment σ) (segBuf : Bytes) (pos : ℤ) :
    Go σ (Segment σ × Bytes × ℕ × Option GoError) := do
  if readOp then seg.readAt sp segBuf pos
  else
    let (seg, count, err) ← seg.writeAt sp segBuf pos
    pure (seg, segBuf, count, err)

def maxCapTries : ℕ := 10

/-- The inner loop of `ioAt`: try a segment, evicting another as often as there is no capacity. -/
def accessSegment (sp : StoreParams σ) (readOp : Bool) (segID : ℕ) (pos : ℤ) :
    ℕ → List (Segment σ) → Bytes → Go σ (List (Segment σ) × Bytes × ℕ × Option GoError)
  | tries, segments, segBuf => do
    match segments[segID]? with
    | none => Prog.stop .panic
    | some seg =>
      let (seg, got, count, err) ← segmentOp sp readOp seg segBuf pos
      let segments := segments.set segID seg
      match err with
      | none => pure (segments, got, count, none)
      | some e =>
        match tries with
        | 0 => pure (segments, got, count, some (.wrap "Could not access segment" e))
        | tries + 1 =>
          if e.is errCapacityClaim then
            let (segments, rmErr) ← removeLeastRecentUsed sp segments segID
            match rmErr with
            | some e =>
              pure (segments, got, count, some (.wrap "Could not free capacity to load segment" e))
            | none => accessSegment sp readOp segID pos tries segments got
          else pure (segments, got, count, some (.wrap "Could not access segment" e))

/-- The outer loop of `ioAt`, segment by segment over the rest of the buffer.  Every round goes on
to the next segment, so that there are at most as many rounds as segments. -/
def ioLoop (sp : StoreParams σ) (readOp : Bool) :
    ℕ → List (Segment σ) → ℕ → ℤ → ℕ → Bytes →
      Go σ (List (Segment σ) × Bytes × ℕ × Option GoError)
  | rounds, segments, segID, pos, totalRead, rest => do
    if rest = [] then pure (segments, [], totalRead, none)
    else if segID ≥ segments.length then pure (segments, rest, totalRead, some ioEOF)
    else
      match rounds with
      | 0 => pure (segments, rest, totalRead, some ioEOF)
      | rounds + 1 =>
        let maxWrite : ℤ := sp.segmentBytes - pos
        -- a difference that does not fit wraps to a negative bound of a slice
        if maxWrite > maxOffset then Prog.stop .panic
        else
          let segBuf := if rest.length > maxWrite then rest.take maxWrite.toNat else rest
          let (segments, got, count, err) ←
            accessSegment sp readOp segID pos maxCapTries segments segBuf
          match err with
          | some e => pure (segments, got ++ rest.drop segBuf.length, count, some e)
          | none =>
            let (segments, tail, n, err) ←
              ioLoop sp readOp rounds segments (segID + 1) 0 (totalRead + count) (rest.drop count)
            pure (segments, got.take count ++ tail, n, err)

namespace ObjDevice

variable (dev : ObjDevice σ)

/-- `ioAt`: the device and the buffer afterwards, the count and the error. -/
def ioAt (readOp : Bool) (buf : Bytes) (pos : ℤ) :
    Go σ (ObjDevice σ × Bytes × ℕ × Option GoError) := do
  if dev.shutdown then pure (dev, buf, 0, some (.wrap "Device is shutdown" contextCanceled))
  else if pos > dev.totalBytes then pure (dev, buf, 0, some ioEOF)
  else if dev.params.segmentBytes = 0 then Prog.stop .panic
  else if buf = [] then pure (dev, buf, 0, none)
  else
    let segID := pos.tdiv dev.params.segmentBytes
    if segID < 0 then Prog.stop .panic
    else
      let (segments, got, n, err) ← ioLoop dev.params readOp dev.segments.length dev.segments
        segID.toNat (pos - segID * dev.params.segmentBytes) 0 buf
      pure ({ dev with segments }, got, n, err)

def readAt (buf : Bytes) (pos : ℤ) : Go σ (ObjDevice σ × Bytes × ℕ × Option GoError) :=
  dev.ioAt true buf pos

def writeAt (buf : Bytes) (pos : ℤ) : Go σ (ObjDevice σ × ℕ × Option GoError) := do
  let (dev, _, n, err) ← dev.ioAt false buf pos
  pure (dev, n, err)

/-! ## Flushing and closing -/

/-- The flushes of the segments at the given places, and the first error. -/
def flushLoop (sp : StoreParams σ) : List ℕ → List (Segment σ) → Option GoError →
    Go σ (List (Segment σ) × Option GoError)
  | [], segments, err => pure (segments, err)
  | i :: order, segments, err => do
    match segments[i]? with
    | none => Prog.stop .panic
    | some seg =>
      let w ← Prog.get
      let (seg, segErr) ← seg.Flush sp (sp.env.buffer w.tick)
      flushLoop sp order (segments.set i seg) (err.or segErr)

/-- The places of the dirty segments. -/
def flushList (segments : List (Segment σ)) : List ℕ :=
  (List.range segments.length).filter fun i =>
    match segments[i]? with
    | some seg => seg.dirty
    | none => false

/-- `flush`.  One at a time the segments are flushed in their own order. -/
def flush : Go σ (ObjDevice σ × Option GoError) := do
  let w ← Prog.get
  let order :=
    if dev.concurFlush ≤ 1 then flushList dev.segments
    else dev.params.env.flushOrder w.tick (flushList dev.segments)
  let (segments, err) ← flushLoop dev.params order dev.segments none
  pure ({ dev with segments }, err.map (.wrap "One ore more segments failed to flush"))

def Flush : Go σ (ObjDevice σ × Option GoError) := do
  if dev.shutdown then pure (dev, some (.wrap "Device is shutdown" contextCanceled))
  else dev.flush

/-- `DeleteFile` of every segment, and the first error. -/
def deleteFiles (sp : StoreParams σ) : List (Segment σ) →
    Go σ (List (Segment σ) × Option GoError)
  | [] => pure ([], none)
  | seg :: segments => do
    let (seg, segErr) ← seg.deleteFile sp
    let (segments, err) ← deleteFiles sp segments
    pure (seg :: segments, segErr.or err)

def close : Go σ (ObjDevice σ × Option GoError) := do
  if dev.shutdown then pure (dev, none)
  else
    let (dev, err) ← { dev with shutdown := true }.flush
    match err with
    | some e =>
      pure (dev, some (.wrap "Failed to write local cache back to remote store during shutdown" e))
    | none =>
      if dev.params.persistCache then pure (dev, none)
      else
        let (segments, err) ← deleteFiles dev.params dev.segments
        pure ({ dev with segments },
          err.map (.wrap "Could not delete one or more local cache files during shutdown"))

end ObjDevice
end Usbd
