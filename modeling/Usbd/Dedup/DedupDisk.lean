import Usbd.Dedup.Maps

/-!
# The dedup disk

`dedupDisk.ReadAt` and `WriteAt` over the three stores.  A request of at most one block takes a
short path; a longer one is cut into blocks.  The blocks of a read are fetched by goroutines that
share nothing but the request's buffer, each filling its own part of it, so that running them one
after the other is running them in any order.  The blocks of a write are written one after the
other by `WriteAt` itself, every one of them whatever became of the others, and the first error
is returned.

Positions are 64-bit numbers, and adding to one wraps around.  Each block written comes with the
faults its stores are made to have, `BlockFaults`.  A call that panics or waits for ever is an
`Except.error`.
-/

namespace Usbd

open ListMemory Endian

def errShutdown : GoError := .new "Device is shutdown"

/-- What goes wrong during one block write: the database lookup, the block-file write (after so
many bytes), the database put (and whether it recorded its entry), the LUN-map put. -/
structure BlockFaults where
  dbGet : Option GoError
  file : Option ℕ
  dbSet : Option Bool
  lunPut : Bool
  deriving DecidableEq, Repr

def BlockFaults.none : BlockFaults := ⟨.none, .none, .none, false⟩

/-- `dedupDisk`.  `shutdown` is the state of its context. -/
structure DedupDisk where
  lunMap : MmapLUNmap
  idStore : PebbleIDStore
  blockStore : FileBlockStore
  blockSize : ℕ
  size : ℤ
  shutdown : Bool

/-- `NewDedupDisk`, with the block size of the devices. -/
def newDedupDisk (lunMap : MmapLUNmap) (idStore : PebbleIDStore) (blockStore : FileBlockStore)
    (blockSize : ℕ) : DedupDisk :=
  ⟨lunMap, idStore, blockStore, blockSize, lunMap.size, false⟩

def getFirstError : List (Option GoError) → Option GoError
  | [] => none
  | some e :: _ => some e
  | none :: errors => getFirstError errors

lemma getFirstError_eq_none {errors : List (Option GoError)} :
    getFirstError errors = none ↔ ∀ e ∈ errors, e = none := by
  induction errors with
  | nil => simp [getFirstError]
  | cons e errors ih => cases e <;> simp [getFirstError, ih]

namespace DedupDisk

variable (sha1 : Bytes → Bytes)

/-! ## Reading -/

/-- The blocks with the given ids, each into its part of the buffer: the buffer and the error of
every fetch. -/
def getBlocks (blockStore : FileBlockStore) (blockSize : ℕ) :
    List ℕ → Bytes → Except Stop (Bytes × List (Option GoError))
  | [], buf => .ok (buf, [])
  | dedupID :: dedupIDs, buf =>
    match blockStore.getBlock dedupID (buf.take blockSize) with
    | none => .error .blocked
    | some (block, err) =>
      match getBlocks blockStore blockSize dedupIDs (buf.drop blockSize) with
      | .error stop => .error stop
      | .ok (rest, errs) =>
        .ok (block ++ rest, err.map (.wrap "Fetch of dedup block failed") :: errs)

/-- `ReadAt` into `buf`: the buffer afterwards, the count and the error. -/
def readAt (dd : DedupDisk) (buf : Bytes) (pos : ℤ) : Except Stop (Bytes × ℤ × Option GoError) :=
  if dd.shutdown then .ok (buf, -1, some errShutdown)
  else if pos < 0 then .ok (buf, 0, some (.new "Out of bounds read with negative position"))
  else if wrapInt64 (pos + buf.length) > dd.size then .ok (buf, 0, some ioEOF)
  else
    let block := (pos.tdiv dd.blockSize).toNat
    if buf.length > dd.blockSize then
      match dd.lunMap.getIDs block (buf.length / dd.blockSize) with
      | .error stop => .error stop
      | .ok (.error e) => .ok (buf, 0, some (.wrap "lunMap lookup of LUN blocks failed" e))
      | .ok (.ok dedupIDs) =>
        match getBlocks dd.blockStore dd.blockSize dedupIDs buf with
        | .error stop => .error stop
        | .ok (got, errors) =>
          match getFirstError errors with
          | some e => .ok (got, 0, some e)
          | none => .ok (got, buf.length, none)
    else
      match dd.lunMap.getID block with
      | .error stop => .error stop
      | .ok (.error e) => .ok (buf, 0, some (.wrap "lunMap lookup of LUN block failed" e))
      | .ok (.ok dedupID) =>
        match dd.blockStore.getBlock dedupID buf with
        | none => .error .blocked
        | some (got, some e) =>
          .ok (got, 0, some (.wrap "Fetch of dedup block from block store failed" e))
        | some (got, none) => .ok (got, buf.length, none)

/-! ## Writing -/

/-- Enter an id into the LUN map, the last stage of a block write. -/
def putLun (dd : DedupDisk) (block dedupID len : ℕ) (fault : Bool) :
    Except Stop ((ℤ × Option GoError) × DedupDisk) :=
  match dd.lunMap.putID block dedupID fault with
  | .error stop => .error stop
  | .ok (some e, lunMap) =>
    .ok ((0, some (.wrap "Addition of dedup block ID to lunMap failed" e)), { dd with lunMap })
  | .ok (none, lunMap) => .ok ((len, none), { dd with lunMap })

/-- The short path of `WriteAt`: one block. -/
def writeBlock (dd : DedupDisk) (buf : Bytes) (pos : ℤ) (faults : BlockFaults) :
    Except Stop ((ℤ × Option GoError) × DedupDisk) :=
  let block := (pos.tdiv dd.blockSize).toNat
  match dd.idStore.getID sha1 buf faults.dbGet with
  | (dedupID, _, none) => dd.putLun block dedupID buf.length faults.lunPut
  | (_, hash, some err) =>
    if err = errNotPresent then
      match dd.blockStore.putBlock buf faults.file with
      | (.error e, blockStore) =>
        .ok ((0, some (.wrap "Addition of dedup block to block store failed" e)),
          { dd with blockStore })
      | (.ok dedupID, blockStore) =>
        -- the test behind `PutID` looks at the error of `PutBlock`, which is nil here
        let idStore := (dd.idStore.putID hash dedupID faults.dbSet).2
        { dd with blockStore, idStore }.putLun block dedupID buf.length faults.lunPut
    else .ok ((0, some (.wrap "ID store lookup of write block failed" err)), dd)

/-- The stores after a content that was in neither of them. -/
def afterMiss (dd : DedupDisk) (buf : Bytes) : DedupDisk :=
  { dd with
    blockStore := dd.blockStore.afterPut buf
    idStore := (dd.idStore.putID (sha1 buf) dd.blockStore.nextID none).2 }

variable {sha1} in
/-- **What a block write can do** when none of its stores has a fault. -/
lemma writeBlock_cases (dd : DedupDisk) (buf : Bytes) {pos : ℤ} {block : ℕ}
    (hblock : (pos.tdiv dd.blockSize).toNat = block) :
    (isZeros buf = true ∧ dd.writeBlock sha1 buf pos BlockFaults.none =
        dd.putLun block zeroBlockID buf.length false) ∨
      (isZeros buf = false ∧ ∃ rawVal, dd.idStore.db (sha1 buf) = some rawVal ∧
        dd.writeBlock sha1 buf pos BlockFaults.none =
          dd.putLun block (ofLE (rawVal.take 8)) buf.length false) ∨
      (isZeros buf = false ∧ dd.idStore.db (sha1 buf) = none ∧
        dd.blockStore.nextPos + buf.length ≤ maxOffset ∧
        dd.writeBlock sha1 buf pos BlockFaults.none =
          (dd.afterMiss sha1 buf).putLun block dd.blockStore.nextID buf.length false) ∨
      (isZeros buf = false ∧ dd.idStore.db (sha1 buf) = none ∧
        maxOffset < dd.blockStore.nextPos + buf.length ∧ ∃ e,
        dd.writeBlock sha1 buf pos BlockFaults.none =
          .ok ((0, some e), { dd with blockStore := dd.blockStore.afterPut [] })) := by
  simp only [writeBlock, hblock, PebbleIDStore.getID, BlockFaults.none]
  cases hz : isZeros buf with
  | true => exact .inl ⟨rfl, rfl⟩
  | false =>
    refine .inr ?_
    cases hdb : dd.idStore.db (sha1 buf) with
    | some rawVal => exact .inl ⟨rfl, rawVal, rfl, rfl⟩
    | none =>
      refine .inr ?_
      by_cases hroom : dd.blockStore.nextPos + buf.length ≤ maxOffset
      · refine .inl ⟨rfl, rfl, hroom, ?_⟩
        simp only [FileBlockStore.putBlock_of_fits ⟨rfl, hroom⟩, Bool.false_eq_true, if_false,
          if_true]
        rfl
      · obtain ⟨e, hput⟩ : ∃ e, dd.blockStore.putBlock buf none =
            (.error e, dd.blockStore.afterPut []) :=
          FileBlockStore.putBlock_of_silent (.inr (not_le.mp hroom))
        refine .inr ⟨rfl, rfl, not_le.mp hroom,
          .wrap "Addition of dedup block to block store failed" e, ?_⟩
        simp only [hput, Bool.false_eq_true, if_false, if_true]

/-- The checks at the head of `WriteAt`, before `rest`. -/
def guardWrite (dd : DedupDisk) (len : ℕ) (pos : ℤ)
    (rest : Except Stop ((ℤ × Option GoError) × DedupDisk)) :
    Except Stop ((ℤ × Option GoError) × DedupDisk) :=
  if dd.shutdown then .ok ((-1, some errShutdown), dd)
  else if pos < 0 then
    .ok ((0, some (.new "Out of bounds write with negative position")), dd)
  else if wrapInt64 (pos + len) > dd.size then .ok ((0, some ioErrUnexpectedEOF), dd)
  else rest

/-- `n` block writes one after the other, each a `WriteAt` of its own: the error of every one. -/
def writeBlocks : ℕ → DedupDisk → Bytes → ℤ → List BlockFaults →
    Except Stop (List (Option GoError) × DedupDisk)
  | 0, dd, _, _, _ => .ok ([], dd)
  | n + 1, dd, buf, pos, faults =>
    let piece := buf.take dd.blockSize
    match dd.guardWrite piece.length pos
        (dd.writeBlock sha1 piece pos (faults.headD BlockFaults.none)) with
    | .error stop => .error stop
    | .ok ((_, err), dd') =>
      match writeBlocks n dd' (buf.drop dd.blockSize) (wrapInt64 (pos + dd.blockSize))
          faults.tail with
      | .error stop => .error stop
      | .ok (errors, dd'') => .ok (err :: errors, dd'')

/-- `WriteAt`.  The list has the faults of the successive block writes. -/
def writeAt (dd : DedupDisk) (buf : Bytes) (pos : ℤ) (faults : List BlockFaults) :
    Except Stop ((ℤ × Option GoError) × DedupDisk) :=
  dd.guardWrite buf.length pos <|
    if buf.length > dd.blockSize then
      match writeBlocks sha1 (buf.length / dd.blockSize) dd buf pos faults with
      | .error stop => .error stop
      | .ok (errors, dd') =>
        match getFirstError errors with
        | some e => .ok ((0, some e), dd')
        | none => .ok ((buf.length, none), dd')
    else dd.writeBlock sha1 buf pos (faults.headD BlockFaults.none)

/-- `Flush`.  The three stores are flushed at the same time; `errors` has their results in the order
they come in. -/
def flush (dd : DedupDisk) (errors : List (Option GoError)) : Option GoError :=
  if dd.shutdown then some errShutdown
  else (getFirstError errors).map (.wrap "One or more errors occurred")

end DedupDisk
end Usbd
