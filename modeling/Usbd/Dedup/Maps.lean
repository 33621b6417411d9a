import Usbd.Runtime.Zeros
import Usbd.Dedup.FileBlockStore

/-!
# The LUN map and the ID store

The two small stores of the dedup disk.  `mmapLUNmap` is an array of block ids in a memory-mapped
file, one per logical block, with the reserved id wherever nothing was written.  `pebbleIDStore`
is a database from the hash of a block's contents to the id it is stored under; the all-zero block
is never looked up in it.

The hash and the database are outside the repository.  The hash is the parameter `sha1`; the
database is a map from keys to values, each an arbitrary byte string.  A database `Set` may fail,
and when it does it may still have recorded its entry.  An index past the end of a slice is a
run-time panic, `Stop.panic`.
-/

namespace Usbd

open ListMemory Endian

/-! ## The LUN map -/

/-- `mmapLUNmap`: the mapped ids, and the size it reports. -/
structure MmapLUNmap where
  ids : List ℕ
  size : ℤ
  deriving DecidableEq, Repr

/-- `NewMmapLUNmap` on a file, created with the reserved id in every place when it is empty.
Mapping a file of no bytes fails.  The ids are those of the file, the size is the one asked for.
`lunBlockSize`, by which it divides, is never zero here. -/
def newMmapLUNmap (file : Bytes) (lunBlockSize : ℕ) (ifCreateSize : ℤ) :
    Except GoError MmapLUNmap :=
  let idCount := ifCreateSize.tdiv lunBlockSize
  let file :=
    if file.length < 1 then (List.replicate idCount.toNat (leBytes 8 zeroBlockID)).flatten
    else file
  if file.length = 0 then
    .error (.wrap "Could not mmap backing file" (.new "invalid argument"))
  else .ok ⟨longs (file.length / 8) file, idCount * lunBlockSize⟩

namespace MmapLUNmap

def getID (lm : MmapLUNmap) (block : ℕ) : Except Stop (Except GoError ℕ) :=
  if block > lm.ids.length then .ok (.error (.wrap "Out of bounds read" ioEOF))
  else match lm.ids[block]? with
    | some dedupID => .ok (.ok dedupID)
    | none => .error .panic

/-- `GetIDs` of `n` blocks.  The end is an unsigned 64-bit sum, and a slice cannot end before it
begins. -/
def getIDs (lm : MmapLUNmap) (startBlock n : ℕ) : Except Stop (Except GoError (List ℕ)) :=
  let stop := (startBlock + n) % 2 ^ 64
  if stop > lm.ids.length then .ok (.error (.wrap "Out of bounds read" ioEOF))
  else if startBlock ≤ stop then .ok (.ok (slice lm.ids startBlock (stop - startBlock)))
  else .error .panic

/-- `PutID`.  The store itself is an assignment in mapped memory and the result of the `Sync`
behind it is dropped, so that a put that fails (`fault`) is one that returns before the store. -/
def putID (lm : MmapLUNmap) (block dedupID : ℕ) (fault : Bool) :
    Except Stop (Option GoError × MmapLUNmap) :=
  if fault then .ok (some errInputOutput, lm)
  else if block > toUint64 lm.size then
    .ok (some (.wrap "Out of bounds write" ioErrUnexpectedEOF), lm)
  else if block < lm.ids.length then .ok (none, { lm with ids := lm.ids.set block dedupID })
  else .error .panic

lemma getID_of_lt {lm : MmapLUNmap} {block : ℕ} (h : block < lm.ids.length) :
    lm.getID block = .ok (.ok lm.ids[block]) := by
  rw [getID, if_neg (by omega), List.getElem?_eq_getElem h]

lemma mem_of_getID {lm : MmapLUNmap} {block dedupID : ℕ}
    (h : lm.getID block = .ok (.ok dedupID)) : dedupID ∈ lm.ids := by
  unfold getID at h
  split_ifs at h
  · cases h
  · split at h
    · next id hid =>
      cases h
      exact List.mem_of_getElem? hid
    · cases h

lemma getIDs_of_le {lm : MmapLUNmap} {startBlock n : ℕ} (h : startBlock + n ≤ lm.ids.length)
    (hmax : lm.ids.length < 2 ^ 64) :
    lm.getIDs startBlock n = .ok (.ok (slice lm.ids startBlock n)) := by
  have hend : (startBlock + n) % 2 ^ 64 = startBlock + n := Nat.mod_eq_of_lt (by omega)
  simp only [getIDs, hend]
  rw [if_neg (by omega), if_pos (Nat.le_add_right ..), Nat.add_sub_cancel_left]

/-- Without a carry out of the sum, the check of `GetIDs` is that of all its blocks. -/
lemma getIDs_of_lt {lm : MmapLUNmap} {startBlock n : ℕ} (h : lm.ids.length < startBlock + n)
    (hsum : startBlock + n < 2 ^ 64) :
    lm.getIDs startBlock n = .ok (.error (.wrap "Out of bounds read" ioEOF)) := by
  have hend : (startBlock + n) % 2 ^ 64 = startBlock + n := Nat.mod_eq_of_lt hsum
  simp only [getIDs, hend]
  rw [if_pos h]

/-- A carry leaves an end before the beginning, which only the length of the map can stop. -/
lemma getIDs_of_carry {lm : MmapLUNmap} {startBlock n : ℕ} (hstart : startBlock < 2 ^ 64)
    (hn : n < 2 ^ 64) (hsum : 2 ^ 64 ≤ startBlock + n) :
    lm.getIDs startBlock n = if lm.ids.length < startBlock + n - 2 ^ 64 then
      .ok (.error (.wrap "Out of bounds read" ioEOF)) else .error .panic := by
  have hend : (startBlock + n) % 2 ^ 64 = startBlock + n - 2 ^ 64 := by omega
  simp only [getIDs, hend]
  rw [if_neg (show ¬ startBlock ≤ startBlock + n - 2 ^ 64 by omega)]

lemma putID_of_lt {lm : MmapLUNmap} {block dedupID : ℕ} (h : block < lm.ids.length)
    (hsize : block ≤ toUint64 lm.size) :
    lm.putID block dedupID false = .ok (none, { lm with ids := lm.ids.set block dedupID }) := by
  simp [putID, h, hsize]

end MmapLUNmap

lemma longs_flatten_replicate (n : ℕ) (w : Bytes) (hw : w.length = 8) :
    longs n (List.replicate n w).flatten = List.replicate n (ofLE w) := by
  induction n with
  | zero => rfl
  | succ n ih =>
    rw [List.replicate_succ, List.flatten_cons, longs, List.take_left' hw, List.drop_left' hw, ih,
      List.replicate_succ]

lemma newMmapLUNmap_nil {blockSize size : ℕ} {lm : MmapLUNmap}
    (h : newMmapLUNmap [] blockSize size = .ok lm) :
    lm.ids = List.replicate (size / blockSize) zeroBlockID ∧
      lm.size = (size / blockSize * blockSize : ℕ) := by
  have hcount : (size : ℤ).tdiv blockSize = (size / blockSize : ℕ) := (Int.ofNat_tdiv ..).symm
  have hlen : ((List.replicate (size / blockSize) (leBytes 8 zeroBlockID)).flatten).length / 8 =
      size / blockSize := by
    simp
  simp only [newMmapLUNmap, hcount, List.length_nil, Nat.lt_one_iff, if_true,
    Int.toNat_natCast] at h
  split_ifs at h
  obtain rfl := Except.ok.inj h
  refine ⟨?_, by push_cast; rfl⟩
  rw [hlen, longs_flatten_replicate _ _ (length_leBytes 8 _), ofLE_leBytes (by decide)]

/-! ## The ID store -/

def errNotPresent : GoError := .new "ID is not present in database"

/-- `pebbleIDStore`: the database. -/
structure PebbleIDStore where
  db : Bytes → Option Bytes

/-- `NewPebbleIDStore` on an empty database. -/
def newPebbleIDStore : PebbleIDStore := ⟨fun _ => none⟩

namespace PebbleIDStore

/-- `GetID`: the id, the hash and the error.  `fault` is a failure of the database other than the
key being absent.  The values in it are of eight bytes: `PutID` sets no others. -/
def getID (sha1 : Bytes → Bytes) (ps : PebbleIDStore) (block : Bytes) (fault : Option GoError) :
    ℕ × Bytes × Option GoError :=
  if isZeros block then (zeroBlockID, [], none)
  else
    let sha1Hash := sha1 block
    match fault with
    | some e => (0, [], some (.wrap "Database get failed" e))
    | none =>
      match ps.db sha1Hash with
      | none => (0, sha1Hash, some errNotPresent)
      | some rawVal => (ofLE (rawVal.take 8), [], none)

/-- `PutID`.  `fault` says whether the `Set` fails, and whether it recorded its entry all the
same. -/
def putID (ps : PebbleIDStore) (sha1Hash : Bytes) (dedupID : ℕ) (fault : Option Bool) :
    Option GoError × PebbleIDStore :=
  let put : PebbleIDStore := ⟨Function.update ps.db sha1Hash (some (leBytes 8 dedupID))⟩
  match fault with
  | none => (none, put)
  | some recorded =>
    (some (.wrap "Database put failed" errInputOutput), if recorded then put else ps)

/-- A put leaves the entry recorded or the database as it was, whether it fails or not. -/
lemma putID_db (ps : PebbleIDStore) (sha1Hash : Bytes) (dedupID : ℕ) (fault : Option Bool)
    {h rawVal : Bytes} (hdb : (ps.putID sha1Hash dedupID fault).2.db h = some rawVal) :
    ps.db h = some rawVal ∨ h = sha1Hash ∧ rawVal = leBytes 8 dedupID := by
  have hput : ∀ {v}, Function.update ps.db sha1Hash (some (leBytes 8 dedupID)) h = some v →
      ps.db h = some v ∨ h = sha1Hash ∧ v = leBytes 8 dedupID := by
    intro v hv
    by_cases hh : h = sha1Hash
    · rw [hh, Function.update_self] at hv
      exact Or.inr ⟨hh, (Option.some.inj hv).symm⟩
    · rw [Function.update_of_ne hh] at hv
      exact Or.inl hv
  rcases fault with _ | _ | _
  · exact hput hdb
  · exact Or.inl hdb
  · exact hput hdb

end PebbleIDStore
end Usbd
