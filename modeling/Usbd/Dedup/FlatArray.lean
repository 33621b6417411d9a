import Usbd.Dedup.DedupDisk

/-!
# The dedup disk is a flat array of blocks

What the three stores are for: seen through `ReadAt`, the disk is one array of blocks, and a block
write either puts its block there or changes nothing.

`Refines` ties the stores to such an array.  Each logical block has an id in the LUN map under
which the block store holds the array's block (`Holds`), the reserved id standing for zeros; and
each entry of the database is the hash of a block the store holds under the entry's id.  The second
half is why a content already known needs no second copy.  It never speaks about blocks that were
stored and not entered, so that a block write may stop anywhere — after the block file, after the
database — and leave all of it true of the same array.

The statement for whole runs is `dedup_disk_refines_flat_array`.  The hash is any function that is
injective on the blocks the run writes.
-/

namespace Usbd

open ListMemory Endian FileBlockStore

/-! ## The array -/

/-- The first `n` blocks of a buffer. -/
def chunks (blockSize : ℕ) : ℕ → Bytes → List Bytes
  | 0, _ => []
  | n + 1, buf => buf.take blockSize :: chunks blockSize n (buf.drop blockSize)

/-- Successive block writes from `block` on, of which those without an error take effect. -/
def applyWrites : List Bytes → ℕ → List Bytes → List (Option GoError) → List Bytes
  | disk, block, b :: blocks, err :: errors =>
    applyWrites (if err = none then disk.set block b else disk) (block + 1) blocks errors
  | disk, _, _, _ => disk

namespace DedupDisk

/-! ## The stores and the array -/

/-- The block store has this block under this id. -/
def Holds (fbs : FileBlockStore) (dedupID : ℕ) (b : Bytes) : Prop :=
  dedupID = zeroBlockID ∧ b = zeros fbs.blockSize ∨ Stored fbs (dedupID, b)

/-- The disk stands for an array of blocks.  `written` are the blocks the hash is known to tell
apart. -/
structure Refines (sha1 : Bytes → Bytes) (written : Set Bytes) (dd : DedupDisk)
    (disk : List Bytes) : Prop where
  pos : 0 < dd.blockSize
  blockSize_eq : dd.blockStore.blockSize = dd.blockSize
  idle : dd.blockStore.pendingWrites = []
  tied : dd.blockStore.Tied
  running : dd.shutdown = false
  length_eq : disk.length = dd.lunMap.ids.length
  size_eq : dd.size = (dd.lunMap.ids.length * dd.blockSize : ℕ)
  lunSize_eq : dd.lunMap.size = (dd.lunMap.ids.length * dd.blockSize : ℕ)
  le_max : dd.size ≤ maxOffset
  holds : ∀ (i dedupID : ℕ) (b : Bytes), dd.lunMap.ids[i]? = some dedupID → disk[i]? = some b →
    Holds dd.blockStore dedupID b
  entries : ∀ h rawVal, dd.idStore.db h = some rawVal → ∃ dedupID b, rawVal = leBytes 8 dedupID ∧
    h = sha1 b ∧ b ∈ written ∧ Stored dd.blockStore (dedupID, b)

variable {sha1 : Bytes → Bytes} {written : Set Bytes} {dd : DedupDisk} {disk : List Bytes}

lemma Refines.ids_le (h : Refines sha1 written dd disk) :
    dd.lunMap.ids.length * dd.blockSize ≤ maxOffset := by
  have hmax := h.le_max
  rw [h.size_eq] at hmax
  exact_mod_cast hmax

lemma Refines.ids_lt (h : Refines sha1 written dd disk) : dd.lunMap.ids.length < 2 ^ 64 := by
  have hle := (Nat.le_mul_of_pos_right _ h.pos).trans h.ids_le
  rw [maxOffset] at hle
  omega

lemma Holds.getBlock {fbs : FileBlockStore} {dedupID : ℕ} {b buf : Bytes}
    (h : Holds fbs dedupID b) (hpos : 0 < fbs.blockSize) (hidle : fbs.pendingWrites = [])
    (hbuf : buf.length = fbs.blockSize) : fbs.getBlock dedupID buf = some (b, none) := by
  rcases h with ⟨rfl, rfl⟩ | h
  · exact getBlock_zeroBlockID hbuf
  · exact h.getBlock hpos hidle hbuf

lemma Holds.afterPut {fbs : FileBlockStore} {dedupID : ℕ} {b : Bytes} (h : Holds fbs dedupID b)
    (ht : fbs.Tied) (w : Bytes) : Holds (fbs.afterPut w) dedupID b :=
  h.imp id fun h => h.afterPut (Or.inr ht)

lemma refines_fresh {blockSize size : ℕ} (hbs : 0 < blockSize) (hmax : size ≤ maxOffset)
    {lm : MmapLUNmap} (hnew : newMmapLUNmap [] blockSize size = .ok lm) :
    Refines sha1 written
      (newDedupDisk lm newPebbleIDStore (newFileBlockStore [] blockSize) blockSize)
      (List.replicate (size / blockSize) (zeros blockSize)) := by
  obtain ⟨hids, hsize⟩ := newMmapLUNmap_nil hnew
  have hlen : lm.ids.length = size / blockSize := by rw [hids, List.length_replicate]
  refine ⟨hbs, rfl, rfl, tied_newFileBlockStore (by simpa using hbs), rfl, ?_, ?_, ?_, ?_, ?_, ?_⟩
  · simp [newDedupDisk, hlen]
  · simp [newDedupDisk, hlen, hsize]
  · simp [newDedupDisk, hlen, hsize]
  · have hle := Nat.div_mul_le_self size blockSize
    simp only [newDedupDisk, hsize]
    exact_mod_cast hle.trans hmax
  · intro i dedupID b hid hb
    simp only [newDedupDisk, hids, List.getElem?_replicate, Option.ite_none_right_eq_some,
      Option.some.injEq] at hid hb
    exact Or.inl ⟨hid.2.symm, hb.2.symm⟩
  · simp [newDedupDisk, newPebbleIDStore]

/-! ## Reading -/

/-- Fetching a list of blocks the store holds returns them, without an error. -/
lemma getBlocks_of_holds {fbs : FileBlockStore} (hpos : 0 < fbs.blockSize)
    (hidle : fbs.pendingWrites = []) {dedupIDs : List ℕ} {blocks : List Bytes}
    (h : List.Forall₂ (Holds fbs) dedupIDs blocks) {buf : Bytes}
    (hbuf : buf.length = dedupIDs.length * fbs.blockSize) :
    getBlocks fbs fbs.blockSize dedupIDs buf =
      .ok (blocks.flatten, List.replicate dedupIDs.length none) := by
  induction h generalizing buf with
  | nil =>
    have hnil : buf = [] := List.length_eq_zero_iff.mp (by simpa using hbuf)
    rw [hnil]
    rfl
  | @cons dedupID b dedupIDs blocks hhead _ ih =>
    obtain ⟨htake, hdrop⟩ := length_take_drop_block hbuf
    simp only [getBlocks, hhead.getBlock hpos hidle htake, ih hdrop]
    rfl

lemma Refines.forall₂_slice (h : Refines sha1 written dd disk) (block n : ℕ) :
    List.Forall₂ (Holds dd.blockStore) (slice dd.lunMap.ids block n) (slice disk block n) := by
  rw [List.forall₂_iff_get]
  refine ⟨by rw [length_slice, length_slice, h.length_eq], fun i hi hi' => ?_⟩
  have hlt : i < n := by
    rw [length_slice] at hi
    omega
  have hid := List.getElem?_eq_getElem hi
  have hb := List.getElem?_eq_getElem hi'
  rw [getElem?_slice, if_pos hlt] at hid hb
  exact h.holds _ _ _ hid hb

section Operations

variable (h : Refines sha1 written dd disk)

include h

lemma Refines.readAt {block n : ℕ} {buf : Bytes} (hn : 0 < n) (hbuf : buf.length = n * dd.blockSize)
    (hle : block + n ≤ dd.lunMap.ids.length) :
    dd.readAt buf ((block * dd.blockSize : ℕ) : ℤ) =
      .ok ((slice disk block n).flatten, buf.length, none) := by
  have hsize : ¬ wrapInt64 (((block * dd.blockSize : ℕ) : ℤ) + buf.length) > dd.size := by
    have hmul := Nat.mul_le_mul_right dd.blockSize hle
    rw [Nat.add_mul, ← hbuf] at hmul
    rw [h.size_eq]
    have hwrap := wrapInt64_le (show 0 ≤ ((block * dd.blockSize : ℕ) : ℤ) + buf.length by omega)
    omega
  have hblock : (((block * dd.blockSize : ℕ) : ℤ).tdiv dd.blockSize).toNat = block := by
    rw [← Int.ofNat_tdiv, Int.toNat_natCast, Nat.mul_div_cancel _ h.pos]
  have hslice := h.forall₂_slice block n
  have hlen : (slice dd.lunMap.ids block n).length = n := length_slice_of_le hle
  have hpos : 0 < dd.blockStore.blockSize := h.blockSize_eq ▸ h.pos
  simp only [DedupDisk.readAt, h.running, Bool.false_eq_true, if_false,
    if_neg (show ¬ ((block * dd.blockSize : ℕ) : ℤ) < 0 by omega), if_neg hsize, hblock]
  split_ifs with hmulti
  · have hdiv : buf.length / dd.blockSize = n := by rw [hbuf, Nat.mul_div_cancel _ h.pos]
    -- more than one: every goroutine finds the block of its id
    have hget := getBlocks_of_holds hpos h.idle hslice
      (show buf.length = _ by rw [hlen, h.blockSize_eq, hbuf])
    rw [h.blockSize_eq] at hget
    have hfirst : getFirstError (List.replicate (slice dd.lunMap.ids block n).length none) = none :=
      getFirstError_eq_none.mpr fun e he => (List.mem_replicate.mp he).2
    simp only [hdiv, MmapLUNmap.getIDs_of_le hle h.ids_lt, hget, hfirst]
  · -- one block: the slice is a singleton
    have hone : n = 1 := by
      rw [hbuf] at hmulti
      have : ¬ 1 < n := fun h1 =>
        hmulti (by simpa using Nat.mul_lt_mul_of_pos_right h1 h.pos)
      omega
    subst hone
    have hlt : block < dd.lunMap.ids.length := by omega
    have hlt' : block < disk.length := by
      rw [h.length_eq]
      exact hlt
    have hget := (h.holds block _ _ (List.getElem?_eq_getElem hlt)
      (List.getElem?_eq_getElem hlt')).getBlock hpos h.idle
      (show buf.length = _ by rw [hbuf, Nat.one_mul, h.blockSize_eq])
    have hsl : slice disk block 1 = [disk[block]] := by
      rw [slice, List.drop_eq_getElem_cons hlt']
      rfl
    simp only [MmapLUNmap.getID_of_lt hlt, hget, hsl, List.flatten_cons, List.flatten_nil,
      List.append_nil]

/-! ## Writing -/

/-- Storing one more block in the block store, or a part of it, changes nothing the array shows. -/
lemma Refines.afterPut (w : Bytes) :
    Refines sha1 written { dd with blockStore := dd.blockStore.afterPut w } disk where
  pos := h.pos
  blockSize_eq := h.blockSize_eq
  idle := by simp [FileBlockStore.afterPut, h.idle]
  tied := h.tied.afterPut w
  running := h.running
  length_eq := h.length_eq
  size_eq := h.size_eq
  lunSize_eq := h.lunSize_eq
  le_max := h.le_max
  holds i dedupID b hid hb := (h.holds i dedupID b hid hb).afterPut h.tied w
  entries k rawVal hk := by
    obtain ⟨dedupID, b, hraw, hh, hb, hst⟩ := h.entries k rawVal hk
    exact ⟨dedupID, b, hraw, hh, hb, hst.afterPut (Or.inr h.tied)⟩

/-- A put into the ID store, failed or not, is one more entry for a stored block. -/
lemma Refines.putID {dedupID : ℕ} {b : Bytes} (hst : Stored dd.blockStore (dedupID, b))
    (hb : b ∈ written) (fault : Option Bool) :
    Refines sha1 written
      { dd with idStore := (dd.idStore.putID (sha1 b) dedupID fault).2 } disk where
  pos := h.pos
  blockSize_eq := h.blockSize_eq
  idle := h.idle
  tied := h.tied
  running := h.running
  length_eq := h.length_eq
  size_eq := h.size_eq
  lunSize_eq := h.lunSize_eq
  le_max := h.le_max
  holds := h.holds
  entries k rawVal hk := by
    rcases PebbleIDStore.putID_db _ _ _ _ hk with hk | ⟨rfl, rfl⟩
    · exact h.entries k rawVal hk
    · exact ⟨dedupID, b, rfl, rfl, hb, hst⟩

/-- Entering an id into the LUN map puts the block it holds into the array, unless it fails. -/
lemma Refines.putLun {dedupID block : ℕ} {b : Bytes} (hb : Holds dd.blockStore dedupID b)
    (hlt : block < dd.lunMap.ids.length) (len : ℕ) (fault : Bool) :
    ∃ count err dd', dd.putLun block dedupID len fault = .ok ((count, err), dd') ∧
      (err = none → count = len) ∧ dd'.blockSize = dd.blockSize ∧
      dd'.lunMap.ids.length = dd.lunMap.ids.length ∧
      Refines sha1 written dd' (if err = none then disk.set block b else disk) := by
  cases fault with
  | true =>
    exact ⟨0, some (.wrap "Addition of dedup block ID to lunMap failed" errInputOutput), dd, rfl,
      by simp, rfl, rfl, by simpa using h⟩
  | false =>
    have hsize : block ≤ toUint64 dd.lunMap.size := by
      rw [h.lunSize_eq, toUint64_natCast h.ids_le]
      exact hlt.le.trans (Nat.le_mul_of_pos_right _ h.pos)
    refine ⟨len, none,
      { dd with lunMap := { dd.lunMap with ids := dd.lunMap.ids.set block dedupID } },
      by simp [DedupDisk.putLun, MmapLUNmap.putID_of_lt hlt hsize], fun _ => rfl, rfl, by simp, ?_⟩
    rw [if_pos rfl]
    refine ⟨h.pos, h.blockSize_eq, h.idle, h.tied, h.running, ?_, ?_, ?_, h.le_max,
      fun i id' b' hid hb' => ?_, h.entries⟩
    · simp [h.length_eq]
    · simp [h.size_eq]
    · simp [h.lunSize_eq]
    · rw [List.getElem?_set] at hid hb'
      by_cases hi : block = i
      · rw [if_pos hi, if_pos (by omega), Option.some.injEq] at hid
        rw [if_pos hi, if_pos (by rw [h.length_eq]; omega), Option.some.injEq] at hb'
        rw [← hid, ← hb']
        exact hb
      · rw [if_neg hi] at hid hb'
        exact h.holds i id' b' hid hb'

/-- **One block write.**  Whatever its stores do, the call returns, and the array afterwards has the
block if it reports no error and is unchanged if it does. -/
lemma Refines.writeBlock (hinj : Set.InjOn sha1 written) {buf : Bytes}
    (hlen : buf.length = dd.blockSize) (hbuf : buf ∈ written) {block : ℕ}
    (hlt : block < dd.lunMap.ids.length) (faults : BlockFaults) :
    ∃ count err dd',
      dd.writeBlock sha1 buf ((block * dd.blockSize : ℕ) : ℤ) faults = .ok ((count, err), dd') ∧
      (err = none → count = buf.length) ∧ dd'.blockSize = dd.blockSize ∧
      dd'.lunMap.ids.length = dd.lunMap.ids.length ∧
      Refines sha1 written dd' (if err = none then disk.set block buf else disk) := by
  have hblock : (((block * dd.blockSize : ℕ) : ℤ).tdiv dd.blockSize).toNat = block := by
    rw [← Int.ofNat_tdiv, Int.toNat_natCast, Nat.mul_div_cancel _ h.pos]
  simp only [DedupDisk.writeBlock, hblock, PebbleIDStore.getID]
  by_cases hz : isZeros buf = true
  · -- zeros are the reserved block
    have hzero : Holds dd.blockStore zeroBlockID buf := by
      refine Or.inl ⟨rfl, ?_⟩
      rw [h.blockSize_eq, ← hlen]
      exact isZeros_iff_eq_zeros.mp hz
    simpa only [hz, if_true] using h.putLun hzero hlt buf.length faults.lunPut
  simp only [hz, if_false, Bool.false_eq_true]
  cases hget : faults.dbGet with
  | some e =>
    refine ⟨0, some (.wrap "ID store lookup of write block failed" (.wrap "Database get failed" e)),
      dd, ?_, by simp, rfl, rfl, by simpa using h⟩
    simp [errNotPresent]
  | none =>
    cases hdb : dd.idStore.db (sha1 buf) with
    | some rawVal =>
      -- a known content: the entry's block is this one, because the hash tells them apart
      obtain ⟨dedupID, b, hraw, hh, hb, hst⟩ := h.entries _ _ hdb
      obtain rfl : buf = b := hinj hbuf hb hh
      have hid : ofLE (rawVal.take 8) = dedupID := by
        have hmax := hst.le_max
        have hmul : dedupID * 1 ≤ dedupID * dd.blockStore.blockSize :=
          Nat.mul_le_mul_left _ (h.blockSize_eq ▸ h.pos)
        have h64 : maxOffset < 256 ^ 8 := by decide
        rw [hraw, List.take_of_length_le (by simp), ofLE_leBytes]
        simp only at hmax
        omega
      simpa only [hid] using h.putLun (Or.inr hst) hlt buf.length faults.lunPut
    | none =>
      simp only [if_true]
      by_cases hf : dd.blockStore.Fits buf faults.file
      · have hst : Stored (dd.blockStore.afterPut buf) (dd.blockStore.nextID, buf) :=
          stored_afterPut_self (h.blockSize_eq ▸ h.pos) (hlen.trans h.blockSize_eq.symm) h.tied hf.2
        have hput := (h.afterPut buf).putID hst hbuf faults.dbSet
        simpa only [putBlock_of_fits hf] using
          hput.putLun (Or.inr hst) hlt buf.length faults.lunPut
      · obtain ⟨e, n, hput, -⟩ := putBlock_of_not_fits hf
        simp only [hput]
        exact ⟨0, some (.wrap "Addition of dedup block to block store failed" e), _, rfl, by simp,
          rfl, rfl, by simpa using h.afterPut _⟩

lemma Refines.guardWrite {block n len : ℕ} (hlen : len = n * dd.blockSize)
    (hle : block + n ≤ dd.lunMap.ids.length)
    (rest : Except Stop ((ℤ × Option GoError) × DedupDisk)) :
    dd.guardWrite len ((block * dd.blockSize : ℕ) : ℤ) rest = rest := by
  have hsize : ¬ wrapInt64 (((block * dd.blockSize : ℕ) : ℤ) + len) > dd.size := by
    have hmul := Nat.mul_le_mul_right dd.blockSize hle
    rw [Nat.add_mul, ← hlen] at hmul
    rw [h.size_eq]
    have hwrap := wrapInt64_le (show 0 ≤ ((block * dd.blockSize : ℕ) : ℤ) + len by omega)
    omega
  simp only [DedupDisk.guardWrite, h.running, Bool.false_eq_true, if_false,
    if_neg (show ¬ ((block * dd.blockSize : ℕ) : ℤ) < 0 by omega), if_neg hsize]

end Operations

/-- The end of `n` blocks from `block` on. -/
lemma pos_add_blocks (block n bs : ℕ) :
    ((block * bs : ℕ) : ℤ) + (n * bs : ℕ) = ((block + n) * bs : ℕ) := by
  push_cast
  ring

/-- On to the next block. -/
lemma wrapInt64_next {block bs : ℕ} (hmax : (block + 1) * bs ≤ maxOffset) :
    wrapInt64 (((block * bs : ℕ) : ℤ) + bs) = ((block + 1) * bs : ℕ) := by
  have hsum := pos_add_blocks block 1 bs
  rw [Nat.one_mul] at hsum
  rw [hsum, wrapInt64_of_isInt64 (isInt64_natCast hmax)]

/-- The first of several block writes, and the position of the next. -/
lemma Refines.writeBlocks_succ (h : Refines sha1 written dd disk) (hinj : Set.InjOn sha1 written)
    {n block : ℕ} {buf : Bytes} (hlen : buf.length = (n + 1) * dd.blockSize)
    (hbuf : ∀ b ∈ chunks dd.blockSize (n + 1) buf, b ∈ written)
    (hle : block + (n + 1) ≤ dd.lunMap.ids.length) (faults : List BlockFaults) :
    ∃ count err dd₁,
      dd.writeBlock sha1 (buf.take dd.blockSize) ((block * dd.blockSize : ℕ) : ℤ)
        (faults.headD BlockFaults.none) = .ok ((count, err), dd₁) ∧
      dd₁.blockSize = dd.blockSize ∧ dd₁.lunMap.ids.length = dd.lunMap.ids.length ∧
      Refines sha1 written dd₁
        (if err = none then disk.set block (buf.take dd.blockSize) else disk) ∧
      (buf.drop dd.blockSize).length = n * dd₁.blockSize ∧
      (∀ b ∈ chunks dd₁.blockSize n (buf.drop dd.blockSize), b ∈ written) ∧
      ∀ errors dd₂, dd₁.writeBlocks sha1 n (buf.drop dd.blockSize)
          (((block + 1) * dd₁.blockSize : ℕ) : ℤ) faults.tail = .ok (errors, dd₂) →
        dd.writeBlocks sha1 (n + 1) buf ((block * dd.blockSize : ℕ) : ℤ) faults =
          .ok (err :: errors, dd₂) := by
  obtain ⟨htake, hdrop⟩ := length_take_drop_block hlen
  obtain ⟨count, err, dd₁, hw, -, hbs, hids, h₁⟩ := h.writeBlock hinj htake
    (hbuf _ (by simp [chunks])) (show block < dd.lunMap.ids.length by omega)
    (faults.headD BlockFaults.none)
  refine ⟨count, err, dd₁, hw, hbs, hids, h₁, hbs ▸ hdrop, fun b hb => ?_,
    fun errors dd₂ hrest => ?_⟩
  · rw [hbs] at hb
    exact hbuf b (by simp [chunks, hb])
  have hpos : wrapInt64 (((block * dd.blockSize : ℕ) : ℤ) + dd.blockSize) =
      (((block + 1) * dd₁.blockSize : ℕ) : ℤ) := by
    have hmul := Nat.mul_le_mul_right dd.blockSize (show block + 1 ≤ dd.lunMap.ids.length by omega)
    rw [hbs]
    exact wrapInt64_next (hmul.trans h.ids_le)
  have hguard := h.guardWrite (show (buf.take dd.blockSize).length = 1 * dd.blockSize by
    rw [htake, Nat.one_mul]) (show block + 1 ≤ dd.lunMap.ids.length by omega)
  simp only [DedupDisk.writeBlocks, hguard, hw, hpos, hrest]

/-- **Successive block writes.**  Every one returns, and the array afterwards has the blocks of
those without an error. -/
lemma Refines.writeBlocks (h : Refines sha1 written dd disk) (hinj : Set.InjOn sha1 written)
    {n block : ℕ} {buf : Bytes} (hlen : buf.length = n * dd.blockSize)
    (hbuf : ∀ b ∈ chunks dd.blockSize n buf, b ∈ written)
    (hle : block + n ≤ dd.lunMap.ids.length) (faults : List BlockFaults) :
    ∃ errors dd',
      dd.writeBlocks sha1 n buf ((block * dd.blockSize : ℕ) : ℤ) faults = .ok (errors, dd') ∧
      errors.length = n ∧ dd'.blockSize = dd.blockSize ∧
      dd'.lunMap.ids.length = dd.lunMap.ids.length ∧
      Refines sha1 written dd' (applyWrites disk block (chunks dd.blockSize n buf) errors) := by
  induction n generalizing dd disk block buf faults with
  | zero => exact ⟨[], dd, rfl, rfl, rfl, rfl, h⟩
  | succ n ih =>
    obtain ⟨count, err, dd₁, -, hbs, hids, h₁, hdrop, hrest, hrun⟩ :=
      h.writeBlocks_succ hinj hlen hbuf hle faults
    obtain ⟨errors, dd₂, hws, hnum, hbs₂, hids₂, h₂⟩ := ih h₁ hdrop hrest
      (show block + 1 + n ≤ dd₁.lunMap.ids.length by omega) faults.tail
    refine ⟨err :: errors, dd₂, hrun errors dd₂ hws, by simp [hnum], hbs₂.trans hbs,
      hids₂.trans hids, ?_⟩
    rw [hbs] at h₂
    exact h₂

/-- A `WriteAt` inside the disk: it reports no error exactly when none of its block writes does,
and leaves the array with those that went through. -/
lemma Refines.writeAt (h : Refines sha1 written dd disk) (hinj : Set.InjOn sha1 written)
    {n block : ℕ} {buf : Bytes} (hn : 0 < n) (hlen : buf.length = n * dd.blockSize)
    (hbuf : ∀ b ∈ chunks dd.blockSize n buf, b ∈ written)
    (hle : block + n ≤ dd.lunMap.ids.length) (faults : List BlockFaults) :
    ∃ count err errors dd',
      dd.writeAt sha1 buf ((block * dd.blockSize : ℕ) : ℤ) faults = .ok ((count, err), dd') ∧
      dd.writeBlocks sha1 n buf ((block * dd.blockSize : ℕ) : ℤ) faults = .ok (errors, dd') ∧
      errors.length = n ∧ (err = none ↔ ∀ e ∈ errors, e = none) ∧
      (err = none → count = buf.length) ∧ dd'.blockSize = dd.blockSize ∧
      dd'.lunMap.ids.length = dd.lunMap.ids.length ∧
      Refines sha1 written dd' (applyWrites disk block (chunks dd.blockSize n buf) errors) := by
  obtain ⟨errors, dd', hws, hnum, hbs, hids, href⟩ := h.writeBlocks hinj hlen hbuf hle faults
  have hguard := h.guardWrite hlen hle
  by_cases hmulti : buf.length > dd.blockSize
  · have hdiv : buf.length / dd.blockSize = n := by rw [hlen, Nat.mul_div_cancel _ h.pos]
    cases hfirst : getFirstError errors with
    | some e =>
      refine ⟨0, some e, errors, dd', ?_, hws, hnum, ?_, by simp, hbs, hids, href⟩
      · rw [DedupDisk.writeAt, hguard, if_pos hmulti, hdiv]
        simp only [hws, hfirst]
      · rw [← getFirstError_eq_none, hfirst]
    | none =>
      refine ⟨buf.length, none, errors, dd', ?_, hws, hnum, ?_, fun _ => rfl, hbs, hids, href⟩
      · rw [DedupDisk.writeAt, hguard, if_pos hmulti, hdiv]
        simp only [hws, hfirst]
      · rw [← getFirstError_eq_none, hfirst]
  · -- one block: the short path is the single call of the long one
    have hone : n = 1 := by
      have : ¬ 1 < n := fun h1 => hmulti (by
        rw [hlen]
        simpa using Nat.mul_lt_mul_of_pos_right h1 h.pos)
      omega
    subst hone
    rw [Nat.one_mul] at hlen
    have htake : buf.take dd.blockSize = buf := List.take_of_length_le hlen.le
    obtain ⟨count, err, dd₁, hw, hcount, -⟩ := h.writeBlock hinj hlen
      (hbuf buf (by simp [chunks, htake])) (show block < dd.lunMap.ids.length by omega)
      (faults.headD BlockFaults.none)
    have hws' : dd.writeBlocks sha1 1 buf ((block * dd.blockSize : ℕ) : ℤ) faults =
        .ok ([err], dd₁) := by
      simp only [DedupDisk.writeBlocks, htake, hguard, hw]
    obtain ⟨rfl, rfl⟩ : [err] = errors ∧ dd₁ = dd' := by
      simpa only [hws, Except.ok.injEq, Prod.mk.injEq, eq_comm] using hws'
    exact ⟨count, err, [err], dd₁, by rw [DedupDisk.writeAt, hguard, if_neg hmulti, hw], hws', rfl,
      by simp, hcount, hbs, hids, href⟩

end DedupDisk

/-! ## Whole runs -/

/-- A call on the disk: a read into a buffer, or a write with the faults of its block writes. -/
inductive DedupOp
  | read (buf : Bytes) (pos : ℕ)
  | write (buf : Bytes) (pos : ℕ) (faults : List BlockFaults)

/-- A position and a length are block-aligned and inside the disk, the length not zero. -/
def InRange (blockSize : ℕ) (size : ℤ) (pos len : ℕ) : Prop :=
  blockSize ∣ pos ∧ blockSize ∣ len ∧ 0 < len ∧ (pos : ℤ) + len ≤ size

def DedupOp.InRange (blockSize : ℕ) (size : ℤ) : DedupOp → Prop
  | .read buf pos => Usbd.InRange blockSize size pos buf.length
  | .write buf pos _ => Usbd.InRange blockSize size pos buf.length

/-- The blocks a call writes. -/
def DedupOp.blocks (blockSize : ℕ) : DedupOp → List Bytes
  | .read _ _ => []
  | .write buf _ _ => chunks blockSize (buf.length / blockSize) buf

structure DedupRun where
  dd : DedupDisk
  disk : List Bytes

namespace DedupRun

open DedupDisk

/-- A fresh disk over a new LUN map, an empty database and an empty block file; all zeros. -/
def start (lm : MmapLUNmap) (blockSize : ℕ) : DedupRun where
  dd := newDedupDisk lm newPebbleIDStore (newFileBlockStore [] blockSize) blockSize
  disk := List.replicate lm.ids.length (zeros blockSize)

/-- One call.  The array takes over the blocks whose own write reported no error. -/
def step (sha1 : Bytes → Bytes) (r : DedupRun) : DedupOp → DedupRun
  | .read _ _ => r
  | .write buf pos faults =>
    let n := buf.length / r.dd.blockSize
    match r.dd.writeAt sha1 buf pos faults, r.dd.writeBlocks sha1 n buf pos faults with
    | .ok (_, dd'), .ok (errors, _) =>
      ⟨dd', applyWrites r.disk (pos / r.dd.blockSize) (chunks r.dd.blockSize n buf) errors⟩
    | _, _ => r

/-- Every aligned read inside the disk succeeds and returns the blocks of the array. -/
def ReadsArray (r : DedupRun) : Prop :=
  ∀ (buf : Bytes) (pos : ℕ), InRange r.dd.blockSize r.dd.size pos buf.length →
    r.dd.readAt buf pos =
      .ok ((slice r.disk (pos / r.dd.blockSize) (buf.length / r.dd.blockSize)).flatten,
        buf.length, none)

/-- A write returns, without an error exactly when all its block writes are without one. -/
def WriteReports (sha1 : Bytes → Bytes) (r : DedupRun) : DedupOp → Prop
  | .read _ _ => True
  | .write buf pos faults =>
    ∃ count err errors dd', r.dd.writeAt sha1 buf pos faults = .ok ((count, err), dd') ∧
      r.dd.writeBlocks sha1 (buf.length / r.dd.blockSize) buf pos faults = .ok (errors, dd') ∧
      errors.length = buf.length / r.dd.blockSize ∧ (err = none ↔ ∀ e ∈ errors, e = none)

/-- Reads return the array in every state of the run, and every write reports as it should. -/
def FlatThroughout (sha1 : Bytes → Bytes) (r : DedupRun) : List DedupOp → Prop
  | [] => r.ReadsArray
  | op :: ops => r.ReadsArray ∧ r.WriteReports sha1 op ∧ (r.step sha1 op).FlatThroughout sha1 ops

variable {sha1 : Bytes → Bytes} {written : Set Bytes} {r : DedupRun}

lemma inRange_blocks {blockSize blockc pos len : ℕ} (hbs : 0 < blockSize)
    (h : InRange blockSize (blockc * blockSize : ℕ) pos len) :
    pos = pos / blockSize * blockSize ∧ len = len / blockSize * blockSize ∧ 0 < len / blockSize ∧
      pos / blockSize + len / blockSize ≤ blockc := by
  obtain ⟨hpos, hlen, hlt, hle⟩ := h
  refine ⟨(Nat.div_mul_cancel hpos).symm, (Nat.div_mul_cancel hlen).symm,
    Nat.div_pos (Nat.le_of_dvd hlt hlen) hbs, ?_⟩
  rw [← Nat.add_div_of_dvd_right hpos]
  exact Nat.div_le_of_le_mul (by rw [Nat.mul_comm]; exact_mod_cast hle)

lemma readsArray (h : Refines sha1 written r.dd r.disk) : r.ReadsArray := by
  intro buf pos hin
  rw [h.size_eq] at hin
  obtain ⟨hpos, hlen, hn, hle⟩ := inRange_blocks h.pos hin
  have hread := h.readAt hn hlen hle
  rwa [← hpos] at hread

lemma refines_step (h : Refines sha1 written r.dd r.disk) (hinj : Set.InjOn sha1 written)
    {op : DedupOp} (hop : op.InRange r.dd.blockSize (r.dd.lunMap.ids.length * r.dd.blockSize : ℕ))
    (hw : ∀ b ∈ op.blocks r.dd.blockSize, b ∈ written) :
    r.WriteReports sha1 op ∧ Refines sha1 written (r.step sha1 op).dd (r.step sha1 op).disk ∧
      (r.step sha1 op).dd.blockSize = r.dd.blockSize ∧
      (r.step sha1 op).dd.lunMap.ids.length = r.dd.lunMap.ids.length := by
  cases op with
  | read buf pos => exact ⟨trivial, h, rfl, rfl⟩
  | write buf pos faults =>
    obtain ⟨hpos, hlen, hn, hle⟩ := inRange_blocks h.pos hop
    obtain ⟨count, err, errors, dd', hwr, hws, hnum, hiff, -, hbs, hids, href⟩ :=
      h.writeAt hinj hn hlen hw hle faults
    rw [← hpos] at hwr hws
    refine ⟨⟨count, err, errors, dd', hwr, hws, hnum, hiff⟩, ?_⟩
    simp only [step, hwr, hws]
    exact ⟨href, hbs, hids⟩

lemma flatThroughout (h : Refines sha1 written r.dd r.disk) (hinj : Set.InjOn sha1 written)
    {ops : List DedupOp}
    (hops : ∀ op ∈ ops, op.InRange r.dd.blockSize (r.dd.lunMap.ids.length * r.dd.blockSize : ℕ))
    (hw : ∀ op ∈ ops, ∀ b ∈ op.blocks r.dd.blockSize, b ∈ written) :
    r.FlatThroughout sha1 ops := by
  induction ops generalizing r with
  | nil => exact readsArray h
  | cons op ops ih =>
    obtain ⟨hrep, href, hbs, hids⟩ := refines_step h hinj (hops op (by simp)) (hw op (by simp))
    refine ⟨readsArray h, hrep, ih href (fun op' h' => ?_) fun op' h' => ?_⟩
    · rw [hbs, hids]
      exact hops op' (by simp [h'])
    · rw [hbs]
      exact hw op' (by simp [h'])

/-- **The dedup disk refines a flat array of blocks.**  From a fresh disk, over every run of aligned
reads and writes inside it with any faults of the three stores: every read returns the blocks of
the array of successful block writes, and every write reports an error exactly when one of its
block writes does. -/
theorem dedup_disk_refines_flat_array (sha1 : Bytes → Bytes) (blockSize size : ℕ)
    (hbs : 0 < blockSize) (hmax : size ≤ maxOffset) (lm : MmapLUNmap)
    (hnew : newMmapLUNmap [] blockSize size = .ok lm)
    (ops : List DedupOp) (hops : ∀ op ∈ ops, op.InRange blockSize lm.size)
    (hinj : Set.InjOn sha1 {b | ∃ op ∈ ops, b ∈ op.blocks blockSize}) :
    (start lm blockSize).FlatThroughout sha1 ops := by
  obtain ⟨hids, hsize⟩ := newMmapLUNmap_nil hnew
  have hlen : lm.ids.length = size / blockSize := by rw [hids, List.length_replicate]
  have href : Refines sha1 {b | ∃ op ∈ ops, b ∈ op.blocks blockSize} (start lm blockSize).dd
      (start lm blockSize).disk := by
    simp only [start, hlen]
    exact refines_fresh hbs hmax hnew
  rw [← hlen] at hsize
  exact flatThroughout href hinj (fun op hop => hsize ▸ hops op hop) fun op hop b hb =>
    ⟨op, hop, hb⟩

/-- Two blocks of two bytes.  The second write repeats a known content beside one that fails. -/
def twoBlockRun : List DedupOp :=
  [.write [1, 1, 2, 2] 0 [], .write [2, 2, 3, 3] 0 [.none, ⟨none, some 1, none, false⟩],
    .read [9, 9, 9, 9] 0]

theorem dedup_disk_refines_flat_array_two_blocks :
    (start ⟨[zeroBlockID, zeroBlockID], 4⟩ 2).FlatThroughout id twoBlockRun :=
  dedup_disk_refines_flat_array id 2 4 (by decide) (by decide) _ rfl twoBlockRun
    (by simp [twoBlockRun, DedupOp.InRange, InRange]) (fun _ _ _ _ h => h)

end DedupRun
end Usbd
