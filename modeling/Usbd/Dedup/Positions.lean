import Usbd.Dedup.DedupDisk
import Usbd.Nbd.PartialDevice

/-!
# Positions of the dedup disk

The checks at the head of `ReadAt` and `WriteAt` refuse a negative position, and an end past the
size of the disk; the end is a 64-bit sum, so that one past the largest 64-bit number is negative
and is let through (`Passes`).  Behind the checks the LUN map has checks of its own.  `GetID` lets
the first block behind the map through, and `PutID` compares the number of a block with the size of
the disk in bytes.  `Stray` are the ranges that get to the map's memory with no place in it: the
call panics.  All others return, and return an error when they reach outside the disk.
-/

namespace Usbd

open ListMemory

namespace DedupDisk

variable {sha1 : Bytes → Bytes} {dd dd' : DedupDisk} {block len : ℕ} {pos : ℤ}

/-- The checks at the head of a call let the range through. -/
def Passes (dd : DedupDisk) (len : ℕ) (pos : ℤ) : Prop :=
  0 ≤ pos ∧ wrapInt64 (pos + len) ≤ dd.size

/-- The number of the block at a position. -/
def blockAt (dd : DedupDisk) (pos : ℤ) : ℕ := (pos.tdiv dd.blockSize).toNat

/-- A block behind the end of the map that `PutID` does not refuse. -/
def StrayBlock (dd : DedupDisk) (len : ℕ) (pos : ℤ) : Prop :=
  dd.Passes len pos ∧ dd.lunMap.ids.length ≤ dd.blockAt pos ∧
    dd.blockAt pos ≤ toUint64 dd.lunMap.size

/-- A range that gets to the memory of the map with no place in it: a read of the first block behind
the map, a write with a stray block in it. -/
def Stray (dd : DedupDisk) (readOp : Bool) (len : ℕ) (pos : ℤ) : Prop :=
  dd.Passes len pos ∧
    if readOp then len ≤ dd.blockSize ∧ dd.blockAt pos = dd.lunMap.ids.length
    else ∃ i < max 1 (len / dd.blockSize),
      dd.StrayBlock (min len dd.blockSize) (wrapInt64 (pos + i * dd.blockSize))

/-- A disk in use: open, over a map of blocks at 64-bit positions, with no write in progress. -/
structure Mounted (dd : DedupDisk) : Prop where
  opened : dd.shutdown = false
  pos : 0 < dd.blockSize
  size_eq : dd.size = dd.lunMap.size
  ids_le : dd.lunMap.ids.length * dd.blockSize ≤ maxOffset
  idle : dd.blockStore.pendingWrites = []

/-- What a write of a block leaves as it was; the block store has taken at most one block. -/
structure Continues (dd dd' : DedupDisk) (block : ℕ) : Prop where
  shutdown_eq : dd'.shutdown = dd.shutdown
  blockSize_eq : dd'.blockSize = dd.blockSize
  size_eq : dd'.size = dd.size
  lunMap_size_eq : dd'.lunMap.size = dd.lunMap.size
  ids_length_eq : dd'.lunMap.ids.length = dd.lunMap.ids.length
  ids_eq : ∀ i, i ≠ block → dd'.lunMap.ids[i]? = dd.lunMap.ids[i]?
  store_eq : dd'.blockStore = dd.blockStore ∨ ∃ w, dd'.blockStore = dd.blockStore.afterPut w

lemma Continues.refl (dd : DedupDisk) (block : ℕ) : dd.Continues dd block :=
  ⟨rfl, rfl, rfl, rfl, rfl, fun _ _ => rfl, .inl rfl⟩

lemma Continues.mounted (h : dd.Continues dd' block) (hm : dd.Mounted) : dd'.Mounted where
  opened := h.shutdown_eq.trans hm.opened
  pos := h.blockSize_eq ▸ hm.pos
  size_eq := by rw [h.size_eq, h.lunMap_size_eq, hm.size_eq]
  ids_le := by rw [h.ids_length_eq, h.blockSize_eq]; exact hm.ids_le
  idle := by
    rcases h.store_eq with h | ⟨w, h⟩ <;>
      simp [h, FileBlockStore.afterPut, hm.idle]

lemma Continues.strayBlock (h : dd.Continues dd' block) :
    dd'.StrayBlock len pos ↔ dd.StrayBlock len pos := by
  simp only [StrayBlock, Passes, blockAt, h.blockSize_eq, h.size_eq, h.lunMap_size_eq,
    h.ids_length_eq]

/-- A block that is inside the map, and let through. -/
def Lands (dd : DedupDisk) (len : ℕ) (pos : ℤ) : Prop :=
  dd.Passes len pos ∧ dd.blockAt pos < dd.lunMap.ids.length

lemma Continues.lands (h : dd.Continues dd' block) : dd'.Lands len pos ↔ dd.Lands len pos := by
  simp only [Lands, Passes, blockAt, h.blockSize_eq, h.size_eq, h.ids_length_eq]

/-! ## One block -/

/-- How a write of one block ends: in a panic of the map, if the block is a stray one, or with a
result, which is a success only if it lands. -/
def Ends (dd : DedupDisk) (block : ℕ) (stray lands : Prop)
    (r : Except Stop ((ℤ × Option GoError) × DedupDisk)) : Prop :=
  (stray ∧ r = .error .panic) ∨
    ∃ n err dd', r = .ok ((n, err), dd') ∧ dd.Continues dd' block ∧ (err = none → lands)

lemma putLun_ends (h : dd.Continues dd' block) (dedupID len : ℕ) (fault : Bool) :
    dd.Ends block (dd.lunMap.ids.length ≤ block ∧ block ≤ toUint64 dd.lunMap.size)
      (block < dd.lunMap.ids.length) (dd'.putLun block dedupID len fault) := by
  obtain ⟨h₁, h₂, h₃, h₄, h₅, h₆, h₇⟩ := h
  unfold putLun MmapLUNmap.putID
  split_ifs with hfault hbig hin
  · exact .inr ⟨_, _, _, rfl, ⟨h₁, h₂, h₃, h₄, h₅, h₆, h₇⟩, fun h => by cases h⟩
  · exact .inr ⟨_, _, _, rfl, ⟨h₁, h₂, h₃, h₄, h₅, h₆, h₇⟩, fun h => by cases h⟩
  · refine .inr ⟨_, _, _, rfl, ⟨h₁, h₂, h₃, h₄, by simpa using h₅, fun i hi => ?_, h₇⟩,
      fun _ => h₅ ▸ hin⟩
    rw [← h₆ i hi]
    exact List.getElem?_set_ne hi.symm
  · exact .inl ⟨⟨by omega, by rw [← h₄]; omega⟩, rfl⟩

lemma writeBlock_ends (sha1 : Bytes → Bytes) (dd : DedupDisk) (buf : Bytes) (pos : ℤ)
    (faults : BlockFaults) :
    dd.Ends (dd.blockAt pos)
      (dd.lunMap.ids.length ≤ dd.blockAt pos ∧ dd.blockAt pos ≤ toUint64 dd.lunMap.size)
      (dd.blockAt pos < dd.lunMap.ids.length) (dd.writeBlock sha1 buf pos faults) := by
  unfold writeBlock
  split
  · exact putLun_ends (.refl dd _) ..
  · split_ifs
    · by_cases hfits : dd.blockStore.Fits buf faults.file
      · rw [FileBlockStore.putBlock_of_fits hfits]
        apply putLun_ends
        exact ⟨rfl, rfl, rfl, rfl, rfl, fun _ _ => rfl, .inr ⟨_, rfl⟩⟩
      · obtain ⟨e, n, hput, -⟩ := FileBlockStore.putBlock_of_not_fits hfits
        rw [hput]
        exact .inr ⟨_, _, _, rfl, ⟨rfl, rfl, rfl, rfl, rfl, fun _ _ => rfl, .inr ⟨_, rfl⟩⟩,
          fun h => by cases h⟩
    · exact .inr ⟨_, _, _, rfl, .refl dd _, fun h => by cases h⟩

/-- The write of a block inside the map returns. -/
lemma writeBlock_of_lt (sha1 : Bytes → Bytes) (hlt : dd.blockAt pos < dd.lunMap.ids.length)
    (buf : Bytes) (faults : BlockFaults) : ∃ n err dd',
      dd.writeBlock sha1 buf pos faults = .ok ((n, err), dd') ∧
        dd.Continues dd' (dd.blockAt pos) := by
  rcases writeBlock_ends sha1 dd buf pos faults with ⟨hstray, -⟩ | ⟨n, err, dd', hr, hc, -⟩
  · exact absurd hlt (not_lt.mpr hstray.1)
  · exact ⟨n, err, dd', hr, hc⟩

lemma writeBlock_panics {buf : Bytes} (hroom : dd.blockStore.nextPos + buf.length ≤ maxOffset)
    (hlo : dd.lunMap.ids.length ≤ dd.blockAt pos) (hhi : dd.blockAt pos ≤ toUint64 dd.lunMap.size) :
    dd.writeBlock sha1 buf pos BlockFaults.none = .error .panic := by
  have hput : ∀ {dd' : DedupDisk} (dedupID len : ℕ), dd'.lunMap = dd.lunMap →
      dd'.putLun (dd.blockAt pos) dedupID len false = .error .panic := by
    intro dd' dedupID len heq
    simp [putLun, MmapLUNmap.putID, heq, not_lt.mpr hhi, not_lt.mpr hlo]
  rcases writeBlock_cases dd buf (show (pos.tdiv dd.blockSize).toNat = dd.blockAt pos from rfl) with
    ⟨-, h⟩ | ⟨-, rawVal, -, h⟩ | ⟨-, -, -, h⟩ | ⟨-, -, hfull, -⟩
  · exact h.trans (hput _ _ rfl)
  · exact h.trans (hput _ _ rfl)
  · exact h.trans (hput _ _ rfl)
  · omega

lemma guardWrite_ends (hm : dd.Mounted) (len : ℕ) (pos : ℤ)
    {r : Except Stop ((ℤ × Option GoError) × DedupDisk)}
    (hr : dd.Ends block
      (dd.lunMap.ids.length ≤ dd.blockAt pos ∧ dd.blockAt pos ≤ toUint64 dd.lunMap.size)
      (dd.blockAt pos < dd.lunMap.ids.length) r) :
    dd.Ends block (dd.StrayBlock len pos) (dd.Lands len pos) (dd.guardWrite len pos r) := by
  unfold guardWrite
  rw [if_neg (by simp [hm.opened])]
  split_ifs with hneg hend
  · exact .inr ⟨_, _, _, rfl, .refl dd _, fun h => by cases h⟩
  · exact .inr ⟨_, _, _, rfl, .refl dd _, fun h => by cases h⟩
  · have hpass : dd.Passes len pos := ⟨by omega, by omega⟩
    rcases hr with ⟨hstray, rfl⟩ | ⟨n, err, dd', rfl, hc, hland⟩
    · exact .inl ⟨⟨hpass, hstray⟩, rfl⟩
    · exact .inr ⟨n, err, dd', rfl, hc, fun h => ⟨hpass, hland h⟩⟩

lemma guardWrite_of_passes (hm : dd.Mounted) (h : dd.Passes len pos)
    (r : Except Stop ((ℤ × Option GoError) × DedupDisk)) : dd.guardWrite len pos r = r := by
  obtain ⟨hpos, hend⟩ := h
  rw [guardWrite, if_neg (by simp [hm.opened]), if_neg (by omega), if_neg (by omega)]

/-! ## Several blocks -/

lemma wrapInt64_succ (pos : ℤ) (bs i : ℕ) :
    wrapInt64 (wrapInt64 (pos + bs) + i * bs) = wrapInt64 (pos + (i + 1 : ℕ) * bs) := by
  rw [wrapInt64, wrapInt64, Int.bmod_add_bmod, wrapInt64]
  congr 1
  push_cast
  ring

lemma wrapInt64_zero (hpos : IsInt64 pos) (bs : ℕ) : wrapInt64 (pos + (0 : ℕ) * bs) = pos := by
  simpa using wrapInt64_of_isInt64 hpos

/-- The blocks of a write: a panic at a stray one, or an error for each one that does not land. -/
lemma writeBlocks_ends (sha1 : Bytes → Bytes) {n : ℕ} (hm : dd.Mounted) {buf : Bytes}
    (hlen : buf.length = n * dd.blockSize) (hpos : IsInt64 pos) (faults : List BlockFaults) :
    ((∃ i < n, dd.StrayBlock dd.blockSize (wrapInt64 (pos + i * dd.blockSize))) ∧
        writeBlocks sha1 n dd buf pos faults = .error .panic) ∨
      ∃ errors dd', writeBlocks sha1 n dd buf pos faults = .ok (errors, dd') ∧ dd'.Mounted ∧
        ((∀ e ∈ errors, e = none) →
          ∀ i < n, dd.Lands dd.blockSize (wrapInt64 (pos + i * dd.blockSize))) := by
  induction n generalizing dd buf pos faults with
  | zero => exact .inr ⟨[], dd, rfl, hm, fun _ i hi => absurd hi (Nat.not_lt_zero i)⟩
  | succ n ih =>
    obtain ⟨htake, hrest⟩ := length_take_drop_block hlen
    have hzero := wrapInt64_zero hpos dd.blockSize
    rw [writeBlocks]
    simp only [htake]
    rcases guardWrite_ends hm dd.blockSize pos
      (writeBlock_ends sha1 dd (buf.take dd.blockSize) pos
        (faults.headD BlockFaults.none)) with ⟨hstray, hr⟩ | ⟨k, err, dd₁, hr, hc, hland⟩
    · rw [hr]
      exact .inl ⟨⟨0, by omega, hzero.symm ▸ hstray⟩, rfl⟩
    · rw [hr]
      have hdrop : (buf.drop dd.blockSize).length = n * dd₁.blockSize := hc.blockSize_eq ▸ hrest
      simp only
      rcases ih (hc.mounted hm) hdrop (isInt64_wrapInt64 (pos + dd.blockSize)) faults.tail with
        ⟨⟨i, hi, hstray⟩, hrest⟩ | ⟨errors, dd₂, hrest, hm₂, hlands⟩
      · rw [hrest]
        rw [hc.strayBlock, hc.blockSize_eq, wrapInt64_succ] at hstray
        exact .inl ⟨⟨i + 1, by omega, hstray⟩, rfl⟩
      · rw [hrest]
        refine .inr ⟨err :: errors, dd₂, rfl, hm₂, fun hnone i hi => ?_⟩
        cases i with
        | zero => exact hzero.symm ▸ hland (hnone err (by simp))
        | succ i =>
          have h := hlands (fun e he => hnone e (by simp [he])) i (by omega)
          rwa [hc.lands, hc.blockSize_eq, wrapInt64_succ] at h

lemma writeBlocks_panics {n : ℕ} (hm : dd.Mounted) {buf : Bytes}
    (hlen : buf.length = n * dd.blockSize) (hpos : IsInt64 pos)
    (hbs : dd.blockStore.blockSize = dd.blockSize)
    (hroom : dd.blockStore.nextPos + buf.length ≤ maxOffset)
    (hstray : ∃ i < n, dd.StrayBlock dd.blockSize (wrapInt64 (pos + i * dd.blockSize))) :
    writeBlocks sha1 n dd buf pos [] = .error .panic := by
  induction n generalizing dd buf pos with
  | zero =>
    obtain ⟨i, hi, -⟩ := hstray
    exact absurd hi (Nat.not_lt_zero i)
  | succ n ih =>
    obtain ⟨htake, hrest⟩ := length_take_drop_block hlen
    have hle : dd.blockSize ≤ buf.length := htake.symm.trans_le (List.length_take_le' ..)
    have hzero := wrapInt64_zero hpos dd.blockSize
    rw [writeBlocks]
    simp only [htake, List.headD_nil, List.tail_nil]
    by_cases h₀ : dd.StrayBlock dd.blockSize pos
    · obtain ⟨hpass, hlo, hhi⟩ := h₀
      rw [guardWrite_of_passes hm hpass, writeBlock_panics (by omega) hlo hhi]
    · rcases guardWrite_ends hm dd.blockSize pos
        (writeBlock_ends sha1 dd (buf.take dd.blockSize) pos BlockFaults.none) with
        ⟨h, -⟩ | ⟨k, err, dd₁, hr, hc, -⟩
      · exact absurd h h₀
      · rw [hr]
        have hdrop : (buf.drop dd.blockSize).length = n * dd₁.blockSize := hc.blockSize_eq ▸ hrest
        have hstore : dd₁.blockStore.blockSize = dd.blockSize ∧
            dd₁.blockStore.nextPos ≤ dd.blockStore.nextPos + dd.blockSize := by
          rcases hc.store_eq with h | ⟨w, h⟩ <;>
            simp [h, FileBlockStore.afterPut, hbs]
        obtain ⟨i, hi, hstray⟩ := hstray
        cases i with
        | zero => exact absurd (hzero ▸ hstray) h₀
        | succ i =>
          have hrest := ih (hc.mounted hm) hdrop (isInt64_wrapInt64 (pos + dd.blockSize))
            (hstore.1.trans hc.blockSize_eq.symm)
            (by rw [List.length_drop]; have := hstore.2; omega)
            ⟨i, by omega, by rwa [hc.strayBlock, hc.blockSize_eq, wrapInt64_succ]⟩
          simp only [hrest]

/-! ## Whole calls -/

/-- Only an end past the largest 64-bit number gets through the checks and out of the disk. -/
lemma Passes.overflows (h : dd.Passes len pos)
    (hout : ¬ InDevice dd.size.toNat len pos) : maxOffset < pos + len := by
  obtain ⟨h₀, hend⟩ := h
  by_contra hover
  rw [wrapInt64_of_isInt64 ⟨by omega, by omega⟩] at hend
  exact hout (.inr ⟨h₀, by omega⟩)

lemma natCast_tmod {p n : ℕ} (h : (p : ℤ).tmod n = 0) : p % n = 0 := by
  rw [← Int.ofNat_tmod] at h
  exact_mod_cast h

lemma blocks_end_le (hm : dd.Mounted) {p n : ℕ} (hp : p % dd.blockSize = 0)
    (h : dd.blockAt p + n ≤ dd.lunMap.ids.length) : p + n * dd.blockSize ≤ maxOffset := by
  have hblock : dd.blockAt p = p / dd.blockSize := by
    rw [blockAt, ← Int.ofNat_tdiv, Int.toNat_natCast]
  have hdiv : p / dd.blockSize * dd.blockSize = p := Nat.div_mul_cancel (Nat.dvd_of_mod_eq_zero hp)
  have hle : (p / dd.blockSize + n) * dd.blockSize ≤ dd.lunMap.ids.length * dd.blockSize :=
    Nat.mul_le_mul_right _ (hblock ▸ h)
  rw [Nat.add_mul, hdiv] at hle
  exact hle.trans hm.ids_le

/-- When the blocks of a write all land, its end is a 64-bit position. -/
lemma end_le_of_lands (hm : dd.Mounted) {p n : ℕ} (hp : p % dd.blockSize = 0) (hn : 0 < n)
    (hsum : (p : ℤ) + n * dd.blockSize < 2 ^ 64)
    (h : ∀ i < n, dd.Lands dd.blockSize (wrapInt64 ((p : ℤ) + i * dd.blockSize))) :
    p + n * dd.blockSize ≤ maxOffset := by
  obtain ⟨i, rfl⟩ := Nat.exists_eq_succ_of_ne_zero hn.ne'
  obtain ⟨⟨hpos, -⟩, hlt⟩ := h i (Nat.lt_succ_self i)
  have hsucc : (i.succ : ℤ) * dd.blockSize = i * dd.blockSize + dd.blockSize := by
    push_cast
    ring
  have hfits : (p : ℤ) + i * dd.blockSize ≤ maxOffset := by
    by_contra hover
    rw [wrapInt64_of_overflow (by omega) (by omega)] at hpos
    rw [hsucc] at hsum
    omega
  have hcast : (p : ℤ) + i * dd.blockSize = ((p + i * dd.blockSize : ℕ) : ℤ) := by push_cast; rfl
  rw [wrapInt64_of_isInt64 ⟨by omega, hfits⟩, hcast] at hlt
  have hle := blocks_end_le hm (by rw [Nat.add_mul_mod_self_right]; exact hp) (n := 1) hlt
  rw [Nat.succ_mul]
  omega

lemma getBlock_of_idle {fbs : FileBlockStore} (h : fbs.pendingWrites = []) (dedupID : ℕ)
    (buf : Bytes) : ∃ r, fbs.getBlock dedupID buf = some r := by
  rw [FileBlockStore.getBlock, h]
  split_ifs with hz hp
  · exact ⟨_, rfl⟩
  · cases hp
  · exact ⟨_, rfl⟩

lemma getBlocks_of_idle {fbs : FileBlockStore} (h : fbs.pendingWrites = []) (blockSize : ℕ)
    (dedupIDs : List ℕ) (buf : Bytes) : ∃ r, getBlocks fbs blockSize dedupIDs buf = .ok r := by
  induction dedupIDs generalizing buf with
  | nil => exact ⟨_, rfl⟩
  | cons dedupID dedupIDs ih =>
    obtain ⟨⟨block, err⟩, hget⟩ := getBlock_of_idle h dedupID (buf.take blockSize)
    obtain ⟨⟨rest, errs⟩, hrest⟩ := ih (buf.drop blockSize)
    exact ⟨_, by rw [getBlocks, hget, hrest]⟩

/-- What a range does that passes the checks and has all its blocks in the map. -/
lemma Passes.inDevice (hm : dd.Mounted) {p n : ℕ} (h : dd.Passes len p) (hp : p % dd.blockSize = 0)
    (hlen : len ≤ n * dd.blockSize) (hids : dd.blockAt p + n ≤ dd.lunMap.ids.length) :
    InDevice dd.size.toNat len p := by
  by_contra hout
  have hover := h.overflows hout
  have hle := blocks_end_le hm hp hids
  omega

/-- The call returns, with an error if it reaches outside the disk. -/
def Returns (dd : DedupDisk) (buf : Bytes) (pos : ℤ)
    (r : Except Stop (Bytes × ℤ × Option GoError)) : Prop :=
  ∃ got n err, r = .ok (got, n, err) ∧ (¬ InDevice dd.size.toNat buf.length pos → err ≠ none)

lemma Mounted.ids_lt (hm : dd.Mounted) : dd.lunMap.ids.length < 2 ^ 64 := by
  have hle := (Nat.le_mul_of_pos_right _ hm.pos).trans hm.ids_le
  rw [maxOffset] at hle
  omega

lemma readAt_of_passes (hm : dd.Mounted) {buf : Bytes} {p : ℕ} (h : dd.Passes buf.length p)
    (hsum : dd.blockAt p + buf.length / dd.blockSize < 2 ^ 64) (hp : p % dd.blockSize = 0)
    (hl : buf.length % dd.blockSize = 0) :
    dd.Returns buf p (dd.readAt buf p) ↔
      ¬ (buf.length ≤ dd.blockSize ∧ dd.blockAt p = dd.lunMap.ids.length) := by
  rw [readAt, if_neg (by simp [hm.opened]), if_neg (not_lt.mpr h.1), if_neg (not_lt.mpr h.2),
    show ((p : ℤ).tdiv dd.blockSize).toNat = dd.blockAt p from rfl]
  have hdiv := Nat.div_mul_cancel (Nat.dvd_of_mod_eq_zero hl)
  simp only
  split_ifs with hmulti
  · -- several blocks: the map refuses those that reach behind it
    simp only [not_le.mpr hmulti, false_and, not_false_eq_true, iff_true]
    by_cases hids : dd.lunMap.ids.length < dd.blockAt p + buf.length / dd.blockSize
    · rw [MmapLUNmap.getIDs_of_lt hids hsum]
      exact ⟨_, _, _, rfl, fun _ => by simp⟩
    · obtain ⟨⟨got, errors⟩, hget⟩ := getBlocks_of_idle hm.idle dd.blockSize
        (slice dd.lunMap.ids (dd.blockAt p) (buf.length / dd.blockSize)) buf
      have hin := h.inDevice hm hp hdiv.ge (not_lt.mp hids)
      simp only [MmapLUNmap.getIDs_of_le (not_lt.mp hids) hm.ids_lt, hget]
      cases getFirstError errors with
      | none => exact ⟨_, _, _, rfl, fun hout => absurd hin hout⟩
      | some e => exact ⟨_, _, _, rfl, fun _ => by simp⟩
  · -- one block: the map has no place for the first one behind it
    simp only [not_lt.mp hmulti, true_and]
    rcases lt_trichotomy (dd.blockAt p) dd.lunMap.ids.length with hlt | heq | hgt
    · have hin := h.inDevice hm hp (n := 1) (by omega) hlt
      obtain ⟨⟨got, err⟩, hget⟩ := getBlock_of_idle hm.idle dd.lunMap.ids[dd.blockAt p] buf
      simp only [MmapLUNmap.getID_of_lt hlt, hget, hlt.ne, not_false_eq_true, iff_true]
      cases err with
      | none => exact ⟨_, _, _, rfl, fun hout => absurd hin hout⟩
      | some e => exact ⟨_, _, _, rfl, fun _ => by simp⟩
    · simp [Returns, MmapLUNmap.getID, heq]
    · simp only [MmapLUNmap.getID, if_pos hgt, hgt.ne', not_false_eq_true, iff_true]
      exact ⟨_, _, _, rfl, fun _ => by simp⟩

lemma stray_write_iff (hpos : IsInt64 pos) (hbs : 0 < dd.blockSize)
    (h : dd.Passes len pos) : dd.Stray false len pos ↔
      if len > dd.blockSize then ∃ i < len / dd.blockSize,
        dd.StrayBlock dd.blockSize (wrapInt64 (pos + i * dd.blockSize))
      else dd.StrayBlock len pos := by
  simp only [Stray, h, true_and, Bool.false_eq_true, if_false]
  split_ifs with hmulti
  · have hone : 1 ≤ len / dd.blockSize := (Nat.one_le_div_iff hbs).mpr hmulti.le
    rw [max_eq_right hone, min_eq_right hmulti.le]
  · have hone : len / dd.blockSize ≤ 1 := by
      rw [← Nat.lt_succ_iff, Nat.div_lt_iff_lt_mul hbs]
      omega
    rw [max_eq_left hone, min_eq_left (not_lt.mp hmulti)]
    constructor
    · rintro ⟨i, hi, hstray⟩
      obtain rfl : i = 0 := by omega
      rwa [wrapInt64_zero hpos] at hstray
    · intro hstray
      exact ⟨0, by omega, by rwa [wrapInt64_zero hpos]⟩

lemma inDevice_of_writeAt (hm : dd.Mounted) (hpos : IsInt64 pos) {buf : Bytes}
    (hlen : buf.length ≤ maxOffset) (ha : pos.tmod dd.blockSize = 0)
    (hl : (buf.length : ℤ).tmod dd.blockSize = 0) {faults : List BlockFaults} {n : ℤ}
    (h : dd.writeAt sha1 buf pos faults = .ok ((n, none), dd')) :
    InDevice dd.size.toNat buf.length pos := by
  -- past the guard it is the map of ids that refuses a block outside
  by_cases hpass : dd.Passes buf.length pos
  · obtain ⟨p, rfl⟩ := Int.eq_ofNat_of_zero_le hpass.1
    have hp := natCast_tmod ha
    have hdiv := Nat.div_mul_cancel (Nat.dvd_of_mod_eq_zero (natCast_tmod hl))
    rw [writeAt, guardWrite_of_passes hm hpass] at h
    split_ifs at h with hmulti
    · rcases writeBlocks_ends sha1 hm hdiv.symm hpos faults with
        ⟨-, hrun⟩ | ⟨errors, dd₁, hrun, -, hlands⟩
      · rw [hrun] at h
        cases h
      · rw [hrun] at h
        simp only at h
        cases herr : getFirstError errors with
        | some e =>
          rw [herr] at h
          cases h
        | none =>
          by_contra hout
          have hover := hpass.overflows hout
          have hone : 0 < buf.length / dd.blockSize := Nat.div_pos hmulti.le hm.pos
          have hcast : ((buf.length / dd.blockSize : ℕ) : ℤ) * dd.blockSize = buf.length := by
            exact_mod_cast hdiv
          have hle := end_le_of_lands hm hp hone
            (by have hhi := hpos.2; rw [hcast, maxOffset] at *; omega)
            (hlands (getFirstError_eq_none.mp herr))
          omega
    · rcases writeBlock_ends sha1 dd buf p (faults.headD BlockFaults.none) with
        ⟨-, hrun⟩ | ⟨k, err, dd₁, hrun, -, hland⟩
      · rw [hrun] at h
        cases h
      · rw [hrun] at h
        obtain rfl : err = none := (Prod.mk.inj (Prod.mk.inj (Except.ok.inj h)).1).2
        exact hpass.inDevice hm hp (n := 1) (by omega) (hland rfl)
  · rw [writeAt, guardWrite, if_neg (by simp [hm.opened])] at h
    by_cases hneg : pos < 0
    · rw [if_pos hneg] at h
      cases h
    · have hend : wrapInt64 (pos + buf.length) > dd.size := by
        by_contra hend
        exact hpass ⟨by omega, by omega⟩
      rw [if_neg hneg, if_pos hend] at h
      cases h

lemma writeAt_panics (hm : dd.Mounted) (hpos : IsInt64 pos) {buf : Bytes}
    (hl : (buf.length : ℤ).tmod dd.blockSize = 0) (hbs : dd.blockStore.blockSize = dd.blockSize)
    (hroom : dd.blockStore.nextPos + buf.length ≤ maxOffset)
    (h : dd.Stray false buf.length pos) : dd.writeAt sha1 buf pos [] = .error .panic := by
  have hpass := h.1
  have hdiv := Nat.div_mul_cancel (Nat.dvd_of_mod_eq_zero (natCast_tmod hl))
  rw [stray_write_iff hpos hm.pos hpass] at h
  rw [writeAt, guardWrite_of_passes hm hpass]
  split_ifs at h ⊢ with hmulti
  · rw [writeBlocks_panics hm hdiv.symm hpos hbs hroom h]
  · exact writeBlock_panics hroom h.2.1 h.2.2

end DedupDisk
end Usbd
