import Usbd.Dedup.WriteFrame

/-!
# Every content is stored once

A run of writes on a fresh dedup disk, without a fault, leaves in the block file one block for each
content that was written, in the order in which they first came, and none for the content of zeros.
`enter` is what one more block does to the list of contents.  `Deduped` ties the list to the block
file and to the database, and a block write takes it from one list to the next: on a hit and on
zeros both stores stay as they are, on a miss both get the one new content.  With `Refines`, which
has the LUN map, two logical blocks then have the same id exactly when they have the same contents.
-/

namespace Usbd

open ListMemory Endian FileBlockStore

/-! ## The list of contents -/

/-- The stored contents after one more block. -/
def enter (blocks : List Bytes) (b : Bytes) : List Bytes :=
  if isZeros b = true ∨ b ∈ blocks then blocks else blocks ++ [b]

lemma mem_enter {blocks : List Bytes} {b c : Bytes} :
    c ∈ enter blocks b ↔ c ∈ blocks ∨ c = b ∧ isZeros c = false := by
  unfold enter
  split_ifs with h
  · refine ⟨.inl, fun hc => ?_⟩
    rcases hc with hc | ⟨rfl, hz⟩
    · exact hc
    · exact h.resolve_left (by simp [hz])
  · obtain ⟨hz, -⟩ := not_or.mp h
    rw [List.mem_append, List.mem_singleton]
    refine or_congr_right ⟨fun hc => ⟨hc, ?_⟩, And.left⟩
    rw [hc]
    simpa using hz

/-- The contents after a list of blocks: those that were there, and the blocks other than zeros. -/
lemma mem_foldl_enter {blocks bs : List Bytes} {c : Bytes} :
    c ∈ bs.foldl enter blocks ↔ c ∈ blocks ∨ c ∈ bs ∧ isZeros c = false := by
  induction bs generalizing blocks with
  | nil => simp
  | cons b bs ih =>
    rw [List.foldl_cons, ih, mem_enter, List.mem_cons, or_assoc, ← or_and_right]

lemma length_of_mem_chunks {blockSize n : ℕ} {buf b : Bytes} (hbuf : buf.length = n * blockSize)
    (hb : b ∈ chunks blockSize n buf) : b.length = blockSize := by
  induction n generalizing buf with
  | zero => simp [chunks] at hb
  | succ n ih =>
    rw [Nat.succ_mul] at hbuf
    rcases List.mem_cons.mp hb with rfl | hb
    · rw [List.length_take]
      omega
    · refine ih ?_ hb
      rw [List.length_drop]
      omega

namespace DedupDisk

variable {sha1 : Bytes → Bytes} {written : Set Bytes} {dd dd' : DedupDisk}
  {disk blocks : List Bytes}

/-! ## The stores and the contents -/

/-- The block file is the contents one after the other, and the database has their numbers. -/
structure Deduped (sha1 : Bytes → Bytes) (written : Set Bytes) (dd : DedupDisk)
    (blocks : List Bytes) : Prop where
  nodup : blocks.Nodup
  nonzero : ∀ b ∈ blocks, isZeros b = false
  sized : ∀ b ∈ blocks, b.length = dd.blockSize
  mem_written : ∀ b ∈ blocks, b ∈ written
  file_eq : dd.blockStore.file = blocks.flatten
  nextID_eq : dd.blockStore.nextID = blocks.length
  entries_iff : ∀ h rawVal, dd.idStore.db h = some rawVal ↔
    ∃ i b, blocks[i]? = some b ∧ h = sha1 b ∧ rawVal = leBytes 8 i

/-- The LUN map has no part in it. -/
lemma Deduped.congr (h : Deduped sha1 written dd blocks) (hbs : dd'.blockSize = dd.blockSize)
    (hblocks : dd'.blockStore = dd.blockStore) (hids : dd'.idStore = dd.idStore) :
    Deduped sha1 written dd' blocks :=
  ⟨h.nodup, h.nonzero, hbs ▸ h.sized, h.mem_written, hblocks ▸ h.file_eq, hblocks ▸ h.nextID_eq,
    hids ▸ h.entries_iff⟩

/-- A new content goes to the end of the file and gets the next number. -/
lemma Deduped.afterMiss (h : Deduped sha1 written dd blocks) (href : Refines sha1 written dd disk)
    (hinj : Set.InjOn sha1 written) {buf : Bytes} (hlen : buf.length = dd.blockSize)
    (hbuf : buf ∈ written) (hz : isZeros buf = false) (hnew : buf ∉ blocks) :
    Deduped sha1 written (afterMiss sha1 dd buf) (blocks ++ [buf]) where
  nodup := List.nodup_append.mpr ⟨h.nodup, List.nodup_singleton _, by
    intro b hb c hc heq
    exact hnew (List.mem_singleton.mp hc ▸ heq ▸ hb)⟩
  nonzero b hb := by
    rcases List.mem_append.mp hb with hb | hb
    · exact h.nonzero b hb
    · exact List.mem_singleton.mp hb ▸ hz
  sized b hb := by
    rcases List.mem_append.mp hb with hb | hb
    · exact h.sized b hb
    · exact List.mem_singleton.mp hb ▸ hlen
  mem_written b hb := by
    rcases List.mem_append.mp hb with hb | hb
    · exact h.mem_written b hb
    · exact List.mem_singleton.mp hb ▸ hbuf
  file_eq := by
    have hne : buf ≠ [] := by
      rintro rfl
      exact absurd hlen.symm href.pos.ne'
    have hpos : dd.blockStore.nextPos = dd.blockStore.file.length + 0 := by
      rw [href.tied, h.nextID_eq, href.blockSize_eq, h.file_eq,
        length_flatten_of_length_eq h.sized, Nat.add_zero]
    simp only [DedupDisk.afterMiss, FileBlockStore.afterPut]
    rw [hpos, overwrite_length_add 0 _ 0 hne, h.file_eq]
    simp
  nextID_eq := by simp [DedupDisk.afterMiss, FileBlockStore.afterPut, h.nextID_eq]
  entries_iff k rawVal := by
    simp only [DedupDisk.afterMiss, PebbleIDStore.putID, h.nextID_eq, getElem?_concat_eq_some]
    by_cases hk : k = sha1 buf
    · subst hk
      rw [Function.update_self, Option.some.injEq]
      constructor
      · rintro rfl
        exact ⟨blocks.length, buf, .inr ⟨rfl, rfl⟩, rfl, rfl⟩
      · rintro ⟨i, b, hi | ⟨rfl, -⟩, hb, rfl⟩
        · -- the hash tells the new content from the old ones
          have hmem := List.mem_of_getElem? hi
          exact absurd (hinj hbuf (h.mem_written b hmem) hb ▸ hmem) hnew
        · rfl
    · rw [Function.update_of_ne hk, h.entries_iff]
      constructor
      · rintro ⟨i, b, hi, hb, hraw⟩
        exact ⟨i, b, .inl hi, hb, hraw⟩
      · rintro ⟨i, b, hi | ⟨-, rfl⟩, hb, hraw⟩
        · exact ⟨i, b, hi, hb, hraw⟩
        · exact absurd hb hk

/-! ## Writing -/

lemma putLun_of_lt (dd : DedupDisk) {block : ℕ} (hlt : block < dd.lunMap.ids.length)
    (hsize : block ≤ toUint64 dd.lunMap.size) (dedupID len : ℕ) :
    ∃ lunMap, dd.putLun block dedupID len false = .ok ((len, none), { dd with lunMap }) := by
  rw [putLun, MmapLUNmap.putID_of_lt hlt hsize]
  exact ⟨_, rfl⟩

/-- **One block write** without a fault takes the contents to the next ones, if it succeeds.  It
fails only when the block file is at its largest size. -/
lemma Refines.writeBlock_enters (href : Refines sha1 written dd disk)
    (hinj : Set.InjOn sha1 written) {buf : Bytes} (hlen : buf.length = dd.blockSize)
    (hbuf : buf ∈ written) {block : ℕ} (hlt : block < dd.lunMap.ids.length) {count : ℤ}
    {err : Option GoError} (hw : dd.writeBlock sha1 buf ((block * dd.blockSize : ℕ) : ℤ)
      BlockFaults.none = .ok ((count, err), dd')) :
    (err = none → ∀ blocks, Deduped sha1 written dd blocks →
        Deduped sha1 written dd' (enter blocks buf)) ∧
      dd'.blockStore.nextPos ≤ dd.blockStore.nextPos + dd.blockSize ∧
      (dd.blockStore.nextPos + dd.blockSize ≤ maxOffset → err = none) := by
  have hsize : block ≤ toUint64 dd.lunMap.size := by
    rw [href.lunSize_eq, toUint64_natCast href.ids_le]
    exact hlt.le.trans (Nat.le_mul_of_pos_right _ href.pos)
  rcases writeBlock_cases dd buf (blockAt_natCast_mul href.pos block) with
    ⟨hz, h⟩ | ⟨hz, rawVal, hdb, h⟩ | ⟨hz, hdb, -, h⟩ | ⟨hz, hdb, hfull, e, h⟩
  · -- zeros
    obtain ⟨lunMap, hput⟩ := putLun_of_lt dd hlt hsize zeroBlockID buf.length
    rw [h, hput] at hw
    cases hw
    refine ⟨fun _ blocks hd => ?_, Nat.le_add_right .., fun _ => rfl⟩
    rw [enter, if_pos (.inl hz)]
    exact hd.congr rfl rfl rfl
  · -- a hit
    obtain ⟨lunMap, hput⟩ := putLun_of_lt dd hlt hsize (ofLE (rawVal.take 8)) buf.length
    rw [h, hput] at hw
    cases hw
    refine ⟨fun _ blocks hd => ?_, Nat.le_add_right .., fun _ => rfl⟩
    obtain ⟨i, b, hi, hh, -⟩ := (hd.entries_iff _ _).mp hdb
    have hmem := List.mem_of_getElem? hi
    rw [enter, if_pos (.inr (hinj hbuf (hd.mem_written b hmem) hh ▸ hmem))]
    exact hd.congr rfl rfl rfl
  · -- a miss
    obtain ⟨lunMap, hput⟩ := putLun_of_lt (DedupDisk.afterMiss sha1 dd buf) hlt hsize
      dd.blockStore.nextID buf.length
    rw [h, hput] at hw
    cases hw
    refine ⟨fun _ blocks hd => ?_, ?_, fun _ => rfl⟩
    · have hnew : buf ∉ blocks := by
        intro hmem
        obtain ⟨i, hi⟩ := List.getElem?_of_mem hmem
        rw [(hd.entries_iff _ _).mpr ⟨i, buf, hi, rfl, rfl⟩] at hdb
        cases hdb
      rw [enter, if_neg (by simp [hz, hnew])]
      exact (hd.afterMiss href hinj hlen hbuf hz hnew).congr rfl rfl rfl
    · simp [DedupDisk.afterMiss, FileBlockStore.afterPut, href.blockSize_eq]
  · rw [h] at hw
    cases hw
    refine ⟨fun herr => absurd herr (by simp), ?_, fun hroom => ?_⟩
    · simp [FileBlockStore.afterPut, href.blockSize_eq]
    · omega

/-- **Successive block writes** without a fault. -/
lemma Refines.writeBlocks_enter (href : Refines sha1 written dd disk)
    (hinj : Set.InjOn sha1 written) {n block : ℕ} {buf : Bytes}
    (hlen : buf.length = n * dd.blockSize)
    (hbuf : ∀ b ∈ chunks dd.blockSize n buf, b ∈ written)
    (hle : block + n ≤ dd.lunMap.ids.length) {errors : List (Option GoError)}
    (hws : dd.writeBlocks sha1 n buf ((block * dd.blockSize : ℕ) : ℤ) [] = .ok (errors, dd')) :
    ((∀ e ∈ errors, e = none) → ∀ blocks, Deduped sha1 written dd blocks →
        Deduped sha1 written dd' ((chunks dd.blockSize n buf).foldl enter blocks)) ∧
      dd'.blockStore.nextPos ≤ dd.blockStore.nextPos + n * dd.blockSize ∧
      (dd.blockStore.nextPos + n * dd.blockSize ≤ maxOffset → ∀ e ∈ errors, e = none) := by
  induction n generalizing dd disk block buf errors with
  | zero =>
    cases hws
    exact ⟨fun _ _ hd => hd, by simp, by simp⟩
  | succ n ih =>
    obtain ⟨count, err, dd₁, hw, hbs, hids, h₁, hdrop, hrest, hrun⟩ :=
      href.writeBlocks_succ hinj hlen hbuf hle []
    obtain ⟨errors₁, dd₂, hws₁, -⟩ := h₁.writeBlocks hinj hdrop hrest
      (show block + 1 + n ≤ dd₁.lunMap.ids.length by omega) []
    obtain ⟨rfl, rfl⟩ : err :: errors₁ = errors ∧ dd₂ = dd' := by
      simpa only [hrun errors₁ dd₂ hws₁, Except.ok.injEq, Prod.mk.injEq] using hws
    obtain ⟨henter, hnext, hroom⟩ := href.writeBlock_enters hinj (length_take_drop_block hlen).1
      (hbuf _ (by simp [chunks])) (show block < dd.lunMap.ids.length by omega) hw
    obtain ⟨henters, hnexts, hrooms⟩ := ih h₁ hdrop hrest
      (show block + 1 + n ≤ dd₁.lunMap.ids.length by omega) hws₁
    rw [hbs] at henters hnexts hrooms
    rw [Nat.succ_mul]
    refine ⟨fun hnone blocks hd => ?_, by omega, fun hmax e he => ?_⟩
    · exact henters (fun e he => hnone e (List.mem_cons_of_mem _ he)) _
        (henter (hnone err List.mem_cons_self) blocks hd)
    · rcases List.mem_cons.mp he with rfl | he
      · exact hroom (by omega)
      · exact hrooms (by omega) e he

end DedupDisk

/-! ## Runs of writes -/

/-- A `WriteAt` of a run. -/
structure DedupWrite where
  buf : Bytes
  pos : ℤ

namespace DedupWrite

/-- The position and the length are whole blocks, of which there is one at least.  Both are Go
numbers. -/
structure Aligned (op : DedupWrite) (blockSize : ℕ) : Prop where
  isInt64 : IsInt64 op.pos
  length_le : op.buf.length ≤ maxOffset
  pos_tmod : op.pos.tmod blockSize = 0
  length_dvd : blockSize ∣ op.buf.length
  length_pos : 0 < op.buf.length

/-- The blocks that are written. -/
def blocks (op : DedupWrite) (blockSize : ℕ) : List Bytes :=
  chunks blockSize (op.buf.length / blockSize) op.buf

end DedupWrite

/-- Writes without a fault, one after the other: the disk at the end, if all of them succeed. -/
def runWrites (sha1 : Bytes → Bytes) : DedupDisk → List DedupWrite → Option DedupDisk
  | dd, [] => some dd
  | dd, op :: ops =>
    match dd.writeAt sha1 op.buf op.pos [] with
    | .ok ((_, none), dd') => runWrites sha1 dd' ops
    | _ => none

namespace DedupDisk

variable {sha1 : Bytes → Bytes} {written : Set Bytes} {dd dd' : DedupDisk} {disk : List Bytes}
  {op : DedupWrite} {ops : List DedupWrite}

lemma Refines.mounted (h : Refines sha1 written dd disk) : dd.Mounted :=
  ⟨h.running, h.pos, h.size_eq.trans h.lunSize_eq.symm, h.ids_le, h.idle⟩

lemma Refines.writeAt_enters (h : Refines sha1 written dd disk) (hinj : Set.InjOn sha1 written)
    (hop : op.Aligned dd.blockSize) (hw : ∀ b ∈ op.blocks dd.blockSize, b ∈ written)
    (hin : InDevice dd.size.toNat op.buf.length op.pos) :
    ∃ count err dd' disk', dd.writeAt sha1 op.buf op.pos [] = .ok ((count, err), dd') ∧
      Refines sha1 written dd' disk' ∧ dd'.blockSize = dd.blockSize ∧ dd'.size = dd.size ∧
      (err = none → ∀ blocks, Deduped sha1 written dd blocks →
        Deduped sha1 written dd' ((op.blocks dd.blockSize).foldl enter blocks)) ∧
      dd'.blockStore.nextPos ≤ dd.blockStore.nextPos + op.buf.length ∧
      (dd.blockStore.nextPos + op.buf.length ≤ maxOffset → err = none) := by
  have hlt := hop.length_pos
  obtain ⟨hpos, hend⟩ := hin.resolve_left hlt.ne'
  obtain ⟨p, hp⟩ := Int.eq_ofNat_of_zero_le hpos
  have hrange : InRange dd.blockSize (dd.lunMap.ids.length * dd.blockSize : ℕ) p op.buf.length := by
    refine ⟨Nat.dvd_of_mod_eq_zero (natCast_tmod (hp ▸ hop.pos_tmod)), hop.length_dvd, hlt, ?_⟩
    rw [h.size_eq, Int.toNat_natCast, hp] at hend
    exact hend
  obtain ⟨hblock, hlen, hn, hle⟩ := DedupRun.inRange_blocks h.pos hrange
  obtain ⟨count, err, errors, dd', hwr, hws, -, hiff, -, hbs, hids, href⟩ :=
    h.writeAt hinj hn hlen hw hle []
  obtain ⟨henter, hnext, hroom⟩ := h.writeBlocks_enter hinj hlen hw hle hws
  rw [← hlen] at hnext hroom
  rw [← hblock, ← hp] at hwr
  refine ⟨count, err, dd', _, hwr, href, hbs, ?_, fun herr => henter (hiff.mp herr), hnext,
    fun hmax => hiff.mpr (hroom hmax)⟩
  rw [href.size_eq, h.size_eq, hids, hbs]

/-- **A run of writes** that succeed keeps both relations. -/
lemma Refines.runWrites (h : Refines sha1 written dd disk) (hinj : Set.InjOn sha1 written)
    {blocks : List Bytes} (hd : Deduped sha1 written dd blocks)
    (hops : ∀ op ∈ ops, op.Aligned dd.blockSize)
    (hw : ∀ op ∈ ops, ∀ b ∈ op.blocks dd.blockSize, b ∈ written)
    (hrun : Usbd.runWrites sha1 dd ops = some dd') :
    dd'.blockSize = dd.blockSize ∧ (∃ disk', Refines sha1 written dd' disk') ∧
      Deduped sha1 written dd' ((ops.flatMap (·.blocks dd.blockSize)).foldl enter blocks) := by
  induction ops generalizing dd disk blocks with
  | nil =>
    cases hrun
    exact ⟨rfl, ⟨disk, h⟩, hd⟩
  | cons op ops ih =>
    have hop := hops op List.mem_cons_self
    have htmod : (op.buf.length : ℤ).tmod dd.blockSize = 0 := by
      rw [← Int.ofNat_tmod, Nat.mod_eq_zero_of_dvd hop.length_dvd]
      rfl
    simp only [Usbd.runWrites] at hrun
    split at hrun
    · next n dd₁ hwr =>
      have hin := inDevice_of_writeAt h.mounted hop.isInt64 hop.length_le hop.pos_tmod htmod hwr
      obtain ⟨count, err, dd₂, disk₂, hwr₂, href, hbs, -, henter, -⟩ :=
        h.writeAt_enters hinj hop (hw op List.mem_cons_self) hin
      obtain ⟨⟨rfl, rfl⟩, rfl⟩ : (n = count ∧ none = err) ∧ dd₁ = dd₂ := by
        simpa only [hwr, Except.ok.injEq, Prod.mk.injEq] using hwr₂
      rw [← hbs] at hops hw
      have hrest := ih href (henter rfl blocks hd)
        (fun op' h' => hops op' (List.mem_cons_of_mem _ h'))
        (fun op' h' => hw op' (List.mem_cons_of_mem _ h')) hrun
      rw [hbs] at hrest
      rw [List.flatMap_cons, List.foldl_append]
      exact hrest
    · cases hrun

/-- Writes inside the disk succeed as long as the block file has room for all of them. -/
lemma Refines.exists_runWrites (h : Refines sha1 written dd disk) (hinj : Set.InjOn sha1 written)
    (hops : ∀ op ∈ ops, op.Aligned dd.blockSize)
    (hw : ∀ op ∈ ops, ∀ b ∈ op.blocks dd.blockSize, b ∈ written)
    (hin : ∀ op ∈ ops, InDevice dd.size.toNat op.buf.length op.pos)
    (hroom : dd.blockStore.nextPos + (ops.map (·.buf.length)).sum ≤ maxOffset) :
    ∃ dd', Usbd.runWrites sha1 dd ops = some dd' := by
  induction ops generalizing dd disk with
  | nil => exact ⟨dd, rfl⟩
  | cons op ops ih =>
    rw [List.map_cons, List.sum_cons] at hroom
    obtain ⟨count, err, dd₁, disk₁, hwr, href, hbs, hsize, -, hnext, hnone⟩ :=
      h.writeAt_enters hinj (hops op List.mem_cons_self) (hw op List.mem_cons_self)
        (hin op List.mem_cons_self)
    obtain rfl := hnone (by omega)
    simp only [Usbd.runWrites, hwr]
    rw [← hbs] at hops hw
    rw [← hsize] at hin
    exact ih href (fun op' h' => hops op' (List.mem_cons_of_mem _ h'))
      (fun op' h' => hw op' (List.mem_cons_of_mem _ h'))
      (fun op' h' => hin op' (List.mem_cons_of_mem _ h')) (by omega)

/-! ## Exactness -/

/-- Deduplication is exact: the block file is made of one block for each content that was written
and is not zeros, the database has the number of each one under its hash and has nothing else, and
two logical blocks have the same id exactly when they read the same. -/
structure Exact (sha1 : Bytes → Bytes) (written : Set Bytes) (dd : DedupDisk)
    (blocks : List Bytes) : Prop where
  nodup : blocks.Nodup
  mem_iff : ∀ b, b ∈ blocks ↔ b ∈ written ∧ b ≠ zeros dd.blockSize
  file_eq : dd.blockStore.file = blocks.flatten
  nextID_eq : dd.blockStore.nextID = blocks.length
  stored : ∀ i b, blocks[i]? = some b → Stored dd.blockStore (i, b)
  entries_iff : ∀ h rawVal, dd.idStore.db h = some rawVal ↔
    ∃ i b, blocks[i]? = some b ∧ h = sha1 b ∧ rawVal = leBytes 8 i
  reads : ∀ (i : ℕ) (buf : Bytes), i < dd.lunMap.ids.length → buf.length = dd.blockSize →
    ∃ b, dd.readBlock i buf = .ok (b, dd.blockSize, none)
  shares_iff : ∀ (i j : ℕ) (buf : Bytes), i < dd.lunMap.ids.length → j < dd.lunMap.ids.length →
    buf.length = dd.blockSize →
    (dd.lunMap.ids[i]? = dd.lunMap.ids[j]? ↔ dd.readBlock i buf = dd.readBlock j buf)

section Numbers

variable {blocks : List Bytes} (hd : Deduped sha1 written dd blocks)
  (h : Refines sha1 written dd disk)

include hd h

/-- The number of a stored block is its place in the list of contents. -/
lemma Deduped.getElem?_of_stored {dedupID : ℕ} {b : Bytes}
    (hst : Stored dd.blockStore (dedupID, b)) : blocks[dedupID]? = some b := by
  have hlt : dedupID < blocks.length := hd.nextID_eq ▸ hst.lt
  have hget := List.getElem?_eq_getElem hlt
  have hbytes : slice dd.blockStore.file (dedupID * dd.blockSize) dd.blockSize = b := by
    have hb := hst.bytes
    rwa [h.blockSize_eq] at hb
  have hslice := slice_flatten hd.sized hget (p := 0) (n := dd.blockSize) (by omega)
  have hlen := hd.sized _ (List.mem_of_getElem? hget)
  rw [Nat.add_zero, ← hd.file_eq, hbytes, slice, List.drop_zero,
    List.take_of_length_le hlen.le] at hslice
  rw [hget, hslice]

lemma Deduped.stored (hinj : Set.InjOn sha1 written) {i : ℕ} {b : Bytes}
    (hi : blocks[i]? = some b) : Stored dd.blockStore (i, b) := by
  obtain ⟨dedupID, c, -, hh, hc, hst⟩ :=
    h.entries _ _ ((hd.entries_iff _ _).mpr ⟨i, b, hi, rfl, rfl⟩)
  obtain rfl := hinj (hd.mem_written b (List.mem_of_getElem? hi)) hc hh
  obtain ⟨hlt, hget⟩ := List.getElem?_eq_some_iff.mp hi
  obtain ⟨hlt', hget'⟩ := List.getElem?_eq_some_iff.mp (hd.getElem?_of_stored h hst)
  obtain rfl := (hd.nodup.getElem_inj_iff).mp (hget.trans hget'.symm)
  exact hst

/-- An id stands for one content, and a content has one id. -/
lemma Deduped.holds_iff {i j : ℕ} {b c : Bytes} (hi : Holds dd.blockStore i b)
    (hj : Holds dd.blockStore j c) : i = j ↔ b = c := by
  have hpos : 0 < dd.blockStore.blockSize := h.blockSize_eq ▸ h.pos
  have hreserved : ∀ {id : ℕ} {a : Bytes}, Stored dd.blockStore (id, a) →
      id ≠ zeroBlockID ∧ a ≠ zeros dd.blockStore.blockSize := by
    intro id a hst
    refine ⟨ne_zeroBlockID hpos hst.le_max, ?_⟩
    rintro rfl
    have hz := hd.nonzero _ (List.mem_of_getElem? (hd.getElem?_of_stored h hst))
    simp at hz
  rcases hi with ⟨rfl, rfl⟩ | hi <;> rcases hj with ⟨rfl, rfl⟩ | hj
  · exact iff_of_true rfl rfl
  · exact iff_of_false (hreserved hj).1.symm (hreserved hj).2.symm
  · exact iff_of_false (hreserved hi).1 (hreserved hi).2
  · obtain ⟨hlt, hget⟩ := List.getElem?_eq_some_iff.mp (hd.getElem?_of_stored h hi)
    obtain ⟨hlt', hget'⟩ := List.getElem?_eq_some_iff.mp (hd.getElem?_of_stored h hj)
    rw [← hget, ← hget']
    exact hd.nodup.getElem_inj_iff.symm

end Numbers

lemma Refines.readBlock (h : Refines sha1 written dd disk) {i : ℕ} {buf : Bytes}
    (hi : i < dd.lunMap.ids.length) (hbuf : buf.length = dd.blockSize) :
    dd.readBlock i buf = .ok (disk.get ⟨i, h.length_eq ▸ hi⟩, dd.blockSize, none) := by
  have hread := h.readAt Nat.one_pos (by rw [hbuf, Nat.one_mul]) (show i + 1 ≤ _ from hi)
  have hlt : i < disk.length := h.length_eq ▸ hi
  rw [DedupDisk.readBlock, hread, hbuf, slice, List.drop_eq_getElem_cons hlt, List.take_succ_cons,
    List.take_zero, List.flatten_singleton]
  rfl

lemma Deduped.exact {blocks : List Bytes} (hd : Deduped sha1 written dd blocks)
    (h : Refines sha1 written dd disk) (hinj : Set.InjOn sha1 written)
    (hmem : ∀ b, b ∈ blocks ↔ b ∈ written ∧ b ≠ zeros dd.blockSize) :
    Exact sha1 written dd blocks where
  nodup := hd.nodup
  mem_iff := hmem
  file_eq := hd.file_eq
  nextID_eq := hd.nextID_eq
  stored _ _ hi := hd.stored h hinj hi
  entries_iff := hd.entries_iff
  reads _ _ hi hbuf := ⟨_, h.readBlock hi hbuf⟩
  shares_iff i j buf hi hj hbuf := by
    have hholds : ∀ {k : ℕ} (hk : k < dd.lunMap.ids.length),
        Holds dd.blockStore (dd.lunMap.ids.get ⟨k, hk⟩) (disk.get ⟨k, h.length_eq ▸ hk⟩) :=
      fun hk => h.holds _ _ _ (List.getElem?_eq_getElem hk) (List.getElem?_eq_getElem _)
    rw [h.readBlock hi hbuf, h.readBlock hj hbuf, List.getElem?_eq_getElem hi,
      List.getElem?_eq_getElem hj, Option.some.injEq, Except.ok.injEq, Prod.mk.injEq,
      and_iff_left rfl]
    exact hd.holds_iff h (hholds hi) (hholds hj)

lemma deduped_fresh (sha1 : Bytes → Bytes) (written : Set Bytes) (lm : MmapLUNmap)
    (blockSize : ℕ) :
    Deduped sha1 written
      (newDedupDisk lm newPebbleIDStore (newFileBlockStore [] blockSize) blockSize) [] := by
  constructor <;> simp [newDedupDisk, newPebbleIDStore, newFileBlockStore]

end DedupDisk

/-- **Deduplication is exact.**  On a fresh disk of any size, with a hash that tells the written
blocks apart: writes of whole blocks inside the disk go through, as long as the block file has room
for all of them; and after any run of writes of whole blocks that all go through, the block store
has one block for each content that was written, the zeros apart. -/
theorem dedup_exact (sha1 : Bytes → Bytes) (blockSize size : ℕ) (hbs : 0 < blockSize)
    (hmax : size ≤ maxOffset) (lm : MmapLUNmap) (hnew : newMmapLUNmap [] blockSize size = .ok lm)
    (ops : List DedupWrite) (hops : ∀ op ∈ ops, op.Aligned blockSize)
    (hinj : Set.InjOn sha1 {b | ∃ op ∈ ops, b ∈ op.blocks blockSize}) :
    ((∀ op ∈ ops, InDevice lm.size.toNat op.buf.length op.pos) →
        (ops.map (·.buf.length)).sum ≤ maxOffset →
        ∃ dd, runWrites sha1
          (newDedupDisk lm newPebbleIDStore (newFileBlockStore [] blockSize) blockSize) ops =
            some dd) ∧
      ∀ dd, runWrites sha1
          (newDedupDisk lm newPebbleIDStore (newFileBlockStore [] blockSize) blockSize) ops =
            some dd →
        ∃ blocks, dd.Exact sha1 {b | ∃ op ∈ ops, b ∈ op.blocks blockSize} blocks := by
  have href : DedupDisk.Refines sha1 {b | ∃ op ∈ ops, b ∈ op.blocks blockSize}
      (newDedupDisk lm newPebbleIDStore (newFileBlockStore [] blockSize) blockSize) _ :=
    DedupDisk.refines_fresh hbs hmax hnew
  have hd := DedupDisk.deduped_fresh sha1 {b | ∃ op ∈ ops, b ∈ op.blocks blockSize} lm blockSize
  have hw : ∀ op ∈ ops, ∀ b ∈ op.blocks blockSize,
      b ∈ {b | ∃ op ∈ ops, b ∈ op.blocks blockSize} := fun op hop b hb => ⟨op, hop, hb⟩
  refine ⟨fun hin hroom => href.exists_runWrites hinj hops hw hin ?_, fun dd hrun => ?_⟩
  · simpa [newDedupDisk, newFileBlockStore] using hroom
  · obtain ⟨hbs', ⟨disk', href'⟩, hd'⟩ := href.runWrites hinj hd hops hw hrun
    refine ⟨_, hd'.exact href' hinj fun b => ?_⟩
    have hsized : (∃ op ∈ ops, b ∈ op.blocks blockSize) → b.length = blockSize := by
      rintro ⟨op, hop, hb⟩
      exact length_of_mem_chunks (Nat.div_mul_cancel (hops op hop).length_dvd).symm hb
    rw [mem_foldl_enter, hbs']
    simp only [List.not_mem_nil, false_or, List.mem_flatMap, Set.mem_ofPred_eq]
    refine and_congr_right fun hb => ?_
    rw [← Bool.not_eq_true, isZeros_iff_eq_zeros, hsized hb]
    rfl

/-- Five blocks on a disk of two, with three contents among them. -/
def fiveBlocks : List DedupWrite :=
  [⟨[1, 1, 2, 2], 0⟩, ⟨[2, 2, 0, 0], 0⟩, ⟨[3, 3], 2⟩]

theorem dedup_exact_three_contents :
    ∃ dd, runWrites id freshTwoBlocks fiveBlocks = some dd ∧
      ∃ blocks, dd.Exact id {b | ∃ op ∈ fiveBlocks, b ∈ op.blocks 2} blocks := by
  have haligned : ∀ op ∈ fiveBlocks, op.Aligned 2 := by
    intro op hop
    fin_cases hop <;> constructor <;> decide
  obtain ⟨hruns, hexact⟩ := dedup_exact id 2 4 (by decide) (by decide) _ rfl fiveBlocks haligned
    (fun _ _ _ _ h => h)
  obtain ⟨dd, hrun⟩ := hruns (by decide) (by decide)
  exact ⟨dd, hrun, hexact dd hrun⟩

end Usbd
