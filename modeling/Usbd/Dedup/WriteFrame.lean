import Usbd.Dedup.FlatArray
import Usbd.Dedup.Positions

/-!
# What a request leaves alone

A write of some blocks of a dedup disk changes the entries of these blocks in the LUN map and
puts new blocks behind those that the block store has.  `dedup_request_frame` says for every kind of
request exactly when it stays inside the map and leaves the contents of every other block as they
were.

* A read has to find its blocks in the map, which a map opened again with another size need not
  have; only the first block behind the map, asked for alone, is not refused.
* A write of no bytes takes the path of a single block, and its empty buffer counts as all zeros, so
  that it clears the block at its position.  It leaves everything as it was if this block has a
  place in the map and reads as zeros.
* Any other write needs a place in the map for each of its blocks.  What it puts into the block file
  are the blocks that are neither zeros nor known (`newBytes`), at the next position, which in a
  store that was opened again is that of a block in use.  The blocks of the other entries have to
  come out of this as they were (`FileBlockStore.Keeps`), and they do if nothing is put, or if they
  lie before the next position (`FileBlockStore.Settled`), as in a store that was opened on an empty
  file.
-/

namespace Usbd

open ListMemory

/-! ## The block store -/

namespace FileBlockStore

variable {fbs fbs' fbs₁ fbs₂ : FileBlockStore} {dedupID : ℕ} {w w' : Bytes}

/-- The blocks of a store that lie before its next position are still there in another. -/
structure Extends (fbs fbs' : FileBlockStore) : Prop where
  blockSize_eq : fbs'.blockSize = fbs.blockSize
  pendingWrites_eq : fbs.pendingWrites = [] → fbs'.pendingWrites = []
  nextPos_le : fbs.nextPos ≤ fbs'.nextPos
  length_le : fbs.file.length ≤ fbs'.file.length
  bytes : ∀ p n, p + n ≤ fbs.nextPos → p + n ≤ fbs.file.length →
    slice fbs'.file p n = slice fbs.file p n

lemma Extends.refl (fbs : FileBlockStore) : fbs.Extends fbs :=
  ⟨rfl, id, le_rfl, le_rfl, fun _ _ _ _ => rfl⟩

lemma Extends.trans (h : fbs.Extends fbs₁) (h' : fbs₁.Extends fbs₂) : fbs.Extends fbs₂ where
  blockSize_eq := h'.blockSize_eq.trans h.blockSize_eq
  pendingWrites_eq hidle := h'.pendingWrites_eq (h.pendingWrites_eq hidle)
  nextPos_le := h.nextPos_le.trans h'.nextPos_le
  length_le := h.length_le.trans h'.length_le
  bytes p n hpos hlen := by
    rw [h'.bytes p n (hpos.trans h.nextPos_le) (hlen.trans h.length_le), h.bytes p n hpos hlen]

lemma extends_afterPut (fbs : FileBlockStore) (w : Bytes) : fbs.Extends (fbs.afterPut w) where
  blockSize_eq := rfl
  pendingWrites_eq hidle := by simp [afterPut, hidle]
  nextPos_le := Nat.le_add_right ..
  length_le := length_le_length_overwrite 0 fbs.file fbs.nextPos w
  bytes _ _ hpos hlen := slice_overwrite_of_disjoint 0 hlen (Or.inl hpos)

/-- Whole blocks have been put, these bytes and no others. -/
structure Puts (fbs fbs' : FileBlockStore) (w : Bytes) : Prop where
  blockSize_eq : fbs'.blockSize = fbs.blockSize
  nextPos_eq : fbs'.nextPos = fbs.nextPos + w.length
  file_eq : fbs'.file = overwrite 0 fbs.file fbs.nextPos w

lemma Puts.refl (fbs : FileBlockStore) : fbs.Puts fbs [] := ⟨rfl, rfl, (overwrite_nil ..).symm⟩

lemma Puts.trans (h : fbs.Puts fbs₁ w) (h' : fbs₁.Puts fbs₂ w') : fbs.Puts fbs₂ (w ++ w') where
  blockSize_eq := h'.blockSize_eq.trans h.blockSize_eq
  nextPos_eq := by rw [h'.nextPos_eq, h.nextPos_eq, List.length_append, Nat.add_assoc]
  file_eq := by rw [h'.file_eq, h.file_eq, h.nextPos_eq, overwrite_overwrite_append]

lemma puts_afterPut (hw : w.length = fbs.blockSize) : fbs.Puts (fbs.afterPut w) w :=
  ⟨rfl, by rw [hw]; rfl, rfl⟩

/-- What there is under an id. -/
def shown (fbs : FileBlockStore) (dedupID : ℕ) : Bytes × Option GoError :=
  if dedupID = zeroBlockID then (zeros fbs.blockSize, none)
  else fileReadAt fbs.file fbs.blockSize (fbs.place dedupID)

/-- The same is there before and after these bytes are put. -/
def Keeps (fbs : FileBlockStore) (w : Bytes) (dedupID : ℕ) : Prop :=
  { fbs with file := overwrite 0 fbs.file fbs.nextPos w }.shown dedupID = fbs.shown dedupID

/-- A block that reads as zeros. -/
def Clear (fbs : FileBlockStore) (dedupID : ℕ) : Prop :=
  fbs.shown dedupID = (zeros fbs.blockSize, none)

/-- A block that lies before the next position and inside the file, or is the reserved one. -/
def Settled (fbs : FileBlockStore) (dedupID : ℕ) : Prop :=
  dedupID = zeroBlockID ∨ (0 ≤ fbs.place dedupID → fbs.place dedupID + fbs.blockSize ≤ fbs.nextPos ∧
    fbs.place dedupID + fbs.blockSize ≤ fbs.file.length)

lemma fileReadAt_congr {data data' : Bytes} {len : ℕ} {pos : ℤ}
    (h : 0 ≤ pos → slice data' pos.toNat len = slice data pos.toNat len) :
    fileReadAt data' len pos = fileReadAt data len pos := by
  unfold fileReadAt
  split_ifs with hneg
  · rfl
  · simp only [h (not_lt.mp hneg)]

lemma length_shown_le (fbs : FileBlockStore) (dedupID : ℕ) :
    (fbs.shown dedupID).1.length ≤ fbs.blockSize := by
  unfold shown
  split_ifs
  · exact (length_zeros _).le
  · exact length_fileReadAt_le ..

lemma getBlock_of_idle (hidle : fbs.pendingWrites = []) {buf : Bytes}
    (hbuf : buf.length = fbs.blockSize) :
    fbs.getBlock dedupID buf = some (goCopy buf (fbs.shown dedupID).1, (fbs.shown dedupID).2) := by
  by_cases hid : dedupID = zeroBlockID
  · subst hid
    rw [getBlock_zeroBlockID hbuf, shown, if_pos rfl,
      goCopy_of_length_eq ((length_zeros _).trans hbuf.symm)]
  · simp [getBlock, shown, hid, hidle, hbuf]

/-- What is copied over every buffer in the same way is the same. -/
lemma eq_of_goCopy_eq {n : ℕ} {xs ys : Bytes} (hx : xs.length ≤ n) (hy : ys.length ≤ n)
    (h : ∀ buf : Bytes, buf.length = n → goCopy buf xs = goCopy buf ys) : xs = ys := by
  -- the byte behind the shorter one would be that of every buffer
  have hlen : ∀ {xs ys : Bytes}, xs.length ≤ n → ys.length ≤ n →
      (∀ buf : Bytes, buf.length = n → goCopy buf xs = goCopy buf ys) →
      ¬ xs.length < ys.length := by
    intro xs ys hx hy h hlt
    have hat : ∀ b : UInt8, ys[xs.length]? = some b := by
      intro b
      have hb := congrArg (·[xs.length]?) (h (List.replicate n b) (List.length_replicate ..))
      simpa [goCopy, List.take_of_length_le, hx, hy, List.getElem?_append, hlt,
        List.getElem?_replicate, hlt.trans_le hy] using hb.symm
    exact absurd (Option.some.inj ((hat 0).symm.trans (hat 1))) (by decide)
  have heq : xs.length = ys.length :=
    le_antisymm (not_lt.mp (hlen hy hx fun buf hbuf => (h buf hbuf).symm))
      (not_lt.mp (hlen hx hy h))
  have hcopy := h (List.replicate n 0) (List.length_replicate ..)
  rw [goCopy, goCopy, List.length_replicate, List.take_of_length_le hx, List.take_of_length_le hy,
    heq] at hcopy
  exact List.append_cancel_right hcopy

/-- What `GetBlock` returns is what there is. -/
lemma getBlock_eq_iff (hidle : fbs.pendingWrites = []) (hidle' : fbs'.pendingWrites = [])
    (hbs : fbs'.blockSize = fbs.blockSize) {id' : ℕ} :
    (∀ buf : Bytes, buf.length = fbs.blockSize →
        fbs'.getBlock id' buf = fbs.getBlock dedupID buf) ↔
      fbs'.shown id' = fbs.shown dedupID := by
  have hget : ∀ buf : Bytes, buf.length = fbs.blockSize →
      (fbs'.getBlock id' buf = fbs.getBlock dedupID buf ↔
        goCopy buf (fbs'.shown id').1 = goCopy buf (fbs.shown dedupID).1 ∧
          (fbs'.shown id').2 = (fbs.shown dedupID).2) := by
    intro buf hbuf
    rw [getBlock_of_idle hidle' (hbuf.trans hbs.symm), getBlock_of_idle hidle hbuf,
      Option.some_inj, Prod.mk_inj]
  constructor
  · intro h
    refine Prod.ext ?_ ((hget _ (length_zeros _)).mp (h _ (length_zeros _))).2
    exact eq_of_goCopy_eq (hbs ▸ length_shown_le ..) (length_shown_le ..)
      fun buf hbuf => ((hget buf hbuf).mp (h buf hbuf)).1
  · intro h buf hbuf
    exact (hget buf hbuf).mpr (by rw [h]; exact ⟨rfl, rfl⟩)

lemma Extends.getBlock (h : fbs.Extends fbs') (hidle : fbs.pendingWrites = [])
    (hid : fbs.Settled dedupID) {buf : Bytes} (hbuf : buf.length = fbs.blockSize) :
    fbs'.getBlock dedupID buf = fbs.getBlock dedupID buf := by
  refine (getBlock_eq_iff hidle (h.pendingWrites_eq hidle) h.blockSize_eq).mpr ?_ buf hbuf
  simp only [shown, place, h.blockSize_eq]
  split_ifs with hzero
  · rfl
  · refine fileReadAt_congr fun hpos => ?_
    obtain ⟨hnext, hlen⟩ := hid.resolve_left hzero hpos
    rw [place] at hnext hlen
    exact h.bytes _ _ (by omega) (by omega)

/-- **Which blocks survive a put**: those that `Keeps` is true of. -/
lemma Puts.getBlock_iff (h : fbs.Puts fbs' w) (hidle : fbs.pendingWrites = [])
    (hidle' : fbs'.pendingWrites = []) :
    (∀ buf : Bytes, buf.length = fbs.blockSize →
      fbs'.getBlock dedupID buf = fbs.getBlock dedupID buf) ↔ fbs.Keeps w dedupID := by
  rw [getBlock_eq_iff hidle hidle' h.blockSize_eq, Keeps]
  simp only [shown, place, h.blockSize_eq, h.file_eq]

lemma getBlock_eq_zeros_iff (hidle : fbs.pendingWrites = []) :
    (∀ buf : Bytes, buf.length = fbs.blockSize →
      fbs.getBlock zeroBlockID buf = fbs.getBlock dedupID buf) ↔ fbs.Clear dedupID := by
  rw [getBlock_eq_iff hidle hidle rfl, Clear, shown, if_pos rfl]
  exact eq_comm

end FileBlockStore

namespace DedupDisk

open FileBlockStore

variable {sha1 : Bytes → Bytes} {dd dd' dd₁ dd₂ : DedupDisk} {block n : ℕ}

/-! ## Writes -/

/-- What the writes of `n` blocks from `block` on leave as it was. -/
structure Untouched (dd dd' : DedupDisk) (block n : ℕ) : Prop where
  shutdown_eq : dd'.shutdown = dd.shutdown
  blockSize_eq : dd'.blockSize = dd.blockSize
  size_eq : dd'.size = dd.size
  ids_length_eq : dd'.lunMap.ids.length = dd.lunMap.ids.length
  ids_eq : ∀ i, i < block ∨ block + n ≤ i → dd'.lunMap.ids[i]? = dd.lunMap.ids[i]?
  store : dd.blockStore.Extends dd'.blockStore

lemma Untouched.refl (dd : DedupDisk) (block n : ℕ) : dd.Untouched dd block n :=
  ⟨rfl, rfl, rfl, rfl, fun _ _ => rfl, .refl _⟩

lemma Untouched.trans (h : dd.Untouched dd₁ block 1) (h' : dd₁.Untouched dd₂ (block + 1) n) :
    dd.Untouched dd₂ block (n + 1) where
  shutdown_eq := h'.shutdown_eq.trans h.shutdown_eq
  blockSize_eq := h'.blockSize_eq.trans h.blockSize_eq
  size_eq := h'.size_eq.trans h.size_eq
  ids_length_eq := h'.ids_length_eq.trans h.ids_length_eq
  ids_eq i hi := by rw [h'.ids_eq i (by omega), h.ids_eq i (by omega)]
  store := h.store.trans h'.store

lemma Continues.untouched (h : dd.Continues dd' block) : dd.Untouched dd' block 1 where
  shutdown_eq := h.shutdown_eq
  blockSize_eq := h.blockSize_eq
  size_eq := h.size_eq
  ids_length_eq := h.ids_length_eq
  ids_eq i hi := h.ids_eq i (by omega)
  store := by
    rcases h.store_eq with h | ⟨w, h⟩
    · exact h ▸ .refl _
    · exact h ▸ extends_afterPut _ w

lemma eq_one_of_short {len bs : ℕ} (hn : 0 < n) (hlen : len = n * bs) (hbs : 0 < bs)
    (hshort : ¬ len > bs) : n = 1 := by
  by_contra hne
  have htwo : 2 * bs ≤ n * bs := Nat.mul_le_mul_right _ (by omega)
  omega

lemma passes_of_le (hsize : dd.size ≤ maxOffset)
    (hend : ((block + n) * dd.blockSize : ℕ) ≤ dd.size) {len : ℕ}
    (hlen : len = n * dd.blockSize) :
    dd.Passes len ((block * dd.blockSize : ℕ) : ℤ) := by
  refine ⟨Int.natCast_nonneg _, ?_⟩
  rwa [hlen, pos_add_blocks,
    wrapInt64_of_isInt64 (isInt64_natCast (Int.ofNat_le.mp (hend.trans hsize)))]

lemma blockAt_natCast_mul (hbs : 0 < dd.blockSize) (block : ℕ) :
    dd.blockAt ((block * dd.blockSize : ℕ) : ℤ) = block := by
  rw [blockAt, ← Int.ofNat_tdiv, Int.toNat_natCast, Nat.mul_div_cancel _ hbs]

/-- The contents that `GetID` knows, by their hash. -/
def known (dd : DedupDisk) (sha1Hash : Bytes) : Bool := (dd.idStore.db sha1Hash).isSome

/-- What a write of these blocks puts into the block file: the blocks that are neither zeros nor
known. -/
def newBytes (sha1 : Bytes → Bytes) (blockSize : ℕ) : ℕ → (Bytes → Bool) → Bytes → Bytes
  | 0, _, _ => []
  | n + 1, known, buf =>
    let piece := buf.take blockSize
    if isZeros piece || known (sha1 piece) then
      newBytes sha1 blockSize n known (buf.drop blockSize)
    else
      piece ++ newBytes sha1 blockSize n (Function.update known (sha1 piece) true)
        (buf.drop blockSize)

lemma putLun_stores {dedupID len : ℕ} {res : ℤ × Option GoError}
    (h : dd.putLun block dedupID len false = .ok (res, dd')) :
    dd'.blockStore = dd.blockStore ∧ dd'.idStore = dd.idStore := by
  unfold putLun at h
  split at h
  · cases h
  all_goals
    cases h
    exact ⟨rfl, rfl⟩

lemma known_afterMiss (dd : DedupDisk) (buf : Bytes) :
    (dd.afterMiss sha1 buf).known = Function.update dd.known (sha1 buf) true := by
  funext hash
  simp only [known, afterMiss, PebbleIDStore.putID, Function.update_apply]
  split_ifs <;> rfl

/-- What a block write that returns has put into the stores. -/
lemma writeBlock_puts {buf : Bytes} {pos : ℤ} {res : ℤ × Option GoError}
    (hbuf : buf.length = dd.blockStore.blockSize)
    (hroom : dd.blockStore.nextPos + buf.length ≤ maxOffset)
    (h : dd.writeBlock sha1 buf pos BlockFaults.none = .ok (res, dd')) :
    if isZeros buf || dd.known (sha1 buf) then
      dd.blockStore.Puts dd'.blockStore [] ∧ dd'.known = dd.known
    else dd.blockStore.Puts dd'.blockStore buf ∧
      dd'.known = Function.update dd.known (sha1 buf) true := by
  have hsame : dd'.blockStore = dd.blockStore ∧ dd'.idStore = dd.idStore →
      dd.blockStore.Puts dd'.blockStore [] ∧ dd'.known = dd.known := by
    rintro ⟨hstore, hids⟩
    refine ⟨hstore ▸ .refl _, ?_⟩
    funext hash
    rw [known, known, hids]
  rcases writeBlock_cases dd buf (rfl : (pos.tdiv dd.blockSize).toNat = _) with
    ⟨hz, hw⟩ | ⟨hz, rawVal, hdb, hw⟩ | ⟨hz, hdb, -, hw⟩ | ⟨-, -, hfull, -⟩
  · rw [if_pos (by simp [hz])]
    exact hsame (putLun_stores (hw.symm.trans h))
  · rw [if_pos (by simp [known, hdb])]
    exact hsame (putLun_stores (hw.symm.trans h))
  · rw [if_neg (by simp [hz, known, hdb])]
    obtain ⟨hstore, hids⟩ := putLun_stores (hw.symm.trans h)
    refine ⟨?_, ?_⟩
    · rw [hstore]
      exact puts_afterPut hbuf
    · rw [← known_afterMiss]
      funext hash
      rw [known, known, hids]
  · omega

lemma newBytes_one {blockSize : ℕ} {buf : Bytes} (hbuf : buf.length = blockSize)
    (known : Bytes → Bool) : newBytes sha1 blockSize 1 known buf =
      if isZeros buf || known (sha1 buf) then [] else buf := by
  simp [newBytes, List.take_of_length_le hbuf.le]

/-- **Successive block writes** inside the map leave the other blocks alone.  Without faults, and
with room for them, they put the new blocks among theirs. -/
lemma writeBlocks_spares (sha1 : Bytes → Bytes) (hm : dd.Mounted)
    (hstore : dd.blockStore.blockSize = dd.blockSize) (hsize : dd.size ≤ maxOffset)
    (hend : ((block + n) * dd.blockSize : ℕ) ≤ dd.size)
    (hmap : block + n ≤ dd.lunMap.ids.length) {buf : Bytes} (hbuf : buf.length = n * dd.blockSize)
    (faults : List BlockFaults) :
    ∃ errors dd', writeBlocks sha1 n dd buf ((block * dd.blockSize : ℕ) : ℤ) faults =
        .ok (errors, dd') ∧ dd.Untouched dd' block n ∧
      (faults = [] → dd.blockStore.nextPos + buf.length ≤ maxOffset →
        dd.blockStore.Puts dd'.blockStore (newBytes sha1 dd.blockSize n dd.known buf)) := by
  induction n generalizing dd block buf faults with
  | zero => exact ⟨[], dd, rfl, .refl .., fun _ _ => .refl _⟩
  | succ n ih =>
    obtain ⟨htake, hdrop⟩ := length_take_drop_block hbuf
    have hle : (((block + 1) * dd.blockSize : ℕ) : ℤ) ≤ dd.size :=
      (Int.ofNat_le.mpr (Nat.mul_le_mul_right _ (by omega))).trans hend
    have hpass := passes_of_le hsize hle (Nat.one_mul dd.blockSize).symm
    have hnext := wrapInt64_next (Int.ofNat_le.mp (hle.trans hsize))
    have hblock := blockAt_natCast_mul hm.pos block
    have hlt : dd.blockAt ((block * dd.blockSize : ℕ) : ℤ) < dd.lunMap.ids.length := by
      rw [hblock]
      omega
    obtain ⟨k, err, dd₁, hr, hc⟩ := writeBlock_of_lt sha1 hlt (buf.take dd.blockSize)
      (faults.headD BlockFaults.none)
    rw [hblock] at hc
    have h₁ := hc.untouched
    obtain ⟨errors, dd₂, hrest, h₂, hputs⟩ := ih (hc.mounted hm)
      (by rw [h₁.store.blockSize_eq, hstore, hc.blockSize_eq]) (hc.size_eq ▸ hsize)
      (by rw [hc.size_eq, hc.blockSize_eq, Nat.add_right_comm]; exact hend)
      (show block + 1 + n ≤ dd₁.lunMap.ids.length by rw [hc.ids_length_eq]; omega)
      (hc.blockSize_eq ▸ hdrop) faults.tail
    rw [hc.blockSize_eq] at hrest hputs
    refine ⟨err :: errors, dd₂, ?_, h₁.trans h₂, fun hnone hroom => ?_⟩
    · simp only [writeBlocks, htake, guardWrite_of_passes hm hpass, hr, hnext, hrest]
    · subst hnone
      have hroom' : dd.blockStore.nextPos + dd.blockSize + (buf.drop dd.blockSize).length ≤
          maxOffset := by
        rwa [hdrop, Nat.add_assoc, Nat.add_comm dd.blockSize, ← Nat.succ_mul, ← hbuf]
      have hput := writeBlock_puts (htake.trans hstore.symm)
        (htake.symm ▸ (Nat.le_add_right ..).trans hroom') hr
      -- the rest follows what the first block has put
      have hrun : ∀ {w}, dd.blockStore.Puts dd₁.blockStore w → w.length ≤ dd.blockSize →
          dd.blockStore.Puts dd₂.blockStore
            (w ++ newBytes sha1 dd.blockSize n dd₁.known (buf.drop dd.blockSize)) := by
        intro w hw hshort
        refine hw.trans (hputs rfl ?_)
        rw [hw.nextPos_eq]
        exact (Nat.add_le_add_right (Nat.add_le_add_left hshort _) _).trans hroom'
      simp only [newBytes]
      split_ifs at hput ⊢ with hknown
      · rw [← hput.2]
        exact hrun hput.1 (Nat.zero_le _)
      · rw [← hput.2]
        exact hrun hput.1 htake.le

lemma writeAt_spares (sha1 : Bytes → Bytes) (hm : dd.Mounted)
    (hstore : dd.blockStore.blockSize = dd.blockSize) (hsize : dd.size ≤ maxOffset) (hn : 0 < n)
    (hend : ((block + n) * dd.blockSize : ℕ) ≤ dd.size)
    (hmap : block + n ≤ dd.lunMap.ids.length) {buf : Bytes} (hbuf : buf.length = n * dd.blockSize)
    (faults : List BlockFaults) :
    ∃ res dd', dd.writeAt sha1 buf ((block * dd.blockSize : ℕ) : ℤ) faults = .ok (res, dd') ∧
      dd.Untouched dd' block n ∧
      (faults = [] → dd.blockStore.nextPos + buf.length ≤ maxOffset →
        dd.blockStore.Puts dd'.blockStore (newBytes sha1 dd.blockSize n dd.known buf)) := by
  rw [writeAt, guardWrite_of_passes hm (passes_of_le hsize hend hbuf)]
  split_ifs with hmulti
  · obtain ⟨errors, dd', hrun, h, hputs⟩ :=
      writeBlocks_spares sha1 hm hstore hsize hend hmap hbuf faults
    rw [hbuf, Nat.mul_div_cancel _ hm.pos, hrun]
    simp only
    cases getFirstError errors with
    | none => exact ⟨_, _, rfl, h, hbuf ▸ hputs⟩
    | some e => exact ⟨_, _, rfl, h, hbuf ▸ hputs⟩
  · obtain rfl := eq_one_of_short hn hbuf hm.pos hmulti
    have hblock := blockAt_natCast_mul hm.pos block
    have hlt : dd.blockAt ((block * dd.blockSize : ℕ) : ℤ) < dd.lunMap.ids.length := by
      rw [hblock]
      omega
    obtain ⟨k, err, dd', hr, hc⟩ := writeBlock_of_lt sha1 hlt buf (faults.headD BlockFaults.none)
    rw [hblock] at hc
    refine ⟨_, dd', hr, hc.untouched, fun hnone hroom => ?_⟩
    subst hnone
    rw [Nat.one_mul] at hbuf
    have hput := writeBlock_puts (hbuf.trans hstore.symm) hroom hr
    rw [newBytes_one hbuf]
    split_ifs at hput ⊢ <;> exact hput.1

/-- A write of no bytes enters the reserved id at its position. -/
lemma writeAt_nil (hm : dd.Mounted) (hmax : dd.size ≤ maxOffset)
    (hin : ((block * dd.blockSize : ℕ) : ℤ) ≤ dd.size) :
    dd.writeAt sha1 [] ((block * dd.blockSize : ℕ) : ℤ) [] =
      if block < dd.lunMap.ids.length then .ok ((0, none),
        { dd with lunMap := { dd.lunMap with ids := dd.lunMap.ids.set block zeroBlockID } })
      else .error .panic := by
  have hpass : dd.Passes ([] : Bytes).length ((block * dd.blockSize : ℕ) : ℤ) :=
    passes_of_le hmax hin (Nat.zero_mul _).symm
  have hblock : (((block * dd.blockSize : ℕ) : ℤ).tdiv dd.blockSize).toNat = block :=
    blockAt_natCast_mul hm.pos block
  have hle : block ≤ toUint64 dd.lunMap.size := by
    have hself := Nat.le_mul_of_pos_right block hm.pos
    have hsize := hm.size_eq
    obtain ⟨size, hnat⟩ := Int.eq_ofNat_of_zero_le (show 0 ≤ dd.size by omega)
    rw [← hsize, hnat, toUint64_natCast (by omega)]
    omega
  rw [writeAt, guardWrite_of_passes hm hpass, if_neg (by simp)]
  have hzeros : isZeros ([] : Bytes) = true := by decide
  simp only [writeBlock, PebbleIDStore.getID, hzeros, if_true, hblock, putLun, MmapLUNmap.putID,
    List.headD_nil, BlockFaults.none, Bool.false_eq_true, if_false, gt_iff_lt, not_lt.mpr hle]
  split_ifs <;> rfl

/-! ## What is read -/

/-- The contents of a block, as `ReadAt` returns them. -/
def readBlock (dd : DedupDisk) (i : ℕ) (buf : Bytes) : Except Stop (Bytes × ℤ × Option GoError) :=
  dd.readAt buf ((i * dd.blockSize : ℕ) : ℤ)

/-- The result of a read of one block, by what `GetBlock` returns. -/
def fetched (len : ℕ) : Option (Bytes × Option GoError) → Except Stop (Bytes × ℤ × Option GoError)
  | none => .error .blocked
  | some (got, some e) =>
    .ok (got, 0, some (.wrap "Fetch of dedup block from block store failed" e))
  | some (got, none) => .ok (got, len, none)

lemma fetched_injective (len : ℕ) : Function.Injective (fetched len) := by
  rintro (_ | ⟨got, _ | e⟩) (_ | ⟨got', _ | e'⟩) h <;> simp_all [fetched]

/-- A block inside an open disk that has an entry in the map. -/
lemma readBlock_eq_fetched (hopen : dd.shutdown = false) (hbs : 0 < dd.blockSize)
    (hsize : dd.size ≤ maxOffset) {i dedupID : ℕ} (hid : dd.lunMap.ids[i]? = some dedupID)
    (hin : ((i + 1) * dd.blockSize : ℕ) ≤ dd.size) {buf : Bytes}
    (hbuf : buf.length = dd.blockSize) :
    dd.readBlock i buf = fetched dd.blockSize (dd.blockStore.getBlock dedupID buf) := by
  have hblock : (((i * dd.blockSize : ℕ) : ℤ).tdiv dd.blockSize).toNat = i :=
    blockAt_natCast_mul hbs i
  have hlt := (List.getElem?_eq_some_iff.mp hid).1
  rw [readBlock, readAt, if_neg (by simp [hopen]), if_neg (by omega), hbuf,
    wrapInt64_next (Int.ofNat_le.mp (hin.trans hsize)), if_neg (by omega)]
  simp only [hblock, gt_iff_lt, lt_irrefl, if_false, MmapLUNmap.getID, not_lt.mpr hlt.le,
    hid]
  rcases dd.blockStore.getBlock dedupID buf with _ | ⟨got, _ | e⟩ <;> rfl

lemma readBlock_of_end (hopen : dd.shutdown = false) {i : ℕ}
    (hmax : (i + 1) * dd.blockSize ≤ maxOffset) (hend : dd.size < ((i + 1) * dd.blockSize : ℕ))
    {buf : Bytes} (hbuf : buf.length = dd.blockSize) :
    dd.readBlock i buf = .ok (buf, 0, some ioEOF) := by
  rw [readBlock, readAt, if_neg (by simp [hopen]), if_neg (by omega), hbuf, wrapInt64_next hmax,
    if_pos hend]

/-- **What is left of a block** is what its entry stands for, if it has one and is on the disk. -/
lemma Untouched.readBlock_iff (h : dd.Untouched dd' block n) (hm : dd.Mounted)
    (hsize : dd.size ≤ maxOffset) {i : ℕ} :
    (∀ buf : Bytes, buf.length = dd.blockSize → dd'.readBlock i buf = dd.readBlock i buf) ↔
      ∀ dedupID id', dd.lunMap.ids[i]? = some dedupID → dd'.lunMap.ids[i]? = some id' →
        ((i + 1) * dd.blockSize : ℕ) ≤ dd.size → ∀ buf : Bytes, buf.length = dd.blockSize →
          dd'.blockStore.getBlock id' buf = dd.blockStore.getBlock dedupID buf := by
  have hopen' : dd'.shutdown = false := h.shutdown_eq.trans hm.opened
  cases hid : dd.lunMap.ids[i]? with
  | none =>
    have hid' : dd'.lunMap.ids[i]? = none := by
      rw [List.getElem?_eq_none_iff, h.ids_length_eq, ← List.getElem?_eq_none_iff]
      exact hid
    have hblock : (((i * dd.blockSize : ℕ) : ℤ).tdiv dd.blockSize).toNat = i :=
      blockAt_natCast_mul hm.pos i
    refine iff_of_true (fun buf hbuf => ?_) (fun _ _ h => by cases h)
    simp only [readBlock, readAt, h.shutdown_eq, h.blockSize_eq, h.size_eq, hblock, hbuf,
      gt_iff_lt, lt_irrefl, if_false, MmapLUNmap.getID, h.ids_length_eq, hid, hid']
    split_ifs <;> rfl
  | some dedupID =>
    have hlt := (List.getElem?_eq_some_iff.mp hid).1
    obtain ⟨id', hid'⟩ : ∃ id', dd'.lunMap.ids[i]? = some id' :=
      ⟨_, List.getElem?_eq_getElem (h.ids_length_eq ▸ hlt)⟩
    have hmax : (i + 1) * dd.blockSize ≤ maxOffset :=
      (Nat.mul_le_mul_right _ hlt).trans hm.ids_le
    -- inside the disk a read fetches the block of its id; behind it, it fails with both
    by_cases hin : ((i + 1) * dd.blockSize : ℕ) ≤ dd.size
    · have hread : ∀ buf : Bytes, buf.length = dd.blockSize →
          (dd'.readBlock i buf = dd.readBlock i buf ↔
            dd'.blockStore.getBlock id' buf = dd.blockStore.getBlock dedupID buf) := by
        intro buf hbuf
        rw [readBlock_eq_fetched hm.opened hm.pos hsize hid hin hbuf,
          readBlock_eq_fetched hopen' (h.blockSize_eq ▸ hm.pos) (h.size_eq ▸ hsize) hid'
            (by rwa [h.blockSize_eq, h.size_eq]) (hbuf.trans h.blockSize_eq.symm),
          h.blockSize_eq, (fetched_injective _).eq_iff]
      constructor
      · intro hsame i₁ i₂ h₁ h₂ _ buf hbuf
        obtain rfl := Option.some.inj h₁
        obtain rfl := Option.some.inj (hid'.symm.trans h₂)
        exact (hread buf hbuf).mp (hsame buf hbuf)
      · intro hsame buf hbuf
        exact (hread buf hbuf).mpr (hsame dedupID id' rfl hid' hin buf hbuf)
    · refine iff_of_true (fun buf hbuf => ?_) (fun _ _ _ _ h => absurd h hin)
      rw [readBlock_of_end hm.opened hmax (not_le.mp hin) hbuf,
        readBlock_of_end hopen' (by rwa [h.blockSize_eq])
          (by rw [h.blockSize_eq, h.size_eq]; omega) (hbuf.trans h.blockSize_eq.symm)]

/-- A block that was left alone, and whose id is settled, reads as before. -/
lemma Untouched.readBlock (h : dd.Untouched dd' block n) (hm : dd.Mounted)
    (hsize : dd.size ≤ maxOffset) (hstore : dd.blockStore.blockSize = dd.blockSize) {i : ℕ}
    (hi : i < block ∨ block + n ≤ i)
    (hset : ∀ dedupID, dd.lunMap.ids[i]? = some dedupID → dd.blockStore.Settled dedupID)
    {buf : Bytes} (hbuf : buf.length = dd.blockSize) :
    dd'.readBlock i buf = dd.readBlock i buf := by
  refine (h.readBlock_iff hm hsize).mpr (fun dedupID id' hid hid' _ buf hbuf => ?_) buf hbuf
  obtain rfl := Option.some.inj (hid.symm.trans ((h.ids_eq i hi).symm.trans hid'))
  exact h.store.getBlock hm.idle (hset dedupID hid) (hbuf.trans hstore.symm)

/-- In a disk that was opened on empty files every entry of the map is settled. -/
lemma Refines.settled {written : Set Bytes} {disk : List Bytes} (h : Refines sha1 written dd disk)
    {i dedupID : ℕ} (hid : dd.lunMap.ids[i]? = some dedupID) :
    dd.blockStore.Settled dedupID := by
  have hi : i < disk.length := by
    rw [h.length_eq]
    exact (List.getElem?_eq_some_iff.mp hid).1
  rcases h.holds i dedupID _ hid (List.getElem?_eq_getElem hi) with ⟨hzero, -⟩ | hstored
  · exact Or.inl hzero
  · have hmul : (dedupID + 1) * dd.blockStore.blockSize ≤
        dd.blockStore.nextID * dd.blockStore.blockSize := Nat.mul_le_mul_right _ hstored.lt
    have hle : dedupID * dd.blockStore.blockSize + dd.blockStore.blockSize ≤
        dd.blockStore.file.length := hstored.le_file
    have hmax : dedupID * dd.blockStore.blockSize + dd.blockStore.blockSize ≤ maxOffset :=
      hstored.le_max
    have htied : dd.blockStore.nextPos = dd.blockStore.nextID * dd.blockStore.blockSize := h.tied
    refine Or.inr fun _ => ?_
    rw [place_of_le (by omega)]
    rw [Nat.succ_mul] at hmul
    omega

end DedupDisk

/-! ## Requests -/

/-- The request does not concern the block: it lies before the first byte or behind the last. -/
def Request.Outside (req : Request) (blockSize i : ℕ) : Prop :=
  ((i + 1) * blockSize : ℕ) ≤ req.pos ∨ req.pos + req.count ≤ (i * blockSize : ℕ)

lemma Request.Aligned.exists_blocks {req : Request} {blockSize : ℕ} (h : req.Aligned blockSize)
    (hpos : 0 ≤ req.pos) : ∃ block n : ℕ, req.pos = (block * blockSize : ℕ) ∧
      req.count = n * blockSize := by
  obtain ⟨p, hp⟩ := Int.eq_ofNat_of_zero_le hpos
  obtain ⟨hposmod, hcountmod⟩ := h
  rw [hp, ← Int.ofNat_tmod] at hposmod
  rw [← Int.ofNat_tmod] at hcountmod
  obtain ⟨block, hblock⟩ := Nat.dvd_of_mod_eq_zero (Int.ofNat_eq_zero.mp hposmod)
  obtain ⟨n, hn⟩ := Nat.dvd_of_mod_eq_zero (Int.ofNat_eq_zero.mp hcountmod)
  refine ⟨block, n, ?_, by rw [hn, Nat.mul_comm]⟩
  rw [hp, hblock, Nat.mul_comm]

/-- The write returns, and every block outside the request reads as before. -/
def DedupDisk.Frames (sha1 : Bytes → Bytes) (dd : DedupDisk) (req : Request) (data : Bytes)
    (faults : List BlockFaults) : Prop :=
  ∃ r dd', dd.writeAt sha1 data req.pos faults = .ok (r, dd') ∧
    ∀ (i : ℕ) (buf : Bytes), req.Outside dd.blockSize i → buf.length = dd.blockSize →
      dd'.readBlock i buf = dd.readBlock i buf

section Requests

variable {sha1 : Bytes → Bytes} {dd : DedupDisk} {req : Request} {block n : ℕ}

lemma Request.outside_iff {blockSize i : ℕ} (hbs : 0 < blockSize)
    (hblock : req.pos = (block * blockSize : ℕ)) (hn : req.count = n * blockSize) :
    req.Outside blockSize i ↔ i < block ∨ block + n ≤ i := by
  rw [Outside, hblock, hn, DedupDisk.pos_add_blocks, Nat.cast_le, Nat.cast_le,
    Nat.mul_le_mul_right_iff hbs, Nat.mul_le_mul_right_iff hbs]
  rfl

/-- A read returns unless it is one of the first block behind the map. -/
lemma DedupDisk.readAt_frame (hm : dd.Mounted) (hsize : dd.size ≤ maxOffset)
    (hend : ((block + n) * dd.blockSize : ℕ) ≤ dd.size) {buf : Bytes}
    (hbuf : buf.length = n * dd.blockSize) :
    (∃ r, dd.readAt buf ((block * dd.blockSize : ℕ) : ℤ) = .ok r) ↔
      ¬ (buf.length ≤ dd.blockSize ∧ block = dd.lunMap.ids.length) := by
  have hblock := blockAt_natCast_mul hm.pos block
  have hcarry : dd.blockAt ((block * dd.blockSize : ℕ) : ℤ) + buf.length / dd.blockSize <
      2 ^ 64 := by
    rw [hblock, hbuf, Nat.mul_div_cancel _ hm.pos]
    have hle := Nat.le_mul_of_pos_right (block + n) hm.pos
    have hmax := Int.ofNat_le.mp (hend.trans hsize)
    rw [maxOffset] at hmax
    omega
  have hiff := readAt_of_passes hm (passes_of_le hsize hend hbuf) hcarry (Nat.mul_mod_left ..)
    (by rw [hbuf, Nat.mul_mod_left])
  rw [hblock] at hiff
  refine Iff.trans ⟨?_, ?_⟩ hiff
  · rintro ⟨⟨got, k, err⟩, hread⟩
    refine ⟨got, k, err, hread, fun hout => absurd (Or.inr ⟨Int.natCast_nonneg _, ?_⟩) hout⟩
    rw [hbuf, pos_add_blocks]
    omega
  · rintro ⟨got, k, err, hread, -⟩
    exact ⟨_, hread⟩

section Frames

variable (hm : dd.Mounted) (hstore : dd.blockStore.blockSize = dd.blockSize)
  (hsize : dd.size ≤ maxOffset)

include hm hstore hsize

/-- A write with a block behind the map does not return. -/
lemma DedupDisk.writeAt_behind (hn : 0 < n) (hend : ((block + n) * dd.blockSize : ℕ) ≤ dd.size)
    {buf : Bytes} (hbuf : buf.length = n * dd.blockSize)
    (hroom : dd.blockStore.nextPos + buf.length ≤ maxOffset)
    (hout : dd.lunMap.ids.length < block + n) :
    dd.writeAt sha1 buf ((block * dd.blockSize : ℕ) : ℤ) [] = .error .panic := by
  have hmax : (block + n) * dd.blockSize ≤ maxOffset := Int.ofNat_le.mp (hend.trans hsize)
  have hpos : IsInt64 ((block * dd.blockSize : ℕ) : ℤ) :=
    isInt64_natCast ((Nat.mul_le_mul_right _ (Nat.le_add_right ..)).trans hmax)
  refine writeAt_panics hm hpos ?_ hstore hroom ?_
  · rw [hbuf, ← Int.ofNat_tmod, Nat.mul_mod_left]
    rfl
  · -- the first block behind the map, or the first of all
    have hstray : ∀ i, i < n → dd.lunMap.ids.length ≤ block + i →
        dd.StrayBlock dd.blockSize
          (wrapInt64 (((block * dd.blockSize : ℕ) : ℤ) + i * dd.blockSize)) := by
      intro i hi hids
      have hle : (block + i + 1) * dd.blockSize ≤ (block + n) * dd.blockSize :=
        Nat.mul_le_mul_right _ (by omega)
      have hfits : (block + i) * dd.blockSize ≤ maxOffset :=
        ((Nat.mul_le_mul_right _ (Nat.le_succ _)).trans hle).trans hmax
      rw [← Nat.cast_mul, pos_add_blocks, wrapInt64_of_isInt64 (isInt64_natCast hfits)]
      refine ⟨passes_of_le hsize (n := 1) ((Int.ofNat_le.mpr hle).trans hend) (by simp), ?_, ?_⟩
      · rwa [blockAt_natCast_mul hm.pos]
      · rw [blockAt_natCast_mul hm.pos, ← hm.size_eq]
        obtain ⟨size, hnat⟩ := Int.eq_ofNat_of_zero_le ((Int.natCast_nonneg _).trans hend)
        rw [hnat] at hend hsize ⊢
        rw [toUint64_natCast (Int.ofNat_le.mp hsize)]
        have hself := Nat.le_mul_of_pos_right (block + i) hm.pos
        exact hself.trans (((Nat.mul_le_mul_right _ (by omega)).trans (Int.ofNat_le.mp hend)))
    have hfirst := hstray (dd.lunMap.ids.length - block) (by omega) (by omega)
    rw [stray_write_iff hpos hm.pos (passes_of_le hsize hend hbuf)]
    split_ifs with hmulti
    · refine ⟨_, ?_, hfirst⟩
      rw [hbuf, Nat.mul_div_cancel _ hm.pos]
      omega
    · obtain rfl := eq_one_of_short hn hbuf hm.pos hmulti
      rw [show dd.lunMap.ids.length - block = 0 by omega, wrapInt64_zero hpos] at hfirst
      rwa [hbuf, Nat.one_mul]

/-- A write of no bytes leaves everything as it was exactly if the block at its position has an
entry and reads as zeros, or is not on the disk. -/
lemma DedupDisk.frames_nil_iff (hblock : req.pos = (block * dd.blockSize : ℕ))
    (hcount : req.count = 0) (hend : ((block * dd.blockSize : ℕ) : ℤ) ≤ dd.size) :
    dd.Frames sha1 req [] [] ↔ block < dd.lunMap.ids.length ∧
      (((block + 1) * dd.blockSize : ℕ) ≤ dd.size → ∀ dedupID,
        dd.lunMap.ids[block]? = some dedupID → dd.blockStore.Clear dedupID) := by
  have hwrite : dd.writeAt sha1 [] req.pos [] = _ := hblock ▸ writeAt_nil hm hsize hend
  by_cases hlt : block < dd.lunMap.ids.length
  · rw [if_pos hlt] at hwrite
    simp only [hlt, true_and]
    have hchange : dd.Untouched { dd with lunMap := { dd.lunMap with
        ids := dd.lunMap.ids.set block zeroBlockID } } block 1 :=
      ⟨rfl, rfl, rfl, List.length_set, fun i hi => List.getElem?_set_ne (by omega), .refl _⟩
    have hkept : ∀ i, i ≠ block → ∀ buf : Bytes, buf.length = dd.blockSize →
        DedupDisk.readBlock { dd with lunMap := { dd.lunMap with
          ids := dd.lunMap.ids.set block zeroBlockID } } i buf = dd.readBlock i buf := by
      intro i hi
      refine (hchange.readBlock_iff hm hsize).mpr fun dedupID id' hid hid' _ buf _ => ?_
      rw [List.getElem?_set_ne hi.symm, hid] at hid'
      rw [Option.some.inj hid']
    have hself := hchange.readBlock_iff hm hsize (i := block)
    have hout : req.Outside dd.blockSize block := Or.inr (by rw [hblock, hcount]; simp)
    constructor
    · rintro ⟨r, dd', hr, hframe⟩ hin dedupID hid
      obtain ⟨-, rfl⟩ := Prod.mk.inj (Except.ok.inj (hwrite.symm.trans hr))
      refine (FileBlockStore.getBlock_eq_zeros_iff hm.idle).mp fun buf hbuf => ?_
      exact hself.mp (fun buf hbuf => hframe block buf hout hbuf) dedupID zeroBlockID hid
        (by simp [hlt]) hin buf (hbuf.trans hstore)
    · intro hclear
      refine ⟨_, _, hwrite, fun i buf _ hbuf => ?_⟩
      by_cases hi : i = block
      · subst hi
        refine hself.mpr (fun dedupID id' hid hid' hin buf hbuf => ?_) buf hbuf
        obtain rfl : zeroBlockID = id' := by simpa [hlt] using hid'
        exact (FileBlockStore.getBlock_eq_zeros_iff hm.idle).mpr (hclear hin dedupID hid) buf
          (hbuf.trans hstore.symm)
      · exact hkept i hi buf hbuf
  · rw [if_neg hlt] at hwrite
    refine iff_of_false ?_ fun h => hlt h.1
    rintro ⟨r, dd', hr, -⟩
    rw [hwrite] at hr
    cases hr

/-- A write of blocks leaves the others as they were exactly if its own have entries, and those of
the others survive what it puts into the block file. -/
lemma DedupDisk.frames_iff (hblock : req.pos = (block * dd.blockSize : ℕ))
    (hcount : req.count = n * dd.blockSize) (hn : 0 < n)
    (hend : ((block + n) * dd.blockSize : ℕ) ≤ dd.size) {data : Bytes}
    (hdata : data.length = n * dd.blockSize)
    (hroom : dd.blockStore.nextPos + data.length ≤ maxOffset) :
    dd.Frames sha1 req data [] ↔ block + n ≤ dd.lunMap.ids.length ∧
      ∀ i dedupID, dd.lunMap.ids[i]? = some dedupID → ((i + 1) * dd.blockSize : ℕ) ≤ dd.size →
        req.Outside dd.blockSize i →
          dd.blockStore.Keeps (newBytes sha1 dd.blockSize n dd.known data) dedupID := by
  by_cases hin : block + n ≤ dd.lunMap.ids.length
  · obtain ⟨r, dd', hwrite, h, hputs⟩ :=
      writeAt_spares sha1 hm hstore hsize hn hend hin hdata []
    have hputs := hputs rfl hroom
    have hidle' := h.store.pendingWrites_eq hm.idle
    have hids : ∀ i dedupID, req.Outside dd.blockSize i → dd.lunMap.ids[i]? = some dedupID →
        dd'.lunMap.ids[i]? = some dedupID := fun i dedupID hi hid =>
      (h.ids_eq i ((Request.outside_iff hm.pos hblock hcount).mp hi)).trans hid
    simp only [hin, true_and]
    rw [← hblock] at hwrite
    constructor
    · rintro ⟨r', dd₁, hr, hframe⟩ i dedupID hid hon hi
      obtain ⟨-, rfl⟩ := Prod.mk.inj (Except.ok.inj (hwrite.symm.trans hr))
      refine (hputs.getBlock_iff hm.idle hidle').mp fun buf hbuf => ?_
      exact (h.readBlock_iff hm hsize).mp (fun buf hbuf => hframe i buf hi hbuf) dedupID dedupID hid
        (hids i dedupID hi hid) hon buf (hbuf.trans hstore)
    · intro hkeeps
      refine ⟨r, dd', hwrite, fun i buf hi hbuf => ?_⟩
      refine (h.readBlock_iff hm hsize).mpr (fun dedupID id' hid hid' hon buf hbuf => ?_) buf hbuf
      obtain rfl := Option.some.inj ((hids i dedupID hi hid).symm.trans hid')
      exact (hputs.getBlock_iff hm.idle hidle').mpr (hkeeps i dedupID hid hon hi) buf
        (hbuf.trans hstore.symm)
  · refine iff_of_false ?_ fun h => hin h.1
    rintro ⟨r, dd', hr, -⟩
    rw [hblock, writeAt_behind hm hstore hsize hn hend hdata hroom (not_le.mp hin)] at hr
    cases hr

end Frames

end Requests

/-- For every open dedup disk, and every request that is aligned and in range:

* a read returns exactly unless it asks for the first block behind the map alone;
* a write of no bytes returns and leaves every block as it was exactly if the block at its position
  has an entry and, if it is on the disk, reads as zeros;
* a write of data, without faults and with room in the block file, returns and leaves every block
  outside the request as it was exactly if its blocks have entries and the new ones among them leave
  alone what the entries of the other blocks stand for;
* with any faults, it does so if the blocks of the other entries lie before the next position. -/
theorem dedup_request_frame (sha1 : Bytes → Bytes) (dd : DedupDisk) (req : Request)
    (hm : dd.Mounted) (hstore : dd.blockStore.blockSize = dd.blockSize)
    (hsize : dd.size ≤ maxOffset) (haligned : req.Aligned dd.blockSize) (hpos : 0 ≤ req.pos)
    (hend : req.pos + req.count ≤ dd.size) :
    (∀ buf : Bytes, buf.length = req.count → ((∃ r, dd.readAt buf req.pos = .ok r) ↔
        ¬ (req.count ≤ dd.blockSize ∧ dd.blockAt req.pos = dd.lunMap.ids.length))) ∧
      (req.count = 0 → (dd.Frames sha1 req [] [] ↔
        dd.blockAt req.pos < dd.lunMap.ids.length ∧ (req.pos + dd.blockSize ≤ dd.size →
          ∀ dedupID, dd.lunMap.ids[dd.blockAt req.pos]? = some dedupID →
            dd.blockStore.Clear dedupID))) ∧
      (0 < req.count → ∀ data : Bytes, data.length = req.count →
        (dd.blockStore.nextPos + data.length ≤ maxOffset → (dd.Frames sha1 req data [] ↔
          dd.blockAt req.pos + req.count / dd.blockSize ≤ dd.lunMap.ids.length ∧
            ∀ i dedupID, dd.lunMap.ids[i]? = some dedupID →
              ((i + 1) * dd.blockSize : ℕ) ≤ dd.size → req.Outside dd.blockSize i →
                dd.blockStore.Keeps (DedupDisk.newBytes sha1 dd.blockSize
                  (req.count / dd.blockSize) dd.known data) dedupID)) ∧
        (dd.blockAt req.pos + req.count / dd.blockSize ≤ dd.lunMap.ids.length →
          (∀ i dedupID, dd.lunMap.ids[i]? = some dedupID → req.Outside dd.blockSize i →
            dd.blockStore.Settled dedupID) →
          ∀ faults, dd.Frames sha1 req data faults)) := by
  obtain ⟨block, n, hblock, hn⟩ := haligned.exists_blocks hpos
  have hbs := hm.pos
  have hat : dd.blockAt req.pos = block := hblock ▸ DedupDisk.blockAt_natCast_mul hbs block
  have hdiv : req.count / dd.blockSize = n := by rw [hn, Nat.mul_div_cancel _ hbs]
  have hend' : ((block + n) * dd.blockSize : ℕ) ≤ dd.size := by
    rwa [hblock, hn, DedupDisk.pos_add_blocks] at hend
  rw [hat, hdiv]
  refine ⟨fun buf hbuf => ?_, fun hcount => ?_, fun hcount data hdata => ⟨fun hroom => ?_,
    fun hin hset faults => ?_⟩⟩
  · rw [hblock, ← hbuf]
    exact DedupDisk.readAt_frame hm hsize hend' (hbuf.trans hn)
  · have hnext : req.pos + dd.blockSize = ((block + 1) * dd.blockSize : ℕ) := by
      rw [hblock, ← DedupDisk.pos_add_blocks, Nat.one_mul]
    rw [hnext]
    refine DedupDisk.frames_nil_iff hm hstore hsize hblock hcount ?_
    rw [← hblock]
    omega
  · have hnpos : 0 < n := Nat.pos_of_mul_pos_right (hn ▸ hcount)
    exact DedupDisk.frames_iff hm hstore hsize hblock hn hnpos hend' (hdata.trans hn) hroom
  · have hnpos : 0 < n := Nat.pos_of_mul_pos_right (hn ▸ hcount)
    obtain ⟨r, dd', hwrite, h, -⟩ := DedupDisk.writeAt_spares sha1 hm hstore hsize hnpos hend' hin
      (hdata.trans hn) faults
    refine ⟨r, dd', hblock ▸ hwrite, fun i buf hi hbuf => ?_⟩
    exact h.readBlock hm hsize hstore ((Request.outside_iff hbs hblock hn).mp hi)
      (fun dedupID hid => hset i dedupID hid hi) hbuf

def writeRequest (pos : ℤ) (data : Bytes) : Request where
  reqType := nbdWrite
  handle := zeros ndbHandleLen
  pos := pos
  count := data.length
  writeBuffer := data
  handle_length := length_zeros _

/-- A new disk of two blocks of two bytes. -/
def freshTwoBlocks : DedupDisk :=
  newDedupDisk ⟨[zeroBlockID, zeroBlockID], 4⟩ newPebbleIDStore (newFileBlockStore [] 2) 2

/-- A disk over the block file of an earlier session, in which block 0 has been written. -/
def reopenedTwoBlocks : DedupDisk :=
  newDedupDisk ⟨[0, zeroBlockID], 4⟩ newPebbleIDStore (newFileBlockStore [5, 6] 2) 2

/-- A write of the first block of a new disk leaves the second alone.  On the reopened one, where a
new block would be put over the first, a write of zeros does. -/
theorem dedup_request_frame_fresh :
    freshTwoBlocks.Frames id (writeRequest 0 [5, 6]) [5, 6] [] ∧
      reopenedTwoBlocks.Frames id (writeRequest 2 [0, 0]) [0, 0] [] ∧
      ∃ r, reopenedTwoBlocks.readAt [9, 9, 9, 9] 0 = .ok r := by
  have hrefines : DedupDisk.Refines id Set.univ freshTwoBlocks (List.replicate 2 (zeros 2)) :=
    DedupDisk.refines_fresh (by decide) (show 4 ≤ maxOffset by decide) rfl
  have hfresh : freshTwoBlocks.Mounted := ⟨rfl, by decide, rfl, by decide, rfl⟩
  have hreopened : reopenedTwoBlocks.Mounted := ⟨rfl, by decide, rfl, by decide, rfl⟩
  obtain ⟨-, -, hwrite⟩ := dedup_request_frame id freshTwoBlocks (writeRequest 0 [5, 6]) hfresh rfl
    (by decide) (by decide) (by decide) (by decide)
  obtain ⟨-, -, hzeros⟩ := dedup_request_frame id reopenedTwoBlocks (writeRequest 2 [0, 0])
    hreopened rfl (by decide) (by decide) (by decide) (by decide)
  obtain ⟨hread, -, -⟩ := dedup_request_frame id reopenedTwoBlocks (writeRequest 0 [9, 9, 9, 9])
    hreopened rfl (by decide) (by decide) (by decide) (by decide)
  exact ⟨(hwrite (by decide) [5, 6] rfl).2 (by decide) (fun _ _ hid _ => hrefines.settled hid) [],
    ((hzeros (by decide) [0, 0] rfl).1 (by decide)).mpr ⟨by decide, fun _ _ _ _ _ => rfl⟩,
    (hread [9, 9, 9, 9] rfl).mpr (by decide)⟩

/-- Three requests that are aligned and in range.  An empty write clears the block at its position,
and at the end of the disk it panics, as an empty read does.  On a map opened again with a larger
size a read of the second block panics.  On a block store opened again a write of the second block
is also one of the first. -/
theorem dedup_request_leaves_frame :
    (∃ dd dd', freshTwoBlocks.writeAt id [5, 6] 0 [] = .ok ((2, none), dd) ∧
        (writeRequest 0 []).Aligned 2 ∧ (writeRequest 0 []).Outside 2 0 ∧
        dd.writeAt id [] 0 [] = .ok ((0, none), dd') ∧
        dd.readBlock 0 [9, 9] = .ok ([5, 6], 2, none) ∧
        dd'.readBlock 0 [9, 9] = .ok ([0, 0], 2, none)) ∧
      freshTwoBlocks.readAt [] 4 = .error .panic ∧
      (∃ stop, freshTwoBlocks.writeAt id [] 4 [] = .error stop) ∧
      (newDedupDisk ⟨[zeroBlockID], 4⟩ newPebbleIDStore (newFileBlockStore [] 2) 2).readAt
        [9, 9] 2 = .error .panic ∧
      ∃ dd', reopenedTwoBlocks.writeAt id [7, 8] 2 [] = .ok ((2, none), dd') ∧
        (writeRequest 2 [7, 8]).Outside 2 0 ∧ dd'.readBlock 0 [9, 9] = .ok ([7, 8], 2, none) := by
  refine ⟨⟨_, _, rfl, by decide, Or.inr (by decide), rfl, ?_, ?_⟩, ?_, ⟨.panic, rfl⟩, ?_,
    _, rfl, Or.inl (by decide), ?_⟩
  all_goals decide +kernel

end Usbd
