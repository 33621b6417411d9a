import Usbd.Runtime.File

/-!
# The file-backed block store

`fileBlockStore` keeps deduplicated blocks in one file, addressed by an id: the bytes of block
`id` are expected at position `id * blockSize`.  Two counters say where the next block goes,
`nextID` for its id and `nextPos` for the position it is written at, and nothing but the code ties
them together: `PutBlock` advances both, while the constructor recovers only `nextID` from the
size of the file it opens.

The model follows the source call by call.  `PutBlock` is its three stages — `allocate` under the
lock, the file write outside it, `complete` under the lock again — and a file write may fail after
any number of bytes.  A `GetBlock` that meets a pending write of its block parks on the condition
variable; that outcome is `none`.

The counters are natural numbers.  Ids are handed out one by one, so that they leave the 64-bit
range only after `2 ^ 64 / blockSize` calls; a write whose end is not a file position fails.

The persistence statement is about whole runs of `PutBlock` and close-and-reopen steps
(`BlockRun`).  It holds as long as every block is written while the counters agree (`Tied`), and a
block written while they disagree cannot be read back.
-/

namespace Usbd

open ListMemory

/-! ## The store -/

/-- The reserved id of the all-zero block, `math.MaxUint64`. -/
def zeroBlockID : ℕ := 2 ^ 64 - 1

/-- A block store over one file.  `pendingWrites` lists the ids whose write is in progress. -/
structure FileBlockStore where
  file : Bytes
  pendingWrites : List ℕ
  nextID : ℕ
  nextPos : ℕ
  blockSize : ℕ
  deriving DecidableEq, Repr

/-- `NewFileBlockStore`, for blocks of some bytes: the next id is recovered from the size of the
file.  The next position is left at its zero value. -/
def newFileBlockStore (file : Bytes) (blockSize : ℕ) : FileBlockStore where
  file := file
  pendingWrites := []
  nextID := file.length / blockSize
  nextPos := 0
  blockSize := blockSize

namespace FileBlockStore

/-- The position `GetBlock` reads at: an unsigned 64-bit product, taken for a signed number. -/
def place (fbs : FileBlockStore) (dedupID : ℕ) : ℤ :=
  wrapInt64 ((dedupID * fbs.blockSize : ℕ) : ℤ)

/-- `GetBlock` into `buf`: `none` when the call waits for a pending write, otherwise the buffer
and the error. -/
def getBlock (fbs : FileBlockStore) (dedupID : ℕ) (buf : Bytes) :
    Option (Bytes × Option GoError) :=
  if dedupID = zeroBlockID then some (goCopy buf (zeros fbs.blockSize), none)
  else if dedupID ∈ fbs.pendingWrites then none
  else
    let got := fileReadAt fbs.file buf.length (fbs.place dedupID)
    some (goCopy buf got.1, got.2)

/-- The first critical section of `PutBlock`: take the position and the id, mark the id pending. -/
def allocate (fbs : FileBlockStore) : (ℕ × ℕ) × FileBlockStore :=
  ((fbs.nextPos, fbs.nextID),
    { fbs with
      nextPos := fbs.nextPos + fbs.blockSize
      nextID := fbs.nextID + 1
      pendingWrites := fbs.nextID :: fbs.pendingWrites })

/-- The file write of `PutBlock`. -/
def write (fbs : FileBlockStore) (buf : Bytes) (pos : ℕ) (fault : Option ℕ) :
    Option GoError × FileBlockStore :=
  ((fileWriteAt fbs.file buf pos fault).2.2,
    { fbs with file := (fileWriteAt fbs.file buf pos fault).1 })

/-- The second critical section of `PutBlock`: the id is no longer pending. -/
def complete (fbs : FileBlockStore) (dedupID : ℕ) : FileBlockStore :=
  { fbs with pendingWrites := fbs.pendingWrites.filter (· != dedupID) }

/-- `PutBlock`: the id of the stored block, or the error of the file write. -/
def putBlock (fbs : FileBlockStore) (buf : Bytes) (fault : Option ℕ) :
    Except GoError ℕ × FileBlockStore :=
  let ((pos, dedupID), fbs) := fbs.allocate
  let (err, fbs) := fbs.write buf pos fault
  let fbs := fbs.complete dedupID
  match err with
  | some e => (.error e, fbs)
  | none => (.ok dedupID, fbs)

/-! ### What one call does -/

/-- The file write of a `PutBlock` goes through: it is not made to fail, and it ends at a file
position. -/
def Fits (fbs : FileBlockStore) (buf : Bytes) (fault : Option ℕ) : Prop :=
  fault = none ∧ fbs.nextPos + buf.length ≤ maxOffset

instance (fbs : FileBlockStore) (buf : Bytes) (fault : Option ℕ) :
    Decidable (fbs.Fits buf fault) :=
  inferInstanceAs (Decidable (_ ∧ _))

/-- The store after a `PutBlock`, with `written` the part of the block that reached the file. -/
def afterPut (fbs : FileBlockStore) (written : Bytes) : FileBlockStore :=
  { fbs with
    file := overwrite 0 fbs.file fbs.nextPos written
    nextPos := fbs.nextPos + fbs.blockSize
    nextID := fbs.nextID + 1
    pendingWrites := fbs.pendingWrites.filter (· != fbs.nextID) }

variable {fbs : FileBlockStore} {buf : Bytes} {fault : Option ℕ} {dedupID : ℕ}

lemma putBlock_of_fits (h : fbs.Fits buf fault) :
    fbs.putBlock buf fault = (.ok fbs.nextID, fbs.afterPut buf) := by
  obtain ⟨rfl, hle⟩ := h
  simp [putBlock, allocate, write, complete, afterPut, fileWriteAt_ok hle]

/-- A `PutBlock` whose write does not go through fails, with some prefix of the block written. -/
lemma putBlock_of_not_fits (h : ¬ fbs.Fits buf fault) :
    ∃ e n, fbs.putBlock buf fault = (.error e, fbs.afterPut (buf.take n)) ∧
      (n = 0 ∨ fbs.nextPos + buf.length ≤ maxOffset) := by
  have herr : (fileWriteAt fbs.file buf fbs.nextPos fault).2.2 ≠ none := fun hn =>
    h (fileWriteAt_err_eq_none.mp hn)
  obtain ⟨e, he⟩ := Option.ne_none_iff_exists'.mp herr
  obtain ⟨n, hn, hle⟩ := fileWriteAt_file fbs.file buf fbs.nextPos fault
  exact ⟨e, n, by simp [putBlock, allocate, write, complete, afterPut, he, hn], hle⟩

/-- A call that writes nothing fails and leaves the file as it is. -/
lemma putBlock_of_silent (h : fault = some 0 ∨ maxOffset < fbs.nextPos + buf.length) :
    ∃ e, fbs.putBlock buf fault = (.error e, fbs.afterPut []) := by
  by_cases hbig : maxOffset < fbs.nextPos + buf.length
  · exact ⟨errFileTooLarge, by
      simp [putBlock, allocate, write, complete, afterPut, fileWriteAt_natCast, hbig]⟩
  · obtain rfl := h.resolve_right hbig
    exact ⟨errInputOutput, by
      simp [putBlock, allocate, write, complete, afterPut, fileWriteAt_natCast, hbig]⟩

lemma place_of_le (h : dedupID * fbs.blockSize ≤ maxOffset) :
    fbs.place dedupID = ((dedupID * fbs.blockSize : ℕ) : ℤ) :=
  wrapInt64_of_isInt64 (isInt64_natCast h)

lemma getBlock_of_le (hz : dedupID ≠ zeroBlockID) (hp : dedupID ∉ fbs.pendingWrites)
    (hbuf : buf.length = fbs.blockSize)
    (hle : dedupID * fbs.blockSize + fbs.blockSize ≤ fbs.file.length)
    (hmax : dedupID * fbs.blockSize + fbs.blockSize ≤ maxOffset) :
    fbs.getBlock dedupID buf =
      some (slice fbs.file (dedupID * fbs.blockSize) fbs.blockSize, none) := by
  have hread : fileReadAt fbs.file buf.length ((dedupID * fbs.blockSize : ℕ) : ℤ) =
      (slice fbs.file (dedupID * fbs.blockSize) buf.length, none) :=
    fileReadAt_of_le (by omega)
  have hlen : (slice fbs.file (dedupID * fbs.blockSize) buf.length).length = buf.length :=
    length_slice_of_le (by omega)
  have hplace : fbs.place dedupID = ((dedupID * fbs.blockSize : ℕ) : ℤ) := place_of_le (by omega)
  simp only [getBlock, if_neg hz, if_neg hp, hplace, hread]
  rw [goCopy_of_length_eq hlen, hbuf]

/-- A block that reaches past the end of the file cannot be read, at its position or, where the
product does not fit, at a negative one. -/
lemma getBlock_of_lt {buf data : Bytes} (hz : dedupID ≠ zeroBlockID) (hpos : 0 < buf.length)
    (hlt : fbs.file.length < dedupID * fbs.blockSize + buf.length)
    (hmax : dedupID * fbs.blockSize < 2 ^ 64) :
    fbs.getBlock dedupID buf ≠ some (data, none) := by
  have herr : (fileReadAt fbs.file buf.length (fbs.place dedupID)).2 ≠ none := by
    by_cases hfits : dedupID * fbs.blockSize ≤ maxOffset
    · rw [place_of_le hfits, (fileReadAt_of_lt hlt).resolve_right (by omega)]
      simp
    · rw [place, wrapInt64_of_overflow (by omega) (by omega), fileReadAt, if_pos (by omega)]
      simp
  rw [getBlock, if_neg hz]
  split_ifs
  · simp
  · intro h
    simp only [Option.some.injEq, Prod.mk.injEq] at h
    exact herr h.2

lemma getBlock_zeroBlockID (hbuf : buf.length = fbs.blockSize) :
    fbs.getBlock zeroBlockID buf = some (zeros fbs.blockSize, none) := by
  rw [getBlock, if_pos rfl, goCopy_of_length_eq (by simp [hbuf])]

/-- The two counters agree: the next block is written where its id says it is. -/
def Tied (fbs : FileBlockStore) : Prop := fbs.nextPos = fbs.nextID * fbs.blockSize

instance (fbs : FileBlockStore) : Decidable fbs.Tied := inferInstanceAs (Decidable (_ = _))

lemma tied_newFileBlockStore {file : Bytes} {blockSize : ℕ} (h : file.length < blockSize) :
    (newFileBlockStore file blockSize).Tied := by
  simp [Tied, newFileBlockStore, Nat.div_eq_of_lt h]

/-! ### Stored blocks -/

/-- A block lies in the file at the position its id says, below the next id. -/
structure Stored (fbs : FileBlockStore) (a : ℕ × Bytes) : Prop where
  lt : a.1 < fbs.nextID
  le_file : a.1 * fbs.blockSize + fbs.blockSize ≤ fbs.file.length
  le_max : a.1 * fbs.blockSize + fbs.blockSize ≤ maxOffset
  bytes : slice fbs.file (a.1 * fbs.blockSize) fbs.blockSize = a.2

lemma ne_zeroBlockID {id bs : ℕ} (hbs : 0 < bs) (h : id * bs + bs ≤ maxOffset) :
    id ≠ zeroBlockID := by
  have h1 : id * 1 ≤ id * bs := Nat.mul_le_mul_left id hbs
  have h2 : maxOffset < zeroBlockID := by decide
  omega

/-- A block stored below the next id survives a write at the next position. -/
lemma Stored.afterPut {a : ℕ × Bytes} (h : Stored fbs a) {w : Bytes} (hw : w = [] ∨ fbs.Tied) :
    Stored (fbs.afterPut w) a where
  lt := Nat.lt_succ_of_lt h.lt
  le_file := h.le_file.trans (length_le_length_overwrite 0 fbs.file fbs.nextPos w)
  le_max := h.le_max
  bytes := by
    rcases hw with rfl | hw
    · exact h.bytes
    · have hle : a.1 * fbs.blockSize + fbs.blockSize ≤ fbs.nextPos := by
        rw [hw, ← Nat.succ_mul]
        exact Nat.mul_le_mul_right _ h.lt
      rw [← h.bytes]
      exact slice_overwrite_of_disjoint 0 h.le_file (Or.inl hle)

lemma stored_afterPut_self {b : Bytes} (hpos : 0 < fbs.blockSize) (hb : b.length = fbs.blockSize)
    (ht : fbs.Tied) (hle : fbs.nextPos + b.length ≤ maxOffset) :
    Stored (fbs.afterPut b) (fbs.nextID, b) := by
  have hne : b ≠ [] := by
    rintro rfl
    simp at hb
    omega
  refine ⟨Nat.lt_succ_self _, ?_, ?_, ?_⟩
  · have hlen := length_overwrite (0 : UInt8) fbs.file fbs.nextPos hne
    simp only [afterPut]
    rw [← ht, hlen, hb]
    omega
  · simp only [afterPut]
    rw [← ht, ← hb]
    exact hle
  · have hself := slice_overwrite_self (0 : UInt8) fbs.file fbs.nextPos b
    simp only [afterPut]
    rw [← ht, ← hb]
    exact hself

lemma Tied.afterPut (h : fbs.Tied) (w : Bytes) : (fbs.afterPut w).Tied := by
  simp only [Tied, FileBlockStore.afterPut] at h ⊢
  rw [h, Nat.succ_mul]

lemma Stored.getBlock {a : ℕ × Bytes} (h : Stored fbs a) (hpos : 0 < fbs.blockSize)
    (hidle : fbs.pendingWrites = []) (hbuf : buf.length = fbs.blockSize) :
    fbs.getBlock a.1 buf = some (a.2, none) := by
  rw [getBlock_of_le (ne_zeroBlockID hpos h.le_max) (by simp [hidle]) hbuf h.le_file h.le_max,
    h.bytes]

end FileBlockStore

/-! ## Runs of puts and reopenings -/

inductive BlockOp
  /-- `PutBlock` of a block, with the fault of its file write. -/
  | put (b : Bytes) (fault : Option ℕ)
  /-- Close, and `NewFileBlockStore` on the file as the earlier writes left it. -/
  | reopen
  deriving DecidableEq, Repr

/-- A put stores a block of the given size. -/
def BlockOp.Sized (blockSize : ℕ) : BlockOp → Prop
  | .put b _ => b.length = blockSize
  | .reopen => True

/-- A run so far: the store, and every acknowledged put as its id and its block. -/
structure BlockRun where
  store : FileBlockStore
  acks : List (ℕ × Bytes)

namespace BlockRun

open FileBlockStore

def start (file : Bytes) (blockSize : ℕ) : BlockRun where
  store := newFileBlockStore file blockSize
  acks := []

def step (r : BlockRun) : BlockOp → BlockRun
  | .put b fault =>
    match r.store.putBlock b fault with
    | (.ok dedupID, store) => { store := store, acks := r.acks ++ [(dedupID, b)] }
    | (.error _, store) => { r with store := store }
  | .reopen => { r with store := newFileBlockStore r.store.file r.store.blockSize }

/-- Every acknowledged block is returned by `GetBlock` of its id, and the ids are distinct. -/
def Persistent (r : BlockRun) : Prop :=
  (∀ a ∈ r.acks, ∀ buf : Bytes, buf.length = r.store.blockSize →
    r.store.getBlock a.1 buf = some (a.2, none)) ∧ (r.acks.map Prod.fst).Nodup

/-- The bytes of every id acknowledged before are the same in two stores. -/
def SameBytes (r r' : BlockRun) : Prop :=
  ∀ a ∈ r.acks, ∀ buf : Bytes, buf.length = r.store.blockSize →
    r'.store.getBlock a.1 buf = r.store.getBlock a.1 buf

/-- Persistence at every point of a run, and no step changing the bytes of an earlier id. -/
def Throughout (r : BlockRun) : List BlockOp → Prop
  | [] => r.Persistent
  | op :: ops => r.Persistent ∧ r.SameBytes (r.step op) ∧ (r.step op).Throughout ops

/-- Every put of the run that writes to the file is made while the counters are tied. -/
def WritesTied (r : BlockRun) : List BlockOp → Prop
  | [] => True
  | op :: ops =>
    (∀ b fault, op = .put b fault →
      fault = some 0 ∨ maxOffset < r.store.nextPos + b.length ∨ r.store.Tied) ∧
    (r.step op).WritesTied ops

/-- Every put of the run that succeeds is made while the counters are tied. -/
def SuccessesTied (r : BlockRun) : List BlockOp → Prop
  | [] => True
  | op :: ops =>
    (∀ b fault, op = .put b fault → r.store.Fits b fault → r.store.Tied) ∧
    (r.step op).SuccessesTied ops

/-! ### The invariant behind persistence -/

/-- What every step keeps: no write is pending, every acknowledged block is stored, and no id was
handed out twice. -/
structure Inv (r : BlockRun) : Prop where
  pos : 0 < r.store.blockSize
  idle : r.store.pendingWrites = []
  stored : ∀ a ∈ r.acks, Stored r.store a
  nodup : (r.acks.map Prod.fst).Nodup

lemma start_inv {file : Bytes} {blockSize : ℕ} (h : 0 < blockSize) :
    (start file blockSize).Inv where
  pos := h
  idle := rfl
  stored := by simp [start]
  nodup := List.nodup_nil

lemma Inv.persistent {r : BlockRun} (h : r.Inv) : r.Persistent := by
  refine ⟨fun a ha buf hbuf => ?_, h.nodup⟩
  exact (h.stored a ha).getBlock h.pos h.idle hbuf

/-- One step keeps the invariant, provided a put that writes is made while the counters are
tied. -/
lemma Inv.step {r : BlockRun} (h : r.Inv) {op : BlockOp} (hsize : op.Sized r.store.blockSize)
    (htied : ∀ b fault, op = .put b fault →
      fault = some 0 ∨ maxOffset < r.store.nextPos + b.length ∨ r.store.Tied) :
    (r.step op).Inv := by
  cases op with
  | put b fault =>
    have hb : b.length = r.store.blockSize := hsize
    have hpend : r.store.pendingWrites.filter (· != r.store.nextID) = [] := by simp [h.idle]
    by_cases hf : r.store.Fits b fault
    · -- the write goes through: the new block lands at the position its id says
      have ht : r.store.Tied := by
        obtain ⟨rfl, hle⟩ := hf
        rcases htied b none rfl with hn | hn | hn
        · exact absurd hn (by simp)
        · omega
        · exact hn
      have hnew : Stored (r.store.afterPut b) (r.store.nextID, b) :=
        stored_afterPut_self h.pos hb ht hf.2
      simp only [BlockRun.step, FileBlockStore.putBlock_of_fits hf]
      refine ⟨h.pos, hpend, fun a ha => ?_, ?_⟩
      · rcases List.mem_append.mp ha with ha | ha
        · exact (h.stored a ha).afterPut (Or.inr ht)
        · rw [List.mem_singleton.mp ha]
          exact hnew
      · rw [List.map_append, List.nodup_append]
        refine ⟨h.nodup, List.nodup_singleton _, fun i hi j hj => ?_⟩
        obtain ⟨a, ha, rfl⟩ := List.mem_map.mp hi
        rw [List.mem_singleton.mp hj]
        exact (h.stored a ha).lt.ne
    · -- the write fails: at most a prefix of the block is on disk, past every stored block
      rcases htied b fault rfl with h0 | h0 | ht
      · obtain ⟨e, he⟩ : ∃ e, r.store.putBlock b fault = (.error e, r.store.afterPut []) :=
          FileBlockStore.putBlock_of_silent (Or.inl h0)
        simp only [BlockRun.step, he]
        exact ⟨h.pos, hpend, fun a ha => (h.stored a ha).afterPut (Or.inl rfl), h.nodup⟩
      · obtain ⟨e, he⟩ : ∃ e, r.store.putBlock b fault = (.error e, r.store.afterPut []) :=
          FileBlockStore.putBlock_of_silent (Or.inr h0)
        simp only [BlockRun.step, he]
        exact ⟨h.pos, hpend, fun a ha => (h.stored a ha).afterPut (Or.inl rfl), h.nodup⟩
      · obtain ⟨e, n, he, -⟩ := FileBlockStore.putBlock_of_not_fits hf
        simp only [BlockRun.step, he]
        exact ⟨h.pos, hpend, fun a ha => (h.stored a ha).afterPut (Or.inr ht), h.nodup⟩
  | reopen =>
    refine ⟨h.pos, rfl, fun a ha => ?_, h.nodup⟩
    have hst := h.stored a ha
    refine ⟨?_, hst.le_file, hst.le_max, hst.bytes⟩
    have hle : (a.1 + 1) * r.store.blockSize ≤ r.store.file.length := by
      rw [Nat.succ_mul]
      exact hst.le_file
    exact (Nat.le_div_iff_mul_le h.pos).mpr hle

lemma step_blockSize (r : BlockRun) (op : BlockOp) :
    (r.step op).store.blockSize = r.store.blockSize := by
  cases op with
  | put b fault =>
    by_cases hf : r.store.Fits b fault
    · simp [step, FileBlockStore.putBlock_of_fits hf, FileBlockStore.afterPut]
    · obtain ⟨e, n, he, -⟩ := FileBlockStore.putBlock_of_not_fits hf
      simp [step, he, FileBlockStore.afterPut]
  | reopen => rfl

/-- A step keeps every earlier acknowledgement. -/
lemma mem_acks_step {r : BlockRun} {op : BlockOp} {a : ℕ × Bytes} (ha : a ∈ r.acks) :
    a ∈ (r.step op).acks := by
  cases op with
  | put b fault =>
    by_cases hf : r.store.Fits b fault
    · simp [step, FileBlockStore.putBlock_of_fits hf, ha]
    · obtain ⟨e, n, he, -⟩ := FileBlockStore.putBlock_of_not_fits hf
      simp [step, he, ha]
  | reopen => exact ha

/-- Two persistent points of a run agree on the bytes of the ids acknowledged at the first. -/
lemma Persistent.sameBytes {r : BlockRun} {op : BlockOp} (h : r.Persistent)
    (h' : (r.step op).Persistent) : r.SameBytes (r.step op) := by
  intro a ha buf hbuf
  rw [h.1 a ha buf hbuf, h'.1 a (mem_acks_step ha) buf (by rw [step_blockSize, hbuf])]

/-- The run lemma: tied writes keep the invariant, hence persistence, at every point. -/
lemma Inv.throughout {r : BlockRun} (h : r.Inv) {ops : List BlockOp}
    (hsize : ∀ op ∈ ops, op.Sized r.store.blockSize) (ht : r.WritesTied ops) :
    r.Throughout ops := by
  induction ops generalizing r with
  | nil => exact h.persistent
  | cons op ops ih =>
    have hstep := h.step (hsize op (by simp)) ht.1
    refine ⟨h.persistent, h.persistent.sameBytes hstep.persistent, ih hstep ?_ ht.2⟩
    intro op' hop'
    rw [step_blockSize]
    exact hsize op' (by simp [hop'])

/-! ### Untied counters -/

/-- How far the counters can drift apart: the next position lags the next id by a whole number
`k` of blocks, and when it lags at all the file ends before the block after the next id. -/
structure Lag (k : ℕ) (fbs : FileBlockStore) : Prop where
  pos : 0 < fbs.blockSize
  lag : fbs.nextID * fbs.blockSize = fbs.nextPos + k * fbs.blockSize
  le_max : fbs.file.length ≤ maxOffset
  behind : 0 < k → k * fbs.blockSize ≤ maxOffset ∧
    fbs.file.length < (fbs.nextID + 1) * fbs.blockSize

lemma lag_newFileBlockStore {file : Bytes} {blockSize : ℕ} (h : 0 < blockSize)
    (hle : file.length ≤ maxOffset) :
    Lag (file.length / blockSize) (newFileBlockStore file blockSize) where
  pos := h
  lag := by simp [newFileBlockStore]
  le_max := hle
  behind := fun _ =>
    ⟨(Nat.div_mul_le_self _ _).trans hle, Nat.lt_mul_of_div_lt (Nat.lt_succ_self _) h⟩

lemma Lag.tied_iff {k : ℕ} {fbs : FileBlockStore} (h : Lag k fbs) : fbs.Tied ↔ k = 0 := by
  have hpos := h.pos
  rw [FileBlockStore.Tied, h.lag]
  constructor
  · intro hk
    have hz : k * fbs.blockSize = 0 := by omega
    exact (Nat.mul_eq_zero.mp hz).resolve_right (by omega)
  · rintro rfl
    simp

/-- The lag is the same after a put, whatever part of the block reached the file. -/
lemma Lag.afterPut {k : ℕ} {fbs : FileBlockStore} (h : Lag k fbs) {w : Bytes}
    (hlen : w.length ≤ fbs.blockSize) (hw : w = [] ∨ fbs.nextPos + w.length ≤ maxOffset) :
    Lag k (fbs.afterPut w) where
  pos := h.pos
  lag := by
    have hlag := h.lag
    simp only [FileBlockStore.afterPut, Nat.succ_mul]
    omega
  le_max := by
    rcases hw with rfl | hw
    · exact h.le_max
    · refine (length_overwrite_le 0 fbs.file fbs.nextPos w).trans ?_
      exact max_le h.le_max hw
  behind := fun hk => by
    obtain ⟨hkm, hfile⟩ := h.behind hk
    refine ⟨hkm, ?_⟩
    have hgrow := length_overwrite_le 0 fbs.file fbs.nextPos w
    have hlag := h.lag
    have hkb : 1 * fbs.blockSize ≤ k * fbs.blockSize := Nat.mul_le_mul_right _ hk
    have hpos := h.pos
    simp only [FileBlockStore.afterPut, Nat.succ_mul] at hfile ⊢
    omega

lemma Lag.step {k : ℕ} {r : BlockRun} (h : Lag k r.store) {op : BlockOp}
    (hsize : op.Sized r.store.blockSize) : ∃ k', Lag k' (r.step op).store := by
  cases op with
  | put b fault =>
    have hb : b.length = r.store.blockSize := hsize
    by_cases hf : r.store.Fits b fault
    · refine ⟨k, ?_⟩
      simp only [BlockRun.step, FileBlockStore.putBlock_of_fits hf]
      exact h.afterPut hb.le (Or.inr hf.2)
    · obtain ⟨e, n, he, hn⟩ := FileBlockStore.putBlock_of_not_fits hf
      refine ⟨k, ?_⟩
      simp only [BlockRun.step, he]
      refine h.afterPut (by simp only [List.length_take]; omega) ?_
      rcases hn with rfl | hn
      · exact Or.inl (List.take_zero ..)
      · exact Or.inr (by simp only [List.length_take]; omega)
  | reopen => exact ⟨_, lag_newFileBlockStore h.pos h.le_max⟩

/-- A block put while the counters are untied cannot be read back: the position its id says lies
past the end of the file. -/
lemma Lag.unreadable {k : ℕ} {fbs : FileBlockStore} (h : Lag k fbs) (hk : 0 < k) {b buf : Bytes}
    (hb : b.length = fbs.blockSize) (hbuf : buf.length = fbs.blockSize)
    (hf : fbs.nextPos + b.length ≤ maxOffset) :
    (fbs.afterPut b).getBlock fbs.nextID buf ≠ some (b, none) := by
  obtain ⟨hkm, hfile⟩ := h.behind hk
  have hlag := h.lag
  have hpos := h.pos
  have hkb : 1 * fbs.blockSize ≤ k * fbs.blockSize := Nat.mul_le_mul_right _ hk
  have hgrow := length_overwrite_le 0 fbs.file fbs.nextPos b
  have hdouble : maxOffset + maxOffset < zeroBlockID := by decide
  apply FileBlockStore.getBlock_of_lt
  · -- the id is no more than its position, which is below the reserved one
    have hid : fbs.nextID * 1 ≤ fbs.nextID * fbs.blockSize := Nat.mul_le_mul_left _ hpos
    omega
  · omega
  · simp only [FileBlockStore.afterPut, Nat.succ_mul] at hfile ⊢
    omega
  · show fbs.nextID * fbs.blockSize < 2 ^ 64
    rw [zeroBlockID] at hdouble
    omega

/-- A run that is persistent throughout makes every successful put while the counters are
tied. -/
lemma Throughout.successesTied {k : ℕ} {r : BlockRun} (h : Lag k r.store) {ops : List BlockOp}
    (hsize : ∀ op ∈ ops, op.Sized r.store.blockSize) (ht : r.Throughout ops) :
    r.SuccessesTied ops := by
  induction ops generalizing r k with
  | nil => trivial
  | cons op ops ih =>
    obtain ⟨-, -, hrest⟩ := ht
    refine ⟨?_, ?_⟩
    · rintro b fault rfl hf
      rw [h.tied_iff]
      by_contra hk
      have hb : b.length = r.store.blockSize := hsize (.put b fault) (by simp)
      have hpers : (r.step (.put b fault)).Persistent := by
        cases ops with
        | nil => exact hrest
        | cons op' ops' => exact hrest.1
      simp only [step, FileBlockStore.putBlock_of_fits hf] at hpers
      refine h.unreadable (by omega) hb hb hf.2 ?_
      exact hpers.1 (r.store.nextID, b) (by simp) b hb
    · obtain ⟨k', hk'⟩ := h.step (hsize op (by simp))
      refine ih hk' ?_ hrest
      intro op' hop'
      rw [step_blockSize]
      exact hsize op' (by simp [hop'])

/-! ## Persistence -/

/-- **Block-store persistence.**  A run of puts and reopenings over a file is persistent at every
point when every put that writes anything is made while the two counters agree, and it is so only
when every put that succeeds is made while they agree. -/
theorem block_store_persistence (file : Bytes) (blockSize : ℕ) (ops : List BlockOp)
    (hpos : 0 < blockSize) (hfile : file.length ≤ maxOffset)
    (hsize : ∀ op ∈ ops, op.Sized blockSize) :
    ((start file blockSize).WritesTied ops → (start file blockSize).Throughout ops) ∧
      ((start file blockSize).Throughout ops → (start file blockSize).SuccessesTied ops) :=
  ⟨fun h => (start_inv hpos).throughout hsize h,
    fun h => h.successesTied (lag_newFileBlockStore hpos hfile) hsize⟩

/-- Two puts in one session on a fresh file, which is opened again before and after. -/
theorem block_store_persistence_one_session :
    (start [] 2).Throughout [.reopen, .put [1, 2] none, .put [3, 4] none, .reopen] := by
  refine (block_store_persistence [] 2 [.reopen, .put [1, 2] none, .put [3, 4] none, .reopen]
    (by decide) (by decide) (by simp [BlockOp.Sized])).1 ?_
  simp only [WritesTied, BlockOp.put.injEq, reduceCtorEq, false_implies, implies_true, true_and,
    and_true]
  refine ⟨?_, ?_⟩
  · rintro b fault ⟨rfl, rfl⟩
    exact Or.inr (Or.inr (by decide))
  · rintro b fault ⟨rfl, rfl⟩
    exact Or.inr (Or.inr (by decide))

/-- Put, reopen, put: the second block overwrites the first and is not found under its own id. -/
theorem block_store_reopen_overwrites :
    let r := (((start [] 2).step (.put [1, 2] none)).step .reopen).step (.put [3, 4] none)
    r.acks = [(0, [1, 2]), (1, [3, 4])] ∧
      r.store.getBlock 0 [0, 0] = some ([3, 4], none) ∧
      r.store.getBlock 1 [0, 0] = some ([0, 0], some ioEOF) ∧
      ¬ (start [] 2).Throughout [.put [1, 2] none, .reopen, .put [3, 4] none] := by
  refine ⟨by decide, by decide, by decide, ?_⟩
  intro h
  have hread := h.2.2.2.2.2.2.1 (0, [1, 2]) (by decide) [0, 0] (by decide)
  exact absurd hread (by decide)

end BlockRun
end Usbd
