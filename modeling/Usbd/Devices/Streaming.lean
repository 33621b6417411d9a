import Usbd.Devices.RamDisk

/-!
# Streaming a device

`NewReadAtReader` turns anything with a `ReadAt` into a stream: each `Read` is a `ReadAt` at a
cursor, and the cursor moves by the count that comes back.  Whoever reads the stream hands in one
buffer after the other and stops at the first error (`readUntilErr`).

As long as the buffers fit, every `ReadAt` of the repository fills them, so that the first ones get
the contents piece by piece (`readUntilErr_add`).  The read of the RAM disk that
reaches past the end returns the error alone, where that of a file also returns what is left: unless
the buffers before it end exactly where the disk does, the tail is lost.
-/

namespace Usbd

open ListMemory

/-! ## The reader -/

/-- `io.ReaderAt`: the buffer afterwards, the count and the error. -/
abbrev ReaderAt := Bytes → ℤ → Except Stop (Bytes × ℕ × Option GoError)

structure ReadAtReader where
  cur : ℤ
  readerAt : ReaderAt

def newReadAtReader (rdrAt : ReaderAt) : ReadAtReader := ⟨0, rdrAt⟩

/-- `Read`: what `ReadAt` returns, and the reader afterwards. -/
def ReadAtReader.read (rar : ReadAtReader) (buf : Bytes) :
    Except Stop ((Bytes × ℕ × Option GoError) × ReadAtReader) :=
  match rar.readerAt buf rar.cur with
  | .error stop => .error stop
  | .ok (buf, n, err) => .ok ((buf, n, err), { rar with cur := wrapInt64 (rar.cur + n) })

/-- The buffers a stream is read with, one after the other, whatever is in them.  None of them is
empty. -/
structure Buffers where
  buf : ℕ → Bytes
  nonempty : ∀ j, 0 < (buf j).length
  length_le : ∀ j, (buf j).length ≤ maxOffset

/-- What is read behind `front`. -/
def behind (front : Bytes) :
    Except Stop (Option (Bytes × GoError)) → Except Stop (Option (Bytes × GoError)) :=
  Except.map (Option.map fun out => (front ++ out.1, out.2))

lemma behind_nil (out : Except Stop (Option (Bytes × GoError))) : behind [] out = out := by
  rcases out with stop | ⟨- | out⟩ <;> rfl

lemma behind_behind (front front' : Bytes) (out : Except Stop (Option (Bytes × GoError))) :
    behind front (behind front' out) = behind (front ++ front') out := by
  rcases out with stop | ⟨- | out⟩
  · rfl
  · rfl
  · simp [behind, Except.map]

namespace Buffers

variable (bufs : Buffers)

/-- Reading from the `j`-th buffer on until the first error: the bytes that came and the error, or
nothing if there was none in so many reads. -/
def readUntilErr : ℕ → ℕ → ReadAtReader → Except Stop (Option (Bytes × GoError))
  | 0, _, _ => .ok none
  | reads + 1, j, rar =>
    match rar.read (bufs.buf j) with
    | .error stop => .error stop
    | .ok ((buf, n, some err), _) => .ok (some (buf.take n, err))
    | .ok ((buf, n, none), rar) => behind (buf.take n) (readUntilErr reads (j + 1) rar)

/-- The stream has all of `data` and then ends. -/
def StreamsAll (rdrAt : ReaderAt) (data : Bytes) : Prop :=
  ∃ reads, bufs.readUntilErr reads 0 (newReadAtReader rdrAt) = .ok (some (data, ioEOF))

/-- The bytes that the buffers before the `j`-th hold. -/
def offset (j : ℕ) : ℕ := ∑ i ∈ Finset.range j, (bufs.buf i).length

variable {bufs}

@[simp] lemma offset_zero : bufs.offset 0 = 0 := Finset.sum_range_zero _

lemma offset_succ (j : ℕ) : bufs.offset (j + 1) = bufs.offset j + (bufs.buf j).length :=
  Finset.sum_range_succ _ j

lemma offset_lt_succ (j : ℕ) : bufs.offset j < bufs.offset (j + 1) := by
  have hpos := bufs.nonempty j
  rw [offset_succ]
  omega

lemma offset_strictMono : StrictMono bufs.offset := strictMono_nat_of_lt_succ offset_lt_succ

/-- Some buffer is the first that does not fit. -/
lemma exists_last (size : ℕ) : ∃ k, bufs.offset k ≤ size ∧ size < bufs.offset (k + 1) := by
  have hpast : ∃ j, size < bufs.offset j := ⟨size + 1, offset_strictMono.le_apply⟩
  obtain ⟨k, hk⟩ : ∃ k, Nat.find hpast = k + 1 := by
    refine Nat.exists_eq_succ_of_ne_zero fun hzero => ?_
    have hfound := Nat.find_spec hpast
    rw [hzero, offset_zero] at hfound
    omega
  refine ⟨k, ?_, hk ▸ Nat.find_spec hpast⟩
  have hmin := Nat.find_min hpast (show k < Nat.find hpast by omega)
  omega

/-- The buffers that end exactly at `size` are all that fit. -/
lemma eq_last {size j k : ℕ} (hj : bufs.offset j = size) (hle : bufs.offset k ≤ size)
    (hlt : size < bufs.offset (k + 1)) : j = k := by
  have hmono : StrictMono bufs.offset := offset_strictMono
  have hjk : j < k + 1 := hmono.lt_iff_lt.mp (by omega)
  have hkj : k ≤ j := hmono.le_iff_le.mp (by omega)
  omega

/-! ## Reading until the first error -/

/-- Once the error has come, more reads would change nothing. -/
lemma readUntilErr_mono {reads more j : ℕ} {rar : ReadAtReader} {out : Bytes × GoError}
    (hle : reads ≤ more) (h : bufs.readUntilErr reads j rar = .ok (some out)) :
    bufs.readUntilErr more j rar = .ok (some out) := by
  induction reads generalizing more j rar out with
  | zero => cases h
  | succ reads ih =>
    obtain ⟨more, rfl⟩ := Nat.exists_eq_add_of_le' (show 1 ≤ more by omega)
    rw [readUntilErr] at h ⊢
    split at h
    · cases h
    · exact h
    · next buf n rar' hread =>
      cases hrest : bufs.readUntilErr reads (j + 1) rar' with
      | error stop =>
        rw [hrest] at h
        cases h
      | ok out' =>
        rw [hrest] at h
        cases out' with
        | none => cases h
        | some out' =>
          rw [ih (by omega) hrest]
          exact h

/-- The error that ends a stream does not depend on how many reads one is ready to make. -/
lemma readUntilErr_unique {reads reads' j : ℕ} {rar : ReadAtReader} {out out' : Bytes × GoError}
    (h : bufs.readUntilErr reads j rar = .ok (some out))
    (h' : bufs.readUntilErr reads' j rar = .ok (some out')) : out = out' := by
  have hmax := readUntilErr_mono (le_max_left reads reads') h
  rw [readUntilErr_mono (le_max_right reads reads') h'] at hmax
  simpa using hmax.symm

/-- A `ReadAt` that fills every buffer that fits. -/
def Fills (rdrAt : ReaderAt) (data : Bytes) : Prop :=
  ∀ (buf : Bytes) (pos : ℕ), pos + buf.length ≤ data.length →
    rdrAt buf pos = .ok (slice data pos buf.length, buf.length, none)

variable {rdrAt : ReaderAt} {data : Bytes}

section Buffers

variable (hfills : Fills rdrAt data) (hmax : data.length ≤ maxOffset)

include hfills hmax

/-- The reads of the buffers that fit bring the contents piece by piece. -/
lemma readUntilErr_add {k : ℕ} (hle : bufs.offset k ≤ data.length) (reads : ℕ) :
    bufs.readUntilErr (k + reads) 0 (newReadAtReader rdrAt) =
      behind (data.take (bufs.offset k)) (bufs.readUntilErr reads k ⟨bufs.offset k, rdrAt⟩) := by
  induction k generalizing reads with
  | zero =>
    rw [offset_zero, List.take_zero, behind_nil, Nat.zero_add]
    rfl
  | succ k ih =>
    rw [offset_succ] at hle
    have hcur : wrapInt64 (bufs.offset k + (bufs.buf k).length : ℕ) = bufs.offset (k + 1) := by
      rw [offset_succ, wrapInt64_of_isInt64 (isInt64_natCast (by omega))]
    have hread : ReadAtReader.read ⟨bufs.offset k, rdrAt⟩ (bufs.buf k) =
        .ok ((slice data (bufs.offset k) (bufs.buf k).length, (bufs.buf k).length, none),
          ⟨bufs.offset (k + 1), rdrAt⟩) := by
      simp only [ReadAtReader.read, hfills _ _ hle, ← hcur, Nat.cast_add]
    have htake : (slice data (bufs.offset k) (bufs.buf k).length).take (bufs.buf k).length =
        slice data (bufs.offset k) (bufs.buf k).length :=
      List.take_of_length_le (length_slice_of_le hle).le
    have hfront : data.take (bufs.offset k) ++ slice data (bufs.offset k) (bufs.buf k).length =
        data.take (bufs.offset (k + 1)) := by
      rw [offset_succ, List.take_add, slice]
    rw [Nat.add_right_comm, Nat.add_assoc, ih (by omega), readUntilErr, hread]
    simp only [htake]
    rw [behind_behind, hfront]

/-- Where the first read that does not fit returns an error, the stream is the contents up to there
and what this read brings. -/
lemma readUntilErr_of_last {k n : ℕ} (hle : bufs.offset k ≤ data.length) {buf : Bytes}
    {err : GoError} (hlast : rdrAt (bufs.buf k) (bufs.offset k) = .ok (buf, n, some err)) :
    bufs.readUntilErr (k + 1) 0 (newReadAtReader rdrAt) =
      .ok (some (data.take (bufs.offset k) ++ buf.take n, err)) := by
  rw [readUntilErr_add hfills hmax hle]
  simp only [readUntilErr, ReadAtReader.read, hlast]
  rfl

lemma readUntilErr_of_stop {k : ℕ} (hle : bufs.offset k ≤ data.length) {stop : Stop}
    (hlast : rdrAt (bufs.buf k) (bufs.offset k) = .error stop) (reads : ℕ) :
    bufs.readUntilErr (k + (reads + 1)) 0 (newReadAtReader rdrAt) = .error stop := by
  rw [readUntilErr_add hfills hmax hle]
  simp only [readUntilErr, ReadAtReader.read, hlast]
  rfl

end Buffers

/-! ## The RAM disk -/

variable {rdsk : RamDisk}

lemma fills_ramDisk (hopen : rdsk.online = true) (hmax : rdsk.size ≤ maxOffset) :
    Fills rdsk.readAt rdsk.disk := fun _ _ hle => rdsk.readAt_of_le hopen hmax hle

/-- What decides is where the buffers that fit end: all of the disk has come if it is there, and a
tail is lost if it is before. -/
lemma streamsAll_iff_of_last (hopen : rdsk.online = true) (hmax : rdsk.size ≤ maxOffset) {k : ℕ}
    (hle : bufs.offset k ≤ rdsk.size) (hlt : rdsk.size < bufs.offset (k + 1)) :
    bufs.StreamsAll rdsk.readAt rdsk.disk ↔
      bufs.offset k = rdsk.size ∧ bufs.offset (k + 1) ≤ maxOffset := by
  have hfills := fills_ramDisk hopen hmax
  rw [offset_succ] at hlt ⊢
  by_cases hover : maxOffset < bufs.offset k + (bufs.buf k).length
  · -- the end of the last read wraps around, and the slice of the disk panics
    have hlast := rdsk.readAt_of_overflow hopen (hle.trans hmax) (bufs.length_le k) hover
    refine iff_of_false ?_ (by omega)
    rintro ⟨reads, hreads⟩
    have hmore := readUntilErr_mono (Nat.le_add_left reads (k + 1)) hreads
    rw [Nat.add_assoc, Nat.add_comm 1, readUntilErr_of_stop hfills hmax hle hlast] at hmore
    cases hmore
  · have hstream := readUntilErr_of_last hfills hmax hle
      (rdsk.readAt_of_lt hopen hlt (by omega))
    rw [List.take_zero, List.append_nil] at hstream
    constructor
    · rintro ⟨reads, hreads⟩
      have hout := readUntilErr_unique hstream hreads
      have hlen : (rdsk.disk.take (bufs.offset k)).length = rdsk.size := by
        rw [(Prod.mk.inj hout).1, RamDisk.size]
      rw [List.length_take, ← RamDisk.size] at hlen
      omega
    · rintro ⟨hend, -⟩
      rw [hend, RamDisk.size, List.take_length] at hstream
      exact ⟨k + 1, hstream⟩

end Buffers

open Buffers

/-- Streaming an open RAM disk returns all of it and then `io.EOF` if and only if some of the
buffers, from the first on, end exactly where the disk does, and the end of the next one is a 64-bit
number. -/
theorem ramDisk_streams_all_iff (rdsk : RamDisk) (hopen : rdsk.online = true)
    (hmax : rdsk.size ≤ maxOffset) (bufs : Buffers) :
    bufs.StreamsAll rdsk.readAt rdsk.disk ↔
      ∃ k, bufs.offset k = rdsk.size ∧ rdsk.size + (bufs.buf k).length ≤ maxOffset := by
  obtain ⟨k, hle, hlt⟩ := bufs.exists_last rdsk.size
  rw [streamsAll_iff_of_last hopen hmax hle hlt, offset_succ]
  constructor
  · rintro ⟨hend, hfits⟩
    exact ⟨k, hend, hend ▸ hfits⟩
  · rintro ⟨j, hend, hfits⟩
    obtain rfl := eq_last hend hle hlt
    exact ⟨hend, hend ▸ hfits⟩

/-- Buffers of two bytes. -/
def pairs : Buffers := ⟨fun _ => [0, 0], fun _ => by decide, fun _ => by decide⟩

/-- Four bytes are two buffers. -/
theorem ramDisk_streams_all_iff_four :
    pairs.StreamsAll (RamDisk.mk [1, 2, 3, 4] true).readAt [1, 2, 3, 4] :=
  (ramDisk_streams_all_iff ⟨[1, 2, 3, 4], true⟩ rfl (by decide) pairs).mpr ⟨2, rfl, by decide⟩

/-- Of three bytes the last one does not come: the second read ends past the disk. -/
theorem odd_tail_is_lost :
    ¬ pairs.StreamsAll (RamDisk.mk [1, 2, 3] true).readAt [1, 2, 3] ∧
      pairs.readUntilErr 2 0 (newReadAtReader (RamDisk.mk [1, 2, 3] true).readAt) =
        .ok (some ([1, 2], ioEOF)) := by
  have hmax : (RamDisk.mk [1, 2, 3] true).size ≤ maxOffset := by decide
  have hle : pairs.offset 1 ≤ (RamDisk.mk [1, 2, 3] true).size := by decide
  have hlt : (RamDisk.mk [1, 2, 3] true).size < pairs.offset 2 := by decide
  refine ⟨fun hall => ?_, rfl⟩
  have hend := ((streamsAll_iff_of_last rfl hmax hle hlt).mp hall).1
  exact absurd hend (by decide)

end Usbd
