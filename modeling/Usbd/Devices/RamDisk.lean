import Usbd.Runtime.File

/-!
# The RAM disk

`RAMDisk` is a byte slice.  A call compares the end of its range with the size of the disk and
slices the disk from its position to that end.  The end is computed in 64 bits and the position is
not looked at, so that two kinds of range pass the comparison and are no range of the disk
(`Stray`): one that starts below zero, and one whose end is past the largest 64-bit number and has
become a negative one.
-/

namespace Usbd

open ListMemory

/-- `xs[lo:hi]`, a panic unless the bounds are in order and inside. -/
def goSlice (xs : Bytes) (lo hi : ℤ) : Except Stop Bytes :=
  if 0 ≤ lo ∧ lo ≤ hi ∧ hi ≤ xs.length then .ok (slice xs lo.toNat (hi - lo).toNat)
  else .error .panic

structure RamDisk where
  disk : Bytes
  online : Bool
  deriving DecidableEq

namespace RamDisk

def errClosed : GoError := .new "Device is shutdown"

variable (rdsk : RamDisk)

def size : ℕ := rdsk.disk.length

/-- The part of the disk a call works on, or the error it returns: `eof` for a range past the
end. -/
def span (len : ℕ) (pos : ℤ) (eof : GoError) : Except Stop (Except GoError Bytes) :=
  if rdsk.online = false then .ok (.error errClosed)
  else
    let stop := wrapInt64 (pos + len)
    if stop > rdsk.size then .ok (.error eof)
    else (goSlice rdsk.disk pos stop).map .ok

/-- `ReadAt` into `buf`: the buffer, the count and the error. -/
def readAt (buf : Bytes) (pos : ℤ) : Except Stop (Bytes × ℕ × Option GoError) :=
  match rdsk.span buf.length pos ioEOF with
  | .error stop => .error stop
  | .ok (.error e) => .ok (buf, 0, some e)
  | .ok (.ok src) => .ok (goCopy buf src, buf.length, none)

/-- `WriteAt`: the count, the error and the disk. -/
def writeAt (buf : Bytes) (pos : ℤ) : Except Stop (ℕ × Option GoError × RamDisk) :=
  match rdsk.span buf.length pos ioErrUnexpectedEOF with
  | .error stop => .error stop
  | .ok (.error e) => .ok (0, some e, rdsk)
  | .ok (.ok dst) =>
    .ok (buf.length, none,
      { rdsk with disk := overwrite 0 rdsk.disk pos.toNat (goCopy dst buf) })

/-- `Trim` and `Flush`: nothing to do. -/
def idle : Option GoError := if rdsk.online then none else some errClosed

def close : RamDisk := { rdsk with online := false }

/-- A range that passes the comparison with the size and is no range of the disk. -/
def Stray (len : ℕ) (pos : ℤ) : Prop :=
  pos < 0 ∧ pos + len ≤ rdsk.size ∨ maxOffset < pos + len

instance (len : ℕ) (pos : ℤ) : Decidable (rdsk.Stray len pos) :=
  inferInstanceAs (Decidable (_ ∨ _))

variable {rdsk}

lemma span_eq (hopen : rdsk.online = true) {len : ℕ} {pos : ℤ}
    (hpos : IsInt64 pos) (hlen : len ≤ maxOffset) (eof : GoError) :
    rdsk.span len pos eof =
      if rdsk.Stray len pos then .error .panic
      else if pos + len ≤ rdsk.size then .ok (.ok (slice rdsk.disk pos.toNat len))
      else .ok (.error eof) := by
  obtain ⟨hlo, hhi⟩ := hpos
  simp only [span, hopen, Bool.true_eq_false, if_false, goSlice]
  rw [← size]
  by_cases hover : maxOffset < pos + len
  · -- the end has wrapped around and lies below the position
    have hwrap : wrapInt64 (pos + len) = pos + len - 2 ^ 64 :=
      wrapInt64_of_overflow hover (by rw [maxOffset] at *; omega)
    have hneg : pos + len - 2 ^ 64 < 0 := by
      rw [maxOffset] at *
      omega
    rw [hwrap, if_neg (by omega), if_neg (by rw [maxOffset] at *; omega), if_pos (.inr hover)]
    rfl
  · have hwrap : wrapInt64 (pos + len) = pos + len :=
      wrapInt64_of_isInt64 ⟨by omega, by omega⟩
    rw [hwrap]
    by_cases hend : pos + len ≤ rdsk.size
    · rw [if_neg (by omega), if_pos hend]
      by_cases hneg : pos < 0
      · rw [if_neg (by omega), if_pos (.inl ⟨hneg, hend⟩)]
        rfl
      · rw [if_pos ⟨by omega, by omega, hend⟩,
          if_neg (by rw [Stray]; omega), show (pos + len - pos).toNat = len by omega]
        rfl
    · rw [if_pos (by omega), if_neg (by rw [Stray]; omega), if_neg hend]

lemma readAt_of_le (hopen : rdsk.online = true) (hmax : rdsk.size ≤ maxOffset) {buf : Bytes}
    {pos : ℕ} (hle : pos + buf.length ≤ rdsk.size) :
    rdsk.readAt buf pos = .ok (slice rdsk.disk pos buf.length, buf.length, none) := by
  have hin : slice rdsk.disk pos buf.length = goCopy buf (slice rdsk.disk pos buf.length) :=
    (goCopy_of_length_eq (length_slice_of_le hle)).symm
  rw [readAt, span_eq hopen ⟨by omega, by omega⟩ (by omega), if_neg (by rw [Stray]; omega),
    if_pos (by exact_mod_cast hle), Int.toNat_natCast]
  simp only [← hin]

lemma readAt_of_lt (hopen : rdsk.online = true) {buf : Bytes} {pos : ℕ}
    (hlt : rdsk.size < pos + buf.length) (hmax : pos + buf.length ≤ maxOffset) :
    rdsk.readAt buf pos = .ok (buf, 0, some ioEOF) := by
  rw [readAt, span_eq hopen ⟨by omega, by omega⟩ (by omega), if_neg (by rw [Stray]; omega),
    if_neg (by omega)]

lemma readAt_of_overflow (hopen : rdsk.online = true) {buf : Bytes} {pos : ℕ}
    (hpos : pos ≤ maxOffset) (hlen : buf.length ≤ maxOffset)
    (hover : maxOffset < pos + buf.length) : rdsk.readAt buf pos = .error .panic := by
  rw [readAt, span_eq hopen ⟨by omega, by omega⟩ hlen, if_pos (.inr (by omega))]

end RamDisk
end Usbd
