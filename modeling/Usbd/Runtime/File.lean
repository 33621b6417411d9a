import Usbd.Foundations.ListMemory
import Usbd.Runtime.Errors

/-!
# Local files

An `os.File` as the devices use it: positional reads and writes on a growable run of bytes.
`fileReadAt` and `fileWriteAt` are the two calls of the standard library; both take the position
as a signed number, because that is what callers compute, and reject a negative one.

A write can fail.  The fault argument of `fileWriteAt` says whether it does and how many bytes
reached the file before it did, so that every partial outcome of a failing `WriteAt` is a value of
that argument.  A write that would end past the largest 64-bit file position fails whatever the
argument says.
-/

namespace Usbd

open ListMemory

/-- A byte slice. -/
abbrev Bytes := List UInt8

/-- The largest position in a file: positions are signed 64-bit numbers. -/
def maxOffset : ℕ := 2 ^ 63 - 1

/-- The numbers of an `int64`. -/
def IsInt64 (n : ℤ) : Prop := -(2 ^ 63) ≤ n ∧ n ≤ maxOffset

instance (n : ℤ) : Decidable (IsInt64 n) := inferInstanceAs (Decidable (_ ∧ _))

lemma isInt64_natCast {n : ℕ} (h : n ≤ maxOffset) : IsInt64 n := ⟨by omega, by omega⟩

/-- Arithmetic on signed 64-bit numbers wraps around. -/
def wrapInt64 (n : ℤ) : ℤ := n.bmod (2 ^ 64)

lemma wrapInt64_of_isInt64 {n : ℤ} (h : IsInt64 n) : wrapInt64 n = n := by
  obtain ⟨hlo, hhi⟩ := h
  rw [maxOffset] at hhi
  rw [wrapInt64, Int.bmod_def]
  split_ifs <;> omega

/-- The sum of two positive numbers that does not fit comes out negative. -/
lemma wrapInt64_of_overflow {n : ℤ} (hlo : maxOffset < n) (hhi : n < 2 ^ 64) :
    wrapInt64 n = n - 2 ^ 64 := by
  rw [maxOffset] at hlo
  rw [wrapInt64, Int.bmod_def]
  split_ifs <;> omega

lemma wrapInt64_le {n : ℤ} (h : 0 ≤ n) : wrapInt64 n ≤ n := by
  rw [wrapInt64, Int.bmod_def]
  split_ifs <;> omega

/-- The conversion of a signed number to an unsigned 64-bit one. -/
def toUint64 (n : ℤ) : ℕ := (n % 2 ^ 64).toNat

lemma toUint64_natCast {n : ℕ} (h : n ≤ maxOffset) : toUint64 n = n := by
  rw [maxOffset] at h
  rw [toUint64, Int.emod_eq_of_lt (by omega) (by omega), Int.toNat_natCast]

/-- `len` zero bytes, as `make([]byte, len)` returns them. -/
def zeros (len : ℕ) : Bytes := List.replicate len 0

@[simp] lemma length_zeros (n : ℕ) : (zeros n).length = n := List.length_replicate ..

/-- `copy(dst, src)`: the common prefix is replaced, the rest of `dst` stays. -/
def goCopy (dst src : Bytes) : Bytes := src.take dst.length ++ dst.drop src.length

@[simp] lemma length_goCopy (dst src : Bytes) : (goCopy dst src).length = dst.length := by
  simp only [goCopy, List.length_append, List.length_take, List.length_drop]
  omega

lemma goCopy_of_length_eq {dst src : Bytes} (h : src.length = dst.length) :
    goCopy dst src = src := by
  rw [goCopy, ← h, List.take_length, List.drop_eq_nil_of_le (by omega), List.append_nil]

/-- The size of the buffer `bufio.NewWriter` makes. -/
def bufWriterSize : ℕ := 4096

/-- The error of `ReadAt` and `WriteAt` on a closed file.  It shows with the first byte. -/
def closedFileErr (len : ℕ) (pos : ℤ) : Option GoError :=
  if pos < 0 then some errNegativeOffset else if len = 0 then none else some osErrClosed

lemma length_of_closedFileErr {len : ℕ} {pos : ℤ} (h : closedFileErr len pos = none) : len = 0 := by
  unfold closedFileErr at h
  split_ifs at h with hneg hlen
  exact hlen

/-- `(*os.File).ReadAt`: the bytes read, and `io.EOF` when there are fewer than asked for. -/
def fileReadAt (data : Bytes) (len : ℕ) (pos : ℤ) : Bytes × Option GoError :=
  if pos < 0 then ([], some errNegativeOffset)
  else
    let got := slice data pos.toNat len
    (got, if got.length < len then some ioEOF else none)

/-- `(*os.File).WriteAt`: the file afterwards, the bytes reported written, and the error. -/
def fileWriteAt (data buf : Bytes) (pos : ℤ) (fault : Option ℕ) : Bytes × ℕ × Option GoError :=
  if pos < 0 then (data, 0, some errNegativeOffset)
  else if (maxOffset : ℤ) < pos + buf.length then (data, 0, some errFileTooLarge)
  else
    match fault with
    | none => (overwrite 0 data pos.toNat buf, buf.length, none)
    | some n => (overwrite 0 data pos.toNat (buf.take n), min n buf.length, some errInputOutput)

lemma length_fileReadAt_le (data : Bytes) (len : ℕ) (pos : ℤ) :
    (fileReadAt data len pos).1.length ≤ len := by
  unfold fileReadAt
  split_ifs
  · exact Nat.zero_le _
  · exact (length_slice data pos.toNat len).trans_le (min_le_left _ _)

lemma fileReadAt_of_le {data : Bytes} {len pos : ℕ} (h : pos + len ≤ data.length) :
    fileReadAt data len pos = (slice data pos len, none) := by
  have hlen : (slice data pos len).length = len := length_slice_of_le h
  simp [fileReadAt, hlen]

lemma fileReadAt_of_lt {data : Bytes} {len pos : ℕ} (h : data.length < pos + len) :
    (fileReadAt data len pos).2 = some ioEOF ∨ len = 0 := by
  rcases Nat.eq_zero_or_pos len with hl | hl
  · exact Or.inr hl
  · left
    have hlen : (slice data pos len).length < len := by
      rw [length_slice]
      omega
    rw [fileReadAt, if_neg (by omega)]
    simp [hlen]

/-- A write at a position that is not negative, with the comparison on natural numbers. -/
lemma fileWriteAt_natCast (data buf : Bytes) (pos : ℕ) (fault : Option ℕ) :
    fileWriteAt data buf pos fault =
      if maxOffset < pos + buf.length then (data, 0, some errFileTooLarge)
      else match fault with
        | none => (overwrite 0 data pos buf, buf.length, none)
        | some n => (overwrite 0 data pos (buf.take n), min n buf.length, some errInputOutput) := by
  have hlt : (maxOffset : ℤ) < (pos : ℤ) + buf.length ↔ maxOffset < pos + buf.length := by omega
  unfold fileWriteAt
  simp only [if_neg (show ¬ (pos : ℤ) < 0 by omega), Int.toNat_natCast, hlt]

lemma fileWriteAt_ok {data buf : Bytes} {pos : ℕ} (h : pos + buf.length ≤ maxOffset) :
    fileWriteAt data buf pos none = (overwrite 0 data pos buf, buf.length, none) := by
  rw [fileWriteAt_natCast, if_neg (by omega)]

/-- Whatever happens, the file is left with some prefix of the buffer written, and with nothing
written when the write would not end at a file position. -/
lemma fileWriteAt_file (data buf : Bytes) (pos : ℕ) (fault : Option ℕ) :
    ∃ n, (fileWriteAt data buf pos fault).1 = overwrite 0 data pos (buf.take n) ∧
      (n = 0 ∨ pos + buf.length ≤ maxOffset) := by
  rw [fileWriteAt_natCast]
  split_ifs with h
  · exact ⟨0, by simp, Or.inl rfl⟩
  · cases fault with
    | none => exact ⟨buf.length, by simp, Or.inr (by omega)⟩
    | some n => exact ⟨n, rfl, Or.inr (by omega)⟩

lemma fileWriteAt_of_count_eq_zero {data buf : Bytes} {pos : ℤ} {fault : Option ℕ}
    (h : (fileWriteAt data buf pos fault).2.1 = 0) : (fileWriteAt data buf pos fault).1 = data := by
  unfold fileWriteAt at h ⊢
  split_ifs at h ⊢
  · rfl
  · rfl
  · cases fault with
    | none =>
      obtain rfl : buf = [] := List.length_eq_zero_iff.mp h
      exact overwrite_nil 0 data pos.toNat
    | some n =>
      have hnil : buf.take n = [] := by
        rw [← List.length_eq_zero_iff, List.length_take]
        exact h
      simp only [hnil, overwrite_nil]

/-- A write to an empty file puts a part of the bytes there. -/
lemma prefix_of_fileWriteAt_nil (buf : Bytes) (fault : Option ℕ) :
    (fileWriteAt [] buf 0 fault).1 <+: buf := by
  obtain ⟨n, hfile, -⟩ := fileWriteAt_file [] buf 0 fault
  have htaken := List.take_prefix n buf
  rw [Nat.cast_zero] at hfile
  rw [hfile]
  by_cases hnil : buf.take n = []
  · rw [hnil, overwrite_nil]
    exact List.nil_prefix
  · have hwhole := overwrite_length_add 0 ([] : Bytes) 0 hnil
    simp only [List.length_nil, Nat.add_zero, List.replicate_zero, List.append_nil,
      List.nil_append] at hwhole
    rw [hwhole]
    exact htaken

/-- A write reports no error exactly when it is not made to fail and its end is a position. -/
lemma fileWriteAt_err_eq_none {data buf : Bytes} {pos : ℕ} {fault : Option ℕ} :
    (fileWriteAt data buf pos fault).2.2 = none ↔
      fault = none ∧ pos + buf.length ≤ maxOffset := by
  rw [fileWriteAt_natCast]
  split_ifs with h
  · simp only [false_iff, not_and]
    intro _
    omega
  · cases fault with
    | none =>
      simp only [true_and, true_iff]
      omega
    | some n => simp

end Usbd
