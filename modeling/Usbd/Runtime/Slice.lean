import Usbd.Runtime.File

/-!
# Byte slices with a capacity

Request and response objects are recycled through pools and keep their byte slices, so that how
long a slice is and what it holds depends on what its object served before.  `Slice` is such a
slice, from the start of its array: the visible bytes are the first `len` of them.  The resizing
both objects do before they use their slice is one function, `Slice.resize`.
-/

namespace Usbd

/-- A byte slice that starts at the beginning of its array. -/
structure Slice where
  array : Bytes
  len : ℕ
  len_le : len ≤ array.length
  deriving DecidableEq

namespace Slice

def nil : Slice := ⟨[], 0, le_rfl⟩

def cap (s : Slice) : ℕ := s.array.length

/-- The visible bytes. -/
def bytes (s : Slice) : Bytes := s.array.take s.len

/-- A fresh slice when the capacity is too small, otherwise the same array up to `count`. -/
def resize (s : Slice) (count : ℕ) : Slice :=
  if h : s.cap < count then ⟨zeros count, count, by simp⟩
  else ⟨s.array, count, by simpa [cap] using h⟩

/-- `data` written over the first visible bytes. -/
def fill (s : Slice) (data : Bytes) : Slice :=
  ⟨goCopy s.bytes data ++ s.array.drop s.len, s.len, by
    have hlen := s.len_le
    simp only [goCopy, bytes, List.length_append, List.length_take, List.length_drop]
    omega⟩

@[simp] lemma bytes_nil : nil.bytes = [] := rfl

@[simp] lemma length_bytes (s : Slice) : s.bytes.length = s.len := by
  have hlen := s.len_le
  simp only [bytes, List.length_take]
  omega

@[simp] lemma len_resize (s : Slice) (count : ℕ) : (s.resize count).len = count := by
  unfold resize
  split_ifs <;> rfl

@[simp] lemma len_fill (s : Slice) (data : Bytes) : (s.fill data).len = s.len := rfl

/-- Filling the whole of a slice leaves nothing of what it held. -/
lemma bytes_fill_of_length_eq {s : Slice} {data : Bytes} (h : data.length = s.len) :
    (s.fill data).bytes = data := by
  have hcopy : goCopy s.bytes data = data := goCopy_of_length_eq (by simpa using h)
  simp only [bytes, fill]
  rw [← bytes, hcopy, ← h, List.take_left']
  rfl

lemma bytes_eq_nil_iff (s : Slice) : s.bytes = [] ↔ s.len = 0 := by
  rw [← List.length_eq_zero_iff, length_bytes]

end Slice
end Usbd
