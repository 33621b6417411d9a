import Usbd.Foundations.Endian
import Usbd.Runtime.File

/-!
# Runs of zero bytes

`util.IsZeros` and `util.ZeroFill`, the two helpers with which both devices treat zeros specially.
`isZeros` scans whole 64-bit words first and the remaining bytes after them; how many words there
are comes out of a 32-bit mask, so that a slice of `2 ^ 32` bytes or more is scanned mostly byte by
byte.  `zeroFill` clears one byte and then copies the cleared part over the rest, twice as much each
time.  The two lemmas at the end of each section are what the rest of the development uses.
-/

namespace Usbd

open ListMemory Endian

/-! ## Testing -/

def maxAlignedMagic : ℕ := 0xFFFFFFF8

/-- The first `n` 64-bit words of a byte slice. -/
def longs : ℕ → Bytes → List ℕ
  | 0, _ => []
  | n + 1, block => ofLE (block.take 8) :: longs n (block.drop 8)

def isZeros (block : Bytes) : Bool :=
  let alignedCount := (block.length &&& maxAlignedMagic) / 8
  (longs alignedCount block).all (· == 0) && (block.drop (alignedCount * 8)).all (· == 0)

lemma longs_all_zero_iff (n : ℕ) (block : Bytes) :
    (longs n block).all (· == 0) = true ↔ ∀ b ∈ block.take (n * 8), b = 0 := by
  induction n generalizing block with
  | zero => simp [longs]
  | succ n ih =>
    have hsplit : block.take ((n + 1) * 8) = block.take 8 ++ (block.drop 8).take (n * 8) := by
      rw [show (n + 1) * 8 = 8 + n * 8 by ring, List.take_add]
    rw [longs, List.all_cons, Bool.and_eq_true, ih, hsplit, beq_iff_eq, ofLE_eq_zero_iff]
    simp only [List.mem_append, or_imp, forall_and]

/-- Scanning by words and then by bytes is scanning by bytes. -/
lemma isZeros_iff {block : Bytes} : isZeros block = true ↔ ∀ b ∈ block, b = 0 := by
  set k := (block.length &&& maxAlignedMagic) / 8 * 8 with hk
  have hsplit : ∀ b, b ∈ block ↔ b ∈ block.take k ∨ b ∈ block.drop k := fun b => by
    rw [← List.mem_append, List.take_append_drop]
  rw [isZeros, Bool.and_eq_true, longs_all_zero_iff, ← hk, List.all_eq_true]
  simp only [beq_iff_eq, hsplit, or_imp, forall_and]

lemma isZeros_iff_eq_zeros {block : Bytes} : isZeros block = true ↔ block = zeros block.length := by
  rw [isZeros_iff, zeros, List.eq_replicate_iff]
  simp

@[simp] lemma isZeros_zeros (n : ℕ) : isZeros (zeros n) = true := by
  rw [isZeros_iff_eq_zeros, length_zeros]

/-! ## Clearing -/

/-- The doubling loop of `util.ZeroFill`, from `i` on.  Every round at least doubles `i`, so that
as many rounds as the slice is long are enough. -/
def zeroFillLoop : ℕ → ℕ → Bytes → Bytes
  | 0, _, block => block
  | rounds + 1, i, block =>
    if i < block.length then
      zeroFillLoop rounds (i <<< 1) (block.take i ++ goCopy (block.drop i) (block.take i))
    else block

def zeroFill (block : Bytes) : Bytes :=
  if block.length < 1 then block else zeroFillLoop block.length 1 (block.set 0 0)

lemma take_zeroFill_round {block : Bytes} {i : ℕ} (hi : i < block.length)
    (hz : block.take i = zeros i) :
    block.take i ++ goCopy (block.drop i) (block.take i) =
      zeros (min (2 * i) block.length) ++ block.drop (2 * i) := by
  have htake : (zeros i).take (block.length - i) = zeros (min i (block.length - i)) := by
    rw [zeros, List.take_replicate, Nat.min_comm, zeros]
  rw [hz, goCopy, length_zeros, List.length_drop, htake, List.drop_drop, ← List.append_assoc]
  congr 1
  · rw [zeros, zeros, zeros, List.replicate_append_replicate]
    congr 1
    omega
  · congr 1
    omega

/-- What a round keeps: the length, and that the bytes before the index are zero. -/
lemma zeroFill_round {block block' : Bytes} {i : ℕ} (hi : i < block.length)
    (hz : block.take i = zeros (min i block.length))
    (hround : block' = block.take i ++ goCopy (block.drop i) (block.take i)) :
    block'.length = block.length ∧ block'.take (2 * i) = zeros (min (2 * i) block'.length) := by
  rw [Nat.min_eq_left hi.le] at hz
  rw [take_zeroFill_round hi hz] at hround
  have hlen : block'.length = block.length := by
    rw [hround, List.length_append, length_zeros, List.length_drop]
    omega
  refine ⟨hlen, ?_⟩
  rw [hlen, hround, List.take_append, length_zeros]
  by_cases hle : 2 * i ≤ block.length
  · simp [zeros, Nat.min_eq_left hle]
  · rw [List.drop_eq_nil_of_le (by omega)]
    simp [zeros]

lemma zeroFillLoop_eq (rounds : ℕ) {i : ℕ} {block : Bytes} (hi : 0 < i)
    (hr : block.length ≤ rounds + i) (hz : block.take i = zeros (min i block.length)) :
    zeroFillLoop rounds i block = zeros block.length := by
  induction rounds generalizing i block with
  | zero =>
    rw [List.take_of_length_le (by omega), Nat.min_eq_right (by omega)] at hz
    rw [zeroFillLoop, hz, length_zeros]
  | succ rounds ih =>
    rw [zeroFillLoop]
    split_ifs with hlt
    · obtain ⟨hlen, hz'⟩ := zeroFill_round hlt hz rfl
      rw [Nat.shiftLeft_eq, pow_one, Nat.mul_comm, ih (by omega) (by rw [hlen]; omega) hz', hlen]
    · rw [List.take_of_length_le (by omega), Nat.min_eq_right (by omega)] at hz
      rw [hz, length_zeros]

/-- `ZeroFill` leaves a slice of the same length with every byte cleared. -/
lemma zeroFill_eq (block : Bytes) : zeroFill block = zeros block.length := by
  rw [zeroFill]
  split_ifs with h
  · have hnil : block = [] := List.length_eq_zero_iff.mp (by omega)
    rw [hnil]
    rfl
  · obtain ⟨b, bs, rfl⟩ := List.exists_cons_of_length_pos (show 0 < block.length by omega)
    rw [List.set_cons_zero, zeroFillLoop_eq _ Nat.one_pos] <;> simp [zeros]

end Usbd
