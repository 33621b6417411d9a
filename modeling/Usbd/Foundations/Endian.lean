import Mathlib.Tactic

/-!
# Fixed-width integers as bytes

A number is written in exactly `w` bytes, least significant first (`leBytes`) or most significant
first (`beBytes`), and read back by `ofLE` and `ofBE`.  Both directions of the round trip are
here: what was written reads back as itself when it fits, and `w` bytes read as a number are
written back as themselves.
-/

namespace Endian

/-- The `w` low-order bytes of `n`, least significant first. -/
def leBytes : ℕ → ℕ → List UInt8
  | 0, _ => []
  | w + 1, n => UInt8.ofNat n :: leBytes w (n / 256)

/-- The number whose bytes, least significant first, are given. -/
def ofLE : List UInt8 → ℕ
  | [] => 0
  | b :: bs => b.toNat + 256 * ofLE bs

/-- The `w` low-order bytes of `n`, most significant first. -/
def beBytes (w n : ℕ) : List UInt8 := (leBytes w n).reverse

/-- The number whose bytes, most significant first, are given. -/
def ofBE (bs : List UInt8) : ℕ := ofLE bs.reverse

@[simp] lemma length_leBytes (w n : ℕ) : (leBytes w n).length = w := by
  induction w generalizing n with
  | zero => rfl
  | succ w ih => simp [leBytes, ih]

@[simp] lemma length_beBytes (w n : ℕ) : (beBytes w n).length = w := by
  simp [beBytes]

lemma ofLE_leBytes {w n : ℕ} (h : n < 256 ^ w) : ofLE (leBytes w n) = n := by
  induction w generalizing n with
  | zero =>
      simp only [pow_zero] at h
      simp only [leBytes, ofLE]
      omega
  | succ w ih =>
      have hdiv : n / 256 < 256 ^ w := by
        rw [pow_succ] at h
        omega
      have hbyte : (UInt8.ofNat n).toNat = n % 256 := by simp
      rw [leBytes, ofLE, ih hdiv, hbyte]
      omega

lemma ofLE_eq_zero_iff {bs : List UInt8} : ofLE bs = 0 ↔ ∀ b ∈ bs, b = 0 := by
  induction bs with
  | nil => simp [ofLE]
  | cons b bs ih =>
      have hb : b.toNat = 0 ↔ b = 0 := by simp [← UInt8.toNat_inj]
      simp only [ofLE, Nat.add_eq_zero_iff, Nat.mul_eq_zero, List.mem_cons, forall_eq_or_imp, hb,
        OfNat.ofNat_ne_zero, false_or, ih]

lemma ofBE_beBytes {w n : ℕ} (h : n < 256 ^ w) : ofBE (beBytes w n) = n := by
  rw [ofBE, beBytes, List.reverse_reverse, ofLE_leBytes h]

lemma leBytes_ofLE (bs : List UInt8) : leBytes bs.length (ofLE bs) = bs := by
  induction bs with
  | nil => rfl
  | cons b bs ih =>
      have hb : b.toNat < 256 := b.toNat_lt
      have hdiv : (b.toNat + 256 * ofLE bs) / 256 = ofLE bs := by omega
      have hbyte : UInt8.ofNat (b.toNat + 256 * ofLE bs) = b := by
        apply UInt8.toNat.inj
        simp
      rw [List.length_cons, leBytes, ofLE, hdiv, ih, hbyte]

lemma beBytes_ofBE {bs : List UInt8} {w : ℕ} (h : bs.length = w) : beBytes w (ofBE bs) = bs := by
  rw [beBytes, ofBE, ← h, ← List.length_reverse, leBytes_ofLE, List.reverse_reverse]

/-- Reversing the byte order of a number turns one writing order into the other. -/
lemma leBytes_ofBE_leBytes {w n : ℕ} :
    leBytes w (ofBE (leBytes w n)) = beBytes w n := by
  have h := leBytes_ofLE (beBytes w n)
  rwa [length_beBytes] at h

end Endian
