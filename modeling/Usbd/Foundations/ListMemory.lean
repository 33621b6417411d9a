import Mathlib.Data.List.Basic
import Mathlib.Data.List.TakeDrop
import Mathlib.Tactic

/-!
# Lists as growable memories

A file, a disk and a cache entry are all the same object seen from the outside: a finite run
of cells that is read by position and overwritten by position, and that grows when a write
reaches past its end, the gap being filled with a fixed value.  This file fixes that object as
a plain list over an arbitrary cell type, with one reading operation (`slice`) and one writing
operation (`overwrite`).

The whole interface is pointwise: `getElem?_slice` and `getElem?_overwrite` say what each
operation does to every position, and the rest — a read inside the written range, a read beside
it, a write of what is already there — is read off those two.
-/

namespace ListMemory

variable {α : Type*}

/-! ## Reading -/

/-- The `n` cells from position `p` on; fewer when the memory ends before that. -/
def slice (xs : List α) (p n : ℕ) : List α := (xs.drop p).take n

lemma length_slice (xs : List α) (p n : ℕ) : (slice xs p n).length = min n (xs.length - p) := by
  simp [slice]

lemma length_slice_of_le {xs : List α} {p n : ℕ} (h : p + n ≤ xs.length) :
    (slice xs p n).length = n := by
  rw [length_slice]
  omega

/-- The first of several blocks, and the others. -/
lemma length_take_drop_block {xs : List α} {n k : ℕ} (h : xs.length = (n + 1) * k) :
    (xs.take k).length = k ∧ (xs.drop k).length = n * k := by
  rw [Nat.succ_mul] at h
  rw [List.length_take, List.length_drop]
  omega

lemma getElem?_slice (xs : List α) (p n i : ℕ) :
    (slice xs p n)[i]? = if i < n then xs[p + i]? else none := by
  simp [slice, List.getElem?_take]

@[simp] lemma slice_zero_length (xs : List α) : slice xs 0 xs.length = xs := by
  simp [slice]

@[simp] lemma slice_len_zero (xs : List α) (p : ℕ) : slice xs p 0 = [] := by
  simp [slice]

lemma slice_replicate (a : α) {m p n : ℕ} (h : p + n ≤ m) :
    slice (List.replicate m a) p n = List.replicate n a := by
  rw [slice, List.drop_replicate, List.take_replicate]
  congr 1
  omega

lemma slice_congr {xs ys : List α} {p n : ℕ}
    (h : ∀ i, p ≤ i → i < p + n → xs[i]? = ys[i]?) : slice xs p n = slice ys p n := by
  apply List.ext_getElem?
  intro i
  rw [getElem?_slice, getElem?_slice]
  split_ifs with hi
  · exact h (p + i) (by omega) (by omega)
  · rfl

/-- A read splits at any intermediate position. -/
lemma slice_append_slice (xs : List α) (p m n : ℕ) :
    slice xs p m ++ slice xs (p + m) n = slice xs p (m + n) := by
  rw [slice, slice, slice, List.take_add, List.drop_drop]

lemma slice_slice (xs : List α) {p n q m : ℕ} (h : q + m ≤ n) :
    slice (slice xs p n) q m = slice xs (p + q) m := by
  apply List.ext_getElem?
  intro i
  rw [getElem?_slice, getElem?_slice, getElem?_slice]
  split_ifs <;> first | rfl | omega | skip
  congr 1
  omega

/-! ## Writing -/

/-- `ys` written over `xs` from position `p` on.  An empty write leaves the memory alone; a
write past the end extends it, with `fill` in the gap. -/
def overwrite (fill : α) (xs : List α) (p : ℕ) (ys : List α) : List α :=
  if ys.isEmpty then xs
  else xs.take p ++ List.replicate (p - xs.length) fill ++ ys ++ xs.drop (p + ys.length)

variable (fill : α)

@[simp] lemma overwrite_nil (xs : List α) (p : ℕ) : overwrite fill xs p [] = xs := rfl

lemma overwrite_of_ne_nil (xs : List α) (p : ℕ) {ys : List α} (h : ys ≠ []) :
    overwrite fill xs p ys =
      xs.take p ++ List.replicate (p - xs.length) fill ++ ys ++ xs.drop (p + ys.length) := by
  cases ys with
  | nil => exact absurd rfl h
  | cons y ys => rfl

/-- A write that begins `gap` cells behind the end. -/
lemma overwrite_length_add (xs : List α) (gap : ℕ) {ys : List α} (h : ys ≠ []) :
    overwrite fill xs (xs.length + gap) ys = xs ++ List.replicate gap fill ++ ys := by
  rw [overwrite_of_ne_nil fill xs _ h, List.take_of_length_le (by omega),
    List.drop_eq_nil_of_le (by omega), Nat.add_sub_cancel_left, List.append_nil]

lemma length_overwrite (xs : List α) (p : ℕ) {ys : List α} (h : ys ≠ []) :
    (overwrite fill xs p ys).length = max xs.length (p + ys.length) := by
  rw [overwrite_of_ne_nil fill xs p h]
  simp only [List.length_append, List.length_take, List.length_replicate, List.length_drop]
  omega

lemma length_overwrite_of_le {xs : List α} {p : ℕ} {ys : List α}
    (h : p + ys.length ≤ xs.length) : (overwrite fill xs p ys).length = xs.length := by
  by_cases hy : ys = []
  · rw [hy, overwrite_nil]
  · rw [length_overwrite fill xs p hy]
    omega

lemma length_le_length_overwrite (xs : List α) (p : ℕ) (ys : List α) :
    xs.length ≤ (overwrite fill xs p ys).length := by
  by_cases hy : ys = []
  · rw [hy, overwrite_nil]
  · rw [length_overwrite fill xs p hy]
    omega

lemma length_overwrite_le (xs : List α) (p : ℕ) (ys : List α) :
    (overwrite fill xs p ys).length ≤ max xs.length (p + ys.length) := by
  by_cases hy : ys = []
  · rw [hy, overwrite_nil]
    omega
  · rw [length_overwrite fill xs p hy]

/-- What a non-empty write leaves at every position. -/
lemma getElem?_overwrite (xs : List α) (p : ℕ) {ys : List α} (h : ys ≠ []) (i : ℕ) :
    (overwrite fill xs p ys)[i]? =
      if i < p then (if i < xs.length then xs[i]? else some fill)
      else if i < p + ys.length then ys[i - p]? else xs[i]? := by
  have hlen : (xs.take p ++ List.replicate (p - xs.length) fill).length = p := by
    simp only [List.length_append, List.length_take, List.length_replicate]
    omega
  rw [overwrite_of_ne_nil fill xs p h, List.append_assoc]
  split_ifs with hp hx hy
  · rw [List.getElem?_append_left (by omega), List.getElem?_append_left (by simp; omega),
      List.getElem?_take_of_lt hp]
  · rw [List.getElem?_append_left (by omega), List.getElem?_append_right (by simp; omega),
      List.getElem?_replicate, if_pos (by simp only [List.length_take]; omega)]
  · rw [List.getElem?_append_right (by omega), hlen, List.getElem?_append_left (by omega)]
  · rw [List.getElem?_append_right (by omega), hlen, List.getElem?_append_right (by omega),
      List.getElem?_drop]
    congr 1
    omega

/-- Inside an existing memory a write touches the written positions and no other. -/
lemma getElem?_overwrite_of_le {xs : List α} {p : ℕ} {ys : List α}
    (h : p + ys.length ≤ xs.length) (i : ℕ) :
    (overwrite fill xs p ys)[i]? = if p ≤ i ∧ i < p + ys.length then ys[i - p]? else xs[i]? := by
  by_cases hy : ys = []
  · subst hy
    rw [overwrite_nil, if_neg (by simp)]
  · rw [getElem?_overwrite fill xs p hy]
    split_ifs <;> first | rfl | omega

lemma slice_overwrite_self (xs : List α) (p : ℕ) (ys : List α) :
    slice (overwrite fill xs p ys) p ys.length = ys := by
  by_cases hy : ys = []
  · simp [hy]
  · apply List.ext_getElem?
    intro i
    rw [getElem?_slice, getElem?_overwrite fill xs p hy]
    split_ifs with hi <;> first | omega | (congr 1; omega) | skip
    exact (List.getElem?_eq_none (by omega)).symm

/-- A read of existing cells beside the written range is unaffected. -/
lemma slice_overwrite_of_disjoint {xs : List α} {p q n : ℕ} {ys : List α}
    (hq : q + n ≤ xs.length) (h : q + n ≤ p ∨ p + ys.length ≤ q) :
    slice (overwrite fill xs p ys) q n = slice xs q n := by
  by_cases hy : ys = []
  · rw [hy, overwrite_nil]
  · refine slice_congr (fun i hi hi' => ?_)
    rw [getElem?_overwrite fill xs p hy]
    split_ifs <;> first | rfl | omega

lemma overwrite_eq_self {xs : List α} {p : ℕ} {ys : List α}
    (hle : p + ys.length ≤ xs.length) (h : slice xs p ys.length = ys) :
    overwrite fill xs p ys = xs := by
  apply List.ext_getElem?
  intro i
  rw [getElem?_overwrite_of_le fill hle]
  split_ifs with hi
  · rw [← h, getElem?_slice, if_pos (by omega)]
    congr 1
    omega
  · rfl

/-- A write inside a range changes what is read of the range, and nothing else. -/
lemma slice_overwrite_within {xs : List α} {p n q : ℕ} {ys : List α}
    (hq : q + ys.length ≤ n) (hp : p + n ≤ xs.length) :
    slice (overwrite fill xs (p + q) ys) p n = overwrite fill (slice xs p n) q ys := by
  apply List.ext_getElem?
  intro i
  have hlen : (slice xs p n).length = n := length_slice_of_le hp
  rw [getElem?_overwrite_of_le fill (hlen.symm ▸ hq), getElem?_slice, getElem?_slice,
    getElem?_overwrite_of_le fill (by omega)]
  split_ifs <;> first | rfl | omega | skip
  congr 1
  omega

/-- Two writes one behind the other. -/
lemma overwrite_overwrite_append (xs : List α) (p : ℕ) (ys zs : List α) :
    overwrite fill (overwrite fill xs p ys) (p + ys.length) zs =
      overwrite fill xs p (ys ++ zs) := by
  by_cases hy : ys = []
  · simp [hy]
  by_cases hz : zs = []
  · simp [hz]
  have hyz : ys ++ zs ≠ [] := by simp [hy]
  have hlen := length_overwrite fill xs p hy
  apply List.ext_getElem?
  intro i
  rw [getElem?_overwrite fill _ _ hz, getElem?_overwrite fill _ _ hy,
    getElem?_overwrite fill _ _ hyz, List.length_append, hlen]
  split_ifs <;> first | rfl | omega | skip
  · rw [List.getElem?_append_left (by omega)]
  · rw [List.getElem?_append_right (by omega)]
    congr 1
    omega
/-- Two writes one behind the other, of which the first may have been left out: they amount to one
exactly when each is what it should be. -/
lemma overwrite_append_iff {xs ys zs : List α} {p : ℕ} {ms rs : List α}
    (h : p + (ys ++ zs).length ≤ xs.length) (hm : ms = xs ∨ ms = overwrite fill xs p ys)
    (hr : slice rs p ys.length = slice ms p ys.length) :
    (ms = overwrite fill xs p ys ∧ rs = overwrite fill ms (p + ys.length) zs) ↔
      rs = overwrite fill xs p (ys ++ zs) := by
  constructor
  · rintro ⟨rfl, rfl⟩
    exact overwrite_overwrite_append fill ..
  · intro hrs
    have hys : slice ms p ys.length = ys := by
      have hself := slice_overwrite_self fill xs p (ys ++ zs)
      have hsub := slice_slice rs (p := p) (q := 0) (show 0 + ys.length ≤ (ys ++ zs).length by simp)
      rw [← hrs] at hself
      rw [hself, Nat.add_zero] at hsub
      rw [← hr, ← hsub]
      simp [slice]
    have hms : ms = overwrite fill xs p ys := by
      rcases hm with rfl | hm
      · rw [List.length_append] at h
        exact (overwrite_eq_self fill (by omega) hys).symm
      · exact hm
    refine ⟨hms, ?_⟩
    rw [hrs, hms, overwrite_overwrite_append]

/-! ## Memories in pieces -/

lemma overwrite_append_left {xs zs ys : List α} {p : ℕ} (h : p + ys.length ≤ xs.length) :
    overwrite fill (xs ++ zs) p ys = overwrite fill xs p ys ++ zs := by
  by_cases hy : ys = []
  · simp [hy]
  · rw [overwrite_of_ne_nil fill _ p hy, overwrite_of_ne_nil fill _ p hy,
      List.take_append_of_le_length (by omega), List.drop_append_of_le_length h,
      show p - (xs ++ zs).length = 0 by simp; omega, show p - xs.length = 0 by omega]
    simp

lemma overwrite_append_right (xs zs ys : List α) (p : ℕ) :
    overwrite fill (xs ++ zs) (xs.length + p) ys = xs ++ overwrite fill zs p ys := by
  by_cases hy : ys = []
  · simp [hy]
  · rw [overwrite_of_ne_nil fill _ _ hy, overwrite_of_ne_nil fill _ p hy,
      List.take_length_add_append,
      Nat.add_assoc, List.drop_length_add_append, List.length_append, Nat.add_sub_add_left]
    simp [List.append_assoc]

lemma getElem?_concat_eq_some {xs : List α} {x y : α} {i : ℕ} :
    (xs ++ [x])[i]? = some y ↔ xs[i]? = some y ∨ i = xs.length ∧ x = y := by
  rcases lt_trichotomy i xs.length with hlt | rfl | hgt
  · rw [List.getElem?_append_left hlt]
    exact ⟨.inl, fun h => h.resolve_right fun h => hlt.ne h.1⟩
  · simp
  · rw [List.getElem?_eq_none (by simpa using hgt), List.getElem?_eq_none hgt.le]
    simp [hgt.ne']

/-- Reading inside one of several pieces of equal length. -/
lemma slice_flatten {ls : List (List α)} {k i p n : ℕ} {xs : List α} (hk : ∀ l ∈ ls, l.length = k)
    (hi : ls[i]? = some xs) (h : p + n ≤ k) : slice ls.flatten (i * k + p) n = slice xs p n := by
  induction ls generalizing i with
  | nil => simp at hi
  | cons l ls ih =>
    have hl : l.length = k := hk l List.mem_cons_self
    cases i with
    | zero =>
      obtain rfl : l = xs := by simpa using hi
      rw [List.flatten_cons, slice, slice, Nat.zero_mul, Nat.zero_add,
        List.drop_append_of_le_length (by omega),
        List.take_append_of_le_length (by rw [List.length_drop]; omega)]
    | succ i =>
      rw [← ih (fun l hl => hk l (List.mem_cons_of_mem _ hl)) (by simpa using hi),
        List.flatten_cons,
        slice, slice, show (i + 1) * k + p = l.length + (i * k + p) by rw [hl, Nat.add_mul]; omega,
        List.drop_length_add_append]

/-- Writing inside one of several pieces of equal length. -/
lemma flatten_set_overwrite {ls : List (List α)} {k i p : ℕ} {xs ys : List α}
    (hk : ∀ l ∈ ls, l.length = k) (hi : ls[i]? = some xs) (h : p + ys.length ≤ k) :
    (ls.set i (overwrite fill xs p ys)).flatten = overwrite fill ls.flatten (i * k + p) ys := by
  induction ls generalizing i with
  | nil => simp at hi
  | cons l ls ih =>
    have hl : l.length = k := hk l List.mem_cons_self
    cases i with
    | zero =>
      obtain rfl : l = xs := by simpa using hi
      rw [List.set_cons_zero, List.flatten_cons, List.flatten_cons, Nat.zero_mul, Nat.zero_add,
        overwrite_append_left fill (by omega)]
    | succ i =>
      rw [List.set_cons_succ, List.flatten_cons, List.flatten_cons,
        ih (fun l hl => hk l (List.mem_cons_of_mem _ hl)) (by simpa using hi),
        show (i + 1) * k + p = l.length + (i * k + p) by rw [hl, Nat.add_mul]; omega,
        overwrite_append_right]

lemma length_flatten_of_length_eq {ls : List (List α)} {k : ℕ} (hk : ∀ l ∈ ls, l.length = k) :
    ls.flatten.length = ls.length * k := by
  induction ls with
  | nil => simp
  | cons l ls ih =>
    rw [List.flatten_cons, List.length_append, ih (fun l hl => hk l (List.mem_cons_of_mem _ hl)),
      hk l List.mem_cons_self, List.length_cons, Nat.add_mul]
    omega

end ListMemory
