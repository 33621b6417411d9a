import Mathlib.Tactic
import Mathlib.Algebra.BigOperators.Group.Finset.Piecewise

/-!
# Counting over threads

The state of finitely many threads is a function, and what they have between them is a sum of what
each one has.  When one thread moves, the sum changes by the difference.
-/

namespace Threads

variable {ι A : Type*} [Fintype ι]

/-- What the threads have between them. -/
def total (count : A → ℕ) (threads : ι → A) : ℕ := ∑ t, count (threads t)

variable {count : A → ℕ} {threads : ι → A}

lemma total_const {a : A} (h : count a = 0) : total count (fun _ : ι => a) = 0 :=
  Finset.sum_eq_zero fun _ _ => h

lemma le_total (t : ι) : count (threads t) ≤ total count threads :=
  Finset.single_le_sum (f := fun t => count (threads t)) (fun _ _ => Nat.zero_le _)
    (Finset.mem_univ t)

lemma exists_pos_of_total_pos (h : 0 < total count threads) : ∃ t, 0 < count (threads t) := by
  obtain ⟨t, -, ht⟩ := Finset.exists_ne_zero_of_sum_ne_zero h.ne'
  exact ⟨t, Nat.pos_of_ne_zero ht⟩

lemma total_add (f g : A → ℕ) (threads : ι → A) :
    total (fun a => f a + g a) threads = total f threads + total g threads :=
  Finset.sum_add_distrib

/-- What every thread has less of, and one of them strictly, they have less of between them. -/
lemma total_lt_total {f g : A → ℕ} (h : ∀ a, f a ≤ g a) {t : ι}
    (ht : f (threads t) < g (threads t)) :
    total f threads < total g threads :=
  Finset.sum_lt_sum (fun u _ => h (threads u)) ⟨t, Finset.mem_univ t, ht⟩

lemma total_update [DecidableEq ι] (count : A → ℕ) (threads : ι → A) (t : ι) (a : A) :
    total count (Function.update threads t a) + count (threads t) =
      total count threads + count a := by
  have hsplit : ∀ f : ι → A, total count f =
      count (f t) + ∑ u ∈ Finset.univ.erase t, count (f u) := fun f =>
    (Finset.add_sum_erase _ (fun u => count (f u)) (Finset.mem_univ t)).symm
  have hrest : ∑ u ∈ Finset.univ.erase t, count (Function.update threads t a u) =
      ∑ u ∈ Finset.univ.erase t, count (threads u) :=
    Finset.sum_congr rfl fun u hu => by rw [Function.update_of_ne (Finset.ne_of_mem_erase hu)]
  rw [hsplit, hsplit threads, hrest, Function.update_self]
  omega

end Threads
