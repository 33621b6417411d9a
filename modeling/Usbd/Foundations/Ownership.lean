import Mathlib.Tactic

/-!
# Objects with one owner

Objects are numbered in the order they are made.  Each is in one place at a time: parked in a list,
that of a pool or a queue, or held by a thread; an object that is nowhere has been dropped.
`Exclusive` is that discipline.  It is kept when an object is made, dropped, taken and given back,
and it does not see the order in which objects are parked.  Taking and giving back leave alone which
objects have a place (`placed_take`, `placed_give`).
-/

namespace Ownership

variable {ι : Type*}

/-- Every object is parked once, or held by one thread, or neither. -/
structure Exclusive (parked : List ℕ) (held : ι → Option ℕ) (made : ℕ) : Prop where
  nodup : parked.Nodup
  parked_lt : ∀ a ∈ parked, a < made
  held_lt : ∀ i a, held i = some a → a < made
  held_notMem : ∀ i a, held i = some a → a ∉ parked
  held_inj : ∀ i j a, held i = some a → held j = some a → i = j

/-- An object is parked or held. -/
def Placed (parked : List ℕ) (held : ι → Option ℕ) (a : ℕ) : Prop :=
  a ∈ parked ∨ ∃ i, held i = some a

variable {parked parked' : List ℕ} {held : ι → Option ℕ} {made made' a b : ℕ} {i : ι}

lemma placed_perm (hperm : parked.Perm parked') : Placed parked held b ↔ Placed parked' held b :=
  or_congr_left hperm.mem_iff

lemma placed_cons : Placed (a :: parked) held b ↔ b = a ∨ Placed parked held b := by
  simp only [Placed, List.mem_cons, or_assoc]

namespace Exclusive

lemma nothing : Exclusive [] (fun _ : ι => none) 0 where
  nodup := List.nodup_nil
  parked_lt a ha := by cases ha
  held_lt i a h := by cases h
  held_notMem i a h := by cases h
  held_inj i j a h := by cases h

lemma perm (h : Exclusive parked held made) (hperm : parked.Perm parked') :
    Exclusive parked' held made where
  nodup := hperm.nodup_iff.mp h.nodup
  parked_lt a ha := h.parked_lt a (hperm.mem_iff.mpr ha)
  held_lt := h.held_lt
  held_notMem i a hi ha := h.held_notMem i a hi (hperm.mem_iff.mpr ha)
  held_inj := h.held_inj

lemma placed_lt (h : Exclusive parked held made) (hplaced : Placed parked held a) : a < made := by
  rcases hplaced with hmem | ⟨i, hi⟩
  · exact h.parked_lt a hmem
  · exact h.held_lt i a hi

lemma mono (h : Exclusive parked held made) (hle : made ≤ made') : Exclusive parked held made' where
  nodup := h.nodup
  parked_lt a ha := (h.parked_lt a ha).trans_le hle
  held_lt i a hi := (h.held_lt i a hi).trans_le hle
  held_notMem := h.held_notMem
  held_inj := h.held_inj

lemma park (h : Exclusive parked held made) (hlt : a < made) (hnew : ¬ Placed parked held a) :
    Exclusive (a :: parked) held made where
  nodup := List.nodup_cons.mpr ⟨fun hmem => hnew (Or.inl hmem), h.nodup⟩
  parked_lt b hb := by
    rcases List.mem_cons.mp hb with rfl | hb
    · exact hlt
    · exact h.parked_lt b hb
  held_lt := h.held_lt
  held_notMem i b hi hb := by
    rcases List.mem_cons.mp hb with rfl | hb
    · exact hnew (Or.inr ⟨i, hi⟩)
    · exact h.held_notMem i b hi hb
  held_inj := h.held_inj

lemma make (h : Exclusive parked held made) : Exclusive (made :: parked) held (made + 1) :=
  (h.mono (Nat.le_succ made)).park (Nat.lt_succ_self made)
    fun hplaced => (h.placed_lt hplaced).ne rfl

lemma drop (h : Exclusive (a :: parked) held made) : Exclusive parked held made where
  nodup := (List.nodup_cons.mp h.nodup).2
  parked_lt b hb := h.parked_lt b (List.mem_cons_of_mem a hb)
  held_lt := h.held_lt
  held_notMem i b hi hb := h.held_notMem i b hi (List.mem_cons_of_mem a hb)
  held_inj := h.held_inj

variable [DecidableEq ι]

lemma take (h : Exclusive (a :: parked) held made) (hfree : held i = none) :
    Exclusive parked (Function.update held i (some a)) made := by
  obtain ⟨hnot, -⟩ := List.nodup_cons.mp h.nodup
  have hheld : ∀ j b, Function.update held i (some a) j = some b →
      j = i ∧ b = a ∨ j ≠ i ∧ held j = some b := by
    intro j b hj
    by_cases hji : j = i
    · subst hji
      rw [Function.update_self, Option.some.injEq] at hj
      exact Or.inl ⟨rfl, hj.symm⟩
    · rw [Function.update_of_ne hji] at hj
      exact Or.inr ⟨hji, hj⟩
  have hother : ∀ j, held j ≠ some a := fun j hj =>
    h.held_notMem j a hj (List.mem_cons_self ..)
  refine ⟨h.drop.nodup, h.drop.parked_lt, fun j b hj => ?_, fun j b hj => ?_, fun j k b hj hk => ?_⟩
  · rcases hheld j b hj with ⟨-, rfl⟩ | ⟨-, hj⟩
    · exact h.parked_lt b (List.mem_cons_self ..)
    · exact h.held_lt j b hj
  · rcases hheld j b hj with ⟨-, rfl⟩ | ⟨-, hj⟩
    · exact hnot
    · exact h.drop.held_notMem j b hj
  · rcases hheld j b hj with ⟨rfl, rfl⟩ | ⟨-, hj'⟩ <;> rcases hheld k b hk with ⟨rfl, hb⟩ | ⟨-, hk'⟩
    · rfl
    · exact absurd hk' (hother k)
    · exact absurd (hb ▸ hj') (hother j)
    · exact h.held_inj j k b hj' hk'

lemma give (h : Exclusive parked held made) (hheld : held i = some a) :
    Exclusive (a :: parked) (Function.update held i none) made := by
  have hstill : ∀ j b, Function.update held i none j = some b → j ≠ i ∧ held j = some b := by
    intro j b hj
    have hji : j ≠ i := by
      rintro rfl
      rw [Function.update_self] at hj
      cases hj
    rw [Function.update_of_ne hji] at hj
    exact ⟨hji, hj⟩
  refine ⟨List.nodup_cons.mpr ⟨h.held_notMem i a hheld, h.nodup⟩, fun b hb => ?_, fun j b hj => ?_,
    fun j b hj hb => ?_, fun j k b hj hk => ?_⟩
  · rcases List.mem_cons.mp hb with rfl | hb
    · exact h.held_lt i b hheld
    · exact h.parked_lt b hb
  · exact h.held_lt j b (hstill j b hj).2
  · obtain ⟨hji, hj⟩ := hstill j b hj
    rcases List.mem_cons.mp hb with rfl | hb
    · exact hji (h.held_inj j i b hj hheld)
    · exact h.held_notMem j b hj hb
  · exact h.held_inj j k b (hstill j b hj).2 (hstill k b hk).2

end Exclusive

variable [DecidableEq ι]

lemma placed_take (hfree : held i = none) :
    Placed parked (Function.update held i (some a)) b ↔ Placed (a :: parked) held b := by
  have hheld : (∃ j, Function.update held i (some a) j = some b) ↔
      b = a ∨ ∃ j, held j = some b := by
    rw [Function.exists_update_iff held fun _ x => x = some b, Option.some.injEq, eq_comm]
    refine or_congr_right (exists_congr fun j => and_iff_right_of_imp ?_)
    rintro hj rfl
    rw [hfree] at hj
    cases hj
  rw [placed_cons, Placed, hheld, Placed, or_left_comm]

lemma placed_give (hheld : held i = some a) :
    Placed (a :: parked) (Function.update held i none) b ↔ Placed parked held b := by
  have hback : Function.update (Function.update held i none) i (some a) = held := by
    rw [Function.update_idem, ← hheld, Function.update_eq_self]
  rw [← placed_take (Function.update_self i none held), hback]

/-! ## Threads with a state

What a thread holds is read off its state. -/

section Threads

variable {σ : Type*} {f : σ → Option ℕ} {threads : ι → σ} {x : σ}

/-- A thread goes on, with nothing to be seen of it. -/
lemma comp_update_eq {β : Type*} {g : σ → β} (h : g x = g (threads i)) :
    g ∘ Function.update threads i x = g ∘ threads := by
  rw [Function.comp_update, h]
  exact Function.update_eq_self i (g ∘ threads)

lemma Exclusive.take_comp (h : Exclusive (a :: parked) (f ∘ threads) made)
    (hfree : f (threads i) = none) (hx : f x = some a) :
    Exclusive parked (f ∘ Function.update threads i x) made := by
  rw [Function.comp_update, hx]
  exact h.take hfree

lemma Exclusive.give_comp (h : Exclusive parked (f ∘ threads) made) (hheld : f (threads i) = some a)
    (hx : f x = none) : Exclusive (a :: parked) (f ∘ Function.update threads i x) made := by
  rw [Function.comp_update, hx]
  exact h.give hheld

lemma placed_take_comp (hfree : f (threads i) = none) (hx : f x = some a) :
    Placed parked (f ∘ Function.update threads i x) b ↔ Placed (a :: parked) (f ∘ threads) b := by
  rw [Function.comp_update, hx]
  exact placed_take hfree

lemma placed_give_comp (hheld : f (threads i) = some a) (hx : f x = none) :
    Placed (a :: parked) (f ∘ Function.update threads i x) b ↔ Placed parked (f ∘ threads) b := by
  rw [Function.comp_update, hx]
  exact placed_give hheld

end Threads

end Ownership
