import Mathlib.Tactic

/-!
# Programs over a state

A program over a state `S` either returns a value and a new state or stops with an outcome of type
`Ω`.  `Returns m s Q` says that `m` started in `s` returns, and that what it returns satisfies `Q`:
a total-correctness weakest precondition.  It distributes over every way of putting programs
together, and each of those equations is a `simp` lemma, so that `simp` turns the specification of
a program into statements about the programs it calls.  `Yields` is the same without the promise to
return: partial correctness.  `Follows R m` says that `m` returns from every state and takes it
along the relation `R`; for a preorder it goes through every way of putting programs together.
-/

/-- A program over a state. -/
def Prog (S Ω α : Type*) := S → Except Ω (α × S)

namespace Prog

universe u

variable {S Ω : Type*} {α β : Type u}

instance : Monad (Prog S Ω) where
  pure a := fun s => .ok (a, s)
  bind m f := fun s => match m s with
    | .ok (a, s') => f a s'
    | .error e => .error e

lemma bind_apply (m : Prog S Ω α) (f : α → Prog S Ω β) (s : S) :
    (m >>= f) s = match m s with
      | .ok (a, s') => f a s'
      | .error e => .error e := rfl

/-- Read the state. -/
def get : Prog S Ω S := fun s => .ok (s, s)

/-- Change the state. -/
def modify (f : S → S) : Prog S Ω Unit := fun s => .ok ((), f s)

/-- End without returning. -/
def stop (e : Ω) : Prog S Ω α := fun _ => .error e

/-- The program returns, with a value and a state that satisfy `Q`. -/
def Returns (m : Prog S Ω α) (s : S) (Q : α → S → Prop) : Prop :=
  ∃ a s', m s = .ok (a, s') ∧ Q a s'

variable {Q R : α → S → Prop} {s : S}

@[simp] lemma returns_pure (a : α) : Returns (pure a : Prog S Ω α) s Q ↔ Q a s := by
  constructor
  · rintro ⟨b, t, h, hq⟩
    obtain ⟨rfl, rfl⟩ := Prod.mk.inj (Except.ok.inj h)
    exact hq
  · intro h
    exact ⟨a, s, rfl, h⟩

@[simp] lemma returns_bind (m : Prog S Ω β) (f : β → Prog S Ω α) :
    Returns (m >>= f) s Q ↔ Returns m s fun b t => Returns (f b) t Q := by
  constructor
  · rintro ⟨a, u, h, hq⟩
    change (match m s with
      | .ok (b, t) => f b t
      | .error e => .error e) = .ok (a, u) at h
    cases hm : m s with
    | ok r =>
      rw [hm] at h
      exact ⟨r.1, r.2, hm, a, u, h, hq⟩
    | error e =>
      rw [hm] at h
      cases h
  · rintro ⟨b, t, hm, a, u, h, hq⟩
    refine ⟨a, u, ?_, hq⟩
    change (match m s with
      | .ok (b, t) => f b t
      | .error e => .error e) = .ok (a, u)
    rw [hm]
    exact h

@[simp] lemma returns_get {Q : S → S → Prop} : Returns (get : Prog S Ω S) s Q ↔ Q s s := by
  constructor
  · rintro ⟨a, t, h, hq⟩
    obtain ⟨rfl, rfl⟩ := Prod.mk.inj (Except.ok.inj h)
    exact hq
  · intro h
    exact ⟨s, s, rfl, h⟩

@[simp] lemma returns_modify (f : S → S) {Q : Unit → S → Prop} :
    Returns (modify f : Prog S Ω Unit) s Q ↔ Q () (f s) := by
  constructor
  · rintro ⟨a, t, h, hq⟩
    obtain ⟨rfl, rfl⟩ := Prod.mk.inj (Except.ok.inj h)
    exact hq
  · intro h
    exact ⟨(), f s, rfl, h⟩

lemma returns_ite {c : Prop} [Decidable c] (m n : Prog S Ω α) :
    Returns (if c then m else n) s Q ↔ if c then Returns m s Q else Returns n s Q := by
  split_ifs <;> rfl

/-- The rule of consequence. -/
lemma Returns.mono {m : Prog S Ω α} (h : Returns m s Q) (hqr : ∀ a t, Q a t → R a t) :
    Returns m s R := by
  obtain ⟨a, t, hm, hq⟩ := h
  exact ⟨a, t, hm, hqr a t hq⟩

/-- What is known of a run is known of its value and state. -/
lemma Returns.eq {m : Prog S Ω α} (h : Returns m s Q) {a : α} {t : S} (hm : m s = .ok (a, t)) :
    Q a t := by
  obtain ⟨b, u, hm', hq⟩ := h
  obtain ⟨rfl, rfl⟩ := Prod.mk.inj (Except.ok.inj (hm'.symm.trans hm))
  exact hq

/-- Run the program and test what it returns. -/
def check (m : Prog S Ω α) (s : S) (test : α → Bool) : Bool :=
  match m s with
  | .ok (a, _) => test a
  | .error _ => false

lemma returns_of_check {m : Prog S Ω α} {test : α → Bool} (h : check m s test = true) :
    Returns m s fun a _ => test a = true := by
  unfold check at h
  cases hm : m s with
  | ok r =>
    rw [hm] at h
    exact ⟨r.1, r.2, hm, h⟩
  | error e =>
    rw [hm] at h
    cases h

/-- Whatever the program returns satisfies `Q`. -/
def Yields (m : Prog S Ω α) (s : S) (Q : α → S → Prop) : Prop :=
  ∀ a s', m s = .ok (a, s') → Q a s'

lemma yields_iff {m : Prog S Ω α} : Yields m s Q ↔ ∀ P, Returns m s P → Returns m s Q := by
  constructor
  · rintro h P ⟨a, t, hm, -⟩
    exact ⟨a, t, hm, h a t hm⟩
  · intro h a t hm
    exact (h (fun _ _ => True) ⟨a, t, hm, trivial⟩).eq hm

@[simp] lemma yields_pure (a : α) : Yields (pure a : Prog S Ω α) s Q ↔ Q a s := by
  rw [yields_iff]
  simp only [returns_pure]
  exact ⟨fun h => h (fun _ _ => True) trivial, fun h _ _ => h⟩

@[simp] lemma yields_bind (m : Prog S Ω β) (f : β → Prog S Ω α) :
    Yields (m >>= f) s Q ↔ Yields m s fun b t => Yields (f b) t Q := by
  constructor
  · intro h b t hm a u hf
    have hret : Returns (m >>= f) s fun a' u' => a' = a ∧ u' = u := by
      rw [returns_bind]
      exact ⟨b, t, hm, a, u, hf, rfl, rfl⟩
    obtain ⟨a', u', hmf, rfl, rfl⟩ := hret
    exact h a' u' hmf
  · intro h a u hmf
    have hret : Returns (m >>= f) s fun a' u' => a' = a ∧ u' = u := ⟨a, u, hmf, rfl, rfl⟩
    rw [returns_bind] at hret
    obtain ⟨b, t, hm, a', u', hf, rfl, rfl⟩ := hret
    exact h b t hm a' u' hf

@[simp] lemma yields_get {Q : S → S → Prop} : Yields (get : Prog S Ω S) s Q ↔ Q s s := by
  rw [yields_iff]
  simp only [returns_get]
  exact ⟨fun h => h (fun _ _ => True) trivial, fun h _ _ => h⟩

@[simp] lemma yields_stop (e : Ω) : Yields (stop e : Prog S Ω α) s Q := by
  intro a t h
  cases h

lemma Returns.yields {m : Prog S Ω α} (h : Returns m s Q) : Yields m s Q :=
  fun _ _ hm => h.eq hm

/-- What a program that returns yields is what it returns. -/
lemma Returns.and_yields {m : Prog S Ω α} (h : Returns m s Q) (hy : Yields m s R) :
    Returns m s fun a t => Q a t ∧ R a t := by
  obtain ⟨a, t, hm, hq⟩ := h
  exact ⟨a, t, hm, hq, hy a t hm⟩

lemma Yields.mono {m : Prog S Ω α} (h : Yields m s Q) (hqr : ∀ a t, Q a t → R a t) :
    Yields m s R := fun a t hm => hqr a t (h a t hm)

/-! ## Programs that follow a relation -/

/-- The program returns from every state, in a state that is related to it. -/
structure Follows (R : S → S → Prop) (m : Prog S Ω α) : Prop where
  returns : ∀ s, Returns m s fun _ t => R s t

section Follows

variable {R : S → S → Prop}

lemma follows_pure [Std.Refl R] (a : α) : Follows R (pure a : Prog S Ω α) :=
  ⟨fun s => (returns_pure a).mpr (Std.Refl.refl s)⟩

lemma follows_get [Std.Refl R] : Follows R (get : Prog S Ω S) :=
  ⟨fun s => returns_get.mpr (Std.Refl.refl s)⟩

lemma follows_modify {f : S → S} (h : ∀ s, R s (f s)) : Follows R (modify f : Prog S Ω Unit) :=
  ⟨fun s => (returns_modify f).mpr (h s)⟩

lemma Follows.bind [IsTrans S R] {m : Prog S Ω β} {f : β → Prog S Ω α} (hm : Follows R m)
    (hf : ∀ b, Follows R (f b)) : Follows R (m >>= f) := by
  refine ⟨fun s => (returns_bind m f).mpr ?_⟩
  refine (hm.returns s).mono fun b t hst => ?_
  exact ((hf b).returns t).mono fun _ u htu => IsTrans.trans s t u hst htu

lemma Follows.ite {c : Prop} [Decidable c] {m n : Prog S Ω α} (hm : Follows R m)
    (hn : Follows R n) : Follows R (if c then m else n) := by
  split_ifs
  · exact hm
  · exact hn

end Follows

end Prog
