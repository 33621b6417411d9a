import Usbd.Foundations.Atomic

/-!
# Objects that serve a call piece by piece

A call of an atomic object takes effect at one instant.  Here a call may take several: at each, a
piece of it takes effect, and what is left of it is again an operation.  Between two pieces of one
call there may be pieces of others.  What such an object does at an instant is a relation between
the value before, the operation, the value after, and the rest of the operation or its result.

A thread of a machine that implements such an object takes its `Turn`: nothing happens that matters,
or a piece of its call takes effect.  Operations that are never left over are atomic
(`Shows.atomic`).
-/

namespace Pieces

open Atomic (Phase Sight State)

variable {V O R : Type*}

/-- The phase of a thread of whose call this is left. -/
def phaseOf : O ⊕ R → Phase O R
  | .inl op => .called op
  | .inr res => .finished res

/-- The object goes from a state to another, and shows these calls and returns on the way. -/
inductive Shows (effect : V → O → V → O ⊕ R → Prop) (s₀ : State V O R) :
    List (Sight O R) → State V O R → Prop
  | start : Shows effect s₀ [] s₀
  | call {h : List (Sight O R)} {s : State V O R} {t : ℕ} (op : O) (hs : Shows effect s₀ h s)
      (hidle : s.phase t = .idle) :
      Shows effect s₀ (h ++ [.call t op]) (s.goto t (.called op))
  | piece {h : List (Sight O R)} {s : State V O R} {t : ℕ} {op : O} {v : V} {left : O ⊕ R}
      (hs : Shows effect s₀ h s) (hcalled : s.phase t = .called op)
      (heffect : effect s.value op v left) :
      Shows effect s₀ h { s.goto t (phaseOf left) with value := v }
  | ret {h : List (Sight O R)} {s : State V O R} {t : ℕ} {res : R} (hs : Shows effect s₀ h s)
      (hfinished : s.phase t = .finished res) :
      Shows effect s₀ (h ++ [.ret t res]) (s.goto t .idle)

/-- What a step of a thread comes to: nothing, or a piece of its call. -/
inductive Turn (effect : V → O → V → O ⊕ R → Prop) : V → Phase O R → V → Phase O R → Prop
  | stays {v : V} {p : Phase O R} : Turn effect v p v p
  | piece {v w : V} {op : O} {left : O ⊕ R} (heffect : effect v op w left) :
      Turn effect v (.called op) w (phaseOf left)

theorem Shows.turn {effect : V → O → V → O ⊕ R → Prop} {s₀ s : State V O R} {h : List (Sight O R)}
    {t : ℕ} {p q : Phase O R} {v : V} (hs : Shows effect s₀ h s) (hp : s.phase t = p)
    (hturn : Turn effect s.value p v q) : Shows effect s₀ h { s.goto t q with value := v } := by
  cases hturn with
  | stays =>
    rw [← hp, State.goto, Function.update_eq_self]
    exact hs
  | piece heffect => exact hs.piece hp heffect

end Pieces
