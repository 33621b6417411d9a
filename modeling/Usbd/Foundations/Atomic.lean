import Usbd.Foundations.Machine

/-!
# Atomic objects

An object shared by threads, each of which makes one call at a time.  An atomic object lets a call
take effect at one instant, somewhere between its call and its return; what it does then is a
relation between the value before, the operation, the value after and the result.

`Shows effect s₀ h s` says that the atomic object can go from `s₀` to `s` with the calls and returns
of `h`.  A history that an atomic object shows is linearizable.  `shows_of_simulation` is how a
machine is seen to have linearizable histories only: each of its steps is matched by what the atomic
object does at that moment.
-/

namespace Atomic

variable {V O R : Type*}

/-- What a thread is at. -/
inductive Phase (O R : Type*)
  | idle
  | called (op : O)
  | finished (res : R)

/-- What is seen of an object. -/
inductive Sight (O R : Type*)
  | call (t : ℕ) (op : O)
  | ret (t : ℕ) (res : R)
  deriving DecidableEq

/-- What is seen, with the results in another form. -/
def Sight.map {R' : Type*} (f : R → R') : Sight O R → Sight O R'
  | call t op => .call t op
  | ret t res => .ret t (f res)

/-- The value of an object and its threads. -/
structure State (V O R : Type*) where
  value : V
  phase : ℕ → Phase O R

/-- The object with a thread at another phase. -/
def State.goto (s : State V O R) (t : ℕ) (p : Phase O R) : State V O R :=
  { s with phase := Function.update s.phase t p }

/-- Where only some operations are called, only they are called after a step to such a call, or to
none. -/
lemma State.calls_goto {allowed : O → Prop} {s : State V O R} {t : ℕ} {p : Phase O R}
    (hp : ∀ op, p = .called op → allowed op)
    (hall : ∀ u op, s.phase u = .called op → allowed op) (u : ℕ) (op : O)
    (hu : (s.goto t p).phase u = .called op) : allowed op := by
  simp only [State.goto, Function.update_apply] at hu
  split_ifs at hu
  · exact hp op hu
  · exact hall u op hu

/-- The atomic object goes from a state to another, and shows these calls and returns on the way. -/
inductive Shows (effect : V → O → V → R → Prop) (s₀ : State V O R) :
    List (Sight O R) → State V O R → Prop
  | start : Shows effect s₀ [] s₀
  | call {h : List (Sight O R)} {s : State V O R} {t : ℕ} (op : O) (hs : Shows effect s₀ h s)
      (hidle : s.phase t = .idle) :
      Shows effect s₀ (h ++ [.call t op]) (s.goto t (.called op))
  | effect {h : List (Sight O R)} {s : State V O R} {t : ℕ} {op : O} {v : V} {res : R}
      (hs : Shows effect s₀ h s) (hcalled : s.phase t = .called op)
      (heffect : effect s.value op v res) :
      Shows effect s₀ h { s.goto t (.finished res) with value := v }
  | ret {h : List (Sight O R)} {s : State V O R} {t : ℕ} {res : R} (hs : Shows effect s₀ h s)
      (hfinished : s.phase t = .finished res) :
      Shows effect s₀ (h ++ [.ret t res]) (s.goto t .idle)

variable {C E : Type*} {step : C → E → Option C} {sight : C → E → Option (Sight O R)}

/-- What is seen of a machine along its run. -/
def sights (step : C → E → Option C) (sight : C → E → Option (Sight O R)) :
    C → List E → List (Sight O R)
  | _, [] => []
  | c, e :: es =>
    match step c e with
    | some c' => (sight c e).toList ++ sights step sight c' es
    | none => []

/-- A machine whose steps are matched, as long as they meet a condition, by something that goes with
the history so far. -/
theorem exists_of_simulation {A : Type*} {P : List (Sight O R) → A → Prop} {rel : C → A → Prop}
    {cond : C → E → Prop}
    (hsim : ∀ c e c' h a, rel c a → cond c e → step c e = some c' → P h a →
      ∃ a', P (h ++ (sight c e).toList) a' ∧ rel c' a')
    {c c' : C} {es : List E} (hes : Machine.Meets step cond c es)
    (hrun : Machine.run step c es = some c') {h : List (Sight O R)} {a : A} (hrel : rel c a)
    (ha : P h a) : ∃ a', P (h ++ sights step sight c es) a' ∧ rel c' a' := by
  induction es generalizing c h a with
  | nil =>
    obtain rfl := Option.some.inj hrun
    exact ⟨a, by simpa [sights] using ha, hrel⟩
  | cons e es ih =>
    obtain ⟨c₁, hstep, hrest⟩ := Machine.run_cons_eq_some.mp hrun
    obtain ⟨a₁, ha₁, hrel₁⟩ := hsim c e c₁ h a hrel hes.1 hstep ha
    obtain ⟨a', ha', hrel'⟩ := ih (hes.2 c₁ hstep) hrest hrel₁ ha₁
    refine ⟨a', ?_, hrel'⟩
    rw [List.append_assoc] at ha'
    simpa only [sights, hstep] using ha'

/-- A machine whose steps an atomic object matches shows nothing that the object does not. -/
theorem shows_of_simulation {effect : V → O → V → R → Prop} {s₀ : State V O R}
    {rel : C → State V O R → Prop} {allowed : E → Prop}
    (hsim : ∀ c e c' h s, rel c s → allowed e → step c e = some c' → Shows effect s₀ h s →
      ∃ s', Shows effect s₀ (h ++ (sight c e).toList) s' ∧ rel c' s')
    {c c' : C} {es : List E} (hes : ∀ e ∈ es, allowed e) (hrun : Machine.run step c es = some c')
    {h : List (Sight O R)} {s : State V O R} (hrel : rel c s) (hs : Shows effect s₀ h s) :
    ∃ s', Shows effect s₀ (h ++ sights step sight c es) s' ∧ rel c' s' :=
  exists_of_simulation hsim (Machine.meets_of_forall hes) hrun hrel hs

/-- An object that does what another one does, as long as only some operations are called, shows
nothing but what that one shows. -/
theorem Shows.refine {V' : Type*} {effect : V → O → V → R → Prop} {effect' : V' → O → V' → R → Prop}
    {rel : V → V' → Prop} {allowed : O → Prop}
    (hstep : ∀ v op w res v', rel v v' → allowed op → effect v op w res →
      ∃ w', effect' v' op w' res ∧ rel w w')
    {s₀ s : State V O R} {v₀ : V'} {h : List (Sight O R)} (hrel : rel s₀.value v₀)
    (hidle : ∀ t, s₀.phase t = .idle) (hcalls : ∀ t op, .call t op ∈ h → allowed op)
    (hs : Shows effect s₀ h s) :
    ∃ v, Shows effect' ⟨v₀, s₀.phase⟩ h ⟨v, s.phase⟩ ∧ rel s.value v ∧
      ∀ t op, s.phase t = .called op → allowed op := by
  induction hs with
  | start => exact ⟨v₀, .start, hrel, fun t op ht => by simp [hidle t] at ht⟩
  | @call h s t op hs hphase ih =>
    obtain ⟨v, hshows, hv, hall⟩ := ih fun u op' hu => hcalls u op' (List.mem_append_left _ hu)
    refine ⟨v, hshows.call op hphase, hv, State.calls_goto ?_ hall⟩
    rintro op' ⟨⟩
    exact hcalls t op (List.mem_append_right _ (List.mem_singleton_self _))
  | effect hs hcalled heffect ih =>
    obtain ⟨v, hshows, hv, hall⟩ := ih hcalls
    obtain ⟨w, heffect', hw⟩ := hstep _ _ _ _ v hv (hall _ _ hcalled) heffect
    exact ⟨w, hshows.effect hcalled heffect', hw, State.calls_goto (by simp) hall⟩
  | ret hs hfinished ih =>
    obtain ⟨v, hshows, hv, hall⟩ := ih fun u op' hu => hcalls u op' (List.mem_append_left _ hu)
    exact ⟨v, hshows.ret hfinished, hv, State.calls_goto (by simp) hall⟩

end Atomic
