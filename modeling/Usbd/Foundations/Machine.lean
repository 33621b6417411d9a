import Mathlib.Tactic

/-!
# Guarded machines and their runs

A machine is a partial step function `step : S → E → Option S`: in state `s` the event `e` either
is not enabled or leads to one next state.  Non-determinism is the choice of the event, so that an
interleaving of several parties is just a list of events, and a statement about every interleaving
is a statement about every list that runs.

`invariant` is the induction every safety property goes through.  `Meets` restricts it to the runs
all of whose steps satisfy a condition on the state before the step and the event.
-/

namespace Machine

variable {S E : Type*} {step : S → E → Option S}

/-- The state after a list of events, if all of them are enabled in turn. -/
def run (step : S → E → Option S) : S → List E → Option S
  | s, [] => some s
  | s, e :: es => (step s e).bind fun s' => run step s' es

/-- Every step of a run satisfies a condition on its state and event. -/
def Meets (step : S → E → Option S) (cond : S → E → Prop) : S → List E → Prop
  | _, [] => True
  | s, e :: es => cond s e ∧ ∀ s', step s e = some s' → Meets step cond s' es

instance decidableMeets (step : S → E → Option S) (cond : S → E → Prop)
    [∀ s e, Decidable (cond s e)] : ∀ s es, Decidable (Meets step cond s es)
  | _, [] => isTrue trivial
  | s, e :: es =>
    match hs : step s e with
    | none => decidable_of_iff (cond s e) (by simp [Meets, hs])
    | some t =>
      have := decidableMeets step cond t es
      decidable_of_iff (cond s e ∧ Meets step cond t es) (by simp [Meets, hs])

@[simp] lemma run_nil (s : S) : run step s [] = some s := rfl

lemma run_cons_eq_some {s s' : S} {e : E} {es : List E} :
    run step s (e :: es) = some s' ↔ ∃ t, step s e = some t ∧ run step t es = some s' := by
  simp [run, Option.bind_eq_some_iff]

lemma run_append {s : S} {es es' : List E} :
    run step s (es ++ es') = (run step s es).bind fun t => run step t es' := by
  induction es generalizing s with
  | nil => rfl
  | cons e es ih => simp [run, ih, Option.bind_assoc]

lemma meets_of_forall {P : E → Prop} {s : S} {es : List E} (hP : ∀ e ∈ es, P e) :
    Meets step (fun _ e => P e) s es := by
  induction es generalizing s with
  | nil => trivial
  | cons e es ih =>
    obtain ⟨he, hes⟩ := List.forall_mem_cons.mp hP
    exact ⟨he, fun s' _ => ih hes⟩

lemma meets_of_all {cond : S → E → Prop} (h : ∀ s e, cond s e) {s : S} (es : List E) :
    Meets step cond s es := by
  induction es generalizing s with
  | nil => trivial
  | cons e es ih => exact ⟨h s e, fun s' _ => ih⟩

lemma Meets.and_forall {cond : S → E → Prop} {P : E → Prop} {s : S} {es : List E}
    (h : Meets step cond s es) (hP : ∀ e ∈ es, P e) :
    Meets step (fun s e => P e ∧ cond s e) s es := by
  induction es generalizing s with
  | nil => trivial
  | cons e es ih =>
    refine ⟨⟨hP e (by simp), h.1⟩, fun s' hs' => ih (h.2 s' hs') fun e' he' => hP e' ?_⟩
    exact List.mem_cons_of_mem e he'

/-- What every conditioned step keeps holds after every run whose steps meet the condition. -/
theorem invariant_of_meets {cond : S → E → Prop} {inv : S → Prop}
    (hstep : ∀ s e s', inv s → cond s e → step s e = some s' → inv s')
    {s s' : S} {es : List E} (hs : inv s) (hm : Meets step cond s es)
    (hrun : run step s es = some s') : inv s' := by
  induction es generalizing s with
  | nil =>
    obtain rfl := Option.some.inj hrun
    exact hs
  | cons e es ih =>
    obtain ⟨t, ht, hrest⟩ := run_cons_eq_some.mp hrun
    exact ih (hstep s e t hs hm.1 ht) (hm.2 t ht) hrest

/-- Where a step keeps an invariant exactly when it meets a condition, the invariant holds all along
a run exactly when all of its steps meet it. -/
theorem meets_iff_forall_prefix {cond : S → E → Prop} {inv : S → Prop}
    (hstep : ∀ s e s', inv s → step s e = some s' → (inv s' ↔ cond s e))
    {s s' : S} {es : List E} (hs : inv s) (hrun : run step s es = some s') :
    (∀ es' t, es' <+: es → run step s es' = some t → inv t) ↔ Meets step cond s es := by
  induction es generalizing s with
  | nil =>
    refine iff_of_true (fun es' t hpre ht => ?_) trivial
    obtain rfl := List.prefix_nil.mp hpre
    obtain rfl := Option.some.inj ht
    exact hs
  | cons e es ih =>
    obtain ⟨t, ht, hrest⟩ := run_cons_eq_some.mp hrun
    constructor
    · intro h
      have hinv : inv t := h [e] t ((List.prefix_cons_inj e).mpr List.nil_prefix)
        (by simp [run, ht])
      refine ⟨(hstep s e t hs ht).mp hinv, fun t' ht' => ?_⟩
      obtain rfl := Option.some.inj (ht.symm.trans ht')
      refine (ih hinv hrest).mp fun es' u hpre hu => ?_
      exact h (e :: es') u ((List.prefix_cons_inj e).mpr hpre)
        (run_cons_eq_some.mpr ⟨t, ht, hu⟩)
    · rintro ⟨hcond, hrest'⟩ es' u hpre hu
      have hinv : inv t := (hstep s e t hs ht).mpr hcond
      cases es' with
      | nil =>
        obtain rfl := Option.some.inj hu
        exact hs
      | cons e' es' =>
        obtain ⟨rfl, htail⟩ := List.cons_prefix_cons.mp hpre
        obtain ⟨t', ht', hu⟩ := run_cons_eq_some.mp hu
        obtain rfl := Option.some.inj (ht.symm.trans ht')
        exact (ih hinv hrest).mpr (hrest' t ht) es' u htail hu

theorem invariant {inv : S → Prop} (hstep : ∀ s e s', inv s → step s e = some s' → inv s')
    {s s' : S} {es : List E} (hs : inv s) (hrun : run step s es = some s') : inv s' := by
  induction es generalizing s with
  | nil =>
    obtain rfl := Option.some.inj hrun
    exact hs
  | cons e es ih =>
    obtain ⟨t, ht, hrest⟩ := run_cons_eq_some.mp hrun
    exact ih (hstep s e t hs ht) hrest

/-- Where some step always brings a measure down until a goal is met, a run to the goal exists. -/
theorem exists_run_of_measure {inv goal : S → Prop} (measure : S → ℕ)
    (hstep : ∀ s, inv s → ¬ goal s → ∃ e s', step s e = some s' ∧ inv s' ∧ measure s' < measure s)
    {s : S} (hs : inv s) : ∃ es s', run step s es = some s' ∧ inv s' ∧ goal s' := by
  induction hm : measure s using Nat.strong_induction_on generalizing s with
  | _ m ih =>
    by_cases hgoal : goal s
    · exact ⟨[], s, rfl, hs, hgoal⟩
    · obtain ⟨e, t, hstep', ht, hlt⟩ := hstep s hs hgoal
      obtain ⟨es, s', hrun, hinv, hg⟩ := ih (measure t) (hm ▸ hlt) ht rfl
      exact ⟨e :: es, s', run_cons_eq_some.mpr ⟨t, hstep', hrun⟩, hinv, hg⟩

/-- Where every step brings a measure down, it bounds the length of a run. -/
theorem length_add_measure_le {inv : S → Prop} (measure : S → ℕ)
    (hstep : ∀ s e s', inv s → step s e = some s' → inv s' ∧ measure s' < measure s)
    {s s' : S} {es : List E} (hs : inv s) (hrun : run step s es = some s') :
    es.length + measure s' ≤ measure s := by
  induction es generalizing s with
  | nil =>
    obtain rfl := Option.some.inj hrun
    simp
  | cons e es ih =>
    obtain ⟨t, ht, hrest⟩ := run_cons_eq_some.mp hrun
    obtain ⟨hinv, hlt⟩ := hstep s e t hs ht
    have hle := ih hinv hrest
    rw [List.length_cons]
    omega

/-- There is no infinite run from the state. -/
def Halts (step : S → E → Option S) (s : S) : Prop :=
  ∀ states : ℕ → S, states 0 = s → ∃ i, ∀ e, step (states i) e ≠ some (states (i + 1))

/-- Where every step goes down in a relation, there is no infinite run from an accessible state. -/
theorem halts_of_acc {inv : S → Prop} {below : S → S → Prop}
    (hstep : ∀ s e s', inv s → step s e = some s' → inv s' ∧ below s' s)
    {s : S} (hs : inv s) (hacc : Acc below s) : Halts step s := by
  induction hacc with
  | intro s _ ih =>
    rintro states rfl
    by_cases hnext : ∃ e, step (states 0) e = some (states 1)
    · obtain ⟨e, he⟩ := hnext
      obtain ⟨hinv, hbelow⟩ := hstep _ e _ hs he
      obtain ⟨i, hi⟩ := ih _ hbelow hinv (fun i => states (i + 1)) rfl
      exact ⟨i + 1, hi⟩
    · exact ⟨0, fun e he => hnext ⟨e, he⟩⟩

end Machine
