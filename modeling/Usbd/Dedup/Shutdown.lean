import Usbd.Foundations.Machine
import Usbd.Foundations.Threads
import Usbd.Runtime.Sync

/-!
# Closing a dedup disk

`ReadAt`, `Flush` and `WriteAt` hold a read lock on `optMu` for as long as they run, and `Close`
takes it for writing.  A `WriteAt` of several blocks calls itself for each one, and each of these
calls takes the read lock a second time.  What else the calls do needs no lock that another one
holds, so that they are modelled as far as `optMu` goes: any number of calls, and one `Close`.

A reader that already holds the lock does not get it again once a writer waits, and the writer waits
for the reader.  `Stuck` is a state from which neither ever gets on.  Whether one can come up is
decided when `Close` asks for the lock: exactly if a `WriteAt` is inside then with blocks left to
write (`dedup_shutdown_iff`).
-/

namespace Usbd

open Machine Threads

/-! ## Calls -/

/-- A call.  A write has so many blocks; one that its checks refuse has none. -/
inductive LockOp
  | readAt
  | flush
  | writeAt (blocks : ℕ)
  deriving DecidableEq

/-- The calls of `WriteAt` that a call makes. -/
def LockOp.nested : LockOp → ℕ
  | writeAt blocks => if 1 < blocks then blocks else 0
  | _ => 0

/-- Where a call is: before its `RLock`, behind it with so many calls of `WriteAt` to make, or
inside one of these behind the `RLock` of its own. -/
inductive LockCall
  | idle
  | locking (op : LockOp)
  | body (op : LockOp) (left : ℕ)
  | nested (op : LockOp) (left : ℕ)
  deriving DecidableEq

namespace LockCall

/-- The read locks that are held. -/
def holds : LockCall → ℕ
  | idle => 0
  | locking _ => 0
  | body _ _ => 1
  | nested _ _ => 2

/-- The read locks to be taken while one is held. -/
def left : LockCall → ℕ
  | body _ left => left
  | nested _ left => left
  | _ => 0

/-- A `WriteAt` in front of an `RLock`. -/
def WriteLocks : LockCall → Prop
  | locking (.writeAt _) => True
  | body (.writeAt _) left => 0 < left
  | _ => False

/-- Only writes take further locks. -/
def WellFormed : LockCall → Prop
  | body op left => 0 < left → ∃ blocks, op = .writeAt blocks
  | nested op left => 0 < left → ∃ blocks, op = .writeAt blocks
  | _ => True

end LockCall

/-- Where the `Close` is. -/
inductive Closer
  | idle
  | waiting
  | closing
  | closed
  deriving DecidableEq

/-! ## The disk -/

/-- The lock, whether the context is cancelled, the calls and the `Close`. -/
structure DedupLocks (n : ℕ) where
  optMu : RWMutex
  shutdown : Bool
  calls : Fin n → LockCall
  closer : Closer

inductive LockEvent (n : ℕ)
  | call (t : Fin n) (op : LockOp)
  | rLock (t : Fin n)
  | rUnlock (t : Fin n)
  | lockRequest
  | lockAcquire
  | unlock
  deriving DecidableEq

namespace DedupLocks

variable {n : ℕ} {s s' : DedupLocks n}

def new (n : ℕ) : DedupLocks n := ⟨.new, false, fun _ => .idle, .idle⟩

def goto (s : DedupLocks n) (optMu : RWMutex) (t : Fin n) (c : LockCall) : DedupLocks n :=
  { s with optMu, calls := Function.update s.calls t c }

def step (s : DedupLocks n) : LockEvent n → Option (DedupLocks n)
  | .call t op =>
    match s.calls t with
    | .idle => some (s.goto s.optMu t (.locking op))
    | _ => none
  | .rLock t =>
    match s.calls t with
    | .locking op => s.optMu.rLock.map fun optMu =>
      s.goto optMu t (.body op (if s.shutdown then 0 else op.nested))
    | .body op (left + 1) => s.optMu.rLock.map fun optMu => s.goto optMu t (.nested op left)
    | _ => none
  | .rUnlock t =>
    match s.calls t with
    | .body _ 0 => s.optMu.rUnlock.map fun optMu => s.goto optMu t .idle
    | .nested op left => s.optMu.rUnlock.map fun optMu => s.goto optMu t (.body op left)
    | _ => none
  | .lockRequest =>
    match s.closer with
    | .idle => some { s with optMu := s.optMu.lockRequest, closer := .waiting }
    | _ => none
  | .lockAcquire =>
    match s.closer with
    | .waiting => s.optMu.lockAcquire.map fun optMu =>
      { s with optMu, shutdown := true, closer := .closing }
    | _ => none
  | .unlock =>
    match s.closer with
    | .closing => some { s with optMu := s.optMu.unlock, closer := .closed }
    | _ => none

/-- A `WriteAt` and the `Close` wait for `optMu`, and neither ever gets on. -/
def Stuck (s : DedupLocks n) : Prop :=
  ∃ t, (s.calls t).WriteLocks ∧ s.closer = .waiting ∧
    ∀ es s', run step s es = some s' → s'.calls t = s.calls t ∧ s'.closer = .waiting

/-- No call takes a further lock while it holds one. -/
def Calm (s : DedupLocks n) : Prop := ∀ t, (s.calls t).left = 0

instance (s : DedupLocks n) : Decidable s.Calm := inferInstanceAs (Decidable (∀ _, _))

/-! ## The lock and its holders -/

/-- The lock counts the calls that hold it, and the `Close` waits in front of it or is inside. -/
structure Inv (s : DedupLocks n) : Prop where
  readers_eq : s.optMu.readers = total LockCall.holds s.calls
  waiting_eq : s.optMu.waiting = if s.closer = .waiting then 1 else 0
  writer_iff : s.optMu.writer = true ↔ s.closer = .closing
  wellFormed : ∀ t, (s.calls t).WellFormed

lemma inv_new (n : ℕ) : (new n).Inv where
  readers_eq := (total_const rfl).symm
  waiting_eq := rfl
  writer_iff := by simp [new, RWMutex.new]
  wellFormed _ := trivial

lemma Inv.goto (h : s.Inv) {optMu : RWMutex} {t : Fin n} {c : LockCall}
    (hreaders : optMu.readers + (s.calls t).holds = s.optMu.readers + c.holds)
    (hwaiting : optMu.waiting = s.optMu.waiting) (hwriter : optMu.writer = s.optMu.writer)
    (hc : c.WellFormed) : (s.goto optMu t c).Inv where
  readers_eq := by
    have htotal := total_update LockCall.holds s.calls t c
    have heq := h.readers_eq
    simp only [DedupLocks.goto]
    omega
  waiting_eq := hwaiting.trans h.waiting_eq
  writer_iff := by simpa only [DedupLocks.goto, hwriter] using h.writer_iff
  wellFormed u := by
    by_cases hu : u = t
    · subst hu
      simpa [DedupLocks.goto] using hc
    · simpa [DedupLocks.goto, hu] using h.wellFormed u

/-- **What a step can do.** -/
inductive Moves (s : DedupLocks n) : LockEvent n → DedupLocks n → Prop
  | call {t op} (hcall : s.calls t = .idle) : Moves s (.call t op) (s.goto s.optMu t (.locking op))
  | enter {t op} (hcall : s.calls t = .locking op)
      (hfree : s.optMu.writer = false ∧ s.optMu.waiting = 0) :
      Moves s (.rLock t) (s.goto { s.optMu with readers := s.optMu.readers + 1 } t
        (.body op (if s.shutdown then 0 else op.nested)))
  | nest {t op left} (hcall : s.calls t = .body op (left + 1))
      (hfree : s.optMu.writer = false ∧ s.optMu.waiting = 0) :
      Moves s (.rLock t) (s.goto { s.optMu with readers := s.optMu.readers + 1 } t
        (.nested op left))
  | leave {t op} (hcall : s.calls t = .body op 0) (hreaders : s.optMu.readers ≠ 0) :
      Moves s (.rUnlock t) (s.goto { s.optMu with readers := s.optMu.readers - 1 } t .idle)
  | unnest {t op left} (hcall : s.calls t = .nested op left) (hreaders : s.optMu.readers ≠ 0) :
      Moves s (.rUnlock t) (s.goto { s.optMu with readers := s.optMu.readers - 1 } t
        (.body op left))
  | request (hclose : s.closer = .idle) :
      Moves s .lockRequest { s with optMu := s.optMu.lockRequest, closer := .waiting }
  | acquire (hclose : s.closer = .waiting) (hreaders : s.optMu.readers = 0)
      (hwriter : s.optMu.writer = false) :
      Moves s .lockAcquire { s with
        optMu := { s.optMu with waiting := s.optMu.waiting - 1, writer := true }
        shutdown := true
        closer := .closing }
  | unlock (hclose : s.closer = .closing) :
      Moves s .unlock { s with optMu := s.optMu.unlock, closer := .closed }

lemma moves_of_step {e : LockEvent n} (h : s.step e = some s') : Moves s e s' := by
  cases e with
  | call t op =>
    simp only [step] at h
    split at h
    · next hcall =>
      cases h
      exact .call hcall
    · cases h
  | rLock t =>
    have hfree : ∀ {m}, s.optMu.rLock = some m →
        (s.optMu.writer = false ∧ s.optMu.waiting = 0) := by
      intro m hm
      unfold RWMutex.rLock at hm
      split_ifs at hm with hheld
      simpa using hheld
    simp only [step] at h
    split at h
    · next op hcall =>
      obtain ⟨m, hm, rfl⟩ := Option.map_eq_some_iff.mp h
      rw [RWMutex.rLock_eq_some hm]
      exact .enter hcall (hfree hm)
    · next op left hcall =>
      obtain ⟨m, hm, rfl⟩ := Option.map_eq_some_iff.mp h
      rw [RWMutex.rLock_eq_some hm]
      exact .nest hcall (hfree hm)
    · cases h
  | rUnlock t =>
    simp only [step] at h
    split at h
    · next op hcall =>
      obtain ⟨m, hm, rfl⟩ := Option.map_eq_some_iff.mp h
      obtain ⟨hne, rfl⟩ := RWMutex.rUnlock_eq_some hm
      exact .leave hcall hne
    · next op left hcall =>
      obtain ⟨m, hm, rfl⟩ := Option.map_eq_some_iff.mp h
      obtain ⟨hne, rfl⟩ := RWMutex.rUnlock_eq_some hm
      exact .unnest hcall hne
    · cases h
  | lockRequest =>
    simp only [step] at h
    split at h
    · next hclose =>
      cases h
      exact .request hclose
    · cases h
  | lockAcquire =>
    simp only [step] at h
    split at h
    · next hclose =>
      obtain ⟨m, hm, rfl⟩ := Option.map_eq_some_iff.mp h
      unfold RWMutex.lockAcquire at hm
      split_ifs at hm with hfree
      cases hm
      exact .acquire hclose hfree.1 hfree.2.1
    · cases h
  | unlock =>
    simp only [step] at h
    split at h
    · next hclose =>
      cases h
      exact .unlock hclose
    · cases h

lemma Inv.step (h : s.Inv) {e : LockEvent n} (hstep : s.step e = some s') : s'.Inv := by
  cases moves_of_step hstep with
  | call hcall => exact h.goto (by rw [hcall]; rfl) rfl rfl trivial
  | @enter t op hcall hfree =>
    refine h.goto (by rw [hcall]; simp [LockCall.holds]) rfl rfl fun hleft => ?_
    cases op with
    | writeAt blocks => exact ⟨blocks, rfl⟩
    | readAt => simp [LockOp.nested] at hleft
    | flush => simp [LockOp.nested] at hleft
  | @nest t op left hcall hfree =>
    have hwf := h.wellFormed t
    rw [hcall] at hwf
    exact h.goto (by rw [hcall]; simp [LockCall.holds]) rfl rfl fun _ => hwf (Nat.succ_pos left)
  | @leave t op hcall hreaders =>
    exact h.goto (by rw [hcall]; simp only [LockCall.holds]; omega) rfl rfl trivial
  | @unnest t op left hcall hreaders =>
    have hwf := h.wellFormed t
    rw [hcall] at hwf
    exact h.goto (by rw [hcall]; simp only [LockCall.holds]; omega) rfl rfl hwf
  | request hclose =>
    have hwaiting := h.waiting_eq
    have hwriter := h.writer_iff
    rw [hclose] at hwaiting hwriter
    refine ⟨h.readers_eq, ?_, ?_, h.wellFormed⟩
    · simp [RWMutex.lockRequest, hwaiting]
    · simpa [RWMutex.lockRequest] using hwriter
  | acquire hclose hreaders hwriter =>
    have hwaiting := h.waiting_eq
    rw [hclose] at hwaiting
    exact ⟨h.readers_eq, by simp [hwaiting], by simp, h.wellFormed⟩
  | unlock hclose =>
    have hwaiting := h.waiting_eq
    rw [hclose] at hwaiting
    exact ⟨h.readers_eq, by simpa [RWMutex.unlock] using hwaiting, by simp [RWMutex.unlock],
      h.wellFormed⟩

lemma Inv.not_free (h : s.Inv) (hclose : s.closer = .waiting) :
    ¬ (s.optMu.writer = false ∧ s.optMu.waiting = 0) := by
  have hwaiting := h.waiting_eq
  rw [if_pos hclose] at hwaiting
  omega

/-! ## A write that has blocks left -/

/-- The write waits for the `Close`, and the `Close` for the write. -/
lemma Inv.stays (h : s.Inv) (hclose : s.closer = .waiting) {t : Fin n} {op : LockOp} {left : ℕ}
    (hcall : s.calls t = .body op (left + 1)) {e : LockEvent n} (hstep : s.step e = some s') :
    s'.calls t = .body op (left + 1) ∧ s'.closer = .waiting := by
  -- a call that moves is another one
  have hother : ∀ {u : Fin n} {c c' : LockCall} (optMu : RWMutex), s.calls u = c →
      c ≠ .body op (left + 1) → (s.goto optMu u c').calls t = .body op (left + 1) := by
    intro u c c' optMu hu hne
    have htu : t ≠ u := by
      rintro rfl
      exact hne (hu.symm.trans hcall)
    simpa [DedupLocks.goto, htu] using hcall
  cases moves_of_step hstep with
  | call hu => exact ⟨hother _ hu (by simp), hclose⟩
  | enter hu hfree => exact absurd hfree (h.not_free hclose)
  | nest hu hfree => exact absurd hfree (h.not_free hclose)
  | leave hu _ => exact ⟨hother _ hu (by simp), hclose⟩
  | unnest hu _ => exact ⟨hother _ hu (by simp), hclose⟩
  | request hidle =>
    rw [hclose] at hidle
    cases hidle
  | acquire _ hreaders _ =>
    have hle : (s.calls t).holds ≤ total LockCall.holds s.calls := le_total t
    rw [hcall, ← h.readers_eq, hreaders] at hle
    simp [LockCall.holds] at hle
  | unlock hclosing =>
    rw [hclose] at hclosing
    cases hclosing

lemma Inv.stuck (h : s.Inv) (hclose : s.closer = .waiting) {t : Fin n} {op : LockOp} {left : ℕ}
    (hcall : s.calls t = .body op (left + 1)) : s.Stuck := by
  have hwf := h.wellFormed t
  rw [hcall] at hwf
  obtain ⟨blocks, rfl⟩ := hwf (Nat.succ_pos left)
  refine ⟨t, by rw [hcall]; exact Nat.succ_pos left, hclose, fun es s' hrun => ?_⟩
  have hstays : ∀ s₁ e s₂, (s₁.Inv ∧ s₁.calls t = .body (.writeAt blocks) (left + 1) ∧
      s₁.closer = .waiting) → DedupLocks.step s₁ e = some s₂ →
      (s₂.Inv ∧ s₂.calls t = .body (.writeAt blocks) (left + 1) ∧ s₂.closer = .waiting) :=
    fun s₁ e s₂ h₁ hstep => ⟨h₁.1.step hstep, h₁.1.stays h₁.2.2 h₁.2.1 hstep⟩
  obtain ⟨-, hcall', hclose'⟩ := Machine.invariant hstays ⟨h, hcall, hclose⟩ hrun
  exact ⟨hcall'.trans hcall.symm, hclose'⟩

/-- With a write inside that has blocks left, the request of the `Close` is the way to a stuck
state. -/
lemma Inv.exists_stuck (h : s.Inv) (hclose : s.closer = .waiting) (hcalm : ¬ s.Calm) :
    ∃ es s', run DedupLocks.step s es = some s' ∧ s'.Stuck := by
  obtain ⟨t, ht⟩ := not_forall.mp hcalm
  cases hcall : s.calls t with
  | idle =>
    rw [hcall] at ht
    exact absurd rfl ht
  | locking op =>
    rw [hcall] at ht
    exact absurd rfl ht
  | body op left =>
    rw [hcall] at ht
    obtain ⟨k, rfl⟩ := Nat.exists_eq_succ_of_ne_zero ht
    exact ⟨[], s, rfl, h.stuck hclose hcall⟩
  | nested op left =>
    -- the present block is written to its end first
    rw [hcall] at ht
    obtain ⟨k, rfl⟩ := Nat.exists_eq_succ_of_ne_zero ht
    have hreaders : s.optMu.readers ≠ 0 := by
      have hle : (s.calls t).holds ≤ total LockCall.holds s.calls := le_total t
      rw [hcall, ← h.readers_eq] at hle
      simp only [LockCall.holds] at hle
      omega
    have hstep : s.step (.rUnlock t) = some (s.goto
        { s.optMu with readers := s.optMu.readers - 1 } t (.body op (k + 1))) := by
      simp [DedupLocks.step, hcall, RWMutex.rUnlock, hreaders]
    refine ⟨[.rUnlock t], _, by rw [run_cons_eq_some]; exact ⟨_, hstep, rfl⟩, ?_⟩
    exact (h.step hstep).stuck hclose (Function.update_self ..)

/-! ## No write that has blocks left -/

/-- With the `Close` waiting and nobody to take a further lock, some call leaves, or the `Close`
gets the lock. -/
lemma Inv.exists_step (h : s.Inv) (hcalm : s.Calm) (hclose : s.closer = .waiting) :
    ∃ e s', s.step e = some s' ∧ s'.Calm ∧
      s'.optMu.readers + s'.optMu.waiting < s.optMu.readers + s.optMu.waiting := by
  have hwriter : s.optMu.writer = false := by
    have hiff := h.writer_iff
    rw [hclose] at hiff
    simpa using hiff
  have hwaiting := h.waiting_eq
  rw [if_pos hclose] at hwaiting
  have hgoto : ∀ {t : Fin n} {c : LockCall} (optMu : RWMutex), c.left = 0 →
      (s.goto optMu t c).Calm := by
    intro t c optMu hc u
    by_cases hu : u = t
    · subst hu
      simpa [DedupLocks.goto] using hc
    · simpa [DedupLocks.goto, hu] using hcalm u
  rcases Nat.eq_zero_or_pos s.optMu.readers with hreaders | hreaders
  -- the sum of readers and waiting writers is what gets smaller
  · refine ⟨.lockAcquire, ⟨⟨0, 0, true⟩, true, s.calls, .closing⟩, ?_, hcalm, ?_⟩
    · simp [DedupLocks.step, hclose, RWMutex.lockAcquire, hreaders, hwriter, hwaiting]
    · simp only
      omega
  · have htotal : 0 < total LockCall.holds s.calls := h.readers_eq ▸ hreaders
    obtain ⟨t, ht⟩ := exists_pos_of_total_pos htotal
    have hleft := hcalm t
    cases hcall : s.calls t with
    | idle =>
      rw [hcall] at ht
      exact absurd ht (lt_irrefl 0)
    | locking op =>
      rw [hcall] at ht
      exact absurd ht (lt_irrefl 0)
    | body op left =>
      rw [hcall] at hleft
      obtain rfl : left = 0 := hleft
      refine ⟨.rUnlock t, s.goto { s.optMu with readers := s.optMu.readers - 1 } t .idle, ?_,
        hgoto _ rfl, ?_⟩
      · simp [DedupLocks.step, hcall, RWMutex.rUnlock, hreaders.ne']
      · simp only [DedupLocks.goto]
        omega
    | nested op left =>
      rw [hcall] at hleft
      refine ⟨.rUnlock t, s.goto { s.optMu with readers := s.optMu.readers - 1 } t (.body op left),
        ?_, hgoto _ hleft, ?_⟩
      · simp [DedupLocks.step, hcall, RWMutex.rUnlock, hreaders.ne']
      · simp only [DedupLocks.goto]
        omega

/-- The calls inside leave one after the other, and the `Close` gets the lock. -/
lemma Inv.not_stuck (h : s.Inv) (hcalm : s.Calm) : ¬ s.Stuck := by
  rintro ⟨t, -, -, hstays⟩
  have hstep : ∀ s : DedupLocks n, s.Inv ∧ s.Calm → ¬ s.closer ≠ .waiting →
      ∃ e s', DedupLocks.step s e = some s' ∧ (s'.Inv ∧ s'.Calm) ∧
        s'.optMu.readers + s'.optMu.waiting < s.optMu.readers + s.optMu.waiting := by
    rintro s ⟨h, hcalm⟩ hclose
    obtain ⟨e, s', hstep, hcalm', hlt⟩ := h.exists_step hcalm (not_not.mp hclose)
    exact ⟨e, s', hstep, ⟨h.step hstep, hcalm'⟩, hlt⟩
  obtain ⟨es, s', hrun, -, hgoal⟩ := exists_run_of_measure
    (fun s : DedupLocks n => s.optMu.readers + s.optMu.waiting) hstep ⟨h, hcalm⟩
  exact hgoal (hstays es s' hrun).2

/-- While the `Close` waits nobody gets in. -/
lemma Inv.calm_step (h : s.Inv) (hcalm : s.closer = .waiting → s.Calm) (hclose : s.closer ≠ .idle)
    {e : LockEvent n} (hstep : s.step e = some s') :
    (s'.closer = .waiting → s'.Calm) ∧ s'.closer ≠ .idle := by
  have hgoto : ∀ {t : Fin n} {c c' : LockCall} (optMu : RWMutex), s.calls t = c →
      c'.left = 0 ∨ c'.left = c.left → (s.goto optMu t c').closer = .waiting →
      (s.goto optMu t c').Calm := by
    intro t c c' optMu hcall hc hwait u
    by_cases hu : u = t
    · subst hu
      have hleft := hcalm hwait u
      rw [hcall] at hleft
      rcases hc with hc | hc
      · simpa [DedupLocks.goto] using hc
      · simpa [DedupLocks.goto] using hc.trans hleft
    · simpa [DedupLocks.goto, hu] using hcalm hwait u
  cases moves_of_step hstep with
  | call hcall => exact ⟨hgoto _ hcall (.inl rfl), hclose⟩
  | enter _ hfree => exact ⟨fun hwait => absurd hfree (h.not_free hwait), hclose⟩
  | nest _ hfree => exact ⟨fun hwait => absurd hfree (h.not_free hwait), hclose⟩
  | leave hcall _ => exact ⟨hgoto _ hcall (.inl rfl), hclose⟩
  | unnest hcall _ => exact ⟨hgoto _ hcall (.inr rfl), hclose⟩
  | request hidle => exact absurd hidle hclose
  | acquire => simp
  | unlock => simp

/-- **Shutdown and deadlock.**  For any number of calls in any interleaving up to the `Close`: no
state before it is stuck; and none behind it is, whatever the interleaving, exactly if no `WriteAt`
is inside with blocks left at the moment `Close` asks for the lock. -/
theorem dedup_shutdown_iff (n : ℕ) (es : List (LockEvent n)) (s : DedupLocks n)
    (hrun : run step (new n) es = some s) (hidle : s.closer = .idle) :
    ¬ s.Stuck ∧
      ((∀ es' s', run step s (.lockRequest :: es') = some s' → ¬ s'.Stuck) ↔ s.Calm) := by
  have hinv : s.Inv := Machine.invariant (fun _ _ _ h hstep => h.step hstep) (inv_new n) hrun
  have hstep : s.step .lockRequest =
      some { s with optMu := s.optMu.lockRequest, closer := .waiting } := by
    simp [step, hidle]
  refine ⟨fun ⟨t, _, hclose, _⟩ => by simp [hidle] at hclose, ?_, ?_⟩
  · intro hsafe
    by_contra hcalm
    obtain ⟨es', s', hrun', hstuck⟩ := (hinv.step hstep).exists_stuck rfl hcalm
    exact hsafe es' s' (run_cons_eq_some.mpr ⟨_, hstep, hrun'⟩) hstuck
  · intro hcalm es' s' hrun'
    obtain ⟨s₁, hstep₁, hrest⟩ := run_cons_eq_some.mp hrun'
    obtain rfl := Option.some.inj (hstep.symm.trans hstep₁)
    have hkeeps : ∀ (s₁ : DedupLocks n) e (s₂ : DedupLocks n),
        (s₁.Inv ∧ (s₁.closer = .waiting → s₁.Calm) ∧ s₁.closer ≠ .idle) → step s₁ e = some s₂ →
        (s₂.Inv ∧ (s₂.closer = .waiting → s₂.Calm) ∧ s₂.closer ≠ .idle) :=
      fun s₁ e s₂ h₁ hstep => ⟨h₁.1.step hstep, h₁.1.calm_step h₁.2.1 h₁.2.2 hstep⟩
    obtain ⟨hinv', hcalm', -⟩ := Machine.invariant hkeeps
      ⟨hinv.step hstep, fun _ => hcalm, by simp⟩ hrest
    rintro ⟨t, hlocks, hclose, hstays⟩
    exact hinv'.not_stuck (hcalm' hclose) ⟨t, hlocks, hclose, hstays⟩

/-- A write of two blocks that has written the first, with a read beside it. -/
def oneOfTwoBlocks : List (LockEvent 2) :=
  let writer : Fin 2 := ⟨0, Nat.zero_lt_two⟩
  let reader : Fin 2 := ⟨1, Nat.one_lt_two⟩
  [.call writer (.writeAt 2), .call reader .readAt, .rLock reader, .rLock writer, .rLock writer,
    .rUnlock writer]

theorem dedup_shutdown_iff_two_blocks :
    ∃ s, run step (new 2) oneOfTwoBlocks = some s ∧
      ¬ ∀ es' s', run step s (.lockRequest :: es') = some s' → ¬ s'.Stuck := by
  refine ⟨_, rfl, fun hsafe => ?_⟩
  obtain ⟨-, hiff⟩ := dedup_shutdown_iff 2 oneOfTwoBlocks _ rfl rfl
  exact absurd (hiff.mp hsafe 0) (by decide)

/-- A write of two blocks has the lock when `Close` asks for it: neither gets on. -/
theorem dedup_shutdown_deadlocks :
    ∃ s, run step (new 1) [.call 0 (.writeAt 2), .rLock 0, .lockRequest] = some s ∧ s.Stuck := by
  have hrun : ∃ s, run step (new 1) [.call 0 (.writeAt 2), .rLock 0, .lockRequest] = some s ∧
      s.calls 0 = .body (.writeAt 2) 2 ∧ s.closer = .waiting :=
    ⟨_, rfl, rfl, rfl⟩
  obtain ⟨s, hrun, hcall, hclose⟩ := hrun
  have hinv : s.Inv := Machine.invariant (fun _ _ _ h hstep => h.step hstep) (inv_new 1) hrun
  exact ⟨s, hrun, hinv.stuck hclose hcall⟩

end DedupLocks
end Usbd
