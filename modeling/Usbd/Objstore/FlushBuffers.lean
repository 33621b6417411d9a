import Usbd.Foundations.Machine
import Usbd.Foundations.Ownership
import Usbd.Foundations.Threads
import Usbd.Runtime.File

/-!
# The buffers of a device flush

`device.flush` starts a goroutine for each dirty segment, at most `concurFlush` of them at a time,
and lends each one a buffer.  `getBuf` takes a buffer out of the channel `bufCh` if one is there,
and makes a new one otherwise, unless too many bytes are out already or the allocation fails;
`freeBuf` puts it back.  Looking into the channel and making a buffer are two steps, and others can
come between.

The channel has room for `concurFlush` buffers, and a send that found no room would hold its
goroutine up with its semaphore slot taken, and the flush with it.  That there is always room comes
from an account of the goroutines: those that have a buffer and those that are about to make one are
between them at most the slots that are taken, less one for a goroutine that has just found the
channel empty.  The semaphore is taken as what it is for, at most `concurFlush` slots out at a time,
and the flush of a segment as a step that ends.
-/

namespace Usbd

open Machine Ownership Threads

def maxFlushAlloc : ℤ := 512 * 1024 * 1024

/-! ## Goroutines -/

/-- Where the goroutine of a segment is. -/
inductive FlushPc
  /-- Not started. -/
  | waiting
  | getting
  /-- `bufCh` was empty. -/
  | deciding
  /-- `flushAlloc` allows for a buffer. -/
  | making
  | flushing (buf : Option ℕ)
  | freeing (buf : Option ℕ)
  /-- In front of `flushSema.V`. -/
  | leaving
  /-- In front of `pending.Done`. -/
  | signalling
  | done
  deriving DecidableEq

namespace FlushPc

/-- The buffer it has. -/
def buf : FlushPc → Option ℕ
  | flushing buf => buf
  | freeing buf => buf
  | _ => none

/-- The buffers it has. -/
def buffers (p : FlushPc) : ℕ := if p.buf.isSome then 1 else 0

/-- The buffers it may be about to make. -/
def decides : FlushPc → ℕ
  | deciding => 1
  | making => 1
  | _ => 0

/-- The semaphore slots it has. -/
def slots : FlushPc → ℕ
  | waiting => 0
  | signalling => 0
  | done => 0
  | _ => 1

/-- What it counts for in `pending`. -/
def counts : FlushPc → ℕ
  | waiting => 0
  | done => 0
  | _ => 1

/-- The steps before it is done. -/
def steps : FlushPc → ℕ
  | waiting => 9
  | getting => 7
  | deciding => 6
  | making => 5
  | flushing _ => 4
  | freeing _ => 3
  | leaving => 2
  | signalling => 1
  | done => 0

lemma buffers_add_decides_le (p : FlushPc) : p.buffers + p.decides ≤ p.slots := by
  rcases p with _ | _ | _ | _ | (_ | _) | (_ | _) | _ | _ | _ <;>
    simp [buffers, buf, decides, slots]

lemma slots_le_counts (p : FlushPc) : p.slots ≤ p.counts := by
  cases p <;> simp [slots, counts]

end FlushPc

/-- Where the loop over the segments is. -/
inductive FlushMain
  | looping
  /-- In front of `flushSema.P`, for a segment that is dirty. -/
  | acquiring
  | returned
  deriving DecidableEq

/-- A flush of `n` segments: the loop, the next segment, the slots taken, `pending`, the buffers in
`bufCh`, the number of those ever made, the bytes allowed for them, and the goroutines. -/
structure FlushPool (n : ℕ) where
  main : FlushMain
  next : ℕ
  slots : ℕ
  pending : ℕ
  bufCh : List ℕ
  made : ℕ
  flushAlloc : ℤ
  procs : Fin n → FlushPc

inductive FlushPoolEvent (n : ℕ)
  /-- The loop looks at its next segment, which is still dirty or not. -/
  | look (dirty : Bool)
  | spawn
  /-- `pending.Wait` returns. -/
  | ret
  /-- The next step of a goroutine; `ok` is for an allocation. -/
  | move (t : Fin n) (ok : Bool)
  deriving DecidableEq

namespace FlushPool

variable {n concurFlush : ℕ} {segmentBytes : ℤ} {s s' : FlushPool n}

def new (n : ℕ) : FlushPool n := ⟨.looping, 0, 0, 0, [], 0, 0, fun _ => .waiting⟩

def goto (s : FlushPool n) (t : Fin n) (p : FlushPc) : FlushPool n :=
  { s with procs := Function.update s.procs t p }

/-- One step of a goroutine.  A send on a full channel waits. -/
def move (concurFlush : ℕ) (segmentBytes : ℤ) (s : FlushPool n) (t : Fin n) (ok : Bool) :
    FlushPc → Option (FlushPool n)
  | .waiting => none
  | .getting =>
    match s.bufCh with
    | buf :: bufCh => some ({ s with bufCh }.goto t (.flushing (some buf)))
    | [] => some (s.goto t .deciding)
  | .deciding =>
    let cur := wrapInt64 (s.flushAlloc + segmentBytes)
    some ({ s with flushAlloc := cur }.goto t
      (if cur > maxFlushAlloc then .flushing none else .making))
  | .making =>
    if ok then some ({ s with made := s.made + 1 }.goto t (.flushing (some s.made)))
    else some (s.goto t (.flushing none))
  | .flushing buf => some (s.goto t (.freeing buf))
  | .freeing none => some (s.goto t .leaving)
  | .freeing (some buf) =>
    if s.bufCh.length < concurFlush then
      some ({ s with bufCh := s.bufCh ++ [buf] }.goto t .leaving)
    else none
  | .leaving => some ({ s with slots := s.slots - 1 }.goto t .signalling)
  | .signalling => some ({ s with pending := s.pending - 1 }.goto t .done)
  | .done => none

def step (concurFlush : ℕ) (segmentBytes : ℤ) (s : FlushPool n) :
    FlushPoolEvent n → Option (FlushPool n)
  | .look dirty =>
    if h : s.next < n then
      if s.main = .looping then
        if dirty then some { s with main := .acquiring }
        else some ({ s with next := s.next + 1 }.goto ⟨s.next, h⟩ .done)
      else none
    else none
  | .spawn =>
    if h : s.next < n then
      if s.main = .acquiring ∧ s.slots < concurFlush then
        some ({ s with
          main := .looping
          next := s.next + 1
          slots := s.slots + 1
          pending := s.pending + 1 }.goto ⟨s.next, h⟩ .getting)
      else none
    else none
  | .ret =>
    if s.main = .looping ∧ n ≤ s.next ∧ s.pending = 0 then some { s with main := .returned }
    else none
  | .move t ok => s.move concurFlush segmentBytes t ok (s.procs t)

/-! ## Buffers and their places -/

/-- Every buffer that was made is in the channel or with one goroutine. -/
structure InPlace (bufCh : List ℕ) (procs : Fin n → FlushPc) (made : ℕ) : Prop where
  exclusive : Exclusive bufCh (FlushPc.buf ∘ procs) made
  placed : ∀ b < made, Placed bufCh (FlushPc.buf ∘ procs) b

namespace InPlace

variable {bufCh : List ℕ} {procs : Fin n → FlushPc} {made b : ℕ} {t : Fin n} {p : FlushPc}

lemma keep (h : InPlace bufCh procs made) (hp : p.buf = (procs t).buf) :
    InPlace bufCh (Function.update procs t p) made := by
  have hsame : FlushPc.buf ∘ Function.update procs t p = FlushPc.buf ∘ procs := comp_update_eq hp
  exact ⟨hsame ▸ h.exclusive, hsame ▸ h.placed⟩

lemma take (h : InPlace (b :: bufCh) procs made) (hfree : (procs t).buf = none)
    (hp : p.buf = some b) : InPlace bufCh (Function.update procs t p) made where
  exclusive := h.exclusive.take_comp hfree hp
  placed c hc := (placed_take_comp hfree hp).mpr (h.placed c hc)

lemma give (h : InPlace bufCh procs made) (hheld : (procs t).buf = some b) (hp : p.buf = none) :
    InPlace (bufCh ++ [b]) (Function.update procs t p) made where
  exclusive := (h.exclusive.give_comp hheld hp).perm (List.perm_append_singleton b bufCh).symm
  placed c hc := (placed_perm (List.perm_append_singleton b bufCh).symm).mp
    ((placed_give_comp hheld hp).mpr (h.placed c hc))

lemma make (h : InPlace bufCh procs made) (hfree : (procs t).buf = none)
    (hp : p.buf = some made) : InPlace bufCh (Function.update procs t p) (made + 1) where
  exclusive := h.exclusive.make.take_comp hfree hp
  placed c hc := by
    rw [placed_take_comp hfree hp, placed_cons]
    rcases Nat.lt_succ_iff_lt_or_eq.mp hc with hlt | heq
    · exact Or.inr (h.placed c hlt)
    · exact Or.inl heq

end InPlace

/-! ## The account -/

/-- What holds in every state. -/
structure Inv (concurFlush : ℕ) (s : FlushPool n) : Prop where
  slots_eq : s.slots = total FlushPc.slots s.procs
  slots_le : s.slots ≤ concurFlush
  pending_eq : s.pending = total FlushPc.counts s.procs
  made_eq : s.made = s.bufCh.length + total FlushPc.buffers s.procs
  made_le : s.made + total FlushPc.decides s.procs ≤ concurFlush
  inPlace : InPlace s.bufCh s.procs s.made
  waiting_iff : ∀ t, s.procs t = .waiting ↔ s.next ≤ t
  acquiring : s.main = .acquiring → s.next < n

lemma inv_new (n concurFlush : ℕ) : Inv concurFlush (new n) := by
  have hnone : ∀ count : FlushPc → ℕ, count .waiting = 0 → 0 = total count (new n).procs :=
    fun _ h => (total_const h).symm
  exact
    { slots_eq := hnone _ rfl
      slots_le := Nat.zero_le _
      pending_eq := hnone _ rfl
      made_eq := (hnone FlushPc.buffers rfl).trans (Nat.zero_add _).symm
      made_le := (Nat.zero_add _).trans_le ((hnone FlushPc.decides rfl).ge.trans (Nat.zero_le _))
      inPlace := ⟨Exclusive.nothing, fun b hb => absurd hb (Nat.not_lt_zero b)⟩
      waiting_iff := fun _ => iff_of_true rfl (Nat.zero_le _)
      acquiring := fun h => by cases h }

lemma Inv.goto (h : s.Inv concurFlush) {s₁ : FlushPool n} {t : Fin n} {p q : FlushPc}
    (hproc : s.procs t = q) (hold : q ≠ .waiting) (hnew : p ≠ .waiting)
    (hprocs : s₁.procs = s.procs) (hmain : s₁.main = s.main) (hnext : s₁.next = s.next)
    (hslots : s₁.slots + q.slots = s.slots + p.slots) (hslots_le : s₁.slots ≤ s.slots)
    (hpending : s₁.pending + q.counts = s.pending + p.counts)
    (hmade : s₁.made + s.bufCh.length + q.buffers = s.made + s₁.bufCh.length + p.buffers)
    (hmade_le : s₁.made + total FlushPc.decides s.procs + p.decides ≤ concurFlush + q.decides)
    (hinPlace : InPlace s₁.bufCh (Function.update s.procs t p) s₁.made) :
    (s₁.goto t p).Inv concurFlush := by
  have htotal : ∀ count : FlushPc → ℕ,
      total count (Function.update s₁.procs t p) + count q = total count s.procs + count p := by
    intro count
    rw [hprocs, ← hproc]
    exact total_update count s.procs t p
  have hslots_eq := h.slots_eq
  have hpending_eq := h.pending_eq
  have hmade_eq := h.made_eq
  exact
    { slots_eq := by
        have := htotal FlushPc.slots
        simp only [FlushPool.goto]
        omega
      slots_le := hslots_le.trans h.slots_le
      pending_eq := by
        have := htotal FlushPc.counts
        simp only [FlushPool.goto]
        omega
      made_eq := by
        have := htotal FlushPc.buffers
        simp only [FlushPool.goto]
        omega
      made_le := by
        have := htotal FlushPc.decides
        simp only [FlushPool.goto]
        omega
      inPlace := by simpa only [FlushPool.goto, hprocs] using hinPlace
      waiting_iff := by
        intro u
        simp only [FlushPool.goto, hprocs, hnext]
        by_cases hu : u = t
        · subst hu
          rw [Function.update_self]
          refine iff_of_false hnew fun hle => hold ?_
          rw [← hproc, (h.waiting_iff u).mpr hle]
        · rw [Function.update_of_ne hu]
          exact h.waiting_iff u
      acquiring := by simpa only [FlushPool.goto, hmain, hnext] using h.acquiring }

lemma Inv.turn (h : s.Inv concurFlush) {t : Fin n} {p q : FlushPc} {flushAlloc : ℤ}
    (hproc : s.procs t = q)
    (hold : q ≠ .waiting) (hnew : p ≠ .waiting) (hbuf : p.buf = q.buf) (hslots : p.slots = q.slots)
    (hcounts : p.counts = q.counts) (hdecides : p.decides ≤ q.decides) :
    (({ s with flushAlloc } : FlushPool n).goto t p).Inv concurFlush := by
  refine h.goto hproc hold hnew rfl rfl rfl ?_ le_rfl ?_ ?_ (Nat.add_le_add h.made_le hdecides)
    (h.inPlace.keep ?_)
  · rw [hslots]
  · rw [hcounts]
  · rw [FlushPc.buffers, FlushPc.buffers, hbuf]
  · rw [hproc, hbuf]

/-- A goroutine that has just found `bufCh` empty has a slot, and no buffer, so that one more can be
made. -/
lemma Inv.made_lt (h : s.Inv concurFlush) {t : Fin n} (hget : s.procs t = .getting)
    (hempty : s.bufCh = []) : s.made + total FlushPc.decides s.procs < concurFlush := by
  have hlt : total (fun p => p.buffers + p.decides) s.procs < total FlushPc.slots s.procs :=
    total_lt_total FlushPc.buffers_add_decides_le (t := t) (by rw [hget]; decide)
  have hmade := h.made_eq
  rw [total_add] at hlt
  rw [hempty, List.length_nil, Nat.zero_add] at hmade
  rw [hmade]
  exact hlt.trans_le (h.slots_eq.ge.trans h.slots_le)

/-- A goroutine with a buffer finds room for it. -/
lemma Inv.room (h : s.Inv concurFlush) {t : Fin n} {b : ℕ} (hbuf : (s.procs t).buf = some b) :
    s.bufCh.length < concurFlush := by
  have hpos : (s.procs t).buffers ≤ total FlushPc.buffers s.procs := le_total t
  have hone : (s.procs t).buffers = 1 := by simp [FlushPc.buffers, hbuf]
  have hmade := h.made_eq
  have hle := h.made_le
  omega

/-! ## Steps -/

lemma Inv.move (h : s.Inv concurFlush) {t : Fin n} {ok : Bool} {q : FlushPc}
    (hproc : s.procs t = q) (hstep : s.move concurFlush segmentBytes t ok q = some s') :
    s'.Inv concurFlush ∧ total FlushPc.steps s'.procs < total FlushPc.steps s.procs ∧
      s'.main = s.main := by
  have hle := h.made_le
  have hplaces := h.inPlace
  have hsteps : ∀ p : FlushPc, p.steps < q.steps →
      total FlushPc.steps (Function.update s.procs t p) < total FlushPc.steps s.procs := by
    intro p hlt
    have htotal := total_update FlushPc.steps s.procs t p
    rw [hproc] at htotal
    omega
  have hbuf : (s.procs t).buf = q.buf := by rw [hproc]
  cases q with
  | waiting => cases hstep
  | getting =>
    simp only [FlushPool.move] at hstep
    cases hch : s.bufCh with
    | nil =>
      have hlt := h.made_lt hproc hch
      -- no buffer is free, and fewer than `concurFlush` have been made
      simp only [hch] at hstep
      cases hstep
      refine ⟨h.goto hproc (by simp) (by simp) rfl rfl rfl rfl le_rfl rfl rfl ?_
        (hplaces.keep hbuf.symm), hsteps _ (by decide), rfl⟩
      simp only [FlushPc.decides]
      omega
    | cons b bufCh =>
      rw [hch] at hplaces
      simp only [hch] at hstep
      cases hstep
      refine ⟨h.goto hproc (by simp) (by simp) rfl rfl rfl rfl le_rfl rfl ?_ hle
        (hplaces.take hbuf rfl), hsteps _ (by simp [FlushPc.steps]), rfl⟩
      simp only [hch, List.length_cons, FlushPc.buffers, FlushPc.buf, Option.isSome_some,
        Option.isSome_none, if_true, Bool.false_eq_true, if_false]
      omega
  | deciding =>
    simp only [FlushPool.move] at hstep
    split_ifs at hstep
    · cases hstep
      exact ⟨h.turn hproc (by simp) (by simp) rfl rfl rfl (by decide), hsteps _ (by decide), rfl⟩
    · cases hstep
      exact ⟨h.turn hproc (by simp) (by simp) rfl rfl rfl (by decide), hsteps _ (by decide), rfl⟩
  | making =>
    simp only [FlushPool.move] at hstep
    split_ifs at hstep
    · cases hstep
      refine ⟨h.goto hproc (by simp) (by simp) rfl rfl rfl rfl le_rfl rfl ?_ ?_
        (hplaces.make hbuf rfl), hsteps _ (by simp [FlushPc.steps]), rfl⟩
      · simp only [FlushPc.buffers, FlushPc.buf, Option.isSome_some, Option.isSome_none, if_true,
          Bool.false_eq_true, if_false]
        omega
      · simp only [FlushPc.decides]
        omega
    · cases hstep
      exact ⟨h.turn hproc (by simp) (by simp) rfl rfl rfl (by decide), hsteps _ (by decide), rfl⟩
  | flushing buf =>
    cases hstep
    exact ⟨h.turn hproc (by simp) (by simp) rfl rfl rfl le_rfl, hsteps _ (by simp [FlushPc.steps]),
      rfl⟩
  | freeing buf =>
    cases buf with
    | none =>
      cases hstep
      exact ⟨h.turn hproc (by simp) (by simp) rfl rfl rfl le_rfl, hsteps _ (by decide), rfl⟩
    | some b =>
      simp only [FlushPool.move] at hstep
      split_ifs at hstep
      cases hstep
      refine ⟨h.goto hproc (by simp) (by simp) rfl rfl rfl rfl le_rfl rfl ?_ hle
        (hplaces.give hbuf rfl), hsteps _ (by simp [FlushPc.steps]), rfl⟩
      simp only [List.length_append, List.length_singleton, FlushPc.buffers, FlushPc.buf,
        Option.isSome_some, Option.isSome_none, if_true, Bool.false_eq_true, if_false]
      omega
  | leaving =>
    cases hstep
    have hslot : (s.procs t).slots ≤ total FlushPc.slots s.procs := le_total t
    rw [← h.slots_eq, hproc] at hslot
    refine ⟨h.goto hproc (by simp) (by simp) rfl rfl rfl ?_ (Nat.sub_le ..) rfl rfl hle
      (hplaces.keep hbuf.symm), hsteps _ (by decide), rfl⟩
    simp only [FlushPc.slots] at hslot ⊢
    omega
  | signalling =>
    cases hstep
    have hcount : (s.procs t).counts ≤ total FlushPc.counts s.procs := le_total t
    rw [← h.pending_eq, hproc] at hcount
    refine ⟨h.goto hproc (by simp) (by simp) rfl rfl rfl rfl le_rfl ?_ rfl hle
      (hplaces.keep hbuf.symm), hsteps _ (by decide), rfl⟩
    simp only [FlushPc.counts] at hcount ⊢
    omega
  | done => cases hstep

/-- The steps that are left, of the goroutines and of the loop. -/
def measure (s : FlushPool n) : ℕ :=
  total FlushPc.steps s.procs + if s.main = .looping then 1 else 0

/-- The goroutine of the segment the loop is at has not been started. -/
lemma Inv.next_waiting (h : s.Inv concurFlush) (hlt : s.next < n) :
    s.procs ⟨s.next, hlt⟩ = .waiting :=
  (h.waiting_iff ⟨s.next, hlt⟩).mpr le_rfl

lemma Inv.advance (h : s.Inv concurFlush) (hlt : s.next < n) {p : FlushPc} (hp : p ≠ .waiting)
    (u : Fin n) :
    Function.update s.procs ⟨s.next, hlt⟩ p u = .waiting ↔ s.next + 1 ≤ u := by
  by_cases hu : u = ⟨s.next, hlt⟩
  · subst hu
    rw [Function.update_self]
    exact iff_of_false hp (Nat.not_succ_le_self _)
  · have hne : (u : ℕ) ≠ s.next := fun heq => hu (Fin.ext heq)
    rw [Function.update_of_ne hu, h.waiting_iff]
    omega

lemma Inv.step (h : s.Inv concurFlush) {e : FlushPoolEvent n}
    (hstep : s.step concurFlush segmentBytes e = some s') :
    s'.Inv concurFlush ∧ s'.measure < s.measure := by
  cases e with
  | look dirty =>
    simp only [FlushPool.step] at hstep
    split_ifs at hstep with hlt hmain hdirty
    · cases hstep
      refine ⟨⟨h.slots_eq, h.slots_le, h.pending_eq, h.made_eq, h.made_le, h.inPlace,
        h.waiting_iff, fun _ => hlt⟩, ?_⟩
      simp [measure, hmain]
    · cases hstep
      have hwaiting := h.next_waiting hlt
      -- a clean segment: its goroutine is never started
      have htotal : ∀ count : FlushPc → ℕ, count .waiting = count .done →
          total count (Function.update s.procs ⟨s.next, hlt⟩ .done) = total count s.procs := by
        intro count hcount
        have hupdate := total_update count s.procs ⟨s.next, hlt⟩ .done
        rw [hwaiting] at hupdate
        omega
      refine ⟨⟨?_, h.slots_le, ?_, ?_, ?_, ?_, h.advance hlt (by simp), ?_⟩, ?_⟩
      · exact h.slots_eq.trans (htotal _ rfl).symm
      · exact h.pending_eq.trans (htotal _ rfl).symm
      · exact h.made_eq.trans (congrArg _ (htotal _ rfl).symm)
      · exact (congrArg _ (htotal _ rfl)).trans_le h.made_le
      · exact h.inPlace.keep (by rw [hwaiting]; rfl)
      · intro hacq
        simp [FlushPool.goto, hmain] at hacq
      · have hupdate := total_update FlushPc.steps s.procs ⟨s.next, hlt⟩ .done
        rw [hwaiting] at hupdate
        simp only [FlushPc.steps] at hupdate
        simp only [measure, FlushPool.goto, hmain]
        omega
  | spawn =>
    simp only [FlushPool.step] at hstep
    split_ifs at hstep with hlt hmain
    cases hstep
    have hwaiting := h.next_waiting hlt
    have htotal : ∀ count : FlushPc → ℕ,
        total count (Function.update s.procs ⟨s.next, hlt⟩ .getting) + count .waiting =
          total count s.procs + count .getting := by
      intro count
      rw [← hwaiting]
      exact total_update count s.procs ⟨s.next, hlt⟩ .getting
    have hslots := h.slots_eq
    have hpending := h.pending_eq
    refine ⟨⟨?_, hmain.2, ?_, ?_, ?_, ?_, h.advance hlt (by simp), ?_⟩, ?_⟩
    · have := htotal FlushPc.slots
      simp only [FlushPool.goto, FlushPc.slots] at this ⊢
      omega
    · have := htotal FlushPc.counts
      simp only [FlushPool.goto, FlushPc.counts] at this ⊢
      omega
    · exact h.made_eq.trans (congrArg _ (htotal FlushPc.buffers).symm)
    · exact (congrArg _ (htotal FlushPc.decides)).trans_le h.made_le
    · exact h.inPlace.keep (by rw [hwaiting]; rfl)
    · intro hacq
      cases hacq
    · have := htotal FlushPc.steps
      simp only [measure, FlushPool.goto, FlushPc.steps, hmain.1, if_true] at this ⊢
      simp only [reduceCtorEq, if_false]
      omega
  | ret =>
    simp only [FlushPool.step] at hstep
    split_ifs at hstep with hret
    cases hstep
    refine ⟨⟨h.slots_eq, h.slots_le, h.pending_eq, h.made_eq, h.made_le, h.inPlace, h.waiting_iff,
      fun hacq => by cases hacq⟩, ?_⟩
    simp [measure, hret.1]
  | move t ok =>
    obtain ⟨hinv, hlt, hmain⟩ := h.move rfl hstep
    refine ⟨hinv, ?_⟩
    rw [measure, measure, hmain]
    omega

/-! ## Nobody is held up -/

/-- A goroutine that has been started and is not done has a step to take. -/
lemma Inv.exists_move (h : s.Inv concurFlush) {t : Fin n} (hcount : 0 < (s.procs t).counts) :
    ∃ s', s.step concurFlush segmentBytes (.move t true) = some s' := by
  simp only [FlushPool.step]
  cases hproc : s.procs t with
  | waiting => simp [hproc, FlushPc.counts] at hcount
  | getting =>
    simp only [FlushPool.move]
    split
    · exact ⟨_, rfl⟩
    · exact ⟨_, rfl⟩
  | deciding => exact ⟨_, rfl⟩
  | making => exact ⟨_, rfl⟩
  | flushing buf => exact ⟨_, rfl⟩
  | freeing buf =>
    cases buf with
    | none => exact ⟨_, rfl⟩
    | some b =>
      have hroom := h.room (b := b) (by rw [hproc]; rfl)
      simp only [FlushPool.move, if_pos hroom]
      exact ⟨_, rfl⟩
  | leaving => exact ⟨_, rfl⟩
  | signalling => exact ⟨_, rfl⟩
  | done => simp [hproc, FlushPc.counts] at hcount

/-- A flush that has not returned has a step to take. -/
lemma Inv.exists_step (h : s.Inv concurFlush) (hc : 1 ≤ concurFlush) (segmentBytes : ℤ)
    (hmain : s.main ≠ .returned) :
    ∃ e s', s.step concurFlush segmentBytes e = some s' := by
  cases hm : s.main with
  | returned => exact absurd hm hmain
  | looping =>
    by_cases hlt : s.next < n
    · refine ⟨.look true, ?_⟩
      simp only [FlushPool.step, dif_pos hlt, if_pos hm, if_true]
      exact ⟨_, rfl⟩
    · rcases Nat.eq_zero_or_pos s.pending with hpending | hpending
      · have hret : s.main = .looping ∧ n ≤ s.next ∧ s.pending = 0 :=
          ⟨hm, not_lt.mp hlt, hpending⟩
        refine ⟨.ret, ?_⟩
        simp only [FlushPool.step, if_pos hret]
        exact ⟨_, rfl⟩
      · rw [h.pending_eq] at hpending
        obtain ⟨t, ht⟩ := exists_pos_of_total_pos hpending
        exact ⟨.move t true, h.exists_move ht⟩
  | acquiring =>
    have hlt := h.acquiring hm
    by_cases hfree : s.slots < concurFlush
    · have hspawn : s.main = .acquiring ∧ s.slots < concurFlush := ⟨hm, hfree⟩
      refine ⟨.spawn, ?_⟩
      simp only [FlushPool.step, dif_pos hlt, if_pos hspawn]
      exact ⟨_, rfl⟩
    · -- all slots are taken, so that some goroutine has one
      have hpos : 0 < total FlushPc.slots s.procs := by
        rw [← h.slots_eq]
        omega
      obtain ⟨t, ht⟩ := exists_pos_of_total_pos hpos
      exact ⟨.move t true, h.exists_move (ht.trans_le (FlushPc.slots_le_counts _))⟩

/-- **The flush buffer pool never blocks.**  For any number of dirty segments, any `concurFlush`
from one on, and every interleaving: at most `concurFlush` buffers are made; each one is in `bufCh`
or with one goroutine; a goroutine that is about to give its buffer back finds room; every goroutine
that was started and is not done can go on; no run has more than nine steps for a segment and one,
and a run that cannot be continued is one in which `pending.Wait` has returned. -/
theorem flush_pool_never_blocks (n concurFlush : ℕ) (hc : 1 ≤ concurFlush) (segmentBytes : ℤ)
    (es : List (FlushPoolEvent n)) (s : FlushPool n)
    (hrun : run (step concurFlush segmentBytes) (new n) es = some s) :
    s.made ≤ concurFlush ∧ InPlace s.bufCh s.procs s.made ∧
      (∀ t b, s.procs t = .freeing (some b) → s.bufCh.length < concurFlush) ∧
      (∀ t, 0 < (s.procs t).counts →
        ∃ ok s', s.step concurFlush segmentBytes (.move t ok) = some s') ∧
      es.length ≤ 9 * n + 1 ∧
      ((∀ e, s.step concurFlush segmentBytes e = none) → s.main = .returned) := by
  have hinv : s.Inv concurFlush :=
    Machine.invariant (fun _ _ _ h hstep => (h.step hstep).1) (inv_new n concurFlush) hrun
  refine ⟨(Nat.le_add_right ..).trans hinv.made_le, hinv.inPlace, fun t b hproc => ?_,
    fun t ht => ⟨true, hinv.exists_move ht⟩, ?_, fun hend => ?_⟩
  · exact hinv.room (b := b) (by rw [hproc]; rfl)
  · have hlen := length_add_measure_le measure (fun _ _ _ h hstep => Inv.step h hstep)
      (inv_new n concurFlush) hrun
    have hstart : (new n).measure = 9 * n + 1 := by
      simp [measure, new, total, FlushPc.steps, Nat.mul_comm]
    omega
  · by_contra hmain
    obtain ⟨e, s', hstep⟩ := hinv.exists_step hc segmentBytes hmain
    rw [hend e] at hstep
    cases hstep

/-- Two segments with one slot: the second goroutine gets the buffer of the first. -/
def oneAfterTheOther : List (FlushPoolEvent 2) :=
  .look true :: .spawn :: List.replicate 6 (.move 0 true) ++ [.look true, .spawn, .move 1 true]

theorem flush_pool_never_blocks_one_slot :
    ∃ s, run (step 1 4096) (new 2) oneAfterTheOther = some s ∧
      s.procs 1 = .flushing (some 0) ∧ s.made ≤ 1 := by
  have hruns : (run (step 1 4096) (new 2) oneAfterTheOther).map (·.procs 1) =
      some (.flushing (some 0)) := by
    decide +kernel
  obtain ⟨s, hrun, hproc⟩ := Option.map_eq_some_iff.mp hruns
  obtain ⟨hmade, -⟩ := flush_pool_never_blocks 2 1 le_rfl 4096 oneAfterTheOther s hrun
  exact ⟨s, hrun, hproc, hmade⟩

end FlushPool
end Usbd
