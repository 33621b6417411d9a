import Usbd.Nbd.FlushOrder

/-!
# The read holds of an epoch

For every write and trim it decodes the reader takes a read hold on the lock of the epoch, and
`execute` is to give it back, whatever comes of the request.  `LockDiscipline` is what that is for:
the holds on a lock are those of the requests not through yet, the exclusive lock is asked for only
when the reader is done with the lock, so that the reader never waits, and a flush whose requests
are all through gets it.

`execute` keeps to it with one exception (`discipline_iff_accepts`): a misaligned write leaves
before the `defer` that would give its hold back.  The hold is then out for good, and the flush that
closes the epoch waits for ever (`leak_blocks_forever`).
-/

namespace Usbd

open RWMutex

lemma epochOf_mono (stream : List Request) {i j : ℕ} (h : i ≤ j) :
    epochOf stream i ≤ epochOf stream j :=
  (List.take_sublist_take_left h).countP_le

/-- Two flushes do not share an epoch. -/
lemma eq_of_epochOf_eq {stream : List Request} {i j : ℕ} {ri rj : Request}
    (hi : stream[i]? = some ri) (hj : stream[j]? = some rj) (hfi : ri.reqType = nbdFlush)
    (hfj : rj.reqType = nbdFlush) (he : epochOf stream i = epochOf stream j) : i = j := by
  have hsi := epochOf_succ hi
  have hsj := epochOf_succ hj
  rw [if_pos hfi] at hsi
  rw [if_pos hfj] at hsj
  rcases Nat.lt_trichotomy i j with hlt | heq | hlt
  · have := epochOf_mono stream (show i + 1 ≤ j from hlt)
    omega
  · exact heq
  · have := epochOf_mono stream (show j + 1 ≤ i from hlt)
    omega

/-- The request a worker has just taken. -/
def Worker.taken : Worker → Option Task
  | .running t .start => some t
  | _ => none

namespace ReqProc

/-! ## What is kept -/

section Statements

variable (blockSize : ℤ) (stream : List Request) (n : ℕ) (s : ReqProc)

/-- The writes and trims decoded in an epoch that are not through `execute`. -/
def owed (e : ℕ) : Finset ℕ :=
  {i ∈ Finset.range s.decoded |
    (∃ req, stream[i]? = some req ∧ req.Holds) ∧ epochOf stream i = e ∧ i ∉ s.finished}

/-- All writes and trims of an epoch are through `execute`. -/
def Through (e : ℕ) : Prop :=
  ∀ i req, stream[i]? = some req → req.Holds → epochOf stream i = e → i ∈ s.finished

/-- What the locks are for. -/
structure LockDiscipline : Prop where
  /-- The read holds on a lock are those of the requests that are not through. -/
  balanced : ∀ e, (s.locks e).readers = (s.owed stream e).card
  /-- The exclusive lock is asked for, or held, only where the reader has gone on to another. -/
  retired : ∀ e, (s.locks e).waiting ≠ 0 ∨ (s.locks e).writer = true → e < s.epoch
  /-- The reader can decode the next request. -/
  reads : s.pending = none → s.readerDone = false → s.decoded < stream.length →
    s.step blockSize stream n .decode ≠ none
  /-- A flush whose epoch is through gets its lock. -/
  goesOn : ∀ w t, s.workers w = .running t .lockWait → s.Through stream t.flushMu →
    s.step blockSize stream n (.advance w) ≠ none

/-- The worker is not about to refuse a write. -/
def Accepts : ProcEvent → Prop
  | .advance w => ∀ t ∈ (s.workers w).taken, t.req.reqType = nbdWrite → t.req.Aligned blockSize
  | _ => True

instance : ∀ e, Decidable (s.Accepts blockSize e)
  | .advance w => inferInstanceAs (Decidable (∀ t ∈ (s.workers w).taken, _))
  | .decode => isTrue trivial
  | .enqueue => isTrue trivial
  | .cancel => isTrue trivial
  | .dequeue _ => isTrue trivial

/-- A write or trim of an epoch is through and has not given its read hold back. -/
def Leaks (e : ℕ) : Prop :=
  ∃ i req, i ∈ s.finished ∧ i ∉ s.released ∧ stream[i]? = some req ∧ req.Holds ∧
    epochOf stream i = e

/-- Requests are through once and for all, and give holds back when they are. -/
structure Ledger : Prop where
  waiting : ∀ t ∈ s.waiting, t.idx ∉ s.finished
  running : ∀ w t pc, s.workers w = .running t pc → t.idx ∉ s.finished
  finished_lt : ∀ i ∈ s.finished, i < s.decoded
  released : s.released ⊆ s.finished

/-- The exclusive side of the locks: each is asked for by a flush that waits, held by a flush that
is past it, and of no use to the reader. -/
structure FlushLocks : Prop where
  retired : ∀ e, (s.locks e).waiting ≠ 0 ∨ (s.locks e).writer = true → e < s.epoch
  waits : ∀ w t, s.workers w = .running t .lockWait → (s.locks t.flushMu).waiting ≠ 0
  writes : ∀ e, (s.locks e).writer = true → ∃ w t, s.workers w = .running t .locked ∧ t.flushMu = e

end Statements

variable {blockSize : ℤ} {stream : List Request} {n : ℕ} {s s' : ReqProc}

/-! ## Requests are through once -/

lemma Ledger.init : Ledger init where
  waiting := by simp [ReqProc.waiting, ReqProc.init]
  running := by simp [ReqProc.init]
  finished_lt := by simp [ReqProc.init]
  released := Finset.Subset.refl _

lemma Ledger.finish (h : Ledger s) (hinv : Inv blockSize stream n s) {w : ℕ} {t : Task} {pc : Pc}
    (hw : s.workers w = .running t pc) {locks : ℕ → RWMutex} {released : Finset ℕ}
    (hrel : released ⊆ insert t.idx s.finished) :
    Ledger { s with workers := Function.update s.workers w .idle, locks, released,
                    finished := insert t.idx s.finished } where
  waiting u hu := by
    have hlt := (hinv.running w t pc hw).lt_waiting u hu
    rw [Finset.mem_insert, not_or]
    exact ⟨hlt.ne', h.waiting u hu⟩
  running := by
    apply (Function.forall_update_iff s.workers fun _ x => ∀ u p, x = .running u p →
      u.idx ∉ insert t.idx s.finished).mpr
    refine ⟨fun u p hu => (by cases hu), fun w' hne u p hu => ?_⟩
    rw [Finset.mem_insert, not_or]
    exact ⟨fun heq => hne (hinv.running_inj w' w u t p pc hu hw heq), h.running w' u p hu⟩
  finished_lt i hi := by
    rcases Finset.mem_insert.mp hi with rfl | hi
    · exact (hinv.running w t pc hw).lt_decoded
    · exact h.finished_lt i hi
  released := hrel

lemma Ledger.move (h : Ledger s) {w : ℕ} {t : Task} {pc pc' : Pc}
    (hw : s.workers w = .running t pc) {locks : ℕ → RWMutex} {returned : Finset ℕ} :
    Ledger { s with workers := Function.update s.workers w (.running t pc'), locks, returned } where
  waiting := h.waiting
  running := by
    apply (Function.forall_update_iff s.workers fun _ x => ∀ u p, x = .running u p →
      u.idx ∉ s.finished).mpr
    refine ⟨fun u p hu => ?_, fun w' _ => h.running w'⟩
    obtain ⟨rfl, -⟩ := Worker.running.inj hu
    exact h.running w t pc hw
  finished_lt := h.finished_lt
  released := h.released

lemma Ledger.moves (h : Ledger s) (hinv : Inv blockSize stream n s) {w : ℕ} {t : Task} {pc : Pc}
    (hw : s.workers w = .running t pc) (hmoves : Moves blockSize s w t pc s') : Ledger s' := by
  have hgrow : s.released ⊆ insert t.idx s.finished :=
    h.released.trans (Finset.subset_insert _ _)
  cases hmoves with
  | refuses _ _ _ => exact h.finish hinv hw hgrow
  | releases _ _ => exact h.finish hinv hw (Finset.insert_subset_insert _ h.released)
  | leaves _ => exact h.finish hinv hw hgrow
  | _ => exact h.move hw

lemma Ledger.decodeReq (h : Ledger s) {req : Request}
    (hstep : s.decodeReq req = some s') : Ledger s' := by
  have hfresh : s.decoded ∉ s.finished := fun hi => (h.finished_lt _ hi).ne rfl
  have hlt : ∀ i ∈ s.finished, i < s.decoded + 1 := fun i hi =>
    Nat.lt_succ_of_lt (h.finished_lt i hi)
  obtain ⟨locks, epoch, pending, done, rfl, ⟨rfl, -⟩ | rfl⟩ := decodeReq_frame hstep
  · refine ⟨fun u hu => ?_, h.running, hlt, h.released⟩
    rcases List.mem_append.mp hu with hu | hu
    · exact h.waiting u (List.mem_append_left _ hu)
    · obtain rfl := List.mem_singleton.mp hu
      exact hfresh
  · exact ⟨h.waiting, h.running, hlt, h.released⟩

/-! ## The exclusive side -/

lemma FlushLocks.init : FlushLocks init where
  retired := by simp [ReqProc.init, RWMutex.new]
  waits := by simp [ReqProc.init]
  writes := by simp [ReqProc.init, RWMutex.new]

/-- A step that leaves the exclusive side of the locks alone. -/
lemma FlushLocks.of_eq (h : FlushLocks s)
    (hlocks : ∀ e, (s'.locks e).waiting = (s.locks e).waiting ∧
      (s'.locks e).writer = (s.locks e).writer)
    (hepoch : s.epoch ≤ s'.epoch)
    (hwaits : ∀ w t, s'.workers w = .running t .lockWait → s.workers w = .running t .lockWait)
    (hlocked : ∀ w t, s.workers w = .running t .locked → s'.workers w = .running t .locked) :
    FlushLocks s' where
  retired e he := by
    rw [(hlocks e).1, (hlocks e).2] at he
    exact (h.retired e he).trans_le hepoch
  waits w t hw := by
    rw [(hlocks _).1]
    exact h.waits w t (hwaits w t hw)
  writes e he := by
    rw [(hlocks e).2] at he
    obtain ⟨w, t, hw, hmu⟩ := h.writes e he
    exact ⟨w, t, hlocked w t hw, hmu⟩

/-- Two running flushes with one lock are one. -/
lemma Inv.flusher_eq (h : Inv blockSize stream n s) {w w' : ℕ} {t t' : Task} {pc pc' : Pc}
    (hw : s.workers w = .running t pc) (hw' : s.workers w' = .running t' pc')
    (hf : t.req.reqType = nbdFlush) (hf' : t'.req.reqType = nbdFlush)
    (hmu : t.flushMu = t'.flushMu) : w = w' := by
  have ht := h.running w t pc hw
  have ht' := h.running w' t' pc' hw'
  apply h.running_inj w w' t t' pc pc' hw hw'
  apply eq_of_epochOf_eq ht.req_eq ht'.req_eq hf hf'
  rw [← ht.flushMu_eq, ← ht'.flushMu_eq, hmu]

/-- The lock of a flush is not the reader's any more. -/
lemma Inv.flushMu_lt (h : Inv blockSize stream n s) {t : Task} (ht : TaskInv stream s t)
    (hf : t.req.reqType = nbdFlush) : t.flushMu < s.epoch := by
  have hsucc := epochOf_succ ht.req_eq
  rw [if_pos hf] at hsucc
  have := epochOf_mono stream (show t.idx + 1 ≤ s.decoded from ht.lt_decoded)
  rw [ht.flushMu_eq, h.epoch_eq]
  omega

lemma FlushLocks.update (h : FlushLocks s) {w : ℕ} {x : Worker}
    (hlocks : ∀ e, (s'.locks e).waiting = (s.locks e).waiting ∧
      (s'.locks e).writer = (s.locks e).writer)
    (hepoch : s'.epoch = s.epoch) (hworkers : s'.workers = Function.update s.workers w x)
    (hx : ∀ t, x ≠ .running t .lockWait) (hw : ∀ t, s.workers w ≠ .running t .locked) :
    FlushLocks s' := by
  refine h.of_eq hlocks hepoch.ge ?_ fun w' t hw' => ?_
  · rw [hworkers]
    apply (Function.forall_update_iff s.workers fun w' y => ∀ t, y = .running t .lockWait →
      s.workers w' = .running t .lockWait).mpr
    exact ⟨fun t ht => absurd ht (hx t), fun w' _ t ht => ht⟩
  · have hne : w' ≠ w := by
      rintro rfl
      exact hw t hw'
    rw [hworkers, Function.update_of_ne hne]
    exact hw'

/-- A flush goes on with its lock.  No other worker has to do with that lock. -/
lemma FlushLocks.setLock (h : FlushLocks s) (hinv : Inv blockSize stream n s) {w : ℕ} {t : Task}
    {pc pc' : Pc} (hw : s.workers w = .running t pc) (hflush : t.req.reqType = nbdFlush)
    {m : RWMutex} (hwait : pc' = .lockWait → m.waiting ≠ 0)
    (hwrite : m.writer = true → pc' = .locked ∨ (s.locks t.flushMu).writer = true ∧ pc ≠ .locked) :
    FlushLocks ((s.setLock t.flushMu m).setWorker w (.running t pc')) := by
  have hsame : ∀ w' u, w' ≠ w →
      (((s.setLock t.flushMu m).setWorker w (.running t pc')).workers w' = u ↔ s.workers w' = u) :=
    fun w' u hne => by simp [setWorker, ReqProc.setLock, hne]
  have hlock : ∀ e, e ≠ t.flushMu →
      ((s.setLock t.flushMu m).setWorker w (.running t pc')).locks e = s.locks e :=
    fun e hne => by simp [setWorker, ReqProc.setLock, hne]
  refine ⟨fun e he => ?_, fun w' u hu => ?_, fun e he => ?_⟩
  · by_cases hmu : e = t.flushMu
    · rw [hmu]
      exact hinv.flushMu_lt (hinv.running w t pc hw).toTaskInv hflush
    · rw [hlock e hmu] at he
      exact h.retired e he
  · by_cases hne : w' = w
    · subst hne
      obtain ⟨rfl, hpc⟩ : t = u ∧ pc' = .lockWait := by simpa [setWorker] using hu
      simpa [setWorker, ReqProc.setLock] using hwait hpc
    · rw [hsame w' _ hne] at hu
      -- every flush has a lock of its own
      have hmu : u.flushMu ≠ t.flushMu := fun hmu =>
        hne (hinv.flusher_eq hu hw ((hinv.running w' u _ hu).kind (by simp)) hflush hmu)
      rw [hlock _ hmu]
      exact h.waits w' u hu
  · by_cases hmu : e = t.flushMu
    · subst hmu
      have hm : m.writer = true := by simpa [setWorker, ReqProc.setLock] using he
      rcases hwrite hm with rfl | ⟨hold, hpc⟩
      · exact ⟨w, t, by simp [setWorker], rfl⟩
      · obtain ⟨w', u, hu, hmu⟩ := h.writes _ hold
        have hself : w' = w :=
          hinv.flusher_eq hu hw ((hinv.running w' u _ hu).kind (by simp)) hflush hmu
        rw [hself, hw, Worker.running.injEq] at hu
        exact absurd hu.2 hpc
    · rw [hlock e hmu] at he
      obtain ⟨w', u, hu, rfl⟩ := h.writes e he
      have hne : w' ≠ w := by
        rintro rfl
        rw [hw, Worker.running.injEq] at hu
        exact hmu (by rw [hu.1])
      exact ⟨w', u, (hsame w' _ hne).mpr hu, rfl⟩

lemma FlushLocks.moves (h : FlushLocks s) (hinv : Inv blockSize stream n s) {w : ℕ} {t : Task}
    {pc : Pc} (hw : s.workers w = .running t pc) (hmoves : Moves blockSize s w t pc s') :
    FlushLocks s' := by
  have ht := hinv.running w t pc hw
  cases hmoves with
  | enters _ => exact h.update (fun _ => ⟨rfl, rfl⟩) rfl rfl (by simp) (by simp [hw])
  | refuses _ _ _ => exact h.update (fun _ => ⟨rfl, rfl⟩) rfl rfl (by simp) (by simp [hw])
  | asks hflush =>
    exact h.setLock hinv hw hflush (by simp [lockRequest]) fun hm => Or.inr ⟨hm, by simp⟩
  | locks hm =>
    obtain ⟨-, rfl⟩ := lockAcquire_eq_some hm
    exact h.setLock hinv hw (ht.kind (by simp)) (by simp) fun _ => Or.inl rfl
  | unlocks => exact h.setLock hinv hw (ht.kind (by simp)) (by simp) (by simp [unlock])
  | flushes => exact h.update (fun _ => ⟨rfl, rfl⟩) rfl rfl (by simp) (by simp [hw])
  | returns => exact h.update (fun _ => ⟨rfl, rfl⟩) rfl rfl (by simp) (by simp [hw])
  | releases hholds hm =>
    obtain ⟨-, rfl⟩ := rUnlock_eq_some hm
    refine h.update (fun e => ?_) rfl rfl (by simp) (by simp [hw])
    by_cases hmu : e = t.flushMu
    · simp [ReqProc.setLock, ReqProc.finish, setWorker, hmu]
    · simp [ReqProc.setLock, ReqProc.finish, setWorker, hmu]
  | leaves _ => exact h.update (fun _ => ⟨rfl, rfl⟩) rfl rfl (by simp) (by simp [hw])

lemma FlushLocks.decodeReq (h : FlushLocks s) {req : Request}
    (hstep : s.decodeReq req = some s') : FlushLocks s' := by
  unfold ReqProc.decodeReq at hstep
  split_ifs at hstep
  · obtain ⟨m, hm, rfl⟩ := Option.map_eq_some_iff.mp hstep
    obtain rfl := rLock_eq_some hm
    refine h.of_eq (fun e => ?_) le_rfl (fun _ _ hw => hw) fun _ _ hw => hw
    by_cases hmu : e = s.epoch
    · simp [ReqProc.setLock, hmu]
    · simp [ReqProc.setLock, hmu]
  · obtain rfl := Option.some.inj hstep
    exact h.of_eq (fun _ => ⟨rfl, rfl⟩) (Nat.le_succ _) (fun _ _ hw => hw) fun _ _ hw => hw
  · obtain rfl := Option.some.inj hstep
    exact h.of_eq (fun _ => ⟨rfl, rfl⟩) le_rfl (fun _ _ hw => hw) fun _ _ hw => hw
  · obtain rfl := Option.some.inj hstep
    exact h.of_eq (fun _ => ⟨rfl, rfl⟩) le_rfl (fun _ _ hw => hw) fun _ _ hw => hw

/-! ## One step -/

/-- What every interleaving keeps. -/
structure Kept (blockSize : ℤ) (stream : List Request) (n : ℕ) (s : ReqProc) : Prop where
  inv : Inv blockSize stream n s
  ledger : Ledger s
  locks : FlushLocks s

lemma Kept.init : Kept blockSize stream n init := ⟨init_inv, .init, .init⟩

/-- Requests move towards the workers: no lock is touched and no request is through. -/
structure Shifts (s s' : ReqProc) : Prop where
  locks : s'.locks = s.locks
  epoch : s'.epoch = s.epoch
  decoded : s'.decoded = s.decoded
  finished : s'.finished = s.finished
  released : s'.released = s.released
  waiting : ∀ u ∈ s'.waiting, u ∈ s.waiting
  workers : s'.workers = s.workers ∨ ∃ w, s.workers w = .idle ∧ ∃ t ∈ s.waiting,
    s'.workers = Function.update s.workers w (.running t .start)

lemma step_cases {e : ProcEvent} (hstep : s.step blockSize stream n e = some s') :
    (∃ req, e = .decode ∧ s.decodeReq req = some s') ∨
      (∃ w t pc, e = .advance w ∧ s.workers w = .running t pc ∧ Moves blockSize s w t pc s') ∨
      Shifts s s' ∧ s.Accepts blockSize e := by
  cases e with
  | decode =>
    simp only [ReqProc.step] at hstep
    split_ifs at hstep
    obtain ⟨req, -, hdec⟩ := Option.bind_eq_some_iff.mp hstep
    exact Or.inl ⟨req, rfl, hdec⟩
  | enqueue =>
    simp only [ReqProc.step] at hstep
    split_ifs at hstep
    obtain ⟨t, ht, rfl⟩ := Option.map_eq_some_iff.mp hstep
    refine Or.inr (Or.inr ⟨⟨rfl, rfl, rfl, rfl, rfl, fun u hu => ?_, Or.inl rfl⟩, trivial⟩)
    simpa [ReqProc.waiting, ht] using hu
  | cancel =>
    simp only [ReqProc.step] at hstep
    split_ifs at hstep
    obtain rfl := Option.some.inj hstep
    exact Or.inr (Or.inr ⟨⟨rfl, rfl, rfl, rfl, rfl, fun u hu => hu, Or.inl rfl⟩, trivial⟩)
  | dequeue w =>
    simp only [ReqProc.step] at hstep
    split_ifs at hstep with hg
    split at hstep
    · cases hstep
    · next t rest hq =>
      obtain rfl := Option.some.inj hstep
      refine Or.inr (Or.inr ⟨⟨rfl, rfl, rfl, rfl, rfl, fun u hu => ?_,
        Or.inr ⟨w, hg.2, t, by simp [ReqProc.waiting, hq], rfl⟩⟩, trivial⟩)
      simp only [ReqProc.waiting, setWorker] at hu ⊢
      rw [hq, List.cons_append]
      exact List.mem_cons_of_mem t hu
  | advance w =>
    simp only [ReqProc.step] at hstep
    split_ifs at hstep
    obtain ⟨t, pc, hw, hmoves⟩ := advance_moves hstep
    exact Or.inr (Or.inl ⟨w, t, pc, rfl, hw, hmoves⟩)

lemma Ledger.shifts (h : Ledger s) (hs : Shifts s s') : Ledger s' := by
  refine ⟨?_, ?_, ?_, ?_⟩
  · intro u hu
    rw [hs.finished]
    exact h.waiting u (hs.waiting u hu)
  · rw [hs.finished]
    rcases hs.workers with hworkers | ⟨w, -, t, ht, hworkers⟩
    · rw [hworkers]
      exact h.running
    · rw [hworkers]
      apply (Function.forall_update_iff s.workers fun _ x => ∀ u p, x = .running u p →
        u.idx ∉ s.finished).mpr
      refine ⟨fun u p hu => ?_, fun w' _ => h.running w'⟩
      obtain ⟨rfl, -⟩ := Worker.running.inj hu
      exact h.waiting t ht
  · rw [hs.finished, hs.decoded]
    exact h.finished_lt
  · rw [hs.finished, hs.released]
    exact h.released

lemma FlushLocks.shifts (h : FlushLocks s) (hs : Shifts s s') : FlushLocks s' := by
  have hlocks : ∀ e, (s'.locks e).waiting = (s.locks e).waiting ∧
      (s'.locks e).writer = (s.locks e).writer := fun e => by simp [hs.locks]
  rcases hs.workers with hworkers | ⟨w, hidle, t, -, hworkers⟩
  · exact h.of_eq hlocks hs.epoch.ge (fun w t hw => hworkers ▸ hw) fun w t hw => hworkers ▸ hw
  · exact h.update hlocks hs.epoch hworkers (by simp) (by simp [hidle])

lemma Kept.step (h : Kept blockSize stream n s) {e : ProcEvent}
    (hstep : s.step blockSize stream n e = some s') : Kept blockSize stream n s' := by
  have hinv := h.inv.step hstep
  rcases step_cases hstep with ⟨req, -, hdec⟩ | ⟨w, t, pc, -, hw, hmoves⟩ | ⟨hs, -⟩
  · exact ⟨hinv, h.ledger.decodeReq hdec, h.locks.decodeReq hdec⟩
  · exact ⟨hinv, h.ledger.moves h.inv hw hmoves, h.locks.moves h.inv hw hmoves⟩
  · exact ⟨hinv, h.ledger.shifts hs, h.locks.shifts hs⟩

lemma kept_of_run {es : List ProcEvent}
    (hrun : Machine.run (ReqProc.step blockSize stream n) ReqProc.init es = some s) :
    Kept blockSize stream n s :=
  Machine.invariant (fun _ _ _ h hstep => h.step hstep) .init hrun

/-! ## Holds that are not given back -/

/-- The holds on a lock are those of the requests that are not through, unless one of them leaks. -/
lemma Kept.balanced_iff (h : Kept blockSize stream n s) :
    (∀ e, (s.locks e).readers = (s.owed stream e).card) ↔ ∀ e, ¬ s.Leaks stream e := by
  have hsub : ∀ e, s.owed stream e ⊆ s.heldIn stream e := by
    intro e i hi
    simp only [owed, heldIn, Finset.mem_filter] at hi ⊢
    exact ⟨hi.1, hi.2.1, hi.2.2.1, fun hrel => hi.2.2.2 (h.ledger.released hrel)⟩
  constructor
  · rintro hbal e ⟨i, req, hfin, hrel, hreq, hholds, hepoch⟩
    have hcard : (s.heldIn stream e).card ≤ (s.owed stream e).card := by
      rw [← hbal e, h.inv.readers_eq e]
    have heq := Finset.eq_of_subset_of_card_le (hsub e) hcard
    have hmem : i ∈ s.heldIn stream e := by
      simp only [heldIn, Finset.mem_filter, Finset.mem_range]
      exact ⟨h.ledger.finished_lt i hfin, ⟨req, hreq, hholds⟩, hepoch, hrel⟩
    rw [← heq, owed, Finset.mem_filter] at hmem
    exact hmem.2.2.2 hfin
  · intro hleak e
    rw [h.inv.readers_eq e]
    congr 1
    apply Finset.Subset.antisymm _ (hsub e)
    intro i hi
    simp only [owed, heldIn, Finset.mem_filter] at hi ⊢
    obtain ⟨hlt, ⟨req, hreq, hholds⟩, hepoch, hrel⟩ := hi
    exact ⟨hlt, ⟨req, hreq, hholds⟩, hepoch, fun hfin =>
      hleak e ⟨i, req, hfin, hrel, hreq, hholds, hepoch⟩⟩

lemma leaks_congr (hfin : s'.finished = s.finished) (hrel : s'.released = s.released) (e : ℕ) :
    s'.Leaks stream e ↔ s.Leaks stream e := by
  rw [Leaks, Leaks, hfin, hrel]

/-- A request that is through and gives its hold back, or has none, leaks nothing. -/
lemma not_leaks_insert {i : ℕ} (hfin : s'.finished = insert i s.finished)
    (hrel : s.released ⊆ s'.released)
    (hnew : ∀ req, stream[i]? = some req → req.Holds → i ∈ s'.released)
    (hleak : ∀ e, ¬ s.Leaks stream e) (e : ℕ) : ¬ s'.Leaks stream e := by
  rintro ⟨j, req, hj, hjrel, hreq, hholds, hepoch⟩
  rw [hfin] at hj
  rcases Finset.mem_insert.mp hj with rfl | hj
  · exact hjrel (hnew req hreq hholds)
  · exact hleak e ⟨j, req, hj, fun hr => hjrel (hrel hr), hreq, hholds, hepoch⟩

/-- A worker leaks a hold exactly when it refuses a write. -/
lemma Kept.leaks_moves (h : Kept blockSize stream n s) (hleak : ∀ e, ¬ s.Leaks stream e) {w : ℕ}
    {t : Task} {pc : Pc} (hw : s.workers w = .running t pc)
    (hmoves : Moves blockSize s w t pc s') :
    (∀ e, ¬ s'.Leaks stream e) ↔ s.Accepts blockSize (.advance w) := by
  have ht := h.inv.running w t pc hw
  have hreq : ∀ req, stream[t.idx]? = some req → req = t.req := fun req hreq =>
    Option.some.inj (hreq.symm.trans ht.req_eq)
  have haccepts : s.Accepts blockSize (.advance w) ↔
      (pc = .start → t.req.reqType = nbdWrite → t.req.Aligned blockSize) := by
    rw [Accepts, hw]
    cases pc <;> simp [Worker.taken]
  rw [haccepts]
  cases hmoves with
  | enters hin =>
    refine iff_of_true hleak fun _ hwr => ?_
    rcases hin with ⟨-, hal⟩ | htr
    · exact hal
    · rw [hwr] at htr
      exact absurd htr (by decide)
  | refuses hflush htrim hout =>
    constructor
    -- `execute` leaves by the `break` in front of the deferred `RUnlock`
    · intro hnone _ hwr
      refine absurd ?_ (hnone (epochOf stream t.idx))
      exact ⟨t.idx, t.req, Finset.mem_insert_self _ _, ht.fresh, ht.req_eq, Or.inl hwr, rfl⟩
    · intro hacc
      have hrel : s.released ⊆ (s.finish w t).released := Finset.Subset.refl _
      apply not_leaks_insert (i := t.idx) rfl hrel _ hleak
      rintro req hr (hwr | htr)
      · rw [hreq req hr] at hwr
        exact absurd (hacc rfl hwr) (hout (Or.inr hwr))
      · rw [hreq req hr] at htr
        exact absurd htr htrim
  | asks hflush =>
    refine iff_of_true hleak fun _ hwr => ?_
    rw [hflush] at hwr
    exact absurd hwr (by decide)
  | releases hholds hm =>
    refine iff_of_true ?_ (by simp)
    exact not_leaks_insert (i := t.idx) rfl (Finset.subset_insert _ _)
      (fun _ _ _ => Finset.mem_insert_self _ _) hleak
  | leaves hfree =>
    refine iff_of_true ?_ (by simp)
    have hrel : s.released ⊆ (s.finish w t).released := Finset.Subset.refl _
    apply not_leaks_insert (i := t.idx) rfl hrel _ hleak
    intro req hr hholds
    rw [hreq req hr] at hholds
    exact absurd hholds hfree
  | _ => exact iff_of_true hleak (by simp)

/-- All holds of requests that are through have been given back. -/
structure Unleaked (blockSize : ℤ) (stream : List Request) (n : ℕ) (s : ReqProc) : Prop where
  kept : Kept blockSize stream n s
  none : ∀ e, ¬ s.Leaks stream e

lemma Unleaked.init : Unleaked blockSize stream n init := by
  refine ⟨.init, ?_⟩
  rintro e ⟨i, req, hi, -⟩
  exact absurd hi (Finset.notMem_empty i)

lemma Unleaked.step_iff (h : Unleaked blockSize stream n s) {e : ProcEvent}
    (hstep : s.step blockSize stream n e = some s') :
    Unleaked blockSize stream n s' ↔ s.Accepts blockSize e := by
  suffices hleaks : (∀ e, ¬ s'.Leaks stream e) ↔ s.Accepts blockSize e from
    ⟨fun h' => hleaks.mp h'.none, fun hacc => ⟨h.kept.step hstep, hleaks.mpr hacc⟩⟩
  rcases step_cases hstep with ⟨req, rfl, hdec⟩ | ⟨w, t, pc, rfl, hw, hmoves⟩ | ⟨hs, hacc⟩
  · obtain ⟨_, _, _, _, rfl, -⟩ := decodeReq_frame hdec
    exact iff_of_true h.none trivial
  · exact h.kept.leaks_moves h.none hw hmoves
  · refine iff_of_true (fun e => ?_) hacc
    rw [leaks_congr hs.finished hs.released]
    exact h.none e

/-! ## What the locks are for -/

/-- The reader is never held up. -/
lemma Kept.reads (h : Kept blockSize stream n s) (hpend : s.pending = none)
    (hdone : s.readerDone = false) (hlt : s.decoded < stream.length) :
    s.step blockSize stream n .decode ≠ none := by
  have hfree : ¬ ((s.locks s.epoch).writer = true ∨ (s.locks s.epoch).waiting ≠ 0) := fun hex =>
    (h.locks.retired s.epoch hex.symm).ne rfl
  have hlock : (s.locks s.epoch).rLock ≠ none := by
    rw [rLock, if_neg hfree]
    exact Option.some_ne_none _
  obtain ⟨m, hm⟩ := Option.ne_none_iff_exists'.mp hlock
  simp only [ReqProc.step, hpend, hdone, and_self, if_true, List.getElem?_eq_getElem hlt,
    Option.bind_some, ReqProc.decodeReq]
  split_ifs <;> simp [hm]

/-- Without a leak a flush whose epoch is through gets its lock. -/
lemma Kept.goesOn (h : Kept blockSize stream n s) {w : ℕ} {t : Task}
    (hw : s.workers w = .running t .lockWait) (hthrough : s.Through stream t.flushMu)
    (hbal : (s.locks t.flushMu).readers = (s.owed stream t.flushMu).card) :
    s.step blockSize stream n (.advance w) ≠ none := by
  have hwn : w < n := by
    by_contra hle
    rw [h.inv.idle_of_le w (Nat.le_of_not_lt hle)] at hw
    cases hw
  have hreaders : (s.locks t.flushMu).readers = 0 := by
    rw [hbal, Finset.card_eq_zero, owed, Finset.filter_eq_empty_iff]
    rintro i - ⟨⟨req, hreq, hholds⟩, hepoch, hfin⟩
    exact hfin (hthrough i req hreq hholds hepoch)
  have hwriter : (s.locks t.flushMu).writer = false := by
    by_contra hwr
    obtain ⟨w', u, hu, hmu⟩ := h.locks.writes _ (by simpa using hwr)
    have hkind := (h.inv.running w t _ hw).kind (by simp)
    have hkind' := (h.inv.running w' u _ hu).kind (by simp)
    obtain rfl := h.inv.flusher_eq hu hw hkind' hkind hmu
    simp [hw] at hu
  have hwaits := h.locks.waits w t hw
  simp [ReqProc.step, hwn, ReqProc.advance, hw, lockAcquire, hreaders, hwriter, hwaits]

lemma Kept.discipline_iff (h : Kept blockSize stream n s) :
    s.LockDiscipline blockSize stream n ↔ ∀ e, ¬ s.Leaks stream e := by
  rw [← h.balanced_iff]
  constructor
  · exact fun hd => hd.balanced
  · intro hbal
    exact ⟨hbal, h.locks.retired, h.reads, fun w t hw hthrough => h.goesOn hw hthrough (hbal _)⟩

/-! ## A leak is for good -/

lemma Leaks.lockAcquire_eq_none {e : ℕ} (hleak : s.Leaks stream e)
    (h : Kept blockSize stream n s) : (s.locks e).lockAcquire = none := by
  obtain ⟨i, req, hfin, hrel, hreq, hholds, hepoch⟩ := hleak
  have hmem : i ∈ s.heldIn stream e := by
    simp only [heldIn, Finset.mem_filter, Finset.mem_range]
    exact ⟨h.ledger.finished_lt i hfin, ⟨req, hreq, hholds⟩, hepoch, hrel⟩
  have hpos : (s.locks e).readers ≠ 0 := by
    rw [h.inv.readers_eq]
    exact Finset.card_ne_zero_of_mem hmem
  rw [lockAcquire, if_neg fun hall => hpos hall.1]

/-- Nobody gives the hold of a request back that is through. -/
lemma Leaks.step {e : ℕ} (hleak : s.Leaks stream e) (h : Kept blockSize stream n s) {ev : ProcEvent}
    (hstep : s.step blockSize stream n ev = some s') : s'.Leaks stream e := by
  obtain ⟨i, req, hfin, hrel, hreq⟩ := hleak
  suffices hkeeps : i ∈ s'.finished ∧ i ∉ s'.released from ⟨i, req, hkeeps.1, hkeeps.2, hreq⟩
  rcases step_cases hstep with ⟨req', -, hdec⟩ | ⟨w, t, pc, -, hw, hmoves⟩ | ⟨hs, -⟩
  · obtain ⟨_, _, _, _, rfl, -⟩ := decodeReq_frame hdec
    exact ⟨hfin, hrel⟩
  · have hne : i ≠ t.idx := by
      rintro rfl
      exact h.ledger.running w t pc hw hfin
    cases hmoves with
    | refuses _ _ _ => exact ⟨Finset.mem_insert_of_mem hfin, hrel⟩
    | leaves _ => exact ⟨Finset.mem_insert_of_mem hfin, hrel⟩
    | releases _ _ =>
      refine ⟨Finset.mem_insert_of_mem hfin, fun hmem => ?_⟩
      exact (Finset.mem_insert.mp hmem).elim hne hrel
    | _ => exact ⟨hfin, hrel⟩
  · exact ⟨hs.finished ▸ hfin, hs.released ▸ hrel⟩

/-- A flush that waits for a lock with a leak stays where it is. -/
lemma Leaks.waits_step {e w : ℕ} {t : Task} (hleak : s.Leaks stream e)
    (h : Kept blockSize stream n s) (hw : s.workers w = .running t .lockWait) (hmu : t.flushMu = e)
    {ev : ProcEvent} (hstep : s.step blockSize stream n ev = some s') :
    s'.workers w = .running t .lockWait := by
  have hothers : ∀ w' x, w' ≠ w → Function.update s.workers w' x w = .running t .lockWait :=
    fun w' x hne => by rw [Function.update_of_ne hne.symm, hw]
  rcases step_cases hstep with ⟨req', -, hdec⟩ | ⟨w', u, pc, -, hw', hmoves⟩ | ⟨hs, -⟩
  · obtain ⟨_, _, _, _, rfl, -⟩ := decodeReq_frame hdec
    exact hw
  · have hne : w' ≠ w := by
      rintro rfl
      obtain ⟨rfl, rfl⟩ := Worker.running.inj (hw'.symm.trans hw)
      cases hmoves with
      | locks hm =>
        rw [hmu, hleak.lockAcquire_eq_none h] at hm
        cases hm
    cases hmoves <;> exact hothers w' _ hne
  · rcases hs.workers with hworkers | ⟨w', hidle, u, -, hworkers⟩
    · rw [hworkers]
      exact hw
    · rw [hworkers]
      apply hothers
      rintro rfl
      rw [hw] at hidle
      cases hidle

/-- A flush waits for a lock with a leak. -/
structure Stuck (blockSize : ℤ) (stream : List Request) (n w : ℕ) (t : Task) (s : ReqProc) :
    Prop where
  kept : Kept blockSize stream n s
  leaks : s.Leaks stream t.flushMu
  waits : s.workers w = .running t .lockWait

lemma Stuck.step {w : ℕ} {t : Task} (h : Stuck blockSize stream n w t s) {ev : ProcEvent}
    (hstep : s.step blockSize stream n ev = some s') : Stuck blockSize stream n w t s' where
  kept := h.kept.step hstep
  leaks := h.leaks.step h.kept hstep
  waits := h.leaks.waits_step h.kept h.waits rfl hstep

/-- **A leaked hold blocks its epoch's flush for ever.**  Once a write or trim is through without
giving its hold back, the worker that waits for the lock of its epoch waits in every state that
follows. -/
theorem leak_blocks_forever (blockSize : ℤ) (stream : List Request) (n : ℕ)
    (es es' : List ProcEvent) (s s' : ReqProc)
    (hrun : Machine.run (step blockSize stream n) init es = some s) (w : ℕ) (t : Task)
    (hw : s.workers w = .running t .lockWait) (hleak : s.Leaks stream t.flushMu)
    (hrun' : Machine.run (step blockSize stream n) s es' = some s') :
    s'.workers w = .running t .lockWait ∧ s'.step blockSize stream n (.advance w) = none := by
  have hend : Stuck blockSize stream n w t s' := Machine.invariant
    (fun _ _ _ h hstep => h.step hstep) ⟨kept_of_run hrun, hleak, hw⟩ hrun'
  refine ⟨hend.waits, ?_⟩
  simp [ReqProc.step, ReqProc.advance, hend.waits, hend.leaks.lockAcquire_eq_none hend.kept]

/-! ## The result -/

/-- **Read holds are balanced, if no write is refused.**  Over any stream and with any number of
workers: in all states of a run the read holds are those of the requests that are not through, the
exclusive lock is asked for only behind the reader, which never waits, and a flush whose epoch is
through gets its lock, exactly when no step of the run executes a misaligned write. -/
theorem discipline_iff_accepts (blockSize : ℤ) (stream : List Request) (n : ℕ)
    (es : List ProcEvent) (s : ReqProc)
    (hrun : Machine.run (step blockSize stream n) init es = some s) :
    (∀ es' s', es' <+: es → Machine.run (step blockSize stream n) init es' = some s' →
        s'.LockDiscipline blockSize stream n) ↔
      Machine.Meets (step blockSize stream n) (Accepts blockSize) init es := by
  have hsteps : ∀ s e s', Unleaked blockSize stream n s → s.step blockSize stream n e = some s' →
      (Unleaked blockSize stream n s' ↔ s.Accepts blockSize e) := fun _ _ _ h hstep =>
    h.step_iff hstep
  rw [← Machine.meets_iff_forall_prefix hsteps .init hrun]
  refine forall₃_congr fun es' s' _ => forall_congr' fun hrun' => ?_
  have hkept := kept_of_run hrun'
  rw [hkept.discipline_iff]
  exact ⟨fun hnone => ⟨hkept, hnone⟩, fun h => h.none⟩

/-- A write and a trim, a misaligned read and a request of an unknown type, then a flush; two
workers. -/
def mixedStream : List Request :=
  [oneWrite, ⟨nbdTrim, List.replicate 8 1, 0, 4, [], rfl⟩,
    ⟨nbdRead, List.replicate 8 2, 1, 4, [], rfl⟩, ⟨77, List.replicate 8 3, 0, 0, [], rfl⟩, oneFlush]

def mixedRun : List ProcEvent :=
  List.flatten (List.replicate 5 [.decode, .enqueue]) ++ [.dequeue 0, .dequeue 1, .advance 1,
    .advance 0, .advance 1, .advance 1, .dequeue 1, .advance 1, .dequeue 1, .advance 1, .dequeue 1,
    .advance 1, .advance 0, .advance 0, .advance 1, .advance 1]

theorem discipline_iff_accepts_mixed :
    (∃ s, Machine.run (step 4 mixedStream 2) init mixedRun = some s) ∧
      ∀ es' s', es' <+: mixedRun → Machine.run (step 4 mixedStream 2) init es' = some s' →
        s'.LockDiscipline 4 mixedStream 2 := by
  have hends : (Machine.run (step 4 mixedStream 2) init mixedRun).isSome = true := by
    decide +kernel
  obtain ⟨s, hrun⟩ := Option.isSome_iff_exists.mp hends
  refine ⟨⟨s, hrun⟩, (discipline_iff_accepts 4 mixedStream 2 mixedRun s hrun).mpr ?_⟩
  decide +kernel

/-- A write at position 1 of a device with blocks of four bytes. -/
def misalignedWrite : Request := { oneWrite with pos := 1 }

/-- It is refused, and the flush behind it asks for the lock. -/
def refusedThenFlush : List ProcEvent :=
  [.decode, .enqueue, .decode, .enqueue, .dequeue 0, .advance 0, .dequeue 0, .advance 0]

/-- The only write of the epoch is through, its hold is out, and the flush cannot go on. -/
theorem refused_write_keeps_hold :
    ∃ s, Machine.run (step 4 [misalignedWrite, oneFlush] 1) init refusedThenFlush = some s ∧
      (s.locks 0).readers = 1 ∧ s.owed [misalignedWrite, oneFlush] 0 = ∅ ∧
      s.workers 0 = .running ⟨1, oneFlush, 0⟩ .lockWait ∧
      s.step 4 [misalignedWrite, oneFlush] 1 (.advance 0) = none ∧
      ¬ s.LockDiscipline 4 [misalignedWrite, oneFlush] 1 := by
  have hend : (Machine.run (step 4 [misalignedWrite, oneFlush] 1) init refusedThenFlush).map
      (fun s => ((s.locks 0).readers, s.owed [misalignedWrite, oneFlush] 0, s.workers 0,
        (s.step 4 [misalignedWrite, oneFlush] 1 (.advance 0)).isNone)) =
      some (1, ∅, .running ⟨1, oneFlush, 0⟩ .lockWait, true) := by
    decide +kernel
  obtain ⟨s, hrun, hs⟩ := Option.map_eq_some_iff.mp hend
  simp only [Prod.mk.injEq, Option.isNone_iff_eq_none] at hs
  obtain ⟨hreaders, howed, hw, hstuck⟩ := hs
  refine ⟨s, hrun, hreaders, howed, hw, hstuck, fun hd => ?_⟩
  have hbal := hd.balanced 0
  rw [hreaders, howed] at hbal
  cases hbal

end ReqProc
end Usbd
