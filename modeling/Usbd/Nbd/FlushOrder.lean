import Usbd.Nbd.Workers

/-!
# Flushes and the writes before them

A flush must not reach the device before the writes and trims that precede it in the stream.  The
lock of its own epoch gives it that for the writes decoded since the previous flush, and for those
only: a flush never waits for an earlier flush, nor for what that one is waiting for.  With one
write in progress, a first flush blocked on it and a second flush behind, a third worker takes the
second flush straight through (`flush_overtakes_write`).

`Inv` is what every interleaving keeps.  Its core is the count `readers_eq`: the read holds on the
lock of epoch `e` are those of the writes and trims decoded in epoch `e` and not yet released, so
that a lock granted to a flush means all of them have returned
(`Inv.cleared_of_readers_eq_zero`).  Streams without
two flushes behind a write need no more than that.  Neither do two workers: the queue is FIFO, so
a write overtaken by a second flush would keep one worker, the first flush another and the second
flush a third.
-/

namespace Usbd

open RWMutex

/-- The requests a flush has to wait for: block-aligned writes, and trims. -/
def Request.Ordered (req : Request) (blockSize : ℤ) : Prop :=
  (req.reqType = nbdWrite ∧ req.Aligned blockSize) ∨ req.reqType = nbdTrim

/-- The requests the reader takes a read hold for. -/
def Request.Holds (req : Request) : Prop :=
  req.reqType = nbdWrite ∨ req.reqType = nbdTrim

instance (req : Request) : Decidable req.Holds := inferInstanceAs (Decidable (_ ∨ _))

lemma Request.Ordered.holds {req : Request} {blockSize : ℤ} (h : req.Ordered blockSize) :
    req.Holds :=
  h.imp And.left id

lemma Request.Holds.ne_flush {req : Request} (h : req.Holds) : req.reqType ≠ nbdFlush := by
  rcases h with h | h <;> rw [h] <;> decide

lemma Request.Holds.ne_disconnect {req : Request} (h : req.Holds) :
    req.reqType ≠ nbdDisconnect := by
  rcases h with h | h <;> rw [h] <;> decide

/-! ## Epochs -/

/-- The number of flushes before a position: the name of the lock current there. -/
def epochOf (stream : List Request) (i : ℕ) : ℕ :=
  (stream.take i).countP fun req => req.reqType == nbdFlush

lemma epochOf_succ {stream : List Request} {i : ℕ} {req : Request}
    (h : stream[i]? = some req) :
    epochOf stream (i + 1) = epochOf stream i + if req.reqType = nbdFlush then 1 else 0 := by
  rw [epochOf, epochOf, List.take_add_one, h, List.countP_append]
  simp [List.countP_cons]

/-- Between a position and a later one of another epoch stands the flush that closed the first. -/
lemma exists_flush_of_epochOf_ne {stream : List Request} {i k : ℕ} (hik : i ≤ k)
    (hne : epochOf stream i ≠ epochOf stream k) :
    ∃ j req, i ≤ j ∧ j < k ∧ stream[j]? = some req ∧ req.reqType = nbdFlush ∧
      epochOf stream j = epochOf stream i := by
  induction k, hik using Nat.le_induction with
  | base => exact absurd rfl hne
  | succ k hik ih =>
    by_cases heq : epochOf stream i = epochOf stream k
    · -- the epoch changes at `k` itself
      cases hk : stream[k]? with
      | none =>
        have hlen : stream.length ≤ k := List.getElem?_eq_none_iff.mp hk
        rw [heq, epochOf, epochOf, List.take_of_length_le hlen,
          List.take_of_length_le (by omega)] at hne
        exact absurd rfl hne
      | some req =>
        by_cases hf : req.reqType = nbdFlush
        · exact ⟨k, req, hik, by omega, hk, hf, heq.symm⟩
        · rw [epochOf_succ hk, if_neg hf] at hne
          exact absurd heq (by simpa using hne)
    · obtain ⟨j, req, hij, hjk, hrest⟩ := ih heq
      exact ⟨j, req, hij, by omega, hrest⟩

namespace ReqProc

/-! ## The invariant -/

section Invariant

variable (blockSize : ℤ) (stream : List Request) (n : ℕ)

/-- The requests decoded and not yet taken by a worker, in stream order. -/
def waiting (s : ReqProc) : List Task := s.reqQueue ++ s.pending.toList

/-- The positions whose read hold on the lock of epoch `e` is outstanding. -/
def heldIn (s : ReqProc) (e : ℕ) : Finset ℕ :=
  {i ∈ Finset.range s.decoded |
    (∃ req, stream[i]? = some req ∧ req.Holds) ∧ epochOf stream i = e ∧ i ∉ s.released}

/-- Every earlier ordered request of the same epoch has come back from the device. -/
def Cleared (s : ReqProc) (k : ℕ) : Prop :=
  ∀ i req, i < k → stream[i]? = some req → req.Ordered blockSize →
    epochOf stream i = epochOf stream k → i ∈ s.returned

/-- A decoded task: the request at its position, with the lock current there and any read hold it
took still out. -/
structure TaskInv (s : ReqProc) (t : Task) : Prop where
  req_eq : stream[t.idx]? = some t.req
  flushMu_eq : t.flushMu = epochOf stream t.idx
  lt_decoded : t.idx < s.decoded
  fresh : t.idx ∉ s.released

/-- A task on a worker: it was decoded before everything still waiting, and a flush past its lock
is cleared. -/
structure RunningInv (s : ReqProc) (t : Task) (pc : Pc) : Prop extends TaskInv stream s t where
  lt_waiting : ∀ u ∈ s.waiting, t.idx < u.idx
  returned : pc = .returned → t.idx ∈ s.returned
  cleared : t.req.reqType = nbdFlush → pc ≠ .start → pc ≠ .lockWait →
    s.Cleared blockSize stream t.idx
  kind : pc = .lockWait ∨ pc = .locked ∨ pc = .unlocked → t.req.reqType = nbdFlush

/-- A request through `execute`: an ordered one has returned, a flush is cleared. -/
structure FinishedInv (s : ReqProc) (i : ℕ) (req : Request) : Prop where
  returned : req.Ordered blockSize → i ∈ s.returned
  cleared : req.reqType = nbdFlush → s.Cleared blockSize stream i

/-- What every interleaving keeps. -/
structure Inv (s : ReqProc) : Prop where
  idle_of_le : ∀ w, n ≤ w → s.workers w = .idle
  epoch_eq : s.epoch = epochOf stream s.decoded
  waiting : ∀ t ∈ s.waiting, TaskInv stream s t
  sorted : (s.waiting.map Task.idx).Pairwise (· < ·)
  running : ∀ w t pc, s.workers w = .running t pc → RunningInv blockSize stream s t pc
  running_inj : ∀ w w' t t' pc pc', s.workers w = .running t pc → s.workers w' = .running t' pc' →
    t.idx = t'.idx → w = w'
  finished : ∀ i ∈ s.finished, ∀ req, stream[i]? = some req →
    FinishedInv blockSize stream s i req
  accounted : ∀ i req, i < s.decoded → stream[i]? = some req → req.reqType ≠ nbdDisconnect →
    (∃ t ∈ s.waiting, t.idx = i) ∨ (∃ w t pc, s.workers w = .running t pc ∧ t.idx = i) ∨
      i ∈ s.finished
  released : ∀ i ∈ s.released, i < s.decoded ∧ i ∈ s.returned
  readers_eq : ∀ e, (s.locks e).readers = (s.heldIn stream e).card
  disconnect : ∀ i req, i < s.decoded → stream[i]? = some req → req.reqType = nbdDisconnect →
    s.readerDone = true ∧ i + 1 = s.decoded

end Invariant

variable {blockSize : ℤ} {stream : List Request} {n : ℕ} {s s' : ReqProc}

lemma init_inv : Inv blockSize stream n init where
  idle_of_le := fun _ _ => rfl
  epoch_eq := by simp [init, epochOf]
  waiting := by simp [ReqProc.waiting, init]
  sorted := by simp [ReqProc.waiting, init]
  running := by simp [init]
  running_inj := by simp [init]
  finished := by simp [init]
  accounted := by simp [init]
  released := by simp [init]
  readers_eq := by simp [init, heldIn, RWMutex.new]
  disconnect := by simp [init]

lemma Cleared.mono {k : ℕ} (h : s.Cleared blockSize stream k) (hret : s.returned ⊆ s'.returned) :
    s'.Cleared blockSize stream k :=
  fun i req hi hreq ho he => hret (h i req hi hreq ho he)

lemma TaskInv.mono {t : Task} (h : TaskInv stream s t) (hdec : s.decoded ≤ s'.decoded)
    (hfresh : t.idx ∉ s'.released) : TaskInv stream s' t :=
  ⟨h.req_eq, h.flushMu_eq, h.lt_decoded.trans_le hdec, hfresh⟩

lemma RunningInv.mono {t : Task} {pc : Pc} (h : RunningInv blockSize stream s t pc)
    (hwaiting : ∀ u ∈ s'.waiting, t.idx < u.idx) (hdec : s.decoded ≤ s'.decoded)
    (hret : s.returned ⊆ s'.returned) (hfresh : t.idx ∉ s'.released) :
    RunningInv blockSize stream s' t pc :=
  ⟨h.toTaskInv.mono hdec hfresh, hwaiting, fun hp => hret (h.returned hp),
    fun hf h1 h2 => (h.cleared hf h1 h2).mono hret, h.kind⟩

lemma FinishedInv.mono {i : ℕ} {req : Request} (h : FinishedInv blockSize stream s i req)
    (hret : s.returned ⊆ s'.returned) : FinishedInv blockSize stream s' i req :=
  ⟨fun ho => hret (h.returned ho), fun hf => (h.cleared hf).mono hret⟩

/-- The lock of a flush is free of readers only when the writes of its epoch are back. -/
lemma Inv.cleared_of_readers_eq_zero (h : Inv blockSize stream n s) {t : Task}
    (ht : TaskInv stream s t) (h0 : (s.locks t.flushMu).readers = 0) :
    s.Cleared blockSize stream t.idx := by
  intro i req hi hreq ho he
  have hempty : s.heldIn stream t.flushMu = ∅ := by
    rw [← Finset.card_eq_zero, ← h.readers_eq, h0]
  by_contra hret
  have hmem : i ∈ s.heldIn stream t.flushMu := by
    simp only [heldIn, Finset.mem_filter, Finset.mem_range]
    refine ⟨hi.trans ht.lt_decoded, ⟨req, hreq, ho.holds⟩, by rw [he, ht.flushMu_eq], ?_⟩
    exact fun hrel => hret (h.released i hrel).2
  simp [hempty] at hmem

/-! ## Steps of a worker -/

lemma Inv.move (h : Inv blockSize stream n s) {w : ℕ} {t : Task} {pc pc' : Pc}
    (hw : s.workers w = .running t pc) {locks : ℕ → RWMutex} {returned : Finset ℕ}
    (hlocks : ∀ e, (locks e).readers = (s.locks e).readers) (hret : s.returned ⊆ returned)
    (hret' : pc' = .returned → t.idx ∈ returned)
    (hclear : t.req.reqType = nbdFlush → pc' ≠ .start → pc' ≠ .lockWait →
      s.Cleared blockSize stream t.idx)
    (hkind : pc' = .lockWait ∨ pc' = .locked ∨ pc' = .unlocked → t.req.reqType = nbdFlush) :
    Inv blockSize stream n
      { s with workers := Function.update s.workers w (.running t pc'), locks, returned } where
  idle_of_le w' hw' := by
    have hne : w' ≠ w := by
      rintro rfl
      rw [h.idle_of_le w' hw'] at hw
      exact Worker.noConfusion hw
    simpa [Function.update_of_ne hne] using h.idle_of_le w' hw'
  epoch_eq := h.epoch_eq
  waiting u hu := (h.waiting u hu).mono le_rfl (h.waiting u hu).fresh
  sorted := h.sorted
  running w' u pcu hu := by
    by_cases hww : w' = w
    · subst hww
      simp only [Function.update_self, Worker.running.injEq] at hu
      obtain ⟨rfl, rfl⟩ := hu
      have hr := h.running _ _ _ hw
      exact ⟨hr.toTaskInv.mono le_rfl hr.fresh, hr.lt_waiting, hret',
        fun hf h1 h2 => (hclear hf h1 h2).mono hret, hkind⟩
    · simp only [Function.update_of_ne hww] at hu
      have hr := h.running _ _ _ hu
      exact hr.mono hr.lt_waiting le_rfl hret hr.fresh
  running_inj a b u v pu pv ha hb huv := by
    have key : ∀ c x px, (Function.update s.workers w (.running t pc') c = .running x px) →
        ∃ p, s.workers c = .running x p := by
      intro c x px hc
      by_cases hcw : c = w
      · subst hcw
        simp only [Function.update_self, Worker.running.injEq] at hc
        exact ⟨pc, by rw [hw, hc.1]⟩
      · exact ⟨px, by simpa [Function.update_of_ne hcw] using hc⟩
    obtain ⟨pa, ha'⟩ := key a u pu ha
    obtain ⟨pb, hb'⟩ := key b v pv hb
    exact h.running_inj a b u v pa pb ha' hb' huv
  finished i hi req hreq := (h.finished i hi req hreq).mono hret
  accounted i req hi hreq hd := by
    rcases h.accounted i req hi hreq hd with hwait | ⟨w', u, pu, hu, rfl⟩ | hfin
    · exact Or.inl hwait
    · refine Or.inr (Or.inl ?_)
      by_cases hww : w' = w
      · subst hww
        rw [hw, Worker.running.injEq] at hu
        exact ⟨w', t, pc', by simp, by rw [hu.1]⟩
      · exact ⟨w', u, pu, by simpa [Function.update_of_ne hww] using hu, rfl⟩
    · exact Or.inr (Or.inr hfin)
  released i hi := ⟨(h.released i hi).1, hret (h.released i hi).2⟩
  readers_eq e := (hlocks e).trans (h.readers_eq e)
  disconnect := h.disconnect

lemma Inv.leave (h : Inv blockSize stream n s) {w : ℕ} {t : Task} {pc : Pc}
    (hw : s.workers w = .running t pc) {locks : ℕ → RWMutex} {released : Finset ℕ}
    (hord : t.req.Ordered blockSize → t.idx ∈ s.returned)
    (hclear : t.req.reqType = nbdFlush → s.Cleared blockSize stream t.idx)
    (hrel : ∀ i ∈ released, i ∈ s.released ∨ i = t.idx ∧ i ∈ s.returned)
    (hreaders : ∀ e, (locks e).readers = (heldIn stream { s with released } e).card) :
    Inv blockSize stream n
      { s with workers := Function.update s.workers w .idle, locks, released,
               finished := insert t.idx s.finished } := by
  have ht := h.running w t pc hw
  -- who still runs is another worker, with another request
  have hstill : ∀ w' u p, Function.update s.workers w .idle w' = .running u p →
      w' ≠ w ∧ s.workers w' = .running u p := by
    intro w' u p hu
    have hne : w' ≠ w := by
      rintro rfl
      simp at hu
    exact ⟨hne, by simpa [Function.update_of_ne hne] using hu⟩
  have hfresh : ∀ i, i ∉ s.released → i ≠ t.idx → i ∉ released := fun i hi hne hmem =>
    (hrel i hmem).elim hi fun h' => hne h'.1
  exact {
    idle_of_le := fun w' hw' => by
      by_cases hww : w' = w
      · simp [hww]
      · simpa [Function.update_of_ne hww] using h.idle_of_le w' hw'
    epoch_eq := h.epoch_eq
    waiting := fun u hu => (h.waiting u hu).mono le_rfl
      (hfresh _ (h.waiting u hu).fresh (ht.lt_waiting u hu).ne')
    sorted := h.sorted
    running := fun w' u p hu => by
      obtain ⟨hne, hu⟩ := hstill w' u p hu
      have hr := h.running _ _ _ hu
      have hidx : u.idx ≠ t.idx := fun heq => hne (h.running_inj _ _ _ _ _ _ hu hw heq)
      exact hr.mono hr.lt_waiting le_rfl subset_rfl (hfresh _ hr.fresh hidx)
    running_inj := fun a b u v pu pv ha hb huv =>
      h.running_inj a b u v pu pv (hstill a u pu ha).2 (hstill b v pv hb).2 huv
    finished := fun i hi req hreq => by
      rcases Finset.mem_insert.mp hi with rfl | hi
      · obtain rfl : t.req = req := Option.some.inj (ht.req_eq.symm.trans hreq)
        exact ⟨hord, hclear⟩
      · exact (h.finished i hi req hreq).mono subset_rfl
    accounted := fun i req hi hreq hd => by
      rcases h.accounted i req hi hreq hd with hwait | ⟨w', u, pu, hu, rfl⟩ | hfin
      · exact Or.inl hwait
      · by_cases hww : w' = w
        · subst hww
          rw [hw, Worker.running.injEq] at hu
          exact Or.inr (Or.inr (by simp [hu.1]))
        · exact Or.inr (Or.inl ⟨w', u, pu, by simpa [Function.update_of_ne hww] using hu, rfl⟩)
      · exact Or.inr (Or.inr (Finset.mem_insert_of_mem hfin))
    released := fun i hi => by
      rcases hrel i hi with hi | ⟨rfl, hret⟩
      · exact h.released i hi
      · exact ⟨ht.lt_decoded, hret⟩
    readers_eq := hreaders
    disconnect := h.disconnect }

/-- Giving a read hold back takes its position out of the holds of its epoch and of no other. -/
lemma heldIn_insert_released {t : Task} (ht : TaskInv stream s t) (hh : t.req.Holds) (e : ℕ) :
    heldIn stream { s with released := insert t.idx s.released } e =
      if e = t.flushMu then (s.heldIn stream e).erase t.idx else s.heldIn stream e := by
  ext i
  by_cases hi : i = t.idx
  · subst hi
    have hmem : t.idx ∈ s.heldIn stream e ↔ e = t.flushMu := by
      simp [heldIn, ht.lt_decoded, ht.req_eq, hh, ht.fresh, ht.flushMu_eq, eq_comm]
    split_ifs with he
    · simp [heldIn]
    · simp only [hmem, he, iff_false]
      simp [heldIn]
  · split_ifs <;> simp [heldIn, hi]

lemma Inv.advance (h : Inv blockSize stream n s) {w : ℕ} {s' : ReqProc}
    (hstep : s.advance blockSize w = some s') : Inv blockSize stream n s' := by
  obtain ⟨t, pc, hw, hmoves⟩ := advance_moves hstep
  have ht := h.running w t pc hw
  cases hmoves with
  | enters hin =>
    refine h.move hw (fun _ => rfl) subset_rfl (by simp) (fun hf _ _ => ?_) (by simp)
    rcases hin with ⟨hr | hw, -⟩ | htr
    · rw [hr] at hf
      exact absurd hf (by decide)
    · rw [hw] at hf
      exact absurd hf (by decide)
    · rw [htr] at hf
      exact absurd hf (by decide)
  | refuses hflush htrim hout =>
    -- the read hold of a misaligned write stays out
    refine h.leave hw (fun ho => ?_) (fun hf => absurd hf hflush) (fun i hi => Or.inl hi)
      h.readers_eq
    rcases ho with ⟨hwr, ha⟩ | htr
    · exact absurd ha (hout (Or.inr hwr))
    · exact absurd htr htrim
  | asks hflush =>
    refine h.move hw (fun e => ?_) subset_rfl (by simp) (by simp) (fun _ => hflush)
    by_cases he : e = t.flushMu
    · simp [he, setLock, lockRequest]
    · simp [he, setLock]
  | locks hm =>
    -- the lock is granted: nobody reads in this epoch any more
    obtain ⟨h0, rfl⟩ := lockAcquire_eq_some hm
    refine h.move hw (fun e => ?_) subset_rfl (by simp)
      (fun _ _ _ => h.cleared_of_readers_eq_zero ht.toTaskInv h0) (fun _ => ht.kind (by simp))
    by_cases he : e = t.flushMu
    · simp [he, setLock]
    · simp [he, setLock]
  | unlocks =>
    refine h.move hw (fun e => ?_) subset_rfl (by simp)
      (fun hf _ _ => ht.cleared hf (by simp) (by simp)) (fun _ => ht.kind (by simp))
    by_cases he : e = t.flushMu
    · simp [he, setLock, unlock]
    · simp [he, setLock]
  | flushes =>
    exact h.move hw (fun _ => rfl) subset_rfl (by simp)
      (fun hf _ _ => ht.cleared hf (by simp) (by simp)) (by simp)
  | returns =>
    exact h.move hw (fun _ => rfl) (Finset.subset_insert _ _) (by simp)
      (fun hf _ _ => ht.cleared hf (by simp) (by simp)) (by simp)
  | releases hholds hm =>
    have hret := ht.returned rfl
    obtain ⟨hpos, rfl⟩ := rUnlock_eq_some hm
    refine h.leave hw (fun _ => hret) (fun hf => absurd hf (Request.Holds.ne_flush hholds))
      (fun i hi => (Finset.mem_insert.mp hi).elim (fun e => Or.inr ⟨e, e ▸ hret⟩) Or.inl)
      (fun e => ?_)
    rw [heldIn_insert_released ht.toTaskInv hholds]
    by_cases he : e = t.flushMu
    · have hmem : t.idx ∈ s.heldIn stream t.flushMu := by
        simp only [heldIn, Finset.mem_filter, Finset.mem_range]
        exact ⟨ht.lt_decoded, ⟨_, ht.req_eq, hholds⟩, ht.flushMu_eq.symm, ht.fresh⟩
      subst he
      simp [setLock, finish, setWorker, Finset.card_erase_of_mem hmem, h.readers_eq]
    · simp [he, setLock, finish, setWorker, h.readers_eq]
  | leaves hfree =>
    exact h.leave hw (fun ho => absurd ho.holds hfree)
      (fun hf => ht.cleared hf (by simp) (by simp)) (fun i hi => Or.inl hi) h.readers_eq

/-! ## Steps of the reader and the queue -/

lemma heldIn_decode (hrel : ∀ i ∈ s.released, i < s.decoded) {req : Request}
    (hreq : stream[s.decoded]? = some req) (e : ℕ) :
    (heldIn stream { s with decoded := s.decoded + 1 } e).card =
      (s.heldIn stream e).card + if req.Holds ∧ epochOf stream s.decoded = e then 1 else 0 := by
  have hfresh : s.decoded ∉ s.released := fun h => (hrel _ h).ne rfl
  have hnot : s.decoded ∉ s.heldIn stream e := by simp [heldIn]
  unfold heldIn at hnot ⊢
  rw [Finset.range_add_one, Finset.filter_insert]
  by_cases hc : req.Holds ∧ epochOf stream s.decoded = e
  · rw [if_pos ⟨⟨req, hreq, hc.1⟩, hc.2, hfresh⟩, if_pos hc, Finset.card_insert_of_notMem hnot]
  · rw [if_neg hc, if_neg]
    · rfl
    · rintro ⟨⟨r, hr, hh⟩, he, -⟩
      obtain rfl : req = r := Option.some.inj (hreq.symm.trans hr)
      exact hc ⟨hh, he⟩

lemma Inv.decoded (h : Inv blockSize stream n s) (hpend : s.pending = none)
    (hopen : s.readerDone = false) {req : Request} (hreq : stream[s.decoded]? = some req)
    {locks : ℕ → RWMutex} {epoch : ℕ} {done : Bool} {pending : Option Task}
    (hepoch : epoch = epochOf stream (s.decoded + 1))
    (hreaders : ∀ e, (locks e).readers =
      (s.locks e).readers + if req.Holds ∧ s.epoch = e then 1 else 0)
    (hnew : pending = some ⟨s.decoded, req, s.epoch⟩ ∧ req.reqType ≠ nbdDisconnect ∨
      pending = none ∧ req.reqType = nbdDisconnect ∧ done = true) :
    Inv blockSize stream n
      { s with decoded := s.decoded + 1, epoch, locks, pending, readerDone := done } := by
  have hwait : s.waiting = s.reqQueue := by simp [ReqProc.waiting, hpend]
  have hrel : ∀ i ∈ s.released, i < s.decoded := fun i hi => (h.released i hi).1
  -- what waits afterwards: as before, and the request just decoded
  have hmem : ∀ u ∈ s.reqQueue ++ pending.toList,
      u ∈ s.waiting ∨ u = ⟨s.decoded, req, s.epoch⟩ := by
    intro u hu
    rw [hwait]
    rcases hnew with ⟨rfl, -⟩ | ⟨rfl, -⟩
    · simpa using hu
    · exact Or.inl (by simpa using hu)
  exact {
    idle_of_le := h.idle_of_le
    epoch_eq := hepoch
    waiting := fun u hu => by
      rcases hmem u hu with hu | rfl
      · exact (h.waiting u hu).mono (Nat.le_succ _) (h.waiting u hu).fresh
      · exact ⟨hreq, h.epoch_eq, Nat.lt_succ_self _, fun hi => (hrel _ hi).ne rfl⟩
    sorted := by
      have hs := h.sorted
      rw [hwait] at hs
      rcases hnew with ⟨rfl, -⟩ | ⟨rfl, -⟩
      · simp only [ReqProc.waiting, Option.toList_some, List.map_append, List.map_cons,
          List.map_nil]
        refine List.pairwise_append.mpr ⟨hs, List.pairwise_singleton _ _, fun a ha b hb => ?_⟩
        obtain ⟨u, hu, rfl⟩ := List.mem_map.mp ha
        rw [List.mem_singleton.mp hb]
        exact (h.waiting u (hwait ▸ hu)).lt_decoded
      · simpa [ReqProc.waiting] using hs
    running := fun w t pc hw => by
      have hr := h.running w t pc hw
      refine hr.mono (fun u hu => ?_) (Nat.le_succ _) subset_rfl hr.fresh
      rcases hmem u hu with hu | rfl
      · exact hr.lt_waiting u hu
      · exact hr.lt_decoded
    running_inj := h.running_inj
    finished := fun i hi r hr => (h.finished i hi r hr).mono subset_rfl
    accounted := fun i r hi hr hd => by
      rcases Nat.lt_succ_iff_lt_or_eq.mp hi with hlt | rfl
      · rcases h.accounted i r hlt hr hd with ⟨u, hu, hidx⟩ | hrest
        · exact Or.inl ⟨u, List.mem_append_left _ (hwait ▸ hu), hidx⟩
        · exact Or.inr hrest
      · rcases hnew with ⟨rfl, -⟩ | ⟨-, hdisc, -⟩
        · exact Or.inl ⟨⟨s.decoded, req, s.epoch⟩, by simp [ReqProc.waiting], rfl⟩
        · obtain rfl : req = r := Option.some.inj (hreq.symm.trans hr)
          exact absurd hdisc hd
    released := fun i hi => ⟨Nat.lt_succ_of_lt (h.released i hi).1, (h.released i hi).2⟩
    readers_eq := fun e => by
      rw [hreaders, h.readers_eq, h.epoch_eq]
      exact (heldIn_decode hrel hreq e).symm
    disconnect := fun i r hi hr hd => by
      rcases Nat.lt_succ_iff_lt_or_eq.mp hi with hlt | rfl
      · rw [(h.disconnect i r hlt hr hd).1] at hopen
        cases hopen
      · obtain rfl : req = r := Option.some.inj (hreq.symm.trans hr)
        rcases hnew with ⟨-, hkind⟩ | ⟨-, -, hdone⟩
        · exact absurd hd hkind
        · exact ⟨hdone, rfl⟩ }

lemma Inv.decodeReq (h : Inv blockSize stream n s) (hpend : s.pending = none)
    (hopen : s.readerDone = false) {req : Request} (hreq : stream[s.decoded]? = some req)
    (hstep : s.decodeReq req = some s') : Inv blockSize stream n s' := by
  have hepoch := epochOf_succ hreq
  rw [← h.epoch_eq] at hepoch
  unfold ReqProc.decodeReq at hstep
  split_ifs at hstep with hh hf hd
  · obtain ⟨m, hm, rfl⟩ := Option.map_eq_some_iff.mp hstep
    obtain rfl := rLock_eq_some hm
    rw [if_neg (Request.Holds.ne_flush hh)] at hepoch
    refine h.decoded hpend hopen hreq hepoch.symm (fun e => ?_)
      (Or.inl ⟨rfl, Request.Holds.ne_disconnect hh⟩)
    by_cases he : e = s.epoch
    · simp [he, setLock, show req.Holds from hh]
    · simp [he, setLock, eq_comm]
  · obtain rfl := Option.some.inj hstep
    rw [if_pos hf] at hepoch
    exact h.decoded hpend hopen hreq hepoch.symm (fun e => by simp [show ¬ req.Holds from hh])
      (Or.inl ⟨rfl, by rw [hf]; decide⟩)
  · obtain rfl := Option.some.inj hstep
    rw [if_neg hf] at hepoch
    exact h.decoded hpend hopen hreq hepoch.symm (fun e => by simp [show ¬ req.Holds from hh])
      (Or.inr ⟨hpend, hd, rfl⟩)
  · obtain rfl := Option.some.inj hstep
    rw [if_neg hf] at hepoch
    exact h.decoded hpend hopen hreq hepoch.symm (fun e => by simp [show ¬ req.Holds from hh])
      (Or.inl ⟨rfl, hd⟩)

lemma Inv.enqueue (h : Inv blockSize stream n s) {t : Task} (hpend : s.pending = some t) :
    Inv blockSize stream n { s with pending := none, reqQueue := s.reqQueue ++ [t] } := by
  have hwait : ReqProc.waiting { s with pending := none, reqQueue := s.reqQueue ++ [t] } =
      s.waiting := by
    simp [ReqProc.waiting, hpend]
  exact {
    idle_of_le := h.idle_of_le
    epoch_eq := h.epoch_eq
    waiting := fun u hu => by
      have hu := h.waiting u (hwait ▸ hu)
      exact hu.mono le_rfl hu.fresh
    sorted := hwait ▸ h.sorted
    running := fun w u pc hw => by
      have hr := h.running w u pc hw
      exact hr.mono (fun v hv => hr.lt_waiting v (hwait ▸ hv)) le_rfl subset_rfl hr.fresh
    running_inj := h.running_inj
    finished := fun i hi r hr => (h.finished i hi r hr).mono subset_rfl
    accounted := fun i r hi hr hd => by
      rw [hwait]
      exact h.accounted i r hi hr hd
    released := h.released
    readers_eq := h.readers_eq
    disconnect := h.disconnect }

lemma Inv.dequeue (h : Inv blockSize stream n s) {w : ℕ} (hwn : w < n)
    (hw : s.workers w = .idle) {t : Task} {rest : List Task} (hq : s.reqQueue = t :: rest) :
    Inv blockSize stream n
      { s with reqQueue := rest,
               workers := Function.update s.workers w (.running t .start) } := by
  have hwait : s.waiting = t :: (rest ++ s.pending.toList) := by simp [ReqProc.waiting, hq]
  -- the waiting requests keep their order, and their first one is the latest that runs
  have hsub : ∀ u ∈ rest ++ s.pending.toList, u ∈ s.waiting := fun u hu => by
    rw [hwait]
    exact List.mem_cons_of_mem _ hu
  have ht := h.waiting t (by simp [hwait])
  have hsort := h.sorted
  rw [hwait, List.map_cons, List.pairwise_cons] at hsort
  have hrunning : ∀ w' u pc, Function.update s.workers w (.running t .start) w' = .running u pc →
      w' = w ∧ u = t ∧ pc = .start ∨ w' ≠ w ∧ s.workers w' = .running u pc := by
    intro w' u pc hu
    by_cases hww : w' = w
    · subst hww
      simp only [Function.update_self, Worker.running.injEq] at hu
      exact Or.inl ⟨rfl, hu.1.symm, hu.2.symm⟩
    · exact Or.inr ⟨hww, by simpa [Function.update_of_ne hww] using hu⟩
  have hlt : ∀ w' u pc, s.workers w' = .running u pc → u.idx < t.idx := fun w' u pc hu =>
    (h.running w' u pc hu).lt_waiting t (by simp [hwait])
  exact {
    idle_of_le := fun w' hw' => by
      have hne : w' ≠ w := by omega
      simpa [Function.update_of_ne hne] using h.idle_of_le w' hw'
    epoch_eq := h.epoch_eq
    waiting := fun u hu => by
      have hu := h.waiting u (hsub u hu)
      exact hu.mono le_rfl hu.fresh
    sorted := hsort.2
    running := fun w' u pc hu => by
      rcases hrunning w' u pc hu with ⟨-, rfl, rfl⟩ | ⟨-, hu⟩
      · exact ⟨ht.mono le_rfl ht.fresh, fun v hv => hsort.1 _ (List.mem_map_of_mem hv), by simp,
          by simp, by simp⟩
      · have hr := h.running w' u pc hu
        exact hr.mono (fun v hv => hr.lt_waiting v (hsub v hv)) le_rfl subset_rfl hr.fresh
    running_inj := fun a b u v pu pv ha hb huv => by
      rcases hrunning a u pu ha with ⟨rfl, rfl, -⟩ | ⟨-, ha'⟩ <;>
        rcases hrunning b v pv hb with ⟨rfl, rfl, -⟩ | ⟨-, hb'⟩
      · rfl
      · exact absurd huv (hlt b v pv hb').ne'
      · exact absurd huv (hlt a u pu ha').ne
      · exact h.running_inj a b u v pu pv ha' hb' huv
    finished := fun i hi r hr => (h.finished i hi r hr).mono subset_rfl
    accounted := fun i r hi hr hd => by
      rcases h.accounted i r hi hr hd with ⟨u, hu, rfl⟩ | ⟨w', u, pc, hu, rfl⟩ | hfin
      · rw [hwait] at hu
        rcases List.mem_cons.mp hu with rfl | hu
        · exact Or.inr (Or.inl ⟨w, u, .start, by simp, rfl⟩)
        · exact Or.inl ⟨u, hu, rfl⟩
      · have hne : w' ≠ w := by
          rintro rfl
          rw [hw] at hu
          exact Worker.noConfusion hu
        exact Or.inr (Or.inl ⟨w', u, pc, by simpa [Function.update_of_ne hne] using hu, rfl⟩)
      · exact Or.inr (Or.inr hfin)
    released := h.released
    readers_eq := h.readers_eq
    disconnect := h.disconnect }

lemma Inv.step (h : Inv blockSize stream n s) {e : ProcEvent}
    (hstep : s.step blockSize stream n e = some s') : Inv blockSize stream n s' := by
  cases e with
  | decode =>
    simp only [ReqProc.step] at hstep
    split_ifs at hstep with hg
    obtain ⟨req, hreq, hdec⟩ := Option.bind_eq_some_iff.mp hstep
    exact h.decodeReq hg.1 hg.2 hreq hdec
  | enqueue =>
    simp only [ReqProc.step] at hstep
    split_ifs at hstep
    obtain ⟨t, ht, rfl⟩ := Option.map_eq_some_iff.mp hstep
    exact h.enqueue ht
  | cancel =>
    simp only [ReqProc.step] at hstep
    split_ifs at hstep
    obtain rfl := Option.some.inj hstep
    exact { h with
      waiting := fun u hu => (h.waiting u hu).mono le_rfl (h.waiting u hu).fresh
      running := fun w t pc hw => by
        have hr := h.running w t pc hw
        exact hr.mono hr.lt_waiting le_rfl subset_rfl hr.fresh
      finished := fun i hi r hr => (h.finished i hi r hr).mono subset_rfl
      disconnect := fun i r hi hr hd => ⟨rfl, (h.disconnect i r hi hr hd).2⟩ }
  | dequeue w =>
    simp only [ReqProc.step] at hstep
    split_ifs at hstep with hg
    split at hstep
    · cases hstep
    · next t rest hq =>
      obtain rfl := Option.some.inj hstep
      exact h.dequeue hg.1 hg.2 hq
  | advance w =>
    simp only [ReqProc.step] at hstep
    split_ifs at hstep
    exact h.advance hstep

/-! ## Flush ordering -/

/-- A worker about to call `dev.Flush` for a request: every earlier ordered request of the stream
has returned from the device. -/
def FlushOrdered (blockSize : ℤ) (stream : List Request) (s : ReqProc) : Prop :=
  ∀ w t, s.workers w = .running t .unlocked →
    ∀ i req, i < t.idx → stream[i]? = some req → req.Ordered blockSize → i ∈ s.returned

/-- No ordered request of the stream is followed by two flushes, up to a disconnect. -/
def SingleFlush (blockSize : ℤ) (stream : List Request) : Prop :=
  ∀ (i j k : ℕ) (ri rj rk : Request), i < j → j < k → stream[i]? = some ri → stream[j]? = some rj →
    stream[k]? = some rk → ri.Ordered blockSize → rj.reqType = nbdFlush → rk.reqType = nbdFlush →
      ∃ d rd, d < k ∧ stream[d]? = some rd ∧ rd.reqType = nbdDisconnect

/-- A request overtaken by a flush of a later epoch, the flush that closed its epoch and the flush
itself are on three different workers. -/
lemma Inv.three_workers (h : Inv blockSize stream n s) {w : ℕ} {t : Task}
    (hw : s.workers w = .running t .unlocked) {i : ℕ} {req : Request} (hi : i < t.idx)
    (hreq : stream[i]? = some req) (ho : req.Ordered blockSize) (hret : i ∉ s.returned)
    {j : ℕ} {rj : Request} (hij : i < j) (hjt : j < t.idx) (hj : stream[j]? = some rj)
    (hjf : rj.reqType = nbdFlush) (hepoch : epochOf stream j = epochOf stream i) :
    ∃ a b, a < n ∧ b < n ∧ a ≠ b ∧ a ≠ w ∧ b ≠ w := by
  have ht := h.running w t _ hw
  -- a decoded position before `t` has left the queue
  have hleft : ∀ k r, k < t.idx → stream[k]? = some r → r.reqType ≠ nbdDisconnect →
      (∃ w' u pc, s.workers w' = .running u pc ∧ u.idx = k) ∨ k ∈ s.finished := by
    intro k r hk hr hd
    rcases h.accounted k r (hk.trans ht.lt_decoded) hr hd with ⟨u, hu, rfl⟩ | hrest
    · exact absurd hk (ht.lt_waiting u hu).le.not_gt
    · exact hrest
  have hlt : ∀ w' u pc, s.workers w' = .running u pc → w' < n := by
    intro w' u pc hu
    by_contra hle
    rw [h.idle_of_le w' (Nat.le_of_not_lt hle)] at hu
    exact Worker.noConfusion hu
  obtain ⟨a, u, pu, hu, rfl⟩ : ∃ w' u pc, s.workers w' = .running u pc ∧ u.idx = i := by
    rcases hleft i req hi hreq ho.holds.ne_disconnect with hrun | hfin
    · exact hrun
    · exact absurd ((h.finished i hfin req hreq).returned ho) hret
  obtain ⟨b, v, pv, hv, rfl⟩ : ∃ w' u pc, s.workers w' = .running u pc ∧ u.idx = j := by
    rcases hleft j rj hjt hj (by rw [hjf]; decide) with hrun | hfin
    · exact hrun
    · exact absurd ((h.finished j hfin rj hj).cleared hjf u.idx req hij hreq ho hepoch.symm) hret
  refine ⟨a, b, hlt a u pu hu, hlt b v pv hv, ?_, ?_, ?_⟩
  · rintro rfl
    rw [hu, Worker.running.injEq] at hv
    exact hij.ne (by rw [hv.1])
  · rintro rfl
    rw [hu, Worker.running.injEq] at hw
    exact hi.ne (by rw [hw.1])
  · rintro rfl
    rw [hv, Worker.running.injEq] at hw
    exact hjt.ne (by rw [hw.1])

lemma Inv.flushOrdered (h : Inv blockSize stream n s)
    (hcond : n ≤ 2 ∨ SingleFlush blockSize stream) :
    s.FlushOrdered blockSize stream := by
  intro w t hw i req hi hreq ho
  have ht := h.running w t _ hw
  have htf := ht.kind (by simp)
  by_contra hret
  have hne : epochOf stream i ≠ epochOf stream t.idx := fun he =>
    hret (ht.cleared htf (by simp) (by simp) i req hi hreq ho he)
  obtain ⟨j, rj, hle, hjt, hj, hjf, hepoch⟩ := exists_flush_of_epochOf_ne hi.le hne
  have hij : i < j := by
    refine hle.lt_of_ne ?_
    rintro rfl
    obtain rfl : req = rj := Option.some.inj (hreq.symm.trans hj)
    exact ho.holds.ne_flush hjf
  rcases hcond with hn | hsingle
  · have hwn : w < n := by
      by_contra hle
      rw [h.idle_of_le w (Nat.le_of_not_lt hle)] at hw
      exact Worker.noConfusion hw
    obtain ⟨a, b, ha, hb, hab, haw, hbw⟩ :=
      h.three_workers hw hi hreq ho hret hij hjt hj hjf hepoch
    omega
  · obtain ⟨d, rd, hd, hrd, hkind⟩ :=
      hsingle i j t.idx req rj t.req hij hjt hreq hj ht.req_eq ho hjf htf
    -- the flush has been decoded, and nothing is decoded behind a disconnect
    have hlast := (h.disconnect d rd (hd.trans ht.lt_decoded) hrd hkind).2
    have hlt := ht.lt_decoded
    omega

/-- **Flush ordering.**  With at most two IO workers, or on a stream in which, up to a disconnect,
no block-aligned write or trim is followed by two flushes, every interleaving calls `dev.Flush` only
after the device calls of all earlier block-aligned writes and trims have returned. -/
theorem flush_after_earlier_writes (blockSize : ℤ) (stream : List Request) (n : ℕ)
    (hcond : n ≤ 2 ∨ SingleFlush blockSize stream) (es : List ProcEvent) (s : ReqProc)
    (hrun : Machine.run (step blockSize stream n) init es = some s) :
    s.FlushOrdered blockSize stream := by
  have hinv : Inv blockSize stream n s :=
    Machine.invariant (fun _ _ _ h hstep => h.step hstep) init_inv hrun
  exact hinv.flushOrdered hcond

/-- A write of one four-byte block. -/
def oneWrite : Request := ⟨nbdWrite, List.replicate 8 0, 0, 4, [1, 1, 1, 1], rfl⟩

def oneFlush : Request := ⟨nbdFlush, List.replicate 8 0, 0, 0, [], rfl⟩

/-- A write and a flush on one worker, up to the call of `dev.Flush`. -/
def writeThenFlush : List ProcEvent :=
  [.decode, .enqueue, .decode, .enqueue, .dequeue 0, .advance 0, .advance 0, .advance 0,
    .dequeue 0, .advance 0, .advance 0, .advance 0]

theorem flush_after_earlier_writes_one_worker :
    (Machine.run (step 4 [oneWrite, oneFlush] 1) init writeThenFlush).map (·.workers 0) =
        some (.running ⟨1, oneFlush, 0⟩ .unlocked) ∧
      ∀ s, Machine.run (step 4 [oneWrite, oneFlush] 1) init writeThenFlush = some s →
        s.FlushOrdered 4 [oneWrite, oneFlush] :=
  ⟨rfl, fun s hrun => flush_after_earlier_writes 4 [oneWrite, oneFlush] 1 (Or.inl (by decide))
    writeThenFlush s hrun⟩

/-- A write, a flush and a flush on three workers: the first inside `dev.WriteAt`, the second
waiting for the lock of the first flush, the third about to call `dev.Flush`. -/
def writeFlushFlush : List ProcEvent :=
  [.decode, .enqueue, .decode, .enqueue, .decode, .enqueue, .dequeue 0, .advance 0,
    .dequeue 1, .advance 1, .dequeue 2, .advance 2, .advance 2, .advance 2]

theorem flush_overtakes_write :
    ∃ s, Machine.run (step 4 [oneWrite, oneFlush, oneFlush] 3) init writeFlushFlush = some s ∧
      ¬ s.FlushOrdered 4 [oneWrite, oneFlush, oneFlush] := by
  have hend : (Machine.run (step 4 [oneWrite, oneFlush, oneFlush] 3) init writeFlushFlush).map
      (fun s => (s.workers 2, s.returned)) = some (.running ⟨2, oneFlush, 1⟩ .unlocked, ∅) := rfl
  obtain ⟨s, hrun, hs⟩ := Option.map_eq_some_iff.mp hend
  rw [Prod.mk.injEq] at hs
  refine ⟨s, hrun, fun h => ?_⟩
  have hmem := h 2 _ hs.1 0 oneWrite (by decide) rfl (Or.inl (by decide))
  rw [hs.2] at hmem
  exact absurd hmem (Finset.notMem_empty 0)

end ReqProc
end Usbd
