import Usbd.Nbd.Replies

/-!
# Tearing the processor down

`processRequests` starts the reader, the workers and the writer and waits for its context.  What
follows is a chain: the reader finds the context cancelled and closes `reqQueue`, the workers empty
it and exit, `processRequests` closes `respQueue` behind them and closes the device, and the writer
empties the queue and exits.  The context is cancelled from outside, by a disconnect, or by the
reader when `Decode` fails.

`Serving` is `PoolProc` with that chain.  Two things are shown of it, for every interleaving.  The
device is closed last: nobody is inside it then, nobody calls it afterwards, and all that was
decoded is through (`close_comes_last`).  And the writer leaves last of the goroutines: where it has
exited, each decoded request has its one reply on the stream (`writer_leaves_last`).
-/

namespace Usbd

/-- Where `processRequests` itself is. -/
inductive MainPc
  /-- In `<-ctx.Done()`. -/
  | awaitCancel
  /-- In `workersWg.Wait()`. -/
  | awaitWorkers
  /-- `respQueue` is closed, the device is not. -/
  | closing
  | returned
  deriving DecidableEq, Repr

/-- `processRequests` and its goroutines.  `reading` is the reader in `Decode`, past its look at the
context. -/
structure Serving where
  proc : PoolProc
  reading : Bool
  cancelled : Bool
  main : MainPc

inductive ServeEvent
  /-- The context is cancelled from outside. -/
  | cancel
  /-- The reader looks at the context. -/
  | check
  | decode (pick : Option ℕ)
  /-- `Decode` fails, behind the last request of the stream. -/
  | fail
  /-- A step of a queue, a worker or the writer. -/
  | work (e : PoolEvent)
  /-- The writer finds its queue closed. -/
  | stop
  | main
  deriving DecidableEq

/-- A step of the processor that neither the context nor `processRequests` has to do with. -/
def PoolEvent.inner : PoolEvent → Bool
  | .decode _ => false
  | .cancel => false
  | .stop => false
  | _ => true

namespace Serving

/-- The goroutines are started. -/
def init : Serving := ⟨.init, false, false, .awaitCancel⟩

/-- `respQueue` is closed. -/
def RespClosed (s : Serving) : Prop := s.main = .closing ∨ s.main = .returned

instance (s : Serving) : Decidable s.RespClosed := inferInstanceAs (Decidable (_ ∨ _))

variable (blockSize : ℤ) (stream : List Request) (n : ℕ)

/-- The next step of `processRequests`. -/
def mainStep (s : Serving) : Option Serving :=
  match s.main with
  | .awaitCancel => if s.cancelled then some { s with main := .awaitWorkers } else none
  | .awaitWorkers =>
    if ∀ w < n, s.proc.workers w = .exited then some { s with main := .closing } else none
  | .closing => some { s with main := .returned }
  | .returned => none

/-- The processor over a stream, with a device of the given block size and `n` IO workers. -/
def step (s : Serving) : ServeEvent → Option Serving
  | .cancel => if s.cancelled then none else some { s with cancelled := true }
  | .check =>
    if s.reading = false ∧ s.proc.readerDone = false ∧ s.proc.pending = none then
      if s.cancelled then
        (s.proc.step blockSize stream n .cancel).map fun proc => { s with proc }
      else some { s with reading := true }
    else none
  | .decode pick =>
    if s.reading then
      (s.proc.step blockSize stream n (.decode pick)).map fun proc =>
        -- only a disconnect stops the reader here
        { s with proc, reading := false, cancelled := s.cancelled || proc.readerDone }
    else none
  | .fail =>
    if s.reading ∧ stream.length ≤ s.proc.decoded then
      (s.proc.step blockSize stream n .cancel).map fun proc =>
        { s with proc, reading := false, cancelled := true }
    else none
  | .work e =>
    if e.inner then (s.proc.step blockSize stream n e).map fun proc => { s with proc } else none
  | .stop =>
    if s.RespClosed then (s.proc.step blockSize stream n .stop).map fun proc => { s with proc }
    else none
  | .main => s.mainStep n

/-! ## What a step can be -/

/-- What can happen, and what comes of it. -/
inductive Happens (s : Serving) : ServeEvent → Serving → Prop
  | cancels (hctx : s.cancelled = false) : Happens s .cancel { s with cancelled := true }
  | leaves {proc : PoolProc} (hctx : s.cancelled = true) (hdone : s.proc.readerDone = false)
      (hreading : s.reading = false)
      (hproc : s.proc.step blockSize stream n .cancel = some proc) :
      Happens s .check { s with proc }
  | starts (hreading : s.reading = false) (hdone : s.proc.readerDone = false)
      (hpend : s.proc.pending = none) : Happens s .check { s with reading := true }
  | decodes {pick : Option ℕ} {proc : PoolProc} (hreading : s.reading = true)
      (hproc : s.proc.step blockSize stream n (.decode pick) = some proc) :
      Happens s (.decode pick)
        { s with proc, reading := false, cancelled := s.cancelled || proc.readerDone }
  | fails {proc : PoolProc} (hreading : s.reading = true)
      (hproc : s.proc.step blockSize stream n .cancel = some proc) :
      Happens s .fail { s with proc, reading := false, cancelled := true }
  | works {e : PoolEvent} {proc : PoolProc} (hinner : e.inner)
      (hproc : s.proc.step blockSize stream n e = some proc) : Happens s (.work e) { s with proc }
  | stops {proc : PoolProc} (hclosed : s.RespClosed)
      (hproc : s.proc.step blockSize stream n .stop = some proc) : Happens s .stop { s with proc }
  | seesCancel (hmain : s.main = .awaitCancel) (hctx : s.cancelled = true) :
      Happens s .main { s with main := .awaitWorkers }
  | seesWorkers (hmain : s.main = .awaitWorkers) (hexited : ∀ w < n, s.proc.workers w = .exited) :
      Happens s .main { s with main := .closing }
  | closes (hmain : s.main = .closing) : Happens s .main { s with main := .returned }

variable {blockSize stream n} {s s' : Serving} {e : ServeEvent}

lemma mainStep_happens (h : s.mainStep n = some s') : Happens blockSize stream n s .main s' := by
  unfold mainStep at h
  cases hmain : s.main with
  | awaitCancel =>
    simp only [hmain] at h
    split_ifs at h with hctx
    obtain rfl := Option.some.inj h
    exact .seesCancel hmain hctx
  | awaitWorkers =>
    simp only [hmain] at h
    split_ifs at h with hexited
    obtain rfl := Option.some.inj h
    exact .seesWorkers hmain hexited
  | closing =>
    simp only [hmain, Option.some.injEq] at h
    obtain rfl := h
    exact .closes hmain
  | returned => simp [hmain] at h

lemma step_happens (h : s.step blockSize stream n e = some s') :
    Happens blockSize stream n s e s' := by
  cases e with
  | cancel =>
    simp only [step] at h
    split_ifs at h with hctx
    obtain rfl := Option.some.inj h
    exact .cancels (by simpa using hctx)
  | check =>
    simp only [step] at h
    split_ifs at h with hg hctx
    · obtain ⟨proc, hproc, rfl⟩ := Option.map_eq_some_iff.mp h
      exact .leaves hctx hg.2.1 hg.1 hproc
    · obtain rfl := Option.some.inj h
      exact .starts hg.1 hg.2.1 hg.2.2
  | decode pick =>
    simp only [step] at h
    split_ifs at h with hreading
    obtain ⟨proc, hproc, rfl⟩ := Option.map_eq_some_iff.mp h
    exact .decodes hreading hproc
  | fail =>
    simp only [step] at h
    split_ifs at h with hg
    obtain ⟨proc, hproc, rfl⟩ := Option.map_eq_some_iff.mp h
    exact .fails hg.1 hproc
  | work e =>
    simp only [step] at h
    split_ifs at h with hinner
    obtain ⟨proc, hproc, rfl⟩ := Option.map_eq_some_iff.mp h
    exact .works hinner hproc
  | stop =>
    simp only [step] at h
    split_ifs at h with hclosed
    obtain ⟨proc, hproc, rfl⟩ := Option.map_eq_some_iff.mp h
    exact .stops hclosed hproc
  | main => exact mainStep_happens h

/-- The processor underneath takes a step, or stays where it is. -/
lemma Happens.proc (h : Happens blockSize stream n s e s') :
    s'.proc = s.proc ∨ ∃ pe, s.proc.step blockSize stream n pe = some s'.proc := by
  cases h with
  | leaves _ _ _ hproc => exact Or.inr ⟨_, hproc⟩
  | decodes _ hproc => exact Or.inr ⟨_, hproc⟩
  | fails _ hproc => exact Or.inr ⟨_, hproc⟩
  | works _ hproc => exact Or.inr ⟨_, hproc⟩
  | stops _ hproc => exact Or.inr ⟨_, hproc⟩
  | _ => exact Or.inl rfl

end Serving

/-! ## Steps of the processor -/

namespace PoolProc

variable {blockSize : ℤ} {stream : List Request} {n : ℕ} {s s' : PoolProc} {w a b : ℕ}

/-- The worker `w` goes to `x`, and neither the reader nor the writer moves. -/
structure Moves (s s' : PoolProc) (w : ℕ) (x : PoolWorker) : Prop where
  workers : s'.workers = Function.update s.workers w x
  decoded : s'.decoded = s.decoded
  pending : s'.pending = s.pending
  readerDone : s'.readerDone = s.readerDone
  writer : s'.writer = s.writer

lemma Acts.moves {ans : DevAnswer} {pc : Pc} {code : NbdErr}
    (h : Acts blockSize s w a b ans pc code s') : ∃ x, Moves s s' w x := by
  cases h with
  | enters _ =>
    unfold enter
    split_ifs <;> exact ⟨_, rfl, rfl, rfl, rfl, rfl⟩
  | returns _ =>
    unfold devReturn
    split_ifs <;> exact ⟨_, rfl, rfl, rfl, rfl, rfl⟩
  | _ => exact ⟨_, rfl, rfl, rfl, rfl, rfl⟩

/-- Behind the reader nothing is decoded, and the reader is where it was. -/
lemma reader_step {e : PoolEvent} (howned : Owned s) (he : e.inner ∨ e = .stop)
    (hstep : s.step blockSize stream n e = some s') :
    s'.decoded = s.decoded ∧ s'.readerDone = s.readerDone ∧
      (s.pending = none → s'.pending = none) := by
  cases step_happens hstep with
  | decodes _ _ _ _ _ => simp [PoolEvent.inner] at he
  | cancels _ => simp [PoolEvent.inner] at he
  | fetches hw hget =>
    obtain ⟨respPool, respsMade, resps, rfl, -, -⟩ := howned.getResp hget
    exact ⟨rfl, rfl, fun hp => hp⟩
  | acts hlt hw hadv hacts =>
    obtain ⟨x, hmoves⟩ := hacts.moves
    exact ⟨hmoves.decoded, hmoves.readerDone, fun hp => hmoves.pending.trans hp⟩
  | enqueues _ _ => exact ⟨rfl, rfl, fun _ => rfl⟩
  | _ => exact ⟨rfl, rfl, fun hp => hp⟩

lemma decode_frame (howned : Owned s) {pick : Option ℕ}
    (hstep : s.step blockSize stream n (.decode pick) = some s') :
    s'.workers = s.workers ∧ s'.writer = s.writer := by
  cases step_happens hstep with
  | decodes hpend hdone hreq hget hdec =>
    obtain ⟨reqPool, reqsMade, rfl, -⟩ := howned.getReq hpend hget
    obtain ⟨_, _, _, _, rfl, -⟩ := decodeReq_frame hdec
    exact ⟨rfl, rfl⟩

lemma workers_step (howned : Owned s) {e : PoolEvent}
    (hstep : s.step blockSize stream n e = some s') :
    s'.workers = s.workers ∨
      ∃ u x, s.workers u ≠ .exited ∧ s'.workers = Function.update s.workers u x := by
  cases step_happens hstep with
  | decodes _ _ _ _ _ => exact Or.inl (decode_frame howned hstep).1
  | dequeues _ hidle _ => exact Or.inr ⟨_, _, by simp [hidle], rfl⟩
  | fetches hw hget =>
    obtain ⟨respPool, respsMade, resps, rfl, -, -⟩ := howned.getResp hget
    exact Or.inr ⟨_, _, by simp [hw], rfl⟩
  | acts hlt hw hadv hacts =>
    obtain ⟨x, hmoves⟩ := hacts.moves
    exact Or.inr ⟨_, x, by simp [hw], hmoves.workers⟩
  | offers hw => exact Or.inr ⟨_, _, by simp [hw], rfl⟩
  | findsFull hw => exact Or.inr ⟨_, _, by simp [hw], rfl⟩
  | recycles hw => exact Or.inr ⟨_, _, by simp [hw], rfl⟩
  | recyclesFirst hw => exact Or.inr ⟨_, _, by simp [hw], rfl⟩
  | sends hw => exact Or.inr ⟨_, _, by simp [hw], rfl⟩
  | exits _ hidle _ _ => exact Or.inr ⟨_, _, by simp [hidle], rfl⟩
  | _ => exact Or.inl rfl

lemma exited_step (howned : Owned s) {e : PoolEvent}
    (hstep : s.step blockSize stream n e = some s') (hw : s.workers w = .exited) :
    s'.workers w = .exited := by
  rcases workers_step howned hstep with hsame | ⟨u, x, hu, hworkers⟩
  · rw [hsame, hw]
  · have hne : w ≠ u := by
      rintro rfl
      exact hu hw
    rw [hworkers, Function.update_of_ne hne, hw]

/-- Without its workers the processor only writes what is left to write. -/
lemma exhausted_step (h : Sound blockSize stream n s) (hn : 0 < n)
    (hexited : ∀ w < n, s.workers w = .exited) {e : PoolEvent}
    (hstep : s.step blockSize stream n e = some s') :
    s'.decoded = s.decoded ∧ s'.returned = s.returned ∧ s'.finished = s.finished ∧
      ∃ taken, s.respQueue = taken ++ s'.respQueue := by
  obtain ⟨hclosed, hq⟩ := h.staffed.gone 0 (hexited 0 hn)
  have hgone : ∀ {w x}, s.workers w = x → x = .idle ∨ x = .exited := fun {w x} hw =>
    hw ▸ h.staffed.idle_or_exited hexited w
  cases step_happens hstep with
  | decodes _ hdone _ _ _ =>
    rw [hclosed.1] at hdone
    cases hdone
  | enqueues _ hpend =>
    rw [hclosed.2] at hpend
    cases hpend
  | dequeues _ _ hq' =>
    rw [hq] at hq'
    cases hq'
  | fetches hw _ => exact absurd (hgone hw) (by simp)
  | acts _ hw _ _ => exact absurd (hgone hw) (by simp)
  | offers hw => exact absurd (hgone hw) (by simp)
  | findsFull hw => exact absurd (hgone hw) (by simp)
  | recycles hw => exact absurd (hgone hw) (by simp)
  | recyclesFirst hw => exact absurd (hgone hw) (by simp)
  | sends hw => exact absurd (hgone hw) (by simp)
  | receives _ hq' => exact ⟨rfl, rfl, rfl, [_], hq'⟩
  | _ => exact ⟨rfl, rfl, rfl, [], rfl⟩

/-- The writer exits where it finds its queue closed, and nowhere else. -/
lemma writer_step (howned : Owned s) {e : PoolEvent} (he : e ≠ .stop)
    (hstep : s.step blockSize stream n e = some s') (hexit : s'.writer = .exited) :
    s.writer = .exited := by
  cases step_happens hstep with
  | decodes _ _ _ _ _ => exact (decode_frame howned hstep).2.symm.trans hexit
  | fetches hw hget =>
    obtain ⟨respPool, respsMade, resps, rfl, -, -⟩ := howned.getResp hget
    exact hexit
  | acts hlt hw hadv hacts =>
    obtain ⟨x, hmoves⟩ := hacts.moves
    exact hmoves.writer.symm.trans hexit
  | receives _ _ => cases hexit
  | writes _ => cases hexit
  | putsBack _ => cases hexit
  | stops _ => exact absurd rfl he
  | _ => exact hexit

end PoolProc

/-! ## What every interleaving keeps -/

namespace Serving

variable {blockSize : ℤ} {stream : List Request} {n : ℕ} {s s' : Serving} {e : ServeEvent}

/-- What every interleaving keeps. -/
structure Inv (blockSize : ℤ) (stream : List Request) (n : ℕ) (s : Serving) : Prop where
  sound : PoolProc.Sound blockSize stream n s.proc
  reading : s.reading = true → s.proc.pending = none ∧ s.proc.readerDone = false
  done : s.proc.readerDone = true → s.cancelled = true
  gone : s.RespClosed → ∀ w < n, s.proc.workers w = .exited
  writer : s.proc.writer = .exited → s.RespClosed ∧ s.proc.respQueue = []

lemma Inv.init : Inv blockSize stream n init where
  sound := .init
  reading h := by cases h
  done h := by cases h
  gone h := by rcases h with h | h <;> cases h
  writer h := by cases h

lemma Inv.sound_step (h : Inv blockSize stream n s) (hhap : Happens blockSize stream n s e s') :
    PoolProc.Sound blockSize stream n s'.proc := by
  rcases hhap.proc with hsame | ⟨pe, hstep⟩
  · rw [hsame]
    exact h.sound
  · exact h.sound.step hstep

lemma Inv.step (hn : 0 < n) (h : Inv blockSize stream n s)
    (hstep : s.step blockSize stream n e = some s') : Inv blockSize stream n s' := by
  have hhap := step_happens hstep
  have hsound := h.sound_step hhap
  have howned := h.sound.sim.owned
  -- a step of the processor leaves those gone who are
  have hgone : ∀ {pe proc}, s.proc.step blockSize stream n pe = some proc → s.RespClosed →
      ∀ w < n, proc.workers w = .exited := fun hproc hclosed w hw =>
    PoolProc.exited_step howned hproc (h.gone hclosed w hw)
  have hwriter : ∀ {pe proc}, pe ≠ .stop → s.proc.step blockSize stream n pe = some proc →
      proc.writer = .exited → s.RespClosed ∧ proc.respQueue = [] := by
    intro pe proc hne hproc hexit
    obtain ⟨hclosed, hq⟩ := h.writer (PoolProc.writer_step howned hne hproc hexit)
    obtain ⟨-, -, -, taken, htaken⟩ :=
      PoolProc.exhausted_step h.sound hn (h.gone hclosed) hproc
    rw [hq] at htaken
    exact ⟨hclosed, (List.append_eq_nil_iff.mp htaken.symm).2⟩
  cases hhap with
  | cancels _ => exact ⟨hsound, h.reading, fun _ => rfl, h.gone, h.writer⟩
  | leaves hctx _ hreading hproc =>
    refine ⟨hsound, fun hr => ?_, fun _ => hctx, hgone hproc, hwriter (by simp) hproc⟩
    rw [hreading] at hr
    cases hr
  | starts hreading hdone hpend => exact ⟨hsound, fun _ => ⟨hpend, hdone⟩, h.done, h.gone, h.writer⟩
  | decodes hreading hproc =>
    exact ⟨hsound, fun hr => (by cases hr), fun hd => Bool.or_eq_true_iff.mpr (Or.inr hd),
      hgone hproc, hwriter (by simp) hproc⟩
  | fails hreading hproc =>
    exact ⟨hsound, fun hr => (by cases hr), fun _ => rfl, hgone hproc, hwriter (by simp) hproc⟩
  | works hinner hproc =>
    obtain ⟨-, hdone, hpend⟩ := PoolProc.reader_step howned (Or.inl hinner) hproc
    refine ⟨hsound, fun hr => ?_, fun hd => ?_, hgone hproc, hwriter ?_ hproc⟩
    · exact ⟨hpend (h.reading hr).1, hdone.trans (h.reading hr).2⟩
    · exact h.done (hdone.symm.trans hd)
    · rintro rfl
      cases hinner
  | stops hclosed hproc =>
    obtain ⟨-, hdone, hpend⟩ := PoolProc.reader_step howned (Or.inr rfl) hproc
    refine ⟨hsound, fun hr => ?_, fun hd => ?_, hgone hproc, fun _ => ⟨hclosed, ?_⟩⟩
    · exact ⟨hpend (h.reading hr).1, hdone.trans (h.reading hr).2⟩
    · exact h.done (hdone.symm.trans hd)
    · simp only [PoolProc.step, PoolProc.writerStep] at hproc
      split_ifs at hproc with hg
      obtain rfl := Option.some.inj hproc
      exact hg.2.1
  | seesCancel hmain _ =>
    -- the main goroutine has yet to wait for the workers: the responses are still open
    refine ⟨hsound, h.reading, h.done, fun hclosed => ?_, fun hexit => ?_⟩
    · rcases hclosed with hc | hc <;> cases hc
    · rcases (h.writer hexit).1 with hc | hc <;> simp [hmain] at hc
  | seesWorkers hmain hexited =>
    exact ⟨hsound, h.reading, h.done, fun _ => hexited,
      fun hexit => ⟨Or.inl rfl, (h.writer hexit).2⟩⟩
  | closes hmain =>
    exact ⟨hsound, h.reading, h.done, fun _ => h.gone (Or.inl hmain),
      fun hexit => ⟨Or.inr rfl, (h.writer hexit).2⟩⟩

lemma inv_of_run (hn : 0 < n) {es : List ServeEvent}
    (hrun : Machine.run (Serving.step blockSize stream n) Serving.init es = some s) :
    Inv blockSize stream n s :=
  Machine.invariant (fun _ _ _ h hstep => h.step hn hstep) .init hrun

/-! ## Behind the workers -/

open PoolProc (ioWorkerCount ioWorkerCount_pos)
open ReqProc (oneWrite)

/-- The processor after its workers: what has been decoded, returned and executed stays as it is. -/
structure Settled (blockSize : ℤ) (stream : List Request) (n : ℕ) (s₀ s : Serving) : Prop where
  inv : Inv blockSize stream n s
  closed : s.RespClosed
  decoded : s.proc.decoded = s₀.proc.decoded
  returned : s.proc.returned = s₀.proc.returned
  finished : s.proc.finished = s₀.proc.finished

lemma respClosed_step (hclosed : s.RespClosed) (hstep : s.step blockSize stream n e = some s') :
    s'.RespClosed := by
  cases step_happens hstep with
  | seesCancel hmain _ =>
    rw [RespClosed, hmain] at hclosed
    rcases hclosed with hc | hc <;> cases hc
  | seesWorkers _ _ => exact Or.inl rfl
  | closes _ => exact Or.inr rfl
  | _ => exact hclosed

lemma Settled.step {s₀ : Serving} (h : Settled blockSize stream n s₀ s) (hn : 0 < n)
    (hstep : s.step blockSize stream n e = some s') : Settled blockSize stream n s₀ s' := by
  have hinv := h.inv.step hn hstep
  have hclosed := respClosed_step h.closed hstep
  rcases (step_happens hstep).proc with hsame | ⟨pe, hproc⟩
  · exact ⟨hinv, hclosed, hsame ▸ h.decoded, hsame ▸ h.returned, hsame ▸ h.finished⟩
  · obtain ⟨hdecoded, hreturned, hfinished, -⟩ :=
      PoolProc.exhausted_step h.inv.sound hn (h.inv.gone h.closed) hproc
    exact ⟨hinv, hclosed, hdecoded.trans h.decoded, hreturned.trans h.returned,
      hfinished.trans h.finished⟩

/-- **The device is closed last.**  In every interleaving: when `processRequests` is about to close
the device, or has closed it, all decoded requests but a disconnect are through `execute`; and from
then on no worker is there to call the device, no call returns, and nothing is decoded. -/
theorem close_comes_last (blockSize : ℤ) (stream : List Request) (numCPU : ℕ) (workerCount : ℤ)
    (es es' : List ServeEvent) (s s' : Serving)
    (hrun : Machine.run (step blockSize stream (ioWorkerCount numCPU workerCount)) init es = some s)
    (hclosed : s.RespClosed)
    (hrun' : Machine.run (step blockSize stream (ioWorkerCount numCPU workerCount)) s es' =
      some s') :
    (∀ i req, i < s'.proc.decoded → stream[i]? = some req → req.reqType ≠ nbdDisconnect →
        i ∈ s.proc.finished) ∧
      (∀ w, s'.proc.workers w = .idle ∨ s'.proc.workers w = .exited) ∧
      s'.proc.decoded = s.proc.decoded ∧ s'.proc.returned = s.proc.returned := by
  have hn := ioWorkerCount_pos numCPU workerCount
  have hinv := inv_of_run hn hrun
  have hend : Settled blockSize stream (ioWorkerCount numCPU workerCount) s s' :=
    Machine.invariant (fun _ _ _ h hstep => h.step hn hstep) ⟨hinv, hclosed, rfl, rfl, rfl⟩ hrun'
  have hexited := hend.inv.gone hend.closed
  refine ⟨fun i req hi hreq hkind => ?_, hend.inv.sound.staffed.idle_or_exited hexited,
    hend.decoded, hend.returned⟩
  rw [← hend.finished]
  have hreader := (hend.inv.sound.staffed.gone 0 (hexited 0 hn)).1
  exact hend.inv.sound.mem_finished hn hreader hexited hi hreq hkind

/-- **The writer leaves last.**  In every interleaving: where the writer has exited, the device is
closed or about to be, nothing waits for the stream, and each decoded request but a disconnect has
been answered once. -/
theorem writer_leaves_last (blockSize : ℤ) (stream : List Request) (numCPU : ℕ) (workerCount : ℤ)
    (es : List ServeEvent) (s : Serving)
    (hrun : Machine.run (step blockSize stream (ioWorkerCount numCPU workerCount)) init es = some s)
    (hexit : s.proc.writer = .exited) :
    s.RespClosed ∧ s.proc.respQueue = [] ∧
      ∀ i req, i < s.proc.decoded → stream[i]? = some req → req.reqType ≠ nbdDisconnect →
        s.proc.answered.count i = 1 := by
  have hn := ioWorkerCount_pos numCPU workerCount
  have hinv := inv_of_run hn hrun
  obtain ⟨hclosed, hqueue⟩ := hinv.writer hexit
  have hexited := hinv.gone hclosed
  have hdrained : s.proc.Drained := by
    refine ⟨hqueue, ?_⟩
    rw [hexit]
    rfl
  refine ⟨hclosed, hqueue, fun i req hi hreq hkind => ?_⟩
  have hreader := (hinv.sound.staffed.gone 0 (hexited 0 hn)).1
  exact hinv.sound.count_eq_one hn hreader hexited hdrained hi hreq hkind

/-- A write and a disconnect. -/
def briefStream : List Request :=
  [oneWrite, ⟨nbdDisconnect, List.replicate ndbHandleLen 9, 0, 0, [], rfl⟩]

/-- One worker serves the write; the device is closed before the reply is on the stream. -/
def briefRun : List ServeEvent :=
  [.check, .decode none, .work .enqueue, .check, .work (.dequeue 0), .work (.fetch 0 none),
    .work (.advance 0 ⟨[], none⟩), .work (.advance 0 ⟨[], none⟩), .work (.advance 0 ⟨[], none⟩),
    .work (.offer 0), .work (.recycle 0), .decode (some 0), .main, .work .receive, .work (.exit 0),
    .main, .main, .work .write, .work .putBack, .stop]

theorem close_comes_last_brief :
    ∃ s s', Machine.run (step 4 briefStream (ioWorkerCount 1 3)) init (briefRun.take 16) = some s ∧
      s.RespClosed ∧
      Machine.run (step 4 briefStream (ioWorkerCount 1 3)) s (briefRun.drop 16) = some s' ∧
      0 ∈ s.proc.finished ∧ (∀ w, s'.proc.workers w = .idle ∨ s'.proc.workers w = .exited) ∧
      s'.proc.decoded = 2 ∧ s'.proc.returned = s.proc.returned := by
  have hends : ((Machine.run (step 4 briefStream (ioWorkerCount 1 3)) init (briefRun.take 16)).any
      fun s => decide (s.RespClosed ∧ s.proc.decoded = 2) &&
        (Machine.run (step 4 briefStream (ioWorkerCount 1 3)) s (briefRun.drop 16)).isSome) =
      true := by
    decide +kernel
  obtain ⟨s, hrun, hs⟩ := (Option.any_eq_true _ _).mp hends
  obtain ⟨hs, hrest⟩ := Bool.and_eq_true_iff.mp hs
  obtain ⟨hclosed, hdecoded⟩ := of_decide_eq_true hs
  obtain ⟨s', hrun'⟩ := Option.isSome_iff_exists.mp hrest
  obtain ⟨hthrough, hworkers, hsame, hreturned⟩ :=
    close_comes_last 4 briefStream 1 3 _ _ s s' hrun hclosed hrun'
  have hall : s'.proc.decoded = 2 := hsame.trans hdecoded
  exact ⟨s, s', hrun, hclosed, hrun', hthrough 0 oneWrite (by rw [hall]; decide) rfl (by decide),
    hworkers, hall, hreturned⟩

theorem writer_leaves_last_brief :
    ∃ s, Machine.run (step 4 briefStream (ioWorkerCount 1 3)) init briefRun = some s ∧
      s.proc.writer = .exited ∧ s.main = .returned ∧ s.proc.answered.count 0 = 1 := by
  have hends : ((Machine.run (step 4 briefStream (ioWorkerCount 1 3)) init briefRun).any
      fun s => decide (s.proc.writer = .exited ∧ s.main = .returned ∧ s.proc.decoded = 2)) =
      true := by
    decide +kernel
  obtain ⟨s, hrun, hs⟩ := (Option.any_eq_true _ _).mp hends
  obtain ⟨hexit, hmain, hdecoded⟩ := of_decide_eq_true hs
  obtain ⟨-, -, hcount⟩ := writer_leaves_last 4 briefStream 1 3 briefRun s hrun hexit
  exact ⟨s, hrun, hexit, hmain, hcount 0 oneWrite (by rw [hdecoded]; decide) rfl (by decide)⟩

end Serving

end Usbd
