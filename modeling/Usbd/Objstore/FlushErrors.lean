import Usbd.Objstore.DeviceRace

/-!
# When a flush reports an error nobody made

`Flush` of a segment tests the dirty flag before it takes the lock on the file.  An eviction in
between uploads the segment and takes the local file away, and `flush` then finds none: an error,
although all bytes are where they belong, which `Flush` of the device hands to the kernel
(`flush_reports_eviction`).  A download that adds a byte makes the next buffered flush fail too.

`flush_nil_of_careful` says that there is nothing else: without faults, as long as no eviction
starts on a segment that a flush has seen dirty and not locked yet, and no download adds a byte, all
flushes return nil in every interleaving.
-/

namespace Usbd

open ListMemory Prog

variable {σ : Type}

namespace Proc

/-- A flush that has seen the segment dirty and has no lock yet. -/
def locks : Proc σ → Bool
  | locking _ => true
  | _ => false

/-- A `DeleteFile` that is about to take the lock. -/
def deletes : Proc σ → Bool
  | called .deleteFile => true
  | _ => false

/-- The call is a `Flush`. -/
def Flushes (p : Proc σ) : Prop := ∃ buffered, p.call? = some (.flush buffered)

/-- A `Flush` has failed. -/
def Failed (p : Proc σ) : Prop := ∃ e, p = done (.flushed (some e))

lemma flushes_of_locks {p : Proc σ} (h : p.locks = true) : p.Flushes := by
  cases p with
  | locking buffered => exact ⟨buffered, rfl⟩
  | _ => cases h

instance : ∀ p : Proc σ, Decidable p.Loads
  | idle => isFalse not_false
  | called _ => isFalse not_false
  | seeking _ _ => isTrue trivial
  | storing _ _ => isTrue trivial
  | locking _ => isFalse not_false
  | waiting _ _ => isFalse not_false
  | sending _ _ _ => isFalse not_false
  | sent _ _ _ => isFalse not_false
  | done _ => isFalse not_false

end Proc

/-! ## Sections -/

/-- A flush that comes for the read lock finds the local file. -/
def Cell.Lockable (c : Cell σ) : Prop := c.seg.localFile ≠ none ∧ c.writer = none

section Sections

variable {sp : StoreParams σ} {law : Plain sp.container} {w w' : World σ} {c c' : Cell σ} {t : ℕ}
  {a a' : SegArray} {p : Proc σ}

/-- A section does not make another call of it. -/
lemma Outcome.call_eq (h : Outcome sp w c t a p a') {call : SegCall} (hp : p.call? = some call) :
    (c.procs t).call? = some call := by
  cases h with
  | goes hcall hgoes => rw [hcall, ← hgoes, hp]
  | _ => cases hp

/-- Without faults only a flush ends as one. -/
lemma Outcome.flushes_of_flushed (h : Outcome sp w c t a p a') (hnot : ¬ c.Loses t)
    {err : Option GoError} (hp : p = .done (.flushed err)) : (c.procs t).Flushes := by
  subst hp
  cases h with
  | goes hcall hgoes => cases hgoes
  | flushed hcall => exact ⟨_, hcall⟩
  | lost hloses => exact absurd hloses hnot

/-- A read under a lock leaves a local file that is there. -/
lemma readLoaded_keeps {seg : Segment σ} (hlocal : seg.localFile ≠ none) (buf : Bytes) (pos : ℤ) :
    Yields (seg.readLoaded sp buf pos) w fun r _ => r.1.localFile ≠ none := by
  obtain ⟨file, hfile⟩ := Option.ne_none_iff_exists'.mp hlocal
  simp only [Segment.readLoaded, Segment.loadFile, hfile, yields_bind, yields_pure]
  exact fun _ _ _ => Option.some_ne_none file

lemma writeLoaded_keeps {seg : Segment σ} (hlocal : seg.localFile ≠ none) (buf : Bytes) (pos : ℤ) :
    Yields (seg.writeLoaded sp buf pos) w fun r _ => r.1.localFile ≠ none := by
  obtain ⟨file, hfile⟩ := Option.ne_none_iff_exists'.mp hlocal
  simp only [Segment.writeLoaded, Segment.loadFile, hfile, yields_bind, yields_pure]
  exact fun _ _ _ => Option.some_ne_none file

/-- An upload that is not an eviction's leaves both. -/
lemma snapshot_lockable (hlock : c.Lockable) (buffered : Bool) (file : File) :
    Yields (c.snapshot sp t (.flush buffered) file) w fun c' _ => c'.Lockable := by
  simp only [Cell.snapshot, yields_bind]
  rintro (e | src) w₁ -
  · simp only [yields_pure]
    exact hlock
  · simp only [yields_pure]
    exact ⟨hlock.1, hlock.2⟩

lemma finish_lockable (hlock : c.Lockable) (buffered : Bool) (file : File)
    (item : Except GoError (Item σ)) :
    Yields (c.finish sp t (.flush buffered) file item) w fun c' _ => c'.Lockable := by
  cases item with
  | error e =>
    simp only [Cell.finish, yields_pure]
    exact ⟨hlock.1, hlock.2⟩
  | ok item =>
    simp only [Cell.finish, yields_bind]
    rintro (_ | e) w₁ - <;> simp only [yields_pure] <;> exact ⟨hlock.1, hlock.2⟩

/-- Only an eviction takes the local file or the write lock. -/
lemma next_lockable (hlocks : LockInv sp c) {m : Go σ (Cell σ)} (hnext : c.next sp t = some m)
    (hlock : c.Lockable) (hdel : (c.procs t).deletes = false) :
    Yields m w fun c' _ => c'.Lockable := by
  have hevict : (c.procs t).errand? ≠ some .evict := by
    rw [Ne, ← hlocks.writer t, hlock.2]
    simp
  obtain ⟨hlocal, hwriter⟩ := hlock
  obtain ⟨p, ht, hsection⟩ := Cell.next_section hnext
  cases hsection with
  | @startRead buf pos _ =>
    simp only [Cell.startRead, if_neg hlocal, Cell.read, yields_bind, yields_pure]
    intro now w₁ _
    have hlocal' : { c.seg with lastRead := now }.localFile ≠ none := hlocal
    exact (readLoaded_keeps hlocal' buf pos).mono fun r _ hkeeps => ⟨hkeeps, hwriter⟩
  | startWrite _ =>
    simp only [Cell.startWrite, hlocal, and_false, if_false, yields_bind, yields_pure]
    exact fun now _ _ => ⟨hlocal, hwriter⟩
  | startFlush =>
    rw [yields_pure]
    exact ⟨hlocal, hwriter⟩
  | delete _ => simp [ht, Proc.deletes] at hdel
  | @read buf pos _ =>
    simp only [Cell.read, yields_bind, yields_pure]
    exact (readLoaded_keeps hlocal buf pos).mono fun r _ hkeeps => ⟨hkeeps, hwriter⟩
  | @write buf pos _ =>
    simp only [Cell.write, yields_bind, yields_pure]
    exact (writeLoaded_keeps hlocal buf pos).mono fun r _ hkeeps => ⟨hkeeps, hwriter⟩
  | rLock _ =>
    rw [yields_pure, Cell.rLock]
    split
    · exact ⟨hlocal, hwriter⟩
    · exact ⟨hlocal, hwriter⟩
  | @snapshot buffered file _ => exact snapshot_lockable ⟨hlocal, hwriter⟩ buffered file
  | send =>
    simp only [Cell.send, yields_bind, yields_pure]
    exact fun _ _ _ => ⟨hlocal, hwriter⟩
  | @finish errand file item =>
    cases errand with
    | flush buffered => exact finish_lockable ⟨hlocal, hwriter⟩ buffered file item
    | evict => exact absurd (by rw [ht]; rfl) hevict

/-- The sections of a flush.  One that has seen the segment dirty could lock it at that moment, and
without faults it fails only where it finds no local file. -/
lemma next_flushes (h : CellInv sp law w c a) (hf : Faultless sp.env) {m : Go σ (Cell σ)}
    (hnext : c.next sp t = some m) (hflush : (c.procs t).Flushes)
    (hlock : (c.procs t).locks = true → c.Lockable) :
    Yields m w fun c' _ =>
      ((c'.procs t).locks = true → c'.Lockable) ∧ ¬ (c'.procs t).Failed := by
  obtain ⟨buffered, hcall⟩ := hflush
  obtain ⟨p, ht, hsection⟩ := Cell.next_section hnext
  rw [ht] at hcall
  cases hsection with
  | startRead _ => cases hcall
  | startWrite _ => cases hcall
  | startFlush =>
    rw [yields_pure, Cell.goto_procs, Function.update_self]
    by_cases hd : c.seg.dirty = true
    -- a dirty segment has its local file, and no eviction is under way in it
    · rw [if_pos hd]
      refine ⟨fun _ => ⟨h.backing.dirty_local hd, ?_⟩, by simp [Proc.Failed]⟩
      by_contra hw
      simpa [hd] using (h.locks.evicts hw).1
    · rw [if_neg hd]
      exact ⟨fun hl => (by cases hl), by simp [Proc.Failed]⟩
  | delete _ => cases hcall
  | read _ => cases hcall
  | write _ => cases hcall
  | rLock _ =>
    obtain ⟨file, hfile⟩ := Option.ne_none_iff_exists'.mp (hlock (by rw [ht]; rfl)).1
    rw [yields_pure]
    simp only [Cell.rLock, hfile, Cell.goto_procs, Function.update_self]
    exact ⟨fun hl => (by cases hl), by simp [Proc.Failed]⟩
  | @snapshot buffered file _ =>
    obtain ⟨rfl, hdata⟩ := h.backing.opened (h.locks.waiting t buffered file ht)
    simp only [Cell.snapshot, yields_bind]
    refine (StoreParams.prepare_spec rfl hdata h.backing.length_eq _).yields.mono
      fun r w₁ hprep => ?_
    obtain rfl := hprep.2.1 hf
    simp only [yields_pure, Cell.goto_procs, Function.update_self]
    exact ⟨fun hl => (by cases hl), by simp [Proc.Failed]⟩
  | send =>
    simp only [Cell.send, yields_bind, yields_pure, Cell.goto_procs, Function.update_self]
    exact fun _ _ _ => ⟨fun hl => (by cases hl), by simp [Proc.Failed]⟩
  | @finish errand file item =>
    have hback := h.backing
    rw [Cell.flight_eq_some ((h.locks.itemMu t).mpr (by simp [ht, Proc.errand?])), ht] at hback
    cases hback with
    | flight _ _ hup =>
      cases hup with
      | sent _ _ _ hcur hgood =>
        obtain ⟨it, rfl⟩ := hgood hf
        cases errand with
        | evict => cases hcall
        | flush buffered =>
          simp only [Cell.finish, yields_bind]
          refine (StoreParams.finishSync_spec (law.etag_total (hcur it rfl))).yields.mono
            fun err w₁ hfin => ?_
          obtain rfl := hfin.1 (hf .writeFile)
          simp only [yields_pure, Cell.goto_procs, Function.update_self]
          exact ⟨fun hl => (by cases hl), by simp [Proc.Failed]⟩

end Sections

/-! ## Steps -/

/-- The flushes of a segment have not failed, and those that are about to lock it can; each belongs
to one of the first `n` flushes of the device. -/
structure Cell.Unfailed (n : ℕ) (c : Cell σ) : Prop where
  lockable : ∀ t, (c.procs t).locks = true → c.Lockable
  flusher : ∀ t, (c.procs t).Flushes → ∃ f, f < n ∧ t = flusherID f
  nil : ∀ t, ¬ (c.procs t).Failed

namespace Cell.Unfailed

variable {sp : StoreParams σ} {law : Plain sp.container} {w w' : World σ} {c c' : Cell σ} {n t : ℕ}
  {a : SegArray}

lemma new (n : ℕ) (seg : Segment σ) : (Cell.new seg).Unfailed n where
  lockable t h := by cases h
  flusher t h := by
    obtain ⟨buffered, hcall⟩ := h
    cases hcall
  nil t h := by
    obtain ⟨e, he⟩ := h
    cases he

lemma mono (h : c.Unfailed n) {n' : ℕ} (hle : n ≤ n') : c.Unfailed n' where
  lockable := h.lockable
  flusher t ht := by
    obtain ⟨f, hf, rfl⟩ := h.flusher t ht
    exact ⟨f, hf.trans_le hle, rfl⟩
  nil := h.nil

lemma update (h : c.Unfailed n) {p : Proc σ} (hprocs : c'.procs = Function.update c.procs t p)
    (hothers : (∃ u, (c.procs u).locks = true) → c.Lockable → c'.Lockable)
    (hself : p.locks = true → c'.Lockable) (hnil : ¬ p.Failed)
    (hflusher : p.Flushes → ∃ f, f < n ∧ t = flusherID f) : c'.Unfailed n := by
  refine ⟨?_, ?_, ?_⟩ <;> rw [hprocs]
  · apply (Function.forall_update_iff c.procs fun _ q => q.locks = true → c'.Lockable).mpr
    exact ⟨hself, fun u _ hu => hothers ⟨u, hu⟩ (h.lockable u hu)⟩
  · apply (Function.forall_update_iff c.procs fun u q =>
      q.Flushes → ∃ f, f < n ∧ u = flusherID f).mpr
    exact ⟨hflusher, fun u _ => h.flusher u⟩
  · apply (Function.forall_update_iff c.procs fun _ q => ¬ q.Failed).mpr
    exact ⟨hnil, fun u _ => h.nil u⟩

lemma call (h : c.Unfailed n) {call : SegCall}
    (hflush : ∀ buffered, call = .flush buffered → ∃ f, f < n ∧ t = flusherID f) :
    (c.goto t (.called call)).Unfailed n := by
  refine h.update rfl (fun _ hlock => hlock) (fun hl => by cases hl) (by simp [Proc.Failed]) ?_
  rintro ⟨buffered, hcall⟩
  exact hflush buffered (Option.some.inj hcall)

lemma ret (h : c.Unfailed n) : (c.goto t .idle).Unfailed n :=
  h.update rfl (fun _ hlock => hlock) (fun hl => by cases hl) (by simp [Proc.Failed])
    (by simp [Proc.Flushes, Proc.call?])

lemma move (h : c.Unfailed n) (hf : Faultless sp.env) (hinv : CellInv sp law w c a)
    {m : Go σ (Cell σ)} (hnext : c.next sp t = some m) (hrun : m w = .ok (c', w')) {p : Proc σ}
    {a' : SegArray} (hpass : Passed sp law w c t a w' c' p a')
    (hdel : (c.procs t).deletes = true → c.seg.backed = true →
      ∀ f < n, (c.procs (flusherID f)).locks = false) : c'.Unfailed n := by
  have hproc : c'.procs t = p := by rw [hpass.procs_eq, Function.update_self]
  have hflushes : p.Flushes → (c.procs t).Flushes := by
    rintro ⟨buffered, hcall⟩
    exact ⟨buffered, hpass.outcome.call_eq hcall⟩
  refine h.update hpass.procs_eq ?_ ?_ ?_ fun hp => h.flusher t (hflushes hp)
  · rintro ⟨u, hu⟩ hlock
    apply next_lockable hinv.locks hnext hlock _ c' w' hrun
    by_contra hdeletes
    have hbacked : c.seg.backed = true := by
      rw [hinv.backing.backed_eq, Option.isSome_iff_ne_none]
      exact hlock.1
    obtain ⟨f, hlt, rfl⟩ := h.flusher u (Proc.flushes_of_locks hu)
    simp [hdel (by simpa using hdeletes) hbacked f hlt] at hu
  · intro hlocks
    have hflush := hflushes (Proc.flushes_of_locks hlocks)
    exact (next_flushes hinv hf hnext hflush (h.lockable t) c' w' hrun).1 (hproc ▸ hlocks)
  · rintro ⟨e, hp⟩
    have hflush := hpass.outcome.flushes_of_flushed (hinv.not_loses hf) hp
    exact (next_flushes hinv hf hnext hflush (h.lockable t) c' w' hrun).2 ⟨e, hproc.trans hp⟩

end Cell.Unfailed

namespace DevState

variable (sp : StoreParams σ)

/-- What a section must not meet: a download that adds a byte, where it loads; a flush that has seen
the segment dirty and has yet to lock it, where it is a `DeleteFile`. -/
def Careful (s : DevState σ) (e : DevEvent) : Prop :=
  ∀ it ∈ e.runs, ∀ c ∈ s.cells[it.1]?,
    ((c.procs it.2).Loads → CacheRun.LoadsWhole sp s.world c.seg) ∧
      ((c.procs it.2).deletes = true → c.seg.backed = true →
        ∀ f < s.flushes.length, (c.procs (flusherID f)).locks = false)

instance (s : DevState σ) (e : DevEvent) : Decidable (s.Careful sp e) :=
  inferInstanceAs (Decidable (∀ it ∈ e.runs, ∀ c ∈ s.cells[it.1]?, _))

/-- The segments stand for arrays, and no flush has failed. -/
structure NilSoFar (law : Plain sp.container) (s : DevState σ) : Prop where
  cells : DevCells sp law s
  unfailed : ∀ c ∈ s.cells, c.Unfailed s.flushes.length
  err : ∀ state ∈ s.flushes, state.err = none

variable {sp} {law : Plain sp.container} {s s' : DevState σ}

lemma NilSoFar.steps (hf : Faultless sp.env) (hs : sp.Sized) {e : DevEvent} (h : NilSoFar sp law s)
    (hcare : s.Careful sp e) {i : ℕ} {ce : CellEvent} {c c' : Cell σ}
    (hsteps : Steps sp s s' e i ce c c') : c'.Unfailed s.flushes.length := by
  have hc := h.unfailed c (List.mem_of_getElem? hsteps.cell)
  cases ce with
  | call t call =>
    obtain ⟨-, hnew⟩ := Cell.step_call hsteps.step
    obtain ⟨rfl, -⟩ := Prod.mk.inj hnew
    apply hc.call
    rintro buffered rfl
    exact hsteps.flush t buffered rfl
  | ret t =>
    obtain ⟨-, -, hnew⟩ := Cell.step_ret hsteps.step
    obtain ⟨rfl, -⟩ := Prod.mk.inj hnew
    exact hc.ret
  | move t =>
    obtain ⟨m, hm, hrun⟩ := Cell.step_move hsteps.step
    obtain ⟨-, a, hinv⟩ := h.cells.cell i c hsteps.cell
    obtain ⟨hload, hdel⟩ := hcare (i, t) (hsteps.runs t rfl) c hsteps.cell
    obtain ⟨p, a', hpass⟩ := (next_spec hinv hf.reliable hs hload
      (h.cells.holding_le hsteps.cell) hm).eq hrun
    exact hc.move hf hinv hm hrun hpass hdel

lemma NilSoFar.step (hf : Faultless sp.env) (hs : sp.Sized) {concurFlush : ℕ} {e : DevEvent}
    (h : NilSoFar sp law s) (hrange : e.InRange sp.segmentBytes) (hcare : s.Careful sp e)
    (hstep : s.step sp concurFlush e = some s') : NilSoFar sp law s' := by
  have hstepped := step_stepped hstep
  refine ⟨h.cells.step hf.reliable hs hrange ?_ hstepped, fun c hc => ?_, fun state hstate => ?_⟩
  · intro i t c hruns hc
    exact (hcare (i, t) hruns c hc).1
  · apply Cell.Unfailed.mono _ hstepped.length_le
    rcases hstepped.cells with ⟨hcells, -⟩ | ⟨i, ce, c₀, c', hsteps⟩
    · exact h.unfailed c (hcells ▸ hc)
    · rw [hsteps.cells] at hc
      rcases List.mem_or_eq_of_mem_set hc with hmem | rfl
      · exact h.unfailed c hmem
      · exact h.steps hf hs hcare hsteps
  · by_contra herr
    rcases hstepped.reports state hstate herr with ⟨old, hold, hne⟩ | ⟨c, hc, t, e, hfailed⟩
    · exact hne (h.err old hold)
    · exact (h.unfailed c hc).nil t ⟨e, hfailed⟩

/-! ## Devices in memory -/

/-- A new device in memory, after a run. -/
def opened (s : ObjSetup MemStore) (es : List DevEvent) : Option (DevState MemStore) :=
  (ObjRun.start s ObjRun.emptyWorld).bind fun r =>
    Machine.run (step r.dev.params r.dev.concurFlush) (.new r.dev.segments r.world) es

/-- A call of a client from its start to its return, in so many sections. -/
def whole (i t : ℕ) (made : SegCall) (sections : ℕ) : List DevEvent :=
  .call i t made :: List.replicate sections (.move i t) ++ [.ret i t]

/-- A `Flush` of a device of two segments looks at both of them. -/
def looks (f : ℕ) : List DevEvent := [.flush, .look f, .look f, .look f]

/-! ## The result -/

/-- **Flushes return nil, if evictions keep away from them.**  On a device opened over a stored
disk, without faults: in every interleaving of reads and writes inside the segments, evictions and
flushes of the device whose sections are all careful, no flush of a segment and no flush of the
device returns an error. -/
theorem flush_nil_of_careful (s : ObjSetup σ) (w : World σ) (r₀ : ObjRun σ)
    (hopen : ObjRun.start s w = some r₀) (law : Plain r₀.dev.params.container)
    (hf : Faultless s.env) (hmax : s.totalBytes ≤ maxOffset) (disk : Bytes)
    (hstored : StoredDisk r₀.dev.params law.toFaithful w.store s.count disk)
    (hcache : ∀ i, i < s.count → r₀.dev.params.CacheOf w.files
      (r₀.dev.params.itemName (itoa i)) (segSlice r₀.dev.params disk i))
    (es : List DevEvent) (hrange : ∀ e ∈ es, e.InRange s.objectBytes)
    (hcare : Machine.Meets (step r₀.dev.params r₀.dev.concurFlush) (Careful r₀.dev.params)
      (.new r₀.dev.segments r₀.world) es) (s' : DevState σ)
    (hrun : Machine.run (step r₀.dev.params r₀.dev.concurFlush) (.new r₀.dev.segments r₀.world) es =
      some s') :
    (∀ c ∈ s'.cells, ∀ t e, c.procs t ≠ .done (.flushed (some e))) ∧
      ∀ e, .returned (some e) ∉ s'.flushes := by
  have hg := ObjRun.gives_of_start hopen hmax
  obtain ⟨r, hr, hlive⟩ := ObjRun.start_live hg hstored hcache
  obtain rfl := Option.some.inj (hr.symm.trans hopen)
  have hstart : NilSoFar r.dev.params law (.new r.dev.segments r.world) := by
    refine ⟨.new hlive.sound, fun c hc => ?_, fun state hstate => by cases hstate⟩
    obtain ⟨seg, -, rfl⟩ := List.mem_map.mp hc
    exact .new _ seg
  rw [← hg.segmentBytes_eq] at hrange
  have hend : NilSoFar r.dev.params law s' := Machine.invariant_of_meets
    (fun _ _ _ h hcond hstep => h.step (hg.env_eq ▸ hf) hg.sized hcond.1 hcond.2 hstep) hstart
    (hcare.and_forall hrange) hrun
  refine ⟨fun c hc t e he => (hend.unfailed c hc).nil t ⟨e, he⟩, fun e he => ?_⟩
  exact absurd (hend.err _ he) (Option.some_ne_none e)

/-- Two segments of which one can be local.  A flush uploads the first while it is read and written;
the second write of it waits for the next flush; then it is evicted, and a flush finds nothing. -/
def flushedInTime : List DevEvent :=
  whole 0 0 (.writeAt [1] 0) 2 ++ looks 0 ++ [.recheck 0, .spawn 0 true, .work 0 0, .work 0 0,
    .work 0 0] ++ whole 0 1 (.writeAt [2] 0) 2 ++ [.work 0 0, .work 0 0, .collect 0 0, .finish 0] ++
    looks 1 ++ [.recheck 1, .spawn 1 false, .work 1 0, .work 1 0, .work 1 0, .work 1 0, .work 1 0,
    .collect 1 0, .finish 1] ++ whole 0 1 .deleteFile 1 ++ whole 1 1 (.writeAt [3] 0) 2

theorem flush_nil_of_careful_in_time : ∃ s',
    Machine.run (step (ObjRun.memTwo false).dev.params 1)
      (.new (ObjRun.memTwo false).dev.segments ObjRun.emptyWorld) flushedInTime = some s' ∧
    (∀ c ∈ s'.cells, ∀ t e, c.procs t ≠ .done (.flushed (some e))) ∧
      ∀ e, .returned (some e) ∉ s'.flushes := by
  have hends : (Machine.run (step (ObjRun.memTwo false).dev.params 1)
      (.new (ObjRun.memTwo false).dev.segments ObjRun.emptyWorld) flushedInTime).isSome = true := by
    decide +kernel
  obtain ⟨s', hrun⟩ := Option.isSome_iff_exists.mp hends
  exact ⟨s', hrun, flush_nil_of_careful (ObjRun.memSetup 2 1 1 false) ObjRun.emptyWorld
    (ObjRun.memTwo false) rfl (memPlain ['c']) faultless_quietEnv (by decide) (zeros 2)
    (storedDisk_zeros 2 fun _ _ => rfl) (fun _ _ => ⟨Or.inl rfl, fun _ => rfl⟩) flushedInTime
    (by decide) (by decide +kernel) s' hrun⟩

/-- A write of the second segment finds no permit while a flush is about to lock the first. -/
def beforeEviction : List DevEvent :=
  whole 0 0 (.writeAt [1] 0) 2 ++ looks 0 ++ [.recheck 0, .spawn 0 true, .work 0 0] ++
    whole 1 1 (.writeAt [2] 0) 2

/-- It evicts the first one and succeeds; the flush goes on. -/
def evictedUnderFlush : List DevEvent :=
  beforeEviction ++ whole 0 1 .deleteFile 3 ++ whole 1 1 (.writeAt [2] 0) 2 ++
    [.work 0 0, .collect 0 0, .finish 0]

/-- A segment that is loaded again before it is written and flushed. -/
def reloadedThenFlushed : List DevEvent :=
  whole 0 0 (.writeAt [1] 0) 2 ++ whole 0 0 .deleteFile 3 ++ whole 0 0 (.writeAt [2] 0) 2 ++
    looks 0 ++ [.recheck 0, .spawn 0 true, .work 0 0, .work 0 0, .work 0 0, .collect 0 0, .finish 0]

/-- The arguments of a thin-provisioned device without a quota. -/
def thinSetup : ObjSetup MemStore :=
  { ObjRun.memSetup 2 1 0 false with
    opts := { (ObjRun.memSetup 2 1 0 false).opts with thickProvision := false } }

/-- The first segment is the one to evict, and the flush that had seen it dirty reports that it has
no file.  Nothing has failed.  On a thin-provisioned device a download adds a byte, and the flush
that follows reports a file of the wrong length. -/
theorem flush_reports_eviction :
    ((opened (ObjRun.memSetup 2 1 1 false) beforeEviction).map fun s =>
        lruCandidate (s.cells.map Cell.seg) 1) = some (some 0) ∧
      (opened (ObjRun.memSetup 2 1 1 false) evictedUnderFlush).map DevState.flushes =
        some [.returned (some (.wrap "One ore more segments failed to flush" errNoDataFile))] ∧
      (opened thinSetup reloadedThenFlushed).map DevState.flushes =
        some [.returned (some (.wrap "One ore more segments failed to flush"
          (.new "Fewer bytes than expected were read while buffering file")))] := by
  refine ⟨?_, ?_, ?_⟩ <;> decide +kernel

end DevState

end Usbd
