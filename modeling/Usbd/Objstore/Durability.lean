import Usbd.Objstore.ReadYourWrites

/-!
# What a nil from `Flush` or `Close` is worth

Runs of a device on which uploads fail: any fsync, snapshot, put or writing of an ETag may go wrong
at any time.  The calls are those of the segments — the reads, writes and evictions `ioAt` is made
of (`ioAt_run`) — and the device's own `Flush` and `Close`.  Along a run the log collects the writes
that a segment has acknowledged and applied to its local file.

`segment.flush` marks the segment clean and takes over whatever item the upload returns, before it
looks at the error.  A failed upload therefore leaves a segment that is clean and has no remote
item: it is forgotten, the next `Flush` or `Close` passes over it and returns nil, and an eviction
drops its bytes.  As long as no flush, close or eviction meets a forgotten segment, a nil means what
it should (`CacheRun.ok_step`).
-/

namespace Usbd

open ListMemory Prog

variable {σ : Type}

instance (seg : Segment σ) : Decidable seg.Forgotten :=
  decidable_of_iff (seg.dirty = false ∧ seg.localFile ≠ none ∧ seg.remoteItem.isNone = true)
    (by simp [Segment.Forgotten])

/-- A call: of one segment, or of the device. -/
inductive CacheOp
  | readAt (i : ℕ) (buf : Bytes) (pos : ℕ)
  | writeAt (i : ℕ) (buf : Bytes) (pos : ℕ)
  | deleteFile (i : ℕ)
  | flush
  | close
  deriving DecidableEq, Repr

/-- The call is of one of the segments, and stays inside it. -/
def CacheOp.InRange (count segmentBytes : ℕ) : CacheOp → Prop
  | .readAt i buf pos => i < count ∧ pos + buf.length ≤ segmentBytes
  | .writeAt i buf pos => i < count ∧ buf ≠ [] ∧ pos + buf.length ≤ segmentBytes
  | .deleteFile i => i < count
  | .flush => True
  | .close => True

/-- A write applied to the local file of a segment. -/
structure SegWrite where
  segID : ℕ
  buf : Bytes
  pos : ℕ
  deriving DecidableEq, Repr

/-- The disk after applied writes. -/
def replayWrites (segmentBytes : ℕ) (disk : Bytes) (log : List SegWrite) : Bytes :=
  log.foldl (fun disk e => overwrite 0 disk (e.segID * segmentBytes + e.pos) e.buf) disk

/-- A run so far: the device, the world, the writes applied to local files, and whether the last
call was a `Flush` or `Close` that returned nil. -/
structure CacheRun (σ : Type) where
  dev : ObjDevice σ
  world : World σ
  log : List SegWrite
  acked : Bool

namespace CacheRun

/-- The run after a call of segment `i`. -/
def set (r : CacheRun σ) (i : ℕ) (seg : Segment σ) (w : World σ) : CacheRun σ :=
  { r with dev := { r.dev with segments := r.dev.segments.set i seg }, world := w, acked := false }

def step (r : CacheRun σ) : CacheOp → Option (CacheRun σ)
  | .readAt i buf pos =>
    if r.dev.shutdown then some { r with acked := false }
    else r.dev.segments[i]?.bind fun seg =>
      match seg.readAt r.dev.params buf pos r.world with
      | .ok ((seg', _), w) => some (r.set i seg' w)
      | .error _ => none
  | .writeAt i buf pos =>
    if r.dev.shutdown then some { r with acked := false }
    else r.dev.segments[i]?.bind fun seg =>
      match seg.writeAt r.dev.params buf pos r.world with
      | .ok ((seg', _, err), w) =>
        some { r.set i seg' w with
          log := if err = none ∧ ¬ seg.Skips buf then r.log ++ [⟨i, buf, pos⟩] else r.log }
      | .error _ => none
  | .deleteFile i =>
    r.dev.segments[i]?.bind fun seg =>
      match seg.deleteFile r.dev.params r.world with
      | .ok ((seg', _), w) => some (r.set i seg' w)
      | .error _ => none
  | .flush =>
    match r.dev.Flush r.world with
    | .ok ((dev, err), w) => some { r with dev, world := w, acked := err.isNone }
    | .error _ => none
  | .close =>
    match r.dev.close r.world with
    | .ok ((dev, err), w) => some { r with dev, world := w, acked := err.isNone }
    | .error _ => none

/-- Loading the segment gives it the bytes of its object. -/
def LoadsWhole (sp : StoreParams σ) (w : World σ) (seg : Segment σ) : Prop :=
  seg.localFile = none → ∀ item ∈ seg.remoteItem, ∀ rdr ∈ (item.openItem w.store).toOption,
    sp.LoadsExactly rdr.data

/-- What a call must not meet: a forgotten segment, where it flushes or evicts; a download that adds
a byte, where it loads. -/
def Careful (r : CacheRun σ) : CacheOp → Prop
  | .readAt i _ _ => ∀ seg ∈ r.dev.segments[i]?, LoadsWhole r.dev.params r.world seg
  | .writeAt i _ _ => ∀ seg ∈ r.dev.segments[i]?, LoadsWhole r.dev.params r.world seg
  | .deleteFile i => ∀ seg ∈ r.dev.segments[i]?, ¬ seg.Forgotten
  | .flush => ∀ seg ∈ r.dev.segments, ¬ seg.Forgotten
  | .close => ∀ seg ∈ r.dev.segments, ¬ seg.Forgotten

instance (sp : StoreParams σ) (content : Bytes) : Decidable (sp.LoadsExactly content) :=
  inferInstanceAs (Decidable (_ ∨ _))

instance (sp : StoreParams σ) (w : World σ) (seg : Segment σ) : Decidable (LoadsWhole sp w seg) :=
  inferInstanceAs (Decidable (_ → _))

instance (r : CacheRun σ) (op : CacheOp) : Decidable (r.Careful op) := by
  cases op <;> unfold Careful <;> infer_instance

/-- The remote object of every segment written to holds the bytes of the applied writes. -/
def Durable (sp : StoreParams σ) (law : Faithful sp.container) (disk : Bytes)
    (r : CacheRun σ) : Prop :=
  ∀ e ∈ r.log, ∃ md, law.objects r.world.store (sp.itemName (itoa e.segID)) =
    some ⟨segSlice sp (replayWrites sp.segmentBytes disk r.log) e.segID, md⟩

/-! ## The invariant -/

/-- The segments stand for the disk of the applied writes, and those written to are stored.  All
are clean after a shutdown; after a nil they are clean and none is forgotten. -/
structure Ok (sp : StoreParams σ) (law : Faithful sp.container) (count : ℕ) (disk : Bytes)
    (r : CacheRun σ) : Prop where
  params_eq : r.dev.params = sp
  length_eq : r.dev.segments.length = count
  inv : DevInv sp law r.world r.dev.segments (replayWrites sp.segmentBytes disk r.log)
  stored : ∀ e ∈ r.log, ∃ seg, r.dev.segments[e.segID]? = some seg ∧ seg.Stored
  clean : r.dev.shutdown = true → ∀ seg ∈ r.dev.segments, seg.dirty = false
  acked : r.acked = true → ∀ seg ∈ r.dev.segments, seg.dirty = false ∧ ¬ seg.Forgotten

section Steps

variable {sp : StoreParams σ} {count : ℕ} {disk : Bytes} {r : CacheRun σ}

/-- After a nil everything written is in the container. -/
lemma Ok.durable {law : Faithful sp.container} (h : Ok sp law count disk r)
    (hack : r.acked = true) :
    Durable sp law disk r := by
  intro e he
  obtain ⟨seg, hseg, hstored⟩ := h.stored e he
  obtain ⟨hid, hinv⟩ := h.inv.seg _ seg hseg
  obtain ⟨hclean, hnot⟩ := h.acked hack seg (List.mem_of_getElem? hseg)
  have hitem : seg.remoteItem ≠ none := by
    rcases hstored with hlocal | hitem
    · exact fun hi => hnot ⟨hclean, hlocal, hi⟩
    · exact hitem
  obtain ⟨item, hitem⟩ := Option.ne_none_iff_exists'.mp hitem
  obtain ⟨md, hcur⟩ := (hinv.synced hclean hnot).remote item hitem
  refine ⟨md, ?_⟩
  have hobj := law.current_object hcur
  rwa [Segment.name, hid] at hobj

lemma stored_set {segments : List (Segment σ)} {i : ℕ} {seg seg' : Segment σ} {log : List SegWrite}
    (h : ∀ e ∈ log, ∃ seg, segments[e.segID]? = some seg ∧ seg.Stored)
    (hseg : segments[i]? = some seg) (hst : seg.Stored → seg'.Stored) :
    ∀ e ∈ log, ∃ seg, (segments.set i seg')[e.segID]? = some seg ∧ seg.Stored := by
  intro e he
  obtain ⟨segₑ, hsegₑ, hstₑ⟩ := h e he
  rw [List.getElem?_set]
  by_cases hie : i = e.segID
  · subst hie
    obtain rfl := Option.some.inj (hseg.symm.trans hsegₑ)
    exact ⟨seg', by simp [DevInv.lt hseg], hst hstₑ⟩
  · exact ⟨segₑ, by simp [hie, hsegₑ], hstₑ⟩

lemma clean_set {segments : List (Segment σ)} {i : ℕ} {seg' : Segment σ}
    (h : ∀ seg ∈ segments, seg.dirty = false) (hclean : seg'.dirty = false) :
    ∀ seg ∈ segments.set i seg', seg.dirty = false := by
  intro seg hmem
  rcases List.mem_or_eq_of_mem_set hmem with hmem | rfl
  · exact h seg hmem
  · exact hclean

lemma Ok.set_same {law : Faithful sp.container} (h : Ok sp law count disk r) {i : ℕ}
    {seg seg' : Segment σ} {w : World σ} (hseg : r.dev.segments[i]? = some seg)
    (hstep : SegStep sp law r.world seg
      (segSlice sp (replayWrites sp.segmentBytes disk r.log) i) w seg'
      (segSlice sp (replayWrites sp.segmentBytes disk r.log) i))
    (hclean : r.dev.shutdown = true → seg'.dirty = false) :
    Ok sp law count disk (r.set i seg' w) := by
  refine ⟨h.params_eq, List.length_set.trans h.length_eq, h.inv.step_same hseg hstep,
    stored_set h.stored hseg hstep.stored, fun hs => clean_set (h.clean hs) (hclean hs), ?_⟩
  intro hack
  exact absurd hack (by simp [CacheRun.set])

lemma Ok.refused {law : Faithful sp.container} (h : Ok sp law count disk r) :
    Ok sp law count disk { r with acked := false } :=
  ⟨h.params_eq, h.length_eq, h.inv, h.stored, h.clean, fun hack => by simp at hack⟩

/-- The bytes a segment would load end as `LoadsWhole` asks. -/
lemma loadsExactly {law : Plain sp.container} {w : World σ} {seg : Segment σ} {content : Bytes}
    (hs : sp.Sized) (hinv : SegInv sp law.toFaithful w seg content) (hload : LoadsWhole sp w seg)
    (hlocal : seg.localFile = none) : sp.LoadsExactly content := by
  obtain ⟨hrem, hz⟩ := hinv.synced_of_absent hlocal
  cases hitem : seg.remoteItem with
  | none =>
    right
    rw [hz hitem, zeros, List.getLast?_replicate, if_neg hs.pos.ne']
  | some item =>
    obtain ⟨md, hcur⟩ := hrem item hitem
    refine hload hlocal item (by simp [hitem]) ⟨content, none⟩ ?_
    simp [law.current_open hcur, Except.toOption]

variable {law : Plain sp.container}

lemma Ok.segment (h : Ok sp law.toFaithful count disk r) {i : ℕ} (hi : i < count) :
    ∃ seg, r.dev.segments[i]? = some seg :=
  ⟨_, List.getElem?_eq_some_iff.mpr ⟨h.length_eq ▸ hi, rfl⟩⟩

lemma ok_readAt (hr : Reliable sp.env) (hs : sp.Sized) (h : Ok sp law.toFaithful count disk r)
    {i pos : ℕ} {buf : Bytes} (hop : (CacheOp.readAt i buf pos).InRange count sp.segmentBytes)
    (hcare : r.Careful (.readAt i buf pos)) :
    ∃ r', r.step (.readAt i buf pos) = some r' ∧ Ok sp law.toFaithful count disk r' := by
  obtain ⟨hi, hle⟩ := hop
  simp only [step]
  split_ifs with hshut
  · exact ⟨_, rfl, h.refused⟩
  obtain ⟨seg, hseg⟩ := h.segment hi
  have hinv := (h.inv.seg i seg hseg).2
  have hload : LoadsWhole sp r.world seg := h.params_eq ▸ hcare seg (by simp [hseg])
  obtain ⟨⟨seg', res⟩, w', hrun, hres⟩ := readAt_segment hr hs hinv
    (fun hlocal _ => loadsExactly hs hinv hload hlocal) hle
  refine ⟨r.set i seg' w', by simp [hseg, h.params_eq, hrun], ?_⟩
  rcases hres with ⟨-, hstep⟩ | ⟨-, hfull⟩
  · exact h.set_same hseg hstep fun hs' => absurd hs' hshut
  · exact h.set_same hseg hfull.step fun hs' => absurd hs' hshut

/-- A write that is applied is added to the log, one that is skipped or finds no permit is not. -/
lemma ok_writeAt (hr : Reliable sp.env) (hs : sp.Sized) (h : Ok sp law.toFaithful count disk r)
    {i pos : ℕ} {buf : Bytes} (hop : (CacheOp.writeAt i buf pos).InRange count sp.segmentBytes)
    (hcare : r.Careful (.writeAt i buf pos)) :
    ∃ r', r.step (.writeAt i buf pos) = some r' ∧ Ok sp law.toFaithful count disk r' := by
  obtain ⟨hi, hne, hle⟩ := hop
  simp only [step]
  split_ifs with hshut
  · exact ⟨_, rfl, h.refused⟩
  obtain ⟨seg, hseg⟩ := h.segment hi
  have hinv := (h.inv.seg i seg hseg).2
  have hload : LoadsWhole sp r.world seg := h.params_eq ▸ hcare seg (by simp [hseg])
  obtain ⟨⟨seg', n, err⟩, w', hrun, hres⟩ := writeAt_segment hr hs hinv
    (loadsExactly hs hinv hload) hne hle
  simp only [hseg, h.params_eq, hrun, Option.bind_some]
  refine ⟨_, rfl, ?_⟩
  by_cases hskip : seg.Skips buf
  · -- nothing is written
    rcases hres with ⟨-, hstep, -⟩ | ⟨hnot, -⟩
    · rw [Segment.written, if_pos hskip] at hstep
      rw [if_neg (show ¬ (err = none ∧ ¬ seg.Skips buf) from fun hboth => hboth.2 hskip)]
      exact h.set_same hseg hstep fun hs' => absurd hs' hshut
    · exact absurd hskip hnot
  rcases hres with ⟨hres, hstep, hdirty⟩ | ⟨-, hfull⟩
  · rw [Segment.written, if_neg hskip] at hstep
    obtain ⟨-, rfl⟩ := Prod.mk.inj hres
    have hlog : replayWrites sp.segmentBytes disk (r.log ++ [⟨i, buf, pos⟩]) =
        overwrite 0 (replayWrites sp.segmentBytes disk r.log) (i * sp.segmentBytes + pos) buf := by
      simp [replayWrites]
    simp only [hskip, not_false_eq_true, and_self, if_true]
    refine ⟨h.params_eq, List.length_set.trans h.length_eq, ?_, ?_, fun hs' => absurd hs' hshut,
      fun hack => by simp [CacheRun.set] at hack⟩
    · rw [hlog]
      exact h.inv.step_write hseg hle hstep
    · intro e he
      rcases List.mem_append.mp he with he | he
      · exact stored_set h.stored hseg hstep.stored e he
      -- the new write is in the local file of its segment, which is dirty
      · obtain rfl := List.mem_singleton.mp he
        refine ⟨seg', ?_, Or.inl fun hnone => ?_⟩
        · exact List.getElem?_set_self (DevInv.lt hseg)
        · simpa [hnone] using hstep.inv.dirty_local (hdirty hskip)
  · obtain ⟨e, he, -⟩ := hfull.capacity
    rw [if_neg (show ¬ (err = none ∧ ¬ seg.Skips buf) by simp [show err = some e from he])]
    exact h.set_same hseg hfull.step fun hs' => absurd hs' hshut

lemma ok_deleteFile (hr : Reliable sp.env) (h : Ok sp law.toFaithful count disk r) {i : ℕ}
    (hi : i < count) (hcare : r.Careful (.deleteFile i)) :
    ∃ r', r.step (.deleteFile i) = some r' ∧ Ok sp law.toFaithful count disk r' := by
  obtain ⟨seg, hseg⟩ := h.segment hi
  obtain ⟨⟨seg', err⟩, w', hrun, hstep, hclean, -⟩ := deleteFile_segment hr (h.inv.seg i seg hseg).2
    (hcare seg (by simp [hseg])) (h.inv.holding_le hseg)
  refine ⟨r.set i seg' w', ?_, h.set_same hseg hstep fun _ => hclean⟩
  simp [step, hseg, h.params_eq, hrun]

lemma Ok.of_device (h : Ok sp law.toFaithful count disk r) {dev' : ObjDevice σ} {w' : World σ}
    {err : Option GoError} (hparams : dev'.params = sp)
    (hinv : DevInv sp law.toFaithful w' dev'.segments (replayWrites sp.segmentBytes disk r.log))
    (hlen : dev'.segments.length = r.dev.segments.length)
    (hclean : ∀ seg ∈ dev'.segments, seg.dirty = false)
    (hnot : err = none → ∀ seg ∈ dev'.segments, ¬ seg.Forgotten)
    (hkeeps : KeepsStored r.dev.segments dev'.segments) :
    Ok sp law.toFaithful count disk { r with dev := dev', world := w', acked := err.isNone } := by
  refine ⟨hparams, hlen.trans h.length_eq, hinv, ?_, fun _ => hclean, ?_⟩
  · intro e he
    obtain ⟨seg, hseg, hst⟩ := h.stored e he
    have hlt : e.segID < dev'.segments.length := hlen ▸ DevInv.lt hseg
    obtain ⟨seg₀, hseg₀, hst₀⟩ := hkeeps e.segID _ (List.getElem?_eq_getElem hlt)
    obtain rfl := Option.some.inj (hseg.symm.trans hseg₀)
    exact ⟨_, List.getElem?_eq_getElem hlt, hst₀ hst⟩
  · intro hack seg hmem
    exact ⟨hclean seg hmem, hnot (Option.isNone_iff_eq_none.mp hack) seg hmem⟩

lemma ok_flush (h : Ok sp law.toFaithful count disk r) (hcare : r.Careful .flush) :
    ∃ r', r.step .flush = some r' ∧ Ok sp law.toFaithful count disk r' := by
  simp only [step, ObjDevice.Flush]
  cases hshut : r.dev.shutdown with
  | true =>
    refine ⟨_, rfl, h.params_eq, h.length_eq, h.inv, h.stored, h.clean, ?_⟩
    intro hack
    simp at hack
  | false =>
    obtain ⟨rfl, hlen, hinv, hstored, hclean, hacked⟩ := h
    obtain ⟨⟨dev', err⟩, w', hrun, segments', rfl, hinv', hlen', hclean', hnot', hkeeps, -⟩ :=
      flush_device r.dev law hinv
    simp only [Bool.false_eq_true, if_false, hrun]
    exact ⟨_, rfl, Ok.of_device ⟨rfl, hlen, hinv, hstored, hclean, hacked⟩ rfl hinv' hlen' hclean'
      (fun hnone => hnot' hnone hcare) hkeeps⟩

/-- A second close returns nil without another look. -/
lemma ok_close (hr : Reliable sp.env) (h : Ok sp law.toFaithful count disk r)
    (hcare : r.Careful .close) :
    ∃ r', r.step .close = some r' ∧ Ok sp law.toFaithful count disk r' := by
  cases hshut : r.dev.shutdown with
  | true =>
    simp only [step, ObjDevice.close, hshut, if_true]
    refine ⟨_, rfl, h.params_eq, h.length_eq, h.inv, h.stored, h.clean, ?_⟩
    intro _ seg hmem
    exact ⟨h.clean hshut seg hmem, hcare seg hmem⟩
  | false =>
    obtain ⟨rfl, hlen, hinv, hstored, hclean, hacked⟩ := h
    obtain ⟨⟨dev', err⟩, w', hrun, segments', rfl, hinv', hlen', hclean', hnot', hkeeps, -⟩ :=
      close_device hr hshut hinv hcare
    simp only [step, hrun]
    exact ⟨_, rfl, Ok.of_device ⟨rfl, hlen, hinv, hstored, hclean, hacked⟩ rfl hinv' hlen' hclean'
      hnot' hkeeps⟩

/-- **One call.**  It returns, and keeps the invariant. -/
lemma ok_step (hr : Reliable sp.env) (hs : sp.Sized) (h : Ok sp law.toFaithful count disk r)
    {op : CacheOp} (hop : op.InRange count sp.segmentBytes) (hcare : r.Careful op) :
    ∃ r', r.step op = some r' ∧ Ok sp law.toFaithful count disk r' := by
  cases op with
  | readAt i buf pos => exact ok_readAt hr hs h hop hcare
  | writeAt i buf pos => exact ok_writeAt hr hs h hop hcare
  | deleteFile i => exact ok_deleteFile hr h hop hcare
  | flush => exact ok_flush h hcare
  | close => exact ok_close hr h hcare

/-- A run of careful calls goes to its end, and keeps the invariant. -/
lemma ok_run (hr : Reliable sp.env) (hs : sp.Sized) {ops : List CacheOp}
    (hops : ∀ op ∈ ops, op.InRange count sp.segmentBytes)
    (h : Ok sp law.toFaithful count disk r) (hcare : Machine.Meets step Careful r ops) :
    ∃ r', Machine.run step r ops = some r' ∧ Ok sp law.toFaithful count disk r' := by
  induction ops generalizing r with
  | nil => exact ⟨r, rfl, h⟩
  | cons op ops ih =>
    obtain ⟨r₁, hstep, h₁⟩ := ok_step hr hs h (hops op (by simp)) hcare.1
    obtain ⟨r', hrun, h'⟩ := ih (fun op' hop' => hops op' (by simp [hop'])) h₁ (hcare.2 r₁ hstep)
    exact ⟨r', Machine.run_cons_eq_some.mpr ⟨r₁, hstep, hrun⟩, h'⟩

end Steps

/-! ## The calls `ioAt` is made of -/

section Decomposition

variable {sp : StoreParams σ} {dev : ObjDevice σ} {w w' w'' : World σ}
  {segments segments' : List (Segment σ)}

/-- Calls of segments, inside them, change the segments of a device and the world like that. -/
def Reaches (dev : ObjDevice σ) (w : World σ) (segments : List (Segment σ)) (w' : World σ) : Prop :=
  segments.length = dev.segments.length ∧ ∀ log acked, ∃ ops log' acked',
    (∀ op ∈ ops, op.InRange dev.segments.length dev.params.segmentBytes) ∧
    Machine.run step ⟨dev, w, log, acked⟩ ops = some ⟨{ dev with segments }, w', log', acked'⟩

lemma Reaches.refl : Reaches dev w dev.segments w :=
  ⟨rfl, fun log acked => ⟨[], log, acked, by simp, rfl⟩⟩

lemma Reaches.trans (h : Reaches dev w segments w')
    (h' : Reaches { dev with segments } w' segments' w'') : Reaches dev w segments' w'' := by
  obtain ⟨hlen, hrun⟩ := h
  obtain ⟨hlen', hrun'⟩ := h'
  refine ⟨hlen'.trans hlen, fun log acked => ?_⟩
  obtain ⟨ops, log₁, acked₁, hops, h₁⟩ := hrun log acked
  obtain ⟨ops', log₂, acked₂, hops', h₂⟩ := hrun' log₁ acked₁
  refine ⟨ops ++ ops', log₂, acked₂, ?_, ?_⟩
  · intro op hop
    rcases List.mem_append.mp hop with hop | hop
    · exact hops op hop
    · have := hops' op hop
      rwa [hlen] at this
  · rw [Machine.run_append, h₁, Option.bind_some, h₂]

lemma Reaches.single (op : CacheOp) {i : ℕ} {seg' : Segment σ}
    (hop : op.InRange dev.segments.length dev.params.segmentBytes)
    (hstep : ∀ log acked, ∃ log' acked', step ⟨dev, w, log, acked⟩ op =
      some ⟨{ dev with segments := dev.segments.set i seg' }, w', log', acked'⟩) :
    Reaches dev w (dev.segments.set i seg') w' := by
  refine ⟨List.length_set, fun log acked => ?_⟩
  obtain ⟨log', acked', h⟩ := hstep log acked
  exact ⟨[op], log', acked', by simpa using hop, Machine.run_cons_eq_some.mpr ⟨_, h, rfl⟩⟩

/-- A read changes bytes of its buffer, not their number. -/
lemma length_readAt (seg : Segment σ) (buf : Bytes) (pos : ℤ) :
    Yields (seg.readAt sp buf pos) w fun res _ => res.2.1.length = buf.length := by
  rw [Segment.readAt, yields_bind]
  rintro now w₁ -
  exact Segment.readLoaded_length _ buf pos

/-- A segment's part of `ioAt`, before it looks at the error. -/
lemma segmentOp_reaches (hopen : dev.shutdown = false) {i pos : ℕ}
    {seg : Segment σ} (hseg : dev.segments[i]? = some seg) {segBuf : Bytes} (hne : segBuf ≠ [])
    (hle : pos + segBuf.length ≤ dev.params.segmentBytes) (readOp : Bool) :
    Yields (segmentOp dev.params readOp seg segBuf pos) w fun res w' =>
      res.2.1.length = segBuf.length ∧ Reaches dev w (dev.segments.set i res.1) w' := by
  have hi := DevInv.lt hseg
  unfold segmentOp
  cases readOp with
  | true =>
    simp only [if_true]
    rintro ⟨seg', got, n, err⟩ w' hrun
    refine ⟨length_readAt seg segBuf pos _ _ hrun, Reaches.single (.readAt i segBuf pos) ⟨hi, hle⟩
      fun log acked => ⟨log, false, ?_⟩⟩
    simp [step, hopen, hseg, hrun, CacheRun.set]
  | false =>
    simp only [Bool.false_eq_true, if_false, yields_bind, yields_pure]
    rintro ⟨seg', n, err⟩ w' hrun
    refine ⟨trivial, Reaches.single (.writeAt i segBuf pos) ⟨hi, hne, hle⟩ fun log acked =>
      ⟨if err = none ∧ ¬ seg.Skips segBuf then log ++ [⟨i, segBuf, pos⟩] else log, false, ?_⟩⟩
    simp only [step, hopen, hseg, hrun, Option.bind_some, Bool.false_eq_true, if_false,
      CacheRun.set]

/-- An eviction is a `DeleteFile`, or nothing. -/
lemma removeLeastRecentUsed_reaches (dev : ObjDevice σ) (w : World σ) (forIdx : ℕ) :
    Yields (removeLeastRecentUsed dev.params dev.segments forIdx) w fun res w' =>
      Reaches dev w res.1 w' := by
  unfold removeLeastRecentUsed
  cases lruCandidate dev.segments forIdx with
  | none => exact (yields_pure _).mpr Reaches.refl
  | some idx =>
    simp only
    cases hseg : dev.segments[idx]? with
    | none => exact yields_stop _
    | some seg =>
      simp only [yields_bind, yields_pure]
      rintro ⟨seg', err⟩ w' hrun
      refine Reaches.single (.deleteFile idx) (DevInv.lt hseg) fun log acked => ⟨log, false, ?_⟩
      simp [step, hseg, hrun, CacheRun.set]

lemma accessSegment_reaches (hopen : dev.shutdown = false) {i pos : ℕ}
    {segBuf : Bytes} (hne : segBuf ≠ [])
    (hle : pos + segBuf.length ≤ dev.params.segmentBytes) (readOp : Bool) (tries : ℕ) :
    Yields (accessSegment dev.params readOp i pos tries dev.segments segBuf) w
      fun res w' => Reaches dev w res.1 w' := by
  refine (yields_accessSegment (N := fun _ => True) (I := fun segments buf w' =>
    Reaches dev w segments w' ∧ buf.length = segBuf.length) ?_ ?_ tries ⟨.refl, rfl⟩).mono
      fun _ _ h => h.1.1
  · rintro segments buf w₁ seg ⟨hreach, hlen⟩ hseg
    have hbuf : buf ≠ [] := by
      rw [← List.length_pos_iff_ne_nil] at hne ⊢
      omega
    have hopen₁ : ({ dev with segments } : ObjDevice σ).shutdown = false := hopen
    refine (segmentOp_reaches hopen₁ hseg hbuf (hlen ▸ hle) readOp).mono fun r w₂ h₂ => ?_
    exact ⟨⟨hreach.trans h₂.2, h₂.1.trans hlen⟩, fun _ => trivial⟩
  · rintro segments buf w₁ ⟨hreach, hlen⟩
    exact (removeLeastRecentUsed_reaches { dev with segments } w₁ i).mono
      fun _ _ h₂ => ⟨hreach.trans h₂, hlen⟩

lemma ioLoop_reaches (hopen : dev.shutdown = false) (hpos : 0 < dev.params.segmentBytes)
    (readOp : Bool) {rounds segID pos total : ℕ} (hlt : pos < dev.params.segmentBytes)
    (rest : Bytes) :
    Yields (ioLoop dev.params readOp rounds dev.segments segID pos total rest) w fun res w' =>
      Reaches dev w res.1 w' := by
  induction rounds generalizing dev w segID pos total rest with
  | zero =>
    unfold ioLoop
    split_ifs <;> exact (yields_pure _).mpr Reaches.refl
  | succ rounds ih =>
    unfold ioLoop
    split_ifs with hnil hend
    · exact (yields_pure _).mpr Reaches.refl
    · exact (yields_pure _).mpr Reaches.refl
    by_cases hwrap : (dev.params.segmentBytes : ℤ) - pos > maxOffset
    · simp only [if_pos hwrap]
      exact yields_stop _
    simp only [if_neg hwrap, yields_bind]
    set segBuf := if (rest.length : ℤ) > dev.params.segmentBytes - pos
      then rest.take ((dev.params.segmentBytes : ℤ) - pos).toNat else rest with hsegBuf
    have hrest : 0 < rest.length := List.length_pos_iff_ne_nil.mpr hnil
    have hlen : 0 < segBuf.length ∧ pos + segBuf.length ≤ dev.params.segmentBytes := by
      rw [hsegBuf]
      split_ifs with hlong
      · rw [List.length_take]
        omega
      · omega
    refine (accessSegment_reaches hopen (List.length_pos_iff_ne_nil.mp hlen.1) hlen.2 readOp
      maxCapTries).mono fun res w₁ h₁ => ?_
    obtain ⟨segments₁, got, n, err⟩ := res
    cases err with
    | some e => exact (yields_pure _).mpr h₁
    | none =>
      simp only [yields_bind, yields_pure]
      refine (@ih { dev with segments := segments₁ } w₁ hopen hpos (segID + 1) 0 (total + n) hpos
        (rest.drop n)).mono fun res w₂ h₂ => ?_
      exact h₁.trans h₂

/-- **What `ReadAt` and `WriteAt` of the device are made of**: reads and writes of its segments, and
evictions between them. -/
lemma ioAt_reaches (readOp : Bool) (buf : Bytes) (pos : ℕ) :
    Yields (dev.ioAt readOp buf pos) w fun res w' =>
      res.1 = { dev with segments := res.1.segments } ∧ Reaches dev w res.1.segments w' := by
  unfold ObjDevice.ioAt
  split_ifs with hshut hpast hzero hnil
  · exact (yields_pure _).mpr ⟨rfl, Reaches.refl⟩
  · exact (yields_pure _).mpr ⟨rfl, Reaches.refl⟩
  · exact yields_stop _
  · exact (yields_pure _).mpr ⟨rfl, Reaches.refl⟩
  have hpos : 0 < dev.params.segmentBytes := Nat.pos_of_ne_zero hzero
  obtain ⟨hid, hplace⟩ := place_eq dev.params.segmentBytes pos
  have hneg : ¬ (((pos / dev.params.segmentBytes : ℕ) : ℤ) < 0) := not_lt.mpr (Int.natCast_nonneg _)
  dsimp only
  rw [hplace, hid, if_neg hneg, Int.toNat_natCast, yields_bind]
  refine (ioLoop_reaches (by simpa using hshut) hpos readOp (Nat.mod_lt _ hpos) buf).mono
    fun res w' h => ?_
  exact (yields_pure _).mpr ⟨rfl, h⟩

end Decomposition

/-! ## A device in memory whose first uploads fail -/

/-- The puts before a time fail, and store nothing. -/
def failingPuts (until_ : ℕ) : Env :=
  { quietEnv with fault := fun call t => if call = .put ∧ t < until_ then some 0 else none }

lemma reliable_failingPuts (until_ : ℕ) : Reliable (failingPuts until_) := by
  intro call t hcall
  have hne : call ≠ .put := by
    rintro rfl
    simp [OsCall.ofUpload] at hcall
  simp [failingPuts, hne]

/-- A new device of two segments of one byte in that environment. -/
def failingTwo (thick : Bool) (until_ : ℕ) : CacheRun MemStore where
  dev := ⟨⟨memContainer ['c'], 1, thick, false, none, failingPuts until_⟩, 2,
    [Segment.new 0, Segment.new 1], 1, false⟩
  world := ObjRun.emptyWorld
  log := []
  acked := false

/-- After a run: the answer of its last call, the object and the local file of segment 0. -/
def aftermath (thick : Bool) (until_ : ℕ) (ops : List CacheOp) :
    Option (Bool × Option Bytes × Option Bytes) :=
  (Machine.run step (failingTwo thick until_) ops).map fun r =>
    let name := r.dev.params.itemName (itoa 0)
    (r.acked, (r.world.store.get name).map Object.data, r.world.files name)

/-! ## The result -/

/-- **A nil is durable, if nothing forgotten is passed over.**  On a device opened over a stored
disk, with any uploads failing: every run of calls that never lets a flush, a close or an eviction
meet a forgotten segment, nor loads an object to which the download adds a byte, goes to its end;
and when its last call is a `Flush` or `Close` that returned nil, the object of every segment
written to holds the bytes of all its applied writes. -/
theorem nil_durable_of_careful (s : ObjSetup σ) (w : World σ) (r₀ : ObjRun σ)
    (hopen : ObjRun.start s w = some r₀) (law : Plain r₀.dev.params.container)
    (hr : Reliable s.env) (hmax : s.totalBytes ≤ maxOffset) (disk : Bytes)
    (hstored : StoredDisk r₀.dev.params law.toFaithful w.store s.count disk)
    (hcache : ∀ i, i < s.count → r₀.dev.params.CacheOf w.files
      (r₀.dev.params.itemName (itoa i)) (segSlice r₀.dev.params disk i))
    (ops : List CacheOp) (hops : ∀ op ∈ ops, op.InRange s.count s.objectBytes)
    (hcare : Machine.Meets step Careful ⟨r₀.dev, r₀.world, [], false⟩ ops) :
    ∃ r, Machine.run step ⟨r₀.dev, r₀.world, [], false⟩ ops = some r ∧
      (r.acked = true → Durable r₀.dev.params law.toFaithful disk r) := by
  have hg := ObjRun.gives_of_start hopen hmax
  obtain ⟨r', hr', hlive⟩ := ObjRun.start_live hg hstored hcache
  obtain rfl := Option.some.inj (hr'.symm.trans hopen)
  have hok : Ok r'.dev.params law.toFaithful s.count disk ⟨r'.dev, r'.world, [], false⟩ := by
    refine ⟨rfl, hlive.length_eq, hlive.sound.toDevInv, by simp, fun hshut => ?_, by simp⟩
    exact absurd hshut (by simp [hlive.shutdown_eq])
  obtain ⟨r, hrun, hok'⟩ := ok_run (hg.env_eq ▸ hr) hg.sized
    (by rw [hg.segmentBytes_eq]; exact hops) hok hcare
  exact ⟨r, hrun, hok'.durable⟩

/-- The first upload fails; the segment is written again before the next. -/
def failedThenRewritten : List CacheOp :=
  [.writeAt 0 [1] 0, .flush, .writeAt 0 [2] 0, .flush, .deleteFile 0, .readAt 0 [0] 0, .close]

theorem nil_durable_of_careful_rewritten :
    ∃ r, Machine.run step (failingTwo true 7) failedThenRewritten = some r ∧
      (r.acked = true → Durable (failingTwo true 7).dev.params (memPlain ['c']).toFaithful
        (zeros 2) r) :=
  nil_durable_of_careful { ObjRun.memSetup 2 1 0 false with env := failingPuts 7 } ObjRun.emptyWorld
    ⟨(failingTwo true 7).dev, ObjRun.emptyWorld⟩ rfl (memPlain ['c']) (reliable_failingPuts 7)
    (by decide) (zeros 2) (storedDisk_zeros 2 fun _ _ => rfl)
    (fun _ _ => ⟨Or.inl rfl, fun _ => rfl⟩) failedThenRewritten
    (by simp [failedThenRewritten, CacheOp.InRange, ObjRun.memSetup, ObjSetup.count])
    (by decide +kernel)

/-- One failed put: the flush reports it, and the next flush, or the second close, returns nil
without the object; an eviction in between drops the only copy of the bytes. -/
theorem nil_after_failed_upload :
    aftermath true 7 [.writeAt 0 [1] 0, .flush] = some (false, none, some [1]) ∧
      aftermath true 7 [.writeAt 0 [1] 0, .flush, .flush] = some (true, none, some [1]) ∧
      aftermath true 7 [.writeAt 0 [1] 0, .close, .close] = some (true, none, some [1]) ∧
      aftermath true 7 [.writeAt 0 [1] 0, .flush, .deleteFile 0, .flush] =
        some (true, none, none) := by
  refine ⟨?_, ?_, ?_, ?_⟩ <;> decide +kernel

/-- A download that adds a byte: the next upload has it too. -/
example : aftermath false 0 [.writeAt 0 [1] 0, .deleteFile 0, .writeAt 0 [2] 0, .flush] =
    some (true, some [2, 0], some [2, 0]) := by
  decide +kernel

end CacheRun

end Usbd
