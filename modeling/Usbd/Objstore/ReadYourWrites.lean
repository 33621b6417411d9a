import Usbd.Foundations.Machine
import Usbd.Objstore.Lifecycle

/-!
# Reading back what was written

Runs of a thick-provisioned device over a plain container, without faults: reads, writes, flushes
and reopenings, one after the other.  Throughout such a run the device stands for some disk
(`ObjRun.live_step`), so that every call returns.

Whether that disk is the array of the writes is another matter.  A segment without a local file
skips a write of zeros, also when its remote object has other bytes there: that write is lost, and
the bytes from before it are read again.  The reads of a run return what was written exactly when
no write of the run loses bytes that way.

Closing and opening, on the other hand, changes nothing: whatever the device returned before, the
device opened after it returns.
-/

namespace Usbd

open ListMemory Prog

/-- A call on the device.  A reopening finds the cache directory as it was left, or an empty one. -/
inductive ObjOp
  | readAt (buf : Bytes) (pos : ℕ)
  | writeAt (buf : Bytes) (pos : ℕ)
  | flush
  | reopen (fresh : Bool)
  deriving DecidableEq, Repr

/-- The call stays inside the device. -/
def ObjOp.InRange (size : ℕ) : ObjOp → Prop
  | .readAt buf pos => pos + buf.length ≤ size
  | .writeAt buf pos => pos + buf.length ≤ size
  | .flush => True
  | .reopen _ => True

/-- The array a device is meant to be, after a call. -/
def ObjOp.apply (disk : Bytes) : ObjOp → Bytes
  | .writeAt buf pos => overwrite 0 disk pos buf
  | _ => disk

/-- A run so far: the device and the world it works on. -/
structure ObjRun (σ : Type) where
  dev : ObjDevice σ
  world : World σ

variable {σ : Type} {s : ObjSetup σ} {sp : StoreParams σ} {disk : Bytes}

/-- The world a device is reopened in. -/
def World.reopened (w : World σ) (fresh : Bool) : World σ :=
  { w with files := if fresh then fun _ => none else w.files }

namespace ObjRun

/-- Open a device. -/
def start (s : ObjSetup σ) (w : World σ) : Option (ObjRun σ) :=
  match s.newDevice w with
  | .ok (.ok dev, w') => some ⟨dev, w'⟩
  | _ => none

/-- One call.  A call that does not return, and a reopening that fails, end the run. -/
def step (s : ObjSetup σ) (r : ObjRun σ) : ObjOp → Option (ObjRun σ)
  | .readAt buf pos =>
    match r.dev.readAt buf pos r.world with
    | .ok ((dev, _), w) => some ⟨dev, w⟩
    | .error _ => none
  | .writeAt buf pos =>
    match r.dev.writeAt buf pos r.world with
    | .ok ((dev, _), w) => some ⟨dev, w⟩
    | .error _ => none
  | .flush =>
    match r.dev.Flush r.world with
    | .ok ((dev, _), w) => some ⟨dev, w⟩
    | .error _ => none
  | .reopen fresh =>
    match r.dev.close r.world with
    | .ok ((_, none), w) => start s (w.reopened fresh)
    | _ => none

/-- The device stands for a disk. -/
abbrev Live (s : ObjSetup σ) (sp : StoreParams σ) (law : Plain sp.container) (r : ObjRun σ)
    (disk : Bytes) : Prop :=
  Usbd.Live s sp law.toFaithful r.dev r.world disk

/-- The call loses no zeros: a write is safe in the sense of `ObjDevice.ZeroSafe`. -/
def Safe (r : ObjRun σ) : ObjOp → Prop
  | .writeAt buf pos => r.dev.ZeroSafe buf pos r.world
  | _ => True

/-- Every read inside the device succeeds and returns the bytes of an array. -/
def ReadsBack (r : ObjRun σ) (size : ℕ) (disk : Bytes) : Prop :=
  ∀ (buf : Bytes) (pos : ℕ), pos + buf.length ≤ size → ∃ dev w,
    r.dev.readAt buf pos r.world = .ok ((dev, slice disk pos buf.length, buf.length, none), w)

/-! ## One call -/

section Calls

variable {law : Plain sp.container} {r : ObjRun σ}

/-- Over a stored disk a device opens, and stands for it. -/
lemma start_live (hg : s.Gives sp) {w : World σ}
    (hstored : StoredDisk sp law.toFaithful w.store s.count disk)
    (hcache : ∀ i, i < s.count →
      sp.CacheOf w.files (sp.itemName (itoa i)) (segSlice sp disk i)) :
    ∃ r, start s w = some r ∧ r.Live s sp law disk := by
  obtain ⟨_, w', hrun, dev, rfl, hlive⟩ := newDevice_spec hg law hstored hcache
  exact ⟨⟨dev, w'⟩, by simp [start, hrun], hlive⟩

lemma live_readAt (hg : s.Gives sp) (hf : Faultless s.env)
    (hthick : s.opts.thickProvision = true) (h : r.Live s sp law disk) (buf : Bytes) {pos : ℕ}
    (hin : pos ≤ s.totalBytes) :
    ∃ r' : ObjRun σ, r.dev.readAt buf pos r.world =
      .ok ((r'.dev, diskRead disk buf pos), r'.world) ∧ r'.Live s sp law disk := by
  obtain ⟨dev, w⟩ := r
  obtain ⟨rfl, htotal, hlen, hopen, hsound⟩ := h
  obtain ⟨⟨dev', res⟩, w', hrun, hres, segments, hdev, hlen', hsound'⟩ :=
    readAt_device (hg.env_eq ▸ hf) hg.sized (hg.thickProvision_eq.trans hthick) hopen hsound buf
      (htotal ▸ hin)
  obtain rfl : dev' = _ := hdev
  obtain rfl : res = _ := hres
  exact ⟨⟨_, w'⟩, hrun, rfl, htotal, hlen'.trans hlen, hopen, hsound'⟩

/-- A device that stands for a disk reads it back. -/
lemma Live.readsBack (hg : s.Gives sp) (hf : Faultless s.env)
    (hthick : s.opts.thickProvision = true) (h : r.Live s sp law disk)
    (hsize : disk.length = s.totalBytes) : r.ReadsBack s.totalBytes disk := by
  intro buf pos hin
  obtain ⟨r', hrun, -⟩ := live_readAt hg hf hthick h buf (show pos ≤ s.totalBytes by omega)
  rw [diskRead_of_le (hsize ▸ hin)] at hrun
  exact ⟨_, _, hrun⟩

/-- Closing succeeds, and a device opened after it stands for the same disk. -/
lemma live_reopen (hg : s.Gives sp) (hf : Faultless s.env) (h : r.Live s sp law disk)
    (fresh : Bool) : ∃ dev₁ w₁ r', r.dev.close r.world = .ok ((dev₁, none), w₁) ∧
      start s (w₁.reopened fresh) = some r' ∧ r'.Live s sp law disk := by
  obtain ⟨dev, w⟩ := r
  obtain ⟨rfl, htotal, hlen, hopen, hsound⟩ := h
  have hf' : Faultless dev.params.env := hg.env_eq ▸ hf
  obtain ⟨⟨dev₁, err⟩, w₁, hrun, segments, -, -, hlen₁, hclean, -, -, hsound₁⟩ :=
    close_device hf'.reliable hopen hsound.toDevInv fun seg hseg =>
      (hsound.kept seg hseg).not_forgotten
  obtain ⟨herr, hsound₂⟩ := hsound₁ hf' hsound
  obtain rfl : err = none := herr
  obtain ⟨hstored, hcache⟩ := hsound₂.stored hclean
  rw [hlen₁.trans hlen] at hstored hcache
  have hcache' : ∀ i, i < s.count → dev.params.CacheOf (w₁.reopened fresh).files
      (dev.params.itemName (itoa i)) (segSlice dev.params disk i) := by
    intro i hi
    cases fresh with
    | false => exact hcache i hi
    | true => exact ⟨Or.inl rfl, fun _ => rfl⟩
  obtain ⟨r', hstart, hlive⟩ :=
    start_live hg (w := w₁.reopened fresh) hstored hcache'
  exact ⟨dev₁, w₁, r', hrun, hstart, hlive⟩

/-- The disk after a call that loses nothing; a write past the last segment is cut off there. -/
def applied (disk : Bytes) : ObjOp → Bytes
  | .writeAt buf pos => overwrite 0 disk pos (buf.take (disk.length - pos))
  | _ => disk

/-- **One call.**  It returns, and the device stands for a disk again, the one it should exactly
when the call is safe. -/
lemma live_step (hg : s.Gives sp) (hf : Faultless s.env) (hthick : s.opts.thickProvision = true)
    (h : r.Live s sp law disk) {op : ObjOp} (hop : op.InRange s.totalBytes) :
    ∃ r' disk', step s r op = some r' ∧ r'.Live s sp law disk' ∧
      (r.Safe op ↔ disk' = applied disk op) := by
  cases op with
  | readAt buf pos =>
    obtain ⟨r', hrun, hlive⟩ := live_readAt hg hf hthick h buf
      (show pos ≤ s.totalBytes from (Nat.le_add_right _ _).trans hop)
    exact ⟨r', disk, by simp [step, hrun], hlive, iff_of_true trivial rfl⟩
  | writeAt buf pos =>
    obtain ⟨dev, w⟩ := r
    obtain ⟨rfl, htotal, hlen, hopen, hsound⟩ := h
    obtain ⟨⟨dev', res⟩, w', hrun, -, segments, disk', hdev, hlen', hsound', hiff⟩ :=
      writeAt_device (hg.env_eq ▸ hf) hg.sized (hg.thickProvision_eq.trans hthick) hopen hsound buf
        (htotal ▸ (Nat.le_add_right _ _).trans hop)
    obtain rfl : dev' = _ := hdev
    exact ⟨⟨{ dev with segments }, w'⟩, disk', by simp [step, hrun],
      ⟨rfl, htotal, hlen'.trans hlen, hopen, hsound'⟩, hiff⟩
  | flush =>
    obtain ⟨dev, w⟩ := r
    obtain ⟨rfl, htotal, hlen, hopen, hsound⟩ := h
    obtain ⟨⟨dev', res⟩, w', hrun, segments, hdev, -, hlen', -, -, -, hsound'⟩ :=
      flush_device dev law hsound.toDevInv
    obtain rfl : dev' = _ := hdev
    obtain ⟨-, hsound'⟩ := hsound' (hg.env_eq ▸ hf) hsound
    refine ⟨⟨{ dev with segments }, w'⟩, disk, ?_, ⟨rfl, htotal, hlen'.trans hlen, hopen, hsound'⟩,
      iff_of_true trivial rfl⟩
    simp only [step, ObjDevice.Flush, show dev.shutdown = false from hopen, Bool.false_eq_true,
      if_false, hrun]
  | reopen fresh =>
    obtain ⟨dev₁, w₁, r', hclose, hstart, hlive⟩ := live_reopen hg hf h fresh
    exact ⟨r', disk, by simp [step, hclose, hstart], hlive, iff_of_true trivial rfl⟩

/-! ## Whole runs -/

lemma live_run (hg : s.Gives sp) (hf : Faultless s.env) (hthick : s.opts.thickProvision = true)
    {ops : List ObjOp} (hops : ∀ op ∈ ops, op.InRange s.totalBytes) (h : r.Live s sp law disk) :
    ∃ r' disk', Machine.run (step s) r ops = some r' ∧ r'.Live s sp law disk' := by
  induction ops generalizing r disk with
  | nil => exact ⟨r, disk, rfl, h⟩
  | cons op ops ih =>
    obtain ⟨r₁, disk₁, hstep, h₁, -⟩ := live_step hg hf hthick h (hops op (by simp))
    obtain ⟨r', disk', hrun, h'⟩ := ih (fun op' hop' => hops op' (by simp [hop'])) h₁
    exact ⟨r', disk', Machine.run_cons_eq_some.mpr ⟨r₁, hstep, hrun⟩, h'⟩

lemma applied_eq {op : ObjOp} (hop : op.InRange disk.length) : applied disk op = op.apply disk := by
  cases op with
  | writeAt buf pos =>
    have hfit : buf.length ≤ disk.length - pos := by
      have : pos + buf.length ≤ disk.length := hop
      omega
    rw [applied, ObjOp.apply, List.take_of_length_le hfit]
  | readAt => rfl
  | flush => rfl
  | reopen => rfl

lemma length_apply {op : ObjOp} (hop : op.InRange disk.length) :
    (op.apply disk).length = disk.length := by
  cases op with
  | writeAt buf pos => exact length_overwrite_of_le 0 hop
  | readAt => rfl
  | flush => rfl
  | reopen => rfl

/-- Two arrays a device reads back are the same. -/
lemma ReadsBack.unique {disk' : Bytes} {size : ℕ} (h : r.ReadsBack size disk)
    (h' : r.ReadsBack size disk') (hlen : disk.length = size) (hlen' : disk'.length = size) :
    disk = disk' := by
  obtain ⟨d, w, hrun⟩ := h (zeros size) 0 (by simp)
  obtain ⟨d', w', hrun'⟩ := h' (zeros size) 0 (by simp)
  have heq := hrun.symm.trans hrun'
  simp only [Except.ok.injEq, Prod.mk.injEq, length_zeros] at heq
  have hslice := heq.1.2.1
  rwa [← hlen, slice_zero_length, hlen, ← hlen', slice_zero_length] at hslice

/-- From a device that stands for a disk of the whole size: all states of a run read back what was
written exactly when all its calls are safe. -/
lemma readsBack_iff (hg : s.Gives sp) (hf : Faultless s.env)
    (hthick : s.opts.thickProvision = true) {ops : List ObjOp}
    (hops : ∀ op ∈ ops, op.InRange s.totalBytes) (h : r.Live s sp law disk)
    (hsize : disk.length = s.totalBytes) (hcount : s.count * s.objectBytes = s.totalBytes) :
    (∀ es r', es <+: ops → Machine.run (step s) r es = some r' →
        r'.ReadsBack s.totalBytes (es.foldl ObjOp.apply disk)) ↔
      Machine.Meets (step s) Safe r ops := by
  induction ops generalizing r disk with
  | nil =>
    refine iff_of_true ?_ trivial
    intro es r' hes hrun
    obtain rfl := List.prefix_nil.mp hes
    obtain rfl := Option.some.inj hrun
    exact h.readsBack hg hf hthick hsize
  | cons op ops ih =>
    have hop := hops op (by simp)
    obtain ⟨r₁, disk₁, hstep, h₁, hiff⟩ := live_step hg hf hthick h hop
    rw [applied_eq (hsize ▸ hop)] at hiff
    have hsize₁ : disk₁.length = s.totalBytes := by
      rw [h₁.sound.length_eq, h₁.length_eq, hg.segmentBytes_eq, hcount]
    have hlen : (op.apply disk).length = s.totalBytes := by
      rw [length_apply (hsize ▸ hop), hsize]
    have ih := ih (fun op' hop' => hops op' (by simp [hop'])) h₁ hsize₁
    constructor
    · intro hreads
      -- right after the call the device reads back what it should, so the call was safe
      have hnow : r₁.ReadsBack s.totalBytes (op.apply disk) :=
        hreads [op] r₁ (by simp) (Machine.run_cons_eq_some.mpr ⟨r₁, hstep, rfl⟩)
      have hdisk : disk₁ = op.apply disk :=
        (h₁.readsBack hg hf hthick hsize₁).unique hnow hsize₁ hlen
      refine ⟨hiff.mpr hdisk, fun r₂ hr₂ => ?_⟩
      obtain rfl := Option.some.inj (hstep.symm.trans hr₂)
      refine ih.mp fun es r' hes hrun => ?_
      rw [hdisk]
      exact hreads (op :: es) r' (List.cons_prefix_cons.mpr ⟨rfl, hes⟩)
        (Machine.run_cons_eq_some.mpr ⟨r₁, hstep, hrun⟩)
    · rintro ⟨hsafe, hrest⟩ es r' hes hrun
      have hdisk := hiff.mp hsafe
      cases es with
      | nil =>
        obtain rfl := Option.some.inj hrun
        exact h.readsBack hg hf hthick hsize
      | cons e es =>
        obtain ⟨rfl, hes'⟩ := List.cons_prefix_cons.mp hes
        obtain ⟨r₂, hr₂, hrun'⟩ := Machine.run_cons_eq_some.mp hrun
        obtain rfl := Option.some.inj (hstep.symm.trans hr₂)
        have := ih.mpr (hrest r₁ hstep) es r' hes' hrun'
        rwa [hdisk] at this

end Calls

/-! ## A device in memory -/

/-- The arguments of a thick-provisioned device over a container in memory. -/
def memSetup (totalBytes objectBytes : ℕ) (quotaBytes : ℤ) (persistCache : Bool) :
    ObjSetup MemStore where
  codecs _ := ⟨id, id, .ok⟩
  cipher := ⟨fun _ _ _ bs => bs, fun _ _ _ bs => bs, fun _ => []⟩
  env := quietEnv
  container := memContainer ['c']
  totalBytes := totalBytes
  objectBytes := objectBytes
  opts := ⟨1, .identity, quotaBytes, true, true, persistCache, .identity, []⟩

/-- Nothing stored and no files. -/
def emptyWorld : World MemStore := ⟨MemStore.empty, fun _ => none, 0, [], 0⟩

/-- A new device of two segments of one byte, of which one can be local. -/
def memTwo (persistCache : Bool) : ObjRun MemStore where
  dev := ⟨⟨memContainer ['c'], 1, true, persistCache, some 1, quietEnv⟩, 2,
    [Segment.new 0, Segment.new 1], 1, false⟩
  world := emptyWorld

/-- Bytes that are not zero, an eviction and a reopening. -/
def evictAndReopen : List ObjOp :=
  [.writeAt [1, 2] 0, .flush, .readAt [0] 0, .reopen true, .writeAt [3] 1]

/-- The state after a run of a device in memory. -/
def memRun (totalBytes objectBytes : ℕ) (quotaBytes : ℤ) (ops : List ObjOp) :
    Option (ObjRun MemStore) :=
  (start (memSetup totalBytes objectBytes quotaBytes false) emptyWorld).bind fun r₀ =>
    Machine.run (step (memSetup totalBytes objectBytes quotaBytes false)) r₀ ops

/-- What a read returns. -/
def answer (r : ObjRun σ) (buf : Bytes) (pos : ℕ) : Option (Bytes × ℕ × Option GoError) :=
  match r.dev.readAt buf pos r.world with
  | .ok ((_, result), _) => some result
  | .error _ => none

/-! ## The results -/

lemma gives_of_start {w : World σ} {r₀ : ObjRun σ} (h : start s w = some r₀)
    (hmax : s.totalBytes ≤ maxOffset) : s.Gives r₀.dev.params := by
  unfold start at h
  split at h
  · rename_i dev w' hnew
    obtain rfl := Option.some.inj h
    exact ObjSetup.gives_of_newDevice hnew hmax
  · cases h

/-- **Read-your-writes.**  Over a plain container that has nothing of the device yet, every run of
calls inside a thick-provisioned device goes to its end, and its states read back the array of the
writes — the latest byte written, or zero — exactly when no write of the run skips zeros over other
bytes of a remote object. -/
theorem reads_back_iff_zeroSafe (s : ObjSetup σ) (w : World σ) (r₀ : ObjRun σ)
    (hopen : start s w = some r₀) (law : Plain r₀.dev.params.container)
    (hthick : s.opts.thickProvision = true) (hf : Faultless s.env)
    (hdvd : s.objectBytes ∣ s.totalBytes) (hmax : s.totalBytes ≤ maxOffset)
    (hobjects : ∀ n, r₀.dev.params.itemPrefix <+: n → law.objects w.store n = none)
    (hfiles : ∀ n, r₀.dev.params.itemPrefix <+: n → w.files n = none)
    (ops : List ObjOp) (hops : ∀ op ∈ ops, op.InRange s.totalBytes) :
    (∃ r, Machine.run (step s) r₀ ops = some r) ∧
      ((∀ es r, es <+: ops → Machine.run (step s) r₀ es = some r →
          r.ReadsBack s.totalBytes (es.foldl ObjOp.apply (zeros s.totalBytes))) ↔
        Machine.Meets (step s) Safe r₀ ops) := by
  have hg := gives_of_start hopen hmax
  have hcount : s.count * s.objectBytes = s.totalBytes := Nat.div_mul_cancel hdvd
  have hstored : StoredDisk r₀.dev.params law.toFaithful w.store s.count (zeros s.totalBytes) := by
    have := storedDisk_zeros s.count hobjects
    rwa [hg.segmentBytes_eq, hcount] at this
  have hcache : ∀ i, i < s.count → r₀.dev.params.CacheOf w.files
      (r₀.dev.params.itemName (itoa i)) (segSlice r₀.dev.params (zeros s.totalBytes) i) := by
    intro i _
    refine ⟨Or.inl (hfiles _ (List.prefix_append _ _)), fun _ => hfiles _ ?_⟩
    exact (List.prefix_append _ _).trans (List.prefix_append _ _)
  obtain ⟨r, hr, hlive⟩ := start_live hg hstored hcache
  obtain rfl := Option.some.inj (hr.symm.trans hopen)
  obtain ⟨r', -, hrun, -⟩ := live_run hg hf hthick hops hlive
  exact ⟨⟨r', hrun⟩, readsBack_iff hg hf hthick hops hlive (length_zeros _) hcount⟩

theorem reads_back_iff_zeroSafe_two_segments :
    (∃ r, Machine.run (step (memSetup 2 1 1 false)) (memTwo false) evictAndReopen = some r) ∧
      ((∀ es r, es <+: evictAndReopen →
          Machine.run (step (memSetup 2 1 1 false)) (memTwo false) es = some r →
          r.ReadsBack 2 (es.foldl ObjOp.apply (zeros 2))) ↔
        Machine.Meets (step (memSetup 2 1 1 false)) Safe (memTwo false) evictAndReopen) :=
  reads_back_iff_zeroSafe (memSetup 2 1 1 false) emptyWorld (memTwo false) rfl (memPlain ['c']) rfl
    faultless_quietEnv (by decide) (by decide) (fun _ _ => rfl) (fun _ _ => rfl) evictAndReopen
    (by simp [evictAndReopen, ObjOp.InRange, memSetup])

/-- Two segments of one byte, one of them local at a time: writing the second evicts the first, and
the zero written to the first is lost. -/
def zeroAfterEviction : List ObjOp := [.writeAt [1] 0, .writeAt [1] 1, .writeAt [0] 0]

theorem zero_write_lost_after_eviction :
    (memRun 2 1 1 zeroAfterEviction).bind (fun r => r.answer [9] 0) = some ([1], 1, none) ∧
      zeroAfterEviction.foldl ObjOp.apply (zeros 2) = [0, 1] := by
  decide +kernel

/-- **Closing and opening again changes nothing.**  Over a plain container that stores a disk, after
every run of calls inside a thick-provisioned device: `Close` succeeds, and a device opened with the
same arguments, over the cache directory that was left or an empty one, answers every read as the
first would have. -/
theorem close_then_open_reads_same (s : ObjSetup σ) (w : World σ) (r₀ : ObjRun σ)
    (hopen : start s w = some r₀) (law : Plain r₀.dev.params.container)
    (hthick : s.opts.thickProvision = true) (hf : Faultless s.env)
    (hmax : s.totalBytes ≤ maxOffset) (disk : Bytes)
    (hstored : StoredDisk r₀.dev.params law.toFaithful w.store s.count disk)
    (hcache : ∀ i, i < s.count → r₀.dev.params.CacheOf w.files
      (r₀.dev.params.itemName (itoa i)) (segSlice r₀.dev.params disk i))
    (ops : List ObjOp) (hops : ∀ op ∈ ops, op.InRange s.totalBytes) (fresh : Bool) :
    ∃ r dev₁ w₁ r₂, Machine.run (step s) r₀ ops = some r ∧
      r.dev.close r.world = .ok ((dev₁, none), w₁) ∧
      start s (w₁.reopened fresh) = some r₂ ∧
      ∀ (buf : Bytes) (pos : ℕ), pos + buf.length ≤ s.totalBytes → ∃ result d w d' w',
        r.dev.readAt buf pos r.world = .ok ((d, result), w) ∧
          r₂.dev.readAt buf pos r₂.world = .ok ((d', result), w') := by
  have hg := gives_of_start hopen hmax
  obtain ⟨r, hr, hlive⟩ := start_live hg hstored hcache
  obtain rfl := Option.some.inj (hr.symm.trans hopen)
  obtain ⟨r', disk', hrun, hlive'⟩ := live_run hg hf hthick hops hlive
  obtain ⟨dev₁, w₁, r₂, hclose, hstart, hlive₂⟩ := live_reopen hg hf hlive' fresh
  refine ⟨r', dev₁, w₁, r₂, hrun, hclose, hstart, ?_⟩
  intro buf pos hin
  have hpos : pos ≤ s.totalBytes := (Nat.le_add_right _ _).trans hin
  obtain ⟨r₃, hread, -⟩ := live_readAt hg hf hthick hlive' buf hpos
  obtain ⟨r₄, hread₂, -⟩ := live_readAt hg hf hthick hlive₂ buf hpos
  exact ⟨_, _, _, _, _, hread, hread₂⟩

theorem close_then_open_reads_same_two_segments :
    ∃ r dev₁ w₁ r₂, Machine.run (step (memSetup 2 1 1 true)) (memTwo true) evictAndReopen = some r ∧
      r.dev.close r.world = .ok ((dev₁, none), w₁) ∧
      start (memSetup 2 1 1 true) (w₁.reopened false) = some r₂ ∧
      ∀ (buf : Bytes) (pos : ℕ), pos + buf.length ≤ 2 → ∃ result d w d' w',
        r.dev.readAt buf pos r.world = .ok ((d, result), w) ∧
          r₂.dev.readAt buf pos r₂.world = .ok ((d', result), w') :=
  close_then_open_reads_same (memSetup 2 1 1 true) emptyWorld (memTwo true) rfl (memPlain ['c']) rfl
    faultless_quietEnv (by decide) (zeros 2) (storedDisk_zeros 2 fun _ _ => rfl)
    (fun _ _ => ⟨Or.inl rfl, fun _ => rfl⟩) evictAndReopen
    (by simp [evictAndReopen, ObjOp.InRange, memSetup]) false

end ObjRun
end Usbd
