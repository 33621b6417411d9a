import Usbd.Objstore.Splitting

/-!
# The size of a device

`Size` is the number of bytes a device was asked for; the number of its segments is that number
divided by the size of an object.  The two agree when one divides the other.  Otherwise the bytes
behind the last whole segment are part of the device and belong to no segment: a request that
reaches them ends in `io.EOF`.  Objects of no bytes are accepted, and the division is by zero.

Devices without a quota keep all their segments local and serve requests over any container.  With
a quota a segment has to come back from its object, which a thick-provisioned one over a plain
container does.
-/

namespace Usbd

open ListMemory Prog

variable {σ : Type} {s : ObjSetup σ} {sp : StoreParams σ} {w : World σ}

/-- A read or write inside the device, or a flush. -/
def ObjOp.Within (size : ℕ) : ObjOp → Prop
  | .readAt buf pos => pos + buf.length ≤ size
  | .writeAt buf pos => pos + buf.length ≤ size
  | .flush => True
  | .reopen _ => False

namespace ObjRun

/-- Every read and every write inside the device transfers all its bytes. -/
def TransfersAll (r : ObjRun σ) (size : ℕ) : Prop :=
  ∀ (buf : Bytes) (pos : ℕ), pos + buf.length ≤ size →
    (∃ dev got w, r.dev.readAt buf pos r.world = .ok ((dev, got, buf.length, none), w)) ∧
      ∃ dev w, r.dev.writeAt buf pos r.world = .ok ((dev, buf.length, none), w)

/-- All runs of reads, writes and flushes go to their ends, and every read and write after them
transfers all its bytes. -/
def Serves (s : ObjSetup σ) (r : ObjRun σ) : Prop :=
  ∀ ops : List ObjOp, (∀ op ∈ ops, op.Within s.totalBytes) →
    ∃ r', Machine.run (step s) r ops = some r' ∧ r'.TransfersAll s.totalBytes

/-- What every call keeps, and what makes calls transfer all their bytes, serves. -/
lemma serves_of_invariant (Inv : ObjRun σ → Prop)
    (hstep : ∀ {r op}, Inv r → op.Within s.totalBytes → ∃ r', step s r op = some r' ∧ Inv r')
    (hall : ∀ {r}, Inv r → r.TransfersAll s.totalBytes) {r : ObjRun σ} (h : Inv r) :
    r.Serves s := by
  intro ops hops
  induction ops generalizing r with
  | nil => exact ⟨r, rfl, hall h⟩
  | cons op ops ih =>
    obtain ⟨r₁, hr₁, h₁⟩ := hstep h (hops op (by simp))
    obtain ⟨r', hrun, hr'⟩ := ih h₁ fun op' hop' => hops op' (by simp [hop'])
    exact ⟨r', Machine.run_cons_eq_some.mpr ⟨r₁, hr₁, hrun⟩, hr'⟩

/-! ## Without a quota -/

/-- A device of the arguments in use, all its segments local or unwritten. -/
structure Local (s : ObjSetup σ) (sp : StoreParams σ) (r : ObjRun σ) : Prop where
  params_eq : r.dev.params = sp
  totalBytes_eq : r.dev.totalBytes = s.totalBytes
  length_eq : r.dev.segments.length = s.count
  shutdown_eq : r.dev.shutdown = false
  resident : ∃ arrays, Resident sp r.world r.dev.segments arrays

/-- A request of a device whose segments are local: it returns, and transfers all that there are
segments for. -/
lemma Local.ioAt (hg : s.Gives sp) (hf : Faultless s.env) (hq : sp.quotaSema = none)
    {r : ObjRun σ} (h : r.Local s sp) (readOp : Bool) (buf : Bytes) {pos : ℕ}
    (hin : pos ≤ s.totalBytes) :
    ∃ (r' : ObjRun σ) (got : Bytes) (n : ℕ) (err : Option GoError),
      r.dev.ioAt readOp buf pos r.world = .ok ((r'.dev, got, n, err), r'.world) ∧ r'.Local s sp ∧
        (pos + buf.length ≤ s.count * s.objectBytes → n = buf.length ∧ err = none) := by
  obtain ⟨dev, w⟩ := r
  obtain ⟨rfl, htotal, hlen, hopen, arrays, hres⟩ := h
  have hrel : Reliable dev.params.env := hg.env_eq ▸ hf.reliable
  have hpos := hg.sized.pos
  obtain ⟨⟨dev', got, n, err⟩, w', hrun, ⟨arrays', hst, -⟩, -, hwhole⟩ :=
    ObjDevice.ioAt_moves (resident_io hq hg.sized) hopen hpos hg.sized.le_max hres readOp buf
      (htotal ▸ hin)
  obtain ⟨hdev, hsame, -⟩ := CacheRun.ioAt_reaches readOp buf pos _ _ hrun
  simp only at hdev hst hwhole hsame
  refine ⟨⟨dev', w'⟩, got, n, err, hrun, ⟨?_, ?_, hsame.trans hlen, ?_, arrays', hst⟩,
    fun hle => ?_⟩
  · rw [hdev]
  · rw [hdev]
    exact htotal
  · rw [hdev]
    exact hopen
  · have hlen' : dev.segments.length = s.count := hlen
    have hfit : buf.length ≤ bytesLeft dev.params dev.segments.length
        (pos / dev.params.segmentBytes) (pos % dev.params.segmentBytes) := by
      rw [bytesLeft, Nat.div_add_mod', hlen', hg.segmentBytes_eq]
      omega
    simpa using (hwhole (not_not_intro hrel) hfit).2

lemma Local.step (hg : s.Gives sp) (hf : Faultless s.env) (hq : sp.quotaSema = none)
    {r : ObjRun σ} (h : r.Local s sp) {op : ObjOp} (hop : op.Within s.totalBytes) :
    ∃ r', ObjRun.step s r op = some r' ∧ r'.Local s sp := by
  cases op with
  | readAt buf pos =>
    obtain ⟨r', got, n, err, hrun, h', -⟩ :=
      h.ioAt hg hf hq true buf (show pos ≤ s.totalBytes from (Nat.le_add_right _ _).trans hop)
    exact ⟨r', by simp [ObjRun.step, ObjDevice.readAt, hrun], h'⟩
  | writeAt buf pos =>
    obtain ⟨r', got, n, err, hrun, h', -⟩ :=
      h.ioAt hg hf hq false buf (show pos ≤ s.totalBytes from (Nat.le_add_right _ _).trans hop)
    exact ⟨r', by simp [ObjRun.step, ObjDevice.writeAt_eq_map, hrun, Except.map], h'⟩
  | flush =>
    obtain ⟨dev, w⟩ := r
    obtain ⟨rfl, htotal, hlen, hopen, arrays, hres⟩ := h
    obtain ⟨⟨dev', err⟩, w', hrun, segments, hdev, hlen', hres'⟩ := Flush_resident hres
    obtain rfl : dev' = { dev with segments } := hdev
    exact ⟨⟨{ dev with segments }, w'⟩, by simp [ObjRun.step, hrun],
      rfl, htotal, hlen'.trans hlen, hopen, arrays, hres'⟩
  | reopen => exact hop.elim

lemma Local.transfersAll (hg : s.Gives sp) (hf : Faultless s.env) (hq : sp.quotaSema = none)
    (hdvd : s.count * s.objectBytes = s.totalBytes) {r : ObjRun σ} (h : r.Local s sp) :
    r.TransfersAll s.totalBytes := by
  intro buf pos hin
  have hle : pos ≤ s.totalBytes := (Nat.le_add_right _ _).trans hin
  constructor
  · obtain ⟨r', got, n, err, hrun, -, hall⟩ := h.ioAt hg hf hq true buf hle
    obtain ⟨rfl, rfl⟩ := hall (hdvd ▸ hin)
    exact ⟨r'.dev, got, r'.world, hrun⟩
  · obtain ⟨r', got, n, err, hrun, -, hall⟩ := h.ioAt hg hf hq false buf hle
    obtain ⟨rfl, rfl⟩ := hall (hdvd ▸ hin)
    exact ⟨r'.dev, r'.world, by rw [ObjDevice.writeAt_eq_map, hrun]; rfl⟩

/-! ## With a quota -/

lemma Live.transfersAll {law : Plain sp.container} {disk : Bytes} (hg : s.Gives sp)
    (hf : Faultless s.env) (hthick : s.opts.thickProvision = true)
    (hdvd : s.count * s.objectBytes = s.totalBytes) {r : ObjRun σ} (h : r.Live s sp law disk) :
    r.TransfersAll s.totalBytes := by
  obtain ⟨dev, w⟩ := r
  obtain ⟨rfl, htotal, hlen, hopen, hsound⟩ := h
  have hdisk : disk.length = s.totalBytes := by
    rw [hsound.length_eq, show dev.segments.length = s.count from hlen, hg.segmentBytes_eq, hdvd]
  intro buf pos hin
  have hle : pos ≤ dev.totalBytes := by
    rw [show dev.totalBytes = s.totalBytes from htotal]
    omega
  have hresult : diskRead disk buf pos = (slice disk pos buf.length, buf.length, none) :=
    diskRead_of_le (hdisk ▸ hin)
  have hf' : Faultless dev.params.env := hg.env_eq ▸ hf
  have hthick' : dev.params.thickProvision = true := hg.thickProvision_eq.trans hthick
  constructor
  · obtain ⟨⟨dev', res⟩, w', hrun, hres, -⟩ :=
      readAt_device hf' hg.sized hthick' hopen hsound buf hle
    obtain rfl : res = _ := hres.trans hresult
    exact ⟨dev', _, w', hrun⟩
  · obtain ⟨⟨dev', res⟩, w', hrun, hres, -⟩ :=
      writeAt_device hf' hg.sized hthick' hopen hsound buf hle
    obtain rfl : res = (buf.length, none) := hres.trans (by rw [hresult])
    exact ⟨dev', w', hrun⟩

end ObjRun

/-! ## New devices -/

namespace ObjSetup

/-- `NewDevice` accepts the arguments: the options are in order and an object is not larger than the
device. -/
structure Accepted (s : ObjSetup σ) (c : Container σ) (quota : Option ℕ) : Prop where
  stack : containerStack s.codecs s.cipher s.opts s.container = .ok c
  quota : quotaPermits s.opts.quotaBytes s.totalBytes s.objectBytes = .ok quota
  le : s.objectBytes ≤ s.totalBytes
  le_max : s.totalBytes ≤ maxOffset

def params (s : ObjSetup σ) (c : Container σ) (quota : Option ℕ) : StoreParams σ :=
  ⟨c, s.objectBytes, s.opts.thickProvision, s.opts.persistCache, quota, s.env⟩

/-- The container lists nothing. -/
def ListsNothing (c : Container σ) (st : σ) : Prop :=
  ∀ pre limit, c.items st pre cursorStart limit = .ok ([], [])

variable {c : Container σ} {quota : Option ℕ}

lemma Accepted.gives (h : s.Accepted c quota) (hpos : 0 < s.objectBytes) :
    s.Gives (s.params c quota) :=
  ⟨h.stack, h.quota, rfl, hpos, h.le, h.le_max⟩

/-- Objects of no bytes: the division of the sizes panics. -/
lemma newDevice_of_zero (h : s.Accepted c quota) (hzero : s.objectBytes = 0) :
    s.newDevice w = .error .panic := by
  have hle : ¬ s.objectBytes > s.totalBytes := by omega
  simp only [newDevice, Usbd.newDevice, if_neg hle, h.stack, h.quota, loadSegments, if_pos hzero]
  rfl

lemma newDevice_of_empty (h : s.Accepted c quota) (hpos : 0 < s.objectBytes)
    (hempty : ListsNothing c w.store) :
    s.newDevice w = .ok (.ok ⟨s.params c quota, s.totalBytes, (List.range s.count).map Segment.new,
      max 1 s.opts.concurFlush, false⟩, { w with held := 0 }) := by
  have hle : ¬ s.objectBytes > s.totalBytes := by
    have := h.le
    omega
  have hret : Returns s.newDevice w fun r w' => r = .ok ⟨s.params c quota, s.totalBytes,
      (List.range s.count).map Segment.new, max 1 s.opts.concurFlush, false⟩ ∧
        w' = { w with held := 0 } := by
    simp only [newDevice, Usbd.newDevice, if_neg hle, h.stack, h.quota, loadSegments,
      if_neg hpos.ne', returns_bind, returns_modify, returns_get]
    rw [show c.items _ _ cursorStart _ = _ from hempty _ _]
    simp only [List.length_nil, Nat.not_lt_zero, gt_iff_lt, if_false, isCursorEnd, decide_true,
      Bool.not_true, Bool.false_eq_true, attachItems, returns_pure]
    exact ⟨rfl, trivial⟩
  obtain ⟨_, _, hrun, rfl, rfl⟩ := hret
  exact hrun

/-- The device with nothing in its way: construction returns, and the device serves every request
inside it, whatever has been done before. -/
def ServesAll (s : ObjSetup σ) (w : World σ) : Prop :=
  (∀ stop, s.newDevice w ≠ .error stop) ∧
    ∀ dev w', s.newDevice w = .ok (.ok dev, w') → ObjRun.Serves s ⟨dev, w'⟩

/-- All local, or brought back whole: without a quota below its size, or thick-provisioned over a
plain container, in a new cache directory. -/
def Keeps (s : ObjSetup σ) (c : Container σ) (quota : Option ℕ) (w : World σ) : Prop :=
  quota = none ∨ s.opts.thickProvision = true ∧ (∀ name, w.files name = none) ∧
    ∃ law : Plain c, ∀ name, law.objects w.store name = none

/-- The last byte of a device that is not made of whole segments belongs to none of them. -/
lemma not_transfersAll_of_tail {r : ObjRun σ} (hopen : r.dev.shutdown = false)
    (htotal : r.dev.totalBytes = s.totalBytes) (hsb : r.dev.params.segmentBytes = s.objectBytes)
    (hlen : r.dev.segments.length = s.count) (hpos : 0 < s.objectBytes)
    (hdvd : ¬ s.objectBytes ∣ s.totalBytes) : ¬ r.TransfersAll s.totalBytes := by
  intro hall
  have hlt : s.count * s.objectBytes < s.totalBytes := by
    have hle := Nat.div_mul_le_self s.totalBytes s.objectBytes
    have hne : s.count * s.objectBytes ≠ s.totalBytes := fun heq =>
      hdvd (heq ▸ Nat.dvd_mul_left _ _)
    rw [count] at hne ⊢
    omega
  have hseg : r.dev.segments.length ≤ (s.totalBytes - 1) / r.dev.params.segmentBytes := by
    rw [hlen, hsb, Nat.le_div_iff_mul_le hpos]
    omega
  obtain ⟨⟨dev, got, w, hrun⟩, -⟩ := hall [0] (s.totalBytes - 1) (by simp; omega)
  have heof : Returns (r.dev.readAt [0] ((s.totalBytes - 1 : ℕ) : ℤ)) r.world fun res _ =>
      res.2.2 = (0, some ioEOF) := by
    refine returns_ioAt hopen (hsb ▸ hpos) true (by omega) ?_
    unfold ioLoop
    rw [if_neg (by simp), if_pos hseg]
    exact (returns_pure _).mpr rfl
  have hres := heof.eq hrun
  simp at hres

/-- A device of whole segments serves every request inside it. -/
lemma serves_of_dvd (hf : Faultless s.env) (h : s.Accepted c quota)
    (hempty : ListsNothing c w.store) (hkeeps : s.Keeps c quota w) (hpos : 0 < s.objectBytes)
    (hdvd : s.objectBytes ∣ s.totalBytes) {dev : ObjDevice σ} {w' : World σ}
    (hnew : s.newDevice w = .ok (.ok dev, w')) : ObjRun.Serves s ⟨dev, w'⟩ := by
  have hg := h.gives hpos
  have hwhole : s.count * s.objectBytes = s.totalBytes := Nat.div_mul_cancel hdvd
  rcases hkeeps with rfl | ⟨hthick, hfiles, law, hnone⟩
  · -- every segment stays local once it has been written
    obtain ⟨hdev, rfl⟩ := Prod.mk.inj (Except.ok.inj (hnew.symm.trans
      (newDevice_of_empty h hpos hempty)))
    obtain rfl := Except.ok.inj hdev
    refine ObjRun.serves_of_invariant (ObjRun.Local s (s.params c none))
      (fun hinv hop => hinv.step hg hf rfl hop)
      (fun hinv => hinv.transfersAll hg hf rfl hwhole) ?_
    exact ⟨rfl, rfl, by simp, rfl, _, resident_new _ _ s.count⟩
  · -- the device stands for a disk, whatever has been evicted
    have hstored : StoredDisk (s.params c quota) law.toFaithful w.store s.count
        (zeros (s.count * (s.params c quota).segmentBytes)) :=
      storedDisk_zeros s.count fun n _ => hnone n
    obtain ⟨r, hstart, hlive⟩ := ObjRun.start_live hg hstored fun i _ =>
      ⟨.inl (hfiles _), fun _ => hfiles _⟩
    obtain rfl : r = ⟨dev, w'⟩ := by simpa [ObjRun.start, hnew] using hstart.symm
    refine ObjRun.serves_of_invariant (fun r => ∃ disk, r.Live s (s.params c quota) law disk)
      (fun {r op} hinv hop => ?_) (fun hinv => ?_) ⟨_, hlive⟩
    · obtain ⟨disk, hinv⟩ := hinv
      have hin : op.InRange s.totalBytes := by
        cases op with
        | readAt => exact hop
        | writeAt => exact hop
        | flush => trivial
        | reopen => trivial
      obtain ⟨r', disk', hstep, hlive', -⟩ := ObjRun.live_step hg hf hthick hinv hin
      exact ⟨r', hstep, disk', hlive'⟩
    · obtain ⟨disk, hinv⟩ := hinv
      exact hinv.transfersAll hg hf hthick hwhole

/-- **The whole address space is served** only when the size of an object is positive and divides
the size of the device; and then it is, if the segments stay local or are brought back whole. -/
theorem newDevice_serves_iff (hf : Faultless s.env) (h : s.Accepted c quota)
    (hempty : ListsNothing c w.store) :
    (s.ServesAll w → 0 < s.objectBytes ∧ s.objectBytes ∣ s.totalBytes) ∧
      (s.Keeps c quota w →
        (s.ServesAll w ↔ 0 < s.objectBytes ∧ s.objectBytes ∣ s.totalBytes)) := by
  have honly : s.ServesAll w → 0 < s.objectBytes ∧ s.objectBytes ∣ s.totalBytes := by
    rintro ⟨hreturns, hserves⟩
    have hpos : 0 < s.objectBytes := by
      by_contra hzero
      exact hreturns .panic (newDevice_of_zero h (by omega))
    refine ⟨hpos, ?_⟩
    by_contra hdvd
    obtain ⟨r, hrun, hall⟩ := hserves _ _ (newDevice_of_empty h hpos hempty) [] (by simp)
    obtain rfl := Option.some.inj hrun
    exact not_transfersAll_of_tail (s := s) rfl rfl rfl (by simp) hpos hdvd hall
  refine ⟨honly, fun hkeeps => ⟨honly, ?_⟩⟩
  rintro ⟨hpos, hdvd⟩
  refine ⟨fun stop hstop => ?_, fun dev w' hnew =>
    serves_of_dvd hf h hempty hkeeps hpos hdvd hnew⟩
  rw [newDevice_of_empty h hpos hempty] at hstop
  cases hstop

lemma accepted_mem {totalBytes objectBytes : ℕ} (hle : objectBytes ≤ totalBytes)
    (hmax : totalBytes ≤ maxOffset) {quota : Option ℕ} {quotaBytes : ℤ}
    (hquota : quotaPermits quotaBytes totalBytes objectBytes = .ok quota) :
    (ObjRun.memSetup totalBytes objectBytes quotaBytes false).Accepted (memContainer ['c']) quota :=
  ⟨rfl, hquota, hle, hmax⟩

lemma listsNothing_mem : ListsNothing (memContainer ['c']) ObjRun.emptyWorld.store := by
  intro pre limit
  simp [memContainer, ObjRun.emptyWorld, MemStore.empty]

theorem newDevice_serves_iff_four_bytes :
    (ObjRun.memSetup 4 2 2 false).ServesAll ObjRun.emptyWorld ∧
      ¬ (ObjRun.memSetup 3 2 0 false).ServesAll ObjRun.emptyWorld := by
  have hfour := newDevice_serves_iff faultless_quietEnv
    (accepted_mem (show 2 ≤ 4 by decide) (by decide) (show quotaPermits 2 4 2 = _ from rfl))
    listsNothing_mem
  have hthree := newDevice_serves_iff faultless_quietEnv
    (accepted_mem (show 2 ≤ 3 by decide) (by decide) (show quotaPermits 0 3 2 = _ from rfl))
    listsNothing_mem
  exact ⟨(hfour.2 (.inr ⟨rfl, fun _ => rfl, memPlain ['c'], fun _ => rfl⟩)).mpr (by decide),
    fun h => absurd (hthree.1 h).2 (by decide)⟩

/-- Two thin-provisioned segments of one byte, of which one can be local. -/
def thinTwo : ObjSetup MemStore :=
  { ObjRun.memSetup 2 1 1 false with opts := ⟨1, .identity, 1, true, false, false, .identity, []⟩ }

/-- Objects of no bytes stop the construction; the last of three bytes in objects of two is not
there; and where a quota makes thin-provisioned segments go and come back, one of them does not. -/
theorem accepted_sizes_unserved :
    (match (ObjRun.memSetup 1 0 0 false).newDevice ObjRun.emptyWorld with
        | .error stop => some stop
        | .ok _ => none) = some .panic ∧
      (ObjRun.start (ObjRun.memSetup 3 2 0 false) ObjRun.emptyWorld).bind
        (fun r => r.answer [7] 2) = some ([7], 0, some ioEOF) ∧
      ((ObjRun.start thinTwo ObjRun.emptyWorld).bind fun r₀ =>
        (Machine.run (ObjRun.step thinTwo) r₀
          [.writeAt [1] 0, .writeAt [1] 1, .writeAt [2] 0, .writeAt [2] 1]).bind fun r =>
            (r.answer [7] 0).map fun res => (res.2.1, res.2.2.isSome)) = some (0, true) := by
  refine ⟨?_, ?_, ?_⟩ <;> decide +kernel

end ObjSetup

end Usbd

