import Usbd.Objstore.LruScan
import Usbd.Objstore.Quota

/-!
# What an eviction does

In every state that reads, writes and flushes lead to, an eviction gives up the local file of one
segment and keeps the disk: a clean segment's remote object has its bytes, and a dirty one is
uploaded before its file goes.  Which segment it takes may be the wrong one by age, but it is never
a dirty one while there is a clean one.
-/

namespace Usbd

open ListMemory Prog

variable {σ : Type} {sp : StoreParams σ} {w : World σ} {seg : Segment σ} {content disk : Bytes}

/-! ## The segment that is evicted -/

namespace Segment

/-- A `DeleteFile` that succeeds is a flush, if the segment is dirty, and behind it the removal. -/
lemma deleteFile_parts (hbacked : seg.backed = true) :
    Yields (seg.deleteFile sp) w fun r w' => r.2 = none →
      (seg.dirty = true → ∃ seg₁ w₁, seg.flush sp false w = .ok ((seg₁, none), w₁) ∧
        seg₁.dropFile sp w₁ = .ok (r, w')) ∧
      (seg.dirty = false → seg.dropFile sp w = .ok (r, w')) := by
  unfold deleteFile
  rw [if_pos hbacked]
  cases hdirty : seg.dirty with
  | false =>
    intro r w' hrun _
    exact ⟨fun h => by simp at h, fun _ => hrun⟩
  | true =>
    rw [if_pos rfl, yields_bind]
    rintro ⟨seg₁, err⟩ w₁ hflush r w' hrun hnone
    refine ⟨fun _ => ?_, fun h => by simp at h⟩
    cases err with
    | none => exact ⟨seg₁, w₁, hflush, hrun⟩
    | some e =>
      obtain ⟨ID, localFile, remoteItem, dirty, backed, lastRead, lastWrite⟩ := seg₁
      cases localFile with
      | none => cases hrun
      | some file =>
        obtain ⟨rfl, -⟩ := Prod.mk.inj (Except.ok.inj hrun)
        simp at hnone

/-- What a segment goes through when it is evicted: a dirty one is uploaded first, and its object
ends up with the bytes of its local file; a clean one touches nothing remote. -/
structure Evicted (sp : StoreParams σ) (law : Faithful sp.container) (w : World σ)
    (seg seg' : Segment σ) (w' : World σ) : Prop where
  backed : seg.backed = true
  localFile : seg.localFile ≠ none
  gone : seg'.backed = false ∧ seg'.localFile = none
  uploaded : seg.dirty = true → ∃ seg₁ w₁,
    seg.flush sp false w = .ok ((seg₁, none), w₁) ∧ seg₁.dropFile sp w₁ = .ok ((seg', none), w')
  object : ∃ content md, w.files (seg.name sp) = some content ∧
    law.objects w'.store (seg.name sp) = some ⟨content, md⟩
  untouched : seg.dirty = false → w'.store = w.store

lemma deleteFile_evicted {law : Plain sp.container} (hf : Faultless sp.env)
    (hinv : SegInv sp law.toFaithful w seg content) (hn : ¬ seg.Forgotten)
    (hbacked : seg.backed = true) (hheld : seg.holding sp ≤ w.held) :
    Returns (seg.deleteFile sp) w fun r w' => r.2 = none ∧
      SegStep sp law.toFaithful w seg content w' r.1 content ∧
      Evicted sp law.toFaithful w seg r.1 w' := by
  have hlocal : seg.localFile ≠ none := fun h => by simp [hinv.backed_eq, h] at hbacked
  refine ((deleteFile_segment hf.reliable hinv hn hheld).and_yields
    (deleteFile_parts hbacked)).mono fun r w' h => ?_
  obtain ⟨seg', err⟩ := r
  obtain ⟨⟨hstep, -, hgone, -, -, hgood⟩, hparts⟩ := h
  obtain rfl : err = none := hgood hf
  obtain ⟨hdirty, hclean⟩ := hparts rfl
  have hgone : seg'.localFile = none := hgone rfl
  have hunbacked : seg'.backed = false := by
    rw [hstep.inv.backed_eq, hgone, Option.isSome_none]
  refine ⟨rfl, hstep, ⟨hbacked, hlocal, ⟨hunbacked, hgone⟩, hdirty, ?_, fun hd => ?_⟩⟩
  · -- without its file the segment is stored only as an object, and stands for its bytes
    obtain ⟨file, hfile⟩ := Option.ne_none_iff_exists'.mp hlocal
    have hstored : seg'.remoteItem ≠ none :=
      (hstep.stored (.inl hlocal)).resolve_left fun h => h hgone
    obtain ⟨item, hitem⟩ := Option.ne_none_iff_exists'.mp hstored
    obtain ⟨md, hcur⟩ := (hstep.inv.synced_of_absent hgone).remote item hitem
    have hname : seg'.name sp = seg.name sp := by rw [name, hstep.id_eq]; rfl
    exact ⟨content, md, (hinv.opened file hfile).2, hname ▸ law.current_object hcur⟩
  · exact (@dropFile_foreign σ sp w (· = w.store) seg rfl _ _ (hclean hd)).2.2.2

end Segment

/-! ## The device -/

section Device

variable {law : Plain sp.container} {segments : List (Segment σ)} {forIdx k j : ℕ}

/-- A dirty segment is taken only where every backed segment is dirty. -/
lemma dirty_of_lruCandidate (hlru : lruCandidate segments forIdx = some k)
    (hk : segments[k]? = some seg) (hdirty : seg.dirty = true) {s : Segment σ} (hj : j ≠ forIdx)
    (hs : segments[j]? = some s) (hbacked : s.backed = true) : s.dirty = true := by
  obtain ⟨pre, post, hsplit, -⟩ := lruCandidate_eq_some_iff.mp hlru
  have hmem : k ∈ candidates segments forIdx := hsplit ▸ List.mem_append_cons_self
  obtain ⟨seg', hseg', -, hkind⟩ := isKind_iff.mp (mem_candidates.mp hmem).2
  obtain rfl := Option.some.inj (hk.symm.trans hseg')
  by_contra hclean
  have hclean : s.dirty = false := by simpa using hclean
  have hplace : j ∈ kindPlaces segments forIdx false (List.range segments.length) := by
    simp only [kindPlaces, List.mem_filter, List.mem_range, Bool.and_eq_true, decide_eq_true_eq]
    exact ⟨DevInv.lt hs, hj, isKind_iff.mpr ⟨s, hs, hbacked, hclean⟩⟩
  have hnone : takesDirty segments forIdx = true := hkind.symm.trans hdirty
  rw [takesDirty, List.isEmpty_iff] at hnone
  simp [hnone] at hplace

/-- **An eviction from a sound device** with another segment to take: it succeeds, takes one, gives
its permit back and keeps the disk. -/
lemma removeLeastRecentUsed_evicts (hf : Faultless sp.env)
    (h : DevSound sp law.toFaithful w segments disk) (hj : j ≠ forIdx)
    (hseg : segments[j]? = some seg) (hbacked : seg.backed = true) :
    ∃ k s s' w', removeLeastRecentUsed sp segments forIdx w = .ok ((segments.set k s', none), w') ∧
      lruCandidate segments forIdx = some k ∧ k ≠ forIdx ∧ segments[k]? = some s ∧
      s.Evicted sp law.toFaithful w s' w' ∧ w'.held + sp.permit = w.held ∧
      DevSound sp law.toFaithful w' (segments.set k s') disk := by
  obtain ⟨k, s, hk, hki, hsk, hbk⟩ := lruCandidate_spec hj hseg hbacked
  obtain ⟨⟨s', err⟩, w', hdelete, herr, hstep, hevicted⟩ := Segment.deleteFile_evicted hf
    (h.seg k s hsk).2 (h.kept s (List.mem_of_getElem? hsk)).not_forgotten hbk (h.holding_le hsk)
  obtain rfl : err = none := herr
  refine ⟨k, s, s', w', ?_, hk, hki, hsk, hevicted, ?_, h.step_same hsk hf hstep⟩
  · simp only [removeLeastRecentUsed, hk, hsk, bind_apply, hdelete]
    rfl
  · have hheld := hstep.held
    have hgone : s'.backed = false := hevicted.gone.1
    simpa [Segment.holding, hbk, hgone] using hheld

lemma readAt_of_room (hf : Faultless sp.env) (hs : sp.Sized) (hthick : sp.thickProvision = true)
    (hinv : SegInv sp law.toFaithful w seg content) (hroom : sp.Room w) {buf : Bytes} {pos : ℕ}
    (hle : pos + buf.length ≤ sp.segmentBytes) : Returns (seg.readAt sp buf pos) w fun r _ =>
      r.2 = (slice content pos buf.length, buf.length, none) := by
  refine (readAt_segment hf.reliable hs hinv (fun _ _ => .inl hthick) hle).mono fun r w' h => ?_
  rcases h with ⟨hres, -⟩ | ⟨-, hfull⟩
  · exact hres
  · exact absurd hroom hfull.no_room

/-- A read inside a segment returns its bytes or an error. -/
lemma readAt_or_error (hf : Faultless sp.env) (hs : sp.Sized) (hthick : sp.thickProvision = true)
    (hinv : SegInv sp law.toFaithful w seg content) {buf : Bytes} {pos : ℕ}
    (hle : pos + buf.length ≤ sp.segmentBytes) : Returns (seg.readAt sp buf pos) w fun r _ =>
      r.2.2.2 = none → r.2 = (slice content pos buf.length, buf.length, none) := by
  refine (readAt_segment hf.reliable hs hinv (fun _ _ => .inl hthick) hle).mono fun r w' h => ?_
  rcases h with ⟨hres, -⟩ | ⟨-, hfull⟩
  · exact fun _ => hres
  · obtain ⟨e, he, -⟩ := hfull.capacity
    intro hnone
    simp [hnone] at he

end Device

/-! ## Runs -/

/-- The call is not a write. -/
def ObjOp.Keeps : ObjOp → Prop
  | .writeAt _ _ => False
  | _ => True

namespace ObjRun

variable {s : ObjSetup σ} {law : Plain sp.container} {r r' : ObjRun σ}

/-- Calls other than writes keep the disk. -/
lemma live_run_keeps (hg : s.Gives sp) (hf : Faultless s.env)
    (hthick : s.opts.thickProvision = true) {ops : List ObjOp}
    (hops : ∀ op ∈ ops, op.InRange s.totalBytes ∧ op.Keeps) (h : r.Live s sp law disk) :
    ∃ r', Machine.run (step s) r ops = some r' ∧ r'.Live s sp law disk := by
  induction ops generalizing r with
  | nil => exact ⟨r, rfl, h⟩
  | cons op ops ih =>
    obtain ⟨hin, hkeeps⟩ := hops op List.mem_cons_self
    obtain ⟨r₁, disk₁, hstep, h₁, hiff⟩ := live_step hg hf hthick h hin
    have hsame : applied disk op = disk ∧ r.Safe op := by
      cases op with
      | writeAt => exact hkeeps.elim
      | readAt => exact ⟨rfl, trivial⟩
      | flush => exact ⟨rfl, trivial⟩
      | reopen => exact ⟨rfl, trivial⟩
    obtain rfl : disk₁ = disk := (hiff.mp hsame.2).trans hsame.1
    obtain ⟨r', hrun, h'⟩ := ih (fun op' hop' => hops op' (List.mem_cons_of_mem op hop')) h₁
    exact ⟨r', Machine.run_cons_eq_some.mpr ⟨r₁, hstep, hrun⟩, h'⟩

/-- Two devices answer every read inside the device alike. -/
def SameAnswers (r r' : ObjRun σ) (size : ℕ) : Prop :=
  ∀ (buf : Bytes) (pos : ℕ), pos + buf.length ≤ size → ∃ result d w d' w',
    r.dev.readAt buf pos r.world = .ok ((d, result), w) ∧
      r'.dev.readAt buf pos r'.world = .ok ((d', result), w')

lemma Live.sameAnswers (hg : s.Gives sp) (hf : Faultless s.env)
    (hthick : s.opts.thickProvision = true) (h : r.Live s sp law disk)
    (h' : r'.Live s sp law disk) : r.SameAnswers r' s.totalBytes := by
  intro buf pos hin
  have hpos : pos ≤ s.totalBytes := by omega
  obtain ⟨r₁, hrun, -⟩ := live_readAt hg hf hthick h buf hpos
  obtain ⟨r₁', hrun', -⟩ := live_readAt hg hf hthick h' buf hpos
  exact ⟨_, _, _, _, _, hrun, hrun'⟩

/-- What an eviction takes and what it leaves.  The file of one segment goes, uploaded before that
if it is dirty, which it is only where no clean one is backed; one permit comes back; and every
segment reads as before. -/
structure EvictsOne (sp : StoreParams σ) (law : Plain sp.container) (segments : List (Segment σ))
    (w : World σ) (forIdx : ℕ) (segments' : List (Segment σ)) (w' : World σ) : Prop where
  one : ∃ k seg seg', k ≠ forIdx ∧ segments[k]? = some seg ∧ segments' = segments.set k seg' ∧
    seg.Evicted sp law.toFaithful w seg' w' ∧
    (seg.dirty = true → ∀ j s, j ≠ forIdx → segments[j]? = some s → s.backed = true →
      s.dirty = true)
  held : w'.held + 1 = w.held
  reads : ∀ (i : ℕ) seg seg' (buf : Bytes) (pos : ℕ), segments[i]? = some seg →
    segments'[i]? = some seg' → pos + buf.length ≤ sp.segmentBytes → ∃ bytes,
      Returns (seg.readAt sp buf pos) w (fun res _ =>
        res.2.2.2 = none → res.2 = (bytes, buf.length, none)) ∧
      Returns (seg'.readAt sp buf pos) w' fun res _ => res.2 = (bytes, buf.length, none)

/-- **Eviction is content-preserving and minimal.**  Over a plain container that stores a disk,
after every run of calls inside a thick-provisioned device with a quota, and for every `forIdx` with
another backed segment: an eviction succeeds, takes one segment and leaves what every segment reads;
and after any further calls but writes the device answers every read as it would have without. -/
theorem eviction_keeps_contents (s : ObjSetup σ) (w : World σ) (r₀ : ObjRun σ)
    (hopen : start s w = some r₀) (law : Plain r₀.dev.params.container)
    (hthick : s.opts.thickProvision = true) (hquota : r₀.dev.params.quotaSema ≠ none)
    (hf : Faultless s.env) (hmax : s.totalBytes ≤ maxOffset) (disk : Bytes)
    (hstored : StoredDisk r₀.dev.params law.toFaithful w.store s.count disk)
    (hcache : ∀ i, i < s.count → r₀.dev.params.CacheOf w.files
      (r₀.dev.params.itemName (itoa i)) (segSlice r₀.dev.params disk i))
    (ops : List ObjOp) (hops : ∀ op ∈ ops, op.InRange s.totalBytes) (r : ObjRun σ)
    (hrun : Machine.run (step s) r₀ ops = some r) (forIdx j : ℕ) (seg : Segment σ)
    (hj : j ≠ forIdx) (hseg : r.dev.segments[j]? = some seg) (hbacked : seg.backed = true) :
    r.dev.params = r₀.dev.params ∧ ∃ segments' w',
      removeLeastRecentUsed r₀.dev.params r.dev.segments forIdx r.world =
        .ok ((segments', none), w') ∧
      EvictsOne r₀.dev.params law r.dev.segments r.world forIdx segments' w' ∧
      ∀ ops', (∀ op ∈ ops', op.InRange s.totalBytes ∧ op.Keeps) → ∃ r₁ r₂,
        Machine.run (step s) r ops' = some r₁ ∧
        Machine.run (step s) ⟨{ r.dev with segments := segments' }, w'⟩ ops' = some r₂ ∧
        r₁.SameAnswers r₂ s.totalBytes := by
  have hg := gives_of_start hopen hmax
  obtain ⟨_, hr, hlive⟩ := start_live hg hstored hcache
  obtain rfl := Option.some.inj (hopen.symm.trans hr)
  obtain ⟨_, disk', hr', hlive'⟩ := live_run hg hf hthick hops hlive
  obtain rfl := Option.some.inj (hrun.symm.trans hr')
  obtain ⟨hparams, htotal, hlen, hshut, hsound⟩ := hlive'
  have hf' := hg.env_eq ▸ hf
  have hthick' := hg.thickProvision_eq.trans hthick
  obtain ⟨k, sk, sk', w', hevict, hlru, hk, hsk, hevicted, hheld, hsound'⟩ :=
    removeLeastRecentUsed_evicts hf' hsound hj hseg hbacked
  -- the quota makes the permit one, and the eviction leaves one free
  obtain ⟨permits, hpermits⟩ := Option.ne_none_iff_exists'.mp hquota
  rw [StoreParams.permit, hpermits, Option.isSome_some, if_pos rfl] at hheld
  have hroom : r₀.dev.params.Room w' := by
    intro p hp
    have hcap := hsound.cap p hp
    omega
  refine ⟨hparams, _, w', hevict, ⟨?_, hheld, ?_⟩, ?_⟩
  · refine ⟨k, sk, sk', hk, hsk, rfl, hevicted, fun hdirty i si hi hsi hbi => ?_⟩
    exact dirty_of_lruCandidate hlru hsk hdirty hi hsi hbi
  · intro i si si' buf pos hsi hsi' hle
    refine ⟨slice (segSlice r₀.dev.params disk' i) pos buf.length, ?_, ?_⟩
    · exact readAt_or_error hf' hg.sized hthick' (hsound.seg i si hsi).2 hle
    · exact readAt_of_room hf' hg.sized hthick' (hsound'.seg i si' hsi').2 hroom hle
  · intro ops' hops'
    obtain ⟨r₁, hr₁, hlive₁⟩ := live_run_keeps hg hf hthick hops'
      ⟨hparams, htotal, hlen, hshut, hsound⟩
    obtain ⟨r₂, hr₂, hlive₂⟩ := live_run_keeps hg hf hthick hops'
      (r := ⟨{ r.dev with segments := r.dev.segments.set k sk' }, w'⟩)
      ⟨hparams, htotal, List.length_set.trans hlen, hshut, hsound'⟩
    exact ⟨r₁, r₂, hr₁, hr₂, hlive₁.sameAnswers hg hf hthick hlive₂⟩

theorem eviction_keeps_contents_two_segments :
    ∃ r segments' w', Machine.run (step (memSetup 2 1 1 true)) (memTwo true)
        [.writeAt [1] 0] = some r ∧
      removeLeastRecentUsed (memTwo true).dev.params r.dev.segments 1 r.world =
        .ok ((segments', none), w') ∧
      EvictsOne (memTwo true).dev.params (memPlain ['c']) r.dev.segments r.world 1
        segments' w' := by
  have hends : (Machine.run (step (memSetup 2 1 1 true)) (memTwo true)
      [.writeAt [1] 0]).any (fun r => r.dev.segments[0]?.any Segment.backed) = true := by
    decide +kernel
  obtain ⟨r, hrun, hfirst⟩ := (Option.any_eq_true _ _).mp hends
  obtain ⟨seg, hseg, hbacked⟩ := (Option.any_eq_true _ _).mp hfirst
  obtain ⟨-, segments', w', hevict, hone, -⟩ := eviction_keeps_contents (memSetup 2 1 1 true)
    emptyWorld (memTwo true) rfl (memPlain ['c']) rfl (by decide) faultless_quietEnv (by decide)
    (zeros 2) (storedDisk_zeros 2 fun _ _ => rfl) (fun _ _ => ⟨Or.inl rfl, fun _ => rfl⟩)
    [.writeAt [1] 0] (by simp [ObjOp.InRange, memSetup]) r hrun 1 0 seg (by decide) hseg hbacked
  exact ⟨r, segments', w', hrun, hevict, hone⟩

end ObjRun

end Usbd
