import Usbd.Objstore.SegmentSpec
import Usbd.Objstore.ObjDevice

/-!
# The device as one array of bytes

`DevInv` ties the segments of a device to one array, the disk: each segment stands for its own
slice of it, and the permits of the quota are accounted for by the segments that have a local
file.  One call of one segment keeps it (`DevInv.step`), and the calls of the device are sequences
of such calls.

`DevSound` adds that no upload has failed and that the container has no objects under the device's
prefix but those of its segments.  Without faults the calls of the device keep it, and
they succeed: an access that finds no permit evicts one other segment, and then finds one.  What a
read returns is the disk.  A write changes it as it should exactly when the zero shortcut is never
taken over bytes that are not zero; `zeroSafe` says so, piece by piece along the loop of `ioAt`.
-/

namespace Usbd

open ListMemory Prog

variable {σ : Type} {sp : StoreParams σ} {w w' : World σ} {segments : List (Segment σ)}
  {disk : Bytes} {i : ℕ} {seg seg' : Segment σ}

/-- The bytes of one segment. -/
abbrev segSlice (sp : StoreParams σ) (disk : Bytes) (i : ℕ) : Bytes :=
  slice disk (i * sp.segmentBytes) sp.segmentBytes

/-- The segments stand for the slices of the disk. -/
structure DevInv (sp : StoreParams σ) (law : Faithful sp.container) (w : World σ)
    (segments : List (Segment σ)) (disk : Bytes) : Prop where
  length_eq : disk.length = segments.length * sp.segmentBytes
  seg : ∀ i seg, segments[i]? = some seg → seg.ID = i ∧ SegInv sp law w seg (segSlice sp disk i)
  held_eq : w.held = (segments.map (Segment.holding sp)).sum
  cap : ∀ permits, sp.quotaSema = some permits → w.held ≤ permits

/-- The objects under the device's prefix are those of its segments. -/
def NoStray (sp : StoreParams σ) (law : Faithful sp.container) (st : σ) (count : ℕ) : Prop :=
  ∀ n, sp.itemPrefix <+: n → law.objects st n ≠ none → ∃ i, i < count ∧ n = sp.itemName (itoa i)

/-- The segments stand for the slices of the disk, no upload has failed, and there are no other
objects. -/
structure DevSound (sp : StoreParams σ) (law : Faithful sp.container) (w : World σ)
    (segments : List (Segment σ)) (disk : Bytes) : Prop extends DevInv sp law w segments disk where
  kept : ∀ seg ∈ segments, Kept sp law w seg
  noStray : NoStray sp law w.store segments.length

/-! ## One segment at a time -/

lemma sum_map_set {α : Type*} (f : α → ℕ) {l : List α} {i : ℕ} {b : α} (h : l[i]? = some b)
    (a : α) : ((l.set i a).map f).sum + f b = (l.map f).sum + f a := by
  induction l generalizing i with
  | nil => simp at h
  | cons x l ih =>
    cases i with
    | zero =>
      obtain rfl : x = b := by simpa using h
      simp only [List.set_cons_zero, List.map_cons, List.sum_cons]
      omega
    | succ i =>
      have := ih (show l[i]? = some b by simpa using h)
      simp only [List.set_cons_succ, List.map_cons, List.sum_cons]
      omega

/-- A lookup after an update finds the new entry at its place, and elsewhere what was there. -/
lemma getElem?_set_cases {α : Type*} {l : List α} {i j : ℕ} {a b : α}
    (h : (l.set i a)[j]? = some b) : i = j ∧ a = b ∨ j ≠ i ∧ l[j]? = some b := by
  rw [List.getElem?_set] at h
  split_ifs at h with hij
  · exact .inl ⟨hij, Option.some.inj h⟩
  · exact .inr ⟨Ne.symm hij, h⟩

lemma NoStray.frame {law : Faithful sp.container} {count : ℕ} (h : NoStray sp law w.store count)
    (hi : i < count) {name : GoString} (hname : name = sp.itemName (itoa i))
    (hframe : Frame sp law name w w') : NoStray sp law w'.store count := by
  intro n hn ho
  by_cases hni : n = name
  · exact ⟨i, hi, hni.trans hname⟩
  · rw [hframe.objects n hni] at ho
    exact h n hn ho

lemma segment_end_le (sp : StoreParams σ) {i n : ℕ} (hi : i < n) :
    i * sp.segmentBytes + sp.segmentBytes ≤ n * sp.segmentBytes := by
  rw [← Nat.succ_mul]
  exact Nat.mul_le_mul_right _ hi

/-- Segments do not overlap. -/
lemma segSlice_overwrite_of_ne {buf : Bytes} {pos j count : ℕ}
    (hdisk : disk.length = count * sp.segmentBytes) (hj : j < count) (hne : j ≠ i)
    (hle : pos + buf.length ≤ sp.segmentBytes) :
    segSlice sp (overwrite 0 disk (i * sp.segmentBytes + pos) buf) j = segSlice sp disk j := by
  have hend := segment_end_le sp hj
  refine slice_overwrite_of_disjoint 0 (by omega) ?_
  rcases Nat.lt_or_gt_of_ne hne with hlt | hgt
  · have := segment_end_le sp hlt
    omega
  · have := segment_end_le sp hgt
    omega

section Steps

variable {law : Faithful sp.container}

lemma DevInv.lt (h : segments[i]? = some seg) : i < segments.length :=
  (List.getElem?_eq_some_iff.mp h).1

lemma DevInv.slice_le (h : DevInv sp law w segments disk) (hi : i < segments.length) :
    i * sp.segmentBytes + sp.segmentBytes ≤ disk.length :=
  h.length_eq ▸ segment_end_le sp hi

lemma DevInv.step (h : DevInv sp law w segments disk) (hseg : segments[i]? = some seg)
    {disk' : Bytes} (hlen : disk'.length = disk.length)
    (hothers : ∀ j, j < segments.length → j ≠ i → segSlice sp disk' j = segSlice sp disk j)
    (hstep : SegStep sp law w seg (segSlice sp disk i) w' seg' (segSlice sp disk' i)) :
    DevInv sp law w' (segments.set i seg') disk' := by
  obtain ⟨hid, -⟩ := h.seg i seg hseg
  have hi : i < segments.length := DevInv.lt hseg
  refine ⟨by rw [hlen, h.length_eq, List.length_set], fun j segj hj => ?_, ?_, fun p hq => ?_⟩
  · rcases getElem?_set_cases hj with ⟨rfl, rfl⟩ | ⟨hij, hj⟩
    · exact ⟨hstep.id_eq.trans hid, hstep.inv⟩
    · obtain ⟨hidj, hinvj⟩ := h.seg j segj hj
      rw [hothers j (DevInv.lt hj) hij]
      exact ⟨hidj, hinvj.frame hstep.frame (Segment.apart_name hidj hid hij)⟩
  · have hsum := sum_map_set (Segment.holding sp) hseg seg'
    have := hstep.held
    have := h.held_eq
    omega
  · exact hstep.cap p hq (h.cap p hq)

lemma DevInv.step_same (h : DevInv sp law w segments disk) (hseg : segments[i]? = some seg)
    (hstep : SegStep sp law w seg (segSlice sp disk i) w' seg' (segSlice sp disk i)) :
    DevInv sp law w' (segments.set i seg') disk :=
  h.step hseg rfl (fun _ _ _ => rfl) hstep

lemma DevInv.step_write (h : DevInv sp law w segments disk) (hseg : segments[i]? = some seg)
    {buf : Bytes} {pos : ℕ} (hle : pos + buf.length ≤ sp.segmentBytes)
    (hstep : SegStep sp law w seg (segSlice sp disk i) w' seg'
      (overwrite 0 (segSlice sp disk i) pos buf)) :
    DevInv sp law w' (segments.set i seg')
      (overwrite 0 disk (i * sp.segmentBytes + pos) buf) := by
  have hi := h.slice_le (DevInv.lt hseg)
  refine h.step hseg (length_overwrite_of_le 0 (by omega)) (fun j hj hne => ?_) ?_
  · exact segSlice_overwrite_of_ne h.length_eq hj hne hle
  · rw [show segSlice sp (overwrite 0 disk (i * sp.segmentBytes + pos) buf) i =
      overwrite 0 (segSlice sp disk i) pos buf from slice_overwrite_within 0 hle hi]
    exact hstep

/-- Without faults a call of one segment forgets none of them and leaves no other object. -/
lemma DevSound.of_step (h : DevSound sp law w segments disk) (hseg : segments[i]? = some seg)
    (hf : Faultless sp.env) {disk' c c' : Bytes} (hstep : SegStep sp law w seg c w' seg' c')
    (hinv : DevInv sp law w' (segments.set i seg') disk') :
    DevSound sp law w' (segments.set i seg') disk' := by
  obtain ⟨hid, -⟩ := h.seg i seg hseg
  refine ⟨hinv, ?_, ?_⟩
  · intro s hs
    obtain ⟨j, hj⟩ := List.getElem?_of_mem hs
    rcases getElem?_set_cases hj with ⟨rfl, rfl⟩ | ⟨hij, hj⟩
    · exact hstep.kept hf (h.kept seg (List.mem_of_getElem? hseg))
    · exact (h.kept s (List.mem_of_getElem? hj)).frame hstep.frame
        (Segment.apart_name (h.seg j s hj).1 hid hij)
  · rw [List.length_set]
    exact h.noStray.frame (DevInv.lt hseg) (by rw [Segment.name, hid]) hstep.frame

lemma DevSound.step_same (h : DevSound sp law w segments disk) (hseg : segments[i]? = some seg)
    (hf : Faultless sp.env)
    (hstep : SegStep sp law w seg (segSlice sp disk i) w' seg' (segSlice sp disk i)) :
    DevSound sp law w' (segments.set i seg') disk :=
  h.of_step hseg hf hstep (h.toDevInv.step_same hseg hstep)

lemma DevInv.holding_le (h : DevInv sp law w segments disk) (hseg : segments[i]? = some seg) :
    seg.holding sp ≤ w.held := by
  rw [h.held_eq]
  exact List.le_sum_of_mem (List.mem_map_of_mem (List.mem_of_getElem? hseg))

end Steps

/-! ## Eviction -/

/-- A choice of a segment with a local file, other than the one room is made for. -/
def Candidate (segments : List (Segment σ)) (forIdx : ℕ) (best : Option (ℕ × ℤ)) : Prop :=
  ∀ j t, best = some (j, t) → j ≠ forIdx ∧ ∃ seg, segments[j]? = some seg ∧ seg.backed = true

lemma Candidate.pickOlder {forIdx j : ℕ} {best : Option (ℕ × ℤ)}
    (h : Candidate segments forIdx best) (hj : j ≠ forIdx) (hseg : segments[j]? = some seg)
    (hb : seg.backed = true) (t : ℤ) : Candidate segments forIdx (pickOlder best j t) := by
  have hnew : Candidate segments forIdx (some (j, t)) := by
    intro k u hk
    obtain ⟨rfl, rfl⟩ := Prod.mk.inj (Option.some.inj hk)
    exact ⟨hj, seg, hseg, hb⟩
  unfold Usbd.pickOlder
  cases best with
  | none => exact hnew
  | some b =>
    obtain ⟨k, u⟩ := b
    simp only
    split_ifs
    · exact hnew
    · exact h

lemma isSome_pickOlder (best : Option (ℕ × ℤ)) (j : ℕ) (t : ℤ) :
    (pickOlder best j t).isSome = true := by
  unfold pickOlder
  cases best with
  | none => rfl
  | some b =>
    obtain ⟨k, u⟩ := b
    simp only
    split_ifs <;> rfl

/-- The scan chooses among the segments with a local file, and finds one if there is one. -/
lemma lruScan_spec {forIdx : ℕ} {rest : List (Segment σ)} {k : ℕ} (hrest : segments.drop k = rest)
    {clean dirty : Option (ℕ × ℤ)} (hc : Candidate segments forIdx clean)
    (hd : Candidate segments forIdx dirty) :
    Candidate segments forIdx (lruScan forIdx rest k clean dirty).1 ∧
      Candidate segments forIdx (lruScan forIdx rest k clean dirty).2 ∧
      (clean.isSome = true ∨ dirty.isSome = true ∨
          (∃ j seg, k ≤ j ∧ j ≠ forIdx ∧ segments[j]? = some seg ∧ seg.backed = true) →
        (lruScan forIdx rest k clean dirty).1.isSome = true ∨
          (lruScan forIdx rest k clean dirty).2.isSome = true) := by
  induction rest generalizing k clean dirty with
  | nil =>
    refine ⟨hc, hd, ?_⟩
    rintro (h | h | ⟨j, seg, hk, -, hseg, -⟩)
    · exact Or.inl h
    · exact Or.inr h
    · have := DevInv.lt hseg
      have := List.drop_eq_nil_iff.mp hrest
      omega
  | cons x rest ih =>
    have hx : segments[k]? = some x := by
      have := congrArg (fun l => l[0]?) hrest
      simpa using this
    have hnext : segments.drop (k + 1) = rest := by
      have := congrArg (List.drop 1) hrest
      simpa [List.drop_drop] using this
    -- a segment that is passed over is the one the room is for, or not backed
    unfold lruScan
    split_ifs with hskip hdirty
    · obtain ⟨h1, h2, h3⟩ := ih hnext hc hd
      refine ⟨h1, h2, fun h => h3 ?_⟩
      rcases h with h | h | ⟨j, seg, hk, hj, hseg, hb⟩
      · exact Or.inl h
      · exact Or.inr (Or.inl h)
      · refine Or.inr (Or.inr ⟨j, seg, ?_, hj, hseg, hb⟩)
        rcases Nat.lt_or_eq_of_le hk with hlt | rfl
        · exact hlt
        · obtain rfl : x = seg := Option.some.inj (hx.symm.trans hseg)
          simp [hb, hj] at hskip
    all_goals
      obtain ⟨hk, hb⟩ : k ≠ forIdx ∧ x.backed = true := by simpa using hskip
    · obtain ⟨h1, h2, h3⟩ := ih hnext hc (hd.pickOlder hk hx hb x.lastOp)
      exact ⟨h1, h2, fun _ => h3 (Or.inr (Or.inl (isSome_pickOlder _ _ _)))⟩
    · obtain ⟨h1, h2, h3⟩ := ih hnext (hc.pickOlder hk hx hb x.lastOp) hd
      exact ⟨h1, h2, fun _ => h3 (Or.inl (isSome_pickOlder _ _ _))⟩

lemma lruCandidate_spec {forIdx j : ℕ} (hj : j ≠ forIdx) (hseg : segments[j]? = some seg)
    (hb : seg.backed = true) : ∃ k seg, lruCandidate segments forIdx = some k ∧ k ≠ forIdx ∧
      segments[k]? = some seg ∧ seg.backed = true := by
  have hnone : Candidate segments forIdx none := fun _ _ h => by simp at h
  obtain ⟨hc, hd, hsome⟩ := lruScan_spec (@List.drop_zero _ segments) hnone hnone
  have hsome := hsome (Or.inr (Or.inr ⟨j, seg, Nat.zero_le _, hj, hseg, hb⟩))
  unfold lruCandidate
  cases hscan : lruScan forIdx segments 0 none none with
  | mk clean dirty =>
    rw [hscan] at hc hd hsome
    simp only
    cases clean with
    | some b =>
      obtain ⟨hk, seg, h⟩ := hc b.1 b.2 rfl
      exact ⟨b.1, seg, rfl, hk, h⟩
    | none =>
      obtain ⟨b, rfl⟩ := Option.isSome_iff_exists.mp (hsome.resolve_left (by simp))
      obtain ⟨hk, seg, h⟩ := hd b.1 b.2 rfl
      exact ⟨b.1, seg, rfl, hk, h⟩

/-- When all permits are held, another segment than one without a local file holds one. -/
lemma exists_backed (hs : sp.Sized) (hroom : ¬ sp.Room w)
    (hheld : w.held = (segments.map (Segment.holding sp)).sum)
    (hseg : segments[i]? = some seg) (hback : seg.backed = false) :
    ∃ j s, j ≠ i ∧ segments[j]? = some s ∧ s.backed = true := by
  obtain ⟨permits, hq, hle⟩ := StoreParams.not_room_iff.mp hroom
  have hpos := hs.permits_pos permits hq
  by_contra hnone
  push Not at hnone
  have hzero : (segments.map (Segment.holding sp)).sum = 0 := by
    refine List.sum_eq_zero fun n hn => ?_
    obtain ⟨s, hs, rfl⟩ := List.mem_map.mp hn
    obtain ⟨j, hj⟩ := List.getElem?_of_mem hs
    have hb : s.backed = false := by
      by_cases hij : j = i
      · subst hij
        obtain rfl : s = seg := Option.some.inj (hj.symm.trans hseg)
        exact hback
      · simpa using hnone j s hij hj
    simp [Segment.holding, hb]
  omega

section Evict

variable {law : Plain sp.container}

/-- Without faults evicting a segment makes room, and leaves the disk and the segment room is made
for. -/
lemma removeLeastRecentUsed_spec (hf : Faultless sp.env) (hs : sp.Sized)
    (h : DevSound sp law.toFaithful w segments disk) (hroom : ¬ sp.Room w)
    (hseg : segments[i]? = some seg) (hfile : seg.localFile = none) :
    Returns (removeLeastRecentUsed sp segments i) w fun r w' =>
      r.2 = none ∧ DevSound sp law.toFaithful w' r.1 disk ∧ r.1[i]? = some seg ∧
        r.1.length = segments.length ∧ sp.Room w' := by
  have hback : seg.backed = false := by
    rw [(h.seg i seg hseg).2.backed_eq, hfile, Option.isSome_none]
  obtain ⟨j, s, hj, hsj, hbj⟩ := exists_backed hs hroom h.held_eq hseg hback
  obtain ⟨k, s, hk, hki, hsk, hbk⟩ := lruCandidate_spec hj hsj hbj
  simp only [removeLeastRecentUsed, hk, hsk, returns_bind]
  have hinv := (h.seg k s hsk).2
  refine (deleteFile_segment hf.reliable hinv (h.kept s (List.mem_of_getElem? hsk)).not_forgotten
    (h.holding_le hsk)).mono fun r w₁ h₁ => ?_
  obtain ⟨s₁, err⟩ := r
  obtain ⟨hstep, -, hgone, -, -, hgood⟩ := h₁
  obtain rfl : err = none := hgood hf
  have hgone : s₁.localFile = none := hgone rfl
  simp only [returns_pure]
  refine ⟨trivial, h.step_same hsk hf hstep, ?_,
    List.length_set, fun permits hq => ?_⟩
  · rw [List.getElem?_set_ne hki]
    exact hseg
  · -- the permit of the evicted segment is back
    have hheld := hstep.held
    have hcap := h.cap permits hq
    have hb₁ : s₁.backed = false := by
      have := hstep.inv.backed_eq
      rwa [hgone] at this
    simp only [Segment.holding, hbk, hb₁, if_true, Bool.false_eq_true, if_false,
      StoreParams.permit, hq, Option.isSome_some] at hheld
    omega

end Evict

/-! ## Reading and writing -/

/-- The disk after an access to one segment. -/
def accessed (sp : StoreParams σ) (readOp : Bool) (seg : Segment σ) (disk : Bytes) (i pos : ℕ)
    (segBuf : Bytes) : Bytes :=
  if readOp = true ∨ seg.Skips segBuf then disk
  else overwrite 0 disk (i * sp.segmentBytes + pos) segBuf

section Access

variable {law : Plain sp.container}

/-- One try of an access: it is done, or there is no permit for it. -/
lemma segmentOp_spec (hf : Faultless sp.env) (hs : sp.Sized) (hthick : sp.thickProvision = true)
    (h : DevSound sp law.toFaithful w segments disk) (hseg : segments[i]? = some seg)
    (readOp : Bool) {pos : ℕ} {segBuf : Bytes} (hbuf : segBuf ≠ [])
    (hle : pos + segBuf.length ≤ sp.segmentBytes) :
    Returns (segmentOp sp readOp seg segBuf pos) w fun r w' =>
      r.2 = (if readOp then slice disk (i * sp.segmentBytes + pos) segBuf.length else segBuf,
          segBuf.length, none) ∧
        DevSound sp law.toFaithful w' (segments.set i r.1)
          (accessed sp readOp seg disk i pos segBuf) ∨
      r.2.1 = segBuf ∧ seg.localFile = none ∧ ¬ sp.Room w ∧ ¬ sp.Room w' ∧
        (∃ e, r.2.2.2 = some e ∧ e.is errCapacityClaim = true) ∧
        r.1 = { seg with lastRead := r.1.lastRead, lastWrite := r.1.lastWrite } ∧
        DevSound sp law.toFaithful w' (segments.set i r.1) disk := by
  have hinv := (h.seg i seg hseg).2
  -- without room the call fails before it has changed more than a time
  have hfull : ∀ w₁ seg₁ err,
      Full sp law.toFaithful w seg (segSlice sp disk i) w₁ seg₁ err →
      seg.localFile = none ∧ ¬ sp.Room w ∧ ¬ sp.Room w₁ ∧
        (∃ e, err = some e ∧ e.is errCapacityClaim = true) ∧
        seg₁ = { seg with lastRead := seg₁.lastRead, lastWrite := seg₁.lastWrite } ∧
        DevSound sp law.toFaithful w₁ (segments.set i seg₁) disk := by
    intro w₁ seg₁ err hfull
    refine ⟨hfull.absent, hfull.no_room, ?_, hfull.capacity, hfull.touched,
      h.step_same hseg hf hfull.step⟩
    have := hfull.no_room
    rwa [StoreParams.Room, hfull.held]
  cases readOp with
  | true =>
    simp only [segmentOp, if_true, accessed, true_or]
    refine (readAt_segment hf.reliable hs hinv (fun _ _ => Or.inl hthick) hle).mono
      fun r w₁ h₁ => ?_
    rcases h₁ with ⟨hr, hstep⟩ | ⟨hr, hno⟩
    · refine Or.inl ⟨?_, h.step_same hseg hf hstep⟩
      rw [hr, slice_slice disk hle]
    · exact Or.inr ⟨hr, hfull w₁ r.1 _ hno⟩
  | false =>
    simp only [segmentOp, Bool.false_eq_true, if_false, returns_bind, false_or, returns_pure,
      accessed]
    refine (writeAt_segment hf.reliable hs hinv (fun _ => Or.inl hthick) hbuf hle).mono
      fun r w₁ h₁ => ?_
    rcases h₁ with ⟨hr, hstep, -⟩ | ⟨-, hno⟩
    · refine Or.inl ⟨by simp [hr], ?_⟩
      unfold Segment.written at hstep
      split_ifs at hstep ⊢ with hskip
      · exact h.step_same hseg hf hstep
      · exact h.of_step hseg hf hstep (h.step_write hseg hle hstep)
    · exact Or.inr ⟨trivial, hfull w₁ r.1 _ hno⟩

/-- The inner loop of `ioAt` accesses the segment, after one eviction at the most. -/
lemma accessSegment_spec (hf : Faultless sp.env) (hs : sp.Sized)
    (hthick : sp.thickProvision = true) (h : DevSound sp law.toFaithful w segments disk)
    (hseg : segments[i]? = some seg) (readOp : Bool) {pos : ℕ} {segBuf : Bytes}
    (hbuf : segBuf ≠ []) (hle : pos + segBuf.length ≤ sp.segmentBytes) (tries : ℕ) :
    Returns (accessSegment sp readOp i pos (tries + 1) segments segBuf) w fun r w' =>
      r.2 = (if readOp then slice disk (i * sp.segmentBytes + pos) segBuf.length else segBuf,
          segBuf.length, none) ∧
        DevSound sp law.toFaithful w' r.1 (accessed sp readOp seg disk i pos segBuf) ∧
        r.1.length = segments.length := by
  have hi := DevInv.lt hseg
  unfold accessSegment
  simp only [hseg, returns_bind]
  refine (segmentOp_spec hf hs hthick h hseg readOp hbuf hle).mono fun r w₁ h₁ => ?_
  obtain ⟨seg₁, got, count, err⟩ := r
  rcases h₁ with ⟨hr, hsound⟩ | ⟨hgot, hfile, -, hroom, ⟨e, rfl, he⟩, htouched, hsound⟩
  · obtain ⟨rfl, rfl, rfl⟩ : got = _ ∧ count = _ ∧ err = none := by simpa using hr
    simp only [returns_pure]
    exact ⟨trivial, hsound, List.length_set⟩
  -- no permit: evict another segment and try again
  obtain rfl : segBuf = got := hgot.symm
  simp only at htouched hsound
  have hseg₁ : (segments.set i seg₁)[i]? = some seg₁ := by simp [hi]
  have hfile₁ : seg₁.localFile = none := by
    rw [htouched]
    exact hfile
  simp only [he, if_true, returns_bind]
  refine (removeLeastRecentUsed_spec hf hs hsound hroom hseg₁ hfile₁).mono fun r w₂ h₂ => ?_
  obtain ⟨segments₂, err⟩ := r
  obtain ⟨rfl, hsound₂, hseg₂, hlen₂, hroom₂⟩ := h₂
  simp only at hsound₂ hseg₂ hlen₂ ⊢
  rw [List.length_set] at hlen₂
  have hsame : accessed sp readOp seg₁ disk i pos segBuf =
      accessed sp readOp seg disk i pos segBuf := by
    simp only [accessed, Segment.Skips, hfile, hfile₁]
  unfold accessSegment
  simp only [hseg₂, returns_bind]
  refine (segmentOp_spec hf hs hthick hsound₂ hseg₂ readOp hbuf hle).mono fun r w₃ h₃ => ?_
  obtain ⟨seg₃, got, count, err⟩ := r
  rcases h₃ with ⟨hr, hsound₃⟩ | ⟨-, -, hfull, -⟩
  · obtain ⟨rfl, rfl, rfl⟩ : got = _ ∧ count = _ ∧ err = none := by simpa using hr
    simp only [returns_pure]
    refine ⟨trivial, ?_, by rw [List.length_set, hlen₂]⟩
    rw [← hsame]
    exact hsound₃
  · exact absurd hroom₂ hfull

/-- Rule for the inner loop: what the calls of the segment and the evictions keep, it keeps. -/
lemma yields_accessSegment {readOp : Bool} {i : ℕ} {pos : ℤ}
    {I : List (Segment σ) → Bytes → World σ → Prop} {N : ℕ → Prop}
    (hcall : ∀ {segments buf w seg}, I segments buf w → segments[i]? = some seg →
      Yields (segmentOp sp readOp seg buf pos) w fun r w₁ =>
        I (segments.set i r.1) r.2.1 w₁ ∧ (r.2.2.2 = none → N r.2.2.1))
    (hevict : ∀ {segments buf w}, I segments buf w →
      Yields (removeLeastRecentUsed sp segments i) w fun r w₁ => I r.1 buf w₁)
    (tries : ℕ) {buf : Bytes} (h : I segments buf w) :
    Yields (accessSegment sp readOp i pos tries segments buf) w fun r w' =>
      I r.1 r.2.1 w' ∧ (r.2.2.2 = none → N r.2.2.1) := by
  induction tries using Nat.strong_induction_on generalizing w segments buf with
  | _ tries ih =>
  unfold accessSegment
  cases hseg : segments[i]? with
  | none => exact yields_stop _
  | some seg =>
    simp only [yields_bind]
    refine (hcall h hseg).mono fun r w₁ h₁ => ?_
    obtain ⟨seg₁, got, count, err⟩ := r
    cases err with
    | none => exact (yields_pure _).mpr h₁
    | some e =>
      cases tries with
      | zero => exact (yields_pure _).mpr ⟨h₁.1, by simp⟩
      | succ tries =>
        simp only
        split_ifs
        · rw [yields_bind]
          refine (hevict h₁.1).mono fun r w₂ h₂ => ?_
          obtain ⟨segments₂, rmErr⟩ := r
          cases rmErr with
          | some e => exact (yields_pure _).mpr ⟨h₂, by simp⟩
          | none => exact ih tries (Nat.lt_succ_self _) h₂
        · exact (yields_pure _).mpr ⟨h₁.1, by simp⟩

/-- The piece of the rest of a buffer that goes to the next segment. -/
def piece (sp : StoreParams σ) (pos : ℤ) (rest : Bytes) : Bytes :=
  if rest.length > sp.segmentBytes - pos then rest.take (sp.segmentBytes - pos).toNat else rest

lemma piece_natCast {pos : ℕ} (hpos : pos ≤ sp.segmentBytes) (rest : Bytes) :
    piece sp pos rest = rest.take (sp.segmentBytes - pos) := by
  have htoNat : ((sp.segmentBytes : ℤ) - pos).toNat = sp.segmentBytes - pos := by omega
  rw [piece]
  split_ifs with hlong
  · rw [htoNat]
  · rw [List.take_of_length_le (by omega)]

variable {readOp : Bool} {rounds segID totalRead : ℕ} {rest : Bytes}
  {Q : List (Segment σ) × Bytes × ℕ × Option GoError → World σ → Prop}

/-- A round of the outer loop at any position: the access to the segment, and the rounds after it or
the way out with its error. -/
lemma returns_ioLoop {pos : ℤ} (hrest : rest ≠ []) (hid : segID < segments.length)
    (hfits : (sp.segmentBytes : ℤ) - pos ≤ maxOffset)
    (h : Returns (accessSegment sp readOp segID pos maxCapTries segments (piece sp pos rest)) w
      fun r w₁ =>
        (r.2.2.2 = none → Returns (ioLoop sp readOp rounds r.1 (segID + 1) 0 (totalRead + r.2.2.1)
          (rest.drop r.2.2.1)) w₁ fun r' w₂ => Q (r'.1, r.2.1.take r.2.2.1 ++ r'.2.1, r'.2.2) w₂) ∧
        ∀ e, r.2.2.2 = some e →
          Q (r.1, r.2.1 ++ rest.drop (piece sp pos rest).length, r.2.2.1, some e) w₁) :
    Returns (ioLoop sp readOp (rounds + 1) segments segID pos totalRead rest) w Q := by
  rw [ioLoop, if_neg hrest, if_neg (by omega)]
  simp only [if_neg (not_lt.mpr hfits), returns_bind]
  refine h.mono fun r w₁ h₁ => ?_
  obtain ⟨segments₁, got, count, err⟩ := r
  obtain ⟨hnone, hsome⟩ := h₁
  cases err with
  | none =>
    simp only [returns_bind, returns_pure]
    exact hnone rfl
  | some e =>
    rw [returns_pure]
    exact hsome e rfl

/-- A round inside the segment. -/
lemma ioLoop_succ {pos : ℕ} (hrest : rest ≠ []) (hid : segID < segments.length)
    (hpos : pos ≤ sp.segmentBytes) (hmax : sp.segmentBytes ≤ maxOffset)
    (h : Returns (accessSegment sp readOp segID pos maxCapTries segments
        (rest.take (sp.segmentBytes - pos))) w fun r w₁ =>
      (r.2.2.2 = none → Returns (ioLoop sp readOp rounds r.1 (segID + 1) 0 (totalRead + r.2.2.1)
        (rest.drop r.2.2.1)) w₁ fun r' w₂ => Q (r'.1, r.2.1.take r.2.2.1 ++ r'.2.1, r'.2.2) w₂) ∧
      ∀ e, r.2.2.2 = some e → Q (r.1, r.2.1 ++
        rest.drop (rest.take (sp.segmentBytes - pos)).length, r.2.2.1, some e) w₁) :
    Returns (ioLoop sp readOp (rounds + 1) segments segID pos totalRead rest) w Q :=
  returns_ioLoop hrest hid (by omega) (by rwa [piece_natCast hpos])

/-- The part of the rest a round has not covered. -/
lemma drop_length_take (rest : Bytes) (n : ℕ) : rest.drop (rest.take n).length = rest.drop n := by
  rw [List.length_take]
  rcases Nat.le_total n rest.length with hle | hle
  · rw [Nat.min_eq_left hle]
  · rw [Nat.min_eq_right hle, List.drop_length, List.drop_eq_nil_of_le hle]

/-- One round of the outer loop, when the access to the segment succeeds. -/
lemma ioLoop_round {pos : ℕ} (hrest : rest ≠ []) (hid : segID < segments.length)
    (hpos : pos ≤ sp.segmentBytes) (hmax : sp.segmentBytes ≤ maxOffset)
    (h : Returns (accessSegment sp readOp segID pos maxCapTries segments
        (rest.take (sp.segmentBytes - pos))) w fun r w₁ =>
      r.2.2 = ((rest.take (sp.segmentBytes - pos)).length, none) ∧
        Returns (ioLoop sp readOp rounds r.1 (segID + 1) 0
          (totalRead + (rest.take (sp.segmentBytes - pos)).length)
          (rest.drop (sp.segmentBytes - pos))) w₁ fun r' w₂ =>
          Q (r'.1, r.2.1.take (rest.take (sp.segmentBytes - pos)).length ++ r'.2.1, r'.2.2) w₂) :
    Returns (ioLoop sp readOp (rounds + 1) segments segID pos totalRead rest) w Q := by
  refine ioLoop_succ hrest hid hpos hmax (h.mono fun r w₁ h₁ => ?_)
  obtain ⟨segments₁, got, count, err⟩ := r
  obtain ⟨hr, h₁⟩ := h₁
  obtain ⟨rfl, rfl⟩ := Prod.mk.inj (show (count, err) = _ from hr)
  refine ⟨fun _ => ?_, fun e he => by simp at he⟩
  simp only [drop_length_take]
  exact h₁

/-- Where a round leaves off: the piece lies in its segment, and the rest begins with the next. -/
lemma piece_range {sb pos : ℕ} (segID : ℕ) (hpos : pos < sb) (hrest : rest ≠ []) :
    rest.take (sb - pos) ≠ [] ∧ pos + (rest.take (sb - pos)).length ≤ sb ∧
      (rest.drop (sb - pos) = [] ∨
        (segID + 1) * sb + 0 = segID * sb + pos + (rest.take (sb - pos)).length) := by
  have hlt := List.length_pos_iff_ne_nil.mpr hrest
  refine ⟨?_, ?_, ?_⟩
  · rw [← List.length_pos_iff_ne_nil, List.length_take]
    omega
  · rw [List.length_take]
    omega
  · rw [List.drop_eq_nil_iff, List.length_take, Nat.add_mul]
    omega

/-- The bytes of `n` segments from a place on. -/
def bytesLeft (sp : StoreParams σ) (n segID pos : ℕ) : ℕ :=
  n * sp.segmentBytes - (segID * sp.segmentBytes + pos)

lemma bytesLeft_of_lt {segID pos n : ℕ} (hpos : pos < sp.segmentBytes) (hid : segID < n) :
    bytesLeft sp n segID pos = (sp.segmentBytes - pos) + bytesLeft sp n (segID + 1) 0 := by
  have hnext := segment_end_le sp hid
  rw [bytesLeft, bytesLeft, Nat.add_mul]
  omega

/-- The part of the buffer that has segments to go to, and the part behind them, round by round. -/
lemma piece_avail {segID pos n : ℕ} (rest : Bytes) (hpos : pos < sp.segmentBytes)
    (hid : segID < n) :
    rest.take (bytesLeft sp n segID pos) = rest.take (sp.segmentBytes - pos) ++
        (rest.drop (sp.segmentBytes - pos)).take (bytesLeft sp n (segID + 1) 0) ∧
      rest.drop (bytesLeft sp n segID pos) =
        (rest.drop (sp.segmentBytes - pos)).drop (bytesLeft sp n (segID + 1) 0) := by
  rw [bytesLeft_of_lt hpos hid]
  exact ⟨List.take_add, (List.drop_drop ..).symm⟩

lemma ioLoop_nil (readOp : Bool) (rounds segID : ℕ) (pos : ℤ) (totalRead : ℕ) :
    ioLoop sp readOp rounds segments segID pos totalRead [] =
      pure (segments, [], totalRead, none) := by
  cases rounds <;> simp [ioLoop]

/-- Without rounds, the outer loop is at the end of the buffer or reports the end of the device. -/
lemma returns_ioLoop_stop {pos : ℤ} (hstop : rounds = 0 ∨ rest = [] ∨ segments.length ≤ segID)
    (hnil : rest = [] → Q (segments, [], totalRead, none) w)
    (hend : rest ≠ [] → Q (segments, rest, totalRead, some ioEOF) w) :
    Returns (ioLoop sp readOp rounds segments segID pos totalRead rest) w Q := by
  by_cases hrest : rest = []
  · rw [hrest, ioLoop_nil, returns_pure]
    exact hnil hrest
  rcases rounds with - | rounds <;> unfold ioLoop <;> rw [if_neg hrest]
  · split_ifs <;> exact (returns_pure _).mpr (hend hrest)
  · rw [if_pos (by simpa [hrest] using hstop), returns_pure]
    exact hend hrest

/-- The outer loop ends at the end of the buffer or behind the last segment. -/
lemma ioLoop_done {pos : ℕ} (h : rest = [] ∨ segments.length ≤ segID) :
    ioLoop sp readOp rounds segments segID pos totalRead rest = pure (segments,
        rest.drop (bytesLeft sp segments.length segID pos),
        totalRead + (rest.take (bytesLeft sp segments.length segID pos)).length,
        if rest.drop (bytesLeft sp segments.length segID pos) = [] then none else some ioEOF) ∧
      rest.take (bytesLeft sp segments.length segID pos) = [] := by
  by_cases hrest : rest = []
  · subst hrest
    simp [ioLoop_nil]
  · have hid := h.resolve_left hrest
    have hzero : bytesLeft sp segments.length segID pos = 0 := by
      have := Nat.mul_le_mul_right sp.segmentBytes hid
      rw [bytesLeft]
      omega
    rw [hzero]
    cases rounds <;> simp [ioLoop, hrest, hid]

/-- What reading the rest of a buffer returns: what the segments have of it is the disk, and behind
them the buffer is left and the end reported. -/
def readResult (sp : StoreParams σ) (n : ℕ) (disk : Bytes) (segID pos totalRead : ℕ)
    (rest : Bytes) : Bytes × ℕ × Option GoError :=
  (slice disk (segID * sp.segmentBytes + pos) rest.length ++ rest.drop (bytesLeft sp n segID pos),
    totalRead + (rest.take (bytesLeft sp n segID pos)).length,
    if rest.drop (bytesLeft sp n segID pos) = [] then none else some ioEOF)

lemma ioLoop_read_done {pos : ℕ} (h : DevSound sp law.toFaithful w segments disk)
    (hdone : rest = [] ∨ segments.length ≤ segID) :
    Returns (ioLoop sp true rounds segments segID pos totalRead rest) w fun r w' =>
      r.2 = readResult sp segments.length disk segID pos totalRead rest ∧
        DevSound sp law.toFaithful w' r.1 disk ∧ r.1.length = segments.length := by
  obtain ⟨hloop, htake⟩ := ioLoop_done hdone
  have hslice : slice disk (segID * sp.segmentBytes + pos) rest.length = [] := by
    rw [← List.length_eq_zero_iff, length_slice, h.length_eq]
    have := congrArg List.length htake
    rw [List.length_take, List.length_nil, bytesLeft, Nat.min_comm] at this
    exact this
  rw [hloop, returns_pure, readResult, hslice]
  exact ⟨rfl, h, rfl⟩

lemma ioLoop_read (hf : Faultless sp.env) (hs : sp.Sized) (hthick : sp.thickProvision = true)
    {pos : ℕ} (h : DevSound sp law.toFaithful w segments disk)
    (hrounds : segments.length ≤ segID + rounds) (hpos : pos < sp.segmentBytes) :
    Returns (ioLoop sp true rounds segments segID pos totalRead rest) w fun r w' =>
      r.2 = readResult sp segments.length disk segID pos totalRead rest ∧
        DevSound sp law.toFaithful w' r.1 disk ∧ r.1.length = segments.length := by
  induction rounds generalizing w segments segID pos totalRead rest with
  | zero => exact ioLoop_read_done h (Or.inr hrounds)
  | succ rounds ih =>
    by_cases hdone : rest = [] ∨ segments.length ≤ segID
    · exact ioLoop_read_done h hdone
    obtain ⟨hrest, hid⟩ := not_or.mp hdone
    obtain ⟨hne, hin, hadj⟩ := piece_range segID hpos hrest
    have hid : segID < segments.length := Nat.lt_of_not_le hid
    obtain ⟨seg, hseg⟩ : ∃ seg, segments[segID]? = some seg :=
      ⟨_, List.getElem?_eq_some_iff.mpr ⟨hid, rfl⟩⟩
    refine ioLoop_round hrest hid hpos.le hs.le_max ?_
    refine (accessSegment_spec hf hs hthick h hseg true hne hin _).mono fun r w₁ h₁ => ?_
    obtain ⟨segments₁, got, count, err⟩ := r
    obtain ⟨hr, hsound, hlen⟩ := h₁
    simp only [if_true, Prod.mk.injEq] at hr
    obtain ⟨rfl, rfl, rfl⟩ := hr
    simp only [accessed, true_or, if_true] at hsound hlen
    refine ⟨rfl, (ih hsound (by omega) hs.pos).mono fun r w₂ h₂ => ?_⟩
    obtain ⟨hr, hsound₂, hlen₂⟩ := h₂
    refine ⟨?_, hsound₂, hlen₂.trans hlen⟩
    obtain ⟨htake, hdrop⟩ := piece_avail rest hpos hid
    have hsplit : (rest.take (sp.segmentBytes - pos)).length +
        (rest.drop (sp.segmentBytes - pos)).length = rest.length := by
      rw [← List.length_append, List.take_append_drop]
    have hpiece : (slice disk (segID * sp.segmentBytes + pos)
        (rest.take (sp.segmentBytes - pos)).length).length =
        (rest.take (sp.segmentBytes - pos)).length := by
      have := h.slice_le hid
      exact length_slice_of_le (by omega)
    have hnext : slice disk ((segID + 1) * sp.segmentBytes + 0)
        (rest.drop (sp.segmentBytes - pos)).length =
        slice disk (segID * sp.segmentBytes + pos + (rest.take (sp.segmentBytes - pos)).length)
          (rest.drop (sp.segmentBytes - pos)).length := by
      rcases hadj with hnil | hadj
      · simp [hnil]
      · rw [hadj]
    rw [hr, hlen, List.take_of_length_le hpiece.le]
    simp only [readResult, htake, hdrop, hnext, List.length_append]
    rw [← List.append_assoc, slice_append_slice, hsplit, Nat.add_assoc]

/-! ### Writes and the zero shortcut -/

/-- The zero shortcut is not taken, or the remote object has zeros where they would be written. -/
def Segment.WriteSafe (w : World σ) (seg : Segment σ) (buf : Bytes) (pos : ℕ) : Prop :=
  seg.Skips buf → ∀ item rdr, seg.remoteItem = some item → item.openItem w.store = .ok rdr →
    isZeros (slice rdr.data pos buf.length) = true

/-- Along the outer loop of a write, each piece is safe to write when its turn comes. -/
def zeroSafe (sp : StoreParams σ) : ℕ → List (Segment σ) → ℕ → ℕ → Bytes → World σ → Prop
  | 0, _, _, _, _, _ => True
  | rounds + 1, segments, segID, pos, rest, w =>
    rest ≠ [] →
      (∀ seg, segments[segID]? = some seg →
        seg.WriteSafe w (rest.take (sp.segmentBytes - pos)) pos) ∧
      ∀ r w', accessSegment sp false segID pos maxCapTries segments
          (rest.take (sp.segmentBytes - pos)) w = .ok (r, w') →
        zeroSafe sp rounds r.1 (segID + 1) 0 (rest.drop (sp.segmentBytes - pos)) w'

/-- A piece is safe exactly when the write leaves it on the disk. -/
lemma writeSafe_iff (h : DevSound sp law.toFaithful w segments disk)
    (hseg : segments[i]? = some seg) {pos : ℕ} {buf : Bytes}
    (hle : pos + buf.length ≤ sp.segmentBytes) :
    seg.WriteSafe w buf pos ↔ accessed sp false seg disk i pos buf =
      overwrite 0 disk (i * sp.segmentBytes + pos) buf := by
  have hinv := (h.seg i seg hseg).2
  have hend := h.slice_le (DevInv.lt hseg)
  simp only [accessed, Bool.false_eq_true, false_or]
  split_ifs with hskip
  · obtain ⟨hzeros, hfile⟩ := hskip
    have hbuf : buf = zeros buf.length := isZeros_iff_eq_zeros.mp hzeros
    have hslice : slice (segSlice sp disk i) pos buf.length =
        slice disk (i * sp.segmentBytes + pos) buf.length := slice_slice disk hle
    -- leaving the disk alone is right where it has the zeros already
    have hdisk : disk = overwrite 0 disk (i * sp.segmentBytes + pos) buf ↔
        isZeros (slice (segSlice sp disk i) pos buf.length) = true := by
      rw [hslice, isZeros_iff_eq_zeros, length_slice_of_le (by omega), ← hbuf]
      constructor
      · intro heq
        have := slice_overwrite_self 0 disk (i * sp.segmentBytes + pos) buf
        rwa [← heq] at this
      · intro heq
        exact (overwrite_eq_self 0 (by omega) heq).symm
    rw [hdisk]
    obtain ⟨hrem, hz⟩ := hinv.synced_of_absent hfile
    constructor
    · intro hsafe
      cases hitem : seg.remoteItem with
      | none =>
        rw [hz hitem, zeros, slice_replicate 0 hle]
        exact isZeros_zeros _
      | some item =>
        obtain ⟨md, hcur⟩ := hrem item hitem
        exact hsafe ⟨hzeros, hfile⟩ item _ hitem (law.current_open hcur)
    · intro hsl _ item rdr hitem hopen
      obtain ⟨md, hcur⟩ := hrem item hitem
      obtain rfl := Except.ok.inj (hopen.symm.trans (law.current_open hcur))
      exact hsl
  · exact ⟨fun _ => rfl, fun _ hs => absurd hs hskip⟩

/-- What a write of the rest of a buffer has left on the disk: nothing before its place has changed,
and what the segments take of it is there exactly when it was safe to write. -/
def WroteFrom (sp : StoreParams σ) (n : ℕ) (disk disk' : Bytes) (segID pos : ℕ) (rest : Bytes)
    (safe : Prop) : Prop :=
  (∀ q n, q + n ≤ segID * sp.segmentBytes + pos → slice disk' q n = slice disk q n) ∧
    (safe ↔ disk' = overwrite 0 disk (segID * sp.segmentBytes + pos)
      (rest.take (bytesLeft sp n segID pos)))

lemma ioLoop_write_done {pos : ℕ} (h : DevSound sp law.toFaithful w segments disk)
    (hdone : rest = [] ∨ segments.length ≤ segID) :
    Returns (ioLoop sp false rounds segments segID pos totalRead rest) w fun r w' =>
      r.2.2 = (readResult sp segments.length disk segID pos totalRead rest).2 ∧
        r.1.length = segments.length ∧
        ∃ disk', DevSound sp law.toFaithful w' r.1 disk' ∧
          WroteFrom sp segments.length disk disk' segID pos rest
            (zeroSafe sp rounds segments segID pos rest w) := by
  have hsafe : zeroSafe sp rounds segments segID pos rest w := by
    cases rounds with
    | zero => trivial
    | succ rounds =>
      intro hrest
      have hnone : segments[segID]? = none :=
        List.getElem?_eq_none (hdone.resolve_left hrest)
      refine ⟨fun seg hseg => ?_, fun r w' hr => ?_⟩
      · rw [hnone] at hseg
        cases hseg
      · unfold accessSegment at hr
        simp only [hnone] at hr
        cases hr
  obtain ⟨hloop, htake⟩ := ioLoop_done hdone
  rw [hloop, returns_pure]
  refine ⟨rfl, rfl, disk, h, fun _ _ _ => rfl, ?_⟩
  rw [htake, overwrite_nil]
  exact ⟨fun _ => rfl, fun _ => hsafe⟩

lemma ioLoop_write (hf : Faultless sp.env) (hs : sp.Sized) (hthick : sp.thickProvision = true)
    {pos : ℕ} (h : DevSound sp law.toFaithful w segments disk)
    (hrounds : segments.length ≤ segID + rounds) (hpos : pos < sp.segmentBytes) :
    Returns (ioLoop sp false rounds segments segID pos totalRead rest) w fun r w' =>
      r.2.2 = (readResult sp segments.length disk segID pos totalRead rest).2 ∧
        r.1.length = segments.length ∧
        ∃ disk', DevSound sp law.toFaithful w' r.1 disk' ∧
          WroteFrom sp segments.length disk disk' segID pos rest
            (zeroSafe sp rounds segments segID pos rest w) := by
  induction rounds generalizing w segments segID pos totalRead rest disk with
  | zero => exact ioLoop_write_done h (Or.inr hrounds)
  | succ rounds ih =>
    by_cases hdone : rest = [] ∨ segments.length ≤ segID
    · exact ioLoop_write_done h hdone
    obtain ⟨hrest, hid⟩ := not_or.mp hdone
    obtain ⟨hne, hin, hadj⟩ := piece_range segID hpos hrest
    have hid : segID < segments.length := Nat.lt_of_not_le hid
    obtain ⟨seg, hseg⟩ : ∃ seg, segments[segID]? = some seg :=
      ⟨_, List.getElem?_eq_some_iff.mpr ⟨hid, rfl⟩⟩
    refine ioLoop_round hrest hid hpos.le hs.le_max ?_
    obtain ⟨r, w₁, hrun, hr, hsound, hlen⟩ :=
      accessSegment_spec hf hs hthick h hseg false hne hin 9
    refine ⟨r, w₁, hrun, congrArg Prod.snd hr, ?_⟩
    refine (ih hsound (by omega) hs.pos).mono fun r' w₂ h₂ => ?_
    obtain ⟨hr', hlen₂, disk₂, hsound₂, hbefore, hiff⟩ := h₂
    obtain ⟨htake, hdrop⟩ := piece_avail rest hpos hid
    have hend : segID * sp.segmentBytes + pos + (rest.take (sp.segmentBytes - pos)).length ≤
        (segID + 1) * sp.segmentBytes + 0 := by
      rw [Nat.add_mul]
      omega
    have hm : accessed sp false seg disk segID pos (rest.take (sp.segmentBytes - pos)) = disk ∨
        accessed sp false seg disk segID pos (rest.take (sp.segmentBytes - pos)) = overwrite 0 disk
          (segID * sp.segmentBytes + pos) (rest.take (sp.segmentBytes - pos)) := by
      unfold accessed
      split_ifs <;> simp
    refine ⟨?_, hlen₂.trans hlen, disk₂, hsound₂, fun q n hq => ?_, ?_⟩
    · rw [hr', hlen]
      simp only [readResult, htake, hdrop, List.length_append, Nat.add_assoc]
    · rw [hbefore q n (by omega)]
      rcases hm with hm | hm
      · rw [hm]
      · have := h.slice_le hid
        rw [hm, slice_overwrite_of_disjoint 0 (by omega) (Or.inl hq)]
    · -- the piece and the rest of the buffer, each safe or not
      rw [hlen] at hiff
      set tail := (rest.drop (sp.segmentBytes - pos)).take
        (bytesLeft sp segments.length (segID + 1) 0) with htail
      have hbehind : ∀ d : Bytes, overwrite 0 d ((segID + 1) * sp.segmentBytes + 0) tail =
          overwrite 0 d (segID * sp.segmentBytes + pos +
            (rest.take (sp.segmentBytes - pos)).length) tail := by
        intro d
        rcases hadj with hnil | hadj
        · rw [htail, hnil, List.take_nil, overwrite_nil, overwrite_nil]
        · rw [hadj]
      have hfits : segID * sp.segmentBytes + pos +
          (rest.take (sp.segmentBytes - pos) ++ tail).length ≤ disk.length := by
        rw [← htake, h.length_eq, List.length_take, bytesLeft]
        have := h.slice_le hid
        rw [h.length_eq] at this
        omega
      have htwo := overwrite_append_iff 0 hfits hm (hbefore _ _ hend)
      rw [← writeSafe_iff h hseg hin, ← hbehind, ← hiff, ← htake] at htwo
      rw [← htwo]
      simp only [zeroSafe]
      constructor
      · intro hsafe
        exact ⟨(hsafe hrest).1 seg hseg, (hsafe hrest).2 r w₁ hrun⟩
      · rintro ⟨hpiece, htail⟩ -
        refine ⟨fun s hsg => ?_, fun r'' w'' hrun' => ?_⟩
        · obtain rfl := Option.some.inj (hseg.symm.trans hsg)
          exact hpiece
        · obtain ⟨rfl, rfl⟩ := Prod.mk.inj (Except.ok.inj (hrun.symm.trans hrun'))
          exact htail

end Access

/-! ### The calls of the device -/

/-- What a read of the device returns: the bytes of the disk, and at its end a short count. -/
def diskRead (disk buf : Bytes) (pos : ℕ) : Bytes × ℕ × Option GoError :=
  (slice disk pos buf.length ++ buf.drop (disk.length - pos), (buf.take (disk.length - pos)).length,
    if buf.drop (disk.length - pos) = [] then none else some ioEOF)

lemma diskRead_of_le {buf : Bytes} {pos : ℕ} (h : pos + buf.length ≤ disk.length) :
    diskRead disk buf pos = (slice disk pos buf.length, buf.length, none) := by
  have hdrop : buf.drop (disk.length - pos) = [] := List.drop_eq_nil_of_le (by omega)
  rw [diskRead, hdrop, List.take_of_length_le (by omega), List.append_nil, if_pos rfl]

/-- Every piece of a write is safe to write when its turn comes. -/
def ObjDevice.ZeroSafe (dev : ObjDevice σ) (buf : Bytes) (pos : ℕ) (w : World σ) : Prop :=
  zeroSafe dev.params dev.segments.length dev.segments (pos / dev.params.segmentBytes)
    (pos % dev.params.segmentBytes) buf w

section Device

variable {dev : ObjDevice σ}

/-- The segment a position lies in, and the place there. -/
lemma place_eq (sb pos : ℕ) :
    (pos : ℤ).tdiv sb = ((pos / sb : ℕ) : ℤ) ∧
      (pos : ℤ) - (pos : ℤ).tdiv sb * sb = ((pos % sb : ℕ) : ℤ) := by
  have hdiv : (pos : ℤ).tdiv sb = ((pos / sb : ℕ) : ℤ) := by
    rw [Int.tdiv_eq_ediv_of_nonneg (Int.natCast_nonneg pos)]
    exact (Int.natCast_ediv pos sb).symm
  refine ⟨hdiv, ?_⟩
  have hmod := congrArg (Nat.cast : ℕ → ℤ) (Nat.div_add_mod' pos sb)
  rw [hdiv]
  push_cast at hmod ⊢
  omega

/-- A write is `ioAt` without the buffer. -/
lemma ObjDevice.writeAt_eq_map (dev : ObjDevice σ) (buf : Bytes) (pos : ℤ) (w : World σ) :
    dev.writeAt buf pos w = (dev.ioAt false buf pos w).map fun r => ((r.1.1, r.1.2.2), r.2) := by
  rw [ObjDevice.writeAt, Prog.bind_apply]
  cases dev.ioAt false buf pos w <;> rfl

/-- Inside the device `ioAt` is its outer loop. -/
lemma returns_ioAt (hopen : dev.shutdown = false) (hpos : 0 < dev.params.segmentBytes)
    (readOp : Bool) {buf : Bytes} {pos : ℕ} (hin : pos ≤ dev.totalBytes)
    {Q : ObjDevice σ × Bytes × ℕ × Option GoError → World σ → Prop}
    (h : Returns (ioLoop dev.params readOp dev.segments.length dev.segments
      (pos / dev.params.segmentBytes) ((pos % dev.params.segmentBytes : ℕ) : ℤ) 0 buf) w
      fun r w' => Q ({ dev with segments := r.1 }, r.2) w') :
    Returns (dev.ioAt readOp buf pos) w Q := by
  have hpast : ¬ ((pos : ℤ) > dev.totalBytes) := by omega
  simp only [ObjDevice.ioAt, hopen, Bool.false_eq_true, if_false, hpast, hpos.ne']
  by_cases hbuf : buf = []
  · subst hbuf
    rw [ioLoop_nil, returns_pure] at h
    rw [if_pos rfl, returns_pure]
    exact h
  · obtain ⟨hid, hplace⟩ := place_eq dev.params.segmentBytes pos
    have hneg : ¬ (((pos / dev.params.segmentBytes : ℕ) : ℤ) < 0) :=
      not_lt.mpr (Int.natCast_nonneg _)
    rw [if_neg hbuf, hplace, hid, if_neg hneg, Int.toNat_natCast, returns_bind]
    refine h.mono fun r w' hq => ?_
    rw [returns_pure]
    simpa only [hopen] using hq

lemma readResult_eq {n : ℕ} (hdisk : disk.length = n * sp.segmentBytes) (buf : Bytes) (pos : ℕ) :
    readResult sp n disk (pos / sp.segmentBytes) (pos % sp.segmentBytes) 0 buf =
      diskRead disk buf pos := by
  rw [readResult, diskRead, bytesLeft, Nat.div_add_mod', ← hdisk, Nat.zero_add]

variable {law : Plain dev.params.container}

lemma readAt_device (hf : Faultless dev.params.env) (hs : dev.params.Sized)
    (hthick : dev.params.thickProvision = true) (hopen : dev.shutdown = false)
    (h : DevSound dev.params law.toFaithful w dev.segments disk) (buf : Bytes) {pos : ℕ}
    (hin : pos ≤ dev.totalBytes) :
    Returns (dev.readAt buf pos) w fun r w' =>
      r.2 = diskRead disk buf pos ∧ ∃ segments, r.1 = { dev with segments } ∧
        segments.length = dev.segments.length ∧
        DevSound dev.params law.toFaithful w' segments disk := by
  refine returns_ioAt hopen hs.pos true hin ?_
  refine (ioLoop_read hf hs hthick h (Nat.le_add_left _ _) (Nat.mod_lt _ hs.pos)).mono
    fun r w' h' => ?_
  obtain ⟨hr, hsound, hlen⟩ := h'
  rw [readResult_eq h.length_eq] at hr
  exact ⟨hr, r.1, rfl, hlen, hsound⟩

/-- A write to the device is on the disk exactly when it was safe. -/
lemma writeAt_device (hf : Faultless dev.params.env) (hs : dev.params.Sized)
    (hthick : dev.params.thickProvision = true) (hopen : dev.shutdown = false)
    (h : DevSound dev.params law.toFaithful w dev.segments disk) (buf : Bytes) {pos : ℕ}
    (hin : pos ≤ dev.totalBytes) :
    Returns (dev.writeAt buf pos) w fun r w' =>
      r.2 = (diskRead disk buf pos).2 ∧ ∃ segments disk', r.1 = { dev with segments } ∧
        segments.length = dev.segments.length ∧
        DevSound dev.params law.toFaithful w' segments disk' ∧
        (dev.ZeroSafe buf pos w ↔
          disk' = overwrite 0 disk pos (buf.take (disk.length - pos))) := by
  rw [ObjDevice.writeAt, returns_bind]
  refine returns_ioAt hopen hs.pos false hin ?_
  refine (ioLoop_write hf hs hthick h (Nat.le_add_left _ _) (Nat.mod_lt _ hs.pos)).mono
    fun r w' h' => ?_
  obtain ⟨hr, hlen, disk', hsound, -, hiff⟩ := h'
  rw [readResult_eq h.length_eq] at hr
  rw [bytesLeft, Nat.div_add_mod', ← h.length_eq] at hiff
  simp only [returns_pure]
  exact ⟨hr, r.1, disk', rfl, hlen, hsound, hiff⟩

end Device

end Usbd
