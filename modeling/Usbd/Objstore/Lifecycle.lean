import Usbd.Objstore.DeviceSpec

/-!
# Flushing, closing and opening a device

`flush` leaves every segment clean; without an error none of them is newly forgotten.  `close`
flushes and, without cache persistence, gives the local files up.  What is then in the container is
the disk (`StoredDisk`): the objects of the device have the bytes of their segments, and a segment
without one is all zeros.  `newDevice` over such a container is a device that stands for that disk.
-/

namespace Usbd

open ListMemory Prog

variable {σ : Type} {sp : StoreParams σ} {w w' : World σ} {segments : List (Segment σ)}
  {disk : Bytes}

/-- Segments that were stored still are. -/
def KeepsStored (segments segments' : List (Segment σ)) : Prop :=
  ∀ (i : ℕ) (seg' : Segment σ), segments'[i]? = some seg' →
    ∃ seg, segments[i]? = some seg ∧ (seg.Stored → seg'.Stored)

lemma KeepsStored.refl : KeepsStored segments segments := fun _ seg' h => ⟨seg', h, fun hst => hst⟩

lemma KeepsStored.trans {segments₁ segments₂ segments₃ : List (Segment σ)}
    (h : KeepsStored segments₁ segments₂) (h' : KeepsStored segments₂ segments₃) :
    KeepsStored segments₁ segments₃ := by
  intro i seg₃ h₃
  obtain ⟨seg₂, h₂, hst₂⟩ := h' i seg₃ h₃
  obtain ⟨seg₁, h₁, hst₁⟩ := h i seg₂ h₂
  exact ⟨seg₁, h₁, fun hst => hst₂ (hst₁ hst)⟩

lemma KeepsStored.set {i : ℕ} {seg seg' : Segment σ} (hseg : segments[i]? = some seg)
    (hst : seg.Stored → seg'.Stored) : KeepsStored segments (segments.set i seg') := by
  intro j segj hj
  rcases getElem?_set_cases hj with ⟨rfl, rfl⟩ | ⟨-, hj⟩
  · exact ⟨seg, hseg, hst⟩
  · exact ⟨segj, hj, fun h => h⟩

/-! ## Flushing -/

section Flushing

variable {law : Plain sp.container}

/-- What a round of flushes does to the segments: they are clean if they were or had their turn,
and without an error those not forgotten before are not forgotten now. -/
def Flushed (order : List ℕ) (segments segments' : List (Segment σ))
    (err : Option GoError) : Prop :=
  ∀ i seg', segments'[i]? = some seg' → ∃ seg, segments[i]? = some seg ∧
    (seg'.dirty = true → seg.dirty = true ∧ i ∉ order) ∧
    (err = none → seg'.Forgotten → seg.Forgotten)

lemma flushLoop_spec {order : List ℕ} {err : Option GoError}
    (h : DevInv sp law.toFaithful w segments disk) (horder : ∀ i ∈ order, i < segments.length) :
    Returns (ObjDevice.flushLoop sp order segments err) w fun r w' =>
      DevInv sp law.toFaithful w' r.1 disk ∧ r.1.length = segments.length ∧
        Flushed order segments r.1 r.2 ∧ (r.2 = none → err = none) ∧ KeepsStored segments r.1 ∧
        (Faultless sp.env → DevSound sp law.toFaithful w segments disk →
          r.2 = err ∧ DevSound sp law.toFaithful w' r.1 disk) := by
  induction order generalizing w segments err with
  | nil =>
    simp only [ObjDevice.flushLoop, returns_pure]
    exact ⟨h, trivial, fun i seg' hi => ⟨seg', hi, fun hd => ⟨hd, by simp⟩, fun _ hf => hf⟩,
      fun hn => hn, KeepsStored.refl, fun _ hk => ⟨trivial, hk⟩⟩
  | cons i order ih =>
    have hi := horder i (by simp)
    obtain ⟨seg, hseg⟩ : ∃ seg, segments[i]? = some seg :=
      ⟨_, List.getElem?_eq_some_iff.mpr ⟨hi, rfl⟩⟩
    simp only [ObjDevice.flushLoop, hseg, returns_bind, returns_get]
    refine (Flush_segment (h.seg i seg hseg).2 _).mono fun r w₁ h₁ => ?_
    obtain ⟨seg₁, segErr⟩ := r
    obtain ⟨hstep, hclean, hforgot, hgood⟩ := h₁
    refine (ih (h.step_same hseg hstep) (fun j hj => ?_)).mono fun r w₂ h₂ => ?_
    · rw [List.length_set]
      exact horder j (by simp [hj])
    obtain ⟨hinv₂, hlen₂, hflushed, hnone, hstored, hkept₂⟩ := h₂
    refine ⟨hinv₂, hlen₂.trans List.length_set, fun j seg' hj => ?_, fun hn => ?_,
      (KeepsStored.set hseg hstep.stored).trans hstored, fun hf hk => ?_⟩
    · obtain ⟨seg₂, hj₂, hdirty₂, hforgot₂⟩ := hflushed j seg' hj
      rcases getElem?_set_cases hj₂ with ⟨rfl, rfl⟩ | ⟨hij, hj₂⟩
      · refine ⟨seg, hseg, fun hd => ?_, fun hn hf => ?_⟩
        · exact absurd (hdirty₂ hd).1 (by simpa using hclean)
        · have herr : err = none ∧ segErr = none := by simpa using hnone hn
          exact hforgot herr.2 (hforgot₂ hn hf)
      · refine ⟨seg₂, hj₂, fun hd => ⟨(hdirty₂ hd).1, ?_⟩, hforgot₂⟩
        simp only [List.mem_cons, not_or]
        exact ⟨hij, (hdirty₂ hd).2⟩
    · exact (Option.or_eq_none_iff.mp (hnone hn)).1
    · obtain ⟨herr, hk₂⟩ := hkept₂ hf (hk.step_same hseg hf hstep)
      refine ⟨?_, hk₂⟩
      rw [herr, show segErr = none from hgood hf, Option.or_none]

/-- In whatever order, all dirty segments have their turn. -/
lemma ObjDevice.mem_flushOrder_iff (dev : ObjDevice σ) (t : ℕ) {i : ℕ} :
    i ∈ (if dev.concurFlush ≤ 1 then flushList dev.segments
      else dev.params.env.flushOrder t (flushList dev.segments)) ↔ i ∈ flushList dev.segments := by
  split_ifs
  · rfl
  · exact (dev.params.env.flushOrder_perm _ _).mem_iff

lemma ObjDevice.lt_of_mem_flushOrder (dev : ObjDevice σ) (t : ℕ) {i : ℕ}
    (h : i ∈ (if dev.concurFlush ≤ 1 then flushList dev.segments
      else dev.params.env.flushOrder t (flushList dev.segments))) : i < dev.segments.length := by
  have hmem := (dev.mem_flushOrder_iff t).mp h
  rw [flushList, List.mem_filter, List.mem_range] at hmem
  exact hmem.1

lemma flush_device (dev : ObjDevice σ) (law : Plain dev.params.container)
    (h : DevInv dev.params law.toFaithful w dev.segments disk) :
    Returns dev.flush w fun r w' =>
      ∃ segments, r.1 = { dev with segments } ∧ DevInv dev.params law.toFaithful w' segments disk ∧
        segments.length = dev.segments.length ∧ (∀ s ∈ segments, s.dirty = false) ∧
        (r.2 = none → (∀ s ∈ dev.segments, ¬ s.Forgotten) → ∀ s ∈ segments, ¬ s.Forgotten) ∧
        KeepsStored dev.segments segments ∧
        (Faultless dev.params.env → DevSound dev.params law.toFaithful w dev.segments disk →
          r.2 = none ∧ DevSound dev.params law.toFaithful w' segments disk) := by
  simp only [ObjDevice.flush, returns_bind, returns_get]
  set order := if dev.concurFlush ≤ 1 then ObjDevice.flushList dev.segments
    else dev.params.env.flushOrder w.tick (ObjDevice.flushList dev.segments) with horder
  have hmem : ∀ i, i ∈ order ↔ i ∈ ObjDevice.flushList dev.segments := fun i =>
    dev.mem_flushOrder_iff w.tick
  have hlt : ∀ i ∈ order, i < dev.segments.length := fun i hi =>
    dev.lt_of_mem_flushOrder w.tick hi
  refine (flushLoop_spec h hlt).mono fun r w₁ h₁ => ?_
  obtain ⟨segments₁, err⟩ := r
  obtain ⟨hinv, hlen, hflushed, -, hstored, hkept⟩ := h₁
  simp only [returns_pure]
  refine ⟨segments₁, rfl, hinv, hlen, fun s hs => ?_, fun hn hnot s hs hf => ?_, hstored,
    fun hf hk => ?_⟩
  · obtain ⟨i, hi⟩ := List.getElem?_of_mem hs
    obtain ⟨seg, hseg, hdirty, -⟩ := hflushed i s hi
    by_contra hd
    obtain ⟨hd', hnot⟩ := hdirty (by simpa using hd)
    refine hnot ((hmem i).mpr ?_)
    rw [ObjDevice.flushList, List.mem_filter, List.mem_range]
    exact ⟨DevInv.lt hseg, by simp [hseg, hd']⟩
  · obtain ⟨i, hi⟩ := List.getElem?_of_mem hs
    obtain ⟨seg, hseg, -, hforgot⟩ := hflushed i s hi
    exact hnot seg (List.mem_of_getElem? hseg) (hforgot (by simpa using hn) hf)
  · obtain ⟨herr, hk₁⟩ := hkept hf hk
    exact ⟨by simp [show err = none from herr], hk₁⟩

end Flushing

/-! ## Closing -/

section Closing

variable {law : Plain sp.container}

lemma deleteFiles_spec (hr : Reliable sp.env) {pre suf : List (Segment σ)}
    (h : DevInv sp law.toFaithful w (pre ++ suf) disk)
    (hclean : ∀ s ∈ suf, s.dirty = false ∧ ¬ s.Forgotten) :
    Returns (ObjDevice.deleteFiles sp suf) w fun r w' =>
      r.2 = none ∧ DevInv sp law.toFaithful w' (pre ++ r.1) disk ∧ r.1.length = suf.length ∧
        (∀ s ∈ r.1, s.localFile = none) ∧ KeepsStored suf r.1 ∧
        (Faultless sp.env → DevSound sp law.toFaithful w (pre ++ suf) disk →
          DevSound sp law.toFaithful w' (pre ++ r.1) disk) := by
  -- the files of `pre` are gone already; a round takes one more segment over to it
  induction suf generalizing w pre with
  | nil =>
    simp only [ObjDevice.deleteFiles, returns_pure]
    exact ⟨trivial, h, trivial, by simp, KeepsStored.refl, fun _ hs => hs⟩
  | cons seg suf ih =>
    have hseg : (pre ++ seg :: suf)[pre.length]? = some seg := by simp
    obtain ⟨hd, hn⟩ := hclean seg (by simp)
    simp only [ObjDevice.deleteFiles, returns_bind]
    refine (deleteFile_segment hr (h.seg _ seg hseg).2 hn (h.holding_le hseg)).mono
      fun r w₁ h₁ => ?_
    obtain ⟨seg₁, err⟩ := r
    obtain ⟨hstep, -, hgone, -, hgood, -⟩ := h₁
    obtain rfl : err = none := hgood hd
    have hset : (pre ++ seg :: suf).set pre.length seg₁ = (pre ++ [seg₁]) ++ suf := by simp
    have hinv₁ := h.step_same hseg hstep
    rw [hset] at hinv₁
    refine (ih hinv₁ fun s hs => hclean s (by simp [hs])).mono fun r w₂ h₂ => ?_
    obtain ⟨segments₂, err⟩ := r
    obtain ⟨rfl, hinv₂, hlen₂, hgone₂, hstored₂, hsound₂⟩ := h₂
    simp only [returns_pure]
    simp only [List.append_assoc, List.singleton_append] at hinv₂ hsound₂
    refine ⟨rfl, hinv₂, by simpa using hlen₂, ?_, ?_, fun hf hs => hsound₂ hf ?_⟩
    · intro s hs
      rcases List.mem_cons.mp hs with rfl | hs
      · exact hgone rfl
      · exact hgone₂ s hs
    · intro i seg' hi
      cases i with
      | zero =>
        obtain rfl : seg₁ = seg' := by simpa using hi
        exact ⟨seg, by simp, hstep.stored⟩
      | succ i => exact hstored₂ i seg' (by simpa using hi)
    · have := hs.step_same hseg hf hstep
      rwa [hset, List.append_assoc] at this

/-- `Close` leaves every segment clean, and without an error all uploads have succeeded. -/
lemma close_device {dev : ObjDevice σ} {law : Plain dev.params.container}
    (hr : Reliable dev.params.env) (hopen : dev.shutdown = false)
    (h : DevInv dev.params law.toFaithful w dev.segments disk)
    (hnot : ∀ s ∈ dev.segments, ¬ s.Forgotten) :
    Returns dev.close w fun r w' =>
      ∃ segments, r.1 = { dev with segments, shutdown := true } ∧
        DevInv dev.params law.toFaithful w' segments disk ∧
        segments.length = dev.segments.length ∧ (∀ s ∈ segments, s.dirty = false) ∧
        (r.2 = none → ∀ s ∈ segments, ¬ s.Forgotten) ∧ KeepsStored dev.segments segments ∧
        (Faultless dev.params.env → DevSound dev.params law.toFaithful w dev.segments disk →
          r.2 = none ∧ DevSound dev.params law.toFaithful w' segments disk) := by
  simp only [ObjDevice.close, hopen, Bool.false_eq_true, if_false, returns_bind]
  refine (flush_device { dev with shutdown := true } law h).mono fun r w₁ h₁ => ?_
  obtain ⟨dev₁, err⟩ := r
  obtain ⟨segments₁, hdev, hinv₁, hlen₁, hclean₁, hnot₁, hstored₁, hsound₁⟩ := h₁
  obtain rfl : dev₁ = _ := hdev
  cases err with
  | some e =>
    simp only [returns_pure]
    refine ⟨segments₁, rfl, hinv₁, hlen₁, hclean₁, fun h => by simp at h, hstored₁,
      fun hf hs => ?_⟩
    obtain ⟨hnone, -⟩ := hsound₁ hf hs
    simp at hnone
  | none =>
    have hnot₁ := hnot₁ rfl hnot
    cases hp : dev.params.persistCache with
    | true =>
      simp only [if_true, returns_pure]
      exact ⟨segments₁, rfl, hinv₁, hlen₁, hclean₁, fun _ => hnot₁, hstored₁,
        fun hf hs => ⟨trivial, (hsound₁ hf hs).2⟩⟩
    | false =>
      simp only [Bool.false_eq_true, if_false, returns_bind]
      have hinv₁' : DevInv dev.params law.toFaithful w₁ ([] ++ segments₁) disk := hinv₁
      refine (deleteFiles_spec hr hinv₁' fun s hs => ⟨hclean₁ s hs, hnot₁ s hs⟩).mono
        fun r w₂ h₂ => ?_
      obtain ⟨segments₂, err⟩ := r
      obtain ⟨rfl, hinv₂, hlen₂, hgone₂, hstored₂, hsound₂⟩ := h₂
      simp only [returns_pure]
      refine ⟨segments₂, rfl, hinv₂, hlen₂.trans hlen₁, fun s hs => ?_, fun _ s hs hf =>
        hf.2.1 (hgone₂ s hs), hstored₁.trans hstored₂,
        fun hf hs => ⟨rfl, hsound₂ hf (hsound₁ hf hs).2⟩⟩
      obtain ⟨i, hi⟩ := List.getElem?_of_mem hs
      exact (hinv₂.seg i s hi).2.clean_of_absent (hgone₂ s hs)

/-! ## What a container stores of a device -/

/-- The objects of a device are the segments of a disk; a segment without one is all zeros. -/
structure StoredDisk (sp : StoreParams σ) (law : Faithful sp.container) (st : σ) (count : ℕ)
    (disk : Bytes) : Prop where
  length_eq : disk.length = count * sp.segmentBytes
  noStray : NoStray sp law st count
  object : ∀ i o, i < count → law.objects st (sp.itemName (itoa i)) = some o →
    o.data = segSlice sp disk i
  absent : ∀ i, i < count → law.objects st (sp.itemName (itoa i)) = none →
    segSlice sp disk i = zeros sp.segmentBytes

lemma storedDisk_zeros {law : Faithful sp.container} {st : σ} (count : ℕ)
    (h : ∀ n, sp.itemPrefix <+: n → law.objects st n = none) :
    StoredDisk sp law st count (zeros (count * sp.segmentBytes)) where
  length_eq := length_zeros _
  noStray n hn ho := absurd (h n hn) ho
  object i o _ ho := by
    have hnone := h (sp.itemName (itoa i)) (List.prefix_append _ _)
    rw [ho] at hnone
    cases hnone
  absent i hi _ := slice_replicate 0 (segment_end_le sp hi)

/-- When all segments are clean, the container stores the disk, and the cache directory has nothing
else. -/
lemma DevSound.stored {law : Faithful sp.container} (h : DevSound sp law w segments disk)
    (hclean : ∀ s ∈ segments, s.dirty = false) :
    StoredDisk sp law w.store segments.length disk ∧
      ∀ i, i < segments.length →
        sp.CacheOf w.files (sp.itemName (itoa i)) (segSlice sp disk i) := by
  have hget : ∀ i, i < segments.length → ∃ seg, seg ∈ segments ∧
      seg.name sp = sp.itemName (itoa i) ∧ SegInv sp law w seg (segSlice sp disk i) := by
    intro i hi
    have hseg : segments[i]? = some segments[i] := List.getElem?_eq_some_iff.mpr ⟨hi, rfl⟩
    obtain ⟨hid, hinv⟩ := h.seg i _ hseg
    exact ⟨_, List.mem_of_getElem? hseg, by rw [Segment.name, hid], hinv⟩
  refine ⟨⟨h.length_eq, h.noStray, ?_, ?_⟩, ?_⟩
  · intro i o hi ho
    obtain ⟨seg, hmem, hname, hinv⟩ := hget i hi
    have hk := h.kept seg hmem
    obtain ⟨hrem, -⟩ := hinv.synced (hclean seg hmem) hk.not_forgotten
    cases hitem : seg.remoteItem with
    | none =>
      have hnone := hk.absent hitem
      rw [hname, ho] at hnone
      cases hnone
    | some item =>
      obtain ⟨md, hcur⟩ := hrem item hitem
      have hobj := law.current_object hcur
      rw [hname, ho] at hobj
      rw [Option.some.inj hobj]
  · intro i hi ho
    obtain ⟨seg, hmem, hname, hinv⟩ := hget i hi
    obtain ⟨hrem, hz⟩ := hinv.synced (hclean seg hmem) (h.kept seg hmem).not_forgotten
    refine hz ?_
    by_contra hne
    obtain ⟨item, hitem⟩ := Option.ne_none_iff_exists'.mp hne
    obtain ⟨md, hcur⟩ := hrem item hitem
    have hobj := law.current_object hcur
    rw [hname, ho] at hobj
    cases hobj
  · intro i hi
    obtain ⟨seg, -, hname, hinv⟩ := hget i hi
    rw [← hname]
    exact hinv.cache

end Closing

/-! ## Opening -/

section Opening

/-- The name of a segment's object is read back as its id. -/
lemma parseSegID_itemName {i : ℕ} (hi : i ≤ maxOffset) :
    parseSegID sp.itemPrefix (sp.itemName (itoa i)) = some (i : ℤ) := by
  rw [parseSegID, StoreParams.itemName, trimPrefix_append, fileExt_eq_nil (dot_notMem_itoa i),
    trimSuffix_nil, atoi_itoa hi]

section Attaching

variable {pre : GoString} {count : ℕ} {items front : List (Item σ)}

/-- The name of an item is the id of a segment. -/
def Item.Fits (pre : GoString) (count : ℕ) (item : Item σ) : Prop :=
  ∃ i < count, parseSegID pre item.name = some (i : ℤ)

/-- The last item of a listing for a segment. -/
def itemFor (pre : GoString) (items : List (Item σ)) (i : ℕ) : Option (Item σ) :=
  (items.filter fun item => parseSegID pre item.name == some (i : ℤ)).getLast?

lemma itemFor_ne_none_iff {i : ℕ} : itemFor pre items i ≠ none ↔
    ∃ item ∈ items, parseSegID pre item.name = some (i : ℤ) := by
  simp [itemFor]

lemma mem_of_itemFor {i : ℕ} {item : Item σ} (h : itemFor pre items i = some item) :
    item ∈ items ∧ parseSegID pre item.name = some (i : ℤ) := by
  have hmem := List.mem_of_getLast? h
  simpa [List.mem_filter] using hmem

lemma itemFor_cons (item : Item σ) (items : List (Item σ)) (i : ℕ) :
    itemFor pre (item :: items) i = (itemFor pre items i).or
      (if parseSegID pre item.name = some (i : ℤ) then some item else none) := by
  unfold itemFor
  by_cases h : parseSegID pre item.name = some (i : ℤ)
  · rw [List.filter_cons_of_pos (by simpa using h), List.getLast?_cons, if_pos h]
    cases (items.filter fun item => parseSegID pre item.name == some (i : ℤ)).getLast? <;> rfl
  · rw [List.filter_cons_of_neg (by simpa using h), if_neg h, Option.or_none]

/-- Each segment gets the last item that is for it. -/
def attachAll (pre : GoString) (items : List (Item σ)) (segments : List (Segment σ)) :
    List (Segment σ) :=
  segments.mapIdx fun i seg => { seg with remoteItem := (itemFor pre items i).or seg.remoteItem }

lemma getElem?_attachAll (pre : GoString) (items : List (Item σ)) (segments : List (Segment σ))
    (i : ℕ) : (attachAll pre items segments)[i]? = segments[i]?.map fun seg =>
      { seg with remoteItem := (itemFor pre items i).or seg.remoteItem } := by
  simp [attachAll]

lemma attachAll_nil (pre : GoString) (segments : List (Segment σ)) :
    attachAll pre [] segments = segments := by
  refine List.ext_getElem? fun i => ?_
  rw [getElem?_attachAll]
  cases segments[i]? <;> rfl

lemma attachAll_set {item : Item σ} {i : ℕ} {seg : Segment σ}
    (hparse : parseSegID pre item.name = some (i : ℤ)) (hseg : segments[i]? = some seg) :
    attachAll pre items (segments.set i { seg with remoteItem := some item }) =
      attachAll pre (item :: items) segments := by
  refine List.ext_getElem? fun j => ?_
  rw [getElem?_attachAll, getElem?_attachAll, itemFor_cons, hparse]
  by_cases hij : i = j
  · subst hij
    obtain ⟨hlt, rfl⟩ := List.getElem?_eq_some_iff.mp hseg
    simp [hlt]
  · have hne : ¬ some (i : ℤ) = some (j : ℤ) := by simpa using hij
    rw [List.getElem?_set_ne hij, if_neg hne, Option.or_none]

/-- Items that fit are attached, one after the other. -/
lemma attachItems_append (hlen : segments.length = count) (hfits : ∀ it ∈ front, it.Fits pre count)
    (rest : List (Item σ)) : attachItems pre count (front ++ rest) segments =
      attachItems pre count rest (attachAll pre front segments) := by
  induction front generalizing segments with
  | nil => rw [List.nil_append, attachAll_nil]
  | cons item front ih =>
    obtain ⟨i, hi, hparse⟩ := hfits item List.mem_cons_self
    obtain ⟨seg, hseg⟩ : ∃ seg, segments[i]? = some seg :=
      ⟨_, List.getElem?_eq_getElem (hlen ▸ hi)⟩
    have hrange : ¬ ((i : ℤ) < 0 ∨ (i : ℤ) > count) := by omega
    rw [List.cons_append, attachItems, hparse]
    simp only [if_neg hrange, Int.toNat_natCast, hseg]
    rw [ih (by rw [List.length_set, hlen]) fun it hit => hfits it (List.mem_cons_of_mem item hit),
      attachAll_set hparse hseg]

/-- A new segment with the item that is for it. -/
lemma eq_of_getElem?_attachAll_new {i : ℕ} {seg : Segment σ}
    (h : (attachAll pre items ((List.range count).map Segment.new))[i]? = some seg) :
    i < count ∧ seg = { (Segment.new i : Segment σ) with remoteItem := itemFor pre items i } := by
  rw [getElem?_attachAll, List.getElem?_map, Option.map_map] at h
  obtain ⟨j, hj, rfl⟩ := Option.map_eq_some_iff.mp h
  obtain ⟨hlt, hval⟩ := List.getElem?_eq_some_iff.mp hj
  rw [List.length_range] at hlt
  obtain rfl : i = j := by rwa [List.getElem_range] at hval
  exact ⟨hlt, by simp [Segment.new]⟩

end Attaching

/-- `loadSegments` once its listing has come: too many items are an error, and the others are
attached. -/
lemma loadSegments_of_items {items : List (Item σ)} {totalBytes : ℕ}
    (hpos : 1 ≤ sp.segmentBytes)
    (hitems : sp.container.items w.store sp.itemPrefix cursorStart
      (totalBytes / sp.segmentBytes + 1) = .ok (items, [])) :
    loadSegments sp totalBytes w =
      if items.length > totalBytes / sp.segmentBytes then
        .ok (.error (.new "Enumeration revealed more than the expected items"), w)
      else
        match attachItems sp.itemPrefix (totalBytes / sp.segmentBytes) items
          ((List.range (totalBytes / sp.segmentBytes)).map Segment.new) with
        | .error stop => .error stop
        | .ok r => .ok (r, w) := by
  have hend : (!isCursorEnd []) = false := rfl
  unfold loadSegments
  rw [if_neg (by omega), bind_apply]
  simp only [Prog.get, hitems, hend, Bool.false_eq_true, if_false]
  split_ifs
  · rfl
  · cases attachItems sp.itemPrefix (totalBytes / sp.segmentBytes) items
      ((List.range (totalBytes / sp.segmentBytes)).map Segment.new) <;> rfl

/-- A segment as it is found: without a local file, and with the item of its object if it has
one. -/
structure Opened (sp : StoreParams σ) (law : Faithful sp.container) (st : σ) (i : ℕ)
    (seg : Segment σ) : Prop where
  id_eq : seg.ID = i
  localFile_eq : seg.localFile = none
  dirty_eq : seg.dirty = false
  backed_eq : seg.backed = false
  absent : seg.remoteItem = none → law.objects st (sp.itemName (itoa i)) = none
  current : ∀ it, seg.remoteItem = some it → ∃ o, law.Current st it (sp.itemName (itoa i)) o

/-- Such a segment stands for its part of the stored disk. -/
lemma Opened.inv {law : Faithful sp.container} {i count : ℕ} {seg : Segment σ}
    (h : Opened sp law w.store i seg) (hstored : StoredDisk sp law w.store count disk)
    (hi : i < count) (hcache : sp.CacheOf w.files (sp.itemName (itoa i)) (segSlice sp disk i)) :
    SegInv sp law w seg (segSlice sp disk i) := by
  have hname : seg.name sp = sp.itemName (itoa i) := by rw [Segment.name, h.id_eq]
  have hlen : (segSlice sp disk i).length = sp.segmentBytes :=
    length_slice_of_le (hstored.length_eq ▸ segment_end_le sp hi)
  have hobj : ∀ it, seg.remoteItem = some it →
      ∃ md, law.Current w.store it (seg.name sp) ⟨segSlice sp disk i, md⟩ := by
    intro it hit
    obtain ⟨o, ho⟩ := h.current it hit
    rw [hname, ← hstored.object i o hi (law.current_object ho)]
    exact ⟨o.md, ho⟩
  refine ⟨⟨hlen, ?_, ?_, ?_, ?_, ?_⟩, fun _ _ => ⟨hobj, fun hn => ?_⟩⟩
  · rw [h.backed_eq, h.localFile_eq]
    rfl
  · rw [h.dirty_eq]
    simp
  · rw [h.localFile_eq]
    simp
  · rw [hname]
    exact hcache
  · intro it hit
    obtain ⟨md, hc⟩ := hobj it hit
    exact ⟨_, hc, hlen⟩
  · exact hstored.absent i hi (h.absent hn)

/-- Segments found that way are a sound device over the stored disk. -/
lemma devSound_of_opened {law : Faithful sp.container} {count : ℕ}
    (hstored : StoredDisk sp law w.store count disk) (hheld : w.held = 0)
    (hcache : ∀ i, i < count → sp.CacheOf w.files (sp.itemName (itoa i)) (segSlice sp disk i))
    (hlen : segments.length = count)
    (hseg : ∀ i seg, segments[i]? = some seg → Opened sp law w.store i seg) :
    DevSound sp law w segments disk := by
  refine ⟨⟨by rw [hstored.length_eq, hlen], ?_, ?_, ?_⟩, ?_, by rw [hlen]; exact hstored.noStray⟩
  · intro i seg hi
    have hlt : i < count := hlen ▸ DevInv.lt hi
    exact ⟨(hseg i seg hi).id_eq, (hseg i seg hi).inv hstored hlt (hcache i hlt)⟩
  · rw [hheld, eq_comm]
    refine List.sum_eq_zero fun n hn => ?_
    obtain ⟨seg, hmem, rfl⟩ := List.mem_map.mp hn
    obtain ⟨i, hi⟩ := List.getElem?_of_mem hmem
    simp [Segment.holding, (hseg i seg hi).backed_eq]
  · intro permits _
    rw [hheld]
    exact Nat.zero_le _
  · intro seg hmem
    obtain ⟨i, hi⟩ := List.getElem?_of_mem hmem
    have ho := hseg i seg hi
    refine ⟨fun hf => hf.2.1 ho.localFile_eq, fun hn => ?_⟩
    rw [Segment.name, ho.id_eq]
    exact ho.absent hn

/-- The listing of a container without stray objects: items for exactly those there are. -/
lemma NoStray.items {law : Faithful sp.container} {st : σ} {count : ℕ}
    (h : NoStray sp law st count) :
    ∃ items, sp.container.items st sp.itemPrefix cursorStart (count + 1) = .ok (items, []) ∧
      items.length ≤ count ∧ (∀ it ∈ items, ∃ o, law.Current st it it.name o) ∧
      ∀ n, (∃ it ∈ items, it.name = n) ↔ sp.itemPrefix <+: n ∧ law.objects st n ≠ none := by
  classical
  let names := ((List.range count).map fun i => sp.itemName (itoa i)).filter fun n =>
    law.objects st n ≠ none
  have hnodup : names.Nodup := by
    refine List.Nodup.filter _ ((List.nodup_range).map ?_)
    intro i j hij
    exact itoa_injective (List.append_cancel_left hij)
  have hmem : ∀ n, n ∈ names ↔ sp.itemPrefix <+: n ∧ law.objects st n ≠ none := by
    intro n
    simp only [names, List.mem_filter, List.mem_map, List.mem_range, decide_eq_true_eq]
    constructor
    · rintro ⟨⟨i, -, rfl⟩, ho⟩
      exact ⟨List.prefix_append _ _, ho⟩
    · rintro ⟨hn, ho⟩
      obtain ⟨i, hi, rfl⟩ := h n hn ho
      exact ⟨⟨i, hi, rfl⟩, ho⟩
  have hlen : names.length ≤ count := by
    refine (List.length_filter_le _ _).trans ?_
    simp
  obtain ⟨items, hitems, hperm, hcur⟩ := law.listing hnodup hmem (hlen.trans (Nat.le_succ count))
  refine ⟨items, hitems, ?_, hcur, fun n => ?_⟩
  · rwa [← List.length_map Item.name, hperm.length_eq]
  · rw [← hmem, ← hperm.mem_iff, List.mem_map]

/-- `loadSegments` finds the segments there are objects for. -/
lemma loadSegments_opened {law : Faithful sp.container} (hpos : 0 < sp.segmentBytes)
    {totalBytes : ℕ} (hmax : totalBytes ≤ maxOffset)
    (h : NoStray sp law w.store (totalBytes / sp.segmentBytes)) :
    Returns (loadSegments sp totalBytes) w fun r w' =>
      ∃ segments, r = .ok segments ∧ w' = w ∧ segments.length = totalBytes / sp.segmentBytes ∧
        ∀ i seg, segments[i]? = some seg → Opened sp law w.store i seg := by
  set count := totalBytes / sp.segmentBytes with hcount
  have hcountmax : count ≤ maxOffset := (Nat.div_le_self _ _).trans hmax
  obtain ⟨items, hitems, hfew, hcur, hnames⟩ := h.items
  have hin : ∀ it ∈ items, ∃ i < count, it.name = sp.itemName (itoa i) ∧
      parseSegID sp.itemPrefix it.name = some (i : ℤ) := by
    intro it hit
    obtain ⟨hpre, ho⟩ := (hnames it.name).mp ⟨it, hit, rfl⟩
    obtain ⟨i, hi, hname⟩ := h _ hpre ho
    exact ⟨i, hi, hname, hname ▸ parseSegID_itemName (by omega)⟩
  have hlen : ((List.range count).map (Segment.new : ℕ → Segment σ)).length = count := by simp
  have hattach := attachItems_append hlen (fun it hit => by
    obtain ⟨i, hi, -, hparse⟩ := hin it hit
    exact ⟨i, hi, hparse⟩) []
  rw [List.append_nil] at hattach
  have hload := loadSegments_of_items hpos hitems
  rw [if_neg hfew.not_gt, hattach] at hload
  refine ⟨_, _, hload, _, rfl, rfl, by simp [attachAll], fun i seg hi => ?_⟩
  obtain ⟨hlt, rfl⟩ := eq_of_getElem?_attachAll_new hi
  refine ⟨rfl, rfl, rfl, rfl, fun hnone => ?_, fun it hit => ?_⟩
  · by_contra ho
    obtain ⟨it, hit, hname⟩ := (hnames _).mpr ⟨List.prefix_append _ _, ho⟩
    refine itemFor_ne_none_iff.mpr ⟨it, hit, ?_⟩ hnone
    rw [hname]
    exact parseSegID_itemName (by omega)
  · obtain ⟨hmem, hparse⟩ := mem_of_itemFor hit
    obtain ⟨j, -, hname, hparse'⟩ := hin it hmem
    obtain rfl : i = j := by
      rw [hparse] at hparse'
      simpa using hparse'
    rw [← hname]
    exact hcur it hmem

end Opening

/-! ## New devices -/

/-- A quota that is set allows for one segment at least. -/
lemma quotaPermits_pos {quotaBytes : ℤ} {totalBytes objectBytes permits : ℕ}
    (hpos : 0 < objectBytes)
    (h : quotaPermits quotaBytes totalBytes objectBytes = .ok (some permits)) : 0 < permits := by
  unfold quotaPermits at h
  split_ifs at h with hq hsmall htotal
  · obtain rfl : quotaBytes.toNat / objectBytes = permits := by simpa using h
    exact Nat.div_pos (by omega) hpos
  · simp at h
  · simp at h

/-- What a device is opened with: the arguments of `NewDevice`. -/
structure ObjSetup (σ : Type) where
  codecs : Codecs
  cipher : Cipher σ
  env : Env
  container : Container σ
  totalBytes : ℕ
  objectBytes : ℕ
  opts : ObjOptions

namespace ObjSetup

/-- Open a device. -/
def newDevice (s : ObjSetup σ) : Go σ (Except GoError (ObjDevice σ)) :=
  Usbd.newDevice s.codecs s.cipher s.env s.container s.totalBytes s.objectBytes s.opts

structure Gives (s : ObjSetup σ) (sp : StoreParams σ) : Prop where
  stack : containerStack s.codecs s.cipher s.opts s.container = .ok sp.container
  quota : quotaPermits s.opts.quotaBytes s.totalBytes s.objectBytes = .ok sp.quotaSema
  params_eq : sp = ⟨sp.container, s.objectBytes, s.opts.thickProvision, s.opts.persistCache,
    sp.quotaSema, s.env⟩
  pos : 0 < s.objectBytes
  le : s.objectBytes ≤ s.totalBytes
  le_max : s.totalBytes ≤ maxOffset

def count (s : ObjSetup σ) : ℕ := s.totalBytes / s.objectBytes

variable {s : ObjSetup σ}

lemma Gives.segmentBytes_eq (h : s.Gives sp) : sp.segmentBytes = s.objectBytes := by
  rw [h.params_eq]

lemma Gives.env_eq (h : s.Gives sp) : sp.env = s.env := by
  rw [h.params_eq]

lemma Gives.thickProvision_eq (h : s.Gives sp) : sp.thickProvision = s.opts.thickProvision := by
  rw [h.params_eq]

lemma Gives.sized (h : s.Gives sp) : sp.Sized := by
  refine ⟨h.segmentBytes_eq ▸ h.pos, h.segmentBytes_eq ▸ h.le.trans h.le_max, ?_⟩
  intro permits hq
  exact quotaPermits_pos h.pos (hq ▸ h.quota)

lemma gives_of_newDevice {dev : ObjDevice σ} (h : s.newDevice w = .ok (.ok dev, w'))
    (hmax : s.totalBytes ≤ maxOffset) : s.Gives dev.params := by
  have hret : Returns s.newDevice w fun r _ => r = .ok dev := ⟨_, _, h, rfl⟩
  simp only [newDevice, Usbd.newDevice] at hret
  by_cases hle : s.objectBytes > s.totalBytes
  · simp [hle] at hret
  rw [if_neg hle] at hret
  cases hstack : containerStack s.codecs s.cipher s.opts s.container with
  | error e => simp [hstack] at hret
  | ok c =>
    cases hquota : quotaPermits s.opts.quotaBytes s.totalBytes s.objectBytes with
    | error e => simp [hstack, hquota] at hret
    | ok quota =>
      simp only [hstack, hquota, returns_bind, returns_modify] at hret
      obtain ⟨r, w₁, hload, hret⟩ := hret
      have hpos : s.objectBytes ≠ 0 := by
        intro h0
        rw [h0] at hload
        cases hload
      cases r with
      | error e => simp at hret
      | ok segments =>
        simp only [returns_pure, Except.ok.injEq] at hret
        subst hret
        exact ⟨hstack, hquota, rfl, Nat.pos_of_ne_zero hpos, Nat.le_of_not_gt hle, hmax⟩

end ObjSetup

/-- A device of the arguments in use, standing for a disk. -/
structure Live (s : ObjSetup σ) (sp : StoreParams σ) (law : Faithful sp.container)
    (dev : ObjDevice σ) (w : World σ) (disk : Bytes) : Prop where
  params_eq : dev.params = sp
  totalBytes_eq : dev.totalBytes = s.totalBytes
  length_eq : dev.segments.length = s.count
  shutdown_eq : dev.shutdown = false
  sound : DevSound sp law w dev.segments disk

/-- A device opened over a container without stray objects has a segment for each of them, in a
world with all permits free. -/
lemma newDevice_opened {s : ObjSetup σ} (hg : s.Gives sp) (law : Faithful sp.container)
    (h : NoStray sp law w.store s.count) :
    Returns s.newDevice w fun r w' =>
      ∃ dev, r = .ok dev ∧ w' = { w with held := 0 } ∧ dev.params = sp ∧
        dev.totalBytes = s.totalBytes ∧ dev.shutdown = false ∧ dev.segments.length = s.count ∧
        ∀ i seg, dev.segments[i]? = some seg → Opened sp law w.store i seg := by
  have hle : ¬ s.objectBytes > s.totalBytes := not_lt.mpr hg.le
  have hcount : s.totalBytes / sp.segmentBytes = s.count := by
    rw [hg.segmentBytes_eq, ObjSetup.count]
  simp only [ObjSetup.newDevice, newDevice, if_neg hle, hg.stack, hg.quota, returns_bind,
    returns_modify]
  rw [← hg.params_eq]
  refine (loadSegments_opened hg.sized.pos hg.le_max (hcount.symm ▸ h)).mono fun r w₁ h₁ => ?_
  obtain ⟨segments, rfl, rfl, hlen, hopened⟩ := h₁
  simp only [returns_pure]
  exact ⟨_, rfl, trivial, rfl, rfl, rfl, hlen.trans hcount, hopened⟩

/-- A device opened over a stored disk stands for it. -/
lemma newDevice_spec {s : ObjSetup σ} (hg : s.Gives sp) (law : Plain sp.container)
    (hstored : StoredDisk sp law.toFaithful w.store s.count disk)
    (hcache : ∀ i, i < s.count →
      sp.CacheOf w.files (sp.itemName (itoa i)) (segSlice sp disk i)) :
    Returns s.newDevice w fun r w' =>
      ∃ dev, r = .ok dev ∧ Live s sp law.toFaithful dev w' disk := by
  refine (newDevice_opened hg law.toFaithful hstored.noStray).mono fun r w' h => ?_
  obtain ⟨dev, rfl, rfl, hparams, htotal, hopen, hlen, hopened⟩ := h
  have hsound : DevSound sp law.toFaithful { w with held := 0 } dev.segments disk :=
    devSound_of_opened hstored rfl hcache hlen hopened
  exact ⟨dev, rfl, hparams, htotal, hlen, hopen, hsound⟩

end Usbd
