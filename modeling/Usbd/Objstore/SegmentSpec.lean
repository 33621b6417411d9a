import Usbd.Objstore.FileSpec
import Usbd.Objstore.Segment

/-!
# A segment and its contents

`SegOK` ties a segment in the world to the bytes it stands for: with a local file, those are the
bytes of the file.  `Synced` says that the remote object has them too, and `SegInv` that this is so
whenever the segment is not dirty — the invariant that lets a local file go.  It has an exception,
the segment whose last upload failed: it is marked clean and has lost its remote item
(`Segment.Forgotten`).  Without faults there is none (`Kept`).

Each call of the segment has one specification over these.  A call that needs a local file and
finds no permit left reports `errCapacityClaim` and changes nothing but the time of use; the two
outcomes are separate lemmas.  All writes to the world stay with the segment's own files and its
own object (`Frame`).
-/

namespace Usbd

open ListMemory Prog

variable {σ : Type} {sp : StoreParams σ} {w w' : World σ} {seg : Segment σ} {content : Bytes}

/-- The name of a segment's object and of its local file. -/
def Segment.name (sp : StoreParams σ) (seg : Segment σ) : GoString := sp.itemName (itoa seg.ID)

/-- The permits a segment holds. -/
def Segment.holding (sp : StoreParams σ) (seg : Segment σ) : ℕ :=
  if seg.backed then sp.permit else 0

/-- The segment stands for these bytes. -/
structure SegOK (sp : StoreParams σ) (law : Faithful sp.container) (w : World σ) (seg : Segment σ)
    (content : Bytes) : Prop where
  length_eq : content.length = sp.segmentBytes
  backed_eq : seg.backed = seg.localFile.isSome
  dirty_local : seg.dirty = true → seg.localFile.isSome = true
  opened : ∀ file, seg.localFile = some file →
    file = ⟨seg.name sp, false⟩ ∧ w.files (seg.name sp) = some content
  cache : sp.CacheOf w.files (seg.name sp) content
  remote : ∀ item, seg.remoteItem = some item →
    ∃ o, law.Current w.store item (seg.name sp) o ∧ o.data.length = sp.segmentBytes

/-- The remote object has these bytes, or there is none and they are all zero. -/
structure Synced (sp : StoreParams σ) (law : Faithful sp.container) (w : World σ) (seg : Segment σ)
    (content : Bytes) : Prop where
  remote : ∀ item, seg.remoteItem = some item →
    ∃ md, law.Current w.store item (seg.name sp) ⟨content, md⟩
  zeros : seg.remoteItem = none → content = zeros sp.segmentBytes

/-- A segment whose last upload failed and that has not been written since: clean, with a local
file and without a remote item. -/
def Segment.Forgotten (seg : Segment σ) : Prop :=
  seg.dirty = false ∧ seg.localFile ≠ none ∧ seg.remoteItem = none

/-- The segment has a local file or a remote item. -/
def Segment.Stored (seg : Segment σ) : Prop := seg.localFile ≠ none ∨ seg.remoteItem ≠ none

/-- A clean segment has its bytes in the remote object, unless an upload of it failed. -/
structure SegInv (sp : StoreParams σ) (law : Faithful sp.container) (w : World σ) (seg : Segment σ)
    (content : Bytes) : Prop extends SegOK sp law w seg content where
  synced : seg.dirty = false → ¬ seg.Forgotten → Synced sp law w seg content

/-- No upload of the segment has failed: it is not forgotten, and without a remote item it has no
object. -/
structure Kept (sp : StoreParams σ) (law : Faithful sp.container) (w : World σ)
    (seg : Segment σ) : Prop where
  not_forgotten : ¬ seg.Forgotten
  absent : seg.remoteItem = none → law.objects w.store (seg.name sp) = none

/-- Only the files and the object of one name have changed. -/
structure Frame (sp : StoreParams σ) (law : Faithful sp.container) (name : GoString)
    (w w' : World σ) : Prop where
  files : StoreParams.SameBut name w.files w'.files
  current : ∀ it n o, n ≠ name → law.Current w.store it n o → law.Current w'.store it n o
  objects : ∀ n, n ≠ name → law.objects w'.store n = law.objects w.store n

/-! ## Frames -/

section Frames

variable {law : Faithful sp.container} {name : GoString}

lemma Frame.refl : Frame sp law name w w :=
  ⟨StoreParams.SameBut.refl _ _, fun _ _ _ _ h => h, fun _ _ => rfl⟩

lemma Frame.trans {w₁ w₂ w₃ : World σ} (h : Frame sp law name w₁ w₂)
    (h' : Frame sp law name w₂ w₃) :
    Frame sp law name w₁ w₃ where
  files n hn he := (h'.files n hn he).trans (h.files n hn he)
  current it n o hn hc := h'.current it n o hn (h.current it n o hn hc)
  objects n hn := (h'.objects n hn).trans (h.objects n hn)

lemma Frame.of_files (hfiles : StoreParams.SameBut name w.files w'.files)
    (hstore : w'.store = w.store) : Frame sp law name w w' :=
  ⟨hfiles, fun _ _ _ _ h => hstore ▸ h, fun _ _ => by rw [hstore]⟩

/-- Two names whose files are all different. -/
structure Apart (m n : GoString) : Prop where
  data : m ≠ n
  data_etag : m ≠ eTagFileName n
  etag_data : eTagFileName m ≠ n
  etag : eTagFileName m ≠ eTagFileName n

lemma SegOK.frame (h : SegOK sp law w seg content) (hf : Frame sp law name w w')
    (ha : Apart (seg.name sp) name) : SegOK sp law w' seg content where
  length_eq := h.length_eq
  backed_eq := h.backed_eq
  dirty_local := h.dirty_local
  opened file hfile := by
    rw [hf.files _ ha.data ha.data_etag]
    exact h.opened file hfile
  cache := by
    refine ⟨?_, ?_⟩
    · rw [hf.files _ ha.data ha.data_etag]
      exact h.cache.data
    · rw [hf.files _ ha.etag_data ha.etag]
      exact h.cache.etag
  remote item hitem := by
    obtain ⟨o, hc, hlen⟩ := h.remote item hitem
    exact ⟨o, hf.current _ _ _ ha.data hc, hlen⟩

lemma SegInv.frame (h : SegInv sp law w seg content) (hf : Frame sp law name w w')
    (ha : Apart (seg.name sp) name) : SegInv sp law w' seg content where
  toSegOK := h.toSegOK.frame hf ha
  synced hd hn := by
    obtain ⟨hrem, hz⟩ := h.synced hd hn
    refine ⟨fun item hitem => ?_, hz⟩
    obtain ⟨md, hc⟩ := hrem item hitem
    exact ⟨md, hf.current _ _ _ ha.data hc⟩

lemma Kept.frame (h : Kept sp law w seg) (hf : Frame sp law name w w')
    (ha : Apart (seg.name sp) name) : Kept sp law w' seg :=
  ⟨h.not_forgotten, fun hn => (hf.objects _ ha.data).trans (h.absent hn)⟩

/-- The names of two segments are apart. -/
lemma apart_itemName {i j : ℕ} (h : i ≠ j) :
    Apart (sp.itemName (itoa i)) (sp.itemName (itoa j)) := by
  have hdata : sp.itemName (itoa i) ≠ sp.itemName (itoa j) := fun he =>
    h (itoa_injective (List.append_cancel_left he))
  -- an ETag file has a dot where a segment's name has digits only
  have hdot : ∀ i j, sp.itemName (itoa i) ≠ eTagFileName (sp.itemName (itoa j)) := by
    intro i j he
    simp only [StoreParams.itemName, eTagFileName, List.append_assoc] at he
    have hcancel := List.append_cancel_left he
    exact dot_notMem_itoa i (by rw [hcancel]; simp)
  exact ⟨hdata, hdot i j, (hdot j i).symm, fun he => hdata (List.append_cancel_right he)⟩

lemma Segment.apart_name {i j : ℕ} {seg seg' : Segment σ} (hi : seg.ID = i) (hj : seg'.ID = j)
    (h : i ≠ j) : Apart (seg.name sp) (seg'.name sp) := by
  rw [Segment.name, Segment.name, hi, hj]
  exact apart_itemName h

end Frames

/-- What every call of a segment leaves: the segment in order for its new bytes and still stored if
it was, all others alone, and the permits accounted for.  Without faults it keeps the segment from
being forgotten. -/
structure SegStep (sp : StoreParams σ) (law : Faithful sp.container) (w : World σ) (seg : Segment σ)
    (content : Bytes) (w' : World σ) (seg' : Segment σ) (content' : Bytes) : Prop where
  inv : SegInv sp law w' seg' content'
  stored : seg.Stored → seg'.Stored
  kept : Faultless sp.env → Kept sp law w seg → Kept sp law w' seg'
  id_eq : seg'.ID = seg.ID
  frame : Frame sp law (seg.name sp) w w'
  held : w'.held + seg.holding sp = w.held + seg'.holding sp
  cap : ∀ permits, sp.quotaSema = some permits → w.held ≤ permits → w'.held ≤ permits

lemma SegStep.refl {law : Faithful sp.container} (h : SegInv sp law w seg content) :
    SegStep sp law w seg content w seg content :=
  ⟨h, fun hst => hst, fun _ hk => hk, rfl, Frame.refl, rfl, fun _ _ hc => hc⟩

lemma SegStep.trans {law : Faithful sp.container} {w₁ w₂ : World σ} {seg₁ seg₂ : Segment σ}
    {content₁ content₂ : Bytes} (h : SegStep sp law w seg content w₁ seg₁ content₁)
    (h' : SegStep sp law w₁ seg₁ content₁ w₂ seg₂ content₂) :
    SegStep sp law w seg content w₂ seg₂ content₂ := by
  have hname : seg₁.name sp = seg.name sp := by rw [Segment.name, h.id_eq]; rfl
  refine ⟨h'.inv, fun hst => h'.stored (h.stored hst), fun hf hk => h'.kept hf (h.kept hf hk),
    h'.id_eq.trans h.id_eq, h.frame.trans (hname ▸ h'.frame), ?_,
    fun p hq hc => h'.cap p hq (h.cap p hq hc)⟩
  have := h.held
  have := h'.held
  omega

/-! ## Loading -/

/-- What a read or a write of a segment leaves: the remote side as it was, the segment standing for
its new bytes, and a permit taken for a file it had to load. -/
structure Accessed (sp : StoreParams σ) (law : Faithful sp.container) (w : World σ)
    (seg : Segment σ) (w' : World σ) (seg' : Segment σ) (content : Bytes) : Prop where
  ok : SegOK sp law w' seg' content
  id_eq : seg'.ID = seg.ID
  remoteItem_eq : seg'.remoteItem = seg.remoteItem
  store_eq : w'.store = w.store
  files : StoreParams.SameBut (seg.name sp) w.files w'.files
  held : w'.held + seg.holding sp = w.held + seg'.holding sp
  cap : ∀ permits, sp.quotaSema = some permits → w.held ≤ permits → w'.held ≤ permits

section Calls

variable {law : Plain sp.container}

lemma Accessed.frame {seg' : Segment σ} (h : Accessed sp law.toFaithful w seg w' seg' content) :
    Frame sp law.toFaithful (seg.name sp) w w' :=
  Frame.of_files h.files h.store_eq

/-- What a load needs: an object that has the segment's bytes, a permit, and an exact copy. -/
structure Loadable (sp : StoreParams σ) (law : Faithful sp.container) (w : World σ)
    (seg : Segment σ) (content : Bytes) : Prop where
  synced : Synced sp law w seg content
  room : sp.Room w
  exact : sp.LoadsExactly content

/-- A load that is to return a file returns the one local file of the segment, with its bytes. -/
lemma loadFile_spec (hr : Reliable sp.env) (hs : sp.Sized)
    (hok : SegOK sp law.toFaithful w seg content)
    (hload : seg.localFile = none → Loadable sp law.toFaithful w seg content) {createWrite : Bool}
    (hneed : seg.localFile = none → seg.remoteItem = none → createWrite = true) :
    Returns (seg.loadFile sp createWrite) w fun r w' =>
      r.2 = .ok (some ⟨seg.name sp, false⟩) ∧ r.1.localFile = some ⟨seg.name sp, false⟩ ∧
        r.1.dirty = seg.dirty ∧ Accessed sp law.toFaithful w seg w' r.1 content := by
  unfold Segment.loadFile
  cases hfile : seg.localFile with
  | some file =>
    obtain ⟨rfl, -⟩ := hok.opened file hfile
    simp only [returns_pure]
    exact ⟨trivial, hfile, trivial, hok, rfl, rfl, rfl, StoreParams.SameBut.refl _ _, rfl,
      fun _ _ hc => hc⟩
  | none =>
    obtain ⟨hsync, hroom, hexact⟩ := hload hfile
    have hnot : seg.backed = false := by simp [hok.backed_eq, hfile]
    have hhold : seg.holding sp = 0 := by simp [Segment.holding, hnot]
    -- either way the segment ends up with the file of its name, holding its bytes
    have hdone : ∀ w₁ : World σ, w₁.files (seg.name sp) = some content →
        StoreParams.SameBut (seg.name sp) w.files w₁.files →
        (sp.persistCache = false → w₁.files (eTagFileName (seg.name sp)) = none) →
        w₁.store = w.store → w₁.held = w.held + sp.permit →
        Accessed sp law.toFaithful w seg w₁
          { seg with localFile := some ⟨seg.name sp, false⟩, backed := true } content := by
      intro w₁ hdata hsame hetag hstore hheld
      refine ⟨⟨hok.length_eq, rfl, fun _ => rfl, fun file hf => ?_, ⟨Or.inr hdata, hetag⟩,
        fun item hitem => ?_⟩, rfl, rfl, hstore, hsame, ?_, fun p hq _ => ?_⟩
      · exact ⟨(Option.some.inj hf).symm, hdata⟩
      · rw [hstore]
        exact hok.remote item hitem
      · rw [hhold, hheld]
        simp [Segment.holding]
      · have := hroom p hq
        simp only [hheld, StoreParams.permit, hq, Option.isSome_some, if_true]
        omega
    cases hitem : seg.remoteItem with
    | some item =>
      obtain ⟨md, hcur⟩ := hsync.remote item hitem
      simp only [returns_bind]
      refine (StoreParams.downloadFile_of_room hr hs hroom (law.shows hcur) hok.length_eq
        (law.etag_total hcur) hok.cache).mono fun r w₁ h₁ => ?_
      obtain ⟨rfl, ⟨extra, hextra, hdata⟩, hsame, hetag, hstore, hheld⟩ := h₁
      rw [hextra hexact, List.append_nil] at hdata
      simp only [returns_pure]
      rw [← hitem]
      exact ⟨trivial, trivial, trivial, hdone w₁ hdata hsame hetag hstore hheld⟩
    | none =>
      have hzero := hsync.zeros hitem
      simp only [hneed hfile hitem, if_true, returns_bind]
      refine (StoreParams.createFile_of_room hr hs hroom (itoa seg.ID)).mono fun r w₁ h₁ => ?_
      obtain ⟨rfl, hfiles, hstore, hheld⟩ := h₁
      simp only [returns_pure]
      rw [← hitem]
      refine ⟨rfl, rfl, trivial, hdone w₁ ?_ ?_ (fun hp => ?_) hstore hheld⟩
      · rw [hfiles, hzero]
        exact Function.update_self _ _ _
      · rw [hfiles]
        exact (StoreParams.SameBut.refl _ _).update_data _
      · rw [hfiles]
        exact (Function.update_of_ne (StoreParams.ne_eTagFileName _).symm _ _).trans
          (hok.cache.etag hp)

/-- A load that finds no permit changes nothing. -/
lemma loadFile_of_full (hroom : ¬ sp.Room w) (hfile : seg.localFile = none) {createWrite : Bool}
    (hneed : seg.remoteItem = none → createWrite = true) :
    Returns (seg.loadFile sp createWrite) w fun r w' =>
      r.1 = seg ∧ w' = w ∧ ∃ e, r.2 = .error e ∧ e.is errCapacityClaim = true := by
  obtain ⟨permits, hq, h⟩ := StoreParams.not_room_iff.mp hroom
  unfold Segment.loadFile
  rw [hfile]
  cases hitem : seg.remoteItem with
  | some item =>
    simp only [returns_bind]
    refine (StoreParams.downloadFile_of_full hq h item).mono fun r w₁ h₁ => ?_
    obtain ⟨rfl, rfl⟩ := h₁
    simp only [returns_pure]
    exact ⟨trivial, trivial, _, rfl, GoError.is_wrap _ (GoError.is_self _)⟩
  | none =>
    simp only [hneed hitem, if_true, returns_bind]
    refine (StoreParams.createFile_of_full hq h _).mono fun r w₁ h₁ => ?_
    obtain ⟨rfl, rfl⟩ := h₁
    simp only [returns_pure]
    exact ⟨trivial, trivial, _, rfl, GoError.is_wrap _ (GoError.is_self _)⟩

/-! ## Reading and writing -/

lemma SegInv.touch {law : Faithful sp.container} (h : SegInv sp law w seg content)
    (hl : Leaves w w.files w') (lastRead lastWrite : ℤ) :
    SegStep sp law w seg content w' { seg with lastRead, lastWrite } content := by
  obtain ⟨hfiles, hstore, hheld⟩ := hl
  refine ⟨⟨⟨h.length_eq, h.backed_eq, h.dirty_local, ?_, ?_, ?_⟩, fun hd hn => ?_⟩, fun hst => hst,
    fun _ hk => ⟨hk.not_forgotten, fun hi => ?_⟩, rfl, Frame.of_files ?_ hstore, by rw [hheld]; rfl,
    fun _ _ hc => hheld.trans_le hc⟩
  · rw [hfiles]
    exact h.opened
  · rw [hfiles]
    exact h.cache
  · rw [hstore]
    exact h.remote
  · obtain ⟨hrem, hz⟩ := h.synced hd hn
    exact ⟨by rw [hstore]; exact hrem, hz⟩
  · rw [hstore]
    exact hk.absent hi
  · rw [hfiles]
    exact StoreParams.SameBut.refl _ _

lemma Accessed.of_leaves {seg' : Segment σ} {w₁ : World σ}
    (h : Accessed sp law.toFaithful w seg w' seg' content) (hl : Leaves w' w'.files w₁) :
    Accessed sp law.toFaithful w seg w₁ seg' content := by
  obtain ⟨hok, hid, hitem, hstore, hfiles, hheld, hcap⟩ := h
  refine ⟨⟨hok.length_eq, hok.backed_eq, hok.dirty_local, ?_, ?_, ?_⟩, hid, hitem,
    hl.store.trans hstore, ?_, ?_, fun p hq hc => hl.held.trans_le (hcap p hq hc)⟩
  · rw [hl.files]
    exact hok.opened
  · rw [hl.files]
    exact hok.cache
  · rw [hl.store]
    exact hok.remote
  · rw [hl.files]
    exact hfiles
  · rw [hl.held]
    exact hheld

lemma SegOK.clean_of_absent {law : Faithful sp.container} (h : SegOK sp law w seg content)
    (hfile : seg.localFile = none) : seg.dirty = false := by
  by_contra hd
  have := h.dirty_local (by simpa using hd)
  simp [hfile] at this

/-- A segment without a local file has its bytes in the remote object. -/
lemma SegInv.synced_of_absent {law : Faithful sp.container} (h : SegInv sp law w seg content)
    (hfile : seg.localFile = none) : Synced sp law w seg content :=
  h.synced (h.clean_of_absent hfile) fun hf => hf.2.1 hfile

lemma Accessed.step {seg' : Segment σ} (h : Accessed sp law.toFaithful w seg w' seg' content)
    (hinv : SegInv sp law.toFaithful w seg content) (hdirty : seg'.dirty = seg.dirty)
    (hforgot : seg'.Forgotten ↔ seg.Forgotten) (hstored : seg'.Stored) :
    SegStep sp law.toFaithful w seg content w' seg' content := by
  have hname : seg'.name sp = seg.name sp := by rw [Segment.name, h.id_eq]; rfl
  refine ⟨⟨h.ok, fun hd hn => ?_⟩, fun _ => hstored,
    fun _ hk => ⟨fun hf => hk.not_forgotten (hforgot.mp hf), ?_⟩,
    h.id_eq, h.frame, h.held, h.cap⟩
  · obtain ⟨hrem, hz⟩ := hinv.synced (hdirty ▸ hd) fun hf => hn (hforgot.mpr hf)
    refine ⟨?_, fun hi => hz (h.remoteItem_eq ▸ hi)⟩
    rw [h.remoteItem_eq, h.store_eq, hname]
    exact hrem
  · rw [h.remoteItem_eq, h.store_eq, hname]
    exact hk.absent

lemma Accessed.step_of_dirty {seg' : Segment σ} {content' : Bytes}
    (h : Accessed sp law.toFaithful w seg w' seg' content') (hdirty : seg'.dirty = true) :
    SegStep sp law.toFaithful w seg content w' seg' content' := by
  have hname : seg'.name sp = seg.name sp := by rw [Segment.name, h.id_eq]; rfl
  have hlocal : seg'.localFile ≠ none := by
    intro hn
    simpa [hn] using h.ok.dirty_local hdirty
  refine ⟨⟨h.ok, fun hd => by simp [hdirty] at hd⟩, fun _ => Or.inl hlocal,
    fun _ hk => ⟨fun hf => ?_, ?_⟩, h.id_eq, h.frame, h.held, h.cap⟩
  · simp [Segment.Forgotten, hdirty] at hf
  · rw [h.remoteItem_eq, h.store_eq, hname]
    exact hk.absent

/-- An access that found no permit: nothing has changed but the time of use. -/
structure Full (sp : StoreParams σ) (law : Faithful sp.container) (w : World σ) (seg : Segment σ)
    (content : Bytes) (w' : World σ) (seg' : Segment σ) (err : Option GoError) : Prop where
  no_room : ¬ sp.Room w
  absent : seg.localFile = none
  capacity : ∃ e, err = some e ∧ e.is errCapacityClaim = true
  touched : seg' = { seg with lastRead := seg'.lastRead, lastWrite := seg'.lastWrite }
  step : SegStep sp law w seg content w' seg' content
  held : w'.held = w.held

lemma Full.of_touch {law : Faithful sp.container} {seg₁ seg' : Segment σ} {w₁ : World σ}
    {err : Option GoError} (ht : SegStep sp law w seg content w₁ seg₁ content)
    (hseg : seg₁ = { seg with lastRead := seg₁.lastRead, lastWrite := seg₁.lastWrite })
    (hheld : w₁.held = w.held) (h : Full sp law w₁ seg₁ content w' seg' err) :
    Full sp law w seg content w' seg' err where
  no_room hroom := h.no_room fun p hq => hheld ▸ hroom p hq
  absent := by
    have := h.absent
    rwa [hseg] at this
  capacity := h.capacity
  touched := by
    have := h.touched
    rw [hseg] at this
    exact this
  step := ht.trans h.step
  held := h.held.trans hheld

/-- Rule for a read behind its mark of the time: an error of the load, zeros where nothing is
stored, or a read of the file. -/
lemma Segment.yields_readLoaded {buf : Bytes} {pos : ℤ}
    {Q : Segment σ × Bytes × ℕ × Option GoError → World σ → Prop}
    (h : Yields (seg.loadFile sp false) w fun r w₁ =>
      (∀ e, r.2 = .error e →
        Q (r.1, buf, 0, some (.wrap "Could not load segment data for reading" e)) w₁) ∧
      (∀ n err, r.2 = .ok none → n = buf.length ∧ err = none ∨ err = some ioEOF →
        Q (r.1, zeroFill (buf.take n) ++ buf.drop n, n, err) w₁) ∧
      ∀ file, r.2 = .ok (some file) → Yields (file.readAt sp.env buf.length pos) w₁ fun got w₂ =>
        Q (r.1, goCopy buf got.1, got.1.length, got.2) w₂) :
    Yields (seg.readLoaded sp buf pos) w Q := by
  rw [readLoaded, yields_bind]
  refine h.mono fun r w₁ h₁ => ?_
  obtain ⟨herr, hzeros, hfile⟩ := h₁
  obtain ⟨seg₁, e | (_ | file)⟩ := r
  · exact (yields_pure _).mpr (herr e rfl)
  · simp only
    split_ifs
    · exact yields_stop _
    · exact (yields_pure _).mpr (hzeros _ _ rfl (.inr rfl))
    · exact yields_stop _
    · exact (yields_pure _).mpr (hzeros _ _ rfl (.inl ⟨Int.toNat_natCast _, rfl⟩))
  · simp only [yields_bind, yields_pure]
    exact hfile file rfl

/-- A read changes bytes of its buffer, not their number. -/
lemma Segment.readLoaded_length (seg : Segment σ) (buf : Bytes) (pos : ℤ) :
    Yields (seg.readLoaded sp buf pos) w fun r _ => r.2.1.length = buf.length := by
  refine yields_readLoaded fun r w₁ _ => ⟨fun _ _ => rfl, fun n err _ _ => ?_, fun file _ => ?_⟩
  · rw [List.length_append, zeroFill_eq, length_zeros, List.length_take, List.length_drop]
    omega
  · exact fun _ _ _ => length_goCopy ..

/-- A read inside the segment returns its bytes, if there is a permit where it needs one. -/
lemma readLoaded_segment (hr : Reliable sp.env) (hs : sp.Sized)
    (hinv : SegInv sp law.toFaithful w seg content)
    (hexact : seg.localFile = none → seg.remoteItem ≠ none → sp.LoadsExactly content)
    {pos : ℕ} {buf : Bytes} (hle : pos + buf.length ≤ sp.segmentBytes) :
    Returns (seg.readLoaded sp buf pos) w fun r w' =>
      r.2 = (slice content pos buf.length, buf.length, none) ∧
          SegStep sp law.toFaithful w seg content w' r.1 content ∨
        r.2.1 = buf ∧ Full sp law.toFaithful w seg content w' r.1 r.2.2.2 := by
  have hlen : (slice content pos buf.length).length = buf.length :=
    length_slice_of_le (hinv.length_eq ▸ hle)
  simp only [Segment.readLoaded, returns_bind]
  by_cases hnone : seg.localFile = none ∧ seg.remoteItem = none
  · -- nothing anywhere: zeros
    have hz := (hinv.synced_of_absent hnone.1).zeros hnone.2
    have hload : seg.loadFile sp false = pure (seg, .ok none) := by
      simp [Segment.loadFile, hnone.1, hnone.2]
    rw [hload, returns_pure]
    have hshort : ¬ ((pos : ℤ) + buf.length > sp.segmentBytes) := by omega
    have hneg : ¬ ((buf.length : ℤ) < 0) := by omega
    simp only [hshort, if_false, hneg, returns_pure, Int.toNat_natCast, List.take_length,
      List.drop_length, List.append_nil, zeroFill_eq]
    refine Or.inl ⟨?_, SegStep.refl hinv⟩
    rw [hz, zeros, zeros, slice_replicate 0 hle]
  have hneed : seg.localFile = none → seg.remoteItem ≠ none := fun hf hi => hnone ⟨hf, hi⟩
  by_cases hroom : seg.localFile = none → sp.Room w
  · have hload : seg.localFile = none → Loadable sp law.toFaithful w seg content := fun hf =>
      ⟨hinv.synced_of_absent hf, hroom hf, hexact hf (hneed hf)⟩
    refine (loadFile_spec hr hs hinv.toSegOK hload fun hf hi => absurd hi (hneed hf)).mono
      fun r w₁ h₁ => ?_
    obtain ⟨seg₁, data⟩ := r
    obtain ⟨hdata, hlocal, hdirty, hacc⟩ := h₁
    simp only at hdata hlocal hdirty hacc
    subst hdata
    obtain ⟨-, hfile⟩ := hacc.ok.opened _ hlocal
    rw [show seg₁.name sp = seg.name sp by rw [Segment.name, hacc.id_eq]; rfl] at hfile
    simp only [returns_bind]
    refine (readAt_spec hr rfl hfile (hinv.length_eq ▸ hle)).mono fun r w₂ h₂ => ?_
    obtain ⟨rfl, h₂⟩ := h₂
    simp only [returns_pure, goCopy_of_length_eq hlen, hlen]
    refine Or.inl ⟨trivial, (hacc.of_leaves h₂).step hinv hdirty ?_ (Or.inl (by simp [hlocal]))⟩
    rw [Segment.Forgotten, Segment.Forgotten, hdirty, hlocal, hacc.remoteItem_eq]
    constructor
    · rintro ⟨hclean, -, hitem⟩
      exact ⟨hclean, fun hf => hneed hf hitem, hitem⟩
    · rintro ⟨hclean, -, hitem⟩
      exact ⟨hclean, Option.some_ne_none _, hitem⟩
  · obtain ⟨hfile, hno⟩ := Classical.not_imp.mp hroom
    refine (loadFile_of_full hno hfile fun hi => absurd hi (hneed hfile)).mono fun r w₁ h₁ => ?_
    obtain ⟨seg₁, data⟩ := r
    obtain ⟨hseg₁, rfl, e, hdata, he⟩ := h₁
    simp only at hseg₁ hdata
    subst hseg₁ hdata
    simp only [returns_pure]
    exact Or.inr ⟨trivial, hno, hfile, ⟨_, rfl, GoError.is_wrap _ he⟩, rfl, SegStep.refl hinv, rfl⟩

lemma readAt_segment (hr : Reliable sp.env) (hs : sp.Sized)
    (hinv : SegInv sp law.toFaithful w seg content)
    (hexact : seg.localFile = none → seg.remoteItem ≠ none → sp.LoadsExactly content)
    {pos : ℕ} {buf : Bytes} (hle : pos + buf.length ≤ sp.segmentBytes) :
    Returns (seg.readAt sp buf pos) w fun r w' =>
      r.2 = (slice content pos buf.length, buf.length, none) ∧
          SegStep sp law.toFaithful w seg content w' r.1 content ∨
        r.2.1 = buf ∧ Full sp law.toFaithful w seg content w' r.1 r.2.2.2 := by
  simp only [Segment.readAt, returns_bind, returns_timeNow]
  have htouch : SegStep sp law.toFaithful w seg content { w with tick := w.tick + 1 }
      { seg with lastRead := sp.env.now w.tick } content := hinv.touch (leaves_tick _ _) _ _
  refine (readLoaded_segment hr hs htouch.inv hexact hle).mono fun r w₁ h₁ => ?_
  exact h₁.imp (fun h => ⟨h.1, htouch.trans h.2⟩) fun h => ⟨h.1, h.2.of_touch htouch rfl rfl⟩

/-- The zero shortcut: zeros are not written to a segment without a local file. -/
def Segment.Skips (seg : Segment σ) (buf : Bytes) : Prop :=
  isZeros buf = true ∧ seg.localFile = none

instance (seg : Segment σ) (buf : Bytes) : Decidable (seg.Skips buf) :=
  inferInstanceAs (Decidable (_ ∧ _))

/-- The bytes of a segment after a write to it. -/
def Segment.written (seg : Segment σ) (content buf : Bytes) (pos : ℕ) : Bytes :=
  if seg.Skips buf then content else overwrite 0 content pos buf

lemma writeAt_local (hr : Reliable sp.env) (hs : sp.Sized) {seg' : Segment σ} {w₁ : World σ}
    (hacc : Accessed sp law.toFaithful w seg w₁ seg' content)
    (hlocal : seg'.localFile = some ⟨seg.name sp, false⟩) {pos : ℕ} {buf : Bytes}
    (hle : pos + buf.length ≤ sp.segmentBytes) :
    Returns (File.writeAt sp.env ⟨seg.name sp, false⟩ buf pos .writeAt) w₁ fun r w' =>
      r = (buf.length, none) ∧ SegStep sp law.toFaithful w seg content w'
        { seg' with dirty := true } (overwrite 0 content pos buf) := by
  have hname : seg'.name sp = seg.name sp := by rw [Segment.name, hacc.id_eq]; rfl
  obtain ⟨hok, hid, hitem, hstore, hfiles, hheld, hcap⟩ := hacc
  obtain ⟨-, hfile⟩ := hok.opened _ hlocal
  rw [hname] at hfile
  refine (writeAt_spec hr rfl rfl hfile (hle.trans hs.le_max)).mono fun r w₂ h₂ => ?_
  obtain ⟨rfl, h₂⟩ := h₂
  have hdata : w₂.files (seg.name sp) = some (overwrite 0 content pos buf) := by simp [h₂.files]
  refine ⟨rfl, Accessed.step_of_dirty ⟨⟨?_, hok.backed_eq, fun _ => by simp [hlocal],
    fun file hf => ⟨(hok.opened file hf).1, ?_⟩, ⟨Or.inr ?_, fun hp => ?_⟩, ?_⟩, hid, hitem,
    h₂.store.trans hstore, ?_, ?_, fun p hq hc => h₂.held.trans_le (hcap p hq hc)⟩ rfl⟩
  · rw [length_overwrite_of_le 0 (hok.length_eq ▸ hle), hok.length_eq]
  · exact (congrArg w₂.files hname).trans hdata
  · exact (congrArg w₂.files hname).trans hdata
  · refine (congrArg (fun n => w₂.files (eTagFileName n)) hname).trans ?_
    rw [h₂.files, Function.update_of_ne (StoreParams.ne_eTagFileName _).symm, ← hname]
    exact hok.cache.etag hp
  · rw [h₂.store]
    exact hok.remote
  · rw [h₂.files]
    exact hfiles.update_data _
  · rw [h₂.held]
    exact hheld

/-- A write inside the segment changes its bytes, if there is a permit where it needs one. -/
lemma writeLoaded_segment (hr : Reliable sp.env) (hs : sp.Sized)
    (hinv : SegInv sp law.toFaithful w seg content)
    (hexact : seg.localFile = none → sp.LoadsExactly content) {pos : ℕ} {buf : Bytes}
    (hbuf : buf ≠ []) (hle : pos + buf.length ≤ sp.segmentBytes) :
    Returns (seg.writeLoaded sp buf pos) w fun r w' =>
      r.2 = (buf.length, none) ∧ SegStep sp law.toFaithful w seg content w' r.1
          (overwrite 0 content pos buf) ∧ r.1.dirty = true ∨
        Full sp law.toFaithful w seg content w' r.1 r.2.2 := by
  simp only [Segment.writeLoaded, returns_bind]
  by_cases hroom : seg.localFile = none → sp.Room w
  · have hload : seg.localFile = none → Loadable sp law.toFaithful w seg content := fun hf =>
      ⟨hinv.synced_of_absent hf, hroom hf, hexact hf⟩
    refine (loadFile_spec hr hs hinv.toSegOK hload fun _ _ => rfl).mono fun r w₁ h₁ => ?_
    obtain ⟨seg₁, data⟩ := r
    obtain ⟨hdata, hlocal, -, hacc⟩ := h₁
    simp only at hdata hlocal hacc
    subst hdata
    simp only [returns_bind]
    refine (writeAt_local hr hs hacc hlocal hle).mono fun r w₂ h₂ => ?_
    obtain ⟨rfl, h₂⟩ := h₂
    have hcount : buf.length > 0 := List.length_pos_iff_ne_nil.mpr hbuf
    simp only [returns_pure, hcount, decide_true, Bool.or_true]
    exact Or.inl ⟨trivial, h₂, trivial⟩
  · obtain ⟨hfile, hno⟩ := Classical.not_imp.mp hroom
    refine (loadFile_of_full hno hfile fun _ => rfl).mono fun r w₁ h₁ => ?_
    obtain ⟨seg₁, data⟩ := r
    obtain ⟨hseg₁, rfl, e, hdata, he⟩ := h₁
    simp only at hseg₁ hdata
    subst hseg₁ hdata
    simp only [returns_pure]
    exact Or.inr ⟨hno, hfile, ⟨_, rfl, GoError.is_wrap _ he⟩, rfl, SegStep.refl hinv, rfl⟩

lemma writeAt_segment (hr : Reliable sp.env) (hs : sp.Sized)
    (hinv : SegInv sp law.toFaithful w seg content)
    (hexact : seg.localFile = none → sp.LoadsExactly content) {pos : ℕ} {buf : Bytes}
    (hbuf : buf ≠ []) (hle : pos + buf.length ≤ sp.segmentBytes) :
    Returns (seg.writeAt sp buf pos) w fun r w' =>
      r.2 = (buf.length, none) ∧ SegStep sp law.toFaithful w seg content w' r.1
          (seg.written content buf pos) ∧ (¬ seg.Skips buf → r.1.dirty = true) ∨
        ¬ seg.Skips buf ∧ Full sp law.toFaithful w seg content w' r.1 r.2.2 := by
  simp only [Segment.writeAt, returns_bind, returns_timeNow]
  have htouch : SegStep sp law.toFaithful w seg content { w with tick := w.tick + 1 }
      { seg with lastWrite := sp.env.now w.tick } content := hinv.touch (leaves_tick _ _) _ _
  by_cases hskip : seg.Skips buf
  · rw [if_pos (show isZeros buf = true ∧ seg.localFile = none from hskip), returns_pure,
      Segment.written, if_pos hskip]
    exact Or.inl ⟨rfl, htouch, fun h => absurd hskip h⟩
  rw [if_neg (show ¬ (isZeros buf = true ∧ seg.localFile = none) from hskip), Segment.written,
    if_neg hskip]
  refine (writeLoaded_segment hr hs htouch.inv hexact hbuf hle).mono fun r w₁ h₁ => ?_
  exact h₁.imp (fun h => ⟨h.1, htouch.trans h.2.1, fun _ => h.2.2⟩)
    fun h => ⟨hskip, h.of_touch htouch rfl rfl⟩

/-! ### With a local file -/

section Local

variable {file : File} (hr : Reliable sp.env) (hlocal : seg.localFile = some file)
  (hopen : file.closed = false) (hdata : w.files file.name = some content)

include hr hlocal hopen hdata

lemma readLoaded_local {pos : ℕ} {buf : Bytes} (hle : pos + buf.length ≤ content.length) :
    Returns (seg.readLoaded sp buf pos) w fun r w' =>
      r = (seg, slice content pos buf.length, buf.length, none) ∧ Leaves w w.files w' := by
  have hlen : (slice content pos buf.length).length = buf.length := length_slice_of_le hle
  simp only [Segment.readLoaded, Segment.loadFile, hlocal, returns_bind, returns_pure]
  refine (readAt_spec hr hopen hdata hle).mono fun r w' h => ?_
  obtain ⟨rfl, h⟩ := h
  simp only [goCopy_of_length_eq hlen, hlen]
  exact ⟨trivial, h⟩

lemma writeLoaded_local {pos : ℕ} {buf : Bytes} (hbuf : buf ≠ [])
    (hle : pos + buf.length ≤ maxOffset) :
    Returns (seg.writeLoaded sp buf pos) w fun r w' =>
      r = ({ seg with dirty := true }, buf.length, none) ∧
        Leaves w (Function.update w.files file.name (some (overwrite 0 content pos buf))) w' := by
  have hcount : buf.length > 0 := List.length_pos_iff_ne_nil.mpr hbuf
  simp only [Segment.writeLoaded, Segment.loadFile, hlocal, returns_bind, returns_pure]
  refine (writeAt_spec hr rfl hopen hdata hle).mono fun r w' h => ?_
  obtain ⟨rfl, h⟩ := h
  simp only [hcount, decide_true, Bool.or_true]
  exact ⟨trivial, h⟩

lemma dropFile_local (hetag : sp.persistCache = false → w.files (eTagFileName file.name) = none)
    (hheld : sp.permit ≤ w.held) :
    Returns (seg.dropFile sp) w fun r w' =>
      r = ({ seg with localFile := none, backed := false }, none) ∧ w'.files file.name = none ∧
        w'.files (eTagFileName file.name) = none ∧
        StoreParams.SameBut file.name w.files w'.files ∧ w'.store = w.store ∧
        w'.held + sp.permit = w.held := by
  simp only [Segment.dropFile, hlocal, returns_bind]
  refine (StoreParams.removeFile_spec hr hopen hdata hetag).mono fun r w₁ h₁ => ?_
  obtain ⟨rfl, hgone, hsame, hetag₁, hstore₁, hheld₁⟩ := h₁
  simp only [returns_bind, returns_pure]
  refine (StoreParams.releaseCapacity_spec (hheld₁ ▸ hheld)).mono fun _ w₂ h₂ => ?_
  obtain ⟨hfiles₂, hstore₂, hheld₂⟩ := h₂
  rw [hfiles₂]
  exact ⟨trivial, hgone, hetag₁, hsame, hstore₂.trans hstore₁, hheld₂.trans hheld₁⟩

end Local

/-! ## Flushing and giving the local file up -/

/-- An upload of a segment's local file: it marks the segment clean, and either the new object has
its bytes or the segment is forgotten. -/
lemma flush_segment (hinv : SegInv sp law.toFaithful w seg content)
    (hfile : seg.localFile ≠ none) (buffered : Bool) :
    Returns (seg.flush sp buffered) w fun r w' =>
      SegStep sp law.toFaithful w seg content w' r.1 content ∧ r.1.dirty = false ∧
        r.1.localFile = seg.localFile ∧ w'.held = w.held ∧
        (r.2 = none → r.1.remoteItem ≠ none) ∧ (Faultless sp.env → r.2 = none) := by
  obtain ⟨file, hlocal⟩ := Option.ne_none_iff_exists'.mp hfile
  obtain ⟨rfl, hdata⟩ := hinv.opened file hlocal
  -- what is left of the segment once its object is the one of `item`, or nothing is known of it
  have hstep : ∀ (w₁ : World σ) (item : Option (Item σ)),
      Frame sp law.toFaithful (seg.name sp) w w₁ → w₁.files (seg.name sp) = some content →
      (sp.persistCache = false → w₁.files (eTagFileName (seg.name sp)) = none) →
      w₁.held = w.held → (Faultless sp.env → item ≠ none) →
      (∀ it, item = some it → law.Current w₁.store it (seg.name sp) ⟨content, .nil⟩) →
      SegStep sp law.toFaithful w seg content w₁ { seg with dirty := false, remoteItem := item }
        content := by
    intro w₁ item hframe hdata₁ hetag hheld hsome hcur
    refine ⟨⟨⟨hinv.length_eq, hinv.backed_eq, fun h => by simp at h, fun file hf =>
      ⟨(hinv.opened file hf).1, hdata₁⟩, ⟨Or.inr hdata₁, hetag⟩, fun it hit =>
      ⟨_, hcur it hit, hinv.length_eq⟩⟩,
      fun _ hn => ⟨fun it hit => ⟨_, hcur it hit⟩, fun hi => ?_⟩⟩, fun _ => Or.inl hfile,
      fun hf _ => ⟨fun hforgot => hsome hf hforgot.2.2, fun hi => absurd hi (hsome hf)⟩,
      rfl, hframe, by rw [hheld]; rfl, fun _ _ hc => hheld.trans_le hc⟩
    exact absurd ⟨rfl, by simp [hlocal], hi⟩ hn
  simp only [Segment.flush, hlocal, StoreParams.syncFile, returns_bind]
  refine (StoreParams.prepare_spec rfl hdata hinv.length_eq buffered).mono fun src w₁ h₁ => ?_
  obtain ⟨hsrc, hgood, h₁⟩ := h₁
  have hdata₁ : w₁.files (seg.name sp) = some content := by rw [h₁.files]; exact hdata
  have hetag₁ : sp.persistCache = false → w₁.files (eTagFileName (seg.name sp)) = none := by
    rw [h₁.files]
    exact hinv.cache.etag
  have hframe₁ : Frame sp law.toFaithful (seg.name sp) w w₁ :=
    Frame.of_files (by rw [h₁.files]; exact StoreParams.SameBut.refl _ _) h₁.store
  cases src with
  | error e =>
    have hfault : ¬ Faultless sp.env := fun hf => by simpa using hgood hf
    simp only [returns_pure, ← hlocal]
    refine ⟨hstep w₁ none hframe₁ hdata₁ hetag₁ h₁.held (fun hf => absurd hf hfault)
      (fun _ h => by simp at h), trivial, trivial, h₁.held, fun h => by simp at h,
      fun hf => absurd hf hfault⟩
  | ok src =>
    simp only [returns_bind]
    refine (StoreParams.upload_spec law (itoa seg.ID) (hsrc src rfl)).mono fun item w₂ h₂ => ?_
    obtain ⟨hcur, hgood₂, hkeeps, hobjects, hfiles₂, hheld₂⟩ := h₂
    have hframe₂ : Frame sp law.toFaithful (seg.name sp) w w₂ :=
      hframe₁.trans ⟨by rw [hfiles₂]; exact StoreParams.SameBut.refl _ _, hkeeps, hobjects⟩
    rw [← hfiles₂] at hdata₁ hetag₁
    have hheld : w₂.held = w.held := hheld₂.trans h₁.held
    cases item with
    | error e =>
      have hfault : ¬ Faultless sp.env := fun hf => by
        obtain rfl : src = ⟨content, none⟩ := Except.ok.inj (hgood hf)
        simpa using hgood₂ hf hinv.length_eq rfl
      simp only [returns_pure, ← hlocal]
      exact ⟨hstep w₂ none hframe₂ hdata₁ hetag₁ hheld (fun hf => absurd hf hfault)
        (fun _ h => by simp at h), trivial, trivial, hheld, fun h => by simp at h,
        fun hf => absurd hf hfault⟩
    | ok item =>
      simp only [returns_bind]
      refine (StoreParams.finishSync_spec (law.etag_total (hcur item rfl))).mono
        fun err w₃ h₃ => ?_
      obtain ⟨hnone, hstore₃, hheld₃, hsame₃, hkept₃, hetag₃⟩ := h₃
      simp only [returns_pure, ← hlocal]
      refine ⟨hstep w₃ (some item) (hframe₂.trans (Frame.of_files hsame₃ hstore₃))
        (hkept₃.trans hdata₁) (fun hp => by rw [hetag₃ hp]; exact hetag₁ hp) (hheld₃.trans hheld)
        (fun _ => by simp) (fun it hit => ?_), trivial, trivial, hheld₃.trans hheld,
        fun _ => by simp, fun hf => hnone (hf _)⟩
      obtain rfl := Option.some.inj hit
      rw [hstore₃]
      exact hcur item rfl

/-- `Flush` leaves a segment clean, and without an error not newly forgotten. -/
lemma Flush_segment (hinv : SegInv sp law.toFaithful w seg content) (buffered : Bool) :
    Returns (seg.Flush sp buffered) w fun r w' =>
      SegStep sp law.toFaithful w seg content w' r.1 content ∧ r.1.dirty = false ∧
        (r.2 = none → r.1.Forgotten → seg.Forgotten) ∧ (Faultless sp.env → r.2 = none) := by
  unfold Segment.Flush
  cases hd : seg.dirty with
  | false =>
    simp only [Bool.false_eq_true, if_false, returns_pure]
    exact ⟨SegStep.refl hinv, hd, fun _ h => h, fun _ => trivial⟩
  | true =>
    have hfile : seg.localFile ≠ none := by
      intro h
      simpa [h] using hinv.dirty_local hd
    simp only [if_true]
    refine (flush_segment hinv hfile buffered).mono fun r w₁ h₁ => ?_
    obtain ⟨hstep, hclean, -, -, hitem, hgood⟩ := h₁
    exact ⟨hstep, hclean, fun hn hf => absurd hf.2.2 (hitem hn), hgood⟩

lemma dropFile_segment (hr : Reliable sp.env) (hinv : SegInv sp law.toFaithful w seg content)
    (hfile : seg.localFile ≠ none) (hclean : seg.dirty = false) (hn : ¬ seg.Forgotten)
    (hheld : seg.holding sp ≤ w.held) :
    Returns (seg.dropFile sp) w fun r w' =>
      SegStep sp law.toFaithful w seg content w' r.1 content ∧ r.1.localFile = none ∧
        r.2 = none := by
  obtain ⟨file, hlocal⟩ := Option.ne_none_iff_exists'.mp hfile
  obtain ⟨rfl, hdata⟩ := hinv.opened file hlocal
  have hhold : seg.holding sp = sp.permit := by simp [Segment.holding, hinv.backed_eq, hlocal]
  rw [hhold] at hheld
  refine (dropFile_local hr hlocal rfl hdata hinv.cache.etag hheld).mono fun r w₁ h₁ => ?_
  obtain ⟨rfl, hgone, hetag, hsame, hstore, hheld₁⟩ := h₁
  obtain ⟨hrem, hz⟩ := hinv.synced hclean hn
  have hitem : seg.remoteItem ≠ none := fun hi => hn ⟨hclean, hfile, hi⟩
  refine ⟨⟨⟨⟨hinv.length_eq, rfl, fun h => ?_, fun _ h => by simp at h,
    ⟨Or.inl hgone, fun _ => hetag⟩, ?_⟩, fun _ _ => ⟨?_, hz⟩⟩, fun _ => Or.inr hitem,
    fun _ hk => ⟨fun hf => hf.2.1 rfl, ?_⟩, rfl, Frame.of_files hsame hstore, ?_,
    fun _ _ hc => by omega⟩, rfl, rfl⟩
  · exact absurd h (by simp [hclean])
  · rw [hstore]
    exact hinv.remote
  · rw [hstore]
    exact hrem
  · rw [hstore]
    exact hk.absent
  · rw [hhold]
    simpa [Segment.holding] using hheld₁

lemma deleteFile_segment (hr : Reliable sp.env) (hinv : SegInv sp law.toFaithful w seg content)
    (hn : ¬ seg.Forgotten) (hheld : seg.holding sp ≤ w.held) :
    Returns (seg.deleteFile sp) w fun r w' =>
      SegStep sp law.toFaithful w seg content w' r.1 content ∧ r.1.dirty = false ∧
        (r.2 = none → r.1.localFile = none) ∧ (r.2 ≠ none → w'.held = w.held) ∧
        (seg.dirty = false → r.2 = none) ∧ (Faultless sp.env → r.2 = none) := by
  unfold Segment.deleteFile
  cases hb : seg.backed with
  | false =>
    have hfile : seg.localFile = none := by simpa [hb] using hinv.backed_eq.symm
    simp only [Bool.false_eq_true, if_false, returns_pure]
    exact ⟨SegStep.refl hinv, hinv.clean_of_absent hfile, fun _ => hfile, fun _ => trivial,
      fun _ => trivial, fun _ => trivial⟩
  | true =>
    have hfile : seg.localFile ≠ none := by
      intro h
      simp [hinv.backed_eq, h] at hb
    simp only [if_true]
    cases hd : seg.dirty with
    | false =>
      -- the object has the bytes already
      simp only [Bool.false_eq_true, if_false]
      refine (dropFile_segment hr hinv hfile hd hn hheld).mono fun r w₁ h₁ => ?_
      obtain ⟨hstep, hnone, herr⟩ := h₁
      exact ⟨hstep, hstep.inv.clean_of_absent hnone, fun _ => hnone, fun h => absurd herr h,
        fun _ => herr, fun _ => herr⟩
    | true =>
      simp only [if_true, returns_bind]
      refine (flush_segment hinv hfile false).mono fun r w₁ h₁ => ?_
      obtain ⟨seg₁, err⟩ := r
      obtain ⟨hstep, hclean, hlocal, hheld₁, hitem, hgood⟩ := h₁
      simp only at hstep hclean hlocal hitem hgood
      have hhold : seg₁.holding sp = seg.holding sp := by
        have := hstep.held
        omega
      cases err with
      | some e =>
        obtain ⟨file, hsome⟩ := Option.ne_none_iff_exists'.mp hfile
        simp only [hlocal, hsome, returns_pure]
        exact ⟨hstep, hclean, fun h => by simp at h, fun _ => hheld₁, fun h => by simp at h,
          fun hf => by simpa using hgood hf⟩
      | none =>
        have hn₁ : ¬ seg₁.Forgotten := fun hf => hitem rfl hf.2.2
        refine (dropFile_segment hr hstep.inv (hlocal ▸ hfile) hclean hn₁
          (by rw [hhold, hheld₁]; exact hheld)).mono fun r w₂ h₂ => ?_
        obtain ⟨hstep₂, hnone, herr⟩ := h₂
        exact ⟨hstep.trans hstep₂, hstep₂.inv.clean_of_absent hnone, fun _ => hnone,
          fun h => absurd herr h, fun _ => herr, fun _ => herr⟩

end Calls

end Usbd
