import Usbd.Objstore.DeviceRace
import Usbd.Objstore.LocalCopies

/-!
# Local files that are used again

A device with a persistent cache leaves its local files behind when the process stops, and the next
one uses those again whose ETag file is that of the remote object.  An ETag file is written at the
end of an upload and stays until the local file is evicted, so that a write behind the upload is not
seen by the next device (`reuses_write_after_flush`): it takes the file for a copy of the object and
the segment for clean.

`next_trail` follows the files through every section of a segment, with any faults, and
`DevTrail.step` through the steps of a device.  What comes of it is `reuses_exactly_of_settled`:
files are used again rightly after a stop in a settled state, one in which no segment with an ETag
beside its local file is dirty, on its way to the store, or without an item because its last upload
has failed.  Nothing else is asked of the runs before and after the stop.
-/

namespace Usbd

open ListMemory Prog

variable {σ : Type}

/-! ## Segments -/

/-- What ties a segment to its files and its object while no upload is on the way: without a local
file the directory is coherent, and with one the file is a copy of the object, if the segment is
clean and its last upload has succeeded. -/
structure Traced (sp : StoreParams σ) (law : Plain sp.container) (w : World σ) (seg : Segment σ) :
    Prop where
  item : ∀ it, seg.remoteItem = some it → ∃ o, law.Current w.store it (seg.name sp) o
  shut : seg.localFile = none → sp.Coherent law.toFaithful w (seg.name sp)
  /-- A file that is created here will find no ETag, or no object. -/
  blank : seg.localFile = none → seg.remoteItem = none →
    w.files (eTagFileName (seg.name sp)) = none ∨ law.objects w.store (seg.name sp) = none
  named : ∀ file, seg.localFile = some file → file.name = seg.name sp
  clean : seg.localFile ≠ none → seg.dirty = false → seg.remoteItem ≠ none →
    ∀ o, law.objects w.store (seg.name sp) = some o → sp.Copies w (seg.name sp) o.data

/-- An upload on the way: its bytes are those of the local file, unless that is written to again. -/
inductive Payload (sp : StoreParams σ) (law : Plain sp.container) (w : World σ) (name : GoString)
    (dirty : Bool) : Proc σ → Prop
  | sending {errand : Errand} {file : File} {src : Reader} {snap : Bytes}
      (hname : file.name = name) (hsnap : dirty = false → sp.Copies w name snap)
      (hsrc : StoreParams.Streams snap src) : Payload sp law w name dirty (.sending errand file src)
  | sent {errand : Errand} {file : File} {item : Except GoError (Item σ)} {snap : Bytes}
      (hname : file.name = name) (hsnap : dirty = false → sp.Copies w name snap)
      (hcur : ∀ it, item = .ok it → law.Current w.store it name ⟨snap, .nil⟩) :
      Payload sp law w name dirty (.sent errand file item)

/-- A segment and its files, with or without an upload on the way. -/
inductive Trail (sp : StoreParams σ) (law : Plain sp.container) (w : World σ) (seg : Segment σ) :
    Option (Proc σ) → Prop
  | quiet (htraced : Traced sp law w seg) : Trail sp law w seg none
  | flight {p : Proc σ} (hnamed : ∀ file, seg.localFile = some file → file.name = seg.name sp)
      (hgone : seg.localFile = none →
        w.files (seg.name sp) = none ∧ w.files (eTagFileName (seg.name sp)) = none)
      (hload : Payload sp law w (seg.name sp) seg.dirty p) : Trail sp law w seg (some p)

/-- What a section leaves of the other segments. -/
structure SegKeeps (sp : StoreParams σ) (law : Faithful sp.container) (w : World σ)
    (seg : Segment σ) (w' : World σ) (seg' : Segment σ) : Prop where
  id_eq : seg'.ID = seg.ID
  frame : Frame sp law (seg.name sp) w w'

section Segments

variable {sp : StoreParams σ} {law : Plain sp.container} {w w' : World σ} {seg : Segment σ}
  {f : Option (Proc σ)} {errand : Errand} {file : File}

lemma SegKeeps.refl : SegKeeps sp law.toFaithful w seg w seg := ⟨rfl, .refl⟩

lemma SegKeeps.trans {w'' : World σ} {seg' seg'' : Segment σ}
    (h : SegKeeps sp law.toFaithful w seg w' seg')
    (h' : SegKeeps sp law.toFaithful w' seg' w'' seg'') :
    SegKeeps sp law.toFaithful w seg w'' seg'' := by
  have hname : seg'.name sp = seg.name sp := by
    rw [Segment.name, h.id_eq]
    rfl
  exact ⟨h'.id_eq.trans h.id_eq, h.frame.trans (hname ▸ h'.frame)⟩

lemma Traced.absent (hlocal : seg.localFile = none)
    (hitem : ∀ it, seg.remoteItem = some it → ∃ o, law.Current w.store it (seg.name sp) o)
    (hcoh : sp.Coherent law.toFaithful w (seg.name sp))
    (hblank : seg.remoteItem = none →
      w.files (eTagFileName (seg.name sp)) = none ∨ law.objects w.store (seg.name sp) = none) :
    Traced sp law w seg where
  item := hitem
  shut _ := hcoh
  blank _ := hblank
  named file hfile := by
    rw [hlocal] at hfile
    cases hfile
  clean hne := absurd hlocal hne

lemma Traced.present (hlocal : seg.localFile = some file) (hname : file.name = seg.name sp)
    (hitem : ∀ it, seg.remoteItem = some it → ∃ o, law.Current w.store it (seg.name sp) o)
    (hclean : seg.dirty = false → seg.remoteItem ≠ none →
      ∀ o, law.objects w.store (seg.name sp) = some o → sp.Copies w (seg.name sp) o.data) :
    Traced sp law w seg where
  item := hitem
  shut hnone := by
    rw [hlocal] at hnone
    cases hnone
  blank hnone := by
    rw [hlocal] at hnone
    cases hnone
  named file' hfile := by
    obtain rfl : file = file' := Option.some.inj (hlocal.symm.trans hfile)
    exact hname
  clean _ := hclean

lemma Traced.clears (h : Traced sp law w seg) (hc : Clears (seg.name sp) w w') :
    Traced sp law w' seg where
  item it hit := by
    rw [hc.store]
    exact h.item it hit
  shut hnone := (h.shut hnone).clears hc
  blank hnone hitem := by
    rcases hc.etag with hsame | hgone
    · rw [hsame, hc.store]
      exact h.blank hnone hitem
    · exact Or.inl hgone
  named := h.named
  clean hlocal hd hitem o ho := by
    rw [hc.store] at ho
    exact (h.clean hlocal hd hitem o ho).clears hc

lemma Payload.clears {name : GoString} {dirty : Bool} {p : Proc σ}
    (h : Payload sp law w name dirty p) (hc : Clears name w w') :
    Payload sp law w' name dirty p := by
  cases h with
  | sending hname hsnap hsrc => exact .sending hname (fun hd => (hsnap hd).clears hc) hsrc
  | sent hname hsnap hcur =>
    refine .sent hname (fun hd => (hsnap hd).clears hc) fun it hit => ?_
    rw [hc.store]
    exact hcur it hit

lemma Trail.clears (h : Trail sp law w seg f) (hc : Clears (seg.name sp) w w') :
    Trail sp law w' seg f := by
  cases h with
  | quiet htraced => exact .quiet (htraced.clears hc)
  | flight hnamed hgone hload =>
    refine .flight hnamed (fun hnone => ?_) (hload.clears hc)
    obtain ⟨hdata, hetag⟩ := hgone hnone
    have := hc.data
    have := hc.etag
    simp_all

lemma Trail.named (h : Trail sp law w seg f) (hlocal : seg.localFile = some file) :
    file.name = seg.name sp := by
  cases h with
  | quiet htraced => exact htraced.named file hlocal
  | flight hnamed _ _ => exact hnamed file hlocal

/-- The time of use says nothing about the files. -/
lemma Trail.touch (h : Trail sp law w seg f) (hl : Leaves w w.files w') (lastRead lastWrite : ℤ) :
    Trail sp law w' { seg with lastRead, lastWrite } f := by
  cases h.clears (.of_eq hl.files hl.store) with
  | quiet ht => exact .quiet ⟨ht.item, ht.shut, ht.blank, ht.named, ht.clean⟩
  | flight hnamed hgone hload => exact .flight hnamed hgone hload

/-- A segment that has its local file, or gets one: a copy of the object, or a new one that is no
older than any ETag. -/
lemma Trail.load (h : Trail sp law w seg f) (htags : law.TagsAgree)
    (hfree : seg.localFile = none → f = none) (createWrite : Bool) :
    Yields (seg.loadFile sp createWrite) w fun r w' =>
      Trail sp law w' r.1 f ∧ SegKeeps sp law.toFaithful w seg w' r.1 ∧
        (seg.localFile ≠ none → r.1 = seg) ∧
        ∀ file, r.2 = .ok (some file) → r.1.localFile = some file := by
  unfold Segment.loadFile
  cases hlocal : seg.localFile with
  | some file =>
    refine (yields_pure _).mpr ⟨h, .refl, fun _ => rfl, fun file' hfile => ?_⟩
    obtain rfl : file = file' := by simpa using hfile
    exact hlocal
  | none =>
    obtain rfl := hfree hlocal
    cases h with
    | quiet ht =>
    cases hitem : seg.remoteItem with
    | some item =>
      obtain ⟨o, hcur⟩ := ht.item item hitem
      -- the directory is coherent behind a download, whether or not it has succeeded
      simp only [yields_bind, yields_pure]
      refine (StoreParams.downloadFile_copies htags hcur (ht.shut hlocal)).mono fun r w' hd => ?_
      obtain ⟨htouches, hcoh, hfile⟩ := hd
      have hcur' : law.Current w'.store item (seg.name sp) o := htouches.store.symm ▸ hcur
      have hitems : ∀ it, some item = some it → ∃ o, law.Current w'.store it (seg.name sp) o := by
        rintro it ⟨⟩
        exact ⟨o, hcur'⟩
      rcases r with e | _ | file
      · refine ⟨.quiet (.absent hlocal (hitem ▸ hitems) hcoh fun hnone => ?_),
          ⟨rfl, htouches.frame⟩, fun hne => absurd rfl hne, by simp⟩
        rw [hitem] at hnone
        cases hnone
      · exact ⟨.quiet (.absent rfl hitems hcoh (by simp)), ⟨rfl, htouches.frame⟩,
          fun hne => absurd rfl hne, by simp⟩
      · obtain ⟨hname, hcopies⟩ := hfile file rfl
        refine ⟨.quiet (.present rfl hname hitems fun _ _ o' ho' => ?_), ⟨rfl, htouches.frame⟩,
          fun hne => absurd rfl hne, fun file' hfile' => ?_⟩
        · obtain rfl : o = o' := Option.some.inj ((law.current_object hcur').symm.trans ho')
          exact hcopies
        · obtain rfl : file = file' := by simpa using hfile'
          rfl
    | none =>
      simp only
      split_ifs
      · simp only [yields_bind, yields_pure]
        refine (StoreParams.createFile_rewrites (itoa seg.ID)).yields.mono fun r w' hnew => ?_
        obtain ⟨hwrites, hfile⟩ := hnew
        have hblank : w'.files (eTagFileName (seg.name sp)) = none ∨
            law.objects w'.store (seg.name sp) = none := by
          -- creating the file touches neither its tag nor the object
          have hetag := hwrites.etag
          rw [hwrites.store]
          exact (ht.blank hlocal hitem).imp_left hetag.trans
        have hcoh : sp.Coherent law.toFaithful w' (seg.name sp) := by
          intro d tag o _ htag _ _ ho
          rcases hblank with hnone | hnone
          · rw [hnone] at htag
            cases htag
          · rw [hnone] at ho
            cases ho
        rcases r with e | _ | file
        · refine ⟨.quiet (.absent hlocal (fun it hit => ?_) hcoh fun _ => hblank),
            ⟨rfl, hwrites.touches.frame⟩, fun hne => absurd rfl hne, by simp⟩
          rw [hitem] at hit
          cases hit
        · exact ⟨.quiet (.absent rfl (by simp) hcoh fun _ => hblank),
            ⟨rfl, hwrites.touches.frame⟩, fun hne => absurd rfl hne, by simp⟩
        · refine ⟨.quiet (.present rfl (hfile file rfl) (by simp) fun _ hne => absurd rfl hne),
            ⟨rfl, hwrites.touches.frame⟩, fun hne => absurd rfl hne, fun file' hfile' => ?_⟩
          obtain rfl : file = file' := by simpa using hfile'
          rfl
      · exact (yields_pure _).mpr ⟨.quiet ht, .refl, fun hne => absurd rfl hne, by simp⟩

lemma Trail.read (h : Trail sp law w seg f) (htags : law.TagsAgree)
    (hfree : seg.localFile = none → f = none) (buf : Bytes) (pos : ℤ) :
    Yields (seg.readLoaded sp buf pos) w fun r w' =>
      Trail sp law w' r.1 f ∧ SegKeeps sp law.toFaithful w seg w' r.1 ∧
        (seg.localFile ≠ none → r.1 = seg) := by
  refine Segment.yields_readLoaded ((h.load htags hfree false).mono fun r w₁ h₁ => ?_)
  obtain ⟨htrail, hkeeps, hsame, -⟩ := h₁
  refine ⟨fun _ _ => ⟨htrail, hkeeps, hsame⟩, fun _ _ _ _ => ⟨htrail, hkeeps, hsame⟩, fun _ _ => ?_⟩
  refine readAt_faulty.yields.mono fun _ w₂ h₂ => ?_
  have hclears : Clears (r.1.name sp) w₁ w₂ := .of_eq h₂.files h₂.store
  exact ⟨htrail.clears hclears, hkeeps.trans ⟨rfl, hclears.toTouches.frame⟩, hsame⟩

/-- Writing no bytes leaves a copy a copy. -/
lemma StoreParams.Copies.wrote {buf data : Bytes} {pos : ℤ} {r : ℕ × Option GoError}
    (hpos : 0 < sp.segmentBytes) (h : sp.Copies w file.name data)
    (hwrote : Leaves w w.files w' ∨ ∃ fault, r = (fileWriteAt (file.bytes w) buf pos fault).2 ∧
      Leaves w (Function.update w.files file.name
        (some (fileWriteAt (file.bytes w) buf pos fault).1)) w')
    (hcount : r.1 = 0) :
    sp.Copies w' file.name data := by
  intro d hd hlen
  rcases hwrote with hl | ⟨fault, rfl, hl⟩
  · rw [hl.files] at hd
    exact h d hd hlen
  · rw [hl.files, Function.update_self, fileWriteAt_of_count_eq_zero hcount] at hd
    obtain rfl := Option.some.inj hd
    cases hfile : w.files file.name with
    | some d =>
      rw [File.bytes, hfile] at hlen ⊢
      exact h d hfile hlen
    | none =>
      rw [File.bytes, hfile] at hlen
      exact absurd hlen hpos.ne

/-- A write changes the local file, and marks the segment dirty unless it has written nothing. -/
lemma Trail.write (h : Trail sp law w seg f) (htags : law.TagsAgree) (hpos : 0 < sp.segmentBytes)
    (hfree : seg.localFile = none → f = none) (buf : Bytes) (pos : ℤ) :
    Yields (seg.writeLoaded sp buf pos) w fun r w' =>
      Trail sp law w' r.1 f ∧ SegKeeps sp law.toFaithful w seg w' r.1 := by
  simp only [Segment.writeLoaded, yields_bind]
  refine (h.load htags hfree true).mono fun r w₁ h₁ => ?_
  obtain ⟨seg₁, data⟩ := r
  obtain ⟨htrail, hkeeps, -, hfile⟩ := h₁
  rcases data with e | _ | file
  · exact (yields_pure _).mpr ⟨htrail, hkeeps⟩
  · exact (yields_pure _).mpr ⟨htrail, hkeeps⟩
  have hlocal : seg₁.localFile = some file := hfile file rfl
  have hname : file.name = seg₁.name sp := htrail.named hlocal
  simp only [yields_bind]
  refine writeAt_faulty.yields.mono fun r w₂ hwrote => ?_
  have hwrites : Rewrites (seg₁.name sp) w₁ w₂ := by
    rw [← hname]
    rcases hwrote with hl | ⟨fault, -, hl⟩
    · exact .of_eq hl.files hl.store
    · exact .of_update hl
  have hcopies : ∀ snap, (seg₁.dirty || decide (r.1 > 0)) = false →
      (seg₁.dirty = false → sp.Copies w₁ (seg₁.name sp) snap) →
      sp.Copies w₂ (seg₁.name sp) snap := by
    intro snap hd hsnap
    obtain ⟨hclean, hcount⟩ := Bool.or_eq_false_iff.mp hd
    rw [← hname] at hsnap ⊢
    exact (hsnap hclean).wrote hpos hwrote (by simpa using hcount)
  refine (yields_pure _).mpr ⟨?_, hkeeps.trans ⟨rfl, hwrites.touches.frame⟩⟩
  cases htrail with
  | quiet ht =>
    refine .quiet (.present hlocal hname ?_ fun hd hitem o ho => ?_)
    · rw [hwrites.store]
      exact ht.item
    · rw [hwrites.store] at ho
      exact hcopies o.data hd fun hclean => ht.clean (by simp [hlocal]) hclean hitem o ho
  | flight hnamed _ hload =>
    refine .flight hnamed (fun hnone => ?_) ?_
    · rw [show seg₁.localFile = none from hnone] at hlocal
      cases hlocal
    · cases hload with
      | sending hfile hsnap hsrc => exact .sending hfile (fun hd => hcopies _ hd hsnap) hsrc
      | sent hfile hsnap hcur =>
        refine .sent hfile (fun hd => hcopies _ hd hsnap) fun it hit => ?_
        rw [hwrites.store]
        exact hcur it hit

/-- A segment that gives its local file up leaves no ETag file behind. -/
lemma Trail.drop (h : Trail sp law w seg f) (hpersist : sp.persistCache = true) :
    Yields (seg.dropFile sp) w fun r w' =>
      Trail sp law w' r.1 f ∧ SegKeeps sp law.toFaithful w seg w' r.1 := by
  unfold Segment.dropFile
  cases hlocal : seg.localFile with
  | none => exact yields_stop _
  | some file =>
    have hname := h.named hlocal
    simp only [yields_bind]
    refine (StoreParams.removeFile_clears hpersist file).yields.mono fun r w₁ h₁ => ?_
    obtain ⟨file₁, err⟩ := r
    obtain ⟨hname₁, hclears, hgone⟩ := h₁
    rw [hname] at hname₁ hclears hgone
    have hkeeps : ∀ {w₂ : World σ}, w₂.files = w₁.files → w₂.store = w₁.store →
        Frame sp law.toFaithful (seg.name sp) w w₂ := fun hfiles hstore =>
      (hclears.trans (.of_eq hfiles hstore)).toTouches.frame
    cases err with
    | some e =>
      -- the segment keeps the closed handle
      refine (yields_pure _).mpr ⟨?_, rfl, hkeeps rfl rfl⟩
      cases h.clears hclears with
      | quiet ht =>
        exact .quiet (.present rfl hname₁ ht.item (ht.clean (by simp [hlocal])))
      | flight _ _ hload =>
        refine .flight ?_ (by simp) hload
        rintro file' ⟨⟩
        exact hname₁
    | none =>
      obtain ⟨hdata, hetag⟩ := hgone rfl
      simp only [yields_bind]
      refine StoreParams.releaseCapacity_files.mono fun _ w₂ h₂ => ?_
      obtain ⟨hfiles, hstore⟩ := h₂
      rw [← hfiles] at hdata hetag
      refine (yields_pure _).mpr ⟨?_, rfl, hkeeps hfiles hstore⟩
      cases h.clears (hclears.trans (.of_eq hfiles hstore)) with
      | quiet ht =>
        exact .quiet (.absent rfl ht.item (StoreParams.coherent_of_absent hdata)
          fun _ => Or.inl hetag)
      | flight _ _ hload => exact .flight (by simp) (fun _ => ⟨hdata, hetag⟩) hload

lemma Trail.snapshot (h : Trail sp law w seg none) (hlocal : seg.localFile = some file)
    (errand : Errand) :
    Returns (sp.prepare file errand.buffered) w fun r w' => Leaves w w.files w' ∧
      (∀ e, r = .error e → Trail sp law w' { seg with dirty := false, remoteItem := none } none) ∧
      ∀ src, r = .ok src →
        Trail sp law w' { seg with dirty := false } (some (.sending errand file src)) := by
  have hname := h.named hlocal
  refine (StoreParams.prepare_streams file errand.buffered).mono fun r w' hprep => ?_
  obtain ⟨hl, hsrc⟩ := hprep
  refine ⟨hl, fun e _ => .quiet (.present hlocal hname (by simp) fun _ hne => absurd rfl hne), ?_⟩
  intro src hr
  refine .flight ?_ (fun hnone => ?_) (.sending hname (fun _ d hd _ => ?_) (hsrc src hr))
  · intro file' hfile
    exact h.named hfile
  · rw [show seg.localFile = none from hnone] at hlocal
    cases hlocal
  · rw [hl.files] at hd
    rw [File.bytes, hname]
    exact (congrArg (Option.getD · []) hd).symm

lemma Trail.upload {src : Reader} (h : Trail sp law w seg (some (.sending errand file src))) :
    Returns (sp.upload (itoa seg.ID) src) w fun item w' =>
      Trail sp law w' seg (some (.sent errand file item)) ∧
        Frame sp law.toFaithful (seg.name sp) w w' := by
  cases h with
  | flight hnamed hgone hload =>
    cases hload with
    | sending hname hsnap hsrc =>
      refine (StoreParams.upload_spec law (itoa seg.ID) hsrc).mono fun item w' hput => ?_
      obtain ⟨hcur, -, hkeeps, hobjects, hfiles, -⟩ := hput
      refine ⟨.flight hnamed ?_ (.sent hname (fun hd d hfile => ?_) hcur), ?_, hkeeps, hobjects⟩
      · rw [hfiles]
        exact hgone
      · rw [hfiles] at hfile
        exact hsnap hd d hfile
      · rw [hfiles]
        exact StoreParams.SameBut.refl _ _

lemma Trail.failed {e : GoError} (h : Trail sp law w seg (some (.sent errand file (.error e)))) :
    Trail sp law w { seg with remoteItem := none } none := by
  cases h with
  | flight hnamed hgone hload =>
    refine .quiet ?_
    cases hlocal : seg.localFile with
    | none =>
      obtain ⟨hdata, hetag⟩ := hgone hlocal
      exact .absent rfl (by simp) (StoreParams.coherent_of_absent hdata) fun _ => Or.inl hetag
    | some file => exact .present rfl (hnamed file hlocal) (by simp) fun _ hne => absurd rfl hne

/-- An upload that has succeeded leaves its ETag behind, which goes with the local file unless the
segment is dirty again. -/
lemma Trail.finish {item : Item σ} (h : Trail sp law w seg (some (.sent errand file (.ok item)))) :
    Returns (sp.finishSync file item) w fun _ w' =>
      Trail sp law w' { seg with remoteItem := some item } none ∧
        Frame sp law.toFaithful (seg.name sp) w w' := by
  cases h with
  | flight hnamed hgone hload =>
    cases hload with
    | @sent _ _ _ snap hname hsnap hcur =>
      have hcur := hcur item rfl
      refine (StoreParams.finishSync_spec (law.etag_total hcur)).mono fun err w' hfin => ?_
      obtain ⟨-, hstore, -, hsame, hdata, -⟩ := hfin
      rw [hname] at hsame hdata
      rw [← hstore] at hcur
      have hitems : ∀ it, some item = some it → ∃ o, law.Current w'.store it (seg.name sp) o := by
        rintro it ⟨⟩
        exact ⟨_, hcur⟩
      refine ⟨.quiet ?_, .of_files hsame hstore⟩
      cases hlocal : seg.localFile with
      | none =>
        have habsent : w'.files (seg.name sp) = none := hdata.trans (hgone hlocal).1
        exact .absent rfl hitems (StoreParams.coherent_of_absent habsent) (by simp)
      | some file =>
        refine .present rfl (hnamed file hlocal) hitems fun hd _ o ho d hfile => ?_
        obtain rfl := Option.some.inj ((law.current_object hcur).symm.trans ho)
        exact hsnap hd d (hdata ▸ hfile)

end Segments

/-! ## Sections -/

/-- A cache directory that is kept, with ETags that tell contents apart. -/
structure CachePersists (sp : StoreParams σ) (law : Plain sp.container) : Prop where
  pos : 0 < sp.segmentBytes
  persist : sp.persistCache = true
  tags : law.TagsAgree

/-- A segment with its goroutines, and its files. -/
structure CellTrail (sp : StoreParams σ) (law : Plain sp.container) (w : World σ) (c : Cell σ) :
    Prop where
  trail : Trail sp law w c.seg c.flight
  locks : LockInv sp c

/-- What a section leaves: a trail, and the segment's content. -/
abbrev Cell.Trails (sp : StoreParams σ) (law : Plain sp.container) (w : World σ) (c c' : Cell σ)
    (w' : World σ) : Prop :=
  CellTrail sp law w' c' ∧ SegKeeps sp law.toFaithful w c.seg w' c'.seg

section Cells

variable {sp : StoreParams σ} {law : Plain sp.container} {w w' : World σ} {c : Cell σ} {t : ℕ}
  {p : Proc σ} {errand : Errand} {file : File}

lemma CellTrail.goto (h : CellTrail sp law w c) (hp : (c.procs t).Lockless) (hp' : p.Lockless)
    (hrange : ∀ call, p.call? = some call → call.InRange sp.segmentBytes) {seg : Segment σ}
    (hlocal : ¬ c.Free → seg.localFile = c.seg.localFile)
    (hclean : c.writer ≠ none → seg.dirty = c.seg.dirty)
    (htrail : Trail sp law w' seg c.flight) : CellTrail sp law w' ({ c with seg }.goto t p) where
  trail := by
    have hflight : ({ c with seg }.goto t p).flight = c.flight := h.locks.flight_eq hp.2 rfl rfl
    rw [hflight]
    exact htrail
  locks := h.locks.goto hp hp' hrange hlocal hclean

section Sections

variable (h : CellTrail sp law w c)

include h

lemma startRead_trail (hc : CachePersists sp law) {buf : Bytes} {pos : ℕ}
    (ht : c.procs t = .called (.readAt buf pos)) :
    Yields (c.startRead sp t buf pos) w (c.Trails sp law w) := by
  have hp : (c.procs t).Lockless := by
    rw [ht]
    exact ⟨rfl, rfl⟩
  simp only [Cell.startRead, yields_bind]
  refine Returns.yields (returns_timeNow.mpr ?_)
  have htick : Leaves w w.files { w with tick := w.tick + 1 } := leaves_tick _ _
  have htouch := h.trail.touch htick (sp.env.now w.tick) c.seg.lastWrite
  have hkeeps : SegKeeps sp law.toFaithful w c.seg { w with tick := w.tick + 1 }
      { c.seg with lastRead := sp.env.now w.tick } :=
    ⟨rfl, Touches.frame ⟨rfl, .refl _ _⟩⟩
  by_cases hlocal : c.seg.localFile = none
  · rw [if_pos hlocal]
    refine (yields_pure _).mpr
      ⟨h.goto hp ⟨rfl, rfl⟩ ?_ (fun _ => rfl) (fun _ => rfl) htouch, hkeeps⟩
    rintro call ⟨⟩
    exact h.locks.range t _ (by rw [ht]; rfl)
  · rw [if_neg hlocal]
    simp only [Cell.read, yields_bind]
    refine (htouch.read hc.tags (fun hnone => absurd hnone hlocal) buf pos).mono fun r w₁ h₁ => ?_
    obtain ⟨seg₁, res⟩ := r
    obtain ⟨htrail, hkeeps₁, hsame⟩ := h₁
    obtain rfl := hsame hlocal
    refine (yields_pure _).mpr ⟨h.goto hp ⟨rfl, rfl⟩ ?_ (fun _ => rfl) (fun _ => rfl) htrail,
      hkeeps.trans hkeeps₁⟩
    rintro call ⟨⟩

lemma startWrite_trail {buf : Bytes} {pos : ℕ} (ht : c.procs t = .called (.writeAt buf pos)) :
    Yields (c.startWrite sp t buf pos) w (c.Trails sp law w) := by
  have hp : (c.procs t).Lockless := by
    rw [ht]
    exact ⟨rfl, rfl⟩
  simp only [Cell.startWrite, yields_bind]
  refine Returns.yields (returns_timeNow.mpr ?_)
  have htick : Leaves w w.files { w with tick := w.tick + 1 } := leaves_tick _ _
  have htouch := h.trail.touch htick c.seg.lastRead (sp.env.now w.tick)
  have hkeeps : SegKeeps sp law.toFaithful w c.seg { w with tick := w.tick + 1 }
      { c.seg with lastWrite := sp.env.now w.tick } :=
    ⟨rfl, Touches.frame ⟨rfl, .refl _ _⟩⟩
  split_ifs
  · refine (yields_pure _).mpr
      ⟨h.goto hp ⟨rfl, rfl⟩ ?_ (fun _ => rfl) (fun _ => rfl) htouch, hkeeps⟩
    rintro call ⟨⟩
  · refine (yields_pure _).mpr
      ⟨h.goto hp ⟨rfl, rfl⟩ ?_ (fun _ => rfl) (fun _ => rfl) htouch, hkeeps⟩
    rintro call ⟨⟩
    exact h.locks.range t _ (by rw [ht]; rfl)

lemma CellTrail.ends (hp : (c.procs t).Lockless) (hfree : c.Free) {seg : Segment σ}
    (htrail : Trail sp law w' seg c.flight) (res : SegResult) :
    CellTrail sp law w' ({ c with seg }.goto t (.done res)) := by
  refine h.goto hp ⟨rfl, rfl⟩ ?_ (fun hno => absurd hfree hno)
    (fun hno => absurd hfree.2 hno) htrail
  rintro call ⟨⟩

lemma read_trail (hc : CachePersists sp law) {buf : Bytes} {pos : ℕ} (hp : (c.procs t).Lockless)
    (hfree : c.Loadable) :
    Yields (c.read sp t buf pos) w (c.Trails sp law w) := by
  simp only [Cell.read, yields_bind, yields_pure]
  refine (h.trail.read hc.tags (fun hnone => Cell.flight_eq_none (hfree.2 hnone)) buf pos).mono
    fun r w₁ h₁ => ?_
  exact ⟨h.ends hp hfree.1 h₁.1 _, h₁.2.1⟩

lemma write_trail (hc : CachePersists sp law) {buf : Bytes} {pos : ℕ} (hp : (c.procs t).Lockless)
    (hfree : c.Loadable) :
    Yields (c.write sp t buf pos) w (c.Trails sp law w) := by
  simp only [Cell.write, yields_bind, yields_pure]
  refine (h.trail.write hc.tags hc.pos (fun hnone => Cell.flight_eq_none (hfree.2 hnone))
    buf pos).mono fun r w₁ h₁ => ?_
  exact ⟨h.ends hp hfree.1 h₁.1 _, h₁.2⟩

lemma rLock_trail {buffered : Bool} (ht : c.procs t = .locking buffered) (hwriter : c.writer = none)
    : c.Trails sp law w (c.rLock t buffered) w := by
  have hp : (c.procs t).Lockless := by
    rw [ht]
    exact ⟨rfl, rfl⟩
  unfold Cell.rLock
  cases hlocal : c.seg.localFile with
  | none =>
    refine ⟨h.goto hp ⟨rfl, rfl⟩ ?_ (fun _ => rfl) (fun _ => rfl) h.trail, .refl⟩
    rintro call ⟨⟩
  | some file =>
    have hflight : ({ c with readers := insert t c.readers }.goto t
        (.waiting buffered file)).flight = c.flight := h.locks.flight_eq hp.2 rfl rfl
    refine ⟨⟨?_, h.locks.rLock ht hwriter hlocal⟩, .refl⟩
    rw [hflight]
    exact h.trail

lemma snapshot_trail (hitem : c.itemMu = none) (hlocal : c.seg.localFile = some file)
    (hreads : t ∈ c.readers ↔ errand ≠ .evict) (hfree : errand = .evict → c.readers = ∅) :
    Yields (c.snapshot sp t errand file) w (c.Trails sp law w) := by
  have htrail : Trail sp law w c.seg none := Cell.flight_eq_none hitem ▸ h.trail
  simp only [Cell.snapshot, yields_bind]
  refine (htrail.snapshot hlocal errand).yields.mono fun r w₁ h₁ => ?_
  obtain ⟨hl, herr, hsrc⟩ := h₁
  have hframe : Frame sp law.toFaithful (c.seg.name sp) w w₁ := by
    refine .of_files ?_ hl.store
    rw [hl.files]
    exact .refl _ _
  cases r with
  | error e =>
    refine (yields_pure _).mpr ⟨⟨?_, h.locks.abandon hitem rfl⟩, rfl, hframe⟩
    rw [Cell.flight_eq_none (by simpa using hitem)]
    exact herr e rfl
  | ok src =>
    refine (yields_pure _).mpr ⟨⟨?_, h.locks.start hitem hlocal hreads hfree⟩, rfl, hframe⟩
    rw [Cell.flight_eq_some rfl, Cell.goto_procs, Function.update_self]
    exact hsrc src rfl

lemma send_trail {src : Reader} (ht : c.procs t = .sending errand file src) :
    Yields (c.send sp t errand file src) w (c.Trails sp law w) := by
  have hitem : c.itemMu = some t := (h.locks.itemMu t).mpr (by simp [ht, Proc.errand?])
  have htrail : Trail sp law w c.seg (some (.sending errand file src)) := by
    rw [← ht, ← Cell.flight_eq_some hitem]
    exact h.trail
  simp only [Cell.send, yields_bind, yields_pure]
  refine htrail.upload.yields.mono fun item w₁ h₁ => ⟨⟨?_, h.locks.sent ht item⟩, rfl, h₁.2⟩
  rw [Cell.flight_eq_some (t := t) (by simpa using hitem), Cell.goto_procs, Function.update_self]
  exact h₁.1

/-- The end of an upload: the locks go, and with an eviction the local file. -/
lemma finish_trail (hc : CachePersists sp law) {item : Except GoError (Item σ)}
    (ht : c.procs t = .sent errand file item) :
    Yields (c.finish sp t errand file item) w (c.Trails sp law w) := by
  have herrand : (c.procs t).errand? = some errand := by
    rw [ht]
    rfl
  have htrail : Trail sp law w c.seg (some (.sent errand file item)) := by
    rw [← ht, ← Cell.flight_eq_some ((h.locks.itemMu t).mpr (by simp [herrand]))]
    exact h.trail
  cases item with
  | error e =>
    exact (yields_pure _).mpr ⟨⟨htrail.failed, h.locks.release herrand fun _ => rfl⟩, rfl, .refl⟩
  | ok item =>
    simp only [Cell.finish, yields_bind]
    refine htrail.finish.yields.mono fun err w₁ h₁ => ?_
    obtain ⟨htrail₁, hframe⟩ := h₁
    have hkeeps : SegKeeps sp law.toFaithful w c.seg w₁ { c.seg with remoteItem := some item } :=
      ⟨rfl, hframe⟩
    cases err with
    | some e =>
      exact (yields_pure _).mpr ⟨⟨htrail₁, h.locks.release herrand fun _ => rfl⟩, hkeeps⟩
    | none =>
      cases errand with
      | flush buffered =>
        exact (yields_pure _).mpr ⟨⟨htrail₁, h.locks.release herrand fun _ => rfl⟩, hkeeps⟩
      | evict =>
        simp only [Cell.drop, yields_bind, yields_pure]
        refine (htrail₁.drop hc.persist).mono fun r w₂ h₂ => ?_
        exact ⟨⟨h₂.1, h.locks.release herrand fun he => absurd rfl he⟩, hkeeps.trans h₂.2⟩

lemma delete_trail (hc : CachePersists sp law) (hp : (c.procs t).Lockless) (hfree : c.Droppable) :
    Yields (c.delete sp t) w (c.Trails sp law w) := by
  unfold Cell.delete
  split_ifs with hb hd
  · cases hlocal : c.seg.localFile with
    | none => exact yields_stop _
    | some file =>
      exact snapshot_trail h (hfree.2 hb hd) hlocal (by simp [hfree.1.1]) fun _ => hfree.1.1
  · simp only [Cell.drop, yields_bind, yields_pure]
    refine (h.trail.drop hc.persist).mono fun r w₁ h₁ => ?_
    exact ⟨h.ends hp hfree.1 h₁.1 _, h₁.2⟩
  · exact (yields_pure _).mpr ⟨h.ends hp hfree.1 h.trail _, .refl⟩

/-- **Sections leave a trail**, whatever fails in them. -/
theorem next_trail (hc : CachePersists sp law) {m : Go σ (Cell σ)} (hnext : c.next sp t = some m) :
    Yields m w (c.Trails sp law w) := by
  obtain ⟨p, ht, hsection⟩ := Cell.next_section hnext
  have hlockless : p.Lockless → (c.procs t).Lockless := fun hp => ht ▸ hp
  cases hsection with
  | startRead _ => exact startRead_trail h hc ht
  | startWrite _ => exact startWrite_trail h ht
  | startFlush =>
    refine (yields_pure _).mpr ⟨h.goto (hlockless ⟨rfl, rfl⟩) ?_ ?_ (fun _ => rfl) (fun _ => rfl)
      h.trail, .refl⟩
    · split_ifs <;> exact ⟨rfl, rfl⟩
    · intro call hcall
      split_ifs at hcall <;> cases hcall
      trivial
  | delete hfree => exact delete_trail h hc (hlockless ⟨rfl, rfl⟩) hfree
  | read hfree => exact read_trail h hc (hlockless ⟨rfl, rfl⟩) hfree
  | write hfree => exact write_trail h hc (hlockless ⟨rfl, rfl⟩) hfree
  | rLock hwriter => exact (yields_pure _).mpr (rLock_trail h ht hwriter)
  | @snapshot buffered file hitem =>
    refine snapshot_trail h hitem (h.locks.waiting t buffered file ht) ?_ (by simp)
    simp [h.locks.readers, ht, Proc.readsFile]
  | send => exact send_trail h ht
  | finish => exact finish_trail h hc ht

lemma CellTrail.call {call : SegCall} (hrange : call.InRange sp.segmentBytes)
    (hidle : c.procs t = .idle) :
    CellTrail sp law w (c.goto t (.called call)) := by
  refine h.goto (by rw [hidle]; exact ⟨rfl, rfl⟩) ⟨rfl, rfl⟩ ?_ (fun _ => rfl)
    (fun _ => rfl) h.trail
  rintro call' ⟨⟩
  exact hrange

lemma CellTrail.ret {res : SegResult} (hdone : c.procs t = .done res) :
    CellTrail sp law w (c.goto t .idle) := by
  refine h.goto (by rw [hdone]; exact ⟨rfl, rfl⟩) ⟨rfl, rfl⟩ ?_ (fun _ => rfl)
    (fun _ => rfl) h.trail
  rintro call ⟨⟩

end Sections

lemma CellTrail.new {i : ℕ} {seg : Segment σ} (h : Opened sp law.toFaithful w.store i seg)
    (hcoh : sp.Coherent law.toFaithful w (sp.itemName (itoa i))) :
    CellTrail sp law w (.new seg) where
  trail := by
    have hname : seg.name sp = sp.itemName (itoa i) := by rw [Segment.name, h.id_eq]
    refine .quiet (.absent h.localFile_eq ?_ ?_ fun hnone => Or.inr ?_) <;> rw [Cell.new, hname]
    · exact h.current
    · exact hcoh
    · exact h.absent hnone
  locks := .new seg

end Cells

/-! ## Devices -/

section Frames

variable {sp : StoreParams σ} {law : Plain sp.container} {w w' : World σ} {name : GoString}

lemma Traced.frame {seg : Segment σ} (h : Traced sp law w seg)
    (hf : Frame sp law.toFaithful name w w') (ha : Apart (seg.name sp) name) :
    Traced sp law w' seg where
  item it hit := by
    obtain ⟨o, hcur⟩ := h.item it hit
    exact ⟨o, hf.current _ _ _ ha.data hcur⟩
  shut hnone := (h.shut hnone).frame hf ha
  blank hnone hitem := by
    rw [hf.files _ ha.etag_data ha.etag, hf.objects _ ha.data]
    exact h.blank hnone hitem
  named := h.named
  clean hlocal hd hitem o ho := by
    rw [hf.objects _ ha.data] at ho
    exact (h.clean hlocal hd hitem o ho).frame hf ha

/-- What happens to one segment does not disturb the files of another. -/
lemma Trail.frame {seg : Segment σ} {f : Option (Proc σ)} (h : Trail sp law w seg f)
    (hf : Frame sp law.toFaithful name w w') (ha : Apart (seg.name sp) name) :
    Trail sp law w' seg f := by
  cases h with
  | quiet ht => exact .quiet (ht.frame hf ha)
  | flight hnamed hgone hload =>
    refine .flight hnamed ?_ ?_
    · rw [hf.files _ ha.data ha.data_etag, hf.files _ ha.etag_data ha.etag]
      exact hgone
    · cases hload with
      | sending hname hsnap hsrc => exact .sending hname (fun hd => (hsnap hd).frame hf ha) hsrc
      | sent hname hsnap hcur =>
        exact .sent hname (fun hd => (hsnap hd).frame hf ha)
          fun it hit => hf.current _ _ _ ha.data (hcur it hit)

end Frames

namespace DevState

/-- No segment with a local file and an ETag beside it is dirty, has an upload on the way, or is
without an item because its last upload has failed. -/
def Settled (sp : StoreParams σ) (s : DevState σ) : Prop :=
  ∀ i c tag, s.cells[i]? = some c → c.seg.localFile ≠ none →
    s.world.files (eTagFileName (sp.itemName (itoa i))) = some tag → tag ≠ [] →
    c.seg.dirty = false ∧ c.itemMu = none ∧ c.seg.remoteItem ≠ none

/-- Whatever `cachedFile` hands back for a segment that has no local file has the bytes of its
remote item. -/
def ReusesExactly (sp : StoreParams σ) (s : DevState σ) : Prop :=
  ∀ (i : ℕ) (c : Cell σ) item held file w', s.cells[i]? = some c → c.seg.localFile = none →
    c.itemMu = none → c.seg.remoteItem = some item →
    sp.cachedFile item item.name sp.segmentBytes { s.world with held } = .ok (.ok (some file), w') →
    ∃ data, w'.files file.name = some data ∧ item.openItem w'.store = .ok ⟨data, none⟩

end DevState

/-- The segments of a device with their files, and no objects but theirs. -/
structure DevTrail (sp : StoreParams σ) (law : Plain sp.container) (count : ℕ) (s : DevState σ) :
    Prop where
  length_eq : s.cells.length = count
  cell : ∀ i c, s.cells[i]? = some c → c.seg.ID = i ∧ CellTrail sp law s.world c
  noStray : NoStray sp law.toFaithful s.world.store count

namespace DevTrail

variable {sp : StoreParams σ} {law : Plain sp.container} {count : ℕ} {s s' : DevState σ}

lemma set (h : DevTrail sp law count s) {i : ℕ} {c c' : Cell σ} (hc : s.cells[i]? = some c)
    (hcells : s'.cells = s.cells.set i c') (htrail : CellTrail sp law s'.world c')
    (hkeeps : SegKeeps sp law.toFaithful s.world c.seg s'.world c'.seg) :
    DevTrail sp law count s' := by
  obtain ⟨hid, -⟩ := h.cell i c hc
  have hlt : i < count := h.length_eq ▸ (List.getElem?_eq_some_iff.mp hc).1
  refine ⟨?_, fun j cj hj => ?_, h.noStray.frame hlt (by rw [Segment.name, hid]) hkeeps.frame⟩
  · rw [hcells, List.length_set]
    exact h.length_eq
  · rcases getElem?_set_cases (hcells ▸ hj) with ⟨rfl, rfl⟩ | ⟨hij, hj⟩
    · exact ⟨hkeeps.id_eq.trans hid, htrail⟩
    · obtain ⟨hidj, htrailj⟩ := h.cell j cj hj
      exact ⟨hidj, htrailj.trail.frame hkeeps.frame (Segment.apart_name hidj hid hij),
        htrailj.locks⟩

lemma step (hp : CachePersists sp law) {concurFlush : ℕ} {e : DevEvent}
    (h : DevTrail sp law count s) (hrange : e.InRange sp.segmentBytes)
    (hstep : s.step sp concurFlush e = some s') : DevTrail sp law count s' := by
  rcases (DevState.step_stepped hstep).cells with ⟨hcells, hworld⟩ | ⟨i, ce, c, c', hsteps⟩
  · refine ⟨?_, fun i c hc => ?_, ?_⟩
    · rw [hcells]
      exact h.length_eq
    · rw [hworld]
      exact h.cell i c (hcells ▸ hc)
    · rw [hworld]
      exact h.noStray
  obtain ⟨-, htrail⟩ := h.cell i c hsteps.cell
  cases ce with
  | call t call =>
    obtain ⟨hidle, hnew⟩ := Cell.step_call hsteps.step
    obtain ⟨rfl, hworld⟩ := Prod.mk.inj hnew
    refine h.set hsteps.cell hsteps.cells (hworld ▸ htrail.call (hsteps.range hrange) hidle) ?_
    rw [hworld]
    exact .refl
  | ret t =>
    obtain ⟨res, hdone, hnew⟩ := Cell.step_ret hsteps.step
    obtain ⟨rfl, hworld⟩ := Prod.mk.inj hnew
    refine h.set hsteps.cell hsteps.cells (hworld ▸ htrail.ret hdone) ?_
    rw [hworld]
    exact .refl
  | move t =>
    obtain ⟨m, hm, hrun⟩ := Cell.step_move hsteps.step
    obtain ⟨htrail', hkeeps⟩ := next_trail htrail hp hm _ _ hrun
    exact h.set hsteps.cell hsteps.cells htrail' hkeeps

lemma run (hp : CachePersists sp law) {concurFlush : ℕ} {es : List DevEvent}
    (h : DevTrail sp law count s) (hrange : ∀ e ∈ es, e.InRange sp.segmentBytes)
    (hrun : Machine.run (DevState.step sp concurFlush) s es = some s') :
    DevTrail sp law count s' :=
  Machine.invariant_of_meets (fun _ _ _ h hrange hstep => h.step hp hrange hstep) h
    (Machine.meets_of_forall hrange) hrun

/-- A stop with all files in order leaves a coherent directory behind. -/
lemma coherent (h : DevTrail sp law count s) (hsettled : s.Settled sp) {i : ℕ} (hi : i < count) :
    sp.Coherent law.toFaithful s.world (sp.itemName (itoa i)) := by
  obtain ⟨c, hc⟩ : ∃ c, s.cells[i]? = some c := ⟨_, List.getElem?_eq_getElem (h.length_eq ▸ hi)⟩
  obtain ⟨hid, htrail, -⟩ := h.cell i c hc
  have hname : c.seg.name sp = sp.itemName (itoa i) := by rw [Segment.name, hid]
  by_cases hlocal : c.seg.localFile = none
  · rw [← hname]
    generalize c.flight = f at htrail
    cases htrail with
    | quiet ht => exact ht.shut hlocal
    | flight _ hgone _ => exact StoreParams.coherent_of_absent (hgone hlocal).1
  · intro d tag o hd htag hne hlen ho
    obtain ⟨hclean, hitem, hremote⟩ := hsettled i c tag hc hlocal htag hne
    rw [Cell.flight_eq_none hitem] at htrail
    cases htrail with
    | quiet ht =>
      rw [← hname] at hd ho
      exact Or.inl (ht.clean hlocal hclean hremote o ho d hd hlen)

/-- The files that are used again have the bytes of their objects. -/
lemma reusesExactly (h : DevTrail sp law count s) (htags : law.TagsAgree) : s.ReusesExactly sp := by
  intro i c item held file w' hc hlocal hitem hremote hfound
  obtain ⟨-, htrail, -⟩ := h.cell i c hc
  rw [Cell.flight_eq_none hitem] at htrail
  cases htrail with
  | quiet ht =>
    obtain ⟨o, hcur⟩ := ht.item item hremote
    have hclears : Clears (c.seg.name sp) s.world { s.world with held } := .of_eq rfl rfl
    rw [law.current_name hcur] at hfound
    have hres := (StoreParams.cachedFile_found item (c.seg.name sp) sp.segmentBytes).eq hfound
    obtain ⟨hname, hdata⟩ := hres.bytes_eq htags hcur ((ht.shut hlocal).clears hclears) rfl
    refine ⟨o.data, ?_, ?_⟩
    · rw [hname]
      exact hdata
    · rw [hres.clears.store]
      exact law.current_open hcur

end DevTrail

/-! ## Two lifetimes -/

/-- A device is opened over a world and used; the process stops in a state. -/
structure Lifetime (s : ObjSetup σ) (sp : StoreParams σ) (w : World σ) (st : DevState σ) :
    Prop where
  gives : s.Gives sp
  runs : ∃ dev w' es, s.newDevice w = .ok (.ok dev, w') ∧
    (∀ e ∈ es, DevEvent.InRange sp.segmentBytes e) ∧
    Machine.run (DevState.step sp dev.concurFlush) (.new dev.segments w') es = some st

lemma Lifetime.trail {s : ObjSetup σ} {sp : StoreParams σ} {law : Plain sp.container} {w : World σ}
    {st : DevState σ} (h : Lifetime s sp w st) (hp : CachePersists sp law)
    (hstray : NoStray sp law.toFaithful w.store s.count)
    (hcoh : ∀ i, i < s.count → sp.Coherent law.toFaithful w (sp.itemName (itoa i))) :
    DevTrail sp law s.count st := by
  obtain ⟨dev, w', es, hopen, hrange, hrun⟩ := h.runs
  obtain ⟨dev', hdev, rfl, -, -, -, hlen, hopened⟩ :=
    (newDevice_opened h.gives law.toFaithful hstray).eq hopen
  obtain rfl := Except.ok.inj hdev
  refine DevTrail.run hp ⟨?_, fun i c hc => ?_, hstray⟩ hrange hrun
  · rw [DevState.new, List.length_map]
    exact hlen
  · obtain ⟨seg, hseg, rfl⟩ := by simpa [DevState.new] using hc
    have hi : i < s.count := hlen ▸ (List.getElem?_eq_some_iff.mp hseg).1
    have ho := hopened i seg hseg
    exact ⟨ho.id_eq, .new ho ((hcoh i hi).clears (.of_eq rfl rfl))⟩

/-! ## A device in memory -/

/-- The ETag of an object in memory is its contents. -/
lemma memPlain_tagsAgree (name : GoString) : (memPlain name).TagsAgree := by
  have htag : ∀ {tag data : Bytes}, (memPlain name).Tagged tag data → data = tag := by
    rintro tag data ⟨st, it, n, o, ⟨rfl, hget⟩, htag, rfl⟩
    simpa [memItem, hget] using htag
  intro tag data data' h h'
  rw [htag h, htag h']

/-- The arguments and the parameters of a device of one byte with a persistent cache. -/
def persistOne : ObjSetup MemStore := ObjRun.memSetup 1 1 0 true

def persistParams : StoreParams MemStore := ⟨memContainer ['c'], 1, true, true, none, quietEnv⟩

/-- Where the process stops that opens the device over a world and uses it. -/
def stopped (w : World MemStore) (es : List DevEvent) : Option (DevState MemStore) :=
  (ObjRun.start persistOne w).bind fun r =>
    Machine.run (DevState.step persistParams r.dev.concurFlush) (.new r.dev.segments r.world) es

lemma lifetime_of_stopped {w : World MemStore} {es : List DevEvent} {st : DevState MemStore}
    (hrange : ∀ e ∈ es, e.InRange 1) (h : stopped w es = some st) :
    Lifetime persistOne persistParams w st := by
  have hgives : persistOne.Gives persistParams := by
    refine ⟨rfl, rfl, rfl, ?_, ?_, ?_⟩ <;> decide
  obtain ⟨r, hstart, hrun⟩ := Option.bind_eq_some_iff.mp h
  unfold ObjRun.start at hstart
  split at hstart
  · next dev w' hnew =>
    obtain rfl := Option.some.inj hstart
    exact ⟨hgives, dev, w', es, hnew, hrange, hrun⟩
  · cases hstart

/-- The file that is used again for the segment, and what its remote item reads. -/
def reused (st : DevState MemStore) : Option (Option Bytes × Except GoError Reader) :=
  st.cells[0]?.bind fun c => c.seg.remoteItem.bind fun item =>
    match persistParams.cachedFile item item.name persistParams.segmentBytes st.world with
    | .ok (.ok (some file), w') => some (w'.files file.name, item.openItem w'.store)
    | _ => none

/-- A write, a flush, and nothing after it. -/
def writtenAndFlushed : List DevEvent :=
  [.call 0 0 (.writeAt [1] 0), .move 0 0, .move 0 0, .ret 0 0, .flush, .look 0, .look 0, .recheck 0,
    .spawn 0 true, .work 0 0, .work 0 0, .work 0 0, .work 0 0, .work 0 0, .collect 0 0, .finish 0]

/-! ## The result -/

/-- **A stop with all files in order.**  A device with a persistent cache is opened over a coherent
directory and used in any way, with any faults, until the process stops in a settled state: no
segment with a local file and an ETag beside it is dirty, on its way to the store, or without an
item because its last upload has failed.  A device opened over what is left, and used in any way,
then finds in every local file it uses again the bytes of the remote item. -/
theorem reuses_exactly_of_settled (sp : StoreParams σ) (law : Plain sp.container)
    (htags : law.TagsAgree) (hpersist : sp.persistCache = true) (s s' : ObjSetup σ)
    (hcount : s'.count = s.count) (w w' : World σ) (st st' : DevState σ)
    (hstray : NoStray sp law.toFaithful w.store s.count)
    (hcoh : ∀ i, i < s.count → sp.Coherent law.toFaithful w (sp.itemName (itoa i)))
    (hlife : Lifetime s sp w st) (hsettled : st.Settled sp) (hstore : w'.store = st.world.store)
    (hfiles : w'.files = st.world.files) (thickProvision : Bool) (quotaSema : Option ℕ) (env : Env)
    (hlife' : Lifetime s' { sp with thickProvision, quotaSema, env } w' st') :
    st'.ReusesExactly { sp with thickProvision, quotaSema, env } := by
  have hp : CachePersists sp law := ⟨hlife.gives.sized.pos, hpersist, htags⟩
  have htrail := hlife.trail hp hstray hcoh
  have hp' : CachePersists { sp with thickProvision, quotaSema, env } law :=
    ⟨hp.pos, hpersist, htags⟩
  have htrail' : DevTrail { sp with thickProvision, quotaSema, env } law s'.count st' := by
    refine hlife'.trail hp' ?_ fun i hi => ?_
    · rw [hstore, hcount]
      exact htrail.noStray
    · exact (htrail.coherent hsettled (hcount ▸ hi)).clears (.of_eq hfiles hstore)
  exact htrail'.reusesExactly htags

theorem reuses_exactly_of_settled_one : ∃ st st',
    Lifetime persistOne persistParams ObjRun.emptyWorld st ∧ st.Settled persistParams ∧
      Lifetime persistOne persistParams st.world st' ∧
      reused st' = some (some [1], .ok ⟨[1], none⟩) ∧ st'.ReusesExactly persistParams := by
  have hruns : (stopped ObjRun.emptyWorld writtenAndFlushed).any (fun st =>
      (st.cells.all fun c => !c.seg.dirty && c.itemMu.isNone && c.seg.remoteItem.isSome) &&
        (stopped st.world []).bind reused = some (some [1], .ok ⟨[1], none⟩)) = true := by
    decide +kernel
  obtain ⟨st, hst, hcheck⟩ := (Option.any_eq_true _ _).mp hruns
  obtain ⟨hcells, hreused⟩ := by simpa using hcheck
  obtain ⟨st', hst', hreused⟩ := Option.bind_eq_some_iff.mp hreused
  have hlife := lifetime_of_stopped (by decide) hst
  have hlife' := lifetime_of_stopped (by decide) hst'
  have hsettled : st.Settled persistParams := by
    intro i c tag hc _ _ _
    obtain ⟨⟨hclean, hitem⟩, hremote⟩ := hcells c (List.mem_of_getElem? hc)
    exact ⟨hclean, hitem, Option.isSome_iff_ne_none.mp hremote⟩
  exact ⟨st, st', hlife, hsettled, hlife', hreused,
    reuses_exactly_of_settled persistParams (memPlain ['c']) (memPlain_tagsAgree ['c']) rfl
      persistOne persistOne rfl ObjRun.emptyWorld st.world st st' (fun _ _ ho => absurd rfl ho)
      (fun _ _ => StoreParams.coherent_of_absent rfl) hlife hsettled rfl rfl true none quietEnv
      hlife'⟩

/-- The write that follows the flush is in the local file when the process stops, and not in the
object.  The ETag file is that of the flush, and so is the object's: the next device takes the file
for a copy of the object, and the segment for clean. -/
theorem reuses_write_after_flush : ∃ st st',
    Lifetime persistOne persistParams ObjRun.emptyWorld st ∧
      Lifetime persistOne persistParams st.world st' ∧
      reused st' = some (some [2], .ok ⟨[1], none⟩) := by
  have hruns : (stopped ObjRun.emptyWorld (writtenAndFlushed ++
      [.call 0 0 (.writeAt [2] 0), .move 0 0, .move 0 0, .ret 0 0])).any (fun st =>
        (stopped st.world []).bind reused = some (some [2], .ok ⟨[1], none⟩)) = true := by
    decide +kernel
  obtain ⟨st, hst, hcheck⟩ := (Option.any_eq_true _ _).mp hruns
  obtain ⟨st', hst', hreused⟩ := Option.bind_eq_some_iff.mp (by simpa using hcheck)
  exact ⟨st, st', lifetime_of_stopped (by decide) hst,
    lifetime_of_stopped (by decide) hst', hreused⟩

end Usbd
