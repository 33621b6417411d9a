import Usbd.Objstore.QuotaErrors

/-!
# The quota and a sequential client

A device with a quota keeps at most that many segments local, by evicting one whenever it cannot
load another.  Here the device is driven by one client, its items have the size of a segment and the
files it creates can be created; nothing else is assumed of the container and of the environment.

`Accounted` ties the permits to the segments: as many are held as there are local files, and no more
than there are.  From it a load that finds no permit finds another segment to evict, and with the
permit of that one it goes through: one eviction is enough (`accessSegment_tries`), and no call
reports a want of room (`quota_respected`).
-/

namespace Usbd

open ListMemory Prog

variable {σ : Type} {sp : StoreParams σ} {w w' : World σ} {full : σ → Prop} {seg : Segment σ}

/-- What the results on the quota assume of the parameters: segments have bytes and end at a file
position, new files can be created, and the items are of the size of a segment. -/
structure StoreParams.Orderly (full : σ → Prop) (sp : StoreParams σ) : Prop where
  sized : sp.Sized
  creates : ∀ t, sp.env.fault .create t = none
  fills : ∀ t, sp.env.fault .fill t = none
  regular : sp.container.Regular full sp.segmentBytes

lemma StoreParams.Orderly.toCreates (h : sp.Orderly full) (w : World σ) : sp.Creates w :=
  ⟨h.creates _, h.fills _, h.sized.le_max, .inr h.sized.pos⟩

namespace Segment

/-! ## Segments -/

/-- The segment's flags say what there is, and its item has the size of a segment. -/
structure Orderly (full : σ → Prop) (sp : StoreParams σ) (seg : Segment σ) : Prop where
  rep : seg.Rep
  item : ∀ it, seg.remoteItem = some it → it.Regular full sp.segmentBytes

/-- What a call of a segment does to the permits: it takes those of the local file it leaves, and
never more than there are. -/
structure Counts (full : σ → Prop) (sp : StoreParams σ) (w : World σ) (seg seg' : Segment σ)
    (w' : World σ) : Prop where
  orderly : seg'.Orderly full sp
  store : full w'.store
  held : w'.held + seg.holding sp = w.held + seg'.holding sp
  cap : ∀ permits, sp.quotaSema = some permits → w.held ≤ permits → w'.held ≤ permits

lemma Orderly.intact (h : seg.Orderly full sp) (hs : sp.Sized) : seg.Intact full := by
  refine ⟨fun hb => ?_, fun it hit => (h.item it hit).neverEmpty hs.pos.ne'⟩
  rw [← Option.isSome_iff_ne_none, ← h.rep.backed_eq, hb]

/-- In an orderly device every load finds bytes and creates its file. -/
lemma Orderly.findsBytes (h : seg.Orderly full sp) (hs : sp.Sized) (hw : full w.store) :
    seg.FindsBytes sp w := by
  intro _ _
  cases hitem : seg.remoteItem with
  | none => trivial
  | some item => exact (h.item item hitem).neverEmpty hs.pos.ne' w.store hw

/-- The call found no permit for the local file it wants. -/
structure WantsRoom (sp : StoreParams σ) (w : World σ) (seg' : Segment σ) (w' : World σ)
    (e : GoError) : Prop where
  capacity : e.is errCapacityClaim = true
  noRoom : ¬ sp.Room w
  localFile : seg'.localFile = none
  held : w'.held = w.held

lemma loadFile_error (h : seg.Orderly full sp) (hw : full w.store) (createWrite : Bool) :
    Yields (seg.loadFile sp createWrite) w fun r w' =>
      ∀ e, r.2 = .error e → e.Foreign ∨ WantsRoom sp w r.1 w' e := by
  by_cases hroom : sp.Room w
  · obtain ⟨ID, localFile, remoteItem, dirty, backed, lastRead, lastWrite⟩ := seg
    unfold loadFile
    cases localFile with
    | some file => exact (yields_pure _).mpr fun e he => by simp at he
    | none =>
      cases remoteItem with
      | some item =>
        simp only [yields_bind, yields_pure]
        refine (StoreParams.foreign_downloadFile (h.item item rfl) hw hroom).mono
          fun r w₁ h₁ e he => ?_
        cases r with
        | error e' => exact .inl (h₁ e (by simpa using he))
        | ok file => simp at he
      | none =>
        simp only
        split_ifs
        · simp only [yields_bind, yields_pure]
          refine (StoreParams.foreign_createFile hroom _).mono fun r w₁ h₁ e he => ?_
          cases r with
          | error e' => exact .inl (h₁ e (by simpa using he))
          | ok file => simp at he
        · exact (yields_pure _).mpr fun e he => by simp at he
  · by_cases hfile : seg.localFile = none
    · by_cases hneed : seg.remoteItem = none → createWrite = true
      · refine (loadFile_of_full hroom hfile hneed).yields.mono fun r w₁ h₁ e he => ?_
        obtain ⟨hseg, rfl, e', he', hcap⟩ := h₁
        obtain rfl := Except.error.inj (he'.symm.trans he)
        exact .inr ⟨hcap, hroom, hseg ▸ hfile, rfl⟩
      · push Not at hneed
        obtain ⟨hitem, hcw⟩ := hneed
        rw [loadFile, hfile, hitem]
        simp only [if_neg hcw, yields_pure]
        exact fun e he => by simp at he
    · obtain ⟨file, hfile⟩ := Option.ne_none_iff_exists'.mp hfile
      rw [loadFile, hfile]
      exact (yields_pure _).mpr fun e he => by simp at he

lemma WantsRoom.wrap {seg' : Segment σ} {e : GoError} {tick : ℕ}
    (h : WantsRoom sp { w with tick } seg' w' e) (text : String) :
    WantsRoom sp w seg' w' (.wrap text e) :=
  ⟨GoError.is_wrap text h.capacity, h.noRoom, h.localFile, h.held⟩

lemma readAt_error (h : seg.Orderly full sp) (hw : full w.store) (buf : Bytes) (pos : ℤ) :
    Yields (seg.readAt sp buf pos) w fun r w' =>
      ∀ e, r.2.2.2 = some e → e.Foreign ∨ WantsRoom sp w r.1 w' e := by
  rw [Segment.readAt, yields_bind]
  refine (returns_timeNow.mpr ?_ : Returns _ _ _).yields
  have htouch : Orderly full sp { seg with lastRead := sp.env.now w.tick } :=
    ⟨⟨h.rep.1, h.rep.2⟩, h.item⟩
  have hw₀ : full ({ w with tick := w.tick + 1 } : World σ).store := hw
  refine yields_readLoaded ((loadFile_error htouch hw₀ false).mono fun r w₁ h₁ => ?_)
  refine ⟨fun e hr e' he' => ?_, fun n err _ herr e he => .inl ?_, fun file _ => ?_⟩
  · obtain rfl := Option.some.inj he'
    rcases h₁ e hr with hforeign | hroom
    · exact .inl (GoError.foreign_wrap.mpr hforeign)
    · exact .inr (hroom.wrap _)
  · rcases herr with ⟨-, rfl⟩ | rfl
    · cases he
    · obtain rfl := Option.some.inj he
      decide
  · exact (foreign_readAt sp.env file _ _).mono fun r w₂ h₂ e he => .inl (h₂ e he)

lemma writeAt_error (h : seg.Orderly full sp) (hw : full w.store) (buf : Bytes) (pos : ℤ) :
    Yields (seg.writeAt sp buf pos) w fun r w' =>
      ∀ e, r.2.2 = some e → e.Foreign ∨ WantsRoom sp w r.1 w' e := by
  rw [Segment.writeAt, yields_bind]
  refine (returns_timeNow.mpr ?_ : Returns _ _ _).yields
  have htouch : Orderly full sp { seg with lastWrite := sp.env.now w.tick } :=
    ⟨⟨h.rep.1, h.rep.2⟩, h.item⟩
  have hw₀ : full ({ w with tick := w.tick + 1 } : World σ).store := hw
  simp only
  split_ifs
  · exact (yields_pure _).mpr fun e he => by simp at he
  · rw [writeLoaded, yields_bind]
    refine (loadFile_error htouch hw₀ true).mono fun r w₁ h₁ => ?_
    obtain ⟨seg₁, data⟩ := r
    rcases data with e | (_ | file)
    · refine (yields_pure _).mpr fun e' he' => ?_
      obtain rfl := Option.some.inj he'
      rcases h₁ e rfl with hforeign | hroom
      · exact .inl (GoError.foreign_wrap.mpr hforeign)
      · exact .inr (hroom.wrap _)
    · refine (yields_pure _).mpr fun e he => .inl ?_
      obtain rfl := Option.some.inj he
      decide
    · simp only [yields_bind, yields_pure]
      exact (foreign_writeAt sp.env file buf pos .writeAt).mono fun r w₂ h₂ e he => .inl (h₂ e he)

/-- In an orderly device a load counts what it takes. -/
lemma Loaded.counts {createWrite : Bool} {seg' : Segment σ} {r : Except GoError (Option File)}
    (h : Loaded sp w seg createWrite (seg', r) w') (hs : sp.Orderly full)
    (ho : seg.Orderly full sp) (hw : full w.store) :
    (seg'.Rep ∧ seg'.remoteItem = seg.remoteItem) ∧
      w'.held + seg.holding sp = w.held + seg'.holding sp ∧
      ∀ permits, sp.quotaSema = some permits → w.held ≤ permits → w'.held ≤ permits := by
  have hexact := (h.exact_iff ho.rep).1.mpr
    ⟨ho.findsBytes hs.sized hw, fun _ _ _ _ _ => hs.toCreates w⟩
  refine ⟨⟨hexact.1, ?_⟩, hexact.2, fun permits hq hle => ?_⟩
  · cases h <;> rfl
  · cases h with
    | same _ _ _ hheld => omega
    | file _ _ hroom _ _ hheld =>
      have := hroom permits hq
      simp only [StoreParams.permit, hq, Option.isSome_some, if_true] at hheld
      omega
    | hollow hhollow _ _ => exact absurd (ho.findsBytes hs.sized hw) hhollow
    | leaked hleaks _ _ => exact absurd (fun _ _ _ _ _ => hs.toCreates w) hleaks

section Counting

variable (hs : sp.Orderly full) (h : seg.Orderly full sp) (hw : full w.store)

include hs h hw

lemma readAt_counts (buf : Bytes) {pos : ℤ} (hpos : pos ≤ sp.segmentBytes) :
    Returns (seg.readAt sp buf pos) w fun r w' => Counts full sp w seg r.1 w' ∧
      ∀ e, r.2.2.2 = some e → e.Foreign ∨ WantsRoom sp w r.1 w' e := by
  have hkeeps := readAt_keeps (h.intact hs.sized) hw buf hpos
  refine ((hkeeps.and_yields (readAt_loaded buf pos)).and_yields (readAt_error h hw buf pos)).mono
    fun r w₂ h₂ => ?_
  obtain ⟨⟨hkeeps, data, w₁, h₁, hheld⟩, herr⟩ := h₂
  obtain ⟨⟨hrep, hitem⟩, hexact, hcap⟩ := h₁.counts hs ⟨⟨h.rep.1, h.rep.2⟩, h.item⟩ hw
  refine ⟨⟨⟨hrep, ?_⟩, hkeeps.store, ?_, ?_⟩, herr⟩
  · rw [hitem]
    exact h.item
  · rw [hheld]
    exact hexact
  · rw [hheld]
    exact hcap

lemma writeAt_counts (buf : Bytes) (pos : ℤ) :
    Returns (seg.writeAt sp buf pos) w fun r w' => Counts full sp w seg r.1 w' ∧
      ∀ e, r.2.2 = some e → e.Foreign ∨ WantsRoom sp w r.1 w' e := by
  have hkeeps : Returns (seg.writeAt sp buf pos) w fun r w' => Keeps full sp w seg r.1 w' :=
    writeAt_keeps (h.intact hs.sized) hw buf pos
  refine ((hkeeps.and_yields (writeAt_loaded buf pos).yields).and_yields
    (writeAt_error h hw buf pos)).mono fun r w₂ h₂ => ?_
  obtain ⟨⟨hkeeps, hloaded⟩, herr⟩ := h₂
  obtain ⟨seg₂, n, err⟩ := r
  refine ⟨?_, herr⟩
  rcases hloaded with ⟨-, rfl, hheld⟩ | ⟨-, seg₁, data, w₁, h₁, hheld, dirty, rfl, hdirty⟩
  · refine ⟨⟨⟨h.rep.1, h.rep.2⟩, h.item⟩, hkeeps.store, by rw [hheld]; rfl, fun _ _ => ?_⟩
    rw [hheld]
    exact id
  · obtain ⟨⟨hrep, hitem⟩, hexact, hcap⟩ := h₁.counts hs ⟨⟨h.rep.1, h.rep.2⟩, h.item⟩ hw
    refine ⟨⟨⟨hrep.1, fun hd => ?_⟩, ?_⟩, hkeeps.store, ?_, ?_⟩
    · rcases hdirty with rfl | hne
      · exact hrep.2 hd
      · exact hne
    · exact fun it hit => h.item it (hitem ▸ hit)
    · rw [hheld]
      exact hexact
    · rw [hheld]
      exact hcap

lemma segmentOp_counts (readOp : Bool) (buf : Bytes) {pos : ℤ} (hpos : pos ≤ sp.segmentBytes) :
    Returns (segmentOp sp readOp seg buf pos) w fun r w' => Counts full sp w seg r.1 w' ∧
      ∀ e, r.2.2.2 = some e → e.Foreign ∨ WantsRoom sp w r.1 w' e := by
  unfold segmentOp
  split_ifs
  · exact readAt_counts hs h hw buf hpos
  · simp only [returns_bind, returns_pure]
    exact writeAt_counts hs h hw buf pos

lemma flush_foreign (buffered : Bool) :
    Yields (seg.flush sp buffered) w fun r w' => ForeignError r.2 ∧
      full w'.store ∧ ∀ it, r.1.remoteItem = some it → it.Regular full sp.segmentBytes := by
  unfold flush
  cases seg.localFile with
  | none => exact (yields_pure _).mpr ⟨foreignError_some.mpr (by decide), hw, h.item⟩
  | some file =>
    simp only [yields_bind, yields_pure]
    exact StoreParams.foreign_syncFile hs.regular hw file _ buffered

lemma Flush_counts (buffered : Bool) : Returns (seg.Flush sp buffered) w fun r w' =>
      Counts full sp w seg r.1 w' ∧ ForeignError r.2 := by
  unfold Segment.Flush
  split_ifs with hdirty
  · refine ((flush_exact h.rep (h.rep.dirty hdirty) buffered).and_yields
      (flush_foreign hs h hw buffered)).mono fun r w₁ h₁ => ?_
    obtain ⟨⟨hrep, hheld, -, hbacked, -⟩, hforeign, hw₁, hitem⟩ := h₁
    refine ⟨⟨⟨hrep, hitem⟩, hw₁, by rw [hheld, holding, holding, hbacked], fun _ _ hle => ?_⟩,
      hforeign⟩
    omega
  · refine (returns_pure _).mpr ⟨⟨h, hw, rfl, fun _ _ => id⟩, foreignError_none⟩

end Counting

/-- Giving the local file up: it is gone, or there is an error that is not about the quota. -/
lemma dropFile_foreign (hw : full w.store) : Yields (seg.dropFile sp) w fun r w' =>
    ForeignError r.2 ∧ r.1.remoteItem = seg.remoteItem ∧ (r.2 = none → r.1.backed = false) ∧
      full w'.store := by
  unfold dropFile
  cases seg.localFile with
  | none => exact yields_stop _
  | some file =>
    rw [yields_bind]
    intro r w₁ h₁
    have hw₁ := (sp.calm_removeFile file).store hw h₁
    have hremove := StoreParams.foreign_removeFile file _ _ h₁
    obtain ⟨file₁, err⟩ := r
    cases err with
    | some e =>
      refine (yields_pure _).mpr ⟨?_, rfl, by simp, hw₁⟩
      simpa [GoError.foreign_wrap] using hremove
    | none =>
      simp only [yields_bind, yields_pure]
      refine StoreParams.releaseCapacity_files.mono fun _ w₂ h₂ => ?_
      exact ⟨foreignError_none, trivial, fun _ => trivial, h₂.2 ▸ hw₁⟩

/-- Evicting a segment: its permit comes back, or there is an error that is not about the quota. -/
lemma deleteFile_counts (hs : sp.Orderly full) (h : seg.Orderly full sp) (hw : full w.store)
    (hbacked : seg.backed = true) (hheld : seg.holding sp ≤ w.held) :
    Returns (seg.deleteFile sp) w fun r w' => Counts full sp w seg r.1 w' ∧ ForeignError r.2 ∧
      (r.2 = none → r.1.backed = false) := by
  have hlocal : seg.localFile ≠ none := by
    rw [← Option.isSome_iff_ne_none, ← h.rep.backed_eq, hbacked]
  -- the removal, once the segment is clean
  have hdrop : ∀ (seg₁ : Segment σ) (w₁ : World σ), seg₁.Orderly full sp → full w₁.store →
      seg₁.localFile ≠ none → seg₁.dirty = false → seg₁.backed = seg.backed → w₁.held = w.held →
      Returns (seg₁.dropFile sp) w₁ fun r w' => Counts full sp w seg r.1 w' ∧ ForeignError r.2 ∧
        (r.2 = none → r.1.backed = false) := by
    intro seg₁ w₁ h₁ hw₁ hlocal₁ hclean hbacked₁ hheld₁
    have hholding : seg₁.holding sp = seg.holding sp := by rw [holding, holding, hbacked₁]
    refine ((dropFile_exact h₁.rep hlocal₁ hclean (by omega)).and_yields
      (dropFile_foreign hw₁)).mono fun r w₂ h₂ => ?_
    obtain ⟨⟨⟨hrep, hexact⟩, -⟩, hforeign, hitem, hgone, hw₂⟩ := h₂
    refine ⟨⟨⟨hrep, fun it hit => h₁.item it (hitem ▸ hit)⟩, hw₂, by omega, fun _ _ hle => ?_⟩,
      hforeign, hgone⟩
    have hle₂ : r.1.holding sp ≤ seg.holding sp := by
      simp only [holding, hbacked, if_true]
      split_ifs <;> simp
    omega
  unfold deleteFile
  rw [if_pos hbacked]
  split_ifs with hdirty
  · rw [returns_bind]
    refine ((flush_exact h.rep hlocal false).and_yields (flush_foreign hs h hw false)).mono
      fun r w₁ h₁ => ?_
    obtain ⟨seg₁, err⟩ := r
    obtain ⟨⟨hrep, hheld₁, hlocal₁, hbacked₁, hclean⟩, hforeign, hw₁, hitem⟩ := h₁
    simp only at hrep hlocal₁ hbacked₁ hclean hitem
    have hne : seg₁.localFile ≠ none := hlocal₁ ▸ hlocal
    cases err with
    | none => exact hdrop seg₁ w₁ ⟨hrep, hitem⟩ hw₁ hne hclean hbacked₁ hheld₁
    | some e =>
      obtain ⟨file, hfile⟩ := Option.ne_none_iff_exists'.mp hne
      simp only [hfile, returns_pure]
      refine ⟨⟨⟨hrep, hitem⟩, hw₁, ?_, fun _ _ hle => by omega⟩, ?_, by simp⟩
      · rw [hheld₁, holding, holding, hbacked₁]
      · simpa [GoError.foreign_wrap] using hforeign
  · exact hdrop seg w h hw hlocal (by simpa using hdirty) rfl rfl

end Segment
/-! ## The device's segments -/

/-- All segments are orderly, and as many permits are held as they have local files, at most those
there are. -/
structure Accounted (full : σ → Prop) (sp : StoreParams σ) (w : World σ)
    (segments : List (Segment σ)) : Prop where
  orderly : ∀ seg ∈ segments, seg.Orderly full sp
  store : full w.store
  held_eq : w.held = (segments.map (Segment.holding sp)).sum
  cap : ∀ permits, sp.quotaSema = some permits → w.held ≤ permits

variable {segments : List (Segment σ)} {i : ℕ}

lemma Accounted.holding_le (h : Accounted full sp w segments) (hseg : segments[i]? = some seg) :
    seg.holding sp ≤ w.held :=
  h.held_eq ▸ List.le_sum_of_mem (List.mem_map_of_mem (List.mem_of_getElem? hseg))

lemma Accounted.set (h : Accounted full sp w segments) (hseg : segments[i]? = some seg)
    {seg' : Segment σ} (h' : Segment.Counts full sp w seg seg' w') :
    Accounted full sp w' (segments.set i seg') := by
  refine ⟨fun s hs => ?_, h'.store, ?_, fun permits hq => h'.cap permits hq (h.cap permits hq)⟩
  · rcases List.mem_or_eq_of_mem_set hs with hs | rfl
    · exact h.orderly s hs
    · exact h'.orderly
  · have hsum := sum_map_set (Segment.holding sp) hseg seg'
    have hheld := h.held_eq
    have hcounts := h'.held
    omega

section Steps

variable (hs : sp.Orderly full) (h : Accounted full sp w segments)

include hs h

/-- Evicting a segment to make room for another: there is one to evict, and room when it is gone. -/
lemma removeLeastRecentUsed_accounted (hroom : ¬ sp.Room w) (hseg : segments[i]? = some seg)
    (hfile : seg.localFile = none) :
    Returns (removeLeastRecentUsed sp segments i) w fun r w' =>
      (Accounted full sp w' r.1 ∧ r.1.length = segments.length ∧ r.1[i]? = some seg) ∧
        ForeignError r.2 ∧ (r.2 = none → sp.Room w') := by
  have hback : seg.backed = false := by
    rw [(h.orderly seg (List.mem_of_getElem? hseg)).rep.backed_eq, hfile, Option.isSome_none]
  obtain ⟨j, s, hj, hsj, hbj⟩ := exists_backed hs.sized hroom h.held_eq hseg hback
  obtain ⟨k, s, hk, hki, hsk, hbk⟩ := lruCandidate_spec hj hsj hbj
  simp only [removeLeastRecentUsed, hk, hsk, returns_bind, returns_pure]
  refine (Segment.deleteFile_counts hs (h.orderly s (List.mem_of_getElem? hsk)) h.store hbk
    (h.holding_le hsk)).mono fun r w₁ h₁ => ?_
  obtain ⟨hcounts, hforeign, hgone⟩ := h₁
  refine ⟨⟨h.set hsk hcounts, List.length_set, ?_⟩, hforeign, fun hnone permits hq => ?_⟩
  · rw [List.getElem?_set_ne hki]
    exact hseg
  · -- the permit of the evicted segment is back
    have hheld := hcounts.held
    have hcap := h.cap permits hq
    simp only [Segment.holding, hbk, hgone hnone, StoreParams.permit, hq,
      Option.isSome_some, if_true, Bool.false_eq_true, if_false] at hheld
    omega

/-! ## Accesses -/

/-- With a permit left, an access to a segment speaks of no quota. -/
lemma accessSegment_of_room (hroom : sp.Room w) (hseg : segments[i]? = some seg) (readOp : Bool)
    {pos : ℤ} (hpos : pos ≤ sp.segmentBytes) (buf : Bytes) (tries : ℕ) :
    Returns (accessSegment sp readOp i pos tries segments buf) w fun r w' =>
      (Accounted full sp w' r.1 ∧ r.1.length = segments.length) ∧ ForeignError r.2.2.2 := by
  refine returns_accessSegment hseg ((Segment.segmentOp_counts hs
    (h.orderly seg (List.mem_of_getElem? hseg)) h.store readOp buf hpos).mono fun r w₁ h₁ => ?_)
  obtain ⟨hcounts, herr⟩ := h₁
  have hset := h.set hseg hcounts
  refine ⟨fun _ => ⟨⟨hset, List.length_set⟩, foreignError_none⟩, fun e he => ?_⟩
  have hforeign : e.Foreign := (herr e he).resolve_right fun hwants => hwants.noRoom hroom
  refine ⟨fun text => ⟨⟨hset, List.length_set⟩, ?_⟩, fun k hk hcap => ?_⟩
  · exact foreignError_some.mpr (GoError.foreign_wrap.mpr hforeign)
  · simp [hforeign.1] at hcap

/-- **An access and its one eviction**: it returns, keeps the accounts, and does not report a want
of room. -/
lemma accessSegment_accounted (hi : i < segments.length) (readOp : Bool) {pos : ℤ}
    (hpos : pos ≤ sp.segmentBytes) (buf : Bytes) (tries : ℕ) :
    Returns (accessSegment sp readOp i pos (tries + 1) segments buf) w fun r w' =>
      (Accounted full sp w' r.1 ∧ r.1.length = segments.length) ∧ ForeignError r.2.2.2 := by
  obtain ⟨seg, hseg⟩ : ∃ seg, segments[i]? = some seg := ⟨_, List.getElem?_eq_getElem hi⟩
  rw [accessSegment]
  simp only [hseg, returns_bind]
  refine (Segment.segmentOp_counts hs (h.orderly seg (List.mem_of_getElem? hseg)) h.store readOp buf
    hpos).mono fun r w₁ h₁ => ?_
  obtain ⟨seg₁, got, count, err⟩ := r
  obtain ⟨hcounts, herr⟩ := h₁
  have hset := h.set hseg hcounts
  have hseg₁ : (segments.set i seg₁)[i]? = some seg₁ := List.getElem?_set_self hi
  cases err with
  | none => exact (returns_pure _).mpr ⟨⟨hset, List.length_set⟩, foreignError_none⟩
  | some e =>
    rcases herr e rfl with hforeign | hwants
    · simp only [hforeign.1, Bool.false_eq_true, if_false, returns_pure]
      refine ⟨⟨hset, List.length_set⟩, foreignError_some.mpr (GoError.foreign_wrap.mpr hforeign)⟩
    · simp only [hwants.capacity, if_true, returns_bind]
      have hroom : ¬ sp.Room w₁ := by
        simpa only [StoreParams.Room, hwants.held] using hwants.noRoom
      refine (removeLeastRecentUsed_accounted hs hset hroom hseg₁ hwants.localFile).mono
        fun r w₂ h₂ => ?_
      obtain ⟨segments₂, rmErr⟩ := r
      obtain ⟨⟨h₂, hlen₂, hseg₂⟩, hforeign, hroom₂⟩ := h₂
      rw [List.length_set] at hlen₂
      cases rmErr with
      | some e' =>
        refine (returns_pure _).mpr ⟨⟨h₂, hlen₂⟩, ?_⟩
        simpa [GoError.foreign_wrap] using hforeign
      | none =>
        refine (accessSegment_of_room hs h₂ (hroom₂ rfl) hseg₂ readOp hpos got tries).mono
          fun r w₃ h₃ => ?_
        exact ⟨⟨h₃.1.1, h₃.1.2.trans hlen₂⟩, h₃.2⟩

/-- With a permit left the first try decides. -/
lemma accessSegment_room_tries (hroom : sp.Room w) (hseg : segments[i]? = some seg) (readOp : Bool)
    {pos : ℤ} (hpos : pos ≤ sp.segmentBytes) (buf : Bytes) (tries : ℕ) :
    accessSegment sp readOp i pos tries segments buf w =
      accessSegment sp readOp i pos 0 segments buf w := by
  obtain ⟨⟨seg₁, got, count, err⟩, w₁, hop, -, herr⟩ := Segment.segmentOp_counts hs
    (h.orderly seg (List.mem_of_getElem? hseg)) h.store readOp buf hpos
  rw [accessSegment, accessSegment]
  simp only [hseg, bind_apply, hop]
  cases err with
  | none => rfl
  | some e =>
    have hforeign : e.Foreign := (herr e rfl).resolve_right fun hwants => hwants.noRoom hroom
    cases tries with
    | zero => rfl
    | succ k => simp [hforeign.1]

/-- **One eviction is enough**: an access that may evict once does what one does that may evict as
often as it likes. -/
lemma accessSegment_tries (hi : i < segments.length) (readOp : Bool) {pos : ℤ}
    (hpos : pos ≤ sp.segmentBytes) (buf : Bytes) (tries : ℕ) :
    accessSegment sp readOp i pos (tries + 1) segments buf w =
      accessSegment sp readOp i pos 1 segments buf w := by
  obtain ⟨seg, hseg⟩ : ∃ seg, segments[i]? = some seg := ⟨_, List.getElem?_eq_getElem hi⟩
  obtain ⟨⟨seg₁, got, count, err⟩, w₁, hop, hcounts, herr⟩ := Segment.segmentOp_counts hs
    (h.orderly seg (List.mem_of_getElem? hseg)) h.store readOp buf hpos
  have hset := h.set hseg hcounts
  have hseg₁ : (segments.set i seg₁)[i]? = some seg₁ := List.getElem?_set_self hi
  rw [accessSegment, accessSegment]
  simp only [hseg, bind_apply, hop]
  cases err with
  | none => rfl
  | some e =>
    rcases herr e rfl with hforeign | hwants
    · simp [hforeign.1]
    · have hroom : ¬ sp.Room w₁ := by
        simpa only [StoreParams.Room, hwants.held] using hwants.noRoom
      obtain ⟨⟨segments₂, rmErr⟩, w₂, hrm, ⟨h₂, -, hseg₂⟩, -, hroom₂⟩ :=
        removeLeastRecentUsed_accounted hs hset hroom hseg₁ hwants.localFile
      simp only [hwants.capacity, if_true, bind_apply, hrm]
      cases rmErr with
      | some e' => rfl
      | none => exact accessSegment_room_tries hs h₂ (hroom₂ rfl) hseg₂ readOp hpos got tries

lemma ioLoop_accounted (readOp : Bool) (rounds segID : ℕ) {pos : ℕ} (hpos : pos ≤ sp.segmentBytes)
    (totalRead : ℕ) (rest : Bytes) :
    Returns (ioLoop sp readOp rounds segments segID pos totalRead rest) w fun r w' =>
      (Accounted full sp w' r.1 ∧ r.1.length = segments.length) ∧ ForeignError r.2.2.2 := by
  have hEOF : ForeignError (some ioEOF) := foreignError_some.mpr (by decide)
  induction rounds generalizing w segments segID pos totalRead rest with
  | zero =>
    exact returns_ioLoop_stop (.inl rfl) (fun _ => ⟨⟨h, rfl⟩, foreignError_none⟩)
      fun _ => ⟨⟨h, rfl⟩, hEOF⟩
  | succ rounds ih =>
    by_cases hstop : rest = [] ∨ segments.length ≤ segID
    · exact returns_ioLoop_stop (.inr hstop) (fun _ => ⟨⟨h, rfl⟩, foreignError_none⟩)
        fun _ => ⟨⟨h, rfl⟩, hEOF⟩
    obtain ⟨hnil, hend⟩ := not_or.mp hstop
    refine ioLoop_succ hnil (not_le.mp hend) hpos hs.sized.le_max ?_
    refine (accessSegment_accounted hs h (not_le.mp hend) readOp (by exact_mod_cast hpos) _ 9).mono
      fun r w₁ h₁ => ?_
    obtain ⟨⟨h₁, hlen₁⟩, hforeign⟩ := h₁
    refine ⟨fun _ => ?_, fun e he => ⟨⟨h₁, hlen₁⟩, he ▸ hforeign⟩⟩
    refine (ih h₁ (segID + 1) (Nat.zero_le _) _ _).mono fun r' w₂ h₂ => ?_
    exact ⟨⟨h₂.1.1, h₂.1.2.trans hlen₁⟩, h₂.2⟩

lemma flushLoop_accounted {order : List ℕ} (horder : ∀ i ∈ order, i < segments.length)
    {err : Option GoError} (herr : ForeignError err) :
    Returns (ObjDevice.flushLoop sp order segments err) w fun r w' =>
      (Accounted full sp w' r.1 ∧ r.1.length = segments.length) ∧ ForeignError r.2 := by
  induction order generalizing w segments err with
  | nil => exact (returns_pure _).mpr ⟨⟨h, rfl⟩, herr⟩
  | cons i order ih =>
    obtain ⟨seg, hseg⟩ : ∃ seg, segments[i]? = some seg :=
      ⟨_, List.getElem?_eq_getElem (horder i (by simp))⟩
    simp only [ObjDevice.flushLoop, hseg, returns_bind, returns_get]
    refine (Segment.Flush_counts hs (h.orderly seg (List.mem_of_getElem? hseg)) h.store _).mono
      fun r w₁ h₁ => ?_
    obtain ⟨hcounts, hforeign⟩ := h₁
    have hfirst : ForeignError (err.or r.2) := by
      cases err with
      | none => simpa using hforeign
      | some e => exact herr
    refine (ih (h.set hseg hcounts) (fun j hj => ?_) hfirst).mono fun r' w₂ h₂ => ?_
    · rw [List.length_set]
      exact horder j (by simp [hj])
    · exact ⟨⟨h₂.1.1, h₂.1.2.trans List.length_set⟩, h₂.2⟩

end Steps

/-! ## The device -/

/-- The calls of a client. -/
inductive ClientOp
  | readAt (buf : Bytes) (pos : ℕ)
  | writeAt (buf : Bytes) (pos : ℕ)
  | flush
  deriving DecidableEq, Repr

namespace ClientOp

/-- The call stays inside the device. -/
def InRange (size : ℕ) : ClientOp → Prop
  | .readAt buf pos => pos + buf.length ≤ size
  | .writeAt buf pos => pos + buf.length ≤ size
  | .flush => True

instance (size : ℕ) : ∀ op : ClientOp, Decidable (op.InRange size)
  | .readAt buf pos => inferInstanceAs (Decidable (pos + buf.length ≤ size))
  | .writeAt buf pos => inferInstanceAs (Decidable (pos + buf.length ≤ size))
  | .flush => isTrue trivial

/-- A call: the device afterwards and the error. -/
def exec (dev : ObjDevice σ) : ClientOp → Go σ (ObjDevice σ × Option GoError)
  | .readAt buf pos => do
    let (dev, _, _, err) ← dev.readAt buf pos
    pure (dev, err)
  | .writeAt buf pos => do
    let (dev, _, err) ← dev.writeAt buf pos
    pure (dev, err)
  | .flush => dev.Flush

end ClientOp

namespace ObjDevice

/-- One call after the other: the device afterwards and the errors. -/
def serve (dev : ObjDevice σ) : List ClientOp → Go σ (ObjDevice σ × List (Option GoError))
  | [] => pure (dev, [])
  | op :: ops => do
    let (dev, err) ← op.exec dev
    let (dev, errs) ← dev.serve ops
    pure (dev, err :: errs)

/-- An open device with the given parameters and size, whose permits are accounted for. -/
structure Orderly (full : σ → Prop) (sp : StoreParams σ) (totalBytes : ℕ) (dev : ObjDevice σ)
    (w : World σ) : Prop where
  params_eq : dev.params = sp
  totalBytes_eq : dev.totalBytes = totalBytes
  opened : dev.shutdown = false
  segments : Accounted full sp w dev.segments

variable {dev : ObjDevice σ} {totalBytes : ℕ}

section Calls

variable (hs : sp.Orderly full) (h : dev.Orderly full sp totalBytes w)

include hs h

lemma ioAt_orderly (readOp : Bool) (buf : Bytes) {pos : ℕ} (hin : pos ≤ totalBytes) :
    Returns (dev.ioAt readOp buf pos) w fun r w' =>
      r.1.Orderly full sp totalBytes w' ∧ ForeignError r.2.2.2 := by
  obtain ⟨rfl, rfl, hopened, hsegs⟩ := h
  have hpos := hs.sized.pos
  refine returns_ioAt hopened hpos readOp hin ?_
  refine (ioLoop_accounted hs hsegs readOp _ _ (Nat.mod_lt _ hpos).le _ _).mono fun r w' h' => ?_
  exact ⟨⟨rfl, rfl, hopened, h'.1.1⟩, h'.2⟩

lemma Flush_orderly :
    Returns dev.Flush w fun r w' => r.1.Orderly full sp totalBytes w' ∧ ForeignError r.2 := by
  obtain ⟨rfl, rfl, hopened, hsegs⟩ := h
  rw [ObjDevice.Flush, if_neg (by simp [hopened])]
  simp only [ObjDevice.flush, returns_bind, returns_get, returns_pure]
  refine (flushLoop_accounted hs hsegs (fun i hi => ?_) foreignError_none).mono fun r w' h' => ?_
  · exact dev.lt_of_mem_flushOrder w.tick hi
  · exact ⟨⟨rfl, rfl, hopened, h'.1.1⟩, foreignError_map_wrap.mpr h'.2⟩

lemma exec_orderly {op : ClientOp} (hop : op.InRange totalBytes) :
    Returns (op.exec dev) w fun r w' =>
      r.1.Orderly full sp totalBytes w' ∧ ForeignError r.2 := by
  cases op with
  | readAt buf pos =>
    have hin : pos ≤ totalBytes := le_trans (Nat.le_add_right _ _) hop
    simp only [ClientOp.exec, ObjDevice.readAt, returns_bind, returns_pure]
    exact ioAt_orderly hs h true buf hin
  | writeAt buf pos =>
    have hin : pos ≤ totalBytes := le_trans (Nat.le_add_right _ _) hop
    simp only [ClientOp.exec, ObjDevice.writeAt, returns_bind, returns_pure]
    exact ioAt_orderly hs h false buf hin
  | flush => exact Flush_orderly hs h

lemma serve_orderly {ops : List ClientOp} (hops : ∀ op ∈ ops, op.InRange totalBytes) :
    Returns (dev.serve ops) w fun r w' =>
      r.1.Orderly full sp totalBytes w' ∧ ∀ err ∈ r.2, ForeignError err := by
  induction ops generalizing dev w with
  | nil => exact (returns_pure _).mpr ⟨h, by simp⟩
  | cons op ops ih =>
    simp only [serve, returns_bind, returns_pure]
    refine (exec_orderly hs h (hops op (by simp))).mono fun r w₁ h₁ => ?_
    refine (ih h₁.1 fun op' hop' => hops op' (by simp [hop'])).mono fun r' w₂ h₂ => ?_
    refine ⟨h₂.1, fun err herr => ?_⟩
    rcases List.mem_cons.mp herr with rfl | herr
    · exact h₁.2
    · exact h₂.2 err herr

end Calls

lemma orderly_of_newDevice {s : ObjSetup σ} (h : s.newDevice w = .ok (.ok dev, w'))
    (hg : s.Gives dev.params) (hs : dev.params.Orderly full) (hw : full w.store) :
    dev.Orderly full dev.params s.totalBytes w' := by
  obtain ⟨hload, htotal, hopened⟩ := ObjSetup.loadSegments_of_newDevice h hg
  have hw₀ : full ({ w with held := 0 } : World σ).store := hw
  obtain ⟨hworld, hsegs⟩ := loadSegments_forall
    (P := fun seg => seg.Orderly full dev.params ∧ seg.backed = false)
    (fun i => ⟨⟨⟨rfl, by simp [Segment.new]⟩, by simp [Segment.new]⟩, rfl⟩)
    (fun hlist item hitem seg hseg => ⟨⟨⟨hseg.1.rep.1, hseg.1.rep.2⟩, fun it hit => by
      obtain rfl := Option.some.inj hit
      exact hs.regular.listed hw₀ hlist item hitem⟩, hseg.2⟩) _ _ _ hload
  obtain ⟨-, hsegs⟩ := hsegs _ rfl
  have hheld : w'.held = 0 := by rw [hworld]
  refine ⟨rfl, htotal, hopened, fun seg hseg => (hsegs seg hseg).1, hworld ▸ hw, ?_, ?_⟩
  · have hzero : ∀ n ∈ dev.segments.map (Segment.holding dev.params), n = 0 := by
      intro n hn
      obtain ⟨seg, hseg, rfl⟩ := List.mem_map.mp hn
      simp [Segment.holding, (hsegs seg hseg).2]
    rw [hheld, List.sum_eq_zero hzero]
  · intro permits _
    omega

end ObjDevice

/-- With a quota, the permits of orderly segments are as many as their local files. -/
lemma sum_holding_eq {permits : ℕ} (hq : sp.quotaSema = some permits)
    (h : ∀ seg ∈ segments, seg.Orderly full sp) : (segments.map (Segment.holding sp)).sum =
      segments.countP fun seg => seg.localFile.isSome := by
  induction segments with
  | nil => rfl
  | cons seg segments ih =>
    have hseg := (h seg (by simp)).rep.backed_eq
    rw [List.map_cons, List.sum_cons, ih fun s hs => h s (by simp [hs]), List.countP_cons, ← hseg]
    simp only [Segment.holding, StoreParams.permit, hq, Option.isSome_some, if_true]
    omega

/-- The permits of a quota that is smaller than the device. -/
lemma ObjSetup.Gives.quotaSema_eq {s : ObjSetup σ} (hg : s.Gives sp)
    (hle : (s.objectBytes : ℤ) ≤ s.opts.quotaBytes) (hlt : s.opts.quotaBytes < s.totalBytes) :
    sp.quotaSema = some (s.opts.quotaBytes.toNat / s.objectBytes) := by
  have hpos := hg.pos
  have hquota := hg.quota
  rw [quotaPermits, if_pos (by omega), if_neg (by omega), if_pos hlt] at hquota
  exact (Except.ok.inj hquota).symm

/-- **The quota is kept, and no client is turned away for it.**  A device with a quota of at least
one segment and less than all of it, whose items have the size of a segment and whose files can be
created: every run of reads and writes inside the device and flushes returns.  After it as many
permits are held as segments are local, at most those of the quota; none of its errors speaks of the
quota; and an access that may evict as often as it likes evicts at most once. -/
theorem quota_respected (s : ObjSetup σ) (full : σ → Prop) (w₀ w : World σ) (dev : ObjDevice σ)
    (hopen : s.newDevice w₀ = .ok (.ok dev, w)) (hmax : s.totalBytes ≤ maxOffset)
    (hquota : (s.objectBytes : ℤ) ≤ s.opts.quotaBytes) (hless : s.opts.quotaBytes < s.totalBytes)
    (hcreate : ∀ t, s.env.fault .create t = none) (hfill : ∀ t, s.env.fault .fill t = none)
    (hitems : dev.params.container.Regular full s.objectBytes) (hw : full w₀.store)
    (ops : List ClientOp) (hrange : ∀ op ∈ ops, op.InRange s.totalBytes) :
    Returns (dev.serve ops) w fun r w' =>
      w'.held = (r.1.segments.countP fun seg => seg.localFile.isSome) ∧
      w'.held ≤ s.opts.quotaBytes.toNat / s.objectBytes ∧
      (∀ err ∈ r.2, ForeignError err) ∧
      ∀ (readOp : Bool) (i : ℕ) (pos : ℤ) (buf : Bytes) (tries : ℕ), i < r.1.segments.length →
        pos ≤ s.objectBytes →
        accessSegment r.1.params readOp i pos (tries + 1) r.1.segments buf w' =
          accessSegment r.1.params readOp i pos 1 r.1.segments buf w' := by
  have hg := ObjSetup.gives_of_newDevice hopen hmax
  have hs : dev.params.Orderly full :=
    ⟨hg.sized, hg.env_eq ▸ hcreate, hg.env_eq ▸ hfill, hg.segmentBytes_eq ▸ hitems⟩
  have hq := hg.quotaSema_eq hquota hless
  refine (ObjDevice.serve_orderly hs (ObjDevice.orderly_of_newDevice hopen hg hs hw) hrange).mono
    fun r w' h => ?_
  obtain ⟨⟨hparams, htotal, hopened, hsegs⟩, herrs⟩ := h
  refine ⟨?_, hsegs.cap _ hq, herrs, fun readOp i pos buf tries hi hpos => ?_⟩
  · rw [hsegs.held_eq, sum_holding_eq hq hsegs.orderly]
  · rw [hparams]
    exact accessSegment_tries hs hsegs hi readOp (hg.segmentBytes_eq ▸ hpos) buf tries

/-! ## A device in memory -/

/-- All stored objects have the given size. -/
def MemStore.AllOf (n : ℕ) (st : MemStore) : Prop := ∀ m o, st.get m = some o → o.data.length = n

/-- An item of a memory store fails only where the object is not there. -/
lemma foreign_memItem_err {α : Type} {st : MemStore} {name : GoString} (f : Object → α)
    {e : GoError}
    (h : (match st.get name with
      | some o => Except.ok (f o)
      | none => .error osErrNotExist) = .error e) : e.Foreign := by
  cases hget : st.get name with
  | some o => simp [hget] at h
  | none =>
    simp only [hget, Except.error.injEq] at h
    subst h
    decide

lemma regular_memItem (n : ℕ) (name : GoString) : (memItem name).Regular (MemStore.AllOf n) n := by
  refine ⟨fun {st m} hst hsize => ?_, fun _ h => foreign_memItem_err _ h,
    fun _ h => foreign_memItem_err _ h, ?_, fun _ h => foreign_memItem_err _ h⟩
  · cases hget : st.get name with
    | some o =>
      simp only [memItem, hget, Except.ok.injEq] at hsize
      rw [← hsize, hst name o hget]
    | none => simp [memItem, hget] at hsize
  · intro st rdr e _ hopen hread
    cases hget : st.get name with
    | some o =>
      simp only [memItem, hget, Except.ok.injEq] at hopen
      simp [← hopen] at hread
    | none => simp [memItem, hget] at hopen

/-- A container in memory that takes streams of the announced length only is regular. -/
lemma regular_mem (n : ℕ) (name : GoString) :
    (memContainer name).sized.Regular (MemStore.AllOf n) n := by
  refine ⟨fun {m rdr st} hst => ?_, fun {m rdr st it st'} hst hput => ?_,
    fun {m rdr st e st'} hst hrdr hput => ?_, fun {st pre cursor limit items next} hst hlist => ?_⟩
  · simp only [Container.sized, memContainer]
    split_ifs with hsize
    · cases rdr.err with
      | some e => exact hst
      | none =>
        intro m' o hget
        by_cases hm : m' = m
        · subst hm
          rw [MemStore.get_set_self] at hget
          obtain rfl := Option.some.inj hget
          simp only [sizeUnknown] at hsize ⊢
          omega
        · rw [MemStore.get_set_of_ne st _ hm] at hget
          exact hst m' o hget
    · exact hst
  · simp only [Container.sized, memContainer] at hput
    split_ifs at hput
    · cases herr : rdr.err with
      | some e => simp [herr] at hput
      | none =>
        simp only [herr, Prod.mk.injEq, Except.ok.injEq] at hput
        rw [← hput.1]
        exact regular_memItem n m
    · simp at hput
  · simp only [Container.sized, memContainer] at hput
    split_ifs at hput
    · cases herr : rdr.err with
      | some e' =>
        simp only [herr, Prod.mk.injEq, Except.error.injEq] at hput
        exact hput.1 ▸ hrdr e' herr
      | none => simp [herr] at hput
    · simp only [Prod.mk.injEq, Except.error.injEq] at hput
      rw [← hput.1]
      decide
  · intro it hit
    simp only [Container.sized, memContainer, Except.ok.injEq, Prod.mk.injEq] at hlist
    rw [← hlist.1] at hit
    obtain ⟨m, -, rfl⟩ := List.mem_map.mp hit
    exact regular_memItem n m

/-- Three segments of one byte, of which two may be local. -/
def threeSegments : ObjSetup MemStore :=
  { ObjRun.memSetup 3 1 2 false with container := (memContainer ['c']).sized }

/-- All three written, uploaded and read back. -/
def threeOps : List ClientOp :=
  [.writeAt [1, 2, 3] 0, .readAt [0, 0, 0] 0, .flush, .writeAt [4] 0, .readAt [0, 0] 1]

theorem quota_respected_three :
    ∃ dev w, threeSegments.newDevice ObjRun.emptyWorld = .ok (.ok dev, w) ∧
    Returns (dev.serve threeOps) w fun r w' =>
      w'.held = (r.1.segments.countP fun seg => seg.localFile.isSome) ∧ w'.held ≤ 2 ∧
        ∀ err ∈ r.2, ForeignError err := by
  have hopens : ((threeSegments.newDevice ObjRun.emptyWorld).toOption.any fun r => r.1.isOk) =
      true := by decide +kernel
  cases hnew : threeSegments.newDevice ObjRun.emptyWorld with
  | error stop => simp [hnew, Except.toOption] at hopens
  | ok r =>
    obtain ⟨res, w⟩ := r
    cases res with
    | error e => simp [hnew, Except.toOption, Except.isOk, Except.toBool] at hopens
    | ok dev =>
      have hc : dev.params.container = (memContainer ['c']).sized := by
        have := (ObjSetup.gives_of_newDevice hnew (by decide)).stack
        exact (Except.ok.inj this).symm
      refine ⟨dev, w, rfl, ?_⟩
      refine (quota_respected threeSegments (MemStore.AllOf 1) ObjRun.emptyWorld w dev hnew
        (by decide)
        (by decide) (by decide) (fun _ => rfl) (fun _ => rfl) (hc ▸ regular_mem 1 ['c']) ?_ threeOps
        (by decide)).mono fun r w' h => ⟨h.1, h.2.1, h.2.2.1⟩
      intro m o hget
      simp [ObjRun.emptyWorld, MemStore.empty, MemStore.get] at hget

end Usbd
