import Usbd.Objstore.SegmentSpec

/-!
# Local copies and their ETags

With `persistCache` the cache directory outlives the process.  A file found there is used again
when the ETag beside it is that of the remote object: `cachedFile` takes the ETag file for a record
that the data file has the bytes the object had.  Nothing removes the record when the file is
written to, so that this is right only of files that nobody writes to.

What follows holds whatever fails.  `Coherent` is what the directory must satisfy for the inference
to be right.  Each call says what it can do to the files of an object: `Clears`, that some of them
may have gone; `Rewrites`, that the data file may have changed; and of a download, that the file it
returns is a copy of the object (`download_copies`).
-/

namespace Usbd

open ListMemory Prog

variable {σ : Type}

/-! ## Coherent directories -/

/-- A handle may show these bytes with this ETag. -/
def Faithful.Tagged {c : Container σ} (law : Faithful c) (tag data : Bytes) : Prop :=
  ∃ st it n o, law.Current st it n o ∧ it.etag st = .ok tag ∧ o.data = data

/-- Equal ETags mean equal contents. -/
def Faithful.TagsAgree {c : Container σ} (law : Faithful c) : Prop :=
  ∀ tag data data', law.Tagged tag data → law.Tagged tag data' → data = data'

namespace StoreParams

/-- The local file of a name, if it has the size of a segment, has these bytes. -/
def Copies (sp : StoreParams σ) (w : World σ) (name : GoString) (data : Bytes) : Prop :=
  ∀ d, w.files name = some d → d.length = sp.segmentBytes → d = data

/-- A local file that might be used again has the bytes of the object, or bytes that go with its
ETag file. -/
def Coherent (sp : StoreParams σ) (law : Faithful sp.container) (w : World σ) (name : GoString) :
    Prop :=
  ∀ d tag o, w.files name = some d → w.files (eTagFileName name) = some tag → tag ≠ [] →
    d.length = sp.segmentBytes → law.objects w.store name = some o →
    d = o.data ∨ law.Tagged tag d

end StoreParams

/-- Only the files of one object may have changed. -/
structure Touches (name : GoString) (w w' : World σ) : Prop where
  store : w'.store = w.store
  files : StoreParams.SameBut name w.files w'.files

/-- Of the files of one object some may have gone. -/
structure Clears (name : GoString) (w w' : World σ) : Prop extends Touches name w w' where
  data : w'.files name = w.files name ∨ w'.files name = none
  etag : w'.files (eTagFileName name) = w.files (eTagFileName name) ∨
    w'.files (eTagFileName name) = none

/-- Only one file may have changed. -/
structure Rewrites (name : GoString) (w w' : World σ) : Prop where
  store : w'.store = w.store
  files : ∀ n, n ≠ name → w'.files n = w.files n

section Directories

variable {sp : StoreParams σ} {law : Faithful sp.container} {w w' w'' : World σ} {name : GoString}
  {data : Bytes}

lemma Touches.refl : Touches name w w := ⟨rfl, .refl _ _⟩

lemma Touches.trans (h : Touches name w w') (h' : Touches name w' w'') : Touches name w w'' where
  store := h'.store.trans h.store
  files n hn he := (h'.files n hn he).trans (h.files n hn he)

lemma Touches.frame (h : Touches name w w') : Frame sp law name w w' := .of_files h.files h.store

lemma Rewrites.of_eq (hfiles : w'.files = w.files) (hstore : w'.store = w.store) :
    Rewrites name w w' :=
  ⟨hstore, fun n _ => by rw [hfiles]⟩

lemma Rewrites.of_update {d : Option Bytes} (h : Leaves w (Function.update w.files name d) w') :
    Rewrites name w w' :=
  ⟨h.store, fun n hn => by rw [h.files, Function.update_of_ne hn]⟩

lemma Rewrites.trans (h : Rewrites name w w') (h' : Rewrites name w' w'') :
    Rewrites name w w'' :=
  ⟨h'.store.trans h.store, fun n hn => (h'.files n hn).trans (h.files n hn)⟩

lemma Rewrites.touches (h : Rewrites name w w') : Touches name w w' :=
  ⟨h.store, fun n hn _ => h.files n hn⟩

lemma Rewrites.etag (h : Rewrites name w w') :
    w'.files (eTagFileName name) = w.files (eTagFileName name) :=
  h.files _ (StoreParams.ne_eTagFileName name).symm

lemma Clears.of_eq (hfiles : w'.files = w.files) (hstore : w'.store = w.store) :
    Clears name w w' where
  store := hstore
  files n _ _ := by rw [hfiles]
  data := Or.inl (by rw [hfiles])
  etag := Or.inl (by rw [hfiles])

lemma Clears.trans (h : Clears name w w') (h' : Clears name w' w'') : Clears name w w'' where
  toTouches := h.toTouches.trans h'.toTouches
  data := by
    rcases h'.data with hd | hd
    · rw [hd]
      exact h.data
    · exact Or.inr hd
  etag := by
    rcases h'.etag with he | he
    · rw [he]
      exact h.etag
    · exact Or.inr he

lemma Clears.of_remove {n : GoString} (hn : n = name ∨ n = eTagFileName name)
    (h : Leaves w w.files w' ∨ Leaves w (Function.update w.files n none) w') :
    Clears name w w' := by
  have hne := StoreParams.ne_eTagFileName name
  rcases h with h | h
  · exact .of_eq h.files h.store
  · rcases hn with rfl | rfl
    · refine ⟨⟨h.store, ?_⟩, Or.inr ?_, Or.inl ?_⟩ <;> rw [h.files]
      · exact (StoreParams.SameBut.refl _ _).update_data none
      · exact Function.update_self ..
      · exact Function.update_of_ne hne.symm _ _
    · refine ⟨⟨h.store, ?_⟩, Or.inl ?_, Or.inr ?_⟩ <;> rw [h.files]
      · exact (StoreParams.SameBut.refl _ _).update_etag none
      · exact Function.update_of_ne hne _ _
      · exact Function.update_self ..

namespace StoreParams

lemma Copies.clears (h : sp.Copies w name data) (hc : Clears name w w') :
    sp.Copies w' name data := by
  intro d hd hlen
  rcases hc.data with heq | hnone
  · exact h d (heq ▸ hd) hlen
  · rw [hnone] at hd
    cases hd

lemma Coherent.clears (h : sp.Coherent law w name) (hc : Clears name w w') :
    sp.Coherent law w' name := by
  intro d tag o hd ht hne hlen ho
  rcases hc.data with hdata | hnone
  · rcases hc.etag with htag | hnone
    · rw [hc.store] at ho
      exact h d tag o (hdata ▸ hd) (htag ▸ ht) hne hlen ho
    · rw [hnone] at ht
      cases ht
  · rw [hnone] at hd
    cases hd

lemma Copies.coherent {o : Object} (h : sp.Copies w name o.data)
    (ho : law.objects w.store name = some o) : sp.Coherent law w name := by
  intro d tag o' hd _ _ hlen ho'
  obtain rfl : o = o' := Option.some.inj (ho.symm.trans ho')
  exact Or.inl (h d hd hlen)

lemma coherent_of_absent (h : w.files name = none) : sp.Coherent law w name := by
  intro d tag o hd
  rw [h] at hd
  cases hd

/-- What is done to the files of another object does not matter. -/
lemma Coherent.frame {other : GoString} (h : sp.Coherent law w name)
    (hf : Frame sp law other w w') (ha : Apart name other) : sp.Coherent law w' name := by
  intro d tag o hd ht hne hlen ho
  rw [hf.files _ ha.data ha.data_etag] at hd
  rw [hf.files _ ha.etag_data ha.etag] at ht
  rw [hf.objects _ ha.data] at ho
  exact h d tag o hd ht hne hlen ho

lemma Copies.frame {other : GoString} (h : sp.Copies w name data)
    (hf : Frame sp law other w w') (ha : Apart name other) : sp.Copies w' name data := by
  intro d hd
  rw [hf.files _ ha.data ha.data_etag] at hd
  exact h d hd

end StoreParams

end Directories

/-! ## Local files -/

namespace StoreParams

variable {sp : StoreParams σ} {law : Faithful sp.container} {w : World σ} {name : GoString}

lemma rmCacheFile_clears {n : GoString} (hn : n = name ∨ n = eTagFileName name) (text : String) :
    Returns (sp.rmCacheFile text n) w fun _ w' => Clears name w w' := by
  simp only [rmCacheFile, returns_bind, returns_pure]
  exact osRemove_faulty.mono fun r w' h => .of_remove hn h.1

/-- What `cachedFile` comes to.  A file that is handed back is as it was found, beside the ETag of
the item. -/
structure Found (item : Item σ) (name : GoString) (size : ℕ) (w : World σ)
    (r : Except GoError (Option File)) (w' : World σ) : Prop where
  clears : Clears name w w'
  reused : ∀ file, r = .ok (some file) → file = ⟨name, false⟩ ∧ w'.files = w.files ∧
    ∃ d tag, w.files name = some d ∧ w.files (eTagFileName name) = some tag ∧ tag ≠ [] ∧
      item.etag w.store = .ok tag ∧ d.length = size

/-- A removal that ends `cachedFile` hands back no file. -/
lemma rmStray_found {w₁ : World σ} {item : Item σ} {name n : GoString} (size : ℕ)
    (hclears : Clears name w w₁) (hn : n = name ∨ n = eTagFileName name) (text : String) :
    Returns (sp.rmStray text n) w₁ (Found item name size w) := by
  rw [rmStray, returns_bind]
  refine (rmCacheFile_clears hn text).mono fun r w₂ h₂ => ?_
  cases r with
  | none => exact (returns_pure _).mpr ⟨hclears.trans h₂, by simp⟩
  | some e => exact (returns_pure _).mpr ⟨hclears.trans h₂, by simp⟩

lemma cachedFile_found (item : Item σ) (name : GoString) (size : ℕ) :
    Returns (sp.cachedFile item name size) w (Found item name size w) := by
  simp only [cachedFile, returns_bind]
  refine osStat_faulty.mono fun dataSize w₁ h₁ => ?_
  obtain ⟨hsize, h₁⟩ := h₁
  refine osStat_faulty.mono fun eTagSize w₂ h₂ => ?_
  obtain ⟨-, h₂⟩ := h₂
  have hfiles₂ : w₂.files = w.files := h₂.files.trans h₁.files
  have hstore₂ : w₂.store = w.store := h₂.store.trans h₁.store
  have hclears₂ : Clears name w w₂ := .of_eq hfiles₂ hstore₂
  cases dataSize with
  | none =>
    cases eTagSize with
    | none => exact (returns_pure _).mpr ⟨hclears₂, by simp⟩
    | some n => exact rmStray_found size hclears₂ (Or.inr rfl) _
  | some found =>
    cases eTagSize with
    | none => exact rmStray_found size hclears₂ (Or.inl rfl) _
    | some n =>
      obtain ⟨d, hd, hlen⟩ := hsize found rfl
      simp only
      split_ifs
      · rw [returns_bind]
        refine osReadFile_faulty.mono fun r w₃ h₃ => ?_
        obtain ⟨htag, h₃⟩ := h₃
        have hfiles₃ : w₃.files = w.files := h₃.files.trans hfiles₂
        have hstore₃ : w₃.store = w.store := h₃.store.trans hstore₂
        have hclears₃ : Clears name w w₃ := .of_eq hfiles₃ hstore₃
        cases r with
        | error e => exact (returns_pure _).mpr ⟨hclears₃, by simp⟩
        | ok tag =>
          simp only [returns_bind, returns_get, hstore₃]
          cases hetag : item.etag w.store with
          | error e => exact (returns_pure _).mpr ⟨hclears₃, by simp⟩
          | ok itemTag =>
            simp only
            split_ifs with hsame
            · obtain ⟨hne, rfl, rfl⟩ := hsame
              rw [returns_bind]
              refine osOpenFile_faulty.mono fun r w₄ h₄ => ?_
              obtain ⟨hopened, h₄⟩ := h₄
              have hfiles₄ : w₄.files = w.files := h₄.files.trans hfiles₃
              have hclears₄ : Clears name w w₄ := .of_eq hfiles₄ (h₄.store.trans hstore₃)
              cases r with
              | error e => exact (returns_pure _).mpr ⟨hclears₄, by simp⟩
              | ok file =>
                refine (returns_pure _).mpr ⟨hclears₄, fun file' hfile => ?_⟩
                obtain rfl : file = file' := by simpa using hfile
                refine ⟨hopened file rfl, hfiles₄, d, tag, hd, ?_, hne, hetag, hlen⟩
                rw [← hfiles₂]
                exact htag tag rfl
            · rw [returns_bind]
              refine (rmCacheFile_clears (Or.inl rfl) _).mono fun r w₄ h₄ => ?_
              rw [returns_bind]
              refine (rmCacheFile_clears (Or.inr rfl) _).mono fun r' w₅ h₅ => ?_
              have hclears₅ := hclears₃.trans (h₄.trans h₅)
              split <;> exact (returns_pure _).mpr ⟨hclears₅, by simp⟩
      · exact (returns_pure _).mpr ⟨hclears₂, by simp⟩

/-- Over a coherent directory what is handed back has the bytes of the object. -/
lemma Found.bytes_eq {item : Item σ} {o : Object} {r : Except GoError (Option File)}
    {w' : World σ} (h : Found item name sp.segmentBytes w r w') (htags : law.TagsAgree)
    (hcur : law.Current w.store item name o) (hcoh : sp.Coherent law w name) {file : File}
    (hr : r = .ok (some file)) : file.name = name ∧ w'.files name = some o.data := by
  obtain ⟨rfl, hfiles, d, tag, hd, ht, hne, hetag, hlen⟩ := h.reused file hr
  refine ⟨rfl, ?_⟩
  rw [hfiles, hd]
  rcases hcoh d tag o hd ht hne hlen (law.current_object hcur) with heq | htagged
  · rw [heq]
  · rw [htags tag d o.data htagged ⟨_, _, _, _, hcur, hetag, rfl⟩]

/-! ### Downloads -/

/-- A download copies the object, or a part of it that is not taken for the whole. -/
lemma copyDownload_copies {file : File} {data : Bytes} (hempty : w.files file.name = some [])
    (hlen : data.length = sp.segmentBytes) :
    Returns (sp.copyDownload file ⟨data, none⟩) w fun _ w' =>
      Touches file.name w w' ∧ sp.Copies w' file.name data := by
  have hpart : ∀ {d : Bytes} {w' : World σ}, d <+: data ++ [0] →
      Leaves w (Function.update w.files file.name (some d)) w' →
      Touches file.name w w' ∧ sp.Copies w' file.name data := by
    intro d w' hd h
    refine ⟨⟨h.store, ?_⟩, fun d' hd' hlen' => ?_⟩
    · rw [h.files]
      exact (SameBut.refl _ _).update_data _
    · obtain rfl : d = d' := by simpa [h.files] using hd'
      have hle : d.length ≤ data.length := (hlen'.trans hlen.symm).le
      have hprefix : d <+: data := List.prefix_of_prefix_length_le hd (List.prefix_append _ _) hle
      exact hprefix.eq_of_length (hlen'.trans hlen.symm)
  rw [copyDownload]
  split_ifs
  · rw [returns_bind]
    refine writeAt_faulty.mono fun r w' h => ?_
    have hcopied : Touches file.name w w' ∧ sp.Copies w' file.name data := by
      rcases h with h | ⟨fault, -, h⟩
      · refine hpart List.nil_prefix ?_
        rwa [← hempty, Function.update_eq_self]
      · rw [File.bytes, hempty] at h
        exact hpart ((prefix_of_fileWriteAt_nil data fault).trans (List.prefix_append _ _)) h
    obtain ⟨n, _ | e⟩ := r
    · exact (returns_pure _).mpr hcopied
    · exact (returns_pure _).mpr hcopied
  · simp only [returns_bind, returns_syscall, sparseCopy_eq]
    have hcopy : (if data.getLast? = some 0 then data else data ++ [0]) <+: data ++ [0] := by
      split_ifs
      · exact List.prefix_append _ _
      · exact List.prefix_rfl
    cases sp.env.fault .copy w.tick with
    | none =>
      simp only [returns_bind, returns_setFile, returns_pure]
      exact hpart hcopy (leaves_tick _ _)
    | some k =>
      simp only [returns_bind, returns_setFile, returns_pure]
      have htaken := List.take_prefix k (if data.getLast? = some 0 then data else data ++ [0])
      exact hpart (htaken.trans hcopy) (leaves_tick _ _)

/-- A download keeps the directory coherent, and the file it returns is a copy of the object. -/
lemma download_copies {item : Item σ} {o : Object} (htags : law.TagsAgree)
    (hcur : law.Current w.store item name o) (hcoh : sp.Coherent law w name) :
    Returns (sp.download item) w fun r w' => Touches name w w' ∧ sp.Coherent law w' name ∧
      ∀ file, r = .ok (some file) → file.name = name ∧ sp.Copies w' name o.data := by
  simp only [download, returns_bind, returns_get, law.current_size hcur]
  split_ifs with hzero hsize
  · exact (returns_pure _).mpr ⟨.refl, hcoh, by simp⟩
  · exact (returns_pure _).mpr ⟨.refl, hcoh, by simp⟩
  have hlen : o.data.length = sp.segmentBytes := by
    rw [not_not] at hsize
    exact_mod_cast hsize
  rw [law.current_name hcur, returns_bind]
  refine (cachedFile_found item name sp.segmentBytes).mono fun r w₁ hfound => ?_
  have hcoh₁ := hcoh.clears hfound.clears
  cases r with
  | error e => exact (returns_pure _).mpr ⟨hfound.clears.toTouches, hcoh₁, by simp⟩
  | ok found =>
    cases found with
    | some file =>
      -- a copy is found only under the tag of the object, which vouches for its bytes
      obtain ⟨hname, hdata⟩ := hfound.bytes_eq htags hcur hcoh rfl
      refine (returns_pure _).mpr ⟨hfound.clears.toTouches, hcoh₁, fun file' hfile => ?_⟩
      obtain rfl : file = file' := by simpa using hfile
      refine ⟨hname, fun d hd _ => ?_⟩
      rw [hdata] at hd
      exact (Option.some.inj hd).symm
    | none =>
      simp only
      rw [returns_bind]
      refine osCreate_faulty.mono fun r w₂ h₂ => ?_
      rcases h₂ with ⟨-, rfl, h₂⟩ | ⟨rfl, h₂⟩
      · have hclears : Clears name w w₂ := hfound.clears.trans (.of_eq h₂.files h₂.store)
        exact (returns_pure _).mpr ⟨hclears.toTouches, hcoh.clears hclears, by simp⟩
      have htouches₂ : Touches name w w₂ := by
        refine hfound.clears.toTouches.trans ⟨h₂.store, ?_⟩
        rw [h₂.files]
        exact (SameBut.refl _ _).update_data _
      have hcur₂ : law.Current w₂.store item name o := htouches₂.store.symm ▸ hcur
      have hempty : w₂.files name = some [] := by rw [h₂.files, Function.update_self]
      have hlimit : Reader.limit ⟨o.data, none⟩ (sp.segmentBytes + 1) = ⟨o.data, none⟩ :=
        Reader.limit_of_lt (by simp [hlen])
      simp only [fetch, returns_bind, returns_get, law.current_open hcur₂, hlimit]
      refine (copyDownload_copies hempty hlen).mono fun r w₃ h₃ => ?_
      obtain ⟨htouches₃, hcopies⟩ := h₃
      have htouches := htouches₂.trans htouches₃
      have hobject : law.objects w₃.store name = some o := by
        rw [htouches.store]
        exact law.current_object hcur
      have hcoh₃ := hcopies.coherent hobject
      obtain ⟨n, _ | e⟩ := r
      · simp only
        split_ifs
        · exact (returns_pure _).mpr ⟨htouches, hcoh₃, by simp⟩
        · exact (returns_pure _).mpr ⟨htouches, hcoh₃, by simp⟩
        · refine (returns_pure _).mpr ⟨htouches, hcoh₃, fun file hfile => ?_⟩
          obtain rfl := by simpa using hfile
          exact ⟨rfl, hcopies⟩
      · exact (returns_pure _).mpr ⟨htouches, hcoh₃, by simp⟩

lemma downloadFile_copies {item : Item σ} {o : Object} (htags : law.TagsAgree)
    (hcur : law.Current w.store item name o) (hcoh : sp.Coherent law w name) :
    Yields (sp.downloadFile item) w fun r w' => Touches name w w' ∧ sp.Coherent law w' name ∧
      ∀ file, r = .ok (some file) → file.name = name ∧ sp.Copies w' name o.data := by
  simp only [downloadFile, yields_bind]
  refine claimCapacity_files.yields.mono fun r w₁ h₁ => ?_
  have hclears₁ : Clears name w w₁ := .of_eq h₁.1 h₁.2
  have hcoh₁ := hcoh.clears hclears₁
  cases r with
  | some e => exact (yields_pure _).mpr ⟨hclears₁.toTouches, hcoh₁, by simp⟩
  | none =>
    rw [yields_bind]
    have hcur₁ : law.Current w₁.store item name o := h₁.2.symm ▸ hcur
    refine (download_copies htags hcur₁ hcoh₁).yields.mono fun r w₂ h₂ => ?_
    obtain ⟨htouches₂, hcoh₂, hfile₂⟩ := h₂
    cases r with
    | error e =>
      rw [yields_bind]
      refine releaseCapacity_files.mono fun _ w₃ h₃ => ?_
      have hclears₃ : Clears name w₂ w₃ := .of_eq h₃.1 h₃.2
      exact (yields_pure _).mpr ⟨(hclears₁.toTouches.trans htouches₂).trans hclears₃.toTouches,
        hcoh₂.clears hclears₃, by simp⟩
    | ok file => exact (yields_pure _).mpr ⟨hclears₁.toTouches.trans htouches₂, hcoh₂, hfile₂⟩

/-! ### New files, and files that are given up -/

lemma fill_rewrites (file : File) (buf : Bytes) (pos : ℤ) (text : String) :
    Returns (sp.fillNew file buf pos text file.name) w fun r w' =>
      Rewrites file.name w w' ∧ ∀ file', r = .ok (some file') → file' = file := by
  rw [fillNew, returns_bind]
  refine writeAt_faulty.mono fun r w₁ h₁ => ?_
  have hwrites : Rewrites file.name w w₁ := by
    rcases h₁ with h₁ | ⟨fault, -, h₁⟩
    · exact .of_eq h₁.files h₁.store
    · exact .of_update h₁
  obtain ⟨n, _ | e⟩ := r
  · refine (returns_pure _).mpr ⟨hwrites, fun file' hfile => ?_⟩
    obtain rfl := by simpa using hfile
    rfl
  · simp only
    rw [returns_bind]
    refine osRemove_faulty.mono fun _ w₂ h₂ => ?_
    refine (returns_pure _).mpr ⟨hwrites.trans ?_, by simp⟩
    rcases h₂.1 with h₂ | h₂
    · exact .of_eq h₂.files h₂.store
    · exact .of_update h₂

/-- A new file leaves the ETag file where it is. -/
lemma createFile_rewrites (segID : GoString) : Returns (sp.createFile segID) w fun r w' =>
    Rewrites (sp.itemName segID) w w' ∧
      ∀ file, r = .ok (some file) → file.name = sp.itemName segID := by
  simp only [createFile, returns_bind]
  refine claimCapacity_files.mono fun r w₁ h₁ => ?_
  have hwrites₁ : Rewrites (sp.itemName segID) w w₁ := .of_eq h₁.1 h₁.2
  cases r with
  | some e => exact (returns_pure _).mpr ⟨hwrites₁, by simp⟩
  | none =>
    simp only
    rw [returns_bind]
    refine osCreate_faulty.mono fun r w₂ h₂ => ?_
    rcases h₂ with ⟨-, rfl, h₂⟩ | ⟨rfl, h₂⟩
    · exact (returns_pure _).mpr ⟨hwrites₁.trans (.of_eq h₂.files h₂.store), by simp⟩
    have hwrites₂ := hwrites₁.trans (.of_update h₂)
    simp only
    split_ifs
    · refine (fill_rewrites _ _ _ _).mono fun r w₃ h₃ => ⟨hwrites₂.trans h₃.1, fun file hfile => ?_⟩
      rw [h₃.2 file hfile]
    · refine (fill_rewrites _ _ _ _).mono fun r w₃ h₃ => ⟨hwrites₂.trans h₃.1, fun file hfile => ?_⟩
      rw [h₃.2 file hfile]

/-- With `persistCache` a file that is given up takes its ETag file along. -/
lemma removeFile_clears (hpersist : sp.persistCache = true) (file : File) :
    Returns (sp.removeFile file) w fun r w' => r.1.name = file.name ∧ Clears file.name w w' ∧
      (r.2 = none → w'.files file.name = none ∧ w'.files (eTagFileName file.name) = none) := by
  simp only [removeFile, returns_bind]
  refine close_faulty.mono fun r w₁ h₁ => ?_
  obtain ⟨⟨n, closed⟩, err⟩ := r
  obtain ⟨rfl, h₁⟩ : n = file.name ∧ Leaves w w.files w₁ := h₁
  have hclears₁ : Clears file.name w w₁ := .of_eq h₁.files h₁.store
  cases err with
  | some e => exact (returns_pure _).mpr ⟨rfl, hclears₁, by simp⟩
  | none =>
    simp only [hpersist, if_true]
    rw [returns_bind]
    refine osRemove_faulty.mono fun r w₂ h₂ => ?_
    have hclears₂ := hclears₁.trans (.of_remove (Or.inl rfl) h₂.1)
    cases r with
    | some e => exact (returns_pure _).mpr ⟨rfl, hclears₂, by simp⟩
    | none =>
      have hgone₂ := h₂.2 (by simp)
      simp only
      rw [returns_bind]
      refine osRemove_faulty.mono fun r w₃ h₃ => ?_
      have hclears₃ : Clears file.name w₂ w₃ := .of_remove (Or.inr rfl) h₃.1
      have hclears := hclears₂.trans hclears₃
      have hgone₃ : w₃.files file.name = none := by
        rcases hclears₃.data with hsame | hnone
        · rw [hsame]
          exact hgone₂
        · exact hnone
      cases r with
      | none => exact (returns_pure _).mpr ⟨rfl, hclears, fun _ => ⟨hgone₃, h₃.2 (by simp)⟩⟩
      | some e =>
        simp only
        split_ifs with hmissing
        · refine (returns_pure _).mpr ⟨rfl, hclears, fun _ => ⟨hgone₃, h₃.2 fun e' he => ?_⟩⟩
          obtain rfl := Option.some.inj he
          exact hmissing
        · exact (returns_pure _).mpr ⟨rfl, hclears, by simp⟩

lemma prepare_streams (file : File) (buffered : Bool) :
    Returns (sp.prepare file buffered) w fun r w' => Leaves w w.files w' ∧
      ∀ src, r = .ok src → Streams (file.bytes w) src := by
  simp only [prepare, returns_bind]
  refine sync_faulty.mono fun r w₁ h₁ => ?_
  cases r with
  | some e => exact (returns_pure _).mpr ⟨h₁, by simp⟩
  | none =>
    have hbytes : ∀ tick, file.bytes { w₁ with tick } = file.bytes w := by
      simp [File.bytes, h₁.files]
    have hleaves : ∀ tick, Leaves w w.files { w₁ with tick } := fun tick =>
      ⟨h₁.files, h₁.store, h₁.held⟩
    have hwhole : ∀ src, (.ok ⟨file.bytes w, none⟩ : Except GoError Reader) = .ok src →
        Streams (file.bytes w) src := by
      rintro src ⟨⟩ -
      rfl
    simp only [returns_bind, returns_syscall, returns_get, hbytes]
    cases sp.env.fault .snapshot w₁.tick with
    | none =>
      cases buffered with
      | true =>
        simp only
        split_ifs
        · exact (returns_pure _).mpr ⟨hleaves _, by simp⟩
        · exact (returns_pure _).mpr ⟨hleaves _, hwhole⟩
      | false => exact (returns_pure _).mpr ⟨hleaves _, hwhole⟩
    | some n =>
      cases buffered with
      | true => exact (returns_pure _).mpr ⟨hleaves _, by simp⟩
      | false =>
        refine (returns_pure _).mpr ⟨hleaves _, ?_⟩
        rintro src ⟨⟩ herr
        cases herr

end StoreParams
end Usbd
