import Usbd.Objstore.Stacks

/-!
# Copies and uploads

Two pairs of paths that are meant to be interchangeable.  A download is copied into its local file
by `io.CopyBuffer` or, thin-provisioned, by `sparseCopy`; a local file is uploaded out of a buffer
that was filled before the lock was released, or straight from the file.

The first pair agrees on streams that end in a zero byte.  The second agrees on files of a segment's
length: the buffered path refuses any other, the unbuffered one stores it, as an object that no
download accepts.
-/

namespace Usbd

open ListMemory Prog

variable {σ : Type}

/-! ## Sparse copies -/

/-- **Sparse copies.**  A sparse copy leaves what a plain copy leaves, the bytes of the stream and
their number, exactly when the stream ends in a zero byte. -/
theorem sparseCopy_exact_iff (data : Bytes) :
    sparseCopy ⟨data, none⟩ = (data, data.length, none) ↔ data.getLast? = some 0 := by
  rw [sparseCopy_eq]
  split_ifs with h <;> simp [h]

/-- A stream of one byte other than zero, and the empty stream, are copied with a zero behind. -/
theorem sparseCopy_appends_zero :
    sparseCopy ⟨[1], none⟩ = ([1, 0], 1, none) ∧ sparseCopy ⟨[], none⟩ = ([0], 0, none) := by
  decide

/-! ## Uploads -/

/-- A handle on an object of these bytes that reports this size. -/
structure Item.Reports (item : Item σ) (st : σ) (n : GoString) (data : Bytes) (size : ℤ) :
    Prop where
  name_eq : item.name = n
  size_eq : item.size st = .ok size
  open_eq : item.openItem st = .ok ⟨data, none⟩
  etag_ok : ∃ tag, item.etag st = .ok tag

/-- A container that stores every byte of the stream it is given and reports the size it is told.
`Gives st n h` reads: in state `st` it hands out `h` for the name `n`. -/
structure SizeTold (c : Container σ) where
  Gives : σ → GoString → Item σ → Prop
  put_ok : ∀ n data (size : ℕ) md st, size ≤ maxOffset → ∃ it st',
    c.put n ⟨data, none⟩ size md st = (.ok it, st') ∧ (∃ tag, it.etag st' = .ok tag) ∧
      (∃ h, Gives st' n h) ∧ ∀ h, Gives st' n h → h.Reports st' n data size

/-- The compressing wrapper is such a container. -/
def sizeTold_compressed {codecs : Codecs} {cipher : Cipher σ} (hinv : Inverts codecs cipher)
    {m : CompressMode} (hm : m ≠ .unknown) (hid : m ≠ .identity) {c : Container σ} (law : Plain c) :
    SizeTold (compressedContainer codecs m c) where
  Gives st n h := ∃ it o, law.Current st it n o ∧ h = compressedItem codecs it
  put_ok n data size md st hmax := by
    rw [put_compressed hm]
    obtain ⟨it, st', hput⟩ := law.put_total n (m.stored codecs data)
      (if m = .identity then (size : ℤ) else sizeUnknown) (m.headers size md) st
      (.inl (if_neg hid))
    have hcur := law.put_stores hput
    refine ⟨it, st', hput, law.etag_total hcur, ⟨_, it, _, hcur, rfl⟩, ?_⟩
    rintro h ⟨it', o, hcur', rfl⟩
    obtain rfl : o = ⟨m.stored codecs data, m.headers size md⟩ :=
      Option.some.inj ((law.current_object hcur').symm.trans (law.current_object hcur))
    have hname := law.current_name hcur'
    have htag := law.etag_total hcur'
    have hmd := law.current_metadata hcur'
    have hsize : (compressedItem codecs it').size st' = .ok size :=
      compressedItem_size (fun h => absurd h hid) hmd rfl rfl (fun h => absurd h hid)
        (isInt64_natCast hmax)
    have hopen : (compressedItem codecs it').openItem st' = .ok ⟨data, none⟩ := by
      rw [compressedItem_openItem hm (fun h => absurd h hid) hmd rfl (law.current_open hcur')]
      exact CompressMode.newReader_stored hinv hm data
    exact ⟨hname, hsize, hopen, htag⟩

namespace StoreParams

variable {sp : StoreParams σ} {w : World σ} {segID : GoString} {content : Bytes}

/-- The stream to upload is the file, unless it does not fit the buffer it is read into. -/
lemma prepare_of_faultless (hf : Faultless sp.env) {file : File} (hopen : file.closed = false)
    (hfile : w.files file.name = some content) (buffered : Bool) :
    Returns (sp.prepare file buffered) w fun r w' =>
      (if buffered = true ∧ content.length ≠ sp.segmentBytes then ∃ e, r = .error e
        else r = .ok ⟨content, none⟩) ∧ Leaves w w.files w' := by
  simp only [prepare, returns_bind]
  refine (sync_spec hopen).mono fun r w₁ h₁ => ?_
  obtain ⟨hnone, h₁⟩ := h₁
  obtain rfl := hnone hf
  have hbytes : ∀ tick, file.bytes { w₁ with tick } = content := by
    simp [File.bytes, h₁.files, hfile]
  have hleaves : ∀ tick, Leaves w w.files { w₁ with tick } := fun tick =>
    ⟨h₁.files, h₁.store, h₁.held⟩
  simp only [returns_bind, returns_syscall, hf .snapshot, returns_get, hbytes]
  cases buffered with
  | false =>
    simp only [returns_pure, Bool.false_eq_true, false_and, if_false]
    exact ⟨trivial, hleaves _⟩
  | true =>
    simp only [true_and]
    split_ifs with hlen
    · rw [returns_pure]
      exact ⟨⟨_, rfl⟩, hleaves _⟩
    · rw [returns_pure]
      exact ⟨rfl, hleaves _⟩

/-- An upload stores the file, unless it does not fit the buffer. -/
lemma syncFile_of_faultless (law : SizeTold sp.container) (hf : Faultless sp.env) (hs : sp.Sized)
    (hfile : w.files (sp.itemName segID) = some content) (buffered : Bool) :
    Returns (sp.syncFile ⟨sp.itemName segID, false⟩ segID buffered) w fun r w' =>
      if buffered = true ∧ content.length ≠ sp.segmentBytes then r.2 ≠ none
      else r.2 = none ∧ (∃ h, law.Gives w'.store (sp.itemName segID) h) ∧
        ∀ h, law.Gives w'.store (sp.itemName segID) h →
          h.Reports w'.store (sp.itemName segID) content sp.segmentBytes := by
  simp only [syncFile, returns_bind]
  refine (prepare_of_faultless hf rfl hfile buffered).mono fun r w₁ h₁ => ?_
  obtain ⟨hr, h₁⟩ := h₁
  split_ifs at hr ⊢ with hshort
  · obtain ⟨e, rfl⟩ := hr
    simp
  · subst hr
    obtain ⟨it, st', hput, htag, hgives⟩ := law.put_ok (sp.itemName segID) content sp.segmentBytes
      .nil w₁.store hs.le_max
    simp only [upload, returns_bind, returns_syscall, returns_get, hf .put, hput, returns_modify,
      returns_pure]
    refine (finishSync_spec htag).mono fun r w₂ h₂ => ?_
    obtain ⟨hnone, hstore, -⟩ := h₂
    simp only at hstore ⊢
    rw [hstore]
    exact ⟨hnone (hf .writeFile), hgives⟩

/-- Two uploads that both fail, or both leave the same bytes under the object's name. -/
def UploadsAgree (law : SizeTold sp.container) (n : GoString)
    (r r' : (Option (Item σ) × Option GoError) × World σ) : Prop :=
  r.1.2 ≠ none ∧ r'.1.2 ≠ none ∨
    r.1.2 = none ∧ r'.1.2 = none ∧ ∃ data, ∀ u ∈ [r, r'],
      (∃ h, law.Gives u.2.store n h) ∧
        ∀ h, law.Gives u.2.store n h → h.openItem u.2.store = .ok ⟨data, none⟩

/-- If the upload succeeded, a download of what it stored, into a cache directory without files of
that name, is the file again. -/
def Restores (law : SizeTold sp.container) (n : GoString) (content : Bytes)
    (r : (Option (Item σ) × Option GoError) × World σ) : Prop :=
  r.1.2 = none → ∀ h, law.Gives r.2.store n h → ∀ w₁ : World σ, w₁.store = r.2.store →
    w₁.files n = none → w₁.files (eTagFileName n) = none → sp.Room w₁ →
    Returns (sp.downloadFile h) w₁ fun d w₂ =>
      d = .ok (some ⟨n, false⟩) ∧ w₂.files n = some content

/-- A stored object of a segment's length is downloaded as it is. -/
lemma restores_of_reports (law : SizeTold sp.container) (hr : Reliable sp.env) (hs : sp.Sized)
    (hthick : sp.thickProvision = true) {n : GoString} (hlen : content.length = sp.segmentBytes)
    {r : (Option (Item σ) × Option GoError) × World σ}
    (h : ∀ h, law.Gives r.2.store n h → h.Reports r.2.store n content sp.segmentBytes) :
    Restores law n content r := by
  intro _ item hgives w₁ hstore hdata hetag hroom
  obtain ⟨hname, hsize, hopen, htag⟩ := h item hgives
  rw [← hstore] at hsize hopen htag
  have hshow : item.Shows w₁.store n content := ⟨hname, by rw [hsize, hlen], hopen⟩
  refine (downloadFile_of_room hr hs hroom hshow hlen htag
    ⟨Or.inl hdata, fun _ => hetag⟩).mono fun d w₂ h₂ => ?_
  obtain ⟨hd, ⟨extra, hextra, hfile⟩, -⟩ := h₂
  refine ⟨hd, ?_⟩
  rw [hfile, hextra (Or.inl hthick), List.append_nil]

/-- **Buffered and unbuffered uploads.**  The two uploads of a local file agree, and what they store
can be downloaded again, exactly when the file has a segment's length. -/
theorem syncFile_agrees_iff (law : SizeTold sp.container) (hf : Faultless sp.env) (hs : sp.Sized)
    (hthick : sp.thickProvision = true) (hfile : w.files (sp.itemName segID) = some content) :
    (∃ r r', sp.syncFile ⟨sp.itemName segID, false⟩ segID true w = .ok r ∧
      sp.syncFile ⟨sp.itemName segID, false⟩ segID false w = .ok r' ∧
      UploadsAgree law (sp.itemName segID) r r' ∧
      Restores law (sp.itemName segID) content r ∧ Restores law (sp.itemName segID) content r') ↔
    content.length = sp.segmentBytes := by
  obtain ⟨r, w₁, hrun, hr⟩ := syncFile_of_faultless law hf hs hfile true
  obtain ⟨r', w₁', hrun', hr'⟩ := syncFile_of_faultless law hf hs hfile false
  simp only [Bool.false_eq_true, false_and, if_false] at hr'
  obtain ⟨hnone', hgives', hrep'⟩ := hr'
  constructor
  · rintro ⟨u, u', hu, hu', hagree, -⟩
    obtain rfl := Except.ok.inj (hrun.symm.trans hu)
    obtain rfl := Except.ok.inj (hrun'.symm.trans hu')
    by_contra hlen
    -- the buffered upload has refused the file, the other one has not
    simp only [hlen, ne_eq, not_false_eq_true, and_self, if_true] at hr
    rcases hagree with ⟨-, h⟩ | ⟨h, -⟩
    · exact h hnone'
    · exact hr h
  · intro hlen
    simp only [hlen, ne_eq, not_true_eq_false, and_false, if_false] at hr
    obtain ⟨hnone, hgives, hrep⟩ := hr
    refine ⟨_, _, hrun, hrun', Or.inr ⟨hnone, hnone', content, ?_⟩,
      restores_of_reports law hf.reliable hs hthick hlen hrep,
      restores_of_reports law hf.reliable hs hthick hlen hrep'⟩
    intro u hu
    simp only [List.mem_cons, List.not_mem_nil, or_false] at hu
    rcases hu with rfl | rfl
    · exact ⟨hgives, fun h hh => (hrep h hh).open_eq⟩
    · exact ⟨hgives', fun h hh => (hrep' h hh).open_eq⟩

end StoreParams

/-- One-byte segments over a compressing container in memory. -/
def toySizeTold : StoreParams MemStore :=
  toyParams (compressedContainer toyCodecs .gzip (memContainer ['c']))

/-- Its container reports the size it is told. -/
def toySizeToldLaw : SizeTold toySizeTold.container :=
  sizeTold_compressed inverts_toy (m := .gzip) (by decide) (by decide) (memPlain ['c'])

/-- A cache directory with one local file, of these bytes. -/
def toyCacheWith (content : Bytes) : World MemStore :=
  ⟨MemStore.empty, Function.update (fun _ => none) (toySizeTold.itemName (itoa 0))
    (some content), 0, [], 0⟩

theorem syncFile_agrees_iff_toy :
    (∃ r r', toySizeTold.syncFile ⟨toySizeTold.itemName (itoa 0), false⟩ (itoa 0) true
        (toyCacheWith [5]) = .ok r ∧
      toySizeTold.syncFile ⟨toySizeTold.itemName (itoa 0), false⟩ (itoa 0) false
        (toyCacheWith [5]) = .ok r' ∧
      StoreParams.UploadsAgree toySizeToldLaw (toySizeTold.itemName (itoa 0)) r r' ∧
      StoreParams.Restores toySizeToldLaw (toySizeTold.itemName (itoa 0)) [5] r ∧
      StoreParams.Restores toySizeToldLaw (toySizeTold.itemName (itoa 0)) [5] r') ↔
    [(5 : UInt8)].length = toySizeTold.segmentBytes :=
  StoreParams.syncFile_agrees_iff toySizeToldLaw faultless_quietEnv
    ⟨by decide, by decide, by simp [toySizeTold, toyParams]⟩ rfl (by simp [toyCacheWith])

/-- The errors of the two uploads of a local file, and the outcome of downloading what the
unbuffered one has stored. -/
def toyUploads (content : Bytes) :
    Option (Option GoError × Option GoError × Except GoError (Option File)) :=
  let name := toySizeTold.itemName (itoa 0)
  match toySizeTold.syncFile ⟨name, false⟩ (itoa 0) true (toyCacheWith content),
    toySizeTold.syncFile ⟨name, false⟩ (itoa 0) false (toyCacheWith content) with
  | .ok (r, _), .ok (r', w') =>
    match toySizeTold.downloadFile (compressedItem toyCodecs (memItem name))
      { w' with files := fun _ => none } with
    | .ok (d, _) => some (r.2, r'.2, d)
    | .error _ => none
  | _, _ => none

/-- A local file of two bytes where a segment has one: the buffered upload refuses it, the
unbuffered one stores it, and the object is refused by every download. -/
theorem drifted_file_uploads_differ :
    toyUploads [5, 6] =
      some (some (.new "Fewer bytes than expected were read while buffering file"),
      none, .error (.new "contained more than the expected bytes of data")) ∧
    toyUploads [5] = some (none, none, .ok (some ⟨toySizeTold.itemName (itoa 0), false⟩)) := by
  refine ⟨?_, ?_⟩ <;> decide +kernel

end Usbd
