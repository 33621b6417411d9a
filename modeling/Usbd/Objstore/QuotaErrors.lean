import Usbd.Objstore.Permits

/-!
# Errors that speak of the quota

Two errors say that there is no room: `errCapacityClaim`, which `ioAt` looks for, and the one
`removeLeastRecentUsed` returns when it finds nothing to evict.  Every other error is `Foreign`.
The calls below a segment return no other errors once they have their permit, whatever fails and
whatever the container does, as long as the container does not return these two itself: they are
the package's own.

`Regular` says what is asked of the container besides: its items have the size of a segment.  It is
relative to an invariant of the store, `full`, that uploads keep.
-/

namespace Usbd

open ListMemory Prog

variable {σ : Type} {sp : StoreParams σ} {w w' : World σ} {full : σ → Prop} {seg : Segment σ}

/-- What `removeLeastRecentUsed` returns when nothing is backed. -/
def errNoneBacked : GoError := .new "Could not remove any segments as none are backed"

/-- The error says nothing about the quota. -/
def GoError.Foreign (e : GoError) : Prop :=
  e.is errCapacityClaim = false ∧ e.is errNoneBacked = false

instance (e : GoError) : Decidable e.Foreign := inferInstanceAs (Decidable (_ ∧ _))

lemma GoError.foreign_wrap {t : String} {e : GoError} : (GoError.wrap t e).Foreign ↔ e.Foreign := by
  simp [Foreign, GoError.is, errCapacityClaim, errNoneBacked]

lemma foreign_errInputOutput : errInputOutput.Foreign := by decide

/-- The errors a result can have are foreign. -/
def ForeignResult {α : Type} (r : Except GoError α) : Prop := ∀ e, r = .error e → e.Foreign

/-- The error that comes with a result, if there is one, is foreign. -/
def ForeignError (err : Option GoError) : Prop := ∀ e, err = some e → e.Foreign

@[simp] lemma foreignResult_ok {α : Type} (a : α) : ForeignResult (.ok a : Except GoError α) := by
  simp [ForeignResult]

@[simp] lemma foreignResult_error {α : Type} {e : GoError} :
    ForeignResult (.error e : Except GoError α) ↔ e.Foreign := by
  simp [ForeignResult]

@[simp] lemma foreignError_none : ForeignError none := by simp [ForeignError]

@[simp] lemma foreignError_some {e : GoError} : ForeignError (some e) ↔ e.Foreign := by
  simp [ForeignError]

lemma foreignError_map_wrap {t : String} {err : Option GoError} :
    ForeignError (err.map (.wrap t)) ↔ ForeignError err := by
  cases err <;> simp [GoError.foreign_wrap]

/-- A handle on an object of the given size. -/
structure Item.Regular (full : σ → Prop) (n : ℕ) (item : Item σ) : Prop where
  size_eq : ∀ {st m}, full st → item.size st = .ok m → m = n
  size_err : ∀ {st e}, full st → item.size st = .error e → e.Foreign
  open_err : ∀ {st e}, full st → item.openItem st = .error e → e.Foreign
  read_err : ∀ {st rdr e}, full st → item.openItem st = .ok rdr → rdr.err = some e → e.Foreign
  etag_err : ∀ {st e}, full st → item.etag st = .error e → e.Foreign

/-- A container all of whose items have the given size, if that is the size of what it is given. -/
structure Container.Regular (full : σ → Prop) (n : ℕ) (c : Container σ) : Prop where
  put_full : ∀ {name rdr st}, full st → full (c.put name rdr n .nil st).2
  put_item : ∀ {name rdr st it st'}, full st → c.put name rdr n .nil st = (.ok it, st') →
    it.Regular full n
  put_err : ∀ {name rdr st e st'}, full st → ForeignError rdr.err →
    c.put name rdr n .nil st = (.error e, st') → e.Foreign
  listed : ∀ {st pre cursor limit items next}, full st →
    c.items st pre cursor limit = .ok (items, next) → ∀ it ∈ items, it.Regular full n

lemma Item.Regular.neverEmpty {n : ℕ} {item : Item σ} (h : item.Regular full n) (hn : n ≠ 0) :
    item.NeverEmpty full := by
  intro st hst hsize
  have := h.size_eq hst hsize
  omega

/-! ## System calls -/

section SystemCalls

variable (env : Env) (name : GoString) (file : File)

lemma foreign_osCreate : Yields (osCreate env name) w fun r _ => ForeignResult r := by
  simp only [osCreate, yields_bind]
  rintro fault w₁ -
  split_ifs
  · simp only [yields_bind, yields_pure]
    rintro _ w₂ - _ w₃ -
    exact foreignResult_ok _
  · simpa using foreign_errInputOutput

lemma foreign_osOpenFile : Yields (osOpenFile env name) w fun r _ => ForeignResult r := by
  simp only [osOpenFile, yields_bind, yields_get]
  rintro fault w₁ -
  split_ifs
  · cases w₁.files name with
    | none => simpa using (by decide : osErrNotExist.Foreign)
    | some data =>
      simp only [yields_bind, yields_pure]
      rintro _ w₂ -
      exact foreignResult_ok _
  · simpa using foreign_errInputOutput

lemma foreign_osReadFile : Yields (osReadFile env name) w fun r _ => ForeignResult r := by
  simp only [osReadFile, yields_bind, yields_get]
  rintro fault w₁ -
  split_ifs
  · cases w₁.files name with
    | none => simpa using (by decide : osErrNotExist.Foreign)
    | some data => simp
  · simpa using foreign_errInputOutput

lemma foreign_osWriteFile (data : Bytes) :
    Yields (osWriteFile env name data) w fun r _ => ForeignError r := by
  rw [osWriteFile, yields_bind]
  rintro fault w₁ -
  cases fault with
  | none =>
    simp only [yields_bind, yields_pure]
    rintro _ w₂ -
    exact foreignError_none
  | some n =>
    simp only [yields_bind, yields_pure]
    rintro _ w₂ -
    exact foreignError_some.mpr foreign_errInputOutput

lemma foreign_osRemove : Yields (osRemove env name) w fun r _ => ForeignError r := by
  simp only [osRemove, yields_bind, yields_get]
  rintro fault w₁ -
  split_ifs
  · cases w₁.files name with
    | none => simpa using (by decide : osErrNotExist.Foreign)
    | some data =>
      simp only [yields_bind, yields_pure]
      rintro _ w₂ -
      exact foreignError_none
  · simpa using foreign_errInputOutput

lemma foreign_close : Yields (file.close env) w fun r _ => ForeignError r.2 := by
  unfold File.close
  split_ifs
  · simpa using (by decide : osErrClosed.Foreign)
  · simp only [yields_bind, yields_pure]
    rintro fault w₁ - _ w₂ -
    split_ifs
    · exact foreignError_none
    · exact foreignError_some.mpr foreign_errInputOutput

lemma foreign_sync : Yields (file.sync env) w fun r _ => ForeignError r := by
  unfold File.sync
  split_ifs
  · simpa using (by decide : osErrClosed.Foreign)
  · simp only [yields_bind, yields_pure]
    rintro fault w₁ -
    split_ifs
    · exact foreignError_none
    · exact foreignError_some.mpr foreign_errInputOutput

lemma foreign_closedFileErr (len : ℕ) (pos : ℤ) : ForeignError (closedFileErr len pos) := by
  unfold closedFileErr
  split_ifs
  · exact foreignError_some.mpr (by decide)
  · exact foreignError_none
  · exact foreignError_some.mpr (by decide)

lemma foreign_readAt (len : ℕ) (pos : ℤ) :
    Yields (file.readAt env len pos) w fun r _ => ForeignError r.2 := by
  unfold File.readAt
  split_ifs
  · exact (yields_pure _).mpr (foreign_closedFileErr len pos)
  · simp only [yields_bind, yields_get]
    rintro fault w₁ -
    cases fault with
    | some n => simpa using foreign_errInputOutput
    | none =>
      simp only [yields_pure, fileReadAt]
      split_ifs
      · exact foreignError_some.mpr (by decide)
      · exact foreignError_some.mpr (by decide)
      · exact foreignError_none

lemma foreign_writeAt (buf : Bytes) (pos : ℤ) (call : OsCall) :
    Yields (file.writeAt env buf pos call) w fun r _ => ForeignError r.2 := by
  unfold File.writeAt
  split_ifs
  · exact (yields_pure _).mpr (foreign_closedFileErr buf.length pos)
  · simp only [yields_bind, yields_get, yields_pure]
    rintro fault w₁ - _ w₂ -
    unfold fileWriteAt
    split_ifs
    · exact foreignError_some.mpr (by decide)
    · exact foreignError_some.mpr (by decide)
    · cases fault with
      | none => exact foreignError_none
      | some n => exact foreignError_some.mpr foreign_errInputOutput

end SystemCalls

/-- What a calm program leaves behind. -/
lemma Calm.store {α : Type} {m : Go σ α} (h : Calm full m) (hw : full w.store) {a : α}
    (hm : m w = .ok (a, w')) : full w'.store :=
  ((h.returns w hw).eq hm).2

namespace StoreParams

/-! ## Loads -/

lemma foreign_rmCacheFile (text : String) (name : GoString) :
    Yields (sp.rmCacheFile text name) w fun r _ => ForeignError r := by
  rw [rmCacheFile, yields_bind]
  refine (foreign_osRemove sp.env name).mono fun err w₁ h₁ => ?_
  exact (yields_pure _).mpr (foreignError_map_wrap.mpr h₁)

lemma foreign_rmStray (text : String) (name : GoString) :
    Yields (sp.rmStray text name) w fun r _ => ForeignResult r := by
  rw [rmStray, yields_bind]
  refine (foreign_rmCacheFile text name).mono fun err w₁ h₁ => ?_
  cases err with
  | none => simp
  | some e => simpa using h₁

lemma foreign_cachedFile {item : Item σ} (hitem : item.Regular full sp.segmentBytes)
    (hw : full w.store) (fpath : GoString) (remoteSize : ℕ) :
    Yields (sp.cachedFile item fpath remoteSize) w fun r _ => ForeignResult r := by
  rw [cachedFile, yields_bind]
  intro dataSize w₁ h₁
  rw [yields_bind]
  intro eTagSize w₂ h₂
  have hw₂ := (calm_osStat ..).store ((calm_osStat ..).store hw h₁) h₂
  rcases dataSize with _ | size <;> rcases eTagSize with _ | eTagSize
  · simp
  · exact foreign_rmStray _ _
  · exact foreign_rmStray _ _
  · simp only
    split_ifs
    · rw [yields_bind]
      intro fileETag w₃ h₃
      have hw₃ := (calm_osReadFile ..).store hw₂ h₃
      have hread := foreign_osReadFile sp.env _ _ _ h₃
      cases fileETag with
      | error e => simpa [GoError.foreign_wrap] using hread
      | ok fileETag =>
        simp only [yields_bind, yields_get]
        cases hetag : item.etag w₃.store with
        | error e => simpa [GoError.foreign_wrap] using hitem.etag_err hw₃ hetag
        | ok itemETag =>
          simp only
          split_ifs
          · rw [yields_bind]
            intro r w₄ h₄
            have hopen := foreign_osOpenFile sp.env _ _ _ h₄
            cases r with
            | error e => simpa [GoError.foreign_wrap] using hopen
            | ok file => simp
          · rw [yields_bind]
            refine (foreign_rmCacheFile _ _).mono fun e₁ w₄ h₄ => ?_
            rw [yields_bind]
            refine (foreign_rmCacheFile _ _).mono fun e₂ w₅ h₅ => ?_
            rcases e₁ with _ | e <;> rcases e₂ with _ | e'
            · simp
            · simpa using h₅
            · simpa using h₄
            · simpa using h₄
    · simpa using (by decide)

lemma foreign_copyDownload (file : File) {src : Reader} (hsrc : ForeignError src.err) :
    Yields (sp.copyDownload file src) w fun r _ => ForeignError r.2 := by
  unfold copyDownload
  split_ifs
  · rw [yields_bind]
    refine (foreign_writeAt sp.env file src.data 0 .copy).mono fun r w₁ h₁ => ?_
    obtain ⟨n, err⟩ := r
    cases err with
    | none => simpa using hsrc
    | some e => simpa using h₁
  · rw [yields_bind]
    rintro fault w₁ -
    cases fault with
    | none =>
      simp only [yields_bind, yields_pure]
      rintro _ w₂ -
      unfold sparseCopy
      cases herr : src.err with
      | none => simp
      | some e => simpa [herr] using hsrc
    | some n =>
      simp only [yields_bind, yields_pure]
      rintro _ w₂ -
      exact foreignError_some.mpr foreign_errInputOutput

lemma foreign_limit {rdr : Reader} (h : ForeignError rdr.err) (n : ℕ) :
    ForeignError (rdr.limit n).err := by
  unfold Reader.limit
  split_ifs
  · exact foreignError_none
  · exact h

lemma foreign_download {item : Item σ} (hitem : item.Regular full sp.segmentBytes)
    (hw : full w.store) : Yields (sp.download item) w fun r _ => ForeignResult r := by
  simp only [download, yields_bind, yields_get]
  cases hsize : item.size w.store with
  | error e => simpa [GoError.foreign_wrap] using hitem.size_err hw hsize
  | ok remoteSize =>
    simp only
    split_ifs
    · simp
    · simpa using (by decide)
    rw [yields_bind]
    intro r w₁ h₁
    have hw₁ := (sp.calm_cachedFile ..).store hw h₁
    have hcached := foreign_cachedFile hitem hw _ _ _ _ h₁
    rcases r with e | (_ | file)
    · simpa [GoError.foreign_wrap] using hcached
    · rw [yields_bind]
      intro r w₂ h₂
      have hw₂ := (calm_osCreate ..).store hw₁ h₂
      have hcreate := foreign_osCreate sp.env _ _ _ h₂
      cases r with
      | error e => simpa [GoError.foreign_wrap] using hcreate
      | ok file =>
        simp only [fetch, yields_bind, yields_get]
        cases hopen : item.openItem w₂.store with
        | error e => simpa [GoError.foreign_wrap] using hitem.open_err hw₂ hopen
        | ok data =>
          have hread : ForeignError data.err := fun e he => hitem.read_err hw₂ hopen he
          rw [yields_bind]
          refine (foreign_copyDownload file (foreign_limit hread _)).mono fun r w₃ h₃ => ?_
          obtain ⟨n, err⟩ := r
          cases err with
          | some e => simpa [GoError.foreign_wrap] using h₃
          | none =>
            simp only
            split_ifs
            · simpa using (by decide)
            · simpa using (by decide)
            · simp
    · simp

lemma foreign_downloadFile {item : Item σ} (hitem : item.Regular full sp.segmentBytes)
    (hw : full w.store) (hroom : sp.Room w) :
    Yields (sp.downloadFile item) w fun r _ => ForeignResult r := by
  rw [downloadFile, yields_bind]
  refine (claimCapacity_room hroom).yields.mono fun r w₁ h₁ => ?_
  obtain ⟨rfl, rfl⟩ := h₁
  rw [yields_bind]
  have hw₁ : full ({ w with held := w.held + sp.permit } : World σ).store := hw
  refine (foreign_download hitem hw₁).mono fun r w₂ h₂ => ?_
  cases r with
  | error e =>
    rw [yields_bind]
    rintro _ w₃ -
    exact (yields_pure _).mpr h₂
  | ok file => simp

lemma foreign_fillNew (file : File) (buf : Bytes) (pos : ℤ) (text : String) (name : GoString) :
    Yields (sp.fillNew file buf pos text name) w fun r _ => ForeignResult r := by
  rw [fillNew, yields_bind]
  refine (foreign_writeAt sp.env file buf pos .fill).mono fun r w₁ h₁ => ?_
  obtain ⟨n, err⟩ := r
  cases err with
  | none => simp
  | some e =>
    simp only [yields_bind, yields_pure]
    rintro _ w₂ -
    simpa [GoError.foreign_wrap] using h₁

lemma foreign_createFile (hroom : sp.Room w) (segID : GoString) :
    Yields (sp.createFile segID) w fun r _ => ForeignResult r := by
  rw [createFile, yields_bind]
  refine (claimCapacity_room hroom).yields.mono fun r w₁ h₁ => ?_
  obtain ⟨rfl, rfl⟩ := h₁
  rw [yields_bind]
  refine (foreign_osCreate sp.env _).mono fun r w₂ h₂ => ?_
  cases r with
  | error e => simpa [GoError.foreign_wrap] using h₂
  | ok file =>
    simp only
    split_ifs
    · exact foreign_fillNew file _ _ _ _
    · exact foreign_fillNew file _ _ _ _

/-! ## Uploads and removals -/

lemma foreign_removeFile (file : File) :
    Yields (sp.removeFile file) w fun r _ => ForeignError r.2 := by
  rw [removeFile, yields_bind]
  refine (foreign_close sp.env file).mono fun r w₁ h₁ => ?_
  obtain ⟨file₁, err⟩ := r
  cases err with
  | some e => simpa [GoError.foreign_wrap] using h₁
  | none =>
    simp only [yields_bind]
    refine (foreign_osRemove sp.env _).mono fun err w₂ h₂ => ?_
    cases err with
    | some e => simpa [GoError.foreign_wrap] using h₂
    | none =>
      simp only
      split_ifs
      · rw [yields_bind]
        refine (foreign_osRemove sp.env _).mono fun err w₃ h₃ => ?_
        cases err with
        | some e =>
          simp only
          split_ifs
          · simp
          · simpa [GoError.foreign_wrap] using h₃
        | none => simp
      · simp

lemma foreign_prepare (file : File) (buffered : Bool) :
    Yields (sp.prepare file buffered) w fun r _ =>
      ForeignResult r ∧ ∀ src, r = .ok src → ForeignError src.err := by
  rw [prepare, yields_bind]
  refine (foreign_sync sp.env file).mono fun err w₁ h₁ => ?_
  cases err with
  | some e => simpa [GoError.foreign_wrap] using h₁
  | none =>
    rw [yields_bind]
    rintro fault w₂ -
    simp only [yields_bind, yields_get]
    rcases buffered with _ | _ <;> rcases fault with _ | n
    · simp
    · simpa using foreign_errInputOutput
    · simp only
      split_ifs
      · simpa using (by decide)
      · simp
    · simpa [GoError.foreign_wrap] using foreign_errInputOutput

lemma foreign_upload (hc : sp.container.Regular full sp.segmentBytes) (hw : full w.store)
    (segID : GoString) {src : Reader} (hsrc : ForeignError src.err) :
    Returns (sp.upload segID src) w fun r w' =>
      ForeignResult r ∧ full w'.store ∧ ∀ it, r = .ok it → it.Regular full sp.segmentBytes := by
  have hkeeps : sp.UploadsKeep full (Item.Regular full sp.segmentBytes) :=
    ⟨hc.put_full, hc.put_item⟩
  suffices hforeign : Returns (sp.upload segID src) w fun r _ => ForeignResult r from
    ((upload_full hkeeps hw segID src).and_yields hforeign.yields).mono fun _ _ h =>
      ⟨h.2, h.1.1.2, h.1.2⟩
  unfold upload
  cases hput : sp.container.put (sp.itemName segID) src sp.segmentBytes .nil w.store with
  | mk item store =>
    simp only [returns_bind, returns_syscall, returns_get, hput]
    cases sp.env.fault .put w.tick with
    | none =>
      cases item with
      | error e => simpa [GoError.foreign_wrap] using hc.put_err hw hsrc hput
      | ok item => simp
    | some stored => simpa [GoError.foreign_wrap] using foreign_errInputOutput

lemma foreign_finishSync (file : File) {item : Item σ} (hitem : item.Regular full sp.segmentBytes)
    (hw : full w.store) : Yields (sp.finishSync file item) w fun r _ => ForeignError r := by
  unfold finishSync
  split_ifs
  · simp only [persistEtag, yields_bind, yields_get]
    cases hetag : item.etag w.store with
    | error e => simpa [GoError.foreign_wrap] using hitem.etag_err hw hetag
    | ok eTag =>
      simp only
      split_ifs
      · simp
      · rw [yields_bind]
        refine (foreign_osWriteFile sp.env _ eTag).mono fun err w₁ h₁ => ?_
        exact (yields_pure _).mpr (foreignError_map_wrap.mpr h₁)
  · simp

/-- An upload: what it returns is an item of the size of a segment, and no word of the quota. -/
lemma foreign_syncFile (hc : sp.container.Regular full sp.segmentBytes) (hw : full w.store)
    (file : File) (segID : GoString) (buffered : Bool) :
    Yields (sp.syncFile file segID buffered) w fun r w' => ForeignError r.2 ∧ full w'.store ∧
      ∀ it, r.1 = some it → it.Regular full sp.segmentBytes := by
  rw [syncFile, yields_bind]
  intro src w₁ h₁
  have hw₁ := (sp.calm_prepare file buffered).store hw h₁
  obtain ⟨hprepare, hsrc⟩ := foreign_prepare file buffered _ _ h₁
  cases src with
  | error e => simpa [hw₁] using hprepare
  | ok src =>
    rw [yields_bind]
    refine (foreign_upload hc hw₁ segID (hsrc src rfl)).yields.mono fun r w₂ h₂ => ?_
    obtain ⟨hforeign, hw₂, hitem⟩ := h₂
    cases r with
    | error e => simpa [hw₂] using hforeign
    | ok item =>
      rw [yields_bind]
      intro err w₃ h₃
      have hw₃ := (sp.calm_finishSync file item).store hw₂ h₃
      have hfinish := foreign_finishSync file (hitem item rfl) hw₂ _ _ h₃
      simpa [hw₃, hfinish] using hitem

end StoreParams
end Usbd
