import Usbd.Objstore.Splitting

/-!
# Calls that return

In any environment, whatever fails, the calls of the device come to an end.  What could stop them is
a nil local file where one is expected, and a permit given back that was never taken.  `Intact` is
the invariant that excludes both: a segment that counts as backed has a local file, and there are as
many permits held as there are local files.

Most of the calls below a segment take and give back no permit.  `Calm` says so, and goes through
every way of putting programs together, so that the proofs follow the text of the programs.

One outcome of a download has to be excluded: an object of no bytes leaves a segment that counts as
backed without a local file, and panics when it is evicted.  There has to be an invariant of the
store, `full`, that uploads keep and under which no item reports an object of no bytes (`Fills`).
If there is none the device is `Hollow`.
-/

namespace Usbd

open ListMemory Prog

variable {σ α β : Type} {sp : StoreParams σ} {w w' : World σ} {full : σ → Prop}

/-! ## Calm programs -/

/-- The program returns from every state with a full store, leaves it full, and neither takes nor
gives back a permit. -/
structure Calm (full : σ → Prop) (m : Go σ α) : Prop where
  returns : ∀ w, full w.store → Returns m w fun _ w' => w'.held = w.held ∧ full w'.store

/-- From a state with a full store to another one, with the same permits held. -/
def SameHeld (full : σ → Prop) (w w' : World σ) : Prop :=
  full w.store → w'.held = w.held ∧ full w'.store

instance : FreeOfFiles (SameHeld full) where
  refl _ h := ⟨rfl, h⟩
  trans _ _ _ h h' hw := ⟨(h' (h hw).2).1.trans (h hw).1, (h' (h hw).2).2⟩
  files _ _ _ h := ⟨rfl, h⟩

/-- A program that follows that relation is calm. -/
lemma Calm.of_follows {m : Go σ α} (h : Follows (SameHeld full) m) : Calm full m := by
  refine ⟨fun w hw => ?_⟩
  exact (h.returns w).mono fun _ _ hheld => hheld hw

lemma calm_pure (a : α) : Calm full (pure a : Go σ α) := .of_follows (follows_pure a)

lemma calm_get : Calm full (Prog.get : Go σ (World σ)) := .of_follows follows_get

lemma calm_modify {f : World σ → World σ}
    (h : ∀ w, (f w).held = w.held ∧ (full w.store → full (f w).store)) :
    Calm full (Prog.modify f : Go σ Unit) :=
  ⟨fun w hw => (returns_modify _).mpr ⟨(h w).1, (h w).2 hw⟩⟩

lemma calm_syscall (env : Env) (call : OsCall) : Calm full (syscall env call : Go σ (Option ℕ)) :=
  .of_follows (follows_syscall env call)

lemma calm_setFile (name : GoString) (data : Option Bytes) :
    Calm full (setFile name data : Go σ Unit) :=
  .of_follows (follows_setFile name data)

lemma Calm.bind {m : Go σ α} {f : α → Go σ β} (hm : Calm full m) (hf : ∀ a, Calm full (f a)) :
    Calm full (m >>= f) := by
  refine ⟨fun w hw => (returns_bind _ _).mpr ?_⟩
  refine (hm.returns w hw).mono fun a w₁ h₁ => ?_
  exact ((hf a).returns w₁ h₁.2).mono fun _ w₂ h₂ => ⟨h₂.1.trans h₁.1, h₂.2⟩

lemma Calm.ite {c : Prop} [Decidable c] {m n : Go σ α} (hm : Calm full m) (hn : Calm full n) :
    Calm full (if c then m else n) := by
  split_ifs
  · exact hm
  · exact hn

section SystemCalls

variable (env : Env) (name : GoString) (file : File)

lemma calm_osStat : Calm full (osStat env name : Go σ (Option ℕ)) :=
  .of_follows (follows_osStat env name)

lemma calm_osCreate : Calm full (osCreate env name : Go σ (Except GoError File)) := by
  refine (calm_syscall ..).bind fun _ => .ite ?_ (calm_pure _)
  exact (calm_setFile ..).bind fun _ => .bind (calm_modify fun _ => ⟨rfl, id⟩) fun _ => calm_pure _

lemma calm_osReadFile : Calm full (osReadFile env name : Go σ (Except GoError Bytes)) :=
  .of_follows (follows_osReadFile env name)

lemma calm_osWriteFile (data : Bytes) :
    Calm full (osWriteFile env name data : Go σ (Option GoError)) :=
  .of_follows (follows_osWriteFile env name data)

lemma calm_osRemove : Calm full (osRemove env name : Go σ (Option GoError)) :=
  .of_follows (follows_osRemove env name)

lemma calm_close : Calm full (file.close env : Go σ (File × Option GoError)) := by
  refine .ite (calm_pure _) ((calm_syscall ..).bind fun _ => ?_)
  exact .bind (calm_modify fun _ => ⟨rfl, id⟩) fun _ => calm_pure _

lemma calm_sync : Calm full (file.sync env : Go σ (Option GoError)) :=
  .of_follows (follows_sync env file)

lemma calm_readAt (len : ℕ) (pos : ℤ) :
    Calm full (file.readAt env len pos : Go σ (Bytes × Option GoError)) :=
  .of_follows (follows_readAt env file len pos)

lemma calm_writeAt (buf : Bytes) (pos : ℤ) (call : OsCall) :
    Calm full (file.writeAt env buf pos call : Go σ (ℕ × Option GoError)) :=
  .of_follows (follows_writeAt env file buf pos call)

end SystemCalls

namespace StoreParams

variable (sp : StoreParams σ) (file : File) (item : Item σ)

lemma follows_rmCacheFile {R : World σ → World σ → Prop} [FreeOfFiles R] (text : String)
    (name : GoString) : Follows R (sp.rmCacheFile text name) :=
  (follows_osRemove ..).bind fun _ => follows_pure _

lemma rmStray_follows {R : World σ → World σ → Prop} [FreeOfFiles R] (text : String)
    (name : GoString) {w w₁ : World σ} (h₁ : R w w₁) :
    Returns (sp.rmStray text name) w₁ fun r w' => R w w' ∧ ∀ file, r ≠ .ok (some file) := by
  rw [rmStray, returns_bind]
  refine ((sp.follows_rmCacheFile (R := R) text name).returns w₁).mono fun err w₂ h₂ => ?_
  have h₂ : R w w₂ := IsTrans.trans _ _ _ h₁ h₂
  cases err <;> exact (returns_pure _).mpr ⟨h₂, by simp⟩

/-- `cachedFile` has opened a handle if it hands back a file; beside that it changes files only. -/
lemma cachedFile_follows {R : World σ → World σ → Prop} [FreeOfFiles R] (fpath : GoString)
    (remoteSize : ℕ) (w : World σ) : Returns (sp.cachedFile item fpath remoteSize) w fun r w' =>
      ∃ w₁, R w w₁ ∧ ((∀ file, r ≠ .ok (some file)) ∧ w' = w₁ ∨
        r = .ok (some ⟨fpath, false⟩) ∧ w' = { w₁ with openFiles := fpath :: w₁.openFiles }) := by
  have htrans : ∀ {w₁ w₂ w₃ : World σ}, R w₁ w₂ → R w₂ w₃ → R w₁ w₃ := IsTrans.trans _ _ _
  simp only [cachedFile, returns_bind]
  refine ((follows_osStat (R := R) ..).returns w).mono fun dataSize w₁ h₁ => ?_
  refine ((follows_osStat (R := R) ..).returns w₁).mono fun eTagSize w₂ h₂ => ?_
  have h₂ := htrans h₁ h₂
  rcases dataSize with _ | size <;> rcases eTagSize with _ | eTagSize
  · exact (returns_pure _).mpr ⟨w₂, h₂, .inl ⟨by simp, rfl⟩⟩
  · exact (sp.rmStray_follows _ _ h₂).mono fun _ w₃ h₃ => ⟨w₃, h₃.1, .inl ⟨h₃.2, rfl⟩⟩
  · exact (sp.rmStray_follows _ _ h₂).mono fun _ w₃ h₃ => ⟨w₃, h₃.1, .inl ⟨h₃.2, rfl⟩⟩
  · simp only
    split_ifs
    · rw [returns_bind]
      refine ((follows_osReadFile (R := R) ..).returns w₂).mono fun fileETag w₃ h₃ => ?_
      have h₃ := htrans h₂ h₃
      cases fileETag with
      | error e => exact (returns_pure _).mpr ⟨w₃, h₃, .inl ⟨by simp, rfl⟩⟩
      | ok fileETag =>
        simp only [returns_bind, returns_get]
        cases item.etag w₃.store with
        | error e => exact (returns_pure _).mpr ⟨w₃, h₃, .inl ⟨by simp, rfl⟩⟩
        | ok itemETag =>
          simp only
          split_ifs
          · rw [returns_bind]
            refine (osOpenFile_follows (R := R) _ _ w₃).mono fun r w₄ h₄ => ?_
            obtain ⟨w₅, h₅, ⟨⟨e, rfl⟩, rfl⟩ | ⟨rfl, rfl⟩⟩ := h₄
            · exact (returns_pure _).mpr ⟨_, htrans h₃ h₅, .inl ⟨by simp, rfl⟩⟩
            · exact (returns_pure _).mpr ⟨_, htrans h₃ h₅, .inr ⟨rfl, rfl⟩⟩
          · rw [returns_bind]
            refine ((sp.follows_rmCacheFile (R := R) ..).returns w₃).mono fun e₁ w₄ h₄ => ?_
            rw [returns_bind]
            refine ((sp.follows_rmCacheFile (R := R) ..).returns w₄).mono fun e₂ w₅ h₅ => ?_
            have h₅ := htrans h₃ (htrans h₄ h₅)
            cases e₁ <;> cases e₂ <;>
              exact (returns_pure _).mpr ⟨w₅, h₅, .inl ⟨by simp, rfl⟩⟩
    · exact (returns_pure _).mpr ⟨w₂, h₂, .inl ⟨by simp, rfl⟩⟩

lemma calm_cachedFile (fpath : GoString) (remoteSize : ℕ) :
    Calm full (sp.cachedFile item fpath remoteSize) := by
  refine ⟨fun w hw => ?_⟩
  refine (sp.cachedFile_follows (R := SameHeld full) item fpath remoteSize w).mono fun r w' h => ?_
  obtain ⟨w₁, h₁, ⟨-, rfl⟩ | ⟨-, rfl⟩⟩ := h
  · exact h₁ hw
  · exact h₁ hw

lemma calm_copyDownload (src : Reader) : Calm full (sp.copyDownload file src) := by
  refine .ite ((calm_writeAt ..).bind fun r => ?_) ((calm_syscall ..).bind fun fault => ?_)
  · obtain ⟨n, err⟩ := r
    cases err <;> exact calm_pure _
  · cases fault <;> exact (calm_setFile ..).bind fun _ => calm_pure _

lemma calm_download : Calm full (sp.download item) := by
  refine calm_get.bind fun w => ?_
  cases item.size w.store with
  | error e => exact calm_pure _
  | ok remoteSize =>
    refine .ite (calm_pure _) (.ite (calm_pure _) ((sp.calm_cachedFile ..).bind fun r => ?_))
    match r with
    | .error e => exact calm_pure _
    | .ok (some file) => exact calm_pure _
    | .ok none =>
      refine (calm_osCreate ..).bind fun r => ?_
      cases r with
      | error e => exact calm_pure _
      | ok file =>
        refine calm_get.bind fun w => ?_
        cases item.openItem w.store with
        | error e => exact calm_pure _
        | ok data =>
          refine (sp.calm_copyDownload ..).bind fun r => ?_
          obtain ⟨n, err⟩ := r
          cases err with
          | some e => exact calm_pure _
          | none => exact .ite (calm_pure _) (.ite (calm_pure _) (calm_pure _))

lemma calm_removeFile : Calm full (sp.removeFile file) := by
  refine (calm_close ..).bind fun r => ?_
  obtain ⟨file, err⟩ := r
  cases err with
  | some e => exact calm_pure _
  | none =>
    refine (calm_osRemove ..).bind fun err => ?_
    cases err with
    | some e => exact calm_pure _
    | none =>
      refine .ite ((calm_osRemove ..).bind fun err => ?_) (calm_pure _)
      cases err with
      | some e => exact .ite (calm_pure _) (calm_pure _)
      | none => exact calm_pure _

lemma calm_prepare (buffered : Bool) : Calm full (sp.prepare file buffered) := by
  refine (calm_sync ..).bind fun err => ?_
  cases err with
  | some e => exact calm_pure _
  | none =>
    refine (calm_syscall ..).bind fun fault => calm_get.bind fun w => ?_
    match buffered, fault with
    | true, some _ => exact calm_pure _
    | true, none => exact .ite (calm_pure _) (calm_pure _)
    | false, some _ => exact calm_pure _
    | false, none => exact calm_pure _

lemma calm_finishSync : Calm full (sp.finishSync file item) := by
  refine .ite (calm_get.bind fun w => ?_) (calm_pure _)
  cases item.etag w.store with
  | error e => exact calm_pure _
  | ok eTag =>
    exact .ite (calm_pure _) ((calm_osWriteFile ..).bind fun _ => calm_pure _)

end StoreParams

/-! ## Uploads -/

/-- With a full store, the item does not report an object of no bytes. -/
def Item.NeverEmpty (full : σ → Prop) (item : Item σ) : Prop :=
  ∀ st, full st → item.size st ≠ .ok 0

/-- The uploads of a device keep the store full, and what they return is as it should be. -/
structure StoreParams.UploadsKeep (sp : StoreParams σ) (full : σ → Prop) (P : Item σ → Prop) :
    Prop where
  put_full : ∀ {segID src st}, full st →
    full (sp.container.put (sp.itemName segID) src sp.segmentBytes .nil st).2
  put_item : ∀ {segID src st it st'}, full st →
    sp.container.put (sp.itemName segID) src sp.segmentBytes .nil st = (.ok it, st') → P it

/-- Uploads keep the store full, and what they return does not report an object of no bytes. -/
abbrev StoreParams.Fills (sp : StoreParams σ) (full : σ → Prop) : Prop :=
  sp.UploadsKeep full (Item.NeverEmpty full)

namespace StoreParams

variable {P : Item σ → Prop}

lemma upload_full (hc : sp.UploadsKeep full P) (hw : full w.store) (segID : GoString)
    (src : Reader) : Returns (sp.upload segID src) w fun r w' =>
      (w'.held = w.held ∧ full w'.store) ∧ ∀ it, r = .ok it → P it := by
  have hstore : full (sp.container.put (sp.itemName segID) src sp.segmentBytes .nil w.store).2 :=
    hc.put_full hw
  unfold upload
  cases hput : sp.container.put (sp.itemName segID) src sp.segmentBytes .nil w.store with
  | mk item store =>
    rw [hput] at hstore
    simp only [returns_bind, returns_syscall, returns_get, hput]
    cases sp.env.fault .put w.tick with
    | none =>
      cases item with
      | error e => simp [hstore]
      | ok item => simpa [hstore] using hc.put_item hw hput
    | some stored =>
      simp only [returns_bind, returns_modify, returns_pure]
      refine ⟨⟨trivial, ?_⟩, by simp⟩
      split_ifs
      · exact hw
      · exact hstore

lemma syncFile_full (hc : sp.UploadsKeep full P) (hw : full w.store) (file : File)
    (segID : GoString) (buffered : Bool) : Returns (sp.syncFile file segID buffered) w fun r w' =>
      (w'.held = w.held ∧ full w'.store) ∧ ∀ it, r.1 = some it → P it := by
  rw [syncFile, returns_bind]
  refine ((sp.calm_prepare file buffered).returns w hw).mono fun src w₁ h₁ => ?_
  cases src with
  | error e => exact (returns_pure _).mpr ⟨h₁, by simp⟩
  | ok src =>
    rw [returns_bind]
    refine (upload_full hc h₁.2 segID src).mono fun r w₂ h₂ => ?_
    obtain ⟨⟨hheld₂, hfull₂⟩, hitem⟩ := h₂
    cases r with
    | error e => exact (returns_pure _).mpr ⟨⟨hheld₂.trans h₁.1, hfull₂⟩, by simp⟩
    | ok item =>
      rw [returns_bind]
      refine ((sp.calm_finishSync file item).returns w₂ hfull₂).mono fun err w₃ h₃ => ?_
      refine (returns_pure _).mpr ⟨⟨h₃.1.trans (hheld₂.trans h₁.1), h₃.2⟩, fun it hit => ?_⟩
      exact Option.some.inj hit ▸ hitem item rfl

end StoreParams

/-! ## Permits -/

/-- How a local file is come by: with a permit, or there is an error and no permit lost. -/
def Granted (sp : StoreParams σ) (w : World σ) (r : Except GoError (Option File)) (w' : World σ) :
    Prop :=
  (∃ e, r = .error e) ∧ w.held ≤ w'.held ∨
    (∃ file, r = .ok (some file)) ∧ w.held + sp.permit ≤ w'.held

namespace StoreParams

lemma claimCapacity_returns : Returns sp.claimCapacity w fun r w' => w'.store = w.store ∧
    (r = none ∧ w'.held = w.held + sp.permit ∨ (∃ e, r = some e) ∧ w'.held = w.held) := by
  by_cases hroom : sp.Room w
  · exact (claimCapacity_of_room hroom).mono fun r w' h => ⟨h.2.2.1, .inl ⟨h.1, h.2.2.2⟩⟩
  · obtain ⟨permits, hq, hle⟩ := not_room_iff.mp hroom
    refine (claimCapacity_of_full hq hle).mono fun r w' h => ?_
    rw [h.2]
    exact ⟨rfl, .inr ⟨⟨_, h.1⟩, rfl⟩⟩

lemma fill_returns {w₂ : World σ} (hw₂ : full w₂.store) (hheld : w.held + sp.permit ≤ w₂.held)
    (file : File) (buf : Bytes) (pos : ℤ) (text : String) (name : GoString) :
    Returns (sp.fillNew file buf pos text name) w₂ fun r w' =>
      Granted sp w r w' ∧ full w'.store := by
  rw [fillNew, returns_bind]
  refine ((calm_writeAt ..).returns w₂ hw₂).mono fun r w₃ h₃ => ?_
  obtain ⟨n, err⟩ := r
  obtain ⟨h₃, hw₃⟩ := h₃
  cases err with
  | none => exact (returns_pure _).mpr ⟨.inr ⟨⟨_, rfl⟩, by omega⟩, hw₃⟩
  | some e =>
    simp only [returns_bind, returns_pure]
    exact ((calm_osRemove ..).returns w₃ hw₃).mono fun _ w₄ h₄ =>
      ⟨.inl ⟨⟨_, rfl⟩, by omega⟩, h₄.2⟩

lemma createFile_returns (hw : full w.store) (segID : GoString) :
    Returns (sp.createFile segID) w fun r w' => Granted sp w r w' ∧ full w'.store := by
  rw [createFile, returns_bind]
  refine claimCapacity_returns.mono fun r w₁ h₁ => ?_
  obtain ⟨hstore, h₁⟩ := h₁
  rw [← hstore] at hw
  rcases h₁ with ⟨rfl, h₁⟩ | ⟨⟨e, rfl⟩, h₁⟩
  · rw [returns_bind]
    refine ((calm_osCreate ..).returns w₁ hw).mono fun r w₂ h₂ => ?_
    obtain ⟨h₂, hw₂⟩ := h₂
    cases r with
    | error e => exact (returns_pure _).mpr ⟨.inl ⟨⟨_, rfl⟩, by omega⟩, hw₂⟩
    | ok file =>
      have hheld : w.held + sp.permit ≤ w₂.held := by omega
      simp only
      split_ifs
      · exact fill_returns hw₂ hheld file _ _ _ _
      · exact fill_returns hw₂ hheld file _ _ _ _
  · exact (returns_pure _).mpr ⟨.inl ⟨⟨_, rfl⟩, h₁.ge⟩, hw⟩

lemma cachedFile_open (item : Item σ) (fpath : GoString) (remoteSize : ℕ) :
    Yields (sp.cachedFile item fpath remoteSize) w fun r _ =>
      ∀ file, r = .ok (some file) → file.closed = false := by
  have hfollows := sp.cachedFile_follows (R := SameHeld fun _ => True) item fpath remoteSize w
  refine hfollows.yields.mono fun r w' h file hr => ?_
  obtain ⟨w₁, -, ⟨hnone, -⟩ | ⟨hfile, -⟩⟩ := h
  · exact absurd hr (hnone file)
  · cases hfile.symm.trans hr
    rfl

/-- A download ends in an error, in an open file, or without a file for an object of no bytes. -/
lemma download_result (item : Item σ) : Yields (sp.download item) w fun r _ =>
    (∀ file, r = .ok (some file) → file.closed = false) ∧
      (r = .ok none → item.size w.store = .ok 0) := by
  simp only [download, yields_bind, yields_get]
  cases item.size w.store with
  | error e => simp
  | ok remoteSize =>
    simp only
    split_ifs with hzero
    · simpa using hzero
    · simp
    rw [yields_bind]
    intro r w₁ hr
    have hcached := cachedFile_open item _ _ r w₁ hr
    rcases r with e | (_ | file)
    · simp
    · rw [yields_bind]
      refine osCreate_faulty.yields.mono fun r w₂ h₂ => ?_
      rcases h₂ with ⟨-, rfl, -⟩ | ⟨rfl, -⟩
      · simp
      · simp only [fetch, yields_bind, yields_get]
        cases item.openItem w₂.store with
        | error e => simp
        | ok data =>
          rw [yields_bind]
          rintro ⟨n, err⟩ w₃ -
          cases err with
          | some e => simp
          | none =>
            simp only
            split_ifs <;> simp
    · simpa using hcached

lemma downloadFile_returns {item : Item σ} (h : item.NeverEmpty full) (hw : full w.store) :
    Returns (sp.downloadFile item) w fun r w' => Granted sp w r w' ∧ full w'.store := by
  rw [downloadFile, returns_bind]
  refine claimCapacity_returns.mono fun r w₁ h₁ => ?_
  obtain ⟨hstore, h₁⟩ := h₁
  rw [← hstore] at hw
  rcases h₁ with ⟨rfl, h₁⟩ | ⟨⟨e, rfl⟩, h₁⟩
  · rw [returns_bind]
    refine (((sp.calm_download item).returns w₁ hw).and_yields (download_result item)).mono
      fun r w₂ h₂ => ?_
    obtain ⟨⟨hheld, hw₂⟩, -, hnone⟩ := h₂
    rcases r with e | (_ | file)
    · simp only [returns_bind, returns_pure]
      refine (releaseCapacity_spec (by omega)).mono fun _ w₃ h₃ => ?_
      obtain ⟨-, hstore₃, hheld₃⟩ := h₃
      exact ⟨.inl ⟨⟨_, rfl⟩, by omega⟩, hstore₃ ▸ hw₂⟩
    · exact absurd (hnone rfl) (h w₁.store hw)
    · exact (returns_pure _).mpr ⟨.inr ⟨⟨_, rfl⟩, by omega⟩, hw₂⟩
  · exact (returns_pure _).mpr ⟨.inl ⟨⟨_, rfl⟩, h₁.ge⟩, hw⟩

end StoreParams

/-! ## Segments -/

namespace Segment

/-- The permits of a segment's local file. -/
def load (sp : StoreParams σ) (seg : Segment σ) : ℕ :=
  if seg.localFile.isSome then sp.permit else 0

/-- A segment that counts as backed has a local file, and its item never reports no bytes. -/
structure Intact (full : σ → Prop) (seg : Segment σ) : Prop where
  file : seg.backed = true → seg.localFile ≠ none
  item : ∀ it, seg.remoteItem = some it → it.NeverEmpty full

variable {seg : Segment σ}

/-- What a call leaves: an intact segment, a full store, and the permits of the other segments. -/
structure Keeps (full : σ → Prop) (sp : StoreParams σ) (w : World σ) (seg seg' : Segment σ)
    (w' : World σ) : Prop where
  intact : seg'.Intact full
  store : full w'.store
  held : w.held + seg'.load sp ≤ w'.held + seg.load sp

lemma Keeps.of_eq {seg' : Segment σ} (h : seg.Intact full) (hfile : seg'.localFile = seg.localFile)
    (hback : seg'.backed = seg.backed) (hitem : seg'.remoteItem = seg.remoteItem)
    (h' : w'.held = w.held ∧ full w'.store) : Keeps full sp w seg seg' w' := by
  refine ⟨⟨?_, ?_⟩, h'.2, ?_⟩
  · rw [hback, hfile]
    exact h.file
  · rw [hitem]
    exact h.item
  · rw [load, load, hfile, h'.1]

lemma Keeps.of_granted (h : seg.Intact full) (hfile : seg.localFile = none) {file : File}
    (hheld : w.held + sp.permit ≤ w'.held) (hw' : full w'.store) :
    Keeps full sp w seg { seg with localFile := some file, backed := true } w' := by
  refine ⟨⟨fun _ => by simp, h.item⟩, hw', ?_⟩
  simpa [load, hfile] using hheld

lemma loadFile_keeps (h : seg.Intact full) (hw : full w.store) (createWrite : Bool) :
    Returns (seg.loadFile sp createWrite) w fun r w' =>
      Keeps full sp w seg r.1 w' ∧ r.1.remoteItem = seg.remoteItem := by
  obtain ⟨ID, localFile, remoteItem, dirty, backed, lastRead, lastWrite⟩ := seg
  unfold loadFile
  cases localFile with
  | some file => exact (returns_pure _).mpr ⟨.of_eq h rfl rfl rfl ⟨rfl, hw⟩, rfl⟩
  | none =>
    cases remoteItem with
    | some item =>
      simp only [returns_bind, returns_pure]
      refine (StoreParams.downloadFile_returns (h.item item rfl) hw).mono fun r w₁ h₁ => ?_
      obtain ⟨⟨⟨e, rfl⟩, hheld⟩ | ⟨⟨file, rfl⟩, hheld⟩, hw₁⟩ := h₁
      · exact ⟨⟨h, hw₁, Nat.add_le_add_right hheld _⟩, rfl⟩
      · exact ⟨.of_granted h rfl hheld hw₁, rfl⟩
    | none =>
      simp only
      split_ifs
      · simp only [returns_bind, returns_pure]
        refine (StoreParams.createFile_returns hw _).mono fun r w₁ h₁ => ?_
        obtain ⟨⟨⟨e, rfl⟩, hheld⟩ | ⟨⟨file, rfl⟩, hheld⟩, hw₁⟩ := h₁
        · exact ⟨⟨h, hw₁, Nat.add_le_add_right hheld _⟩, rfl⟩
        · exact ⟨.of_granted h rfl hheld hw₁, rfl⟩
      · exact (returns_pure _).mpr ⟨.of_eq h rfl rfl rfl ⟨rfl, hw⟩, rfl⟩

lemma Keeps.trans {seg₁ seg₂ : Segment σ} {w₁ w₂ : World σ} (h : Keeps full sp w seg seg₁ w₁)
    (h' : Keeps full sp w₁ seg₁ seg₂ w₂) : Keeps full sp w seg seg₂ w₂ :=
  ⟨h'.intact, h'.store, by have := h.held; have := h'.held; omega⟩

lemma readAt_keeps (h : seg.Intact full) (hw : full w.store) (buf : Bytes) {pos : ℤ}
    (hpos : pos ≤ sp.segmentBytes) :
    Returns (seg.readAt sp buf pos) w fun r w' => Keeps full sp w seg r.1 w' := by
  simp only [Segment.readAt, readLoaded, returns_bind, returns_timeNow]
  have htouch : Keeps full sp w seg { seg with lastRead := sp.env.now w.tick }
      { w with tick := w.tick + 1 } := .of_eq h rfl rfl rfl ⟨rfl, hw⟩
  refine (loadFile_keeps htouch.intact htouch.store false).mono fun r w₁ h₁ => ?_
  obtain ⟨seg₁, data⟩ := r
  have hkeeps := htouch.trans h₁.1
  rcases data with e | (_ | file)
  · exact (returns_pure _).mpr hkeeps
  · dsimp only
    have hlen : ¬ (if pos + buf.length > sp.segmentBytes then (sp.segmentBytes : ℤ) - pos
        else buf.length) < 0 := by
      split_ifs <;> omega
    rw [if_neg hlen, returns_pure]
    exact hkeeps
  · simp only [returns_bind, returns_pure]
    exact ((calm_readAt ..).returns w₁ hkeeps.store).mono fun _ w₂ h₂ =>
      hkeeps.trans (.of_eq hkeeps.intact rfl rfl rfl h₂)

lemma writeAt_keeps (h : seg.Intact full) (hw : full w.store) (buf : Bytes) (pos : ℤ) :
    Returns (seg.writeAt sp buf pos) w fun r w' => Keeps full sp w seg r.1 w' := by
  simp only [Segment.writeAt, writeLoaded, returns_bind, returns_timeNow]
  have htouch : Keeps full sp w seg { seg with lastWrite := sp.env.now w.tick }
      { w with tick := w.tick + 1 } := .of_eq h rfl rfl rfl ⟨rfl, hw⟩
  split_ifs
  · exact (returns_pure _).mpr htouch
  · rw [returns_bind]
    refine (loadFile_keeps htouch.intact htouch.store true).mono fun r w₁ h₁ => ?_
    obtain ⟨seg₁, data⟩ := r
    have hkeeps := htouch.trans h₁.1
    rcases data with e | (_ | file)
    · exact (returns_pure _).mpr hkeeps
    · exact (returns_pure _).mpr hkeeps
    · simp only [returns_bind, returns_pure]
      exact ((calm_writeAt ..).returns w₁ hkeeps.store).mono fun _ w₂ h₂ =>
        hkeeps.trans (.of_eq hkeeps.intact rfl rfl rfl h₂)

/-- A flush returns also where segments are not intact. -/
lemma Flush_returns (sp : StoreParams σ) (seg : Segment σ) (buffered : Bool) (w : World σ) :
    Returns (seg.Flush sp buffered) w fun _ _ => True := by
  have hc : sp.UploadsKeep (fun _ => True) (fun _ => True) := ⟨fun _ => trivial, fun _ _ => trivial⟩
  unfold Flush flush
  split_ifs
  · split
    · exact (returns_pure _).mpr trivial
    · simp only [returns_bind, returns_pure]
      exact (StoreParams.syncFile_full hc trivial _ _ buffered).mono fun _ _ _ => trivial
  · exact (returns_pure _).mpr trivial

end Segment

/-! ## The device -/

/-- All segments are intact, and there is a permit held for each of their local files. -/
structure AllIntact (full : σ → Prop) (sp : StoreParams σ) (w : World σ)
    (segments : List (Segment σ)) : Prop where
  seg : ∀ seg ∈ segments, seg.Intact full
  store : full w.store
  held : (segments.map (Segment.load sp)).sum ≤ w.held

variable {segments : List (Segment σ)} {seg : Segment σ} {i : ℕ}

lemma AllIntact.set (h : AllIntact full sp w segments) (hseg : segments[i]? = some seg)
    {seg' : Segment σ} (h' : Segment.Keeps full sp w seg seg' w') :
    AllIntact full sp w' (segments.set i seg') := by
  refine ⟨fun s hs => ?_, h'.store, ?_⟩
  · rcases List.mem_or_eq_of_mem_set hs with hs | rfl
    · exact h.seg s hs
    · exact h'.intact
  · have hsum := sum_map_set (Segment.load sp) hseg seg'
    have hheld := h.held
    have hkeeps := h'.held
    omega

lemma flushLoop_returns (sp : StoreParams σ) (order : List ℕ) (segments : List (Segment σ))
    (err : Option GoError) (horder : ∀ i ∈ order, i < segments.length) (w : World σ) :
    Returns (ObjDevice.flushLoop sp order segments err) w fun _ _ => True := by
  induction order generalizing w segments err with
  | nil => exact (returns_pure _).mpr trivial
  | cons i order ih =>
    obtain ⟨seg, hseg⟩ : ∃ seg, segments[i]? = some seg :=
      ⟨_, List.getElem?_eq_getElem (horder i (by simp))⟩
    simp only [ObjDevice.flushLoop, hseg, returns_bind, returns_get]
    refine (Segment.Flush_returns sp seg _ w).mono fun r w₁ _ => ih _ _ (fun j hj => ?_) w₁
    rw [List.length_set]
    exact horder j (by simp [hj])

namespace ObjDevice

/-- A device in use: it is open, it has segments of some bytes, and there is a permit held for each
of their local files. -/
structure InUse (dev : ObjDevice σ) (w : World σ) : Prop where
  opened : dev.shutdown = false
  pos : 0 < dev.params.segmentBytes
  le : dev.params.segmentBytes ≤ dev.totalBytes
  le_max : dev.totalBytes ≤ maxOffset
  length_eq : dev.segments.length = dev.totalBytes / dev.params.segmentBytes
  held : (dev.segments.map (Segment.load dev.params)).sum ≤ w.held

/-- A device in use whose calls return: its segments are intact. -/
structure Intact (full : σ → Prop) (dev : ObjDevice σ) (w : World σ) : Prop
    extends dev.InUse w where
  fills : dev.params.Fills full
  segments : AllIntact full dev.params w dev.segments

variable {dev : ObjDevice σ}

lemma Flush_returns (h : dev.InUse w) : Returns dev.Flush w fun _ _ => True := by
  rw [ObjDevice.Flush, if_neg (by simp [h.opened])]
  simp only [ObjDevice.flush, returns_bind, returns_get, returns_pure]
  exact flushLoop_returns _ _ _ none (fun i hi => dev.lt_of_mem_flushOrder w.tick hi) w

/-- The stores that uploads of the device make of one. -/
inductive Uploaded (sp : StoreParams σ) (st₀ : σ) : σ → Prop
  | start : Uploaded sp st₀ st₀
  | put {st : σ} (h : Uploaded sp st₀ st) (segID : GoString) (src : Reader) :
      Uploaded sp st₀ (sp.container.put (sp.itemName segID) src sp.segmentBytes .nil st).2

/-- The item of a segment, or one that an upload returns. -/
inductive HasItem (dev : ObjDevice σ) (st₀ : σ) (item : Item σ) : Prop
  | listed (seg : Segment σ) (hseg : seg ∈ dev.segments) (h : seg.remoteItem = some item)
  | uploaded (st st' : σ) (segID : GoString) (src : Reader) (hst : Uploaded dev.params st₀ st)
      (h : dev.params.container.put (dev.params.itemName segID) src dev.params.segmentBytes
        .nil st = (.ok item, st'))

/-- Objects of no bytes: a segment counts as backed without a local file, or an item of the device
reports no bytes, now or after uploads. -/
def Hollow (dev : ObjDevice σ) (w : World σ) : Prop :=
  (∃ seg ∈ dev.segments, seg.backed = true ∧ seg.localFile = none) ∨
    ∃ item st, dev.HasItem w.store item ∧ Uploaded dev.params w.store st ∧ item.size st = .ok 0

/-- Without them the calls of a device in use return. -/
lemma InUse.intact (h : dev.InUse w) (hfull : ¬ dev.Hollow w) :
    dev.Intact (Uploaded dev.params w.store) w := by
  obtain ⟨hbacked, hitems⟩ := not_or.mp hfull
  have hnever : ∀ item, dev.HasItem w.store item →
      item.NeverEmpty (Uploaded dev.params w.store) := fun item hitem st hst hzero =>
    hitems ⟨item, st, hitem, hst, hzero⟩
  refine ⟨h, ⟨fun hst => hst.put _ _, fun hst hput => hnever _ (.uploaded _ _ _ _ hst hput)⟩,
    ⟨fun seg hseg => ⟨?_, ?_⟩, .start, h.held⟩⟩
  · exact fun hb hnone => hbacked ⟨seg, hseg, hb, hnone⟩
  · exact fun it hit => hnever it (.listed seg hseg hit)

end ObjDevice

/-! ## Opening -/

/-- What holds of the segments and goes over to a segment with one of the items attached holds after
all of them are. -/
lemma attachItems_forall {P : Segment σ → Prop} {pre : GoString} {count : ℕ} {items : List (Item σ)}
    {segments segments' : List (Segment σ)}
    (hattach : ∀ item ∈ items, ∀ seg, P seg → P { seg with remoteItem := some item })
    (hsegs : ∀ seg ∈ segments, P seg)
    (h : attachItems pre count items segments = .ok (.ok segments')) :
    segments'.length = segments.length ∧ ∀ seg ∈ segments', P seg := by
  induction items generalizing segments with
  | nil =>
    obtain rfl : segments = segments' := by simpa [attachItems] using h
    exact ⟨rfl, hsegs⟩
  | cons item items ih =>
    rw [attachItems] at h
    cases hid : parseSegID pre item.name with
    | none => simp [hid] at h
    | some segID =>
      simp only [hid] at h
      by_cases hrange : segID < 0 ∨ segID > count
      · simp [if_pos hrange] at h
      rw [if_neg hrange] at h
      cases hseg : segments[segID.toNat]? with
      | none => simp [hseg] at h
      | some seg =>
        rw [hseg] at h
        have hnew := hattach item (by simp) seg (hsegs seg (List.mem_of_getElem? hseg))
        obtain ⟨hlen, hall⟩ := ih (fun it hit => hattach it (by simp [hit])) (fun s hs => by
          rcases List.mem_or_eq_of_mem_set hs with hs | rfl
          · exact hsegs s hs
          · exact hnew) h
        exact ⟨hlen.trans List.length_set, hall⟩

/-- So after `loadSegments`, if it holds of a new segment and goes over with every listed item. -/
lemma loadSegments_forall {P : Segment σ → Prop} (hnew : ∀ i, P (Segment.new i))
    (hattach : ∀ {limit items next}, sp.container.items w.store sp.itemPrefix cursorStart limit =
      .ok (items, next) → ∀ item ∈ items, ∀ seg, P seg → P { seg with remoteItem := some item })
    (totalBytes : ℕ) :
    Yields (loadSegments sp totalBytes) w fun r w' => w' = w ∧ ∀ segments, r = .ok segments →
      segments.length = totalBytes / sp.segmentBytes ∧ ∀ seg ∈ segments, P seg := by
  rw [loadSegments]
  split_ifs with hzero
  · exact yields_stop _
  · rw [yields_bind, yields_get]
    cases hlist : sp.container.items w.store sp.itemPrefix cursorStart
        (totalBytes / sp.segmentBytes + 1) with
    | error e => exact (yields_pure _).mpr ⟨rfl, by simp⟩
    | ok listed =>
      obtain ⟨items, cursor⟩ := listed
      simp only
      split_ifs
      · exact (yields_pure _).mpr ⟨rfl, by simp⟩
      · exact (yields_pure _).mpr ⟨rfl, by simp⟩
      · cases hitems : attachItems sp.itemPrefix (totalBytes / sp.segmentBytes) items
            ((List.range (totalBytes / sp.segmentBytes)).map Segment.new) with
        | error stop => exact yields_stop stop
        | ok r =>
          refine (yields_pure _).mpr ⟨rfl, fun segments hr => ?_⟩
          subst hr
          obtain ⟨hlen, hall⟩ := attachItems_forall (hattach hlist) (fun seg hseg => by
            obtain ⟨i, -, rfl⟩ := List.mem_map.mp hseg
            exact hnew i) hitems
          exact ⟨by simpa using hlen, hall⟩

/-- A device that was opened has the segments `loadSegments` found, from a world with all permits
free. -/
lemma ObjSetup.loadSegments_of_newDevice {s : ObjSetup σ} {dev : ObjDevice σ}
    (h : s.newDevice w = .ok (.ok dev, w')) (hg : s.Gives dev.params) :
    loadSegments dev.params s.totalBytes { w with held := 0 } = .ok (.ok dev.segments, w') ∧
      dev.totalBytes = s.totalBytes ∧ dev.shutdown = false := by
  have hle : ¬ s.objectBytes > s.totalBytes := not_lt.mpr hg.le
  have hret : Returns s.newDevice w fun r w₁ => r = .ok dev ∧ w₁ = w' := ⟨_, _, h, rfl, rfl⟩
  simp only [newDevice, Usbd.newDevice, if_neg hle, hg.stack, hg.quota, returns_bind,
    returns_modify] at hret
  rw [← hg.params_eq] at hret
  obtain ⟨r, w₁, hload, hret⟩ := hret
  cases r with
  | error e => simp at hret
  | ok segments =>
    simp only [returns_pure, Except.ok.injEq] at hret
    obtain ⟨hdev, rfl⟩ := hret
    rw [← hdev] at hload ⊢
    exact ⟨hload, rfl, rfl⟩

end Usbd
