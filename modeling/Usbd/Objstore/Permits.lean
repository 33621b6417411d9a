import Usbd.Objstore.LocalCopies
import Usbd.Objstore.Returning

/-!
# Permits, local files and flags

A segment with a local file holds one permit of the quota, and two flags say what it has.  Three
fields and a counter move together, at different places of `loadFile` and `DeleteFile`, and there
are two ways for them to come apart.  `createFile` keeps its permit when it fails.  And an object of
no bytes is loaded as no file at all, by a load that succeeds: the segment counts as backed.

`Loaded` lists what a load can come to, in any environment and with any container.  `exec_exact`
says of every call of a segment that it keeps flags, file and permit together exactly when its load
does neither of the two.
-/

namespace Usbd

open ListMemory Prog

variable {σ : Type} {sp : StoreParams σ} {w w' : World σ} {seg : Segment σ}

/-- A calm program takes and gives back no permit, whatever the store is. -/
lemma Calm.held {α : Type} {m : Go σ α} (h : Calm (fun _ => True) m) (w : World σ) :
    Returns m w fun _ w' => w'.held = w.held :=
  (h.returns w trivial).mono fun _ _ h' => h'.1

namespace StoreParams

instance (sp : StoreParams σ) (w : World σ) : Decidable (sp.Room w) :=
  match hq : sp.quotaSema with
  | none => isTrue fun _ h => by simp [hq] at h
  | some permits => decidable_of_iff (w.held < permits) (by simp [Room, hq])

/-- Nothing `createFile` does behind its claim fails. -/
def Creates (sp : StoreParams σ) (w : World σ) : Prop :=
  sp.env.fault .create w.tick = none ∧ sp.env.fault .fill (w.tick + 1) = none ∧
    sp.segmentBytes ≤ maxOffset ∧ (sp.thickProvision = true ∨ 0 < sp.segmentBytes)

instance (sp : StoreParams σ) (w : World σ) : Decidable (sp.Creates w) :=
  inferInstanceAs (Decidable (_ ∧ _))

/-! ## What a load does with its permit -/

/-- Filling a new file: it fails when it is made to, and when there is no position for the last
byte. -/
lemma writeAt_fill {file : File} (hopen : file.closed = false) (buf : Bytes) (pos : ℤ) :
    Returns (file.writeAt sp.env buf pos .fill) w fun r w' => w'.held = w.held ∧
      (r.2 = none ↔ sp.env.fault .fill w.tick = none ∧ 0 ≤ pos ∧ pos + buf.length ≤ maxOffset) := by
  simp only [File.writeAt, hopen, Bool.false_eq_true, if_false, returns_bind, returns_syscall,
    returns_get, returns_setFile, returns_pure, true_and]
  by_cases hpos : pos < 0
  · simp only [fileWriteAt, if_pos hpos, reduceCtorEq, false_iff, not_and]
    omega
  · obtain ⟨n, rfl⟩ := Int.eq_ofNat_of_zero_le (not_lt.mp hpos)
    rw [fileWriteAt_err_eq_none]
    constructor
    · rintro ⟨hfault, hle⟩
      exact ⟨hfault, by omega, by exact_mod_cast hle⟩
    · rintro ⟨hfault, -, hle⟩
      exact ⟨hfault, by exact_mod_cast hle⟩

/-- `createFile` behind its claim: the permit is kept, also when there is no file. -/
def CreateOutcome (sp : StoreParams σ) (w : World σ) (r : Except GoError (Option File))
    (w' : World σ) : Prop :=
  w'.held = w.held + sp.permit ∧
    (sp.Creates w ∧ (∃ file, r = .ok (some file) ∧ file.closed = false) ∨
      ¬ sp.Creates w ∧ ∃ e, r = .error e)

lemma fill_outcome {w₁ : World σ} {file : File} (hopen : file.closed = false) (buf : Bytes)
    (pos : ℤ) (text : String) (name : GoString) (hheld : w₁.held = w.held + sp.permit)
    (hiff : sp.Creates w ↔
      sp.env.fault .fill w₁.tick = none ∧ 0 ≤ pos ∧ pos + buf.length ≤ maxOffset) :
    Returns (sp.fillNew file buf pos text name) w₁ (CreateOutcome sp w) := by
  rw [fillNew, returns_bind]
  refine (writeAt_fill hopen buf pos).mono fun r w₂ h₂ => ?_
  obtain ⟨n, err⟩ := r
  obtain ⟨hheld₂, hnone⟩ := h₂
  rw [← hiff] at hnone
  cases err with
  | none => exact (returns_pure _).mpr ⟨by omega, .inl ⟨hnone.mp rfl, _, rfl, hopen⟩⟩
  | some e =>
    simp only [returns_bind, returns_pure]
    refine (Calm.held (calm_osRemove ..) w₂).mono fun _ w₃ h₃ => ?_
    exact ⟨by omega, .inr ⟨fun h => by simpa using hnone.mpr h, _, rfl⟩⟩

lemma createFile_of_claim (hroom : sp.Room w) (segID : GoString) :
    Returns (sp.createFile segID) w (CreateOutcome sp w) := by
  rw [createFile, returns_bind]
  refine (claimCapacity_room hroom).mono fun r w₁ h₁ => ?_
  obtain ⟨rfl, rfl⟩ := h₁
  simp only [osCreate, returns_bind, returns_syscall]
  by_cases hcreate : sp.env.fault .create w.tick = none
  · simp only [hcreate, if_true, returns_bind, returns_setFile, returns_modify, returns_pure]
    split_ifs with hthick
    · refine fill_outcome rfl _ _ _ _ rfl ?_
      simp only [Creates, hcreate, hthick, length_zeros, true_and, true_or, and_true, le_refl,
        zero_add, Nat.cast_le]
    · refine fill_outcome rfl _ _ _ _ rfl ?_
      simp only [Creates, hcreate, hthick, List.length_singleton, true_and, Bool.false_eq_true,
        false_or]
      constructor
      · rintro ⟨hfault, hle, hpos⟩
        exact ⟨hfault, by omega, by push_cast; omega⟩
      · rintro ⟨hfault, hpos, hle⟩
        push_cast at hle
        exact ⟨hfault, by omega, by omega⟩
  · simp only [if_neg hcreate, returns_pure]
    exact ⟨rfl, .inr ⟨fun h => hcreate h.1, _, rfl⟩⟩

/-- A download: it fails and gives its permit back, or there is an object of no bytes and no file,
or there is a file. -/
inductive DownloadOutcome (sp : StoreParams σ) (w : World σ) (item : Item σ) :
    Except GoError (Option File) → World σ → Prop
  | failed {e : GoError} {w' : World σ} (hsize : sp.Room w → item.size w.store ≠ .ok 0)
      (hheld : w'.held = w.held) :
      DownloadOutcome sp w item (.error e) w'
  | hollow {w' : World σ} (hroom : sp.Room w) (hsize : item.size w.store = .ok 0)
      (hheld : w'.held = w.held + sp.permit) : DownloadOutcome sp w item (.ok none) w'
  | loaded {file : File} {w' : World σ} (hroom : sp.Room w) (hsize : item.size w.store ≠ .ok 0)
      (hopen : file.closed = false)
      (hheld : w'.held = w.held + sp.permit) : DownloadOutcome sp w item (.ok (some file)) w'

lemma downloadFile_outcome (item : Item σ) :
    Returns (sp.downloadFile item) w (DownloadOutcome sp w item) := by
  rw [downloadFile, returns_bind]
  by_cases hroom : sp.Room w
  · refine (claimCapacity_room hroom).mono fun r w₁ h₁ => ?_
    obtain ⟨rfl, rfl⟩ := h₁
    simp only [returns_bind]
    by_cases hsize : item.size w.store = .ok 0
    · simp only [download, returns_bind, returns_get, hsize, if_true, returns_pure]
      exact .hollow hroom hsize rfl
    · refine ((Calm.held (sp.calm_download item) _).and_yields (download_result item)).mono
        fun r w₂ h₂ => ?_
      obtain ⟨hheld, hopen, hsome⟩ := h₂
      rcases r with e | (_ | file)
      · simp only [returns_bind, returns_pure]
        refine (releaseCapacity_spec (by simp only at hheld; omega)).mono fun _ w₃ h₃ => ?_
        have := h₃.2.2
        simp only at hheld
        exact .failed (fun _ => hsize) (by omega)
      · exact absurd (hsome rfl) hsize
      · exact (returns_pure _).mpr (.loaded hroom hsize (hopen file rfl) hheld)
  · obtain ⟨permits, hq, hle⟩ := not_room_iff.mp hroom
    refine (claimCapacity_of_full hq hle).mono fun r w₁ h₁ => ?_
    obtain ⟨rfl, rfl⟩ := h₁
    exact (returns_pure _).mpr (.failed (fun h => absurd h hroom) rfl)

lemma syncFile_held (file : File) (segID : GoString) (buffered : Bool) :
    Returns (sp.syncFile file segID buffered) w fun _ w' => w'.held = w.held := by
  rw [syncFile, returns_bind]
  refine (Calm.held (sp.calm_prepare file buffered) w).mono fun src w₁ h₁ => ?_
  cases src with
  | error e => exact (returns_pure _).mpr h₁
  | ok src =>
    have hupload : Returns (sp.upload segID src) w₁ fun _ w' => w'.held = w₁.held := by
      simp only [upload, returns_bind, returns_syscall, returns_get]
      cases sp.env.fault .put w₁.tick with
      | some stored => simp
      | none =>
        simp only [returns_bind, returns_modify]
        cases (sp.container.put (sp.itemName segID) src sp.segmentBytes .nil w₁.store).1 <;> simp
    rw [returns_bind]
    refine hupload.mono fun r w₂ h₂ => ?_
    cases r with
    | error e => exact (returns_pure _).mpr (h₂.trans h₁)
    | ok item =>
      simp only [returns_bind, returns_pure]
      exact (Calm.held (sp.calm_finishSync file item) w₂).mono fun _ w₃ h₃ =>
        h₃.trans (h₂.trans h₁)

end StoreParams

/-! ## What a load comes to -/

namespace Segment

/-- The load does not meet an object of no bytes. -/
def FindsBytes (sp : StoreParams σ) (w : World σ) (seg : Segment σ) : Prop :=
  seg.localFile = none → sp.Room w → seg.remoteItem.elim True fun item => item.size w.store ≠ .ok 0

/-- The load does not take a permit for a file it then fails to create. -/
def CreatesFile (sp : StoreParams σ) (w : World σ) (seg : Segment σ) (createWrite : Bool) : Prop :=
  seg.localFile = none → sp.Room w → seg.remoteItem.isNone → createWrite = true →
    sp.quotaSema.isSome → sp.Creates w

instance (sp : StoreParams σ) (w : World σ) (seg : Segment σ) : Decidable (seg.FindsBytes sp w) :=
  match h : seg.remoteItem with
  | none => isTrue fun _ _ => by simp [h]
  | some item =>
    decidable_of_iff (seg.localFile = none → sp.Room w → item.size w.store ≠ .ok 0)
      (by simp [FindsBytes, h])

instance (sp : StoreParams σ) (w : World σ) (seg : Segment σ) (createWrite : Bool) :
    Decidable (seg.CreatesFile sp w createWrite) :=
  inferInstanceAs (Decidable (_ → _ → _ → _ → _ → _))

/-- What a load comes to: the segment as it was, with the file it has; a new local file and its
permit; a permit and no file; a permit and an error. -/
inductive Loaded (sp : StoreParams σ) (w : World σ) (seg : Segment σ) (createWrite : Bool) :
    Segment σ × Except GoError (Option File) → World σ → Prop
  | same {r : Except GoError (Option File)} {w' : World σ} (hbytes : seg.FindsBytes sp w)
      (hcreates : seg.CreatesFile sp w createWrite)
      (hres : ∀ file, r = .ok file → file = seg.localFile ∧ (file = none → createWrite = false))
      (hheld : w'.held = w.held) : Loaded sp w seg createWrite (seg, r) w'
  | file {file : File} {w' : World σ} (hbytes : seg.FindsBytes sp w)
      (hcreates : seg.CreatesFile sp w createWrite) (hroom : sp.Room w)
      (hlocal : seg.localFile = none) (hopen : file.closed = false)
      (hheld : w'.held = w.held + sp.permit) :
      Loaded sp w seg createWrite
        ({ seg with localFile := some file, backed := true }, .ok (some file)) w'
  | hollow {w' : World σ} (hhollow : ¬ seg.FindsBytes sp w) (hlocal : seg.localFile = none)
      (hheld : w'.held = w.held + sp.permit) :
      Loaded sp w seg createWrite ({ seg with localFile := none, backed := true }, .ok none) w'
  | leaked {e : GoError} {w' : World σ} (hleaks : ¬ seg.CreatesFile sp w createWrite)
      (hlocal : seg.localFile = none) (hheld : w'.held = w.held + 1) :
      Loaded sp w seg createWrite (seg, .error e) w'

/-- **Every load is one of these**, in any environment and with any container. -/
lemma loadFile_loaded (createWrite : Bool) :
    Returns (seg.loadFile sp createWrite) w (Loaded sp w seg createWrite) := by
  obtain ⟨ID, localFile, remoteItem, dirty, backed, lastRead, lastWrite⟩ := seg
  unfold loadFile
  cases localFile with
  | some file =>
    refine (returns_pure _).mpr (.same (by simp [FindsBytes]) (by simp [CreatesFile]) ?_ rfl)
    rintro file' ⟨⟩
    simp
  | none =>
    cases remoteItem with
    | some item =>
      simp only [returns_bind, returns_pure]
      refine (StoreParams.downloadFile_outcome item).mono fun r w₁ h₁ => ?_
      cases h₁ with
      | failed hsize hheld =>
        refine .same (fun _ hroom => hsize hroom) (by simp [CreatesFile]) ?_ hheld
        rintro file' ⟨⟩
      | hollow hroom hsize hheld => exact .hollow (fun h => h rfl hroom hsize) rfl hheld
      | loaded hroom hsize hopen hheld =>
        exact .file (fun _ _ => hsize) (by simp [CreatesFile]) hroom rfl hopen hheld
    | none =>
      simp only
      split_ifs with hcw
      · subst hcw
        simp only [returns_bind, returns_pure]
        by_cases hroom : sp.Room w
        · refine (StoreParams.createFile_of_claim hroom _).mono fun r w₁ h₁ => ?_
          obtain ⟨hheld, ⟨hcreates, file, rfl, hopen⟩ | ⟨hfails, e, rfl⟩⟩ := h₁
          · exact .file (by simp [FindsBytes]) (fun _ _ _ _ _ => hcreates) hroom rfl hopen hheld
          · cases hq : sp.quotaSema with
            | none =>
              refine .same (by simp [FindsBytes]) (by simp [CreatesFile, hq]) ?_ ?_
              · rintro file' ⟨⟩
              · simpa [StoreParams.permit, hq] using hheld
            | some permits =>
              -- the file could not be made, and the permit is not given back
              refine .leaked (fun h => hfails (h rfl hroom rfl rfl (by simp [hq]))) rfl ?_
              simpa [StoreParams.permit, hq] using hheld
        · obtain ⟨permits, hq, hle⟩ := StoreParams.not_room_iff.mp hroom
          refine (StoreParams.createFile_of_full hq hle _).mono fun r w₁ h₁ => ?_
          obtain ⟨rfl, rfl⟩ := h₁
          refine .same (by simp [FindsBytes]) (fun _ h => absurd h hroom) ?_ rfl
          rintro file' ⟨⟩
      · refine (returns_pure _).mpr (.same (by simp [FindsBytes])
          (fun _ _ _ h => absurd h (by simpa using hcw)) ?_ rfl)
        rintro file' ⟨⟩
        exact ⟨rfl, fun _ => by simpa using hcw⟩

lemma Loaded.localFile_eq {createWrite : Bool} {seg' : Segment σ} {file : Option File}
    (h : Loaded sp w seg createWrite (seg', .ok file) w') : seg'.localFile = file := by
  cases h with
  | same _ _ hres _ => exact (hres file rfl).1.symm
  | file _ _ _ _ _ _ => rfl
  | hollow _ _ _ => rfl

/-! ## Calls -/

/-- The flags say what there is: a segment is backed when it has a local file, and dirty only
then. -/
structure Rep (seg : Segment σ) : Prop where
  backed_eq : seg.backed = seg.localFile.isSome
  dirty : seg.dirty = true → seg.localFile ≠ none

/-- A call leaves flags that say what there is, and as many permits more as local files. -/
def Exact (sp : StoreParams σ) (w : World σ) (seg seg' : Segment σ) (w' : World σ) : Prop :=
  seg'.Rep ∧ w'.held + seg.holding sp = w.held + seg'.holding sp

/-- A handle of the segment afterwards is one it had, or open. -/
def Handles (seg seg' : Segment σ) : Prop :=
  ∀ file, seg'.localFile = some file → file.closed = true → seg.localFile = some file

lemma Rep.exact_self (h : seg.Rep) (hheld : w'.held = w.held) : Exact sp w seg seg w' :=
  ⟨h, by rw [hheld]⟩

/-- A load is exact unless it is one of the two that are not. -/
lemma Loaded.exact_iff {createWrite : Bool} {r : Segment σ × Except GoError (Option File)}
    (h : Loaded sp w seg createWrite r w') (hrep : seg.Rep) :
    (Exact sp w seg r.1 w' ↔ seg.FindsBytes sp w ∧ seg.CreatesFile sp w createWrite) ∧
      Handles seg r.1 := by
  have hbacked : seg.localFile = none → seg.backed = false := fun hlocal => by
    rw [hrep.backed_eq, hlocal, Option.isSome_none]
  cases h with
  | same hbytes hcreates _ hheld =>
    exact ⟨iff_of_true (hrep.exact_self hheld) ⟨hbytes, hcreates⟩, fun _ h _ => h⟩
  | file hbytes hcreates _ hlocal hopen hheld =>
    refine ⟨iff_of_true ⟨⟨rfl, fun _ => by simp⟩, ?_⟩ ⟨hbytes, hcreates⟩, ?_⟩
    · simp [holding, hbacked hlocal, hheld]
    · rintro file' ⟨⟩ hclosed
      simp [hopen] at hclosed
  | hollow hhollow hlocal hheld =>
    refine ⟨iff_of_false (fun h => ?_) fun h => hhollow h.1, ?_⟩
    · simpa using h.1.backed_eq
    · rintro file' ⟨⟩
  | leaked hleaks hlocal hheld =>
    refine ⟨iff_of_false (fun h => ?_) fun h => hleaks h.2, fun _ h _ => h⟩
    have := h.2
    simp only at this
    omega

/-- What only looks at the loaded segment does not change whether the load was exact. -/
lemma exact_congr {seg₁ seg₂ : Segment σ} {w₁ w₂ : World σ} (hheld : w₂.held = w₁.held)
    (hlocal : seg₂.localFile = seg₁.localFile) (hbacked : seg₂.backed = seg₁.backed)
    (hdirty : seg₂.dirty = seg₁.dirty ∨ seg₁.localFile ≠ none) :
    Exact sp w seg seg₂ w₂ ↔ Exact sp w seg seg₁ w₁ := by
  have hrep : seg₂.Rep ↔ seg₁.Rep := by
    constructor
    · refine fun h => ⟨by rw [← hbacked, ← hlocal, h.backed_eq], fun hd => ?_⟩
      rcases hdirty with hdirty | hne
      · rw [← hlocal]
        exact h.dirty (hdirty.trans hd)
      · exact hne
    · refine fun h => ⟨by rw [hbacked, hlocal, h.backed_eq], fun hd => ?_⟩
      rw [hlocal]
      rcases hdirty with hdirty | hne
      · exact h.dirty (hdirty.symm.trans hd)
      · exact hne
  rw [Exact, Exact, hrep, hheld, holding, holding, holding, hbacked]

/-- The calls of a segment. -/
inductive Call
  | readAt (buf : Bytes) (pos : ℤ)
  | writeAt (buf : Bytes) (pos : ℤ)
  | flush (buffered : Bool)
  | deleteFile
  deriving DecidableEq

/-- A call: the segment afterwards and the error. -/
def exec (sp : StoreParams σ) (seg : Segment σ) : Call → Go σ (Segment σ × Option GoError)
  | .readAt buf pos => do
    let (seg, _, _, err) ← seg.readAt sp buf pos
    pure (seg, err)
  | .writeAt buf pos => do
    let (seg, _, err) ← seg.writeAt sp buf pos
    pure (seg, err)
  | .flush buffered => seg.Flush sp buffered
  | .deleteFile => seg.deleteFile sp

/-- The call's load, if it makes one, finds bytes and creates the file it takes a permit for.  The
call has marked the time before. -/
def Careful (sp : StoreParams σ) (w : World σ) (seg : Segment σ) : Call → Prop
  | .readAt _ _ => seg.FindsBytes sp w
  | .writeAt buf _ => ¬ seg.Skips buf →
      seg.FindsBytes sp w ∧ seg.CreatesFile sp { w with tick := w.tick + 1 } true
  | .flush _ => True
  | .deleteFile => True

instance (sp : StoreParams σ) (w : World σ) (seg : Segment σ) :
    ∀ call, Decidable (seg.Careful sp w call)
  | .readAt _ _ => inferInstanceAs (Decidable (seg.FindsBytes sp w))
  | .writeAt _ _ => inferInstanceAs (Decidable (_ → _ ∧ _))
  | .flush _ => isTrue trivial
  | .deleteFile => isTrue trivial

lemma readAt_loaded (buf : Bytes) (pos : ℤ) : Yields (seg.readAt sp buf pos) w fun r w' =>
    ∃ data w₁, Loaded sp { w with tick := w.tick + 1 } { seg with lastRead := sp.env.now w.tick }
      false (r.1, data) w₁ ∧ w'.held = w₁.held := by
  rw [Segment.readAt, yields_bind]
  refine (returns_timeNow.mpr ?_ : Returns _ _ _).yields
  refine yields_readLoaded ((loadFile_loaded false).yields.mono fun r w₁ h₁ => ?_)
  refine ⟨fun _ _ => ⟨_, w₁, h₁, rfl⟩, fun _ _ _ _ => ⟨_, w₁, h₁, rfl⟩, fun _ _ => ?_⟩
  exact (Calm.held (calm_readAt ..) w₁).yields.mono fun _ w₂ h₂ => ⟨_, w₁, h₁, h₂⟩

/-- A write that is not skipped is a load, and a mark on what it loaded if there is a file. -/
lemma writeAt_loaded (buf : Bytes) (pos : ℤ) : Returns (seg.writeAt sp buf pos) w fun r w' =>
    seg.Skips buf ∧ r.1 = { seg with lastWrite := sp.env.now w.tick } ∧ w'.held = w.held ∨
    ¬ seg.Skips buf ∧ ∃ seg₁ data w₁, Loaded sp { w with tick := w.tick + 1 }
      { seg with lastWrite := sp.env.now w.tick } true (seg₁, data) w₁ ∧ w'.held = w₁.held ∧
      ∃ dirty, r.1 = { seg₁ with dirty } ∧ (dirty = seg₁.dirty ∨ seg₁.localFile ≠ none) := by
  simp only [Segment.writeAt, writeLoaded, returns_bind, returns_timeNow]
  split_ifs with hskip
  · exact (returns_pure _).mpr (.inl ⟨hskip, rfl, rfl⟩)
  · rw [returns_bind]
    refine (loadFile_loaded true).mono fun r w₁ h₁ => ?_
    obtain ⟨seg₁, data⟩ := r
    rcases data with e | (_ | file)
    · exact (returns_pure _).mpr (.inr ⟨hskip, _, _, w₁, h₁, rfl, _, rfl, .inl rfl⟩)
    · exact (returns_pure _).mpr (.inr ⟨hskip, _, _, w₁, h₁, rfl, _, rfl, .inl rfl⟩)
    · have hlocal : seg₁.localFile ≠ none := by simp [h₁.localFile_eq]
      simp only [returns_bind, returns_pure]
      exact (Calm.held (calm_writeAt ..) w₁).mono fun _ w₂ h₂ =>
        .inr ⟨hskip, _, _, w₁, h₁, h₂, _, rfl, .inr hlocal⟩

lemma readAt_exact (hrep : seg.Rep) (buf : Bytes) (pos : ℤ) :
    Yields (seg.readAt sp buf pos) w fun r w' =>
      (Exact sp w seg r.1 w' ↔ seg.FindsBytes sp w) ∧ Handles seg r.1 := by
  refine (readAt_loaded buf pos).mono fun r w₂ h₂ => ?_
  obtain ⟨data, w₁, h₁, hheld⟩ := h₂
  obtain ⟨hexact, hhandles⟩ := h₁.exact_iff ⟨hrep.1, hrep.2⟩
  have hcreates : CreatesFile sp { w with tick := w.tick + 1 }
      { seg with lastRead := sp.env.now w.tick } false := fun _ _ _ h => by simp at h
  refine ⟨?_, hhandles⟩
  exact (exact_congr hheld rfl rfl (.inl rfl)).trans (hexact.trans (and_iff_left hcreates))

lemma writeAt_exact (hrep : seg.Rep) (buf : Bytes) (pos : ℤ) :
    Returns (seg.writeAt sp buf pos) w fun r w' =>
      (Exact sp w seg r.1 w' ↔ seg.Careful sp w (.writeAt buf pos)) ∧ Handles seg r.1 := by
  have htouch : Rep { seg with lastWrite := sp.env.now w.tick } := ⟨hrep.1, hrep.2⟩
  refine (writeAt_loaded buf pos).mono fun r w₂ h₂ => ?_
  obtain ⟨seg₂, n, err⟩ := r
  rcases h₂ with ⟨hskip, rfl, hheld⟩ | ⟨hskip, seg₁, data, w₁, h₁, hheld, dirty, rfl, hdirty⟩
  · exact ⟨iff_of_true (htouch.exact_self hheld) fun h => absurd hskip h, fun _ h _ => h⟩
  · obtain ⟨hexact, hhandles⟩ := h₁.exact_iff htouch
    have hcongr : Exact sp w seg { seg₁ with dirty } w₂ ↔ Exact sp w seg seg₁ w₁ :=
      exact_congr hheld rfl rfl hdirty
    have hcare : seg.Careful sp w (.writeAt buf pos) ↔
        seg.FindsBytes sp w ∧ seg.CreatesFile sp { w with tick := w.tick + 1 } true :=
      forall_prop_of_true hskip
    exact ⟨hcongr.trans (hexact.trans hcare.symm), hhandles⟩

/-- A flush leaves the local file and its permit, and the segment clean. -/
lemma flush_exact (hrep : seg.Rep) (hlocal : seg.localFile ≠ none) (buffered : Bool) :
    Returns (seg.flush sp buffered) w fun r w' =>
      r.1.Rep ∧ w'.held = w.held ∧ r.1.localFile = seg.localFile ∧ r.1.backed = seg.backed ∧
        r.1.dirty = false := by
  obtain ⟨ID, localFile, remoteItem, dirty, backed, lastRead, lastWrite⟩ := seg
  cases localFile with
  | none => exact absurd rfl hlocal
  | some file =>
    simp only [Segment.flush, returns_bind, returns_pure]
    refine (StoreParams.syncFile_held file _ buffered).mono fun r w₁ h₁ => ?_
    exact ⟨⟨hrep.backed_eq, fun h => by simp at h⟩, h₁, trivial, trivial, trivial⟩

lemma Flush_exact (hrep : seg.Rep) (buffered : Bool) :
    Returns (seg.Flush sp buffered) w fun r w' => Exact sp w seg r.1 w' ∧ Handles seg r.1 := by
  unfold Segment.Flush
  split_ifs with hdirty
  · refine (flush_exact hrep (hrep.dirty hdirty) buffered).mono fun r w₁ h₁ => ?_
    obtain ⟨hrep₁, hheld, hlocal, hbacked, -⟩ := h₁
    refine ⟨⟨hrep₁, by rw [hheld, holding, holding, hbacked]⟩, fun file hfile _ => ?_⟩
    rw [← hlocal, hfile]
  · exact (returns_pure _).mpr ⟨hrep.exact_self rfl, fun _ h _ => h⟩

/-- Giving the local file of a clean segment up returns, when there is one and it has a permit. -/
lemma dropFile_exact (hrep : seg.Rep) (hlocal : seg.localFile ≠ none) (hclean : seg.dirty = false)
    (hheld : seg.holding sp ≤ w.held) :
    Returns (seg.dropFile sp) w fun r w' =>
      Exact sp w seg r.1 w' ∧ (r.2 = none → r.1.localFile = none) := by
  obtain ⟨ID, localFile, remoteItem, dirty, backed, lastRead, lastWrite⟩ := seg
  cases localFile with
  | none => exact absurd rfl hlocal
  | some file =>
    obtain rfl : backed = true := hrep.backed_eq
    obtain rfl : dirty = false := hclean
    simp only [Segment.dropFile, returns_bind]
    refine (Calm.held (sp.calm_removeFile file) w).mono fun r w₁ h₁ => ?_
    obtain ⟨file₁, err⟩ := r
    cases err with
    | some e =>
      refine (returns_pure _).mpr ⟨⟨⟨rfl, fun _ => by simp⟩, ?_⟩, by simp⟩
      simp only [holding, h₁]
    | none =>
      have hpermit : sp.permit ≤ w₁.held := by simpa [holding, h₁] using hheld
      simp only [returns_bind, returns_pure]
      refine (StoreParams.releaseCapacity_spec hpermit).mono fun _ w₂ h₂ => ?_
      have hback := h₂.2.2
      refine ⟨⟨⟨rfl, fun h => by simp at h⟩, ?_⟩, fun _ => trivial⟩
      simp only [holding, if_true, Bool.false_eq_true, if_false]
      omega

lemma deleteFile_exact (hrep : seg.Rep) (hheld : seg.holding sp ≤ w.held) :
    Returns (seg.deleteFile sp) w fun r w' =>
      Exact sp w seg r.1 w' ∧ (r.2 = none → Handles seg r.1) := by
  unfold Segment.deleteFile
  split_ifs with hbacked hdirty
  · have hlocal : seg.localFile ≠ none := hrep.dirty hdirty
    rw [returns_bind]
    refine (flush_exact hrep hlocal false).mono fun r w₁ h₁ => ?_
    obtain ⟨seg₁, err⟩ := r
    obtain ⟨hrep₁, hheld₁, hlocal₁, hbacked₁, hclean₁⟩ := h₁
    simp only at hrep₁ hlocal₁ hbacked₁ hclean₁
    have hholding : seg₁.holding sp = seg.holding sp := by rw [holding, holding, hbacked₁]
    have hne : seg₁.localFile ≠ none := hlocal₁ ▸ hlocal
    cases err with
    | some e =>
      obtain ⟨file, hfile⟩ := Option.ne_none_iff_exists'.mp hne
      simp only [hfile]
      exact (returns_pure _).mpr ⟨⟨hrep₁, by rw [hheld₁, hholding]⟩, by simp⟩
    | none =>
      refine (dropFile_exact hrep₁ hne hclean₁ (by omega)).mono fun r w₂ h₂ => ?_
      obtain ⟨⟨hrep₂, hexact⟩, hgone⟩ := h₂
      refine ⟨⟨hrep₂, by omega⟩, fun hnone file hfile => ?_⟩
      simp [hgone hnone] at hfile
  · have hlocal : seg.localFile ≠ none := by
      rw [← Option.isSome_iff_ne_none, ← hrep.backed_eq, hbacked]
    refine (dropFile_exact hrep hlocal (by simpa using hdirty) hheld).mono fun r w₁ h₁ => ?_
    refine ⟨h₁.1, fun hnone file hfile => ?_⟩
    simp [h₁.2 hnone] at hfile
  · exact (returns_pure _).mpr ⟨hrep.exact_self rfl, fun _ _ h _ => h⟩

/-- **One call**: it is exact when it is careful and not otherwise. -/
lemma exec_exact (hrep : seg.Rep) (hheld : seg.holding sp ≤ w.held) (call : Call) :
    Yields (seg.exec sp call) w fun r w' => (Exact sp w seg r.1 w' ↔ seg.Careful sp w call) ∧
      (Handles seg r.1 ∨ call = .deleteFile ∧ r.2 ≠ none) := by
  cases call with
  | readAt buf pos =>
    simp only [exec, yields_bind, yields_pure]
    exact (readAt_exact hrep buf pos).mono fun r w₁ h₁ => ⟨h₁.1, .inl h₁.2⟩
  | writeAt buf pos =>
    simp only [exec, yields_bind, yields_pure]
    exact (writeAt_exact hrep buf pos).yields.mono fun r w₁ h₁ => ⟨h₁.1, .inl h₁.2⟩
  | flush buffered =>
    exact (Flush_exact hrep buffered).yields.mono fun r w₁ h₁ =>
      ⟨iff_of_true h₁.1 trivial, .inl h₁.2⟩
  | deleteFile =>
    refine (deleteFile_exact hrep hheld).yields.mono fun r w₁ h₁ => ⟨iff_of_true h₁.1 trivial, ?_⟩
    by_cases hnone : r.2 = none
    · exact .inl (h₁.2 hnone)
    · exact .inr ⟨rfl, hnone⟩

/-- The file of a write is created, if it takes a permit for it. -/
def CreatesFor (sp : StoreParams σ) (w : World σ) (seg : Segment σ) : Call → Prop
  | .writeAt buf _ => ¬ seg.Skips buf → seg.CreatesFile sp { w with tick := w.tick + 1 } true
  | .readAt _ _ => True
  | .flush _ => True
  | .deleteFile => True

instance (sp : StoreParams σ) (w : World σ) (seg : Segment σ) :
    ∀ call, Decidable (seg.CreatesFor sp w call)
  | .writeAt _ _ => inferInstanceAs (Decidable (_ → _))
  | .readAt _ _ => isTrue trivial
  | .flush _ => isTrue trivial
  | .deleteFile => isTrue trivial

/-- A read or a write. -/
def Call.Accesses : Call → Prop
  | .readAt _ _ => True
  | .writeAt _ _ => True
  | .flush _ => False
  | .deleteFile => False

instance : ∀ call : Call, Decidable call.Accesses
  | .readAt _ _ => isTrue trivial
  | .writeAt _ _ => isTrue trivial
  | .flush _ => isFalse id
  | .deleteFile => isFalse id

lemma Loaded.unbacked {createWrite : Bool} {r : Segment σ × Except GoError (Option File)}
    (h : Loaded sp w seg createWrite r w') (hcreates : seg.CreatesFile sp w createWrite)
    (hr : r.1.backed = false) : seg.backed = false ∧ w'.held = w.held := by
  cases h with
  | same _ _ _ hheld => exact ⟨hr, hheld⟩
  | file _ _ _ _ _ _ => simp at hr
  | hollow _ _ _ => simp at hr
  | leaked hleaks _ _ => exact absurd hcreates hleaks

lemma exec_unbacked {call : Call} (hcall : call.Accesses) (hcreates : seg.CreatesFor sp w call) :
    Yields (seg.exec sp call) w fun r w' =>
      r.1.backed = false → seg.backed = false ∧ w'.held = w.held := by
  cases call with
  | readAt buf pos =>
    simp only [exec, yields_bind, yields_pure]
    refine (readAt_loaded buf pos).mono fun r w₂ h₂ hb => ?_
    obtain ⟨data, w₁, h₁, hheld⟩ := h₂
    obtain ⟨hback, hheld₁⟩ := h₁.unbacked (fun _ _ _ h => by simp at h) hb
    exact ⟨hback, hheld.trans hheld₁⟩
  | writeAt buf pos =>
    simp only [exec, yields_bind, yields_pure]
    refine (writeAt_loaded buf pos).yields.mono fun r w₂ h₂ hb => ?_
    obtain ⟨seg₂, n, err⟩ := r
    rcases h₂ with ⟨-, rfl, hheld⟩ | ⟨hskip, seg₁, data, w₁, h₁, hheld, dirty, rfl, -⟩
    · exact ⟨hb, hheld⟩
    · obtain ⟨hback, hheld₁⟩ := h₁.unbacked (hcreates hskip) hb
      exact ⟨hback, hheld.trans hheld₁⟩
  | flush buffered => exact hcall.elim
  | deleteFile => exact hcall.elim

end Segment

end Usbd
