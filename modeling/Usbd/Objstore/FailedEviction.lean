import Usbd.Objstore.SegmentTable

/-!
# A `DeleteFile` that fails

`DeleteFile` uploads, closes, removes the data file and removes the ETag file, in that order, and
gives up at the first of the four that fails.  Its own fields it changes at the very end.  Behind a
failed upload everything is as it was.  Behind any of the other three the handle is closed, the
segment still holds it and still counts as backed, and no byte of it is read again: a segment with a
local file is never loaded anew.
-/

namespace Usbd

open ListMemory Prog

variable {σ : Type} {sp : StoreParams σ} {w w' : World σ} {seg : Segment σ} {file : File}
  {content : Bytes}

namespace Segment

/-- A segment with a local file that reads as the given bytes.  A thin-provisioned one may have a
byte more. -/
structure Readable (sp : StoreParams σ) (w : World σ) (seg : Segment σ) (content : Bytes) :
    Prop where
  backed : seg.backed = true
  localFile : ∃ file, seg.localFile = some file ∧ file.closed = false ∧
    w.files file.name = some content
  le_length : sp.segmentBytes ≤ content.length

/-- The upload of a `DeleteFile` fails: there is one to make, and it returns an error. -/
def UploadFails (sp : StoreParams σ) (w : World σ) (seg : Segment σ) : Prop :=
  seg.dirty = true ∧ Returns (seg.flush sp false) w fun r _ => r.2 ≠ none

/-- Every read inside the segment returns the bytes there. -/
def Reads (sp : StoreParams σ) (w : World σ) (seg : Segment σ) (content : Bytes) : Prop :=
  ∀ (buf : Bytes) (pos : ℕ), pos + buf.length ≤ sp.segmentBytes →
    Returns (seg.readAt sp buf pos) w fun r _ =>
      r.2 = (slice content pos buf.length, buf.length, none)

end Segment

/-! ## Removing -/

lemma removeFile_closed : Returns (sp.removeFile file) w fun r _ => r.1.closed = true := by
  have hclose : Returns (file.close sp.env) w fun r _ => r.1.closed = true := by
    unfold File.close
    split_ifs with hclosed <;> simp [hclosed]
  rw [StoreParams.removeFile, returns_bind]
  refine hclose.mono fun r w₁ h₁ => ?_
  obtain ⟨file₁, err⟩ := r
  cases err with
  | some e => exact (returns_pure _).mpr h₁
  | none =>
    simp only [returns_bind]
    refine (Calm.held (calm_osRemove ..) w₁).mono fun err w₂ _ => ?_
    cases err with
    | some e => exact (returns_pure _).mpr h₁
    | none =>
      simp only
      split_ifs
      · rw [returns_bind]
        refine (Calm.held (calm_osRemove ..) w₂).mono fun err w₃ _ => ?_
        cases err with
        | some e =>
          simp only
          split_ifs <;> exact (returns_pure _).mpr h₁
        | none => exact (returns_pure _).mpr h₁
      · exact (returns_pure _).mpr h₁

namespace Segment

lemma not_reads_of_closed (hpos : 0 < sp.segmentBytes) (hlocal : seg.localFile = some file)
    (hclosed : file.closed = true) : ¬ seg.Reads sp w content := by
  intro h
  obtain ⟨r, w₁, hread, hr⟩ := h [0] 0 hpos
  have herr : Returns (seg.readAt sp [0] ((0 : ℕ) : ℤ)) w fun r _ =>
      r.2.2.2 = some osErrClosed := by
    simp [Segment.readAt, readLoaded, loadFile, hlocal, File.readAt, hclosed, closedFileErr]
  simpa [hr] using herr.eq hread

lemma Readable.reads (hr : Reliable sp.env) (h : seg.Readable sp w content) :
    seg.Reads sp w content := by
  obtain ⟨file, hlocal, hopen, hdata⟩ := h.localFile
  intro buf pos hle
  replace hle := hle.trans h.le_length
  rw [Segment.readAt, returns_bind, returns_timeNow]
  have htouch : ({ seg with lastRead := sp.env.now w.tick } : Segment σ).localFile = some file :=
    hlocal
  refine (readLoaded_local (w := { w with tick := w.tick + 1 }) hr htouch hopen hdata hle).mono
    fun r w₁ h₁ => ?_
  rw [h₁.1]

/-- An upload leaves a segment readable, whatever becomes of it. -/
lemma Readable.flush (h : seg.Readable sp w content) (buffered : Bool) :
    Returns (seg.flush sp buffered) w fun r w' =>
      r.1.Readable sp w' content ∧ w'.held = w.held := by
  obtain ⟨file, hlocal, hopen, hdata⟩ := h.localFile
  simp only [Segment.flush, hlocal, returns_bind, returns_pure]
  refine ((syncFile_files file _ buffered).and_yields
    (StoreParams.syncFile_held file _ buffered).yields).mono fun r w₁ h₁ => ?_
  obtain ⟨⟨-, hsame⟩, hheld⟩ := h₁
  exact ⟨⟨h.backed, ⟨file, rfl, hopen, hsame.trans hdata⟩, h.le_length⟩, hheld⟩

lemma dropFile_closed (hlocal : seg.localFile = some file) (hheld : sp.permit ≤ w.held) :
    Returns (seg.dropFile sp) w fun r _ => r.2 ≠ none →
      ∃ file', r.1.localFile = some file' ∧ file'.closed = true := by
  simp only [dropFile, hlocal, returns_bind]
  refine ((Calm.held (sp.calm_removeFile file) w).and_yields removeFile_closed.yields).mono
    fun r w₁ h₁ => ?_
  obtain ⟨file₁, err⟩ := r
  cases err with
  | some e => exact (returns_pure _).mpr fun _ => ⟨file₁, rfl, h₁.2⟩
  | none =>
    simp only [returns_bind, returns_pure]
    exact (StoreParams.releaseCapacity_spec (by omega)).mono fun _ _ _ h => absurd rfl h

/-- **What a failed `DeleteFile` leaves.**  For every segment with an open local file, in any
environment and with any container: after a `DeleteFile` that fails, fault-free reads of the segment
return the bytes it had if and only if it was the upload that failed. -/
theorem reads_after_failed_delete_iff (sp : StoreParams σ) (hpos : 0 < sp.segmentBytes) (env : Env)
    (hquiet : Faultless env) (w : World σ) (seg : Segment σ) (content : Bytes)
    (h : seg.Readable sp w content) (hheld : seg.holding sp ≤ w.held) :
    Returns (seg.deleteFile sp) w fun r w' => r.2 ≠ none →
      (r.1.Reads { sp with env } w' content ↔ seg.UploadFails sp w) := by
  have hpermit : sp.permit ≤ w.held := by simpa [holding, h.backed] using hheld
  -- the removal closes the handle before it fails
  have hdrop : ∀ (seg₁ : Segment σ) (w₁ : World σ), seg₁.Readable sp w₁ content →
      w₁.held = w.held → ¬ seg.UploadFails sp w →
      Returns (seg₁.dropFile sp) w₁ fun r w' => r.2 ≠ none →
        (r.1.Reads { sp with env } w' content ↔ seg.UploadFails sp w) := by
    intro seg₁ w₁ h₁ hheld₁ hnot
    obtain ⟨file₁, hlocal₁, -, -⟩ := h₁.localFile
    refine (dropFile_closed hlocal₁ (hheld₁ ▸ hpermit)).mono fun r w₂ h₂ herr => ?_
    obtain ⟨file₂, hlocal₂, hclosed⟩ := h₂ herr
    exact iff_of_false (not_reads_of_closed hpos hlocal₂ hclosed) hnot
  unfold deleteFile
  rw [if_pos h.backed]
  split_ifs with hdirty
  · obtain ⟨⟨seg₁, err⟩, w₁, hflush, hread₁, hheld₁⟩ := h.flush false
    rw [returns_bind]
    refine ⟨_, _, hflush, ?_⟩
    cases err with
    | none =>
      refine hdrop seg₁ w₁ hread₁ hheld₁ fun hup => ?_
      exact hup.2.eq hflush rfl
    | some e =>
      obtain ⟨file₁, hlocal₁, hopen₁, hdata₁⟩ := hread₁.localFile
      simp only at hlocal₁
      simp only [hlocal₁, returns_pure]
      refine fun _ => iff_of_true ?_ ⟨hdirty, _, _, hflush, by simp⟩
      refine Readable.reads hquiet.reliable ⟨hread₁.backed, ?_, hread₁.le_length⟩
      exact ⟨file₁, hlocal₁, hopen₁, hdata₁⟩
  · exact hdrop seg w h rfl fun hup => hdirty hup.1

/-! ## A segment in memory -/

/-- One call fails, at one time. -/
def failingAt (call : OsCall) (time : ℕ) : Env :=
  { quietEnv with fault := fun c t => if c = call ∧ t = time then some 0 else none }

/-- Segments of one byte, with a cache that persists. -/
def persistent (env : Env) : StoreParams MemStore :=
  ⟨memContainer ['c'], 1, true, true, none, env⟩

/-- A segment with a write that is not uploaded. -/
def unsaved : Segment MemStore := ⟨0, some ⟨['f'], false⟩, none, true, true, 0, 1⟩

/-- Its file. -/
def unsavedWorld : World MemStore :=
  { ObjRun.emptyWorld with files := fun n => if n = ['f'] then some [7] else none }

theorem reads_after_failed_delete_iff_put :
    Returns (unsaved.deleteFile (persistent (failingAt .put 2))) unsavedWorld fun r w' =>
      r.2.isSome = true ∧ r.1.Reads (persistent quietEnv) w' [7] := by
  have hfails : Returns (unsaved.deleteFile (persistent (failingAt .put 2))) unsavedWorld
      fun r _ => r.2.isSome = true := returns_of_check (by decide +kernel)
  have hupload : Returns (unsaved.flush (persistent (failingAt .put 2)) false) unsavedWorld
      fun r _ => r.2.isSome = true := returns_of_check (by decide +kernel)
  have hread := reads_after_failed_delete_iff (persistent (failingAt .put 2)) (by decide) quietEnv
    faultless_quietEnv unsavedWorld unsaved [7] ⟨rfl, ⟨_, rfl, rfl, by decide⟩, le_rfl⟩ (by decide)
  refine (hfails.and_yields hread.yields).mono fun r w' h => ⟨h.1, ?_⟩
  refine (h.2 (Option.isSome_iff_ne_none.mp h.1)).mpr ⟨rfl, hupload.mono fun _ _ h' => ?_⟩
  exact Option.isSome_iff_ne_none.mp h'

/-- The error of a `DeleteFile`, and the error of a fault-free read after it. -/
def readAfterDelete (env : Env) : Option (Bool × Option GoError) :=
  match unsaved.deleteFile (persistent env) unsavedWorld with
  | .ok ((seg, err), w) =>
    match seg.readAt (persistent quietEnv) [0] 0 w with
    | .ok ((_, _, _, readErr), _) => some (err.isSome, readErr)
    | .error _ => none
  | .error _ => none

/-- The upload has gone well.  Whether it is the handle that does not close, the data file that
cannot be removed or the ETag file: the next read finds the handle closed. -/
theorem closed_after_failed_delete :
    readAfterDelete (failingAt .close 4) = some (true, some osErrClosed) ∧
    readAfterDelete (failingAt .remove 5) = some (true, some osErrClosed) ∧
    readAfterDelete (failingAt .remove 6) = some (true, some osErrClosed) := by
  refine ⟨?_, ?_, ?_⟩ <;> decide +kernel

end Segment
end Usbd
