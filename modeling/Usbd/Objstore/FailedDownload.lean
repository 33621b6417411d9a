import Usbd.Objstore.Permits

/-!
# What a failed download leaves behind

`downloadFile` cleans up in a deferred closure that closes and removes the file of its named result
`file`.  Every error exit is a `return nil, err`, which has cleared that result by the time the
closure runs.  Up to `os.Create` there is nothing to clean up, and a call that fails there leaves
nothing.  Behind it every exit — the object cannot be opened, the copy breaks off, the object has
too many bytes or too few — leaves the file in the cache directory and its handle open.

So a failed call is clean exactly when it did not come as far as creating its file
(`failed_download_clean_iff`).
-/

namespace Usbd

open ListMemory Prog

variable {σ α β : Type} {sp : StoreParams σ} {w w' : World σ}

/-! ## What is left -/

/-- From `w` to `w'` no handle was opened or closed, and files were at most removed. -/
structure LeavesNothing (w w' : World σ) : Prop where
  openFiles : w'.openFiles = w.openFiles
  files : ∀ name data, w'.files name = some data → w.files name = some data

/-- From `w` to `w'` one handle was opened, and there is a file behind it. -/
structure LeavesFile (name : GoString) (w w' : World σ) : Prop where
  openFiles : w'.openFiles = name :: w.openFiles
  file : ∃ data, w'.files name = some data

lemma LeavesFile.not_leavesNothing {name : GoString} (h : LeavesFile name w w') :
    ¬ LeavesNothing w w' := by
  intro hnothing
  have hself : name :: w.openFiles = w.openFiles := h.openFiles.symm.trans hnothing.openFiles
  exact List.cons_ne_self name w.openFiles hself

lemma Clears.leavesNothing {name : GoString} (h : Clears name w w')
    (hopen : w'.openFiles = w.openFiles) : LeavesNothing w w' := by
  -- a file that is still there is the file that was there
  have hkept : ∀ n, w'.files n = w.files n ∨ w'.files n = none := by
    intro n
    by_cases hdata : n = name
    · rw [hdata]
      exact h.data
    by_cases hetag : n = eTagFileName name
    · rw [hetag]
      exact h.etag
    exact .inl (h.files n hdata hetag)
  refine ⟨hopen, fun n data hn => ?_⟩
  rcases hkept n with heq | hgone
  · rw [← heq, hn]
  · rw [hgone] at hn
    cases hn

/-! ## Programs that open and close nothing -/

/-- The same handles are open. -/
def SameHandles (w w' : World σ) : Prop := w'.openFiles = w.openFiles

instance : FreeOfFiles (@SameHandles σ) where
  refl _ := rfl
  trans _ _ _ h h' := Eq.trans h' h
  files _ _ _ := rfl

namespace StoreParams

lemma sameHandles_copyDownload (sp : StoreParams σ) (file : File) (src : Reader) :
    Follows SameHandles (sp.copyDownload file src) := by
  refine .ite ((follows_writeAt ..).bind fun r => ?_)
    ((follows_syscall ..).bind fun fault => ?_)
  · obtain ⟨n, err⟩ := r
    cases err <;> exact follows_pure _
  · cases fault <;> exact (follows_setFile ..).bind fun _ => follows_pure _

lemma cachedFile_leaves (sp : StoreParams σ) (item : Item σ) (fpath : GoString) (remoteSize : ℕ)
    (w : World σ) :
    Returns (sp.cachedFile item fpath remoteSize) w fun r w' =>
      (∃ file, r = .ok (some file)) ∨ LeavesNothing w w' := by
  have hfound : Yields (sp.cachedFile item fpath remoteSize) w (Found item fpath remoteSize w) :=
    (cachedFile_found item fpath remoteSize).yields
  have hhandles := sp.cachedFile_follows (R := SameHandles) item fpath remoteSize w
  refine (hhandles.and_yields hfound).mono fun r w' h => ?_
  obtain ⟨⟨w₁, h₁, ⟨-, rfl⟩ | ⟨rfl, -⟩⟩, hfound⟩ := h
  · exact .inr (hfound.clears.leavesNothing h₁)
  · exact .inl ⟨_, rfl⟩

/-! ## Downloads -/

/-- `download` comes as far as creating its file: the object has the size of a segment, the cache
has no copy of it, and `os.Create` succeeds. -/
def CreatesDownload (sp : StoreParams σ) (item : Item σ) (w : World σ) : Prop :=
  sp.segmentBytes ≠ 0 ∧ item.size w.store = .ok sp.segmentBytes ∧
    Returns (sp.cachedFile item item.name sp.segmentBytes) w fun r w₁ =>
      r = .ok none ∧ sp.env.fault .create w₁.tick = none

lemma copyDownload_file {file : File} (hopen : file.closed = false) (src : Reader) :
    Returns (sp.copyDownload file src) w fun _ w' => ∃ data, w'.files file.name = some data := by
  unfold copyDownload
  split_ifs
  · simp only [File.writeAt, hopen, Bool.false_eq_true, if_false, returns_bind, returns_syscall,
      returns_get, returns_setFile, returns_pure]
    split <;> exact (returns_pure _).mpr ⟨_, Function.update_self ..⟩
  · simp only [returns_bind, returns_syscall]
    split <;>
      simp only [returns_bind, returns_setFile, returns_pure] <;>
      exact ⟨_, Function.update_self ..⟩

/-- Behind `os.Create` there is the file and its handle, whichever way the download ends. -/
lemma fetch_leavesFile (item : Item σ) {name : GoString} {w₁ : World σ}
    (h₁ : LeavesFile name w w₁) :
    Returns (sp.fetch item ⟨name, false⟩) w₁ fun _ w' => LeavesFile name w w' := by
  simp only [fetch, returns_bind, returns_get]
  cases item.openItem w₁.store with
  | error e => exact (returns_pure _).mpr h₁
  | ok data =>
    simp only [returns_bind]
    have hcopy := sp.sameHandles_copyDownload ⟨name, false⟩ (data.limit (sp.segmentBytes + 1))
    have hboth := (copyDownload_file rfl _).and_yields (hcopy.returns w₁).yields
    refine hboth.mono fun r w₂ h₂ => ?_
    obtain ⟨n, err⟩ := r
    have hleft : LeavesFile name w w₂ := ⟨h₂.2.trans h₁.openFiles, h₂.1⟩
    cases err with
    | some e => exact (returns_pure _).mpr hleft
    | none =>
      simp only [ne_eq, ite_not]
      split_ifs <;> exact (returns_pure _).mpr hleft

/-- A failing `download` leaves its file exactly if it created it. -/
lemma download_leaves (item : Item σ) : Returns (sp.download item) w fun r w' =>
    ∀ e, r = .error e → sp.CreatesDownload item w ∧ LeavesFile item.name w w' ∨
      ¬ sp.CreatesDownload item w ∧ LeavesNothing w w' := by
  have hrefl : LeavesNothing w w := ⟨rfl, fun _ _ h => h⟩
  simp only [download, returns_bind, returns_get]
  cases hsize : item.size w.store with
  | error e =>
    refine (returns_pure _).mpr fun _ _ => .inr ⟨fun hc => ?_, hrefl⟩
    cases hsize.symm.trans hc.2.1
  | ok remoteSize =>
    simp only
    split_ifs with hzero hother
    · exact (returns_pure _).mpr (by simp)
    · refine (returns_pure _).mpr fun _ _ => .inr ⟨fun hc => hother ?_, hrefl⟩
      exact Except.ok.inj (hsize.symm.trans hc.2.1)
    · have hpos : sp.segmentBytes ≠ 0 := by omega
      rw [not_not.mp hother] at hsize
      obtain ⟨r, w₁, hcached, h₁⟩ := sp.cachedFile_leaves item item.name sp.segmentBytes w
      have hcreates : sp.CreatesDownload item w ↔
          r = .ok none ∧ sp.env.fault .create w₁.tick = none := by
        constructor
        · intro hc
          exact hc.2.2.eq hcached
        · intro hc
          exact ⟨hpos, hsize, r, w₁, hcached, hc⟩
      rw [returns_bind]
      refine ⟨r, w₁, hcached, ?_⟩
      -- only a download into a new file leaves something behind
      rcases r with e | (_ | file)
      · have hnothing : LeavesNothing w w₁ := h₁.resolve_left (by simp)
        exact (returns_pure _).mpr fun _ _ => .inr ⟨by simp [hcreates], hnothing⟩
      · have hnothing : LeavesNothing w w₁ := h₁.resolve_left (by simp)
        simp only [osCreate, returns_bind, returns_syscall]
        split_ifs with hfault
        · simp only [returns_bind, returns_setFile, returns_modify]
          have hcreated : LeavesFile item.name w
              { w₁ with
                files := Function.update w₁.files item.name (some [])
                openFiles := item.name :: w₁.openFiles
                tick := w₁.tick + 1 } :=
            ⟨congrArg (item.name :: ·) hnothing.openFiles, [], Function.update_self ..⟩
          refine (returns_pure _).mpr ((fetch_leavesFile item hcreated).mono fun r w₂ h₂ _ _ => ?_)
          exact .inl ⟨hcreates.mpr ⟨rfl, hfault⟩, h₂⟩
        · simp only [returns_pure]
          exact fun _ _ => .inr ⟨by simp [hcreates, hfault], hnothing.openFiles, hnothing.files⟩
      · exact (returns_pure _).mpr (by simp)

/-- `downloadFile` comes as far as creating its file, behind its permit. -/
def CreatesFileFor (sp : StoreParams σ) (item : Item σ) (w : World σ) : Prop :=
  sp.Room w ∧ sp.CreatesDownload item { w with held := w.held + sp.permit }

lemma downloadFile_leaves (item : Item σ) : Yields (sp.downloadFile item) w fun r w' =>
    ∀ e, r = .error e → sp.CreatesFileFor item w ∧ LeavesFile item.name w w' ∨
      ¬ sp.CreatesFileFor item w ∧ LeavesNothing w w' := by
  rw [downloadFile, yields_bind]
  by_cases hroom : sp.Room w
  · refine (claimCapacity_room hroom).yields.mono fun r w₁ h₁ => ?_
    obtain ⟨rfl, rfl⟩ := h₁
    rw [yields_bind]
    refine (download_leaves item).yields.mono fun r w₂ h₂ => ?_
    cases r with
    | ok file => exact (yields_pure _).mpr (by simp)
    | error e =>
      rw [yields_bind]
      refine releaseCapacity_held.mono fun _ w₃ h₃ => (yields_pure _).mpr fun _ _ => ?_
      obtain ⟨held, -, rfl⟩ := h₃
      rcases h₂ e rfl with ⟨hc, hleft⟩ | ⟨hc, hleft⟩
      · exact .inl ⟨⟨hroom, hc⟩, hleft.openFiles, hleft.file⟩
      · exact .inr ⟨fun h => hc h.2, hleft.openFiles, hleft.files⟩
  · obtain ⟨permits, hq, hle⟩ := not_room_iff.mp hroom
    refine (claimCapacity_of_full hq hle).yields.mono fun r w₁ h₁ => ?_
    obtain ⟨rfl, rfl⟩ := h₁
    exact (yields_pure _).mpr fun _ _ => .inr ⟨fun h => hroom h.1, rfl, fun _ _ h => h⟩

end StoreParams

/-- A call of `downloadFile` that fails leaves nothing behind exactly if it fails before it has
created its file.  If it has, the file and its open handle stay. -/
theorem failed_download_clean_iff (sp : StoreParams σ) (item : Item σ) (w w' : World σ)
    (e : GoError) (h : sp.downloadFile item w = .ok (.error e, w')) :
    (LeavesNothing w w' ↔ ¬ sp.CreatesFileFor item w) ∧
      (sp.CreatesFileFor item w → LeavesFile item.name w w') := by
  rcases StoreParams.downloadFile_leaves item _ _ h e rfl with ⟨hc, hfile⟩ | ⟨hc, hnothing⟩
  · exact ⟨by simp [hc, hfile.not_leavesNothing], fun _ => hfile⟩
  · exact ⟨by simp [hc, hnothing], fun h => absurd h hc⟩

/-! ### The four exits -/

/-- An object that is listed with two bytes, and what opening it comes to. -/
def listedTwoBytes (opened : Except GoError Reader) : Item Unit where
  name := ['a']
  size _ := .ok 2
  openItem _ := opened
  etag _ := .ok []
  metadata _ := .ok .nil

/-- Segments of two bytes, in a container that takes no objects. -/
def readOnly : StoreParams Unit where
  container := ⟨['c'], fun _ _ _ _ => .ok ([], []), fun _ _ _ _ st => (.error errInputOutput, st)⟩
  segmentBytes := 2
  thickProvision := true
  persistCache := true
  quotaSema := some 1
  env := quietEnv

/-- A cache directory without files. -/
def emptyCache : World Unit := ⟨(), fun _ => none, 0, [], 0⟩

/-- The error of a download, with the file and the handles it leaves. -/
def downloadLeft (opened : Except GoError Reader) :
    Option (GoError × Option Bytes × List GoString) :=
  match readOnly.downloadFile (listedTwoBytes opened) emptyCache with
  | .ok (.error e, w') => some (e, w'.files ['a'], w'.openFiles)
  | _ => none

/-- An object that cannot be opened. -/
theorem failed_download_clean_iff_unopened :
    ∃ e w', readOnly.downloadFile (listedTwoBytes (.error errInputOutput)) emptyCache =
        .ok (.error e, w') ∧
      (LeavesNothing emptyCache w' ↔
        ¬ readOnly.CreatesFileFor (listedTwoBytes (.error errInputOutput)) emptyCache) ∧
      (readOnly.CreatesFileFor (listedTwoBytes (.error errInputOutput)) emptyCache →
        LeavesFile ['a'] emptyCache w') :=
  ⟨_, _, rfl, failed_download_clean_iff _ _ _ _ _ rfl⟩

/-- The object cannot be opened, its stream breaks off, it has a byte too many and a byte too few:
each time the file is still there, and open. -/
theorem failed_download_leaves_file :
    downloadLeft (.error errInputOutput) =
        some (.wrap "Could not open for downloading" errInputOutput, some [], [['a']]) ∧
      downloadLeft (.ok ⟨[7], some errInputOutput⟩) =
        some (.wrap "Could not download" errInputOutput, some [7], [['a']]) ∧
      downloadLeft (.ok ⟨[7, 8, 9], none⟩) =
        some (.new "contained more than the expected bytes of data", some [7, 8, 9], [['a']]) ∧
      downloadLeft (.ok ⟨[7], none⟩) =
        some (.new "Store download was wrong size", some [7], [['a']]) := by
  exact ⟨rfl, rfl, rfl, rfl⟩

end Usbd
