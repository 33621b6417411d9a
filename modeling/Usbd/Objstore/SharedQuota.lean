import Usbd.Objstore.Links
import Usbd.Objstore.Permits

/-!
# The quota under concurrency

`applyOpts` turns the quota in bytes into permits, and every segment with a local file has taken
one.  Permits can be lost: a file that is not created keeps its own.  They are never made up: a
section of a segment's call that gains a local file has found a permit free, and one that gives a
permit back has given its file up.  So there are never more local files than the quota allows,
whatever fails and however the goroutines take turns.
-/

namespace Usbd

open ListMemory Prog

variable {σ : Type}

/-! ## Sections -/

/-- The permit of a segment's local file. -/
def Segment.occupies (sp : StoreParams σ) (seg : Segment σ) : ℕ :=
  if seg.localFile.isSome then sp.permit else 0

/-- What a section does to the permits: it makes none up, and takes none beyond the quota. -/
structure Spends (sp : StoreParams σ) (w : World σ) (seg : Segment σ) (w' : World σ)
    (seg' : Segment σ) : Prop where
  kept : w.held + seg'.occupies sp ≤ w'.held + seg.occupies sp
  cap : ∀ permits, sp.quotaSema = some permits → w.held ≤ permits → w'.held ≤ permits

namespace Spends

variable {sp : StoreParams σ} {w w' w₁ : World σ} {seg seg' seg₁ : Segment σ}

lemma of_same (hheld : w'.held = w.held) (hlocal : seg'.localFile.isSome = seg.localFile.isSome) :
    Spends sp w seg w' seg' := by
  refine ⟨?_, fun _ _ h => hheld ▸ h⟩
  rw [hheld, Segment.occupies, Segment.occupies, hlocal]

lemma trans (h : Spends sp w seg w₁ seg₁) (h' : Spends sp w₁ seg₁ w' seg') :
    Spends sp w seg w' seg' := by
  refine ⟨?_, fun permits hq hle => h'.cap permits hq (h.cap permits hq hle)⟩
  have := h.kept
  have := h'.kept
  omega

/-- A permit is taken where there is room for it. -/
lemma of_claim (hroom : sp.Room w) (hheld : w'.held = w.held + sp.permit) :
    Spends sp w seg w' seg' := by
  refine ⟨?_, fun permits hq _ => ?_⟩
  · have : seg'.occupies sp ≤ sp.permit := by
      unfold Segment.occupies
      split_ifs <;> omega
    omega
  · have := hroom permits hq
    have : sp.permit = 1 := by simp [StoreParams.permit, hq]
    omega

end Spends

section Sections

variable {sp : StoreParams σ} {w w' : World σ} {c : Cell σ} {t : ℕ} {seg : Segment σ}

lemma Segment.Loaded.spends {createWrite : Bool} {r : Segment σ × Except GoError (Option File)}
    (h : Segment.Loaded sp w seg createWrite r w') : Spends sp w seg w' r.1 := by
  cases h with
  | same _ _ _ hheld => exact .of_same hheld rfl
  | file _ _ hroom _ _ hheld => exact .of_claim hroom hheld
  | hollow hhollow _ hheld =>
    have hroom : sp.Room w := by
      by_contra hno
      exact hhollow fun _ h => absurd h hno
    exact .of_claim hroom hheld
  | leaked hleaks _ hheld =>
    simp only [Segment.CreatesFile, Classical.not_imp] at hleaks
    obtain ⟨-, hroom, -, -, hsome, -⟩ := hleaks
    refine .of_claim hroom ?_
    rw [hheld, StoreParams.permit, if_pos hsome]

lemma readLoaded_spends (buf : Bytes) (pos : ℤ) :
    Yields (seg.readLoaded sp buf pos) w fun r w' => Spends sp w seg w' r.1 := by
  refine Segment.yields_readLoaded ((Segment.loadFile_loaded false).yields.mono fun r w₁ h₁ => ?_)
  refine ⟨fun _ _ => h₁.spends, fun _ _ _ _ => h₁.spends, fun file _ => ?_⟩
  refine (Calm.held (calm_readAt ..) w₁).yields.mono fun _ w₂ h₂ => ?_
  exact h₁.spends.trans (.of_same h₂ rfl)

lemma writeLoaded_spends (buf : Bytes) (pos : ℤ) :
    Yields (seg.writeLoaded sp buf pos) w fun r w' => Spends sp w seg w' r.1 := by
  simp only [Segment.writeLoaded, yields_bind]
  refine (Segment.loadFile_loaded true).yields.mono fun r w₁ h₁ => ?_
  have hload := h₁.spends
  obtain ⟨seg₁, e | (_ | file)⟩ := r
  · exact (yields_pure _).mpr hload
  · exact (yields_pure _).mpr hload
  · simp only [yields_bind, yields_pure]
    refine (Calm.held (calm_writeAt ..) w₁).yields.mono fun _ w₂ h₂ => ?_
    exact hload.trans (.of_same h₂ rfl)

/-- The permit goes with the file. -/
lemma dropFile_spends : Yields (seg.dropFile sp) w fun r w' => Spends sp w seg w' r.1 := by
  unfold Segment.dropFile
  cases hlocal : seg.localFile with
  | none => exact yields_stop _
  | some file =>
    simp only [yields_bind]
    refine (Calm.held (sp.calm_removeFile file) w).yields.mono fun r w₁ h₁ => ?_
    obtain ⟨file₁, e | err⟩ := r
    · simp only [yields_bind]
      refine StoreParams.releaseCapacity_held.mono fun _ w₂ h₂ => ?_
      obtain ⟨held, hheld, rfl⟩ := h₂
      rw [yields_pure]
      refine ⟨?_, fun permits hq hle => by simp only; omega⟩
      simp only [Segment.occupies, hlocal, Option.isSome_none, Option.isSome_some, if_true,
        Bool.false_eq_true, if_false]
      omega
    · exact (yields_pure _).mpr (.of_same h₁ (by simp [hlocal]))

lemma upload_held (segID : GoString) (src : Reader) :
    Returns (sp.upload segID src) w fun _ w' => w'.held = w.held := by
  simp only [StoreParams.upload, returns_bind, returns_syscall, returns_get]
  cases sp.env.fault .put w.tick with
  | some stored => simp
  | none =>
    simp only [returns_bind, returns_modify]
    cases (sp.container.put (sp.itemName segID) src sp.segmentBytes .nil w.store).1 <;> simp

lemma snapshot_spends (errand : Errand) (file : File) :
    Yields (c.snapshot sp t errand file) w fun c' w' => Spends sp w c.seg w' c'.seg := by
  simp only [Cell.snapshot, yields_bind]
  refine (Calm.held (sp.calm_prepare file errand.buffered) w).yields.mono fun r w₁ h₁ => ?_
  cases r with
  | error e => exact (yields_pure _).mpr (.of_same h₁ rfl)
  | ok src => exact (yields_pure _).mpr (.of_same h₁ rfl)

lemma drop_spends : Yields (c.drop sp t) w fun c' w' => Spends sp w c.seg w' c'.seg := by
  simp only [Cell.drop, yields_bind, yields_pure]
  exact dropFile_spends

lemma finish_spends (errand : Errand) (file : File) (item : Except GoError (Item σ)) :
    Yields (c.finish sp t errand file item) w fun c' w' => Spends sp w c.seg w' c'.seg := by
  cases item with
  | error e => exact (yields_pure _).mpr (.of_same rfl rfl)
  | ok item =>
    simp only [Cell.finish, yields_bind]
    refine (Calm.held (sp.calm_finishSync file item) w).yields.mono fun r w₁ h₁ => ?_
    cases r with
    | some e => exact (yields_pure _).mpr (.of_same h₁ rfl)
    | none =>
      cases errand with
      | flush buffered => exact (yields_pure _).mpr (.of_same h₁ rfl)
      | evict =>
        refine drop_spends.mono fun c' w' hdrop => Spends.trans ?_ hdrop
        exact .of_same h₁ rfl

/-- **No section makes a permit up**, in any environment and with any container. -/
lemma next_spends {m : Go σ (Cell σ)} (hnext : c.next sp t = some m) :
    Yields m w fun c' w' => Spends sp w c.seg w' c'.seg := by
  have htick : Yields (timeNow sp.env : Go σ ℤ) w fun _ w₁ => w₁.held = w.held :=
    (returns_timeNow.mpr rfl : Returns _ _ _).yields
  obtain ⟨p, -, hsection⟩ := Cell.next_section hnext
  cases hsection with
  | @startRead buf pos _ =>
    simp only [Cell.startRead, yields_bind]
    refine htick.mono fun now w₁ h₁ => ?_
    split_ifs
    · exact (yields_pure _).mpr (.of_same h₁ rfl)
    · simp only [Cell.read, yields_bind, yields_pure]
      refine (readLoaded_spends buf pos).mono fun r w₂ h₂ => Spends.trans ?_ h₂
      exact .of_same h₁ rfl
  | @startWrite buf pos _ =>
    simp only [Cell.startWrite, yields_bind]
    refine htick.mono fun now w₁ h₁ => ?_
    split_ifs <;> exact (yields_pure _).mpr (.of_same h₁ rfl)
  | startFlush => exact (yields_pure _).mpr (.of_same rfl rfl)
  | delete _ =>
    unfold Cell.delete
    -- the permit is given back with the file, in this section or behind the upload
    split_ifs
    · cases c.seg.localFile with
      | none => exact yields_stop _
      | some file => exact snapshot_spends .evict file
    · exact drop_spends
    · exact (yields_pure _).mpr (.of_same rfl rfl)
  | @read buf pos _ =>
    simp only [Cell.read, yields_bind, yields_pure]
    exact readLoaded_spends buf pos
  | @write buf pos _ =>
    simp only [Cell.write, yields_bind, yields_pure]
    exact writeLoaded_spends buf pos
  | @rLock buffered _ =>
    refine (yields_pure _).mpr (.of_same rfl ?_)
    unfold Cell.rLock
    split <;> rfl
  | @snapshot buffered file _ => exact snapshot_spends _ file
  | @send errand file src =>
    simp only [Cell.send, yields_bind, yields_pure]
    exact (upload_held _ src).yields.mono fun _ w₁ h₁ => .of_same h₁ rfl
  | @finish errand file item => exact finish_spends errand file item

end Sections

/-! ## Runs -/

/-- There are so many segments, every local file has a permit, and no more are held than there
are. -/
structure Within (sp : StoreParams σ) (count : ℕ) (s : DevState σ) : Prop where
  length_eq : s.cells.length = count
  occupied : (s.cells.map fun c => c.seg.occupies sp).sum ≤ s.world.held
  cap : ∀ permits, sp.quotaSema = some permits → s.world.held ≤ permits

namespace Within

variable {sp : StoreParams σ} {totalBytes concurFlush count : ℕ} {s s' : DevState σ}

lemma step {e : DevEvent} (h : Within sp count s) (hstep : s.step sp concurFlush e = some s') :
    Within sp count s' := by
  rcases (DevState.step_stepped hstep).cells with ⟨hcells, hworld⟩ | ⟨i, ce, c, c', hsteps⟩
  · obtain ⟨hlen, hoccupied, hcap⟩ := h
    rw [← hcells] at hlen
    rw [← hcells, ← hworld] at hoccupied
    rw [← hworld] at hcap
    exact ⟨hlen, hoccupied, hcap⟩
  · have hspends : Spends sp s.world c.seg s'.world c'.seg := by
      have hce := hsteps.step
      cases ce with
      | call t call =>
        obtain ⟨rfl, hworld⟩ := Prod.mk.inj (Cell.step_call hce).2
        exact .of_same (by rw [hworld]) rfl
      | ret t =>
        obtain ⟨res, -, hnew⟩ := Cell.step_ret hce
        obtain ⟨rfl, hworld⟩ := Prod.mk.inj hnew
        exact .of_same (by rw [hworld]) rfl
      | move t =>
        obtain ⟨m, hm, hrun⟩ := Cell.step_move hce
        exact next_spends hm c' s'.world hrun
    refine ⟨by rw [hsteps.cells, List.length_set, h.length_eq], ?_,
      fun permits hq => hspends.cap permits hq (h.cap permits hq)⟩
    have hsum := sum_map_set (fun c : Cell σ => c.seg.occupies sp) hsteps.cell c'
    have := hspends.kept
    have := h.occupied
    rw [hsteps.cells]
    omega

lemma use {u u' : DevUse σ} {e : UseEvent} (h : Within sp count u.dev)
    (hstep : u.step sp totalBytes concurFlush e = some u') : Within sp count u'.dev := by
  rcases DevUse.step_dev hstep with hsame | ⟨de, hdev⟩
  · rwa [hsame]
  · exact h.step hdev

lemma run {u u' : DevUse σ} {es : List UseEvent} (h : Within sp count u.dev)
    (hrun : Machine.run (DevUse.step sp totalBytes concurFlush) u es = some u') :
    Within sp count u'.dev := by
  have hkeeps : ∀ (u : DevUse σ) e u', Within sp count u.dev →
      u.step sp totalBytes concurFlush e = some u' → Within sp count u'.dev :=
    fun _ _ _ h hstep => h.use hstep
  exact (Machine.invariant hkeeps h hrun :)

/-- Every local file counts. -/
lemma countP_le (h : Within sp count s) {permits : ℕ} (hq : sp.quotaSema = some permits) :
    (s.cells.countP fun c => c.seg.localFile.isSome) ≤ permits := by
  have hsum : ∀ cells : List (Cell σ), (cells.map fun c => c.seg.occupies sp).sum =
      cells.countP fun c => c.seg.localFile.isSome := by
    intro cells
    induction cells with
    | nil => rfl
    | cons c cells ih =>
      rw [List.map_cons, List.sum_cons, ih, List.countP_cons, Nat.add_comm, Segment.occupies,
        StoreParams.permit, hq]
      rfl
  rw [← hsum]
  exact h.occupied.trans (h.cap permits hq)

end Within

/-- **Local files stay within the quota.**  On a device opened over any container, in any
environment and under any interleaving of its clients and flushes, the segments that have a local
file are never more bytes than the quota. -/
theorem local_files_within_quota (s : ObjSetup σ) (w₀ w : World σ) (dev : ObjDevice σ)
    (hopen : s.newDevice w₀ = .ok (.ok dev, w)) (hmax : s.totalBytes ≤ maxOffset)
    (hquota : 0 < s.opts.quotaBytes) (es : List UseEvent) (u : DevUse σ)
    (hrun : Machine.run (DevUse.step dev.params dev.totalBytes dev.concurFlush)
      (.new dev.segments w) es = some u) :
    ((u.dev.cells.countP fun c => c.seg.localFile.isSome) * s.objectBytes : ℤ) ≤
      s.opts.quotaBytes := by
  have hg := ObjSetup.gives_of_newDevice hopen hmax
  obtain ⟨hload, -, -⟩ := ObjSetup.loadSegments_of_newDevice hopen hg
  obtain ⟨hworld, hsegs⟩ := loadSegments_forall (P := fun seg => seg.localFile = none)
    (fun _ => rfl) (fun _ _ _ _ h => h) s.totalBytes _ _ hload
  obtain ⟨hlen, hnone⟩ := hsegs _ rfl
  have hend : Within dev.params dev.segments.length u.dev := by
    refine Within.run (u := .new dev.segments w) ⟨by simp [DevUse.new, DevState.new], ?_,
      fun _ _ => by simp [DevUse.new, DevState.new, hworld]⟩ hrun
    rw [List.sum_eq_zero]
    · exact Nat.zero_le _
    · intro n hn
      obtain ⟨c, hc, rfl⟩ := List.mem_map.mp hn
      obtain ⟨seg, hseg, rfl⟩ := List.mem_map.mp hc
      simp [Segment.occupies, Cell.new, hnone seg hseg]
  have hquotaSema := hg.quota
  rw [quotaPermits, if_pos hquota] at hquotaSema
  split_ifs at hquotaSema with hsmall hless
  · -- a quota smaller than the device is a number of permits
    have hcount := hend.countP_le (Except.ok.inj hquotaSema).symm
    have hmul := (Nat.mul_le_mul_right s.objectBytes hcount).trans (Nat.div_mul_le_self _ _)
    omega
  · -- a larger one has room for all segments
    have hcount := (List.countP_le_length (p := fun c : Cell σ => c.seg.localFile.isSome)
      (l := u.dev.cells)).trans_eq (hend.length_eq.trans hlen)
    rw [hg.segmentBytes_eq] at hcount
    have hmul := (Nat.mul_le_mul_right s.objectBytes hcount).trans (Nat.div_mul_le_self _ _)
    omega

/-- Two clients and room for one of two segments.  Both are in a segment when the first takes the
permit and goes on to the other segment, for which it has to evict the one it has written. -/
def crowded : List UseEvent :=
  [.call 0 (.writeAt [1, 5] 0), .call 1 (.writeAt [2] 1), .advance 0, .advance 1, .advance 0,
    .advance 0, .advance 0, .advance 1, .advance 1] ++ List.replicate 25 (.advance 0) ++ [.ret 0] ++
    List.replicate 4 (.advance 1)

theorem local_files_within_quota_crowded : ∃ u,
    Machine.run (DevUse.step (ObjRun.memTwo false).dev.params 2 1)
      (.new (ObjRun.memTwo false).dev.segments ObjRun.emptyWorld) crowded = some u ∧
    ((u.dev.cells.countP fun c => c.seg.localFile.isSome) * (1 : ℕ) : ℤ) ≤ 1 := by
  have hends : (Machine.run (DevUse.step (ObjRun.memTwo false).dev.params 2 1)
      (.new (ObjRun.memTwo false).dev.segments ObjRun.emptyWorld) crowded).isSome = true := by
    decide +kernel
  obtain ⟨u, hrun⟩ := Option.isSome_iff_exists.mp hends
  exact ⟨u, hrun, local_files_within_quota (ObjRun.memSetup 2 1 1 false) ObjRun.emptyWorld
    ObjRun.emptyWorld (ObjRun.memTwo false).dev rfl (by decide) (by decide) crowded u hrun⟩

end Usbd
