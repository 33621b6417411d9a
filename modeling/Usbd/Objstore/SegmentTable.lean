import Usbd.Objstore.Permits

/-!
# Runs of a table of segments

The segments of a device and the world they share, under any sequence of their calls, in any
environment and with any container.

* A download that fails gives its permit back and a creation that fails does not, so that a few
  failed writes can use the quota up with no segment backed (`failed_load_held_iff`).
* The flags, the local files and the permits agree in every state of a run exactly when none of its
  loads meets an object of no bytes or fails to create its file (`sound_iff_careful`).
-/

namespace Usbd

open ListMemory Prog

variable {σ : Type} {sp : StoreParams σ} {w w' : World σ} {seg : Segment σ}

/-! ## Tables of segments -/

/-- Segments and the world they share, and the places of those a `DeleteFile` has failed on. -/
structure SegTable (σ : Type) where
  segments : List (Segment σ)
  world : World σ
  failed : List ℕ

namespace SegTable

def step (sp : StoreParams σ) (t : SegTable σ) (e : ℕ × Segment.Call) : Option (SegTable σ) :=
  t.segments[e.1]?.bind fun seg =>
    match seg.exec sp e.2 t.world with
    | .error _ => none
    | .ok ((seg', err), w') => some
        ⟨t.segments.set e.1 seg', w',
          if e.2 = .deleteFile ∧ err ≠ none then e.1 :: t.failed else t.failed⟩

/-- The flags of the segments say what there is, and there is a permit held for each backed one. -/
structure Sound (sp : StoreParams σ) (t : SegTable σ) : Prop where
  rep : ∀ seg ∈ t.segments, seg.Rep
  held_eq : t.world.held = (t.segments.map (Segment.holding sp)).sum

/-- Every local file is open but where a `DeleteFile` has failed. -/
def Opened (t : SegTable σ) : Prop :=
  ∀ i seg file, t.segments[i]? = some seg → seg.localFile = some file → file.closed = true →
    i ∈ t.failed

/-- A condition on a call and the segment it is made on. -/
def Meets (cond : World σ → Segment σ → Segment.Call → Prop) (t : SegTable σ)
    (e : ℕ × Segment.Call) : Prop :=
  t.segments[e.1]?.elim True fun seg => cond t.world seg e.2

instance (cond : World σ → Segment σ → Segment.Call → Prop)
    [∀ w seg call, Decidable (cond w seg call)]
    (t : SegTable σ) (e : ℕ × Segment.Call) : Decidable (t.Meets cond e) :=
  match h : t.segments[e.1]? with
  | none => isTrue (by simp [Meets, h])
  | some seg => decidable_of_iff (cond t.world seg e.2) (by simp [Meets, h])

variable {t t' : SegTable σ} {e : ℕ × Segment.Call}

lemma step_eq_some (h : t.step sp e = some t') : ∃ seg seg' err,
    t.segments[e.1]? = some seg ∧ seg.exec sp e.2 t.world = .ok ((seg', err), t'.world) ∧
      t'.segments = t.segments.set e.1 seg' ∧
      t'.failed = if e.2 = .deleteFile ∧ err ≠ none then e.1 :: t.failed else t.failed := by
  obtain ⟨seg, hseg, h⟩ := Option.bind_eq_some_iff.mp h
  cases hexec : seg.exec sp e.2 t.world with
  | error stop => simp [hexec] at h
  | ok r =>
    obtain ⟨⟨seg', err⟩, w'⟩ := r
    simp only [hexec, Option.some.injEq] at h
    subst h
    exact ⟨seg, seg', err, hseg, hexec, rfl, rfl⟩

lemma Sound.holding_le (h : t.Sound sp) {i : ℕ} (hseg : t.segments[i]? = some seg) :
    seg.holding sp ≤ t.world.held :=
  h.held_eq ▸ List.le_sum_of_mem (List.mem_map_of_mem (List.mem_of_getElem? hseg))

/-- **One step**: it keeps the table sound when it is careful and not otherwise. -/
lemma Sound.step_iff (h : t.Sound sp) (hstep : t.step sp e = some t') :
    t'.Sound sp ↔ t.Meets (Segment.Careful sp) e := by
  obtain ⟨seg, seg', err, hseg, hexec, hsegments, -⟩ := step_eq_some hstep
  have hmem := List.mem_of_getElem? hseg
  obtain ⟨hiff, -⟩ := Segment.exec_exact (h.rep seg hmem) (h.holding_le hseg) e.2 _ _ hexec
  have hsum := sum_map_set (Segment.holding sp) hseg seg'
  have hheld := h.held_eq
  rw [Meets, hseg, Option.elim_some, ← hiff]
  constructor
  · intro h'
    have hmem' : seg' ∈ t'.segments := by
      rw [hsegments]
      exact List.mem_set (List.getElem?_eq_some_iff.mp hseg).1 seg'
    have hheld' := h'.held_eq
    rw [hsegments] at hheld'
    exact ⟨h'.rep seg' hmem', by simp only; omega⟩
  · rintro ⟨hrep, hexact⟩
    refine ⟨fun s hs => ?_, ?_⟩
    · rw [hsegments] at hs
      rcases List.mem_or_eq_of_mem_set hs with hs | rfl
      · exact h.rep s hs
      · exact hrep
    · rw [hsegments]
      simp only at hexact
      omega

lemma Opened.step (h : t.Opened) (hsound : t.Sound sp) (hstep : t.step sp e = some t') :
    t'.Opened := by
  obtain ⟨seg, seg', err, hseg, hexec, hsegments, hfailed⟩ := step_eq_some hstep
  obtain ⟨-, hhandles⟩ := Segment.exec_exact (hsound.rep seg (List.mem_of_getElem? hseg))
    (hsound.holding_le hseg) e.2 _ _ hexec
  have hsub : ∀ i ∈ t.failed, i ∈ t'.failed := by
    intro i hi
    rw [hfailed]
    split_ifs
    · exact List.mem_cons_of_mem _ hi
    · exact hi
  intro i s file hs hfile hclosed
  rw [hsegments] at hs
  by_cases hi : e.1 = i
  · subst hi
    obtain rfl : seg' = s := by
      simpa [List.getElem?_set, (List.getElem?_eq_some_iff.mp hseg).1] using hs
    rcases hhandles with hhandles | hfails
    · exact hsub _ (h e.1 seg file hseg (hhandles file hfile hclosed) hclosed)
    · rw [hfailed, if_pos hfails]
      exact List.mem_cons_self
  · rw [List.getElem?_set_ne hi] at hs
    exact hsub i (h i s file hs hfile hclosed)

/-- Along the runs that are careful the table is sound, and its files are open. -/
lemma sound_of_meets {es : List (ℕ × Segment.Call)} (hsound : t.Sound sp) (hopened : t.Opened)
    (hmeets : Machine.Meets (step sp) (Meets (Segment.Careful sp)) t es)
    (hrun : Machine.run (step sp) t es = some t') : t'.Sound sp ∧ t'.Opened := by
  have hstep : ∀ (t : SegTable σ) e t', t.Sound sp ∧ t.Opened → Meets (Segment.Careful sp) t e →
      step sp t e = some t' → t'.Sound sp ∧ t'.Opened := by
    rintro t e t' ⟨hsound, hopened⟩ hcond hstep
    exact ⟨(hsound.step_iff hstep).mpr hcond, hopened.step hsound hstep⟩
  exact Machine.invariant_of_meets hstep ⟨hsound, hopened⟩ hmeets hrun

/-- A table as `loadSegments` leaves it: nothing local, nothing dirty, no permit taken. -/
structure Fresh (t : SegTable σ) : Prop where
  localFile : ∀ seg ∈ t.segments, seg.localFile = none
  backed : ∀ seg ∈ t.segments, seg.backed = false
  clean : ∀ seg ∈ t.segments, seg.dirty = false
  held : t.world.held = 0

lemma Fresh.sound (h : t.Fresh) : t.Sound sp := by
  refine ⟨fun seg hseg => ⟨?_, fun hd => ?_⟩, ?_⟩
  · rw [h.backed seg hseg, h.localFile seg hseg, Option.isSome_none]
  · simp [h.clean seg hseg] at hd
  · have hzero : ∀ n ∈ t.segments.map (Segment.holding sp), n = 0 := by
      intro n hn
      obtain ⟨seg, hseg, rfl⟩ := List.mem_map.mp hn
      simp [Segment.holding, h.backed seg hseg]
    rw [h.held, List.sum_eq_zero hzero]

lemma Fresh.opened (h : t.Fresh) : t.Opened := by
  intro i seg file hseg hfile
  simp [h.localFile seg (List.mem_of_getElem? hseg)] at hfile

end SegTable

/-! ## Devices in memory -/

/-- Segments of one byte, of which one may be local. -/
def quotaOne (env : Env) : StoreParams MemStore :=
  ⟨memContainer ['c'], 1, true, false, some 1, env⟩

/-- The first file that is created cannot be. -/
def failingCreate : Env :=
  { quietEnv with fault := fun call t => if call = .create ∧ t ≤ 1 then some 0 else none }

/-- Two segments with nothing stored. -/
def twoSegments : SegTable MemStore := ⟨[.new 0, .new 1], ObjRun.emptyWorld, []⟩

/-! ## Failed loads -/

/-- The loads: `createFile` and `downloadFile`. -/
inductive Load (σ : Type)
  | create (segID : GoString)
  | download (item : Item σ)

def Load.exec (sp : StoreParams σ) : Load σ → Go σ (Except GoError (Option File))
  | .create segID => sp.createFile segID
  | .download item => sp.downloadFile item

/-- No permit is held while no segment is backed. -/
def SegTable.Returned (t : SegTable σ) : Prop :=
  (∀ seg ∈ t.segments, seg.backed = false) → t.world.held = 0

lemma SegTable.Returned.step {t t' : SegTable σ} {e : ℕ × Segment.Call} (h : t.Returned)
    (he : e.2.Accesses) (hcreates : t.Meets (Segment.CreatesFor sp) e)
    (hstep : t.step sp e = some t') : t'.Returned := by
  obtain ⟨seg, seg', err, hseg, hexec, hsegments, -⟩ := step_eq_some hstep
  rw [Meets, hseg, Option.elim_some] at hcreates
  intro hnone
  rw [hsegments] at hnone
  have hlt := (List.getElem?_eq_some_iff.mp hseg).1
  obtain ⟨hback, hheld⟩ := Segment.exec_unbacked he hcreates _ _ hexec
    (hnone seg' (List.mem_set hlt seg'))
  rw [hheld]
  refine h fun s hs => ?_
  obtain ⟨j, hj, rfl⟩ := List.getElem_of_mem hs
  by_cases hij : e.1 = j
  · subst hij
    obtain rfl : t.segments[e.1] = seg := (List.getElem?_eq_some_iff.mp hseg).2
    exact hback
  · refine hnone _ (List.mem_iff_getElem.mpr ⟨j, by simpa using hj, ?_⟩)
    exact List.getElem_set_ne hij _

/-- **A failed load and its permit.**  A load that fails behind its claim leaves the permits as they
were exactly when it is a download or there is no quota.  And in a run of reads and writes, failing
or not, in which no write fails to create the file it has taken a permit for, no permit is held
while no segment is backed. -/
theorem failed_load_held_iff (sp : StoreParams σ) :
    (∀ (load : Load σ) (w : World σ), sp.Room w → Returns (load.exec sp) w fun r w' =>
      (∃ e, r = .error e) →
        (w'.held = w.held ↔ (∃ item, load = .download item) ∨ sp.quotaSema = none)) ∧
    ∀ (t t' : SegTable σ) (es : List (ℕ × Segment.Call)), t.Fresh →
      (∀ e ∈ es, e.2.Accesses) →
      Machine.Meets (SegTable.step sp) (SegTable.Meets (Segment.CreatesFor sp)) t es →
      Machine.run (SegTable.step sp) t es = some t' → t'.Returned := by
  refine ⟨fun load w hroom => ?_, fun t t' es hfresh haccess hmeets hrun => ?_⟩
  · cases load with
    | create segID =>
      refine (StoreParams.createFile_of_claim hroom segID).mono fun r w₁ h₁ _ => ?_
      have hheld := h₁.1
      cases hq : sp.quotaSema <;> simp [hheld, StoreParams.permit, hq]
    | download item =>
      refine (StoreParams.downloadFile_outcome item).mono fun r w₁ h₁ hfails => ?_
      obtain ⟨e, rfl⟩ := hfails
      cases h₁ with
      | failed _ hheld => exact iff_of_true hheld (.inl ⟨item, rfl⟩)
  · have hstep : ∀ (t : SegTable σ) e t', t.Returned →
        (e.2.Accesses ∧ SegTable.Meets (Segment.CreatesFor sp) t e) →
        SegTable.step sp t e = some t' → t'.Returned :=
      fun _ _ _ h hcond hstep => h.step hcond.1 hcond.2 hstep
    exact Machine.invariant_of_meets hstep (fun _ => hfresh.held) (hmeets.and_forall haccess) hrun

/-- Two segments, the second with an object of two bytes where segments have one. -/
def oversized : SegTable MemStore where
  segments := [.new 0, ⟨1, none, some (memItem ['x']), false, false, 0, 0⟩]
  world := { ObjRun.emptyWorld with store := MemStore.empty.set ['x'] ⟨[1, 2], .nil⟩ }
  failed := []

/-- Reads and writes, those of the second segment failing. -/
def failedAccesses : List (ℕ × Segment.Call) :=
  [(1, .readAt [0] 0), (0, .readAt [0] 0), (1, .writeAt [1] 0), (1, .readAt [0] 0)]

/-- What is held after a load, and whether it succeeded. -/
def Load.outcome (load : Load MemStore) (sp : StoreParams MemStore) (w : World MemStore) :
    Option (Bool × ℕ) :=
  match load.exec sp w with
  | .ok (.ok _, w') => some (true, w'.held)
  | .ok (.error _, w') => some (false, w'.held)
  | .error _ => none

theorem failed_load_held_iff_oversized :
    (Load.download (memItem ['x'])).outcome (quotaOne quietEnv) oversized.world = some (false, 0) ∧
    Returns ((Load.download (memItem ['x'])).exec (quotaOne quietEnv)) oversized.world
      (fun r w' => (∃ e, r = .error e) →
        (w'.held = oversized.world.held ↔ (∃ item, Load.download (memItem ['x']) = .download item) ∨
          (quotaOne quietEnv).quotaSema = none)) ∧
    ∃ t, Machine.run (SegTable.step (quotaOne quietEnv)) oversized failedAccesses = some t ∧
      t.Returned := by
  obtain ⟨hload, hrun⟩ := failed_load_held_iff (quotaOne quietEnv)
  have hends : (Machine.run (SegTable.step (quotaOne quietEnv)) oversized
      failedAccesses).isSome = true := by decide +kernel
  obtain ⟨t, ht⟩ := Option.isSome_iff_exists.mp hends
  refine ⟨by decide +kernel, hload _ _ (by decide), t, ht, ?_⟩
  exact hrun oversized t failedAccesses ⟨by decide, by decide, by decide, rfl⟩ (by decide)
    (by decide +kernel) ht

/-- The second error of two writes of one byte to a device of two segments, and the permits held
after them. -/
def secondWrite (sp : StoreParams MemStore) : Option (Option GoError × ℕ) :=
  match (ObjDevice.mk sp 2 twoSegments.segments 1 false).writeAt [1] 0 twoSegments.world with
  | .ok ((dev, _, _), w) =>
    match dev.writeAt [1] 1 w with
    | .ok ((_, _, err), w') => some (err, w'.held)
    | .error _ => none
  | .error _ => none

/-- A file that cannot be created takes the only permit with it, and no write gets another, with
nothing failing any more. -/
theorem failed_create_takes_permit :
    (Load.create ['0']).outcome (quotaOne failingCreate) ObjRun.emptyWorld = some (false, 1) ∧
    secondWrite (quotaOne failingCreate) = some
      (some (.wrap "Could not free capacity to load segment"
        (.new "Could not remove any segments as none are backed")), 1) := by
  constructor <;> decide +kernel

/-! ## The flags along a run -/

namespace SegTable

/-- **Flags, files and permits agree exactly along the careful runs.**  A table as it is loaded, in
any environment and with any container: in every state of a run a segment is backed when it has a
local file and dirty only then, and as many permits are held as segments are backed, if and only if
no load of the run meets an object of no bytes and none fails to create the file it has taken a
permit for.  After such a run `DeleteFile` returns, and a load for writing that succeeds returns a
file, open unless a `DeleteFile` of the segment has failed. -/
theorem sound_iff_careful (sp : StoreParams σ) (t t' : SegTable σ) (es : List (ℕ × Segment.Call))
    (hfresh : t.Fresh) (hrun : Machine.run (step sp) t es = some t') :
    ((∀ es' u, es' <+: es → Machine.run (step sp) t es' = some u → u.Sound sp) ↔
      Machine.Meets (step sp) (Meets (Segment.Careful sp)) t es) ∧
    (Machine.Meets (step sp) (Meets (Segment.Careful sp)) t es →
      ∀ i seg, t'.segments[i]? = some seg →
        Returns (seg.deleteFile sp) t'.world (fun _ _ => True) ∧
        (seg.FindsBytes sp t'.world → Returns (seg.loadFile sp true) t'.world fun r _ =>
          ∀ file, r.2 = .ok file → ∃ f, file = some f ∧ (f.closed = true → i ∈ t'.failed))) := by
  refine ⟨?_, fun hmeets i seg hseg => ?_⟩
  · exact Machine.meets_iff_forall_prefix (fun _ _ _ h hstep => h.step_iff hstep) hfresh.sound hrun
  · obtain ⟨hsound, hopened⟩ := sound_of_meets hfresh.sound hfresh.opened hmeets hrun
    have hrep := hsound.rep seg (List.mem_of_getElem? hseg)
    refine ⟨(Segment.deleteFile_exact hrep (hsound.holding_le hseg)).mono fun _ _ _ => trivial, ?_⟩
    intro hbytes
    refine (Segment.loadFile_loaded true).mono fun r w₁ h₁ file hfile => ?_
    cases h₁ with
    | same _ _ hres _ =>
      obtain ⟨rfl, hsome⟩ := hres file hfile
      obtain ⟨f, hf⟩ := Option.ne_none_iff_exists'.mp fun h => by simpa using hsome h
      exact ⟨f, hf, hopened i seg f hseg hf⟩
    | file _ _ _ _ hopen _ =>
      obtain rfl := Except.ok.inj hfile
      exact ⟨_, rfl, fun h => by simp [hopen] at h⟩
    | hollow hhollow _ _ => exact absurd hbytes hhollow
    | leaked _ _ _ => simp at hfile

/-- Two segments taking turns at the only permit. -/
def turns : List (ℕ × Segment.Call) :=
  [(0, .writeAt [1] 0), (1, .writeAt [2] 0), (0, .flush true), (0, .deleteFile),
    (1, .writeAt [2] 0), (1, .deleteFile), (0, .readAt [0] 0)]

theorem sound_iff_careful_turns :
    ∃ t, Machine.run (step (quotaOne quietEnv)) twoSegments turns = some t ∧
      (∀ es u, es <+: turns → Machine.run (step (quotaOne quietEnv)) twoSegments es = some u →
        u.Sound (quotaOne quietEnv)) ∧
      ∀ (i : ℕ) (seg : Segment MemStore), t.segments[i]? = some seg →
        Returns (seg.deleteFile (quotaOne quietEnv)) t.world (fun _ _ => True) := by
  have hends : (Machine.run (step (quotaOne quietEnv)) twoSegments turns).isSome = true := by
    decide +kernel
  obtain ⟨t, ht⟩ := Option.isSome_iff_exists.mp hends
  have hmeets : Machine.Meets (step (quotaOne quietEnv))
      (Meets (Segment.Careful (quotaOne quietEnv))) twoSegments turns := by decide +kernel
  obtain ⟨hiff, huse⟩ := sound_iff_careful (quotaOne quietEnv) twoSegments t turns
    ⟨by decide, by decide, by decide, rfl⟩ ht
  exact ⟨t, ht, hiff.mpr hmeets, fun i seg hseg => (huse hmeets i seg hseg).1⟩

/-- Whether each segment is backed and has a local file, and the permits held. -/
def flags (t : SegTable σ) : List (Bool × Bool) × ℕ :=
  (t.segments.map fun seg => (seg.backed, seg.localFile.isSome), t.world.held)

/-- `DeleteFile` of the first segment panics. -/
def deletePanics (sp : StoreParams σ) (t : SegTable σ) : Bool :=
  t.segments.head?.any fun seg =>
    match seg.deleteFile sp t.world with
    | .error stop => stop = .panic
    | .ok _ => false

/-- One segment, with an object of no bytes. -/
def hollow : SegTable MemStore where
  segments := [⟨0, none, some (memItem ['x']), false, false, 0, 0⟩]
  world := { ObjRun.emptyWorld with store := MemStore.empty.set ['x'] ⟨[], .nil⟩ }
  failed := []

/-- An object of no bytes is read as zeros, and leaves a segment that is backed and has no local
file: `DeleteFile` panics.  A file that cannot be created leaves its permit with no segment
backed. -/
theorem backed_without_file :
    (Machine.run (step (quotaOne quietEnv)) hollow [(0, .readAt [0] 0)]).map flags =
      some ([(true, false)], 1) ∧
    (Machine.run (step (quotaOne quietEnv)) hollow [(0, .readAt [0] 0)]).map
      (deletePanics (quotaOne quietEnv)) = some true ∧
    (Machine.run (step (quotaOne failingCreate)) twoSegments [(0, .writeAt [1] 0)]).map flags =
      some ([(false, false), (false, false)], 1) := by
  refine ⟨?_, ?_, ?_⟩ <;> decide +kernel

end SegTable
end Usbd
