import Usbd.Objstore.SegmentRace

/-!
# A device and its goroutines

The segments of a device under any interleaving of the goroutines that use it.  A client, which
stands for a `ReadAt` or a `WriteAt` of the device, makes calls of segments one after the other:
reads and writes, and the `DeleteFile` of an eviction.  In which order it makes them and which
segment it evicts is left open.  A `Flush` of the device, the kernel's or that of the autoflush
worker, looks at the dirty flags one by one, starts a goroutine for each segment that is still dirty
when its turn comes, at most `concurFlush` at a time, and returns the first error one of them has
reported.

The segments share the world.  `DevCells` says that each of them stands for some array, and
`DevCells.step` that a section of one leaves the others alone.
-/

namespace Usbd

open ListMemory Prog

variable {σ : Type}

/-! ## The machine -/

/-- How far a `Flush` of the device has got. -/
inductive FlushState
  /-- It has looked at the segments before `next`. -/
  | looking (next : ℕ) (found : List ℕ)
  /-- It starts goroutines for `todo`, the first of which it has `seen` to be still dirty or not,
  and waits for those of `running`. -/
  | starting (seen : Bool) (todo running : List ℕ) (err : Option GoError)
  | returned (err : Option GoError)
  deriving DecidableEq

/-- The error a `Flush` has met so far. -/
def FlushState.err : FlushState → Option GoError
  | looking _ _ => none
  | starting _ _ _ err => err
  | returned err => err

/-- The segments with their goroutines, the `Flush` calls made so far, and the world. -/
structure DevState (σ : Type) where
  cells : List (Cell σ)
  flushes : List FlushState
  world : World σ

inductive DevEvent
  /-- A client's call of a segment, its next section and its return. -/
  | call (i t : ℕ) (made : SegCall)
  | move (i t : ℕ)
  | ret (i t : ℕ)
  /-- A `Flush` of the device, its look at the next segment, its second look at one it has found,
  and the start of a goroutine for that one. -/
  | flush
  | look (f : ℕ)
  | recheck (f : ℕ)
  | spawn (f : ℕ) (buffered : Bool)
  /-- A section of the goroutine it has started for a segment, and the end of that goroutine. -/
  | work (f i : ℕ)
  | collect (f i : ℕ)
  /-- Its return. -/
  | finish (f : ℕ)
  deriving DecidableEq

/-- The goroutine of a client. -/
def clientID (t : ℕ) : ℕ := 2 * t

/-- The goroutine a `Flush` starts for a segment. -/
def flusherID (f : ℕ) : ℕ := 2 * f + 1

/-- A call that is not a flush; only `Flush` of the device makes those. -/
def SegCall.Plain : SegCall → Prop
  | .flush _ => False
  | _ => True

instance : ∀ call : SegCall, Decidable call.Plain
  | .readAt _ _ => isTrue trivial
  | .writeAt _ _ => isTrue trivial
  | .flush _ => isFalse not_false
  | .deleteFile => isTrue trivial

/-- The calls that come in stay inside their segments. -/
def DevEvent.InRange (segmentBytes : ℕ) : DevEvent → Prop
  | .call _ _ made => made.InRange segmentBytes
  | _ => True

instance (segmentBytes : ℕ) : ∀ e : DevEvent, Decidable (e.InRange segmentBytes)
  | .call _ _ made => inferInstanceAs (Decidable (made.InRange segmentBytes))
  | .move _ _ => isTrue trivial
  | .ret _ _ => isTrue trivial
  | .flush => isTrue trivial
  | .look _ => isTrue trivial
  | .recheck _ => isTrue trivial
  | .spawn _ _ => isTrue trivial
  | .work _ _ => isTrue trivial
  | .collect _ _ => isTrue trivial
  | .finish _ => isTrue trivial

/-- The segment and the goroutine whose next section runs. -/
def DevEvent.runs : DevEvent → Option (ℕ × ℕ)
  | .move i t => some (i, clientID t)
  | .work f i => some (i, flusherID f)
  | _ => none

namespace DevState

def new (segments : List (Segment σ)) (w : World σ) : DevState σ := ⟨segments.map Cell.new, [], w⟩

variable (sp : StoreParams σ) (concurFlush : ℕ) (s : DevState σ)

/-- A step of one segment. -/
def onCell (i : ℕ) (e : CellEvent) : Option (DevState σ) :=
  s.cells[i]?.bind fun c => (c.step sp s.world e).map fun (c, world) =>
    { s with cells := s.cells.set i c, world }

/-- A `Flush` goes on. -/
def setFlush (f : ℕ) (state : FlushState) : DevState σ :=
  { s with flushes := s.flushes.set f state }

/-- `Flush` looks at the next segment, and behind the last one starts its goroutines. -/
def look (f next : ℕ) (found : List ℕ) : DevState σ :=
  match s.cells[next]? with
  | some c => s.setFlush f (.looking (next + 1) (if c.seg.dirty then found ++ [next] else found))
  | none => s.setFlush f (if found = [] then .returned none else .starting false found [] none)

/-- The second look, at a segment that was found dirty. -/
def recheck (f i : ℕ) (todo running : List ℕ) (err : Option GoError) : Option (DevState σ) :=
  s.cells[i]?.map fun c =>
    s.setFlush f (if c.seg.dirty then .starting true (i :: todo) running err
      else .starting false todo running err)

/-- The goroutine for a segment, as soon as fewer than `concurFlush` are running. -/
def spawn (f i : ℕ) (todo running : List ℕ) (err : Option GoError) (buffered : Bool) :
    Option (DevState σ) :=
  if running.length < max 1 concurFlush then
    (s.onCell sp i (.call (flusherID f) (.flush buffered))).map fun s =>
      s.setFlush f (.starting false todo (i :: running) err)
  else none

/-- The end of a goroutine: the first error is kept. -/
def collect (f i : ℕ) (todo running : List ℕ) (seen : Bool) (err : Option GoError) :
    Option (DevState σ) :=
  s.cells[i]?.bind fun c =>
    match c.procs (flusherID f) with
    | .done (.flushed segErr) =>
      (s.onCell sp i (.ret (flusherID f))).map fun s =>
        s.setFlush f (.starting seen todo (running.erase i) (err.or segErr))
    | _ => none

def step : DevEvent → Option (DevState σ)
  | .call i t made => if made.Plain then s.onCell sp i (.call (clientID t) made) else none
  | .move i t => s.onCell sp i (.move (clientID t))
  | .ret i t => s.onCell sp i (.ret (clientID t))
  | .flush => some { s with flushes := s.flushes ++ [.looking 0 []] }
  | .look f =>
    match s.flushes[f]? with
    | some (.looking next found) => some (s.look f next found)
    | _ => none
  | .recheck f =>
    match s.flushes[f]? with
    | some (.starting false (i :: todo) running err) => s.recheck f i todo running err
    | _ => none
  | .spawn f buffered =>
    match s.flushes[f]? with
    | some (.starting true (i :: todo) running err) =>
      s.spawn sp concurFlush f i todo running err buffered
    | _ => none
  | .work f i =>
    match s.flushes[f]? with
    | some (.starting _ _ running _) =>
      if i ∈ running then s.onCell sp i (.move (flusherID f)) else none
    | _ => none
  | .collect f i =>
    match s.flushes[f]? with
    | some (.starting seen todo running err) =>
      if i ∈ running then s.collect sp f i todo running seen err else none
    | _ => none
  | .finish f =>
    match s.flushes[f]? with
    | some (.starting _ [] [] err) =>
      some (s.setFlush f (.returned (err.map (.wrap "One ore more segments failed to flush"))))
    | _ => none

/-! ## What a step can do -/

/-- A segment takes a step and all others stay.  A flush of it is one a `Flush` of the device has
started. -/
structure Steps (s s' : DevState σ) (e : DevEvent) (i : ℕ) (ce : CellEvent) (c c' : Cell σ) :
    Prop where
  cell : s.cells[i]? = some c
  step : c.step sp s.world ce = some (c', s'.world)
  cells : s'.cells = s.cells.set i c'
  runs : ∀ t, ce = .move t → e.runs = some (i, t)
  range : e.InRange sp.segmentBytes → ce.InRange sp.segmentBytes
  flush : ∀ t buffered, ce = .call t (.flush buffered) →
    ∃ f, f < s.flushes.length ∧ t = flusherID f

variable {sp concurFlush s} {s' s₁ : DevState σ} {e : DevEvent}

/-- The errors of the flushes are those of before, or what a goroutine is about to report. -/
def Reports (s s' : DevState σ) : Prop :=
  ∀ state ∈ s'.flushes, state.err ≠ none → (∃ old ∈ s.flushes, old.err ≠ none) ∨
    ∃ c ∈ s.cells, ∃ t err, c.procs t = .done (.flushed (some err))

lemma Reports.of_eq (h : s'.flushes = s.flushes) : Reports s s' := fun state hstate herr =>
  Or.inl ⟨state, h ▸ hstate, herr⟩

lemma Reports.setFlush (hflushes : s₁.flushes = s.flushes) {f : ℕ} {old state : FlushState}
    (hold : s.flushes[f]? = some old) (herr : state.err ≠ none → old.err ≠ none ∨
      ∃ c ∈ s.cells, ∃ t err, c.procs t = .done (.flushed (some err))) :
    Reports s (s₁.setFlush f state) := by
  intro other hother hne
  rw [DevState.setFlush, hflushes] at hother
  rcases List.mem_or_eq_of_mem_set hother with hmem | rfl
  · exact Or.inl ⟨other, hmem, hne⟩
  · exact (herr hne).imp_left fun hne' => ⟨old, List.mem_of_getElem? hold, hne'⟩

lemma onCell_eq_some {i : ℕ} {ce : CellEvent} (h : s.onCell sp i ce = some s') :
    s'.flushes = s.flushes ∧ ∃ c c', s.cells[i]? = some c ∧
      c.step sp s.world ce = some (c', s'.world) ∧ s'.cells = s.cells.set i c' := by
  obtain ⟨c, hc, h⟩ := Option.bind_eq_some_iff.mp h
  obtain ⟨⟨c', w'⟩, hstep, rfl⟩ := Option.map_eq_some_iff.mp h
  exact ⟨rfl, c, c', hc, hstep, rfl⟩

/-- What a step comes to: no `Flush` is forgotten, errors come from goroutines, and at most one
segment takes a step. -/
structure Stepped (sp : StoreParams σ) (s s' : DevState σ) (e : DevEvent) : Prop where
  length_le : s.flushes.length ≤ s'.flushes.length
  reports : Reports s s'
  cells : s'.cells = s.cells ∧ s'.world = s.world ∨
    ∃ i ce c c', Steps sp s s' e i ce c c'

lemma Stepped.of_onCell {i : ℕ} {ce : CellEvent} (h : s.onCell sp i ce = some s')
    (hruns : ∀ t, ce = .move t → e.runs = some (i, t))
    (hrange : e.InRange sp.segmentBytes → ce.InRange sp.segmentBytes)
    (hflush : ∀ t buffered, ce = .call t (.flush buffered) →
      ∃ f, f < s.flushes.length ∧ t = flusherID f) : Stepped sp s s' e := by
  obtain ⟨hflushes, c, c', hc, hstep, hcells⟩ := onCell_eq_some h
  exact ⟨hflushes ▸ le_rfl, .of_eq hflushes, Or.inr ⟨i, ce, c, c', hc, hstep, hcells, hruns, hrange,
    hflush⟩⟩

lemma Stepped.of_setFlush {f : ℕ} {old state : FlushState} (hold : s.flushes[f]? = some old)
    (herr : state.err ≠ none → old.err ≠ none) : Stepped sp s (s.setFlush f state) e :=
  ⟨by simp [setFlush], .setFlush rfl hold fun hne => Or.inl (herr hne), Or.inl ⟨rfl, rfl⟩⟩

lemma Stepped.and_setFlush (h : Stepped sp s s₁ e) (hflushes : s₁.flushes = s.flushes) {f : ℕ}
    {old state : FlushState} (hold : s.flushes[f]? = some old)
    (herr : state.err ≠ none → old.err ≠ none ∨
      ∃ c ∈ s.cells, ∃ t err, c.procs t = .done (.flushed (some err))) :
    Stepped sp s (s₁.setFlush f state) e := by
  refine ⟨by simp [setFlush, hflushes], .setFlush hflushes hold herr, ?_⟩
  rcases h.cells with hsame | ⟨i, ce, c, c', hc, hstep, hcells, hruns, hrange, hflush⟩
  · exact Or.inl hsame
  · exact Or.inr ⟨i, ce, c, c', hc, hstep, hcells, hruns, hrange, hflush⟩

lemma spawn_stepped {f i : ℕ} {todo running : List ℕ} {err : Option GoError} {buffered : Bool}
    (hold : s.flushes[f]? = some (.starting true (i :: todo) running err))
    (h : s.spawn sp concurFlush f i todo running err buffered = some s') :
    Stepped sp s s' (.spawn f buffered) := by
  unfold spawn at h
  split_ifs at h
  obtain ⟨s₁, hcell, rfl⟩ := Option.map_eq_some_iff.mp h
  have hlt : f < s.flushes.length := (List.getElem?_eq_some_iff.mp hold).1
  refine Stepped.and_setFlush (.of_onCell hcell ?_ (fun _ => trivial) ?_) (onCell_eq_some hcell).1
    hold fun hne => Or.inl hne
  · rintro t ⟨⟩
  · rintro t b ⟨⟩
    exact ⟨f, hlt, rfl⟩

lemma collect_stepped {f i : ℕ} {todo running : List ℕ} {seen : Bool} {err : Option GoError}
    (hold : s.flushes[f]? = some (.starting seen todo running err))
    (h : s.collect sp f i todo running seen err = some s') : Stepped sp s s' (.collect f i) := by
  obtain ⟨c, hc, h⟩ := Option.bind_eq_some_iff.mp h
  cases hproc : c.procs (flusherID f) with
  | done res =>
    cases res with
    | flushed segErr =>
      simp only [hproc] at h
      obtain ⟨s₁, hcell, rfl⟩ := Option.map_eq_some_iff.mp h
      refine Stepped.and_setFlush (.of_onCell hcell ?_ (fun _ => trivial) ?_)
        (onCell_eq_some hcell).1 hold fun hne => ?_
      · rintro t ⟨⟩
      · rintro t b ⟨⟩
      · cases err with
        | some e => exact Or.inl (Option.some_ne_none e)
        | none =>
          obtain ⟨e, he⟩ := Option.ne_none_iff_exists'.mp hne
          obtain rfl : segErr = some e := he
          exact Or.inr ⟨c, List.mem_of_getElem? hc, _, e, hproc⟩
    | _ => simp [hproc] at h
  | _ => simp [hproc] at h

/-- **One step.** -/
lemma step_stepped (h : s.step sp concurFlush e = some s') : Stepped sp s s' e := by
  unfold step at h
  cases e with
  | call i t made =>
    simp only at h
    split_ifs at h with hplain
    refine .of_onCell h (fun t ht => by cases ht) (fun hr => hr) ?_
    rintro t b ⟨⟩
    exact absurd hplain not_false
  | move i t =>
    refine .of_onCell h ?_ (fun _ => trivial) (fun _ _ hcall => by cases hcall)
    rintro t ⟨⟩
    rfl
  | ret i t =>
    exact .of_onCell h (fun t ht => by cases ht) (fun _ => trivial)
      (fun _ _ hcall => by cases hcall)
  | flush =>
    obtain rfl := Option.some.inj h
    refine ⟨by simp, fun state hstate herr => ?_, Or.inl ⟨rfl, rfl⟩⟩
    rcases List.mem_append.mp hstate with hmem | hnew
    · exact Or.inl ⟨state, hmem, herr⟩
    · obtain rfl := List.mem_singleton.mp hnew
      exact absurd rfl herr
  | look f =>
    simp only at h
    split at h
    · next next found hold =>
      obtain rfl := Option.some.inj h
      unfold look
      split
      · exact .of_setFlush hold fun hne => absurd rfl hne
      · refine .of_setFlush hold fun hne => absurd ?_ hne
        split_ifs <;> rfl
    · cases h
  | recheck f =>
    simp only at h
    split at h
    · next i todo running err hold =>
      obtain ⟨c, -, rfl⟩ := Option.map_eq_some_iff.mp h
      refine .of_setFlush hold fun hne => ?_
      split_ifs at hne <;> exact hne
    · cases h
  | spawn f buffered =>
    simp only at h
    split at h
    · next hold => exact spawn_stepped hold h
    · cases h
  | work f i =>
    simp only at h
    split at h
    · split_ifs at h
      refine .of_onCell h ?_ (fun _ => trivial) (fun _ _ hcall => by cases hcall)
      rintro t ⟨⟩
      rfl
    · cases h
  | collect f i =>
    simp only at h
    split at h
    · next hold =>
      split_ifs at h
      exact collect_stepped hold h
    · cases h
  | finish f =>
    simp only at h
    split at h
    · next seen err hold =>
      obtain rfl := Option.some.inj h
      refine .of_setFlush hold fun hne hnone => hne ?_
      obtain rfl : err = none := hnone
      rfl
    · cases h

end DevState

/-! ## The segments stand for arrays -/

section Cells

variable {sp : StoreParams σ} {law : Plain sp.container} {w w' : World σ} {name : GoString}

/-- An upload of one segment is not disturbed by what happens to another. -/
lemma Upload.frame {seg : Segment σ} {content : Bytes} {p : Proc σ}
    (h : Upload sp law w seg content p) (hf : Frame sp law.toFaithful name w w')
    (ha : seg.name sp ≠ name) : Upload sp law w' seg content p := by
  cases h with
  | sending hfile hlen hsnap hsrc hgood => exact .sending hfile hlen hsnap hsrc hgood
  | sent hfile hlen hsnap hcur hgood =>
    exact .sent hfile hlen hsnap (fun it hit => hf.current _ _ _ ha (hcur it hit)) hgood

lemma Backing.frame {seg : Segment σ} {a : SegArray} {f : Option (Proc σ)}
    (h : Backing sp law w seg a f) (hf : Frame sp law.toFaithful name w w')
    (ha : Apart (seg.name sp) name) : Backing sp law w' seg a f := by
  cases h with
  | quiet hinv hkept hstored =>
    exact .quiet (hinv.frame hf ha) (fun hgood => (hkept hgood).frame hf ha) hstored
  | flight hok hgone hup =>
    refine .flight (hok.frame hf ha) (fun hnone => ?_) (hup.frame hf ha.data)
    rw [hf.files _ ha.data ha.data_etag]
    exact hgone hnone

end Cells

/-- Each segment stands for some array, and the permits held are those of the segments. -/
structure DevCells (sp : StoreParams σ) (law : Plain sp.container) (s : DevState σ) : Prop where
  cell : ∀ (i : ℕ) (c : Cell σ), s.cells[i]? = some c →
    c.seg.ID = i ∧ ∃ a, CellInv sp law s.world c a
  held_eq : s.world.held = (s.cells.map fun c => c.seg.holding sp).sum

namespace DevCells

variable {sp : StoreParams σ} {law : Plain sp.container} {s s' : DevState σ} {i : ℕ} {c c' : Cell σ}

lemma holding_le (h : DevCells sp law s) (hc : s.cells[i]? = some c) :
    c.seg.holding sp ≤ s.world.held := by
  rw [h.held_eq]
  exact List.single_le_sum (fun _ _ => Nat.zero_le _) _
    (List.mem_map_of_mem (List.mem_of_getElem? hc))

lemma set (h : DevCells sp law s) (hc : s.cells[i]? = some c) {a : SegArray}
    (hcells : s'.cells = s.cells.set i c') (hinv : CellInv sp law s'.world c' a)
    (hmove : SegMove sp law.toFaithful s.world c.seg s'.world c'.seg) : DevCells sp law s' := by
  obtain ⟨hid, -⟩ := h.cell i c hc
  refine ⟨fun j cj hj => ?_, ?_⟩
  · rcases getElem?_set_cases (hcells ▸ hj) with ⟨rfl, rfl⟩ | ⟨hij, hj⟩
    · exact ⟨hmove.id_eq.trans hid, a, hinv⟩
    · obtain ⟨hidj, aj, hinvj⟩ := h.cell j cj hj
      exact ⟨hidj, aj, hinvj.backing.frame hmove.frame (Segment.apart_name hidj hid hij),
        hinvj.locks⟩
  · have hsum := sum_map_set (fun c => c.seg.holding sp) hc c'
    have := hmove.held
    have := h.held_eq
    rw [hcells]
    omega

lemma step (hr : Reliable sp.env) (hs : sp.Sized) {e : DevEvent} (h : DevCells sp law s)
    (hrange : e.InRange sp.segmentBytes)
    (hload : ∀ i t c, e.runs = some (i, t) → s.cells[i]? = some c → (c.procs t).Loads →
      CacheRun.LoadsWhole sp s.world c.seg) (hstep : DevState.Stepped sp s s' e) :
    DevCells sp law s' := by
  rcases hstep.cells with ⟨hcells, hworld⟩ | ⟨i, ce, c, c', hsteps⟩
  · refine ⟨fun i c hc => ?_, ?_⟩
    · rw [hworld]
      exact h.cell i c (hcells ▸ hc)
    · rw [hworld, hcells]
      exact h.held_eq
  obtain ⟨-, a, hinv⟩ := h.cell i c hsteps.cell
  cases ce with
  | call t call =>
    obtain ⟨hidle, hnew⟩ := Cell.step_call hsteps.step
    obtain ⟨rfl, hworld⟩ := Prod.mk.inj hnew
    refine h.set hsteps.cell hsteps.cells (hworld ▸ hinv.call (hsteps.range hrange) hidle) ?_
    rw [hworld]
    exact ⟨rfl, Frame.refl, rfl⟩
  | ret t =>
    obtain ⟨res, hdone, hnew⟩ := Cell.step_ret hsteps.step
    obtain ⟨rfl, hworld⟩ := Prod.mk.inj hnew
    refine h.set hsteps.cell hsteps.cells (hworld ▸ hinv.ret hdone) ?_
    rw [hworld]
    exact ⟨rfl, Frame.refl, rfl⟩
  | move t =>
    obtain ⟨m, hm, hrun⟩ := Cell.step_move hsteps.step
    obtain ⟨p, a', hpass⟩ := (next_spec hinv hr hs
      (hload i t c (hsteps.runs t rfl) hsteps.cell) (h.holding_le hsteps.cell) hm).eq hrun
    exact h.set hsteps.cell hsteps.cells hpass.inv hpass.move

lemma new {segments : List (Segment σ)} {w : World σ} {disk : Bytes}
    (h : DevSound sp law.toFaithful w segments disk) : DevCells sp law (.new segments w) where
  cell i c hc := by
    obtain ⟨seg, hseg, rfl⟩ := by simpa [DevState.new] using hc
    obtain ⟨hid, hinv⟩ := h.seg i seg hseg
    exact ⟨hid, _, CellInv.new hinv (h.kept seg (List.mem_of_getElem? hseg))⟩
  held_eq := by
    simp only [DevState.new, List.map_map, h.held_eq]
    rfl

end DevCells

end Usbd
