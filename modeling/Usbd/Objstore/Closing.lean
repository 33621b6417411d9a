import Usbd.Objstore.ConcurrentDisk

/-!
# Closing a device in use

`Close` waits for `pendingOpMu`, and from then on it is alone: whoever was inside has left, and
whoever comes later finds the context cancelled.  Its flush sees every dirty segment, and without
faults nothing it does can fail, for what makes a flush fail is an eviction in its way, and there is
nobody left to evict.  So `Close` returns nil, and behind it every segment is clean.

`Sweeps` is what the flush of a `Close` has achieved at each of its places, `CloseInv` what is left
to say of the other steps.
-/

namespace Usbd

open ListMemory Prog

variable {σ : Type}

/-! ## The goroutine of a flush that is alone -/

/-- The flush of a segment has taken its bytes, or has come to its end. -/
def Proc.Past : Proc σ → Prop
  | sending _ _ _ => True
  | sent _ _ _ => True
  | done _ => True
  | _ => False

/-- A flush of a segment with nobody else in it: it will find the file, it has not failed, and it
leaves the segment clean. -/
structure Cell.Sweeping (c : Cell σ) (u : ℕ) : Prop where
  lockable : (c.procs u).locks = true → c.Lockable
  nil : ¬ (c.procs u).Failed
  clean : (c.procs u).Past → c.seg.dirty = false

section Sections

variable {sp : StoreParams σ} {law : Plain sp.container} {w : World σ} {c c' : Cell σ} {u : ℕ}
  {a : SegArray}

lemma dropFile_dirty (seg : Segment σ) :
    Yields (seg.dropFile sp) w fun r _ => r.1.dirty = seg.dirty := by
  unfold Segment.dropFile
  cases seg.localFile with
  | none => exact yields_stop _
  | some file =>
    simp only [yields_bind]
    rintro ⟨file₁, err⟩ w₁ -
    cases err with
    | some e => exact (yields_pure _).mpr rfl
    | none =>
      simp only [yields_bind, yields_pure]
      exact fun _ _ _ => trivial

/-- A clean segment is given up without an upload, and nothing can go wrong. -/
lemma next_deletes (hinv : CellInv sp law w c a) (hr : Reliable sp.env)
    (hheld : c.seg.holding sp ≤ w.held) (ht : c.procs u = .called .deleteFile)
    (hclean : c.seg.dirty = false) {m : Go σ (Cell σ)} (hnext : c.next sp u = some m) :
    Yields m w fun c' _ => c'.procs u = .done (.deleted none) ∧ c'.seg.dirty = false := by
  obtain ⟨p, hp, hsection⟩ := Cell.next_section hnext
  rw [ht] at hp
  subst hp
  cases hsection with
  | delete hfree =>
    unfold Cell.delete
    cases hbacked : c.seg.backed with
    | false => simp [hclean]
    | true =>
      simp only [hclean, if_true, Bool.false_eq_true, if_false, Cell.drop, yields_bind, yields_pure]
      have hlocal : c.seg.localFile ≠ none := by
        rw [← Option.isSome_iff_ne_none, ← hinv.backing.backed_eq, hbacked]
      have hdrop := (hinv.backing.drop hr hlocal hclean hheld).and_yields (dropFile_dirty c.seg)
      refine hdrop.yields.mono ?_
      rintro ⟨seg, err⟩ w₁ ⟨⟨herr, -⟩, hdirty⟩
      obtain rfl : err = none := herr
      simp only [Cell.goto_procs, Function.update_self, true_and]
      exact hdirty.trans hclean

/-- The sections of a flush of a segment nobody else is in. -/
lemma next_sweeps (hinv : CellInv sp law w c a) (hf : Faultless sp.env)
    (hflush : (c.procs u).Flushes) (h : c.Sweeping u) {m : Go σ (Cell σ)}
    (hnext : c.next sp u = some m) :
    Yields m w fun c' _ => c'.Sweeping u ∧ (c'.seg.dirty = true → c.seg.dirty = true) := by
  have hgood := next_flushes (w := w) hinv hf hnext hflush h.lockable
  have hclean : Yields m w fun c' _ => ((c'.procs u).Past → ¬ (c'.procs u).Failed →
      c'.seg.dirty = false) ∧ (c'.seg.dirty = true → c.seg.dirty = true) := by
    obtain ⟨buffered, hcall⟩ := hflush
    obtain ⟨p, ht, hsection⟩ := Cell.next_section hnext
    have hpast := h.clean
    rw [ht] at hcall hpast
    cases hsection with
    | startRead _ => cases hcall
    | startWrite _ => cases hcall
    | startFlush =>
      rw [yields_pure, Cell.goto_procs, Function.update_self]
      refine ⟨fun hp _ => ?_, id⟩
      by_cases hd : c.seg.dirty = true
      · rw [if_pos hd] at hp
        exact absurd hp not_false
      · simpa using hd
    | delete _ => cases hcall
    | read _ => cases hcall
    | write _ => cases hcall
    | rLock _ =>
      rw [yields_pure, Cell.rLock]
      cases c.seg.localFile with
      | none =>
        simp only [Cell.goto_procs, Function.update_self, Cell.goto_seg]
        exact ⟨fun _ hnot => absurd ⟨_, rfl⟩ hnot, id⟩
      | some file =>
        simp only [Cell.goto_procs, Function.update_self, Cell.goto_seg]
        exact ⟨fun hp => absurd hp not_false, id⟩
    | snapshot _ =>
      simp only [Cell.snapshot, yields_bind]
      rintro (e | src) w₁ -
      · simp
      · simp
    | send =>
      simp only [Cell.send, yields_bind, yields_pure, Cell.goto_seg]
      exact fun _ _ _ => ⟨fun _ _ => hpast trivial, id⟩
    | @finish errand file item =>
      have hdirty : c.seg.dirty = false := hpast trivial
      cases errand with
      | evict => cases hcall
      | flush buffered =>
        cases item with
        | error e => simp [Cell.finish, hdirty]
        | ok item =>
          simp only [Cell.finish, yields_bind]
          rintro (_ | e) w₁ - <;> simp [hdirty]
  intro c' w' hrun
  obtain ⟨hlock, hnil⟩ := hgood c' w' hrun
  obtain ⟨hpast, hdirty⟩ := hclean c' w' hrun
  exact ⟨⟨hlock, hnil, fun hp => hpast hp hnil⟩, hdirty⟩

end Sections

/-! ## The flush of a `Close` -/

/-- No segment is dirty. -/
def DevState.AllClean (s : DevState σ) : Prop := ∀ c ∈ s.cells, c.seg.dirty = false

lemma DevState.AllClean.set {s s' : DevState σ} {i : ℕ} {c' : Cell σ} (h : s.AllClean)
    (hcells : s'.cells = s.cells.set i c') (hclean : c'.seg.dirty = false) : s'.AllClean := by
  intro c hc
  rw [hcells] at hc
  rcases List.mem_or_eq_of_mem_set hc with hc | rfl
  · exact h c hc
  · exact hclean

/-- What the flush of a `Close` has achieved: no dirty segment is behind it. -/
def FlushState.Sweeps (s : DevState σ) (f : ℕ) : FlushState → Prop
  | looking next found =>
    ∀ (i : ℕ) (c : Cell σ), s.cells[i]? = some c → c.seg.dirty = true → next ≤ i ∨ i ∈ found
  | starting _ todo running err =>
    err = none ∧
      (∀ (i : ℕ) (c : Cell σ), s.cells[i]? = some c → c.seg.dirty = true → i ∈ todo ∨ i ∈ running) ∧
      ∀ i ∈ running, ∀ c : Cell σ, s.cells[i]? = some c → c.Sweeping (flusherID f)
  | returned err => err = none ∧ s.AllClean

namespace FlushState

variable {sp : StoreParams σ} {law : Plain sp.container} {concurFlush : ℕ} {s s' : DevState σ}
  {f : ℕ} {old new : FlushState}

/-- A sweep does not see what a `goto` changes. -/
lemma sweeps_congr (hcells : s'.cells = s.cells) (h : old.Sweeps s f) : old.Sweeps s' f := by
  cases old with
  | looking next found =>
    simp only [Sweeps, hcells]
    exact h
  | starting seen todo running err =>
    simp only [Sweeps, hcells]
    exact h
  | returned err => exact ⟨h.1, by rw [DevState.AllClean, hcells]; exact h.2⟩

/-- **One step of the flush of a `Close`.** -/
lemma Sweeps.move (h : old.Sweeps s f) (hf : Faultless sp.env) (hcells : DevCells sp law s)
    (hflushers : s.Flushers) (hold : s.flushes[f]? = some old)
    (hmove : DevState.FlushMove sp concurFlush s s' f old new) : new.Sweeps s' f := by
  have horderly := hflushers.orderly f old hold
  cases hmove with
  | @look next found c hsame hc =>
    apply sweeps_congr hsame.1
    intro i ci hi hd
    rcases h i ci hi hd with hle | hmem
    · rcases hle.eq_or_lt with rfl | hlt
      · obtain rfl := Option.some.inj (hc.symm.trans hi)
        simp [hd]
      · exact .inl hlt
    · split_ifs
      · exact .inr (List.mem_append_left _ hmem)
      · exact .inr hmem
  | @looked next found hsame hend =>
    apply sweeps_congr hsame.1
    -- the look is through: every dirty segment has been found
    have hfound : ∀ (i : ℕ) (c : Cell σ), s.cells[i]? = some c → c.seg.dirty = true →
        i ∈ found := by
      intro i c hi hd
      have hlt := (List.getElem?_eq_some_iff.mp hi).1
      have hle := List.getElem?_eq_none_iff.mp hend
      exact (h i c hi hd).resolve_left (by omega)
    split_ifs with hnil
    · refine ⟨rfl, fun c hc => ?_⟩
      obtain ⟨i, hi⟩ := List.getElem?_of_mem hc
      by_contra hd
      have hmem := hfound i c hi (by simpa using hd)
      simp [hnil] at hmem
    · exact ⟨rfl, fun i c hi hd => .inl (hfound i c hi hd), fun i hi => by cases hi⟩
  | @recheck i todo running err c hsame hc =>
    obtain ⟨herr, hdirty, hsweeping⟩ := h
    apply sweeps_congr hsame.1
    split_ifs with hd
    · exact ⟨herr, hdirty, hsweeping⟩
    · refine ⟨herr, fun j cj hj hdj => ?_, hsweeping⟩
      rcases hdirty j cj hj hdj with hmem | hmem
      · rcases List.mem_cons.mp hmem with rfl | hmem
        · obtain rfl := Option.some.inj (hc.symm.trans hj)
          exact absurd hdj hd
        · exact .inl hmem
      · exact .inr hmem
  | @spawn i todo running err buffered c _ hc hidle _ hcells' =>
    obtain ⟨herr, hdirty, hsweeping⟩ := h
    have hi : i ∉ running := fun hmem =>
      (List.nodup_cons.mp horderly.1).1 (List.mem_append_right _ hmem)
    refine ⟨herr, fun j cj hj hdj => ?_, fun j hj cj hcj => ?_⟩
    · have hold : ∃ c', s.cells[j]? = some c' ∧ c'.seg.dirty = true := by
        rcases getElem?_set_cases (hcells' ▸ hj) with ⟨rfl, rfl⟩ | ⟨-, hj⟩
        · exact ⟨c, hc, hdj⟩
        · exact ⟨cj, hj, hdj⟩
      obtain ⟨c', hc', hd'⟩ := hold
      rcases hdirty j c' hc' hd' with hmem | hmem
      · rcases List.mem_cons.mp hmem with rfl | hmem
        · exact .inr (List.mem_cons_self ..)
        · exact .inl hmem
      · exact .inr (List.mem_cons_of_mem i hmem)
    · rcases getElem?_set_cases (hcells' ▸ hcj) with ⟨rfl, rfl⟩ | ⟨hij, hcj⟩
      · have hproc : (c.goto (flusherID f) (.called (.flush buffered))).procs (flusherID f) =
            .called (.flush buffered) := Function.update_self ..
        refine ⟨fun hl => ?_, ?_, fun hp => ?_⟩
        · rw [hproc] at hl
          cases hl
        · rw [hproc]
          rintro ⟨e, he⟩
          cases he
        · rw [hproc] at hp
          exact absurd hp not_false
      · exact hsweeping j ((List.mem_cons.mp hj).resolve_left hij) cj hcj
  | @work i todo running seen err c c' m hi hmoves =>
    obtain ⟨herr, hdirty, hsweeping⟩ := h
    obtain ⟨-, a, hinv⟩ := hcells.cell i c hmoves.cell
    -- only segment `i` changes, and it stays in `running`
    have hflush : (c.procs (flusherID f)).Flushes := hflushers.call_of_moves hold hi hmoves
    obtain ⟨hsweep, hkeeps⟩ := next_sweeps hinv hf hflush (hsweeping i hi c hmoves.cell) hmoves.next
      c' s'.world hmoves.run
    refine ⟨herr, fun j cj hj hdj => ?_, fun j hj cj hcj => ?_⟩
    · rcases getElem?_set_cases (hmoves.cells ▸ hj) with ⟨rfl, rfl⟩ | ⟨-, hj⟩
      · exact .inr hi
      · exact hdirty j cj hj hdj
    · rcases getElem?_set_cases (hmoves.cells ▸ hcj) with ⟨rfl, rfl⟩ | ⟨-, hcj⟩
      · exact hsweep
      · exact hsweeping j hj cj hcj
  | @collect i todo running seen err segErr c hi hc hdone _ hcells' =>
    obtain ⟨herr, hdirty, hsweeping⟩ := h
    -- a `Flush` that is through has left its segment clean, and returned nil
    have hsweep := hsweeping i hi c hc
    have hclean : c.seg.dirty = false := hsweep.clean (by rw [hdone]; trivial)
    have hnil : segErr = none := by
      cases segErr with
      | none => rfl
      | some e => exact absurd ⟨e, hdone⟩ hsweep.nil
    have hnodup : running.Nodup := (List.nodup_append.mp horderly.1).2.1
    refine ⟨by rw [herr, hnil]; rfl, fun j cj hj hdj => ?_, fun j hj cj hcj => ?_⟩
    · rcases getElem?_set_cases (hcells' ▸ hj) with ⟨rfl, rfl⟩ | ⟨hij, hj⟩
      · rw [Cell.goto_seg, hclean] at hdj
        cases hdj
      · exact (hdirty j cj hj hdj).imp_right (List.mem_erase_of_ne hij).mpr
    · have hji : j ≠ i := by
        rintro rfl
        exact hnodup.not_mem_erase hj
      rw [hcells', List.getElem?_set_ne (Ne.symm hji)] at hcj
      exact hsweeping j (List.mem_of_mem_erase hj) cj hcj
  | finish hsame =>
    obtain ⟨herr, hdirty, -⟩ := h
    apply sweeps_congr hsame.1
    refine ⟨by rw [herr]; rfl, fun c hc => ?_⟩
    obtain ⟨i, hi⟩ := List.getElem?_of_mem hc
    by_contra hd
    simpa using hdirty i c hi (by simpa using hd)

end FlushState

/-! ## The client that closes -/

/-- What the client of a `Close` has achieved. -/
def Client.Closes (s : DevState σ) (t : ℕ) : Client → Prop
  | closing f => ∃ state, s.flushes[f]? = some state ∧ state.Sweeps s f
  | dropping _ err => err = none ∧ s.AllClean
  | deleting i err => err = none ∧ s.AllClean ∧
    (s.proc i (clientID t) = .called .deleteFile ∨ s.proc i (clientID t) = .done (.deleted none))
  | done (.closed err) => err = none
  | _ => True

/-- Every `Close` returns nil, and behind its flush everything is clean. -/
structure CloseInv (s : DevUse σ) : Prop where
  closes : ∀ t, (s.clients t).Closes s.dev t
  clean : s.shutdown = true → (∀ t f, s.clients t ≠ .closing f) → s.dev.AllClean

namespace CloseInv

variable {sp : StoreParams σ} {law : Plain sp.container} {totalBytes concurFlush : ℕ}
  {s s' : DevUse σ} {t : ℕ} {p : Client} {dev : DevState σ} {mu : OpLock} {shutdown : Bool}

/-- Only a client that owns `pendingOpMu` closes. -/
lemma closes_of_stage {dev : DevState σ} (h : p.stage ≠ .owning) : p.Closes dev t := by
  cases p with
  | closing f => exact absurd rfl h
  | dropping i err => exact absurd rfl h
  | deleting i err => exact absurd rfl h
  | done res =>
    cases res with
    | closed err => exact absurd rfl h
    | _ => trivial
  | _ => trivial

lemma of_open (h : Linked sp s) (hopen : s.shutdown = false) : CloseInv s where
  closes t := by
    apply closes_of_stage
    intro hstage
    have := (h.locks.owning t hstage).2
    rw [hopen] at this
    cases this
  clean hshut := by
    rw [hopen] at hshut
    cases hshut

lemma owner_unique (h : Linked sp s) {u : ℕ} (ht : (s.clients t).stage = .owning)
    (hu : (s.clients u).stage = .owning) : u = t := by
  have hwt := (h.locks.writer t).mpr (.inr ht)
  have hwu := (h.locks.writer u).mpr (.inr hu)
  exact Option.some.inj (hwu.symm.trans hwt)

/-- The owner is all there is to look at. -/
lemma of_owner (h : Linked sp s) (hstage : (s.clients t).stage = .owning)
    (hcloses : (s.clients t).Closes s.dev t)
    (hclean : (∀ f, s.clients t ≠ .closing f) → s.dev.AllClean) : CloseInv s where
  closes u := by
    by_cases hu : (s.clients u).stage = .owning
    · obtain rfl := owner_unique h hstage hu
      exact hcloses
    · exact closes_of_stage hu
  clean _ hnot := hclean (hnot t)

/-- A step of a client that neither closes before it nor after it. -/
lemma bystander (h : CloseInv s) (hold : ∀ f, s.clients t ≠ .closing f) (hnew : p.Closes s.dev t)
    (mu : OpLock) : CloseInv ({ s with mu }.goto t p) where
  closes u := by
    simp only [DevUse.goto]
    by_cases hu : u = t
    · subst hu
      rwa [Function.update_self]
    · rw [Function.update_of_ne hu]
      exact h.closes u
  clean hshut hclosing := by
    refine h.clean hshut fun u f hu => ?_
    by_cases hut : u = t
    · exact hold f (hut ▸ hu)
    · refine hclosing u f ?_
      simpa only [DevUse.goto, Function.update_of_ne hut] using hu

/-- A flush on a device that has been shut down is that of the `Close`. -/
lemma flush_closing (hlinked : Linked sp s) (hshut : s.shutdown = true) {f : ℕ} {state : FlushState}
    (hstate : s.dev.flushes[f]? = some state) (hnot : ∀ err, state ≠ .returned err) :
    ∃ t, s.clients t = .closing f := by
  obtain ⟨t, ht⟩ := hlinked.awaited f state hstate hnot
  refine ⟨t, ?_⟩
  cases hp : s.clients t with
  | flushing g =>
    have := hlinked.locks.working t (by rw [hp]; rfl)
    rw [hshut] at this
    cases this
  | closing g =>
    rw [hp] at ht
    exact congrArg _ (Option.some.inj ht)
  | _ =>
    rw [hp] at ht
    cases ht

lemma ofFlush (h : CloseInv s) (hlinked : Linked sp s) (hf : Faultless sp.env)
    (hcells : DevCells sp law s.dev) {e : DevEvent} (he : e.OfFlush)
    (hstep : s.dev.step sp concurFlush e = some dev) : CloseInv { s with dev } := by
  have hlinked' : Linked sp { s with dev } := hlinked.ofFlush he hstep
  by_cases hopen : s.shutdown = false
  · exact of_open hlinked' hopen
  · have hshut : s.shutdown = true := by simpa using hopen
    obtain ⟨f, old, new, hold, hflushes, hmove⟩ := DevState.step_ofFlush he hstep
    obtain ⟨t, ht⟩ := flush_closing hlinked hshut hold hmove.unfinished
    have hsweeps : old.Sweeps s.dev f := by
      have hcloses := h.closes t
      rw [ht] at hcloses
      obtain ⟨state, hstate, hsweeps⟩ := hcloses
      rwa [Option.some.inj (hold.symm.trans hstate)]
    have hlen : f < s.dev.flushes.length := (List.getElem?_eq_some_iff.mp hold).1
    apply of_owner (t := t) hlinked'
    · simp only [ht]
      rfl
    · simp only [ht]
      refine ⟨new, ?_, hsweeps.move hf hcells hlinked.flushers hold hmove⟩
      rw [hflushes, List.getElem?_set_self hlen]
    · intro hnot
      exact absurd ht (hnot f)

lemma ne_closing_of_stage (h : p.stage ≠ .owning) (f : ℕ) : p ≠ .closing f := by
  rintro rfl
  exact h rfl

/-- The client of a `Close` gives up the file of a segment, and that works. -/
lemma moves_deleting (hf : Faultless sp.env) (hcells : DevCells sp law s.dev) {i : ℕ}
    (hclean : s.dev.AllClean)
    (hproc : s.dev.proc i (clientID t) = .called .deleteFile ∨
      s.dev.proc i (clientID t) = .done (.deleted none))
    (hstep : s.dev.step sp concurFlush (.move i t) = some dev) :
    dev.AllClean ∧ dev.proc i (clientID t) = .done (.deleted none) := by
  obtain ⟨-, c, c', m, hmoves⟩ := DevState.step_move hstep
  obtain ⟨-, a, hinv⟩ := hcells.cell i c hmoves.cell
  rw [DevState.proc_eq hmoves.cell] at hproc
  have hcalled : c.procs (clientID t) = .called .deleteFile := by
    rcases hproc with hproc | hproc
    · exact hproc
    · obtain ⟨call, hcall, -⟩ := next_continues (w := s.dev.world) hmoves.next
      rw [hproc] at hcall
      cases hcall
  obtain ⟨hdone, hdirty⟩ := next_deletes hinv hf.reliable (hcells.holding_le hmoves.cell) hcalled
    (hclean c (List.mem_of_getElem? hmoves.cell)) hmoves.next c' dev.world hmoves.run
  refine ⟨hclean.set hmoves.cells hdirty, ?_⟩
  have hc' : dev.cells[i]? = some c' := by
    rw [hmoves.cells, List.getElem?_set_self (List.getElem?_eq_some_iff.mp hmoves.cell).1]
  rw [DevState.proc_eq hc', hdone]

lemma stage_enter_ne (readOp : Bool) (buf : Bytes) (pos : ℕ) :
    (s.enter sp totalBytes readOp buf pos).stage ≠ .owning := by
  obtain ⟨h, -⟩ | h : (s.enter sp totalBytes readOp buf pos).stage = .working ∧ s.shutdown = false ∨
      (s.enter sp totalBytes readOp buf pos).stage = .leaving := DevUse.stage_enter readOp buf pos
  · simp [h]
  · simp [h]

section Advancing

variable (h : CloseInv s) (hlinked : Linked sp s) (hf : Faultless sp.env)
  (hcells : DevCells sp law s.dev) (hpos : 0 < sp.segmentBytes)

include h hlinked hf hcells hpos

/-- A client of a device that has been shut down goes on. -/
lemma advance_shut (hshut : s.shutdown = true)
    (hadv : DevUse.Advance sp totalBytes concurFlush s t (s.clients t) p dev mu shutdown) :
    CloseInv ⟨dev, mu, shutdown, Function.update s.clients t p⟩ := by
  have hlinked' := hlinked.advance hpos hadv
  have hnot : (s.clients t).stage ≠ .working := by
    intro hstage
    have := hlinked.locks.working t hstage
    rw [hshut] at this
    cases this
  have hopen : s.shutdown ≠ false := by simp [hshut]
  have hcloses := h.closes t
  generalize hp : s.clients t = q at hadv hnot hcloses
  -- a client that waits for the lock, or leaves
  have hother : ∀ {mu : OpLock}, q.stage ≠ .owning → p.Closes s.dev t → (∀ f, p ≠ .closing f) →
      CloseInv ⟨s.dev, mu, s.shutdown, Function.update s.clients t p⟩ := by
    intro mu hq hnew hne
    refine h.bystander (fun f => ?_) hnew mu
    rw [hp]
    exact ne_closing_of_stage hq f
  -- the client of the `Close`, its flush done
  have howner : ∀ {dev : DevState σ} {mu : OpLock} {shutdown : Bool},
      Linked sp ⟨dev, mu, shutdown, Function.update s.clients t p⟩ → p.stage = .owning →
      p.Closes dev t → dev.AllClean →
      CloseInv ⟨dev, mu, shutdown, Function.update s.clients t p⟩ := by
    intro dev mu shutdown hl hstage hcl hclean
    refine of_owner (t := t) hl ?_ ?_ fun _ => hclean
    · simpa only [Function.update_self] using hstage
    · simpa only [Function.update_self] using hcl
  cases hadv with
  | readAt _ =>
    exact hother (by simp [Client.stage]) (closes_of_stage (stage_enter_ne _ _ _))
      (ne_closing_of_stage (stage_enter_ne _ _ _))
  | writeAt _ =>
    exact hother (by simp [Client.stage]) (closes_of_stage (stage_enter_ne _ _ _))
      (ne_closing_of_stage (stage_enter_ne _ _ _))
  | flushShut _ _ => exact hother (by simp [Client.stage]) trivial (by simp)
  | flush _ ho _ => exact absurd ho hopen
  | close _ => exact hother (by simp [Client.stage]) trivial (by simp)
  | loop => exact absurd rfl hnot
  | access _ => exact absurd rfl hnot
  | scan _ => exact absurd rfl hnot
  | nothing _ => exact absurd rfl hnot
  | evict _ _ => exact absurd rfl hnot
  | flushed _ => exact absurd rfl hnot
  | closedBefore _ _ => exact hother (by simp [Client.stage]) rfl (by simp)
  | shut _ ho _ => exact absurd ho hopen
  | @closeFlushed f err hflush =>
    obtain ⟨state, hstate, hsweeps⟩ := hcloses
    obtain rfl := Option.some.inj (hflush.symm.trans hstate)
    obtain ⟨rfl, hclean⟩ := hsweeps
    unfold DevUse.flushed at hlinked' howner ⊢
    simp only at hlinked' howner ⊢
    split_ifs at hlinked' howner ⊢
    · exact howner hlinked' rfl rfl hclean
    · exact howner hlinked' rfl ⟨rfl, hclean⟩ hclean
  | @drop i err dev hdev =>
    obtain ⟨rfl, hclean⟩ := hcloses
    obtain ⟨-, -, -, c, hc, -, hset⟩ := DevState.step_call hdev
    have hclean' : dev.AllClean := hclean.set hset (hclean c (List.mem_of_getElem? hc))
    refine howner hlinked' rfl ⟨rfl, hclean', .inl ?_⟩ hclean'
    rw [(DevState.goes_call hdev).proc]
    simp
  | dropped _ =>
    obtain ⟨rfl, hclean⟩ := hcloses
    exact howner hlinked' rfl rfl hclean
  | @move _ i call dev hin hdev =>
    cases p with
    | deleting j err =>
      obtain ⟨rfl, rfl⟩ := Prod.mk.inj (Option.some.inj hin)
      obtain ⟨rfl, hclean, hproc⟩ := hcloses
      obtain ⟨hclean', hproc'⟩ := moves_deleting hf hcells hclean hproc hdev
      exact howner hlinked' rfl ⟨rfl, hclean', .inr hproc'⟩ hclean'
    | accessing io tries => exact absurd rfl hnot
    | evicting io tries count idx => exact absurd rfl hnot
    | _ => cases hin
  | @ret q i call res c dev hin hc hdone hdev =>
    cases q with
    | deleting j err =>
      obtain ⟨rfl, rfl⟩ := Prod.mk.inj (Option.some.inj hin)
      obtain ⟨rfl, hclean, hproc⟩ := hcloses
      rw [DevState.proc_eq hc, hdone] at hproc
      have hres : res = .deleted none := by
        rcases hproc with hproc | hproc
        · cases hproc
        · exact Proc.done.inj hproc
      subst hres
      obtain ⟨-, -, c', -, hc', -, hset⟩ := DevState.step_ret hdev
      have hclean' : dev.AllClean := hclean.set hset (hclean c' (List.mem_of_getElem? hc'))
      exact howner hlinked' rfl ⟨rfl, hclean'⟩ hclean'
    | accessing io tries => exact absurd rfl hnot
    | evicting io tries count idx => exact absurd rfl hnot
    | _ => cases hin

lemma advance
    (hadv : DevUse.Advance sp totalBytes concurFlush s t (s.clients t) p dev mu shutdown) :
    CloseInv ⟨dev, mu, shutdown, Function.update s.clients t p⟩ := by
  have hlinked' := hlinked.advance hpos hadv
  by_cases hshut : s.shutdown = true
  · exact h.advance_shut hlinked hf hcells hpos hshut hadv
  by_cases hopen : shutdown = false
  · exact of_open hlinked' hopen
  -- the device is shut down in this step
  generalize hp : s.clients t = q at hadv
  cases hadv with
  | @shut dev _ _ hdev =>
    obtain rfl : { s.dev with flushes := s.dev.flushes ++ [.looking 0 []] } = dev :=
      Option.some.inj hdev
    refine of_owner (t := t) hlinked' ?_ ?_ fun hne => ?_
    · simp only [Function.update_self]
      rfl
    · simp only [Function.update_self]
      exact ⟨.looking 0 [], by simp, fun i c _ _ => .inl (Nat.zero_le i)⟩
    · exact absurd (Function.update_self ..) (hne s.dev.flushes.length)
  | _ => simp_all

lemma step {e : UseEvent} (hstep : s.step sp totalBytes concurFlush e = some s') : CloseInv s' := by
  cases DevUse.step_stepped hstep with
  | @call t call hp => exact h.bystander (p := .called call) (by simp [hp]) trivial s.mu
  | advance hadv => exact h.advance hlinked hf hcells hpos hadv
  | flush he hdev => exact h.ofFlush hlinked hf hcells he hdev
  | ret hp => exact h.bystander (p := .idle) (by simp [hp]) trivial _

end Advancing

end CloseInv

/-! ## A device that has been closed -/

section Closed

variable {sp : StoreParams σ} {law : Plain sp.container} {disk : Bytes}

/-- With no goroutine in it, a device is what it is to one client at a time. -/
lemma DevDisk.sound {s : DevState σ} (h : DevDisk sp law s disk) (hf : Faultless sp.env)
    (hidle : ∀ i u, s.proc i u = .idle) :
    DevSound sp law.toFaithful s.world (s.cells.map Cell.seg) disk := by
  have hquiet : ∀ (i : ℕ) (c : Cell σ), s.cells[i]? = some c → c.seg.ID = i ∧
      SegInv sp law.toFaithful s.world c.seg (segSlice sp disk i) ∧
      Kept sp law.toFaithful s.world c.seg := by
    intro i c hc
    obtain ⟨hid, written, hinv⟩ := h.cell i c hc
    have hitem : c.itemMu = none := by
      by_contra hne
      obtain ⟨u, hu⟩ := Option.ne_none_iff_exists'.mp hne
      have herrand := (hinv.locks.itemMu u).mp hu
      rw [← DevState.proc_eq hc, hidle] at herrand
      simp [Proc.errand?] at herrand
    have hback := hinv.backing
    rw [Cell.flight_eq_none hitem] at hback
    cases hback with
    | quiet hseg hkept _ => exact ⟨hid, hseg, hkept hf⟩
  refine ⟨⟨?_, fun i seg hseg => ?_, ?_, h.cap⟩, fun seg hseg => ?_, ?_⟩
  · rw [List.length_map]
    exact h.length_eq
  · rw [List.getElem?_map] at hseg
    obtain ⟨c, hc, rfl⟩ := Option.map_eq_some_iff.mp hseg
    obtain ⟨hid, hinv, -⟩ := hquiet i c hc
    exact ⟨hid, hinv⟩
  · rw [List.map_map]
    exact h.held_eq
  · obtain ⟨c, hc, rfl⟩ := List.mem_map.mp hseg
    obtain ⟨i, hi⟩ := List.getElem?_of_mem hc
    exact (hquiet i c hi).2.2
  · rw [List.length_map]
    exact h.noStray

lemma exists_clientID_or_flusherID (u : ℕ) : (∃ t, u = clientID t) ∨ ∃ f, u = flusherID f := by
  rcases Nat.even_or_odd' u with ⟨k, rfl | rfl⟩
  · exact .inl ⟨k, rfl⟩
  · exact .inr ⟨k, rfl⟩

/-- Once the device is shut down and nobody owns `pendingOpMu`, no goroutine is in a segment. -/
lemma Linked.proc_idle {s : DevUse σ} (h : Linked sp s) (hshut : s.shutdown = true)
    (hfree : ∀ t, (s.clients t).stage ≠ .owning) (i u : ℕ) : s.dev.proc i u = .idle := by
  rcases exists_clientID_or_flusherID u with ⟨t, rfl⟩ | ⟨f, rfl⟩
  · refine h.outside t i fun call hcall => ?_
    have hnot := hfree t
    have hworking := h.locks.working t
    rw [hshut] at hworking
    cases hp : s.clients t with
    | accessing io tries => simp [hp, Client.stage] at hworking
    | evicting io tries count idx => simp [hp, Client.stage] at hworking
    | deleting j err => exact hnot (by rw [hp]; rfl)
    | _ =>
      rw [hp] at hcall
      cases hcall
  · refine h.flushers.idle f i fun hmem => ?_
    cases hstate : s.dev.flushes[f]? with
    | none => simp [DevState.running, hstate] at hmem
    | some state =>
      rw [DevState.running_eq hstate] at hmem
      have hunfinished : ∀ err, state ≠ .returned err := by
        rintro err rfl
        cases hmem
      obtain ⟨t, ht⟩ := CloseInv.flush_closing h hshut hstate hunfinished
      exact hfree t (by rw [ht]; rfl)

/-- **What a closed device leaves behind**: the container stores the disk, and a copy in the cache
directory is a copy of it. -/
lemma DevDisk.stored {s : DevUse σ} (h : DevDisk sp law s.dev disk) (hf : Faultless sp.env)
    (hlinked : Linked sp s) (hclose : CloseInv s) (hshut : s.shutdown = true)
    (hfree : ∀ t, (s.clients t).stage ≠ .owning) :
    StoredDisk sp law.toFaithful s.dev.world.store s.dev.cells.length disk ∧
      ∀ i, i < s.dev.cells.length →
        sp.CacheOf s.dev.world.files (sp.itemName (itoa i)) (segSlice sp disk i) := by
  have hclean : s.dev.AllClean := by
    refine hclose.clean hshut fun t f ht => hfree t ?_
    rw [ht]
    rfl
  have hstored := (h.sound hf (hlinked.proc_idle hshut hfree)).stored fun seg hseg => by
    obtain ⟨c, hc, rfl⟩ := List.mem_map.mp hseg
    exact hclean c hc
  simpa only [List.length_map] using hstored

end Closed

end Usbd
