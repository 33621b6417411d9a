import Usbd.Objstore.FlushErrors
import Usbd.Objstore.SharedQuota

/-!
# The disk a device in use stands for

`DevDisk` says of the segments of a device, with all their goroutines in whatever sections they are,
that each stands for its slice of one disk.  A section of a segment's call moves the device from a
disk to a disk: `Effected` lists what it can come to without faults.  A read returns its slice and a
write changes it in the section that has the local file; a write of all zeros may change nothing,
where there is no local file; and a call may find no permit, and then nothing has happened.  An
eviction does not fail.  `DevDisk.moves` is the step lemma.
-/

namespace Usbd

open ListMemory Prog

variable {σ : Type}

/-- The segments stand for the slices of a disk, and there are no other objects. -/
structure DevDisk (sp : StoreParams σ) (law : Plain sp.container) (s : DevState σ) (disk : Bytes) :
    Prop where
  length_eq : disk.length = s.cells.length * sp.segmentBytes
  cell : ∀ (i : ℕ) (c : Cell σ), s.cells[i]? = some c →
    c.seg.ID = i ∧ ∃ written, CellInv sp law s.world c ⟨segSlice sp disk i, written⟩
  held_eq : s.world.held = (s.cells.map fun c => c.seg.holding sp).sum
  cap : ∀ permits, sp.quotaSema = some permits → s.world.held ≤ permits
  noStray : NoStray sp law.toFaithful s.world.store s.cells.length

/-- A read or write. -/
def SegCall.MovesBytes : SegCall → Prop
  | readAt _ _ => True
  | writeAt _ _ => True
  | flush _ => False
  | deleteFile => False

/-- The result of a call for which there was no permit. -/
def SegCall.refusal (e : GoError) : SegCall → SegResult
  | readAt buf _ => .read buf 0 (some e)
  | writeAt _ _ => .wrote 0 (some e)
  | flush _ => .flushed (some e)
  | deleteFile => .deleted (some e)

/-- What a section of a segment's call comes to: what its goroutine is at then, and the disk. -/
inductive Effected (sp : StoreParams σ) (disk : Bytes) (i : ℕ) : SegCall → Proc σ → Bytes → Prop
  | goes {call : SegCall} {p : Proc σ} (hgoes : p.call? = some call) :
      Effected sp disk i call p disk
  | read (buf : Bytes) (pos : ℕ) : Effected sp disk i (.readAt buf pos)
      (.done (.read (slice disk (i * sp.segmentBytes + pos) buf.length) buf.length none)) disk
  | wrote (buf : Bytes) (pos : ℕ) : Effected sp disk i (.writeAt buf pos)
      (.done (.wrote buf.length none)) (overwrite 0 disk (i * sp.segmentBytes + pos) buf)
  | skips {buf : Bytes} {pos : ℕ} (hzeros : isZeros buf = true) :
      Effected sp disk i (.writeAt buf pos) (.done (.wrote buf.length none)) disk
  | refused {call : SegCall} {e : GoError} (hmoves : call.MovesBytes) (hquota : sp.quotaSema ≠ none)
      (he : e.is errCapacityClaim = true) : Effected sp disk i call (.done (call.refusal e)) disk
  | flushed (buffered : Bool) (err : Option GoError) :
      Effected sp disk i (.flush buffered) (.done (.flushed err)) disk
  | deleted : Effected sp disk i .deleteFile (.done (.deleted none)) disk

/-! ## A call without a permit -/

section Sections

variable {sp : StoreParams σ} {law : Plain sp.container} {w : World σ} {seg : Segment σ}
  {c : Cell σ} {u : ℕ} {a : SegArray}

/-- Without a permit `loadFile` has no file, and an error only for want of the permit. -/
lemma loadFile_refused (hroom : ¬ sp.Room w) (habsent : seg.localFile = none) (createWrite : Bool) :
    Yields (seg.loadFile sp createWrite) w fun r _ =>
      (∃ e, r.2 = .error e ∧ e.is errCapacityClaim = true) ∨
        createWrite = false ∧ r.2 = .ok none := by
  obtain ⟨permits, hq, hle⟩ := StoreParams.not_room_iff.mp hroom
  have hclaim := (StoreParams.claimCapacity_of_full hq hle).yields
  unfold Segment.loadFile
  simp only [habsent]
  cases seg.remoteItem with
  | some item =>
    simp only [StoreParams.downloadFile, yields_bind]
    refine hclaim.mono ?_
    rintro _ _ ⟨rfl, rfl⟩
    simp only [yields_pure]
    exact .inl ⟨_, rfl, GoError.is_wrap _ (GoError.is_self _)⟩
  | none =>
    cases createWrite with
    | false => simp
    | true =>
      simp only [if_true, StoreParams.createFile, yields_bind]
      refine hclaim.mono ?_
      rintro _ _ ⟨rfl, rfl⟩
      simp only [yields_pure]
      exact .inl ⟨_, rfl, GoError.is_wrap _ (GoError.is_self _)⟩

lemma readLoaded_refused (hroom : ¬ sp.Room w) (habsent : seg.localFile = none) {buf : Bytes}
    {pos : ℕ} (hle : pos + buf.length ≤ sp.segmentBytes) :
    Yields (seg.readLoaded sp buf pos) w fun r _ => ∀ e, r.2.2.2 = some e →
      r.2 = (buf, 0, some e) ∧ e.is errCapacityClaim = true := by
  simp only [Segment.readLoaded, yields_bind]
  refine (loadFile_refused hroom habsent false).mono ?_
  rintro ⟨seg₁, data⟩ w₁ (⟨e, hdata, he⟩ | ⟨-, hdata⟩)
  · obtain rfl : data = .error e := hdata
    rw [yields_pure]
    rintro _ ⟨⟩
    exact ⟨rfl, GoError.is_wrap _ he⟩
  · obtain rfl : data = .ok none := hdata
    have hshort : ¬ ((pos : ℤ) + buf.length > sp.segmentBytes) := by omega
    have hlen : ¬ ((buf.length : ℤ) < 0) := by omega
    simp [hshort, hlen]

lemma writeLoaded_refused (hroom : ¬ sp.Room w) (habsent : seg.localFile = none) (buf : Bytes)
    (pos : ℕ) :
    Yields (seg.writeLoaded sp buf pos) w fun r _ => ∀ e, r.2.2 = some e →
      r.2 = (0, some e) ∧ e.is errCapacityClaim = true := by
  simp only [Segment.writeLoaded, yields_bind]
  refine (loadFile_refused hroom habsent true).mono ?_
  rintro ⟨seg₁, data⟩ w₁ (⟨e, hdata, he⟩ | ⟨hcreate, -⟩)
  · obtain rfl : data = .error e := hdata
    rw [yields_pure]
    rintro _ ⟨⟩
    exact ⟨rfl, GoError.is_wrap _ he⟩
  · cases hcreate

/-- A read or write of a segment for which there is no permit leaves its buffer as it is, and has
done nothing. -/
lemma next_refused (hroom : ¬ sp.Room w) (habsent : c.seg.localFile = none) {call : SegCall}
    (hcall : (c.procs u).call? = some call)
    (hmoves : call.MovesBytes) (hrange : call.InRange sp.segmentBytes) {m : Go σ (Cell σ)}
    (hnext : c.next sp u = some m) :
    Yields m w fun c' _ => ∀ res e, c'.procs u = .done res → res.err = some e →
      res = call.refusal e ∧ e.is errCapacityClaim = true := by
  have herrand : ∀ errand : Errand, some errand.call ≠ some call := by
    intro errand herr
    obtain rfl := Option.some.inj herr
    cases errand <;> exact hmoves
  obtain ⟨p, ht, hsection⟩ := Cell.next_section hnext
  rw [ht] at hcall
  cases hsection with
  | startRead _ =>
    simp only [Cell.startRead, habsent, if_true, yields_bind, yields_pure]
    intro now w₁ _ res e hdone
    simp [Cell.goto_procs] at hdone
  | startWrite _ =>
    simp only [Cell.startWrite, habsent, yields_bind]
    intro now w₁ _
    split_ifs
    · rw [yields_pure]
      intro res e hdone herr
      obtain rfl : .wrote _ none = res := by simpa [Cell.goto_procs] using hdone
      cases herr
    · rw [yields_pure]
      intro res e hdone
      simp [Cell.goto_procs] at hdone
  | @read buf pos _ =>
    obtain rfl := Option.some.inj hcall
    simp only [Cell.read, yields_bind]
    refine (readLoaded_refused hroom habsent hrange).mono ?_
    rintro ⟨seg₁, got, count, err⟩ w₁ hrefused
    rw [yields_pure]
    intro res e hdone herr
    obtain rfl : .read got count err = res := by simpa [Cell.goto_procs] using hdone
    obtain ⟨hres, he⟩ := hrefused e herr
    obtain ⟨rfl, rfl, rfl⟩ : got = buf ∧ count = 0 ∧ err = some e := by simpa using hres
    exact ⟨rfl, he⟩
  | @write buf pos _ =>
    obtain rfl := Option.some.inj hcall
    simp only [Cell.write, yields_bind]
    refine (writeLoaded_refused hroom habsent buf pos).mono ?_
    rintro ⟨seg₁, count, err⟩ w₁ hrefused
    rw [yields_pure]
    intro res e hdone herr
    obtain rfl : .wrote count err = res := by simpa [Cell.goto_procs] using hdone
    obtain ⟨hres, he⟩ := hrefused e herr
    obtain ⟨rfl, rfl⟩ : count = 0 ∧ err = some e := by simpa using hres
    exact ⟨rfl, he⟩
  | @send errand _ _ => exact absurd hcall (herrand errand)
  | @finish errand _ _ => exact absurd hcall (herrand errand)
  | _ =>
    obtain rfl := Option.some.inj hcall
    exact absurd hmoves not_false

/-! ## An eviction -/

/-- The last part of an eviction does not fail. -/
lemma drop_nil {f : Option (Proc σ)} (h : Backing sp law w c.seg a f) (hr : Reliable sp.env)
    (hlocal : c.seg.localFile ≠ none) (hclean : c.seg.dirty = false)
    (hheld : c.seg.holding sp ≤ w.held) :
    Yields (c.drop sp u) w fun c' _ => ∀ err, c'.procs u = .done (.deleted err) → err = none := by
  simp only [Cell.drop, yields_bind]
  refine (h.drop hr hlocal hclean hheld).yields.mono ?_
  rintro ⟨seg₁, err₁⟩ w₁ ⟨hnil, -⟩
  rw [yields_pure]
  intro err hdone
  obtain rfl : err₁ = err := by simpa [Cell.goto_procs] using hdone
  exact hnil

/-- Without faults `DeleteFile` returns nil. -/
lemma next_evicts (h : CellInv sp law w c a) (hf : Faultless sp.env)
    (hheld : c.seg.holding sp ≤ w.held) (hcall : (c.procs u).call? = some .deleteFile)
    {m : Go σ (Cell σ)} (hnext : c.next sp u = some m) :
    Yields m w fun c' _ => ∀ err, c'.procs u = .done (.deleted err) → err = none := by
  obtain ⟨p, ht, hsection⟩ := Cell.next_section hnext
  rw [ht] at hcall
  cases hsection with
  | startFlush => cases hcall
  | startRead _ => cases hcall
  | startWrite _ => cases hcall
  | read _ => cases hcall
  | write _ => cases hcall
  | rLock _ => cases hcall
  | snapshot _ => cases hcall
  | delete _ =>
    unfold Cell.delete
    -- a dirty segment is uploaded in later sections, a clean one is dropped in this one
    split_ifs with hbacked hdirty
    · cases hfile : c.seg.localFile with
      | none => exact yields_stop _
      | some file =>
        obtain ⟨rfl, hdata⟩ := h.backing.opened hfile
        simp only [Cell.snapshot, yields_bind]
        refine (StoreParams.prepare_spec rfl hdata h.backing.length_eq _).yields.mono ?_
        rintro r w₁ ⟨-, hok, -⟩
        obtain rfl := hok hf
        simp [Cell.goto_procs]
    · have hlocal : c.seg.localFile ≠ none := by
        rw [← Option.isSome_iff_ne_none, ← h.backing.backed_eq, hbacked]
      exact drop_nil h.backing hf.reliable hlocal (by simpa using hdirty) hheld
    · simp [Cell.goto_procs]
  | send =>
    simp only [Cell.send, yields_bind, yields_pure]
    intro item w₁ _ err hdone
    simp [Cell.goto_procs] at hdone
  | @finish errand file item =>
    have herrand : (c.procs u).errand? = some errand := by
      rw [ht]
      rfl
    have hback : Backing sp law w c.seg a (some (.sent errand file item)) := by
      rw [← ht, ← Cell.flight_eq_some ((h.locks.itemMu u).mpr (by simp [herrand]))]
      exact h.backing
    obtain ⟨it, rfl, hcur⟩ : ∃ it, item = .ok it ∧
        ∃ o, law.Current w.store it (c.seg.name sp) o := by
      cases hback with
      | flight _ _ hup =>
        cases hup with
        | sent _ _ _ hcur hgood =>
          obtain ⟨it, rfl⟩ := hgood hf
          exact ⟨it, rfl, _, hcur it rfl⟩
    cases errand with
    | flush buffered => cases hcall
    | evict =>
      obtain ⟨o, hcur⟩ := hcur
      obtain ⟨hclean, hlocal⟩ := h.locks.evicts (by simp [(h.locks.writer u).mpr herrand])
      simp only [Cell.finish, yields_bind]
      refine (hback.finish.and_yields
        (StoreParams.finishSync_spec (law.etag_total hcur)).yields).yields.mono ?_
      rintro err w₁ ⟨⟨hback₁, hmove₁⟩, hnil, -⟩
      obtain rfl := hnil (hf .writeFile)
      have hheld₁ : Segment.holding sp { c.seg with remoteItem := some it } ≤ w₁.held := by
        have := hmove₁.held
        simp only [Segment.holding] at this hheld ⊢
        omega
      exact drop_nil hback₁ hf.reliable hlocal hclean hheld₁

end Sections

namespace DevDisk

variable {sp : StoreParams σ} {law : Plain sp.container} {s s' : DevState σ} {disk disk' : Bytes}
  {i u : ℕ} {c c' : Cell σ}

lemma new {segments : List (Segment σ)} {w : World σ}
    (h : DevSound sp law.toFaithful w segments disk) : DevDisk sp law (.new segments w) disk where
  length_eq := by
    rw [h.length_eq]
    simp [DevState.new]
  cell i c hc := by
    obtain ⟨seg, hseg, rfl⟩ := by simpa [DevState.new] using hc
    obtain ⟨hid, hinv⟩ := h.seg i seg hseg
    exact ⟨hid, _, CellInv.new hinv (h.kept seg (List.mem_of_getElem? hseg))⟩
  held_eq := (DevCells.new h).held_eq
  cap := h.cap
  noStray := by
    simp only [DevState.new, List.length_map]
    exact h.noStray

section Steps

variable (h : DevDisk sp law s disk)

include h

lemma devCells : DevCells sp law s where
  cell i c hc := by
    obtain ⟨hid, written, hinv⟩ := h.cell i c hc
    exact ⟨hid, _, hinv⟩
  held_eq := h.held_eq

lemma of_same (hcells : s'.cells = s.cells) (hworld : s'.world = s.world) :
    DevDisk sp law s' disk where
  length_eq := by rw [hcells]; exact h.length_eq
  cell := by rw [hcells, hworld]; exact h.cell
  held_eq := by rw [hcells, hworld]; exact h.held_eq
  cap := by rw [hworld]; exact h.cap
  noStray := by rw [hcells, hworld]; exact h.noStray

lemma set (hc : s.cells[i]? = some c) (hcells : s'.cells = s.cells.set i c')
    (hlen : disk'.length = disk.length)
    (hothers : ∀ j, j < s.cells.length → j ≠ i → segSlice sp disk' j = segSlice sp disk j)
    {written : Bool} (hinv : CellInv sp law s'.world c' ⟨segSlice sp disk' i, written⟩)
    (hmove : SegMove sp law.toFaithful s.world c.seg s'.world c'.seg)
    (hcap : ∀ permits, sp.quotaSema = some permits → s.world.held ≤ permits →
      s'.world.held ≤ permits) : DevDisk sp law s' disk' := by
  obtain ⟨hid, -⟩ := h.cell i c hc
  have hi : i < s.cells.length := (List.getElem?_eq_some_iff.mp hc).1
  refine ⟨by rw [hlen, h.length_eq, hcells, List.length_set], fun j cj hj => ?_, ?_,
    fun permits hq => hcap permits hq (h.cap permits hq), ?_⟩
  · rcases getElem?_set_cases (hcells ▸ hj) with ⟨rfl, rfl⟩ | ⟨hij, hj⟩
    · exact ⟨hmove.id_eq.trans hid, written, hinv⟩
    · obtain ⟨hidj, writtenj, hinvj⟩ := h.cell j cj hj
      rw [hothers j (List.getElem?_eq_some_iff.mp hj).1 hij]
      exact ⟨hidj, writtenj, hinvj.backing.frame hmove.frame (Segment.apart_name hidj hid hij),
        hinvj.locks⟩
  · exact (h.devCells.set hc hcells hinv hmove).held_eq
  · rw [hcells, List.length_set]
    exact h.noStray.frame hi (by rw [Segment.name, hid]) hmove.frame

lemma goto (hc : s.cells[i]? = some c) (hworld : s'.world = s.world) {p : Proc σ}
    (hcells : s'.cells = s.cells.set i (c.goto u p))
    (hinv : ∀ a, CellInv sp law s.world c a → CellInv sp law s.world (c.goto u p) a) :
    DevDisk sp law s' disk := by
  obtain ⟨-, written, hcell⟩ := h.cell i c hc
  apply h.set hc hcells rfl (fun _ _ _ => rfl)
  · rw [hworld]
    exact hinv _ hcell
  · rw [hworld]
    exact ⟨rfl, Frame.refl, rfl⟩
  · intro permits _ hle
    rwa [hworld]

lemma call (hc : s.cells[i]? = some c) (hworld : s'.world = s.world) {made : SegCall}
    (hidle : c.procs u = .idle) (hrange : made.InRange sp.segmentBytes)
    (hcells : s'.cells = s.cells.set i (c.goto u (.called made))) : DevDisk sp law s' disk :=
  h.goto hc hworld hcells fun _ hinv => hinv.call hrange hidle

lemma ret (hc : s.cells[i]? = some c) (hworld : s'.world = s.world) {res : SegResult}
    (hdone : c.procs u = .done res) (hcells : s'.cells = s.cells.set i (c.goto u .idle)) :
    DevDisk sp law s' disk :=
  h.goto hc hworld hcells fun _ hinv => hinv.ret hdone

lemma holding_le (hc : s.cells[i]? = some c) :
    c.seg.holding sp ≤ s.world.held :=
  h.devCells.holding_le hc

lemma slice_le (hi : i < s.cells.length) :
    i * sp.segmentBytes + sp.segmentBytes ≤ disk.length :=
  h.length_eq ▸ segment_end_le sp hi

lemma moves (hf : Faultless sp.env) (hs : sp.Sized) {m : Go σ (Cell σ)}
    (hmoves : DevState.Moves sp s s' i u c c' m)
    (hload : (c.procs u).Loads → CacheRun.LoadsWhole sp s.world c.seg) :
    ∃ call p disk', (c.procs u).call? = some call ∧ c'.procs = Function.update c.procs u p ∧
      Effected sp disk i call p disk' ∧ DevDisk sp law s' disk' := by
  obtain ⟨-, written, hinv⟩ := h.cell i c hmoves.cell
  have hle := h.slice_le (List.getElem?_eq_some_iff.mp hmoves.cell).1
  obtain ⟨p, a', hpass⟩ := (next_spec hinv hf.reliable hs hload (h.holding_le hmoves.cell)
    hmoves.next).eq hmoves.run
  obtain ⟨call, hcall, -⟩ := next_continues (w := s.world) hmoves.next
  have hrange := hinv.locks.range u call hcall
  have hcap : ∀ permits, sp.quotaSema = some permits → s.world.held ≤ permits →
      s'.world.held ≤ permits := (next_spends hmoves.next c' s'.world hmoves.run).cap
  refine ⟨call, p, ?_⟩
  -- most sections leave the bytes of the segment
  have hsame : ∀ {b : Bool}, a' = ⟨segSlice sp disk i, b⟩ → Effected sp disk i call p disk →
      ∃ disk', (c.procs u).call? = some call ∧ c'.procs = Function.update c.procs u p ∧
        Effected sp disk i call p disk' ∧ DevDisk sp law s' disk' := by
    rintro b rfl heff
    exact ⟨disk, hcall, hpass.procs_eq, heff,
      h.set hmoves.cell hmoves.cells rfl (fun _ _ _ => rfl) hpass.inv hpass.move hcap⟩
  have hquota : ¬ sp.Room s.world → sp.quotaSema ≠ none := by
    intro hroom
    obtain ⟨permits, hq, -⟩ := StoreParams.not_room_iff.mp hroom
    simp [hq]
  have hrefused : ∀ {res : SegResult} {e : GoError}, ¬ sp.Room s.world → c.seg.localFile = none →
      call.MovesBytes → p = .done res → res.err = some e → Effected sp disk i call p disk := by
    rintro res e hroom habsent hbytes rfl herr
    obtain ⟨rfl, he⟩ := next_refused hroom habsent hcall hbytes hrange hmoves.next c' s'.world
      hmoves.run res e (by rw [hpass.procs_eq, Function.update_self]) herr
    exact .refused hbytes (hquota hroom) he
  cases hpass.outcome with
  | goes hcall' hgoes =>
    obtain rfl := Option.some.inj (hcall.symm.trans hcall')
    exact hsame rfl (.goes hgoes)
  | @read buf pos hcall' =>
    obtain rfl := Option.some.inj (hcall.symm.trans hcall')
    apply hsame rfl
    rw [slice_slice disk hrange]
    exact .read buf pos
  | @wrote buf pos hcall' =>
    obtain rfl := Option.some.inj (hcall.symm.trans hcall')
    have hwithin : segSlice sp (overwrite 0 disk (i * sp.segmentBytes + pos) buf) i =
        overwrite 0 (segSlice sp disk i) pos buf := slice_overwrite_within 0 hrange.2 hle
    have hcell : CellInv sp law s'.world c'
        ⟨segSlice sp (overwrite 0 disk (i * sp.segmentBytes + pos) buf) i,
          written || !isZeros buf⟩ := by
      rw [hwithin]
      exact hpass.inv
    have hbound := hrange.2
    refine ⟨_, hcall, hpass.procs_eq, .wrote buf pos, ?_⟩
    exact h.set hmoves.cell hmoves.cells (length_overwrite_of_le 0 (by omega))
      (fun j hj hne => segSlice_overwrite_of_ne h.length_eq hj hne hrange.2) hcell hpass.move hcap
  | skips hcall' hskip =>
    rw [hcall'] at hcall
    obtain rfl := Option.some.inj hcall
    exact hsame rfl (.skips hskip.1)
  | readRefused hcall' hroom habsent =>
    obtain rfl := Option.some.inj (hcall.symm.trans hcall')
    exact hsame rfl (hrefused hroom habsent trivial rfl rfl)
  | writeRefused hcall' hroom habsent =>
    obtain rfl := Option.some.inj (hcall.symm.trans hcall')
    exact hsame rfl (hrefused hroom habsent trivial rfl rfl)
  | flushed hcall' =>
    obtain rfl := Option.some.inj (hcall.symm.trans hcall')
    exact hsame rfl (.flushed _ _)
  | deleted hcall' =>
    obtain rfl := Option.some.inj (hcall.symm.trans hcall')
    obtain rfl := next_evicts hinv hf (h.holding_le hmoves.cell) hcall hmoves.next c' s'.world
      hmoves.run _ (by rw [hpass.procs_eq, Function.update_self])
    exact hsame rfl .deleted
  | lost hloses => exact absurd hloses (hinv.not_loses hf)

end Steps

end DevDisk

end Usbd
