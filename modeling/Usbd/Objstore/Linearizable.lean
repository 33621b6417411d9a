import Usbd.Foundations.Atomic
import Usbd.Objstore.SegmentRace

/-!
# A segment is an atomic array

Without faults nothing that goroutines do to a segment at the same time can be told from one call
after the other.  A thick-provisioned segment with its locks, its flag and its uploads on the way
shows what an array of bytes shows on which each call takes effect in one instant: a read or a write
in the section that has the local file, whether it was there or had to be loaded; a flush and a
deletion change nothing.  `rel_step` matches each section with what the array does then.

Writes of all zeros are left out: the zero shortcut makes them no writes.
-/

namespace Usbd

open ListMemory Prog Atomic

variable {σ : Type}

/-- What a call does to the array. -/
inductive SegArray.Effect (a : SegArray) : SegCall → SegArray → SegResult → Prop
  | read (buf : Bytes) (pos : ℕ) :
      Effect a (.readAt buf pos) a (.read (slice a.bytes pos buf.length) buf.length none)
  | write (buf : Bytes) (pos : ℕ) :
      Effect a (.writeAt buf pos) (a.write buf pos) (.wrote buf.length none)
  | flush (buffered : Bool) (err : Option GoError) : Effect a (.flush buffered) a (.flushed err)
  | delete (err : Option GoError) : Effect a .deleteFile a (.deleted err)

/-- No write of all zeros comes in. -/
def CellEvent.Nonzero : CellEvent → Prop
  | .call _ (.writeAt buf _) => isZeros buf = false
  | _ => True

instance : ∀ e : CellEvent, Decidable e.Nonzero
  | .call _ (.writeAt buf _) => inferInstanceAs (Decidable (isZeros buf = false))
  | .call _ (.readAt _ _) => isTrue trivial
  | .call _ (.flush _) => isTrue trivial
  | .call _ .deleteFile => isTrue trivial
  | .move _ => isTrue trivial
  | .ret _ => isTrue trivial

/-- What is seen of a goroutine's call. -/
def Proc.phase : Proc σ → Phase SegCall SegResult
  | .done res => .finished res
  | p => match p.call? with
    | some call => .called call
    | none => .idle

namespace Cell

variable (sp : StoreParams σ)

/-- The segment and the world, one step further. -/
def advance (cw : Cell σ × World σ) (e : CellEvent) : Option (Cell σ × World σ) :=
  cw.1.step sp cw.2 e

/-- What is seen of a step. -/
def sight (cw : Cell σ × World σ) : CellEvent → Option (Sight SegCall SegResult)
  | .call t call => some (.call t call)
  | .move _ => none
  | .ret t => match cw.1.procs t with
    | .done res => some (.ret t res)
    | _ => none

end Cell

/-- The segment stands for the array, its goroutines are where the array's are, no write of all
zeros is under way, and it alone holds permits. -/
structure Matches (sp : StoreParams σ) (law : Plain sp.container) (ID : ℕ)
    (cw : Cell σ × World σ) (s : State SegArray SegCall SegResult) : Prop where
  inv : CellInv sp law cw.2 cw.1 s.value
  phase : ∀ t, s.phase t = (cw.1.procs t).phase
  nonzero : ∀ t buf pos, (cw.1.procs t).call? = some (.writeAt buf pos) → isZeros buf = false
  held : cw.2.held = cw.1.seg.holding sp
  id_eq : cw.1.seg.ID = ID

section Steps

variable {sp : StoreParams σ} {law : Plain sp.container} {w w' : World σ} {c c' : Cell σ}
  {s : State SegArray SegCall SegResult} {t ID : ℕ} {p : Proc σ} {a' : SegArray}

lemma Proc.phase_of_call {call : SegCall} (h : p.call? = some call) : p.phase = .called call := by
  cases p with
  | idle => cases h
  | done res => cases h
  | _ => simp [Proc.phase, h]

/-- There is a permit for the only segment. -/
lemma Matches.room (h : Matches sp law ID (c, w) s) (hs : sp.Sized)
    (hlocal : c.seg.localFile = none) : sp.Room w := by
  intro permits hq
  have hbacked : c.seg.backed = false := by
    rw [h.inv.backing.backed_eq, hlocal]
    rfl
  have hheld : w.held = c.seg.holding sp := h.held
  rw [hheld, Segment.holding, hbacked, if_neg Bool.false_ne_true]
  exact hs.permits_pos permits hq

lemma Matches.goto (h : Matches sp law ID (c, w) s)
    (hprocs : c'.procs = Function.update c.procs t p)
    (hinv : CellInv sp law w' c' a') (hmove : SegMove sp law.toFaithful w c.seg w' c'.seg)
    (hnonzero : ∀ buf pos, p.call? = some (.writeAt buf pos) → isZeros buf = false) :
    Matches sp law ID (c', w') { s.goto t p.phase with value := a' } where
  inv := hinv
  phase u := by
    simp only [State.goto, hprocs]
    by_cases hu : u = t
    · subst hu
      simp
    · simp [hu, h.phase u]
  nonzero u buf pos hu := by
    rw [hprocs] at hu
    by_cases hut : u = t
    · subst hut
      rw [Function.update_self] at hu
      exact hnonzero buf pos hu
    · rw [Function.update_of_ne hut] at hu
      exact h.nonzero u buf pos hu
  held := by
    have := hmove.held
    have := h.held
    simp only at this ⊢
    omega
  id_eq := hmove.id_eq.trans h.id_eq

lemma Matches.step (hf : Faultless sp.env) (hs : sp.Sized) (hthick : sp.thickProvision = true)
    {s₀ : State SegArray SegCall SegResult} {cw cw' : Cell σ × World σ} {e : CellEvent}
    {h : List (Sight SegCall SegResult)} (hm : Matches sp law ID cw s)
    (he : e.InRange sp.segmentBytes ∧ e.Nonzero) (hstep : Cell.advance sp cw e = some cw')
    (hs₀ : Shows SegArray.Effect s₀ h s) :
    ∃ s', Shows SegArray.Effect s₀ (h ++ (Cell.sight cw e).toList) s' ∧
      Matches sp law ID cw' s' := by
  obtain ⟨c, w⟩ := cw
  change c.step sp w e = some cw' at hstep
  cases e with
  | call t call =>
    obtain ⟨hidle, rfl⟩ := Cell.step_call hstep
    have hphase : s.phase t = .idle := by rw [hm.phase t, hidle]; rfl
    refine ⟨_, hs₀.call call hphase, ?_⟩
    refine hm.goto (p := .called call) rfl (hm.inv.call he.1 hidle) ⟨rfl, Frame.refl, rfl⟩ ?_
    rintro buf pos ⟨⟩
    exact he.2
  | ret t =>
    obtain ⟨res, hdone, rfl⟩ := Cell.step_ret hstep
    have hphase : s.phase t = .finished res := by rw [hm.phase t, hdone]; rfl
    have hsight : Cell.sight (c, w) (.ret t) = some (.ret t res) := by simp [Cell.sight, hdone]
    rw [hsight]
    refine ⟨_, hs₀.ret hphase, ?_⟩
    exact hm.goto (p := .idle) rfl (hm.inv.ret hdone) ⟨rfl, Frame.refl, rfl⟩
      fun _ _ hc => by cases hc
  | move t =>
    obtain ⟨m, hnext, hrun⟩ := Cell.step_move hstep
    obtain ⟨c', w'⟩ := cw'
    have hload : CacheRun.LoadsWhole sp w c.seg := fun _ _ _ _ _ => Or.inl hthick
    obtain ⟨p, a', hpass⟩ :=
      (next_spec hm.inv hf.reliable hs (fun _ => hload) hm.held.ge hnext).eq hrun
    simp only [Cell.sight, Option.toList_none, List.append_nil]
    -- a call that ends has its effect now
    have heffect : ∀ {call : SegCall} {res : SegResult}, (c.procs t).call? = some call →
        p = .done res → SegArray.Effect s.value call a' res →
        ∃ s', Shows SegArray.Effect s₀ h s' ∧ Matches sp law ID (c', w') s' := by
      rintro call res hcall rfl heff
      have hphase : s.phase t = .called call := by
        rw [hm.phase t]
        exact Proc.phase_of_call hcall
      exact ⟨_, hs₀.effect hphase heff, hm.goto hpass.procs_eq hpass.inv hpass.move
        fun _ _ hc => by cases hc⟩
    cases hpass.outcome with
    | goes hcall hgoes =>
      have hsame : { s.goto t p.phase with value := s.value } = s := by
        have hphase : p.phase = s.phase t := by
          rw [hm.phase t, Proc.phase_of_call hgoes]
          exact (Proc.phase_of_call hcall).symm
        rw [State.goto, hphase, Function.update_eq_self]
      have hgoto := hm.goto hpass.procs_eq hpass.inv hpass.move fun buf pos hc =>
        hm.nonzero t buf pos (by rw [hcall, ← hgoes, hc])
      rw [hsame] at hgoto
      exact ⟨s, hs₀, hgoto⟩
    | read hcall => exact heffect hcall rfl (.read _ _)
    | wrote hcall => exact heffect hcall rfl (.write _ _)
    | skips hcall hskip =>
      -- only a write of zeros is skipped
      have := hm.nonzero t _ _ (by rw [hcall]; rfl)
      simp [hskip.1] at this
    -- the quota has room for one segment, so no permit is refused
    | readRefused _ hroom habsent => exact absurd (hm.room hs habsent) hroom
    | writeRefused _ hroom habsent => exact absurd (hm.room hs habsent) hroom
    | flushed hcall => exact heffect hcall rfl (.flush _ _)
    | deleted hcall => exact heffect hcall rfl (.delete _)
    | lost hloses => exact absurd hloses (hm.inv.not_loses hf)

/-- A clean segment with no upload on the way has its bytes in the object, or nothing has been
written to it. -/
lemma Matches.synced (h : Matches sp law ID (c, w) s) (hf : Faultless sp.env)
    (hitem : c.itemMu = none) (hclean : c.seg.dirty = false) :
    (∃ md, law.objects w.store (c.seg.name sp) = some ⟨s.value.bytes, md⟩) ∨
      s.value.written = false := by
  have hback := h.inv.backing
  rw [Cell.flight_eq_none hitem] at hback
  cases hback with
  | quiet hinv hkept hstored =>
    have hnot := (hkept hf).not_forgotten
    cases hremote : c.seg.remoteItem with
    | some item =>
      obtain ⟨md, hcur⟩ := (hinv.synced hclean hnot).remote item hremote
      exact Or.inl ⟨md, law.current_object hcur⟩
    | none =>
      refine Or.inr (Bool.eq_false_iff.mpr fun hw => ?_)
      rcases hstored hw with hlocal | hne
      · exact hnot ⟨hclean, hlocal, hremote⟩
      · exact hne hremote

end Steps

/-! ## The result -/

/-- **A segment is linearizable to an array of bytes.**  A thick-provisioned segment as it is
loaded, over a plain container, without faults: in every interleaving of calls inside the segment,
with no write of all zeros, what is seen is what an atomic array of bytes shows; whenever no upload
is on the way and the segment is not dirty, the remote object has the bytes of the array or nothing
has been written; and no call is ever stuck, for every section that can run returns and as long as a
call is under way some section can run. -/
theorem segment_linearizable (sp : StoreParams σ) (law : Plain sp.container) (hf : Faultless sp.env)
    (hs : sp.Sized) (hthick : sp.thickProvision = true) (seg : Segment σ) (w : World σ)
    (bytes : Bytes)
    (hinv : SegInv sp law.toFaithful w seg bytes) (hkept : Kept sp law.toFaithful w seg)
    (hheld : w.held = seg.holding sp) (es : List CellEvent)
    (hes : ∀ e ∈ es, e.InRange sp.segmentBytes ∧ e.Nonzero) (c : Cell σ) (w' : World σ)
    (hrun : Machine.run (Cell.advance sp) (.new seg, w) es = some (c, w')) :
    ∃ s, Shows SegArray.Effect ⟨⟨bytes, false⟩, fun _ => .idle⟩
        (sights (Cell.advance sp) Cell.sight (.new seg, w) es) s ∧
      (c.itemMu = none → c.seg.dirty = false →
        (∃ md, law.objects w'.store (seg.name sp) = some ⟨s.value.bytes, md⟩) ∨
          s.value.written = false) ∧
      (∀ t, c.next sp t ≠ none → c.step sp w' (.move t) ≠ none) ∧
      ((∃ t call, (c.procs t).call? = some call) → ∃ u, c.next sp u ≠ none) := by
  have hstart : Matches sp law seg.ID (.new seg, w) ⟨⟨bytes, false⟩, fun _ => .idle⟩ :=
    ⟨CellInv.new hinv hkept, fun _ => rfl, fun _ _ _ hc => (by cases hc), hheld, rfl⟩
  obtain ⟨s, hshows, hend⟩ := shows_of_simulation
    (fun _ _ _ _ _ hm he hstep hs₀ => hm.step hf hs hthick he hstep hs₀) hes hrun hstart .start
  have hname : c.seg.name sp = seg.name sp := by
    rw [Segment.name, hend.id_eq]
    rfl
  refine ⟨s, hshows, hname ▸ hend.synced hf, fun t hne => ?_, ?_⟩
  · obtain ⟨m, hnext⟩ := Option.ne_none_iff_exists'.mp hne
    have hload : CacheRun.LoadsWhole sp w' c.seg := fun _ _ _ _ _ => Or.inl hthick
    obtain ⟨c', w'', hm, -⟩ := next_spec hend.inv hf.reliable hs (fun _ => hload) hend.held.ge hnext
    simp [Cell.step, hnext, hm, Except.toOption]
  · rintro ⟨t, call, hcall⟩
    exact exists_next hend.inv hcall

/-- The parameters of a device in memory with segments of two bytes, one of them local. -/
def twoBytes : StoreParams MemStore := ⟨memContainer ['c'], 2, true, false, some 1, quietEnv⟩

/-- Two writes, the second while the first is being uploaded, and a read while the segment is
evicted. -/
def overlapping : List CellEvent :=
  [.call 0 (.writeAt [1] 0), .call 1 (.writeAt [2, 3] 0), .move 0, .move 1, .move 1, .ret 1,
    .call 2 (.flush true), .move 2, .move 2, .move 2, .move 0, .ret 0, .call 3 .deleteFile, .move 2,
    .move 2, .ret 2, .move 3, .call 1 (.readAt [0, 0] 0), .move 3, .move 3, .ret 3,
    .move 1, .move 1, .ret 1]

theorem segment_linearizable_overlapping : ∃ c w,
    Machine.run (Cell.advance twoBytes) (.new (.new 0), ObjRun.emptyWorld) overlapping =
      some (c, w) ∧
      ∃ s, Shows SegArray.Effect ⟨⟨zeros 2, false⟩, fun _ => .idle⟩
        (sights (Cell.advance twoBytes) Cell.sight (.new (.new 0), ObjRun.emptyWorld) overlapping)
        s := by
  have hends : (Machine.run (Cell.advance twoBytes) (.new (.new 0), ObjRun.emptyWorld)
      overlapping).isSome = true := by
    decide +kernel
  obtain ⟨⟨c, w⟩, hrun⟩ := Option.isSome_iff_exists.mp hends
  obtain ⟨s, hshows, -⟩ := segment_linearizable twoBytes (memPlain ['c']) faultless_quietEnv
    ⟨by decide, by decide, fun _ hq => Option.some.inj hq ▸ Nat.one_pos⟩ rfl (.new 0)
    ObjRun.emptyWorld (zeros 2) (SegInv.new ⟨Or.inl rfl, fun _ => rfl⟩) (Kept.new rfl) rfl
    overlapping (by decide) c w hrun
  exact ⟨c, w, hrun, s, hshows⟩

/-- The read sees both writes. -/
example : (sights (Cell.advance twoBytes) Cell.sight (.new (.new 0), ObjRun.emptyWorld)
    overlapping).getLast? = some (.ret 1 (.read [1, 3] 2 none)) := by
  decide +kernel

end Usbd
