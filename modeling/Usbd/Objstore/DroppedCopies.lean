import Usbd.Objstore.SegmentRace

/-!
# When the local copy goes

`DeleteFile` decides from the dirty flag alone whether the local file may go.  A segment is clean as
soon as an upload of it has started, and clean it stays when the upload fails.  In between the local
file is the only copy of what was written, and `DeleteFile` removes it (`dropped_before_stored`).

`safe_of_careful` says what is left: as long as no `DeleteFile` meets a clean segment whose upload
is on the way or has failed, a segment without a local file has everything it has acknowledged in
its remote object, in every interleaving.
-/

namespace Usbd

open ListMemory Prog CacheRun

variable {σ : Type}

/-- A segment, its goroutines and the world; and the bytes it has acknowledged. -/
structure SegRun (σ : Type) where
  cell : Cell σ
  world : World σ
  array : SegArray

/-- The array after a section: a write that has returned nil is acknowledged. -/
def SegArray.acked (a : SegArray) (p p' : Proc σ) : SegArray :=
  match p.call?, p' with
  | some (.writeAt buf pos), .done (.wrote _ none) => a.write buf pos
  | _, _ => a

namespace SegRun

variable (sp : StoreParams σ)

def step (r : SegRun σ) (e : CellEvent) : Option (SegRun σ) :=
  (r.cell.step sp r.world e).map fun (c, w) =>
    ⟨c, w, match e with
      | .move t => r.array.acked (r.cell.procs t) (c.procs t)
      | _ => r.array⟩

/-- Nothing acknowledged is without a copy: a segment that has been written to and has no local file
has its bytes in the remote object. -/
def Safe (law : Faithful sp.container) (r : SegRun σ) : Prop :=
  r.cell.seg.localFile = none → r.array.written = true →
    ∃ md, law.objects r.world.store (r.cell.seg.name sp) = some ⟨r.array.bytes, md⟩

/-- What the next section of a call needs: a download that adds no byte, where it loads; a segment
that is dirty or whose upload is over and has not failed, where it deletes; zeros for bytes that are
zero, where it skips a write. -/
def Admits (r : SegRun σ) : Proc σ → Prop
  | .seeking _ _ => CacheRun.LoadsWhole sp r.world r.cell.seg
  | .storing _ _ => CacheRun.LoadsWhole sp r.world r.cell.seg
  | .called .deleteFile => r.cell.seg.backed = true → r.cell.seg.dirty = false →
      r.cell.itemMu = none ∧ ¬ r.cell.seg.Forgotten
  | .called (.writeAt buf pos) => r.cell.seg.Skips buf → slice r.array.bytes pos buf.length = buf
  | _ => True

instance (r : SegRun σ) : ∀ p, Decidable (r.Admits sp p)
  | .seeking _ _ => inferInstanceAs (Decidable (CacheRun.LoadsWhole sp r.world r.cell.seg))
  | .storing _ _ => inferInstanceAs (Decidable (CacheRun.LoadsWhole sp r.world r.cell.seg))
  | .called .deleteFile => inferInstanceAs (Decidable (_ → _ → _))
  | .called (.writeAt _ _) => inferInstanceAs (Decidable (_ → _))
  | .called (.readAt _ _) => isTrue trivial
  | .called (.flush _) => isTrue trivial
  | .idle => isTrue trivial
  | .locking _ => isTrue trivial
  | .waiting _ _ => isTrue trivial
  | .sending _ _ _ => isTrue trivial
  | .sent _ _ _ => isTrue trivial
  | .done _ => isTrue trivial

/-- The step is one the next section of its call admits. -/
def Careful (r : SegRun σ) : CellEvent → Prop
  | .move t => r.Admits sp (r.cell.procs t)
  | .call _ _ => True
  | .ret _ => True

instance (r : SegRun σ) : ∀ e, Decidable (r.Careful sp e)
  | .move t => inferInstanceAs (Decidable (r.Admits sp (r.cell.procs t)))
  | .call _ _ => isTrue trivial
  | .ret _ => isTrue trivial

/-- The cell stands for the acknowledged bytes, and while an upload is on the way the local file is
there. -/
structure Inv (law : Plain sp.container) (r : SegRun σ) : Prop where
  cell : CellInv sp law r.world r.cell r.array
  local_of_flight : r.cell.itemMu ≠ none → r.cell.seg.localFile ≠ none
  held : r.cell.seg.holding sp ≤ r.world.held

section Steps

variable {sp} {law : Plain sp.container} {r r' : SegRun σ}

lemma Inv.safe (h : Inv sp law r) : r.Safe sp law.toFaithful := by
  intro hlocal hwritten
  have hitem : r.cell.itemMu = none := by
    by_contra hne
    exact h.local_of_flight hne hlocal
  have hback := h.cell.backing
  rw [Cell.flight_eq_none hitem] at hback
  cases hback with
  | quiet hinv _ hstored =>
    obtain ⟨item, hitem⟩ := Option.ne_none_iff_exists'.mp
      ((hstored hwritten).resolve_left fun hne => hne hlocal)
    obtain ⟨md, hcur⟩ := (hinv.synced_of_absent hlocal).remote item hitem
    exact ⟨md, law.current_object hcur⟩

/-- Zeros written where there are zeros. -/
lemma write_eq_self {a : SegArray} {buf : Bytes} {pos : ℕ} (hzeros : isZeros buf = true)
    (hle : pos + buf.length ≤ a.bytes.length) (hsame : slice a.bytes pos buf.length = buf) :
    a.write buf pos = a := by
  rw [SegArray.write, overwrite_eq_self 0 hle hsame, hzeros]
  simp

/-- Where nothing is lost and no write that matters is skipped, a section changes the array by what
it acknowledges. -/
lemma acked_eq {w : World σ} {c : Cell σ} {t : ℕ} {a a' : SegArray} {p : Proc σ}
    (h : Outcome sp w c t a p a') (hnot : ¬ c.Loses t)
    (hskip : ∀ buf pos, c.procs t = .called (.writeAt buf pos) → c.seg.Skips buf →
      a.write buf pos = a) : a.acked (c.procs t) p = a' := by
  cases h with
  | goes hcall hgoes =>
    cases p with
    | done res => cases hgoes
    | _ => simp [SegArray.acked]
  | read hcall => simp [SegArray.acked, hcall]
  | wrote hcall => simp [SegArray.acked, hcall]
  | skips hcall hs => simpa [SegArray.acked, hcall, Proc.call?] using hskip _ _ hcall hs
  | readRefused hcall _ _ => simp [SegArray.acked, hcall]
  | writeRefused hcall _ _ => simp [SegArray.acked, hcall]
  | flushed hcall => simp [SegArray.acked, hcall]
  | deleted hcall => simp [SegArray.acked, hcall]
  | lost hloses => exact absurd hloses hnot

/-- A careful section loses nothing. -/
lemma Inv.not_loses (h : Inv sp law r) {t : ℕ} (hcare : r.Careful sp (.move t)) :
    ¬ r.cell.Loses t := by
  rintro (⟨ht, -, hforgot⟩ | ⟨⟨errand, file, e, ht⟩, hlocal⟩)
  · have hb : r.cell.seg.backed = true := by
      rw [h.cell.backing.backed_eq, Option.isSome_iff_ne_none]
      exact hforgot.2.1
    rw [Careful, ht] at hcare
    exact (hcare hb hforgot.1).2 hforgot
  · have hitem : r.cell.itemMu = some t := (h.cell.locks.itemMu t).mpr (by simp [ht, Proc.errand?])
    exact h.local_of_flight (by simp [hitem]) hlocal

lemma loadsWhole_of_careful {t : ℕ} (hcare : r.Careful sp (.move t))
    (hloads : (r.cell.procs t).Loads) :
    CacheRun.LoadsWhole sp r.world r.cell.seg := by
  cases ht : r.cell.procs t with
  | seeking buf pos =>
    rw [Careful, ht] at hcare
    exact hcare
  | storing buf pos =>
    rw [Careful, ht] at hcare
    exact hcare
  | _ =>
    rw [ht] at hloads
    exact absurd hloads not_false

lemma Inv.step (hr : Reliable sp.env) (hs : sp.Sized) {e : CellEvent} (h : Inv sp law r)
    (hrange : e.InRange sp.segmentBytes) (hcare : r.Careful sp e)
    (hstep : r.step sp e = some r') : Inv sp law r' := by
  obtain ⟨⟨c', w'⟩, hcell, rfl⟩ := Option.map_eq_some_iff.mp hstep
  cases e with
  | call t call =>
    obtain ⟨hidle, hnew⟩ := Cell.step_call hcell
    obtain ⟨rfl, rfl⟩ := Prod.mk.inj hnew
    exact ⟨h.cell.call hrange hidle, h.local_of_flight, h.held⟩
  | ret t =>
    obtain ⟨res, hdone, hnew⟩ := Cell.step_ret hcell
    obtain ⟨rfl, rfl⟩ := Prod.mk.inj hnew
    exact ⟨h.cell.ret hdone, h.local_of_flight, h.held⟩
  | move t =>
    obtain ⟨m, hm, hrun⟩ := Cell.step_move hcell
    obtain ⟨p, a', hpass⟩ := (next_spec h.cell hr hs (loadsWhole_of_careful hcare) h.held hm).eq
      hrun
    have hacked : r.array.acked (r.cell.procs t) (c'.procs t) = a' := by
      rw [hpass.procs_eq, Function.update_self]
      refine acked_eq hpass.outcome (h.not_loses hcare) fun buf pos ht hskip => ?_
      rw [Careful, ht] at hcare
      have hle := (h.cell.locks.range t (.writeAt buf pos) (by rw [ht]; rfl)).2
      exact write_eq_self hskip.1 (h.cell.backing.length_eq ▸ hle) (hcare hskip)
    refine ⟨by simpa only [hacked] using hpass.inv, fun hitem hlocal => ?_, ?_⟩
    · obtain ⟨hitem₀, hlocal₀ | ⟨ht, hb, hd⟩⟩ := hpass.absent hitem hlocal
      · exact h.local_of_flight hitem₀ hlocal₀
      · rw [Careful, ht] at hcare
        exact hitem₀ (hcare hb hd).1
    · have := hpass.move.held
      have := h.held
      change c'.seg.holding sp ≤ w'.held
      omega

end Steps

/-! ## A segment in memory -/

/-- The parameters of a device in memory with segments of one byte. -/
def oneByte (env : Env) : StoreParams MemStore :=
  ⟨memContainer ['c'], 1, true, false, none, env⟩

/-- Its segment 0, nothing stored. -/
def empty : SegRun MemStore := ⟨.new (.new 0), ObjRun.emptyWorld, .blank 1⟩

/-- After a run: whether the segment is written and has a local file; its object. -/
def remains (env : Env) (es : List CellEvent) : Option (Bool × Bool × Option Bytes) :=
  (Machine.run (step (oneByte env)) empty es).map fun r =>
    (r.array.written, r.cell.seg.localFile.isSome,
      (r.world.store.get (r.cell.seg.name (oneByte env))).map Object.data)

/-- A call from its start to its return, in so many sections. -/
def alone (t : ℕ) (call : SegCall) (sections : ℕ) : List CellEvent :=
  .call t call :: List.replicate sections (.move t) ++ [.ret t]

/-! ## The result -/

/-- **No copy is dropped before the remote has it, if `DeleteFile` keeps away from uploads.**  A
segment as it is loaded, with any uploads failing: in every interleaving of calls inside the segment
whose sections are all admitted, a segment without a local file that has acknowledged a write of
anything but zeros has all it has acknowledged in its remote object. -/
theorem safe_of_careful (sp : StoreParams σ) (law : Plain sp.container) (hr : Reliable sp.env)
    (hs : sp.Sized) (seg : Segment σ) (w : World σ) (bytes : Bytes)
    (hinv : SegInv sp law.toFaithful w seg bytes) (hkept : Kept sp law.toFaithful w seg)
    (hheld : seg.holding sp ≤ w.held) (es : List CellEvent)
    (hrange : ∀ e ∈ es, e.InRange sp.segmentBytes)
    (hcare : Machine.Meets (step sp) (Careful sp) ⟨.new seg, w, ⟨bytes, false⟩⟩ es)
    (r : SegRun σ) (hrun : Machine.run (step sp) ⟨.new seg, w, ⟨bytes, false⟩⟩ es = some r) :
    r.Safe sp law.toFaithful := by
  have hstart : Inv sp law ⟨.new seg, w, ⟨bytes, false⟩⟩ :=
    ⟨CellInv.new hinv hkept, fun hne => absurd rfl hne, hheld⟩
  have hend : Inv sp law r := Machine.invariant_of_meets
    (fun _ _ _ h hcond hstep => h.step hr hs hcond.1 hcond.2 hstep) hstart (hcare.and_forall hrange)
    hrun
  exact hend.safe

/-- Uploads that fail, and no `DeleteFile` before one has succeeded. -/
def retried : List CellEvent :=
  alone 0 (.writeAt [1] 0) 2 ++ alone 1 (.flush true) 5 ++ alone 0 (.writeAt [2] 0) 2 ++
    [.call 1 (.flush true), .move 1, .move 1, .move 1, .call 0 (.readAt [0] 0), .move 0, .move 1,
      .ret 0, .move 1] ++ alone 2 .deleteFile 1

theorem safe_of_careful_retried : remains (failingPuts 9) retried = some (true, false, some [2]) ∧
    ∃ r, Machine.run (step (oneByte (failingPuts 9))) empty retried = some r ∧
      r.Safe (oneByte (failingPuts 9)) (memPlain ['c']).toFaithful := by
  have hends : (Machine.run (step (oneByte (failingPuts 9))) empty retried).isSome = true := by
    decide +kernel
  obtain ⟨r, hrun⟩ := Option.isSome_iff_exists.mp hends
  refine ⟨by decide +kernel, r, hrun, ?_⟩
  exact safe_of_careful (oneByte (failingPuts 9)) (memPlain ['c']) (reliable_failingPuts 9)
    ⟨by decide, by decide, fun _ h => by simp [oneByte] at h⟩ (.new 0) ObjRun.emptyWorld (zeros 1)
    (SegInv.new ⟨Or.inl rfl, fun _ => rfl⟩) (Kept.new rfl) (by decide) retried (by decide)
    (by decide +kernel) r hrun

/-- A buffered flush is on the way, and nothing has failed: `DeleteFile` removes the local file, and
there is no object.  When the put then fails, there is nothing at all; nor when it has failed
before. -/
theorem dropped_before_stored :
    remains quietEnv (alone 0 (.writeAt [1] 0) 2 ++
        [.call 1 (.flush true), .move 1, .move 1, .move 1] ++ alone 2 .deleteFile 1) =
      some (true, false, none) ∧
    remains (failingPuts 100) (alone 0 (.writeAt [1] 0) 2 ++
        [.call 1 (.flush true), .move 1, .move 1, .move 1] ++ alone 2 .deleteFile 1 ++
        [.move 1, .move 1, .ret 1]) = some (true, false, none) ∧
    remains (failingPuts 100) (alone 0 (.writeAt [1] 0) 2 ++ alone 1 (.flush false) 5 ++
        alone 2 .deleteFile 1) = some (true, false, none) := by
  refine ⟨?_, ?_, ?_⟩ <;> decide +kernel

end SegRun

end Usbd
