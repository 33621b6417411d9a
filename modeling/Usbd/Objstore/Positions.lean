import Usbd.Nbd.PartialDevice
import Usbd.Objstore.Returning

/-!
# Positions of the object-store device

`ioAt` compares a position with the size of the device and with nothing else.  Division of a
negative one rounds towards zero, so that a position less than a segment below zero belongs to the
first segment, at a negative place, and any other to a segment of negative number.  The latter
panics; so does the former when the segment size less that place is no 64-bit number.  Otherwise the
first segment is asked for bytes before its beginning.  Its local file refuses them.  Without a
local file there are two ways to get through: a read of a segment with nothing stored returns zeros,
and a write of zeros returns at once.  The request then goes on with the segments behind, and
returns without an error if there are enough of them (`Stray`).
-/

namespace Usbd

open ListMemory Prog

variable {σ : Type} {sp : StoreParams σ} {w w' : World σ} {segments : List (Segment σ)}
  {seg : Segment σ} {i : ℕ} {full : σ → Prop}

/-! ## Before a segment -/

namespace Segment

/-- The segment refuses bytes before its beginning: it has a local file, or will have to get one. -/
def Refuses (readOp : Bool) (seg : Segment σ) (buf : Bytes) : Prop :=
  seg.localFile ≠ none ∨ if readOp then seg.remoteItem ≠ none else isZeros buf = false

end Segment

namespace ObjDevice

variable {dev : ObjDevice σ} {readOp : Bool} {buf : Bytes} {pos : ℤ}

/-- The segments take a request that begins before the first of them without an error. -/
def Swallows (dev : ObjDevice σ) (readOp : Bool) (buf : Bytes) (pos : ℤ) : Prop :=
  (∀ seg, dev.segments[0]? = some seg →
      ¬ seg.Refuses readOp (buf.take (dev.params.segmentBytes - pos).toNat)) ∧
    pos + buf.length ≤ dev.segments.length * dev.params.segmentBytes

/-- A range before the beginning of the device that is not answered with an error. -/
def Stray (dev : ObjDevice σ) (readOp : Bool) (buf : Bytes) (pos : ℤ) : Prop :=
  buf ≠ [] ∧ pos < 0 ∧
    (pos ≤ -dev.params.segmentBytes ∨ (maxOffset : ℤ) < dev.params.segmentBytes - pos ∨
      dev.Swallows readOp buf pos)

lemma Intact.length_pos (h : dev.Intact full w) : 0 < dev.segments.length := by
  rw [h.length_eq]
  exact Nat.div_pos h.le h.pos

section Before

variable (h : dev.Intact full w) (readOp : Bool) (hbuf : buf ≠ []) (hneg : pos < 0)

include h hbuf hneg

end Before

end ObjDevice

/-! ## Nothing in the way -/

/-- Segments that serve every request inside them: local ones without a quota, or thick-provisioned
ones over a plain container. -/
inductive Undisturbed (sp : StoreParams σ) (w : World σ) (segments : List (Segment σ)) : Prop
  | resident (hq : sp.quotaSema = none) (arrays : List Bytes)
      (h : Resident sp w segments arrays)
  | sound (hthick : sp.thickProvision = true)
      (hq : ∀ permits, sp.quotaSema = some permits → 0 < permits) (law : Plain sp.container)
      (disk : Bytes) (h : DevSound sp law.toFaithful w segments disk)

namespace Undisturbed

lemma touch (hf : Faultless sp.env) (h : Undisturbed sp w segments)
    (hseg : segments[i]? = some seg) (tick : ℕ) (lastRead lastWrite : ℤ) :
    Undisturbed sp { w with tick } (segments.set i { seg with lastRead, lastWrite }) := by
  cases h with
  | resident hq arrays h =>
    obtain ⟨a, ha⟩ : ∃ a, arrays[i]? = some a :=
      ⟨_, List.getElem?_eq_getElem (by rw [h.length_eq]; exact DevInv.lt hseg)⟩
    obtain ⟨hid, hlen, hopened, hunwritten⟩ := h.resides hseg ha
    exact .resident hq (arrays.set i a)
      (h.step ⟨hid, hlen, hopened, hunwritten⟩ (StoreParams.SameBut.refl _ _))
  | sound hthick hq law disk h =>
    have hl : Leaves w w.files { w with tick } := ⟨rfl, rfl, rfl⟩
    exact .sound hthick hq law disk
      (h.step_same hseg hf ((h.seg i seg hseg).2.touch hl lastRead lastWrite))

/-- What there are segments for is served. -/
lemma ioLoop (hf : Faultless sp.env) (hs : 0 < sp.segmentBytes)
    (hmax : sp.segmentBytes ≤ maxOffset) (h : Undisturbed sp w segments) (readOp : Bool)
    {rounds segID totalRead : ℕ} {rest : Bytes} (hrounds : segments.length ≤ segID + rounds)
    (hfits : rest.length ≤ bytesLeft sp segments.length segID 0) :
    Returns (ioLoop sp readOp rounds segments segID 0 totalRead rest) w fun r _ =>
      r.2.2.2 = none := by
  have hdone : rest.drop (bytesLeft sp segments.length segID 0) = [] :=
    List.drop_eq_nil_of_le hfits
  cases h with
  | resident hq arrays h =>
    have hio := resident_io hq ⟨hs, hmax, fun permits hp => by simp [hq] at hp⟩
    refine (ioLoop_moves hio hs hmax h readOp rest hrounds hs).mono fun r w' h' => ?_
    rw [(h'.whole (not_not_intro hf.reliable) hfits).2]
  | sound hthick hq law disk h =>
    have hsized : sp.Sized := ⟨hs, hmax, hq⟩
    cases readOp with
    | true =>
      refine (ioLoop_read hf hsized hthick h hrounds hs).mono fun r w' h' => ?_
      rw [h'.1, readResult, if_pos hdone]
    | false =>
      refine (ioLoop_write hf hsized hthick h hrounds hs).mono fun r w' h' => ?_
      rw [h'.1, readResult, if_pos hdone]

end Undisturbed

end Usbd
