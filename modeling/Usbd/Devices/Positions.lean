import Usbd.Devices.RamDisk
import Usbd.Dedup.Positions
import Usbd.Objstore.AddressSpace
import Usbd.Objstore.Positions
import Usbd.Objstore.Quota

/-!
# Hostile positions

What happens to a request off the wire, with any position and any count, at each of the three
devices.  `Exposed` are the requests that are not answered as they should be: a flush whose lock was
left held by a misaligned write, and aligned reads and writes of the ranges each device has no
check for.  All others are answered, whatever fails below the device, and with an error when they
reach outside it.

A flush behind a write that is still under way is none of these: it waits, and the write gives its
hold back.  Where the object store can come to have an object of no bytes, on the other hand, all
reads and writes are exposed, also ordinary ones: such an object makes a segment that counts as
backed and has no local file, and the device panics when it evicts it.
-/

namespace Usbd

open Endian Prog

variable {σ : Type}

def defaultBlockSizeBytes : ℕ := 4096

/-- A device with all it works on: the world of the object store, what goes wrong in the stores of
the dedup disk. -/
inductive Disk (σ : Type)
  | ram (rdsk : RamDisk)
  | objstore (dev : ObjDevice σ) (w : World σ)
  | dedup (sha1 : Bytes → Bytes) (faults : List BlockFaults) (flushErrs : List (Option GoError))
      (dd : DedupDisk)

namespace Disk

def size : Disk σ → ℕ
  | ram rdsk => rdsk.size
  | objstore dev _ => dev.totalBytes
  | dedup _ _ _ dd => dd.size.toNat

def readAt : Disk σ → Bytes → ℤ → Except Stop ((Bytes × Option GoError) × Disk σ)
  | ram rdsk, buf, pos => (rdsk.readAt buf pos).map fun r => ((r.1, r.2.2), ram rdsk)
  | objstore dev w, buf, pos =>
    (dev.readAt buf pos w).map fun r => ((r.1.2.1, r.1.2.2.2), objstore r.1.1 r.2)
  | dedup sha1 faults flushErrs dd, buf, pos =>
    (dd.readAt buf pos).map fun r => ((r.1, r.2.2), dedup sha1 faults flushErrs dd)

def writeAt : Disk σ → Bytes → ℤ → Except Stop (Option GoError × Disk σ)
  | ram rdsk, buf, pos => (rdsk.writeAt buf pos).map fun r => (r.2.1, ram r.2.2)
  | objstore dev w, buf, pos =>
    (dev.writeAt buf pos w).map fun r => (r.1.2.2, objstore r.1.1 r.2)
  | dedup sha1 faults flushErrs dd, buf, pos =>
    (dd.writeAt sha1 buf pos faults).map fun r => (r.1.2, dedup sha1 faults flushErrs r.2)

/-- `Trim`: nothing to do. -/
def trim : Disk σ → Option GoError
  | ram rdsk => rdsk.idle
  | _ => none

def flush : Disk σ → Except Stop (Option GoError × Disk σ)
  | ram rdsk => .ok (rdsk.idle, ram rdsk)
  | objstore dev w => (dev.Flush w).map fun r => (r.1.2, objstore r.1.1 r.2)
  | dedup sha1 faults flushErrs dd => .ok (dd.flush flushErrs, dedup sha1 faults flushErrs dd)

/-- The device the request processor has. -/
def device : PartialDevice (Disk σ) where
  blockSize := defaultBlockSizeBytes
  readAt := readAt
  writeAt := writeAt
  trim d _ _ := .ok (d.trim, d)
  flush := flush

/-- A range the device has no check for. -/
def Stray : Disk σ → Bool → Bytes → ℤ → Prop
  | ram rdsk, _, buf, pos => rdsk.Stray buf.length pos
  | objstore dev _, readOp, buf, pos => dev.Stray readOp buf pos
  | dedup _ _ _ dd, readOp, buf, pos => dd.Stray readOp buf.length pos

/-- There may be objects of no bytes. -/
def Hollow : Disk σ → Prop
  | objstore dev w => dev.Hollow w
  | _ => False

/-- Nothing fails below the device, and its stores have room. -/
def Undisturbed : Disk σ → Prop
  | ram _ => True
  | objstore dev w => Faultless dev.params.env ∧ Usbd.Undisturbed dev.params w dev.segments ∧
      ¬ dev.Hollow w
  | dedup _ faults _ dd => faults = [] ∧ dd.blockStore.blockSize = dd.blockSize ∧
      dd.blockStore.nextPos + 2 ^ 32 ≤ maxOffset

variable {disk : Disk σ} {readOp : Bool} {buf : Bytes} {pos : ℤ}

variable {sha1 : Bytes → Bytes} {faults : List BlockFaults} {flushErrs : List (Option GoError)}
  {dd : DedupDisk}

end Disk

/-! ## Requests -/

/-- The bytes of a request; those of a read do not matter. -/
def Request.data (req : Request) : Bytes :=
  if req.reqType = nbdRead then zeros req.count else req.writeBuffer

namespace Disk

variable {disk : Disk σ} {req : Request} {resp : Response} {flushMu : RWMutex} {kept : ℕ}

/-- What a request comes to: the error code of the answer. -/
def outcome (disk : Disk σ) (req : Request) (flushMu : RWMutex) (kept : ℕ) : Except Stop NbdErr :=
  (device.execute req newResponse flushMu kept disk).map fun r => r.1.errCode

end Disk
end Usbd
