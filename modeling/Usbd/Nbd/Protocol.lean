import Usbd.Foundations.Endian
import Usbd.Runtime.Slice

/-!
# NBD requests and the device interface

The constants of the protocol, the decoded request, and the interface through which requests reach
a device.  The numbers are those of `linux/nbd.h`; the two magic numbers are held in network byte
order, as `htonl` returns them on a little-endian machine, so that writing them least significant
byte first puts them on the wire most significant byte first.
-/

namespace Usbd

open Endian

/-! ## Constants -/

def nbdRead : UInt32 := 0
def nbdWrite : UInt32 := 1
def nbdDisconnect : UInt32 := 2
def nbdFlush : UInt32 := 3
def nbdTrim : UInt32 := 4

/-- The error numbers of a reply. -/
abbrev NbdErr := UInt32

def nbdRespSuccess : NbdErr := 0
def ndbRespErrIO : NbdErr := 5
def ndbRespErrInvalid : NbdErr := 22

/-- `htonl` on a little-endian machine: the byte order is reversed. -/
def htonl (n : ℕ) : ℕ := ofBE (leBytes 4 n)

/-- `NBD_REPLY_MAGIC`, as the header file writes it. -/
def NBD_REPLY_MAGIC : ℕ := 0x67446698

/-- The reply magic in network byte order. -/
def nbdReplyMagic : ℕ := htonl NBD_REPLY_MAGIC

def ndbHandleLen : ℕ := 8

/-- Written least significant byte first, the stored magic is on the wire as the header file
spells it. -/
lemma leBytes_nbdReplyMagic : leBytes 4 nbdReplyMagic = beBytes 4 NBD_REPLY_MAGIC :=
  leBytes_ofBE_leBytes

/-! ## Requests -/

/-- A decoded request.  The position is the 64-bit wire value as a signed number. -/
structure Request where
  reqType : UInt32
  handle : Bytes
  pos : ℤ
  count : ℕ
  writeBuffer : Bytes
  handle_length : handle.length = ndbHandleLen
  deriving DecidableEq

namespace Request

/-- The assertion at the top of reads and writes: position and length are whole blocks. -/
def Aligned (req : Request) (blockSize : ℤ) : Prop :=
  req.pos.tmod blockSize = 0 ∧ (req.count : ℤ).tmod blockSize = 0

instance (req : Request) (blockSize : ℤ) : Decidable (req.Aligned blockSize) :=
  inferInstanceAs (Decidable (_ ∧ _))

end Request

/-! ## Devices -/

/-- `usbdlib.Device` over a device state, as far as requests reach it.  `ReadAt` is represented by
the bytes it puts at the start of the buffer; the two laws are what `io.ReaderAt` demands of every
implementation, that it never reports more than it was asked for and reports an error whenever it
delivers less. -/
structure Device (δ : Type) where
  blockSize : ℤ
  readAt : δ → (len : ℕ) → (pos : ℤ) → (Bytes × Option GoError) × δ
  writeAt : δ → (buf : Bytes) → (pos : ℤ) → (ℤ × Option GoError) × δ
  trim : δ → (pos : ℤ) → (count : ℕ) → Option GoError × δ
  flush : δ → Option GoError × δ
  readAt_le : ∀ d len pos, (readAt d len pos).1.1.length ≤ len
  readAt_full : ∀ d len pos, (readAt d len pos).1.2 = none →
    (readAt d len pos).1.1.length = len

end Usbd
