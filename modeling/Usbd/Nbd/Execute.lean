import Usbd.Nbd.Protocol

/-!
# Executing a request

`execute` runs one request against the device and fills a response object taken from a pool; the
object later writes itself to the command stream.  Two of its fields outlive a use: the header
buffer, which `Set` truncates and rebuilds, and the read buffer, which only an aligned read
resizes and fills.  `Write` sends the header and then, for every response to a read, whatever the
read buffer holds.
-/

namespace Usbd

open Endian

/-- A response object. -/
structure Response where
  respBuffer : Bytes
  reqType : UInt32
  readBuffer : Slice
  errCode : NbdErr
  deriving DecidableEq

def newResponse : Response where
  respBuffer := []
  reqType := 0
  readBuffer := Slice.nil
  errCode := nbdRespSuccess

/-- The header `Set` builds: magic, error code, handle. -/
def replyHeader (req : Request) (errCode : NbdErr) : Bytes :=
  leBytes 4 nbdReplyMagic ++ beBytes 4 errCode.toNat ++ req.handle

namespace Response

/-- `Set`: record the kind and the error, and rebuild the header. -/
def set (resp : Response) (req : Request) (errCode : NbdErr) : Response :=
  { resp with
    reqType := req.reqType
    errCode := errCode
    respBuffer := replyHeader req errCode }

/-- `GetReadBuffer`: the read buffer, resized for the request. -/
def getReadBuffer (resp : Response) (req : Request) : Response :=
  { resp with readBuffer := resp.readBuffer.resize req.count }

/-- `Write`: the bytes sent, and the object afterwards (its header buffer has been drained). -/
def write (resp : Response) : Bytes × Response :=
  (resp.respBuffer ++ (if resp.reqType = nbdRead then resp.readBuffer.bytes else []),
    { resp with respBuffer := [] })

end Response

/-- The error code of a device call. -/
def ioErrCode (err : Option GoError) : NbdErr :=
  if err.isSome then ndbRespErrIO else nbdRespSuccess

/-- `execute`: run the request on the device and set up the response. -/
def execute {δ : Type} (dev : Device δ) (req : Request) (resp : Response) (d : δ) :
    Response × δ :=
  if req.reqType = nbdRead then
    if req.Aligned dev.blockSize then
      let resp := resp.getReadBuffer req
      let ((data, err), d) := dev.readAt d resp.readBuffer.len req.pos
      let resp := { resp with readBuffer := resp.readBuffer.fill data }
      (resp.set req (ioErrCode err), d)
    else (resp.set req ndbRespErrInvalid, d)
  else if req.reqType = nbdWrite then
    if req.Aligned dev.blockSize then
      let ((_, err), d) := dev.writeAt d req.writeBuffer req.pos
      (resp.set req (ioErrCode err), d)
    else (resp.set req ndbRespErrInvalid, d)
  else if req.reqType = nbdFlush then
    let (err, d) := dev.flush d
    (resp.set req (ioErrCode err), d)
  else if req.reqType = nbdTrim then
    let (err, d) := dev.trim d req.pos req.count
    (resp.set req (ioErrCode err), d)
  else (resp.set req ndbRespErrInvalid, d)

end Usbd
