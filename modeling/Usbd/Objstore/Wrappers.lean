import Usbd.Runtime.Zeros
import Usbd.Objstore.Container

/-!
# Compressing and encrypting containers

`compress.NewCompressedContainer` and `encrypt.NewEncryptedContainer` put a layer over a container:
what is put goes through the codec, and headers in the object's metadata say so; what is opened
again is decoded by the headers it carries.  `Items` hands out items that decode.  `Put` returns
the item of the container below as it is.

The compressors and the AES stream modes are libraries.  They are parameters here: `Codec` for a
compressor, `Cipher` for encryption with a key and an initialization vector, which comes from the
system's entropy source.
-/

namespace Usbd

/-! ## Compression -/

inductive CompressMode
  | identity
  | unknown
  | s2
  | gzip
  deriving DecidableEq, Repr

/-- A compressor: what it makes of a whole stream, what it has made of one that breaks off, and the
stream it reads back. -/
structure Codec where
  encode : Bytes → Bytes
  encodePartial : Bytes → Bytes
  decode : Reader → Except GoError Reader

/-- The compressors, by mode. -/
abbrev Codecs := CompressMode → Codec

namespace CompressMode

def algoName : CompressMode → GoString
  | identity => ['i', 'd', 'e', 'n', 't', 'i', 't', 'y']
  | s2 => ['s', '2']
  | gzip => ['g', 'z', 'i', 'p']
  | unknown => ['u', 'n', 'k', 'n', 'o', 'w', 'n']

/-- `ModeFromName`. -/
def fromName (name : GoString) : CompressMode :=
  if name = [] ∨ name = identity.algoName then identity
  else if name = s2.algoName then s2
  else if name = gzip.algoName then gzip
  else unknown

/-- `NewReader` and the stream behind it. -/
def newReader (codecs : Codecs) (m : CompressMode) (rdr : Reader) : Except GoError Reader :=
  match m with
  | identity => .ok rdr
  | unknown => .error (.new "Cannot create decompressor for unknown compression mode")
  | s2 => (codecs s2).decode rdr
  | gzip => (codecs gzip).decode rdr

/-- `NewWriter`, the copy through it and the pipe behind it: a stream that breaks off ends the pipe
with its error. -/
def newWriter (codecs : Codecs) (m : CompressMode) : Except GoError (Reader → Reader) :=
  let through (codec : Codec) (rdr : Reader) : Reader :=
    match rdr.err with
    | none => ⟨codec.encode rdr.data, none⟩
    | some e =>
      ⟨codec.encodePartial rdr.data, some (.wrap "Copy failed during stream compression" e)⟩
  match m with
  | identity => .ok id
  | unknown => .error (.new "Cannot create decompressor for unknown compression mode")
  | s2 => .ok (through (codecs s2))
  | gzip => .ok (through (codecs gzip))

end CompressMode

/-- The recorded size of an encoded object: `Size` of a wrapped item, by its two headers. -/
def wrappedSize {σ : Type} (what : String) (algo size : MetaKey) (item : Item σ) (st : σ) :
    Except GoError ℤ :=
  match item.metadata st with
  | .error e => .error (.wrap ("Opening item metadata to check for " ++ what ++ " failed") e)
  | .ok md =>
    match md algo with
    | none => item.size st
    | some _ =>
      match md size with
      | none => .error (.new ("Item metadata indicated " ++ what ++ " but no size was recorded"))
      | some .other =>
        .error (.new ("Item metadata indicated " ++ what ++ " but size was not a string"))
      | some (.str s) =>
        match parseInt s 36 with
        | some n => .ok n
        | none => .error (.new "Item metadata size was not parseable as base36 integer")

variable {σ : Type}

def compressedItem (codecs : Codecs) (item : Item σ) : Item σ :=
  { item with
    size := wrappedSize "compression" .compressAlgo .compressSize item
    openItem := fun st =>
      match item.metadata st with
      | .error e =>
        .error (.wrap "Opening item metadata to check for compression failed" e)
      | .ok md =>
        let opened (m : CompressMode) : Except GoError Reader :=
          if m = .unknown then
            .error (.new "Item metadata specified unsupported compression mode")
          else
            match item.openItem st with
            | .error e => .error e
            | .ok rdr => m.newReader codecs rdr
        match md .compressAlgo with
        | none => opened .identity
        | some .other => .error (.new "Item metadata indicated compression but was not a string")
        | some (.str name) => opened (CompressMode.fromName name) }

def compressedContainer (codecs : Codecs) (mode : CompressMode) (c : Container σ) :
    Container σ where
  name := c.name
  items st pre cursor count :=
    (c.items st pre cursor count).map fun r => (r.1.map (compressedItem codecs), r.2)
  put n rdr size md st :=
    if mode = .identity then c.put n rdr size md st
    else
      match mode.newWriter codecs with
      | .error e => (.error (.wrap "Could not create stream compressor" e), st)
      | .ok through =>
        let md := Function.update md .compressAlgo (some (.str mode.algoName))
        let md := Function.update md .compressSize (some (.str (formatInt size 36)))
        c.put n (through rdr) sizeUnknown md st

/-! ## Encryption -/

inductive EncryptMode
  | identity
  | unknown
  | aesCTR
  | aesCFB
  | aesOFB
  deriving DecidableEq, Repr

/-- AES in the stream modes, with a key and an initialization vector; and the vectors the entropy
source gives. -/
structure Cipher (σ : Type) where
  encrypt : EncryptMode → Bytes → Bytes → Bytes → Bytes
  decrypt : EncryptMode → Bytes → Bytes → Bytes → Bytes
  initVect : σ → Bytes

def aesBlockSize : ℕ := 16

/-- `aes.NewCipher` accepts the key. -/
def aesKeyLength (key : Bytes) : Bool := key.length = 16 || key.length = 24 || key.length = 32

def validAESKey (key : Bytes) : Option GoError :=
  if key.length = 0 then some (.new "AES key is empty")
  else if aesKeyLength key then
    if isZeros key then some (.new "Provided AES key is all zeros (likely mistake)") else none
  else some (.new "AES key is of an unexpected length")

namespace EncryptMode

def algoName : EncryptMode → GoString
  | identity => ['i', 'd', 'e', 'n', 't', 'i', 't', 'y']
  | aesCTR => ['a', 'e', 's', '-', 'c', 't', 'r']
  | aesCFB => ['a', 'e', 's', '-', 'c', 'f', 'b']
  | aesOFB => ['a', 'e', 's', '-', 'o', 'f', 'b']
  | unknown => ['u', 'n', 'k', 'n', 'o', 'w', 'n']

/-- `ModeFromName`. -/
def fromName (name : GoString) : EncryptMode :=
  if name = [] ∨ name = identity.algoName then identity
  else if name = aesCTR.algoName ∨ name = ['a', 'e', 's', '-', 'r', 'e', 'c'] then aesCTR
  else if name = aesCFB.algoName then aesCFB
  else if name = aesOFB.algoName then aesOFB
  else unknown

/-- `NewReader` and the stream behind it. -/
def newReader (cipher : Cipher σ) (m : EncryptMode) (key initVect : Bytes) (rdr : Reader) :
    Except GoError Reader :=
  match m with
  | identity => .ok rdr
  | unknown => .error (.new "Cannot create decryptor for unknown cipher")
  | m =>
    if aesKeyLength key then
      if initVect.length = aesBlockSize then
        .ok ⟨cipher.decrypt m key initVect rdr.data, rdr.err⟩
      else .error (.new "Provided AES initialization vector has the wrong length")
    else .error (.wrap "Could not create AES decryptor" (.new "invalid key size"))

/-- `NewWriter`, the copy through it and the pipe behind it. -/
def newWriter (cipher : Cipher σ) (m : EncryptMode) (key initVect : Bytes) :
    Except GoError (Reader → Reader) :=
  match m with
  | identity => .ok id
  | m =>
    if aesKeyLength key then
      if m = unknown then .error (.new "Cannot create encryptor for unknown cipher")
      else .ok fun rdr => ⟨cipher.encrypt m key initVect rdr.data,
        rdr.err.map (.wrap "Copy failed during stream encryption")⟩
    else .error (.wrap "Could not create AES encryptor" (.new "invalid key size"))

end EncryptMode

def encryptedItem (cipher : Cipher σ) (key : Bytes) (item : Item σ) : Item σ :=
  { item with
    size := wrappedSize "encryption" .encryptAlgo .encryptSize item
    openItem := fun st =>
      match item.metadata st with
      | .error e => .error (.wrap "Opening item metadata to check for encryption failed" e)
      | .ok md =>
        let opened (m : EncryptMode) (initVect : Bytes) : Except GoError Reader :=
          match item.openItem st with
          | .error e => .error e
          | .ok rdr => m.newReader cipher key initVect rdr
        match md .encryptAlgo with
        | none => opened .identity []
        | some .other => .error (.new "Item metadata indicated encryption but was not a string")
        | some (.str name) =>
          if EncryptMode.fromName name = .unknown then
            .error (.new "Item metadata specified unsupported encryption mode")
          else
            match md .encryptIV with
            | none => .error (.new "Item metadata indicated encryption but no IV was recorded")
            | some .other => .error (.new "Item metadata IV was not a string")
            | some (.str s) =>
              match hexDecode s with
              | none => .error (.new "Item metadata IV was not parseable as base16 value")
              | some initVect => opened (EncryptMode.fromName name) initVect }

def encryptedContainer (cipher : Cipher σ) (mode : EncryptMode) (key : Bytes) (c : Container σ) :
    Container σ where
  name := c.name
  items st pre cursor count :=
    (c.items st pre cursor count).map fun r => (r.1.map (encryptedItem cipher key), r.2)
  put n rdr size md st :=
    if mode = .identity then c.put n rdr size md st
    else
      match mode.newWriter cipher key (cipher.initVect st) with
      | .error e => (.error (.wrap "Could not create stream encryptor" e), st)
      | .ok through =>
        let md := Function.update md .encryptAlgo (some (.str mode.algoName))
        let md := Function.update md .encryptIV (some (.str (hexEncode (cipher.initVect st))))
        let md := Function.update md .encryptSize (some (.str (formatInt size 36)))
        c.put n (through rdr) sizeUnknown md st

end Usbd
