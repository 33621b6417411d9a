import Usbd.Nbd.Protocol

/-!
# Decoding requests

`request.Decode` takes a request off the command stream: 28 bytes of magic, type, handle, position
and count, and for a write the data behind them.  It looks at the magic only.  The position is an
unsigned 64-bit number on the wire and a signed one from here on; the count is any 32-bit number
(`Request.OnWire`).

`Request.encode` is the client's side, and what it writes is decoded to the request it was
(`decode_encode`): there is no position and no count that a request cannot have.
-/

namespace Usbd

open Endian ListMemory

/-- `NBD_REQUEST_MAGIC`, as the header file writes it. -/
def NBD_REQUEST_MAGIC : ℕ := 0x25609513

def nbdReqMagic : ℕ := htonl NBD_REQUEST_MAGIC

def ndbReqBytes : ℕ := 28

/-- `io.ReadFull` of `n` bytes: the bytes and the rest of the stream. -/
def ioReadFull (strm : Bytes) (n : ℕ) : Except GoError (Bytes × Bytes) :=
  if n ≤ strm.length then .ok (strm.take n, strm.drop n)
  else .error (if strm = [] then ioEOF else ioErrUnexpectedEOF)

/-- The fields of a request in its raw bytes, with the write buffer of the object. -/
def Request.ofRaw (rawReq : Bytes) (buf : Slice) : Request where
  reqType := UInt32.ofNat (ofBE (slice rawReq 4 4))
  handle := goCopy (zeros ndbHandleLen) (slice rawReq 8 8)
  pos := wrapInt64 (ofBE (slice rawReq 16 8))
  count := ofBE (slice rawReq 24 4)
  writeBuffer := buf.bytes
  handle_length := by simp

/-- `Decode` into a request object with this write buffer: the request, the buffer, and the rest of
the stream.  Only a write touches the buffer, which otherwise holds what it held before. -/
def decode (writeBuffer : Slice) (strm : Bytes) : Except GoError (Request × Slice × Bytes) :=
  match ioReadFull strm ndbReqBytes with
  | .error e => .error (.wrap "Could not read request data" e)
  | .ok (rawReq, strm) =>
    let req := Request.ofRaw rawReq
    if ofLE (slice rawReq 0 4) ≠ nbdReqMagic then
      .error (.new "Request did not have correct magic number")
    else if (req writeBuffer).reqType = nbdWrite then
      match ioReadFull strm (req writeBuffer).count with
      | .error e => .error (.wrap "Could not read data to be written" e)
      | .ok (data, strm) =>
        let buf := (writeBuffer.resize (req writeBuffer).count).fill data
        .ok (req buf, buf, strm)
    else .ok (req writeBuffer, writeBuffer, strm)

lemma ioReadFull_append {data : Bytes} (rest : Bytes) :
    ioReadFull (data ++ rest) data.length = .ok (data, rest) := by
  simp [ioReadFull]

lemma append_of_ioReadFull {strm data rest : Bytes} {n : ℕ}
    (h : ioReadFull strm n = .ok (data, rest)) : data ++ rest = strm := by
  unfold ioReadFull at h
  split_ifs at h
  obtain ⟨rfl, rfl⟩ := Prod.mk.inj (Except.ok.inj h)
  exact List.take_append_drop n strm

lemma length_of_ioReadFull {strm data rest : Bytes} {n : ℕ}
    (h : ioReadFull strm n = .ok (data, rest)) : data.length = n := by
  unfold ioReadFull at h
  split_ifs at h with hle
  obtain ⟨rfl, rfl⟩ := Prod.mk.inj (Except.ok.inj h)
  rw [List.length_take]
  omega

/-! ## What is accepted -/

/-- What every request off the wire satisfies: a signed 64-bit position, a 32-bit count, and for a
write as much data as it says. -/
structure Request.OnWire (req : Request) : Prop where
  pos : IsInt64 req.pos
  count_lt : req.count < 2 ^ 32
  payload : req.reqType = nbdWrite → req.writeBuffer.length = req.count

lemma ofBE_lt (bs : Bytes) : ofBE bs < 256 ^ bs.length := by
  have hLE : ∀ bs : Bytes, ofLE bs < 256 ^ bs.length := by
    intro bs
    induction bs with
    | nil => simp [ofLE]
    | cons b bs ih =>
      have hb : b.toNat < 256 := b.toNat_lt
      rw [ofLE, List.length_cons, pow_succ]
      omega
  rw [ofBE, ← List.length_reverse]
  exact hLE bs.reverse

/-- A conversion to a signed 64-bit number is one. -/
lemma isInt64_wrapInt64 (n : ℤ) : IsInt64 (wrapInt64 n) := by
  unfold IsInt64 wrapInt64 maxOffset
  rw [Int.bmod_def]
  split_ifs <;> omega

lemma Request.ofRaw_onWire {rawReq : Bytes} (hlen : rawReq.length = ndbReqBytes) {buf : Slice}
    (hbuf : (ofRaw rawReq buf).reqType = nbdWrite → buf.len = (ofRaw rawReq buf).count) :
    (ofRaw rawReq buf).OnWire := by
  refine ⟨?_, ?_, ?_⟩
  · simp only [ofRaw]
    exact isInt64_wrapInt64 _
  · have hlt := ofBE_lt (slice rawReq 24 4)
    rw [length_slice_of_le (by rw [hlen, ndbReqBytes])] at hlt
    simp only [ofRaw]
    exact hlt
  · intro hwrite
    rw [← hbuf hwrite]
    exact Slice.length_bytes buf

/-- What a successful `Decode` has read: the raw bytes with their magic, and the data of a write. -/
lemma decode_eq_ok {writeBuffer buf : Slice} {strm rest : Bytes} {req : Request}
    (h : decode writeBuffer strm = .ok (req, buf, rest)) :
    ∃ rawReq, rawReq.length = ndbReqBytes ∧ ofLE (slice rawReq 0 4) = nbdReqMagic ∧
      req = Request.ofRaw rawReq buf ∧
      strm = rawReq ++ ((if req.reqType = nbdWrite then req.writeBuffer else []) ++ rest) ∧
      (req.reqType = nbdWrite → buf.len = req.count) := by
  unfold decode at h
  split at h
  · cases h
  · next rawReq strm₁ hraw =>
    have hstrm := append_of_ioReadFull hraw
    dsimp only at h
    split_ifs at h with hmagic hwrite
    · split at h
      · cases h
      · next data strm₂ hdata =>
        obtain ⟨rfl, rfl, rfl⟩ := by simpa only [Except.ok.injEq, Prod.mk.injEq] using h
        have hbytes : ((writeBuffer.resize (ofBE (slice rawReq 24 4))).fill data).bytes = data :=
          Slice.bytes_fill_of_length_eq (by
            rw [Slice.len_resize]
            exact length_of_ioReadFull hdata)
        refine ⟨rawReq, length_of_ioReadFull hraw, not_not.mp hmagic, rfl, ?_, fun _ => ?_⟩
        · have htype : ∀ b, (Request.ofRaw rawReq b).reqType = nbdWrite := fun _ => hwrite
          rw [if_pos (htype _)]
          simp only [Request.ofRaw, hbytes]
          rw [append_of_ioReadFull hdata, hstrm]
        · rw [Slice.len_fill, Slice.len_resize]
          rfl
    · obtain ⟨rfl, rfl, rfl⟩ := by simpa only [Except.ok.injEq, Prod.mk.injEq] using h
      refine ⟨rawReq, length_of_ioReadFull hraw, not_not.mp hmagic, rfl, ?_,
        fun hw => absurd hw hwrite⟩
      rw [if_neg hwrite, List.nil_append, hstrm]

lemma decode_onWire {writeBuffer buf : Slice} {strm rest : Bytes} {req : Request}
    (h : decode writeBuffer strm = .ok (req, buf, rest)) : req.OnWire := by
  obtain ⟨rawReq, hlen, -, rfl, -, hbuf⟩ := decode_eq_ok h
  exact Request.ofRaw_onWire hlen hbuf

/-! ## The client's side -/

/-- A request on the wire. -/
def Request.encode (req : Request) : Bytes :=
  beBytes 4 NBD_REQUEST_MAGIC ++ beBytes 4 req.reqType.toNat ++ req.handle ++
    beBytes 8 (req.pos % 2 ^ 64).toNat ++ beBytes 4 req.count ++
    (if req.reqType = nbdWrite then req.writeBuffer else [])

lemma slice_field {raw pre field post : Bytes} {p n : ℕ} (h : raw = pre ++ (field ++ post))
    (hp : pre.length = p) (hn : field.length = n) : slice raw p n = field := by
  subst h hp hn
  rw [slice, List.drop_left, List.take_left]

/-- The raw bytes a client writes for a request hold its fields. -/
lemma Request.ofRaw_encode {req : Request} (h : req.OnWire) {raw : Bytes}
    (hraw : raw = beBytes 4 NBD_REQUEST_MAGIC ++ beBytes 4 req.reqType.toNat ++ req.handle ++
      beBytes 8 (req.pos % 2 ^ 64).toNat ++ beBytes 4 req.count) (buf : Slice) :
    ofLE (slice raw 0 4) = nbdReqMagic ∧
      ofRaw raw buf = { req with writeBuffer := buf.bytes } := by
  obtain ⟨reqType, handle, pos, count, data, hhandle⟩ := req
  obtain ⟨hpos, hcount, -⟩ := h
  simp only [List.append_assoc] at hraw hpos hcount
  have hmagic : slice raw 0 4 = beBytes 4 NBD_REQUEST_MAGIC :=
    slice_field (by simpa using hraw) List.length_nil (length_beBytes ..)
  have htype : slice raw 4 4 = beBytes 4 reqType.toNat :=
    slice_field hraw (length_beBytes ..) (length_beBytes ..)
  rw [← List.append_assoc] at hraw
  have hhandle' : slice raw 8 8 = handle := slice_field hraw (by simp) hhandle
  rw [← List.append_assoc] at hraw
  have hpos' : slice raw 16 8 = beBytes 8 (pos % 2 ^ 64).toNat :=
    slice_field hraw (by simp [hhandle, ndbHandleLen]) (length_beBytes ..)
  rw [← List.append_assoc] at hraw
  have hcount' : slice raw 24 4 = beBytes 4 count :=
    slice_field (hraw.trans (by rw [List.append_nil])) (by simp [hhandle, ndbHandleLen])
      (length_beBytes ..)
  have hwrap : wrapInt64 ((pos % 2 ^ 64).toNat : ℕ) = pos := by
    have hcast : (2 : ℤ) ^ 64 = ((2 ^ 64 : ℕ) : ℤ) := by norm_num
    rw [Int.toNat_of_nonneg (Int.emod_nonneg _ (by norm_num)), wrapInt64, hcast, Int.emod_bmod]
    exact wrapInt64_of_isInt64 hpos
  constructor
  · rw [hmagic, ← leBytes_ofBE_leBytes, ofLE_leBytes (by decide)]
    rfl
  · have hcopy : goCopy (zeros ndbHandleLen) handle = handle :=
      goCopy_of_length_eq (by simp [hhandle])
    simp only [ofRaw, htype, hhandle', hpos', hcount', hcopy,
      ofBE_beBytes (show count < 256 ^ 4 from hcount),
      ofBE_beBytes (show reqType.toNat < 256 ^ 4 from reqType.toNat_lt),
      ofBE_beBytes (show (pos % 2 ^ 64).toNat < 256 ^ 8 by omega), hwrap, UInt32.ofNat_toNat]

lemma decode_encode {req : Request} (h : req.OnWire) (writeBuffer : Slice) (rest : Bytes) :
    ∃ buf, decode writeBuffer (req.encode ++ rest) = .ok
      (if req.reqType = nbdWrite then req else { req with writeBuffer := writeBuffer.bytes },
        buf, rest) := by
  obtain ⟨raw, hraw⟩ : ∃ raw, raw = beBytes 4 NBD_REQUEST_MAGIC ++ beBytes 4 req.reqType.toNat ++
    req.handle ++ beBytes 8 (req.pos % 2 ^ 64).toNat ++ beBytes 4 req.count := ⟨_, rfl⟩
  have hlen : raw.length = ndbReqBytes := by
    simp [hraw, req.handle_length, ndbHandleLen, ndbReqBytes]
  have hofRaw := Request.ofRaw_encode h hraw
  rw [Request.encode, ← hraw, List.append_assoc, decode, ← hlen, ioReadFull_append]
  simp only [(hofRaw writeBuffer).1, (hofRaw _).2, ne_eq, not_true_eq_false, if_false]
  split_ifs with hwrite
  · rw [← h.payload hwrite, ioReadFull_append]
    have hbytes : ((writeBuffer.resize req.writeBuffer.length).fill req.writeBuffer).bytes =
        req.writeBuffer := Slice.bytes_fill_of_length_eq (by simp)
    refine ⟨(writeBuffer.resize req.writeBuffer.length).fill req.writeBuffer, ?_⟩
    simp only [hbytes]
    rw [h.payload hwrite]
  · exact ⟨_, rfl⟩

end Usbd
