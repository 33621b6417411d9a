import Usbd.Nbd.Decode

/-!
# The request stream

A client writes its requests one behind the other, and the only thing that says where one ends and
the next begins is the requests themselves: `Encode` and `Decode` have to be inverse to each other,
whatever request object a request is decoded into.

An object keeps the write buffer of the request it held before.  A write takes it over, as long as
it is large enough; any other request leaves it alone, so that what was decoded is the request up to
a write buffer that is none of its own (`Request.sent`).  `request_stream_decoding` is the round
trip in both directions.
-/

namespace Usbd

open Endian ListMemory

/-! ## Encoding -/

/-- The 28 bytes at the head of an encoded request. -/
def Request.head (req : Request) : Bytes :=
  leBytes 4 nbdReqMagic ++ beBytes 4 req.reqType.toNat ++ req.handle ++
    beBytes 8 (req.pos % 2 ^ 64).toNat ++ beBytes 4 (req.count % 2 ^ 32)

def Request.Encode (req : Request) : Except GoError Bytes :=
  if req.reqType = nbdWrite then
    if req.writeBuffer.length ≠ req.count % 2 ^ 32 then
      .error (.new "Write count did not match size of write buffer")
    else .ok (req.head ++ req.writeBuffer)
  else .ok req.head

/-- Requests encoded one behind the other. -/
def encodeStream : List Request → Except GoError Bytes
  | [] => .ok []
  | req :: reqs =>
    match req.Encode, encodeStream reqs with
    | .ok bytes, .ok strm => .ok (bytes ++ strm)
    | .error e, _ => .error e
    | _, .error e => .error e

/-- Requests decoded one behind the other, each into the next of the given request objects: the
requests and the rest of the stream. -/
def decodeStream : List Slice → Bytes → Except GoError (List Request × Bytes)
  | [], strm => .ok ([], strm)
  | writeBuffer :: objs, strm =>
    match decode writeBuffer strm with
    | .error e => .error e
    | .ok (req, _, strm) => (decodeStream objs strm).map fun r => (req :: r.1, r.2)

/-- What a request says: a write buffer is part of a write only. -/
def Request.sent (req : Request) : Request :=
  if req.reqType = nbdWrite then req else { req with writeBuffer := [] }

/-- A request off the wire is encoded without an error, as a client writes it. -/
lemma Request.Encode_of_onWire {req : Request} (h : req.OnWire) : req.Encode = .ok req.encode := by
  have hcount : req.count % 2 ^ 32 = req.count := Nat.mod_eq_of_lt h.count_lt
  have hmagic : leBytes 4 nbdReqMagic = beBytes 4 NBD_REQUEST_MAGIC := leBytes_ofBE_leBytes
  rw [Request.Encode, Request.encode, Request.head, hcount, hmagic]
  split_ifs with hwrite hlen
  · exact absurd (h.payload hwrite) hlen
  · rfl
  · rw [List.append_nil]

/-! ## Decoding what was encoded -/

lemma encodeStream_of_onWire {reqs : List Request} (h : ∀ req ∈ reqs, req.OnWire) :
    encodeStream reqs = .ok (reqs.flatMap Request.encode) := by
  induction reqs with
  | nil => rfl
  | cons req reqs ih =>
    obtain ⟨hreq, hreqs⟩ := List.forall_mem_cons.mp h
    rw [encodeStream, Request.Encode_of_onWire hreq, ih hreqs, List.flatMap_cons]

/-- A request is decoded to what it says. -/
lemma decode_encode_sent {req : Request} (h : req.OnWire) (obj : Slice) (rest : Bytes) :
    ∃ got buf, decode obj (req.encode ++ rest) = .ok (got, buf, rest) ∧ got.sent = req.sent := by
  obtain ⟨buf, hdec⟩ := decode_encode h obj rest
  refine ⟨_, buf, hdec, ?_⟩
  by_cases hwrite : req.reqType = nbdWrite <;> simp [Request.sent, hwrite]

/-- The stream is cut where the requests were put together, whatever the objects held before. -/
lemma decodeStream_flatMap_encode {reqs : List Request} (h : ∀ req ∈ reqs, req.OnWire)
    {objs : List Slice} (hobjs : objs.length = reqs.length) :
    ∃ got, decodeStream objs (reqs.flatMap Request.encode) = .ok (got, []) ∧
      got.map Request.sent = reqs.map Request.sent := by
  induction reqs generalizing objs with
  | nil =>
    obtain rfl := List.length_eq_zero_iff.mp hobjs
    exact ⟨[], rfl, rfl⟩
  | cons req reqs ih =>
    obtain ⟨hreq, hreqs⟩ := List.forall_mem_cons.mp h
    obtain ⟨obj, objs, rfl⟩ := List.exists_cons_of_length_eq_add_one hobjs
    obtain ⟨got, hgot, hsent⟩ := ih hreqs (Nat.succ.inj hobjs)
    obtain ⟨req', buf, hdec, hreq'⟩ := decode_encode_sent hreq obj (reqs.flatMap Request.encode)
    refine ⟨req' :: got, ?_, ?_⟩
    · rw [List.flatMap_cons, decodeStream, hdec]
      simp only [hgot, Except.map]
    · rw [List.map_cons, List.map_cons, hsent, hreq']

/-! ## Encoding what was decoded -/

/-- The position of a request is written back as the eight bytes it was read from. -/
lemma beBytes_wrapInt64 {bs : Bytes} (h : bs.length = 8) :
    beBytes 8 (wrapInt64 (ofBE bs) % 2 ^ 64).toNat = bs := by
  have hlt := ofBE_lt bs
  rw [h] at hlt
  have hmod : wrapInt64 (ofBE bs) % 2 ^ 64 = ofBE bs := by
    have hcast : (2 : ℤ) ^ 64 = ((2 ^ 64 : ℕ) : ℤ) := by norm_num
    rw [wrapInt64, hcast, Int.bmod_emod]
    exact Int.emod_eq_of_lt (by omega) (by omega)
  rw [hmod, Int.toNat_natCast, beBytes_ofBE h]

/-- The fields of a request say all of its raw bytes. -/
lemma Request.head_ofRaw {rawReq : Bytes} (hlen : rawReq.length = ndbReqBytes)
    (hmagic : ofLE (slice rawReq 0 4) = nbdReqMagic) (buf : Slice) :
    (ofRaw rawReq buf).head = rawReq := by
  have hfield : ∀ p n, p + n ≤ 28 → (slice rawReq p n).length = n := fun p n h =>
    length_slice_of_le (by rw [hlen]; exact h)
  have hmag : leBytes 4 nbdReqMagic = slice rawReq 0 4 := by
    have h := leBytes_ofLE (slice rawReq 0 4)
    rwa [hfield 0 4 (by decide), hmagic] at h
  have htype : beBytes 4 (UInt32.ofNat (ofBE (slice rawReq 4 4))).toNat = slice rawReq 4 4 := by
    have hlt := ofBE_lt (slice rawReq 4 4)
    rw [hfield 4 4 (by decide)] at hlt
    rw [UInt32.toNat_ofNat_of_lt' hlt, beBytes_ofBE (hfield 4 4 (by decide))]
  have hhandle : goCopy (zeros ndbHandleLen) (slice rawReq 8 8) = slice rawReq 8 8 :=
    goCopy_of_length_eq (by rw [hfield 8 8 (by decide), length_zeros, ndbHandleLen])
  have hcount : ofBE (slice rawReq 24 4) % 2 ^ 32 = ofBE (slice rawReq 24 4) := by
    have hlt := ofBE_lt (slice rawReq 24 4)
    rw [hfield 24 4 (by decide)] at hlt
    exact Nat.mod_eq_of_lt hlt
  simp only [Request.head, ofRaw, hmag, htype, hhandle, hcount,
    beBytes_wrapInt64 (hfield 16 8 (by decide)), beBytes_ofBE (hfield 24 4 (by decide))]
  rw [slice_append_slice rawReq 0 4 4, slice_append_slice rawReq 0 8 8,
    slice_append_slice rawReq 0 16 8, slice_append_slice rawReq 0 24 4]
  have hall := slice_zero_length rawReq
  rwa [hlen] at hall

/-- What `Decode` has taken off the stream is the encoding of what it returns. -/
lemma Encode_of_decode {writeBuffer buf : Slice} {strm rest : Bytes} {req : Request}
    (h : decode writeBuffer strm = .ok (req, buf, rest)) :
    ∃ bytes, req.Encode = .ok bytes ∧ strm = bytes ++ rest ∧
      bytes.length = ndbReqBytes + if req.reqType = nbdWrite then req.count else 0 := by
  have hwire := decode_onWire h
  obtain ⟨rawReq, hlen, hmagic, hreq, hstrm, -⟩ := decode_eq_ok h
  have hhead : req.head = rawReq := hreq ▸ Request.head_ofRaw hlen hmagic buf
  have hcount : req.count % 2 ^ 32 = req.count := Nat.mod_eq_of_lt hwire.count_lt
  rw [Request.Encode, hhead, hcount]
  split_ifs at hstrm ⊢ with hwrite hpay
  · exact absurd (hwire.payload hwrite) hpay
  · refine ⟨_, rfl, by rw [hstrm, List.append_assoc], ?_⟩
    rw [List.length_append, hlen, hwire.payload hwrite]
  · exact ⟨_, rfl, by rw [hstrm, List.nil_append], hlen⟩

/-- **The request stream.**  Decoding the encodings of a list of requests, into request objects
in any state, yields the list and uses up the stream; what `Decode` accepts at the head of a stream
is the encoding of what it returns, 28 bytes and the data of a write; so that it accepts the
encodings and nothing else. -/
theorem request_stream_decoding :
    (∀ reqs : List Request, (∀ req ∈ reqs, req.OnWire) →
      ∃ strm, encodeStream reqs = .ok strm ∧
        ∀ objs : List Slice, objs.length = reqs.length →
          ∃ got, decodeStream objs strm = .ok (got, []) ∧
            got.map Request.sent = reqs.map Request.sent) ∧
    (∀ (obj buf : Slice) (strm rest : Bytes) (req : Request),
      decode obj strm = .ok (req, buf, rest) →
        ∃ bytes, req.Encode = .ok bytes ∧ strm = bytes ++ rest ∧
          bytes.length = ndbReqBytes + if req.reqType = nbdWrite then req.count else 0) ∧
    (∀ (obj : Slice) (strm : Bytes), (∃ r, decode obj strm = .ok r) ↔
      ∃ (req : Request) (bytes rest : Bytes), req.OnWire ∧ req.Encode = .ok bytes ∧
        strm = bytes ++ rest) := by
  refine ⟨fun reqs h => ?_, fun obj buf strm rest req h => Encode_of_decode h, fun obj strm => ?_⟩
  · exact ⟨_, encodeStream_of_onWire h, fun objs hobjs => decodeStream_flatMap_encode h hobjs⟩
  · constructor
    · rintro ⟨⟨req, buf, rest⟩, h⟩
      obtain ⟨bytes, hbytes, hstrm, -⟩ := Encode_of_decode h
      exact ⟨req, bytes, rest, decode_onWire h, hbytes, hstrm⟩
    · rintro ⟨req, bytes, rest, hwire, hbytes, rfl⟩
      rw [Request.Encode_of_onWire hwire, Except.ok.injEq] at hbytes
      obtain ⟨buf, hdec⟩ := decode_encode hwire obj rest
      rw [hbytes] at hdec
      exact ⟨_, hdec⟩

lemma length_firstHandle : ([1, 2, 3, 4, 5, 6, 7, 8] : Bytes).length = ndbHandleLen := rfl

/-- A write at the largest position there is and a read behind it. -/
def writeThenRead : List Request :=
  [⟨nbdWrite, [1, 2, 3, 4, 5, 6, 7, 8], -1, 2, [7, 9], length_firstHandle⟩,
    ⟨nbdRead, [8, 7, 6, 5, 4, 3, 2, 1], 4096, 4294967295, [], rfl⟩]

/-- An object that held three bytes, and a new one. -/
theorem request_stream_decoding_recycled :
    ∃ strm, encodeStream writeThenRead = .ok strm ∧
      ∃ got, decodeStream [⟨[1, 1, 1], 3, le_rfl⟩, Slice.nil] strm = .ok (got, []) ∧
        got.map Request.sent = writeThenRead := by
  have hwire : ∀ req ∈ writeThenRead, req.OnWire := by
    intro req hreq
    rcases List.mem_pair.mp hreq with rfl | rfl
    · exact ⟨by decide, by decide, fun _ => rfl⟩
    · exact ⟨by decide, by decide, fun h => absurd h (by decide)⟩
  obtain ⟨strm, hstrm, hdec⟩ := request_stream_decoding.1 writeThenRead hwire
  exact ⟨strm, hstrm, hdec [⟨[1, 1, 1], 3, le_rfl⟩, Slice.nil] rfl⟩

end Usbd
