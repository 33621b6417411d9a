import Usbd.Objstore.FileSpec
import Usbd.Objstore.ObjDevice

/-!
# Reloading through compression and encryption

A segment that has been uploaded keeps the item `Put` returned, and loads its bytes from that item
when its local file is gone.  Through `containerStack` this item is the base container's own: it
shows the bytes as stored, compressed and encrypted, where the item a listing hands out shows the
contents.

`ObjOptions.stored` is what the stack stores for given contents and `ObjOptions.layers` what a
listing wraps an item in.  A put stores the one, and the other undoes it (`put_stack`).  What comes
of it in a session is followed through one segment (`Segment.roundTrip`): it is written, flushed,
evicted and read again.
-/

namespace Usbd

open ListMemory Prog

variable {σ : Type}

/-! ## What a stack stores -/

/-- The compressors and the stream modes undo themselves, and the entropy source gives vectors of
the cipher's block size. -/
structure Inverts (codecs : Codecs) (cipher : Cipher σ) : Prop where
  decode_encode : ∀ m x, (codecs m).decode ⟨(codecs m).encode x, none⟩ = .ok ⟨x, none⟩
  decrypt_encrypt : ∀ m key iv x, cipher.decrypt m key iv (cipher.encrypt m key iv x) = x
  length_initVect : ∀ st, (cipher.initVect st).length = aesBlockSize

/-- What compression makes of contents. -/
def CompressMode.stored (codecs : Codecs) (m : CompressMode) (data : Bytes) : Bytes :=
  if m = .identity then data else (codecs m).encode data

/-- What encryption makes of contents. -/
def EncryptMode.stored (cipher : Cipher σ) (m : EncryptMode) (key iv data : Bytes) : Bytes :=
  if m = .identity then data else cipher.encrypt m key iv data

/-- The headers compression adds. -/
def CompressMode.headers (m : CompressMode) (size : ℤ) (md : Metadata) : Metadata :=
  if m = .identity then md
  else Function.update (Function.update md .compressAlgo (some (.str m.algoName)))
    .compressSize (some (.str (formatInt size 36)))

/-- The headers encryption adds. -/
def EncryptMode.headers (m : EncryptMode) (iv : Bytes) (size : ℤ) (md : Metadata) : Metadata :=
  if m = .identity then md
  else Function.update (Function.update (Function.update md .encryptAlgo (some (.str m.algoName)))
    .encryptIV (some (.str (hexEncode iv)))) .encryptSize (some (.str (formatInt size 36)))

lemma CompressMode.fromName_algoName {m : CompressMode} (h : m ≠ .unknown) :
    fromName m.algoName = m := by
  cases m <;> first | exact absurd rfl h | decide

lemma EncryptMode.fromName_algoName {m : EncryptMode} (h : m ≠ .unknown) :
    fromName m.algoName = m := by
  cases m <;> first | exact absurd rfl h | decide

section Layers

variable {codecs : Codecs} {cipher : Cipher σ} {c : Container σ} {st : σ} {n : GoString}
  {key data : Bytes} {md : Metadata} {size : ℤ}

lemma put_compressed {m : CompressMode} (hm : m ≠ .unknown) :
    (compressedContainer codecs m c).put n ⟨data, none⟩ size md st =
      c.put n ⟨m.stored codecs data, none⟩ (if m = .identity then size else sizeUnknown)
        (m.headers size md) st := by
  cases m <;> first | exact absurd rfl hm | simp [compressedContainer, CompressMode.newWriter,
    CompressMode.stored, CompressMode.headers]

lemma put_encrypted {m : EncryptMode} (hm : m ≠ .unknown)
    (hkey : m ≠ .identity → aesKeyLength key) :
    (encryptedContainer cipher m key c).put n ⟨data, none⟩ size md st =
      c.put n ⟨m.stored cipher key (cipher.initVect st) data, none⟩
        (if m = .identity then size else sizeUnknown)
          (m.headers (cipher.initVect st) size md) st := by
  by_cases hid : m = .identity
  · simp [hid, encryptedContainer, EncryptMode.stored, EncryptMode.headers]
  · have hk := hkey hid
    cases m <;> first | exact absurd rfl hm | exact absurd rfl hid |
      simp [encryptedContainer, EncryptMode.newWriter, EncryptMode.stored, EncryptMode.headers, hk]

lemma compressedItem_openItem {m : CompressMode} (hm : m ≠ .unknown)
    (hfree : m = .identity → md .compressAlgo = none) {item : Item σ} {md' : Metadata}
    (hmd : item.metadata st = .ok md') (halgo : md' .compressAlgo = m.headers size md .compressAlgo)
    {rdr : Reader} (hopen : item.openItem st = .ok rdr) :
    (compressedItem codecs item).openItem st = m.newReader codecs rdr := by
  by_cases hid : m = .identity
  · simp only [CompressMode.headers, hid, if_true, hfree hid] at halgo
    simp [compressedItem, hmd, halgo, hopen, hid]
  · simp only [CompressMode.headers, hid, if_false] at halgo
    rw [Function.update_of_ne (by decide), Function.update_self] at halgo
    simp [compressedItem, hmd, halgo, CompressMode.fromName_algoName hm, hm, hopen]

lemma compressedItem_size {m : CompressMode} (hfree : m = .identity → md .compressAlgo = none)
    {item : Item σ} {md' : Metadata} (hmd : item.metadata st = .ok md')
    (halgo : md' .compressAlgo = m.headers size md .compressAlgo)
    (hhdr : md' .compressSize = m.headers size md .compressSize)
    (hsize : m = .identity → item.size st = .ok size) (hint : IsInt64 size) :
    (compressedItem codecs item).size st = .ok size := by
  by_cases hid : m = .identity
  · simp only [CompressMode.headers, hid, if_true, hfree hid] at halgo
    simp [compressedItem, wrappedSize, hmd, halgo, hsize hid]
  · have hparse : parseInt (formatInt size 36) 36 = some size :=
      parseInt_formatInt (by decide) (by decide) hint
    simp only [CompressMode.headers, hid, if_false] at halgo hhdr
    rw [Function.update_of_ne (by decide), Function.update_self] at halgo
    rw [Function.update_self] at hhdr
    simp [compressedItem, wrappedSize, hmd, halgo, hhdr, hparse]

lemma CompressMode.newReader_stored (hinv : Inverts codecs cipher) {m : CompressMode}
    (hm : m ≠ .unknown) (data : Bytes) :
    m.newReader codecs ⟨m.stored codecs data, none⟩ = .ok ⟨data, none⟩ := by
  cases m with
  | identity => rfl
  | unknown => exact absurd rfl hm
  | s2 => exact hinv.decode_encode _ _
  | gzip => exact hinv.decode_encode _ _

lemma encryptedItem_size {m : EncryptMode} (hfree : md .encryptAlgo = none) (iv : Bytes)
    {item : Item σ} (hmd : item.metadata st = .ok (m.headers iv size md))
    (hsize : m = .identity → item.size st = .ok size) (hint : IsInt64 size) :
    (encryptedItem cipher key item).size st = .ok size := by
  by_cases hid : m = .identity
  · simp only [EncryptMode.headers, hid, if_true] at hmd
    simp [encryptedItem, wrappedSize, hmd, hfree, hsize hid]
  · have hparse : parseInt (formatInt size 36) 36 = some size :=
      parseInt_formatInt (by decide) (by decide) hint
    simp [encryptedItem, wrappedSize, hmd, EncryptMode.headers, hid, hparse]

/-- An encrypting layer undoes what any mode stored with its key. -/
lemma encryptedItem_open (hinv : Inverts codecs cipher) {m : EncryptMode} (hm : m ≠ .unknown)
    (hkey : m ≠ .identity → aesKeyLength key) (hfree : md .encryptAlgo = none) {st₀ : σ}
    {item : Item σ} (hmd : item.metadata st = .ok (m.headers (cipher.initVect st₀) size md))
    (hopen : item.openItem st = .ok ⟨m.stored cipher key (cipher.initVect st₀) data, none⟩) :
    (encryptedItem cipher key item).openItem st = .ok ⟨data, none⟩ := by
  by_cases hid : m = .identity
  · simp only [EncryptMode.headers, EncryptMode.stored, hid, if_true] at hmd hopen
    simp [encryptedItem, hmd, hfree, hopen, EncryptMode.newReader]
  · have hk := hkey hid
    have hread : m.newReader cipher key (cipher.initVect st₀)
        ⟨cipher.encrypt m key (cipher.initVect st₀) data, none⟩ = .ok ⟨data, none⟩ := by
      cases m <;> first | exact absurd rfl hm | exact absurd rfl hid |
        simp [EncryptMode.newReader, hk, hinv.length_initVect, hinv.decrypt_encrypt]
    simp [encryptedItem, hmd, EncryptMode.headers, hid, EncryptMode.fromName_algoName hm, hm,
      hexDecode_hexEncode, hopen, EncryptMode.stored, hread]

end Layers

/-! ## The stack of the options -/

namespace ObjOptions

variable (codecs : Codecs) (cipher : Cipher σ) (opts : ObjOptions)

/-- What the stack stores for contents put in state `st`. -/
def stored (st : σ) (content : Bytes) : Bytes :=
  opts.encryptMode.stored cipher opts.encryptKey (cipher.initVect st)
    (opts.compressMode.stored codecs content)

/-- The size the compressing layer passes on. -/
def innerSize (size : ℤ) : ℤ := if opts.compressMode = .identity then size else sizeUnknown

/-- The metadata the stack stores for an object put in state `st`. -/
def headers (st : σ) (size : ℤ) (md : Metadata) : Metadata :=
  opts.encryptMode.headers (cipher.initVect st) (opts.innerSize size)
    (opts.compressMode.headers size md)

/-- What the stack's listing wraps an item in. -/
def layers (item : Item σ) : Item σ :=
  if opts.noMetadata then item
  else if opts.encryptMode ≠ .identity then
    compressedItem codecs (encryptedItem cipher opts.encryptKey item)
  else compressedItem codecs item

/-- The stack leaves these bytes as they are. -/
def Transparent (content : Bytes) : Prop :=
  opts.encryptMode = .identity ∧
    (opts.compressMode = .identity ∨ (codecs opts.compressMode).encode content = content)

variable {codecs cipher opts}

lemma stored_eq_iff {st : σ} {content : Bytes}
    (haes : opts.encryptMode ≠ .identity → opts.stored codecs cipher st content ≠ content) :
    opts.stored codecs cipher st content = content ↔ opts.Transparent codecs content := by
  by_cases hid : opts.encryptMode = .identity
  · by_cases hc : opts.compressMode = .identity
    · simp [stored, Transparent, EncryptMode.stored, CompressMode.stored, hid, hc]
    · simp [stored, Transparent, EncryptMode.stored, CompressMode.stored, hid, hc]
  · refine iff_of_false (haes hid) ?_
    intro h
    exact hid h.1

/-- The stacks there are: none, compression alone, and compression over encryption. -/
lemma containerStack_cases {c c' : Container σ} (h : containerStack codecs cipher opts c = .ok c') :
    (opts.noMetadata = true ∧ opts.compressMode = .identity ∧ opts.encryptMode = .identity ∧
        c' = c) ∨
      (opts.noMetadata = false ∧ opts.encryptMode = .identity ∧
        c' = compressedContainer codecs opts.compressMode c) ∨
      (opts.noMetadata = false ∧ opts.encryptMode ≠ .identity ∧ aesKeyLength opts.encryptKey ∧
        c' = compressedContainer codecs opts.compressMode
          (encryptedContainer cipher opts.encryptMode opts.encryptKey c)) := by
  rw [containerStack] at h
  by_cases hno : opts.noMetadata = true
  · rw [if_pos hno] at h
    split_ifs at h with hc he
    refine Or.inl ⟨hno, by simpa using hc, by simpa using he, ?_⟩
    exact (Except.ok.inj h).symm
  rw [if_neg hno] at h
  have hno : opts.noMetadata = false := by simpa using hno
  by_cases he : opts.encryptMode ≠ .identity
  · rw [if_pos he] at h
    split_ifs at h with hk
    cases hv : validAESKey opts.encryptKey with
    | some e => simp [hv] at h
    | none =>
      simp only [hv, Except.ok.injEq] at h
      refine Or.inr (Or.inr ⟨hno, he, ?_, h.symm⟩)
      rw [validAESKey] at hv
      split_ifs at hv with h0 hlen
      exact hlen
  · rw [if_neg he] at h
    exact Or.inr (Or.inl ⟨hno, by simpa using he, (Except.ok.inj h).symm⟩)

lemma items_stack {c c' : Container σ} (h : containerStack codecs cipher opts c = .ok c') (st : σ)
    (pre cursor : GoString) (count : ℕ) :
    c'.items st pre cursor count = (c.items st pre cursor count).map fun r =>
      (r.1.map (opts.layers codecs cipher), r.2) := by
  rcases containerStack_cases h with ⟨hno, -, -, rfl⟩ | ⟨hno, he, rfl⟩ | ⟨hno, he, -, rfl⟩
  · have hl : opts.layers codecs cipher = id := by
      funext item
      simp [layers, hno]
    cases c'.items st pre cursor count <;> simp [Except.map, hl]
  · have hl : opts.layers codecs cipher = compressedItem codecs := by
      funext item
      simp [layers, hno, he]
    rw [hl]
    rfl
  · have hl : opts.layers codecs cipher =
        compressedItem codecs ∘ encryptedItem cipher opts.encryptKey := by
      funext item
      simp [layers, hno, he]
    cases hi : c.items st pre cursor count <;>
      simp [compressedContainer, encryptedContainer, hi, Except.map, hl]

lemma name_layers (opts : ObjOptions) (item : Item σ) :
    (opts.layers codecs cipher item).name = item.name := by
  unfold layers
  split_ifs <;> rfl

/-- A put through the stack is a put of the encoded bytes, with the headers that say so. -/
lemma put_stack_eq {c c' : Container σ} (h : containerStack codecs cipher opts c = .ok c')
    (hcomp : opts.compressMode ≠ .unknown) (henc : opts.encryptMode ≠ .unknown) (n : GoString)
    (content : Bytes) (size : ℤ) (md : Metadata) (st : σ) :
    c'.put n ⟨content, none⟩ size md st =
      c.put n ⟨opts.stored codecs cipher st content, none⟩
        (if opts.encryptMode = .identity then opts.innerSize size else sizeUnknown)
        (opts.headers cipher st size md) st := by
  rcases containerStack_cases h with ⟨-, hc, he, rfl⟩ | ⟨-, he, rfl⟩ | ⟨-, he, hkey, rfl⟩
  · simp [stored, headers, innerSize, CompressMode.stored, EncryptMode.stored, CompressMode.headers,
      EncryptMode.headers, hc, he]
  · rw [put_compressed hcomp]
    simp [stored, headers, innerSize, EncryptMode.stored, EncryptMode.headers, he]
  · rw [put_compressed hcomp, put_encrypted henc (fun _ => hkey)]
    rfl

/-- The size it is put with is the length of these bytes, or unknown. -/
lemma announced {content : Bytes} {size : ℤ} (st : σ) (hsize : opts.compressMode = .identity →
      opts.encryptMode = .identity → size = content.length) :
    (if opts.encryptMode = .identity then opts.innerSize size else sizeUnknown) = sizeUnknown ∨
      (if opts.encryptMode = .identity then opts.innerSize size else sizeUnknown) =
        (opts.stored codecs cipher st content).length := by
  by_cases he : opts.encryptMode = .identity
  · by_cases hc : opts.compressMode = .identity
    · right
      simp [he, hc, innerSize, stored, CompressMode.stored, EncryptMode.stored, hsize]
    · exact .inl (by simp [he, hc, innerSize])
  · exact .inl (if_neg he)

/-- Encryption leaves the headers of compression alone. -/
lemma headers_compress (cipher : Cipher σ) (st : σ) (size : ℤ) (md : Metadata) {k : MetaKey}
    (ha : k ≠ .encryptAlgo) (hi : k ≠ .encryptIV) (hs : k ≠ .encryptSize) :
    opts.headers cipher st size md k = opts.compressMode.headers size md k := by
  unfold headers EncryptMode.headers
  split_ifs
  · rfl
  · rw [Function.update_of_ne hs, Function.update_of_ne hi, Function.update_of_ne ha]

/-- The layers of a device undo what a device with other options has stored, if there is a layer
for each that was used and the keys agree. -/
lemma layers_undo (hinv : Inverts codecs cipher) (opts' : ObjOptions)
    (hmeta : opts'.noMetadata = false) (hcomp : opts.compressMode ≠ .unknown)
    (henc : opts.encryptMode ≠ .unknown)
    (hlayer : opts.encryptMode = .identity ∨ opts'.encryptMode ≠ .identity)
    (hkey : opts.encryptMode ≠ .identity →
      opts'.encryptKey = opts.encryptKey ∧ aesKeyLength opts.encryptKey)
    {md : Metadata} (hfreeC : md .compressAlgo = none) (hfreeE : md .encryptAlgo = none)
    {size : ℤ} (hint : IsInt64 size) {item : Item σ} {st st₀ : σ} {content : Bytes}
    (hmd : item.metadata st = .ok (opts.headers cipher st₀ size md))
    (hopen : item.openItem st = .ok ⟨opts.stored codecs cipher st₀ content, none⟩)
    (hsize : opts.compressMode = .identity → opts.encryptMode = .identity →
      item.size st = .ok size) :
    (opts'.layers codecs cipher item).size st = .ok size ∧
      (opts'.layers codecs cipher item).openItem st = .ok ⟨content, none⟩ := by
  have halgo := opts.headers_compress cipher st₀ size md (k := .compressAlgo)
    (by decide) (by decide) (by decide)
  have hhdr := opts.headers_compress cipher st₀ size md (k := .compressSize)
    (by decide) (by decide) (by decide)
  by_cases he' : opts'.encryptMode = .identity
  · have he : opts.encryptMode = .identity := hlayer.resolve_right (not_not.mpr he')
    simp only [layers, hmeta, he', Bool.false_eq_true, if_false, ne_eq, not_true_eq_false]
    refine ⟨compressedItem_size (fun _ => hfreeC) hmd halgo hhdr (fun hc => hsize hc he) hint, ?_⟩
    rw [compressedItem_openItem hcomp (fun _ => hfreeC) hmd halgo hopen, stored, EncryptMode.stored,
      if_pos he, CompressMode.newReader_stored hinv hcomp]
  · simp only [layers, hmeta, he', Bool.false_eq_true, if_false, ne_eq, not_false_eq_true, if_true]
    have hfree : opts.compressMode.headers size md .encryptAlgo = none := by
      unfold CompressMode.headers
      split_ifs
      · exact hfreeE
      · rw [Function.update_of_ne (by decide), Function.update_of_ne (by decide), hfreeE]
    -- the encrypting layer shows what compression made of the contents
    have hinner : (encryptedItem cipher opts'.encryptKey item).openItem st =
        .ok ⟨opts.compressMode.stored codecs content, none⟩ := by
      by_cases he : opts.encryptMode = .identity
      · refine encryptedItem_open hinv henc (fun h => absurd he h) hfree hmd ?_
        rw [hopen, stored, EncryptMode.stored, EncryptMode.stored, if_pos he, if_pos he]
      · obtain ⟨hk, haes⟩ := hkey he
        rw [hk]
        exact encryptedItem_open hinv henc (fun _ => haes) hfree hmd hopen
    have hmd' : (encryptedItem cipher opts'.encryptKey item).metadata st =
        .ok (opts.headers cipher st₀ size md) := hmd
    refine ⟨compressedItem_size (fun _ => hfreeC) hmd' halgo hhdr (fun hc => ?_) hint,
      (compressedItem_openItem hcomp (fun _ => hfreeC) hmd' halgo hinner).trans
        (CompressMode.newReader_stored hinv hcomp content)⟩
    have hsame : opts.innerSize size = size := by rw [innerSize, if_pos hc]
    refine encryptedItem_size hfree (m := opts.encryptMode) (cipher.initVect st₀) ?_ (hsize hc) hint
    rw [hmd, headers, hsame]

/-- A put through the stack stores the bytes `stored` and returns the base container's item of
them; in its layers the item shows the contents. -/
lemma put_stack (hinv : Inverts codecs cipher) {c c' : Container σ} (law : Plain c)
    (h : containerStack codecs cipher opts c = .ok c') (hcomp : opts.compressMode ≠ .unknown)
    (henc : opts.encryptMode ≠ .unknown) {content : Bytes} (hmax : content.length ≤ maxOffset)
    (n : GoString) (st : σ) :
    ∃ it st' md, c'.put n ⟨content, none⟩ content.length .nil st = (.ok it, st') ∧
      law.Current st' it n ⟨opts.stored codecs cipher st content, md⟩ ∧
      (opts.layers codecs cipher it).Shows st' n content := by
  rw [opts.put_stack_eq h hcomp henc]
  obtain ⟨it, st', hput⟩ := law.put_total n (opts.stored codecs cipher st content) _
    (opts.headers cipher st content.length .nil) st (opts.announced st fun _ _ => rfl)
  have hcur := law.put_stores hput
  refine ⟨it, st', _, hput, hcur, ?_⟩
  rcases containerStack_cases h with ⟨hno, hc, he, -⟩ | hmeta
  · have hplain : opts.stored codecs cipher st content = content := by
      simp [stored, CompressMode.stored, EncryptMode.stored, hc, he]
    rw [hplain] at hcur
    simpa [layers, hno] using law.shows hcur
  · have hmeta' : opts.noMetadata = false := by rcases hmeta with h | h <;> exact h.1
    have hsize : opts.compressMode = .identity → opts.encryptMode = .identity →
        it.size st' = .ok content.length := by
      intro hc he
      rw [law.current_size hcur]
      simp [stored, CompressMode.stored, EncryptMode.stored, hc, he]
    obtain ⟨hsz, hopen⟩ := opts.layers_undo hinv opts hmeta' hcomp henc (by tauto)
      (fun he => ⟨rfl, by tauto⟩) rfl rfl (isInt64_natCast hmax) (law.current_metadata hcur)
      (law.current_open hcur) hsize
    exact ⟨(name_layers ..).trans (law.current_name hcur), hsz, hopen⟩

end ObjOptions

/-! ## A segment's way there and back -/

namespace Segment

/-- Write a whole new segment, flush it, evict it and read it: the errors of the first three calls,
and what the read returns. -/
def roundTrip (sp : StoreParams σ) (ID : ℕ) (buffered : Bool) (content : Bytes) :
    Go σ (List (Option GoError) × Bytes × ℕ × Option GoError) := do
  let (seg, _, err₁) ← (Segment.new ID).writeAt sp content 0
  let (seg, err₂) ← seg.Flush sp buffered
  let (seg, err₃) ← seg.deleteFile sp
  let (_, r) ← seg.readAt sp (zeros sp.segmentBytes) 0
  pure ([err₁, err₂, err₃], r)

variable {sp : StoreParams σ} {w : World σ} {ID : ℕ} {content : Bytes}

/-- Of an item of another size there is no local file, and an error unless it is empty. -/
lemma downloadFile_of_size_ne (hroom : sp.Room w) {item : Item σ} {name : GoString} {data : Bytes}
    (hshow : item.Shows w.store name data) (hlen : data.length ≠ sp.segmentBytes) :
    Returns (sp.downloadFile item) w fun r _ => r = .ok none ∨ ∃ e, r = .error e := by
  rw [StoreParams.downloadFile, returns_bind]
  refine (StoreParams.claimCapacity_of_room hroom).mono fun r w₁ h₁ => ?_
  obtain ⟨rfl, -, hstore, hheld⟩ := h₁
  have hsize := hshow.size_eq
  rw [← hstore] at hsize
  simp only [StoreParams.download, returns_bind, returns_get, hsize]
  by_cases h0 : (data.length : ℤ) = 0
  · simp [h0]
  · rw [if_neg h0, if_pos (by exact_mod_cast hlen)]
    simp only [returns_pure, returns_bind]
    refine (StoreParams.releaseCapacity_spec (by omega)).mono fun _ w₂ _ => ?_
    exact Or.inr ⟨_, rfl⟩

/-- A read that finds no data to read is a read of zeros. -/
lemma readAt_nothing {seg : Segment σ}
    (hload : Returns ({ seg with lastRead := sp.env.now w.tick }.loadFile sp false)
      { w with tick := w.tick + 1 } fun r _ => r.2 = .ok none) :
    Returns (seg.readAt sp (zeros sp.segmentBytes) 0) w fun r _ =>
      r.2 = (zeros sp.segmentBytes, sp.segmentBytes, none) := by
  simp only [readAt, readLoaded, returns_bind, returns_timeNow]
  refine hload.mono fun r w₁ h₁ => ?_
  have hshort : ¬ ((0 : ℤ) + sp.segmentBytes > sp.segmentBytes) := by omega
  have hneg : ¬ ((sp.segmentBytes : ℤ) < 0) := by omega
  simp only [h₁, length_zeros, hshort, if_false, hneg, returns_pure, Int.toNat_natCast]
  simp [zeroFill_eq, zeros]

/-- A read of a segment without a local file returns the contents if they are what the remote item
shows, and only then. -/
lemma readAt_evicted (hr : Reliable sp.env) (hs : sp.Sized) (hroom : sp.Room w) {seg : Segment σ}
    (hlocal : seg.localFile = none) {item : Item σ} (hitem : seg.remoteItem = some item)
    {name : GoString} {data : Bytes} (hshow : item.Shows w.store name data)
    (htag : ∃ tag, item.etag w.store = .ok tag) (hnone : w.files name = none)
    (hetag : w.files (eTagFileName name) = none) (hlen : content.length = sp.segmentBytes)
    (hne : content ≠ zeros sp.segmentBytes) :
    Returns (seg.readAt sp (zeros sp.segmentBytes) 0) w fun r _ =>
      r.2 = (content, sp.segmentBytes, none) ↔ data = content := by
  have hroom₁ : sp.Room { w with tick := w.tick + 1 } := hroom
  by_cases hfull : data.length = sp.segmentBytes
  · simp only [readAt, readLoaded, loadFile, hlocal, hitem, returns_bind, returns_timeNow]
    refine (StoreParams.downloadFile_of_room hr hs hroom₁ hshow hfull htag
      ⟨Or.inl hnone, fun _ => hetag⟩).mono fun r w₁ h₁ => ?_
    obtain ⟨rfl, ⟨extra, -, hfile⟩, -⟩ := h₁
    have hle : 0 + (zeros sp.segmentBytes).length ≤ (data ++ extra).length := by
      simp [hfull]
    simp only [returns_pure, returns_bind]
    refine (readAt_spec hr rfl hfile hle).mono fun r w₂ h₂ => ?_
    obtain ⟨rfl, -⟩ := h₂
    have hread : slice (data ++ extra) 0 (zeros sp.segmentBytes).length = data := by
      simp [slice, hfull]
    rw [hread, goCopy_of_length_eq (by simp [hfull]), hfull]
    simp
  · have hdata : data ≠ content := by
      rintro rfl
      exact hfull hlen
    obtain ⟨r, w₁, hdown, hr₁⟩ := downloadFile_of_size_ne hroom₁ hshow hfull
    rcases hr₁ with rfl | ⟨e, rfl⟩
    · -- an empty object has no file, and reads as zeros
      refine (readAt_nothing ?_).mono fun r _ h => ?_
      · simp only [loadFile, hlocal, hitem, returns_bind]
        exact ⟨_, _, hdown, by simp⟩
      · simp [h, hdata, hne.symm]
    · simp only [readAt, readLoaded, loadFile, hlocal, hitem, returns_bind, returns_timeNow]
      exact ⟨_, _, hdown, by simp [hdata]⟩

/-- What the calls of a session leave of a new segment: its local file and its remote item, and the
world around them. -/
structure InSession (sp : StoreParams σ) (w₀ w : World σ) (ID : ℕ) (seg : Segment σ)
    (content : Bytes) : Prop where
  id_eq : seg.ID = ID
  local_eq : seg.localFile = some ⟨sp.itemName (itoa ID), false⟩
  backed_eq : seg.backed = true
  file : w.files (sp.itemName (itoa ID)) = some content
  etag : sp.persistCache = false → w.files (eTagFileName (sp.itemName (itoa ID))) = none
  held : w.held = w₀.held + sp.permit

/-- The write of a whole new segment that is not all zeros. -/
lemma writeAt_new (hr : Reliable sp.env) (hs : sp.Sized) (hroom : sp.Room w)
    (hetag : sp.persistCache = false → w.files (eTagFileName (sp.itemName (itoa ID))) = none)
    (hlen : content.length = sp.segmentBytes) (hne : isZeros content = false) :
    Returns ((Segment.new ID).writeAt sp content 0) w fun r w' =>
      r.2.2 = none ∧ InSession sp w w' ID r.1 content ∧ r.1.dirty = true ∧ w'.store = w.store := by
  have hroom₁ : sp.Room { w with tick := w.tick + 1 } := hroom
  have hpos := hs.pos
  simp only [writeAt, writeLoaded, Segment.new, loadFile, hne, returns_bind, returns_timeNow,
    Bool.false_eq_true, false_and, if_false, if_true]
  refine (StoreParams.createFile_of_room hr hs hroom₁ _).mono fun r w₁ h₁ => ?_
  obtain ⟨rfl, hfiles, hstore, hheld⟩ := h₁
  simp only [returns_pure, returns_bind]
  have hfile : w₁.files (sp.itemName (itoa ID)) = some (zeros sp.segmentBytes) := by
    rw [hfiles, Function.update_self]
  refine (writeAt_spec hr (show OsCall.writeAt.ofUpload = false by decide) rfl hfile
    (show 0 + content.length ≤ maxOffset by have := hs.le_max; omega)).mono fun r w₂ h₂ => ?_
  obtain ⟨rfl, h₂⟩ := h₂
  have hover : overwrite 0 (zeros sp.segmentBytes) 0 content = content := by
    have hnil : content ≠ [] := by
      rw [← List.length_pos_iff_ne_nil]
      omega
    rw [overwrite_of_ne_nil _ _ _ hnil]
    simp [hlen]
  refine ⟨rfl, ⟨rfl, rfl, rfl, ?_, fun hp => ?_, ?_⟩, ?_, by rw [h₂.store, hstore]⟩
  · simp [h₂.files, hover]
  · have hne := StoreParams.ne_eTagFileName (sp.itemName (itoa ID))
    simp only [h₂.files, hfiles, Function.update_of_ne hne.symm, hetag hp]
  · rw [h₂.held, hheld]
  · simp [hlen, hpos]

lemma Flush_session {codecs : Codecs} {cipher : Cipher σ} {opts : ObjOptions} {c : Container σ}
    (hinv : Inverts codecs cipher) (law : Plain c)
    (hstack : containerStack codecs cipher opts c = .ok sp.container)
    (hcomp : opts.compressMode ≠ .unknown) (henc : opts.encryptMode ≠ .unknown)
    (hf : Faultless sp.env) (hs : sp.Sized) {w₀ : World σ} {seg : Segment σ}
    (h : InSession sp w₀ w ID seg content) (hdirty : seg.dirty = true)
    (hlen : content.length = sp.segmentBytes) (buffered : Bool) :
    Returns (seg.Flush sp buffered) w fun r w' =>
      r.2 = none ∧ InSession sp w₀ w' ID r.1 content ∧ r.1.dirty = false ∧
        ∃ it md, r.1.remoteItem = some it ∧ law.Current w'.store it (sp.itemName (itoa ID))
          ⟨opts.stored codecs cipher w.store content, md⟩ := by
  have hmax := hs.le_max
  simp only [Flush, hdirty, if_true, flush, h.local_eq, StoreParams.syncFile, returns_bind]
  refine (StoreParams.prepare_spec rfl h.file hlen buffered).mono fun r w₁ h₁ => ?_
  obtain ⟨-, hok, h₁⟩ := h₁
  rw [hok hf]
  obtain ⟨it, st', md, hput, hcur, -⟩ := opts.put_stack hinv law hstack hcomp henc
    (hlen.le.trans hmax) (sp.itemName (itoa ID)) w₁.store
  rw [hlen] at hput
  simp only [StoreParams.upload, returns_bind, returns_syscall, returns_get, hf .put, h.id_eq, hput,
    returns_modify, returns_pure]
  refine (StoreParams.finishSync_spec (law.etag_total hcur)).mono fun r w₃ h₃ => ?_
  obtain ⟨hnone, hstore, hheld, hsame, hfile, hkept⟩ := h₃
  rw [h₁.store] at hcur
  simp only [h₁.files] at hfile hkept
  refine ⟨hnone (hf .writeFile), ⟨rfl, rfl, h.backed_eq, hfile.trans h.file, ?_, ?_⟩, trivial,
    it, md, rfl, ?_⟩
  · intro hp
    rw [hkept hp]
    exact h.etag hp
  · rw [hheld, h₁.held, h.held]
  · rw [hstore]
    exact hcur

lemma deleteFile_session (hr : Reliable sp.env) {w₀ : World σ} {seg : Segment σ}
    (h : InSession sp w₀ w ID seg content) (hclean : seg.dirty = false) :
    Returns (seg.deleteFile sp) w fun r w' =>
      r.2 = none ∧ r.1.localFile = none ∧ r.1.remoteItem = seg.remoteItem ∧
        w'.files (sp.itemName (itoa ID)) = none ∧
        w'.files (eTagFileName (sp.itemName (itoa ID))) = none ∧ w'.store = w.store ∧
        w'.held = w₀.held := by
  simp only [deleteFile, h.backed_eq, if_true, hclean, Bool.false_eq_true, if_false, dropFile,
    h.local_eq, returns_bind]
  have hopen : File.closed ⟨sp.itemName (itoa ID), false⟩ = false := rfl
  refine (StoreParams.removeFile_spec hr hopen h.file h.etag).mono fun r w₁ h₁ => ?_
  obtain ⟨rfl, hfile, -, hetag, hstore, hheld⟩ := h₁
  simp only [returns_bind]
  refine (StoreParams.releaseCapacity_spec (by rw [hheld, h.held]; omega)).mono fun _ w₂ h₂ => ?_
  obtain ⟨hfiles₂, hstore₂, hheld₂⟩ := h₂
  rw [hheld, h.held] at hheld₂
  simp only [returns_pure, hfiles₂, hstore₂]
  exact ⟨trivial, trivial, trivial, hfile, hetag, hstore, by omega⟩

/-- A segment written with zeros has nothing to flush, to evict or to load. -/
lemma roundTrip_zeros (ID : ℕ) (buffered : Bool) :
    Returns (roundTrip sp ID buffered (zeros sp.segmentBytes)) w fun r _ =>
      r = ([none, none, none], zeros sp.segmentBytes, sp.segmentBytes, none) := by
  simp only [roundTrip, writeAt, Segment.new, isZeros_zeros, and_self, if_true, returns_bind,
    returns_timeNow, returns_pure, Flush, deleteFile, Bool.false_eq_true, if_false]
  refine (readAt_nothing ?_).mono fun r _ h => ?_
  · simp [loadFile]
  · rw [h]

/-- The way there and back of other contents ends with what the item of the upload shows. -/
lemma roundTrip_stored {codecs : Codecs} {cipher : Cipher σ} {opts : ObjOptions} {c : Container σ}
    (hinv : Inverts codecs cipher) (law : Plain c)
    (hstack : containerStack codecs cipher opts c = .ok sp.container)
    (hcomp : opts.compressMode ≠ .unknown) (henc : opts.encryptMode ≠ .unknown)
    (hf : Faultless sp.env) (hs : sp.Sized) (hroom : sp.Room w)
    (hetag : sp.persistCache = false → w.files (eTagFileName (sp.itemName (itoa ID))) = none)
    (hlen : content.length = sp.segmentBytes) (hne : isZeros content = false) (buffered : Bool) :
    Returns (roundTrip sp ID buffered content) w fun r _ =>
      r = ([none, none, none], content, sp.segmentBytes, none) ↔
        opts.stored codecs cipher w.store content = content := by
  simp only [roundTrip, returns_bind]
  refine (writeAt_new hf.reliable hs hroom hetag hlen hne).mono fun r w₁ h₁ => ?_
  obtain ⟨seg₁, n, err₁⟩ := r
  obtain ⟨rfl, hsess₁, hdirty, hstore₁⟩ := h₁
  refine (Flush_session hinv law hstack hcomp henc hf hs hsess₁ hdirty hlen buffered).mono
    fun r w₂ h₂ => ?_
  obtain ⟨seg₂, err₂⟩ := r
  obtain ⟨rfl, hsess₂, hclean, it, md, hitem, hcur⟩ := h₂
  refine (deleteFile_session hf.reliable hsess₂ hclean).mono fun r w₃ h₃ => ?_
  obtain ⟨seg₃, err₃⟩ := r
  obtain ⟨rfl, hlocal, hkept, hfile, hetag₃, hstore₃, hheld₃⟩ := h₃
  rw [← hstore₃, hstore₁] at hcur
  have hroom₃ : sp.Room w₃ := by
    intro permits hq
    rw [hheld₃]
    exact hroom permits hq
  have hzeros : content ≠ zeros sp.segmentBytes := by
    rintro rfl
    simp at hne
  refine (readAt_evicted hf.reliable hs hroom₃ hlocal (hkept.trans hitem) (law.shows hcur)
    (law.etag_total hcur) hfile hetag₃ hlen hzeros).mono fun r w₄ h₄ => ?_
  rw [returns_pure, ← h₄]
  simp

end Segment

/-! ## A toy stack -/

/-- A compressor that puts a byte in front, for every mode. -/
def toyCodecs : Codecs := fun _ =>
  ⟨fun bs => 7 :: bs, fun bs => bs, fun rdr => .ok ⟨rdr.data.tail, rdr.err⟩⟩

/-- A cipher that counts every byte up. -/
def toyCipher : Cipher MemStore :=
  ⟨fun _ _ _ bs => bs.map (· + 1), fun _ _ _ bs => bs.map (· - 1), fun _ => zeros aesBlockSize⟩

lemma inverts_toy : Inverts toyCodecs toyCipher where
  decode_encode _ _ := rfl
  decrypt_encrypt _ _ _ x := by simp [toyCipher, Function.comp_def]
  length_initVect _ := by simp [toyCipher]

/-- Options with these modes and a key of ones. -/
def toyOptions (compress : CompressMode) (encrypt : EncryptMode) : ObjOptions :=
  ⟨1, compress, 0, false, true, false, encrypt, List.replicate 16 1⟩

/-- Segments of one byte, over a stack on a container in memory. -/
def toyParams (container : Container MemStore) : StoreParams MemStore :=
  ⟨container, 1, true, false, none, quietEnv⟩

/-- What the way there and back of a segment returns through the stack of these modes. -/
def toyRoundTrip (compress : CompressMode) (encrypt : EncryptMode) (content : Bytes) :
    Option (List (Option GoError) × Bytes × ℕ × Option GoError) :=
  match containerStack toyCodecs toyCipher (toyOptions compress encrypt) (memContainer ['c']) with
  | .error _ => none
  | .ok container =>
    match Segment.roundTrip (toyParams container) 0 false content
      ⟨MemStore.empty, fun _ => none, 0, [], 0⟩ with
    | .error _ => none
    | .ok (r, _) => some r

/-- **Reloading what was uploaded.**  Through every supported stack of modes, what a listing makes
of the item a put returns shows the contents.  The item itself, which the segment keeps, shows them
exactly when the stack leaves the bytes as they are: no encryption, and no compression unless it
maps the contents to themselves.  The same holds of writing, flushing, evicting and reading a
segment, zeros apart, which are never uploaded. -/
theorem put_item_reloads_iff_transparent {codecs : Codecs} {cipher : Cipher σ} {opts : ObjOptions}
    {c : Container σ} {sp : StoreParams σ} (law : Plain c)
    (hstack : containerStack codecs cipher opts c = .ok sp.container)
    (hcomp : opts.compressMode ≠ .unknown) (henc : opts.encryptMode ≠ .unknown)
    (hinv : Inverts codecs cipher) (hf : Faultless sp.env) (hs : sp.Sized) (ID : ℕ)
    (buffered : Bool) {content : Bytes} (hlen : content.length = sp.segmentBytes) {w : World σ}
    (hroom : sp.Room w)
    (hetag : sp.persistCache = false → w.files (eTagFileName (sp.itemName (itoa ID))) = none)
    (haes : opts.encryptMode ≠ .identity → opts.stored codecs cipher w.store content ≠ content) :
    (∀ st pre cursor count, sp.container.items st pre cursor count =
      (c.items st pre cursor count).map fun r => (r.1.map (opts.layers codecs cipher), r.2)) ∧
    (∃ it st', sp.container.put (sp.itemName (itoa ID)) ⟨content, none⟩ sp.segmentBytes .nil
        w.store = (.ok it, st') ∧
      (opts.layers codecs cipher it).Shows st' (sp.itemName (itoa ID)) content ∧
      (it.Shows st' (sp.itemName (itoa ID)) content ↔ opts.Transparent codecs content)) ∧
    Returns (Segment.roundTrip sp ID buffered content) w fun r _ =>
      r = ([none, none, none], content, sp.segmentBytes, none) ↔
        isZeros content = true ∨ opts.Transparent codecs content := by
  refine ⟨opts.items_stack hstack, ?_, ?_⟩
  · obtain ⟨it, st', md, hput, hcur, hlayers⟩ := opts.put_stack hinv law hstack hcomp henc
      (hlen.le.trans hs.le_max) (sp.itemName (itoa ID)) w.store
    rw [hlen] at hput
    refine ⟨it, st', hput, hlayers, ?_⟩
    rw [← opts.stored_eq_iff haes]
    constructor
    · intro hshow
      have hopen := hshow.open_eq
      rw [law.current_open hcur] at hopen
      simpa using hopen
    · intro heq
      have hshow := law.shows hcur
      simp only at hshow
      rwa [heq] at hshow
  · cases hz : isZeros content with
    | true =>
      have hzeros : content = zeros sp.segmentBytes := by
        rw [← hlen]
        exact isZeros_iff_eq_zeros.mp hz
      rw [hzeros]
      refine (Segment.roundTrip_zeros ID buffered).mono fun r _ h => ?_
      simp [h]
    | false =>
      refine (Segment.roundTrip_stored hinv law hstack hcomp henc hf hs hroom hetag hlen hz
        buffered).mono fun r _ h => ?_
      rw [h, opts.stored_eq_iff haes]
      simp

theorem put_item_reloads_iff_transparent_toy :
    ∃ sp : StoreParams MemStore,
      containerStack toyCodecs toyCipher (toyOptions .gzip .aesCTR) (memContainer ['c']) =
        .ok sp.container ∧
      (∃ it st', sp.container.put (sp.itemName (itoa 0)) ⟨[1], none⟩ sp.segmentBytes .nil
          MemStore.empty = (.ok it, st') ∧
        ((toyOptions .gzip .aesCTR).layers toyCodecs toyCipher it).Shows st'
          (sp.itemName (itoa 0)) [1] ∧
        (it.Shows st' (sp.itemName (itoa 0)) [1] ↔
          (toyOptions .gzip .aesCTR).Transparent toyCodecs [1])) := by
  have hstack : containerStack toyCodecs toyCipher (toyOptions .gzip .aesCTR) (memContainer ['c']) =
      .ok (toyParams (compressedContainer toyCodecs .gzip (encryptedContainer toyCipher .aesCTR
        (List.replicate 16 1) (memContainer ['c'])))).container := rfl
  refine ⟨_, hstack, ?_⟩
  exact (put_item_reloads_iff_transparent (memPlain ['c']) hstack (by decide) (by decide)
    inverts_toy faultless_quietEnv ⟨by decide, by decide, by simp [toyParams]⟩ 0 false rfl
    (w := ⟨MemStore.empty, fun _ => none, 0, [], 0⟩)
    (by simp [StoreParams.Room, toyParams]) (fun _ => rfl) (fun _ => by decide)).2.1

/-- With encryption alone the sizes agree and the read returns the encrypted byte; with compression
it fails. -/
theorem reload_serves_stored_bytes :
    toyRoundTrip .identity .aesCTR [1] = some ([none, none, none], [2], 1, none) ∧
      toyRoundTrip .gzip .identity [1] = some ([none, none, none], [0], 0,
        some (.wrap "Could not load segment data for reading" (.new "Store reported wrong size"))) ∧
      toyRoundTrip .identity .identity [1] = some ([none, none, none], [1], 1, none) := by
  refine ⟨?_, ?_, ?_⟩ <;> decide +kernel

end Usbd
