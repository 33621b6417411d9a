import Usbd.Objstore.Stacks

/-!
# Encoded objects and the devices that read them

An object carries its encoding in its metadata, and the layers of whatever device lists it undo that
encoding, each by its own headers.  `stack_round_trip` follows one object through the stack that
wrote it.  `reads_across_configs_iff` takes two devices with different options: the reader's layers
undo the writer's encoding, with one exception.  A device without encryption has no layer that looks
at the encryption headers, and what it makes of an encrypted object is what its decompressor makes
of the ciphertext — the ciphertext itself if the object was not compressed.
-/

namespace Usbd

variable {σ : Type}

/-! ## One stack -/

/-- `Container.Item`: the item of a name. -/
abbrev ItemCall (σ : Type) := σ → GoString → Except GoError (Item σ)

/-- `Item` of the compressing container. -/
def compressedItemCall (codecs : Codecs) (item : ItemCall σ) : ItemCall σ := fun st id =>
  (item st id).map (compressedItem codecs)

/-- `Item` of the encrypting container. -/
def encryptedItemCall (cipher : Cipher σ) (key : Bytes) (item : ItemCall σ) : ItemCall σ :=
  fun st id => (item st id).map (encryptedItem cipher key)

/-- The handles a container gives out for a name, by `Item` or in a page of `Items`. -/
def HandsOut (c : Container σ) (item : ItemCall σ) (st : σ) (n : GoString) (h : Item σ) : Prop :=
  item st n = .ok h ∨ ∃ pre cursor count its next,
    c.items st pre cursor count = .ok (its, next) ∧ h ∈ its ∧ h.name = n

/-- What a container gives out shows what it has, and it gives out what it has. -/
structure HandsCurrent {c : Container σ} (law : Faithful c) (item : ItemCall σ) : Prop where
  current : ∀ {st n b}, HandsOut c item st n b → ∃ o, law.Current st b n o
  found : ∀ {st n o}, law.objects st n = some o → ∃ b, item st n = .ok b

/-- The caller's metadata leaves the wrappers' headers alone. -/
def Metadata.Free (md : Metadata) : Prop := ∀ k, md k ≠ none → ∃ name, k = .other name

lemma Metadata.Free.eq_none {md : Metadata} (h : md.Free) {k : MetaKey}
    (hk : ∀ name, k ≠ .other name) : md k = none := by
  by_contra hne
  obtain ⟨name, rfl⟩ := h k hne
  exact hk name rfl

/-- The handle gives back what was put: the contents, the size and the caller's metadata. -/
structure Item.GivesBack (h : Item σ) (st : σ) (content : Bytes) (size : ℤ) (md : Metadata) :
    Prop where
  open_eq : h.openItem st = .ok ⟨content, none⟩
  size_eq : h.size st = .ok size
  metadata : ∃ md', h.metadata st = .ok md' ∧ ∀ k v, md k = some v → md' k = some v

section Stack

variable {codecs : Codecs} {cipher : Cipher σ} {base : Container σ} {item : ItemCall σ}

/-- Headers are added to the caller's metadata, which stays. -/
lemma headers_of_free {opts : ObjOptions} {st : σ} {size : ℤ} {md : Metadata} (hfree : md.Free)
    {k : MetaKey} {v : MetaVal} (h : md k = some v) :
    opts.headers cipher st size md k = some v := by
  obtain ⟨name, rfl⟩ := hfree k (by simp [h])
  rw [opts.headers_compress cipher st size md (by simp) (by simp) (by simp)]
  unfold CompressMode.headers
  split_ifs
  · exact h
  · rw [Function.update_of_ne (by simp), Function.update_of_ne (by simp), h]

/-- A put through a stack with metadata, and what its layers make of any handle on the object. -/
lemma put_givesBack (law : Plain base) (hinv : Inverts codecs cipher) {opts : ObjOptions}
    {c : Container σ} (h : containerStack codecs cipher opts base = .ok c)
    (hmeta : opts.noMetadata = false) (hcomp : opts.compressMode ≠ .unknown)
    (henc : opts.encryptMode ≠ .unknown) (content : Bytes) {size : ℤ} (hint : IsInt64 size)
    (hsize : opts.compressMode = .identity → opts.encryptMode = .identity → size = content.length)
    {md : Metadata} (hfree : md.Free) (n : GoString) (st : σ) :
    ∃ it st' o, c.put n ⟨content, none⟩ size md st = (.ok it, st') ∧
      law.objects st' n = some o ∧ ∀ b o', law.Current st' b n o' →
        (opts.layers codecs cipher b).GivesBack st' content size md := by
  rw [opts.put_stack_eq h hcomp henc]
  obtain ⟨it, st', hput⟩ := law.put_total n (opts.stored codecs cipher st content) _
    (opts.headers cipher st size md) st (opts.announced st hsize)
  have hcur := law.put_stores hput
  refine ⟨it, st', _, hput, law.current_object hcur, fun b o' hb => ?_⟩
  obtain rfl := Option.some.inj ((law.current_object hb).symm.trans (law.current_object hcur))
  have hkey : opts.encryptMode ≠ .identity → aesKeyLength opts.encryptKey := by
    have := ObjOptions.containerStack_cases h
    tauto
  obtain ⟨hsz, hopen⟩ := opts.layers_undo hinv opts hmeta hcomp henc (by tauto)
    (fun he => ⟨rfl, hkey he⟩) (hfree.eq_none (by simp)) (hfree.eq_none (by simp)) hint
    (law.current_metadata hb) (law.current_open hb) (fun hc he => by
      rw [law.current_size hb, hsize hc he]
      simp [ObjOptions.stored, CompressMode.stored, EncryptMode.stored, hc, he])
  refine ⟨hopen, hsz, opts.headers cipher st size md, ?_, fun k v hk => headers_of_free hfree hk⟩
  rw [← law.current_metadata hb]
  unfold ObjOptions.layers
  split_ifs <;> rfl

/-- What a wrapping container gives out is what the wrapped one gives out, in the wrapper. -/
lemma handsOut_map (c : Container σ) (item : ItemCall σ) (wrap : Item σ → Item σ)
    {c' : Container σ} {item' : ItemCall σ} (hname : ∀ b, (wrap b).name = b.name)
    (hitems : ∀ st pre cursor count, c'.items st pre cursor count =
      (c.items st pre cursor count).map fun r => (r.1.map wrap, r.2))
    (hitem : ∀ st n, item' st n = (item st n).map wrap) {st : σ} {n : GoString} {h : Item σ}
    (hh : HandsOut c' item' st n h) : ∃ b, HandsOut c item st n b ∧ h = wrap b := by
  rcases hh with hh | ⟨pre, cursor, count, its, next, hits, hmem, hn⟩
  · rw [hitem] at hh
    cases hb : item st n with
    | error e => simp [hb, Except.map] at hh
    | ok b =>
      refine ⟨b, Or.inl hb, ?_⟩
      simpa [hb, Except.map, eq_comm] using hh
  · rw [hitems] at hits
    cases hpage : c.items st pre cursor count with
    | error e => simp [hpage, Except.map] at hits
    | ok r =>
      rw [hpage] at hits
      obtain ⟨rfl, -⟩ := Prod.mk.inj (Except.ok.inj hits)
      obtain ⟨b, hb, rfl⟩ := List.mem_map.mp hmem
      exact ⟨b, Or.inr ⟨pre, cursor, count, r.1, r.2, hpage, hb, (hname b).symm.trans hn⟩, rfl⟩

/-- The options of a stack of these modes. -/
def stackOptions (compress : CompressMode) (encrypt : EncryptMode) (key : Bytes) : ObjOptions :=
  ⟨1, compress, 0, false, false, false, encrypt, key⟩

lemma containerStack_encrypted (codecs : Codecs) (cipher : Cipher σ) (m : CompressMode)
    {e : EncryptMode} (he : e ≠ .identity) {key : Bytes} (hkey : validAESKey key = none)
    (base : Container σ) :
    containerStack codecs cipher (stackOptions m e key) base =
      .ok (compressedContainer codecs m (encryptedContainer cipher e key base)) := by
  have hlen : ¬ key.length < 1 := by
    intro h
    simp [validAESKey, show key.length = 0 by omega] at hkey
  simp [containerStack, stackOptions, he, hlen, hkey]

/-- **Round trip through the wrappers.**  Whatever is put through the compressing over the
encrypting container, or through the compressing one alone, every handle the stack then gives out
under its name opens to the contents, reports the size that was passed and has all of the caller's
metadata.  Compression alone in identity mode passes the size to the base container, which takes
that of the contents. -/
theorem stack_round_trip (law : Plain base) (hands : HandsCurrent law.toFaithful item)
    (hinv : Inverts codecs cipher) {m : CompressMode} (hm : m ≠ .unknown) {e : EncryptMode}
    (he : e ≠ .unknown) (hid : e ≠ .identity) {key : Bytes} (hkey : validAESKey key = none)
    (content : Bytes) {size : ℤ} (hint : IsInt64 size) {md : Metadata} (hfree : md.Free)
    (n : GoString) (st : σ) :
    (∃ it st', (compressedContainer codecs m (encryptedContainer cipher e key base)).put n
        ⟨content, none⟩ size md st = (.ok it, st') ∧
      (∃ h, compressedItemCall codecs (encryptedItemCall cipher key item) st' n = .ok h) ∧
      ∀ h, HandsOut (compressedContainer codecs m (encryptedContainer cipher e key base))
        (compressedItemCall codecs (encryptedItemCall cipher key item)) st' n h →
        h.GivesBack st' content size md) ∧
    ((m = .identity → size = content.length) →
      ∃ it st', (compressedContainer codecs m base).put n ⟨content, none⟩ size md st =
          (.ok it, st') ∧
        (∃ h, compressedItemCall codecs item st' n = .ok h) ∧
        ∀ h, HandsOut (compressedContainer codecs m base) (compressedItemCall codecs item) st' n h →
          h.GivesBack st' content size md) := by
  refine ⟨?_, fun hsize => ?_⟩
  · have hstack := containerStack_encrypted codecs cipher m hid hkey base
    obtain ⟨it, st', o, hput, hobj, hback⟩ := put_givesBack law hinv hstack rfl hm he content hint
      (fun _ h => absurd h hid) hfree n st
    obtain ⟨b, hb⟩ := hands.found hobj
    refine ⟨it, st', hput, ⟨compressedItem codecs (encryptedItem cipher key b), ?_⟩, fun h hh => ?_⟩
    · simp [compressedItemCall, encryptedItemCall, hb, Except.map]
    obtain ⟨b', hb', rfl⟩ := handsOut_map (encryptedContainer cipher e key base)
      (encryptedItemCall cipher key item) (compressedItem codecs) (fun _ => rfl)
      (fun _ _ _ _ => rfl) (fun _ _ => rfl) hh
    obtain ⟨b'', hb'', rfl⟩ := handsOut_map base item (encryptedItem cipher key) (fun _ => rfl)
      (fun _ _ _ _ => rfl) (fun _ _ => rfl) hb'
    obtain ⟨o', hcur⟩ := hands.current hb''
    simpa [ObjOptions.layers, stackOptions, hid] using hback b'' o' hcur
  · have hstack : containerStack codecs cipher (stackOptions m .identity key) base =
        .ok (compressedContainer codecs m base) := rfl
    obtain ⟨it, st', o, hput, hobj, hback⟩ := put_givesBack law hinv hstack rfl hm
      (by simp [stackOptions]) content hint (fun hc _ => hsize hc) hfree n st
    obtain ⟨b, hb⟩ := hands.found hobj
    refine ⟨it, st', hput, ⟨compressedItem codecs b, ?_⟩, fun h hh => ?_⟩
    · simp [compressedItemCall, hb, Except.map]
    obtain ⟨b', hb', rfl⟩ := handsOut_map base item (compressedItem codecs) (fun _ => rfl)
      (fun _ _ _ _ => rfl) (fun _ _ => rfl) hh
    obtain ⟨o', hcur⟩ := hands.current hb'
    simpa [ObjOptions.layers, stackOptions] using hback b' o' hcur

end Stack

/-- `Item` of the container in memory. -/
def memItemCall : ItemCall MemStore := fun st n =>
  match st.get n with
  | some _ => .ok (memItem n)
  | none => .error osErrNotExist

lemma handsCurrent_mem (name : GoString) : HandsCurrent (memPlain name).toFaithful memItemCall where
  current {st n b} h := by
    rcases h with h | ⟨pre, cursor, count, its, next, hits, hmem, hn⟩
    · unfold memItemCall at h
      split at h
      · next o ho => exact ⟨o, (Except.ok.inj h).symm, ho⟩
      · simp at h
    · obtain ⟨rfl, -⟩ := Prod.mk.inj (Except.ok.inj hits)
      obtain ⟨m, hm, rfl⟩ := List.mem_map.mp hmem
      obtain rfl : m = n := hn
      have hget : st.get m ≠ none := by
        rw [MemStore.get_ne_none_iff]
        exact List.mem_of_mem_filter (List.mem_of_mem_take hm)
      obtain ⟨o, ho⟩ := Option.ne_none_iff_exists'.mp hget
      exact ⟨o, rfl, ho⟩
  found {st n o} h := by
    have hget : st.get n = some o := h
    exact ⟨memItem n, by simp [memItemCall, hget]⟩

/-- Metadata with one entry of the caller's. -/
def toyMetadata : Metadata := Function.update Metadata.nil (.other ['k']) (some (.str ['v']))

lemma free_toyMetadata : toyMetadata.Free := by
  intro k hk
  by_contra hne
  have hk' : k ≠ .other ['k'] := fun h => hne ⟨_, h⟩
  exact hk (Function.update_of_ne hk' _ _)

/-- Two bytes, put as if they were five. -/
theorem stack_round_trip_toy :
    ∃ it st', (compressedContainer toyCodecs .gzip (encryptedContainer toyCipher .aesCFB
        (List.replicate 16 1) (memContainer ['c']))).put ['x'] ⟨[1, 2], none⟩ 5 toyMetadata
        MemStore.empty = (.ok it, st') ∧
      ∃ h, compressedItemCall toyCodecs (encryptedItemCall toyCipher (List.replicate 16 1)
          memItemCall) st' ['x'] = .ok h ∧ h.GivesBack st' [1, 2] 5 toyMetadata := by
  obtain ⟨it, st', hput, ⟨h, hh⟩, hback⟩ := (stack_round_trip (memPlain ['c'])
    (handsCurrent_mem ['c']) inverts_toy (m := .gzip) (by decide) (e := .aesCFB) (by decide)
    (by decide) (show validAESKey (List.replicate 16 1) = none by decide) [1, 2]
    (show IsInt64 5 from ⟨by decide, by decide⟩) free_toyMetadata ['x'] MemStore.empty).1
  exact ⟨it, st', hput, h, hh, hback h (Or.inl hh)⟩

/-! ## Two devices -/

/-- Reading the item gives the contents or an error, and its size, where it opens to the contents,
is theirs. -/
structure Item.NeverMisread (h : Item σ) (st : σ) (content : Bytes) : Prop where
  read : ∀ rdr, h.openItem st = .ok rdr → rdr.err = none → rdr.data = content
  size : h.openItem st = .ok ⟨content, none⟩ → ∀ s, h.size st = .ok s → s = content.length

namespace ObjOptions

/-- The reader has a layer for the writer's encryption, or there is none; or else the decompressor
makes the contents or an error of the ciphertext. -/
def Reads (codecs : Codecs) (cipher : Cipher σ) (writer reader : ObjOptions) (st : σ)
    (content : Bytes) : Prop :=
  writer.encryptMode = .identity ∨ reader.encryptMode ≠ .identity ∨
    ∀ rdr, writer.compressMode.newReader codecs ⟨writer.stored codecs cipher st content, none⟩ =
      .ok rdr → rdr.err = none → rdr.data = content

variable {codecs : Codecs} {cipher : Cipher σ} {writer reader : ObjOptions}

/-- Without a layer for it, encryption is read as if it were compressed data. -/
lemma layers_open_undecrypted (hmeta : reader.noMetadata = false)
    (henc : reader.encryptMode = .identity) (hcomp : writer.compressMode ≠ .unknown) {b : Item σ}
    {st st₀ : σ} {size : ℤ} (hmd : b.metadata st = .ok (writer.headers cipher st₀ size .nil))
    {rdr : Reader} (hopen : b.openItem st = .ok rdr) :
    (reader.layers codecs cipher b).openItem st = writer.compressMode.newReader codecs rdr := by
  simp only [layers, hmeta, henc, Bool.false_eq_true, if_false, ne_eq, not_true_eq_false]
  exact compressedItem_openItem hcomp (fun _ => rfl) hmd
    (writer.headers_compress cipher st₀ size .nil (by decide) (by decide) (by decide)) hopen

/-- And its size is the one the compression header records, or that of the ciphertext. -/
lemma layers_size_undecrypted (hmeta : reader.noMetadata = false)
    (henc : reader.encryptMode = .identity) {b : Item σ} {st st₀ : σ} {content : Bytes}
    (hmax : content.length ≤ maxOffset)
    (hmd : b.metadata st = .ok (writer.headers cipher st₀ content.length .nil))
    (hsize : writer.compressMode = .identity → b.size st = .ok content.length) :
    (reader.layers codecs cipher b).size st = .ok content.length := by
  simp only [layers, hmeta, henc, Bool.false_eq_true, if_false, ne_eq, not_true_eq_false]
  exact compressedItem_size (fun _ => rfl) hmd
    (writer.headers_compress cipher st₀ _ .nil (by decide) (by decide) (by decide))
    (writer.headers_compress cipher st₀ _ .nil (by decide) (by decide) (by decide)) hsize
    (isInt64_natCast hmax)

end ObjOptions

/-- **Reading across configurations.**  One device puts an object and another, with the same key
where it needs one, lists it through its own stack.  Whatever handle it gets, it reads the contents
or an error and never other bytes, exactly when the writer did not encrypt, or the reader is set up
for encryption, or the ciphertext happens not to decompress to other bytes. -/
theorem reads_across_configs_iff {codecs : Codecs} {cipher : Cipher σ} {base c₁ c₂ : Container σ}
    (law : Plain base) (hinv : Inverts codecs cipher) {writer reader : ObjOptions}
    (hwriter : containerStack codecs cipher writer base = .ok c₁)
    (hreader : containerStack codecs cipher reader base = .ok c₂)
    (hmeta : reader.noMetadata = false) (hcomp : writer.compressMode ≠ .unknown)
    (henc : writer.encryptMode ≠ .unknown)
    (hkey : writer.encryptMode ≠ .identity → reader.encryptMode ≠ .identity →
      reader.encryptKey = writer.encryptKey)
    {content : Bytes} (hmax : content.length ≤ maxOffset) (n : GoString) (st : σ) :
    (∀ st pre cursor count, c₂.items st pre cursor count =
      (base.items st pre cursor count).map fun r => (r.1.map (reader.layers codecs cipher), r.2)) ∧
    ∃ it st', c₁.put n ⟨content, none⟩ content.length .nil st = (.ok it, st') ∧
      ((∀ st'' b o, law.objects st' n = some o → law.Current st'' b n o →
          (reader.layers codecs cipher b).NeverMisread st'' content) ↔
        ObjOptions.Reads codecs cipher writer reader st content) := by
  refine ⟨reader.items_stack hreader, ?_⟩
  rw [writer.put_stack_eq hwriter hcomp henc]
  obtain ⟨it, st', hput⟩ := law.put_total n (writer.stored codecs cipher st content) _
    (writer.headers cipher st content.length .nil) st (writer.announced st fun _ _ => rfl)
  have hcur := law.put_stores hput
  have hobj := law.current_object hcur
  refine ⟨it, st', hput, ?_, ?_⟩
  · intro hall
    by_cases hlayer : writer.encryptMode = .identity ∨ reader.encryptMode ≠ .identity
    · rcases hlayer with h | h
      · exact Or.inl h
      · exact Or.inr (Or.inl h)
    · obtain ⟨-, he⟩ := not_or.mp hlayer
      refine Or.inr (Or.inr fun rdr hrdr => ?_)
      refine (hall st' it _ hobj hcur).read rdr ?_
      rw [ObjOptions.layers_open_undecrypted hmeta (not_not.mp he) hcomp (law.current_metadata hcur)
        (law.current_open hcur)]
      exact hrdr
  · intro hreads st'' b o ho hb
    obtain rfl := Option.some.inj (hobj.symm.trans ho)
    have hmd := law.current_metadata hb
    by_cases hlayer : writer.encryptMode = .identity ∨ reader.encryptMode ≠ .identity
    · -- every encoding has its layer
      obtain ⟨hsize, hopen⟩ := writer.layers_undo hinv reader hmeta hcomp henc hlayer
        (fun he => ⟨hkey he (hlayer.resolve_left he), by
          have := ObjOptions.containerStack_cases hwriter
          tauto⟩) rfl rfl (isInt64_natCast hmax) hmd (law.current_open hb) (fun hc he => by
          rw [law.current_size hb]
          simp [ObjOptions.stored, CompressMode.stored, EncryptMode.stored, hc, he])
      refine ⟨fun rdr hrdr _ => ?_, fun _ s hs => ?_⟩
      · obtain rfl := Except.ok.inj (hrdr.symm.trans hopen)
        rfl
      · exact Except.ok.inj (hs.symm.trans hsize)
    · obtain ⟨he, he'⟩ := not_or.mp hlayer
      have he' := not_not.mp he'
      have hread := (hreads.resolve_left he).resolve_left (not_not.mpr he')
      have hopen : (reader.layers codecs cipher b).openItem st'' = _ :=
        ObjOptions.layers_open_undecrypted hmeta he' hcomp hmd (law.current_open hb)
      refine ⟨fun rdr hrdr => hread rdr (hopen.symm.trans hrdr), fun hcontent s hs => ?_⟩
      refine Except.ok.inj (hs.symm.trans (ObjOptions.layers_size_undecrypted hmeta he' hmax hmd
        fun hc => ?_))
      -- opened as it is stored, the item is as long as it says
      rw [hcontent, hc] at hopen
      have hstored : writer.stored codecs cipher st content = content := by
        simpa [CompressMode.newReader, eq_comm] using hopen
      rw [law.current_size hb, hstored]

theorem reads_across_configs_iff_toy :
    ∃ it st', (compressedContainer toyCodecs .gzip (encryptedContainer toyCipher .aesCTR
        (List.replicate 16 1) (memContainer ['c']))).put ['x'] ⟨[1], none⟩ 1 .nil MemStore.empty =
        (.ok it, st') ∧
      ((∀ st'' b o, (memPlain ['c']).objects st' ['x'] = some o →
          (memPlain ['c']).Current st'' b ['x'] o →
          ((toyOptions .s2 .aesOFB).layers toyCodecs toyCipher b).NeverMisread st'' [1]) ↔
        ObjOptions.Reads toyCodecs toyCipher (toyOptions .gzip .aesCTR) (toyOptions .s2 .aesOFB)
          MemStore.empty [1]) :=
  (reads_across_configs_iff (memPlain ['c']) inverts_toy
    (show containerStack toyCodecs toyCipher (toyOptions .gzip .aesCTR) _ = .ok _ from rfl)
    (show containerStack toyCodecs toyCipher (toyOptions .s2 .aesOFB) _ = .ok _ from rfl) rfl
    (by decide) (by decide) (fun _ _ => rfl) (show [(1 : UInt8)].length ≤ maxOffset by decide) ['x']
    MemStore.empty).2

/-- What a device without encryption opens of an object put by a device with it. -/
def toyCrossRead (compress : CompressMode) (content : Bytes) :
    Option (Except GoError Reader × Except GoError ℤ) :=
  match containerStack toyCodecs toyCipher (toyOptions compress .aesCTR) (memContainer ['c']) with
  | .error _ => none
  | .ok c =>
    let st := (c.put ['x'] ⟨content, none⟩ content.length .nil MemStore.empty).2
    let h := (toyOptions compress .identity).layers toyCodecs toyCipher (memItem ['x'])
    some (h.openItem st, h.size st)

/-- A device without encryption opens an object another has encrypted, and gets the ciphertext
without an error and of the right size; through a decompressor, what that makes of it. -/
theorem undecrypted_read_serves_ciphertext :
    toyCrossRead .identity [1] = some (.ok ⟨[2], none⟩, .ok 1) ∧
      toyCrossRead .gzip [1] = some (.ok ⟨[2], none⟩, .ok 1) := by
  refine ⟨?_, ?_⟩ <;> decide +kernel

end Usbd
