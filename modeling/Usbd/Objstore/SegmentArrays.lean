import Usbd.Objstore.Durability

/-!
# Segments as arrays

What the device's requests rest on: the segments stand for arrays of `segmentBytes` bytes, and a
call inside one of them transfers a leading part of its buffer — all of it, unless it reports an
error — and nothing else (`SegmentIO`).

The segments of a device without a quota are such arrays whatever fails (`resident_io`): a segment
has its bytes in its local file, or it has never been written.  No container is asked for anything,
since no local file is ever given up before the device is closed.
-/

namespace Usbd

open ListMemory Prog

variable {σ : Type} {sp : StoreParams σ} {w w' : World σ} {segments : List (Segment σ)}
  {arrays : List Bytes}

lemma set_eq_self {α : Type*} {l : List α} {i : ℕ} {a : α} (h : l[i]? = some a) :
    l.set i a = l := by
  obtain ⟨hlt, rfl⟩ := List.getElem?_eq_some_iff.mp h
  exact List.set_getElem_self hlt

/-! ## Transfers -/

/-- The first `n` bytes of a buffer have been transferred at a position of an array, and nothing
else: a read has put them into the buffer, a write into the array. -/
structure Moved (readOp : Bool) (array array' buf buf' : Bytes) (pos n : ℕ) : Prop where
  le : n ≤ buf.length
  buffer : buf' = if readOp then slice array pos n ++ buf.drop n else buf
  array : array' = if readOp then array else overwrite 0 array pos (buf.take n)

namespace Moved

variable {readOp : Bool} {array array' array'' buf buf' : Bytes} {pos n : ℕ}

/-- What moves in one array moves in all of them together. -/
lemma flatten {i k : ℕ} (h : Moved readOp array array' buf buf' pos n)
    (hk : ∀ a ∈ arrays, a.length = k) (hi : arrays[i]? = some array)
    (hle : pos + buf.length ≤ k) :
    Moved readOp arrays.flatten (arrays.set i array').flatten buf buf' (i * k + pos) n := by
  have hn := h.le
  refine ⟨hn, ?_, ?_⟩
  · rw [h.buffer, slice_flatten hk hi (by omega)]
  · rw [h.array]
    cases readOp with
    | true =>
      simp [set_eq_self hi]
    | false =>
      simp only [Bool.false_eq_true, if_false]
      exact flatten_set_overwrite 0 hk hi (by rw [List.length_take]; omega)

/-- A call that has moved nothing has changed nothing. -/
lemma eq_of_zero (h : Moved readOp array array' buf buf' pos 0) : buf' = buf ∧ array' = array := by
  refine ⟨?_, ?_⟩
  · rw [h.buffer]
    simp
  · rw [h.array]
    simp

/-- A transfer inside an array does not change its length. -/
lemma length_array (h : Moved readOp array array' buf buf' pos n)
    (hle : pos + buf.length ≤ array.length) : array'.length = array.length := by
  rw [h.array]
  split_ifs
  · rfl
  · exact length_overwrite_of_le 0 (by rw [List.length_take]; omega)

/-- A whole piece and then a part of the rest of the buffer. -/
lemma append {piece rest got tail : Bytes} {m : ℕ}
    (h : Moved readOp array array' piece got pos piece.length)
    (h' : Moved readOp array' array'' rest tail (pos + piece.length) m)
    (hin : pos + (piece ++ rest.take m).length ≤ array.length) :
    Moved readOp array array'' (piece ++ rest) (got.take piece.length ++ tail) pos
      (piece.length + m) := by
  have hm := h'.le
  refine ⟨by simpa using hm, ?_, ?_⟩
  · rw [h.buffer, h'.buffer]
    cases readOp with
    | true =>
      have harray : array' = array := by simpa using h.array
      have hlen : (slice array pos piece.length).length = piece.length :=
        length_slice_of_le (by rw [List.length_append] at hin; omega)
      simp only [if_true, List.drop_length, List.append_nil, harray]
      rw [List.take_of_length_le hlen.le, ← List.append_assoc, slice_append_slice,
        List.drop_length_add_append]
    | false => simp
  · rw [h'.array, h.array]
    cases readOp with
    | true => simp
    | false =>
      simp only [Bool.false_eq_true, if_false, List.take_length]
      rw [overwrite_overwrite_append, List.take_length_add_append]

/-- A part of a piece at the front of a longer buffer. -/
lemma of_piece {piece got : Bytes} (h : Moved readOp array array' piece got pos n) (rest : Bytes) :
    Moved readOp array array' (piece ++ rest) (got ++ rest) pos n := by
  have hn := h.le
  refine ⟨by simp; omega, ?_, ?_⟩
  · rw [h.buffer, List.drop_append_of_le_length hn]
    cases readOp <;> simp
  · rw [h.array, List.take_append_of_le_length hn]

end Moved

/-- The segments stand for arrays.  A call inside a segment transfers a leading part of its buffer,
all of it unless it reports an error; and when that error is a want of capacity, nothing, and
making room changes no array. -/
structure SegmentIO (sp : StoreParams σ)
    (Stands : World σ → List (Segment σ) → List Bytes → Prop) (mayFail : Prop) : Prop where
  length_eq : ∀ {w segments arrays}, Stands w segments arrays → arrays.length = segments.length
  array_length : ∀ {w segments arrays}, Stands w segments arrays →
    ∀ a ∈ arrays, a.length = sp.segmentBytes
  call : ∀ {w segments arrays i seg a buf pos} (readOp : Bool), Stands w segments arrays →
    segments[i]? = some seg → arrays[i]? = some a → buf ≠ [] →
    pos + buf.length ≤ sp.segmentBytes →
    Returns (segmentOp sp readOp seg buf (pos : ℕ)) w fun r w' => ∃ a',
      Moved readOp a a' buf r.2.1 pos r.2.2.1 ∧ Stands w' (segments.set i r.1) (arrays.set i a') ∧
      (r.2.2.2 = none → r.2.2.1 = buf.length) ∧ (r.2.2.2 ≠ none → mayFail) ∧
      ∀ e, r.2.2.2 = some e → e.is errCapacityClaim = true → r.2.2.1 = 0 ∧
        Returns (removeLeastRecentUsed sp (segments.set i r.1) i) w' fun r' w'' =>
          Stands w'' r'.1 (arrays.set i a')

/-! ## Segments that stay local -/

/-- The segment has its bytes in its local file, or has never been written. -/
structure Resides (sp : StoreParams σ) (w : World σ) (i : ℕ) (seg : Segment σ) (a : Bytes) :
    Prop where
  id_eq : seg.ID = i
  length_eq : a.length = sp.segmentBytes
  opened : ∀ file, seg.localFile = some file →
    file = ⟨seg.name sp, false⟩ ∧ w.files (seg.name sp) = some a
  unwritten : seg.localFile = none → seg.remoteItem = none ∧ a = zeros sp.segmentBytes

/-- All the segments reside. -/
structure Resident (sp : StoreParams σ) (w : World σ) (segments : List (Segment σ))
    (arrays : List Bytes) : Prop where
  length_eq : arrays.length = segments.length
  resides : ∀ {i seg a}, segments[i]? = some seg → arrays[i]? = some a → Resides sp w i seg a

/-! ### Calls that may fail -/

/-- An error the environment has made; it is no want of capacity. -/
structure Faulted (env : Env) (e : GoError) : Prop where
  not_capacity : e.is errCapacityClaim = false
  not_reliable : ¬ Reliable env

lemma faulted_inputOutput {env : Env} {call : OsCall} {t n : ℕ} (hcall : call.ofUpload = false)
    (h : env.fault call t = some n) : Faulted env errInputOutput :=
  ⟨by decide, fun hr => by simp [hr call t hcall] at h⟩

lemma Faulted.wrap {env : Env} {e : GoError} (h : Faulted env e) (text : String) :
    Faulted env (.wrap text e) :=
  ⟨by simp [GoError.is, errCapacityClaim, show e.is (.new _) = false from h.not_capacity],
    h.not_reliable⟩

/-- How a transfer ends: with all of its bytes, or in an error of the environment. -/
structure Ends (env : Env) (n len : ℕ) (err : Option GoError) : Prop where
  le : n ≤ len
  err : err = none ∧ n = len ∨ ∃ e, err = some e ∧ Faulted env e

lemma readAt_ends {env : Env} {file : File} (hopen : file.closed = false) {data : Bytes}
    (h : w.files file.name = some data) {pos len : ℕ} (hle : pos + len ≤ data.length) :
    Returns (file.readAt env len pos) w fun r w' =>
      Leaves w w.files w' ∧ r.1 = slice data pos r.1.length ∧ Ends env r.1.length len r.2 := by
  have hlen : (slice data pos len).length = len := length_slice_of_le hle
  simp only [File.readAt, hopen, Bool.false_eq_true, if_false, returns_bind, returns_syscall,
    returns_get, File.bytes, h, Option.getD_some, fileReadAt_of_le hle]
  cases hf : env.fault .readAt w.tick with
  | none =>
    rw [returns_pure]
    exact ⟨leaves_tick _ _, by rw [hlen], hlen.le, .inl ⟨rfl, hlen⟩⟩
  | some n =>
    rw [returns_pure]
    refine ⟨leaves_tick _ _, ?_, ?_, .inr ⟨_, rfl, faulted_inputOutput (by decide) hf⟩⟩
    · rw [List.length_take, hlen, slice, slice, List.take_take]
    · simp [hlen]

lemma writeAt_ends {env : Env} {call : OsCall} (hcall : call.ofUpload = false) {file : File}
    (hopen : file.closed = false) {data : Bytes} (h : w.files file.name = some data) {pos : ℕ}
    {buf : Bytes} (hle : pos + buf.length ≤ maxOffset) :
    Returns (file.writeAt env buf pos call) w fun r w' =>
      Leaves w (Function.update w.files file.name
        (some (overwrite 0 data pos (buf.take r.1)))) w' ∧ Ends env r.1 buf.length r.2 := by
  simp only [File.writeAt, hopen, Bool.false_eq_true, if_false, returns_bind, returns_syscall,
    returns_get, returns_setFile, returns_pure, File.bytes, h, Option.getD_some,
    fileWriteAt_natCast, if_neg (show ¬ maxOffset < pos + buf.length by omega)]
  cases hf : env.fault call w.tick with
  | none =>
    simp only [List.take_length]
    exact ⟨leaves_tick _ _, le_rfl, .inl ⟨rfl, rfl⟩⟩
  | some n =>
    have htake : buf.take (min n buf.length) = buf.take n := by
      rw [← List.take_take, List.take_length]
    simp only [htake]
    exact ⟨leaves_tick _ _, Nat.min_le_right _ _, .inr ⟨_, rfl, faulted_inputOutput hcall hf⟩⟩

lemma osCreate_ends {env : Env} {name : GoString} : Returns (osCreate env name) w fun r w' =>
    StoreParams.SameBut name w.files w'.files ∧
      (r = .ok ⟨name, false⟩ ∧ w'.files name = some [] ∨
        ∃ e, r = .error e ∧ Faulted env e) := by
  refine osCreate_faulty.mono fun r w' h => ?_
  rcases h with ⟨hfault, rfl, hl⟩ | ⟨rfl, hl⟩
  · obtain ⟨n, hn⟩ := Option.ne_none_iff_exists'.mp hfault
    rw [hl.files]
    exact ⟨.refl _ _, .inr ⟨_, rfl, faulted_inputOutput (by decide) hn⟩⟩
  · rw [hl.files]
    exact ⟨(StoreParams.SameBut.refl _ _).update_data _, .inl ⟨rfl, Function.update_self ..⟩⟩

lemma osRemove_sameBut {env : Env} {name : GoString} : Returns (osRemove env name) w fun _ w' =>
    StoreParams.SameBut name w.files w'.files := by
  refine osRemove_faulty.mono fun _ w' h => ?_
  rcases h.1 with hl | hl <;> rw [hl.files]
  · exact .refl _ _
  · exact (StoreParams.SameBut.refl _ _).update_data _

/-- What there is of a new file: zeros, or an error. -/
def Created (sp : StoreParams σ) (name : GoString) (w : World σ) (r : Except GoError (Option File))
    (w' : World σ) : Prop :=
  StoreParams.SameBut name w.files w'.files ∧
    (r = .ok (some ⟨name, false⟩) ∧ w'.files name = some (zeros sp.segmentBytes) ∨
      ∃ e, r = .error e ∧ Faulted sp.env e)

/-- Filling a new file with zeros, or writing a single zero at its end. -/
lemma fill_ends (hs : sp.Sized) {name : GoString} {w₁ : World σ}
    (hsame : StoreParams.SameBut name w.files w₁.files) (hempty : w₁.files name = some [])
    {buf : Bytes} {pos : ℕ} (hlen : pos + buf.length = sp.segmentBytes)
    (hbuf : overwrite 0 [] pos buf = zeros sp.segmentBytes) (text : String) :
    Returns (sp.fillNew ⟨name, false⟩ buf pos text name) w₁ (Created sp name w) := by
  rw [StoreParams.fillNew, returns_bind]
  refine (writeAt_ends (by decide) rfl hempty (hlen.le.trans hs.le_max)).mono fun r w₂ h₂ => ?_
  obtain ⟨n, err⟩ := r
  obtain ⟨hleaves, -, hend⟩ := h₂
  have hsame₂ : StoreParams.SameBut name w.files w₂.files := by
    rw [hleaves.files]
    exact hsame.update_data _
  rcases hend with ⟨rfl, hn⟩ | ⟨e, rfl, hfault⟩
  · rw [returns_pure]
    refine ⟨hsame₂, .inl ⟨rfl, ?_⟩⟩
    simp only at hn
    rw [hleaves.files, Function.update_self, hn, List.take_length, hbuf]
  · simp only [returns_bind, returns_pure]
    refine osRemove_sameBut.mono fun _ w₃ h₃ => ?_
    exact ⟨fun m hm he => (h₃ m hm he).trans (hsame₂ m hm he), .inr ⟨_, rfl, hfault.wrap _⟩⟩

lemma createFile_ends (hq : sp.quotaSema = none) (hs : sp.Sized) (segID : GoString) :
    Returns (sp.createFile segID) w (Created sp (sp.itemName segID) w) := by
  have hclaim : sp.claimCapacity = pure none := by simp [StoreParams.claimCapacity, hq]
  have hpos := hs.pos
  rw [StoreParams.createFile, hclaim, returns_bind, returns_pure, returns_bind]
  refine osCreate_ends.mono fun r w₁ h₁ => ?_
  obtain ⟨hsame, ⟨rfl, hempty⟩ | ⟨e, rfl, hfault⟩⟩ := h₁
  · simp only
    split_ifs
    · have hz : zeros sp.segmentBytes ≠ [] := by
        rw [← List.length_pos_iff_ne_nil, length_zeros]
        exact hpos
      exact fill_ends hs hsame hempty (by simp)
        (by simpa using overwrite_length_add 0 ([] : Bytes) 0 hz) _
    · rw [show (sp.segmentBytes : ℤ) - 1 = ((sp.segmentBytes - 1 : ℕ) : ℤ) by omega]
      have h := overwrite_length_add 0 ([] : Bytes) (sp.segmentBytes - 1) (List.cons_ne_nil 0 [])
      simp only [List.length_nil, Nat.zero_add, List.nil_append, ← List.replicate_succ',
        Nat.sub_add_cancel hpos] at h
      exact fill_ends hs hsame hempty (by simp; omega) h _
  · rw [returns_pure]
    exact ⟨hsame, .inr ⟨_, rfl, hfault.wrap _⟩⟩

section Resident

variable {i : ℕ} {seg : Segment σ} {a : Bytes}

lemma Resident.step (h : Resident sp w segments arrays) {seg' : Segment σ} {a' : Bytes}
    (h' : Resides sp w' i seg' a')
    (hfiles : StoreParams.SameBut (sp.itemName (itoa i)) w.files w'.files) :
    Resident sp w' (segments.set i seg') (arrays.set i a') := by
  refine ⟨by simp [h.length_eq], fun {j seg b} hseg hb => ?_⟩
  rcases eq_or_ne i j with rfl | hij
  · rw [List.getElem?_set_self' ] at hseg hb
    obtain ⟨_, _, rfl⟩ := Option.map_eq_some_iff.mp hseg
    obtain ⟨_, _, rfl⟩ := Option.map_eq_some_iff.mp hb
    exact h'
  · rw [List.getElem?_set_ne hij] at hseg hb
    obtain ⟨hid, hlen, hopened, hunwritten⟩ := h.resides hseg hb
    have hname : seg.name sp = sp.itemName (itoa j) := by rw [Segment.name, hid]
    have hapart : Apart (sp.itemName (itoa j)) (sp.itemName (itoa i)) := apart_itemName hij.symm
    refine ⟨hid, hlen, fun file hfile => ?_, hunwritten⟩
    rw [hname, hfiles _ hapart.data hapart.data_etag, ← hname]
    exact hopened file hfile

lemma resident_new (sp : StoreParams σ) (w : World σ) (n : ℕ) :
    Resident sp w ((List.range n).map Segment.new) (List.replicate n (zeros sp.segmentBytes)) := by
  refine ⟨by simp, fun {i seg a} hseg ha => ?_⟩
  obtain ⟨hlt, rfl⟩ := List.getElem?_eq_some_iff.mp hseg
  rw [List.getElem_map, List.getElem_range]
  obtain ⟨-, rfl⟩ : i < n ∧ zeros sp.segmentBytes = a := by simpa [List.getElem?_replicate] using ha
  exact ⟨rfl, length_zeros _, fun file hf => by simp [Segment.new] at hf, fun _ => ⟨rfl, rfl⟩⟩

variable {pos : ℕ} {buf : Bytes}

/-- What a call of a segment leaves: some bytes moved, and the segment residing. -/
structure ResidesStep (sp : StoreParams σ) (readOp : Bool) (w : World σ) (i : ℕ) (a buf : Bytes)
    (pos : ℕ) (seg' : Segment σ) (a' buf' : Bytes) (n : ℕ) (err : Option GoError)
    (w' : World σ) : Prop where
  moved : Moved readOp a a' buf buf' pos n
  resides : Resides sp w' i seg' a'
  files : StoreParams.SameBut (sp.itemName (itoa i)) w.files w'.files
  ends : Ends sp.env n buf.length err

lemma Resides.name_eq (h : Resides sp w i seg a) : seg.name sp = sp.itemName (itoa i) := by
  rw [Segment.name, h.id_eq]

lemma readAt_resides (h : Resides sp w i seg a) (hle : pos + buf.length ≤ sp.segmentBytes) :
    Returns (seg.readAt sp buf pos) w fun r w' =>
      ResidesStep sp true w i a buf pos r.1 a r.2.1 r.2.2.1 r.2.2.2 w' := by
  have hlen := h.length_eq
  simp only [Segment.readAt, Segment.readLoaded, returns_bind, returns_timeNow, Segment.loadFile]
  cases hfile : seg.localFile with
  | some file =>
    obtain ⟨rfl, hdata⟩ := h.opened file hfile
    simp only [returns_pure, returns_bind]
    refine (readAt_ends rfl hdata (by omega)).mono fun r w' h' => ?_
    obtain ⟨got, err⟩ := r
    obtain ⟨hleaves, hgot, hends⟩ := h'
    have hle' := hends.le
    refine ⟨⟨hle', ?_, by simp⟩, ⟨h.id_eq, hlen, fun file' hf => ?_, fun hn => ?_⟩, ?_, hends⟩
    · simp only at hgot hle'
      rw [goCopy, List.take_of_length_le hle', if_pos rfl, ← hgot]
    · obtain rfl : file' = _ := (Option.some.inj hf).symm
      exact ⟨rfl, by rw [hleaves.files]; exact hdata⟩
    · simp at hn
    · rw [hleaves.files]
      exact StoreParams.SameBut.refl _ _
  | none =>
    obtain ⟨hitem, rfl⟩ := h.unwritten hfile
    have hshort : ¬ ((pos : ℤ) + buf.length > sp.segmentBytes) := by omega
    simp only [hitem, Bool.false_eq_true, if_false, returns_pure, hshort, Int.toNat_natCast]
    rw [if_neg (by omega), returns_pure]
    refine ⟨⟨le_rfl, ?_, by simp⟩, ⟨h.id_eq, by simp, fun file' hf => ?_, fun _ => ⟨rfl, rfl⟩⟩,
      StoreParams.SameBut.refl _ _, le_rfl, .inl ⟨rfl, rfl⟩⟩
    · rw [zeroFill_eq, List.take_length, if_pos rfl, zeros, zeros, slice_replicate 0 hle]
    · simp at hf

lemma Resides.of_file (hid : seg.ID = i)
    (hfile : seg.localFile = some ⟨sp.itemName (itoa i), false⟩) (hlen : a.length = sp.segmentBytes)
    (hdata : w.files (sp.itemName (itoa i)) = some a) : Resides sp w i seg a := by
  have hname : seg.name sp = sp.itemName (itoa i) := by rw [Segment.name, hid]
  refine ⟨hid, hlen, fun file hf => ?_, fun hn => by simp [hfile] at hn⟩
  rw [hname]
  exact ⟨(Option.some.inj (hfile.symm.trans hf)).symm, hdata⟩

lemma writeAt_ownFile (hs : sp.Sized) {name : GoString} (hlen : a.length = sp.segmentBytes)
    (hdata : w.files name = some a) (hle : pos + buf.length ≤ sp.segmentBytes) :
    Returns (File.writeAt sp.env ⟨name, false⟩ buf pos .writeAt) w fun r w' =>
      ∃ a', Moved false a a' buf buf pos r.1 ∧ a'.length = sp.segmentBytes ∧
        w'.files name = some a' ∧ StoreParams.SameBut name w.files w'.files ∧
        Ends sp.env r.1 buf.length r.2 := by
  refine (writeAt_ends (by decide) rfl hdata (hle.trans hs.le_max)).mono fun r w' h' => ?_
  obtain ⟨hleaves, hends⟩ := h'
  have hmoved : Moved false a (overwrite 0 a pos (buf.take r.1)) buf buf pos r.1 :=
    ⟨hends.le, by simp, by simp⟩
  refine ⟨_, hmoved, (hmoved.length_array (by omega)).trans hlen, ?_, ?_, hends⟩
  · rw [hleaves.files]
    exact Function.update_self ..
  · rw [hleaves.files]
    exact (StoreParams.SameBut.refl _ _).update_data _

lemma writeAt_resides (hq : sp.quotaSema = none) (hs : sp.Sized) (h : Resides sp w i seg a)
    (hle : pos + buf.length ≤ sp.segmentBytes) :
    Returns (seg.writeAt sp buf pos) w fun r w' =>
      ∃ a', ResidesStep sp false w i a buf pos r.1 a' buf r.2.1 r.2.2 w' := by
  simp only [Segment.writeAt, returns_bind, returns_timeNow]
  split_ifs with hskip
  · -- zeros are not written where there are only zeros
    obtain ⟨hzeros, hfile⟩ := hskip
    obtain ⟨hitem, rfl⟩ := h.unwritten hfile
    have hsame : overwrite 0 (zeros sp.segmentBytes) pos buf = zeros sp.segmentBytes := by
      refine overwrite_eq_self 0 (by simpa using hle) ?_
      rw [isZeros_iff_eq_zeros.mp hzeros, length_zeros, zeros, slice_replicate 0 hle, zeros]
    rw [returns_pure]
    exact ⟨_, ⟨le_rfl, by simp, by simp [hsame]⟩,
      ⟨h.id_eq, by simp, fun file' hf => by simp [hfile] at hf, fun _ => ⟨hitem, rfl⟩⟩,
      StoreParams.SameBut.refl _ _, le_rfl, .inl ⟨rfl, rfl⟩⟩
  · simp only [Segment.writeLoaded, Segment.loadFile]
    cases hfile : seg.localFile with
    | some file =>
      obtain ⟨rfl, hdata⟩ := h.opened file hfile
      rw [h.name_eq] at hdata ⊢
      have hdata₁ : { w with tick := w.tick + 1 }.files (sp.itemName (itoa i)) = some a := hdata
      simp only [returns_bind, returns_pure]
      refine (writeAt_ownFile hs h.length_eq hdata₁ hle).mono fun r w' h' => ?_
      obtain ⟨a', hmoved, hlen', hdata', hsame, hends⟩ := h'
      exact ⟨a', hmoved, .of_file h.id_eq rfl hlen' hdata', hsame, hends⟩
    | none =>
      obtain ⟨hitem, rfl⟩ := h.unwritten hfile
      simp only [hitem, if_true, returns_bind, returns_pure, h.id_eq]
      refine (createFile_ends hq hs _).mono fun r w₂ h₂ => ?_
      obtain ⟨hsame₂, ⟨rfl, hdata₂⟩ | ⟨e, rfl, hfault⟩⟩ := h₂
      · simp only [returns_bind, returns_pure]
        refine (writeAt_ownFile hs (length_zeros _) hdata₂ hle).mono fun r w' h' => ?_
        obtain ⟨a', hmoved, hlen', hdata', hsame, hends⟩ := h'
        exact ⟨a', hmoved, .of_file rfl rfl hlen' hdata',
          fun m hm he => (hsame m hm he).trans (hsame₂ m hm he), hends⟩
      · -- no file: the segment stays unwritten
        rw [returns_pure]
        exact ⟨_, ⟨Nat.zero_le _, by simp, by simp⟩,
          ⟨rfl, by simp, fun file' hf => by simp at hf, fun _ => ⟨rfl, rfl⟩⟩, hsame₂,
          Nat.zero_le _, .inr ⟨_, rfl, hfault.wrap _⟩⟩

/-- **Without a quota the segments are arrays**, whatever fails; and without faults nothing does. -/
lemma resident_io (hq : sp.quotaSema = none) (hs : sp.Sized) :
    SegmentIO sp (Resident sp) (¬ Reliable sp.env) where
  length_eq h := h.length_eq
  array_length {w segments arrays} h a ha := by
    obtain ⟨i, hi⟩ := List.mem_iff_getElem?.mp ha
    have hlt : i < segments.length := h.length_eq ▸ (List.getElem?_eq_some_iff.mp hi).1
    exact (h.resides (List.getElem?_eq_getElem hlt) hi).length_eq
  call {w segments arrays i seg a buf pos} readOp h hseg ha hbuf hle := by
    have hends : ∀ {n err}, Ends sp.env n buf.length err → (err = none → n = buf.length) ∧
        (err ≠ none → ¬ Reliable sp.env) ∧ ∀ e, err = some e → e.is errCapacityClaim ≠ true := by
      rintro n err ⟨-, ⟨rfl, rfl⟩ | ⟨e, rfl, hfault⟩⟩
      · simp
      · refine ⟨by simp, fun _ => hfault.not_reliable, ?_⟩
        intro e' he
        rw [← Option.some.inj he, hfault.not_capacity]
        simp
    have hres := h.resides hseg ha
    unfold segmentOp
    cases readOp with
    | true =>
      rw [if_pos rfl]
      refine (readAt_resides hres hle).mono fun r w' h' => ?_
      obtain ⟨hfull, hrel, hcap⟩ := hends h'.ends
      exact ⟨a, h'.moved, h.step h'.resides h'.files, hfull, hrel,
        fun e he hc => absurd hc (hcap e he)⟩
    | false =>
      rw [if_neg (by simp), returns_bind]
      refine (writeAt_resides hq hs hres hle).mono fun r w' h' => ?_
      obtain ⟨a', h'⟩ := h'
      obtain ⟨hfull, hrel, hcap⟩ := hends h'.ends
      rw [returns_pure]
      exact ⟨a', h'.moved, h.step h'.resides h'.files, hfull, hrel,
        fun e he hc => absurd hc (hcap e he)⟩

/-! ### Flushing -/

lemma prepare_files (file : File) (buffered : Bool) :
    Returns (sp.prepare file buffered) w fun _ w' => w'.files = w.files := by
  have hsync : Returns (file.sync sp.env) w fun _ w' => w'.files = w.files := by
    unfold File.sync
    split_ifs
    · exact (returns_pure _).mpr rfl
    · simp only [returns_bind, returns_syscall, returns_pure]
  rw [StoreParams.prepare, returns_bind]
  refine hsync.mono fun err w₁ h₁ => ?_
  cases err with
  | some e => exact (returns_pure _).mpr h₁
  | none =>
    simp only [returns_bind, returns_syscall, returns_get]
    cases buffered <;> cases sp.env.fault .snapshot w₁.tick <;> dsimp only <;>
      first | exact (returns_pure _).mpr h₁ | (split_ifs <;> exact (returns_pure _).mpr h₁)

lemma upload_files (segID : GoString) (src : Reader) :
    Returns (sp.upload segID src) w fun _ w' => w'.files = w.files := by
  simp only [StoreParams.upload, returns_bind, returns_syscall, returns_get]
  cases sp.env.fault .put w.tick with
  | some n => simp only [returns_bind, returns_modify, returns_pure]
  | none =>
    simp only [returns_bind, returns_modify]
    cases (sp.container.put (sp.itemName segID) src sp.segmentBytes .nil w.store).1 <;>
      exact (returns_pure _).mpr rfl

lemma finishSync_files (file : File) (item : Item σ) :
    Returns (sp.finishSync file item) w fun _ w' =>
      StoreParams.SameBut file.name w.files w'.files ∧
        w'.files file.name = w.files file.name := by
  unfold StoreParams.finishSync
  split_ifs
  · simp only [StoreParams.persistEtag, returns_bind, returns_get]
    cases item.etag w.store with
    | error e => exact (returns_pure _).mpr ⟨StoreParams.SameBut.refl _ _, rfl⟩
    | ok tag =>
      dsimp only
      split_ifs
      · exact (returns_pure _).mpr ⟨StoreParams.SameBut.refl _ _, rfl⟩
      · rw [returns_bind]
        refine (osWriteFile_spec tag).mono fun r w₁ h₁ => ?_
        obtain ⟨-, written, h₁⟩ := h₁
        rw [returns_pure, h₁.files, Function.update_of_ne (StoreParams.ne_eTagFileName file.name)]
        exact ⟨(StoreParams.SameBut.refl _ _).update_etag _, rfl⟩
  · exact (returns_pure _).mpr ⟨StoreParams.SameBut.refl _ _, rfl⟩

/-- Whatever becomes of an upload, the local file stays as it is, and so do the files of other
names. -/
lemma syncFile_files (file : File) (segID : GoString) (buffered : Bool) :
    Returns (sp.syncFile file segID buffered) w fun _ w' =>
      StoreParams.SameBut file.name w.files w'.files ∧
        w'.files file.name = w.files file.name := by
  have hsame : ∀ {w' : World σ}, w'.files = w.files →
      StoreParams.SameBut file.name w.files w'.files ∧ w'.files file.name = w.files file.name := by
    intro w' h
    rw [h]
    exact ⟨StoreParams.SameBut.refl _ _, rfl⟩
  rw [StoreParams.syncFile, returns_bind]
  refine (prepare_files file buffered).mono fun r w₁ h₁ => ?_
  cases r with
  | error e => exact (returns_pure _).mpr (hsame h₁)
  | ok src =>
    rw [returns_bind]
    refine (upload_files segID src).mono fun r w₂ h₂ => ?_
    rw [h₁] at h₂
    cases r with
    | error e => exact (returns_pure _).mpr (hsame h₂)
    | ok item =>
      rw [returns_bind]
      refine (finishSync_files file item).mono fun r w₃ h₃ => ?_
      rw [h₂] at h₃
      exact (returns_pure _).mpr h₃

lemma Flush_resides (h : Resides sp w i seg a) (buffered : Bool) :
    Returns (seg.Flush sp buffered) w fun r w' =>
      Resides sp w' i r.1 a ∧ StoreParams.SameBut (sp.itemName (itoa i)) w.files w'.files := by
  have hsame : Resides sp w i seg a ∧ StoreParams.SameBut (sp.itemName (itoa i)) w.files w.files :=
    ⟨h, StoreParams.SameBut.refl _ _⟩
  unfold Segment.Flush Segment.flush
  split_ifs
  · cases hfile : seg.localFile with
    | none => exact (returns_pure _).mpr hsame
    | some file =>
      obtain ⟨rfl, hdata⟩ := h.opened file hfile
      rw [h.name_eq] at hdata ⊢
      rw [returns_bind]
      refine (syncFile_files _ _ buffered).mono fun r w₁ h₁ => ?_
      obtain ⟨hfiles, hkept⟩ := h₁
      rw [returns_pure]
      exact ⟨.of_file h.id_eq rfl h.length_eq (hkept.trans hdata), hfiles⟩
  · exact (returns_pure _).mpr hsame

lemma flushLoop_resident {order : List ℕ} {err : Option GoError} (h : Resident sp w segments arrays)
    (horder : ∀ i ∈ order, i < segments.length) :
    Returns (ObjDevice.flushLoop sp order segments err) w fun r w' =>
      Resident sp w' r.1 arrays ∧ r.1.length = segments.length := by
  induction order generalizing w segments err with
  | nil => exact (returns_pure _).mpr ⟨h, rfl⟩
  | cons i order ih =>
    have hi := horder i (by simp)
    obtain ⟨seg, hseg⟩ : ∃ seg, segments[i]? = some seg := ⟨_, List.getElem?_eq_getElem hi⟩
    obtain ⟨a, ha⟩ : ∃ a, arrays[i]? = some a :=
      ⟨_, List.getElem?_eq_getElem (by rw [h.length_eq]; exact hi)⟩
    simp only [ObjDevice.flushLoop, hseg, returns_bind, returns_get]
    refine (Flush_resides (h.resides hseg ha) _).mono fun r w₁ h₁ => ?_
    have hnext := h.step h₁.1 h₁.2
    rw [set_eq_self ha] at hnext
    refine (ih hnext fun j hj => ?_).mono fun r' w₂ h₂ => ?_
    · rw [List.length_set]
      exact horder j (by simp [hj])
    · exact ⟨h₂.1, h₂.2.trans List.length_set⟩

lemma Flush_resident {dev : ObjDevice σ} (h : Resident dev.params w dev.segments arrays) :
    Returns dev.Flush w fun r w' => ∃ segments, r.1 = { dev with segments } ∧
      segments.length = dev.segments.length ∧ Resident dev.params w' segments arrays := by
  unfold ObjDevice.Flush
  split_ifs
  · exact (returns_pure _).mpr ⟨dev.segments, rfl, rfl, h⟩
  · simp only [ObjDevice.flush, returns_bind, returns_get, returns_pure]
    refine (flushLoop_resident h fun i hi => ?_).mono fun r w' h' => ?_
    · exact dev.lt_of_mem_flushOrder w.tick hi
    · exact ⟨r.1, rfl, h'.2, h'.1⟩

end Resident

end Usbd
