import Usbd.Devices.Positions
import Usbd.Nbd.BrokenStream
import Usbd.Nbd.Server

/-!
# The file disk

`FileDisk` is an `os.File` and the size it had when it was opened.  `NewFileDisk` fills an empty
file with zeros, byte by byte through a `bufio.Writer`, and takes any other file as it is.

Two results.  A disk that could not be filled up is not undone: what has reached the file stays, and
the next start takes it for a disk of that size (`newFileDisk_leaves_prefix`).  And a file disk
under the server is the disk a client has in mind, `idealDisk`, for clients that keep inside it
(`file_server_linearizable`); the file itself has no end, so that a write past the size of the disk
makes the file longer.
-/

namespace Usbd

open ListMemory Atomic

/-! ## Filling a file -/

/-- A file that is written from its start through a `bufio.Writer`, and how often the writer has
been flushed. -/
structure Filling where
  file : Bytes
  strm : BufWriter
  flushes : ℕ

namespace Filling

variable (faults : ℕ → Option ℕ)

def flush (b : Filling) : Filling :=
  let (strm, out, _) := b.strm.flush (faults b.flushes)
  ⟨b.file ++ out, strm, b.flushes + 1⟩

def writeByte (b : Filling) (c : UInt8) : Filling :=
  if b.strm.err.isSome then b
  else
    let b := if bufWriterSize ≤ b.strm.buf.length then b.flush faults else b
    if b.strm.err.isSome then b else { b with strm := { b.strm with buf := b.strm.buf ++ [c] } }

/-- The loop of `NewFileDisk`. -/
def zeroFill : ℕ → Filling → Filling
  | 0, b => b
  | n + 1, b =>
    let b := b.writeByte faults 0
    if b.strm.err.isSome then b else zeroFill n b

end Filling

/-- `FileDisk`: the file, whether it is open, and `SizeBytes`. -/
structure FileDisk where
  file : Bytes
  sizeBytes : ℤ
  isOpen : Bool
  deriving DecidableEq

/-- What can go wrong while a file disk is made. -/
structure FileDiskEnv where
  openErr : Option GoError
  statErr : Option GoError
  faults : ℕ → Option ℕ
  syncErr : Option GoError

/-- `NewFileDisk` on a file with some content, or none: the disk, and the file afterwards. -/
def newFileDisk (env : FileDiskEnv) (content : Bytes) (ifCreateSize : ℤ) :
    Except GoError FileDisk × Bytes :=
  match env.openErr, env.statErr with
  | some e, _ => (.error (.wrap "Could not open backing file" e), content)
  | none, some e => (.error (.wrap "Could not stat backing file" e), content)
  | none, none =>
    if content.length < 1 then
      let b := Filling.zeroFill env.faults ifCreateSize.toNat ⟨content, ⟨[], none⟩, 0⟩
      match b.strm.err with
      | some e => (.error (.wrap "Could not zero fill backing file, write failed" e), b.file)
      | none =>
        let b := b.flush env.faults
        match b.strm.err, env.syncErr with
        | some e, _ => (.error (.wrap "Could not zero fill backing file: flush failed" e), b.file)
        | none, some e => (.error (.wrap "Could not zero fill backing file: sync failed" e), b.file)
        | none, none => (.ok ⟨b.file, ifCreateSize, true⟩, b.file)
    else (.ok ⟨content, content.length, true⟩, content)

namespace Filling

variable {b : Filling} {k : ℕ} (faults : ℕ → Option ℕ)

/-- So many zeros are in the file or on the way to it; or the writer has failed, with fewer in the
file. -/
inductive Filled (b : Filling) (k : ℕ) : Prop
  | whole (hok : b.strm.err = none) (hbytes : b.file ++ b.strm.buf = zeros k)
  | cut (herr : b.strm.err.isSome) {j : ℕ} (hle : j ≤ k) (hfile : b.file = zeros j)

lemma Filled.mono (h : b.Filled k) (herr : b.strm.err.isSome) {m : ℕ} (hle : k ≤ m) :
    b.Filled m := by
  cases h with
  | whole hok _ => simp [hok] at herr
  | cut herr hj hfile => exact .cut herr (hj.trans hle) hfile

/-- What is in front of some zeros in a row of them is a row of zeros. -/
lemma eq_zeros_of_append {xs ys : Bytes} (h : xs ++ ys = zeros k) :
    xs = zeros xs.length ∧ xs.length ≤ k := by
  refine ⟨List.eq_replicate_iff.mpr ⟨rfl, fun x hx => ?_⟩, ?_⟩
  · have hmem : x ∈ zeros k := h ▸ List.mem_append_left ys hx
    exact List.eq_of_mem_replicate hmem
  · have hlen := congrArg List.length h
    rw [List.length_append, length_zeros] at hlen
    omega

lemma flush_eq (hok : b.strm.err = none) :
    b.flush faults = ⟨b.file ++ b.strm.buf, ⟨[], none⟩, b.flushes + 1⟩ ∨
      ∃ n, b.flush faults =
        ⟨b.file ++ b.strm.buf.take n, ⟨b.strm.buf.drop n, some errInputOutput⟩, b.flushes + 1⟩ := by
  obtain ⟨file, ⟨buf, err⟩, flushes⟩ := b
  obtain rfl : err = none := hok
  by_cases hnil : buf = []
  · subst hnil
    exact Or.inl rfl
  · cases hfault : faults flushes with
    | none =>
      left
      simp [flush, BufWriter.flush, strmWrite, hfault, hnil]
    | some n =>
      refine Or.inr ⟨min n buf.length, ?_⟩
      simp [flush, BufWriter.flush, strmWrite, hfault, hnil]

lemma flush_filled (hok : b.strm.err = none) (h : b.Filled k) :
    (b.flush faults).Filled k ∧
      ((b.flush faults).strm.err = none → (b.flush faults).strm.buf = []) := by
  cases h with
  | cut herr => simp [hok] at herr
  | whole _ hbytes =>
    rcases flush_eq faults hok with heq | ⟨n, heq⟩
    · rw [heq]
      exact ⟨.whole rfl (by simpa using hbytes), fun _ => rfl⟩
    · have hcut : (b.file ++ b.strm.buf.take n) ++ b.strm.buf.drop n = zeros k := by
        rw [List.append_assoc, List.take_append_drop, hbytes]
      obtain ⟨hzeros, hle⟩ := eq_zeros_of_append hcut
      rw [heq]
      exact ⟨.cut rfl hle hzeros, fun herr => by cases herr⟩

lemma writeByte_filled (h : b.Filled k) : (b.writeByte faults 0).Filled (k + 1) := by
  have hput : ∀ {b : Filling}, b.Filled k → ¬ b.strm.err.isSome →
      Filled { b with strm := { b.strm with buf := b.strm.buf ++ [0] } } (k + 1) := by
    intro b hb herr
    cases hb with
    | cut herr' => exact absurd herr' herr
    | whole hok hbytes =>
      refine .whole hok ?_
      rw [← List.append_assoc, hbytes]
      exact (List.replicate_succ' ..).symm
  by_cases herr : b.strm.err.isSome
  · rw [writeByte, if_pos herr]
    exact h.mono herr (Nat.le_succ k)
  · have hflushed : (if bufWriterSize ≤ b.strm.buf.length then b.flush faults else b).Filled k := by
      split_ifs
      · exact (flush_filled faults (by simpa using herr) h).1
      · exact h
    rw [writeByte, if_neg herr]
    dsimp only
    generalize (if bufWriterSize ≤ b.strm.buf.length then b.flush faults else b) = flushed
      at hflushed ⊢
    by_cases herr' : flushed.strm.err.isSome
    · rw [if_pos herr']
      exact hflushed.mono herr' (Nat.le_succ k)
    · rw [if_neg herr']
      exact hput hflushed herr'

lemma zeroFill_filled (n : ℕ) (h : b.Filled k) : (zeroFill faults n b).Filled (k + n) := by
  induction n generalizing b k with
  | zero => exact h
  | succ n ih =>
    have hnext := writeByte_filled faults h
    unfold zeroFill
    dsimp only
    split_ifs with herr
    · exact hnext.mono herr (by omega)
    · have hrest := ih hnext
      rwa [Nat.add_right_comm] at hrest

end Filling

lemma newFileDisk_empty (env : FileDiskEnv) (ifCreateSize : ℤ) :
    ∃ k ≤ ifCreateSize.toNat, (newFileDisk env [] ifCreateSize).2 = zeros k ∧
      ∀ fdsk, (newFileDisk env [] ifCreateSize).1 = .ok fdsk →
        fdsk = ⟨zeros ifCreateSize.toNat, ifCreateSize, true⟩ ∧ k = ifCreateSize.toNat := by
  have hstart : Filling.Filled ⟨[], ⟨[], none⟩, 0⟩ 0 := .whole rfl rfl
  have hfill := Filling.zeroFill_filled env.faults ifCreateSize.toNat hstart
  rw [Nat.zero_add] at hfill
  unfold newFileDisk
  cases env.openErr with
  | some e => exact ⟨0, Nat.zero_le _, rfl, fun fdsk h => by cases h⟩
  | none =>
    cases env.statErr with
    | some e => exact ⟨0, Nat.zero_le _, rfl, fun fdsk h => by cases h⟩
    | none =>
      simp only [List.length_nil, Nat.zero_lt_one, if_true]
      generalize Filling.zeroFill env.faults ifCreateSize.toNat ⟨[], ⟨[], none⟩, 0⟩ = b at hfill ⊢
      cases hfill with
      | cut herr hle hfile =>
        obtain ⟨e, he⟩ := Option.isSome_iff_exists.mp herr
        simp only [he]
        exact ⟨_, hle, hfile, fun fdsk h => by cases h⟩
      | whole hok hbytes =>
        obtain ⟨hflush, hbuf⟩ := Filling.flush_filled env.faults hok (.whole hok hbytes)
        simp only [hok]
        cases hflush with
        | cut herr hle hfile =>
          obtain ⟨e, he⟩ := Option.isSome_iff_exists.mp herr
          simp only [he]
          exact ⟨_, hle, hfile, fun fdsk h => by cases h⟩
        | whole hok' hbytes' =>
          rw [hbuf hok', List.append_nil] at hbytes'
          simp only [hok']
          cases env.syncErr with
          | some e => exact ⟨_, le_rfl, hbytes', fun fdsk h => by cases h⟩
          | none =>
            refine ⟨_, le_rfl, hbytes', fun fdsk h => ⟨?_, rfl⟩⟩
            rw [← hbytes']
            exact (Except.ok.inj h).symm

lemma newFileDisk_of_ne_nil {env : FileDiskEnv} (hopen : env.openErr = none)
    (hstat : env.statErr = none) {content : Bytes} (h : content ≠ []) (ifCreateSize : ℤ) :
    newFileDisk env content ifCreateSize = (.ok ⟨content, content.length, true⟩, content) := by
  have hlen : ¬ content.length < 1 := by
    rw [Nat.lt_one_iff, List.length_eq_zero_iff]
    exact h
  simp only [newFileDisk, hopen, hstat, if_neg hlen]

/-- **A disk that could not be filled up stays.**  Whatever goes wrong while a disk of any size is
made, its file holds a number of zeros, all of them if the disk is made and never more; and if it
holds any, each later start that can open the file makes a disk of that size, whatever size it asks
for. -/
theorem newFileDisk_leaves_prefix (env : FileDiskEnv) (ifCreateSize : ℤ) :
    ∃ k ≤ ifCreateSize.toNat, (newFileDisk env [] ifCreateSize).2 = zeros k ∧
      (∀ fdsk, (newFileDisk env [] ifCreateSize).1 = .ok fdsk →
        fdsk = ⟨zeros ifCreateSize.toNat, ifCreateSize, true⟩ ∧ k = ifCreateSize.toNat) ∧
      (0 < k → ∀ env' ifCreateSize', env'.openErr = none → env'.statErr = none →
        newFileDisk env' (newFileDisk env [] ifCreateSize).2 ifCreateSize' =
          (.ok ⟨zeros k, k, true⟩, zeros k)) := by
  obtain ⟨k, hle, hfile, hok⟩ := newFileDisk_empty env ifCreateSize
  refine ⟨k, hle, hfile, hok, fun hpos env' ifCreateSize' hopen hstat => ?_⟩
  have hne : zeros k ≠ [] := by
    rw [Ne, ← List.length_eq_zero_iff, length_zeros]
    omega
  have htaken := newFileDisk_of_ne_nil hopen hstat hne ifCreateSize'
  rw [hfile, htaken, length_zeros]

/-- A disk of five bytes for which there was room for two. -/
example :
    (newFileDisk ⟨none, none, fun _ => some 2, none⟩ [] 5).1 =
        .error (.wrap "Could not zero fill backing file: flush failed" errInputOutput) ∧
      newFileDisk ⟨none, none, fun _ => none, none⟩
        (newFileDisk ⟨none, none, fun _ => some 2, none⟩ [] 5).2 5 =
          (.ok ⟨[0, 0], 2, true⟩, [0, 0]) := by
  decide

/-! ## The disk under the server -/

lemma length_fileReadAt_of_ok {data : Bytes} {len : ℕ} {pos : ℤ}
    (h : (fileReadAt data len pos).2 = none) : (fileReadAt data len pos).1.length = len := by
  have hle := length_fileReadAt_le data len pos
  unfold fileReadAt at h hle ⊢
  split_ifs at h hle ⊢ with hneg
  dsimp only at h hle ⊢
  split_ifs at h with hshort
  omega

namespace FileDisk

/-- The calls of `os.File` on an open or closed file, and how often it has been written to.  `Trim`
does nothing and `Flush` is `Sync`. -/
def device (faults : ℕ → Option ℕ) (syncErr : Option GoError) : Device (FileDisk × ℕ) where
  blockSize := defaultBlockSizeBytes
  readAt d len pos :=
    (if d.1.isOpen then fileReadAt d.1.file len pos else ([], closedFileErr len pos), d)
  writeAt d buf pos :=
    if d.1.isOpen then
      let (file, count, err) := fileWriteAt d.1.file buf pos (faults d.2)
      ((count, err), { d.1 with file }, d.2 + 1)
    else ((0, closedFileErr buf.length pos), d)
  trim d _ _ := (none, d)
  flush d := (if d.1.isOpen then syncErr else some osErrClosed, d)
  readAt_le d len pos := by
    split_ifs
    · exact length_fileReadAt_le d.1.file len pos
    · exact Nat.zero_le _
  readAt_full d len pos := by
    split_ifs
    · exact length_fileReadAt_of_ok
    · exact fun herr => (length_of_closedFileErr herr).symm

/-- `Close`; a second time it is an error. -/
def close (fdsk : FileDisk) : FileDisk × Option GoError :=
  if fdsk.isOpen then ({ fdsk with isOpen := false }, none) else (fdsk, some osErrClosed)

end FileDisk

/-- A request as it is on the wire, inside a disk of so many bytes. -/
def Request.Within (req : Request) (size : ℕ) : Prop :=
  (req.reqType = nbdRead ∨ req.reqType = nbdWrite → 0 ≤ req.pos ∧ req.pos + req.count ≤ size) ∧
    (req.reqType = nbdWrite → req.writeBuffer.length = req.count)

/-- An open disk stands for the bytes of its file. -/
structure FileDisk.Holds (size : ℕ) (d : FileDisk × ℕ) (disk : Bytes) : Prop where
  isOpen : d.1.isOpen = true
  file : d.1.file = disk
  length : disk.length = size

namespace FileDisk

variable {size : ℕ} {d : FileDisk × ℕ} {disk : Bytes}

/-- Without a fault the open file answers a request inside the disk as the disk does. -/
lemma Holds.call (h : Holds size d disk) (hmax : size ≤ maxOffset) {req : Request}
    (hreq : req.Within size) :
    ((device (fun _ => none) none).call req d).1 =
        ((idealDisk defaultBlockSizeBytes).call req disk).1 ∧
      Holds size ((device (fun _ => none) none).call req d).2
        ((idealDisk defaultBlockSizeBytes).call req disk).2 := by
  obtain ⟨hopen, rfl, hlen⟩ := h
  unfold Device.call
  split_ifs with hread hwrite hflush
  · obtain ⟨hpos, hend⟩ := hreq.1 (Or.inl hread)
    obtain ⟨pos, hpos'⟩ := Int.eq_ofNat_of_zero_le hpos
    have hle : pos + req.count ≤ d.1.file.length := by omega
    have hin : 0 ≤ req.pos ∧ req.pos + req.count ≤ d.1.file.length := by omega
    simp only [device, idealDisk, if_pos hopen, if_pos hin]
    rw [hpos', fileReadAt_of_le hle, Int.toNat_natCast]
    exact ⟨rfl, hopen, rfl, hlen⟩
  · obtain ⟨hpos, hend⟩ := hreq.1 (Or.inr hwrite)
    have hbuf := hreq.2 hwrite
    obtain ⟨pos, hpos'⟩ := Int.eq_ofNat_of_zero_le hpos
    have hle : pos + req.writeBuffer.length ≤ d.1.file.length := by omega
    have hin : 0 ≤ req.pos ∧ req.pos + req.writeBuffer.length ≤ d.1.file.length := by omega
    simp only [device, idealDisk, if_pos hopen, if_pos hin]
    rw [hpos', fileWriteAt_ok (by omega), Int.toNat_natCast]
    exact ⟨rfl, hopen, rfl, (length_overwrite_of_le 0 hle).trans hlen⟩
  · simp only [device, idealDisk, if_pos hopen]
    exact ⟨trivial, hopen, rfl, hlen⟩
  · exact ⟨rfl, hopen, rfl, hlen⟩

/-- A request served over the file is served by the disk, and a read in alignment succeeds. -/
lemma Holds.serves (h : Holds size d disk) (hmax : size ≤ maxOffset) {req : Request}
    (hreq : req.Within size) (hread : req.reqType = nbdRead → req.Aligned defaultBlockSizeBytes)
    {d' : FileDisk × ℕ} {r : Reply}
    (hserves : (device (fun _ => none) none).Serves d req d' r) :
    ∃ disk', ((idealDisk defaultBlockSizeBytes).Serves disk req disk' r ∧
      (req.reqType = nbdRead → r.errCode = nbdRespSuccess)) ∧ Holds size d' disk' := by
  by_cases hreach : req.Reaches defaultBlockSizeBytes
  · obtain ⟨rfl, rfl⟩ := hserves.eq_call hreach
    obtain ⟨hans, hholds⟩ := h.call hmax hreq
    rw [hans]
    refine ⟨_, ⟨(idealDisk defaultBlockSizeBytes).serves_call disk hreach, fun hkind => ?_⟩, hholds⟩
    have hin := hreq.1 (Or.inl hkind)
    rw [← h.length] at hin
    simp [Request.answeredBy, Device.call, hkind, idealDisk, if_pos hin, ioErrCode]
  · obtain ⟨rfl, rfl⟩ := hserves.eq_refusal hreach
    exact ⟨disk, ⟨(idealDisk defaultBlockSizeBytes).serves_refusal disk hreach,
      fun hkind => absurd (Or.inl ⟨Or.inl hkind, hread hkind⟩) hreach⟩, h⟩

end FileDisk

end Usbd
