import Usbd.Objstore.StoreParams

/-!
# What the local-file calls do

One specification for each call of `storeParams`, in an environment in which the calls that load,
read and write local files do not fail (`Reliable`).  The calls of an upload — the fsync, the
snapshot, the put and the writing of the ETag file — may fail, unless the environment is
`Faultless`.  The specifications speak of the parts of the world a proof looks at, the cache
directory, the container and the permits; the count of calls and the table of handles are left
free.

The download is the one place where the kind of provisioning shows.  A thick-provisioned file is a
copy of its object.  `sparseCopy` adds a zero byte behind an object that does not end in one
(`sparseCopy_eq`).
-/

namespace Usbd

open ListMemory Prog

variable {σ : Type}

/-- The calls an upload makes. -/
def OsCall.ofUpload : OsCall → Bool
  | .sync | .snapshot | .put | .writeFile => true
  | _ => false

/-- No call fails, except perhaps those of an upload. -/
def Reliable (env : Env) : Prop := ∀ call t, call.ofUpload = false → env.fault call t = none

/-- No call fails. -/
def Faultless (env : Env) : Prop := ∀ call t, env.fault call t = none

/-- No faults, and a clock that counts the calls. -/
def quietEnv : Env where
  fault _ _ := none
  now t := t + 1
  buffer _ := false
  flushOrder _ l := l
  flushOrder_perm _ _ := List.Perm.refl _

lemma faultless_quietEnv : Faultless quietEnv := fun _ _ => rfl

lemma Faultless.reliable {env : Env} (h : Faultless env) : Reliable env := fun call t _ => h call t

/-- After `w` only the cache directory has changed, to `files`. -/
structure Leaves (w : World σ) (files : GoString → Option Bytes) (w' : World σ) : Prop where
  files : w'.files = files
  store : w'.store = w.store
  held : w'.held = w.held

/-! ## Sparse copies -/

namespace SparseCopy

variable {s : SparseCopy}

@[simp] lemma write_file (bs : Bytes) : (s.write bs).file = overwrite 0 s.file s.off bs := by
  unfold SparseCopy.write
  split_ifs <;> rfl

@[simp] lemma write_off (bs : Bytes) : (s.write bs).off = s.off + bs.length := by
  unfold SparseCopy.write
  split_ifs <;> rfl

@[simp] lemma write_pendZeros (bs : Bytes) : (s.write bs).pendZeros = s.pendZeros := by
  unfold SparseCopy.write
  split_ifs <;> rfl

@[simp] lemma write_n (bs : Bytes) : (s.write bs).n = s.n := by
  unfold SparseCopy.write
  split_ifs <;> rfl

/-- What has been written and what is held back are the source so far. -/
structure Upto (data : Bytes) (s : SparseCopy) : Prop where
  data_eq : data = s.file ++ zeros s.pendZeros
  off_eq : s.off = s.file.length
  n_eq : s.n = s.file.length

/-- The zeros held back, as a gap or written, and the byte behind them. -/
lemma Upto.byte {data : Bytes} (h : Upto data s) (cur : UInt8) :
    Upto (data ++ [cur]) (s.byte cur) := by
  rw [SparseCopy.byte]
  by_cases hz : cur = 0
  · rw [if_pos hz]
    refine ⟨?_, h.off_eq, h.n_eq⟩
    simp [h.data_eq, hz, zeros, List.replicate_succ']
  rw [if_neg hz]
  generalize hs₁ : (if s.pendZeros > 0 then
      if s.pendZeros ≥ minSeqSparseZeros then
        { s with off := s.off + s.pendZeros, n := s.n + s.pendZeros, pendZeros := 0,
                 flushed := s.file, buffered := 0 }
      else { s.write (zeros s.pendZeros) with n := s.n + s.pendZeros, pendZeros := 0 }
    else s) = s₁
  obtain ⟨hfile, hoff, hn, hp⟩ : overwrite 0 s₁.file s₁.off [cur] = data ++ [cur] ∧
      s₁.off = data.length ∧ s₁.n = data.length ∧ s₁.pendZeros = 0 := by
    have hlen : data.length = s.file.length + s.pendZeros := by simp [h.data_eq]
    split_ifs at hs₁ with hpos hmin <;> subst hs₁
    · refine ⟨?_, by simp [h.off_eq, hlen], by simp [h.n_eq, hlen], rfl⟩
      simp only [h.off_eq]
      rw [overwrite_length_add _ _ _ (by simp), h.data_eq]
      rfl
    · have hne : zeros s.pendZeros ≠ [] := by
        rw [← List.length_pos_iff_ne_nil, length_zeros]
        exact hpos
      have hzs : overwrite 0 s.file s.file.length (zeros s.pendZeros) = data := by
        rw [h.data_eq]
        simpa using overwrite_length_add 0 s.file 0 hne
      refine ⟨?_, by simp [h.off_eq, hlen], by simp [h.n_eq, hlen], rfl⟩
      simp only [write_file, write_off, h.off_eq, hzs, length_zeros, ← hlen]
      simpa using overwrite_length_add 0 data 0 (List.cons_ne_nil cur [])
    · have h0 : s.pendZeros = 0 := by omega
      have hdata : data = s.file := by simp [h.data_eq, h0, zeros]
      refine ⟨?_, by simp [h.off_eq, hdata], by simp [h.n_eq, hdata], h0⟩
      rw [h.off_eq, ← hdata]
      simpa using overwrite_length_add 0 data 0 (List.cons_ne_nil cur [])
  rw [hoff] at hfile
  refine ⟨?_, ?_, ?_⟩ <;> simp [hfile, hoff, hn, hp, zeros]

lemma upto_foldl (data : Bytes) : Upto data (data.foldl SparseCopy.byte .start) := by
  induction data using List.reverseRecOn with
  | nil => exact ⟨rfl, rfl, rfl⟩
  | append_singleton data cur ih =>
    rw [List.foldl_append]
    exact ih.byte cur

/-- The last byte of the copy is a zero: the last of those held back, or one too many. -/
lemma Upto.finish {data : Bytes} (h : Upto data s) :
    s.finish.n = data.length ∧
      s.finish.file = if s.pendZeros = 0 then data ++ [0] else data := by
  have hlen : data.length = s.file.length + s.pendZeros := by simp [h.data_eq]
  refine ⟨by simp [SparseCopy.finish, h.n_eq, hlen], ?_⟩
  have hfile : s.finish.file = s.file ++ zeros (s.pendZeros - 1) ++ [0] := by
    simp only [SparseCopy.finish]
    split_ifs with hp
    · simp only [write_file, h.off_eq]
      exact overwrite_length_add 0 s.file _ (List.cons_ne_nil 0 [])
    · have h0 : s.pendZeros - 1 = 0 := by omega
      simp only [write_file, h.off_eq, h0]
      exact overwrite_length_add 0 s.file 0 (List.cons_ne_nil 0 [])
  rw [hfile, h.data_eq]
  split_ifs with h0
  · simp [h0, zeros]
  · rw [List.append_assoc, zeros, ← List.replicate_succ', Nat.sub_add_cancel (by omega), zeros]

end SparseCopy

/-- Zeros are held back at the end of a stream that ends in one. -/
lemma SparseCopy.pendZeros_eq_zero_iff (data : Bytes) :
    (data.foldl SparseCopy.byte .start).pendZeros = 0 ↔ data.getLast? ≠ some 0 := by
  induction data using List.reverseRecOn with
  | nil => simp [SparseCopy.start]
  | append_singleton data cur ih =>
    rw [List.foldl_append, List.getLast?_concat]
    by_cases hz : cur = 0
    · simp [SparseCopy.byte, hz]
    · -- a byte behind held-back zeros lets them go
      simp only [List.foldl_cons, List.foldl_nil, SparseCopy.byte, if_neg hz,
        SparseCopy.write_pendZeros]
      split_ifs <;> simp [hz]
      omega

/-- A sparse copy of a stream is a copy of it, with a zero byte more if it does not end in one. -/
lemma sparseCopy_eq (data : Bytes) : sparseCopy ⟨data, none⟩ =
    (if data.getLast? = some 0 then data else data ++ [0], data.length, none) := by
  obtain ⟨hn, hfile⟩ := (SparseCopy.upto_foldl data).finish
  simp only [sparseCopy, hn, hfile, SparseCopy.pendZeros_eq_zero_iff, ne_eq, ite_not]

/-! ## The calls of the operating system -/

section Calls

variable {env : Env} {w : World σ} {name : GoString} {file : File}

lemma leaves_tick {files : GoString → Option Bytes} (opens : List GoString) (tick : ℕ) :
    Leaves w files { w with files, openFiles := opens, tick } :=
  ⟨rfl, rfl, rfl⟩

lemma Leaves.trans {files files' : GoString → Option Bytes} {w' w'' : World σ}
    (h : Leaves w files w') (h' : Leaves w' files' w'') : Leaves w files' w'' :=
  ⟨h'.files, h'.store.trans h.store, h'.held.trans h.held⟩

lemma Leaves.trans_files {w' w'' : World σ} (h : Leaves w w.files w')
    (h' : Leaves w' w'.files w'') : Leaves w w.files w'' := by
  have hboth := h.trans h'
  rwa [h.files] at hboth

lemma osStat_spec (hr : Reliable env) : Returns (osStat env name) w fun r w' =>
    r = (w.files name).map List.length ∧ Leaves w w.files w' := by
  have hf := fun t => hr .stat t (by decide)
  simp only [osStat, returns_bind, returns_syscall, hf, returns_get, if_true, returns_pure]
  exact ⟨trivial, leaves_tick _ _⟩

lemma osCreate_spec (hr : Reliable env) : Returns (osCreate env name) w fun r w' =>
    r = .ok ⟨name, false⟩ ∧ Leaves w (Function.update w.files name (some [])) w' := by
  have hf := fun t => hr .create t (by decide)
  simp only [osCreate, returns_bind, returns_syscall, hf, if_true, returns_setFile, returns_modify,
    returns_pure]
  exact ⟨trivial, leaves_tick _ _⟩

lemma osOpenFile_spec (hr : Reliable env) {data : Bytes} (h : w.files name = some data) :
    Returns (osOpenFile env name) w fun r w' => r = .ok ⟨name, false⟩ ∧ Leaves w w.files w' := by
  have hf := fun t => hr .openFile t (by decide)
  simp only [osOpenFile, returns_bind, returns_syscall, hf, returns_get, if_true, h, returns_modify,
    returns_pure]
  exact ⟨trivial, leaves_tick _ _⟩

lemma osReadFile_spec (hr : Reliable env) {data : Bytes} (h : w.files name = some data) :
    Returns (osReadFile env name) w fun r w' => r = .ok data ∧ Leaves w w.files w' := by
  have hf := fun t => hr .readFile t (by decide)
  simp only [osReadFile, returns_bind, returns_syscall, hf, returns_get, if_true, h, returns_pure]
  exact ⟨trivial, leaves_tick _ _⟩

lemma osRemove_spec (hr : Reliable env) {data : Bytes} (h : w.files name = some data) :
    Returns (osRemove env name) w fun r w' =>
      r = none ∧ Leaves w (Function.update w.files name none) w' := by
  have hf := fun t => hr .remove t (by decide)
  simp only [osRemove, returns_bind, returns_syscall, hf, returns_get, if_true, h, returns_setFile,
    returns_pure]
  exact ⟨trivial, leaves_tick _ _⟩

lemma osRemove_of_none (hr : Reliable env) (h : w.files name = none) :
    Returns (osRemove env name) w fun r w' =>
      r = some osErrNotExist ∧ Leaves w w.files w' := by
  have hf := fun t => hr .remove t (by decide)
  simp only [osRemove, returns_bind, returns_syscall, hf, returns_get, if_true, h, returns_pure]
  exact ⟨trivial, leaves_tick _ _⟩

/-- Writing an ETag file touches that file only, and reports a failure of the call. -/
lemma osWriteFile_spec (data : Bytes) : Returns (osWriteFile env name data) w fun r w' =>
    (env.fault .writeFile w.tick = none → r = none) ∧
      ∃ written, Leaves w (Function.update w.files name (some written)) w' := by
  simp only [osWriteFile, returns_bind, returns_syscall]
  cases env.fault .writeFile w.tick with
  | none =>
    simp only [returns_bind, returns_setFile, returns_pure]
    exact ⟨fun _ => trivial, data, leaves_tick _ _⟩
  | some n =>
    simp only [returns_bind, returns_setFile, returns_pure]
    exact ⟨fun h => absurd h (by simp), data.take n, leaves_tick _ _⟩

lemma close_spec (hr : Reliable env) (hopen : file.closed = false) :
    Returns (file.close env) w fun r w' =>
      r = ({ file with closed := true }, none) ∧ Leaves w w.files w' := by
  have hf := fun t => hr .close t (by decide)
  simp only [File.close, hopen, Bool.false_eq_true, if_false, returns_bind, returns_syscall, hf,
    returns_modify, if_true, returns_pure]
  exact ⟨trivial, leaves_tick _ _⟩

lemma sync_spec (hopen : file.closed = false) :
    Returns (file.sync env) w fun r w' => (Faultless env → r = none) ∧ Leaves w w.files w' := by
  simp only [File.sync, hopen, Bool.false_eq_true, if_false, returns_bind, returns_syscall,
    returns_pure]
  exact ⟨fun hf => by simp [hf .sync _], leaves_tick _ _⟩

lemma readAt_spec (hr : Reliable env) (hopen : file.closed = false) {data : Bytes}
    (h : w.files file.name = some data) {pos len : ℕ} (hle : pos + len ≤ data.length) :
    Returns (file.readAt env len pos) w fun r w' =>
      r = (slice data pos len, none) ∧ Leaves w w.files w' := by
  have hf := fun t => hr .readAt t (by decide)
  simp only [File.readAt, hopen, Bool.false_eq_true, if_false, returns_bind, returns_syscall, hf,
    returns_get, returns_pure, File.bytes, h, Option.getD_some, fileReadAt_of_le hle]
  exact ⟨trivial, leaves_tick _ _⟩

lemma writeAt_spec (hr : Reliable env) {call : OsCall} (hcall : call.ofUpload = false)
    (hopen : file.closed = false) {data : Bytes} (h : w.files file.name = some data) {pos : ℕ}
    {buf : Bytes} (hle : pos + buf.length ≤ maxOffset) :
    Returns (file.writeAt env buf pos call) w fun r w' =>
      r = (buf.length, none) ∧
        Leaves w (Function.update w.files file.name (some (overwrite 0 data pos buf))) w' := by
  have hf := fun t => hr call t hcall
  simp only [File.writeAt, hopen, Bool.false_eq_true, if_false, returns_bind, returns_syscall, hf,
    returns_get, returns_setFile, returns_pure, File.bytes, h, Option.getD_some,
    fileWriteAt_ok hle]
  exact ⟨trivial, leaves_tick _ _⟩

/-! ### In any environment -/

lemma osStat_faulty : Returns (osStat env name) w fun r w' =>
    (∀ size, r = some size → ∃ d, w.files name = some d ∧ d.length = size) ∧
      Leaves w w.files w' := by
  simp only [osStat, returns_bind, returns_syscall, returns_get, returns_pure]
  refine ⟨fun size hsize => ?_, leaves_tick _ _⟩
  split_ifs at hsize
  exact Option.map_eq_some_iff.mp hsize

lemma osReadFile_faulty : Returns (osReadFile env name) w fun r w' =>
    (∀ data, r = .ok data → w.files name = some data) ∧ Leaves w w.files w' := by
  simp only [osReadFile, returns_bind, returns_syscall, returns_get]
  split_ifs
  · cases hfile : w.files name with
    | none => exact (returns_pure _).mpr ⟨by simp, leaves_tick _ _⟩
    | some d =>
      refine (returns_pure _).mpr ⟨fun _ h => ?_, leaves_tick _ _⟩
      rw [Except.ok.inj h]
  · exact (returns_pure _).mpr ⟨by simp, leaves_tick _ _⟩

lemma osOpenFile_faulty : Returns (osOpenFile env name) w fun r w' =>
    (∀ file, r = .ok file → file = ⟨name, false⟩) ∧ Leaves w w.files w' := by
  simp only [osOpenFile, returns_bind, returns_syscall, returns_get]
  split_ifs
  · cases hfile : w.files name with
    | none => exact (returns_pure _).mpr ⟨by simp, leaves_tick _ _⟩
    | some d =>
      simp only [returns_bind, returns_modify, returns_pure]
      exact ⟨fun _ h => (Except.ok.inj h).symm, leaves_tick _ _⟩
  · exact (returns_pure _).mpr ⟨by simp, leaves_tick _ _⟩

lemma osCreate_faulty : Returns (osCreate env name) w fun r w' =>
    env.fault .create w.tick ≠ none ∧ r = .error errInputOutput ∧ Leaves w w.files w' ∨
      r = .ok ⟨name, false⟩ ∧ Leaves w (Function.update w.files name (some [])) w' := by
  simp only [osCreate, returns_bind, returns_syscall]
  split_ifs with hfault
  · simp only [returns_bind, returns_setFile, returns_modify, returns_pure]
    exact Or.inr ⟨trivial, leaves_tick _ _⟩
  · exact (returns_pure _).mpr (Or.inl ⟨hfault, rfl, leaves_tick _ _⟩)

/-- A file that is removed, or was not there, is gone. -/
lemma osRemove_faulty : Returns (osRemove env name) w fun r w' =>
    (Leaves w w.files w' ∨ Leaves w (Function.update w.files name none) w') ∧
      ((∀ e, r = some e → e.is osErrNotExist = true) → w'.files name = none) := by
  simp only [osRemove, returns_bind, returns_syscall, returns_get]
  split_ifs
  · cases hfile : w.files name with
    | none => exact (returns_pure _).mpr ⟨Or.inl (leaves_tick _ _), fun _ => hfile⟩
    | some d =>
      simp only [returns_bind, returns_setFile, returns_pure]
      exact ⟨Or.inr (leaves_tick _ _), fun _ => Function.update_self ..⟩
  · refine (returns_pure _).mpr ⟨Or.inl (leaves_tick _ _), fun h => ?_⟩
    cases h errInputOutput rfl

lemma close_faulty : Returns (file.close env) w fun r w' =>
    r.1.name = file.name ∧ Leaves w w.files w' := by
  unfold File.close
  split_ifs
  · exact (returns_pure _).mpr ⟨rfl, rfl, rfl, rfl⟩
  · simp only [returns_bind, returns_syscall, returns_modify, returns_pure]
    exact ⟨trivial, leaves_tick _ _⟩

lemma sync_faulty : Returns (file.sync env) w fun _ w' => Leaves w w.files w' := by
  unfold File.sync
  split_ifs
  · exact (returns_pure _).mpr ⟨rfl, rfl, rfl⟩
  · simp only [returns_bind, returns_syscall, returns_pure]
    exact leaves_tick _ _

lemma readAt_faulty {len : ℕ} {pos : ℤ} :
    Returns (file.readAt env len pos) w fun _ w' => Leaves w w.files w' := by
  unfold File.readAt
  split_ifs
  · exact (returns_pure _).mpr ⟨rfl, rfl, rfl⟩
  · simp only [returns_bind, returns_syscall, returns_get]
    cases env.fault .readAt w.tick with
    | none => exact (returns_pure _).mpr (leaves_tick _ _)
    | some n => exact (returns_pure _).mpr (leaves_tick _ _)

lemma writeAt_faulty {buf : Bytes} {pos : ℤ} {call : OsCall} :
    Returns (file.writeAt env buf pos call) w fun r w' =>
      Leaves w w.files w' ∨ ∃ fault, r = (fileWriteAt (file.bytes w) buf pos fault).2 ∧
        Leaves w (Function.update w.files file.name
          (some (fileWriteAt (file.bytes w) buf pos fault).1)) w' := by
  unfold File.writeAt
  split_ifs
  · exact (returns_pure _).mpr (Or.inl ⟨rfl, rfl, rfl⟩)
  · simp only [returns_bind, returns_syscall, returns_get, returns_setFile, returns_pure]
    exact Or.inr ⟨env.fault call w.tick, rfl, leaves_tick _ _⟩

end Calls

namespace StoreParams

variable {sp : StoreParams σ} {w : World σ}

/-! ## Permits -/

/-- The permits one local file takes. -/
def permit (sp : StoreParams σ) : ℕ := if sp.quotaSema.isSome then 1 else 0

/-- There is a permit left. -/
def Room (sp : StoreParams σ) (w : World σ) : Prop :=
  ∀ permits, sp.quotaSema = some permits → w.held < permits

lemma not_room_iff : ¬ sp.Room w ↔ ∃ permits, sp.quotaSema = some permits ∧ permits ≤ w.held := by
  simp [Room]

lemma claimCapacity_room (h : sp.Room w) : Returns sp.claimCapacity w fun r w' =>
    r = none ∧ w' = { w with held := w.held + sp.permit } := by
  unfold claimCapacity permit
  cases hq : sp.quotaSema with
  | none => simp
  | some permits =>
    have hlt := h permits hq
    simp [hlt]

lemma claimCapacity_of_room (h : sp.Room w) : Returns sp.claimCapacity w fun r w' =>
    r = none ∧ w'.files = w.files ∧ w'.store = w.store ∧ w'.held = w.held + sp.permit :=
  (claimCapacity_room h).mono fun _ _ h' => h'.2 ▸ ⟨h'.1, rfl, rfl, rfl⟩

lemma claimCapacity_of_full {permits : ℕ} (hq : sp.quotaSema = some permits)
    (h : permits ≤ w.held) :
    Returns sp.claimCapacity w fun r w' => r = some errCapacityClaim ∧ w' = w := by
  simp [claimCapacity, hq, returns_ite, h]

lemma releaseCapacity_spec (h : sp.permit ≤ w.held) : Returns sp.releaseCapacity w fun _ w' =>
    w'.files = w.files ∧ w'.store = w.store ∧ w'.held + sp.permit = w.held := by
  unfold releaseCapacity
  unfold permit at h ⊢
  cases hq : sp.quotaSema with
  | none => simp
  | some permits =>
    simp only [hq, Option.isSome_some, if_true] at h
    have h0 : w.held ≠ 0 := by omega
    simp only [returns_bind, returns_get, if_neg h0, returns_modify, Option.isSome_some, if_true,
      true_and]
    omega

lemma claimCapacity_files : Returns sp.claimCapacity w fun _ w' =>
    w'.files = w.files ∧ w'.store = w.store := by
  by_cases hroom : sp.Room w
  · exact (claimCapacity_of_room hroom).mono fun r w' h => ⟨h.2.1, h.2.2.1⟩
  · obtain ⟨permits, hq, hle⟩ := not_room_iff.mp hroom
    refine (claimCapacity_of_full hq hle).mono fun r w' h => ?_
    rw [h.2]
    exact ⟨rfl, rfl⟩

lemma releaseCapacity_held : Yields sp.releaseCapacity w fun _ w' =>
    ∃ held, held + sp.permit = w.held ∧ w' = { w with held } := by
  unfold releaseCapacity permit
  cases sp.quotaSema with
  | none => exact (yields_pure _).mpr ⟨_, rfl, rfl⟩
  | some permits =>
    simp only [Option.isSome_some, if_true, yields_bind, yields_get]
    split_ifs with hzero
    · exact yields_stop _
    · refine ((returns_modify _).mpr ⟨_, ?_, rfl⟩ : Returns _ _ _).yields
      exact Nat.sub_add_cancel (Nat.pos_of_ne_zero hzero)

lemma releaseCapacity_files : Yields sp.releaseCapacity w fun _ w' =>
    w'.files = w.files ∧ w'.store = w.store := by
  refine releaseCapacity_held.mono fun _ w' h => ?_
  obtain ⟨held, -, rfl⟩ := h
  exact ⟨rfl, rfl⟩

/-! ## New files -/

/-- A segment has bytes and ends at a file position, and one of them may be local. -/
structure Sized (sp : StoreParams σ) : Prop where
  pos : 0 < sp.segmentBytes
  le_max : sp.segmentBytes ≤ maxOffset
  permits_pos : ∀ permits, sp.quotaSema = some permits → 0 < permits

lemma createFile_of_room (hr : Reliable sp.env) (hs : sp.Sized) (hroom : sp.Room w)
    (segID : GoString) :
    Returns (sp.createFile segID) w fun r w' =>
      r = .ok (some ⟨sp.itemName segID, false⟩) ∧
        w'.files = Function.update w.files (sp.itemName segID) (some (zeros sp.segmentBytes)) ∧
        w'.store = w.store ∧ w'.held = w.held + sp.permit := by
  rw [createFile, returns_bind]
  refine (claimCapacity_of_room hroom).mono fun r w₁ h₁ => ?_
  obtain ⟨rfl, hfiles₁, hstore₁, hheld₁⟩ := h₁
  rw [returns_bind]
  refine (osCreate_spec hr).mono fun r w₂ h₂ => ?_
  obtain ⟨rfl, h₂⟩ := h₂
  have hempty : w₂.files (sp.itemName segID) = some [] := by simp [h₂.files]
  -- filled with zeros, or a single zero written at its end
  have hfill : ∀ (buf : Bytes) (pos : ℕ) (text : String), pos + buf.length = sp.segmentBytes →
      overwrite 0 [] pos buf = zeros sp.segmentBytes →
      Returns (sp.fillNew ⟨sp.itemName segID, false⟩ buf pos text (sp.itemName segID)) w₂
        fun r w' => r = .ok (some ⟨sp.itemName segID, false⟩) ∧
          w'.files = Function.update w.files (sp.itemName segID) (some (zeros sp.segmentBytes)) ∧
          w'.store = w.store ∧ w'.held = w.held + sp.permit := by
    intro buf pos text hlen hbuf
    rw [fillNew, returns_bind]
    refine (writeAt_spec hr (by decide) rfl hempty (hlen.le.trans hs.le_max)).mono fun r w' h => ?_
    obtain ⟨rfl, h⟩ := h
    refine (returns_pure _).mpr ⟨rfl, ?_, by rw [h.store, h₂.store, hstore₁],
      by rw [h.held, h₂.held, hheld₁]⟩
    rw [h.files, h₂.files, Function.update_idem, hbuf, hfiles₁]
  have hpos := hs.pos
  split_ifs
  · have hz : zeros sp.segmentBytes ≠ [] := by
      rw [← List.length_pos_iff_ne_nil, length_zeros]
      exact hpos
    exact hfill (zeros sp.segmentBytes) 0 _ (by simp) (by
      simpa using overwrite_length_add 0 ([] : Bytes) 0 hz)
  · have hcast : (sp.segmentBytes : ℤ) - 1 = ((sp.segmentBytes - 1 : ℕ) : ℤ) := by omega
    rw [hcast]
    refine hfill [0] (sp.segmentBytes - 1) _ (by simp; omega) ?_
    have h := overwrite_length_add 0 ([] : Bytes) (sp.segmentBytes - 1) (List.cons_ne_nil 0 [])
    simp only [List.length_nil, Nat.zero_add, List.nil_append] at h
    rw [h, ← List.replicate_succ', Nat.sub_add_cancel hpos, zeros]

lemma createFile_of_full {permits : ℕ} (hq : sp.quotaSema = some permits) (h : permits ≤ w.held)
    (segID : GoString) : Returns (sp.createFile segID) w fun r w' =>
      r = .error (.wrap "Not enough capacity to create file" errCapacityClaim) ∧ w' = w := by
  rw [createFile, returns_bind]
  refine (claimCapacity_of_full hq h).mono fun r w₁ h₁ => ?_
  obtain ⟨rfl, rfl⟩ := h₁
  simp

/-! ## Downloads -/

/-- The cache directory has no file of an object, or a copy of it, and without cache persistence
no ETag file. -/
structure CacheOf (sp : StoreParams σ) (files : GoString → Option Bytes) (name : GoString)
    (content : Bytes) : Prop where
  data : files name = none ∨ files name = some content
  etag : sp.persistCache = false → files (eTagFileName name) = none

/-- Two directories that agree on all but the files of one object. -/
def SameBut (name : GoString) (files files' : GoString → Option Bytes) : Prop :=
  ∀ n, n ≠ name → n ≠ eTagFileName name → files' n = files n

lemma SameBut.update_data {name : GoString} {files files' : GoString → Option Bytes}
    (h : SameBut name files files') (d : Option Bytes) :
    SameBut name files (Function.update files' name d) := by
  intro n hn he
  rw [Function.update_of_ne hn]
  exact h n hn he

lemma SameBut.update_etag {name : GoString} {files files' : GoString → Option Bytes}
    (h : SameBut name files files') (d : Option Bytes) :
    SameBut name files (Function.update files' (eTagFileName name) d) := by
  intro n hn he
  rw [Function.update_of_ne he]
  exact h n hn he

lemma SameBut.refl (name : GoString) (files : GoString → Option Bytes) : SameBut name files files :=
  fun _ _ _ => rfl

lemma ne_eTagFileName (name : GoString) : name ≠ eTagFileName name := by
  intro h
  have := congrArg List.length h
  simp [eTagFileName] at this

lemma rmCacheFile_spec (hr : Reliable sp.env) (text : String) {name : GoString} {data : Bytes}
    (h : w.files name = some data) : Returns (sp.rmCacheFile text name) w fun r w' =>
      r = none ∧ Leaves w (Function.update w.files name none) w' := by
  rw [rmCacheFile, returns_bind]
  refine (osRemove_spec hr h).mono fun r w' h' => ?_
  obtain ⟨rfl, h'⟩ := h'
  simpa using h'

lemma rmStray_spec (hr : Reliable sp.env) (hw : Leaves w w.files w') (text : String)
    {name : GoString} {data : Bytes} (h : w.files name = some data) :
    Returns (sp.rmStray text name) w' fun r w'' =>
      r = .ok none ∧ Leaves w (Function.update w.files name none) w'' := by
  rw [rmStray, returns_bind]
  refine (rmCacheFile_spec hr text (hw.files ▸ h)).mono fun r w'' h'' => ?_
  obtain ⟨rfl, h''⟩ := h''
  exact (returns_pure _).mpr ⟨rfl, h''.files.trans (by rw [hw.files]),
    h''.store.trans hw.store, h''.held.trans hw.held⟩

/-- The cache hands back its copy of the object, or makes way for a new one. -/
lemma cachedFile_spec (hr : Reliable sp.env) {item : Item σ} {name : GoString} {content : Bytes}
    (hcache : sp.CacheOf w.files name content) (htag : ∃ tag, item.etag w.store = .ok tag) :
    Returns (sp.cachedFile item name sp.segmentBytes) w fun r w' =>
      w'.store = w.store ∧ w'.held = w.held ∧ SameBut name w.files w'.files ∧
        (sp.persistCache = false → w'.files (eTagFileName name) = none) ∧
        (r = .ok none ∨ r = .ok (some ⟨name, false⟩) ∧ w'.files name = some content) := by
  have hne := ne_eTagFileName name
  simp only [cachedFile, returns_bind]
  refine (osStat_spec hr).mono fun r w₁ h₁ => ?_
  obtain ⟨rfl, h₁⟩ := h₁
  refine (osStat_spec hr).mono fun r w₂ h₂ => ?_
  obtain ⟨rfl, h₂⟩ := h₂
  have hw₂ : Leaves w w.files w₂ := h₁.trans_files h₂
  rw [h₁.files]
  cases htagf : w.files (eTagFileName name) with
  | none =>
    -- without a tag the copy is a stray one
    rcases hcache.data with hd | hd
    · simp only [hd, Option.map_none, returns_pure]
      refine ⟨hw₂.store, hw₂.held, ?_, fun _ => ?_, by simp⟩
      · rw [hw₂.files]
        exact SameBut.refl _ _
      · rw [hw₂.files, htagf]
    · simp only [hd, Option.map_some, Option.map_none]
      refine (rmStray_spec hr hw₂ _ hd).mono fun r w₃ h₃ => ?_
      obtain ⟨rfl, h₃⟩ := h₃
      refine ⟨h₃.store, h₃.held, ?_, fun _ => ?_, .inl rfl⟩
      · rw [h₃.files]
        exact (SameBut.refl _ _).update_data none
      · rw [h₃.files, Function.update_of_ne hne.symm, htagf]
  | some tagBytes =>
    have hpersist : sp.persistCache = true := by
      by_contra hp
      simp [hcache.etag (by simpa using hp)] at htagf
    rcases hcache.data with hd | hd
    -- a tag without a copy is a stray one
    · simp only [hd, Option.map_some, Option.map_none]
      refine (rmStray_spec hr hw₂ _ htagf).mono fun r w₃ h₃ => ?_
      obtain ⟨rfl, h₃⟩ := h₃
      refine ⟨h₃.store, h₃.held, ?_, fun _ => ?_, .inl rfl⟩
      · rw [h₃.files]
        exact (SameBut.refl _ _).update_etag none
      · rw [h₃.files, Function.update_self]
    · -- both files: the copy is used again if the tags agree
      simp only [hd, Option.map_some, hpersist, if_true, returns_bind]
      refine (osReadFile_spec hr (hw₂.files ▸ htagf)).mono fun r w₃ h₃ => ?_
      obtain ⟨rfl, h₃⟩ := h₃
      have hw₃ : Leaves w w.files w₃ := hw₂.trans_files h₃
      obtain ⟨tag, htag⟩ := htag
      simp only [returns_bind, returns_get, hw₃.store, htag]
      rw [returns_ite]
      split_ifs
      · rw [returns_bind]
        refine (osOpenFile_spec hr (hw₃.files ▸ hd)).mono fun r w₄ h₄ => ?_
        obtain ⟨rfl, h₄⟩ := h₄
        have hw₄ : Leaves w w.files w₄ := hw₃.trans_files h₄
        simp only [returns_pure]
        refine ⟨hw₄.store, hw₄.held, ?_, fun h => absurd h (by simp), Or.inr ⟨trivial, ?_⟩⟩
        · rw [hw₄.files]
          exact SameBut.refl _ _
        · rw [hw₄.files, hd]
      · rw [returns_bind]
        refine (rmCacheFile_spec hr _ (hw₃.files ▸ hd)).mono fun r w₄ h₄ => ?_
        obtain ⟨rfl, h₄⟩ := h₄
        have htag₄ : w₄.files (eTagFileName name) = some tagBytes := by
          rw [h₄.files, Function.update_of_ne hne.symm, hw₃.files, htagf]
        rw [returns_bind]
        refine (rmCacheFile_spec hr _ htag₄).mono fun r w₅ h₅ => ?_
        obtain ⟨rfl, h₅⟩ := h₅
        simp only [returns_pure]
        refine ⟨by rw [h₅.store, h₄.store, hw₃.store], by rw [h₅.held, h₄.held, hw₃.held], ?_,
          fun h => absurd h (by simp), by simp⟩
        rw [h₅.files, h₄.files, hw₃.files]
        exact ((SameBut.refl _ _).update_data none).update_etag none

/-- A download of these bytes ends up in its file as they are. -/
def LoadsExactly (sp : StoreParams σ) (content : Bytes) : Prop :=
  sp.thickProvision = true ∨ content.getLast? = some 0

lemma copyDownload_spec (hr : Reliable sp.env) {file : File} (hopen : file.closed = false)
    (hempty : w.files file.name = some []) {data : Bytes} (hne : data ≠ [])
    (hmax : data.length ≤ maxOffset) :
    Returns (sp.copyDownload file ⟨data, none⟩) w fun r w' =>
      r = (data.length, none) ∧ ∃ extra, (sp.LoadsExactly data → extra = []) ∧
        Leaves w (Function.update w.files file.name (some (data ++ extra))) w' := by
  rw [copyDownload]
  cases hthick : sp.thickProvision with
  | true =>
    have hover : overwrite 0 [] 0 data = data := by
      simpa using overwrite_length_add 0 ([] : Bytes) 0 hne
    have hwrite := writeAt_spec (w := w) hr (show OsCall.copy.ofUpload = false by decide)
      hopen hempty (show 0 + data.length ≤ maxOffset by omega)
    rw [hover] at hwrite
    simp only [if_true, returns_bind]
    refine hwrite.mono fun r w' h => ?_
    obtain ⟨rfl, h⟩ := h
    simp only [returns_pure]
    refine ⟨trivial, [], fun _ => rfl, ?_⟩
    rwa [List.append_nil]
  | false =>
    have hf := fun t => hr .copy t (by decide)
    simp only [Bool.false_eq_true, if_false, returns_bind, returns_syscall, hf, sparseCopy_eq,
      returns_setFile, returns_pure]
    refine ⟨trivial, if data.getLast? = some 0 then [] else [0], fun hexact => ?_, ?_⟩
    · rw [if_pos (hexact.resolve_left (by simp [hthick]))]
    · have hsplit : (if data.getLast? = some 0 then data else data ++ [0]) =
          data ++ if data.getLast? = some 0 then [] else [0] := by
        split_ifs <;> simp
      rw [hsplit]
      exact leaves_tick _ _

lemma Reader.limit_of_lt {rdr : Reader} {n : ℕ} (h : rdr.data.length < n) : rdr.limit n = rdr := by
  rw [Reader.limit, if_neg (by omega)]

/-- A download leaves a copy of the object under its name, if it is exact. -/
lemma download_spec (hr : Reliable sp.env) (hs : sp.Sized) {item : Item σ} {name : GoString}
    {data : Bytes} (hshow : item.Shows w.store name data) (hlen : data.length = sp.segmentBytes)
    (htag : ∃ tag, item.etag w.store = .ok tag) (hcache : sp.CacheOf w.files name data) :
    Returns (sp.download item) w fun r w' =>
      r = .ok (some ⟨name, false⟩) ∧
        (∃ extra, (sp.LoadsExactly data → extra = []) ∧ w'.files name = some (data ++ extra)) ∧
        SameBut name w.files w'.files ∧
        (sp.persistCache = false → w'.files (eTagFileName name) = none) ∧
        w'.store = w.store ∧ w'.held = w.held := by
  have hpos := hs.pos
  have hne : data ≠ [] := by
    rw [← List.length_pos_iff_ne_nil]
    omega
  have hsize : ¬ ((data.length : ℤ) = 0) := by omega
  simp only [download, returns_bind, returns_get, hshow.size_eq, if_neg hsize]
  rw [if_neg (show ¬ ((data.length : ℤ) ≠ sp.segmentBytes) by simp [hlen]), hshow.name_eq,
    returns_bind]
  refine (cachedFile_spec hr hcache htag).mono fun r w₁ h₁ => ?_
  obtain ⟨hstore₁, hheld₁, hsame₁, hetag₁, rfl | ⟨rfl, hfile⟩⟩ := h₁
  · -- nothing to use again: create the file and copy the object into it
    simp only [returns_bind]
    refine (osCreate_spec hr).mono fun r w₂ h₂ => ?_
    obtain ⟨rfl, h₂⟩ := h₂
    have hopen₂ : item.openItem w₂.store = .ok ⟨data, none⟩ := by
      rw [h₂.store, hstore₁]
      exact hshow.open_eq
    have hempty : w₂.files name = some [] := by simp [h₂.files]
    have hlimit : Reader.limit ⟨data, none⟩ (sp.segmentBytes + 1) = ⟨data, none⟩ :=
      Reader.limit_of_lt (by simp [hlen])
    have hfits : ¬ sp.segmentBytes + 1 ≤ data.length := by omega
    simp only [fetch, returns_bind, returns_get, hopen₂, hlimit]
    refine (copyDownload_spec hr rfl hempty hne (hlen.le.trans hs.le_max)).mono fun r w₃ h₃ => ?_
    obtain ⟨rfl, extra, hextra, h₃⟩ := h₃
    rw [if_neg hfits, if_neg (by simp [hlen]), returns_pure]
    refine ⟨rfl, ⟨extra, hextra, by simp [h₃.files]⟩, ?_, fun hp => ?_,
      by rw [h₃.store, h₂.store, hstore₁], by rw [h₃.held, h₂.held, hheld₁]⟩
    · rw [h₃.files, h₂.files]
      exact (hsame₁.update_data _).update_data _
    · rw [h₃.files, h₂.files, Function.update_idem,
        Function.update_of_ne (ne_eTagFileName name).symm, hetag₁ hp]
  · simp only [returns_pure]
    exact ⟨trivial, ⟨[], fun _ => rfl, by rwa [List.append_nil]⟩, hsame₁, hetag₁, hstore₁, hheld₁⟩

lemma downloadFile_of_room (hr : Reliable sp.env) (hs : sp.Sized) (hroom : sp.Room w)
    {item : Item σ} {name : GoString} {data : Bytes} (hshow : item.Shows w.store name data)
    (hlen : data.length = sp.segmentBytes) (htag : ∃ tag, item.etag w.store = .ok tag)
    (hcache : sp.CacheOf w.files name data) :
    Returns (sp.downloadFile item) w fun r w' =>
      r = .ok (some ⟨name, false⟩) ∧
        (∃ extra, (sp.LoadsExactly data → extra = []) ∧ w'.files name = some (data ++ extra)) ∧
        SameBut name w.files w'.files ∧
        (sp.persistCache = false → w'.files (eTagFileName name) = none) ∧
        w'.store = w.store ∧ w'.held = w.held + sp.permit := by
  rw [downloadFile, returns_bind]
  refine (claimCapacity_of_room hroom).mono fun r w₁ h₁ => ?_
  obtain ⟨rfl, hfiles₁, hstore₁, hheld₁⟩ := h₁
  rw [returns_bind]
  rw [← hstore₁] at hshow htag
  rw [← hfiles₁] at hcache ⊢
  refine (download_spec hr hs hshow hlen htag hcache).mono fun r w₂ h₂ => ?_
  obtain ⟨rfl, hdata, hsame, hetag, hstore, hheld⟩ := h₂
  simp only [returns_pure]
  exact ⟨trivial, hdata, hsame, hetag, hstore.trans hstore₁, hheld.trans hheld₁⟩

lemma downloadFile_of_full {permits : ℕ} (hq : sp.quotaSema = some permits) (h : permits ≤ w.held)
    (item : Item σ) : Returns (sp.downloadFile item) w fun r w' =>
      r = .error (.wrap "Not enough capacity to download file" errCapacityClaim) ∧ w' = w := by
  rw [downloadFile, returns_bind]
  refine (claimCapacity_of_full hq h).mono fun r w₁ h₁ => ?_
  obtain ⟨rfl, rfl⟩ := h₁
  simp

/-! ## Uploads and removal -/

lemma removeFile_spec (hr : Reliable sp.env) {file : File} (hopen : file.closed = false)
    {content : Bytes} (hdata : w.files file.name = some content)
    (hetag : sp.persistCache = false → w.files (eTagFileName file.name) = none) :
    Returns (sp.removeFile file) w fun r w' =>
      r = ({ file with closed := true }, none) ∧ w'.files file.name = none ∧
        SameBut file.name w.files w'.files ∧ w'.files (eTagFileName file.name) = none ∧
        w'.store = w.store ∧ w'.held = w.held := by
  have hne := ne_eTagFileName file.name
  simp only [removeFile, returns_bind]
  refine (close_spec hr hopen).mono fun r w₁ h₁ => ?_
  obtain ⟨rfl, h₁⟩ := h₁
  simp only [returns_bind]
  refine (osRemove_spec hr (h₁.files ▸ hdata)).mono fun r w₂ h₂ => ?_
  obtain ⟨rfl, h₂⟩ := h₂
  have hfiles₂ : w₂.files = Function.update w.files file.name none := by rw [h₂.files, h₁.files]
  have hstore₂ : w₂.store = w.store := by rw [h₂.store, h₁.store]
  have hheld₂ : w₂.held = w.held := by rw [h₂.held, h₁.held]
  have hsame₂ : SameBut file.name w.files w₂.files := by
    rw [hfiles₂]
    exact (SameBut.refl _ _).update_data none
  have hdata₂ : w₂.files file.name = none := by simp [hfiles₂]
  have hetag₂ : w₂.files (eTagFileName file.name) = w.files (eTagFileName file.name) := by
    rw [hfiles₂, Function.update_of_ne hne.symm]
  cases hp : sp.persistCache with
  | false =>
    simp only [Bool.false_eq_true, if_false, returns_pure]
    exact ⟨trivial, hdata₂, hsame₂, by rw [hetag₂, hetag hp], hstore₂, hheld₂⟩
  | true =>
    simp only [if_true, returns_bind]
    cases ht : w.files (eTagFileName file.name) with
    | none =>
      -- that there is no tag is not an error
      refine (osRemove_of_none hr (hetag₂.trans ht)).mono fun r w₃ h₃ => ?_
      obtain ⟨rfl, h₃⟩ := h₃
      simp only [GoError.is_self, if_true, returns_pure]
      rw [h₃.files, h₃.store, h₃.held]
      exact ⟨trivial, hdata₂, hsame₂, by rw [hetag₂, ht], hstore₂, hheld₂⟩
    | some tag =>
      refine (osRemove_spec hr (hetag₂.trans ht)).mono fun r w₃ h₃ => ?_
      obtain ⟨rfl, h₃⟩ := h₃
      simp only [returns_pure]
      rw [h₃.files, h₃.store, h₃.held]
      exact ⟨trivial, by rw [Function.update_of_ne hne, hdata₂], hsame₂.update_etag none, by simp,
        hstore₂, hheld₂⟩

/-- A stream that delivers these bytes, or breaks off before. -/
def Streams (content : Bytes) (src : Reader) : Prop := src.err = none → src.data = content

/-- The stream to upload is the file, which the buffer holds exactly when it has a segment's
length. -/
lemma prepare_spec {file : File} (hopen : file.closed = false) {content : Bytes}
    (hdata : w.files file.name = some content) (hlen : content.length = sp.segmentBytes)
    (buffered : Bool) :
    Returns (sp.prepare file buffered) w fun r w' =>
      (∀ src, r = .ok src → Streams content src) ∧
        (Faultless sp.env → r = .ok ⟨content, none⟩) ∧ Leaves w w.files w' := by
  simp only [prepare, returns_bind]
  refine (sync_spec hopen).mono fun r w₁ h₁ => ?_
  obtain ⟨hnone, h₁⟩ := h₁
  cases r with
  | some e =>
    simp only [returns_pure]
    exact ⟨fun _ h => by simp at h, fun hf => absurd (hnone hf) (by simp), h₁⟩
  | none =>
    have hbytes : ∀ tick, file.bytes { w₁ with tick } = content := by
      simp [File.bytes, h₁.files, hdata]
    have hleaves : ∀ tick, Leaves w w.files { w₁ with tick } := fun tick =>
      ⟨h₁.files, h₁.store, h₁.held⟩
    simp only [returns_bind, returns_syscall, returns_get, hbytes, hlen]
    have hok : Streams content ⟨content, none⟩ := fun _ => rfl
    cases hf : sp.env.fault .snapshot w₁.tick with
    | none =>
      cases buffered <;> simp only [ne_eq, not_true_eq_false, if_false, returns_pure] <;>
        exact ⟨fun _ h => by cases h; exact hok, fun _ => trivial, hleaves _⟩
    | some n =>
      have hfault : ¬ Faultless sp.env := fun h => by simp [h .snapshot _] at hf
      cases buffered <;> simp only [returns_pure] <;>
        exact ⟨fun _ h => by cases h <;> simp [Streams], fun h => absurd h hfault, hleaves _⟩

/-- An upload touches the object of the segment's name only.  One that succeeds has stored the
stream and makes the item it returns current. -/
lemma upload_spec (law : Plain sp.container) (segID : GoString) {src : Reader} {content : Bytes}
    (hsrc : Streams content src) :
    Returns (sp.upload segID src) w fun r w' =>
      (∀ item, r = .ok item →
        law.Current w'.store item (sp.itemName segID) ⟨content, .nil⟩) ∧
        (Faultless sp.env → content.length = sp.segmentBytes → src.err = none →
          ∃ item, r = .ok item) ∧
        (∀ it n o, n ≠ sp.itemName segID → law.Current w.store it n o →
          law.Current w'.store it n o) ∧
        (∀ n, n ≠ sp.itemName segID → law.objects w'.store n = law.objects w.store n) ∧
        w'.files = w.files ∧ w'.held = w.held := by
  cases hput : sp.container.put (sp.itemName segID) src sp.segmentBytes .nil w.store with
  | mk r st' =>
  have hkeeps : ∀ it n o, n ≠ sp.itemName segID → law.Current w.store it n o →
      law.Current st' it n o := fun it n o hn hc => law.put_keeps hput hn hc
  have hobjects := fun n (hn : n ≠ sp.itemName segID) => law.put_objects hput hn
  simp only [upload, returns_bind, returns_syscall, returns_get, hput]
  cases hf : sp.env.fault .put w.tick with
  | none =>
    simp only [returns_bind, returns_modify]
    cases r with
    | error e =>
      -- a plain container refuses only what breaks off or has another size
      simp only [returns_pure]
      refine ⟨fun _ h => by simp at h, fun _ hlen herr => ?_, hkeeps, hobjects, trivial, trivial⟩
      obtain ⟨data, err⟩ := src
      obtain rfl : err = none := herr
      obtain rfl : data = content := hsrc rfl
      obtain ⟨item, st, htotal⟩ := law.put_total (sp.itemName segID) data sp.segmentBytes .nil
        w.store (.inr (by rw [hlen]))
      simp [hput] at htotal
    | ok item =>
      have herr : src.err = none := by
        by_contra hne
        exact law.put_broken hne hput
      obtain ⟨data, err⟩ := src
      obtain rfl : err = none := herr
      obtain rfl : data = content := hsrc rfl
      simp only [returns_pure]
      refine ⟨fun _ h => ?_, fun _ _ _ => ⟨item, rfl⟩, hkeeps, hobjects, trivial, trivial⟩
      obtain rfl := Except.ok.inj h
      exact law.put_stores hput
  | some stored =>
    have hfault : ¬ Faultless sp.env := fun h => by simp [h .put _] at hf
    -- whether or not the bytes have arrived, no other object has changed
    simp only [returns_bind, returns_modify, returns_pure]
    refine ⟨fun _ h => by simp at h, fun h => absurd h hfault, fun it n o hn hc => ?_,
      fun n hn => ?_, trivial, trivial⟩
    · split_ifs
      · exact hc
      · exact hkeeps it n o hn hc
    · split_ifs
      · rfl
      · exact hobjects n hn

/-- Recording the ETag touches the ETag file of a persistent cache only. -/
lemma finishSync_spec {file : File} {item : Item σ} (htag : ∃ tag, item.etag w.store = .ok tag) :
    Returns (sp.finishSync file item) w fun r w' =>
      ((∀ t, sp.env.fault .writeFile t = none) → r = none) ∧ w'.store = w.store ∧
        w'.held = w.held ∧ SameBut file.name w.files w'.files ∧
        w'.files file.name = w.files file.name ∧
        (sp.persistCache = false → w'.files = w.files) := by
  have hne := ne_eTagFileName file.name
  unfold finishSync
  cases hp : sp.persistCache with
  | false =>
    simp only [Bool.false_eq_true, if_false, returns_pure]
    exact ⟨fun _ => trivial, trivial, trivial, SameBut.refl _ _, trivial, fun _ => trivial⟩
  | true =>
    obtain ⟨tag, htag⟩ := htag
    simp only [if_true, persistEtag, returns_bind, returns_get, htag]
    rw [returns_ite]
    split_ifs
    · simp only [returns_pure]
      exact ⟨fun _ => trivial, trivial, trivial, SameBut.refl _ _, trivial, fun h => by simp at h⟩
    · rw [returns_bind]
      refine (osWriteFile_spec tag).mono fun r w₁ h₁ => ?_
      obtain ⟨hnone, written, h₁⟩ := h₁
      simp only [returns_pure]
      refine ⟨fun hf => ?_, h₁.store, h₁.held, ?_, ?_, fun h => by simp at h⟩
      · rw [hnone (hf _)]
        rfl
      · rw [h₁.files]
        exact (SameBut.refl _ _).update_etag _
      · rw [h₁.files, Function.update_of_ne hne]

end StoreParams

end Usbd
