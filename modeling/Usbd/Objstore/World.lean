import Usbd.Foundations.Prog
import Usbd.Objstore.Container

/-!
# The world of the device

What the object-store device works on: the remote container's state, the files of its cache
directory, the permits of its quota semaphore.  The calls of `os` and `os.File` it makes are
programs over that world.

Each such call asks the environment whether it fails, by its kind and by its place in the run; a
call that moves bytes and fails says how many got through.  The environment also supplies the
clock, and decides what the code leaves open: whether a flush finds memory for a buffer and in
which order concurrent flushes take effect.

A file of the cache directory is known by its name, the object's name.  A `File` is an open
handle; `openFiles` lists the handles that are open.
-/

namespace Usbd

open ListMemory

/-- The calls that can fail. -/
inductive OsCall
  | stat
  | create
  | openFile
  | readFile
  | writeFile
  | remove
  | close
  | sync
  | readAt
  | writeAt
  /-- Filling a new file. -/
  | fill
  /-- Copying a download into its file. -/
  | copy
  /-- Reading a file to upload it. -/
  | snapshot
  /-- `container.Put`. -/
  | put
  deriving DecidableEq, Repr

/-- What the environment decides. -/
structure Env where
  fault : OsCall → ℕ → Option ℕ
  now : ℕ → ℤ
  buffer : ℕ → Bool
  flushOrder : ℕ → List ℕ → List ℕ
  flushOrder_perm : ∀ t l, (flushOrder t l).Perm l

/-- The world: the container's state, the cache directory, the permits held, the open handles and
the number of calls so far. -/
structure World (σ : Type) where
  store : σ
  files : GoString → Option Bytes
  held : ℕ
  openFiles : List GoString
  tick : ℕ

/-- A program of the device. -/
abbrev Go (σ : Type) := Prog (World σ) Stop

/-- An open file. -/
structure File where
  name : GoString
  closed : Bool
  deriving DecidableEq, Repr

variable {σ : Type}

/-! ## System calls -/

/-- The outcome of the next call of a kind. -/
def syscall (env : Env) (call : OsCall) : Go σ (Option ℕ) := fun w =>
  .ok (env.fault call w.tick, { w with tick := w.tick + 1 })

/-- `time.Now().UnixNano()`. -/
def timeNow (env : Env) : Go σ ℤ := fun w => .ok (env.now w.tick, { w with tick := w.tick + 1 })

def setFile (name : GoString) (data : Option Bytes) : Go σ Unit :=
  Prog.modify fun w => { w with files := Function.update w.files name data }

/-- `os.Stat`: the size of a file, if the call succeeds. -/
def osStat (env : Env) (name : GoString) : Go σ (Option ℕ) := do
  let fault ← syscall env .stat
  let w ← Prog.get
  pure (if fault = none then (w.files name).map List.length else none)

/-- `os.Create`: an empty file in place of any other of that name. -/
def osCreate (env : Env) (name : GoString) : Go σ (Except GoError File) := do
  let fault ← syscall env .create
  if fault = none then
    setFile name (some [])
    Prog.modify fun w => { w with openFiles := name :: w.openFiles }
    pure (.ok ⟨name, false⟩)
  else pure (.error errInputOutput)

/-- `os.OpenFile` with `O_RDWR`. -/
def osOpenFile (env : Env) (name : GoString) : Go σ (Except GoError File) := do
  let fault ← syscall env .openFile
  let w ← Prog.get
  if fault = none then
    match w.files name with
    | none => pure (.error osErrNotExist)
    | some _ =>
      Prog.modify fun w => { w with openFiles := name :: w.openFiles }
      pure (.ok ⟨name, false⟩)
  else pure (.error errInputOutput)

def osReadFile (env : Env) (name : GoString) : Go σ (Except GoError Bytes) := do
  let fault ← syscall env .readFile
  let w ← Prog.get
  if fault = none then
    match w.files name with
    | none => pure (.error osErrNotExist)
    | some data => pure (.ok data)
  else pure (.error errInputOutput)

/-- `os.WriteFile`: a failing call leaves the bytes it got through. -/
def osWriteFile (env : Env) (name : GoString) (data : Bytes) : Go σ (Option GoError) := do
  match ← syscall env .writeFile with
  | none =>
    setFile name (some data)
    pure none
  | some n =>
    setFile name (some (data.take n))
    pure (some errInputOutput)

def osRemove (env : Env) (name : GoString) : Go σ (Option GoError) := do
  let fault ← syscall env .remove
  let w ← Prog.get
  if fault = none then
    match w.files name with
    | none => pure (some osErrNotExist)
    | some _ =>
      setFile name none
      pure none
  else pure (some errInputOutput)

namespace File

/-- The bytes of an open file. -/
def bytes (file : File) (w : World σ) : Bytes := (w.files file.name).getD []

/-- `Close`: the handle is closed also when the call reports an error. -/
def close (env : Env) (file : File) : Go σ (File × Option GoError) := do
  if file.closed then pure (file, some osErrClosed)
  else
    let fault ← syscall env .close
    Prog.modify fun w => { w with openFiles := w.openFiles.erase file.name }
    pure ({ file with closed := true }, if fault = none then none else some errInputOutput)

def sync (env : Env) (file : File) : Go σ (Option GoError) := do
  if file.closed then pure (some osErrClosed)
  else
    let fault ← syscall env .sync
    pure (if fault = none then none else some errInputOutput)

/-- `ReadAt`: the bytes read and the error.  A failing call has read the given number of them. -/
def readAt (env : Env) (file : File) (len : ℕ) (pos : ℤ) : Go σ (Bytes × Option GoError) := do
  if file.closed then pure ([], closedFileErr len pos)
  else
    let fault ← syscall env .readAt
    let w ← Prog.get
    let got := fileReadAt (file.bytes w) len pos
    match fault with
    | none => pure got
    | some n => pure (got.1.take n, some errInputOutput)

/-- `WriteAt`: the bytes written and the error. -/
def writeAt (env : Env) (file : File) (buf : Bytes) (pos : ℤ) (call : OsCall) :
    Go σ (ℕ × Option GoError) := do
  if file.closed then pure (0, closedFileErr buf.length pos)
  else
    let fault ← syscall env call
    let w ← Prog.get
    let wrote := fileWriteAt (file.bytes w) buf pos fault
    setFile file.name (some wrote.1)
    pure wrote.2

end File

/-! ### What the calls do -/

section Calls

open Prog

variable {env : Env} {w : World σ}

@[simp] lemma returns_syscall {call : OsCall} {Q : Option ℕ → World σ → Prop} :
    Returns (syscall env call) w Q ↔ Q (env.fault call w.tick) { w with tick := w.tick + 1 } := by
  constructor
  · intro h
    exact h.eq rfl
  · intro h
    exact ⟨_, _, rfl, h⟩

@[simp] lemma returns_timeNow {Q : ℤ → World σ → Prop} :
    Returns (timeNow env) w Q ↔ Q (env.now w.tick) { w with tick := w.tick + 1 } := by
  constructor
  · intro h
    exact h.eq rfl
  · intro h
    exact ⟨_, _, rfl, h⟩

@[simp] lemma returns_setFile {name : GoString} {data : Option Bytes}
    {Q : Unit → World σ → Prop} :
    Returns (setFile name data) w Q ↔
      Q () { w with files := Function.update w.files name data } :=
  returns_modify _

end Calls

/-! ### Calls that change files only -/

section Files

open Prog

/-- A relation between worlds that says nothing of the cache directory and the number of calls. -/
class FreeOfFiles (R : World σ → World σ → Prop) : Prop extends IsPreorder (World σ) R where
  files : ∀ w files tick, R w { w with files := files, tick := tick }

variable {R : World σ → World σ → Prop} [FreeOfFiles R] (env : Env) (name : GoString) (file : File)

lemma follows_syscall (call : OsCall) : Follows R (syscall env call : Go σ (Option ℕ)) :=
  ⟨fun w => returns_syscall.mpr (FreeOfFiles.files w w.files _)⟩

lemma follows_setFile (data : Option Bytes) : Follows R (setFile name data : Go σ Unit) :=
  follows_modify fun w => FreeOfFiles.files w _ w.tick

lemma follows_osStat : Follows R (osStat env name : Go σ (Option ℕ)) :=
  (follows_syscall ..).bind fun _ => follows_get.bind fun _ => follows_pure _

lemma follows_osReadFile : Follows R (osReadFile env name : Go σ (Except GoError Bytes)) := by
  refine (follows_syscall ..).bind fun _ => follows_get.bind fun w => .ite ?_ (follows_pure _)
  cases w.files name <;> exact follows_pure _

/-- `os.OpenFile` opens a handle, or fails. -/
lemma osOpenFile_follows (w : World σ) : Returns (osOpenFile env name) w fun r w' =>
    ∃ w₁, R w w₁ ∧ ((∃ e, r = .error e) ∧ w' = w₁ ∨
      r = .ok ⟨name, false⟩ ∧ w' = { w₁ with openFiles := name :: w₁.openFiles }) := by
  have htick : R w { w with tick := w.tick + 1 } := FreeOfFiles.files w w.files _
  simp only [osOpenFile, returns_bind, returns_syscall, returns_get]
  split_ifs
  · cases w.files name with
    | none => exact (returns_pure _).mpr ⟨_, htick, .inl ⟨⟨_, rfl⟩, rfl⟩⟩
    | some _ =>
      simp only [returns_bind, returns_modify, returns_pure]
      exact ⟨_, htick, .inr ⟨trivial, rfl⟩⟩
  · exact (returns_pure _).mpr ⟨_, htick, .inl ⟨⟨_, rfl⟩, rfl⟩⟩

lemma follows_osWriteFile (data : Bytes) :
    Follows R (osWriteFile env name data : Go σ (Option GoError)) := by
  refine (follows_syscall ..).bind fun fault => ?_
  cases fault <;> exact (follows_setFile ..).bind fun _ => follows_pure _

lemma follows_osRemove : Follows R (osRemove env name : Go σ (Option GoError)) := by
  refine (follows_syscall ..).bind fun _ => follows_get.bind fun w => .ite ?_ (follows_pure _)
  cases w.files name with
  | none => exact follows_pure _
  | some data => exact (follows_setFile ..).bind fun _ => follows_pure _

lemma follows_sync : Follows R (file.sync env : Go σ (Option GoError)) :=
  .ite (follows_pure _) ((follows_syscall ..).bind fun _ => follows_pure _)

lemma follows_readAt (len : ℕ) (pos : ℤ) :
    Follows R (file.readAt env len pos : Go σ (Bytes × Option GoError)) := by
  refine .ite (follows_pure _) ((follows_syscall ..).bind fun fault => follows_get.bind fun w => ?_)
  cases fault <;> exact follows_pure _

lemma follows_writeAt (buf : Bytes) (pos : ℤ) (call : OsCall) :
    Follows R (file.writeAt env buf pos call : Go σ (ℕ × Option GoError)) :=
  .ite (follows_pure _) ((follows_syscall ..).bind fun _ => follows_get.bind fun _ =>
    (follows_setFile ..).bind fun _ => follows_pure _)

end Files

end Usbd
