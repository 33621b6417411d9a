import Usbd.Objstore.Durability

/-!
# A segment and its goroutines

Calls of one segment from any number of goroutines, cut into their critical sections.  `fileMu` is
held for reading or writing, and `itemMu`, from one section of a call to the next; within a section
they come and go unseen.  A read first looks for the local file under the read lock and takes the
write lock if there is none.  A flush looks at the dirty flag without a lock, takes the read lock,
waits for the item, marks the segment clean and reads the file; with a buffer it then gives the read
lock back, and the upload goes on without it.  Without a buffer the file is read while the upload
goes on, under a lock that keeps writes out, so that what it reads is what the file was at the
start. The upload of `DeleteFile` is of that kind, under the write lock.

`SegArray` is what a segment is for, an array of bytes.  `Backing` relates the two: when no upload
is on the way, the segment alone stands for the array (`SegInv`); while one is, the local file does,
and the bytes sent are those of the array unless the segment is dirty again.  `Outcome` lists all
that a section can come to, and `next_spec` is the one lemma about sections everything else uses.
-/

namespace Usbd

open ListMemory Prog

variable {σ : Type}

/-! ## Calls and sections -/

/-- A call of a segment.  A flush is `buffered` when it has a buffer large enough. -/
inductive SegCall
  | readAt (buf : Bytes) (pos : ℕ)
  | writeAt (buf : Bytes) (pos : ℕ)
  | flush (buffered : Bool)
  | deleteFile
  deriving DecidableEq

/-- The call stays inside the segment. -/
def SegCall.InRange (segmentBytes : ℕ) : SegCall → Prop
  | .readAt buf pos => pos + buf.length ≤ segmentBytes
  | .writeAt buf pos => buf ≠ [] ∧ pos + buf.length ≤ segmentBytes
  | .flush _ => True
  | .deleteFile => True

/-- What a call returns. -/
inductive SegResult
  | read (got : Bytes) (count : ℕ) (err : Option GoError)
  | wrote (count : ℕ) (err : Option GoError)
  | flushed (err : Option GoError)
  | deleted (err : Option GoError)
  deriving DecidableEq

/-- What an upload is for. -/
inductive Errand
  | flush (buffered : Bool)
  | evict
  deriving DecidableEq

namespace Errand

def call : Errand → SegCall
  | flush buffered => .flush buffered
  | evict => .deleteFile

def buffered : Errand → Bool
  | flush buffered => buffered
  | evict => false

/-- What the call returns when the upload fails. -/
def failed (e : GoError) : Errand → SegResult
  | flush _ => .flushed (some e)
  | evict => .deleted (some (.wrap "Flush during DeleteFile failed" e))

end Errand

/-- How far a call has got. -/
inductive Proc (σ : Type)
  | idle
  | called (call : SegCall)
  /-- A read that has found no local file. -/
  | seeking (buf : Bytes) (pos : ℕ)
  /-- A write that is not to be skipped. -/
  | storing (buf : Bytes) (pos : ℕ)
  /-- A flush that has seen the segment dirty. -/
  | locking (buffered : Bool)
  /-- A flush with the read lock, before it has the item. -/
  | waiting (buffered : Bool) (file : File)
  /-- An upload with its stream, before the put. -/
  | sending (errand : Errand) (file : File) (src : Reader)
  /-- An upload whose put has returned. -/
  | sent (errand : Errand) (file : File) (item : Except GoError (Item σ))
  | done (res : SegResult)

namespace Proc

/-- The call that is under way. -/
def call? : Proc σ → Option SegCall
  | idle => none
  | called call => some call
  | seeking buf pos => some (.readAt buf pos)
  | storing buf pos => some (.writeAt buf pos)
  | locking buffered => some (.flush buffered)
  | waiting buffered _ => some (.flush buffered)
  | sending errand _ _ => some errand.call
  | sent errand _ _ => some errand.call
  | done _ => none

/-- The upload that is under way. -/
def errand? : Proc σ → Option Errand
  | sending errand _ _ => some errand
  | sent errand _ _ => some errand
  | _ => none

/-- A read lock on the file is held. -/
def readsFile : Proc σ → Bool
  | waiting _ _ => true
  | p => p.errand? = some (.flush false)

/-- The next section may have to load the local file. -/
def Loads : Proc σ → Prop
  | seeking _ _ => True
  | storing _ _ => True
  | _ => False

/-- No lock is held. -/
def Lockless (p : Proc σ) : Prop := p.readsFile = false ∧ p.errand? = none

lemma eq_waiting {p : Proc σ} (hreads : p.readsFile = true) (herrand : p.errand? = none) :
    ∃ buffered file, p = waiting buffered file := by
  cases p with
  | waiting buffered file => exact ⟨buffered, file, rfl⟩
  | sending errand file src => cases herrand
  | sent errand file item => cases herrand
  | _ => cases hreads

end Proc

/-- A segment with its locks and goroutines: the read locks and the write lock of `fileMu`, and
`itemMu`, each with the goroutine that holds it. -/
structure Cell (σ : Type) where
  seg : Segment σ
  readers : Finset ℕ
  writer : Option ℕ
  itemMu : Option ℕ
  procs : ℕ → Proc σ

/-- What the calls of a segment do as their goroutines take turns. -/
inductive CellEvent
  | call (t : ℕ) (call : SegCall)
  | move (t : ℕ)
  | ret (t : ℕ)
  deriving DecidableEq

instance (segmentBytes : ℕ) : ∀ call : SegCall, Decidable (call.InRange segmentBytes)
  | .readAt _ _ => inferInstanceAs (Decidable (_ ≤ _))
  | .writeAt _ _ => inferInstanceAs (Decidable (_ ∧ _))
  | .flush _ => isTrue trivial
  | .deleteFile => isTrue trivial

/-- The calls that come in stay inside the segment. -/
def CellEvent.InRange (segmentBytes : ℕ) : CellEvent → Prop
  | .call _ made => made.InRange segmentBytes
  | .move _ => True
  | .ret _ => True

instance (segmentBytes : ℕ) : ∀ e : CellEvent, Decidable (e.InRange segmentBytes)
  | .call _ made => inferInstanceAs (Decidable (made.InRange segmentBytes))
  | .move _ => isTrue trivial
  | .ret _ => isTrue trivial

namespace Cell

def new (seg : Segment σ) : Cell σ := ⟨seg, ∅, none, none, fun _ => .idle⟩

def goto (c : Cell σ) (t : ℕ) (p : Proc σ) : Cell σ :=
  { c with procs := Function.update c.procs t p }

section Goto

variable (c : Cell σ) (t : ℕ) (p : Proc σ)

@[simp] lemma goto_seg : (c.goto t p).seg = c.seg := rfl

@[simp] lemma goto_readers : (c.goto t p).readers = c.readers := rfl

@[simp] lemma goto_writer : (c.goto t p).writer = c.writer := rfl

@[simp] lemma goto_itemMu : (c.goto t p).itemMu = c.itemMu := rfl

@[simp] lemma goto_procs : (c.goto t p).procs = Function.update c.procs t p := rfl

end Goto

/-- `fileMu.Lock` can be had. -/
def Free (c : Cell σ) : Prop := c.readers = ∅ ∧ c.writer = none

instance (c : Cell σ) : Decidable c.Free := inferInstanceAs (Decidable (_ ∧ _))

/-- `loadFile` can have its locks: that on the item too, where there is no local file. -/
def Loadable (c : Cell σ) : Prop := c.Free ∧ (c.seg.localFile = none → c.itemMu = none)

instance (c : Cell σ) : Decidable c.Loadable := inferInstanceAs (Decidable (_ ∧ _))

/-- `DeleteFile` can have its locks: that on the item too, where there is something to upload. -/
def Droppable (c : Cell σ) : Prop :=
  c.Free ∧ (c.seg.backed = true → c.seg.dirty = true → c.itemMu = none)

instance (c : Cell σ) : Decidable c.Droppable := inferInstanceAs (Decidable (_ ∧ _))

variable (sp : StoreParams σ) (c : Cell σ) (t : ℕ)

/-- A read under either lock. -/
def read (buf : Bytes) (pos : ℕ) : Go σ (Cell σ) := do
  let (seg, got, count, err) ← c.seg.readLoaded sp buf pos
  pure ({ c with seg }.goto t (.done (.read got count err)))

/-- The first part of `ReadAt`, up to the second lock of `loadFile` if it comes to that. -/
def startRead (buf : Bytes) (pos : ℕ) : Go σ (Cell σ) := do
  let now ← timeNow sp.env
  let c := { c with seg := { c.seg with lastRead := now } }
  if c.seg.localFile = none then pure (c.goto t (.seeking buf pos)) else c.read sp t buf pos

/-- The first part of `WriteAt`, up to its call of `loadFile`. -/
def startWrite (buf : Bytes) (pos : ℕ) : Go σ (Cell σ) := do
  let now ← timeNow sp.env
  let c := { c with seg := { c.seg with lastWrite := now } }
  if isZeros buf ∧ c.seg.localFile = none then pure (c.goto t (.done (.wrote buf.length none)))
  else pure (c.goto t (.storing buf pos))

/-- A write under the lock. -/
def write (buf : Bytes) (pos : ℕ) : Go σ (Cell σ) := do
  let (seg, count, err) ← c.seg.writeLoaded sp buf pos
  pure ({ c with seg }.goto t (.done (.wrote count err)))

/-- `Flush` of a dirty segment takes the read lock, and gives up without a local file. -/
def rLock (buffered : Bool) : Cell σ :=
  match c.seg.localFile with
  | none => c.goto t (.done (.flushed (some errNoDataFile)))
  | some file => { c with readers := insert t c.readers }.goto t (.waiting buffered file)

/-- `flush` up to its upload.  A failure gives the locks back and leaves no item. -/
def snapshot (errand : Errand) (file : File) : Go σ (Cell σ) := do
  match ← sp.prepare file errand.buffered with
  | .error e =>
    pure ({ c with
      seg := { c.seg with dirty := false, remoteItem := none }
      readers := c.readers.erase t }.goto t (.done (errand.failed e)))
  | .ok src =>
    pure ({ c with
      seg := { c.seg with dirty := false }
      readers := if errand = Errand.flush true then c.readers.erase t else c.readers
      writer := if errand = Errand.evict then some t else c.writer
      itemMu := some t }.goto t (.sending errand file src))

/-- The put of an upload. -/
def send (errand : Errand) (file : File) (src : Reader) : Go σ (Cell σ) := do
  let item ← sp.upload (itoa c.seg.ID) src
  pure (c.goto t (.sent errand file item))

/-- The last part of `DeleteFile`. -/
def drop : Go σ (Cell σ) := do
  let (seg, err) ← c.seg.dropFile sp
  pure ({ c with seg }.goto t (.done (.deleted err)))

/-- `flush` behind its upload, and what `DeleteFile` does then. -/
def finish (errand : Errand) (file : File) (item : Except GoError (Item σ)) : Go σ (Cell σ) := do
  let c := { c with
    readers := c.readers.erase t
    writer := if errand = Errand.evict then none else c.writer
    itemMu := none }
  match item with
  | .error e =>
    pure ({ c with seg := { c.seg with remoteItem := none } }.goto t (.done (errand.failed e)))
  | .ok item =>
    let err ← sp.finishSync file item
    let c := { c with seg := { c.seg with remoteItem := some item } }
    match errand, err with
    | errand, some e => pure (c.goto t (.done (errand.failed e)))
    | .flush _, none => pure (c.goto t (.done (.flushed none)))
    | .evict, none => c.drop sp t

/-- The first part of `DeleteFile`. -/
def delete : Go σ (Cell σ) :=
  if c.seg.backed then
    if c.seg.dirty then
      match c.seg.localFile with
      | none => Prog.stop .panic
      | some file => c.snapshot sp t .evict file
    else c.drop sp t
  else pure (c.goto t (.done (.deleted none)))

/-- The next section of a call, if the locks it needs can be had. -/
def next : Option (Go σ (Cell σ)) :=
  match c.procs t with
  | .idle => none
  | .called (.readAt buf pos) =>
    if c.writer = none then some (c.startRead sp t buf pos) else none
  | .called (.writeAt buf pos) =>
    if isZeros buf → c.writer = none then some (c.startWrite sp t buf pos) else none
  | .called (.flush buffered) =>
    some (pure (c.goto t (if c.seg.dirty then .locking buffered else .done (.flushed none))))
  | .called .deleteFile => if c.Droppable then some (c.delete sp t) else none
  | .seeking buf pos => if c.Loadable then some (c.read sp t buf pos) else none
  | .storing buf pos => if c.Loadable then some (c.write sp t buf pos) else none
  | .locking buffered =>
    if c.writer = none then some (pure (c.rLock t buffered)) else none
  | .waiting buffered file =>
    if c.itemMu = none then some (c.snapshot sp t (.flush buffered) file) else none
  | .sending errand file src => some (c.send sp t errand file src)
  | .sent errand file item => some (c.finish sp t errand file item)
  | .done _ => none

def step (w : World σ) : CellEvent → Option (Cell σ × World σ)
  | .call t call =>
    match c.procs t with
    | .idle => some (c.goto t (.called call), w)
    | _ => none
  | .move t => (c.next sp t).bind fun m => (m w).toOption
  | .ret t =>
    match c.procs t with
    | .done _ => some (c.goto t .idle, w)
    | _ => none

/-- The section of a call that is at a given place, with the locks it can have. -/
inductive Section : Proc σ → Go σ (Cell σ) → Prop
  | startRead {buf : Bytes} {pos : ℕ} (hwriter : c.writer = none) :
      Section (.called (.readAt buf pos)) (c.startRead sp t buf pos)
  | startWrite {buf : Bytes} {pos : ℕ} (hwriter : isZeros buf = true → c.writer = none) :
      Section (.called (.writeAt buf pos)) (c.startWrite sp t buf pos)
  | startFlush {buffered : Bool} : Section (.called (.flush buffered))
      (pure (c.goto t (if c.seg.dirty then .locking buffered else .done (.flushed none))))
  | delete (hfree : c.Droppable) : Section (.called .deleteFile) (c.delete sp t)
  | read {buf : Bytes} {pos : ℕ} (hfree : c.Loadable) :
      Section (.seeking buf pos) (c.read sp t buf pos)
  | write {buf : Bytes} {pos : ℕ} (hfree : c.Loadable) :
      Section (.storing buf pos) (c.write sp t buf pos)
  | rLock {buffered : Bool} (hwriter : c.writer = none) :
      Section (.locking buffered) (pure (c.rLock t buffered))
  | snapshot {buffered : Bool} {file : File} (hitem : c.itemMu = none) :
      Section (.waiting buffered file) (c.snapshot sp t (.flush buffered) file)
  | send {errand : Errand} {file : File} {src : Reader} :
      Section (.sending errand file src) (c.send sp t errand file src)
  | finish {errand : Errand} {file : File} {item : Except GoError (Item σ)} :
      Section (.sent errand file item) (c.finish sp t errand file item)

variable {sp c t}

/-- **What can run next.** -/
lemma next_section {m : Go σ (Cell σ)} (h : c.next sp t = some m) :
    ∃ p, c.procs t = p ∧ c.Section sp t p m := by
  refine ⟨c.procs t, rfl, ?_⟩
  unfold next at h
  cases ht : c.procs t with
  | idle => simp [ht] at h
  | done res => simp [ht] at h
  | called call =>
    cases call with
    | readAt buf pos =>
      obtain ⟨hwriter, rfl⟩ := (by simpa [ht] using h :
        c.writer = none ∧ c.startRead sp t buf pos = m)
      exact .startRead hwriter
    | writeAt buf pos =>
      obtain ⟨hwriter, rfl⟩ := (by simpa only [ht, Option.ite_none_right_eq_some, Option.some.injEq]
        using h : (isZeros buf = true → c.writer = none) ∧ c.startWrite sp t buf pos = m)
      exact .startWrite hwriter
    | flush buffered =>
      obtain rfl : pure (c.goto t _) = m := by simpa only [ht, Option.some.injEq] using h
      exact .startFlush
    | deleteFile =>
      obtain ⟨hfree, rfl⟩ := (by simpa [ht] using h : c.Droppable ∧ c.delete sp t = m)
      exact .delete hfree
  | seeking buf pos =>
    obtain ⟨hfree, rfl⟩ := (by simpa [ht] using h : c.Loadable ∧ c.read sp t buf pos = m)
    exact .read hfree
  | storing buf pos =>
    obtain ⟨hfree, rfl⟩ := (by simpa [ht] using h : c.Loadable ∧ c.write sp t buf pos = m)
    exact .write hfree
  | locking buffered =>
    obtain ⟨hwriter, rfl⟩ := (by simpa [ht] using h :
      c.writer = none ∧ pure (c.rLock t buffered) = m)
    exact .rLock hwriter
  | waiting buffered file =>
    obtain ⟨hitem, rfl⟩ := (by simpa [ht] using h :
      c.itemMu = none ∧ c.snapshot sp t (.flush buffered) file = m)
    exact .snapshot hitem
  | sending errand file src =>
    obtain rfl := (by simpa only [ht, Option.some.injEq] using h :
      c.send sp t errand file src = m)
    exact .send
  | sent errand file item =>
    obtain rfl := (by simpa only [ht, Option.some.injEq] using h :
      c.finish sp t errand file item = m)
    exact .finish

end Cell

/-! ## The locks -/

/-- The locks are held by those whose calls need them.  Under a read lock the local file stays, and
under the write lock the segment stays clean as well. -/
structure LockInv (sp : StoreParams σ) (c : Cell σ) : Prop where
  readers : ∀ t, t ∈ c.readers ↔ (c.procs t).readsFile = true
  writer : ∀ t, c.writer = some t ↔ (c.procs t).errand? = some .evict
  itemMu : ∀ t, c.itemMu = some t ↔ (c.procs t).errand? ≠ none
  waiting : ∀ t buffered file, c.procs t = .waiting buffered file → c.seg.localFile = some file
  alone : c.writer ≠ none → c.readers = ∅
  evicts : c.writer ≠ none → c.seg.dirty = false ∧ c.seg.localFile ≠ none
  range : ∀ t call, (c.procs t).call? = some call → call.InRange sp.segmentBytes

namespace LockInv

variable {sp : StoreParams σ} {c : Cell σ} {t : ℕ} {p : Proc σ} {errand : Errand} {file : File}

lemma new (seg : Segment σ) : LockInv sp (.new seg) := by
  constructor <;> simp [Cell.new, Proc.readsFile, Proc.errand?, Proc.call?]

lemma update {procs : ℕ → Proc σ} (S T : ℕ → Prop) (P : Proc σ → Prop)
    (h : ∀ u, S u ↔ P (procs u)) (hother : ∀ u, u ≠ t → (T u ↔ S u)) (hself : T t ↔ P p) (u : ℕ) :
    T u ↔ P (Function.update procs t p u) := by
  by_cases hu : u = t
  · subst hu
    rw [Function.update_self]
    exact hself
  · rw [Function.update_of_ne hu, hother u hu]
    exact h u

section Changes

variable (h : LockInv sp c)

include h

/-- A section that leaves everybody else's locks alone, and the local file to those who read it. -/
lemma change {c' : Cell σ} (hprocs : c'.procs = Function.update c.procs t p)
    (hothers : ∀ u, u ≠ t → (u ∈ c'.readers ↔ u ∈ c.readers) ∧
      (c'.writer = some u ↔ c.writer = some u) ∧ (c'.itemMu = some u ↔ c.itemMu = some u))
    (hreads : t ∈ c'.readers ↔ p.readsFile = true)
    (hwrites : c'.writer = some t ↔ p.errand? = some .evict)
    (hitem : c'.itemMu = some t ↔ p.errand? ≠ none)
    (hlocal : ∀ u, u ≠ t → u ∈ c.readers → c'.seg.localFile = c.seg.localFile)
    (hself : ∀ buffered file, p = .waiting buffered file → c'.seg.localFile = some file)
    (halone : c'.writer ≠ none → c'.readers = ∅)
    (hevicts : c'.writer ≠ none → c'.seg.dirty = false ∧ c'.seg.localFile ≠ none)
    (hrange : ∀ call, p.call? = some call → call.InRange sp.segmentBytes) : LockInv sp c' where
  readers := by
    rw [hprocs]
    exact update (· ∈ c.readers) (· ∈ c'.readers) (·.readsFile = true) h.readers
      (fun u hu => (hothers u hu).1) hreads
  writer := by
    rw [hprocs]
    exact update (c.writer = some ·) (c'.writer = some ·) (·.errand? = some .evict) h.writer
      (fun u hu => (hothers u hu).2.1) hwrites
  itemMu := by
    rw [hprocs]
    exact update (c.itemMu = some ·) (c'.itemMu = some ·) (·.errand? ≠ none) h.itemMu
      (fun u hu => (hothers u hu).2.2) hitem
  waiting u buffered file hu := by
    rw [hprocs] at hu
    by_cases hut : u = t
    · subst hut
      rw [Function.update_self] at hu
      exact hself buffered file hu
    · rw [Function.update_of_ne hut] at hu
      have hmem : u ∈ c.readers := by simp [h.readers, hu, Proc.readsFile]
      rw [hlocal u hut hmem]
      exact h.waiting u buffered file hu
  alone := halone
  evicts := hevicts
  range u call hu := by
    rw [hprocs] at hu
    by_cases hut : u = t
    · subst hut
      rw [Function.update_self] at hu
      exact hrange call hu
    · rw [Function.update_of_ne hut] at hu
      exact h.range u call hu

lemma goto (hp : (c.procs t).Lockless) (hp' : p.Lockless)
    (hrange : ∀ call, p.call? = some call → call.InRange sp.segmentBytes) {seg : Segment σ}
    (hlocal : ¬ c.Free → seg.localFile = c.seg.localFile)
    (hclean : c.writer ≠ none → seg.dirty = c.seg.dirty) :
    LockInv sp ({ c with seg }.goto t p) := by
  refine h.change rfl (fun _ _ => ⟨Iff.rfl, Iff.rfl, Iff.rfl⟩) ?_ ?_ ?_ ?_ ?_ h.alone ?_ hrange
  · simp [h.readers, hp.1, hp'.1]
  · simp [h.writer, hp.2, hp'.2]
  · simp [h.itemMu, hp.2, hp'.2]
  · intro u _ hu
    exact hlocal fun hfree => by simp [hfree.1] at hu
  · rintro buffered file rfl
    exact absurd hp'.1 (by simp [Proc.readsFile])
  · intro hw
    obtain ⟨hd, hl⟩ := h.evicts hw
    refine ⟨(hclean hw).trans hd, ?_⟩
    rw [Cell.goto_seg, hlocal fun hfree => hw hfree.2]
    exact hl

/-- While an upload of another is on the way, this one has none. -/
lemma itemMu_ne (herrand : (c.procs t).errand? = none) : c.itemMu ≠ some t := by
  rw [Ne, h.itemMu, herrand]
  simp

/-- While no upload is on the way nobody holds the write lock. -/
lemma writer_eq_none (hitem : c.itemMu = none) : c.writer = none := by
  by_contra hw
  obtain ⟨u, hu⟩ := Option.ne_none_iff_exists'.mp hw
  have hup : (c.procs u).errand? ≠ none := by simp [(h.writer u).mp hu]
  rw [← h.itemMu, hitem] at hup
  simp at hup

/-- A flush takes the read lock. -/
lemma rLock {buffered : Bool} (ht : c.procs t = .locking buffered) (hwriter : c.writer = none)
    (hlocal : c.seg.localFile = some file) :
    LockInv sp ({ c with readers := insert t c.readers }.goto t (.waiting buffered file)) := by
  refine h.change rfl (fun u hu => ⟨by simp [hu], Iff.rfl, Iff.rfl⟩) ?_ ?_ ?_
    (fun _ _ _ => rfl) ?_ (fun hw => absurd hwriter hw) (fun hw => absurd hwriter hw) ?_
  · simp [Proc.readsFile]
  · simp [h.writer, ht, Proc.errand?]
  · simp [h.itemMu, ht, Proc.errand?]
  · rintro _ _ ⟨⟩
    exact hlocal
  · rintro call ⟨⟩
    trivial

/-- A call that could have uploaded gives the read lock back. -/
lemma abandon (hitem : c.itemMu = none) {res : SegResult} {seg : Segment σ}
    (hlocal : seg.localFile = c.seg.localFile) :
    LockInv sp ({ c with seg, readers := c.readers.erase t }.goto t (.done res)) := by
  have hwriter := h.writer_eq_none hitem
  refine h.change rfl (fun u hu => ⟨by simp [hu], Iff.rfl, Iff.rfl⟩) ?_ ?_ ?_
    (fun _ _ _ => hlocal) (fun _ _ hd => by cases hd) (fun hw => absurd hwriter hw)
    (fun hw => absurd hwriter hw) (by simp [Proc.call?])
  · simp [Proc.readsFile, Proc.errand?]
  · simp [hwriter, Proc.errand?]
  · simp [hitem, Proc.errand?]

/-- An upload starts with the locks its call has on the file. -/
lemma start {src : Reader} (hitem : c.itemMu = none) (hlocal : c.seg.localFile = some file)
    (hreads : t ∈ c.readers ↔ errand ≠ .evict) (hfree : errand = .evict → c.readers = ∅) :
    LockInv sp ({ c with
      seg := { c.seg with dirty := false }
      readers := if errand = Errand.flush true then c.readers.erase t else c.readers
      writer := if errand = Errand.evict then some t else c.writer
      itemMu := some t }.goto t (.sending errand file src)) := by
  have hwriter := h.writer_eq_none hitem
  refine h.change rfl (fun u hu => ⟨?_, ?_, by simp [hitem, Ne.symm hu]⟩) ?_ ?_
    (by simp [Proc.errand?]) (fun _ _ _ => rfl) (fun _ _ hd => by cases hd) ?_
    (fun _ => ⟨rfl, by simp [hlocal]⟩) ?_
  · simp only [Cell.goto_readers]
    split_ifs <;> simp [hu]
  · simp only [Cell.goto_writer]
    split_ifs <;> simp [hwriter, Ne.symm hu]
  · cases errand with
    | flush buffered => cases buffered <;> simp [hreads, Proc.readsFile, Proc.errand?]
    | evict => simp [hreads, Proc.readsFile, Proc.errand?]
  · cases errand with
    | flush buffered => simp [hwriter, Proc.errand?]
    | evict => simp [Proc.errand?]
  · cases errand with
    | flush buffered => simp [hwriter]
    | evict => simp [hfree rfl]
  · rintro call ⟨⟩
    cases errand <;> trivial

lemma sent {src : Reader} (ht : c.procs t = .sending errand file src)
    (item : Except GoError (Item σ)) :
    LockInv sp (c.goto t (.sent errand file item)) := by
  refine h.change rfl (fun _ _ => ⟨Iff.rfl, Iff.rfl, Iff.rfl⟩) ?_ ?_ ?_ (fun _ _ _ => rfl)
    (fun _ _ hd => by cases hd) h.alone h.evicts ?_
  · rw [Cell.goto_readers, h.readers, ht]
    rfl
  · rw [Cell.goto_writer, h.writer, ht]
    rfl
  · rw [Cell.goto_itemMu, h.itemMu, ht]
    rfl
  · rintro call ⟨⟩
    exact h.range t _ (by rw [ht]; rfl)

lemma release (herrand : (c.procs t).errand? = some errand) {res : SegResult} {seg : Segment σ}
    (hlocal : errand ≠ .evict → seg.localFile = c.seg.localFile) :
    LockInv sp ({ c with
      seg
      readers := c.readers.erase t
      writer := if errand = Errand.evict then none else c.writer
      itemMu := none }.goto t (.done res)) := by
  have hitem : c.itemMu = some t := (h.itemMu t).mpr (by simp [herrand])
  have hwriter : ∀ u, c.writer = some u → u = t ∧ errand = .evict := by
    intro u hu
    have hevict := (h.writer u).mp hu
    have hut : u = t := by
      have := (h.itemMu u).mpr (by simp [hevict])
      simpa [hitem] using this.symm
    subst hut
    exact ⟨rfl, Option.some.inj (herrand.symm.trans hevict)⟩
  have hnone : (if errand = Errand.evict then none else c.writer) = none := by
    by_contra hw
    obtain ⟨u, hu⟩ := Option.ne_none_iff_exists'.mp hw
    split_ifs at hu with he
    exact he (hwriter u hu).2
  rw [hnone]
  refine h.change rfl (fun u hu => ⟨by simp [hu], ?_, by simp [hitem, Ne.symm hu]⟩) ?_ ?_ ?_ ?_ ?_
    (fun hw => by simp at hw) (fun hw => by simp at hw) (by simp [Proc.call?])
  · simp only [Cell.goto_writer, reduceCtorEq, false_iff]
    exact fun hw => hu (hwriter u hw).1
  · simp [Proc.readsFile, Proc.errand?]
  · simp [Proc.errand?]
  · simp [Proc.errand?]
  · intro u hu hmem
    refine hlocal ?_
    rintro rfl
    have hw : c.writer = some t := (h.writer t).mpr herrand
    simp [h.alone (by simp [hw])] at hmem
  · intro _ _ hd
    cases hd

end Changes

end LockInv

/-! ## The array a segment stands for -/

/-- The bytes, and whether something else than zeros has been written. -/
structure SegArray where
  bytes : Bytes
  written : Bool

/-- A write to the array. -/
def SegArray.write (a : SegArray) (buf : Bytes) (pos : ℕ) : SegArray :=
  ⟨overwrite 0 a.bytes pos buf, a.written || !isZeros buf⟩

/-- Nothing. -/
def SegArray.blank (segmentBytes : ℕ) : SegArray := ⟨zeros segmentBytes, false⟩

/-- The segment without its item. -/
def Segment.bare (seg : Segment σ) : Segment σ := { seg with remoteItem := none }

/-- An upload on the way: its bytes are those of the array, unless the segment is dirty again. -/
inductive Upload (sp : StoreParams σ) (law : Plain sp.container) (w : World σ) (seg : Segment σ)
    (content : Bytes) : Proc σ → Prop
  | sending {errand : Errand} {file : File} {src : Reader} {snap : Bytes}
      (hfile : file = ⟨seg.name sp, false⟩) (hlen : snap.length = sp.segmentBytes)
      (hsnap : seg.dirty = false → snap = content) (hsrc : StoreParams.Streams snap src)
      (hgood : Faultless sp.env → src.err = none) :
      Upload sp law w seg content (.sending errand file src)
  | sent {errand : Errand} {file : File} {item : Except GoError (Item σ)} {snap : Bytes}
      (hfile : file = ⟨seg.name sp, false⟩) (hlen : snap.length = sp.segmentBytes)
      (hsnap : seg.dirty = false → snap = content)
      (hcur : ∀ it, item = .ok it → law.Current w.store it (seg.name sp) ⟨snap, .nil⟩)
      (hgood : Faultless sp.env → ∃ it, item = .ok it) :
      Upload sp law w seg content (.sent errand file item)

/-- A segment stands for an array, with or without an upload on the way. -/
inductive Backing (sp : StoreParams σ) (law : Plain sp.container) (w : World σ) (seg : Segment σ)
    (a : SegArray) : Option (Proc σ) → Prop
  | quiet (hinv : SegInv sp law.toFaithful w seg a.bytes)
      (hkept : Faultless sp.env → Kept sp law.toFaithful w seg)
      (hstored : a.written = true → seg.Stored) :
      Backing sp law w seg a none
  | flight {p : Proc σ} (hok : SegOK sp law.toFaithful w seg.bare a.bytes)
      (hgone : seg.localFile = none → w.files (seg.name sp) = none)
      (hup : Upload sp law w seg a.bytes p) : Backing sp law w seg a (some p)

/-- The upload on the way. -/
def Cell.flight (c : Cell σ) : Option (Proc σ) := c.itemMu.map c.procs

/-- A cell stands for an array. -/
structure CellInv (sp : StoreParams σ) (law : Plain sp.container) (w : World σ) (c : Cell σ)
    (a : SegArray) : Prop where
  backing : Backing sp law w c.seg a c.flight
  locks : LockInv sp c

/-- What a section leaves of the rest of the world. -/
structure SegMove (sp : StoreParams σ) (law : Faithful sp.container) (w : World σ)
    (seg : Segment σ) (w' : World σ) (seg' : Segment σ) : Prop where
  id_eq : seg'.ID = seg.ID
  frame : Frame sp law (seg.name sp) w w'
  held : w'.held + seg.holding sp = w.held + seg'.holding sp

section Backings

variable {sp : StoreParams σ} {law : Plain sp.container} {w w' : World σ} {seg : Segment σ}
  {a : SegArray} {p : Proc σ} {f : Option (Proc σ)} {errand : Errand} {file : File}

lemma SegStep.move {content content' : Bytes} {seg' : Segment σ}
    (h : SegStep sp law.toFaithful w seg content w' seg' content') :
    SegMove sp law.toFaithful w seg w' seg' :=
  ⟨h.id_eq, h.frame, h.held⟩

lemma SegMove.of_leaves (hl : Leaves w w.files w') {seg' : Segment σ} (hid : seg'.ID = seg.ID)
    (hbacked : seg'.backed = seg.backed) : SegMove sp law.toFaithful w seg w' seg' := by
  refine ⟨hid, Frame.of_files ?_ hl.store, ?_⟩
  · rw [hl.files]
    exact StoreParams.SameBut.refl _ _
  · rw [hl.held, Segment.holding, Segment.holding, hbacked]

lemma SegMove.trans {w₁ w₂ : World σ} {seg₁ seg₂ : Segment σ}
    (h : SegMove sp law.toFaithful w seg w₁ seg₁)
    (h' : SegMove sp law.toFaithful w₁ seg₁ w₂ seg₂) : SegMove sp law.toFaithful w seg w₂ seg₂ := by
  have hname : seg₁.name sp = seg.name sp := by
    rw [Segment.name, h.id_eq]
    rfl
  refine ⟨h'.id_eq.trans h.id_eq, h.frame.trans (hname ▸ h'.frame), ?_⟩
  have := h.held
  have := h'.held
  omega

lemma Backing.opened (h : Backing sp law w seg a f) (hfile : seg.localFile = some file) :
    file = ⟨seg.name sp, false⟩ ∧ w.files (seg.name sp) = some a.bytes := by
  cases h with
  | quiet hinv _ _ => exact hinv.opened file hfile
  | flight hok _ _ => exact hok.opened file hfile

lemma Backing.length_eq (h : Backing sp law w seg a f) : a.bytes.length = sp.segmentBytes := by
  cases h with
  | quiet hinv _ _ => exact hinv.length_eq
  | flight hok _ _ => exact hok.length_eq

lemma Backing.backed_eq (h : Backing sp law w seg a f) : seg.backed = seg.localFile.isSome := by
  cases h with
  | quiet hinv _ _ => exact hinv.backed_eq
  | flight hok _ _ => exact hok.backed_eq

lemma Backing.dirty_local (h : Backing sp law w seg a f) (hd : seg.dirty = true) :
    seg.localFile ≠ none := by
  cases h with
  | quiet hinv _ _ => simpa [Option.isSome_iff_ne_none] using hinv.dirty_local hd
  | flight hok _ _ => simpa [Option.isSome_iff_ne_none, Segment.bare] using hok.dirty_local hd

lemma Backing.etag (h : Backing sp law w seg a f) :
    sp.persistCache = false → w.files (eTagFileName (seg.name sp)) = none := by
  cases h with
  | quiet hinv _ _ => exact hinv.cache.etag
  | flight hok _ _ => exact hok.cache.etag

/-- An upload does not mind writes: they make the segment dirty. -/
lemma Upload.mono {content content' : Bytes} {seg' : Segment σ} (h : Upload sp law w seg content p)
    (hstore : w'.store = w.store) (hid : seg'.ID = seg.ID)
    (hsame : seg'.dirty = false → seg.dirty = false ∧ content' = content) :
    Upload sp law w' seg' content' p := by
  have hname : seg'.name sp = seg.name sp := by
    rw [Segment.name, hid]
    rfl
  cases h with
  | sending hfile hlen hsnap hsrc hgood =>
    refine .sending (hname ▸ hfile) hlen (fun hd => ?_) hsrc hgood
    rw [hsnap (hsame hd).1, (hsame hd).2]
  | sent hfile hlen hsnap hcur hgood =>
    refine .sent (hname ▸ hfile) hlen (fun hd => ?_) ?_ hgood
    · rw [hsnap (hsame hd).1, (hsame hd).2]
    · rw [hstore, hname]
      exact hcur

lemma Backing.touch (h : Backing sp law w seg a f) (hl : Leaves w w.files w')
    (lastRead lastWrite : ℤ) : Backing sp law w' { seg with lastRead, lastWrite } a f := by
  cases h with
  | quiet hinv hkept hstored =>
    have hstep := hinv.touch hl lastRead lastWrite
    exact .quiet hstep.inv (fun hf => hstep.kept hf (hkept hf)) hstored
  | flight hok hgone hup =>
    refine .flight ⟨hok.length_eq, hok.backed_eq, hok.dirty_local, ?_, ?_, fun _ h => ?_⟩ ?_
      (hup.mono hl.store rfl fun hd => ⟨hd, rfl⟩)
    · rw [hl.files]
      exact hok.opened
    · rw [hl.files]
      exact hok.cache
    · simp [Segment.bare] at h
    · rw [hl.files]
      exact hgone

lemma Backing.step (h : Backing sp law w seg a none) {seg' : Segment σ} {content : Bytes}
    (hstep : SegStep sp law.toFaithful w seg a.bytes w' seg' content) :
    Backing sp law w' seg' ⟨content, a.written⟩ none := by
  cases h with
  | quiet _ hkept hstored =>
    exact .quiet hstep.inv (fun hf => hstep.kept hf (hkept hf)) fun hw => hstep.stored (hstored hw)

lemma Backing.inv (h : Backing sp law w seg a none) : SegInv sp law.toFaithful w seg a.bytes := by
  cases h with
  | quiet hinv _ _ => exact hinv

/-- A read returns bytes of the array, unless it needs a permit and finds none. -/
lemma Backing.read (h : Backing sp law w seg a f) (hr : Reliable sp.env) (hs : sp.Sized)
    (hload : CacheRun.LoadsWhole sp w seg) (hfree : seg.localFile = none → f = none) {pos : ℕ}
    {buf : Bytes} (hle : pos + buf.length ≤ sp.segmentBytes) :
    Returns (seg.readLoaded sp buf pos) w fun r w' =>
      Backing sp law w' r.1 a f ∧ SegMove sp law.toFaithful w seg w' r.1 ∧
        (seg.localFile ≠ none → r.1 = seg) ∧
        (r.2 = (slice a.bytes pos buf.length, buf.length, none) ∨
          ¬ sp.Room w ∧ seg.localFile = none ∧ ∃ e, r.2.2.2 = some e) := by
  cases hlocal : seg.localFile with
  | some file =>
    obtain ⟨rfl, hdata⟩ := h.opened hlocal
    refine (readLoaded_local hr hlocal rfl hdata (h.length_eq ▸ hle)).mono fun r w' hread => ?_
    obtain ⟨rfl, hl⟩ := hread
    exact ⟨h.touch hl _ _, SegMove.of_leaves hl rfl rfl, fun _ => rfl, Or.inl rfl⟩
  | none =>
    obtain rfl := hfree hlocal
    have hexact :=
      fun hnone (_ : seg.remoteItem ≠ none) => CacheRun.loadsExactly hs h.inv hload hnone
    refine (readLoaded_segment hr hs h.inv hexact hle).mono fun r w' hread => ?_
    rcases hread with ⟨hres, hstep⟩ | ⟨-, hfull⟩
    · exact ⟨h.step hstep, hstep.move, fun hne => absurd rfl hne, Or.inl hres⟩
    · obtain ⟨e, he, -⟩ := hfull.capacity
      exact ⟨h.step hfull.step, hfull.step.move, fun hne => absurd rfl hne,
        Or.inr ⟨hfull.no_room, rfl, e, he⟩⟩

/-- A write changes the array, unless it needs a permit and finds none. -/
lemma Backing.write (h : Backing sp law w seg a f) (hr : Reliable sp.env) (hs : sp.Sized)
    (hload : CacheRun.LoadsWhole sp w seg) (hfree : seg.localFile = none → f = none) {pos : ℕ}
    {buf : Bytes} (hbuf : buf ≠ []) (hle : pos + buf.length ≤ sp.segmentBytes) :
    Returns (seg.writeLoaded sp buf pos) w fun r w' =>
      SegMove sp law.toFaithful w seg w' r.1 ∧ (seg.localFile ≠ none → r.1.localFile ≠ none) ∧
        (r.2 = (buf.length, none) ∧ Backing sp law w' r.1 (a.write buf pos) f ∨
          ¬ sp.Room w ∧ seg.localFile = none ∧ (∃ e, r.2.2 = some e) ∧
            Backing sp law w' r.1 a f) := by
  cases h with
  | quiet hinv hkept hstored =>
    have hback : Backing sp law w seg a none := .quiet hinv hkept hstored
    refine (writeLoaded_segment hr hs hinv (CacheRun.loadsExactly hs hinv hload) hbuf hle).mono
      fun r w' hwrite => ?_
    rcases hwrite with ⟨hres, hstep, hdirty⟩ | hfull
    · have hlocal := (hback.step hstep).dirty_local hdirty
      refine ⟨hstep.move, fun _ => hlocal, Or.inl ⟨hres, ?_⟩⟩
      exact .quiet hstep.inv (fun hf => hstep.kept hf (hkept hf)) fun _ => Or.inl hlocal
    · obtain ⟨e, he, -⟩ := hfull.capacity
      exact ⟨hfull.step.move, fun hne => absurd hfull.absent hne,
        Or.inr ⟨hfull.no_room, hfull.absent, ⟨e, he⟩, hback.step hfull.step⟩⟩
  | flight hok hgone hup =>
    -- an upload is on the way: the local file is there, and the segment becomes dirty
    obtain ⟨file, hlocal⟩ := Option.ne_none_iff_exists'.mp fun hnone =>
      Option.some_ne_none _ (hfree hnone)
    obtain ⟨rfl, hdata⟩ := (Backing.flight hok hgone hup).opened hlocal
    refine (writeLoaded_local hr hlocal rfl hdata hbuf (hle.trans hs.le_max)).mono
      fun r w' hwrite => ?_
    obtain ⟨rfl, hl⟩ := hwrite
    have hdata' : w'.files (seg.name sp) = some (overwrite 0 a.bytes pos buf) := by simp [hl.files]
    refine ⟨⟨rfl, Frame.of_files ?_ hl.store, by rw [hl.held]; rfl⟩, fun hne => hne, Or.inl ⟨rfl,
      .flight ⟨?_, hok.backed_eq, fun _ => by simp [Segment.bare, hlocal],
        fun file' hf => ⟨(hok.opened file' hf).1, hdata'⟩, ⟨Or.inr hdata', fun hp => ?_⟩,
        fun _ hi => by simp [Segment.bare] at hi⟩ (fun hnone => by simp [hlocal] at hnone)
      (hup.mono hl.store rfl fun hd => by simp at hd)⟩⟩
    · rw [hl.files]
      exact (StoreParams.SameBut.refl _ _).update_data _
    · simp only [SegArray.write]
      rw [length_overwrite_of_le 0 (hok.length_eq ▸ hle), hok.length_eq]
    · rw [hl.files]
      exact (Function.update_of_ne (StoreParams.ne_eTagFileName _).symm _ _).trans
        (hok.cache.etag hp)

/-- A clean segment gives its local file up.  The bytes stay in the object, or on the way to it,
unless the segment is forgotten. -/
lemma Backing.drop (h : Backing sp law w seg a f) (hr : Reliable sp.env)
    (hlocal : seg.localFile ≠ none) (hclean : seg.dirty = false) (hheld : seg.holding sp ≤ w.held) :
    Returns (seg.dropFile sp) w fun r w' => r.2 = none ∧ SegMove sp law.toFaithful w seg w' r.1 ∧
      ∃ a', Backing sp law w' r.1 a' f ∧
        (a' = a ∨ f = none ∧ seg.Forgotten ∧ a' = .blank sp.segmentBytes) := by
  by_cases hsafe : f = none ∧ ¬ seg.Forgotten
  · obtain ⟨rfl, hn⟩ := hsafe
    refine (dropFile_segment hr h.inv hlocal hclean hn hheld).mono fun r w' hdrop => ?_
    obtain ⟨hstep, -, herr⟩ := hdrop
    exact ⟨herr, hstep.move, a, h.step hstep, Or.inl rfl⟩
  obtain ⟨file, hfile⟩ := Option.ne_none_iff_exists'.mp hlocal
  obtain ⟨rfl, hdata⟩ := h.opened hfile
  have hhold : seg.holding sp = sp.permit := by simp [Segment.holding, h.backed_eq, hfile]
  refine (dropFile_local hr hfile rfl hdata h.etag (hhold ▸ hheld)).mono fun r w' hdrop => ?_
  obtain ⟨rfl, hgone, hetag, hsame, hstore, hheld'⟩ := hdrop
  have hok : ∀ content : Bytes, content.length = sp.segmentBytes → SegOK sp law.toFaithful w'
      (Segment.bare { seg with localFile := none, backed := false }) content := fun content hlen =>
    ⟨hlen, rfl, fun hd => by simp [Segment.bare, hclean] at hd,
      fun _ hf => by simp [Segment.bare] at hf,
      ⟨Or.inl hgone, fun _ => hetag⟩, fun _ hi => by simp [Segment.bare] at hi⟩
  refine ⟨rfl, ⟨rfl, Frame.of_files hsame hstore, ?_⟩, ?_⟩
  · rw [hhold]
    simpa [Segment.holding] using hheld'
  cases h with
  | quiet hinv hkept _ =>
    have hforgot : seg.Forgotten := by
      by_contra hn
      exact hsafe ⟨rfl, hn⟩
    obtain ⟨ID, localFile, remoteItem, dirty, backed, lastRead, lastWrite⟩ := seg
    obtain rfl : remoteItem = none := hforgot.2.2
    refine ⟨.blank sp.segmentBytes, .quiet ⟨hok _ (by simp [SegArray.blank]), fun _ _ =>
      ⟨fun _ hi => by simp at hi, fun _ => rfl⟩⟩ (fun hf => ?_)
      (fun hw => by simp [SegArray.blank] at hw),
      Or.inr ⟨rfl, hforgot, rfl⟩⟩
    exact absurd hforgot (hkept hf).not_forgotten
  | flight hok' _ hup =>
    exact ⟨a, .flight (hok _ hok'.length_eq) (fun _ => hgone)
      (hup.mono hstore rfl fun hd => ⟨hd, rfl⟩), Or.inl rfl⟩

lemma Backing.snapshot (h : Backing sp law w seg a none) (hlocal : seg.localFile = some file)
    (errand : Errand) :
    Returns (sp.prepare file errand.buffered) w fun r w' => Leaves w w.files w' ∧
      (∀ e, r = .error e →
        Backing sp law w' { seg with dirty := false, remoteItem := none } a none) ∧
      ∀ src, r = .ok src →
        Backing sp law w' { seg with dirty := false } a (some (.sending errand file src)) := by
  have hinv := h.inv
  obtain ⟨rfl, hdata⟩ := h.opened hlocal
  refine (StoreParams.prepare_spec rfl hdata h.length_eq _).mono fun r w' hprep => ?_
  obtain ⟨hsrc, hgood, hl⟩ := hprep
  have hok : SegOK sp law.toFaithful w' { seg with dirty := false, remoteItem := none }
      a.bytes := by
    refine ⟨h.length_eq, h.backed_eq, fun hd => by simp at hd, ?_, ?_, fun _ hi => by simp at hi⟩
    · rw [hl.files]
      exact hinv.opened
    · rw [hl.files]
      exact hinv.cache
  have hne : seg.localFile ≠ none := by simp [hlocal]
  refine ⟨hl, ?_, ?_⟩
  · rintro e rfl
    refine .quiet ⟨hok, fun _ hn => absurd ⟨rfl, hne, rfl⟩ hn⟩ (fun hf => ?_) fun _ => Or.inl hne
    simpa using hgood hf
  · rintro src rfl
    refine .flight hok (fun hnone => absurd hnone hne)
      (.sending rfl h.length_eq (fun _ => rfl) (hsrc src rfl) fun hf => ?_)
    rw [Except.ok.inj (hgood hf)]

lemma Backing.upload {src : Reader} (h : Backing sp law w seg a (some (.sending errand file src))) :
    Returns (sp.upload (itoa seg.ID) src) w fun item w' =>
      Backing sp law w' seg a (some (.sent errand file item)) ∧
        SegMove sp law.toFaithful w seg w' seg := by
  cases h with
  | flight hok hgone hup =>
    cases hup with
    | sending hfile hlen hsnap hsrc hgood =>
      refine (StoreParams.upload_spec law (itoa seg.ID) hsrc).mono fun item w' hput => ?_
      obtain ⟨hcur, hgood', hkeeps, hobjects, hfiles, hheld⟩ := hput
      refine ⟨.flight ⟨hok.length_eq, hok.backed_eq, hok.dirty_local, ?_, ?_, fun _ hi => by
        simp [Segment.bare] at hi⟩ ?_
        (.sent hfile hlen hsnap hcur fun hf => hgood' hf hlen (hgood hf)),
        rfl, ⟨?_, hkeeps, hobjects⟩, by rw [hheld]⟩
      · rw [hfiles]
        exact hok.opened
      · rw [hfiles]
        exact hok.cache
      · rw [hfiles]
        exact hgone
      · rw [hfiles]
        exact StoreParams.SameBut.refl _ _

/-- An upload that has failed leaves the bytes in the local file, if that is still there. -/
lemma Backing.failed {e : GoError}
    (h : Backing sp law w seg a (some (.sent errand file (.error e)))) :
    ∃ a', Backing sp law w { seg with remoteItem := none } a' none ∧
      (a' = a ∨ seg.localFile = none ∧ a' = .blank sp.segmentBytes) := by
  cases h with
  | flight hok hgone hup =>
    cases hup with
    | sent hfile hlen hsnap hcur hgood =>
      have hfault : ¬ Faultless sp.env := fun hf => by simpa using hgood hf
      by_cases hlocal : seg.localFile = none
      · refine ⟨.blank sp.segmentBytes, .quiet ⟨⟨by simp [SegArray.blank], hok.backed_eq,
          hok.dirty_local, fun file hf => by simp [hlocal] at hf,
          ⟨Or.inl (hgone hlocal), hok.cache.etag⟩, fun _ hi => by simp at hi⟩,
          fun _ _ => ⟨fun _ hi => by simp at hi, fun _ => rfl⟩⟩ (fun hf => absurd hf hfault)
          (fun hw => by simp [SegArray.blank] at hw), Or.inr ⟨hlocal, rfl⟩⟩
      · refine ⟨a, .quiet ⟨hok, fun hd hn => absurd ⟨hd, hlocal, rfl⟩ hn⟩
          (fun hf => absurd hf hfault) fun _ => Or.inl hlocal, Or.inl rfl⟩

/-- An upload that has succeeded leaves them in the object, unless the segment is dirty again. -/
lemma Backing.finish {item : Item σ}
    (h : Backing sp law w seg a (some (.sent errand file (.ok item)))) :
    Returns (sp.finishSync file item) w fun _ w' =>
      Backing sp law w' { seg with remoteItem := some item } a none ∧
        SegMove sp law.toFaithful w seg w' { seg with remoteItem := some item } := by
  cases h with
  | flight hok hgone hup =>
    cases hup with
    | sent hfile hlen hsnap hcur hgood =>
      subst hfile
      have hcur := hcur item rfl
      refine (StoreParams.finishSync_spec (law.etag_total hcur)).mono fun err w' hfin => ?_
      obtain ⟨-, hstore, hheld, hsame, hdata, hetag⟩ := hfin
      rw [← hstore] at hcur
      refine ⟨.quiet ⟨⟨hok.length_eq, hok.backed_eq, hok.dirty_local, ?_, ⟨?_, ?_⟩, ?_⟩,
        fun hd _ => ⟨?_, fun hi => by simp at hi⟩⟩
        (fun _ => ⟨fun hf => by simp [Segment.Forgotten] at hf, fun hi => by simp at hi⟩)
        fun _ => Or.inr (by simp), rfl, Frame.of_files hsame hstore,
        by rw [hheld]; rfl⟩
      · intro file' hf
        obtain ⟨hname, hbytes⟩ := hok.opened file' hf
        exact ⟨hname, hdata.trans hbytes⟩
      · exact hok.cache.data.imp hdata.trans hdata.trans
      · intro hp
        rw [hetag hp]
        exact hok.cache.etag hp
      · intro it hit
        obtain rfl := Option.some.inj hit
        exact ⟨_, hcur, hlen⟩
      · intro it hit
        obtain rfl := Option.some.inj hit
        rw [hsnap hd] at hcur
        exact ⟨_, hcur⟩

end Backings

/-! ## What a section comes to -/

/-- The section gives the only copy of the bytes up: a deletion of a forgotten segment, or an upload
that has failed when the local file is gone. -/
def Cell.Loses (c : Cell σ) (t : ℕ) : Prop :=
  c.procs t = .called .deleteFile ∧ c.itemMu = none ∧ c.seg.Forgotten ∨
    (∃ errand file e, c.procs t = .sent errand file (.error e)) ∧ c.seg.localFile = none

/-- What a section comes to: what its call is at then, and the array. -/
inductive Outcome (sp : StoreParams σ) (w : World σ) (c : Cell σ) (t : ℕ) (a : SegArray) :
    Proc σ → SegArray → Prop
  | goes {p : Proc σ} {call : SegCall} (hcall : (c.procs t).call? = some call)
      (hgoes : p.call? = some call) : Outcome sp w c t a p a
  | read {buf : Bytes} {pos : ℕ} (hcall : (c.procs t).call? = some (.readAt buf pos)) :
      Outcome sp w c t a (.done (.read (slice a.bytes pos buf.length) buf.length none)) a
  | wrote {buf : Bytes} {pos : ℕ} (hcall : (c.procs t).call? = some (.writeAt buf pos)) :
      Outcome sp w c t a (.done (.wrote buf.length none)) (a.write buf pos)
  | skips {buf : Bytes} {pos : ℕ} (hcall : c.procs t = .called (.writeAt buf pos))
      (hskip : c.seg.Skips buf) : Outcome sp w c t a (.done (.wrote buf.length none)) a
  | readRefused {buf got : Bytes} {pos count : ℕ} {e : GoError}
      (hcall : (c.procs t).call? = some (.readAt buf pos)) (hroom : ¬ sp.Room w)
      (habsent : c.seg.localFile = none) :
      Outcome sp w c t a (.done (.read got count (some e))) a
  | writeRefused {buf : Bytes} {pos count : ℕ} {e : GoError}
      (hcall : (c.procs t).call? = some (.writeAt buf pos)) (hroom : ¬ sp.Room w)
      (habsent : c.seg.localFile = none) :
      Outcome sp w c t a (.done (.wrote count (some e))) a
  | flushed {buffered : Bool} {err : Option GoError}
      (hcall : (c.procs t).call? = some (.flush buffered)) :
      Outcome sp w c t a (.done (.flushed err)) a
  | deleted {err : Option GoError} (hcall : (c.procs t).call? = some .deleteFile) :
      Outcome sp w c t a (.done (.deleted err)) a
  | lost {res : SegResult} (hloses : c.Loses t) :
      Outcome sp w c t a (.done res) (.blank sp.segmentBytes)

/-- A section has run: goroutine `t` is at `p` then, and the cell stands for `a'`. -/
structure Passed (sp : StoreParams σ) (law : Plain sp.container) (w : World σ) (c : Cell σ) (t : ℕ)
    (a : SegArray) (w' : World σ) (c' : Cell σ) (p : Proc σ) (a' : SegArray) : Prop where
  procs_eq : c'.procs = Function.update c.procs t p
  inv : CellInv sp law w' c' a'
  move : SegMove sp law.toFaithful w c.seg w' c'.seg
  outcome : Outcome sp w c t a p a'
  absent : c'.itemMu ≠ none → c'.seg.localFile = none → c.itemMu ≠ none ∧
    (c.seg.localFile = none ∨ c.procs t = .called .deleteFile ∧ c.seg.backed = true ∧
      c.seg.dirty = false)

section Sections

variable {sp : StoreParams σ} {law : Plain sp.container} {w w' : World σ} {c : Cell σ} {t : ℕ}
  {a a' : SegArray} {p : Proc σ} {errand : Errand} {file : File}

/-- The upload on the way is not that of a goroutine that has none. -/
lemma LockInv.flight_eq (h : LockInv sp c) (herrand : (c.procs t).errand? = none) {c' : Cell σ}
    (hprocs : c'.procs = Function.update c.procs t p) (hitem : c'.itemMu = c.itemMu) :
    c'.flight = c.flight := by
  rw [Cell.flight, Cell.flight, hitem, hprocs]
  cases hmu : c.itemMu with
  | none => rfl
  | some u =>
    have hu : u ≠ t := by
      rintro rfl
      exact h.itemMu_ne herrand hmu
    simp [hu]

lemma CellInv.goto (h : CellInv sp law w c a) (hp : (c.procs t).Lockless) (hp' : p.Lockless)
    (hrange : ∀ call, p.call? = some call → call.InRange sp.segmentBytes) {seg : Segment σ}
    (hlocal : ¬ c.Free → seg.localFile = c.seg.localFile)
    (hclean : c.writer ≠ none → seg.dirty = c.seg.dirty)
    (hback : Backing sp law w' seg a' c.flight) :
    CellInv sp law w' ({ c with seg }.goto t p) a' where
  backing := by
    have hflight : ({ c with seg }.goto t p).flight = c.flight := h.locks.flight_eq hp.2 rfl rfl
    rw [hflight]
    exact hback
  locks := h.locks.goto hp hp' hrange hlocal hclean

lemma Cell.flight_eq_none (hitem : c.itemMu = none) : c.flight = none := by
  rw [Cell.flight, hitem]
  rfl

lemma Cell.flight_eq_some (hitem : c.itemMu = some t) : c.flight = some (c.procs t) := by
  rw [Cell.flight, hitem]
  rfl

section Sections

variable (h : CellInv sp law w c a)

include h

/-- The local file is there, or a section with the write lock has to look for it. -/
lemma startRead_spec (hr : Reliable sp.env) (hs : sp.Sized) {buf : Bytes} {pos : ℕ}
    (ht : c.procs t = .called (.readAt buf pos)) :
    Returns (c.startRead sp t buf pos) w fun c' w' => ∃ p a', Passed sp law w c t a w' c' p a' := by
  have hp : (c.procs t).Lockless := by
    rw [ht]
    exact ⟨rfl, rfl⟩
  have hcall : (c.procs t).call? = some (.readAt buf pos) := by
    rw [ht]
    rfl
  have hrange : pos + buf.length ≤ sp.segmentBytes := h.locks.range t _ hcall
  simp only [Cell.startRead, returns_bind, returns_timeNow]
  have htick : Leaves w w.files { w with tick := w.tick + 1 } := leaves_tick _ _
  have htouch := h.backing.touch htick (sp.env.now w.tick) c.seg.lastWrite
  have hmove₀ : SegMove sp law.toFaithful w c.seg { w with tick := w.tick + 1 }
      { c.seg with lastRead := sp.env.now w.tick } := SegMove.of_leaves htick rfl rfl
  by_cases hlocal : c.seg.localFile = none
  · rw [if_pos hlocal, returns_pure]
    refine ⟨.seeking buf pos, a, rfl, h.goto hp ⟨rfl, rfl⟩ ?_ (fun _ => rfl) (fun _ => rfl)
      htouch, hmove₀, .goes hcall rfl, fun hi hn => ⟨hi, .inl hn⟩⟩
    rintro call ⟨⟩
    exact hrange
  · rw [if_neg hlocal]
    simp only [Cell.read, returns_bind]
    refine (htouch.read hr hs (fun hnone => absurd hnone hlocal) (fun hnone => absurd hnone hlocal)
      hrange).mono
      fun r w₁ hr₁ => ?_
    obtain ⟨seg₁, res⟩ := r
    obtain ⟨hback, hmove, hsame, hres | ⟨-, hnone, -⟩⟩ := hr₁
    · obtain rfl := hsame hlocal
      obtain rfl : res = _ := hres
      simp only [returns_pure]
      exact ⟨_, a, rfl, h.goto hp ⟨rfl, rfl⟩ (by simp [Proc.call?]) (fun _ => rfl)
        (fun _ => rfl) hback, hmove₀.trans hmove, .read hcall,
        fun hi hn => ⟨hi, .inl hn⟩⟩
    · exact absurd hnone hlocal

/-- Zeros are skipped where there is no local file. -/
lemma startWrite_spec {buf : Bytes} {pos : ℕ} (ht : c.procs t = .called (.writeAt buf pos)) :
    Returns (c.startWrite sp t buf pos) w fun c' w' =>
      ∃ p a', Passed sp law w c t a w' c' p a' := by
  have hp : (c.procs t).Lockless := by
    rw [ht]
    exact ⟨rfl, rfl⟩
  have hcall : (c.procs t).call? = some (.writeAt buf pos) := by
    rw [ht]
    rfl
  simp only [Cell.startWrite, returns_bind, returns_timeNow]
  have htick : Leaves w w.files { w with tick := w.tick + 1 } := leaves_tick _ _
  have htouch := h.backing.touch htick c.seg.lastRead (sp.env.now w.tick)
  have hmove : SegMove sp law.toFaithful w c.seg { w with tick := w.tick + 1 }
      { c.seg with lastWrite := sp.env.now w.tick } := SegMove.of_leaves htick rfl rfl
  by_cases hskip : c.seg.Skips buf
  · rw [if_pos (show isZeros buf = true ∧ c.seg.localFile = none from hskip), returns_pure]
    exact ⟨_, a, rfl, h.goto hp ⟨rfl, rfl⟩ (by simp [Proc.call?]) (fun _ => rfl)
      (fun _ => rfl) htouch, hmove, .skips ht hskip, fun hi hn => ⟨hi, .inl hn⟩⟩
  · rw [if_neg (show ¬ (isZeros buf = true ∧ c.seg.localFile = none) from hskip), returns_pure]
    refine ⟨.storing buf pos, a, rfl, h.goto hp ⟨rfl, rfl⟩ ?_ (fun _ => rfl) (fun _ => rfl)
      htouch, hmove, .goes hcall rfl, fun hi hn => ⟨hi, .inl hn⟩⟩
    rintro call ⟨⟩
    exact h.locks.range t _ hcall

lemma read_spec (hr : Reliable sp.env) (hs : sp.Sized) (hload : CacheRun.LoadsWhole sp w c.seg)
    {buf : Bytes} {pos : ℕ} (ht : c.procs t = .seeking buf pos) (hfree : c.Loadable) :
    Returns (c.read sp t buf pos) w fun c' w' => ∃ p a', Passed sp law w c t a w' c' p a' := by
  have hp : (c.procs t).Lockless := by
    rw [ht]
    exact ⟨rfl, rfl⟩
  have hcall : (c.procs t).call? = some (.readAt buf pos) := by
    rw [ht]
    rfl
  simp only [Cell.read, returns_bind]
  refine (h.backing.read hr hs hload (fun hnone => Cell.flight_eq_none (hfree.2 hnone))
    (h.locks.range t _ hcall)).mono fun r w₁ hr₁ => ?_
  obtain ⟨seg₁, got, count, err⟩ := r
  obtain ⟨hback, hmove, hsame, hres⟩ := hr₁
  have habsent : seg₁.localFile = none → c.seg.localFile = none := by
    intro hnone
    by_contra hne
    exact hne (hsame hne ▸ hnone)
  simp only [returns_pure]
  refine ⟨_, a, rfl, h.goto hp ⟨rfl, rfl⟩ (by simp [Proc.call?])
    (fun hno => absurd hfree.1 hno) (fun hno => absurd hfree.1.2 hno) hback, hmove, ?_,
    fun hi hn => ⟨hi, .inl (habsent hn)⟩⟩
  rcases hres with hres | ⟨hroom, hnone, e, herr⟩
  · obtain ⟨rfl, rfl, rfl⟩ := (by simpa using hres :
      got = slice a.bytes pos buf.length ∧ count = buf.length ∧ err = none)
    exact .read hcall
  · obtain rfl : err = some e := herr
    exact .readRefused hcall hroom hnone

lemma write_spec (hr : Reliable sp.env) (hs : sp.Sized) (hload : CacheRun.LoadsWhole sp w c.seg)
    {buf : Bytes} {pos : ℕ} (ht : c.procs t = .storing buf pos) (hfree : c.Loadable) :
    Returns (c.write sp t buf pos) w fun c' w' => ∃ p a', Passed sp law w c t a w' c' p a' := by
  have hp : (c.procs t).Lockless := by
    rw [ht]
    exact ⟨rfl, rfl⟩
  have hcall : (c.procs t).call? = some (.writeAt buf pos) := by
    rw [ht]
    rfl
  obtain ⟨hbuf, hle⟩ := h.locks.range t _ hcall
  simp only [Cell.write, returns_bind]
  refine (h.backing.write hr hs hload (fun hnone => Cell.flight_eq_none (hfree.2 hnone))
    hbuf hle).mono fun r w₁ hr₁ => ?_
  obtain ⟨seg₁, count, err⟩ := r
  obtain ⟨hmove, hkeeps, hres⟩ := hr₁
  have habsent : seg₁.localFile = none → c.seg.localFile = none := by
    intro hnone
    by_contra hne
    exact hkeeps hne hnone
  simp only [returns_pure]
  have hinv : ∀ {a' : SegArray} {res : SegResult}, Backing sp law w₁ seg₁ a' c.flight →
      CellInv sp law w₁ ({ c with seg := seg₁ }.goto t (.done res)) a' := fun hback =>
    h.goto hp ⟨rfl, rfl⟩ (by simp [Proc.call?]) (fun hno => absurd hfree.1 hno)
      (fun hno => absurd hfree.1.2 hno) hback
  rcases hres with ⟨hres, hback⟩ | ⟨hroom, hnone, ⟨e, herr⟩, hback⟩
  · obtain ⟨rfl, rfl⟩ := Prod.mk.inj hres
    exact ⟨_, _, rfl, hinv hback, hmove, .wrote hcall, fun hi hn => ⟨hi, .inl (habsent hn)⟩⟩
  · obtain rfl : err = some e := herr
    exact ⟨_, _, rfl, hinv hback, hmove, .writeRefused hcall hroom hnone,
      fun hi hn => ⟨hi, .inl (habsent hn)⟩⟩

/-- A flush that has seen the segment dirty takes the read lock, if there is still a file. -/
lemma rLock_spec {buffered : Bool} (ht : c.procs t = .locking buffered) (hwriter : c.writer = none)
    : ∃ p a', Passed sp law w c t a w (c.rLock t buffered) p a' := by
  have hp : (c.procs t).Lockless := by
    rw [ht]
    exact ⟨rfl, rfl⟩
  have hcall : (c.procs t).call? = some (.flush buffered) := by
    rw [ht]
    rfl
  have hmove : SegMove sp law.toFaithful w c.seg w c.seg := ⟨rfl, Frame.refl, rfl⟩
  unfold Cell.rLock
  cases hlocal : c.seg.localFile with
  | none =>
    exact ⟨_, a, rfl, h.goto hp ⟨rfl, rfl⟩ (by simp [Proc.call?]) (fun _ => rfl) (fun _ => rfl)
      h.backing, hmove, .flushed hcall, fun hi hn => ⟨hi, .inl hn⟩⟩
  | some file =>
    have hflight : ({ c with readers := insert t c.readers }.goto t
        (.waiting buffered file)).flight = c.flight := h.locks.flight_eq hp.2 rfl rfl
    refine ⟨.waiting buffered file, a, rfl, ⟨?_, h.locks.rLock ht hwriter hlocal⟩, hmove,
      .goes hcall rfl, fun hi hn => ⟨hi, .inl hn⟩⟩
    rw [hflight]
    exact h.backing

lemma snapshot_spec (hitem : c.itemMu = none) (hlocal : c.seg.localFile = some file)
    (hcall : (c.procs t).call? = some errand.call) (hreads : t ∈ c.readers ↔ errand ≠ .evict)
    (hfree : errand = .evict → c.readers = ∅) :
    Returns (c.snapshot sp t errand file) w fun c' w' =>
      ∃ p a', Passed sp law w c t a w' c' p a' := by
  have hback : Backing sp law w c.seg a none := Cell.flight_eq_none hitem ▸ h.backing
  simp only [Cell.snapshot, returns_bind]
  refine (hback.snapshot hlocal errand).mono fun r w₁ hr₁ => ?_
  obtain ⟨hl, herr, hsrc⟩ := hr₁
  cases r with
  | error e =>
    simp only [returns_pure]
    refine ⟨.done (errand.failed e), a, rfl, ⟨?_, h.locks.abandon hitem rfl⟩,
      SegMove.of_leaves hl rfl rfl, ?_, fun hi => absurd hitem hi⟩
    · rw [Cell.flight_eq_none (by simpa using hitem)]
      exact herr e rfl
    · cases errand with
      | flush buffered => exact .flushed hcall
      | evict => exact .deleted hcall
  | ok src =>
    simp only [returns_pure]
    refine ⟨.sending errand file src, a, rfl, ⟨?_, h.locks.start hitem hlocal hreads hfree⟩,
      SegMove.of_leaves hl rfl rfl, .goes hcall rfl, fun _ hn => by simp [hlocal] at hn⟩
    rw [Cell.flight_eq_some rfl, Cell.goto_procs, Function.update_self]
    exact hsrc src rfl

lemma send_spec {src : Reader} (ht : c.procs t = .sending errand file src) :
    Returns (c.send sp t errand file src) w fun c' w' =>
      ∃ p a', Passed sp law w c t a w' c' p a' := by
  have hitem : c.itemMu = some t := (h.locks.itemMu t).mpr (by simp [ht, Proc.errand?])
  have hback : Backing sp law w c.seg a (some (.sending errand file src)) := by
    rw [← ht, ← Cell.flight_eq_some hitem]
    exact h.backing
  simp only [Cell.send, returns_bind, returns_pure]
  refine hback.upload.mono fun item w₁ h₁ => ?_
  obtain ⟨hback₁, hmove⟩ := h₁
  refine ⟨.sent errand file item, a, rfl, ⟨?_, h.locks.sent ht item⟩, hmove,
    .goes (by rw [ht]; rfl) rfl, fun hi hn => ⟨hi, .inl hn⟩⟩
  rw [Cell.flight_eq_some (t := t) (by simpa using hitem), Cell.goto_procs, Function.update_self]
  exact hback₁

/-- The end of an upload: the locks go, and with an eviction the local file. -/
lemma finish_spec (hr : Reliable sp.env) (hheld : c.seg.holding sp ≤ w.held)
    {item : Except GoError (Item σ)} (ht : c.procs t = .sent errand file item) :
    Returns (c.finish sp t errand file item) w fun c' w' =>
      ∃ p a', Passed sp law w c t a w' c' p a' := by
  have herrand : (c.procs t).errand? = some errand := by
    rw [ht]
    rfl
  have hcall : (c.procs t).call? = some errand.call := by
    rw [ht]
    rfl
  have hback : Backing sp law w c.seg a (some (.sent errand file item)) := by
    rw [← ht, ← Cell.flight_eq_some ((h.locks.itemMu t).mpr (by simp [herrand]))]
    exact h.backing
  have hfailed : ∀ e, Outcome sp w c t a (.done (errand.failed e)) a := by
    intro e
    cases errand with
    | flush buffered => exact .flushed hcall
    | evict => exact .deleted hcall
  cases item with
  | error e =>
    simp only [Cell.finish, returns_pure]
    -- the object is forgotten; where the local file has been dropped, so are the bytes
    obtain ⟨a', hback', ha'⟩ := hback.failed
    refine ⟨.done (errand.failed e), a', rfl, ⟨hback', h.locks.release herrand fun _ => rfl⟩,
      ⟨rfl, Frame.refl, rfl⟩, ?_, fun hi => absurd rfl hi⟩
    rcases ha' with rfl | ⟨hlocal, rfl⟩
    · exact hfailed e
    · exact .lost (.inr ⟨⟨_, _, _, ht⟩, hlocal⟩)
  | ok item =>
    simp only [Cell.finish, returns_bind]
    refine hback.finish.mono fun err w₁ h₁ => ?_
    obtain ⟨hback₁, hmove₁⟩ := h₁
    cases err with
    | some e =>
      simp only [returns_pure]
      exact ⟨_, a, rfl, ⟨hback₁, h.locks.release herrand fun _ => rfl⟩, hmove₁, hfailed e,
        fun hi => absurd rfl hi⟩
    | none =>
      cases errand with
      | flush buffered =>
        simp only [returns_pure]
        exact ⟨_, a, rfl, ⟨hback₁, h.locks.release herrand fun _ => rfl⟩, hmove₁, .flushed hcall,
          fun hi => absurd rfl hi⟩
      | evict =>
        obtain ⟨hclean, hlocal⟩ := h.locks.evicts (by simp [(h.locks.writer t).mpr herrand])
        have hheld₁ : Segment.holding sp { c.seg with remoteItem := some item } ≤ w₁.held := by
          have := hmove₁.held
          simp only [Segment.holding] at this hheld ⊢
          omega
        simp only [Cell.drop, returns_bind]
        refine (hback₁.drop hr hlocal hclean hheld₁).mono fun r w₂ h₂ => ?_
        obtain ⟨seg₂, err⟩ := r
        obtain ⟨rfl, hmove₂, a', hback₂, ha'⟩ := h₂
        obtain rfl : a' = a := ha'.resolve_right fun hlost => by simpa using hlost.2.1.2.2
        simp only [returns_pure]
        exact ⟨_, a', rfl, ⟨hback₂, h.locks.release herrand fun he => absurd rfl he⟩,
          hmove₁.trans hmove₂, .deleted hcall, fun hi => absurd rfl hi⟩

/-- `DeleteFile` up to its upload, or all of it if the segment is clean. -/
lemma delete_spec (hr : Reliable sp.env) (hheld : c.seg.holding sp ≤ w.held)
    (ht : c.procs t = .called .deleteFile) (hfree : c.Droppable) :
    Returns (c.delete sp t) w fun c' w' => ∃ p a', Passed sp law w c t a w' c' p a' := by
  have hp : (c.procs t).Lockless := by
    rw [ht]
    exact ⟨rfl, rfl⟩
  have hcall : (c.procs t).call? = some .deleteFile := by
    rw [ht]
    rfl
  have hinv : ∀ {w' : World σ} {seg : Segment σ} {a' : SegArray} {res : SegResult},
      Backing sp law w' seg a' c.flight →
      CellInv sp law w' ({ c with seg }.goto t (.done res)) a' := fun hback =>
    h.goto hp ⟨rfl, rfl⟩ (by simp [Proc.call?]) (fun hno => absurd hfree.1 hno)
      (fun hno => absurd hfree.1.2 hno) hback
  unfold Cell.delete
  cases hb : c.seg.backed with
  | false =>
    simp only [Bool.false_eq_true, if_false, returns_pure]
    exact ⟨_, a, rfl, hinv h.backing, ⟨rfl, Frame.refl, rfl⟩, .deleted hcall,
      fun hi hn => ⟨hi, .inl hn⟩⟩
  | true =>
    have hlocal : c.seg.localFile ≠ none := by
      intro hnone
      simp [h.backing.backed_eq, hnone] at hb
    cases hd : c.seg.dirty with
    | true =>
      obtain ⟨file, hfile⟩ := Option.ne_none_iff_exists'.mp hlocal
      simp only [if_true, hfile]
      exact snapshot_spec h (hfree.2 hb hd) hfile hcall (by simp [hfree.1.1]) fun _ => hfree.1.1
    | false =>
      simp only [if_true, Bool.false_eq_true, if_false, Cell.drop, returns_bind]
      refine (h.backing.drop hr hlocal hd hheld).mono fun r w₁ h₁ => ?_
      obtain ⟨seg₁, err⟩ := r
      obtain ⟨rfl, hmove, a', hback, ha'⟩ := h₁
      simp only [returns_pure]
      refine ⟨_, a', rfl, hinv hback, hmove, ?_, fun hi _ => ⟨hi, .inr ⟨ht, hb, hd⟩⟩⟩
      rcases ha' with rfl | ⟨hflight, hforgot, rfl⟩
      · exact .deleted hcall
      · exact .lost (.inl ⟨ht, by simpa [Cell.flight] using hflight, hforgot⟩)

/-- Every section that can run returns, and comes to one of the outcomes. -/
theorem next_spec (hr : Reliable sp.env) (hs : sp.Sized)
    (hload : (c.procs t).Loads → CacheRun.LoadsWhole sp w c.seg) (hheld : c.seg.holding sp ≤ w.held)
    {m : Go σ (Cell σ)} (hnext : c.next sp t = some m) :
    Returns m w fun c' w' => ∃ p a', Passed sp law w c t a w' c' p a' := by
  obtain ⟨p, ht, hsection⟩ := Cell.next_section hnext
  cases hsection with
  | startRead hwriter => exact startRead_spec h hr hs ht
  | startWrite hwriter => exact startWrite_spec h ht
  | @startFlush buffered =>
    have hp : (c.procs t).Lockless := by
      rw [ht]
      exact ⟨rfl, rfl⟩
    have hcall : (c.procs t).call? = some (.flush buffered) := by
      rw [ht]
      rfl
    rw [returns_pure]
    refine ⟨_, a, rfl, h.goto hp ?_ ?_ (fun _ => rfl) (fun _ => rfl) h.backing,
      ⟨rfl, Frame.refl, rfl⟩, ?_, fun hi hn => ⟨hi, .inl hn⟩⟩
    · split_ifs <;> exact ⟨rfl, rfl⟩
    · intro call hcall'
      split_ifs at hcall' <;> cases hcall'
      trivial
    · split_ifs
      · exact .goes hcall rfl
      · exact .flushed hcall
  | delete hfree => exact delete_spec h hr hheld ht hfree
  | read hfree => exact read_spec h hr hs (hload (by rw [ht]; trivial)) ht hfree
  | write hfree => exact write_spec h hr hs (hload (by rw [ht]; trivial)) ht hfree
  | rLock hwriter =>
    rw [returns_pure]
    exact rLock_spec h ht hwriter
  | @snapshot buffered file hitem =>
    refine snapshot_spec h hitem (h.locks.waiting t buffered file ht) (by rw [ht]; rfl) ?_ (by simp)
    simp [h.locks.readers, ht, Proc.readsFile]
  | send => exact send_spec h ht
  | finish => exact finish_spec h hr hheld ht

/-- Nothing is lost without faults. -/
lemma CellInv.not_loses (hf : Faultless sp.env) : ¬ c.Loses t := by
  have hback := h.backing
  rintro (⟨-, hitem, hforgot⟩ | ⟨⟨errand, file, e, ht⟩, -⟩)
  · rw [Cell.flight_eq_none hitem] at hback
    cases hback with
    | quiet _ hkept _ => exact (hkept hf).not_forgotten hforgot
  · rw [Cell.flight_eq_some ((h.locks.itemMu t).mpr (by simp [ht, Proc.errand?])), ht] at hback
    cases hback with
    | flight _ _ hup =>
      cases hup with
      | sent _ _ _ _ hgood => simpa using hgood hf

end Sections

/-! ## Steps -/

lemma Cell.step_call {call : SegCall} {r : Cell σ × World σ}
    (hstep : c.step sp w (.call t call) = some r) :
    c.procs t = .idle ∧ r = (c.goto t (.called call), w) := by
  unfold Cell.step at hstep
  cases ht : c.procs t with
  | idle => exact ⟨rfl, by simpa [ht] using hstep.symm⟩
  | _ => simp [ht] at hstep

lemma Cell.step_ret {r : Cell σ × World σ} (hstep : c.step sp w (.ret t) = some r) :
    ∃ res, c.procs t = .done res ∧ r = (c.goto t .idle, w) := by
  unfold Cell.step at hstep
  cases ht : c.procs t with
  | done res => exact ⟨res, rfl, by simpa [ht] using hstep.symm⟩
  | _ => simp [ht] at hstep

lemma Cell.step_move {r : Cell σ × World σ} (hstep : c.step sp w (.move t) = some r) :
    ∃ m, c.next sp t = some m ∧ m w = .ok r := by
  obtain ⟨m, hm, hr⟩ := Option.bind_eq_some_iff.mp hstep
  refine ⟨m, hm, ?_⟩
  cases hmw : m w with
  | error e => simp [hmw, Except.toOption] at hr
  | ok r' =>
    rw [hmw] at hr
    exact congrArg _ (Option.some.inj hr)

lemma CellInv.call (h : CellInv sp law w c a) {call : SegCall}
    (hrange : call.InRange sp.segmentBytes) (hidle : c.procs t = .idle) :
    CellInv sp law w (c.goto t (.called call)) a := by
  refine h.goto (by rw [hidle]; exact ⟨rfl, rfl⟩) ⟨rfl, rfl⟩ ?_ (fun _ => rfl)
    (fun _ => rfl) h.backing
  rintro call' ⟨⟩
  exact hrange

lemma CellInv.ret (h : CellInv sp law w c a) {res : SegResult} (hdone : c.procs t = .done res) :
    CellInv sp law w (c.goto t .idle) a :=
  h.goto (by rw [hdone]; exact ⟨rfl, rfl⟩) ⟨rfl, rfl⟩ (by simp [Proc.call?]) (fun _ => rfl)
    (fun _ => rfl) h.backing

lemma SegInv.new {ID : ℕ}
    (hcache : sp.CacheOf w.files (sp.itemName (itoa ID)) (zeros sp.segmentBytes)) :
    SegInv sp law.toFaithful w (.new ID) (zeros sp.segmentBytes) where
  length_eq := length_zeros _
  backed_eq := rfl
  dirty_local hd := by cases hd
  opened _ hf := by cases hf
  cache := hcache
  remote _ hi := by cases hi
  synced _ _ :=
    { remote := fun _ hi => by cases hi
      zeros := fun _ => rfl }

lemma Kept.new {ID : ℕ} (habsent : law.objects w.store (sp.itemName (itoa ID)) = none) :
    Kept sp law.toFaithful w (.new ID) :=
  ⟨fun hf => hf.2.1 rfl, fun _ => habsent⟩

lemma CellInv.new {seg : Segment σ} {bytes : Bytes} (hinv : SegInv sp law.toFaithful w seg bytes)
    (hkept : Kept sp law.toFaithful w seg) : CellInv sp law w (.new seg) ⟨bytes, false⟩ where
  backing := .quiet hinv (fun _ => hkept) fun hw => by simp at hw
  locks := .new seg

/-- The locks are never in each other's way: while a call is under way, some section can run. -/
theorem exists_next (h : CellInv sp law w c a) {call : SegCall}
    (hcall : (c.procs t).call? = some call) : ∃ u, c.next sp u ≠ none := by
  cases hitem : c.itemMu with
  | some u =>
    -- the upload on the way goes on
    have hup := (h.locks.itemMu u).mp hitem
    refine ⟨u, ?_⟩
    unfold Cell.next
    cases hu : c.procs u with
    | sending errand file src => simp
    | sent errand file item => simp
    | _ => simp [hu, Proc.errand?] at hup
  | none =>
    have hwriter := h.locks.writer_eq_none hitem
    by_cases hreaders : c.readers = ∅
    · have hfree : c.Free := ⟨hreaders, hwriter⟩
      refine ⟨t, ?_⟩
      unfold Cell.next
      cases ht : c.procs t with
      | idle => simp [ht, Proc.call?] at hcall
      | done res => simp [ht, Proc.call?] at hcall
      | called call => cases call <;> simp [hwriter, Cell.Droppable, hfree, hitem]
      | seeking buf pos => simp [Cell.Loadable, hfree, hitem]
      | storing buf pos => simp [Cell.Loadable, hfree, hitem]
      | _ => simp [hwriter, hitem]
    · -- a flush with the read lock has no other to wait for
      obtain ⟨u, hu⟩ := Finset.nonempty_iff_ne_empty.mpr hreaders
      have hreads := (h.locks.readers u).mp hu
      have herrand : (c.procs u).errand? = none := by
        by_contra hne
        simp [(h.locks.itemMu u).mpr hne] at hitem
      obtain ⟨buffered, file, hwait⟩ := Proc.eq_waiting hreads herrand
      exact ⟨u, by simp [Cell.next, hwait, hitem]⟩

end Sections

end Usbd
