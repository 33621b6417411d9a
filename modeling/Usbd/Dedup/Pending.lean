import Usbd.Dedup.Positions
import Usbd.Foundations.Machine

/-!
# Concurrent calls and pending blocks

Any number of `ReadAt` and `WriteAt` calls on one dedup disk, cut where another goroutine can come
between: a block write into its lookup, the two critical sections of `PutBlock` with the file write
between them, the put into the database and the put into the LUN map; a read into the loads of its
ids and, for each id, the look at `pendingWrites` and the read of the file.  No `Close` is among the
calls, so that `optMu` holds nobody up.  Any store may fail at any of these points.

`PutBlock` marks its id as pending before the block is written, and a reader that finds an id
pending waits for it in a way that would stop the program: `Cond.Wait` unlocks a write lock, and the
reader has a read lock.  That does not happen, because an id gets out of `PutBlock` only when it is
pending no more: whatever a call, the database or the map knows is the reserved id or one whose
`PutBlock` has returned (`Inv`).
-/

namespace Usbd

open ListMemory Endian Machine

instance (dd : DedupDisk) (len : ℕ) (pos : ℤ) : Decidable (dd.Passes len pos) :=
  inferInstanceAs (Decidable (_ ∧ _))

/-! ## Calls -/

/-- Where a `GetBlock` is. -/
inductive FetchPc
  | checking
  /-- In `Cond.Wait`. -/
  | waiting
  | reading
  | returned (got : Bytes × Option GoError)
  deriving DecidableEq

/-- A `GetBlock` of so many bytes. -/
structure Fetch where
  dedupID : ℕ
  len : ℕ
  pc : FetchPc
  deriving DecidableEq

/-- `GetBlock`, up to where another goroutine can come between. -/
def Fetch.next (f : Fetch) (fbs : FileBlockStore) : Option Fetch :=
  match f.pc with
  | .checking =>
    if f.dedupID = zeroBlockID then some { f with pc := .returned (zeros fbs.blockSize, none) }
    else if f.dedupID ∈ fbs.pendingWrites then some { f with pc := .waiting }
    else some { f with pc := .reading }
  | .reading =>
    some { f with
      pc := .returned (fileReadAt fbs.file f.len ((f.dedupID * fbs.blockSize : ℕ) : ℤ)) }
  | .waiting => none
  | .returned _ => none

/-- Where the write of a block is. -/
inductive BlockPc
  | called
  | lookup
  /-- The ID store does not have the hash. -/
  | missed (hash : Bytes)
  /-- Between the first critical section of `PutBlock` and its file write. -/
  | allocated (hash : Bytes) (dedupID filePos : ℕ)
  /-- Between the file write and the second critical section. -/
  | written (hash : Bytes) (dedupID : ℕ) (err : Option GoError)
  /-- `PutBlock` has returned. -/
  | stored (hash : Bytes) (dedupID : ℕ)
  | entering (dedupID : ℕ)
  deriving DecidableEq

/-- How far a call has got.  A write has its present block and those behind it. -/
inductive DedupCall
  | idle
  | writing (buf : Bytes) (pos : ℤ) (pc : BlockPc) (rest : List (Bytes × ℤ))
  | loading (block n : ℕ) (dedupIDs : List ℕ)
  | fetching (fetches : List Fetch)
  | panicked
  deriving DecidableEq

namespace DedupCall

/-- The blocks of a long write, each with its position. -/
def pieces (blockSize : ℕ) : ℕ → Bytes → ℤ → List (Bytes × ℤ)
  | 0, _, _ => []
  | n + 1, buf, pos =>
    (buf.take blockSize, pos) ::
      pieces blockSize n (buf.drop blockSize) (wrapInt64 (pos + blockSize))

/-- On to the next block of a write, or back. -/
def nextBlock : List (Bytes × ℤ) → DedupCall
  | [] => idle
  | (buf, pos) :: rest => writing buf pos .called rest

/-- `WriteAt` is called.  The checks of a short write are its first step. -/
def startWrite (dd : DedupDisk) (buf : Bytes) (pos : ℤ) : DedupCall :=
  if buf.length > dd.blockSize then
    if dd.shutdown = false ∧ dd.Passes buf.length pos then
      nextBlock (pieces dd.blockSize (buf.length / dd.blockSize) buf pos)
    else idle
  else writing buf pos .called []

/-- `ReadAt` is called. -/
def startRead (dd : DedupDisk) (len : ℕ) (pos : ℤ) : DedupCall :=
  if dd.shutdown = false ∧ dd.Passes len pos then
    let block := (pos.tdiv dd.blockSize).toNat
    if len > dd.blockSize then
      match dd.lunMap.getIDs block (len / dd.blockSize) with
      | .error _ => panicked
      | .ok (.error _) => idle
      | .ok (.ok _) => loading block (len / dd.blockSize) []
    else
      match dd.lunMap.getID block with
      | .error _ => panicked
      | .ok (.error _) => idle
      | .ok (.ok dedupID) => fetching [⟨dedupID, len, .checking⟩]
  else idle

/-- The next load of `copy(dedupIds, lm.ids[startBlock:end])`; behind the last one the blocks are
fetched, all at a time. -/
def load (dd : DedupDisk) (block n : ℕ) (dedupIDs : List ℕ) : DedupCall :=
  match n with
  | 0 => fetching (dedupIDs.map fun dedupID => ⟨dedupID, dd.blockSize, .checking⟩)
  | n + 1 =>
    match dd.lunMap.ids[block]? with
    | none => panicked
    | some dedupID => loading (block + 1) n (dedupIDs ++ [dedupID])

/-- The id of a `PutBlock` under way. -/
def held : DedupCall → Option ℕ
  | writing _ _ (.allocated _ dedupID _) _ => some dedupID
  | writing _ _ (.written _ dedupID _) _ => some dedupID
  | _ => none

@[simp] lemma held_nextBlock (rest : List (Bytes × ℤ)) : (nextBlock rest).held = none := by
  cases rest <;> rfl

end DedupCall

/-! ## The disk and its calls -/

/-- A disk with its calls.  `stored` are the ids whose `PutBlock` has returned without an error. -/
structure DedupTraffic where
  dd : DedupDisk
  stored : List ℕ
  calls : ℕ → DedupCall

/-- What the calls do as their goroutines take turns. -/
inductive DedupEvent
  | write (t : ℕ) (buf : Bytes) (pos : ℤ)
  | read (t : ℕ) (len : ℕ) (pos : ℤ)
  | move (t : ℕ) (faults : BlockFaults)
  | fetch (t i : ℕ)

namespace DedupTraffic

def new (dd : DedupDisk) : DedupTraffic := ⟨dd, [], fun _ => .idle⟩

def goto (s : DedupTraffic) (t : ℕ) (c : DedupCall) : DedupTraffic :=
  { s with calls := Function.update s.calls t c }

/-- One step of a block write. -/
def writeStep (sha1 : Bytes → Bytes) (s : DedupTraffic) (t : ℕ) (buf : Bytes) (pos : ℤ)
    (rest : List (Bytes × ℤ)) (faults : BlockFaults) : BlockPc → DedupTraffic
  | .called =>
    if s.dd.shutdown = false ∧ s.dd.Passes buf.length pos then
      s.goto t (.writing buf pos .lookup rest)
    else s.goto t (.nextBlock rest)
  | .lookup =>
    match s.dd.idStore.getID sha1 buf faults.dbGet with
    | (dedupID, _, none) => s.goto t (.writing buf pos (.entering dedupID) rest)
    | (_, hash, some err) =>
      if err = errNotPresent then s.goto t (.writing buf pos (.missed hash) rest)
      else s.goto t (.nextBlock rest)
  | .missed hash =>
    let ((filePos, dedupID), blockStore) := s.dd.blockStore.allocate
    { s with dd := { s.dd with blockStore } }.goto t
      (.writing buf pos (.allocated hash dedupID filePos) rest)
  | .allocated hash dedupID filePos =>
    let (err, blockStore) := s.dd.blockStore.write buf filePos faults.file
    { s with dd := { s.dd with blockStore } }.goto t
      (.writing buf pos (.written hash dedupID err) rest)
  | .written _ dedupID (some _) =>
    let blockStore := s.dd.blockStore.complete dedupID
    { s with dd := { s.dd with blockStore } }.goto t (.nextBlock rest)
  | .written hash dedupID none =>
    let blockStore := s.dd.blockStore.complete dedupID
    { s with dd := { s.dd with blockStore }, stored := dedupID :: s.stored }.goto t
      (.writing buf pos (.stored hash dedupID) rest)
  | .stored hash dedupID =>
    let idStore := (s.dd.idStore.putID hash dedupID faults.dbSet).2
    { s with dd := { s.dd with idStore } }.goto t (.writing buf pos (.entering dedupID) rest)
  | .entering dedupID =>
    match s.dd.lunMap.putID (pos.tdiv s.dd.blockSize).toNat dedupID faults.lunPut with
    | .error _ => s.goto t .panicked
    | .ok (_, lunMap) => { s with dd := { s.dd with lunMap } }.goto t (.nextBlock rest)

/-- One step of one goroutine. -/
def step (sha1 : Bytes → Bytes) (s : DedupTraffic) : DedupEvent → Option DedupTraffic
  | .write t buf pos =>
    match s.calls t with
    | .idle => some (s.goto t (.startWrite s.dd buf pos))
    | _ => none
  | .read t len pos =>
    match s.calls t with
    | .idle => some (s.goto t (.startRead s.dd len pos))
    | _ => none
  | .move t faults =>
    match s.calls t with
    | .writing buf pos pc rest => some (s.writeStep sha1 t buf pos rest faults pc)
    | .loading block n dedupIDs => some (s.goto t (.load s.dd block n dedupIDs))
    | .fetching fetches =>
      if ∀ f ∈ fetches, f.next s.dd.blockStore = none ∧ f.pc ≠ .waiting then some (s.goto t .idle)
      else none
    | .idle => none
    | .panicked => none
  | .fetch t i =>
    match s.calls t with
    | .fetching fetches =>
      match fetches[i]? with
      | none => none
      | some f => (f.next s.dd.blockStore).map fun f' => s.goto t (.fetching (fetches.set i f'))
    | _ => none

lemma goto_calls_self (s : DedupTraffic) (t : ℕ) (c : DedupCall) : (s.goto t c).calls t = c :=
  Function.update_self ..

lemma goto_calls_of_ne (s : DedupTraffic) {t u : ℕ} (c : DedupCall) (h : u ≠ t) :
    (s.goto t c).calls u = s.calls u :=
  Function.update_of_ne h ..

/-! ## What is known -/

/-- The reserved id, or one whose `PutBlock` has returned. -/
def Known (stored : List ℕ) (dedupID : ℕ) : Prop := dedupID = zeroBlockID ∨ dedupID ∈ stored

lemma Known.cons {stored : List ℕ} {dedupID : ℕ} (h : Known stored dedupID) (a : ℕ) :
    Known (a :: stored) dedupID :=
  h.imp id (List.mem_cons_of_mem a)

end DedupTraffic

open DedupTraffic

/-- What a call may have in its hands. -/
def DedupCall.Sound (fbs : FileBlockStore) (stored : List ℕ) : DedupCall → Prop
  | .writing _ _ (.allocated _ dedupID filePos) _ =>
    dedupID < fbs.nextID ∧ dedupID ∉ stored ∧ filePos = dedupID * fbs.blockSize
  | .writing _ _ (.written _ dedupID err) _ =>
    dedupID < fbs.nextID ∧ dedupID ∉ stored ∧ (err = none → dedupID * fbs.blockSize ≤ maxOffset)
  | .writing _ _ (.stored _ dedupID) _ => Known stored dedupID
  | .writing _ _ (.entering dedupID) _ => Known stored dedupID
  | .loading _ _ dedupIDs => ∀ dedupID ∈ dedupIDs, Known stored dedupID
  | .fetching fetches => ∀ f ∈ fetches, Known stored f.dedupID ∧ f.pc ≠ .waiting
  | _ => True

namespace DedupCall

variable {fbs fbs' : FileBlockStore} {stored : List ℕ} {c : DedupCall}

lemma Sound.mono (h : c.Sound fbs stored) (hbs : fbs'.blockSize = fbs.blockSize)
    (hnext : fbs.nextID ≤ fbs'.nextID) : c.Sound fbs' stored := by
  cases c with
  | writing buf pos pc rest =>
    cases pc with
    | allocated hash dedupID filePos => exact ⟨h.1.trans_le hnext, h.2.1, hbs ▸ h.2.2⟩
    | written hash dedupID err => exact ⟨h.1.trans_le hnext, h.2.1, hbs ▸ h.2.2⟩
    | _ => exact h
  | _ => exact h

lemma Sound.cons (h : c.Sound fbs stored) {dedupID : ℕ} (hne : c.held ≠ some dedupID) :
    c.Sound fbs (dedupID :: stored) := by
  cases c with
  | writing buf pos pc rest =>
    cases pc with
    | allocated hash id filePos =>
      refine ⟨h.1, List.not_mem_cons_of_ne_of_not_mem (fun heq => hne ?_) h.2.1, h.2.2⟩
      rw [held, heq]
    | written hash id err =>
      refine ⟨h.1, List.not_mem_cons_of_ne_of_not_mem (fun heq => hne ?_) h.2.1, h.2.2⟩
      rw [held, heq]
    | stored hash id => exact Known.cons h dedupID
    | entering id => exact Known.cons h dedupID
    | _ => trivial
  | loading block n ids => exact fun id hid => (h id hid).cons dedupID
  | fetching fetches => exact fun f hf => ⟨(h f hf).1.cons dedupID, (h f hf).2⟩
  | _ => trivial

lemma Sound.held_lt (h : c.Sound fbs stored) {dedupID : ℕ} (hheld : c.held = some dedupID) :
    dedupID < fbs.nextID := by
  cases c with
  | writing buf pos pc rest =>
    cases pc with
    | allocated hash id filePos => exact Option.some.inj hheld ▸ h.1
    | written hash id err => exact Option.some.inj hheld ▸ h.1
    | _ => cases hheld
  | _ => cases hheld

lemma sound_nextBlock (rest : List (Bytes × ℤ)) : (nextBlock rest).Sound fbs stored := by
  cases rest <;> trivial

end DedupCall

namespace DedupTraffic

variable {sha1 : Bytes → Bytes} {s s' : DedupTraffic} {t : ℕ}

/-- What holds in every state. -/
structure Inv (s : DedupTraffic) : Prop where
  pos : 0 < s.dd.blockStore.blockSize
  tied : s.dd.blockStore.Tied
  pending_lt : ∀ dedupID ∈ s.dd.blockStore.pendingWrites, dedupID < s.dd.blockStore.nextID
  stored_le : ∀ dedupID ∈ s.stored, dedupID < s.dd.blockStore.nextID ∧ dedupID ≤ maxOffset
  not_pending : ∀ dedupID ∈ s.stored, dedupID ∉ s.dd.blockStore.pendingWrites
  ids : ∀ dedupID ∈ s.dd.lunMap.ids, Known s.stored dedupID
  entries : ∀ hash rawVal, s.dd.idStore.db hash = some rawVal →
    Known s.stored (ofLE (rawVal.take 8))
  sound : ∀ t, (s.calls t).Sound s.dd.blockStore s.stored
  held_inj : ∀ t u dedupID, (s.calls t).held = some dedupID → (s.calls u).held = some dedupID →
    t = u

/-- No other call holds the id. -/
def Unheld (s : DedupTraffic) (t dedupID : ℕ) : Prop :=
  ∀ u, u ≠ t → (s.calls u).held ≠ some dedupID

lemma Inv.unheld (h : s.Inv) {dedupID : ℕ} (hheld : (s.calls t).held = some dedupID) :
    s.Unheld t dedupID :=
  fun u hu heq => hu (h.held_inj u t dedupID heq hheld)

lemma Inv.goto (h : s.Inv) {c : DedupCall} (hc : c.Sound s.dd.blockStore s.stored)
    (hheld : ∀ dedupID, c.held = some dedupID → s.Unheld t dedupID) : (s.goto t c).Inv where
  pos := h.pos
  tied := h.tied
  pending_lt := h.pending_lt
  stored_le := h.stored_le
  not_pending := h.not_pending
  ids := h.ids
  entries := h.entries
  sound u := by
    by_cases hu : u = t
    · rw [hu, goto_calls_self]
      exact hc
    · rw [goto_calls_of_ne s c hu]
      exact h.sound u
  held_inj u v dedupID hu hv := by
    by_cases hut : u = t <;> by_cases hvt : v = t
    · rw [hut, hvt]
    · rw [hut, goto_calls_self] at hu
      rw [goto_calls_of_ne s c hvt] at hv
      exact absurd hv (hheld dedupID hu v hvt)
    · rw [goto_calls_of_ne s c hut] at hu
      rw [hvt, goto_calls_self] at hv
      exact absurd hu (hheld dedupID hv u hut)
    · rw [goto_calls_of_ne s c hut] at hu
      rw [goto_calls_of_ne s c hvt] at hv
      exact h.held_inj u v dedupID hu hv

lemma Inv.goto_free (h : s.Inv) {c : DedupCall} (hc : c.Sound s.dd.blockStore s.stored)
    (hheld : c.held = none) : (s.goto t c).Inv :=
  h.goto hc fun dedupID heq => by simp [hheld] at heq

lemma Inv.allocate (h : s.Inv) (t : ℕ) (buf : Bytes) (pos : ℤ) (hash : Bytes)
    (rest : List (Bytes × ℤ)) :
    ({ s with dd := { s.dd with blockStore := s.dd.blockStore.allocate.2 } }.goto t
      (.writing buf pos (.allocated hash s.dd.blockStore.nextID s.dd.blockStore.nextPos)
        rest)).Inv := by
  have hnew : s.dd.blockStore.nextID ∉ s.stored :=
    fun hmem => lt_irrefl _ (h.stored_le _ hmem).1
  have hstep : Inv { s with dd := { s.dd with blockStore := s.dd.blockStore.allocate.2 } } :=
    { pos := h.pos
      tied := by
        have ht := h.tied
        simp only [FileBlockStore.Tied, FileBlockStore.allocate] at ht ⊢
        rw [ht, Nat.succ_mul]
      pending_lt := by
        intro dedupID hmem
        rcases List.mem_cons.mp hmem with rfl | hmem
        · exact Nat.lt_succ_self _
        · exact Nat.lt_succ_of_lt (h.pending_lt dedupID hmem)
      stored_le := fun dedupID hmem =>
        ⟨Nat.lt_succ_of_lt (h.stored_le dedupID hmem).1, (h.stored_le dedupID hmem).2⟩
      not_pending := fun dedupID hmem =>
        List.not_mem_cons_of_ne_of_not_mem (fun heq => hnew (heq ▸ hmem))
          (h.not_pending dedupID hmem)
      ids := h.ids
      entries := h.entries
      sound := fun u => (h.sound u).mono rfl (Nat.le_succ _)
      held_inj := h.held_inj }
  refine hstep.goto ⟨Nat.lt_succ_self _, hnew, h.tied⟩ fun dedupID heq u _ hu => ?_
  -- the other calls hold ids from before
  obtain rfl : s.dd.blockStore.nextID = dedupID := Option.some.inj heq
  exact lt_irrefl _ ((h.sound u).held_lt hu)

/-- The file write and the second critical section leave the counters as they are. -/
lemma Inv.setStore (h : s.Inv) (fbs : FileBlockStore)
    (hbs : fbs.blockSize = s.dd.blockStore.blockSize)
    (hid : fbs.nextID = s.dd.blockStore.nextID) (hpos : fbs.nextPos = s.dd.blockStore.nextPos)
    (hpending : ∀ dedupID ∈ fbs.pendingWrites, dedupID ∈ s.dd.blockStore.pendingWrites) :
    Inv { s with dd := { s.dd with blockStore := fbs } } where
  pos := hbs ▸ h.pos
  tied := by
    have ht := h.tied
    simp only [FileBlockStore.Tied] at ht ⊢
    rw [hpos, hid, hbs, ht]
  pending_lt dedupID hmem := hid ▸ h.pending_lt dedupID (hpending dedupID hmem)
  stored_le dedupID hmem := hid ▸ h.stored_le dedupID hmem
  not_pending dedupID hmem hin := h.not_pending dedupID hmem (hpending dedupID hin)
  ids := h.ids
  entries := h.entries
  sound u := (h.sound u).mono hbs hid.ge
  held_inj := h.held_inj

lemma mem_of_mem_complete {fbs : FileBlockStore} {dedupID id : ℕ}
    (h : id ∈ (fbs.complete dedupID).pendingWrites) : id ∈ fbs.pendingWrites ∧ id ≠ dedupID := by
  simpa [FileBlockStore.complete] using h

lemma Inv.store (h : s.Inv) {buf : Bytes} {pos : ℤ} {hash : Bytes} {dedupID : ℕ}
    {rest : List (Bytes × ℤ)}
    (hcall : s.calls t = .writing buf pos (.written hash dedupID none) rest) :
    ({ s with
      dd := { s.dd with blockStore := s.dd.blockStore.complete dedupID }
      stored := dedupID :: s.stored }.goto t
        (.writing buf pos (.stored hash dedupID) rest)).Inv := by
  have hsound := h.sound t
  rw [hcall] at hsound
  obtain ⟨hlt, -, hmax⟩ := hsound
  have hunheld : s.Unheld t dedupID := h.unheld (by rw [hcall]; rfl)
  -- the id goes from the pending ones to the stored ones in one step
  exact
    { pos := h.pos
      tied := h.tied
      pending_lt := fun id hmem => h.pending_lt id (mem_of_mem_complete hmem).1
      stored_le := by
        intro id hmem
        rcases List.mem_cons.mp hmem with rfl | hmem
        · exact ⟨hlt, (Nat.le_mul_of_pos_right _ h.pos).trans (hmax rfl)⟩
        · exact h.stored_le id hmem
      not_pending := by
        intro id hmem hin
        obtain ⟨hold, hne⟩ := mem_of_mem_complete hin
        rcases List.mem_cons.mp hmem with rfl | hmem
        · exact hne rfl
        · exact h.not_pending id hmem hold
      ids := fun id hmem => (h.ids id hmem).cons dedupID
      entries := fun hash rawVal hdb => (h.entries hash rawVal hdb).cons dedupID
      sound := by
        intro u
        by_cases hu : u = t
        · rw [hu, goto_calls_self]
          exact Or.inr List.mem_cons_self
        · rw [goto_calls_of_ne _ _ hu]
          exact ((h.sound u).mono rfl le_rfl).cons (hunheld u hu)
      held_inj := by
        intro u v id hu hv
        by_cases hut : u = t
        · rw [hut, goto_calls_self] at hu
          cases hu
        · by_cases hvt : v = t
          · rw [hvt, goto_calls_self] at hv
            cases hv
          · rw [goto_calls_of_ne _ _ hut] at hu
            rw [goto_calls_of_ne _ _ hvt] at hv
            exact h.held_inj u v id hu hv }

lemma Inv.putID (h : s.Inv) {dedupID : ℕ} (hknown : Known s.stored dedupID) (hash : Bytes)
    (fault : Option Bool) :
    Inv { s with dd := { s.dd with idStore := (s.dd.idStore.putID hash dedupID fault).2 } } where
  pos := h.pos
  tied := h.tied
  pending_lt := h.pending_lt
  stored_le := h.stored_le
  not_pending := h.not_pending
  ids := h.ids
  entries k rawVal hdb := by
    rcases PebbleIDStore.putID_db _ _ _ _ hdb with hdb | ⟨rfl, rfl⟩
    · exact h.entries k rawVal hdb
    · have hlt : dedupID < 256 ^ 8 := by
        rcases hknown with rfl | hmem
        · decide
        · exact (h.stored_le dedupID hmem).2.trans_lt (by decide)
      rwa [List.take_of_length_le (by simp), ofLE_leBytes hlt]
  sound := h.sound
  held_inj := h.held_inj

lemma Inv.putLun (h : s.Inv) {dedupID block : ℕ} (hknown : Known s.stored dedupID) {fault : Bool}
    {err : Option GoError} {lunMap : MmapLUNmap}
    (hput : s.dd.lunMap.putID block dedupID fault = .ok (err, lunMap)) :
    Inv { s with dd := { s.dd with lunMap } } where
  pos := h.pos
  tied := h.tied
  pending_lt := h.pending_lt
  stored_le := h.stored_le
  not_pending := h.not_pending
  ids id hmem := by
    unfold MmapLUNmap.putID at hput
    split_ifs at hput
    · cases hput
      exact h.ids id hmem
    · cases hput
      exact h.ids id hmem
    · cases hput
      rcases List.mem_or_eq_of_mem_set hmem with hmem | rfl
      · exact h.ids id hmem
      · exact hknown
  entries := h.entries
  sound := h.sound
  held_inj := h.held_inj

lemma Inv.getID (h : s.Inv) {buf : Bytes} {fault : Option GoError} {dedupID : ℕ} {hash : Bytes}
    (hget : s.dd.idStore.getID sha1 buf fault = (dedupID, hash, none)) :
    Known s.stored dedupID := by
  unfold PebbleIDStore.getID at hget
  split_ifs at hget
  · cases hget
    exact Or.inl rfl
  · cases fault with
    | some e => cases hget
    | none =>
      cases hdb : s.dd.idStore.db (sha1 buf) with
      | none =>
        simp only [hdb] at hget
        cases hget
      | some rawVal =>
        simp only [hdb] at hget
        cases hget
        exact h.entries _ _ hdb

/-! ## Steps -/

/-- **A step of a block write.** -/
lemma Inv.writeStep (h : s.Inv) {buf : Bytes} {pos : ℤ} {rest : List (Bytes × ℤ)} {pc : BlockPc}
    (hcall : s.calls t = .writing buf pos pc rest) (faults : BlockFaults) :
    (s.writeStep sha1 t buf pos rest faults pc).Inv := by
  have hsound := h.sound t
  rw [hcall] at hsound
  have hback : (DedupCall.nextBlock rest).Sound s.dd.blockStore s.stored :=
    DedupCall.sound_nextBlock rest
  cases pc with
  | called =>
    simp only [DedupTraffic.writeStep]
    split_ifs
    · exact h.goto_free trivial rfl
    · exact h.goto_free hback (DedupCall.held_nextBlock rest)
  | lookup =>
    simp only [DedupTraffic.writeStep]
    split
    · next dedupID hash hget => exact h.goto_free (h.getID hget) rfl
    · split_ifs
      · exact h.goto_free trivial rfl
      · exact h.goto_free hback (DedupCall.held_nextBlock rest)
  | missed hash => exact h.allocate t buf pos hash rest
  | allocated hash dedupID filePos =>
    obtain ⟨hlt, hnew, hfile⟩ := hsound
    have hstep := h.setStore (s.dd.blockStore.write buf filePos faults.file).2 rfl rfl rfl
      fun _ hmem => hmem
    refine hstep.goto ⟨hlt, hnew, fun hnone => ?_⟩ ?_
    · have hfits := fileWriteAt_err_eq_none.mp hnone
      exact hfile.ge.trans ((Nat.le_add_right ..).trans hfits.2)
    · intro id heq
      obtain rfl : dedupID = id := Option.some.inj heq
      exact h.unheld (by rw [hcall]; rfl)
  | written hash dedupID err =>
    cases err with
    | some e =>
      -- a failed write completes its id as well, but nothing refers to it
      have hstep := h.setStore (s.dd.blockStore.complete dedupID) rfl rfl rfl
        fun _ hmem => (mem_of_mem_complete hmem).1
      exact hstep.goto_free (DedupCall.sound_nextBlock rest) (DedupCall.held_nextBlock rest)
    | none => exact h.store hcall
  | stored hash dedupID => exact (h.putID hsound hash faults.dbSet).goto_free hsound rfl
  | entering dedupID =>
    simp only [DedupTraffic.writeStep]
    split
    · exact h.goto_free trivial rfl
    · next err lunMap hput =>
      exact (h.putLun hsound hput).goto_free (DedupCall.sound_nextBlock rest)
        (DedupCall.held_nextBlock rest)

lemma Inv.startRead (h : s.Inv) (len : ℕ) (pos : ℤ) :
    (DedupCall.startRead s.dd len pos).Sound s.dd.blockStore s.stored ∧
      (DedupCall.startRead s.dd len pos).held = none := by
  simp only [DedupCall.startRead]
  split_ifs
  · split
    · exact ⟨trivial, rfl⟩
    · exact ⟨trivial, rfl⟩
    · exact ⟨fun dedupID hmem => absurd hmem List.not_mem_nil, rfl⟩
  · split
    · exact ⟨trivial, rfl⟩
    · exact ⟨trivial, rfl⟩
    · next dedupID hget =>
      refine ⟨fun f hf => ?_, rfl⟩
      obtain rfl := List.mem_singleton.mp hf
      exact ⟨h.ids dedupID (MmapLUNmap.mem_of_getID hget), by simp⟩
  · exact ⟨trivial, rfl⟩

lemma Inv.load (h : s.Inv) {block n : ℕ} {dedupIDs : List ℕ}
    (hids : ∀ dedupID ∈ dedupIDs, Known s.stored dedupID) :
    (DedupCall.load s.dd block n dedupIDs).Sound s.dd.blockStore s.stored ∧
      (DedupCall.load s.dd block n dedupIDs).held = none := by
  cases n with
  | zero =>
    refine ⟨fun f hf => ?_, rfl⟩
    obtain ⟨dedupID, hmem, rfl⟩ := List.mem_map.mp hf
    exact ⟨hids dedupID hmem, by simp⟩
  | succ n =>
    simp only [DedupCall.load]
    cases hid : s.dd.lunMap.ids[block]? with
    | none => exact ⟨trivial, rfl⟩
    | some dedupID =>
      refine ⟨fun id hmem => ?_, rfl⟩
      rcases List.mem_append.mp hmem with hmem | hmem
      · exact hids id hmem
      · rw [List.mem_singleton.mp hmem]
        exact h.ids dedupID (List.mem_of_getElem? hid)

/-- A fetch of a known id does not wait. -/
lemma Inv.fetch (h : s.Inv) {f f' : Fetch} (hknown : Known s.stored f.dedupID)
    (hnext : f.next s.dd.blockStore = some f') : f'.dedupID = f.dedupID ∧ f'.pc ≠ .waiting := by
  unfold Fetch.next at hnext
  split at hnext
  · split_ifs at hnext with hzero hpending
    · cases hnext
      exact ⟨rfl, by simp⟩
    · exact absurd hpending (h.not_pending _ (hknown.resolve_left hzero))
    · cases hnext
      exact ⟨rfl, by simp⟩
  · cases hnext
    exact ⟨rfl, by simp⟩
  · cases hnext
  · cases hnext

/-- **One step of one goroutine** keeps the invariant. -/
lemma Inv.step (h : s.Inv) {e : DedupEvent} (hstep : s.step sha1 e = some s') : s'.Inv := by
  cases e with
  | write t buf pos =>
    simp only [DedupTraffic.step] at hstep
    split at hstep
    · cases hstep
      refine h.goto_free ?_ ?_ <;> unfold DedupCall.startWrite <;> split_ifs
      · exact DedupCall.sound_nextBlock _
      · trivial
      · trivial
      · exact DedupCall.held_nextBlock _
      · rfl
      · rfl
    · cases hstep
  | read t len pos =>
    simp only [DedupTraffic.step] at hstep
    split at hstep
    · cases hstep
      exact h.goto_free (h.startRead len pos).1 (h.startRead len pos).2
    · cases hstep
  | move t faults =>
    have hsound := h.sound t
    simp only [DedupTraffic.step] at hstep
    split at hstep
    · next buf pos pc rest hcall =>
      cases hstep
      exact h.writeStep hcall faults
    · next block n dedupIDs hcall =>
      cases hstep
      rw [hcall] at hsound
      exact h.goto_free (h.load hsound).1 (h.load hsound).2
    · split_ifs at hstep
      cases hstep
      exact h.goto_free trivial rfl
    · cases hstep
    · cases hstep
  | fetch t i =>
    have hsound := h.sound t
    simp only [DedupTraffic.step] at hstep
    split at hstep
    · next fetches hcall =>
      rw [hcall] at hsound
      split at hstep
      · cases hstep
      · next f hf =>
        obtain ⟨f', hnext, rfl⟩ := Option.map_eq_some_iff.mp hstep
        have hmem := hsound f (List.mem_of_getElem? hf)
        obtain ⟨hid, hpc⟩ := h.fetch hmem.1 hnext
        refine h.goto_free (fun g hg => ?_) rfl
        rcases List.mem_or_eq_of_mem_set hg with hg | rfl
        · exact hsound g hg
        · exact ⟨hid ▸ hmem.1, hpc⟩
    · cases hstep

lemma inv_new {dd : DedupDisk} (hpos : 0 < dd.blockStore.blockSize) (htied : dd.blockStore.Tied)
    (hpending : dd.blockStore.pendingWrites = [])
    (hids : ∀ dedupID ∈ dd.lunMap.ids, dedupID = zeroBlockID)
    (hdb : ∀ hash, dd.idStore.db hash = none) : (new dd).Inv where
  pos := hpos
  tied := htied
  pending_lt := by simp [new, hpending]
  stored_le := by simp [new]
  not_pending := by simp [new]
  ids dedupID hmem := Or.inl (hids dedupID hmem)
  entries hash rawVal h := by simp [new, hdb] at h
  sound _ := trivial
  held_inj _ _ _ h := by cases h

/-- A step allocates one id at most. -/
lemma nextID_step {e : DedupEvent} (hstep : s.step sha1 e = some s') :
    s'.dd.blockStore.nextID ≤ s.dd.blockStore.nextID + 1 := by
  cases e with
  | write t buf pos =>
    simp only [DedupTraffic.step] at hstep
    split at hstep <;> cases hstep
    exact Nat.le_succ _
  | read t len pos =>
    simp only [DedupTraffic.step] at hstep
    split at hstep <;> cases hstep
    exact Nat.le_succ _
  | move t faults =>
    simp only [DedupTraffic.step] at hstep
    split at hstep
    · next buf pos pc rest hcall =>
      cases hstep
      cases pc with
      | called =>
        simp only [DedupTraffic.writeStep]
        split_ifs <;> exact Nat.le_succ _
      | lookup =>
        simp only [DedupTraffic.writeStep]
        split
        · exact Nat.le_succ _
        · split_ifs <;> exact Nat.le_succ _
      | missed hash => exact le_rfl
      | allocated hash dedupID filePos => exact Nat.le_succ _
      | written hash dedupID err => cases err <;> exact Nat.le_succ _
      | stored hash dedupID => exact Nat.le_succ _
      | entering dedupID =>
        simp only [DedupTraffic.writeStep]
        split <;> exact Nat.le_succ _
    · cases hstep
      exact Nat.le_succ _
    · split_ifs at hstep
      cases hstep
      exact Nat.le_succ _
    · cases hstep
    · cases hstep
  | fetch t i =>
    simp only [DedupTraffic.step] at hstep
    split at hstep
    · split at hstep
      · cases hstep
      · obtain ⟨f', -, rfl⟩ := Option.map_eq_some_iff.mp hstep
        exact Nat.le_succ _
    · cases hstep

lemma nextID_run {es : List DedupEvent} (hrun : run (step sha1) s es = some s') :
    s'.dd.blockStore.nextID ≤ s.dd.blockStore.nextID + es.length := by
  induction es generalizing s with
  | nil =>
    cases hrun
    exact le_rfl
  | cons e es ih =>
    obtain ⟨t, hstep, hrest⟩ := run_cons_eq_some.mp hrun
    have hone := nextID_step hstep
    have hmany := ih hrest
    rw [List.length_cons]
    omega

end DedupTraffic

open DedupTraffic in
/-- **Readers never meet a pending block.**  In every interleaving of reads and writes on a fresh
disk, with any failures: the ids in the LUN map and in the database are the reserved one or those of
blocks whose `PutBlock` has returned; no `GetBlock` waits, and none has an id that is pending, the
reserved id apart, which it does not look up.  (That one is not pending either, before as many
steps as there are ids.) -/
theorem readers_never_meet_pending (sha1 : Bytes → Bytes) (blockSize size : ℕ)
    (hbs : 0 < blockSize) (lm : MmapLUNmap) (hnew : newMmapLUNmap [] blockSize size = .ok lm)
    (es : List DedupEvent) (s : DedupTraffic)
    (hrun : run (step sha1)
      (new (newDedupDisk lm newPebbleIDStore (newFileBlockStore [] blockSize) blockSize)) es =
        some s) :
    (∀ dedupID ∈ s.dd.lunMap.ids, Known s.stored dedupID) ∧
      (∀ hash rawVal, s.dd.idStore.db hash = some rawVal →
        Known s.stored (ofLE (rawVal.take 8))) ∧
      (∀ t fetches, s.calls t = .fetching fetches → ∀ f ∈ fetches, f.pc ≠ .waiting ∧
        (f.dedupID ∈ s.dd.blockStore.pendingWrites → f.dedupID = zeroBlockID)) ∧
      (es.length < zeroBlockID → zeroBlockID ∉ s.dd.blockStore.pendingWrites) := by
  have hinv₀ : (new (newDedupDisk lm newPebbleIDStore
      (newFileBlockStore [] blockSize) blockSize)).Inv := by
    refine inv_new hbs (FileBlockStore.tied_newFileBlockStore hbs) rfl (fun dedupID hmem => ?_)
      fun _ => rfl
    simp only [newDedupDisk, (newMmapLUNmap_nil hnew).1] at hmem
    exact List.eq_of_mem_replicate hmem
  have hinv : s.Inv := Machine.invariant (fun _ _ _ h hstep => h.step hstep) hinv₀ hrun
  refine ⟨hinv.ids, hinv.entries, fun t fetches hcall f hf => ?_, fun hlen hmem => ?_⟩
  · have hsound := hinv.sound t
    rw [hcall] at hsound
    obtain ⟨hknown, hpc⟩ := hsound f hf
    exact ⟨hpc, fun hpending => hknown.resolve_right fun hmem =>
      hinv.not_pending f.dedupID hmem hpending⟩
  · have hlt := hinv.pending_lt _ hmem
    have hle := nextID_run hrun
    simp only [new, newDedupDisk, newFileBlockStore, List.length_nil, Nat.zero_div,
      Nat.zero_add] at hle
    omega

/-- A block is written, and read while its id is pending and once more when it is in the map. -/
def overlappingCalls : List DedupEvent :=
  let moves (n : ℕ) : List DedupEvent := List.replicate n (.move 0 .none)
  .write 0 [7, 7] 0 :: (moves 3 ++ (.read 1 2 0 :: .fetch 1 0 :: (moves 4 ++
    [.read 2 2 0, .fetch 2 0])))

open DedupTraffic in
theorem readers_never_meet_pending_overlapping :
    ∃ s, run (step id)
        (new (newDedupDisk ⟨[zeroBlockID], 2⟩ newPebbleIDStore (newFileBlockStore [] 2) 2))
        overlappingCalls = some s ∧
      s.dd.lunMap.ids = [0] ∧ s.calls 2 = .fetching [⟨0, 2, .reading⟩] ∧ Known s.stored 0 := by
  refine ⟨_, rfl, rfl, rfl, ?_⟩
  obtain ⟨hids, -⟩ :=
    readers_never_meet_pending id 2 2 (by decide) _ rfl overlappingCalls _ rfl
  exact hids 0 List.mem_cons_self

end Usbd
