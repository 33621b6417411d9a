import Usbd.Foundations.Pieces
import Usbd.Objstore.Closing

/-!
# The disk a device in use shows

What any number of clients see of a device, whatever the interleaving and the evictions, is one
array of bytes that serves each of their calls piece by piece, a piece for each segment the call
goes through.  `SharedDisk.Effect` is what can happen to the array at an instant.  A piece of a read
or write takes effect at one instant, but two pieces of one call do at two, and others may come
between: a read that crosses a segment can see half of a write that does.  A piece of zeros may be
dropped.  With a quota a call may give up, and then it reports no byte, also where it has
transferred some.  Calls that come after `Close` are refused; a call that `Close` has let in is
served to its end.  `Close` returns nil.

`Shares` relates the device to the array.  From `DevDisk`, `Linked` and `CloseInv` every step of a
client has its `Turn`.
-/

namespace Usbd

open ListMemory Atomic Pieces

variable {σ : Type}

/-! ## The array -/

/-- The bytes, and whether the device has been shut down. -/
structure SharedDisk where
  bytes : Bytes
  closed : Bool

/-- What is left of a read or write: the next position, and the buffer in two parts. -/
structure Transfer where
  readOp : Bool
  pos : ℕ
  got : Bytes
  rest : Bytes
  deriving DecidableEq

/-- What is left of a call of the device. -/
inductive DiskOp
  | io (x : Transfer)
  | flush
  | close
  deriving DecidableEq

namespace Transfer

def result (x : Transfer) (count : ℕ) (err : Option GoError) : DevResult :=
  if x.readOp then .read (x.got ++ x.rest) count err else .wrote count err

/-- The part of the buffer that goes to the segment of the next position. -/
def piece (segmentBytes : ℕ) (x : Transfer) : Bytes :=
  x.rest.take (segmentBytes - x.pos % segmentBytes)

/-- Behind a piece. -/
def past (x : Transfer) (moved : Bytes) : Transfer :=
  ⟨x.readOp, x.pos + moved.length, x.got ++ moved, x.rest.drop moved.length⟩

/-- The rest of the call behind a piece, or its result. -/
def on (x : Transfer) (moved : Bytes) : DiskOp ⊕ DevResult :=
  if x.rest.drop moved.length = [] then .inr ((x.past moved).result (x.got ++ moved).length none)
  else .inl (.io (x.past moved))

end Transfer

/-- The errors of a call that gives up for want of a permit. -/
def GoError.Crowded (e : GoError) : Prop :=
  e.is errCapacityClaim = true ∨ e = .wrap "Could not free capacity to load segment"
    (.new "Could not remove any segments as none are backed")

/-- What happens to the array at an instant, with segments of so many bytes and a quota or none. -/
inductive SharedDisk.Effect (segmentBytes : ℕ) (quota : Option ℕ) (v : SharedDisk) :
    DiskOp → SharedDisk → DiskOp ⊕ DevResult → Prop
  | read {x : Transfer} (hopen : v.closed = false) (hop : x.readOp = true) (hrest : x.rest ≠ [])
      (hle : x.pos + (x.piece segmentBytes).length ≤ v.bytes.length) :
      Effect segmentBytes quota v (.io x) v
        (x.on (slice v.bytes x.pos (x.piece segmentBytes).length))
  | write {x : Transfer} (hopen : v.closed = false) (hop : x.readOp = false) (hrest : x.rest ≠ [])
      (hle : x.pos + (x.piece segmentBytes).length ≤ v.bytes.length) :
      Effect segmentBytes quota v (.io x)
        { v with bytes := overwrite 0 v.bytes x.pos (x.piece segmentBytes) }
        (x.on (x.piece segmentBytes))
  | skip {x : Transfer} (hopen : v.closed = false) (hop : x.readOp = false) (hrest : x.rest ≠ [])
      (hle : x.pos + (x.piece segmentBytes).length ≤ v.bytes.length)
      (hzeros : isZeros (x.piece segmentBytes) = true) :
      Effect segmentBytes quota v (.io x) v (x.on (x.piece segmentBytes))
  | nothing {x : Transfer} (hopen : v.closed = false) (hrest : x.rest = []) :
      Effect segmentBytes quota v (.io x) v (.inr (x.result x.got.length none))
  | eof {x : Transfer} (hopen : v.closed = false) (hend : v.bytes.length ≤ x.pos) :
      Effect segmentBytes quota v (.io x) v (.inr (x.result x.got.length (some ioEOF)))
  | crowded {x : Transfer} {e : GoError} (hopen : v.closed = false) (hquota : quota ≠ none)
      (he : e.Crowded) : Effect segmentBytes quota v (.io x) v (.inr (x.result 0 (some e)))
  | shut {x : Transfer} (hclosed : v.closed = true) (hfresh : x.got = []) :
      Effect segmentBytes quota v (.io x) v (.inr (x.result 0 (some errDeviceShutdown)))
  | flush (hopen : v.closed = false) (err : Option GoError) :
      Effect segmentBytes quota v .flush v (.inr (.flushed err))
  | flushShut (hclosed : v.closed = true) :
      Effect segmentBytes quota v .flush v (.inr (.flushed (some errDeviceShutdown)))
  | close : Effect segmentBytes quota v .close { v with closed := true } (.inr (.closed none))

/-! ## What a client shows -/

/-- The operation of a call. -/
def DevCall.op : DevCall → DiskOp
  | readAt buf pos => .io ⟨true, pos, [], buf⟩
  | writeAt buf pos => .io ⟨false, pos, [], buf⟩
  | flush => .flush
  | close => .close

namespace IoAt

variable (segmentBytes : ℕ) (io : IoAt)

/-- What is left of the call. -/
def transfer : Transfer := ⟨io.readOp, io.segID * segmentBytes + io.pos, io.got, io.rest⟩

/-- What is left at the head of the loop. -/
def left : DiskOp ⊕ DevResult :=
  if io.rest = [] then .inr (io.result io.total none) else .inl (.io (io.transfer segmentBytes))

/-- What is left in a call of a segment. -/
def leftIn : Proc σ → DiskOp ⊕ DevResult
  | .done res =>
    if res.err = none then ((io.fill segmentBytes res).next res.count).left segmentBytes
    else .inl (.io (io.transfer segmentBytes))
  | _ => .inl (.io (io.transfer segmentBytes))

end IoAt

/-- What a client shows, with its goroutine at `look i` in segment `i`. -/
def Client.phase (segmentBytes : ℕ) (look : ℕ → Proc σ) : Client → Phase DiskOp DevResult
  | idle => .idle
  | called call => .called call.op
  | looping io => phaseOf (io.left segmentBytes)
  | trying io _ => .called (.io (io.transfer segmentBytes))
  | accessing io _ => phaseOf (io.leftIn segmentBytes (look io.segID))
  | scanning io _ _ _ => .called (.io (io.transfer segmentBytes))
  | evicting io _ _ _ => .called (.io (io.transfer segmentBytes))
  | flushing _ => .called .flush
  | waiting => .called .close
  | closing _ => .finished (.closed none)
  | dropping _ _ => .finished (.closed none)
  | deleting _ _ => .finished (.closed none)
  | done res => .finished res

/-- The segment's call of a client has done all of its piece, or has been refused a permit. -/
structure IoAt.Tried (sp : StoreParams σ) (io : IoAt) (p : Proc σ) : Prop where
  full : ∀ res, p = .done res → res.err = none → res.count = (io.segBuf sp.segmentBytes).length
  refused : ∀ res e, p = .done res → res.err = some e → sp.quotaSema ≠ none ∧
    e.is errCapacityClaim = true ∧ res = (io.call sp.segmentBytes).refusal e

/-- The bytes done are counted, and what goes wrong does so for want of a permit. -/
def Client.Counts (sp : StoreParams σ) (look : ℕ → Proc σ) : Client → Prop
  | looping io => io.total = io.got.length
  | trying io _ => io.total = io.got.length
  | accessing io _ => io.total = io.got.length ∧ io.Tried sp (look io.segID)
  | scanning io _ count _ => io.total = io.got.length ∧ count = 0 ∧ sp.quotaSema ≠ none
  | evicting io _ count idx => io.total = io.got.length ∧ count = 0 ∧ sp.quotaSema ≠ none ∧
    ∀ err, look idx = .done (.deleted err) → err = none
  | _ => True

/-! ## Pieces -/

section Pieces

variable {c : ℕ} {io : IoAt}

lemma IoAt.result_eq (count : ℕ) (err : Option GoError) :
    io.result count err = (io.transfer c).result count err := rfl

lemma IoAt.segBuf_eq (hpos : io.pos < c) : io.segBuf c = (io.transfer c).piece c := by
  simp [IoAt.segBuf, Transfer.piece, IoAt.transfer, Nat.mod_eq_of_lt hpos, Nat.add_mod]

lemma IoAt.start_transfer (readOp : Bool) (buf : Bytes) (pos : ℕ) :
    (IoAt.start c readOp buf pos).transfer c = ⟨readOp, pos, [], buf⟩ := by
  simp [IoAt.start, IoAt.transfer, Nat.div_add_mod']

lemma IoAt.call_eq_readAt {buf : Bytes} {pos : ℕ} (h : io.call c = .readAt buf pos) :
    io.readOp = true ∧ io.segBuf c = buf ∧ io.pos = pos := by
  unfold IoAt.call at h
  split_ifs at h with hop
  exact ⟨hop, SegCall.readAt.inj h⟩

lemma IoAt.call_eq_writeAt {buf : Bytes} {pos : ℕ} (h : io.call c = .writeAt buf pos) :
    io.readOp = false ∧ io.segBuf c = buf ∧ io.pos = pos := by
  unfold IoAt.call at h
  split_ifs at h with hop
  exact ⟨by simpa using hop, SegCall.writeAt.inj h⟩

lemma IoAt.inRange_call (hpos : io.pos < c) (hrest : io.rest ≠ []) : (io.call c).InRange c := by
  have hlen : (io.segBuf c).length ≤ c - io.pos := List.length_take_le ..
  have hne : io.segBuf c ≠ [] := by
    rw [IoAt.segBuf, Ne, List.take_eq_nil_iff]
    rintro (h | h)
    · omega
    · exact hrest h
  unfold IoAt.call
  split_ifs
  · exact (show io.pos + (io.segBuf c).length ≤ c by omega)
  · exact ⟨hne, by omega⟩

/-- A call that was refused leaves the buffer. -/
lemma IoAt.fill_refusal (e : GoError) :
    io.fill c ((io.call c).refusal e) = io ∧ ((io.call c).refusal e).count = 0 := by
  have hrest : io.segBuf c ++ io.rest.drop (io.segBuf c).length = io.rest := by
    rw [IoAt.segBuf, drop_length_take, List.take_append_drop]
  unfold IoAt.call IoAt.fill
  split_ifs
  · simp only [SegCall.refusal, SegResult.fill, hrest, SegResult.count, and_true]
  · simp only [SegCall.refusal, SegResult.fill, hrest, SegResult.count, and_true]

/-- While the segment's call is under way, nothing of it has been done. -/
lemma IoAt.leftIn_of_call {p : Proc σ} {call : SegCall} (h : p.call? = some call) :
    io.leftIn c p = .inl (.io (io.transfer c)) := by
  cases p with
  | done res => cases h
  | _ => rfl

lemma IoAt.left_next (hpos : io.pos < c) (htotal : io.total = io.got.length) {moved : Bytes}
    (hlen : moved.length = (io.segBuf c).length) :
    ({ io with rest := moved ++ io.rest.drop moved.length }.next moved.length).left c =
      (io.transfer c).on moved := by
  have hnext : { io with rest := moved ++ io.rest.drop moved.length }.next moved.length =
      ⟨io.readOp, io.segID + 1, 0, io.total + moved.length, io.got ++ moved,
        io.rest.drop moved.length⟩ := by
    simp [IoAt.next]
  rw [hnext, IoAt.left, Transfer.on]
  by_cases hend : io.rest.drop moved.length = []
  · rw [if_pos hend, if_pos (show (io.transfer c).rest.drop moved.length = [] from hend)]
    simp [IoAt.result, Transfer.result, Transfer.past, IoAt.transfer, htotal]
  · rw [if_neg hend, if_neg (show (io.transfer c).rest.drop moved.length ≠ [] from hend)]
    have hfull : moved.length = c - io.pos := by
      have hlt : moved.length < io.rest.length := by simpa using hend
      rw [IoAt.segBuf, List.length_take] at hlen
      omega
    have hpos' : (io.segID + 1) * c + 0 = io.segID * c + io.pos + moved.length := by
      rw [hfull, Nat.succ_mul]
      omega
    simp only [IoAt.transfer, Transfer.past, hpos']

end Pieces

/-- A step of a client is nothing to the goroutines of others. -/
lemma Crosses.others {sp : StoreParams σ} {concurFlush t : ℕ} {o o' : Option (ℕ × SegCall)}
    {s s' : DevState σ} (h : Crosses sp concurFlush s t o o' s') :
    s'.cells.length = s.cells.length ∧
      ∀ u, u ≠ t → ∀ i, s'.proc i (clientID u) = s.proc i (clientID u) := by
  have hgoes : ∀ {i : ℕ} {p : Proc σ}, s.Goes s' i t p → s'.cells.length = s.cells.length ∧
      ∀ u, u ≠ t → ∀ j, s'.proc j (clientID u) = s.proc j (clientID u) := by
    intro i p hgoes
    refine ⟨hgoes.length, fun u hu j => ?_⟩
    rw [hgoes.proc, if_neg]
    rintro ⟨-, hid⟩
    exact hu (clientID_injective hid)
  cases h with
  | stays => exact ⟨rfl, fun _ _ _ => rfl⟩
  | starts hstep =>
    obtain rfl : { s with flushes := s.flushes ++ [.looking 0 []] } = s' := Option.some.inj hstep
    exact ⟨rfl, fun _ _ _ => rfl⟩
  | calls hstep => exact hgoes (DevState.goes_call hstep)
  | moves hstep =>
    obtain ⟨call, p, -, -, hmoves⟩ := DevState.goes_move hstep
    exact hgoes hmoves
  | rets hstep => exact hgoes (DevState.goes_ret hstep)

/-! ## The relation -/

/-- Where a client's goroutine is in the segments. -/
def DevUse.look (s : DevUse σ) (t i : ℕ) : Proc σ := s.dev.proc i (clientID t)

/-- The device in use shows what the array does. -/
structure Shares (sp : StoreParams σ) (law : Plain sp.container) (totalBytes count : ℕ)
    (s : DevUse σ) (a : State SharedDisk DiskOp DevResult) : Prop where
  linked : Linked sp s
  closing : CloseInv s
  disk : DevDisk sp law s.dev a.value.bytes
  closed_eq : a.value.closed = s.shutdown
  phase : ∀ t, a.phase t = (s.clients t).phase sp.segmentBytes (s.look t)
  counts : ∀ t, (s.clients t).Counts sp (s.look t)
  length_eq : s.dev.cells.length = count
  fits : count * sp.segmentBytes ≤ totalBytes

/-- A section that may load a local file gets all of its object, and no byte more. -/
def DevUse.LoadsWhole (sp : StoreParams σ) (s : DevUse σ) : UseEvent → Prop
  | .advance t => ∀ x ∈ (s.clients t).inside sp.segmentBytes, ∀ c ∈ s.dev.cells[x.1]?,
    (c.procs (clientID t)).Loads → CacheRun.LoadsWhole sp s.dev.world c.seg
  | _ => True

lemma DevUse.loadsWhole_of_thick {sp : StoreParams σ} (h : sp.thickProvision = true) (s : DevUse σ)
    (e : UseEvent) : s.LoadsWhole sp e := by
  cases e with
  | advance t => exact fun _ _ _ _ _ _ _ _ _ _ => .inl h
  | _ => trivial

namespace Shares

variable {sp : StoreParams σ} {law : Plain sp.container} {totalBytes count concurFlush : ℕ}
  {s s' : DevUse σ} {a : State SharedDisk DiskOp DevResult} {t : ℕ} {p : Client} {dev : DevState σ}
  {mu : OpLock} {shutdown : Bool}

/-- `Close` waits for those who are at work. -/
lemma open_of_working (h : Shares sp law totalBytes count s a)
    (hstage : (s.clients t).stage = .working) : a.value.closed = false := by
  rw [h.closed_eq]
  exact h.linked.locks.working t hstage

/-- What is to be shown of a step of a client: the array, and what the client shows then. -/
def Turns (sp : StoreParams σ) (law : Plain sp.container) (v : SharedDisk)
    (before : Phase DiskOp DevResult) (dev : DevState σ) (shutdown : Bool) (t : ℕ)
    (p : Client) : Prop :=
  ∃ v' : SharedDisk, DevDisk sp law dev v'.bytes ∧ v'.closed = shutdown ∧
    p.Counts sp (fun i => dev.proc i (clientID t)) ∧
    Turn (SharedDisk.Effect sp.segmentBytes sp.quotaSema) v before v'
      (p.phase sp.segmentBytes fun i => dev.proc i (clientID t))

variable {v : SharedDisk} {before : Phase DiskOp DevResult}

lemma Turns.stays (hdisk : DevDisk sp law dev v.bytes) (hclosed : v.closed = shutdown)
    (hcounts : p.Counts sp fun i => dev.proc i (clientID t))
    (hphase : p.phase sp.segmentBytes (fun i => dev.proc i (clientID t)) = before) :
    Turns sp law v before dev shutdown t p := by
  refine ⟨v, hdisk, hclosed, hcounts, ?_⟩
  rw [hphase]
  exact .stays

lemma Turns.piece {op : DiskOp} {left : DiskOp ⊕ DevResult} (hdisk : DevDisk sp law dev v.bytes)
    (hclosed : v.closed = shutdown) (hcounts : p.Counts sp fun i => dev.proc i (clientID t))
    (hbefore : before = .called op)
    (heffect : SharedDisk.Effect sp.segmentBytes sp.quotaSema v op v left)
    (hphase : p.phase sp.segmentBytes (fun i => dev.proc i (clientID t)) = phaseOf left) :
    Turns sp law v before dev shutdown t p := by
  refine ⟨v, hdisk, hclosed, hcounts, ?_⟩
  rw [hphase, hbefore]
  exact .piece heffect

lemma turns_enter (h : Shares sp law totalBytes count s a) (readOp : Bool) (buf : Bytes) (pos : ℕ) :
    Turns sp law a.value (.called (.io ⟨readOp, pos, [], buf⟩)) s.dev s.shutdown t
      (s.enter sp totalBytes readOp buf pos) := by
  have hstart := IoAt.start_transfer (c := sp.segmentBytes) readOp buf pos
  unfold DevUse.enter
  simp only
  split_ifs with hshut hpos
  · refine .piece h.disk h.closed_eq trivial rfl (.shut (h.closed_eq.trans hshut) rfl) ?_
    rw [Client.phase, IoAt.result_eq (c := sp.segmentBytes), hstart]
    rfl
  · have hopen : a.value.closed = false := by
      rw [h.closed_eq]
      simpa using hshut
    have hend : a.value.bytes.length ≤ pos := by
      rw [h.disk.length_eq, h.length_eq]
      exact h.fits.trans hpos.le
    refine .piece h.disk h.closed_eq trivial rfl (.eof hopen hend) ?_
    rw [Client.phase, IoAt.result_eq (c := sp.segmentBytes), hstart]
    rfl
  · have hopen : a.value.closed = false := by
      rw [h.closed_eq]
      simpa using hshut
    by_cases hbuf : buf = []
    · refine .piece h.disk h.closed_eq rfl rfl (.nothing hopen hbuf) ?_
      subst hbuf
      rfl
    · refine .stays h.disk h.closed_eq rfl ?_
      have hrest : (IoAt.start sp.segmentBytes readOp buf pos).rest ≠ [] := hbuf
      rw [Client.phase, IoAt.left, if_neg hrest, hstart]
      rfl

lemma turns_loop (h : Shares sp law totalBytes count s a) {io : IoAt}
    (hp : s.clients t = .looping io) :
    Turns sp law a.value (phaseOf (io.left sp.segmentBytes)) s.dev s.shutdown t (s.loop io) := by
  have hopen : a.value.closed = false := h.open_of_working (t := t) (by rw [hp]; rfl)
  have hcounts : io.total = io.got.length := by
    have := h.counts t
    rwa [hp] at this
  unfold DevUse.loop IoAt.left
  split_ifs with hrest hseg
  · exact .stays h.disk h.closed_eq trivial rfl
  · have hend : a.value.bytes.length ≤ io.segID * sp.segmentBytes + io.pos := by
      have := Nat.mul_le_mul_right sp.segmentBytes hseg
      rw [h.disk.length_eq]
      omega
    refine .piece h.disk h.closed_eq trivial rfl
      (.eof (x := io.transfer sp.segmentBytes) hopen hend) ?_
    rw [Client.phase, IoAt.result_eq (c := sp.segmentBytes), hcounts]
    rfl
  · exact .stays h.disk h.closed_eq hcounts rfl

/-- A call of a segment has ended without an error. -/
lemma turns_piece {io : IoAt} {tries : ℕ} {res : SegResult} {moved : Bytes} {y : SharedDisk}
    (hpos : io.pos < sp.segmentBytes) (htotal : io.total = io.got.length)
    (hdone : dev.proc io.segID (clientID t) = .done res) (herr : res.err = none)
    (hcount : res.count = moved.length) (hfill : res.fill (io.segBuf sp.segmentBytes) = moved)
    (hlen : moved.length = (io.segBuf sp.segmentBytes).length)
    (hdisk : DevDisk sp law dev y.bytes) (hclosed : y.closed = shutdown)
    (heffect : SharedDisk.Effect sp.segmentBytes sp.quotaSema v
      (.io (io.transfer sp.segmentBytes)) y ((io.transfer sp.segmentBytes).on moved)) :
    Turns sp law v (.called (.io (io.transfer sp.segmentBytes))) dev shutdown t
      (.accessing io tries) := by
  refine ⟨y, hdisk, hclosed, ⟨htotal, fun res' hres' _ => ?_, fun res' e hres' he => ?_⟩, ?_⟩
  · obtain rfl := Proc.done.inj (hdone.symm.trans hres')
    rw [hcount, hlen]
  · obtain rfl := Proc.done.inj (hdone.symm.trans hres')
    rw [herr] at he
    cases he
  · have hleft : io.leftIn sp.segmentBytes (dev.proc io.segID (clientID t)) =
        (io.transfer sp.segmentBytes).on moved := by
      rw [hdone, IoAt.leftIn, if_pos herr, hcount, IoAt.fill, hfill, ← hlen]
      exact IoAt.left_next hpos htotal hlen
    simp only [Client.phase, hleft]
    exact .piece heffect

section Turning

variable (h : Shares sp law totalBytes count s a)

include h

/-- A section of a read or write of a segment. -/
lemma turns_access (hf : Faultless sp.env) (hs : sp.Sized) {io : IoAt} {tries : ℕ}
    (hp : s.clients t = .accessing io tries) (hload : s.LoadsWhole sp (.advance t))
    (hdev : s.dev.step sp concurFlush (.move io.segID t) = some dev) :
    Turns sp law a.value (phaseOf (io.leftIn sp.segmentBytes (s.look t io.segID))) dev s.shutdown t
      (.accessing io tries) := by
  have hopen : a.value.closed = false := h.open_of_working (t := t) (by rw [hp]; rfl)
  obtain ⟨hpos, hrest, hseg⟩ : io.Reaches sp.segmentBytes s.dev.cells.length := by
    have := h.linked.checked t
    rwa [hp] at this
  have htotal : io.total = io.got.length := by
    have := h.counts t
    rw [hp] at this
    exact this.1
  obtain ⟨-, c, c', m, hmoves⟩ := DevState.step_move hdev
  obtain ⟨call, q, disk, hcall, hprocs, heffected, hdisk⟩ := h.disk.moves hf hs hmoves
    (hload (io.segID, io.call sp.segmentBytes) (by rw [hp]; rfl) c hmoves.cell)
  have hlook : s.look t io.segID = c.procs (clientID t) := DevState.proc_eq hmoves.cell
  have hnow : dev.proc io.segID (clientID t) = q := by
    rw [DevState.proc_set hmoves.cell hmoves.cells hprocs, if_pos ⟨rfl, rfl⟩]
  -- the call is that of the client, and it is under way
  have hmade : io.call sp.segmentBytes = call := by
    have hserves : (s.look t io.segID).Serves (io.call sp.segmentBytes) :=
      h.linked.inside t _ _ (by rw [hp]; rfl)
    rw [hlook] at hserves
    exact (hserves.call_eq hcall).symm
  rw [hlook, IoAt.leftIn_of_call hcall]
  have hwithin : io.segID * sp.segmentBytes + io.pos + (io.segBuf sp.segmentBytes).length ≤
      a.value.bytes.length := by
    have := h.disk.slice_le hseg
    have : (io.segBuf sp.segmentBytes).length ≤ sp.segmentBytes - io.pos := List.length_take_le ..
    omega
  have hbuf := IoAt.segBuf_eq hpos
  cases heffected with
  | goes hgoes =>
    have hnot : ∀ res, q ≠ .done res := by
      rintro res rfl
      cases hgoes
    refine .stays hdisk h.closed_eq ⟨htotal, fun res hdone => ?_, fun res e hdone => ?_⟩ ?_
    · exact absurd (hnow.symm.trans hdone) (hnot res)
    · exact absurd (hnow.symm.trans hdone) (hnot res)
    · simp only [Client.phase, hnow, IoAt.leftIn_of_call hgoes]
  | read buf pos =>
    obtain ⟨hop, rfl, rfl⟩ := IoAt.call_eq_readAt hmade
    have hlen : (slice a.value.bytes (io.segID * sp.segmentBytes + io.pos)
        (io.segBuf sp.segmentBytes).length).length = (io.segBuf sp.segmentBytes).length :=
      length_slice_of_le hwithin
    refine turns_piece hpos htotal hnow rfl hlen.symm rfl hlen hdisk h.closed_eq ?_
    rw [hbuf] at hwithin ⊢
    exact .read hopen hop hrest hwithin
  | wrote buf pos =>
    obtain ⟨hop, rfl, rfl⟩ := IoAt.call_eq_writeAt hmade
    refine turns_piece (y := { a.value with bytes := _ }) hpos htotal hnow rfl rfl rfl rfl hdisk
      h.closed_eq ?_
    rw [hbuf] at hwithin ⊢
    exact .write hopen hop hrest hwithin
  | @skips buf pos hzeros =>
    obtain ⟨hop, rfl, rfl⟩ := IoAt.call_eq_writeAt hmade
    refine turns_piece hpos htotal hnow rfl rfl rfl rfl hdisk h.closed_eq ?_
    rw [hbuf] at hzeros hwithin ⊢
    exact .skip hopen hop hrest hwithin hzeros
  | @refused call e _ hquota he =>
    have herr : (call.refusal e).err = some e := by cases call <;> rfl
    refine .stays hdisk h.closed_eq ⟨htotal, fun res hdone hnil => ?_,
      fun res e' hdone he' => ?_⟩ ?_
    · obtain rfl := Proc.done.inj (hnow.symm.trans hdone)
      rw [herr] at hnil
      cases hnil
    · obtain rfl := Proc.done.inj (hnow.symm.trans hdone)
      obtain rfl := Option.some.inj (herr.symm.trans he')
      exact ⟨hquota, he, by rw [hmade]⟩
    · simp only [Client.phase, hnow, IoAt.leftIn, herr, reduceCtorEq, if_false]
  | flushed buffered err =>
    unfold IoAt.call at hmade
    split_ifs at hmade
  | deleted =>
    unfold IoAt.call at hmade
    split_ifs at hmade

/-- A read or write of a segment returns to the loop of `ioAt`. -/
lemma turns_collect {io : IoAt} {tries : ℕ} {res : SegResult}
    (hp : s.clients t = .accessing io tries) (hdone : s.look t io.segID = .done res)
    (hdisk : DevDisk sp law dev a.value.bytes) :
    Turns sp law a.value (phaseOf (io.leftIn sp.segmentBytes (s.look t io.segID))) dev s.shutdown t
      (io.collect sp.segmentBytes tries res) := by
  have hopen : a.value.closed = false := h.open_of_working (t := t) (by rw [hp]; rfl)
  obtain ⟨htotal, htried⟩ : io.total = io.got.length ∧ io.Tried sp (s.look t io.segID) := by
    have := h.counts t
    rwa [hp] at this
  have hanswers : res.Answers (io.call sp.segmentBytes) := by
    have hserves : (s.look t io.segID).Serves (io.call sp.segmentBytes) :=
      h.linked.inside t _ _ (by rw [hp]; rfl)
    exact hserves.answers hdone
  rw [hdone]
  cases herr : res.err with
  | none =>
    simp only [IoAt.collect, herr, IoAt.leftIn, if_true]
    refine .stays hdisk h.closed_eq ?_ rfl
    have hle : (io.segBuf sp.segmentBytes).length ≤ (io.fill sp.segmentBytes res).rest.length := by
      rw [IoAt.length_fill hanswers]
      exact List.length_take_le' ..
    simp only [Client.Counts, IoAt.next, List.length_append, List.length_take,
      htried.full res hdone herr]
    rw [Nat.min_eq_left hle]
    exact congrArg (· + _) htotal
  | some e =>
    obtain ⟨hquota, he, rfl⟩ := htried.refused res e hdone herr
    have hleft : io.leftIn sp.segmentBytes
        (.done ((io.call sp.segmentBytes).refusal e) : Proc σ) =
        .inl (.io (io.transfer sp.segmentBytes)) := by
      simp [IoAt.leftIn, herr]
    obtain ⟨hfill, hcount⟩ := io.fill_refusal (c := sp.segmentBytes) e
    rw [hleft]
    simp only [IoAt.collect, herr, hfill, hcount]
    cases tries with
    | zero =>
      exact .piece hdisk h.closed_eq trivial rfl
        (.crowded hopen hquota (.inl (GoError.is_wrap _ he))) rfl
    | succ tries =>
      simp only [he, if_true]
      exact .stays hdisk h.closed_eq ⟨htotal, rfl, hquota⟩ rfl

lemma moves_delete (hf : Faultless sp.env) (hs : sp.Sized) {i : ℕ}
    (hin : (s.clients t).inside sp.segmentBytes = some (i, .deleteFile))
    (hload : s.LoadsWhole sp (.advance t))
    (hdev : s.dev.step sp concurFlush (.move i t) = some dev) :
    DevDisk sp law dev a.value.bytes ∧
      ∀ err, dev.proc i (clientID t) = .done (.deleted err) → err = none := by
  obtain ⟨-, c, c', m, hmoves⟩ := DevState.step_move hdev
  obtain ⟨call, q, disk, hcall, hprocs, heffected, hdisk⟩ := h.disk.moves hf hs hmoves
    (hload (i, .deleteFile) hin c hmoves.cell)
  obtain rfl : call = .deleteFile := by
    have hserves := h.linked.inside t i _ hin
    rw [DevState.proc_eq hmoves.cell] at hserves
    exact hserves.call_eq hcall
  have hnow : dev.proc i (clientID t) = q := by
    rw [DevState.proc_set hmoves.cell hmoves.cells hprocs, if_pos ⟨rfl, rfl⟩]
  rw [hnow]
  cases heffected with
  | goes hgoes =>
    refine ⟨hdisk, fun err hdone => ?_⟩
    rw [hdone] at hgoes
    cases hgoes
  | refused hbytes _ _ => exact absurd hbytes not_false
  | deleted =>
    refine ⟨hdisk, fun err hdone => ?_⟩
    simpa using hdone.symm

lemma disk_call {i : ℕ} {m : SegCall} (hrange : m.InRange sp.segmentBytes)
    (hdev : s.dev.step sp concurFlush (.call i t m) = some dev) :
    DevDisk sp law dev a.value.bytes ∧ dev.proc i (clientID t) = .called m := by
  obtain ⟨-, -, hworld, c, hc, hidle, hcells⟩ := DevState.step_call hdev
  refine ⟨h.disk.call hc hworld hidle hrange hcells, ?_⟩
  rw [(DevState.goes_call hdev).proc, if_pos ⟨rfl, rfl⟩]

lemma disk_ret {i : ℕ} (hdev : s.dev.step sp concurFlush (.ret i t) = some dev) :
    DevDisk sp law dev a.value.bytes := by
  obtain ⟨-, hworld, c, res, hc, hdone, hcells⟩ := DevState.step_ret hdev
  exact h.disk.ret hc hworld hdone hcells

lemma disk_flush (hdev : s.dev.step sp concurFlush .flush = some dev) :
    DevDisk sp law dev a.value.bytes := by
  obtain rfl : { s.dev with flushes := s.dev.flushes ++ [.looking 0 []] } = dev :=
    Option.some.inj hdev
  exact h.disk.of_same rfl rfl

lemma turns (hf : Faultless sp.env) (hs : sp.Sized) (hload : s.LoadsWhole sp (.advance t))
    (hadv : DevUse.Advance sp totalBytes concurFlush s t (s.clients t) p dev mu shutdown) :
    Turns sp law a.value ((s.clients t).phase sp.segmentBytes (s.look t)) dev shutdown t p := by
  have hcounts := h.counts t
  have hworking : (s.clients t).stage = .working → a.value.closed = false := h.open_of_working
  have hchecked := h.linked.checked t
  have hcloses := h.closing.closes t
  generalize hp : s.clients t = q at hadv hcounts hworking hchecked hcloses
  cases hadv with
  | readAt _ => exact h.turns_enter true _ _
  | writeAt _ => exact h.turns_enter false _ _
  | flushShut _ hshut =>
    exact .piece h.disk h.closed_eq trivial rfl (.flushShut (h.closed_eq.trans hshut)) rfl
  | flush _ _ hdev => exact .stays (h.disk_flush hdev) h.closed_eq trivial rfl
  | close _ => exact .stays h.disk h.closed_eq trivial rfl
  | loop => exact h.turns_loop hp
  | @access io tries dev hdev =>
    obtain ⟨hpos, hrest, -⟩ := hchecked
    obtain ⟨hdisk, hproc⟩ := h.disk_call (io.inRange_call hpos hrest) hdev
    refine .stays hdisk h.closed_eq ⟨hcounts, fun res hdone => ?_, fun res e hdone => ?_⟩ ?_
    · cases hproc.symm.trans hdone
    · cases hproc.symm.trans hdone
    · simp only [Client.phase, hproc]
      rfl
  | scan _ => exact .stays h.disk h.closed_eq hcounts rfl
  | nothing _ =>
    obtain ⟨-, rfl, hquota⟩ := hcounts
    exact .piece h.disk h.closed_eq trivial rfl (.crowded (hworking rfl) hquota (.inr rfl)) rfl
  | @evict io tries count idx scan dev _ hdev =>
    obtain ⟨hdisk, hproc⟩ := h.disk_call (m := .deleteFile) trivial hdev
    refine .stays hdisk h.closed_eq ⟨hcounts.1, hcounts.2.1, hcounts.2.2, fun err hdone => ?_⟩ rfl
    cases hproc.symm.trans hdone
  | flushed _ => exact .piece h.disk h.closed_eq trivial rfl (.flush (hworking rfl) _) rfl
  | closedBefore _ hshut =>
    refine ⟨{ a.value with closed := true }, h.disk, hshut.symm, trivial, ?_⟩
    exact Turn.piece (SharedDisk.Effect.close (v := a.value))
  | shut _ _ hdev =>
    -- a `Close` takes effect where it sets `shutdown`, before it flushes
    refine ⟨{ a.value with closed := true }, h.disk_flush hdev, rfl, trivial, ?_⟩
    exact Turn.piece (SharedDisk.Effect.close (v := a.value))
  | closeFlushed hflush =>
    -- its own flush has met no error, so that it goes on to the local files, or returns nil
    obtain ⟨state, hstate, hsweeps⟩ := hcloses
    obtain rfl := Option.some.inj (hflush.symm.trans hstate)
    obtain ⟨rfl, -⟩ := hsweeps
    unfold DevUse.flushed
    simp only
    split_ifs
    · exact .stays h.disk h.closed_eq trivial rfl
    · exact .stays h.disk h.closed_eq trivial rfl
  | drop hdev =>
    exact .stays (h.disk_call (m := .deleteFile) trivial hdev).1 h.closed_eq trivial rfl
  | dropped _ =>
    obtain ⟨rfl, -⟩ := hcloses
    exact .stays h.disk h.closed_eq trivial rfl
  | move hin hdev =>
    cases p with
    | accessing io tries =>
      -- the only section that a read or a write can take effect in
      obtain ⟨rfl, rfl⟩ := Prod.mk.inj (Option.some.inj hin)
      exact h.turns_access hf hs hp hload hdev
    | evicting io tries count idx =>
      obtain ⟨rfl, rfl⟩ := Prod.mk.inj (Option.some.inj hin)
      obtain ⟨hdisk, hnil⟩ := h.moves_delete hf hs (by rw [hp]; rfl) hload hdev
      exact .stays hdisk h.closed_eq ⟨hcounts.1, hcounts.2.1, hcounts.2.2.1, hnil⟩ rfl
    | deleting i err =>
      obtain ⟨rfl, rfl⟩ := Prod.mk.inj (Option.some.inj hin)
      obtain ⟨hdisk, -⟩ := h.moves_delete hf hs (by rw [hp]; rfl) hload hdev
      exact .stays hdisk h.closed_eq trivial rfl
    | _ => cases hin
  | @ret q i call res c dev hin hc hdone hdev =>
    have hdisk := h.disk_ret hdev
    have hlook : s.look t i = .done res := by
      rw [← hdone]
      exact DevState.proc_eq hc
    cases q with
    | accessing io tries =>
      obtain ⟨rfl, rfl⟩ := Prod.mk.inj (Option.some.inj hin)
      exact h.turns_collect hp hlook hdisk
    | evicting io tries count idx =>
      obtain ⟨rfl, rfl⟩ := Prod.mk.inj (Option.some.inj hin)
      obtain ⟨htotal, -, -, hnil⟩ := hcounts
      have hres : res.err = none := by
        have hserves := h.linked.inside t idx .deleteFile (by rw [hp]; rfl)
        have hanswers := hserves.answers hlook
        cases res with
        | deleted err => exact hnil err hlook
        | _ => cases hanswers
      simp only [Client.back, hres, IoAt.evicted]
      exact .stays hdisk h.closed_eq htotal rfl
    | deleting i err =>
      obtain ⟨rfl, rfl⟩ := Prod.mk.inj (Option.some.inj hin)
      exact .stays hdisk h.closed_eq trivial rfl
    | _ => cases hin

lemma disk_flushMove (hf : Faultless sp.env) (hs : sp.Sized) {f : ℕ} {old new : FlushState}
    (hold : s.dev.flushes[f]? = some old)
    (hmove : DevState.FlushMove sp concurFlush s.dev dev f old new) :
    DevDisk sp law dev a.value.bytes := by
  cases hmove with
  | look hsame _ => exact h.disk.of_same hsame.1 hsame.2
  | looked hsame _ => exact h.disk.of_same hsame.1 hsame.2
  | recheck hsame _ => exact h.disk.of_same hsame.1 hsame.2
  | @spawn i todo running err buffered c _ hc hidle hworld hcells =>
    have hrange : SegCall.InRange sp.segmentBytes (.flush buffered) := trivial
    exact h.disk.call hc hworld hidle hrange hcells
  | @work i todo running seen err c c' m hi hmoves =>
    obtain ⟨buffered, hflush⟩ := h.linked.flushers.call_of_moves hold hi hmoves
    have hnot : ¬ (c.procs (flusherID f)).Loads := by
      intro hloads
      cases hq : c.procs (flusherID f) with
      | seeking buf pos => simp [hq, Proc.call?] at hflush
      | storing buf pos => simp [hq, Proc.call?] at hflush
      | _ =>
        rw [hq] at hloads
        exact hloads
    obtain ⟨call, q, disk, hcall, -, heffected, hdisk⟩ := h.disk.moves hf hs hmoves
      fun hloads => absurd hloads hnot
    obtain rfl := Option.some.inj (hcall.symm.trans hflush)
    cases heffected with
    | goes _ => exact hdisk
    | refused _ _ _ => exact hdisk
    | flushed _ _ => exact hdisk
  | collect _ hc hdone hworld hcells => exact h.disk.ret hc hworld hdone hcells
  | finish hsame => exact h.disk.of_same hsame.1 hsame.2

lemma of_others {v : SharedDisk} {q : Phase DiskOp DevResult}
    (hlinked : Linked sp ⟨dev, mu, shutdown, Function.update s.clients t p⟩)
    (hclosing : CloseInv ⟨dev, mu, shutdown, Function.update s.clients t p⟩)
    (hdisk : DevDisk sp law dev v.bytes) (hclosed : v.closed = shutdown)
    (hlength : dev.cells.length = s.dev.cells.length)
    (hothers : ∀ u, u ≠ t → ∀ i, dev.proc i (clientID u) = s.dev.proc i (clientID u))
    (hcounts : p.Counts sp fun i => dev.proc i (clientID t))
    (hphase : p.phase sp.segmentBytes (fun i => dev.proc i (clientID t)) = q) :
    Shares sp law totalBytes count ⟨dev, mu, shutdown, Function.update s.clients t p⟩
      { a.goto t q with value := v } where
  linked := hlinked
  closing := hclosing
  disk := hdisk
  closed_eq := hclosed
  phase u := by
    simp only [State.goto]
    by_cases hu : u = t
    · subst hu
      rw [Function.update_self, Function.update_self]
      exact hphase.symm
    · rw [Function.update_of_ne hu, Function.update_of_ne hu, h.phase u]
      exact congrArg (fun look => (s.clients u).phase sp.segmentBytes look)
        (funext fun i => (hothers u hu i).symm)
  counts u := by
    by_cases hu : u = t
    · subst hu
      simp only [Function.update_self]
      exact hcounts
    · have hlook : DevUse.look ⟨dev, mu, shutdown, Function.update s.clients t p⟩ u = s.look u :=
        funext (hothers u hu)
      simp only [Function.update_of_ne hu, hlook]
      exact h.counts u
  length_eq := hlength.trans h.length_eq
  fits := h.fits

end Turning

end Shares

/-! ## Runs -/

namespace DevUse

/-- What is seen of a step. -/
def sight (s : DevUse σ) : UseEvent → Option (Sight DiskOp DevResult)
  | .call t call => some (.call t call.op)
  | .ret t =>
    match s.clients t with
    | .done res => some (.ret t res)
    | _ => none
  | _ => none

end DevUse

namespace Shares

variable {sp : StoreParams σ} {law : Plain sp.container} {totalBytes count concurFlush : ℕ}
  {s s' : DevUse σ} {a a₀ : State SharedDisk DiskOp DevResult}

lemma step (h : Shares sp law totalBytes count s a) (hf : Faultless sp.env) (hs : sp.Sized)
    {e : UseEvent} (hload : s.LoadsWhole sp e)
    (hstep : s.step sp totalBytes concurFlush e = some s') {hist : List (Sight DiskOp DevResult)}
    (hshows : Pieces.Shows (SharedDisk.Effect sp.segmentBytes sp.quotaSema) a₀ hist a) :
    ∃ a', Pieces.Shows (SharedDisk.Effect sp.segmentBytes sp.quotaSema) a₀
        (hist ++ (s.sight e).toList) a' ∧ Shares sp law totalBytes count s' a' := by
  have hlinked' := h.linked.step hs.pos hstep
  have hclosing' := h.closing.step h.linked hf h.disk.devCells hs.pos hstep
  cases DevUse.step_stepped hstep with
  | @call t call hp =>
    refine ⟨_, hshows.call call.op (t := t) (by rw [h.phase, hp]; rfl), ?_⟩
    exact h.of_others hlinked' hclosing' h.disk h.closed_eq rfl (fun _ _ _ => rfl) trivial rfl
  | @advance t p dev mu shutdown hadv =>
    obtain ⟨v, hdisk, hclosed, hcounts, hturn⟩ := h.turns hf hs hload hadv
    obtain ⟨hlength, hothers⟩ := hadv.crosses.others
    refine ⟨_, ?_, h.of_others hlinked' hclosing' hdisk hclosed hlength hothers hcounts rfl⟩
    simp only [DevUse.sight, Option.toList_none, List.append_nil]
    exact hshows.turn (h.phase t) hturn
  | @flush e dev he hdev =>
    obtain ⟨f, old, new, hold, -, hmove⟩ := DevState.step_ofFlush he hdev
    have hlook : ∀ u, DevUse.look { s with dev } u = s.look u := fun u => funext fun i =>
      hmove.proc_client i u
    refine ⟨a, by simpa [DevUse.sight] using hshows, hlinked', hclosing',
      h.disk_flushMove hf hs hold hmove, h.closed_eq, fun u => ?_, fun u => ?_,
      hmove.length_eq.trans h.length_eq, h.fits⟩
    · rw [hlook]
      exact h.phase u
    · rw [hlook]
      exact h.counts u
  | ret hp =>
    refine ⟨_, ?_, h.of_others (p := .idle) hlinked' hclosing' h.disk h.closed_eq rfl
      (fun _ _ _ => rfl) trivial rfl⟩
    simp only [DevUse.sight, hp]
    exact hshows.ret (by rw [h.phase, hp]; rfl)

end Shares

/-- Nothing is left of it behind a piece. -/
def DiskOp.Whole (segmentBytes : ℕ) : DiskOp → Prop
  | io x => x.rest.length ≤ segmentBytes - x.pos % segmentBytes
  | _ => True

section Results

variable (s : ObjSetup σ) (w : World σ) (r₀ : ObjRun σ) (hopen : ObjRun.start s w = some r₀)
  (law : Plain r₀.dev.params.container) (hf : Faultless s.env) (hmax : s.totalBytes ≤ maxOffset)
  (disk : Bytes) (hstored : StoredDisk r₀.dev.params law.toFaithful w.store s.count disk)
  (hcache : ∀ i, i < s.count → r₀.dev.params.CacheOf w.files
    (r₀.dev.params.itemName (itoa i)) (segSlice r₀.dev.params disk i)) (es : List UseEvent)
  (hload : Machine.Meets (DevUse.step r₀.dev.params s.totalBytes r₀.dev.concurFlush)
    (DevUse.LoadsWhole r₀.dev.params) (.new r₀.dev.segments r₀.world) es) (u : DevUse σ)
  (hrun : Machine.run (DevUse.step r₀.dev.params s.totalBytes r₀.dev.concurFlush)
    (.new r₀.dev.segments r₀.world) es = some u)

include hopen hf hmax hstored hcache hload hrun

lemma shares_of_run :
    ∃ a, Pieces.Shows (SharedDisk.Effect s.objectBytes r₀.dev.params.quotaSema)
        ⟨⟨disk, false⟩, fun _ => .idle⟩
        (sights (DevUse.step r₀.dev.params s.totalBytes r₀.dev.concurFlush) DevUse.sight
          (.new r₀.dev.segments r₀.world) es) a ∧
      Shares r₀.dev.params law s.totalBytes s.count u a := by
  have hg := ObjRun.gives_of_start hopen hmax
  obtain ⟨r, hr, hlive⟩ := ObjRun.start_live hg hstored hcache
  obtain rfl := Option.some.inj (hr.symm.trans hopen)
  have hlinked : Linked r.dev.params (.new r.dev.segments r.world) := .new _ _
  have hstart : Shares r.dev.params law s.totalBytes s.count (.new r.dev.segments r.world)
      ⟨⟨disk, false⟩, fun _ => .idle⟩ := by
    refine ⟨hlinked, .of_open hlinked rfl, .new hlive.sound, rfl, fun _ => rfl,
      fun _ => trivial, ?_, ?_⟩
    · simpa [DevUse.new, DevState.new] using hlive.length_eq
    · rw [hg.segmentBytes_eq]
      exact Nat.div_mul_le_self ..
  have hsteps : ∀ u e u' h a, Shares r.dev.params law s.totalBytes s.count u a →
      u.LoadsWhole r.dev.params e →
      u.step r.dev.params s.totalBytes r.dev.concurFlush e = some u' →
      Pieces.Shows (SharedDisk.Effect r.dev.params.segmentBytes r.dev.params.quotaSema)
        ⟨⟨disk, false⟩, fun _ => .idle⟩ h a →
      ∃ a', Pieces.Shows (SharedDisk.Effect r.dev.params.segmentBytes r.dev.params.quotaSema)
        ⟨⟨disk, false⟩, fun _ => .idle⟩ (h ++ (u.sight e).toList) a' ∧
        Shares r.dev.params law s.totalBytes s.count u' a' :=
    fun _ _ _ _ _ hrel hcond hstep hshows => hrel.step (hg.env_eq ▸ hf) hg.sized hcond hstep hshows
  rw [← hg.segmentBytes_eq]
  exact exists_of_simulation hsteps hload hrun hstart .start

/-- **What `Close` leaves behind is the disk.**  Where a device in use has been shut down and no
`Close` is under way, opening it again, with the files of the cache directory or without them, gives
a device that stands for the disk its clients have seen. -/
theorem closed_device_reopens (hshut : u.shutdown = true) (hfree : u.mu.writer = none)
    (fresh : Bool) :
    ∃ a r, Pieces.Shows (SharedDisk.Effect s.objectBytes r₀.dev.params.quotaSema)
        ⟨⟨disk, false⟩, fun _ => .idle⟩
        (sights (DevUse.step r₀.dev.params s.totalBytes r₀.dev.concurFlush) DevUse.sight
          (.new r₀.dev.segments r₀.world) es) a ∧
      ObjRun.start s (u.dev.world.reopened fresh) = some r ∧
      r.Live s r₀.dev.params law a.value.bytes := by
  obtain ⟨a, hshows, hshares⟩ := shares_of_run s w r₀ hopen law hf hmax disk hstored hcache es hload
    u hrun
  have hg := ObjRun.gives_of_start hopen hmax
  have howning : ∀ t, (u.clients t).stage ≠ .owning := by
    intro t hstage
    have hwriter := (hshares.linked.locks.writer t).mpr (.inr hstage)
    rw [hfree] at hwriter
    cases hwriter
  obtain ⟨hdisk, hfiles⟩ :=
    hshares.disk.stored (hg.env_eq ▸ hf) hshares.linked hshares.closing hshut howning
  rw [hshares.length_eq] at hdisk hfiles
  have hcache' : ∀ i, i < s.count → r₀.dev.params.CacheOf (u.dev.world.reopened fresh).files
      (r₀.dev.params.itemName (itoa i)) (segSlice r₀.dev.params a.value.bytes i) := by
    intro i hi
    cases fresh with
    | false => exact hfiles i hi
    | true => exact ⟨.inl rfl, fun _ => rfl⟩
  obtain ⟨r, hr, hlive⟩ := ObjRun.start_live (w := u.dev.world.reopened fresh) hg hdisk hcache'
  exact ⟨a, r, hshows, hr, hlive⟩

end Results

/-- A `Close` comes while another client writes, and waits for it. -/
def closedInUse : List UseEvent :=
  [.call 0 (.writeAt [1] 1), .call 1 .close] ++ List.replicate 7 (.advance 0) ++
    [.advance 1, .ret 0, .advance 1] ++ List.replicate 3 (.flush (.look 0)) ++
    [.flush (.recheck 0), .flush (.spawn 0 true)] ++ List.replicate 5 (.flush (.work 0 1)) ++
    [.flush (.collect 0 1), .flush (.finish 0)] ++ List.replicate 8 (.advance 1) ++ [.ret 1]

theorem closed_device_reopens_fresh : ∃ u,
    Machine.run (DevUse.step (ObjRun.memTwo false).dev.params 2 1)
      (.new (ObjRun.memTwo false).dev.segments ObjRun.emptyWorld) closedInUse = some u ∧
    ∃ a r, Pieces.Shows (SharedDisk.Effect 1 (some 1)) ⟨⟨zeros 2, false⟩, fun _ => .idle⟩
        (sights (DevUse.step (ObjRun.memTwo false).dev.params 2 1) DevUse.sight
          (.new (ObjRun.memTwo false).dev.segments ObjRun.emptyWorld) closedInUse) a ∧
      ObjRun.start (ObjRun.memSetup 2 1 1 false) (u.dev.world.reopened true) = some r ∧
      r.Live (ObjRun.memSetup 2 1 1 false) (ObjRun.memTwo false).dev.params (memPlain ['c'])
        a.value.bytes := by
  have hends : (Machine.run (DevUse.step (ObjRun.memTwo false).dev.params 2 1)
      (.new (ObjRun.memTwo false).dev.segments ObjRun.emptyWorld) closedInUse).any
        (fun u => u.shutdown ∧ u.mu.writer = none) = true := by
    decide +kernel
  obtain ⟨u, hrun, hu⟩ := (Option.any_eq_true ..).mp hends
  obtain ⟨hshut, hfree⟩ := of_decide_eq_true hu
  exact ⟨u, hrun, closed_device_reopens (ObjRun.memSetup 2 1 1 false) ObjRun.emptyWorld
    (ObjRun.memTwo false) rfl (memPlain ['c']) faultless_quietEnv (by decide) (zeros 2)
    (storedDisk_zeros 2 fun _ _ => rfl) (fun _ _ => ⟨.inl rfl, fun _ => rfl⟩) closedInUse
    (Machine.meets_of_all (DevUse.loadsWhole_of_thick rfl) closedInUse) u hrun hshut hfree true⟩

end Usbd
