import Usbd.Objstore.SegmentArrays

/-!
# Requests over several segments

`ioAt` cuts a request into one piece for each segment it touches, and makes one access for each
piece (`accesses`).  Where the segments are arrays, a request transfers a leading part of its buffer
on all the arrays together, as many bytes as the accesses report (`ioLoop_moves`), and all of it
where nothing fails and there are enough segments.

The count that `ioAt` returns is another matter.  On the way out with an error it is the count of
the last access alone.
-/

namespace Usbd

open ListMemory Prog

variable {σ : Type} {sp : StoreParams σ} {w : World σ} {segments : List (Segment σ)}
  {arrays : List Bytes} {Stands : World σ → List (Segment σ) → List Bytes → Prop} {mayFail : Prop}

/-! ## Accesses -/

lemma readAt_count (env : Env) (file : File) (len : ℕ) (pos : ℤ) :
    Yields (file.readAt env len pos) w fun r _ => r.2 = none → r.1.length = len := by
  have hall : (fileReadAt (file.bytes w) len pos).2 = none →
      (fileReadAt (file.bytes w) len pos).1.length = len := by
    unfold fileReadAt
    split_ifs with hneg
    · simp
    · simp only [ite_eq_right_iff, reduceCtorEq, imp_false, Nat.not_lt, length_slice]
      omega
  unfold File.readAt
  split_ifs
  · exact (yields_pure _).mpr fun herr => (length_of_closedFileErr herr).symm
  · simp only [yields_bind]
    rintro fault w₁ hcall
    obtain ⟨rfl, rfl⟩ := Prod.mk.inj (Except.ok.inj hcall)
    rintro _ _ hget
    obtain ⟨rfl, rfl⟩ := Prod.mk.inj (Except.ok.inj hget)
    cases env.fault .readAt w.tick with
    | none => exact (yields_pure _).mpr hall
    | some n => exact (yields_pure _).mpr (by simp)

lemma writeAt_count (env : Env) (file : File) (buf : Bytes) (pos : ℤ) (call : OsCall) :
    Yields (file.writeAt env buf pos call) w fun r _ => r.2 = none → r.1 = buf.length := by
  have hall : ∀ data fault, (fileWriteAt data buf pos fault).2.2 = none →
      (fileWriteAt data buf pos fault).2.1 = buf.length := by
    intro data fault
    unfold fileWriteAt
    split_ifs <;> cases fault <;> simp
  unfold File.writeAt
  split_ifs
  · exact (yields_pure _).mpr fun herr => (length_of_closedFileErr herr).symm
  · simp only [yields_bind, yields_pure]
    intro fault w₁ _ w₂ w₃ _ _ w₄ _
    exact hall _ _

lemma segmentOp_count (readOp : Bool) (seg : Segment σ) (buf : Bytes) (pos : ℤ) :
    Yields (segmentOp sp readOp seg buf pos) w fun r _ =>
      r.2.1.length = buf.length ∧ (r.2.2.2 = none → r.2.2.1 = buf.length) := by
  unfold segmentOp
  cases readOp with
  | true =>
    rw [if_pos rfl]
    intro r w' hrun
    refine ⟨CacheRun.length_readAt seg buf pos r w' hrun, ?_⟩
    revert r w'
    change Yields _ _ _
    rw [Segment.readAt, yields_bind]
    rintro now w₁ -
    refine Segment.yields_readLoaded fun r w₂ _ => ⟨by simp, fun n err _ h => ?_, fun file _ => ?_⟩
    · rcases h with ⟨hn, -⟩ | rfl
      · exact fun _ => hn
      · simp
    · exact readAt_count sp.env file buf.length pos
  | false =>
    simp only [Bool.false_eq_true, if_false, yields_bind, yields_pure, Segment.writeAt,
      Segment.writeLoaded, true_and]
    rintro now w₁ -
    split_ifs
    · exact (yields_pure _).mpr (by simp)
    · rw [yields_bind]
      rintro ⟨seg₁, data⟩ w₂ -
      rcases data with e | _ | file
      · exact (yields_pure _).mpr (by simp)
      · exact (yields_pure _).mpr (by simp)
      · simp only [yields_bind, yields_pure]
        exact writeAt_count sp.env file buf pos .writeAt

lemma accessSegment_count (readOp : Bool) (i : ℕ) (pos : ℤ) (tries : ℕ) (buf : Bytes) :
    Yields (accessSegment sp readOp i pos tries segments buf) w fun r _ =>
      r.2.2.2 = none → r.2.2.1 = buf.length := by
  refine (yields_accessSegment (I := fun _ buf' _ => buf'.length = buf.length)
    (N := (· = buf.length)) ?_ ?_ tries rfl).mono fun _ _ h => h.2
  · intro segments buf' w seg hlen _
    refine (segmentOp_count readOp seg buf' pos).mono fun r w₁ h₁ => ?_
    exact ⟨h₁.1.trans hlen, fun hnone => (h₁.2 hnone).trans hlen⟩
  · exact fun hlen _ _ _ => hlen

/-- The inner loop, call by call: a success ends it, and so does an error, unless it is a want of
capacity and there are tries left. -/
lemma returns_accessSegment {readOp : Bool} {i tries : ℕ} {pos : ℤ} {buf : Bytes} {seg : Segment σ}
    (hseg : segments[i]? = some seg)
    {Q : List (Segment σ) × Bytes × ℕ × Option GoError → World σ → Prop}
    (h : Returns (segmentOp sp readOp seg buf pos) w fun r w₁ =>
      (r.2.2.2 = none → Q (segments.set i r.1, r.2.1, r.2.2.1, none) w₁) ∧
      ∀ e, r.2.2.2 = some e →
        (∀ text, Q (segments.set i r.1, r.2.1, r.2.2.1, some (.wrap text e)) w₁) ∧
        ∀ k, tries = k + 1 → e.is errCapacityClaim = true →
          Returns (removeLeastRecentUsed sp (segments.set i r.1) i) w₁ fun r' w₂ =>
            (∀ text e', r'.2 = some e' → Q (r'.1, r.2.1, r.2.2.1, some (.wrap text e')) w₂) ∧
            (r'.2 = none → Returns (accessSegment sp readOp i pos k r'.1 r.2.1) w₂ Q)) :
    Returns (accessSegment sp readOp i pos tries segments buf) w Q := by
  unfold accessSegment
  simp only [hseg, returns_bind]
  refine h.mono fun r w₁ h₁ => ?_
  obtain ⟨seg₁, got, count, err⟩ := r
  obtain ⟨hnone, hsome⟩ := h₁
  cases err with
  | none => exact (returns_pure _).mpr (hnone rfl)
  | some e =>
    obtain ⟨hgive, hretry⟩ := hsome e rfl
    cases tries with
    | zero => exact (returns_pure _).mpr (hgive _)
    | succ k =>
      simp only
      split_ifs with he
      · rw [returns_bind]
        refine (hretry k rfl he).mono fun r' w₂ h₂ => ?_
        obtain ⟨segments₂, rmErr⟩ := r'
        cases rmErr with
        | some e' => exact (returns_pure _).mpr (h₂.1 _ e' rfl)
        | none => exact h₂.2 rfl
      · exact (returns_pure _).mpr (hgive _)

/-- An access to a segment that is an array, with the evictions and retries it takes, moves a
leading part of its piece. -/
lemma accessSegment_moves (hio : SegmentIO sp Stands mayFail) (h : Stands w segments arrays) {i : ℕ}
    (hi : i < segments.length) (readOp : Bool) {pos : ℕ} {buf : Bytes} (hbuf : buf ≠ [])
    (hle : pos + buf.length ≤ sp.segmentBytes) (tries : ℕ) :
    Returns (accessSegment sp readOp i pos tries segments buf) w fun r w' =>
      ∃ arrays', Stands w' r.1 arrays' ∧ r.1.length = segments.length ∧
        Moved readOp arrays.flatten arrays'.flatten buf r.2.1 (i * sp.segmentBytes + pos) r.2.2.1 ∧
        (r.2.2.2 = none → r.2.2.1 = buf.length) ∧ (r.2.2.2 ≠ none → mayFail) := by
  induction tries using Nat.strong_induction_on generalizing w segments arrays with
  | _ tries ih =>
  obtain ⟨seg, hseg⟩ : ∃ seg, segments[i]? = some seg := ⟨_, List.getElem?_eq_getElem hi⟩
  obtain ⟨a, ha⟩ : ∃ a, arrays[i]? = some a :=
    ⟨_, List.getElem?_eq_getElem (by rw [hio.length_eq h]; exact hi)⟩
  refine returns_accessSegment hseg ((hio.call readOp h hseg ha hbuf hle).mono fun r w₁ h₁ => ?_)
  obtain ⟨seg₁, got, count, err⟩ := r
  obtain ⟨a', hmoved, hst, hfull, hmay, hcap⟩ := h₁
  have hflat := hmoved.flatten (hio.array_length h) ha hle
  refine ⟨fun hnone => ?_, fun e he => ?_⟩
  · exact ⟨_, hst, List.length_set, hflat, fun _ => hfull hnone, fun hne => absurd rfl hne⟩
  obtain rfl : err = some e := he
  have hfail : mayFail := hmay (by simp)
  refine ⟨fun text => ?_, fun k hk hclaim => ?_⟩
  · exact ⟨_, hst, List.length_set, hflat, fun hn => by simp at hn, fun _ => hfail⟩
  -- nothing has moved: make room and try again
  obtain ⟨hzero, hevict⟩ := hcap e rfl hclaim
  simp only at hzero hflat
  subst hzero
  obtain ⟨rfl, harrays⟩ := hflat.eq_of_zero
  refine hevict.mono fun r w₂ hst₂ => ?_
  have hlen₂ : r.1.length = segments.length := by
    rw [← hio.length_eq hst₂, List.length_set, hio.length_eq h]
  refine ⟨fun text e' _ => ?_, fun _ => ?_⟩
  · exact ⟨_, hst₂, hlen₂, hflat, fun hn => by simp at hn, fun _ => hfail⟩
  · refine (ih k (by omega) hst₂ (by omega)).mono fun r' w₃ h₃ => ?_
    obtain ⟨arrays₃, hst₃, hlen₃, hmoved₃, hrest⟩ := h₃
    rw [harrays] at hmoved₃
    exact ⟨arrays₃, hst₃, hlen₃.trans hlen₂, hmoved₃, hrest⟩

/-! ## The outer loop -/

/-- What the accesses of the outer loop report: for each its count and its error. -/
def accesses (sp : StoreParams σ) (readOp : Bool) :
    ℕ → List (Segment σ) → ℕ → ℤ → Bytes → World σ → List (ℕ × Option GoError)
  | 0, _, _, _, _, _ => []
  | rounds + 1, segments, segID, pos, rest, w =>
    if rest = [] ∨ segments.length ≤ segID then []
    else
      match accessSegment sp readOp segID pos maxCapTries segments (piece sp pos rest) w with
      | .ok ((segments, _, count, none), w) =>
        (count, none) :: accesses sp readOp rounds segments (segID + 1) 0 (rest.drop count) w
      | .ok ((_, _, count, some e), _) => [(count, some e)]
      | .error _ => []

/-- The bytes accesses have transferred, all together. -/
def transferred (calls : List (ℕ × Option GoError)) : ℕ := (calls.map Prod.fst).sum

/-- The count of a loop with these accesses: the sum of their counts if none fails; otherwise the
count of the last alone, which is the one that fails. -/
def Counted (totalRead : ℕ) (calls : List (ℕ × Option GoError)) (n : ℕ) : Prop :=
  (∀ c ∈ calls, c.2 = none) ∧ n = totalRead + transferred calls ∨
    ∃ before last, calls = before ++ [last] ∧ (∀ c ∈ before, c.2 = none ∧ 0 < c.1) ∧
      last.2 ≠ none ∧ n = last.1

lemma Counted.cons {totalRead count n : ℕ} {calls : List (ℕ × Option GoError)}
    (h : Counted (totalRead + count) calls n) (hpos : 0 < count) :
    Counted totalRead ((count, none) :: calls) n := by
  rcases h with ⟨hnone, hn⟩ | ⟨before, last, rfl, hbefore, hlast, hn⟩
  · refine .inl ⟨by simpa using hnone, ?_⟩
    rw [hn, transferred, transferred, List.map_cons, List.sum_cons]
    omega
  · exact .inr ⟨(count, none) :: before, last, rfl, by simpa [hpos] using hbefore, hlast, hn⟩

/-- The count is that of the bytes transferred exactly when only the first access may fail. -/
lemma Counted.eq_transferred_iff {n : ℕ} {calls : List (ℕ × Option GoError)}
    (h : Counted 0 calls n) : n = transferred calls ↔ ∀ c ∈ calls.tail, c.2 = none := by
  rcases h with ⟨hnone, hn⟩ | ⟨before, last, rfl, hbefore, hlast, hn⟩
  · refine iff_of_true (by omega) fun c hc => hnone c (List.mem_of_mem_tail hc)
  · cases before with
    | nil => simp [transferred, hn]
    | cons c before =>
      have hc := (hbefore c (by simp)).2
      refine iff_of_false ?_ fun hall => hlast (hall last (by simp))
      simp only [transferred, List.cons_append, List.map_cons, List.map_append, List.map_nil,
        List.sum_cons, List.sum_append, List.sum_nil]
      omega

lemma piece_ne_nil {pos : ℤ} {rest : Bytes} (hpos : pos < sp.segmentBytes) (hrest : rest ≠ []) :
    piece sp pos rest ≠ [] := by
  have hlen := List.length_pos_iff_ne_nil.mpr hrest
  rw [← List.length_pos_iff_ne_nil, piece]
  split_ifs
  · rw [List.length_take]
    omega
  · exact hlen

lemma ioLoop_counted (hs : 0 < sp.segmentBytes) (readOp : Bool) {rounds segID totalRead : ℕ}
    {pos : ℤ} (hpos : pos < sp.segmentBytes) (rest : Bytes) :
    Yields (ioLoop sp readOp rounds segments segID pos totalRead rest) w fun r _ =>
      Counted totalRead (accesses sp readOp rounds segments segID pos rest w) r.2.2.1 := by
  induction rounds generalizing w segments segID pos totalRead rest with
  | zero =>
    unfold ioLoop
    have hzero : Counted totalRead [] totalRead := .inl ⟨by simp, by simp [transferred]⟩
    split_ifs <;> exact (yields_pure _).mpr hzero
  | succ rounds ih =>
    by_cases hstop : rest = [] ∨ segments.length ≤ segID
    · have hzero : Counted totalRead [] totalRead := .inl ⟨by simp, by simp [transferred]⟩
      rw [accesses, if_pos hstop]
      unfold ioLoop
      split_ifs with hnil hend
      · exact (yields_pure _).mpr hzero
      · exact (yields_pure _).mpr hzero
      · exact absurd hstop (by simp [hnil, hend])
    obtain ⟨hnil, hlt⟩ := not_or.mp hstop
    rw [accesses, if_neg hstop, ioLoop, if_neg hnil, if_neg hlt]
    by_cases hwrap : (sp.segmentBytes : ℤ) - pos > maxOffset
    · simp only [if_pos hwrap]
      exact yields_stop _
    simp only [if_neg hwrap, yields_bind]
    intro r w₁ hrun
    change accessSegment sp readOp segID pos maxCapTries segments (piece sp pos rest) w = _ at hrun
    have hcount := accessSegment_count readOp segID pos maxCapTries _ r w₁ hrun
    have hne := List.length_pos_iff_ne_nil.mpr (piece_ne_nil hpos hnil)
    obtain ⟨segments₁, got, count, err⟩ := r
    simp only [hrun]
    cases err with
    | some e => exact (yields_pure _).mpr (.inr ⟨[], (count, some e), rfl, by simp, by simp, rfl⟩)
    | none =>
      simp only [yields_bind, yields_pure]
      have hnext : (0 : ℤ) < sp.segmentBytes := by omega
      refine (ih hnext (rest.drop count)).mono fun r' w₂ h₂ => ?_
      exact h₂.cons (hne.trans_eq (hcount rfl).symm)

/-- Nothing of an empty buffer moves, at any position. -/
lemma Moved.of_nil {readOp : Bool} {array array' buf' : Bytes} {pos pos' n : ℕ}
    (h : Moved readOp array array' [] buf' pos n) : Moved readOp array array' [] buf' pos' n := by
  obtain rfl : n = 0 := by simpa using h.le
  refine ⟨le_rfl, ?_, ?_⟩
  · rw [h.buffer]
    simp
  · rw [h.array]
    simp

/-- What the outer loop leaves behind it: so many bytes moved, on all the arrays together; and
without failures the whole buffer, if there are segments for it. -/
structure LoopMoved (sp : StoreParams σ) (Stands : World σ → List (Segment σ) → List Bytes → Prop)
    (mayFail : Prop) (readOp : Bool) (array : Bytes) (count segID pos totalRead : ℕ) (rest : Bytes)
    (moved : ℕ) (r : List (Segment σ) × Bytes × ℕ × Option GoError) (w' : World σ) : Prop where
  moves : ∃ arrays', Stands w' r.1 arrays' ∧
    Moved readOp array arrays'.flatten rest r.2.1 (segID * sp.segmentBytes + pos) moved
  le : moved ≤ bytesLeft sp count segID pos
  whole : ¬ mayFail → rest.length ≤ bytesLeft sp count segID pos →
    moved = rest.length ∧ r.2.2 = (totalRead + rest.length, none)

/-- The loop ends with the buffer, or with the segments. -/
lemma loopMoved_stop (h : Stands w segments arrays) (readOp : Bool) {rounds segID pos totalRead : ℕ}
    {rest : Bytes} (hstop : rest = [] ∨ segments.length ≤ segID) :
    Returns (ioLoop sp readOp rounds segments segID pos totalRead rest) w
      (LoopMoved sp Stands mayFail readOp arrays.flatten segments.length segID pos totalRead
        rest 0) := by
  have hmoved : ∃ arrays', Stands w segments arrays' ∧
      Moved readOp arrays.flatten arrays'.flatten rest rest (segID * sp.segmentBytes + pos) 0 :=
    ⟨arrays, h, Nat.zero_le _, by simp, by simp⟩
  refine returns_ioLoop_stop (.inr hstop) (fun hnil => ?_) fun hne => ?_
  · subst hnil
    exact ⟨hmoved, Nat.zero_le _, fun _ _ => ⟨rfl, rfl⟩⟩
  · refine ⟨hmoved, Nat.zero_le _, fun _ hle => ?_⟩
    have hlen := List.length_pos_iff_ne_nil.mpr hne
    have hmul := Nat.mul_le_mul_right sp.segmentBytes (hstop.resolve_left hne)
    rw [bytesLeft] at hle
    omega

/-- **The outer loop over arrays** moves what its accesses report. -/
lemma ioLoop_moves (hio : SegmentIO sp Stands mayFail) (hs : 0 < sp.segmentBytes)
    (hmax : sp.segmentBytes ≤ maxOffset) (h : Stands w segments arrays) (readOp : Bool)
    {rounds segID pos totalRead : ℕ} (rest : Bytes)
    (hrounds : segments.length ≤ segID + rounds) (hpos : pos < sp.segmentBytes) :
    Returns (ioLoop sp readOp rounds segments segID pos totalRead rest) w
      (LoopMoved sp Stands mayFail readOp arrays.flatten segments.length segID pos totalRead rest
        (transferred (accesses sp readOp rounds segments segID pos rest w))) := by
  induction rounds generalizing w segments arrays segID pos totalRead rest with
  | zero => exact loopMoved_stop h readOp (.inr (by omega))
  | succ rounds ih =>
    by_cases hstop : rest = [] ∨ segments.length ≤ segID
    · rw [accesses, if_pos hstop]
      exact loopMoved_stop h readOp hstop
    obtain ⟨hnil, hend⟩ := not_or.mp hstop
    have hid : segID < segments.length := by omega
    obtain ⟨hpiece, hfit, hnext⟩ := piece_range segID hpos hnil
    obtain ⟨r, w₁, hrun, arrays₁, hst₁, hlen₁, hmoved, hfull, hmay⟩ :=
      accessSegment_moves hio h hid readOp hpiece hfit maxCapTries
    obtain ⟨segments₁, got, count, err⟩ := r
    have hsplit : rest.take (sp.segmentBytes - pos) ++ rest.drop (sp.segmentBytes - pos) = rest :=
      List.take_append_drop _ _
    have hleft := bytesLeft_of_lt hpos hid
    refine ioLoop_succ hnil hid hpos.le hmax ⟨_, w₁, hrun, fun hnone => ?_, fun e he => ?_⟩
    · -- the whole piece, and what the rounds after it move
      obtain rfl : err = none := hnone
      obtain rfl : count = (rest.take (sp.segmentBytes - pos)).length := hfull rfl
      rw [accesses, if_neg hstop, piece_natCast hpos.le, hrun]
      simp only [drop_length_take]
      simp only at hlen₁ hst₁ hmoved
      refine (ih hst₁ (rest.drop (sp.segmentBytes - pos)) ?_ hs).mono fun r' w₂ h₂ => ?_
      · omega
      obtain ⟨⟨arrays₂, hst₂, hmoved₂⟩, hle₂, hwhole₂⟩ := h₂
      simp only [Nat.cast_zero, hlen₁] at hmoved₂ hle₂ hwhole₂
      rw [show ∀ calls n, transferred ((n, none) :: calls) = n + transferred calls by
        simp [transferred]]
      generalize transferred (accesses sp readOp rounds segments₁ (segID + 1) 0
        (rest.drop (sp.segmentBytes - pos)) w₁) = m at hmoved₂ hle₂ hwhole₂ ⊢
      have hlen := congrArg List.length hsplit
      rw [List.length_append] at hlen
      have hpart : (rest.take (sp.segmentBytes - pos)).length ≤ sp.segmentBytes - pos :=
        List.length_take_le _ _
      refine ⟨⟨arrays₂, hst₂, ?_⟩, by omega, fun hno hle => ?_⟩
      · -- the next piece begins where this one ends, unless there is none
        have hlater : Moved readOp arrays₁.flatten arrays₂.flatten
            (rest.drop (sp.segmentBytes - pos)) r'.2.1
            (segID * sp.segmentBytes + pos + (rest.take (sp.segmentBytes - pos)).length) m := by
          rcases hnext with hnone | hnext
          · rw [hnone] at hmoved₂ ⊢
            exact hmoved₂.of_nil
          · rwa [← hnext]
        have hin : segID * sp.segmentBytes + pos + (rest.take (sp.segmentBytes - pos) ++
            (rest.drop (sp.segmentBytes - pos)).take m).length ≤ arrays.flatten.length := by
          have hmul := segment_end_le sp hid
          have hmle := hlater.le
          rw [bytesLeft, Nat.add_mul] at hle₂
          rw [length_flatten_of_length_eq (hio.array_length h), hio.length_eq h, List.length_append,
            List.length_take, List.length_take]
          omega
        have happend := hmoved.append hlater hin
        rwa [hsplit] at happend
      · have hrest : (rest.drop (sp.segmentBytes - pos)).length ≤
            bytesLeft sp segments.length (segID + 1) 0 := by
          rw [List.length_drop]
          omega
        obtain ⟨rfl, hres⟩ := hwhole₂ hno hrest
        refine ⟨by omega, ?_⟩
        simp only [hres, Nat.add_assoc, hlen]
    · -- the way out with an error: a part of this piece, and nothing behind it
      obtain rfl : err = some e := he
      rw [accesses, if_neg hstop, piece_natCast hpos.le, hrun]
      simp only [transferred, List.map_cons, List.map_nil, List.sum_cons, List.sum_nil, add_zero]
      refine ⟨⟨arrays₁, hst₁, ?_⟩, ?_, fun hno => absurd (hmay (by simp)) hno⟩
      · have hpart := hmoved.of_piece (rest.drop (sp.segmentBytes - pos))
        rw [hsplit] at hpart
        rw [drop_length_take]
        exact hpart
      · have hle := hmoved.le
        rw [List.length_take] at hle
        simp only at hle
        omega

/-! ## Requests -/

namespace ObjDevice

variable {dev : ObjDevice σ}

/-- The accesses of a request. -/
def accesses (dev : ObjDevice σ) (readOp : Bool) (buf : Bytes) (pos : ℤ) (w : World σ) :
    List (ℕ × Option GoError) :=
  if dev.shutdown ∨ pos > dev.totalBytes ∨ dev.params.segmentBytes = 0 then []
  else Usbd.accesses dev.params readOp dev.segments.length dev.segments
    (pos.tdiv dev.params.segmentBytes).toNat
    (pos - pos.tdiv dev.params.segmentBytes * dev.params.segmentBytes) buf w

lemma accesses_nil (sp : StoreParams σ) (readOp : Bool) (rounds : ℕ) (segments : List (Segment σ))
    (segID : ℕ) (pos : ℤ) (w : World σ) :
    Usbd.accesses sp readOp rounds segments segID pos [] w = [] := by
  cases rounds with
  | zero => rfl
  | succ rounds => rw [Usbd.accesses, if_pos (.inl rfl)]

lemma ioAt_counted (dev : ObjDevice σ) (readOp : Bool) (buf : Bytes) (pos : ℤ) (w : World σ) :
    Yields (dev.ioAt readOp buf pos) w fun r _ =>
      Counted 0 (dev.accesses readOp buf pos w) r.2.2.1 := by
  have hzero : Counted 0 [] 0 := .inl ⟨by simp, by simp [transferred]⟩
  unfold ioAt accesses
  by_cases hout : dev.shutdown = true ∨ pos > dev.totalBytes ∨ dev.params.segmentBytes = 0
  · rw [if_pos hout]
    split_ifs with hshut hpast hsb
    · exact (yields_pure _).mpr hzero
    · exact (yields_pure _).mpr hzero
    · exact yields_stop _
    all_goals exact absurd hout (by simp [hshut, hpast, hsb])
  · rw [if_neg hout]
    obtain ⟨hshut, hpast, hsb⟩ : ¬ dev.shutdown = true ∧ ¬ pos > dev.totalBytes ∧
        ¬ dev.params.segmentBytes = 0 := by simpa [not_or] using hout
    have hs : 0 < dev.params.segmentBytes := Nat.pos_of_ne_zero hsb
    rw [if_neg hshut, if_neg hpast, if_neg hsb]
    split_ifs with hnil
    · rw [hnil, accesses_nil]
      exact (yields_pure _).mpr hzero
    dsimp only
    split_ifs
    · exact yields_stop _
    have hpos : pos - pos.tdiv dev.params.segmentBytes * dev.params.segmentBytes <
        dev.params.segmentBytes := by
      rw [Int.mul_comm, ← Int.tmod_def]
      exact Int.tmod_lt_of_pos _ (by omega)
    rw [yields_bind]
    refine (ioLoop_counted hs readOp hpos buf).mono fun r w' h => ?_
    exact (yields_pure _).mpr h

lemma ioAt_moves (hio : SegmentIO dev.params Stands mayFail) (hopen : dev.shutdown = false)
    (hs : 0 < dev.params.segmentBytes) (hmax : dev.params.segmentBytes ≤ maxOffset)
    (h : Stands w dev.segments arrays) (readOp : Bool) (buf : Bytes) {pos : ℕ}
    (hin : pos ≤ dev.totalBytes) :
    Returns (dev.ioAt readOp buf pos) w fun r w' =>
      LoopMoved dev.params Stands mayFail readOp arrays.flatten dev.segments.length
        (pos / dev.params.segmentBytes) (pos % dev.params.segmentBytes) 0 buf
        (transferred (dev.accesses readOp buf pos w)) (r.1.segments, r.2) w' := by
  obtain ⟨hid, hplace⟩ := place_eq dev.params.segmentBytes pos
  have hcalls : dev.accesses readOp buf pos w = Usbd.accesses dev.params readOp dev.segments.length
      dev.segments (pos / dev.params.segmentBytes)
      ((pos % dev.params.segmentBytes : ℕ) : ℤ) buf w := by
    rw [accesses, hplace, hid, Int.toNat_natCast, if_neg]
    simp only [hopen, not_or]
    exact ⟨by simp, by omega, by omega⟩
  rw [hcalls]
  exact returns_ioAt hopen hs readOp hin
    (ioLoop_moves hio hs hmax h readOp buf (Nat.le_add_left _ _) (Nat.mod_lt _ hs))

/-- **A request is split exactly**: over segments that are arrays, a request inside them reads or
replaces just its range of all the arrays together, by calls that stay in their segments. -/
theorem ioAt_splits_exactly (hio : SegmentIO dev.params Stands False) (hopen : dev.shutdown = false)
    (hs : 1 ≤ dev.params.segmentBytes) (hmax : dev.params.segmentBytes ≤ maxOffset)
    (hsize : dev.segments.length = dev.totalBytes / dev.params.segmentBytes)
    (h : Stands w dev.segments arrays) (readOp : Bool) (buf : Bytes) (pos : ℕ)
    (hin : pos + buf.length ≤ dev.segments.length * dev.params.segmentBytes) :
    Returns (dev.ioAt readOp buf pos) w fun r w' =>
      r.2.2 = (buf.length, none) ∧ CacheRun.Reaches dev w r.1.segments w' ∧
        ∃ arrays', Stands w' r.1.segments arrays' ∧
          (r.2.1, arrays'.flatten) =
            if readOp then (slice arrays.flatten pos buf.length, arrays.flatten)
            else (buf, overwrite 0 arrays.flatten pos buf) := by
  have hle : pos ≤ dev.totalBytes := by
    have := Nat.div_mul_le_self dev.totalBytes dev.params.segmentBytes
    rw [← hsize] at this
    omega
  obtain ⟨r, w', hrun, ⟨arrays', hst, hmoved⟩, -, hwhole⟩ :=
    ioAt_moves hio hopen hs hmax h readOp buf hle
  obtain ⟨hall, hres⟩ := hwhole not_false (by rw [bytesLeft, Nat.div_add_mod']; omega)
  rw [Nat.zero_add] at hres
  refine ⟨r, w', hrun, hres, (CacheRun.ioAt_reaches readOp buf pos _ _ hrun).2, arrays', hst, ?_⟩
  rw [Nat.div_add_mod', hall] at hmoved
  obtain ⟨-, hbuf, harray⟩ := hmoved
  simp only at hbuf harray
  rw [hbuf, harray]
  cases readOp <;> simp

/-- A new device of two segments of two bytes, in memory and without a quota. -/
def freshTwo (env : Env) : ObjDevice MemStore :=
  ⟨⟨memContainer ['c'], 2, false, false, none, env⟩, 4, (List.range 2).map Segment.new, 1, false⟩

lemma resident_freshTwo (env : Env) : SegmentIO (freshTwo env).params
    (Resident (freshTwo env).params) (¬ Reliable env) :=
  resident_io rfl
    ⟨by simp [freshTwo], by simp [freshTwo, maxOffset], fun _ h => by simp [freshTwo] at h⟩

theorem ioAt_splits_exactly_two_segments :
    Returns ((freshTwo quietEnv).ioAt false [7, 8] 1) ObjRun.emptyWorld fun r w' =>
      r.2.2 = (2, none) ∧ ∃ arrays', Resident (freshTwo quietEnv).params w' r.1.segments arrays' ∧
        arrays'.flatten = [0, 7, 8, 0] := by
  have hio : SegmentIO (freshTwo quietEnv).params (Resident (freshTwo quietEnv).params) False := by
    have h := resident_freshTwo quietEnv
    rwa [show (¬ Reliable quietEnv) = False by simp [faultless_quietEnv.reliable]] at h
  refine (ioAt_splits_exactly hio rfl (by decide) (by decide) rfl
    (resident_new _ _ 2) false [7, 8] 1 (by decide)).mono fun r w' h => ?_
  obtain ⟨hres, -, arrays', hst, harray⟩ := h
  exact ⟨hres, arrays', hst, (Prod.mk.inj harray).2⟩

/-- **The count of a request** is that of the bytes it has transferred exactly when no access after
its first has failed. -/
theorem ioAt_count_iff (dev : ObjDevice σ) (readOp : Bool) (buf : Bytes) (pos : ℤ) (w : World σ) :
    Yields (dev.ioAt readOp buf pos) w fun r w' =>
      (r.2.2.1 = transferred (dev.accesses readOp buf pos w) ↔
        ∀ c ∈ (dev.accesses readOp buf pos w).tail, c.2 = none) ∧
      ∀ (p : ℕ) Stands mayFail arrays, pos = p → dev.params.segmentBytes ≤ maxOffset →
        SegmentIO dev.params Stands mayFail → Stands w dev.segments arrays →
          ∃ arrays', Stands w' r.1.segments arrays' ∧
          Moved readOp arrays.flatten arrays'.flatten buf r.2.1 p
            (transferred (dev.accesses readOp buf pos w)) := by
  intro r w' hrun
  refine ⟨(ioAt_counted dev readOp buf pos w r w' hrun).eq_transferred_iff, ?_⟩
  rintro p Stands mayFail arrays rfl hmax hio h
  by_cases hout : dev.shutdown = true ∨ (p : ℤ) > dev.totalBytes ∨ dev.params.segmentBytes = 0
  · -- turned away: nothing is accessed and nothing moves
    obtain ⟨rfl, rfl, hbuf⟩ : w = w' ∧ dev = r.1 ∧ r.2.1 = buf := by
      unfold ioAt at hrun
      split_ifs at hrun with hshut hpast hsb
      · obtain ⟨rfl, rfl⟩ := Prod.mk.inj (Except.ok.inj hrun)
        exact ⟨rfl, rfl, rfl⟩
      · obtain ⟨rfl, rfl⟩ := Prod.mk.inj (Except.ok.inj hrun)
        exact ⟨rfl, rfl, rfl⟩
      · simp [Prog.stop] at hrun
      all_goals exact absurd hout (by simp [hshut, hpast, hsb])
    rw [accesses, if_pos hout, hbuf]
    exact ⟨arrays, h, Nat.zero_le _, by simp [transferred], by simp [transferred]⟩
  · obtain ⟨hshut, hpast, hsb⟩ : ¬ dev.shutdown = true ∧ ¬ (p : ℤ) > dev.totalBytes ∧
        ¬ dev.params.segmentBytes = 0 := by simpa [not_or] using hout
    obtain ⟨⟨arrays', hst, hmoved⟩, -⟩ := (ioAt_moves hio (by simpa using hshut)
      (Nat.pos_of_ne_zero hsb) hmax h readOp buf (show p ≤ dev.totalBytes by omega)).eq hrun
    rw [Nat.div_add_mod'] at hmoved
    exact ⟨arrays', hst, hmoved⟩

/-- An environment in which writes fail from a time on. -/
def failingWrites (since : ℕ) : Env :=
  { quietEnv with fault := fun call t => if call = .writeAt ∧ since ≤ t then some 0 else none }

theorem ioAt_count_iff_two_segments :
    Yields ((freshTwo (failingWrites 4)).ioAt false [7, 8, 9] 0) ObjRun.emptyWorld fun r w' =>
      r.2.2.1 ≠ 2 ∧
        ∃ arrays', Resident (freshTwo (failingWrites 4)).params w' r.1.segments arrays' ∧
          arrays'.flatten = [7, 8, 0, 0] := by
  intro r w' hrun
  obtain ⟨hiff, hmoved⟩ := ioAt_count_iff (freshTwo (failingWrites 4)) false [7, 8, 9] 0
    ObjRun.emptyWorld r w' hrun
  have htwo : transferred ((freshTwo (failingWrites 4)).accesses false [7, 8, 9] 0
      ObjRun.emptyWorld) = 2 := by decide +kernel
  have hfails : ¬ ∀ c ∈ ((freshTwo (failingWrites 4)).accesses false [7, 8, 9] 0
      ObjRun.emptyWorld).tail, c.2 = none := by decide +kernel
  obtain ⟨arrays', hst, hmoved⟩ :=
    hmoved 0 _ _ _ rfl (by decide) (resident_freshTwo (failingWrites 4)) (resident_new _ _ 2)
  rw [htwo] at hiff hmoved
  exact ⟨fun h => hfails (hiff.mp h), arrays', hst, hmoved.array⟩

/-- Two bytes go to the first segment, the write of the third to the second segment fails, and the
request reports that it has written nothing. -/
theorem failed_write_reports_last_piece :
    (match (freshTwo (failingWrites 4)).ioAt false [7, 8, 9] 0 ObjRun.emptyWorld with
      | .ok ((_, _, n, err), w') => some (n, err.isSome,
          w'.files ((freshTwo (failingWrites 4)).params.itemName (itoa 0)))
      | .error _ => none) = some (0, true, some [7, 8]) := by
  decide +kernel

end ObjDevice

end Usbd
