import Usbd.Objstore.SegmentTable
import Mathlib.Data.List.DropRight

/-!
# Which segment an eviction takes

`removeLeastRecentUsed` goes once over the segments and keeps the best candidate of each kind, clean
and dirty.  The time it compares is `LastOp`, the *earlier* of a segment's last read and last write,
which is zero when it has not had both; and a candidate whose time is zero is given up for whatever
comes next.

`pickFrom_eq_some_iff` says which candidate that leaves, and `evicts_oldest_iff` when it is one
whose last access is longest ago.
-/

namespace Usbd

open ListMemory Prog

/-! ## The scan of one kind -/

section Scan

variable {f : ℕ → ℤ} {l pre post : List ℕ} {i : ℕ}

/-- The best of a list of places, each with its time, after an earlier best. -/
def pickFrom (f : ℕ → ℤ) (best : Option (ℕ × ℤ)) (l : List ℕ) : Option (ℕ × ℤ) :=
  l.foldl (fun b i => pickOlder b i (f i)) best

@[simp] lemma pickFrom_nil (best : Option (ℕ × ℤ)) : pickFrom f best [] = best := rfl

@[simp] lemma pickFrom_cons (best : Option (ℕ × ℤ)) (i : ℕ) (l : List ℕ) :
    pickFrom f best (i :: l) = pickFrom f (pickOlder best i (f i)) l := rfl

lemma pickFrom_append (best : Option (ℕ × ℤ)) (l l' : List ℕ) :
    pickFrom f best (l ++ l') = pickFrom f (pickFrom f best l) l' :=
  List.foldl_append

lemma pickOlder_some (b : ℕ × ℤ) (i : ℕ) (t : ℤ) :
    pickOlder (some b) i t = if t < b.2 ∨ b.2 = 0 then some (i, t) else some b := rfl

lemma pickFrom_none_eq_none_iff : pickFrom f none l = none ↔ l = [] := by
  constructor
  · intro h
    rcases l.eq_nil_or_concat with hl | ⟨l', j, rfl⟩
    · exact hl
    · rw [List.concat_eq_append, pickFrom_append, pickFrom_cons, pickFrom_nil] at h
      have := isSome_pickOlder (pickFrom f none l') j (f j)
      simp [h] at this
  · rintro rfl
    rfl

/-- The places behind the last one whose time is zero. -/
def stretch (f : ℕ → ℤ) (l : List ℕ) : List ℕ := l.rtakeWhile fun i => decide (f i ≠ 0)

lemma stretch_append_singleton (f : ℕ → ℤ) (l : List ℕ) (i : ℕ) :
    stretch f (l ++ [i]) = if f i = 0 then [] else stretch f l ++ [i] := by
  unfold stretch
  by_cases hi : f i = 0
  · rw [List.rtakeWhile_concat_neg _ _ _ (by simp [hi]), if_pos hi]
  · rw [List.rtakeWhile_concat_pos _ _ _ (by simp [hi]), if_neg hi]

lemma mem_stretch_append {j : ℕ} (h : j ∈ stretch f (pre ++ i :: post)) :
    j ∈ stretch f pre ∨ j = i ∨ j ∈ post := by
  induction post using List.reverseRecOn with
  | nil =>
    rw [stretch_append_singleton] at h
    split_ifs at h
    · simp at h
    · simpa using h
  | append_singleton post k ih =>
    rw [← List.cons_append, ← List.append_assoc, stretch_append_singleton] at h
    split_ifs at h
    · simp at h
    · rcases List.mem_append.mp h with h | h
      · rcases ih h with h | h | h
        · exact .inl h
        · exact .inr (.inl h)
        · exact .inr (.inr (List.mem_append_left _ h))
      · exact .inr (.inr (List.mem_append_right _ h))

lemma mem_stretch (hi : f i ≠ 0) (hpost : ∀ j ∈ post, f j ≠ 0) :
    i ∈ stretch f (pre ++ i :: post) := by
  induction post using List.reverseRecOn with
  | nil => simp [stretch_append_singleton, hi]
  | append_singleton post k ih =>
    rw [← List.cons_append, ← List.append_assoc, stretch_append_singleton,
      if_neg (hpost k (by simp))]
    exact List.mem_append_left _ (ih fun j hj => hpost j (List.mem_append_left _ hj))

/-- The scan ends with the place, between those before it and those after it.  A place whose time is
zero has to be the last; no later one may have an earlier time; and those before it must have later
times, back to the last one whose time is zero. -/
structure Chosen (f : ℕ → ℤ) (pre : List ℕ) (i : ℕ) (post : List ℕ) : Prop where
  last : f i = 0 → post = []
  after : ∀ j ∈ post, f i ≤ f j
  before : ∀ j ∈ stretch f pre, f i < f j

/-- What the scan ends with is chosen. -/
lemma chosen_of_pickFrom {b : ℕ × ℤ} (h : pickFrom f none l = some b) :
    b.2 = f b.1 ∧ ∃ pre post, l = pre ++ b.1 :: post ∧ Chosen f pre b.1 post := by
  induction l using List.reverseRecOn generalizing b with
  | nil => simp at h
  | append_singleton l i ih =>
    rw [pickFrom_append, pickFrom_cons, pickFrom_nil] at h
    cases hbest : pickFrom f none l with
    | none =>
      rw [hbest] at h
      obtain rfl := Option.some.inj h
      obtain rfl := pickFrom_none_eq_none_iff.mp hbest
      exact ⟨rfl, [], [], rfl, ⟨fun _ => rfl, by simp, by simp [stretch]⟩⟩
    | some c =>
      obtain ⟨hc, pre, post, rfl, hchosen⟩ := ih hbest
      rw [hbest, pickOlder_some] at h
      split_ifs at h with hpick
      · -- the new place takes over: it is earlier than the best, or the best's time is zero
        obtain rfl := Option.some.inj h
        refine ⟨rfl, _, [], rfl, ⟨fun _ => rfl, by simp, fun j hj => ?_⟩⟩
        rw [hc] at hpick
        rcases hpick with hlt | hzero
        · rcases mem_stretch_append hj with hj | rfl | hj
          · exact hlt.trans (hchosen.before j hj)
          · exact hlt
          · exact hlt.trans_le (hchosen.after j hj)
        · rw [hchosen.last hzero, stretch_append_singleton, if_pos hzero] at hj
          simp at hj
      · obtain rfl := Option.some.inj h
        push Not at hpick
        rw [hc] at hpick
        refine ⟨hc, pre, post ++ [i], by simp, ⟨fun hzero => absurd hzero hpick.2, ?_, ?_⟩⟩
        · intro j hj
          rcases List.mem_append.mp hj with hj | hj
          · exact hchosen.after j hj
          · obtain rfl := List.mem_singleton.mp hj
            exact hpick.1
        · exact hchosen.before

/-- The scan keeps a best whose time is not zero against all that are no earlier. -/
lemma pickFrom_keeps {b : ℕ × ℤ} (hb : b.2 = 0 → l = []) (hl : ∀ j ∈ l, b.2 ≤ f j) :
    pickFrom f (some b) l = some b := by
  induction l with
  | nil => rfl
  | cons j l ih =>
    have hne : b.2 ≠ 0 := fun h => by simpa using hb h
    have hle : b.2 ≤ f j := hl j List.mem_cons_self
    rw [pickFrom_cons, pickOlder_some, if_neg (by omega)]
    exact ih (fun h => absurd h hne) fun k hk => hl k (List.mem_cons_of_mem j hk)

/-- **Where the scan ends**: with the one place that is chosen. -/
theorem pickFrom_eq_some_iff (hf : ∀ j, 0 ≤ f j) {b : ℕ × ℤ} : pickFrom f none l = some b ↔
    b.2 = f b.1 ∧ ∃ pre post, l = pre ++ b.1 :: post ∧ Chosen f pre b.1 post := by
  refine ⟨chosen_of_pickFrom, ?_⟩
  rintro ⟨hb, pre, post, rfl, hchosen⟩
  obtain ⟨i, t⟩ := b
  obtain rfl : t = f i := hb
  rw [pickFrom_append, pickFrom_cons]
  have htake : pickOlder (pickFrom f none pre) i (f i) = some (i, f i) := by
    cases hbest : pickFrom f none pre with
    | none => rfl
    | some c =>
      obtain ⟨hc, pre', post', rfl, hchosen'⟩ := chosen_of_pickFrom hbest
      rw [pickOlder_some, if_pos]
      rw [hc]
      by_cases hzero : f c.1 = 0
      · exact .inr hzero
      · refine .inl (hchosen.before c.1 (mem_stretch hzero fun j hj => ?_))
        have hpos := hf c.1
        have hle := hchosen'.after j hj
        omega
  rw [htake]
  exact pickFrom_keeps hchosen.last hchosen.after

end Scan

/-! ## The scan of the segments -/

variable {σ : Type} {sp : StoreParams σ} {w : World σ} {seg : Segment σ}
  {segments : List (Segment σ)} {forIdx k : ℕ}

lemma Segment.loadTime_nonneg (nsec : ℤ) : 0 ≤ Segment.loadTime nsec := by
  unfold Segment.loadTime
  split_ifs <;> omega

lemma Segment.lastOp_eq (seg : Segment σ) :
    seg.lastOp = min (Segment.loadTime seg.lastRead) (Segment.loadTime seg.lastWrite) := by
  unfold Segment.lastOp
  split_ifs <;> omega

/-- The segment at a place is one of the kind the scan looks at: backed, and clean or dirty. -/
def IsKind (segments : List (Segment σ)) (dirty : Bool) (i : ℕ) : Bool :=
  segments[i]?.any fun seg => seg.backed && seg.dirty == dirty

lemma isKind_iff {dirty : Bool} {i : ℕ} : IsKind segments dirty i = true ↔
    ∃ seg, segments[i]? = some seg ∧ seg.backed = true ∧ seg.dirty = dirty := by
  unfold IsKind
  cases segments[i]? <;> simp

/-- The places of a kind, but for `forIdx`, in their order. -/
def kindPlaces (segments : List (Segment σ)) (forIdx : ℕ) (dirty : Bool) (l : List ℕ) : List ℕ :=
  l.filter fun i => decide (i ≠ forIdx) && IsKind segments dirty i

/-- The time the scan compares. -/
def lastOpAt (segments : List (Segment σ)) (i : ℕ) : ℤ := segments[i]?.elim 0 Segment.lastOp

lemma lruScan_eq {rest : List (Segment σ)} (hrest : segments.drop k = rest)
    (clean dirty : Option (ℕ × ℤ)) : lruScan forIdx rest k clean dirty =
      (pickFrom (lastOpAt segments) clean
        (kindPlaces segments forIdx false (List.range' k rest.length)),
      pickFrom (lastOpAt segments) dirty
        (kindPlaces segments forIdx true (List.range' k rest.length))) := by
  induction rest generalizing k clean dirty with
  | nil => rfl
  | cons x rest ih =>
    have hx : segments[k]? = some x := by
      rw [← List.head?_drop, hrest, List.head?_cons]
    have hnext : segments.drop (k + 1) = rest := by
      rw [← List.tail_drop, hrest, List.tail_cons]
    have htime : lastOpAt segments k = x.lastOp := by simp [lastOpAt, hx]
    have hkind : ∀ b, IsKind segments b k = (x.backed && x.dirty == b) := by simp [IsKind, hx]
    unfold lruScan
    simp only [ih hnext, kindPlaces, List.length_cons, List.range'_succ, List.filter_cons, hkind]
    split_ifs <;> simp_all

/-- Whether the scan has to take a dirty segment: there is no clean one. -/
def takesDirty (segments : List (Segment σ)) (forIdx : ℕ) : Bool :=
  (kindPlaces segments forIdx false (List.range segments.length)).isEmpty

/-- The places the scan chooses from. -/
def candidates (segments : List (Segment σ)) (forIdx : ℕ) : List ℕ :=
  kindPlaces segments forIdx (takesDirty segments forIdx) (List.range segments.length)

lemma lastOpAt_nonneg (segments : List (Segment σ)) (i : ℕ) : 0 ≤ lastOpAt segments i := by
  unfold lastOpAt
  cases segments[i]? with
  | none => rfl
  | some seg =>
    rw [Option.elim_some, Segment.lastOp_eq]
    exact le_min (Segment.loadTime_nonneg _) (Segment.loadTime_nonneg _)

/-- **The segment to evict** is the candidate that is chosen. -/
theorem lruCandidate_eq_some_iff : lruCandidate segments forIdx = some k ↔
    ∃ pre post, candidates segments forIdx = pre ++ k :: post ∧
      Chosen (lastOpAt segments) pre k post := by
  have hpick : lruCandidate segments forIdx =
      (pickFrom (lastOpAt segments) none (candidates segments forIdx)).map Prod.fst := by
    unfold lruCandidate
    rw [lruScan_eq List.drop_zero, ← List.range_eq_range']
    unfold candidates takesDirty
    cases hclean : kindPlaces segments forIdx false (List.range segments.length) with
    | nil => simp
    | cons i l =>
      obtain ⟨b, hb⟩ := Option.ne_none_iff_exists'.mp
        (pickFrom_none_eq_none_iff (f := lastOpAt segments).not.mpr (List.cons_ne_nil i l))
      simp [hclean, hb]
  rw [hpick, Option.map_eq_some_iff]
  constructor
  · rintro ⟨b, hb, rfl⟩
    exact (chosen_of_pickFrom hb).2
  · intro h
    exact ⟨(k, lastOpAt segments k),
      (pickFrom_eq_some_iff (lastOpAt_nonneg segments)).mpr ⟨rfl, h⟩, rfl⟩

lemma mem_candidates {i : ℕ} : i ∈ candidates segments forIdx ↔
    i ≠ forIdx ∧ IsKind segments (takesDirty segments forIdx) i = true := by
  simp only [candidates, kindPlaces, List.mem_filter, List.mem_range, Bool.and_eq_true,
    decide_eq_true_eq, and_iff_right_iff_imp]
  rintro ⟨-, hkind⟩
  by_contra hge
  simp [IsKind, List.getElem?_eq_none (by omega : segments.length ≤ i)] at hkind

/-! ## Histories -/

/-- An access: the place of the segment, whether it was written to, and the clock. -/
structure Access where
  place : ℕ
  write : Bool
  time : ℤ

/-- Whether a call is an access, and which. -/
def Segment.Call.writes : Segment.Call → Option Bool
  | .readAt _ _ => some false
  | .writeAt _ _ => some true
  | .flush _ => none
  | .deleteFile => none

namespace SegTable

/-- The access a call of a table makes, with the clock it finds. -/
def accessOf (sp : StoreParams σ) (t : SegTable σ) (e : ℕ × Segment.Call) : List Access :=
  (e.2.writes.map fun write => ⟨e.1, write, sp.env.now t.world.tick⟩).toList

/-- The accesses of a run, in their order. -/
def history (sp : StoreParams σ) : SegTable σ → List (ℕ × Segment.Call) → List Access
  | _, [] => []
  | t, e :: es => t.accessOf sp e ++ (t.step sp e).elim [] fun t' => history sp t' es

end SegTable

/-- The clock at the last access of a segment of one sort, if it has had one. -/
def lastAt (h : List Access) (write : Bool) (i : ℕ) : WithBot ℤ :=
  (h.filter fun a => a.place == i && a.write == write).getLast?.elim ⊥ fun a => a.time

/-- The most recent access of a segment: the later of its last read and its last write. -/
def lastAccess (h : List Access) (i : ℕ) : WithBot ℤ := max (lastAt h false i) (lastAt h true i)

/-- The `LastOp` of a segment: the earlier of its last read and its last write, or zero. -/
def opTime (h : List Access) (i : ℕ) : ℤ :=
  min (Segment.loadTime ((lastAt h false i).unbotD 0))
    (Segment.loadTime ((lastAt h true i).unbotD 0))

lemma lastAt_append_singleton (h : List Access) (a : Access) (write : Bool) (i : ℕ) :
    lastAt (h ++ [a]) write i =
      if a.place = i ∧ a.write = write then ↑a.time else lastAt h write i := by
  unfold lastAt
  rw [List.filter_append]
  by_cases ha : a.place = i ∧ a.write = write
  · rw [List.filter_cons_of_pos (by simpa using ha), List.filter_nil, List.getLast?_concat,
      if_pos ha]
    rfl
  · rw [List.filter_cons_of_neg (by simpa using ha), List.filter_nil, List.append_nil, if_neg ha]

namespace Segment

/-- The times of the last read and the last write are the same. -/
def SameStamps (seg seg' : Segment σ) : Prop :=
  seg'.lastRead = seg.lastRead ∧ seg'.lastWrite = seg.lastWrite

lemma loadFile_sameStamps (createWrite : Bool) :
    Yields (seg.loadFile sp createWrite) w fun r _ => seg.SameStamps r.1 := by
  unfold loadFile
  cases hfile : seg.localFile with
  | some file => exact (yields_pure _).mpr ⟨rfl, rfl⟩
  | none =>
    cases hitem : seg.remoteItem with
    | some item =>
      simp only [yields_bind, yields_pure]
      rintro (e | file) w₁ -
      · exact ⟨rfl, rfl⟩
      · exact ⟨rfl, rfl⟩
    | none =>
      cases createWrite with
      | false => exact (yields_pure _).mpr ⟨rfl, rfl⟩
      | true =>
        simp only [if_true, yields_bind, yields_pure]
        rintro (e | file) w₁ -
        · exact ⟨rfl, rfl⟩
        · exact ⟨rfl, rfl⟩

/-- The stamps after a call that marks the time. -/
def stamped (seg : Segment σ) (now : ℤ) : Option Bool → Segment σ
  | some false => { seg with lastRead := now }
  | some true => { seg with lastWrite := now }
  | none => seg

lemma readAt_stamps (buf : Bytes) (pos : ℤ) : Yields (seg.readAt sp buf pos) w fun r _ =>
    (seg.stamped (sp.env.now w.tick) (some false)).SameStamps r.1 := by
  rw [Segment.readAt, yields_bind]
  refine (returns_timeNow.mpr ?_ : Returns _ _ _).yields
  refine yields_readLoaded ((loadFile_sameStamps false).mono fun r w₁ h₁ => ?_)
  exact ⟨fun _ _ => h₁, fun _ _ _ _ => h₁, fun _ _ _ _ _ => h₁⟩

lemma writeAt_stamps (buf : Bytes) (pos : ℤ) : Yields (seg.writeAt sp buf pos) w fun r _ =>
    (seg.stamped (sp.env.now w.tick) (some true)).SameStamps r.1 := by
  rw [Segment.writeAt, yields_bind]
  refine (returns_timeNow.mpr ?_ : Returns _ _ _).yields
  simp only
  split_ifs with hskip
  · exact (yields_pure _).mpr ⟨rfl, rfl⟩
  · rw [writeLoaded, yields_bind]
    refine (loadFile_sameStamps true).mono fun r w₁ h₁ => ?_
    obtain ⟨seg₁, data⟩ := r
    rcases data with e | (_ | file)
    · exact (yields_pure _).mpr h₁
    · exact (yields_pure _).mpr h₁
    · simp only [yields_bind, yields_pure]
      intro _ _ _
      exact h₁

lemma flush_sameStamps (buffered : Bool) :
    Yields (seg.flush sp buffered) w fun r _ => seg.SameStamps r.1 := by
  unfold flush
  cases seg.localFile with
  | none => exact (yields_pure _).mpr ⟨rfl, rfl⟩
  | some file =>
    simp only [yields_bind, yields_pure]
    intro _ _ _
    exact ⟨rfl, rfl⟩

lemma dropFile_sameStamps : Yields (seg.dropFile sp) w fun r _ => seg.SameStamps r.1 := by
  unfold dropFile
  cases seg.localFile with
  | none => exact yields_stop _
  | some file =>
    rw [yields_bind]
    rintro ⟨file', err⟩ w₁ -
    cases err with
    | some e => exact (yields_pure _).mpr ⟨rfl, rfl⟩
    | none =>
      simp only [yields_bind, yields_pure]
      intro _ _ _
      exact ⟨rfl, rfl⟩

lemma deleteFile_sameStamps : Yields (seg.deleteFile sp) w fun r _ => seg.SameStamps r.1 := by
  unfold deleteFile
  split_ifs with hbacked hdirty
  · rw [yields_bind]
    refine (flush_sameStamps false).mono fun r w₁ h₁ => ?_
    obtain ⟨⟨ID, localFile, remoteItem, dirty, backed, lastRead, lastWrite⟩, err⟩ := r
    match err, localFile with
    | some _, none => exact yields_stop _
    | some e, some _ => exact (yields_pure _).mpr h₁
    | none, _ =>
      refine dropFile_sameStamps.mono fun r _ h₂ => ?_
      exact ⟨h₂.1.trans h₁.1, h₂.2.trans h₁.2⟩
  · exact dropFile_sameStamps
  · exact (yields_pure _).mpr ⟨rfl, rfl⟩

/-- A read marks the time of reading, a write that of writing, and nothing else does. -/
lemma exec_stamps (call : Call) : Yields (seg.exec sp call) w fun r _ =>
    (seg.stamped (sp.env.now w.tick) call.writes).SameStamps r.1 := by
  cases call with
  | readAt buf pos =>
    simp only [exec, yields_bind, yields_pure]
    exact readAt_stamps buf pos
  | writeAt buf pos =>
    simp only [exec, yields_bind, yields_pure]
    exact writeAt_stamps buf pos
  | flush buffered =>
    unfold exec Flush
    split_ifs
    · exact flush_sameStamps buffered
    · exact (yields_pure _).mpr ⟨rfl, rfl⟩
  | deleteFile => exact deleteFile_sameStamps

end Segment

namespace SegTable

variable {t t' : SegTable σ} {e : ℕ × Segment.Call} {es : List (ℕ × Segment.Call)}
  {h : List Access}

/-- The stamps of the segments are those of a history. -/
def Stamped (h : List Access) (t : SegTable σ) : Prop :=
  ∀ i, t.segments[i]?.elim 0 Segment.lastRead = (lastAt h false i).unbotD 0 ∧
    t.segments[i]?.elim 0 Segment.lastWrite = (lastAt h true i).unbotD 0

lemma Stamped.lastOpAt_eq (hst : t.Stamped h) : lastOpAt t.segments = opTime h := by
  funext i
  obtain ⟨hr, hw⟩ := hst i
  unfold lastOpAt opTime
  rw [← hr, ← hw]
  cases t.segments[i]? with
  | none => rfl
  | some seg => exact seg.lastOp_eq

lemma Stamped.step (hst : t.Stamped h) (hstep : t.step sp e = some t') :
    t'.Stamped (h ++ t.accessOf sp e) := by
  obtain ⟨seg, seg', err, hseg, hexec, hsegments, -⟩ := step_eq_some hstep
  obtain ⟨hread, hwrite⟩ := Segment.exec_stamps e.2 _ _ hexec
  simp only at hread hwrite
  have hlt := (List.getElem?_eq_some_iff.mp hseg).1
  intro i
  rw [hsegments, List.getElem?_set]
  obtain ⟨hr, hw⟩ := hst i
  by_cases hi : e.1 = i
  · subst hi
    rw [hseg, Option.elim_some] at hr hw
    simp only [hlt, if_true, Option.elim_some, hread, hwrite, accessOf]
    match e.2.writes with
    | none => simpa [Segment.stamped] using ⟨hr, hw⟩
    | some false => simpa [Segment.stamped, lastAt_append_singleton] using hw
    | some true => simpa [Segment.stamped, lastAt_append_singleton] using hr
  · simp only [hi, if_false, accessOf]
    match e.2.writes with
    | none => simpa using ⟨hr, hw⟩
    | some write => simpa [lastAt_append_singleton, hi] using ⟨hr, hw⟩

/-- **Along a run** the stamps are those of its history. -/
lemma Stamped.run (hst : t.Stamped h) (hrun : Machine.run (SegTable.step sp) t es = some t') :
    t'.Stamped (h ++ t.history sp es) := by
  induction es generalizing t h with
  | nil =>
    obtain rfl := Option.some.inj hrun
    simpa [history] using hst
  | cons e es ih =>
    obtain ⟨u, hu, hrest⟩ := Machine.run_cons_eq_some.mp hrun
    have hnext := ih (hst.step hu) hrest
    rw [history, hu, Option.elim_some, ← List.append_assoc]
    exact hnext

/-- No segment has been read or written. -/
def Unused (t : SegTable σ) : Prop :=
  ∀ seg ∈ t.segments, seg.lastRead = 0 ∧ seg.lastWrite = 0

lemma Unused.stamped (hunused : t.Unused) : t.Stamped [] := by
  intro i
  cases hseg : t.segments[i]? with
  | none => exact ⟨rfl, rfl⟩
  | some seg => exact hunused seg (List.mem_of_getElem? hseg)

/-! ## The segment longest out of use -/

/-- The places whose local file an eviction takes. -/
def evicted (sp : StoreParams σ) (t : SegTable σ) (forIdx : ℕ) : List ℕ :=
  match removeLeastRecentUsed sp t.segments forIdx t.world with
  | .error _ => []
  | .ok ((segments, _), _) => (List.range t.segments.length).filter fun i =>
      t.segments[i]?.any (fun seg => seg.localFile.isSome) &&
        segments[i]?.any fun seg => seg.localFile.isNone

/-- No other backed segment than `forIdx` of the same dirty status has gone longer without an
access. -/
def LongestUnused (h : List Access) (t : SegTable σ) (forIdx i : ℕ) : Prop :=
  ∀ j seg seg', t.segments[i]? = some seg → t.segments[j]? = some seg' → j ≠ forIdx →
    seg'.backed = true → seg'.dirty = seg.dirty → lastAccess h i ≤ lastAccess h j

lemma removeLeastRecentUsed_others :
    Yields (removeLeastRecentUsed sp segments forIdx) w fun r _ =>
      ∀ i, lruCandidate segments forIdx ≠ some i → r.1[i]? = segments[i]? := by
  unfold removeLeastRecentUsed
  cases lruCandidate segments forIdx with
  | none => exact (yields_pure _).mpr fun _ _ => rfl
  | some k =>
    simp only
    cases hseg : segments[k]? with
    | none => exact yields_stop _
    | some seg =>
      simp only [yields_bind, yields_pure]
      intro r w₁ _ i hi
      exact List.getElem?_set_ne (by simpa using hi)

lemma lruCandidate_of_mem_evicted (hk : k ∈ t.evicted sp forIdx) :
    lruCandidate t.segments forIdx = some k := by
  unfold evicted at hk
  cases hevict : removeLeastRecentUsed sp t.segments forIdx t.world with
  | error stop => simp [hevict] at hk
  | ok r =>
    simp only [hevict, List.mem_filter, Bool.and_eq_true] at hk
    obtain ⟨-, hfile, hnone⟩ := hk
    by_contra hne
    rw [removeLeastRecentUsed_others _ _ hevict k hne] at hnone
    cases hseg : t.segments[k]? with
    | none => simp [hseg] at hfile
    | some seg =>
      rw [hseg, Option.any_some] at hfile hnone
      cases hlocal : seg.localFile <;> simp [hlocal] at hfile hnone

lemma longestUnused_iff {i : ℕ} (hi : i ∈ candidates t.segments forIdx) :
    t.LongestUnused h forIdx i ↔
      ∀ j ∈ candidates t.segments forIdx, lastAccess h i ≤ lastAccess h j := by
  obtain ⟨-, hkind⟩ := mem_candidates.mp hi
  obtain ⟨seg, hseg, -, hdirty⟩ := isKind_iff.mp hkind
  constructor
  · intro hlongest j hj
    obtain ⟨hne, hkind'⟩ := mem_candidates.mp hj
    obtain ⟨seg', hseg', hb', hd'⟩ := isKind_iff.mp hkind'
    exact hlongest j seg seg' hseg hseg' hne hb' (hd'.trans hdirty.symm)
  · intro hall j seg₀ seg' hseg₀ hseg' hne hb' hd'
    obtain rfl := Option.some.inj (hseg.symm.trans hseg₀)
    exact hall j (mem_candidates.mpr ⟨hne, isKind_iff.mpr ⟨seg', hseg', hb', hd'.trans hdirty⟩⟩)

/-- **When the eviction takes the segment longest out of use.**  A table nobody has used yet, after
any run, and any `forIdx`: the segment evicted is one whose most recent access is not after that of
any other backed one of its dirty status if and only if one of the oldest most recent access stands
where the scan ends.  In the order of the candidates it is the last if it has not been both read and
written, no later one has an earlier `LastOp`, and all those before it, back to the last one that
has not been both read and written, have a later `LastOp`. -/
theorem evicts_oldest_iff (sp : StoreParams σ) (t t' : SegTable σ) (es : List (ℕ × Segment.Call))
    (hunused : t.Unused) (hrun : Machine.run (step sp) t es = some t') (forIdx k : ℕ)
    (hk : k ∈ t'.evicted sp forIdx) :
    t'.LongestUnused (t.history sp es) forIdx k ↔
      ∃ pre i post, candidates t'.segments forIdx = pre ++ i :: post ∧
        (∀ j ∈ candidates t'.segments forIdx,
          lastAccess (t.history sp es) i ≤ lastAccess (t.history sp es) j) ∧
        Chosen (opTime (t.history sp es)) pre i post := by
  have hst := hunused.stamped.run hrun
  rw [List.nil_append] at hst
  have hlru := lruCandidate_of_mem_evicted hk
  obtain ⟨pre, post, hsplit, hchosen⟩ := lruCandidate_eq_some_iff.mp hlru
  rw [longestUnused_iff (hsplit ▸ List.mem_append_cons_self), ← hst.lastOpAt_eq]
  constructor
  · intro holdest
    exact ⟨pre, k, post, hsplit, holdest, hchosen⟩
  · rintro ⟨pre', i, post', hsplit', holdest, hchosen'⟩
    have hlru' := lruCandidate_eq_some_iff.mpr ⟨pre', post', hsplit', hchosen'⟩
    obtain rfl := Option.some.inj (hlru.symm.trans hlru')
    exact holdest

/-- Segments of one byte, as many of them local as there are. -/
def noQuota : StoreParams MemStore := ⟨memContainer ['c'], 1, true, false, none, quietEnv⟩

/-- Three segments with nothing stored. -/
def three : SegTable MemStore := ⟨[.new 0, .new 1, .new 2], ObjRun.emptyWorld, []⟩

/-- What is evicted after a run, and whether it is longest out of use. -/
def outcome (sp : StoreParams σ) (t : SegTable σ) (es : List (ℕ × Segment.Call)) (forIdx : ℕ) :
    Option (List (ℕ × Bool)) :=
  (Machine.run (step sp) t es).map fun t' => (t'.evicted sp forIdx).map fun k =>
    (k, decide (∀ j ∈ candidates t'.segments forIdx,
      lastAccess (t.history sp es) k ≤ lastAccess (t.history sp es) j))

lemma exists_of_outcome {b : Bool} (hout : t.outcome sp es forIdx = some [(k, b)]) :
    ∃ t', Machine.run (step sp) t es = some t' ∧ k ∈ t'.evicted sp forIdx ∧
      (t'.LongestUnused (t.history sp es) forIdx k ↔ b = true) := by
  obtain ⟨t', hrun, hevicted⟩ := Option.map_eq_some_iff.mp hout
  obtain ⟨k', hk', hpair⟩ := List.map_eq_singleton_iff.mp hevicted
  obtain ⟨rfl, rfl⟩ := Prod.mk.inj hpair
  have hmem : k' ∈ t'.evicted sp forIdx := hk' ▸ List.mem_singleton_self k'
  obtain ⟨pre, post, hsplit, -⟩ := lruCandidate_eq_some_iff.mp (lruCandidate_of_mem_evicted hmem)
  refine ⟨t', hrun, hmem, ?_⟩
  rw [longestUnused_iff (hsplit ▸ List.mem_append_cons_self), decide_eq_true_iff]

/-- Two segments are written and read in turn. -/
def inTurn : List (ℕ × Segment.Call) :=
  [(0, .writeAt [1] 0), (0, .readAt [0] 0), (1, .writeAt [1] 0), (1, .readAt [0] 0)]

theorem evicts_oldest_iff_inTurn :
    ∃ t, Machine.run (step noQuota) three inTurn = some t ∧ 0 ∈ t.evicted noQuota 2 ∧
      ∃ pre i post, candidates t.segments 2 = pre ++ i :: post ∧
        (∀ j ∈ candidates t.segments 2,
          lastAccess (three.history noQuota inTurn) i ≤
            lastAccess (three.history noQuota inTurn) j) ∧
        Chosen (opTime (three.history noQuota inTurn)) pre i post := by
  have hout : three.outcome noQuota inTurn 2 = some [(0, true)] := by decide +kernel
  obtain ⟨t, hrun, hk, hlongest⟩ := exists_of_outcome hout
  have hunused : three.Unused := by
    unfold Unused
    decide
  refine ⟨t, hrun, hk, ?_⟩
  exact (evicts_oldest_iff noQuota three t inTurn hunused hrun 2 0 hk).mp (hlongest.mpr rfl)

/-- The segment read last is evicted, for its write is the oldest; and of two segments that have
only been written, the one written last. -/
theorem evicts_most_recent :
    (∃ t, Machine.run (step noQuota) three (inTurn ++ [(0, .readAt [0] 0)]) = some t ∧
      0 ∈ t.evicted noQuota 2 ∧
      ¬ t.LongestUnused (three.history noQuota (inTurn ++ [(0, .readAt [0] 0)])) 2 0) ∧
    ∃ t, Machine.run (step noQuota) three [(0, .writeAt [1] 0), (1, .writeAt [1] 0)] = some t ∧
      1 ∈ t.evicted noQuota 2 ∧
      ¬ t.LongestUnused
        (three.history noQuota [(0, .writeAt [1] 0), (1, .writeAt [1] 0)]) 2 1 := by
  have hread : three.outcome noQuota (inTurn ++ [(0, .readAt [0] 0)]) 2 = some [(0, false)] := by
    decide +kernel
  have hwritten : three.outcome noQuota [(0, .writeAt [1] 0), (1, .writeAt [1] 0)] 2 =
      some [(1, false)] := by decide +kernel
  obtain ⟨t, hrun, hk, hlongest⟩ := exists_of_outcome hread
  obtain ⟨t', hrun', hk', hlongest'⟩ := exists_of_outcome hwritten
  exact ⟨⟨t, hrun, hk, by simp [hlongest]⟩, t', hrun', hk', by simp [hlongest']⟩

end SegTable
end Usbd
