import Usbd.Objstore.Clients

/-!
# Who is where

What ties the clients of a device to its segments, whatever the environment does.  A section of a
segment's call goes on with that call or ends it (`next_continues`), so that a goroutine is in a
segment exactly as long as its client, or its flush, waits for it there.  `Linked` says that of all
of them, with what `pendingOpMu` excludes: while a `Close` has it nobody else is at work.
-/

namespace Usbd

open ListMemory Prog

variable {σ : Type}

/-! ## A section stays with its call -/

/-- The result of a call.  A read leaves the length of its buffer. -/
def SegResult.Answers : SegCall → SegResult → Prop
  | .readAt buf _, .read got _ _ => got.length = buf.length
  | .writeAt _ _, .wrote _ _ => True
  | .flush _, .flushed _ => True
  | .deleteFile, .deleted _ => True
  | _, _ => False

/-- The goroutine is in the call, or has its result. -/
def Proc.Serves (call : SegCall) (p : Proc σ) : Prop :=
  p.call? = some call ∨ ∃ res, p = .done res ∧ res.Answers call

/-- A goroutine that is still in a call is in the one it serves. -/
lemma Proc.Serves.call_eq {p : Proc σ} {call call' : SegCall} (h : p.Serves call)
    (hcall : p.call? = some call') : call' = call := by
  rcases h with h | ⟨res, rfl, -⟩
  · exact Option.some.inj (hcall.symm.trans h)
  · cases hcall

lemma Proc.Serves.answers {p : Proc σ} {call : SegCall} {res : SegResult} (h : p.Serves call)
    (hdone : p = .done res) : res.Answers call := by
  subst hdone
  rcases h with h | ⟨res', hres, hanswers⟩
  · cases h
  · rwa [Proc.done.inj hres]

section Sections

variable {sp : StoreParams σ} {w : World σ} {c : Cell σ} {t : ℕ}

/-- The goroutine goes to a place of its call, and the others stay where they are. -/
def Cell.Continues (c : Cell σ) (t : ℕ) (call : SegCall) (c' : Cell σ) : Prop :=
  ∃ p, c'.procs = Function.update c.procs t p ∧ p.Serves call

lemma read_continues (buf : Bytes) (pos : ℕ) :
    Yields (c.read sp t buf pos) w fun c' _ => c.Continues t (.readAt buf pos) c' := by
  simp only [Cell.read, yields_bind]
  refine (c.seg.readLoaded_length buf pos).mono fun r w₁ hlen => ?_
  obtain ⟨seg, got, count, err⟩ := r
  exact (yields_pure _).mpr ⟨_, rfl, .inr ⟨_, rfl, hlen⟩⟩

lemma Errand.failed_answers (errand : Errand) (e : GoError) :
    (errand.failed e).Answers errand.call := by
  cases errand <;> trivial

lemma snapshot_continues (errand : Errand) (file : File) :
    Yields (c.snapshot sp t errand file) w fun c' _ => c.Continues t errand.call c' := by
  simp only [Cell.snapshot, yields_bind]
  rintro (e | src) w₁ -
  · exact (yields_pure _).mpr ⟨_, rfl, .inr ⟨_, rfl, errand.failed_answers e⟩⟩
  · exact (yields_pure _).mpr ⟨_, rfl, .inl rfl⟩

lemma drop_continues : Yields (c.drop sp t) w fun c' _ => c.Continues t .deleteFile c' := by
  simp only [Cell.drop, yields_bind]
  rintro ⟨seg, err⟩ w₁ -
  exact (yields_pure _).mpr ⟨_, rfl, .inr ⟨_, rfl, trivial⟩⟩

lemma finish_continues (errand : Errand) (file : File) (item : Except GoError (Item σ)) :
    Yields (c.finish sp t errand file item) w fun c' _ => c.Continues t errand.call c' := by
  cases item with
  | error e => exact (yields_pure _).mpr ⟨_, rfl, .inr ⟨_, rfl, errand.failed_answers e⟩⟩
  | ok item =>
    simp only [Cell.finish, yields_bind]
    rintro (_ | e) w₁ -
    · cases errand with
      | flush buffered => exact (yields_pure _).mpr ⟨_, rfl, .inr ⟨_, rfl, trivial⟩⟩
      | evict => exact drop_continues
    · exact (yields_pure _).mpr ⟨_, rfl, .inr ⟨_, rfl, errand.failed_answers e⟩⟩

lemma delete_continues : Yields (c.delete sp t) w fun c' _ => c.Continues t .deleteFile c' := by
  unfold Cell.delete
  split_ifs
  · cases c.seg.localFile with
    | none => exact yields_stop _
    | some file => exact snapshot_continues .evict file
  · exact drop_continues
  · exact (yields_pure _).mpr ⟨_, rfl, .inr ⟨_, rfl, trivial⟩⟩

/-- Whatever fails, a section goes on with its call or ends it. -/
lemma next_continues {m : Go σ (Cell σ)} (hnext : c.next sp t = some m) :
    ∃ call, (c.procs t).call? = some call ∧ Yields m w fun c' _ => c.Continues t call c' := by
  obtain ⟨p, ht, hsection⟩ := Cell.next_section hnext
  rw [ht]
  cases hsection with
  | @startRead buf pos _ =>
    refine ⟨.readAt buf pos, rfl, ?_⟩
    simp only [Cell.startRead, yields_bind]
    intro now w₁ _
    split_ifs
    · exact (yields_pure _).mpr ⟨_, rfl, .inl rfl⟩
    · exact read_continues buf pos
  | @startWrite buf pos _ =>
    refine ⟨.writeAt buf pos, rfl, ?_⟩
    simp only [Cell.startWrite, yields_bind]
    intro now w₁ _
    split_ifs
    · exact (yields_pure _).mpr ⟨_, rfl, .inr ⟨_, rfl, trivial⟩⟩
    · exact (yields_pure _).mpr ⟨_, rfl, .inl rfl⟩
  | @startFlush buffered =>
    refine ⟨.flush buffered, rfl, (yields_pure _).mpr ⟨_, rfl, ?_⟩⟩
    split_ifs
    · exact .inl rfl
    · exact .inr ⟨_, rfl, trivial⟩
  | delete _ => exact ⟨.deleteFile, rfl, delete_continues⟩
  | @read buf pos _ => exact ⟨.readAt buf pos, rfl, read_continues buf pos⟩
  | @write buf pos _ =>
    refine ⟨.writeAt buf pos, rfl, ?_⟩
    simp only [Cell.write, yields_bind]
    rintro ⟨seg, count, err⟩ w₁ -
    exact (yields_pure _).mpr ⟨_, rfl, .inr ⟨_, rfl, trivial⟩⟩
  | @rLock buffered _ =>
    refine ⟨.flush buffered, rfl, (yields_pure _).mpr ?_⟩
    unfold Cell.rLock
    split
    · exact ⟨_, rfl, .inr ⟨_, rfl, trivial⟩⟩
    · exact ⟨_, rfl, .inl rfl⟩
  | @snapshot buffered file _ => exact ⟨.flush buffered, rfl, snapshot_continues _ file⟩
  | @send errand file src =>
    refine ⟨errand.call, rfl, ?_⟩
    simp only [Cell.send, yields_bind]
    intro item w₁ _
    exact (yields_pure _).mpr ⟨_, rfl, .inl rfl⟩
  | @finish errand file item => exact ⟨errand.call, rfl, finish_continues errand file item⟩

end Sections

/-! ## What the segments and flushes do -/

namespace DevState

variable {sp : StoreParams σ} {concurFlush : ℕ} {s s' : DevState σ} {i t u : ℕ}

/-- What a goroutine is at in a segment. -/
def proc (s : DevState σ) (i u : ℕ) : Proc σ :=
  match s.cells[i]? with
  | some c => c.procs u
  | none => .idle

lemma proc_eq {c : Cell σ} (hc : s.cells[i]? = some c) : s.proc i u = c.procs u := by
  simp [proc, hc]

lemma proc_set {c c' : Cell σ} {p : Proc σ} (hc : s.cells[i]? = some c)
    (hcells : s'.cells = s.cells.set i c') (hprocs : c'.procs = Function.update c.procs u p)
    (j v : ℕ) : s'.proc j v = if j = i ∧ v = u then p else s.proc j v := by
  have hlt : i < s.cells.length := (List.getElem?_eq_some_iff.mp hc).1
  by_cases hj : j = i
  · subst hj
    have hc' : s'.cells[j]? = some c' := by simp [hcells, hlt]
    rw [proc_eq hc', proc_eq hc, hprocs, Function.update_apply]
    simp
  · have hc' : s'.cells[j]? = s.cells[j]? := by
      rw [hcells, List.getElem?_set_ne (Ne.symm hj)]
    rw [if_neg fun h => hj h.1]
    simp only [proc, hc']

/-- A section of a call runs in one segment. -/
structure Moves (sp : StoreParams σ) (s s' : DevState σ) (i u : ℕ) (c c' : Cell σ)
    (m : Go σ (Cell σ)) : Prop where
  cell : s.cells[i]? = some c
  next : c.next sp u = some m
  run : m s.world = .ok (c', s'.world)
  cells : s'.cells = s.cells.set i c'

lemma step_call {made : SegCall} (h : s.step sp concurFlush (.call i t made) = some s') :
    made.Plain ∧ s'.flushes = s.flushes ∧ s'.world = s.world ∧ ∃ c, s.cells[i]? = some c ∧
      c.procs (clientID t) = .idle ∧
      s'.cells = s.cells.set i (c.goto (clientID t) (.called made)) := by
  unfold step at h
  simp only at h
  split_ifs at h with hplain
  obtain ⟨hflushes, c, c', hc, hstep, hcells⟩ := onCell_eq_some h
  obtain ⟨hidle, hnew⟩ := Cell.step_call hstep
  obtain ⟨rfl, hworld⟩ := Prod.mk.inj hnew
  exact ⟨hplain, hflushes, hworld, c, hc, hidle, hcells⟩

lemma step_ret (h : s.step sp concurFlush (.ret i t) = some s') :
    s'.flushes = s.flushes ∧ s'.world = s.world ∧ ∃ c res, s.cells[i]? = some c ∧
      c.procs (clientID t) = .done res ∧ s'.cells = s.cells.set i (c.goto (clientID t) .idle) := by
  obtain ⟨hflushes, c, c', hc, hstep, hcells⟩ := onCell_eq_some h
  obtain ⟨res, hdone, hnew⟩ := Cell.step_ret hstep
  obtain ⟨rfl, hworld⟩ := Prod.mk.inj hnew
  exact ⟨hflushes, hworld, c, res, hc, hdone, hcells⟩

lemma onCell_move (h : s.onCell sp i (.move u) = some s') :
    s'.flushes = s.flushes ∧ ∃ c c' m, Moves sp s s' i u c c' m := by
  obtain ⟨hflushes, c, c', hc, hstep, hcells⟩ := onCell_eq_some h
  obtain ⟨m, hm, hrun⟩ := Cell.step_move hstep
  exact ⟨hflushes, c, c', m, hc, hm, hrun, hcells⟩

lemma step_move (h : s.step sp concurFlush (.move i t) = some s') :
    s'.flushes = s.flushes ∧ ∃ c c' m, Moves sp s s' i (clientID t) c c' m :=
  onCell_move h

/-- What a flush of the device does next. -/
inductive FlushMove (sp : StoreParams σ) (concurFlush : ℕ) (s s' : DevState σ) (f : ℕ) :
    FlushState → FlushState → Prop
  | look {next : ℕ} {found : List ℕ} {c : Cell σ} (hsame : s'.cells = s.cells ∧ s'.world = s.world)
      (hc : s.cells[next]? = some c) : FlushMove sp concurFlush s s' f (.looking next found)
        (.looking (next + 1) (if c.seg.dirty then found ++ [next] else found))
  | looked {next : ℕ} {found : List ℕ} (hsame : s'.cells = s.cells ∧ s'.world = s.world)
      (hend : s.cells[next]? = none) : FlushMove sp concurFlush s s' f (.looking next found)
        (if found = [] then .returned none else .starting false found [] none)
  | recheck {i : ℕ} {todo running : List ℕ} {err : Option GoError} {c : Cell σ}
      (hsame : s'.cells = s.cells ∧ s'.world = s.world) (hc : s.cells[i]? = some c) :
      FlushMove sp concurFlush s s' f (.starting false (i :: todo) running err)
        (if c.seg.dirty then .starting true (i :: todo) running err
          else .starting false todo running err)
  | spawn {i : ℕ} {todo running : List ℕ} {err : Option GoError} {buffered : Bool} {c : Cell σ}
      (hlt : running.length < max 1 concurFlush) (hc : s.cells[i]? = some c)
      (hidle : c.procs (flusherID f) = .idle) (hworld : s'.world = s.world)
      (hcells : s'.cells = s.cells.set i (c.goto (flusherID f) (.called (.flush buffered)))) :
      FlushMove sp concurFlush s s' f (.starting true (i :: todo) running err)
        (.starting false todo (i :: running) err)
  | work {i : ℕ} {todo running : List ℕ} {seen : Bool} {err : Option GoError} {c c' : Cell σ}
      {m : Go σ (Cell σ)} (hi : i ∈ running) (hmoves : Moves sp s s' i (flusherID f) c c' m) :
      FlushMove sp concurFlush s s' f (.starting seen todo running err)
        (.starting seen todo running err)
  | collect {i : ℕ} {todo running : List ℕ} {seen : Bool} {err segErr : Option GoError}
      {c : Cell σ} (hi : i ∈ running) (hc : s.cells[i]? = some c)
      (hdone : c.procs (flusherID f) = .done (.flushed segErr)) (hworld : s'.world = s.world)
      (hcells : s'.cells = s.cells.set i (c.goto (flusherID f) .idle)) :
      FlushMove sp concurFlush s s' f (.starting seen todo running err)
        (.starting seen todo (running.erase i) (err.or segErr))
  | finish {seen : Bool} {err : Option GoError} (hsame : s'.cells = s.cells ∧ s'.world = s.world) :
      FlushMove sp concurFlush s s' f (.starting seen [] [] err)
        (.returned (err.map (.wrap "One ore more segments failed to flush")))

lemma step_ofFlush {e : DevEvent} (he : e.OfFlush) (h : s.step sp concurFlush e = some s') :
    ∃ f old new, s.flushes[f]? = some old ∧ s'.flushes = s.flushes.set f new ∧
      FlushMove sp concurFlush s s' f old new := by
  unfold step at h
  cases e with
  | call i t made => exact absurd he not_false
  | move i t => exact absurd he not_false
  | ret i t => exact absurd he not_false
  | flush => exact absurd he not_false
  | look f =>
    simp only at h
    split at h
    · next next found hold =>
      obtain rfl := Option.some.inj h
      unfold look
      split
      · next c hc => exact ⟨f, _, _, hold, rfl, .look ⟨rfl, rfl⟩ hc⟩
      · next hend => exact ⟨f, _, _, hold, rfl, .looked ⟨rfl, rfl⟩ hend⟩
    · cases h
  | recheck f =>
    simp only at h
    split at h
    · next i todo running err hold =>
      obtain ⟨c, hc, rfl⟩ := Option.map_eq_some_iff.mp h
      exact ⟨f, _, _, hold, rfl, .recheck ⟨rfl, rfl⟩ hc⟩
    · cases h
  | spawn f buffered =>
    simp only at h
    split at h
    · next i todo running err hold =>
      unfold spawn at h
      split_ifs at h with hlt
      obtain ⟨s₁, hcell, rfl⟩ := Option.map_eq_some_iff.mp h
      obtain ⟨hflushes, c, c', hc, hstep, hcells⟩ := onCell_eq_some hcell
      obtain ⟨hidle, hnew⟩ := Cell.step_call hstep
      obtain ⟨rfl, hworld⟩ := Prod.mk.inj hnew
      exact ⟨f, _, _, hold, by rw [setFlush, hflushes], .spawn hlt hc hidle hworld hcells⟩
    · cases h
  | work f i =>
    simp only at h
    split at h
    · next seen todo running err hold =>
      split_ifs at h with hi
      obtain ⟨hflushes, c, c', m, hmoves⟩ := onCell_move h
      refine ⟨f, _, _, hold, ?_, .work hi hmoves⟩
      obtain ⟨hlt, hget⟩ := List.getElem?_eq_some_iff.mp hold
      rw [hflushes, ← hget, List.set_getElem_self]
    · cases h
  | collect f i =>
    simp only at h
    split at h
    · next seen todo running err hold =>
      split_ifs at h with hi
      obtain ⟨c, hc, h⟩ := Option.bind_eq_some_iff.mp h
      cases hproc : c.procs (flusherID f) with
      | done res =>
        cases res with
        | flushed segErr =>
          simp only [hproc] at h
          obtain ⟨s₁, hcell, rfl⟩ := Option.map_eq_some_iff.mp h
          obtain ⟨hflushes, c₁, c', hc₁, hstep, hcells⟩ := onCell_eq_some hcell
          obtain rfl := Option.some.inj (hc.symm.trans hc₁)
          obtain ⟨res, -, hnew⟩ := Cell.step_ret hstep
          obtain ⟨rfl, hworld⟩ := Prod.mk.inj hnew
          exact ⟨f, _, _, hold, by rw [setFlush, hflushes], .collect hi hc hproc hworld hcells⟩
        | _ => simp [hproc] at h
      | _ => simp [hproc] at h
    · cases h
  | finish f =>
    simp only at h
    split at h
    · next seen err hold =>
      obtain rfl := Option.some.inj h
      exact ⟨f, _, _, hold, rfl, .finish ⟨rfl, rfl⟩⟩
    · cases h

end DevState

/-! ## The goroutines of the flushes -/

namespace FlushState

/-- The segments whose goroutines a flush waits for. -/
def running : FlushState → List ℕ
  | starting _ _ running _ => running
  | _ => []

/-- A flush has each segment at one place of its lists at most. -/
def Orderly (count : ℕ) : FlushState → Prop
  | looking next found => next ≤ count ∧ found.Nodup ∧ ∀ i ∈ found, i < next
  | starting _ todo running _ => (todo ++ running).Nodup ∧ ∀ i ∈ todo ++ running, i < count
  | returned _ => True

end FlushState

lemma clientID_ne_flusherID (t f : ℕ) : clientID t ≠ flusherID f := by
  simp only [clientID, flusherID]
  omega

lemma clientID_injective : Function.Injective clientID := fun t u h => by
  simp only [clientID] at h
  omega

lemma flusherID_injective : Function.Injective flusherID := fun f g h => by
  simp only [flusherID] at h
  omega

namespace DevState

/-- The segments a flush has goroutines in. -/
def running (s : DevState σ) (f : ℕ) : List ℕ :=
  match s.flushes[f]? with
  | some state => state.running
  | none => []

/-- The goroutines of the flushes are in the segments the flushes wait for, and nowhere else. -/
structure Flushers (s : DevState σ) : Prop where
  orderly : ∀ (f : ℕ) (state : FlushState), s.flushes[f]? = some state →
    state.Orderly s.cells.length
  busy : ∀ f, ∀ i ∈ s.running f, ∃ buffered, (s.proc i (flusherID f)).Serves (.flush buffered)
  idle : ∀ f i, i ∉ s.running f → s.proc i (flusherID f) = .idle

variable {sp : StoreParams σ} {concurFlush : ℕ} {s s' : DevState σ} {f i u : ℕ}

lemma running_eq {state : FlushState} (h : s.flushes[f]? = some state) :
    s.running f = state.running := by
  simp [running, h]

lemma running_set {old new : FlushState} (hold : s.flushes[f]? = some old)
    (hflushes : s'.flushes = s.flushes.set f new) (g : ℕ) :
    s'.running g = if g = f then new.running else s.running g := by
  have hlt : f < s.flushes.length := (List.getElem?_eq_some_iff.mp hold).1
  by_cases hg : g = f
  · subst hg
    rw [if_pos rfl, running_eq]
    simp [hflushes, hlt]
  · rw [if_neg hg]
    simp only [running, hflushes, List.getElem?_set_ne (Ne.symm hg)]

lemma Flushers.new (segments : List (Segment σ)) (w : World σ) : Flushers (.new segments w) where
  orderly f state h := by simp [DevState.new] at h
  busy f i h := by simp [running, DevState.new] at h
  idle f i _ := by
    unfold proc
    cases hc : (DevState.new segments w).cells[i]? with
    | none => rfl
    | some c =>
      obtain ⟨seg, -, rfl⟩ := List.mem_map.mp (List.mem_of_getElem? hc)
      rfl

lemma Flushers.of_client (h : Flushers s) (hlen : s'.cells.length = s.cells.length)
    (hflushes : s'.flushes = s.flushes) {p : Proc σ} {t : ℕ}
    (hproc : ∀ j v, s'.proc j v = if j = i ∧ v = clientID t then p else s.proc j v) :
    Flushers s' := by
  have hrun : ∀ f, s'.running f = s.running f := fun f => by simp only [running, hflushes]
  have hflusher : ∀ f j, s'.proc j (flusherID f) = s.proc j (flusherID f) := by
    intro f j
    rw [hproc, if_neg fun hc => clientID_ne_flusherID t f hc.2.symm]
  refine ⟨fun f state hf => ?_, fun f j hj => ?_, fun f j hj => ?_⟩
  · rw [hlen]
    exact h.orderly f state (hflushes ▸ hf)
  · rw [hflusher]
    exact h.busy f j (hrun f ▸ hj)
  · rw [hflusher]
    exact h.idle f j (hrun f ▸ hj)

lemma Flushers.of_flush (h : Flushers s) (hstep : s.step sp concurFlush .flush = some s') :
    Flushers s' := by
  obtain rfl := Option.some.inj hstep
  have hrun : ∀ f, running { s with flushes := s.flushes ++ [.looking 0 []] } f = s.running f := by
    intro f
    simp only [running, List.getElem?_append]
    split_ifs with hf
    · rfl
    · rw [List.getElem?_eq_none (l := s.flushes) (by omega)]
      cases hnew : [FlushState.looking 0 []][f - s.flushes.length]? with
      | none => rfl
      | some state =>
        obtain rfl := List.mem_singleton.mp (List.mem_of_getElem? hnew)
        rfl
  refine ⟨fun f state hf => ?_, fun f j hj => h.busy f j (hrun f ▸ hj),
    fun f j hj => h.idle f j (hrun f ▸ hj)⟩
  rcases List.mem_append.mp (List.mem_of_getElem? hf) with hmem | hnew
  · obtain ⟨g, hg⟩ := List.getElem?_of_mem hmem
    exact h.orderly g state hg
  · obtain rfl := List.mem_singleton.mp hnew
    exact ⟨Nat.zero_le _, List.nodup_nil, by simp⟩

lemma Flushers.of_set (h : Flushers s) (hlen : s'.cells.length = s.cells.length)
    {old new : FlushState} (hold : s.flushes[f]? = some old)
    (hflushes : s'.flushes = s.flushes.set f new) (horderly : new.Orderly s.cells.length)
    (hothers : ∀ j g, g ≠ f → s'.proc j (flusherID g) = s.proc j (flusherID g))
    (hbusy : ∀ j ∈ new.running, ∃ buffered, (s'.proc j (flusherID f)).Serves (.flush buffered))
    (hidle : ∀ j, j ∉ new.running → s'.proc j (flusherID f) = .idle) : Flushers s' := by
  have hrun := running_set hold hflushes
  refine ⟨fun g state hg => ?_, fun g j hj => ?_, fun g j hj => ?_⟩
  · rw [hlen]
    rcases getElem?_set_cases (hflushes ▸ hg) with ⟨rfl, rfl⟩ | ⟨-, hg⟩
    · exact horderly
    · exact h.orderly g state hg
  · rw [hrun] at hj
    by_cases hg : g = f
    · subst hg
      exact hbusy j (by simpa using hj)
    · rw [hothers j g hg]
      exact h.busy g j (by simpa [hg] using hj)
  · rw [hrun] at hj
    by_cases hg : g = f
    · subst hg
      exact hidle j (by simpa using hj)
    · rw [hothers j g hg]
      exact h.idle g j (by simpa [hg] using hj)

lemma Flushers.of_same (h : Flushers s) {old new : FlushState} (hold : s.flushes[f]? = some old)
    (hflushes : s'.flushes = s.flushes.set f new) (hsame : s'.cells = s.cells)
    (horderly : new.Orderly s.cells.length) (hrun : new.running = old.running) : Flushers s' := by
  have hproc : ∀ j v, s'.proc j v = s.proc j v := fun j v => by simp only [proc, hsame]
  refine h.of_set (hsame ▸ rfl) hold hflushes horderly (fun j g _ => hproc j _) ?_ ?_
  · intro j hj
    rw [hproc]
    exact h.busy f j (by rw [running_eq hold, ← hrun]; exact hj)
  · intro j hj
    rw [hproc]
    exact h.idle f j (by rw [running_eq hold, ← hrun]; exact hj)

lemma Flushers.of_proc (h : Flushers s) {c c' : Cell σ} {p : Proc σ} {old new : FlushState}
    (hc : s.cells[i]? = some c) (hcells : s'.cells = s.cells.set i c')
    (hprocs : c'.procs = Function.update c.procs (flusherID f) p) (hold : s.flushes[f]? = some old)
    (hflushes : s'.flushes = s.flushes.set f new) (horderly : new.Orderly s.cells.length)
    (hothers : ∀ j, j ≠ i → (j ∈ new.running ↔ j ∈ old.running))
    (hbusy : i ∈ new.running → ∃ buffered, p.Serves (.flush buffered))
    (hidle : i ∉ new.running → p = .idle) : Flushers s' := by
  have hproc := proc_set hc hcells hprocs
  refine h.of_set (by simp [hcells]) hold hflushes horderly ?_ ?_ ?_
  · intro j g hg
    rw [hproc, if_neg fun hx => hg (flusherID_injective hx.2)]
  · intro j hj
    rw [hproc]
    by_cases hji : j = i
    · rw [if_pos ⟨hji, rfl⟩]
      exact hbusy (hji ▸ hj)
    · rw [if_neg fun hx => hji hx.1]
      exact h.busy f j (by rw [running_eq hold]; exact (hothers j hji).mp hj)
  · intro j hj
    rw [hproc]
    by_cases hji : j = i
    · rw [if_pos ⟨hji, rfl⟩]
      exact hidle (hji ▸ hj)
    · rw [if_neg fun hx => hji hx.1]
      exact h.idle f j (by rw [running_eq hold]; exact fun hx => hj ((hothers j hji).mpr hx))

/-- The goroutine at work for a flush is in a `Flush`. -/
lemma Flushers.call_of_moves (h : Flushers s) {state : FlushState}
    (hstate : s.flushes[f]? = some state) (hi : i ∈ state.running) {c c' : Cell σ}
    {m : Go σ (Cell σ)} (hmoves : Moves sp s s' i (flusherID f) c c' m) :
    ∃ buffered, (c.procs (flusherID f)).call? = some (.flush buffered) := by
  obtain ⟨call, hcall, -⟩ := next_continues (w := s.world) hmoves.next
  obtain ⟨buffered, hserves⟩ := h.busy f i (by rwa [running_eq hstate])
  rw [proc_eq hmoves.cell] at hserves
  exact ⟨buffered, by rw [hcall, hserves.call_eq hcall]⟩

lemma Flushers.of_move (h : Flushers s) {old new : FlushState} (hold : s.flushes[f]? = some old)
    (hflushes : s'.flushes = s.flushes.set f new)
    (hmove : FlushMove sp concurFlush s s' f old new) : Flushers s' := by
  have horderly := h.orderly f old hold
  cases hmove with
  | @look next found c hsame hc =>
    obtain ⟨-, hnodup, hlt⟩ := horderly
    -- what has been found lies before `next`, so that the segment here is not among it
    have hnext : next < s.cells.length := (List.getElem?_eq_some_iff.mp hc).1
    refine h.of_same hold hflushes hsame.1 ⟨hnext, ?_, ?_⟩ rfl
    · split_ifs
      · refine List.nodup_append.mpr ⟨hnodup, List.nodup_singleton _, ?_⟩
        rintro a ha b hb rfl
        obtain rfl := List.mem_singleton.mp hb
        exact (hlt a ha).ne rfl
      · exact hnodup
    · intro j hj
      split_ifs at hj
      · rcases List.mem_append.mp hj with hmem | hnew
        · exact (hlt j hmem).trans (Nat.lt_succ_self _)
        · obtain rfl := List.mem_singleton.mp hnew
          exact Nat.lt_succ_self _
      · exact (hlt j hj).trans (Nat.lt_succ_self _)
  | @looked next found hsame hend =>
    obtain ⟨hle, hnodup, hlt⟩ := horderly
    split_ifs at hflushes with hfound
    · exact h.of_same hold hflushes hsame.1 trivial rfl
    · refine h.of_same hold hflushes hsame.1 ⟨by simpa using hnodup, fun j hj => ?_⟩ rfl
      exact (hlt j (by simpa using hj)).trans_le hle
  | @recheck i todo running err c hsame hc =>
    split_ifs at hflushes
    · exact h.of_same hold hflushes hsame.1 horderly rfl
    · refine h.of_same hold hflushes hsame.1 ?_ rfl
      exact ⟨(List.nodup_cons.mp horderly.1).2,
        fun j hj => horderly.2 j (List.mem_cons_of_mem i hj)⟩
  | @spawn i todo running err buffered c hlt hc hidle hworld hcells =>
    refine h.of_proc hc hcells rfl hold hflushes ?_ ?_ ?_ ?_
    · refine ⟨?_, fun j hj => horderly.2 j ?_⟩
      · exact List.nodup_middle.mpr horderly.1
      · simpa [or_left_comm] using hj
    · intro j hji
      simp [FlushState.running, hji]
    · exact fun _ => ⟨buffered, .inl rfl⟩
    · intro hnot
      simp [FlushState.running] at hnot
  | @work i todo running seen err c c' m hi hmoves =>
    obtain ⟨call, hcall, hyields⟩ := next_continues (w := s.world) hmoves.next
    obtain ⟨p, hprocs, hserves⟩ := hyields c' s'.world hmoves.run
    obtain ⟨buffered, hflush⟩ := h.call_of_moves hold hi hmoves
    obtain rfl : call = .flush buffered := Option.some.inj (hcall.symm.trans hflush)
    exact h.of_proc hmoves.cell hmoves.cells hprocs hold hflushes horderly (fun _ _ => Iff.rfl)
      (fun _ => ⟨buffered, hserves⟩) fun hnot => absurd hi hnot
  | @collect i todo running seen err segErr c hi hc hdone hworld hcells =>
    -- a segment is in `running` once, so that erasing it takes its goroutine out
    have hrunning : running.Nodup := (List.nodup_append.mp horderly.1).2.1
    refine h.of_proc hc hcells rfl hold hflushes ?_ ?_ ?_ (fun _ => rfl)
    · refine ⟨horderly.1.sublist ?_, fun j hj => horderly.2 j ?_⟩
      · exact List.Sublist.append_left List.erase_sublist _
      · rcases List.mem_append.mp hj with hmem | hmem
        · exact List.mem_append_left _ hmem
        · exact List.mem_append_right _ (List.mem_of_mem_erase hmem)
    · intro j hji
      exact List.mem_erase_of_ne hji
    · intro hmem
      exact absurd hmem (hrunning.not_mem_erase)
  | finish hsame => exact h.of_same hold hflushes hsame.1 trivial rfl

end DevState

/-! ## The lock of the device -/

/-- Where a client stands with `pendingOpMu`. -/
inductive Stage
  | outside
  | working
  /-- It has its result, and the lock for reading. -/
  | leaving
  | waiting
  | owning
  deriving DecidableEq

def DevResult.stage : DevResult → Stage
  | closed _ => .owning
  | _ => .leaving

namespace Client

def stage : Client → Stage
  | idle => .outside
  | called _ => .outside
  | looping _ => .working
  | trying _ _ => .working
  | accessing _ _ => .working
  | scanning _ _ _ _ => .working
  | evicting _ _ _ _ => .working
  | flushing _ => .working
  | waiting => .waiting
  | closing _ => .owning
  | dropping _ _ => .owning
  | deleting _ _ => .owning
  | done res => res.stage

/-- The flush a client waits for. -/
def flush? : Client → Option ℕ
  | flushing f => some f
  | closing f => some f
  | _ => none

end Client

lemma IoAt.stage_result (io : IoAt) (count : ℕ) (err : Option GoError) :
    (Client.done (io.result count err)).stage = .leaving := by
  unfold IoAt.result
  split_ifs <;> rfl

lemma IoAt.stage_evicted (io : IoAt) (tries count : ℕ) (err : Option GoError) :
    (io.evicted tries count err).stage = .working ∨
      (io.evicted tries count err).stage = .leaving := by
  cases err with
  | none => exact .inl rfl
  | some e => exact .inr (io.stage_result _ _)

lemma IoAt.stage_collect (segmentBytes : ℕ) (io : IoAt) (tries : ℕ) (res : SegResult) :
    (io.collect segmentBytes tries res).stage = .working ∨
      (io.collect segmentBytes tries res).stage = .leaving := by
  unfold IoAt.collect
  simp only
  cases res.err with
  | none => exact .inl rfl
  | some e =>
    cases tries with
    | zero => exact .inr (IoAt.stage_result _ _ _)
    | succ tries =>
      simp only
      split_ifs
      · exact .inl rfl
      · exact .inr (IoAt.stage_result _ _ _)

/-- Those that hold the lock, and what it excludes. -/
structure UseLocks (s : DevUse σ) : Prop where
  readers : ∀ t, t ∈ s.mu.readers ↔
    (s.clients t).stage = .working ∨ (s.clients t).stage = .leaving
  writer : ∀ t, s.mu.writer = some t ↔
    (s.clients t).stage = .waiting ∨ (s.clients t).stage = .owning
  owning : ∀ t, (s.clients t).stage = .owning → s.mu.readers = ∅ ∧ s.shutdown = true
  working : ∀ t, (s.clients t).stage = .working → s.shutdown = false

/-- What a step of a client does to its stage and to the lock. -/
inductive Stage.Passes (s : DevUse σ) (t : ℕ) : Stage → Stage → OpLock → Bool → Prop
  | enters {mu : OpLock} {stage : Stage} (hlock : s.mu.rLock t = some mu)
      (hstage : stage = .working ∧ s.shutdown = false ∨ stage = .leaving) :
      Passes s t .outside stage mu s.shutdown
  | announces {mu : OpLock} (hlock : s.mu.announce t = some mu) :
      Passes s t .outside .waiting mu s.shutdown
  | stays {stage : Stage} : Passes s t stage stage s.mu s.shutdown
  | ends : Passes s t .working .leaving s.mu s.shutdown
  | owns (hreaders : s.mu.readers = ∅) : Passes s t .waiting .owning s.mu true

namespace DevUse

variable {sp : StoreParams σ} {totalBytes concurFlush : ℕ} {s s' : DevUse σ} {t : ℕ}

lemma stage_enter (readOp : Bool) (buf : Bytes) (pos : ℕ) :
    (s.enter sp totalBytes readOp buf pos).stage = .working ∧ s.shutdown = false ∨
      (s.enter sp totalBytes readOp buf pos).stage = .leaving := by
  unfold enter
  simp only
  split_ifs with hshut hpos
  · exact .inr (IoAt.stage_result _ _ _)
  · exact .inr (IoAt.stage_result _ _ _)
  · exact .inl ⟨rfl, by simpa using hshut⟩

lemma Advance.passes {p p' : Client} {dev : DevState σ} {mu : OpLock} {shutdown : Bool}
    (h : Advance sp totalBytes concurFlush s t p p' dev mu shutdown) :
    Stage.Passes s t p.stage p'.stage mu shutdown := by
  -- a client at work stays there or has its result
  have hworks : ∀ {stage : Stage}, stage = .working ∨ stage = .leaving →
      Stage.Passes s t .working stage s.mu s.shutdown := by
    rintro stage (rfl | rfl)
    · exact .stays
    · exact .ends
  cases h with
  | readAt hlock => exact .enters hlock (stage_enter _ _ _)
  | writeAt hlock => exact .enters hlock (stage_enter _ _ _)
  | flushShut hlock _ => exact .enters hlock (.inr rfl)
  | flush hlock hopen _ => exact .enters hlock (.inl ⟨rfl, hopen⟩)
  | close hlock => exact .announces hlock
  | @loop io =>
    apply hworks
    unfold DevUse.loop
    split_ifs
    · exact .inr (io.stage_result _ _)
    · exact .inr (io.stage_result _ _)
    · exact .inl rfl
  | access _ => exact .stays
  | scan _ => exact .stays
  | @nothing io tries count scan _ => exact hworks (io.stage_evicted tries count _)
  | evict _ _ => exact .stays
  | flushed _ => exact .ends
  | closedBefore hreaders hshut =>
    have howns : Stage.Passes s t .waiting .owning s.mu true := .owns hreaders
    rwa [← hshut] at howns
  | shut hreaders _ _ => exact .owns hreaders
  | @closeFlushed f err _ =>
    have hstage : (DevUse.flushed sp err).stage = .owning := by
      unfold DevUse.flushed
      cases err with
      | some e => rfl
      | none =>
        simp only
        split_ifs <;> rfl
    rw [hstage]
    exact .stays
  | drop _ => exact .stays
  | dropped _ => exact .stays
  | move _ _ => exact .stays
  | @ret p i call res c dev hin _ _ _ =>
    cases p with
    | accessing io tries => exact hworks (io.stage_collect _ tries res)
    | evicting io tries count idx => exact hworks (io.stage_evicted tries count res.err)
    | deleting i err => exact .stays
    | _ => cases hin

end DevUse

lemma OpLock.rLock_eq_some {m m' : OpLock} {t : ℕ} (h : m.rLock t = some m') :
    m.writer = none ∧ m' = { m with readers := insert t m.readers } := by
  unfold OpLock.rLock at h
  split_ifs at h with hwriter
  exact ⟨hwriter, (Option.some.inj h).symm⟩

lemma OpLock.announce_eq_some {m m' : OpLock} {t : ℕ} (h : m.announce t = some m') :
    m.writer = none ∧ m' = { m with writer := some t } := by
  unfold OpLock.announce at h
  split_ifs at h with hwriter
  exact ⟨hwriter, (Option.some.inj h).symm⟩

namespace UseLocks

variable {s s' : DevUse σ} {t : ℕ} {p : Client}

lemma new (segments : List (Segment σ)) (w : World σ) : UseLocks (.new segments w) where
  readers t := by simp [DevUse.new, Client.stage]
  writer t := by simp [DevUse.new, Client.stage]
  owning t h := by simp [DevUse.new, Client.stage] at h
  working t h := by simp [DevUse.new, Client.stage] at h

lemma update (h : UseLocks s) (hclients : s'.clients = Function.update s.clients t p)
    (hreaders : ∀ u, u ≠ t → (u ∈ s'.mu.readers ↔ u ∈ s.mu.readers))
    (hwriter : ∀ u, u ≠ t → (s'.mu.writer = some u ↔ s.mu.writer = some u))
    (hreads : t ∈ s'.mu.readers ↔ p.stage = .working ∨ p.stage = .leaving)
    (hwrites : s'.mu.writer = some t ↔ p.stage = .waiting ∨ p.stage = .owning)
    (howning : (p.stage = .owning ∨ ∃ u, u ≠ t ∧ (s.clients u).stage = .owning) →
      s'.mu.readers = ∅ ∧ s'.shutdown = true)
    (hworking : (p.stage = .working ∨ ∃ u, u ≠ t ∧ (s.clients u).stage = .working) →
      s'.shutdown = false) : UseLocks s' := by
  have hstage : ∀ u, (s'.clients u).stage = if u = t then p.stage else (s.clients u).stage := by
    intro u
    rw [hclients, Function.update_apply]
    split_ifs <;> rfl
  refine ⟨fun u => ?_, fun u => ?_, fun u hu => ?_, fun u hu => ?_⟩
  · rw [hstage]
    split_ifs with hu
    · exact hu ▸ hreads
    · exact (hreaders u hu).trans (h.readers u)
  · rw [hstage]
    split_ifs with hu
    · exact hu ▸ hwrites
    · exact (hwriter u hu).trans (h.writer u)
  · rw [hstage] at hu
    split_ifs at hu with hut
    · exact howning (.inl hu)
    · exact howning (.inr ⟨u, hut, hu⟩)
  · rw [hstage] at hu
    split_ifs at hu with hut
    · exact hworking (.inl hu)
    · exact hworking (.inr ⟨u, hut, hu⟩)

/-- Only one has the lock for itself. -/
lemma ne_owning (h : UseLocks s) {u : ℕ} (hwriter : s.mu.writer ≠ some u) :
    (s.clients u).stage ≠ .owning :=
  fun hu => hwriter ((h.writer u).mpr (.inr hu))

lemma stays (h : UseLocks s) (hclients : s'.clients = Function.update s.clients t p)
    (hmu : s'.mu = s.mu) (hshut : s'.shutdown = s.shutdown)
    (hstage : p.stage = (s.clients t).stage) : UseLocks s' := by
  refine h.update hclients (fun u _ => by rw [hmu]) (fun u _ => by rw [hmu])
    (by rw [hmu, h.readers, hstage]) (by rw [hmu, h.writer, hstage]) ?_ ?_
  · rintro (hp | ⟨u, -, hu⟩)
    · rw [hmu, hshut]
      exact h.owning t (hstage ▸ hp)
    · rw [hmu, hshut]
      exact h.owning u hu
  · rintro (hp | ⟨u, -, hu⟩)
    · rw [hshut]
      exact h.working t (hstage ▸ hp)
    · rw [hshut]
      exact h.working u hu

lemma passes (h : UseLocks s) {dev : DevState σ} {mu : OpLock} {shutdown : Bool}
    (hpass : Stage.Passes s t (s.clients t).stage p.stage mu shutdown) :
    UseLocks ⟨dev, mu, shutdown, Function.update s.clients t p⟩ := by
  generalize hold : (s.clients t).stage = old at hpass
  generalize hnew : p.stage = new at hpass
  cases hpass with
  | @enters mu _ hlock hstage =>
    obtain ⟨hwriter, rfl⟩ := OpLock.rLock_eq_some hlock
    have hreads : p.stage = .working ∨ p.stage = .leaving := hnew ▸ hstage.imp_left And.left
    refine h.update rfl (fun u hu => by simp [hu]) (fun _ _ => Iff.rfl) (by simp [hreads]) ?_ ?_ ?_
    · rcases hreads with hp | hp <;> simp [hwriter, hp]
    · rintro (hp | ⟨u, -, hu⟩)
      · rcases hreads with hp' | hp' <;> simp [hp] at hp'
      · exact absurd hu (h.ne_owning (by simp [hwriter]))
    · rintro (hp | ⟨u, -, hu⟩)
      · rcases hstage with ⟨-, hopen⟩ | hleaving
        · exact hopen
        · simp [← hnew, hp] at hleaving
      · exact h.working u hu
  | @announces mu hlock =>
    obtain ⟨hwriter, rfl⟩ := OpLock.announce_eq_some hlock
    refine h.update rfl (fun _ _ => Iff.rfl) (fun u hu => by simp [hwriter, Ne.symm hu])
      (by simp [hnew, h.readers, hold]) (by simp [hnew]) ?_ ?_
    · rintro (hp | ⟨u, -, hu⟩)
      · simp [hnew] at hp
      · exact absurd hu (h.ne_owning (by simp [hwriter]))
    · rintro (hp | ⟨u, -, hu⟩)
      · simp [hnew] at hp
      · exact h.working u hu
  | stays => exact h.stays rfl rfl rfl (hnew.trans hold.symm)
  | ends =>
    refine h.update rfl (fun _ _ => Iff.rfl) (fun _ _ => Iff.rfl)
      (by simp [hnew, h.readers, hold]) (by simp [hnew, h.writer, hold]) ?_ ?_
    · rintro (hp | ⟨u, -, hu⟩)
      · simp [hnew] at hp
      · exact h.owning u hu
    · rintro (hp | ⟨u, -, hu⟩)
      · simp [hnew] at hp
      · exact h.working u hu
  | owns hreaders =>
    -- with no reader left nobody is at work, so that `shutdown` can be set
    have hnone : ∀ u, (s.clients u).stage ≠ .working := by
      intro u hu
      have hmem := (h.readers u).mpr (.inl hu)
      simp [hreaders] at hmem
    refine h.update rfl (fun _ _ => Iff.rfl) (fun _ _ => Iff.rfl) (by simp [hnew, h.readers, hold])
      (by simp [hnew, h.writer, hold]) (fun _ => ⟨hreaders, rfl⟩) ?_
    rintro (hp | ⟨u, -, hu⟩)
    · simp [hnew] at hp
    · exact absurd hu (hnone u)

lemma release (h : UseLocks s) (t : ℕ) :
    UseLocks ({ s with mu := s.mu.release t }.goto t .idle) := by
  refine h.update rfl (fun u hu => by simp [hu, OpLock.release, DevUse.goto]) (fun u hu => ?_)
    (by simp [OpLock.release, Client.stage, DevUse.goto]) ?_ ?_ ?_
  · simp only [DevUse.goto, OpLock.release]
    split_ifs with hw
    · simp [hw, Ne.symm hu]
    · exact Iff.rfl
  · simp only [DevUse.goto, OpLock.release, Client.stage]
    split_ifs with hw
    · simp
    · simp [hw]
  · rintro (hp | ⟨u, hne, hu⟩)
    · cases hp
    · obtain ⟨hreaders, hshut⟩ := h.owning u hu
      exact ⟨by simp [DevUse.goto, OpLock.release, hreaders], hshut⟩
  · rintro (hp | ⟨u, -, hu⟩)
    · cases hp
    · exact h.working u hu

lemma call (h : UseLocks s) (hidle : s.clients t = .idle) (made : DevCall) :
    UseLocks (s.goto t (.called made)) :=
  h.stays rfl rfl rfl (by rw [hidle]; rfl)

end UseLocks

/-! ## Clients and segments -/

namespace DevState

variable {sp : StoreParams σ} {concurFlush : ℕ} {s s' : DevState σ} {i t : ℕ}

/-- A client's goroutine goes to a place of one segment, and all else stays as it is. -/
structure Goes (s s' : DevState σ) (i t : ℕ) (p : Proc σ) : Prop where
  flushes : s'.flushes = s.flushes
  length : s'.cells.length = s.cells.length
  proc : ∀ j v, s'.proc j v = if j = i ∧ v = clientID t then p else s.proc j v

lemma goes_call {made : SegCall} (h : s.step sp concurFlush (.call i t made) = some s') :
    Goes s s' i t (.called made) := by
  obtain ⟨-, hflushes, -, c, hc, -, hcells⟩ := step_call h
  exact ⟨hflushes, by simp [hcells], proc_set hc hcells rfl⟩

lemma goes_ret (h : s.step sp concurFlush (.ret i t) = some s') : Goes s s' i t .idle := by
  obtain ⟨hflushes, -, c, res, hc, -, hcells⟩ := step_ret h
  exact ⟨hflushes, by simp [hcells], proc_set hc hcells rfl⟩

lemma goes_move (h : s.step sp concurFlush (.move i t) = some s') : ∃ call p,
    (s.proc i (clientID t)).call? = some call ∧ p.Serves call ∧ Goes s s' i t p := by
  obtain ⟨hflushes, c, c', m, hmoves⟩ := step_move h
  obtain ⟨call, hcall, hyields⟩ := next_continues (w := s.world) hmoves.next
  obtain ⟨p, hprocs, hserves⟩ := hyields c' s'.world hmoves.run
  exact ⟨call, p, by rwa [proc_eq hmoves.cell], hserves, hflushes, by simp [hmoves.cells],
    proc_set hmoves.cell hmoves.cells hprocs⟩

variable {f : ℕ} {old new : FlushState}

lemma FlushMove.proc_client (h : FlushMove sp concurFlush s s' f old new) (j u : ℕ) :
    s'.proc j (clientID u) = s.proc j (clientID u) := by
  have hsame : s'.cells = s.cells → s'.proc j (clientID u) = s.proc j (clientID u) := by
    intro hcells
    simp only [proc, hcells]
  have hother : ∀ {i : ℕ} {c c' : Cell σ} {p : Proc σ}, s.cells[i]? = some c →
      s'.cells = s.cells.set i c' → c'.procs = Function.update c.procs (flusherID f) p →
      s'.proc j (clientID u) = s.proc j (clientID u) := by
    intro i c c' p hc hcells hprocs
    rw [proc_set hc hcells hprocs, if_neg fun hx => clientID_ne_flusherID u f hx.2]
  cases h with
  | look hcells _ => exact hsame hcells.1
  | looked hcells _ => exact hsame hcells.1
  | recheck hcells _ => exact hsame hcells.1
  | spawn _ hc _ _ hcells => exact hother hc hcells rfl
  | @work _ _ _ _ _ _ c' _ _ hmoves =>
    obtain ⟨call, -, hyields⟩ := next_continues (w := s.world) hmoves.next
    obtain ⟨p, hprocs, -⟩ := hyields c' s'.world hmoves.run
    exact hother hmoves.cell hmoves.cells hprocs
  | collect _ hc _ _ hcells => exact hother hc hcells rfl
  | finish hcells => exact hsame hcells.1

lemma FlushMove.length_eq (h : FlushMove sp concurFlush s s' f old new) :
    s'.cells.length = s.cells.length := by
  cases h with
  | look hcells _ => rw [hcells.1]
  | looked hcells _ => rw [hcells.1]
  | recheck hcells _ => rw [hcells.1]
  | spawn _ _ _ _ hcells => simp [hcells]
  | work _ hmoves => simp [hmoves.cells]
  | collect _ _ _ _ hcells => simp [hcells]
  | finish hcells => rw [hcells.1]

lemma FlushMove.unfinished (h : FlushMove sp concurFlush s s' f old new) (err : Option GoError) :
    old ≠ .returned err := by
  cases h <;> simp

end DevState

/-- What a step of a client does where it is. -/
inductive Crosses (sp : StoreParams σ) (concurFlush : ℕ) (s : DevState σ) (t : ℕ) :
    Option (ℕ × SegCall) → Option (ℕ × SegCall) → DevState σ → Prop
  | stays : Crosses sp concurFlush s t none none s
  | starts {s' : DevState σ} (hstep : s.step sp concurFlush .flush = some s') :
      Crosses sp concurFlush s t none none s'
  | calls {i : ℕ} {made : SegCall} {s' : DevState σ}
      (hstep : s.step sp concurFlush (.call i t made) = some s') :
      Crosses sp concurFlush s t none (some (i, made)) s'
  | moves {i : ℕ} {made : SegCall} {s' : DevState σ}
      (hstep : s.step sp concurFlush (.move i t) = some s') :
      Crosses sp concurFlush s t (some (i, made)) (some (i, made)) s'
  | rets {i : ℕ} {made : SegCall} {s' : DevState σ}
      (hstep : s.step sp concurFlush (.ret i t) = some s') :
      Crosses sp concurFlush s t (some (i, made)) none s'

/-- The client is in no segment and waits for no flush. -/
def Client.Apart (segmentBytes : ℕ) (p : Client) : Prop :=
  p.inside segmentBytes = none ∧ p.flush? = none

lemma IoAt.apart_evicted (segmentBytes : ℕ) (io : IoAt) (tries count : ℕ) (err : Option GoError) :
    (io.evicted tries count err).Apart segmentBytes := by
  cases err <;> exact ⟨rfl, rfl⟩

lemma IoAt.apart_collect (segmentBytes : ℕ) (io : IoAt) (tries : ℕ) (res : SegResult) :
    (io.collect segmentBytes tries res).Apart segmentBytes := by
  unfold IoAt.collect
  simp only
  cases res.err with
  | none => exact ⟨rfl, rfl⟩
  | some e =>
    cases tries with
    | zero => exact ⟨rfl, rfl⟩
    | succ tries =>
      simp only
      split_ifs <;> exact ⟨rfl, rfl⟩

/-- The loop of `ioAt` has a segment to go to, and bytes for it. -/
def IoAt.Reaches (segmentBytes count : ℕ) (io : IoAt) : Prop :=
  io.pos < segmentBytes ∧ io.rest ≠ [] ∧ io.segID < count

/-- What the loop of `ioAt` has checked. -/
def Client.Checked (segmentBytes count : ℕ) : Client → Prop
  | looping io => io.pos < segmentBytes
  | trying io _ => io.Reaches segmentBytes count
  | accessing io _ => io.Reaches segmentBytes count
  | scanning io _ _ _ => io.Reaches segmentBytes count
  | evicting io _ _ _ => io.Reaches segmentBytes count
  | _ => True

/-- A segment's result leaves the length of the buffer. -/
lemma IoAt.length_fill {segmentBytes : ℕ} {io : IoAt} {res : SegResult}
    (h : res.Answers (io.call segmentBytes)) :
    (io.fill segmentBytes res).rest.length = io.rest.length := by
  have hlen : (res.fill (io.segBuf segmentBytes)).length = (io.segBuf segmentBytes).length := by
    cases res with
    | read got count err =>
      unfold IoAt.call at h
      split_ifs at h
      · exact h
      · cases h
    | _ => rfl
  have hle : (io.segBuf segmentBytes).length ≤ io.rest.length := by
    simp only [IoAt.segBuf, List.length_take]
    omega
  simp only [IoAt.fill, List.length_append, List.length_drop, hlen]
  omega

lemma IoAt.checked_evicted {segmentBytes count : ℕ} {io : IoAt} (h : io.Reaches segmentBytes count)
    (tries n : ℕ) (err : Option GoError) :
    (io.evicted tries n err).Checked segmentBytes count := by
  cases err with
  | none => exact h
  | some e => exact trivial

lemma IoAt.checked_collect {segmentBytes count : ℕ} {io : IoAt} {res : SegResult}
    (h : io.Reaches segmentBytes count) (hpos : 0 < segmentBytes) (tries : ℕ)
    (hres : res.Answers (io.call segmentBytes)) :
    (io.collect segmentBytes tries res).Checked segmentBytes count := by
  have hfill : (io.fill segmentBytes res).Reaches segmentBytes count := by
    refine ⟨h.1, ?_, h.2.2⟩
    rw [← List.length_pos_iff, length_fill hres]
    exact List.length_pos_iff.mpr h.2.1
  unfold IoAt.collect
  simp only
  cases res.err with
  | none => exact hpos
  | some e =>
    cases tries with
    | zero => exact trivial
    | succ tries =>
      simp only
      split_ifs
      · exact hfill
      · exact trivial

namespace DevUse

variable {sp : StoreParams σ} {totalBytes concurFlush : ℕ} {s s' : DevUse σ} {t : ℕ} {p p' : Client}
  {dev : DevState σ} {mu : OpLock} {shutdown : Bool}

lemma apart_enter (readOp : Bool) (buf : Bytes) (pos : ℕ) :
    (s.enter sp totalBytes readOp buf pos).Apart sp.segmentBytes := by
  unfold enter
  simp only
  split_ifs <;> exact ⟨rfl, rfl⟩

lemma apart_loop (segmentBytes : ℕ) (io : IoAt) : (s.loop io).Apart segmentBytes := by
  unfold DevUse.loop
  split_ifs <;> exact ⟨rfl, rfl⟩

lemma apart_flushed (err : Option GoError) : (DevUse.flushed sp err).Apart sp.segmentBytes := by
  unfold DevUse.flushed
  cases err with
  | some e => exact ⟨rfl, rfl⟩
  | none =>
    simp only
    split_ifs <;> exact ⟨rfl, rfl⟩

lemma apart_back {segmentBytes : ℕ} (h : p.inside segmentBytes ≠ none) (res : SegResult) :
    (p.back segmentBytes res).Apart segmentBytes := by
  cases p with
  | accessing io tries => exact io.apart_collect _ tries res
  | evicting io tries count idx => exact io.apart_evicted _ tries count res.err
  | deleting i err => exact ⟨rfl, rfl⟩
  | _ => exact absurd rfl h

lemma Advance.crosses (h : Advance sp totalBytes concurFlush s t p p' dev mu shutdown) :
    Crosses sp concurFlush s.dev t (p.inside sp.segmentBytes) (p'.inside sp.segmentBytes) dev := by
  cases h with
  | readAt _ => rw [(apart_enter ..).1]; exact .stays
  | writeAt _ => rw [(apart_enter ..).1]; exact .stays
  | flushShut _ _ => exact .stays
  | flush _ _ hdev => exact .starts hdev
  | close _ => exact .stays
  | loop => rw [(apart_loop ..).1]; exact .stays
  | access hdev => exact .calls hdev
  | scan _ => exact .stays
  | nothing _ => exact .stays
  | evict _ hdev => exact .calls hdev
  | flushed _ => exact .stays
  | closedBefore _ _ => exact .stays
  | shut _ _ hdev => exact .starts hdev
  | closeFlushed _ => rw [(apart_flushed _).1]; exact .stays
  | drop hdev => exact .calls hdev
  | dropped _ => exact .stays
  | move hin hdev => rw [hin]; exact .moves hdev
  | ret hin hc hdone hdev =>
    rw [(apart_back (by simp [hin]) _).1, hin]
    exact .rets hdev

/-- What a step of a client does to the flush it waits for. -/
inductive Awaits (sp : StoreParams σ) (concurFlush : ℕ) (s : DevState σ) :
    Option ℕ → Option ℕ → DevState σ → Prop
  | stays {o : Option ℕ} {s' : DevState σ} (hflushes : s'.flushes = s.flushes) :
      Awaits sp concurFlush s o o s'
  | starts {s' : DevState σ} (hstep : s.step sp concurFlush .flush = some s') :
      Awaits sp concurFlush s none (some s.flushes.length) s'
  | ends {f : ℕ} {err : Option GoError} (hflush : s.flushes[f]? = some (.returned err)) :
      Awaits sp concurFlush s (some f) none s

lemma Crosses.flushes {o o' : Option (ℕ × SegCall)} {s s' : DevState σ}
    (h : Crosses sp concurFlush s t o o' s') (hin : o ≠ none ∨ o' ≠ none) :
    s'.flushes = s.flushes := by
  cases h with
  | stays => rfl
  | starts _ => simp at hin
  | calls hstep => exact (DevState.goes_call hstep).flushes
  | moves hstep =>
    obtain ⟨call, q, -, -, hgoes⟩ := DevState.goes_move hstep
    exact hgoes.flushes
  | rets hstep => exact (DevState.goes_ret hstep).flushes

lemma flush?_of_inside {segmentBytes : ℕ} (h : p.inside segmentBytes ≠ none) : p.flush? = none := by
  cases p with
  | accessing io tries => rfl
  | evicting io tries count idx => rfl
  | deleting i err => rfl
  | _ => exact absurd rfl h

lemma Advance.awaits (h : Advance sp totalBytes concurFlush s t p p' dev mu shutdown) :
    Awaits sp concurFlush s.dev p.flush? p'.flush? dev := by
  have hcross := h.crosses
  cases h with
  | readAt _ => rw [(apart_enter ..).2]; exact .stays rfl
  | writeAt _ => rw [(apart_enter ..).2]; exact .stays rfl
  | flushShut _ _ => exact .stays rfl
  | flush _ _ hdev => exact .starts hdev
  | close _ => exact .stays rfl
  | loop => rw [(apart_loop sp.segmentBytes _).2]; exact .stays rfl
  | access hdev => exact .stays (DevState.goes_call hdev).flushes
  | scan _ => exact .stays rfl
  | nothing _ => exact .stays rfl
  | evict _ hdev => exact .stays (DevState.goes_call hdev).flushes
  | flushed hflush => exact .ends hflush
  | closedBefore _ _ => exact .stays rfl
  | shut _ _ hdev => exact .starts hdev
  | closeFlushed hflush => rw [(apart_flushed _).2]; exact .ends hflush
  | drop hdev => exact .stays (DevState.goes_call hdev).flushes
  | dropped _ => exact .stays rfl
  | move hin hdev => exact .stays (Crosses.flushes hcross (.inl (by simp [hin])))
  | ret hin _ _ hdev =>
    have hne : p.inside sp.segmentBytes ≠ none := by simp [hin]
    rw [flush?_of_inside hne, (apart_back hne _).2]
    exact .stays (DevState.goes_ret hdev).flushes

end DevUse

/-! ## All together -/

/-- Clients, flushes, goroutines and segments fit together. -/
structure Linked (sp : StoreParams σ) (s : DevUse σ) : Prop where
  locks : UseLocks s
  flushers : s.dev.Flushers
  inside : ∀ t i call, (s.clients t).inside sp.segmentBytes = some (i, call) →
    (s.dev.proc i (clientID t)).Serves call
  outside : ∀ t i, (∀ call, (s.clients t).inside sp.segmentBytes ≠ some (i, call)) →
    s.dev.proc i (clientID t) = .idle
  awaited : ∀ (f : ℕ) (state : FlushState), s.dev.flushes[f]? = some state →
    (∀ err, state ≠ .returned err) → ∃ t, (s.clients t).flush? = some f
  awaits : ∀ t f, (s.clients t).flush? = some f → f < s.dev.flushes.length
  checked : ∀ t, (s.clients t).Checked sp.segmentBytes s.dev.cells.length

namespace Linked

variable {sp : StoreParams σ} {totalBytes concurFlush : ℕ} {s s' : DevUse σ} {t : ℕ} {p : Client}
  {dev : DevState σ} {mu : OpLock} {shutdown : Bool}

lemma new (segments : List (Segment σ)) (w : World σ) : Linked sp (.new segments w) where
  locks := .new segments w
  flushers := .new segments w
  inside t i call h := by cases h
  outside t i _ := by
    unfold DevState.proc
    cases hc : (DevUse.new segments w).dev.cells[i]? with
    | none => rfl
    | some c =>
      obtain ⟨seg, -, rfl⟩ := List.mem_map.mp (List.mem_of_getElem? hc)
      rfl
  awaited f state h := by simp [DevUse.new, DevState.new] at h
  awaits t f h := by cases h
  checked t := trivial

/-- The goroutine of each client is in the segment the client waits for, and in no other. -/
def Placed (sp : StoreParams σ) (clients : ℕ → Client) (dev : DevState σ) : Prop :=
  (∀ u i call, (clients u).inside sp.segmentBytes = some (i, call) →
    (dev.proc i (clientID u)).Serves call) ∧
  ∀ u i, (∀ call, (clients u).inside sp.segmentBytes ≠ some (i, call)) →
    dev.proc i (clientID u) = .idle

lemma crosses (h : Linked sp s)
    (hcross : Crosses sp concurFlush s.dev t ((s.clients t).inside sp.segmentBytes)
      (p.inside sp.segmentBytes) dev) :
    dev.Flushers ∧ dev.cells.length = s.dev.cells.length ∧
      Placed sp (Function.update s.clients t p) dev := by
  -- the client stays in the call it is in, or outside of all
  have hstays : ∀ {dev : DevState σ}, (∀ i v, dev.proc i v = s.dev.proc i v) →
      (s.clients t).inside sp.segmentBytes = p.inside sp.segmentBytes →
      Placed sp (Function.update s.clients t p) dev := by
    intro dev hproc hsame
    have hin : ∀ u, (Function.update s.clients t p u).inside sp.segmentBytes =
        (s.clients u).inside sp.segmentBytes := by
      intro u
      rw [Function.update_apply]
      split_ifs with hu
      · rw [hu, hsame]
      · rfl
    refine ⟨fun u i call hu => ?_, fun u i hu => ?_⟩
    · rw [hproc]
      exact h.inside u i call (hin u ▸ hu)
    · rw [hproc]
      exact h.outside u i fun call => hin u ▸ hu call
  -- the goroutine of the client goes on in segment `i`
  have hgoes : ∀ {dev : DevState σ} {i : ℕ} {q : Proc σ}, DevState.Goes s.dev dev i t q →
      (∀ j call, j ≠ i → (s.clients t).inside sp.segmentBytes ≠ some (j, call)) →
      (∀ j call, p.inside sp.segmentBytes = some (j, call) → j = i ∧ q.Serves call) →
      ((∀ call, p.inside sp.segmentBytes ≠ some (i, call)) → q = .idle) →
      dev.Flushers ∧ dev.cells.length = s.dev.cells.length ∧
      Placed sp (Function.update s.clients t p) dev := by
    intro dev i q hg hold hnew hidle
    refine ⟨h.flushers.of_client hg.length hg.flushes hg.proc, hg.length, fun u j call hu => ?_,
      fun u j hu => ?_⟩
    · by_cases hut : u = t
      · subst hut
        rw [Function.update_self] at hu
        obtain ⟨rfl, hserves⟩ := hnew j call hu
        rwa [hg.proc, if_pos ⟨rfl, rfl⟩]
      · rw [Function.update_of_ne hut] at hu
        rw [hg.proc, if_neg fun hx => hut (clientID_injective hx.2)]
        exact h.inside u j call hu
    · by_cases hut : u = t
      · subst hut
        rw [Function.update_self] at hu
        rw [hg.proc]
        by_cases hji : j = i
        · rw [if_pos ⟨hji, rfl⟩]
          exact hidle (hji ▸ hu)
        · rw [if_neg fun hx => hji hx.1]
          exact h.outside u j fun call => hold j call hji
      · rw [Function.update_of_ne hut] at hu
        rw [hg.proc, if_neg fun hx => hut (clientID_injective hx.2)]
        exact h.outside u j hu
  generalize hold : (s.clients t).inside sp.segmentBytes = old at hcross
  generalize hnew : p.inside sp.segmentBytes = new at hcross
  rw [hold, hnew] at hstays hgoes
  cases hcross with
  | stays => exact ⟨h.flushers, rfl, hstays (fun _ _ => rfl) rfl⟩
  | starts hstep =>
    have hflushers := h.flushers.of_flush hstep
    obtain rfl := Option.some.inj hstep
    exact ⟨hflushers, rfl, hstays (fun _ _ => rfl) rfl⟩
  | @calls i made _ hstep =>
    refine hgoes (DevState.goes_call hstep) (fun _ _ _ => by simp) ?_ fun hnot =>
      absurd rfl (hnot made)
    rintro j call ⟨⟩
    exact ⟨rfl, .inl rfl⟩
  | @moves i made _ hstep =>
    obtain ⟨call, q, hcall, hserves, hg⟩ := DevState.goes_move hstep
    obtain rfl := (h.inside t i made hold).call_eq hcall
    refine hgoes hg ?_ ?_ fun hnot => absurd rfl (hnot call)
    · rintro j call hji ⟨⟩
      exact hji rfl
    · rintro j call ⟨⟩
      exact ⟨rfl, hserves⟩
  | @rets i made _ hstep =>
    refine hgoes (DevState.goes_ret hstep) ?_ (fun _ _ hx => by cases hx) fun _ => rfl
    rintro j call hji ⟨⟩
    exact hji rfl

lemma awaits_update (h : Linked sp s)
    (hawaits : DevUse.Awaits sp concurFlush s.dev (s.clients t).flush? p.flush? dev) :
    (∀ (f : ℕ) (state : FlushState), dev.flushes[f]? = some state → (∀ err, state ≠ .returned err) →
        ∃ u, (Function.update s.clients t p u).flush? = some f) ∧
      ∀ u f, (Function.update s.clients t p u).flush? = some f → f < dev.flushes.length := by
  generalize hold : (s.clients t).flush? = old at hawaits
  generalize hnew : p.flush? = new at hawaits
  have hflush? : ∀ u, (Function.update s.clients t p u).flush? =
      if u = t then new else (s.clients u).flush? := by
    intro u
    rw [Function.update_apply, ← hnew]
    split_ifs <;> rfl
  cases hawaits with
  | stays hflushes =>
    have hsame : ∀ u, (Function.update s.clients t p u).flush? = (s.clients u).flush? := by
      intro u
      rw [hflush?]
      split_ifs with hu
      · rw [hu, hold]
      · rfl
    simp only [hsame, hflushes]
    exact ⟨h.awaited, h.awaits⟩
  | starts hstep =>
    obtain rfl := Option.some.inj hstep
    -- the flush it starts is the last of the list, and awaited by the client itself
    refine ⟨fun f state hf hstate => ?_, fun u f hu => ?_⟩
    · rw [List.getElem?_append] at hf
      split_ifs at hf with hlt
      · obtain ⟨u, hu⟩ := h.awaited f state hf hstate
        refine ⟨u, ?_⟩
        rw [hflush?, if_neg, hu]
        rintro rfl
        simp [hold] at hu
      · have hlen : f - s.dev.flushes.length < 1 := (List.getElem?_eq_some_iff.mp hf).1
        refine ⟨t, ?_⟩
        rw [hflush?, if_pos rfl]
        congr 1
        omega
    · rw [List.length_append, List.length_singleton]
      rw [hflush?] at hu
      split_ifs at hu with hut
      · obtain rfl := Option.some.inj hu
        exact Nat.lt_succ_self _
      · exact (h.awaits u f hu).trans (Nat.lt_succ_self _)
  | @ends f err hflush =>
    -- only a flush that has returned is awaited no longer
    refine ⟨fun g state hg hstate => ?_, fun u g hu => ?_⟩
    · obtain ⟨u, hu⟩ := h.awaited g state hg hstate
      refine ⟨u, ?_⟩
      rw [hflush?, if_neg, hu]
      rintro rfl
      obtain rfl : f = g := Option.some.inj (hold.symm.trans hu)
      exact hstate err (Option.some.inj (hg.symm.trans hflush))
    · rw [hflush?] at hu
      split_ifs at hu
      exact h.awaits u g hu

/-- What the loops have checked after a step of a client. -/
lemma checked_advance (h : Linked sp s) (hpos : 0 < sp.segmentBytes)
    (hadv : DevUse.Advance sp totalBytes concurFlush s t (s.clients t) p dev mu shutdown) :
    p.Checked sp.segmentBytes s.dev.cells.length := by
  have hold := h.checked t
  have hin := h.inside t
  generalize s.clients t = old at hadv hold hin
  have henter : ∀ readOp buf pos,
      (s.enter sp totalBytes readOp buf pos).Checked sp.segmentBytes s.dev.cells.length := by
    intro readOp buf pos
    unfold DevUse.enter
    simp only
    split_ifs
    · exact trivial
    · exact trivial
    · exact Nat.mod_lt _ hpos
  cases hadv with
  | readAt _ => exact henter _ _ _
  | writeAt _ => exact henter _ _ _
  | flushShut _ _ => exact trivial
  | flush _ _ _ => exact trivial
  | close _ => exact trivial
  | @loop io =>
    unfold DevUse.loop
    split_ifs with hrest hseg
    · exact trivial
    · exact trivial
    · exact ⟨hold, hrest, by omega⟩
  | access _ => exact hold
  | scan _ => exact hold
  | nothing _ => exact trivial
  | evict _ _ => exact hold
  | flushed _ => exact trivial
  | closedBefore _ _ => exact trivial
  | shut _ _ _ => exact trivial
  | @closeFlushed f err _ =>
    unfold DevUse.flushed
    cases err with
    | some e => exact trivial
    | none =>
      simp only
      split_ifs <;> exact trivial
  | drop _ => exact trivial
  | dropped _ => exact trivial
  | move _ _ => exact hold
  | @ret _ i call res c _ hinside hc hdone _ =>
    cases old with
    | accessing io tries =>
      obtain ⟨rfl, rfl⟩ := Prod.mk.inj (Option.some.inj hinside)
      have hserves := hin io.segID (io.call sp.segmentBytes) rfl
      rw [DevState.proc_eq hc] at hserves
      exact IoAt.checked_collect hold hpos tries (hserves.answers hdone)
    | evicting io tries count idx => exact IoAt.checked_evicted hold tries count res.err
    | deleting i err => exact trivial
    | _ => cases hinside

lemma advance (h : Linked sp s) (hpos : 0 < sp.segmentBytes)
    (hadv : DevUse.Advance sp totalBytes concurFlush s t (s.clients t) p dev mu shutdown) :
    Linked sp ⟨dev, mu, shutdown, Function.update s.clients t p⟩ := by
  obtain ⟨hflushers, hlen, hinside, houtside⟩ := h.crosses hadv.crosses
  obtain ⟨hawaited, hawaits⟩ := h.awaits_update hadv.awaits
  refine ⟨h.locks.passes hadv.passes, hflushers, hinside, houtside, hawaited, hawaits, fun u => ?_⟩
  simp only [hlen]
  by_cases hu : u = t
  · subst hu
    rw [Function.update_self]
    exact h.checked_advance hpos hadv
  · rw [Function.update_of_ne hu]
    exact h.checked u

lemma goto (h : Linked sp s) {mu : OpLock} (hlocks : UseLocks ({ s with mu }.goto t p))
    (hold : (s.clients t).Apart sp.segmentBytes) (hnew : p.Apart sp.segmentBytes)
    (hchecked : p.Checked sp.segmentBytes s.dev.cells.length) :
    Linked sp ({ s with mu }.goto t p) := by
  have hcross : Crosses sp 0 s.dev t ((s.clients t).inside sp.segmentBytes)
      (p.inside sp.segmentBytes) s.dev := by
    rw [hold.1, hnew.1]
    exact .stays
  have haw : DevUse.Awaits sp 0 s.dev (s.clients t).flush? p.flush? s.dev := by
    rw [hold.2, hnew.2]
    exact .stays rfl
  obtain ⟨hflushers, -, hinside, houtside⟩ := h.crosses hcross
  obtain ⟨hawaited, hawaits⟩ := h.awaits_update haw
  refine ⟨hlocks, hflushers, hinside, houtside, hawaited, hawaits, fun u => ?_⟩
  simp only [DevUse.goto]
  by_cases hu : u = t
  · subst hu
    rwa [Function.update_self]
  · rw [Function.update_of_ne hu]
    exact h.checked u

lemma ofFlush (h : Linked sp s) {e : DevEvent} (he : e.OfFlush)
    (hstep : s.dev.step sp concurFlush e = some dev) : Linked sp { s with dev } := by
  obtain ⟨f, old, new, hold, hflushes, hmove⟩ := DevState.step_ofFlush he hstep
  have hproc := hmove.proc_client
  refine ⟨⟨h.locks.readers, h.locks.writer, h.locks.owning, h.locks.working⟩,
    h.flushers.of_move hold hflushes hmove, fun t i call ht => ?_, fun t i ht => ?_,
    fun g state hg hstate => ?_, fun t g hg => ?_, fun t => ?_⟩
  · rw [hproc]
    exact h.inside t i call ht
  · rw [hproc]
    exact h.outside t i ht
  · rcases getElem?_set_cases (hflushes ▸ hg) with ⟨rfl, rfl⟩ | ⟨-, hg⟩
    · exact h.awaited f old hold hmove.unfinished
    · exact h.awaited g state hg hstate
  · rw [hflushes, List.length_set]
    exact h.awaits t g hg
  · rw [hmove.length_eq]
    exact h.checked t

lemma step (h : Linked sp s) (hpos : 0 < sp.segmentBytes) {e : UseEvent}
    (hstep : s.step sp totalBytes concurFlush e = some s') : Linked sp s' := by
  cases DevUse.step_stepped hstep with
  | @call t call hp =>
    exact h.goto (h.locks.call hp call) (by rw [hp]; exact ⟨rfl, rfl⟩) ⟨rfl, rfl⟩ trivial
  | advance hadv => exact h.advance hpos hadv
  | flush he hdev => exact h.ofFlush he hdev
  | @ret t res hp =>
    exact h.goto (h.locks.release t) (by rw [hp]; exact ⟨rfl, rfl⟩) ⟨rfl, rfl⟩ trivial

end Linked

end Usbd
