import Usbd.Nbd.Pools

/-!
# Every request is answered once

A reply is the header with the request's handle and an error code, followed for a read by what is in
the read buffer.  It is put together in pieces: the device fills the buffer, `execute` builds the
header, and the writer sends both, with queues in between and the objects going back to their pools.

`Answering` follows a response object from the end of `execute` to the stream.  While it is on its
way nobody writes to it, it answers one position, and a position is through `execute` exactly when
its answer is on the way or written.  `replies_exactly_once` reads the result off.
-/

namespace Usbd

open Ownership

/-! ## No disconnect is handed on -/

namespace ReqProc

/-- The requests behind the reader are none of them a disconnect. -/
structure Serves (s : ReqProc) : Prop where
  waiting : ∀ t ∈ s.waiting, t.req.reqType ≠ nbdDisconnect
  running : ∀ w t pc, s.workers w = .running t pc → t.req.reqType ≠ nbdDisconnect

variable {blockSize : ℤ} {stream : List Request} {n : ℕ} {s s' : ReqProc}

lemma Serves.init : Serves init := ⟨by simp [ReqProc.waiting, ReqProc.init], by simp [ReqProc.init]⟩

lemma Serves.decodeReq (h : Serves s) {req : Request} (hstep : s.decodeReq req = some s') :
    Serves s' := by
  obtain ⟨locks, epoch, pending, done, rfl, ⟨rfl, hreq⟩ | rfl⟩ := decodeReq_frame hstep
  · refine ⟨fun u hu => ?_, h.running⟩
    rcases List.mem_append.mp hu with hu | hu
    · exact h.waiting u (List.mem_append_left _ hu)
    · obtain rfl := List.mem_singleton.mp hu
      exact hreq
  · exact ⟨h.waiting, h.running⟩

lemma Serves.update (h : Serves s) {w : ℕ} {x : Worker}
    (hx : ∀ t pc, x = .running t pc → t.req.reqType ≠ nbdDisconnect)
    (hwaiting : ∀ u ∈ s'.waiting, u ∈ s.waiting)
    (hworkers : s'.workers = Function.update s.workers w x) : Serves s' := by
  refine ⟨fun u hu => h.waiting u (hwaiting u hu), ?_⟩
  rw [hworkers]
  apply (Function.forall_update_iff s.workers fun _ x => ∀ t pc, x = .running t pc →
    t.req.reqType ≠ nbdDisconnect).mpr
  exact ⟨hx, fun w' _ => h.running w'⟩

lemma Serves.step (h : Serves s) {e : ProcEvent} (hstep : s.step blockSize stream n e = some s') :
    Serves s' := by
  rcases step_cases hstep with ⟨req, -, hdec⟩ | ⟨w, t, pc, -, hw, hmoves⟩ | ⟨hs, -⟩
  · exact h.decodeReq hdec
  · have hgoes : ∀ u p pc', Worker.running t pc' = .running u p →
        u.req.reqType ≠ nbdDisconnect := by
      rintro u p pc' ⟨⟩
      exact h.running w t pc hw
    cases hmoves with
    | refuses _ _ _ => exact h.update (fun _ _ hx => by cases hx) (fun u hu => hu) rfl
    | releases _ _ => exact h.update (fun _ _ hx => by cases hx) (fun u hu => hu) rfl
    | leaves _ => exact h.update (fun _ _ hx => by cases hx) (fun u hu => hu) rfl
    | _ => exact h.update (fun u p hx => hgoes u p _ hx) (fun u hu => hu) rfl
  · rcases hs.workers with hworkers | ⟨w, -, t, ht, hworkers⟩
    · refine ⟨fun u hu => h.waiting u (hs.waiting u hu), ?_⟩
      rw [hworkers]
      exact h.running
    · refine h.update ?_ hs.waiting hworkers
      rintro u p ⟨⟩
      exact h.waiting t ht

end ReqProc

/-! ## Replies -/

/-- The error code and the contents of the read buffer a request is due, by what the device has
answered. -/
def Request.Due (req : Request) (blockSize : ℤ) (ans : Option DevAnswer) (code : NbdErr)
    (buf : Bytes) : Prop :=
  if req.Reaches blockSize then
    ∃ a ∈ ans, code = ioErrCode a.err ∧ (req.reqType = nbdRead → a.err = none → buf = a.data)
  else code = ndbRespErrInvalid

/-- The bytes on the stream are a reply to the request: its handle, the error code it is due, and
for a read that has succeeded the data. -/
def Request.RepliedBy (req : Request) (blockSize : ℤ) (ans : Option DevAnswer) (bytes : Bytes) :
    Prop :=
  ∃ code buf, req.Due blockSize ans code buf ∧
    bytes = replyHeader req code ++ if req.reqType = nbdRead then buf else []

/-- The response object of a worker that is through `execute`. -/
def PoolWorker.answer? : PoolWorker → Option ℕ
  | executed _ b => some b
  | refused _ b => some b
  | blocked b => some b
  | _ => none

/-- The response object the writer is to write. -/
def PoolWriter.answer? : PoolWriter → Option ℕ
  | writing b => some b
  | _ => none

lemma PoolWorker.resp?_of_answer? {x : PoolWorker} {b : ℕ} (h : x.answer? = some b) :
    x.resp? = some b := by
  cases x <;> first | exact h | cases h

lemma PoolWriter.resp?_of_answer? {x : PoolWriter} {b : ℕ} (h : x.answer? = some b) :
    x.resp? = some b := by
  cases x <;> first | exact h | cases h

namespace PoolProc

section Statements

variable (blockSize : ℤ) (stream : List Request) (s : PoolProc)

/-- The responses that are on their way and in no worker's hands. -/
def transit : List ℕ := s.respQueue ++ s.writer.answer?.toList

/-- A response is on its way from the end of `execute` to the stream. -/
def InTransit (b : ℕ) : Prop := Placed s.transit (PoolWorker.answer? ∘ s.workers) b

/-- The positions that have been replied to, in the order of the replies. -/
def answered : List ℕ := s.replies.map Prod.fst

/-- What a worker inside `execute` has done so far. -/
structure Doing (a b : ℕ) (pc : Pc) (code : NbdErr) : Prop where
  called : pc = .inDev → (s.reqs a).req.Reaches blockSize
  sized : pc = .inDev → (s.reqs a).req.reqType = nbdRead →
    (s.resps b).readBuffer.len = (s.reqs a).req.count
  due : pc = .returned → (s.reqs a).req.Due blockSize (s.answers (s.reqs a).idx) code
    (s.resps b).readBuffer.bytes

/-- The writer has taken every response off the queue, and written it. -/
def Drained : Prop := s.respQueue = [] ∧ s.writer.answer? = none

instance : Decidable s.Drained := inferInstanceAs (Decidable (_ ∧ _))

/-- What is in a response on its way. -/
structure Carries (b : ℕ) (req : Request) (code : NbdErr) : Prop where
  req_eq : stream[s.replyOf b]? = some req
  kind : req.reqType ≠ nbdDisconnect
  header : (s.resps b).respBuffer = replyHeader req code
  reqType : (s.resps b).reqType = req.reqType
  due : req.Due blockSize (s.answers (s.replyOf b)) code (s.resps b).readBuffer.bytes

/-- Answers on their way and answers written. -/
structure Answering : Prop where
  doing : ∀ w a b pc code, s.workers w = .running a b pc code → Doing blockSize s a b pc code
  carries : ∀ b, s.InTransit b → ∃ req code, Carries blockSize stream s b req code
  replied : ∀ i bytes, (i, bytes) ∈ s.replies → ∃ req, stream[i]? = some req ∧
    req.reqType ≠ nbdDisconnect ∧ req.RepliedBy blockSize (s.answers i) bytes
  once : s.answered.Nodup
  apart : ∀ b, s.InTransit b → s.replyOf b ∉ s.answered
  inj : ∀ b b', s.InTransit b → s.InTransit b' → s.replyOf b = s.replyOf b' → b = b'
  finished : ∀ i, i ∈ s.finished ↔ i ∈ s.answered ∨ ∃ b, s.InTransit b ∧ s.replyOf b = i

end Statements

variable {blockSize : ℤ} {stream : List Request} {n : ℕ} {s s' s₁ : PoolProc} {w a b : ℕ}
  {pc : Pc} {code : NbdErr}

lemma Doing.congr (h : Doing blockSize s a b pc code) (hreqs : s'.reqs a = s.reqs a)
    (hresps : s'.resps b = s.resps b)
    (hans : pc = .returned → s'.answers (s.reqs a).idx = s.answers (s.reqs a).idx) :
    Doing blockSize s' a b pc code := by
  refine ⟨?_, ?_, fun hpc => ?_⟩
  · rw [hreqs]
    exact h.called
  · rw [hreqs, hresps]
    exact h.sized
  · rw [hreqs, hresps, hans hpc]
    exact h.due hpc

lemma Carries.congr {req : Request} (h : Carries blockSize stream s b req code)
    (hof : s'.replyOf b = s.replyOf b) (hresps : s'.resps b = s.resps b)
    (hans : s'.answers (s.replyOf b) = s.answers (s.replyOf b)) :
    Carries blockSize stream s' b req code := by
  refine ⟨?_, h.kind, ?_, ?_, ?_⟩
  · rw [hof]
    exact h.req_eq
  · rw [hresps]
    exact h.header
  · rw [hresps]
    exact h.reqType
  · rw [hof, hresps, hans]
    exact h.due

lemma Answering.init : Answering blockSize stream init where
  doing w a b pc code hw := by cases hw
  carries b hb := by simp [InTransit, Placed, transit, PoolProc.init, PoolWorker.answer?,
    PoolWriter.answer?] at hb
  replied i bytes hmem := by cases hmem
  once := List.nodup_nil
  apart b _ := List.not_mem_nil
  inj b b' hb := by simp [InTransit, Placed, transit, PoolProc.init, PoolWorker.answer?,
    PoolWriter.answer?] at hb
  finished i := by simp [InTransit, Placed, transit, answered, PoolProc.init, PoolWorker.answer?,
    PoolWriter.answer?]

/-! ## Nobody writes to a response on its way -/

lemma mem_of_mem_transit (hmem : b ∈ s.transit) (respPool : List ℕ) :
    b ∈ respPool ++ s.respQueue ++ s.writer.resp?.toList := by
  rcases List.mem_append.mp hmem with hq | hwr
  · exact List.mem_append_left _ (List.mem_append_right _ hq)
  · have hwriter := PoolWriter.resp?_of_answer? (Option.mem_toList.mp hwr)
    exact List.mem_append_right _ (Option.mem_toList.mpr hwriter)

lemma Owned.ne_of_inTransit (h : Owned s) (hw : s.workers w = .running a b pc code) {b' : ℕ}
    (hb' : s.InTransit b') : b' ≠ b := by
  have hheld : (PoolWorker.resp? ∘ s.workers) w = some b := by simp [hw, PoolWorker.resp?]
  rintro rfl
  rcases hb' with hmem | ⟨w', hw'⟩
  · exact h.resps.held_notMem w b' hheld (mem_of_mem_transit hmem _)
  · obtain rfl := h.resps.held_inj w' w b' (PoolWorker.resp?_of_answer? hw') hheld
    simp [hw, PoolWorker.answer?] at hw'

lemma Owned.ne_of_running (h : Owned s) (hw : s.workers w = .running a b pc code) {w' c d : ℕ}
    {pc' : Pc} {code' : NbdErr} (hw' : s.workers w' = .running c d pc' code') (hne : w' ≠ w) :
    d ≠ b := by
  have hheld : (PoolWorker.resp? ∘ s.workers) w = some b := by simp [hw, PoolWorker.resp?]
  have hheld' : (PoolWorker.resp? ∘ s.workers) w' = some d := by simp [hw', PoolWorker.resp?]
  rintro rfl
  exact hne (h.resps.held_inj w' w d hheld' hheld)

/-- A step after which the same answers are on their way, with the same in them. -/
lemma Answering.move (h : Answering blockSize stream s)
    (hdoing : ∀ w a b pc code, s'.workers w = .running a b pc code →
      Doing blockSize s' a b pc code)
    (htransit : ∀ b, s'.InTransit b ↔ s.InTransit b)
    (hresps : ∀ b, s.InTransit b → s'.resps b = s.resps b)
    (hans : ∀ i ∈ s.finished, s'.answers i = s.answers i) (hof : s'.replyOf = s.replyOf)
    (hreplies : s'.replies = s.replies) (hfin : s'.finished = s.finished) :
    Answering blockSize stream s' := by
  have hanswered : s'.answered = s.answered := by rw [answered, hreplies, answered]
  refine ⟨hdoing, fun b hb => ?_, fun i bytes hmem => ?_, ?_, fun b hb => ?_, fun b b' hb hb' => ?_,
    fun i => ?_⟩
  · rw [htransit] at hb
    obtain ⟨req, code, hc⟩ := h.carries b hb
    have hfinished := (h.finished (s.replyOf b)).mpr (Or.inr ⟨b, hb, rfl⟩)
    exact ⟨req, code, hc.congr (congrFun hof b) (hresps b hb) (hans _ hfinished)⟩
  · rw [hreplies] at hmem
    have hfinished := (h.finished i).mpr (Or.inl (List.mem_map_of_mem hmem))
    rw [hans i hfinished]
    exact h.replied i bytes hmem
  · rw [hanswered]
    exact h.once
  · rw [hanswered, hof]
    exact h.apart b ((htransit b).mp hb)
  · rw [hof]
    exact h.inj b b' ((htransit b).mp hb) ((htransit b').mp hb')
  · simp only [hfin, hanswered, htransit, hof]
    exact h.finished i

/-! ## Inside `execute` -/

lemma abs_running (hw : s.workers w = .running a b pc code) :
    s.abs.workers w = .running (s.reqs a) pc := by
  rw [abs_workers, hw]
  rfl

section Steps

variable (h : Answering blockSize stream s)

include h

/-- A worker goes on within `execute`.  It writes to its own response only, and the device's answer
is that to its own request. -/
lemma Answering.goesOn (hsim : Simulated blockSize stream n s)
    (hw : s.workers w = .running a b pc code) {pc' : Pc} {code' : NbdErr} {resps : ℕ → Response}
    {answers : ℕ → Option DevAnswer} {returned : Finset ℕ} {locks : ℕ → RWMutex}
    (hresps : ∀ b', b' ≠ b → resps b' = s.resps b')
    (hans : ∀ i, i ≠ (s.reqs a).idx → answers i = s.answers i)
    (hdoing : Doing blockSize { s with resps, answers } a b pc' code') :
    Answering blockSize stream { s with
      workers := Function.update s.workers w (.running a b pc' code')
      resps, answers, returned, locks } := by
  have hrunning := abs_running hw
  refine h.move ?_ (fun b' => ?_) (fun b' hb' => ?_) (fun i hi => ?_) rfl rfl rfl
  · apply (Function.forall_update_iff s.workers fun _ x => ∀ c d p k, x = .running c d p k →
      Doing blockSize _ c d p k).mpr
    constructor
    · rintro c d p k ⟨⟩
      exact ⟨hdoing.called, hdoing.sized, hdoing.due⟩
    · intro w' hne c d p k hw'
      have hd := hsim.owned.ne_of_running hw hw' hne
      have hidx : (s.reqs c).idx ≠ (s.reqs a).idx := fun heq =>
        hne (hsim.kept.inv.running_inj w' w _ _ _ _ (abs_running hw') hrunning heq)
      exact (h.doing w' c d p k hw').congr rfl (hresps d hd) fun _ => hans _ hidx
  · have hcomp : PoolWorker.answer? ∘ Function.update s.workers w (.running a b pc' code') =
        PoolWorker.answer? ∘ s.workers := comp_update_eq (by simp [hw, PoolWorker.answer?])
    simp only [InTransit, transit, hcomp]
  · exact hresps b' (hsim.owned.ne_of_inTransit hw hb')
  · apply hans
    rintro rfl
    exact hsim.kept.ledger.running w _ _ hrunning hi

/-- One more answer is on its way, in an object that was not. -/
lemma Answering.add {i : ℕ} (hnew : i ∉ s.finished)
    (hdoing : ∀ w a b pc code, s'.workers w = .running a b pc code → Doing blockSize s' a b pc code)
    (hcarries : ∃ req code, Carries blockSize stream s' b req code)
    (htransit : ∀ b', s'.InTransit b' ↔ b' = b ∨ s.InTransit b')
    (hne : ∀ b', s.InTransit b' → b' ≠ b) (hresps : ∀ b', b' ≠ b → s'.resps b' = s.resps b')
    (hof : s'.replyOf = Function.update s.replyOf b i) (hans : s'.answers = s.answers)
    (hreplies : s'.replies = s.replies) (hfin : s'.finished = insert i s.finished) :
    Answering blockSize stream s' := by
  have hanswered : s'.answered = s.answered := by rw [answered, hreplies, answered]
  have hself : s'.replyOf b = i := by rw [hof, Function.update_self]
  have hothers : ∀ b', s.InTransit b' → s'.replyOf b' = s.replyOf b' := fun b' hb' => by
    rw [hof, Function.update_of_ne (hne b' hb')]
  rw [h.finished, not_or] at hnew
  obtain ⟨hunanswered, hfree⟩ := hnew
  refine ⟨hdoing, fun b' hb' => ?_, ?_, ?_, fun b' hb' => ?_, fun b₁ b₂ h₁ h₂ heq => ?_,
    fun j => ?_⟩
  · rcases (htransit b').mp hb' with rfl | hold
    · exact hcarries
    · obtain ⟨req, k, hc⟩ := h.carries b' hold
      exact ⟨req, k, hc.congr (hothers b' hold) (hresps b' (hne b' hold)) (congrFun hans _)⟩
  · rw [hreplies, hans]
    exact h.replied
  · rw [hanswered]
    exact h.once
  · rw [hanswered]
    rcases (htransit b').mp hb' with rfl | hold
    · rw [hself]
      exact hunanswered
    · rw [hothers b' hold]
      exact h.apart b' hold
  · rcases (htransit b₁).mp h₁ with rfl | hold₁ <;> rcases (htransit b₂).mp h₂ with rfl | hold₂
    · rfl
    · rw [hself, hothers b₂ hold₂] at heq
      exact absurd ⟨b₂, hold₂, heq.symm⟩ hfree
    · rw [hself, hothers b₁ hold₁] at heq
      exact absurd ⟨b₁, hold₁, heq⟩ hfree
    · rw [hothers b₁ hold₁, hothers b₂ hold₂] at heq
      exact h.inj b₁ b₂ hold₁ hold₂ heq
  · have hnow : (∃ b', s'.InTransit b' ∧ s'.replyOf b' = j) ↔
        j = i ∨ ∃ b', s.InTransit b' ∧ s.replyOf b' = j := by
      simp only [htransit, or_and_right, exists_or, exists_eq_left, hself, eq_comm (a := j)]
      refine or_congr_right (exists_congr fun b' => and_congr_right fun hold => ?_)
      rw [hothers b' hold]
    rw [hfin, Finset.mem_insert, h.finished, hanswered, hnow, or_left_comm]

lemma Answering.finish (hsim : Simulated blockSize stream n s) (hserves : s.abs.Serves)
    (hw : s.workers w = .running a b pc code) {code' : NbdErr} {locks : ℕ → RWMutex}
    {released : Finset ℕ}
    (hdue : (s.reqs a).req.Due blockSize (s.answers (s.reqs a).idx) code'
      (s.resps b).readBuffer.bytes) :
    Answering blockSize stream { s.finish w a b code' with locks, released } := by
  have hrunning := abs_running hw
  have hreq := (hsim.kept.inv.running w _ _ hrunning).req_eq
  have hresps : ∀ b', b' ≠ b → Function.update s.resps b ((s.resps b).set (s.reqs a).req code') b' =
      s.resps b' := fun b' hne => Function.update_of_ne hne _ _
  refine h.add (hsim.kept.ledger.running w _ _ hrunning) ?_
    ⟨(s.reqs a).req, code', ?_, hserves.running w _ _ hrunning, ?_, ?_, ?_⟩ (fun b' => ?_)
    (fun b' => hsim.owned.ne_of_inTransit hw) hresps rfl rfl rfl rfl
  · apply (Function.forall_update_iff s.workers fun _ x => ∀ c d p k, x = .running c d p k →
      Doing blockSize _ c d p k).mpr
    refine ⟨fun c d p k hx => (by cases hx), fun w' hne c d p k hw' => ?_⟩
    have hd := hsim.owned.ne_of_running hw hw' hne
    exact (h.doing w' c d p k hw').congr rfl (hresps d hd) fun _ => rfl
  · simpa [PoolProc.finish] using hreq
  · simp [PoolProc.finish, setResp, setWorker, Response.set]
  · simp [PoolProc.finish, setResp, setWorker, Response.set]
  · simpa [PoolProc.finish, setResp, setWorker, Response.set] using hdue
  · have hanswer : (s.workers w).answer? = none := by
      rw [hw]
      rfl
    exact (placed_take_comp hanswer rfl).trans placed_cons

lemma Answering.acts (hsim : Simulated blockSize stream n s) (hserves : s.abs.Serves)
    (hw : s.workers w = .running a b pc code) {ans : DevAnswer}
    (hacts : Acts blockSize s w a b ans pc code s') : Answering blockSize stream s' := by
  have hdoing := h.doing w a b pc code hw
  cases hacts with
  | waits hpc hpc' =>
    exact h.goesOn hsim hw (fun _ _ => rfl) (fun _ _ => rfl)
      ⟨fun hp => absurd hp hpc, fun hp => absurd hp hpc, fun hp => absurd hp hpc'⟩
  | enters hreach =>
    have hcalled : (s.reqs a).req.Reaches blockSize := by
      rcases hreach with rfl | hreach
      · exact Or.inr (Or.inl ((hsim.kept.inv.running w _ _ (abs_running hw)).kind (by simp)))
      · exact hreach
    unfold enter
    split_ifs with hread
    · refine h.goesOn hsim hw (fun b' hne => Function.update_of_ne hne _ _) (fun _ _ => rfl)
        ⟨fun _ => hcalled, fun _ _ => ?_, fun hp => by cases hp⟩
      simp [setResp, Response.getReadBuffer]
    · exact h.goesOn hsim hw (fun _ _ => rfl) (fun _ _ => rfl)
        ⟨fun _ => hcalled, fun _ hr => absurd hr hread, fun hp => by cases hp⟩
  | refuses hout =>
    apply h.finish hsim hserves hw
    rw [Request.Due, if_neg hout]
  | returns hfits =>
    have hcalled := hdoing.called rfl
    have hans : ∀ i, i ≠ (s.reqs a).idx →
        Function.update s.answers (s.reqs a).idx (some ans) i = s.answers i := fun i hne =>
      Function.update_of_ne hne _ _
    unfold devReturn
    split_ifs with hread
    · refine h.goesOn hsim hw (fun b' hne => Function.update_of_ne hne _ _) hans
        ⟨fun hp => (by cases hp), fun hp => (by cases hp), fun _ => ?_⟩
      rw [Request.Due, if_pos hcalled]
      refine ⟨ans, by simp, rfl, fun _ herr => ?_⟩
      have hlen : ans.data.length = (s.resps b).readBuffer.len := by
        rw [hdoing.sized rfl hread]
        exact (hfits hread).2 herr
      simpa [setResp, setWorker] using Slice.bytes_fill_of_length_eq hlen
    · refine h.goesOn hsim hw (fun _ _ => rfl) hans
        ⟨fun hp => (by cases hp), fun hp => (by cases hp), fun _ => ?_⟩
      rw [Request.Due, if_pos hcalled]
      exact ⟨ans, by simp, rfl, fun hr => absurd hr hread⟩
  | leaves => exact h.finish hsim hserves hw (hdoing.due rfl)

/-! ## Towards the stream -/

/-- A worker goes on outside `execute` and keeps the answer it has. -/
lemma Answering.keeps {x : PoolWorker} (hrun : ∀ a b pc code, x ≠ .running a b pc code)
    (hx : x.answer? = (s.workers w).answer?) {reqPool reqQueue : List ℕ} :
    Answering blockSize stream { s.setWorker w x with reqPool, reqQueue } := by
  refine h.move ?_ (fun b' => ?_) (fun _ _ => rfl) (fun _ _ => rfl) rfl rfl rfl
  · apply (Function.forall_update_iff s.workers fun _ x => ∀ c d p k, x = .running c d p k →
      Doing blockSize _ c d p k).mpr
    refine ⟨fun c d p k hc => absurd hc (hrun c d p k), fun w' _ c d p k hw' => ?_⟩
    exact (h.doing w' c d p k hw').congr rfl rfl fun _ => rfl
  · have hcomp : PoolWorker.answer? ∘ Function.update s.workers w x =
        PoolWorker.answer? ∘ s.workers := comp_update_eq hx
    simp only [InTransit, transit, setWorker, hcomp]

lemma Answering.enqueueResp {x : PoolWorker} (hrun : ∀ a b pc code, x ≠ .running a b pc code)
    (hx : x.answer? = none) (hanswer : (s.workers w).answer? = some b) :
    Answering blockSize stream { s.setWorker w x with respQueue := s.respQueue ++ [b] } := by
  refine h.move ?_ (fun b' => ?_) (fun _ _ => rfl) (fun _ _ => rfl) rfl rfl rfl
  · apply (Function.forall_update_iff s.workers fun _ x => ∀ c d p k, x = .running c d p k →
      Doing blockSize _ c d p k).mpr
    refine ⟨fun c d p k hc => absurd hc (hrun c d p k), fun w' _ c d p k hw' => ?_⟩
    exact (h.doing w' c d p k hw').congr rfl rfl fun _ => rfl
  · refine (placed_perm ?_).trans (placed_give_comp hanswer hx)
    exact (List.perm_append_singleton b s.respQueue).append_right _

lemma Answering.fetch (hw : s.workers w = .taken a) {respPool : List ℕ} {respsMade : ℕ}
    {resps : ℕ → Response} (hresps : ∀ b', b' ≠ b → resps b' = s.resps b')
    (hnew : Exclusive (b :: (respPool ++ s.respQueue ++ s.writer.resp?.toList))
      (PoolWorker.resp? ∘ s.workers) respsMade) :
    Answering blockSize stream ({ s with respPool, respsMade, resps }.setWorker w
      (.running a b .start nbdRespSuccess)) := by
  have hheld : ∀ w' d, (s.workers w').resp? = some d → d ≠ b := by
    rintro w' d hd rfl
    exact hnew.held_notMem w' d hd (List.mem_cons_self ..)
  have hne : ∀ b', s.InTransit b' → b' ≠ b := by
    rintro b' (hmem | ⟨w', hw'⟩)
    · rintro rfl
      exact (List.nodup_cons.mp hnew.nodup).1 (mem_of_mem_transit hmem _)
    · exact hheld w' b' (PoolWorker.resp?_of_answer? hw')
  refine h.move ?_ (fun b' => ?_) (fun b' hb' => hresps b' (hne b' hb'))
    (fun _ _ => rfl) rfl rfl rfl
  · apply (Function.forall_update_iff s.workers fun _ x => ∀ c d p k, x = .running c d p k →
      Doing blockSize _ c d p k).mpr
    constructor
    · rintro c d p k ⟨⟩
      exact ⟨fun hp => (by cases hp), fun hp => (by cases hp), fun hp => by cases hp⟩
    · intro w' _ c d p k hw'
      have hd : d ≠ b := hheld w' d (by rw [hw']; rfl)
      exact (h.doing w' c d p k hw').congr rfl (hresps d hd) fun _ => rfl
  · have hcomp : PoolWorker.answer? ∘ Function.update s.workers w (.running a b .start
        nbdRespSuccess) = PoolWorker.answer? ∘ s.workers :=
      comp_update_eq (by simp [hw, PoolWorker.answer?])
    simp only [InTransit, transit, setWorker, hcomp]

/-- Objects change hands between the reader, the queues, the pools and the writer. -/
lemma Answering.shift {reqQueue respQueue respPool : List ℕ} {pending : Option ℕ}
    {readerDone : Bool} {writer : PoolWriter}
    (hperm : (respQueue ++ writer.answer?.toList).Perm s.transit) : Answering blockSize stream
      { s with reqQueue, pending, readerDone, respQueue, respPool, writer } :=
  h.move (fun w a b pc code hw => (h.doing w a b pc code hw).congr rfl rfl fun _ => rfl)
    (fun _ => placed_perm hperm) (fun _ _ => rfl) (fun _ _ => rfl) rfl rfl rfl

lemma Answering.decode (hheld : ∀ w, (s.workers w).req? ≠ some a) {t : Task} {reqPool : List ℕ}
    {reqsMade decoded epoch : ℕ} {locks : ℕ → RWMutex} {pending : Option ℕ} {readerDone : Bool} :
    Answering blockSize stream { s with
      reqs := Function.update s.reqs a t
      reqPool, reqsMade, decoded, epoch, locks, pending, readerDone } := by
  refine h.move (fun w c d pc code hw => ?_) (fun _ => Iff.rfl) (fun _ _ => rfl) (fun _ _ => rfl)
    rfl rfl rfl
  have hne : c ≠ a := by
    rintro rfl
    exact hheld w (by rw [show s.workers w = _ from hw]; rfl)
  exact (h.doing w c d pc code hw).congr (Function.update_of_ne hne _ _) rfl fun _ => rfl

lemma Answering.decodeReq {reqPool : List ℕ} {reqsMade : ℕ}
    (hnew : Exclusive (a :: (reqPool ++ s.reqQueue)) (PoolWorker.req? ∘ s.workers) reqsMade)
    {req : Request} (hdec : PoolProc.decodeReq { s with reqPool, reqsMade } a req = some s') :
    Answering blockSize stream s' := by
  have hheld : ∀ w, (s.workers w).req? ≠ some a := fun w hw =>
    hnew.held_notMem w a hw (List.mem_cons_self ..)
  obtain ⟨_, _, _, _, rfl, -⟩ := decodeReq_frame hdec
  exact h.decode hheld

/-- An answer that was on its way has been written. -/
lemma Answering.remove (hb : s.InTransit b) {bytes : Bytes}
    (hdoing : ∀ w a b pc code, s'.workers w = .running a b pc code → Doing blockSize s' a b pc code)
    (hbytes : ∀ req code, Carries blockSize stream s b req code →
      req.RepliedBy blockSize (s.answers (s.replyOf b)) bytes)
    (htransit : ∀ b', s'.InTransit b' ↔ s.InTransit b' ∧ b' ≠ b)
    (hresps : ∀ b', b' ≠ b → s'.resps b' = s.resps b') (hof : s'.replyOf = s.replyOf)
    (hans : s'.answers = s.answers) (hfin : s'.finished = s.finished)
    (hreplies : s'.replies = s.replies ++ [(s.replyOf b, bytes)]) :
    Answering blockSize stream s' := by
  have hanswered : s'.answered = s.answered ++ [s.replyOf b] := by
    rw [answered, hreplies, List.map_append]
    rfl
  refine ⟨hdoing, fun b' hb' => ?_, fun i bytes' hmem => ?_, ?_, fun b' hb' hmem => ?_,
    fun b₁ b₂ h₁ h₂ heq => ?_, fun i => ?_⟩
  · obtain ⟨hold, hne⟩ := (htransit b').mp hb'
    obtain ⟨req, code, hc⟩ := h.carries b' hold
    exact ⟨req, code, hc.congr (congrFun hof b') (hresps b' hne) (congrFun hans _)⟩
  · rw [hreplies] at hmem
    rw [hans]
    rcases List.mem_append.mp hmem with hold | hnew
    · exact h.replied i bytes' hold
    · obtain ⟨rfl, rfl⟩ := Prod.mk.inj (List.mem_singleton.mp hnew)
      obtain ⟨req, code, hc⟩ := h.carries b hb
      exact ⟨req, hc.req_eq, hc.kind, hbytes req code hc⟩
  · rw [hanswered, List.nodup_append_comm, List.singleton_append, List.nodup_cons]
    exact ⟨h.apart b hb, h.once⟩
  · obtain ⟨hold, hne⟩ := (htransit b').mp hb'
    rw [hanswered, hof] at hmem
    rcases List.mem_append.mp hmem with hmem | hmem
    · exact h.apart b' hold hmem
    · exact hne (h.inj b' b hold hb (List.mem_singleton.mp hmem))
  · rw [hof] at heq
    exact h.inj b₁ b₂ ((htransit b₁).mp h₁).1 ((htransit b₂).mp h₂).1 heq
  · rw [hfin, h.finished, hanswered, List.mem_append, List.mem_singleton, or_assoc]
    refine or_congr_right ⟨?_, ?_⟩
    · rintro ⟨b', hold, rfl⟩
      by_cases hbb : b' = b
      · exact Or.inl (by rw [hbb])
      · exact Or.inr ⟨b', (htransit b').mpr ⟨hold, hbb⟩, congrFun hof b'⟩
    · rintro (rfl | ⟨b', hnew, rfl⟩)
      · exact ⟨b, hb, rfl⟩
      · exact ⟨b', ((htransit b').mp hnew).1, (congrFun hof b').symm⟩

lemma Answering.write (howned : Owned s) (hwriter : s.writer = .writing b) :
    Answering blockSize stream { s.setResp b (s.resps b).write.2 with
      writer := .written b, replies := s.replies ++ [(s.replyOf b, (s.resps b).write.1)] } := by
  have hb : b ∈ s.transit := by
    simp [transit, hwriter, PoolWriter.answer?]
  have hheld : ∀ w d, (s.workers w).resp? = some d → d ≠ b := by
    rintro w d hd rfl
    exact howned.resps.held_notMem w d hd (mem_of_mem_transit hb _)
  have hqueue : b ∉ s.respQueue := by
    have hnodup := howned.resps.nodup
    rw [respsParked, hwriter] at hnodup
    exact fun hq => (List.nodup_append.mp hnodup).2.2 b (List.mem_append_right _ hq) b
      (List.mem_singleton_self b) rfl
  have hresps : ∀ b', b' ≠ b → Function.update s.resps b (s.resps b).write.2 b' = s.resps b' :=
    fun b' hne => Function.update_of_ne hne _ _
  refine h.remove (Or.inl hb) ?_ ?_ (fun b' => ?_) hresps rfl rfl rfl rfl
  · intro w c d p k hw
    have hd : d ≠ b := hheld w d (by rw [show s.workers w = _ from hw]; rfl)
    exact (h.doing w c d p k hw).congr rfl (hresps d hd) fun _ => rfl
  · intro req code hc
    refine ⟨code, _, hc.due, ?_⟩
    simp only [Response.write, hc.header, hc.reqType]
  · simp only [InTransit, Placed, transit, hwriter, PoolWriter.answer?, Option.toList,
      List.append_nil, List.mem_append, List.mem_singleton]
    constructor
    · rintro (hq | ⟨w, hw⟩)
      · refine ⟨Or.inl (Or.inl hq), ?_⟩
        rintro rfl
        exact hqueue hq
      · exact ⟨Or.inr ⟨w, hw⟩, hheld w b' (PoolWorker.resp?_of_answer? hw)⟩
    · rintro ⟨(hq | hbb) | hw, hne⟩
      · exact Or.inl hq
      · exact absurd hbb hne
      · exact Or.inr hw

lemma Answering.step (hsim : Simulated blockSize stream n s) (hserves : s.abs.Serves)
    {e : PoolEvent} (hstep : s.step blockSize stream n e = some s') :
    Answering blockSize stream s' := by
  cases step_happens hstep with
  | decodes hpend hdone hreq hget hdec =>
    obtain ⟨reqPool, reqsMade, rfl, hnew⟩ := hsim.owned.getReq hpend hget
    exact h.decodeReq hnew hdec
  | enqueues hroom hpend => exact h.shift (List.Perm.refl _)
  | cancels hpend => exact h.shift (List.Perm.refl _)
  | dequeues hlt hidle hq => exact h.keeps (by simp) (by rw [hidle]; rfl)
  | fetches hw hget =>
    obtain ⟨respPool, respsMade, resps, rfl, hresps, hnew⟩ := hsim.owned.getResp hget
    exact h.fetch hw hresps hnew
  | acts hlt hw hadv hacts => exact h.acts hsim hserves hw hacts
  | offers hw => exact h.enqueueResp (by simp) rfl (by rw [hw]; rfl)
  | findsFull hw => exact h.keeps (by simp) (by rw [hw]; rfl)
  | recycles hw => exact h.keeps (by simp) (by rw [hw]; rfl)
  | recyclesFirst hw => exact h.keeps (by simp) (by rw [hw]; rfl)
  | sends hw => exact h.enqueueResp (by simp) rfl (by rw [hw]; rfl)
  | exits hlt hidle _ _ => exact h.keeps (by simp) (by rw [hidle]; rfl)
  | receives hwriter hq =>
    apply h.shift
    simp [transit, hwriter, hq, PoolWriter.answer?]
  | writes hwriter => exact h.write hsim.owned hwriter
  | putsBack hwriter =>
    apply h.shift
    simp [transit, hwriter, PoolWriter.answer?]
  | stops hwriter =>
    apply h.shift
    simp [transit, hwriter, PoolWriter.answer?]

end Steps

/-! ## Shutdown -/

/-- There are `n` workers, and the ones that have exited have found nothing left to do. -/
structure Staffed (n : ℕ) (s : PoolProc) : Prop where
  idle_of_le : ∀ w, n ≤ w → s.workers w = .idle
  gone : ∀ w, s.workers w = .exited → s.Closed ∧ s.reqQueue = []

lemma Staffed.init : Staffed n init := ⟨fun _ _ => rfl, fun _ hw => by cases hw⟩

lemma Staffed.lt (h : Staffed n s) (hw : s.workers w ≠ .idle) : w < n := by
  by_contra hle
  exact hw (h.idle_of_le w (Nat.le_of_not_lt hle))

lemma Staffed.update (h : Staffed n s) {x : PoolWorker} (hlt : w < n)
    (hworkers : s'.workers = Function.update s.workers w x)
    (hx : x = .exited → s.Closed ∧ s.reqQueue = []) (hdone : s'.readerDone = s.readerDone)
    (hpend : s'.pending = s.pending) (hq : s'.reqQueue = s.reqQueue) : Staffed n s' := by
  constructor
  · intro w' hle
    rw [hworkers, Function.update_of_ne (hlt.trans_le hle).ne']
    exact h.idle_of_le w' hle
  · rw [hworkers, Closed, hdone, hpend, hq]
    apply (Function.forall_update_iff s.workers fun _ x => x = .exited →
      s.Closed ∧ s.reqQueue = []).mpr
    exact ⟨hx, fun w' _ => h.gone w'⟩

lemma Staffed.acts (h : Staffed n s) {ans : DevAnswer} (hlt : w < n)
    (hacts : Acts blockSize s w a b ans pc code s') : Staffed n s' := by
  cases hacts with
  | waits _ _ => exact h.update hlt rfl (fun hx => by cases hx) rfl rfl rfl
  | enters _ =>
    unfold enter
    split_ifs <;> exact h.update hlt rfl (fun hx => by cases hx) rfl rfl rfl
  | refuses _ => exact h.update hlt rfl (fun hx => by cases hx) rfl rfl rfl
  | returns _ =>
    unfold devReturn
    split_ifs <;> exact h.update hlt rfl (fun hx => by cases hx) rfl rfl rfl
  | leaves => exact h.update hlt rfl (fun hx => by cases hx) rfl rfl rfl

/-- As long as the reader is at work nobody has exited. -/
lemma Staffed.of_not_closed (h : Staffed n s) (hopen : ¬ (s.Closed ∧ s.reqQueue = []))
    (hworkers : s'.workers = s.workers) : Staffed n s' := by
  constructor
  · rw [hworkers]
    exact h.idle_of_le
  · intro w hw
    rw [hworkers] at hw
    exact absurd (h.gone w hw) hopen

lemma Staffed.step (h : Staffed n s) (howned : Owned s) {e : PoolEvent}
    (hstep : s.step blockSize stream n e = some s') : Staffed n s' := by
  cases step_happens hstep with
  | decodes hpend hdone hreq hget hdec =>
    obtain ⟨reqPool, reqsMade, rfl, -⟩ := howned.getReq hpend hget
    obtain ⟨_, _, _, _, rfl, -⟩ := decodeReq_frame hdec
    refine h.of_not_closed (fun hall => ?_) rfl
    rw [hall.1.1] at hdone
    cases hdone
  | enqueues hroom hpend =>
    refine h.of_not_closed (fun hall => ?_) rfl
    rw [hall.1.2] at hpend
    cases hpend
  | cancels hpend => exact ⟨h.idle_of_le, fun w hw => ⟨⟨rfl, hpend⟩, (h.gone w hw).2⟩⟩
  | @dequeues w a _ hlt hidle hq =>
    -- the queue is not empty, so that nobody has left yet
    have hopen : ¬ (s.Closed ∧ s.reqQueue = []) := by simp [hq]
    have hnone : ∀ w', Function.update s.workers w (.taken a) w' ≠ .exited := by
      apply (Function.forall_update_iff s.workers fun _ x => x ≠ .exited).mpr
      exact ⟨fun hx => (by cases hx), fun w' _ hw' => hopen (h.gone w' hw')⟩
    constructor
    · intro w' hle
      simp only [setWorker, Function.update_of_ne (hlt.trans_le hle).ne']
      exact h.idle_of_le w' hle
    · exact fun w' hw' => absurd hw' (hnone w')
  | fetches hw hget =>
    obtain ⟨respPool, respsMade, resps, rfl, -, -⟩ := howned.getResp hget
    exact h.update (h.lt (by simp [hw])) rfl (fun hx => by cases hx) rfl rfl rfl
  | acts hlt hw hadv hacts => exact h.acts hlt hacts
  | offers hw => exact h.update (h.lt (by simp [hw])) rfl (fun hx => by cases hx) rfl rfl rfl
  | findsFull hw => exact h.update (h.lt (by simp [hw])) rfl (fun hx => by cases hx) rfl rfl rfl
  | recycles hw => exact h.update (h.lt (by simp [hw])) rfl (fun hx => by cases hx) rfl rfl rfl
  | recyclesFirst hw => exact h.update (h.lt (by simp [hw])) rfl (fun hx => by cases hx) rfl rfl rfl
  | sends hw => exact h.update (h.lt (by simp [hw])) rfl (fun hx => by cases hx) rfl rfl rfl
  | exits hlt hidle hclosed hq => exact h.update hlt rfl (fun _ => ⟨hclosed, hq⟩) rfl rfl rfl
  | receives _ _ => exact ⟨h.idle_of_le, h.gone⟩
  | writes _ => exact ⟨h.idle_of_le, h.gone⟩
  | putsBack _ => exact ⟨h.idle_of_le, h.gone⟩
  | stops _ => exact ⟨h.idle_of_le, h.gone⟩

/-! ## The result -/

/-- What every interleaving keeps. -/
structure Sound (blockSize : ℤ) (stream : List Request) (n : ℕ) (s : PoolProc) : Prop where
  sim : Simulated blockSize stream n s
  serves : s.abs.Serves
  answering : Answering blockSize stream s
  staffed : Staffed n s

lemma Sound.init : Sound blockSize stream n init := ⟨.init, .init, .init, .init⟩

lemma Sound.step (h : Sound blockSize stream n s) {e : PoolEvent}
    (hstep : s.step blockSize stream n e = some s') : Sound blockSize stream n s' := by
  refine ⟨h.sim.step hstep, ?_, h.answering.step h.sim h.serves hstep,
    h.staffed.step h.sim.owned hstep⟩
  rcases h.sim.owned.simulates hstep with ⟨pe, -, habs⟩ | habs
  · exact h.serves.step habs
  · rw [habs]
    exact h.serves

/-- After the shutdown no worker is at work. -/
lemma Staffed.idle_or_exited (h : Staffed n s) (hexited : ∀ w < n, s.workers w = .exited) (w : ℕ) :
    s.workers w = .idle ∨ s.workers w = .exited := by
  rcases Nat.lt_or_ge w n with hlt | hle
  · exact Or.inr (hexited w hlt)
  · exact Or.inl (h.idle_of_le w hle)

/-- Then all requests behind the reader are through `execute`. -/
lemma Sound.mem_finished (h : Sound blockSize stream n s) (hn : 0 < n) (hclosed : s.Closed)
    (hexited : ∀ w < n, s.workers w = .exited) {i : ℕ} {req : Request} (hi : i < s.decoded)
    (hreq : stream[i]? = some req) (hkind : req.reqType ≠ nbdDisconnect) : i ∈ s.finished := by
  have hq : s.reqQueue = [] := (h.staffed.gone 0 (hexited 0 hn)).2
  rcases h.sim.kept.inv.accounted i req hi hreq hkind with hwait | hrun | hfin
  · simp [ReqProc.waiting, abs, hq, hclosed.2] at hwait
  · obtain ⟨w, t, pc, hw, -⟩ := hrun
    rw [abs_workers] at hw
    rcases h.staffed.idle_or_exited hexited w with hx | hx
    · simp [hx, PoolWorker.abs] at hw
    · simp [hx, PoolWorker.abs] at hw
  · exact hfin

/-- And with the queue drained nothing is on its way. -/
lemma Staffed.not_inTransit (h : Staffed n s) (hexited : ∀ w < n, s.workers w = .exited)
    (hdrained : s.Drained) (b : ℕ) : ¬ s.InTransit b := by
  rintro (hmem | ⟨w, hw⟩)
  · simp [transit, hdrained.1, hdrained.2] at hmem
  · rcases h.idle_or_exited hexited w with hx | hx
    · simp [hx, PoolWorker.answer?] at hw
    · simp [hx, PoolWorker.answer?] at hw

def recommendWorkerCount (numCPU : ℕ) : ℤ := numCPU * 6

/-- The number of `reqIOWorker`s that `processRequests` starts. -/
def ioWorkerCount (numCPU : ℕ) (workerCount : ℤ) : ℕ :=
  let workerCount := if workerCount < 1 then recommendWorkerCount numCPU else workerCount
  -- the reader and the writer are workers too
  let workerCount := workerCount - 2
  (if workerCount < 1 then 1 else workerCount).toNat

lemma ioWorkerCount_pos (numCPU : ℕ) (workerCount : ℤ) : 0 < ioWorkerCount numCPU workerCount := by
  unfold ioWorkerCount
  dsimp only
  split_ifs <;> omega

/-- Where the workers are gone and the queue is drained, every request behind the reader has one
reply. -/
lemma Sound.count_eq_one (h : Sound blockSize stream n s) (hn : 0 < n) (hclosed : s.Closed)
    (hexited : ∀ w < n, s.workers w = .exited) (hdrained : s.Drained) {i : ℕ} {req : Request}
    (hi : i < s.decoded) (hreq : stream[i]? = some req) (hkind : req.reqType ≠ nbdDisconnect) :
    s.answered.count i = 1 := by
  have hfin := h.mem_finished hn hclosed hexited hi hreq hkind
  rcases (h.answering.finished i).mp hfin with hmem | ⟨b, hb, -⟩
  · exact List.count_eq_one_of_mem h.answering.once hmem
  · exact absurd hb (h.staffed.not_inTransit hexited hdrained b)

/-- **Replies are exactly once.**  Over any stream, with any device and as many workers as
`processRequests` starts, in every state of every interleaving: the replies written so far are to
distinct decoded requests, none of them a disconnect, and each has its own request's handle, its
error code and, when the request is a read that has succeeded, the bytes the device has read for it.
Once the request queue is closed, the workers are gone and the response queue is drained, every
decoded request but a disconnect has been replied to, once. -/
theorem replies_exactly_once (blockSize : ℤ) (stream : List Request) (numCPU : ℕ)
    (workerCount : ℤ) (es : List PoolEvent) (s : PoolProc)
    (hrun : Machine.run (step blockSize stream (ioWorkerCount numCPU workerCount)) init es =
      some s) :
    s.answered.Nodup ∧
      (∀ i bytes, (i, bytes) ∈ s.replies → i < s.decoded ∧ ∃ req, stream[i]? = some req ∧
        req.reqType ≠ nbdDisconnect ∧ req.RepliedBy blockSize (s.answers i) bytes) ∧
      (s.Closed → (∀ w < ioWorkerCount numCPU workerCount, s.workers w = .exited) → s.Drained →
        ∀ i req, i < s.decoded → stream[i]? = some req → req.reqType ≠ nbdDisconnect →
          s.answered.count i = 1) := by
  have h : Sound blockSize stream (ioWorkerCount numCPU workerCount) s :=
    Machine.invariant (fun _ _ _ h hstep => h.step hstep) .init hrun
  refine ⟨h.answering.once, fun i bytes hmem => ⟨?_, h.answering.replied i bytes hmem⟩, ?_⟩
  · have hfin := (h.answering.finished i).mpr (Or.inl (List.mem_map_of_mem hmem))
    exact h.sim.kept.ledger.finished_lt i hfin
  · intro hclosed hexited hdrained i req hi hreq hkind
    exact h.count_eq_one (ioWorkerCount_pos _ _) hclosed hexited hdrained hi hreq hkind

/-- Two reads with a misaligned one between them, then a disconnect. -/
def readStream : List Request :=
  [⟨nbdRead, List.replicate ndbHandleLen 1, 0, 4, [], rfl⟩,
    ⟨nbdRead, List.replicate ndbHandleLen 2, 1, 4, [], rfl⟩,
    ⟨nbdRead, List.replicate ndbHandleLen 3, 4, 4, [], rfl⟩,
    ⟨nbdDisconnect, List.replicate ndbHandleLen 4, 0, 0, [], rfl⟩]

/-- One worker serves them, all with the same two objects; the last read fails. -/
def recyclingRun : List PoolEvent :=
  [.decode none, .enqueue, .dequeue 0, .fetch 0 none, .advance 0 ⟨[], none⟩,
    .advance 0 ⟨[5, 6, 7, 8], none⟩,
    .advance 0 ⟨[], none⟩, .offer 0, .recycle 0, .receive, .write, .putBack,
    .decode (some 0), .enqueue, .dequeue 0, .fetch 0 (some 0), .advance 0 ⟨[], none⟩, .offer 0,
    .recycle 0,
    .decode (some 0), .enqueue, .receive, .write, .putBack, .dequeue 0, .fetch 0 (some 0),
    .advance 0 ⟨[], none⟩, .advance 0 ⟨[9], some (.new "EIO")⟩, .advance 0 ⟨[], none⟩, .offer 0,
    .recycle 0, .decode (some 0), .receive, .exit 0, .write, .putBack, .stop]

theorem replies_exactly_once_recycled :
    ∃ s, Machine.run (step 4 readStream (ioWorkerCount 1 3)) init recyclingRun = some s ∧
      s.reqsMade = 1 ∧ s.respsMade = 1 ∧ s.answered.Nodup ∧
      (∀ i bytes, (i, bytes) ∈ s.replies → i < s.decoded ∧ ∃ req, readStream[i]? = some req ∧
        req.reqType ≠ nbdDisconnect ∧ req.RepliedBy 4 (s.answers i) bytes) ∧
      ∀ i req, i < s.decoded → readStream[i]? = some req → req.reqType ≠ nbdDisconnect →
        s.answered.count i = 1 := by
  have hends : ((Machine.run (step 4 readStream (ioWorkerCount 1 3)) init recyclingRun).any
      fun s => decide (s.reqsMade = 1 ∧ s.respsMade = 1 ∧ s.Closed ∧
        (∀ w < ioWorkerCount 1 3, s.workers w = .exited) ∧ s.Drained)) = true := by
    decide +kernel
  obtain ⟨s, hrun, hs⟩ := (Option.any_eq_true _ _).mp hends
  obtain ⟨hreqs, hresps, hclosed, hexited, hdrained⟩ := of_decide_eq_true hs
  obtain ⟨honce, hreplied, hall⟩ :=
    replies_exactly_once 4 readStream 1 3 recyclingRun s hrun
  exact ⟨s, hrun, hreqs, hresps, honce, hreplied, hall hclosed hexited hdrained⟩

end PoolProc
end Usbd
