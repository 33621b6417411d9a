import Usbd.Foundations.Atomic
import Usbd.Nbd.Replies

/-!
# The server is atomic

The reader, the workers and the writer over a device whose calls take effect at one instant each.  A
client sees none of it: it sends a request, which the reader decodes at some time, and later finds
bytes on the stream.  `server_linearizable` says that whatever the interleaving, there is a history
of requests and replies in which each request is executed in one instant between the two, one after
the other, with the reply it is due; and what is on the stream is this history, except that behind
the reply to a failed read stands what its read buffer held.

`Server` is `PoolProc` with the device underneath.  The device works between the call and the return
of a worker, so that its answer is there before the worker has it.  The simulation goes through what
the processor notes down in a step, `Logs`.
-/

namespace Usbd

open Atomic Endian ListMemory

variable {δ : Type}

/-! ## What is on the stream -/

/-- The bytes of a reply: its frame, and stray data behind it only where a read has failed. -/
def Reply.WrittenAs (r : Reply) (req : Request) (bytes : Bytes) : Prop :=
  ∃ stray, bytes = r.frame ++ stray ∧
    (stray ≠ [] → req.reqType = nbdRead ∧ r.errCode ≠ nbdRespSuccess)

def Request.answeredBy (req : Request) (ans : DevAnswer) : Reply where
  handle := req.handle
  errCode := ioErrCode ans.err
  data := if req.reqType = nbdRead ∧ ans.err = none then ans.data else []

/-- The reply to a request that does not reach the device. -/
def Request.refusal (req : Request) : Reply := ⟨req.handle, ndbRespErrInvalid, []⟩

/-- The bytes of a reply are those of the one that goes with the device's answer. -/
lemma Request.RepliedBy.writtenAs {req : Request} {blockSize : ℤ} {ans : Option DevAnswer}
    {bytes : Bytes} (h : req.RepliedBy blockSize ans bytes) :
    (req.Reaches blockSize → ∃ a ∈ ans, (req.answeredBy a).WrittenAs req bytes) ∧
      (¬ req.Reaches blockSize → req.refusal.WrittenAs req bytes) := by
  obtain ⟨code, buf, hdue, rfl⟩ := h
  refine ⟨fun hreach => ?_, fun hout => ?_⟩
  · rw [Due, if_pos hreach] at hdue
    obtain ⟨a, ha, rfl, hbuf⟩ := hdue
    refine ⟨a, ha, ?_⟩
    by_cases hread : req.reqType = nbdRead ∧ a.err = none
    · refine ⟨[], ?_, fun h => absurd rfl h⟩
      rw [List.append_nil, if_pos hread.1, hbuf hread.1 hread.2, replyHeader_append]
      simp [answeredBy, hread]
    · refine ⟨if req.reqType = nbdRead then buf else [], ?_, fun hstray => ?_⟩
      · rw [← List.append_nil (replyHeader _ _), replyHeader_append]
        simp [answeredBy, hread]
      · have hkind : req.reqType = nbdRead := by
          by_contra hne
          exact hstray (if_neg hne)
        refine ⟨hkind, fun hok => hread ⟨hkind, ?_⟩⟩
        exact ioErrCode_eq_success.mp hok
  · rw [Due, if_neg hout] at hdue
    subst hdue
    refine ⟨if req.reqType = nbdRead then buf else [], ?_, fun hstray => ?_⟩
    · rw [← List.append_nil (replyHeader _ _), replyHeader_append]
      rfl
    · refine ⟨?_, show ndbRespErrInvalid ≠ nbdRespSuccess by decide⟩
      by_contra hne
      exact hstray (if_neg hne)

/-! ## What the device does -/

/-- The device call `execute` makes for a request. -/
def Device.call (dev : Device δ) (req : Request) (d : δ) : DevAnswer × δ :=
  if req.reqType = nbdRead then
    let ((data, err), d) := dev.readAt d req.count req.pos
    (⟨data, err⟩, d)
  else if req.reqType = nbdWrite then
    let ((_, err), d) := dev.writeAt d req.writeBuffer req.pos
    (⟨[], err⟩, d)
  else if req.reqType = nbdFlush then
    let (err, d) := dev.flush d
    (⟨[], err⟩, d)
  else
    let (err, d) := dev.trim d req.pos req.count
    (⟨[], err⟩, d)

/-- A request executed in one instant: the reply is the one it is due, and the device does what
`execute` has it do. -/
def Device.Serves (dev : Device δ) (d : δ) (req : Request) (d' : δ) (r : Reply) : Prop :=
  r = dueReply dev req d ∧ d' = (execute dev req newResponse d).2

lemma Device.serves_call (dev : Device δ) {req : Request} (d : δ)
    (h : req.Reaches dev.blockSize) :
    dev.Serves d req (dev.call req d).2 (req.answeredBy (dev.call req d).1) := by
  have hwr : nbdWrite ≠ nbdRead := by decide
  have hfr : nbdFlush ≠ nbdRead := by decide
  have hfw : nbdFlush ≠ nbdWrite := by decide
  have htr : nbdTrim ≠ nbdRead := by decide
  have htw : nbdTrim ≠ nbdWrite := by decide
  have htf : nbdTrim ≠ nbdFlush := by decide
  rcases h with ⟨hr | hw, hal⟩ | hf | ht
  · simp [Serves, call, dueReply, deviceReply, execute, Request.answeredBy, hr, hal,
      Response.getReadBuffer]
  · simp [Serves, call, dueReply, deviceReply, execute, Request.answeredBy, hw, hal, hwr]
  · simp [Serves, call, dueReply, deviceReply, execute, Request.answeredBy, hf, hfr, hfw]
  · simp [Serves, call, dueReply, deviceReply, execute, Request.answeredBy, ht, htr, htw, htf]

lemma Device.serves_refusal (dev : Device δ) {req : Request} (d : δ)
    (h : ¬ req.Reaches dev.blockSize) : dev.Serves d req d req.refusal := by
  simp only [Request.Reaches, not_or, not_and] at h
  obtain ⟨hal, hf, ht⟩ := h
  by_cases hr : req.reqType = nbdRead
  · simp [Serves, dueReply, deviceReply, execute, Request.refusal, hr, hal (Or.inl hr)]
  · by_cases hw : req.reqType = nbdWrite
    · have hwr : nbdWrite ≠ nbdRead := by decide
      simp [Serves, dueReply, deviceReply, execute, Request.refusal, hw, hwr, hal (Or.inr hw)]
    · simp [Serves, dueReply, deviceReply, execute, Request.refusal, hr, hw, hf, ht]

lemma Device.Serves.eq_call {dev : Device δ} {req : Request} {d d' : δ} {r : Reply}
    (h : dev.Serves d req d' r) (hreach : req.Reaches dev.blockSize) :
    r = req.answeredBy (dev.call req d).1 ∧ d' = (dev.call req d).2 := by
  obtain ⟨hr, hd⟩ := dev.serves_call d hreach
  exact ⟨h.1.trans hr.symm, h.2.trans hd.symm⟩

lemma Device.Serves.eq_refusal {dev : Device δ} {req : Request} {d d' : δ} {r : Reply}
    (h : dev.Serves d req d' r) (hout : ¬ req.Reaches dev.blockSize) :
    r = req.refusal ∧ d' = d := by
  obtain ⟨hr, hd⟩ := dev.serves_refusal d hout
  exact ⟨h.1.trans hr.symm, h.2.trans hd.symm⟩

/-! ## What the processor notes down -/

/-- What has been decoded, answered by the device, executed and replied to. -/
structure Log where
  decoded : ℕ
  answers : ℕ → Option DevAnswer
  finished : Finset ℕ
  replies : List (ℕ × Bytes)

namespace PoolProc

/-- What the processor has come to so far. -/
def log (s : PoolProc) : Log := ⟨s.decoded, s.answers, s.finished, s.replies⟩

/-- What a step notes down. -/
inductive Logs (blockSize : ℤ) (stream : List Request) (s : PoolProc) : PoolEvent → Log → Prop
  | decodes {pick : Option ℕ} {req : Request} (hreq : stream[s.decoded]? = some req) :
      Logs blockSize stream s (.decode pick) { s.log with decoded := s.decoded + 1 }
  | returns {w a b : ℕ} {ans : DevAnswer} {code : NbdErr}
      (hw : s.workers w = .running a b .inDev code) : Logs blockSize stream s (.advance w ans)
        { s.log with answers := Function.update s.answers (s.reqs a).idx (some ans) }
  | refuses {w a b : ℕ} {ans : DevAnswer} {code : NbdErr}
      (hw : s.workers w = .running a b .start code) (hout : ¬ (s.reqs a).req.Reaches blockSize) :
      Logs blockSize stream s (.advance w ans)
        { s.log with finished := insert (s.reqs a).idx s.finished }
  | leaves {w a b : ℕ} {ans : DevAnswer} {code : NbdErr}
      (hw : s.workers w = .running a b .returned code) : Logs blockSize stream s (.advance w ans)
        { s.log with finished := insert (s.reqs a).idx s.finished }
  | writes {b : ℕ} (hwriter : s.writer = .writing b) : Logs blockSize stream s .write
      { s.log with replies := s.replies ++ [(s.replyOf b, (s.resps b).write.1)] }
  | silent {e : PoolEvent} (hdecode : ∀ pick, e ≠ .decode pick) (hwrite : e ≠ .write) :
      Logs blockSize stream s e s.log

variable {blockSize : ℤ} {stream : List Request} {n : ℕ} {s s' : PoolProc} {w a b : ℕ}

lemma acts_logs {ans : DevAnswer} {pc : Pc} {code : NbdErr}
    (hw : s.workers w = .running a b pc code) (hacts : Acts blockSize s w a b ans pc code s') :
    Logs blockSize stream s (.advance w ans) s'.log := by
  cases hacts with
  | waits _ _ => exact .silent (by simp) (by simp)
  | enters _ =>
    unfold enter
    split_ifs <;> exact .silent (by simp) (by simp)
  | refuses hout => exact .refuses hw hout
  | returns _ =>
    unfold devReturn
    split_ifs <;> exact .returns hw
  | leaves => exact .leaves hw

lemma step_logs (howned : Owned s) {e : PoolEvent} (hstep : s.step blockSize stream n e = some s') :
    Logs blockSize stream s e s'.log := by
  cases step_happens hstep with
  | decodes hpend hdone hreq hget hdec =>
    obtain ⟨reqPool, reqsMade, rfl, -⟩ := howned.getReq hpend hget
    obtain ⟨_, _, _, _, rfl, -⟩ := decodeReq_frame hdec
    exact .decodes hreq
  | fetches hw hget =>
    obtain ⟨respPool, respsMade, resps, rfl, -, -⟩ := howned.getResp hget
    exact .silent (by simp) (by simp)
  | acts hlt hw hadv hacts => exact acts_logs hw hacts
  | writes hwriter => exact .writes hwriter
  | _ => exact .silent (by simp) (by simp)

lemma enter_frame (s : PoolProc) (w a b : ℕ) : (s.enter w a b).reqs = s.reqs ∧
    (s.enter w a b).workers =
      Function.update s.workers w (.running a b .inDev nbdRespSuccess) := by
  unfold enter
  split_ifs <;> exact ⟨rfl, rfl⟩

lemma devReturn_frame (s : PoolProc) (w a b : ℕ) (ans : DevAnswer) :
    (s.devReturn w a b ans).reqs = s.reqs ∧ (s.devReturn w a b ans).workers =
      Function.update s.workers w (.running a b .returned (ioErrCode ans.err)) := by
  unfold devReturn
  split_ifs <;> exact ⟨rfl, rfl⟩

/-- A worker inside `execute` has the request it had, and has come back from the device before the
step, or comes back in it. -/
lemma running_of_step (howned : Owned s) {e : PoolEvent}
    (hstep : s.step blockSize stream n e = some s') {pc : Pc} {code : NbdErr}
    (hw : s'.workers w = .running a b pc code) :
    s'.reqs a = s.reqs a ∧ (pc = .returned → s.workers w = .running a b .returned code ∨
      ∃ code', s.workers w = .running a b .inDev code') := by
  -- a step of a worker `u` that leaves the requests alone
  have hmove : ∀ {u x}, s'.reqs = s.reqs → s'.workers = Function.update s.workers u x →
      (∀ a b code, x = .running a b .returned code →
        ∃ code', s.workers u = .running a b .inDev code') →
      s'.reqs a = s.reqs a ∧ (pc = .returned → s.workers w = .running a b .returned code ∨
        ∃ code', s.workers w = .running a b .inDev code') := by
    intro u x hreqs hworkers hx
    refine ⟨by rw [hreqs], fun hpc => ?_⟩
    rw [hworkers] at hw
    by_cases hu : w = u
    · subst hu
      rw [Function.update_self, hpc] at hw
      exact Or.inr (hx a b code hw)
    · rw [Function.update_of_ne hu, hpc] at hw
      exact Or.inl hw
  have hsame : s'.reqs = s.reqs → s'.workers = s.workers →
      s'.reqs a = s.reqs a ∧ (pc = .returned → s.workers w = .running a b .returned code ∨
        ∃ code', s.workers w = .running a b .inDev code') := by
    intro hreqs hworkers
    refine ⟨by rw [hreqs], fun hpc => Or.inl ?_⟩
    rw [hworkers, hpc] at hw
    exact hw
  cases step_happens hstep with
  | decodes hpend hdone hreq hget hdec =>
    obtain ⟨reqPool, reqsMade, rfl, hnew⟩ := howned.getReq hpend hget
    obtain ⟨_, _, _, _, rfl, -⟩ := decodeReq_frame hdec
    replace hw : s.workers w = .running a b pc code := hw
    refine ⟨Function.update_of_ne ?_ _ _, fun hpc => Or.inl (hpc ▸ hw)⟩
    rintro rfl
    exact hnew.held_notMem w a (by simp [hw, PoolWorker.req?]) (List.mem_cons_self ..)
  | fetches hu hget =>
    obtain ⟨respPool, respsMade, resps, rfl, -, -⟩ := howned.getResp hget
    exact hmove rfl rfl (by simp)
  | acts hlt hu hadv hacts =>
    cases hacts with
    | waits _ hpc' =>
      refine hmove rfl rfl fun a b code hx => ?_
      injection hx with _ _ hx
      exact absurd hx hpc'
    | enters _ =>
      obtain ⟨hreqs, hworkers⟩ := enter_frame s _ _ _
      exact hmove hreqs hworkers (by simp)
    | refuses _ => exact hmove rfl rfl (by simp)
    | returns _ =>
      obtain ⟨hreqs, hworkers⟩ := devReturn_frame s _ _ _ _
      refine hmove hreqs hworkers ?_
      rintro c d k ⟨⟩
      exact ⟨_, hu⟩
    | leaves => exact hmove rfl rfl (by simp)
  | dequeues _ _ _ => exact hmove rfl rfl (by simp)
  | offers _ => exact hmove rfl rfl (by simp)
  | findsFull _ => exact hmove rfl rfl (by simp)
  | recycles _ => exact hmove rfl rfl (by simp)
  | recyclesFirst _ => exact hmove rfl rfl (by simp)
  | sends _ => exact hmove rfl rfl (by simp)
  | exits _ _ _ _ => exact hmove rfl rfl (by simp)
  | _ => exact hsame rfl rfl

end PoolProc

/-! ## The server -/

/-- The processor, the device, and what the device has answered by position in the stream. -/
structure Server (δ : Type) where
  proc : PoolProc
  dev : δ
  served : ℕ → Option DevAnswer

/-- What can happen next. -/
inductive ServerEvent
  /-- A step of the processor. -/
  | work (e : PoolEvent)
  /-- The device does what it is called for by a worker. -/
  | effect (w : ℕ)
  deriving DecidableEq

namespace Server

/-- Nothing has been decoded yet. -/
def init (d : δ) : Server δ := ⟨.init, d, fun _ => none⟩

section Statements

variable (dev : Device δ) (stream : List Request) (n : ℕ) (s : Server δ)

/-- A worker in a device call comes back with what the device has answered. -/
def returns (ans : DevAnswer) : PoolWorker → Bool
  | .running a _ .inDev _ => s.served (s.proc.reqs a).idx = some ans
  | _ => true

/-- The device does what it is called for by a worker. -/
def effect (w : ℕ) : Option (Server δ) :=
  match s.proc.workers w with
  | .running a _ .inDev _ =>
    if s.served (s.proc.reqs a).idx = none then
      let (ans, d) := dev.call (s.proc.reqs a).req s.dev
      some { s with dev := d, served := Function.update s.served (s.proc.reqs a).idx (some ans) }
    else none
  | _ => none

/-- The server over a stream, with `n` IO workers. -/
def step : ServerEvent → Option (Server δ)
  | .work (.advance w ans) =>
    if s.returns ans (s.proc.workers w) then
      (s.proc.step dev.blockSize stream n (.advance w ans)).map fun proc => { s with proc }
    else none
  | .work e => (s.proc.step dev.blockSize stream n e).map fun proc => { s with proc }
  | .effect w => s.effect dev w

/-- What a client sees of a step: a request goes in, the bytes of a reply come out. -/
def sight : ServerEvent → Option (Sight Request Bytes)
  | .work (.decode _) => stream[s.proc.decoded]?.bind fun req =>
    if req.reqType = nbdDisconnect then none else some (.call s.proc.decoded req)
  | .work .write =>
    match s.proc.writer with
    | .writing b => some (.ret (s.proc.replyOf b) (s.proc.resps b).write.1)
    | _ => none
  | _ => none

/-- What is seen stands for a request of the stream, or for the reply to one. -/
inductive Carries : Sight Request Bytes → Sight Request Reply → Prop
  | call {i : ℕ} {req : Request} (hreq : stream[i]? = some req) :
      Carries (.call i req) (.call i req)
  | ret {i : ℕ} {req : Request} {bytes : Bytes} {r : Reply} (hreq : stream[i]? = some req)
      (hbytes : r.WrittenAs req bytes) : Carries (.ret i bytes) (.ret i r)

/-- How far a decoded request without a reply is. -/
def progress (log : Log) (served : ℕ → Option DevAnswer) (i : ℕ) (req : Request) :
    Phase Request Reply :=
  if req.Reaches dev.blockSize then
    match served i with
    | none => .called req
    | some ans => .finished (req.answeredBy ans)
  else if i ∈ log.finished then .finished req.refusal else .called req

/-- How far the request at a position is. -/
def phase (log : Log) (served : ℕ → Option DevAnswer) (i : ℕ) : Phase Request Reply :=
  match stream[i]? with
  | none => .idle
  | some req =>
    if i < log.decoded ∧ i ∉ log.replies.map Prod.fst ∧ req.reqType ≠ nbdDisconnect then
      progress dev log served i req
    else .idle

/-- The atomic device the server stands for. -/
def view : State δ Request Reply := ⟨s.dev, phase dev stream s.proc.log s.served⟩

/-- What every interleaving keeps. -/
structure Inv : Prop where
  sound : s.proc.Sound dev.blockSize stream n
  reached : ∀ w a b code, s.proc.workers w = .running a b .returned code →
    (s.proc.reqs a).req.Reaches dev.blockSize
  fresh : ∀ i, s.proc.decoded ≤ i → s.served i = none
  agrees : ∀ i ans, s.proc.answers i = some ans → s.served i = some ans

end Statements

variable {dev : Device δ} {stream : List Request} {n : ℕ} {s s' : Server δ} {e : ServerEvent}

/-! ## What a step can be -/

/-- A step of the processor, with the device's answer where a call returns, or of the device. -/
inductive Happens (dev : Device δ) (stream : List Request) (n : ℕ) (s : Server δ) :
    ServerEvent → Server δ → Prop
  | works {e : PoolEvent} {proc : PoolProc}
      (hproc : s.proc.step dev.blockSize stream n e = some proc)
      (hans : ∀ w ans a b code, e = .advance w ans → s.proc.workers w = .running a b .inDev code →
        s.served (s.proc.reqs a).idx = some ans) :
      Happens dev stream n s (.work e) { s with proc }
  | effects {w a b : ℕ} {code : NbdErr} (hw : s.proc.workers w = .running a b .inDev code)
      (hnone : s.served (s.proc.reqs a).idx = none) :
      Happens dev stream n s (.effect w)
        { s with
          dev := (dev.call (s.proc.reqs a).req s.dev).2
          served := Function.update s.served (s.proc.reqs a).idx
            (some (dev.call (s.proc.reqs a).req s.dev).1) }

lemma step_happens (hstep : s.step dev stream n e = some s') : Happens dev stream n s e s' := by
  cases e with
  | effect w =>
    simp only [step, effect] at hstep
    split at hstep
    · next a b code hw =>
      split_ifs at hstep with hnone
      obtain rfl := Option.some.inj hstep
      exact .effects hw hnone
    · cases hstep
  | work e =>
    cases e with
    | advance w ans =>
      simp only [step] at hstep
      split_ifs at hstep with hret
      obtain ⟨proc, hproc, rfl⟩ := Option.map_eq_some_iff.mp hstep
      refine .works hproc ?_
      rintro w ans a b code ⟨⟩ hw
      simpa [returns, hw] using hret
    | _ =>
      obtain ⟨proc, hproc, rfl⟩ := Option.map_eq_some_iff.mp hstep
      exact .works hproc fun _ _ _ _ _ he => by cases he

/-! ## The invariant -/

lemma Inv.init (d : δ) : Inv dev stream n (init d) where
  sound := .init
  reached w a b code hw := by cases hw
  fresh _ _ := rfl
  agrees i ans h := by cases h

/-- A request inside `execute` stands in the stream, and has not been replied to. -/
lemma Inv.running (h : Inv dev stream n s) {w a b : ℕ} {pc : Pc} {code : NbdErr}
    (hw : s.proc.workers w = .running a b pc code) :
    stream[(s.proc.reqs a).idx]? = some (s.proc.reqs a).req ∧
      (s.proc.reqs a).idx < s.proc.decoded ∧ (s.proc.reqs a).idx ∉ s.proc.finished ∧
      (s.proc.reqs a).idx ∉ s.proc.answered ∧ (s.proc.reqs a).req.reqType ≠ nbdDisconnect := by
  have habs := PoolProc.abs_running hw
  have ht := h.sound.sim.kept.inv.running w _ _ habs
  have hfin : (s.proc.reqs a).idx ∉ s.proc.finished := h.sound.sim.kept.ledger.running w _ _ habs
  refine ⟨ht.req_eq, ht.lt_decoded, hfin, fun hmem => ?_, h.sound.serves.running w _ _ habs⟩
  exact hfin ((h.sound.answering.finished _).mpr (Or.inl hmem))

lemma Inv.step (h : Inv dev stream n s) (hstep : s.step dev stream n e = some s') :
    Inv dev stream n s' := by
  have howned := h.sound.sim.owned
  cases step_happens hstep with
  | @works pe proc hproc hans =>
    have hlogs := PoolProc.step_logs howned hproc
    have hdecoded : s.proc.decoded ≤ proc.decoded := by
      generalize hl : proc.log = l at hlogs
      have hl : proc.decoded = l.decoded := congrArg Log.decoded hl
      rw [hl]
      cases hlogs with
      | decodes _ => exact Nat.le_succ _
      | _ => exact le_rfl
    have hagrees : ∀ i ans, proc.answers i = some ans → s.served i = some ans := by
      -- the only new answer is the one `served` had for the request that returns
      generalize hl : proc.log = l at hlogs
      have hl : proc.answers = l.answers := congrArg Log.answers hl
      rw [hl]
      cases hlogs with
      | returns hw =>
        intro i ans hi
        simp only [Function.update_apply] at hi
        split_ifs at hi with hidx
        · obtain rfl := Option.some.inj hi
          rw [hidx]
          exact hans _ _ _ _ _ rfl hw
        · exact h.agrees i ans hi
      | _ => exact h.agrees
    refine ⟨h.sound.step hproc, fun w a b code hw => ?_, fun i hi => h.fresh i (hdecoded.trans hi),
      hagrees⟩
    obtain ⟨hreqs, hback⟩ := PoolProc.running_of_step howned hproc hw
    rw [hreqs]
    rcases hback rfl with hold | ⟨code', hold⟩
    · exact h.reached w a b code hold
    · exact (h.sound.answering.doing w a b _ _ hold).called rfl
  | effects hw hnone =>
    obtain ⟨-, hlt, -⟩ := h.running hw
    refine ⟨h.sound, h.reached, fun i hi => ?_, fun i ans hi => ?_⟩
    · have hne : i ≠ (s.proc.reqs _).idx := (hlt.trans_le hi).ne'
      exact (Function.update_of_ne hne _ _).trans (h.fresh i hi)
    · have hold := h.agrees i ans hi
      refine (Function.update_of_ne ?_ _ _).trans hold
      rintro rfl
      rw [hnone] at hold
      cases hold

/-! ## The simulation -/

section Phase

variable {log log' : Log} {served served' : ℕ → Option DevAnswer} {i : ℕ} {req : Request}

/-- How far a request is depends on what has been noted down for its position. -/
lemma phase_congr (hdecoded : i < log'.decoded ↔ i < log.decoded)
    (hreplies : i ∈ log'.replies.map Prod.fst ↔ i ∈ log.replies.map Prod.fst)
    (hfinished : i ∈ log'.finished ↔ i ∈ log.finished) (hserved : served' i = served i) :
    phase dev stream log' served' i = phase dev stream log served i := by
  simp only [phase, progress, hdecoded, hreplies, hfinished, hserved]

lemma phase_eq_progress (hreq : stream[i]? = some req) (hlt : i < log.decoded)
    (hreplies : i ∉ log.replies.map Prod.fst) (hkind : req.reqType ≠ nbdDisconnect) :
    phase dev stream log served i = progress dev log served i req := by
  simp only [phase, hreq]
  exact if_pos ⟨hlt, hreplies, hkind⟩

lemma phase_eq_idle (hreq : stream[i]? = some req)
    (hout : ¬ i < log.decoded ∨ i ∈ log.replies.map Prod.fst ∨ req.reqType = nbdDisconnect) :
    phase dev stream log served i = .idle := by
  simp only [phase, hreq]
  refine if_neg ?_
  rintro ⟨hlt, hreplies, hkind⟩
  rcases hout with h | h | h
  · exact h hlt
  · exact hreplies h
  · exact hkind h

end Phase

variable {s₀ : State δ Request Reply} {hist : List (Sight Request Reply)}

lemma view_goto {i : ℕ} {p : Phase Request Reply} {d : δ}
    (hself : phase dev stream s'.proc.log s'.served i = p)
    (hother : ∀ j, j ≠ i → phase dev stream s'.proc.log s'.served j =
      phase dev stream s.proc.log s.served j) (hdev : s'.dev = d) :
    s'.view dev stream = { (s.view dev stream).goto i p with value := d } := by
  simp only [view, State.goto, hdev, State.mk.injEq, true_and]
  funext j
  by_cases hj : j = i
  · rw [hj, Function.update_self, hself]
  · rw [Function.update_of_ne hj, hother j hj]

/-- Nothing is seen of a step that leaves every request as far as it was. -/
lemma view_eq {proc : PoolProc} (hphase : ∀ j, phase dev stream proc.log s.served j =
    phase dev stream s.proc.log s.served j) :
    Server.view dev stream { s with proc } = s.view dev stream := by
  simp only [view, funext hphase]

section Refused

variable (h : Inv dev stream n s) (hs : Shows dev.Serves s₀ hist (s.view dev stream))

include h hs

lemma Inv.shows_decode {proc : PoolProc} {pick : Option ℕ} {req : Request}
    (hreq : stream[s.proc.decoded]? = some req)
    (hlog : proc.log = { s.proc.log with decoded := s.proc.decoded + 1 }) :
    ∃ new, List.Forall₂ (Carries stream) (s.sight stream (.work (.decode pick))).toList new ∧
      Shows dev.Serves s₀ (hist ++ new) (Server.view dev stream { s with proc }) := by
  have hself : ¬ s.proc.decoded < s.proc.log.decoded := lt_irrefl _
  have hother : ∀ j, j ≠ s.proc.decoded → phase dev stream proc.log s.served j =
      phase dev stream s.proc.log s.served j := by
    intro j hj
    rw [hlog]
    refine phase_congr ?_ Iff.rfl Iff.rfl rfl
    simp only [PoolProc.log]
    omega
  by_cases hkind : req.reqType = nbdDisconnect
  · have hsame : Server.view dev stream { s with proc } = s.view dev stream := by
      refine view_eq fun j => ?_
      by_cases hj : j = s.proc.decoded
      · rw [hj, phase_eq_idle hreq (Or.inr (Or.inr hkind)),
          phase_eq_idle hreq (Or.inr (Or.inr hkind))]
      · exact hother j hj
    refine ⟨[], by simp [sight, hreq, hkind], ?_⟩
    rwa [List.append_nil, hsame]
  · have hfin : s.proc.decoded ∉ s.proc.finished := fun hmem =>
      (h.sound.sim.kept.ledger.finished_lt _ hmem).ne rfl
    have hanswered : s.proc.decoded ∉ s.proc.answered := fun hmem =>
      hfin ((h.sound.answering.finished _).mpr (Or.inl hmem))
    have hcalled : phase dev stream proc.log s.served s.proc.decoded = .called req := by
      rw [hlog]
      refine Eq.trans (phase_eq_progress hreq (Nat.lt_succ_self _) hanswered hkind) ?_
      simp [progress, h.fresh _ le_rfl, PoolProc.log, hfin]
    have hsight : s.sight stream (.work (.decode pick)) = some (.call s.proc.decoded req) := by
      simp [sight, hreq, hkind]
    refine ⟨[.call s.proc.decoded req], by rw [hsight]; exact .cons (.call hreq) .nil, ?_⟩
    rw [view_goto (s := s) (i := s.proc.decoded) hcalled hother rfl]
    exact hs.call req (phase_eq_idle hreq (Or.inl hself))

/-- The device does what it is called for. -/
lemma Inv.shows_effect {w a b : ℕ} {code : NbdErr}
    (hw : s.proc.workers w = .running a b .inDev code)
    (hnone : s.served (s.proc.reqs a).idx = none) :
    Shows dev.Serves s₀ hist (Server.view dev stream { s with
      dev := (dev.call (s.proc.reqs a).req s.dev).2
      served := Function.update s.served (s.proc.reqs a).idx
        (some (dev.call (s.proc.reqs a).req s.dev).1) }) := by
  obtain ⟨hreq, hlt, hfin, hanswered, hkind⟩ := h.running hw
  have hreach := (h.sound.answering.doing w a b _ _ hw).called rfl
  have hcalled : (s.view dev stream).phase (s.proc.reqs a).idx = .called (s.proc.reqs a).req := by
    refine Eq.trans (phase_eq_progress hreq hlt hanswered hkind) ?_
    simp [progress, hreach, hnone]
  rw [view_goto (s := s) (i := (s.proc.reqs a).idx) _ _ rfl]
  · exact hs.effect hcalled (dev.serves_call s.dev hreach)
  · refine Eq.trans (phase_eq_progress hreq hlt hanswered hkind) ?_
    simp [progress, hreach]
  · exact fun j hj => phase_congr Iff.rfl Iff.rfl Iff.rfl (Function.update_of_ne hj _ _)

lemma Inv.shows_refusal {proc : PoolProc} {w a b : ℕ} {code : NbdErr}
    (hw : s.proc.workers w = .running a b .start code)
    (hout : ¬ (s.proc.reqs a).req.Reaches dev.blockSize)
    (hlog : proc.log = { s.proc.log with finished := insert (s.proc.reqs a).idx s.proc.finished }) :
    Shows dev.Serves s₀ hist (Server.view dev stream { s with proc }) := by
  obtain ⟨hreq, hlt, hfin, hanswered, hkind⟩ := h.running hw
  have hcalled : (s.view dev stream).phase (s.proc.reqs a).idx = .called (s.proc.reqs a).req := by
    refine Eq.trans (phase_eq_progress hreq hlt hanswered hkind) ?_
    simp [progress, hout, PoolProc.log, hfin]
  rw [view_goto (s := s) (i := (s.proc.reqs a).idx) _ _ rfl]
  · exact hs.effect hcalled (dev.serves_refusal s.dev hout)
  · rw [hlog]
    refine Eq.trans (phase_eq_progress hreq hlt hanswered hkind) ?_
    simp [progress, hout]
  · intro j hj
    rw [hlog]
    exact phase_congr Iff.rfl Iff.rfl (by simp [PoolProc.log, hj]) rfl

end Refused

/-- A request for which the device was called is through: nothing is seen of it. -/
lemma Inv.view_leave (h : Inv dev stream n s) {proc : PoolProc} {w a b : ℕ} {code : NbdErr}
    (hw : s.proc.workers w = .running a b .returned code)
    (hlog : proc.log = { s.proc.log with finished := insert (s.proc.reqs a).idx s.proc.finished }) :
    Server.view dev stream { s with proc } = s.view dev stream := by
  obtain ⟨hreq, hlt, hfin, hanswered, hkind⟩ := h.running hw
  have hreach := h.reached w a b code hw
  refine view_eq fun j => ?_
  rw [hlog]
  by_cases hj : j = (s.proc.reqs a).idx
  · have hbefore : phase dev stream s.proc.log s.served (s.proc.reqs a).idx =
        progress dev s.proc.log s.served (s.proc.reqs a).idx (s.proc.reqs a).req :=
      phase_eq_progress hreq hlt hanswered hkind
    rw [hj, hbefore]
    refine Eq.trans (phase_eq_progress hreq hlt hanswered hkind) ?_
    simp [progress, hreach]
  · exact phase_congr Iff.rfl Iff.rfl (by simp [PoolProc.log, hj]) rfl

/-- A reply is written: it is the one the device has given. -/
lemma Inv.shows_write (h : Inv dev stream n s) (hs : Shows dev.Serves s₀ hist (s.view dev stream))
    {proc : PoolProc} {b : ℕ} (hwriter : s.proc.writer = .writing b)
    (hinv : Inv dev stream n { s with proc })
    (hlog : proc.log = { s.proc.log with
      replies := s.proc.replies ++ [(s.proc.replyOf b, (s.proc.resps b).write.1)] }) :
    ∃ new, List.Forall₂ (Carries stream) (s.sight stream (.work .write)).toList new ∧
      Shows dev.Serves s₀ (hist ++ new) (Server.view dev stream { s with proc }) := by
  have htransit : s.proc.InTransit b := by
    refine Or.inl ?_
    simp [PoolProc.transit, hwriter, PoolWriter.answer?]
  have hfin : s.proc.replyOf b ∈ s.proc.finished :=
    (h.sound.answering.finished _).mpr (Or.inr ⟨b, htransit, rfl⟩)
  have hlt := h.sound.sim.kept.ledger.finished_lt _ hfin
  have hanswered := h.sound.answering.apart b htransit
  -- the reply is one to its request, by the device's answer
  have hmem : (s.proc.replyOf b, (s.proc.resps b).write.1) ∈ proc.replies := by
    have hreplies : proc.replies = _ := congrArg Log.replies hlog
    rw [hreplies]
    exact List.mem_append_right _ (List.mem_singleton_self _)
  obtain ⟨req, hreq, hkind, hreplied⟩ := hinv.sound.answering.replied _ _ hmem
  obtain ⟨hreached, hrefused⟩ := hreplied.writtenAs
  obtain ⟨r, hbytes, hfinished⟩ : ∃ r : Reply, r.WrittenAs req (s.proc.resps b).write.1 ∧
      (s.view dev stream).phase (s.proc.replyOf b) = .finished r := by
    have hphase : (s.view dev stream).phase (s.proc.replyOf b) =
        progress dev s.proc.log s.served (s.proc.replyOf b) req :=
      phase_eq_progress hreq hlt hanswered hkind
    rw [hphase]
    by_cases hreach : req.Reaches dev.blockSize
    · obtain ⟨a, ha, hwritten⟩ := hreached hreach
      have hserved : s.served (s.proc.replyOf b) = some a := hinv.agrees _ a ha
      exact ⟨_, hwritten, by simp [progress, hreach, hserved]⟩
    · have hlogged : s.proc.replyOf b ∈ s.proc.log.finished := hfin
      exact ⟨_, hrefused hreach, by simp [progress, hreach, hlogged]⟩
  have hsight : s.sight stream (.work .write) =
      some (.ret (s.proc.replyOf b) (s.proc.resps b).write.1) := by
    simp [sight, hwriter]
  refine ⟨[.ret (s.proc.replyOf b) r], by rw [hsight]; exact .cons (.ret hreq hbytes) .nil, ?_⟩
  rw [view_goto (s := s) (i := s.proc.replyOf b) _ _ rfl]
  · exact hs.ret hfinished
  · rw [hlog]
    exact phase_eq_idle hreq (Or.inr (Or.inl (by simp)))
  · intro j hj
    rw [hlog]
    refine phase_congr Iff.rfl ?_ Iff.rfl rfl
    simp [PoolProc.log, hj]

/-- **One step.**  What the server does, the atomic device does in the same instant or not at
all. -/
lemma Inv.shows_step (h : Inv dev stream n s) (hstep : s.step dev stream n e = some s')
    (hs : Shows dev.Serves s₀ hist (s.view dev stream)) :
    ∃ new, List.Forall₂ (Carries stream) (s.sight stream e).toList new ∧
      Shows dev.Serves s₀ (hist ++ new) (s'.view dev stream) := by
  have hinv := h.step hstep
  -- most steps show nothing
  have hquiet : s.sight stream e = none → Shows dev.Serves s₀ hist (s'.view dev stream) →
      ∃ new, List.Forall₂ (Carries stream) (s.sight stream e).toList new ∧
        Shows dev.Serves s₀ (hist ++ new) (s'.view dev stream) := by
    intro hsight hshows
    exact ⟨[], by rw [hsight]; exact .nil, by rwa [List.append_nil]⟩
  cases step_happens hstep with
  | effects hw hnone => exact hquiet rfl (h.shows_effect hs hw hnone)
  | @works pe proc hproc hans =>
    have hlogs := PoolProc.step_logs h.sound.sim.owned hproc
    generalize hlog : proc.log = log at hlogs
    cases hlogs with
    | decodes hreq => exact h.shows_decode hs hreq hlog
    | refuses hw hout => exact hquiet rfl (h.shows_refusal hs hw hout hlog)
    | leaves hw => exact hquiet rfl (h.view_leave hw hlog ▸ hs)
    | returns hw =>
      have hsame : Server.view dev stream { s with proc } = s.view dev stream := by
        refine view_eq fun j => ?_
        rw [hlog]
        exact phase_congr Iff.rfl Iff.rfl Iff.rfl rfl
      exact hquiet rfl (hsame ▸ hs)
    | writes hwriter => exact h.shows_write hs hwriter hinv hlog
    | silent hdecode hwrite =>
      have hsame : Server.view dev stream { s with proc } = s.view dev stream :=
        view_eq fun j => by rw [hlog]
      refine hquiet ?_ (hsame ▸ hs)
      cases pe with
      | decode pick => exact absurd rfl (hdecode pick)
      | write => exact absurd rfl hwrite
      | _ => rfl

lemma view_init (d : δ) : (init d).view dev stream = ⟨d, fun _ => .idle⟩ := by
  have hphase : phase dev stream (init d).proc.log (init d).served = fun _ => .idle := by
    funext i
    cases hreq : stream[i]? with
    | none => simp only [phase, hreq]
    | some req => exact phase_eq_idle hreq (Or.inl (Nat.not_lt_zero i))
  simp only [Server.view, hphase]
  rfl

/-- **A whole run.** -/
lemma shows_view {d : δ} {es : List ServerEvent}
    (hrun : Machine.run (Server.step dev stream n) (Server.init d) es = some s) :
    ∃ hist, List.Forall₂ (Carries stream)
        (sights (Server.step dev stream n) (sight stream) (Server.init d) es) hist ∧
      Shows dev.Serves ⟨d, fun _ => .idle⟩ hist (s.view dev stream) := by
  -- the history goes along with what is seen
  have hsim : ∀ c e c' h hist, Inv dev stream n c ∧
      Shows dev.Serves ⟨d, fun _ => .idle⟩ hist (c.view dev stream) → True →
      Server.step dev stream n c e = some c' → List.Forall₂ (Carries stream) h hist →
      ∃ hist', List.Forall₂ (Carries stream) (h ++ (sight stream c e).toList) hist' ∧
        Inv dev stream n c' ∧
          Shows dev.Serves ⟨d, fun _ => .idle⟩ hist' (c'.view dev stream) := by
    rintro c e c' h hist ⟨hinv, hs⟩ - hstep hh
    obtain ⟨new, hnew, hshows⟩ := hinv.shows_step hstep hs
    exact ⟨hist ++ new, List.rel_append hh hnew, hinv.step hstep, hshows⟩
  have hstart : Shows dev.Serves ⟨d, fun _ => .idle⟩ [] ((Server.init d).view dev stream) := by
    rw [view_init]
    exact .start
  obtain ⟨hist, hseen, -, hshows⟩ := exists_of_simulation hsim
    (Machine.meets_of_all (fun _ _ => trivial) es) hrun ⟨.init d, hstart⟩ .nil
  exact ⟨hist, hseen, hshows⟩

/-- Where no read of the history has failed, the stream has the frames of its replies and nothing
else. -/
lemma Carries.eq_map {seen : List (Sight Request Bytes)} {hist : List (Sight Request Reply)}
    (h : List.Forall₂ (Carries stream) seen hist)
    (hok : ∀ i req r, .ret i r ∈ hist → stream[i]? = some req → req.reqType = nbdRead →
      r.errCode = nbdRespSuccess) : seen = hist.map (Sight.map Reply.frame) := by
  induction h with
  | nil => rfl
  | @cons x y seen hist hxy _ ih =>
    rw [List.map_cons, ← ih fun i req r hr => hok i req r (List.mem_cons_of_mem _ hr)]
    cases hxy with
    | call hreq => rfl
    | ret hreq hbytes =>
      obtain ⟨stray, rfl, hstray⟩ := hbytes
      obtain rfl : stray = [] := by
        by_contra hne
        obtain ⟨hread, hfailed⟩ := hstray hne
        exact hfailed (hok _ _ _ (List.mem_cons_self ..) hreq hread)
      rw [List.append_nil]
      rfl

/-- **The server is linearizable.**  Over any stream, with any number of workers and any device
whose calls take effect in an instant, in every interleaving: there is a history in which each
request is executed in one instant between its coming in and its reply, by a device that ends where
the server's does.  What is seen on the stream is this history: the requests that have been decoded
and the bytes of the replies, with stray data behind the reply to a read that has failed.  If none
has, the bytes are the frames of the replies. -/
theorem server_linearizable (dev : Device δ) (d : δ) (stream : List Request) (n : ℕ)
    (es : List ServerEvent) (s : Server δ)
    (hrun : Machine.run (step dev stream n) (init d) es = some s) :
    ∃ hist v, Shows dev.Serves ⟨d, fun _ => .idle⟩ hist v ∧ v.value = s.dev ∧
      List.Forall₂ (Carries stream) (sights (step dev stream n) (sight stream) (init d) es) hist ∧
      ((∀ i req r, .ret i r ∈ hist → stream[i]? = some req → req.reqType = nbdRead →
          r.errCode = nbdRespSuccess) →
        sights (step dev stream n) (sight stream) (init d) es =
          hist.map (Sight.map Reply.frame)) := by
  obtain ⟨hist, hseen, hshows⟩ := shows_view hrun
  exact ⟨hist, s.view dev stream, hshows, rfl, hseen, Carries.eq_map hseen⟩

end Server

/-! ## The disk a client has in mind -/

/-- A disk of so many bytes: a read returns the bytes there, a write replaces them, and what reaches
outside is an error. -/
def idealDisk (blockSize : ℤ) : Device Bytes where
  blockSize := blockSize
  readAt disk len pos :=
    if 0 ≤ pos ∧ pos + len ≤ disk.length then ((slice disk pos.toNat len, none), disk)
    else (([], some errInputOutput), disk)
  writeAt disk buf pos :=
    if 0 ≤ pos ∧ pos + buf.length ≤ disk.length then
      ((buf.length, none), overwrite 0 disk pos.toNat buf)
    else ((0, some errInputOutput), disk)
  trim disk _ _ := (none, disk)
  flush disk := (none, disk)
  readAt_le disk len pos := by
    split_ifs
    · exact (length_slice disk pos.toNat len).trans_le (min_le_left _ _)
    · exact Nat.zero_le _
  readAt_full disk len pos := by
    split_ifs with hin
    · intro _
      exact length_slice_of_le (by omega)
    · intro herr
      cases herr

namespace Server

open ReqProc (oneWrite)

/-- A write of a block, and a read of it. -/
def racingStream : List Request :=
  [oneWrite, ⟨nbdRead, List.replicate ndbHandleLen 7, 0, 4, [], rfl⟩]

/-- Two workers: the read, decoded second, comes to the device first and is replied to first. -/
def racingRun : List ServerEvent :=
  [.work (.decode none), .work .enqueue, .work (.decode none), .work .enqueue,
    .work (.dequeue 0), .work (.dequeue 1), .work (.fetch 0 none), .work (.fetch 1 none),
    .work (.advance 0 ⟨[], none⟩), .work (.advance 1 ⟨[], none⟩), .effect 1, .effect 0,
    .work (.advance 1 ⟨[0, 0, 0, 0], none⟩), .work (.advance 1 ⟨[], none⟩), .work (.offer 1),
    .work .receive, .work .write, .work .putBack, .work (.advance 0 ⟨[], none⟩),
    .work (.advance 0 ⟨[], none⟩), .work (.offer 0), .work .receive, .work .write]

theorem server_linearizable_racing :
    ∃ s, Machine.run (step (idealDisk 4) racingStream 2) (init (zeros 8)) racingRun = some s ∧
      (sights (step (idealDisk 4) racingStream 2) (sight racingStream) (init (zeros 8))
        racingRun).length = 4 ∧
      ∃ hist v, Shows (idealDisk 4).Serves ⟨zeros 8, fun _ => .idle⟩ hist v ∧
        v.value = [1, 1, 1, 1, 0, 0, 0, 0] ∧
        List.Forall₂ (Carries racingStream) (sights (step (idealDisk 4) racingStream 2)
          (sight racingStream) (init (zeros 8)) racingRun) hist := by
  have hends : ((Machine.run (step (idealDisk 4) racingStream 2) (init (zeros 8)) racingRun).any
      fun s => decide (s.dev = [1, 1, 1, 1, 0, 0, 0, 0])) = true := by
    decide +kernel
  obtain ⟨s, hrun, hs⟩ := (Option.any_eq_true _ _).mp hends
  obtain ⟨hist, v, hshows, hv, hseen, -⟩ :=
    server_linearizable (idealDisk 4) (zeros 8) racingStream 2 racingRun s hrun
  exact ⟨s, hrun, by decide +kernel, hist, v, hshows, hv.trans (of_decide_eq_true hs), hseen⟩

end Server

end Usbd
