/-
  The sockets of asciiclient over a whole session.

  A monitor follows the state of the three sockets (`sockets`): bytes go through connected ones
  only, and a close takes a socket that is still open. It starts with what the set-up calls answer
  (`Env.sockets`). Every call of the client that talks on one socket leaves the monitor where it is,
  whatever the peers send, so the session takes it through its three closes. No socket is used after
  it has been closed, none is closed twice, the listening one carries no bytes, and a session that
  completes has closed all three (`sockets_released`).
-/
import Grnvs.Ascii.Quiet
import Grnvs.Lib.Monitor

namespace Grnvs.Ascii

open Bytes

inductive Status where
  | closed | opened | connected
deriving DecidableEq, Repr

/-- What an event makes of the sockets. -/
def sockets : Monitor (Fd → Status) Event where
  next S
    | .read fd _ _ | .write fd _ => if S fd = .connected then some S else none
    | .close fd => if S fd = .closed then none else some (Function.update S fd .closed)
    | .print _ | .check _ _ _ | .accept _ _ => some S

/-- The sockets a client can come to have. -/
def Env.sockets (env : Env) : Fd → Status
  | .control => if env.controlSocket then if env.connected then .connected else .opened else .closed
  | .listening => if env.dataSocket then .opened else .closed
  | .data => if env.accepted then .connected else .closed

/-- The sockets stay as they are. -/
abbrev Unmoved {α : Type} (S : Fd → Status) (x : Run α) : Prop := sockets.Stays World.log S x

section Calls

variable {α : Type} {S : Fd → Status} {fd : Fd} {x : Run α}

theorem Quiet.unmoved (h : Quiet x) : Unmoved S x := Monitor.stays_quiet fun w => (h w).1

theorem unmoved_note {e : Event} (h : sockets.next S e = some S) : Unmoved S (note e) :=
  Monitor.guides_emit (fun _ => rfl) h

section Connected

variable (h : S fd = .connected)
include h

theorem unmoved_readFd (p : Ptr) (n : Nat) : Unmoved S (readFd fd p n) := by
  refine (quiet_gets _).unmoved.bind fun got => ?_
  obtain ⟨got, rest⟩ := got
  have hread : sockets.next S (.read fd n got) = some S := if_pos h
  have hmodify : Unmoved S (Comp.modify fun w => (w.setNet fd rest).note (.read fd n got)) :=
    Monitor.guides_emit (fun _ => rfl) hread
  refine hmodify.bind fun _ => ?_
  cases got with
  | none => exact Monitor.stays_pure _
  | some bs => exact (quiet_store _ _).unmoved.bind fun _ => Monitor.stays_pure _

theorem unmoved_writeFd (p : Ptr) (n : Nat) : Unmoved S (writeFd fd p n) := by
  refine (quiet_gets _).unmoved.bind fun bytes => ?_
  refine Monitor.guides_ite (fun _ => unmoved_note ?_) fun _ => Monitor.guides_stop _
  exact if_pos h

variable [Libc]

theorem unmoved_sendMessage (m buf : Ptr) : Unmoved S (sendMessage fd m buf) :=
  (quiet_writeNet _ _ _).unmoved.bind fun _ => unmoved_writeFd h _ _

theorem unmoved_checkMessage (expected actual : Ptr) : Unmoved S (checkMessage fd expected actual) := by
  refine (quiet_strAt _).unmoved.bind fun _ => (quiet_strAt _).unmoved.bind fun _ => ?_
  refine (unmoved_note rfl).bind fun _ => (quiet_charAt _).unmoved.bind fun _ => ?_
  refine Monitor.guides_ite (fun _ => ?_) fun _ => Monitor.guides_ite (fun _ => ?_) fun _ => ?_
  · exact (quiet_strAt _).unmoved.bind fun _ => unmoved_note rfl
  · refine (quiet_declare _ _).unmoved.bind fun _ => (quiet_strcpy _ _).unmoved.bind fun _ => ?_
    refine (quiet_strcat _ _).unmoved.bind fun _ => (quiet_strcat _ _).unmoved.bind fun _ => ?_
    refine (quiet_strcat _ _).unmoved.bind fun _ => (quiet_strcat _ _).unmoved.bind fun _ => ?_
    refine (quiet_strcat _ _).unmoved.bind fun _ => (unmoved_sendMessage h _ _).bind fun _ => ?_
    refine (quiet_strAt _).unmoved.bind fun _ => (unmoved_note rfl).bind fun _ => ?_
    exact Monitor.guides_stop _
  · exact Monitor.stays_pure _

theorem unmoved_refill (src : Ptr) (n fuel : Nat) : Unmoved S (refill fd src n fuel) := by
  induction fuel with
  | zero => exact Monitor.guides_stop _
  | succ fuel ih =>
    refine (quiet_strlen _).unmoved.bind fun _ => ?_
    refine Monitor.guides_ite (fun _ => ?_) fun _ => Monitor.stays_pure _
    refine (quiet_strlen _).unmoved.bind fun _ => (unmoved_readFd h _ _).bind fun _ => ?_
    refine Monitor.guides_ite (fun _ => Monitor.stays_pure _) fun _ => ?_
    exact (quiet_strcat _ _).unmoved.bind fun _ => ih

theorem unmoved_readNet (fuel : Nat) (dest : Ptr) (n : Nat) (src : Ptr) (l : Nat) :
    Unmoved S (readNet fuel dest n src fd l) := by
  refine (quiet_formatBroken _).unmoved.bind fun _ => ?_
  refine (Monitor.stays_when (unmoved_checkMessage h _ _)).bind fun _ => ?_
  refine (quiet_charAt _).unmoved.bind fun _ => ?_
  refine (Monitor.stays_when (unmoved_checkMessage h _ _)).bind fun _ => ?_
  refine (quiet_digitsBefore _).unmoved.bind fun _ => (quiet_strAt _).unmoved.bind fun _ => ?_
  refine (quiet_declare _ _).unmoved.bind fun _ => (unmoved_refill h _ _ _).bind fun _ => ?_
  refine (quiet_formatBrokenFull _).unmoved.bind fun _ => ?_
  refine (Monitor.stays_when (unmoved_checkMessage h _ _)).bind fun _ => ?_
  exact (quiet_convert _ _ _ _ _ _).unmoved

theorem unmoved_recvLoop (dst : Ptr) (fuel pos nets : Nat) :
    Unmoved S (recvLoop fd dst fuel pos nets) := by
  induction fuel generalizing pos nets with
  | zero => exact Monitor.guides_stop _
  | succ fuel ih =>
    refine (quiet_charAt _).unmoved.bind fun _ => ?_
    refine Monitor.guides_ite (fun _ => ?_) fun _ => Monitor.stays_pure _
    refine (unmoved_readNet h _ _ _ _ _).bind fun _ => ?_
    exact (quiet_copyOut _ _ _).unmoved.bind fun _ => ih _ _

theorem unmoved_recvMessage (fuel : Nat) (dst : Ptr) : Unmoved S (recvMessage fuel fd dst) := by
  refine (quiet_memset _ _).unmoved.bind fun _ => (quiet_declare _ _).unmoved.bind fun _ => ?_
  refine (unmoved_readFd h _ _).bind fun _ => ?_
  exact Monitor.guides_ite (fun _ => Monitor.stays_pure _) fun _ => unmoved_recvLoop h _ _ _ _

theorem unmoved_receive (fuel : Nat) (c : Cursor) : Unmoved S (receive fuel fd c) :=
  Monitor.guides_ite
    (fun _ => (unmoved_recvMessage h _ _).bind fun _ => Monitor.stays_pure _)
    fun _ => Monitor.stays_pure _

theorem unmoved_sendText (head : String) (tail : Ptr) : Unmoved S (sendText fd head tail) :=
  (quiet_strcpy _ _).unmoved.bind fun _ => (quiet_strcat _ _).unmoved.bind fun _ =>
    unmoved_sendMessage h _ _

theorem unmoved_checkPrefix (letter : Byte) (expected start : Ptr) :
    Unmoved S (checkPrefix fd letter expected start) := by
  refine (quiet_charAt _).unmoved.bind fun _ => ?_
  refine Monitor.guides_ite (fun _ => unmoved_checkMessage h _ _) fun _ => ?_
  exact (quiet_charAt _).unmoved.bind fun _ => Monitor.stays_when (unmoved_checkMessage h _ _)

end Connected

theorem unmoved_accept (step : Step) (start : Ptr) : Unmoved S (accept step start) :=
  (quiet_strAt _).unmoved.bind fun _ => unmoved_note rfl

variable [Libc]

/-- The end of a step whose message is fixed. -/
theorem unmoved_taken (h : S fd = .connected) (expected : Ptr) (step : Step) (c : Cursor) :
    Unmoved S (do
      checkMessage fd expected c.startOfNetstring
      accept step c.startOfNetstring
      advance c) :=
  (unmoved_checkMessage h _ _).bind fun _ => (unmoved_accept _ _).bind fun _ => (quiet_advance c).unmoved

end Calls

/-! ## The session -/

section Session

variable {S : Fd → Status} {env : Env}

theorem guides_close {fd : Fd} (h : S fd ≠ .closed) :
    sockets.Guides World.log S (note (.close fd)) fun _ T => T = Function.update S fd .closed :=
  Monitor.guides_emit (fun _ => rfl) (if_neg h)

/-- What a failing set-up call is followed by. -/
theorem guides_closing (hcontrol : S .control ≠ .closed) (hlistening : S .listening ≠ .closed) :
    sockets.Guides World.log S (do
      note (.close .control)
      note (.close .listening)
      exit 1 : Run Unit) fun _ _ => False := by
  refine Monitor.guides_bind (guides_close hcontrol) fun _ T hT => ?_
  have hopen : T .listening ≠ .closed := by
    rw [hT]
    exact hlistening
  exact Monitor.guides_bind (guides_close hopen) fun _ _ _ => Monitor.guides_stop _

theorem connectControl_guides : sockets.Guides World.log env.sockets (connectControl env)
    fun _ T => T = env.sockets ∧ env.sockets .control = .connected := by
  refine Monitor.guides_unless (fun _ => Monitor.guides_stop _) fun hsocket => ?_
  have hcontrol : env.sockets .control = if env.connected then .connected else .opened :=
    if_pos (Bool.not_eq_false _ ▸ hsocket)
  refine Monitor.guides_ite (fun hconnected => ?_) fun hconnected => ?_
  · rw [hconnected] at hcontrol
    have hopen : env.sockets .control ≠ .closed := by
      rw [hcontrol]
      exact Status.noConfusion
    exact Monitor.guides_bind (guides_close hopen) fun _ _ _ => Monitor.guides_stop _
  · rw [Bool.not_eq_false] at hconnected
    rw [hconnected] at hcontrol
    exact (Monitor.stays_pure ()).mono fun _ _ hT => ⟨hT, hcontrol⟩

variable [Libc]

theorem unmoved_controlVersion (h : S .control = .connected) (fuel : Nat) :
    Unmoved S (controlVersion fuel) :=
  (unmoved_sendMessage h _ _).bind fun _ => (unmoved_recvMessage h _ _).bind fun _ =>
    unmoved_taken h _ .controlVersion ⟨_, Arr.recvbuf.ptr⟩

theorem unmoved_controlToken (h : S .control = .connected) (fuel : Nat) (c : Cursor) :
    Unmoved S (controlToken fuel c) :=
  (unmoved_sendText h _ _).bind fun _ => (unmoved_receive h _ _).bind fun _ =>
    (unmoved_checkPrefix h _ _ _).bind fun _ => (unmoved_accept _ _).bind fun _ =>
      (quiet_strcpy _ _).unmoved.bind fun _ => (quiet_advance _).unmoved

theorem openData_guides (h : env.sockets .control = .connected) :
    sockets.Guides World.log env.sockets (openData env)
      fun _ T => T = env.sockets ∧ env.sockets .listening = .opened ∧
        env.sockets .data = .connected := by
  have hcontrol : env.sockets .control ≠ .closed := by
    rw [h]
    exact Status.noConfusion
  refine Monitor.guides_unless (fun _ => Monitor.guides_stop _) fun hsocket => ?_
  have hlistening : env.sockets .listening = .opened := if_pos (Bool.not_eq_false _ ▸ hsocket)
  have hopen : env.sockets .listening ≠ .closed := by
    rw [hlistening]
    exact Status.noConfusion
  refine Monitor.guides_unless (fun _ => guides_closing hcontrol hopen) fun _ => ?_
  refine Monitor.guides_unless (fun _ => guides_closing hcontrol hopen) fun _ => ?_
  refine (quiet_strcpy _ _).unmoved.bind fun _ => (quiet_store _ _).unmoved.bind fun _ => ?_
  refine (quiet_strcat _ _).unmoved.bind fun _ => (unmoved_sendMessage h _ _).bind fun _ => ?_
  refine Monitor.guides_ite (fun _ => ?_) fun haccepted => ?_
  · exact (guides_closing hcontrol hopen).mono fun _ _ hfalse => hfalse.elim
  · have hdata : env.sockets .data = .connected := if_pos (Bool.not_eq_false _ ▸ haccepted)
    exact (Monitor.stays_pure ()).mono fun _ _ hT => ⟨hT, hlistening, hdata⟩

theorem unmoved_dataVersion (h : S .data = .connected) (fuel : Nat) : Unmoved S (dataVersion fuel) :=
  (unmoved_recvMessage h _ _).bind fun _ => unmoved_taken h _ .dataVersion ⟨_, Arr.recvbuf.ptr⟩

theorem unmoved_dataToken (h : S .data = .connected) (fuel : Nat) (c : Cursor) :
    Unmoved S (dataToken fuel c) :=
  (unmoved_sendText h _ _).bind fun _ => (unmoved_receive h _ _).bind fun _ =>
    (quiet_strcpy _ _).unmoved.bind fun _ => (quiet_strcat _ _).unmoved.bind fun _ =>
      unmoved_taken h _ _ _

/-- The last step on the data connection leaves the control connection. -/
theorem dataDtoken_guides (h : S .data = .connected) (hlistening : S .listening ≠ .closed)
    (fuel : Nat) (c : Cursor) :
    sockets.Guides World.log S (dataDtoken fuel c) fun _ T =>
      T = Function.update (Function.update S .listening .closed) .data .closed := by
  refine (unmoved_sendText h _ _).bind fun _ => (unmoved_receive h _ _).bind fun _ => ?_
  refine (unmoved_checkPrefix h _ _ _).bind fun _ => (unmoved_accept _ _).bind fun _ => ?_
  refine (quiet_strcpy _ _).unmoved.bind fun _ => (quiet_advance _).unmoved.bind fun _ => ?_
  refine Monitor.guides_bind (guides_close hlistening) fun _ T hT => ?_
  have hopen : T .data ≠ .closed := by
    rw [hT]
    show S .data ≠ .closed
    rw [h]
    exact Status.noConfusion
  refine Monitor.guides_bind (guides_close hopen) fun _ U hU => ?_
  refine (Monitor.stays_pure _).mono fun _ V hV => ?_
  rw [hV, hU, hT]

theorem unmoved_controlLength (h : S .control = .connected) (fuel : Nat) (c : Cursor) :
    Unmoved S (controlLength fuel c) :=
  (unmoved_receive h _ _).bind fun _ => (quiet_strcpy _ _).unmoved.bind fun _ =>
    (quiet_strlen _).unmoved.bind fun _ => (quiet_store _ _).unmoved.bind fun _ =>
      unmoved_taken h _ _ _

theorem controlAck_guides (h : S .control = .connected) (fuel : Nat) (c : Cursor) :
    sockets.Guides World.log S (controlAck fuel c) fun _ T =>
      T = Function.update S .control .closed := by
  refine (unmoved_sendText h _ _).bind fun _ => (unmoved_receive h _ _).bind fun _ => ?_
  refine (quiet_strcpy _ _).unmoved.bind fun _ => (unmoved_checkMessage h _ _).bind fun _ => ?_
  refine (unmoved_accept _ _).bind fun _ => (quiet_advance _).unmoved.bind fun _ => guides_close ?_
  rw [h]
  exact Status.noConfusion

/-- The whole client. -/
theorem session_guides (fuel : Nat) (env : Env) :
    sockets.Guides World.log env.sockets (session fuel env) fun _ T =>
      ∀ fd, env.sockets fd ≠ .closed ∧ T fd = .closed := by
  refine (quiet_declare _ _).unmoved.bind fun _ => (quiet_declare _ _).unmoved.bind fun _ => ?_
  refine (quiet_declare _ _).unmoved.bind fun _ => (quiet_declare _ _).unmoved.bind fun _ => ?_
  refine Monitor.guides_bind connectControl_guides fun _ S hS => ?_
  obtain ⟨rfl, hcontrol⟩ := hS
  refine (unmoved_controlVersion hcontrol fuel).bind fun c => ?_
  refine (unmoved_controlToken hcontrol fuel c).bind fun _ => ?_
  refine Monitor.guides_bind (openData_guides hcontrol) fun _ S hS => ?_
  obtain ⟨rfl, hlistening, hdata⟩ := hS
  refine (unmoved_dataVersion hdata fuel).bind fun c => ?_
  refine (unmoved_dataToken hdata fuel c).bind fun c => ?_
  have hopen : env.sockets .listening ≠ .closed := by
    rw [hlistening]
    exact Status.noConfusion
  refine Monitor.guides_bind (dataDtoken_guides hdata hopen fuel c) fun c T hT => ?_
  have hkept : T .control = .connected := by
    rw [hT]
    exact hcontrol
  refine (unmoved_controlLength hkept fuel c).bind fun c => ?_
  refine (controlAck_guides hkept fuel c).mono fun _ U hU fd => ?_
  rw [hU, hT]
  cases fd with
  | control => exact ⟨by rw [hcontrol]; exact Status.noConfusion, rfl⟩
  | listening => exact ⟨hopen, rfl⟩
  | data => exact ⟨by rw [hdata]; exact Status.noConfusion, rfl⟩

theorem assignment4_guides (fuel : Nat) (env : Env) :
    sockets.Guides World.log env.sockets (assignment4 fuel env) fun _ T =>
      env.addressParsed = true → ∀ fd, env.sockets fd ≠ .closed ∧ T fd = .closed := by
  refine Monitor.guides_ite (fun _ => ?_) fun hparsed => ?_
  · exact (session_guides fuel env).mono fun _ _ h _ => h
  · exact (Monitor.stays_pure ()).mono fun _ _ _ h => absurd h hparsed

end Session

/-! ## What the monitor says of a log -/

/-- Bytes go through a socket. -/
def Event.Talks (fd : Fd) : Event → Prop
  | .read fd' _ _ | .write fd' _ => fd' = fd
  | _ => False

section Monitor

variable {S : Fd → Status}

theorem sockets_talks {e : Event} {fd : Fd} {T : Fd → Status} (h : sockets.next S e = some T)
    (he : e.Talks fd) : S fd = .connected := by
  cases e with
  | read fd' n got =>
    rw [← he]
    by_contra hnot
    exact absurd (h.symm.trans (if_neg hnot)) (by simp)
  | write fd' bytes =>
    rw [← he]
    by_contra hnot
    exact absurd (h.symm.trans (if_neg hnot)) (by simp)
  | _ => exact he.elim

theorem sockets_close {fd : Fd} {T : Fd → Status} (h : sockets.next S (.close fd) = some T) :
    S fd ≠ .closed ∧ T = Function.update S fd .closed := by
  by_cases hclosed : S fd = .closed
  · exact absurd (h.symm.trans (if_pos hclosed)) (by simp)
  · exact ⟨hclosed, Option.some.inj (h.symm.trans (if_neg hclosed))⟩

theorem sockets_same {e : Event} {T : Fd → Status} (h : sockets.next S e = some T)
    (he : ∀ fd, e ≠ .close fd) : T = S := by
  cases e with
  | read fd' n got =>
    have hnext := h.symm.trans (if_pos (sockets_talks h rfl))
    exact Option.some.inj hnext
  | write fd' bytes =>
    have hnext := h.symm.trans (if_pos (sockets_talks h rfl))
    exact Option.some.inj hnext
  | close fd' => exact absurd rfl (he fd')
  | print bytes => exact (Option.some.inj h).symm
  | check fd' expected actual => exact (Option.some.inj h).symm
  | accept step message => exact (Option.some.inj h).symm

/-- A socket is closed once its close is in the log, and not before. -/
theorem sockets_after {T : Fd → Status} {log : List Event} (h : sockets.after S log = some T)
    (fd : Fd) : T fd = if .close fd ∈ log then .closed else S fd := by
  induction log generalizing S with
  | nil =>
    cases h
    rw [if_neg List.not_mem_nil]
  | cons e log ih =>
    rw [Monitor.after, Option.bind_eq_some_iff] at h
    obtain ⟨U, hnext, hrest⟩ := h
    rw [ih hrest]
    by_cases hlater : .close fd ∈ log
    · rw [if_pos hlater, if_pos (List.mem_cons_of_mem _ hlater)]
    · rw [if_neg hlater]
      by_cases he : ∃ fd', e = .close fd'
      · obtain ⟨fd', rfl⟩ := he
        rw [(sockets_close hnext).2]
        by_cases hfd : fd = fd'
        · rw [hfd, Function.update_self, if_pos List.mem_cons_self]
        · have hmem : Event.close fd ∉ .close fd' :: log := by simp [hfd, hlater]
          rw [Function.update_of_ne hfd, if_neg hmem]
      · have hmem : Event.close fd ∉ e :: log := by
          rw [List.mem_cons, not_or]
          exact ⟨fun heq => he ⟨fd, heq.symm⟩, hlater⟩
        rw [sockets_same hnext fun fd' heq => he ⟨fd', heq⟩, if_neg hmem]

end Monitor

variable [Libc]

/-- Whatever the peers send and the set-up calls answer, and however the client ends: it reads and
    writes connected sockets only, closes a socket at most once and uses it no more; and when it
    completes, it has closed all three. -/
theorem sockets_released (fuel : Nat) (env : Env) (order : EvalOrder) (nick msg : List Byte)
    (net : Fd → Peer) :
    (∀ a e b fd, ((assignment4 fuel env).run (start order nick msg net)).2.log = a ++ e :: b →
      e.Talks fd → env.sockets fd = .connected ∧ .close fd ∉ a) ∧
    (∀ a fd b, ((assignment4 fuel env).run (start order nick msg net)).2.log =
      a ++ .close fd :: b → env.sockets fd ≠ .closed ∧ .close fd ∉ a) ∧
    (env.addressParsed = true →
      ((assignment4 fuel env).run (start order nick msg net)).1 = .ok () →
      ∀ fd, .close fd ∈ ((assignment4 fuel env).run (start order nick msg net)).2.log) := by
  obtain ⟨es, T, hlog, hafter, hok⟩ := assignment4_guides fuel env (start order nick msg net)
  have hes : ((assignment4 fuel env).run (start order nick msg net)).2.log = es := hlog
  rw [hes]
  refine ⟨?_, ?_, ?_⟩
  · intro a e b fd hsplit htalks
    rw [hsplit] at hafter
    obtain ⟨U, V, hbefore, hnext⟩ := Monitor.after_split hafter
    have hconnected := sockets_talks hnext htalks
    rw [sockets_after hbefore fd] at hconnected
    by_cases hclosed : .close fd ∈ a
    · rw [if_pos hclosed] at hconnected
      cases hconnected
    · rw [if_neg hclosed] at hconnected
      exact ⟨hconnected, hclosed⟩
  · intro a fd b hsplit
    rw [hsplit] at hafter
    obtain ⟨U, V, hbefore, hnext⟩ := Monitor.after_split hafter
    have hopen := (sockets_close hnext).1
    rw [sockets_after hbefore fd] at hopen
    by_cases hclosed : .close fd ∈ a
    · rw [if_pos hclosed] at hopen
      exact absurd rfl hopen
    · rw [if_neg hclosed] at hopen
      exact ⟨hopen, hclosed⟩
  · intro hparsed hreturned fd
    obtain ⟨hopen, hend⟩ := hok () hreturned hparsed fd
    rw [sockets_after hafter fd] at hend
    by_contra hclosed
    rw [if_neg hclosed] at hend
    exact hopen hend

end Grnvs.Ascii
