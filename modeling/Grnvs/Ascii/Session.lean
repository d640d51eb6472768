/-
  Whole sessions.

  `assignment4_script`: against a server that sends its seven messages one a read, the client
  does what `Script.play` says, to the frame: all six frames and the end, or one error frame at
  the first message it does not accept.
-/
import Grnvs.Ascii.Protocol
import Grnvs.Ascii.Steps

namespace Grnvs.Ascii

open Bytes Decimal Netstring

/-- Every set-up call succeeds. -/
def Env.working (port : UInt16) : Env := ⟨true, true, true, true, true, true, true, port⟩

/-- Frames as they go over the wire. -/
def onWire (frames : List (Fd × List Byte)) : List (Fd × List Byte) :=
  frames.map fun f => (f.1, enc f.2)

theorem onWire_append (f f' : List (Fd × List Byte)) : onWire (f ++ f') = onWire f ++ onWire f' :=
  List.map_append

/-! ## The set-up -/

section Setup

variable {nick msg : List Byte} {w : World} {env : Env}

theorem connectControl_run {port : UInt16} :
    (connectControl (Env.working port)).run w = (.ok (), w) := by
  unfold connectControl
  rw [Comp.when_neg (by simp [Env.working]), Comp.when_neg (by simp [Env.working])]
  rfl

variable [Libc]

/-- The port is told to the server. -/
theorem openData_run (port : UInt16) (hc : Client nick msg w) :
    ∃ w', (openData (Env.working port)).run w = (.ok (), w') ∧
      Sent w w' [(.control, enc (lit "C " ++ dec port.toNat))] := by
  have hB : BUFSIZE = 4096 := rfl
  have h2 : (lit "C ").length = 2 := by decide
  have hp : port.toNat < 65536 := port.toNat_lt
  have hd5 : (dec port.toNat).length ≤ 5 := dec_length_le (by decide) (by omega)
  obtain ⟨l1, hr1, hl1, hc1⟩ := strcpy_start (a := .text) (isStr_lit (w := w) (s := "C ")
    (by decide)) (litPtr_apart _ _) (by rw [hc.text]; decide)
  set w1 := w.setArr .text l1 with hw1
  have hsb : (w1.mem .sendbuf).length = BUFSIZE := by
    rw [hw1, World.setArr_mem_of_ne _ _ (by decide)]
    exact hc.sendbuf
  have hl2le : (dec port.toNat ++ [0]).length ≤ (w1.mem .sendbuf).length := by
    rw [hsb, List.length_append, List.length_singleton]
    omega
  have hr2 := store_start hl2le
  set l2 := dec port.toNat ++ [0] ++ (w1.mem .sendbuf).drop (dec port.toNat ++ [0]).length with hl2
  have hl2len : l2.length = BUFSIZE := by
    simp only [hl2, List.length_append, List.length_singleton, List.length_drop, hsb]
    omega
  set w2 := w1.setArr .sendbuf l2 with hw2
  have hport : IsStr w2 Arr.sendbuf.ptr (dec port.toNat) := by
    unfold IsStr
    rw [Arr.ptr_blk, World.block_arr, Arr.ptr_off, List.drop_zero, hw2, World.setArr_mem, hl2,
      List.append_assoc]
    exact cstr_terminated (dec_nulFree _) _
  have htext : IsStr w2 Arr.text.ptr (lit "C ") := by
    refine (isStr_setArr (by decide)).mpr ?_
    simpa [IsStr, hw1] using hc1
  have htsize : (w2.mem .text).length = BUFSIZE := by
    rw [hw2, World.setArr_mem_of_ne _ _ (by decide), hw1, World.setArr_mem, hl1, hc.text]
  obtain ⟨l3, hr3, hl3, hc3⟩ := strcat_start htext hport (by decide) (by omega)
  obtain ⟨w4, hr4, h4⟩ := sendMessage_sent .control Arr.text.ptr (w := w2.setArr .text l3)
    (t := lit "C " ++ dec port.toNat) (by simpa [IsStr] using hc3)
    (by decide) (by rw [World.setArr_mem_of_ne _ _ (by decide), hw2, World.setArr_mem, hl2len])
    (by rw [List.length_append]; omega)
  refine ⟨w4, ?_, ?_, h4.net, h4.writes⟩
  · unfold openData
    rw [Comp.when_neg (by simp [Env.working]), Comp.pure_bind_run,
      Comp.when_neg (by simp [Env.working]), Comp.pure_bind_run,
      Comp.when_neg (by simp [Env.working]), Comp.pure_bind_run, Comp.bind_ok hr1]
    change (store Arr.sendbuf.ptr (dec port.toNat ++ [0]) >>= fun _ => _).run w1 = _
    rw [Comp.bind_ok hr2, Comp.bind_ok hr3, Comp.bind_ok hr4,
      Comp.when_neg (by simp [Env.working]), Comp.pure_run]
  · refine (((frame_setArr w (hl1.trans hc.text)).trans (frame_setArr w1 hl2len)).trans
      ((frame_setArr w2 (hl3.trans htsize)).trans h4.frame)).mono (by simp)

end Setup

/-- The client in front of its first call: the arrays are cleared, nothing is read or sent. -/
theorem session_declared [Libc] (env : Env) (henv : env.addressParsed = true) (order : EvalOrder)
    {nick msg : List Byte} (net : Fd → Peer) (fuel : Nat) (hn : NulFree nick) (hm : NulFree msg) :
    ∃ w, (assignment4 fuel env).run (start order nick msg net) =
        (do connectControl env
            let c ← controlVersion fuel
            let _ ← controlToken fuel c
            openData env
            let c ← dataVersion fuel
            let c ← dataToken fuel c
            let c ← dataDtoken fuel c
            let c ← controlLength fuel c
            controlAck fuel c : Comp Stop World Unit).run w ∧
      Client nick msg w ∧ (w.mem .recvbuf).length = BUFSIZE ∧ w.net = net ∧ w.log = [] := by
  set w0 := start order nick msg net with hw0
  set w := (((w0.setArr .recvbuf (zeros BUFSIZE)).setArr .sendbuf (zeros BUFSIZE)).setArr .token
    (zeros BUFSIZE)).setArr .text (zeros BUFSIZE) with hw
  have hstr : ∀ {p : Ptr} {s : List Byte}, IsStr w0 p s → (∀ a ∈ [Arr.recvbuf, .sendbuf, .token,
      .text], p.blk ≠ .arr a) → IsStr w p s := fun h hp =>
    (isStr_setArr (hp .text (by simp))).mpr ((isStr_setArr (hp .token (by simp))).mpr
      ((isStr_setArr (hp .sendbuf (by simp))).mpr ((isStr_setArr (hp .recvbuf (by simp))).mpr h)))
  have hmem : ∀ a ∈ [Arr.recvbuf, .sendbuf, .token, .text], (w.mem a).length = BUFSIZE := by
    intro a ha
    simp only [List.mem_cons, List.not_mem_nil, or_false] at ha
    rcases ha with rfl | rfl | rfl | rfl <;> simp [hw, World.setArr]
  refine ⟨w, ?_, ⟨hmem _ (by simp), hmem _ (by simp), hmem _ (by simp), ?_, ?_⟩,
    hmem _ (by simp), rfl, rfl⟩
  · unfold assignment4 session
    rw [if_pos henv, Comp.bind_ok (declare_run _ _ _), Comp.bind_ok (declare_run _ _ _),
      Comp.bind_ok (declare_run _ _ _), Comp.bind_ok (declare_run _ _ _)]
  · exact hstr (cstr_terminated hn []) (by decide)
  · exact hstr (cstr_terminated hm []) (by decide)

/-- Where the session starts: the arrays of `assignment4` are cleared, and the client is
    connected. -/
theorem session_start [Libc] (order : EvalOrder) {nick msg : List Byte} (net : Fd → Peer)
    (fuel : Nat) (port : UInt16) (hn : NulFree nick) (hm : NulFree msg) :
    ∃ w, (assignment4 fuel (Env.working port)).run (start order nick msg net) =
        (do let c ← controlVersion fuel
            let _ ← controlToken fuel c
            openData (Env.working port)
            let c ← dataVersion fuel
            let c ← dataToken fuel c
            let c ← dataDtoken fuel c
            let c ← controlLength fuel c
            controlAck fuel c : Run Unit).run w ∧
      Client nick msg w ∧ (w.mem .recvbuf).length = BUFSIZE ∧ w.net = net ∧ w.log = [] := by
  obtain ⟨w, hrun, h⟩ := session_declared (Env.working port) rfl order net fuel hn hm
  exact ⟨w, by rw [hrun, Comp.bind_ok connectControl_run], h⟩

/-! ## One message a read -/

/-- Argument strings the client can send. -/
structure Script.Roomy (S : Script) : Prop where
  nick : NulFree S.nick
  nick_le : S.nick.length ≤ 4087
  msg : NulFree S.msg
  msg_le : S.msg.length ≤ 4087

/-- The server's messages are short strings, and none of them is an error message. -/
structure Script.Fair (S : Script) : Prop extends S.Roomy where
  plain : ∀ s, Plain (S.said s)
  short : ∀ s, (S.said s).length ≤ 1000
  noError : ∀ s, (S.said s).headD 0 ≠ letterE

/-- What a socket still gets in the steps `todo`, one message a batch. -/
def Script.queue (S : Script) (todo : List Step) (fd : Fd) : List (List (List Byte)) :=
  (todo.filter fun s => s.fd = fd).map fun s => [S.said s]

theorem Script.queue_same (S : Script) (s : Step) (todo : List Step) :
    S.queue (s :: todo) s.fd = [S.said s] :: S.queue todo s.fd := by
  simp [queue]

theorem Script.queue_other (S : Script) {s : Step} {fd : Fd} (h : fd ≠ s.fd) (todo : List Step) :
    S.queue (s :: todo) fd = S.queue todo fd := by
  have hs : s.fd ≠ fd := fun e => h e.symm
  simp [queue, hs]

theorem usable_single {fuel : Nat} {m : List Byte} (hf : 2 ≤ fuel) (hm : Plain m)
    (hl : m.length ≤ 1000) : Usable fuel [m] where
  ne_nil := List.cons_ne_nil _ _
  plain := by simpa using hm
  fits := by
    have h1 := enc_length m
    have h2 : (dec m.length).length ≤ 4 := dec_length_le (by decide) (by omega)
    exact fits_of_length (by rw [encs_length_cons, encs_nil, List.length_nil]; omega)
  fuel := hf

/-- Between two steps: the buffer is used up, and the sockets hold what the script still has. -/
structure Ready (S : Script) (fuel : Nat) (more : Fd → List (Option (List Byte)))
    (todo : List Step) (w : World) (c : Cursor) : Prop where
  client : Client S.nick S.msg w
  cursor : ∃ done, Holds w c done []
  supply : ∀ fd, Supply fuel w fd (S.queue todo fd) (more fd)

/-- `x` does what the script says for the steps `todo`. -/
def Follows (S : Script) (todo : List Step) (x : Run Unit) (w : World) : Prop :=
  ∃ w', x.run w = (if (S.play todo).2 then .ok () else .error (.exit (-1)), w') ∧
    writes w'.log = writes w.log ++ onWire (S.play todo).1

section Follows

variable {S : Script} {fuel : Nat} {more : Fd → List (Option (List Byte))} {s : Step}
  {todo : List Step} {w w1 w2 : World} {c c1 c2 : Cursor} {x y : Run Unit}
  {done done1 u1 q : List (List Byte)} {bs1 : List (List (List Byte))}

theorem follows_accept (h : S.Accepts s) (hrun : x.run w = y.run w2)
    (hw : writes w2.log = writes w.log ++ onWire (S.before s)) (hy : Follows S todo y w2) :
    Follows S (s :: todo) x w := by
  obtain ⟨w', hr, hl⟩ := hy
  refine ⟨w', ?_, ?_⟩
  · rw [hrun, hr, Script.play_accept h]
  · rw [hl, hw, Script.play_accept h, onWire_append, List.append_assoc]

theorem follows_refuse (h : ¬ S.Accepts s) (hrun : x.run w = (.error (.exit (-1)), w1))
    (hw : writes w1.log = writes w.log ++ onWire (S.before s) ++
      [(s.fd, enc (expectedText (S.expected s) (S.said s)))]) : Follows S (s :: todo) x w := by
  refine ⟨w1, ?_, ?_⟩
  · rw [hrun, Script.play_refuse h]
    rfl
  · rw [hw, Script.play_refuse h, onWire_append, ← List.append_assoc]
    rfl

/-- With one message a batch, an arrival has a batch of its own. -/
theorem Arrival.single {fd : Fd} {m : List Byte} {bs bs' : List (List (List Byte))}
    {mo : List (Option (List Byte))} {sent : List (Fd × List Byte)} {done' unread' : List (List Byte)}
    (h : Arrival fuel fd w done [] ([m] :: bs) mo m q sent w1 c1 done' unread' bs') :
    done' = [] ∧ unread' = [] ∧ bs' = bs := by
  rcases h.origin with ⟨_, h2, _⟩ | ⟨_, h2, h3⟩
  · cases h2
  · simp only [List.cons.injEq, true_and] at h3
    exact ⟨h2, h3.1.symm, h3.2.symm⟩

/-- A step taken leaves the client ready for the next one. -/
theorem Ready.step {A : List Arr} {sent : List (Fd × List Byte)}
    (h : Ready S fuel more (s :: todo) w c)
    (ha : Arrival fuel s.fd w done [] (S.queue (s :: todo) s.fd) (more s.fd) (S.said s) q sent
      w1 c1 done1 u1 bs1)
    (hp : Passed A w1 w2) (hh : Holds w2 c2 (done1 ++ [S.said s]) u1) (hn : .nick ∉ A)
    (hm : .msg ∉ A) : Ready S fuel more todo w2 c2 where
  client := (ha.client h.client).frame hp.frame hn hm
  cursor := by
    rw [S.queue_same] at ha
    obtain ⟨rfl, rfl, rfl⟩ := ha.single
    exact ⟨_, hh⟩
  supply fd := by
    rw [S.queue_same] at ha
    obtain ⟨rfl, rfl, rfl⟩ := ha.single
    by_cases hfd : fd = s.fd
    · subst hfd
      exact ha.supply.of_net (by rw [hp.net])
    · have := h.supply fd
      rw [S.queue_other hfd] at this
      exact this.of_net (by rw [hp.net, ha.net fd hfd])

theorem Script.Fair.token_le (hS : S.Fair) : S.token.length ≤ 1000 := by
  have := hS.short .controlToken
  rw [Script.token, List.length_drop]
  omega

theorem Script.Fair.dtoken_le (hS : S.Fair) : S.dtoken.length ≤ 1000 := by
  have := hS.short .dataDtoken
  rw [Script.dtoken, List.length_drop]
  omega

/-- A used-up cursor is the one the client starts with. -/
theorem Holds.used_up (h : Holds w c done []) : c = ⟨0, Arr.recvbuf.ptr⟩ := by
  have hc := h.count
  have hs := h.start
  rw [if_pos rfl] at hs
  rcases c with ⟨n, p⟩
  simp only [List.length_nil] at hc hs
  rw [hc, hs]
  rfl

variable [Libc]

/-- The steps that compare the whole message. -/
theorem follows_check {k : Cursor → Run Unit} {expected : Ptr} (fd : Fd)
    (hS : S.Fair) (hfd : s.fd = fd) (h : Ready S fuel more (s :: todo) w c)
    (hacc : S.Accepts s ↔ S.said s = S.expected s) (hexp : (S.expected s).length ≤ 3050)
    (hrun : x.run w = ((do checkMessage fd expected c1.startOfNetstring
                           accept s c1.startOfNetstring
                           advance c1 : Run Cursor) >>= k).run w1)
    (ha : Arrival fuel fd w done [] (S.queue (s :: todo) fd) (more fd) (S.said s) q
      (onWire (S.before s)) w1 c1 done1 u1 bs1)
    (hx : IsStr w1 expected (S.expected s)) (hxe : expected.blk ≠ .arr .errmsg)
    (hk : ∀ c2 w2, Ready S fuel more todo w2 c2 →
      Frame [.text, .sendbuf, .recvbuf, .buf, .scratch] w w2 → Follows S todo (k c2) w2) :
    Follows S (s :: todo) x w := by
  subst hfd
  by_cases hs : S.Accepts s
  · have hm := hacc.mp hs
    obtain ⟨c2, w2, hr, hh, hp⟩ := checked_same s.fd s ha.holds
      (by rw [hm]; exact hx) (hS.noError s)
    refine follows_accept hs (hrun.trans (Comp.bind_ok hr)) ?_ (hk c2 w2
      (h.step ha hp hh List.not_mem_nil List.not_mem_nil)
      ((ha.frame.trans hp.frame).mono (by simp)))
    rw [hp.writes, ha.writes]
  · have ha' := ha
    rw [S.queue_same] at ha'
    obtain ⟨rfl, rfl, rfl⟩ := ha'.single
    have hsh := hS.short s
    obtain ⟨w', hr, hw⟩ := checked_refuse s.fd ha.holds hx (hS.noError s)
      (fun e => hs (hacc.mpr e.symm)) hxe (by omega)
    refine follows_refuse hs (hrun.trans (Comp.bind_error (Comp.bind_error hr))) ?_
    rw [hw, ha.writes]

theorem follows_controlAck [Libc.CopiesForward] (hS : S.Fair)
    (h : Ready S fuel more [.controlAck] w c)
    (htok : IsStr w Arr.token.ptr S.dtoken) : Follows S [.controlAck] (controlAck fuel c) w := by
  have htl := hS.dtoken_le
  obtain ⟨done, hh⟩ := h.cursor
  obtain ⟨w1, c1, done1, u1, bs1, hrun, ha, hx⟩ := controlAck_arrives h.client htok (by omega) hh
    (h.supply .control) rfl
  by_cases hs : S.Accepts .controlAck
  · have hm : S.said .controlAck = lit "S ACK" := hs
    obtain ⟨w2, hr, hp⟩ := checked_controlAck ha.holds (by rw [hm]; exact hx) (hS.noError _)
    refine follows_accept hs (y := pure ()) (hrun.trans hr) ?_
      ⟨w2, rfl, by simp [Script.play, onWire]⟩
    rw [hp.writes, ha.writes]
    rfl
  · obtain ⟨rfl, rfl, rfl⟩ := ha.single
    have hsh := hS.short .controlAck
    have h5 : (lit "S ACK").length = 5 := by decide
    obtain ⟨w', hr, hw⟩ := checked_refuse .control ha.holds hx (hS.noError _)
      (fun e => hs e.symm) (by decide) (by omega)
    refine follows_refuse hs (hrun.trans (Comp.bind_error hr)) ?_
    rw [hw, ha.writes]
    rfl

theorem follows_controlLength [Libc.CopiesForward] (hS : S.Fair)
    (h : Ready S fuel more [.controlLength, .controlAck] w c)
    (htok : IsStr w Arr.token.ptr S.dtoken) :
    Follows S [.controlLength, .controlAck] (controlLength fuel c >>= controlAck fuel) w := by
  have hm := hS.msg_le
  have hd : (dec S.msg.length).length ≤ 4 := dec_length_le (by decide) (by omega)
  have h2 : (lit "S ").length = 2 := by decide
  obtain ⟨done, hh⟩ := h.cursor
  obtain ⟨w1, c1, done1, u1, bs1, hrun, ha, hx⟩ := controlLength_arrives h.client hm hh
    (h.supply .control) rfl
  refine follows_check .control hS rfl h Iff.rfl ?_ (Comp.bind_congr hrun _) ha hx
    (by decide) fun c2 w2 hready hf => follows_controlAck hS hready (hf.isStr (by rintro a ⟨⟩; decide) htok)
  change (lit "S " ++ dec S.msg.length).length ≤ _
  rw [List.length_append]
  omega

theorem follows_dataDtoken [Libc.CopiesForward] (hS : S.Fair)
    (h : Ready S fuel more [.dataDtoken, .controlLength, .controlAck] w c) :
    Follows S [.dataDtoken, .controlLength, .controlAck]
      (dataDtoken fuel c >>= fun c => controlLength fuel c >>= controlAck fuel) w := by
  obtain ⟨done, hh⟩ := h.cursor
  obtain ⟨w1, c1, done1, u1, bs1, hrun, ha⟩ := dataDtoken_arrives h.client hS.msg_le hh
    (h.supply .data) rfl
  obtain ⟨hd1, hu1, hb1⟩ := ha.single
  by_cases hs : S.Accepts .dataDtoken
  · have hm : S.said .dataDtoken = 84 :: 32 :: S.dtoken := by
      have h2 : (S.said .dataDtoken).take 2 = [84, 32] := hs
      rw [← List.take_append_drop 2 (S.said .dataDtoken), h2]
      rfl
    have hah := ha.holds
    rw [hm] at hah
    -- the message has a batch of its own, so it also stands at the front of the buffer
    have hfront : IsStr w1 (Arr.recvbuf.ptr + 2) S.dtoken := by
      rw [hd1] at hah
      exact IsStr.add (s := [84, 32]) (hah.first rfl)
    obtain ⟨c2, w2, hr, hh2, hp, ht⟩ := checked_dataDtoken hah (ha.client h.client).token hfront
    rw [← hm] at hh2
    refine follows_accept hs (Comp.bind_ok (hrun.trans hr)) ?_ (follows_controlLength hS
      (h.step (s := .dataDtoken) ha hp hh2 (by decide) (by decide)) ht)
    rw [hp.writes, ha.writes]
    rfl
  · subst hd1
    have hsh := hS.short .dataDtoken
    obtain ⟨w', hr, hw⟩ := checked_refusePrefix .data ha.holds
      (isStr_lit (s := "T <dtoken>") (by decide)) (by decide) hs (hS.noError _) (by decide)
      (by simp [litPtr]) (by have : (lit "T <dtoken>").length = 10 := by decide
                             omega)
    refine follows_refuse hs (Comp.bind_error (hrun.trans (Comp.bind_error hr))) ?_
    rw [hw, ha.writes]
    rfl

theorem follows_dataToken [Libc.CopiesForward] (hS : S.Fair)
    (h : Ready S fuel more [.dataToken, .dataDtoken, .controlLength, .controlAck] w c)
    (htok : IsStr w Arr.token.ptr S.token) :
    Follows S [.dataToken, .dataDtoken, .controlLength, .controlAck]
      (dataToken fuel c >>= fun c => dataDtoken fuel c >>= fun c =>
        controlLength fuel c >>= controlAck fuel) w := by
  have htl := hS.token_le
  have h2 : (lit "T ").length = 2 := by decide
  obtain ⟨done, hh⟩ := h.cursor
  obtain ⟨w1, c1, done1, u1, bs1, hrun, ha, hx⟩ := dataToken_arrives h.client hS.nick_le htok
    (by omega) hh (h.supply .data) rfl
  refine follows_check .data hS rfl h Iff.rfl ?_ (Comp.bind_congr hrun _) ha hx
    (by decide) fun c2 w2 hready _ => follows_dataDtoken hS hready
  change (lit "T " ++ S.token).length ≤ _
  rw [List.length_append]
  omega

/-- The data connection, from the port on. -/
theorem follows_openData [Libc.CopiesForward] (hS : S.Fair)
    (h : Ready S fuel more (Step.all.drop 2) w c) (htok : IsStr w Arr.token.ptr S.token) :
    Follows S (Step.all.drop 2) (openData (Env.working S.port) >>= fun _ => dataVersion fuel >>=
      fun c => dataToken fuel c >>= fun c => dataDtoken fuel c >>= fun c =>
        controlLength fuel c >>= controlAck fuel) w := by
  obtain ⟨done, hh⟩ := h.cursor
  rw [hh.used_up] at hh
  obtain ⟨w0, hr0, h0⟩ := openData_run S.port h.client
  obtain ⟨w1, c1, done1, u1, bs1, hrun, ha⟩ := dataVersion_arrives (hh.frame h0.frame (by decide))
    ((h.supply .data).of_net (by rw [h0.net])) rfl
  refine follows_check .data (s := .dataVersion) hS rfl h Iff.rfl
    (by decide : (lit "T GRNVS V:1.0").length ≤ 3050)
    ((Comp.bind_ok hr0).trans (Comp.bind_congr hrun _)) (ha.after h0) (isStr_lit (by decide))
    (by simp [litPtr]) fun c2 w2 hready hf => follows_dataToken hS hready
      (hf.isStr (by rintro a ⟨⟩; decide) htok)

theorem follows_controlToken [Libc.CopiesForward] (hS : S.Fair)
    (h : Ready S fuel more (Step.all.drop 1) w c) :
    Follows S (Step.all.drop 1) (controlToken fuel c >>= fun _ => openData (Env.working S.port) >>=
      fun _ => dataVersion fuel >>= fun c => dataToken fuel c >>= fun c => dataDtoken fuel c >>=
        fun c => controlLength fuel c >>= controlAck fuel) w := by
  obtain ⟨done, hh⟩ := h.cursor
  obtain ⟨w1, c1, done1, u1, bs1, hrun, ha⟩ := controlToken_arrives h.client hS.nick_le hh
    (h.supply .control) rfl
  by_cases hs : S.Accepts .controlToken
  · have hm : S.said .controlToken = 83 :: 32 :: S.token := by
      have h2 : (S.said .controlToken).take 2 = [83, 32] := hs
      rw [← List.take_append_drop 2 (S.said .controlToken), h2]
      rfl
    have hah := ha.holds
    rw [hm] at hah
    obtain ⟨c2, w2, hr, hh2, hp, ht⟩ := checked_controlToken hah (ha.client h.client).token
    rw [← hm] at hh2
    refine follows_accept hs (Comp.bind_ok (hrun.trans hr)) ?_ (follows_openData hS
      (h.step (s := .controlToken) ha hp hh2 (by decide) (by decide)) ht)
    rw [hp.writes, ha.writes]
    rfl
  · obtain ⟨rfl, rfl, rfl⟩ := ha.single
    have hsh := hS.short .controlToken
    obtain ⟨w', hr, hw⟩ := checked_refusePrefix .control ha.holds
      (isStr_lit (s := "S <token>") (by decide)) (by decide) hs (hS.noError _) (by decide)
      (by simp [litPtr]) (by have : (lit "S <token>").length = 9 := by decide
                             omega)
    refine follows_refuse hs (Comp.bind_error (hrun.trans (Comp.bind_error hr))) ?_
    rw [hw, ha.writes]
    rfl

theorem follows_controlVersion [Libc.CopiesForward] (hS : S.Fair)
    (h : Ready S fuel more Step.all w ⟨0, Arr.recvbuf.ptr⟩) :
    Follows S Step.all (controlVersion fuel >>= fun c => controlToken fuel c >>= fun _ =>
      openData (Env.working S.port) >>= fun _ => dataVersion fuel >>= fun c => dataToken fuel c >>=
        fun c => dataDtoken fuel c >>= fun c => controlLength fuel c >>= controlAck fuel) w := by
  obtain ⟨done, hh⟩ := h.cursor
  obtain ⟨w1, c1, done1, u1, bs1, hrun, ha⟩ := controlVersion_arrives h.client hh
    (h.supply .control) rfl
  exact follows_check .control (s := .controlVersion) hS rfl h Iff.rfl
    (by decide : (lit "S GRNVS V:1.0").length ≤ 3050) (Comp.bind_congr hrun _) ha
    (isStr_lit (by decide)) (by simp [litPtr]) fun c2 w2 hready _ => follows_controlToken hS hready

end Follows

/-- What the sockets give in a session with one message a read. -/
structure Script.Said (S : Script) (net : Fd → Peer) : Prop where
  control : [some (enc (S.said .controlVersion)), some (enc (S.said .controlToken)),
    some (enc (S.said .controlLength)), some (enc (S.said .controlAck))] <+: (net .control).pending
  data : [some (enc (S.said .dataVersion)), some (enc (S.said .dataToken)),
    some (enc (S.said .dataDtoken))] <+: (net .data).pending

/-- The whole session: the client follows the script. -/
theorem assignment4_follows [Libc] [Libc.CopiesForward] {S : Script} (hS : S.Fair)
    (order : EvalOrder) {fuel : Nat} (hfuel : 2 ≤ fuel) {net : Fd → Peer} (hnet : S.Said net) :
    ∃ w', (assignment4 fuel (Env.working S.port)).run (start order S.nick S.msg net) =
        (if (S.play Step.all).2 then .ok () else .error (.exit (-1)), w') ∧
      writes w'.log = onWire (S.play Step.all).1 := by
  obtain ⟨w, hrun, hc, hsize, hwn, hlog⟩ := session_start order net fuel S.port hS.nick hS.msg
  obtain ⟨moreC, hC⟩ := hnet.control
  obtain ⟨moreD, hD⟩ := hnet.data
  have hsup : ∀ fd, Supply fuel w fd (S.queue Step.all fd) (match fd with
      | .control => moreC
      | .data => moreD
      | .listening => (net .listening).pending) := by
    intro fd
    refine ⟨?_, ?_⟩
    · rw [hwn]
      cases fd with
      | control => rw [← hC]; simp [Script.queue, Step.all, Step.fd, encs]
      | data => rw [← hD]; simp [Script.queue, Step.all, Step.fd, encs]
      | listening => simp [Script.queue, Step.all, Step.fd]
    · intro b hb
      obtain ⟨s, _, rfl⟩ := List.mem_map.mp hb
      exact usable_single hfuel (hS.plain s) (hS.short s)
  obtain ⟨w', hr, hl⟩ := follows_controlVersion hS ⟨hc, ⟨[], holds_empty hsize⟩, hsup⟩
  refine ⟨w', by rw [hrun, hr], ?_⟩
  rw [hl, hlog, writes_nil, List.nil_append]

/-- Against a server that says one message a read: with every message accepted the client writes
    its six frames and comes to its end; otherwise the frames stop at the first message that is
    not accepted, which is answered with one error frame, and the client exits with -1. -/
theorem assignment4_script [Libc] [Libc.CopiesForward] {S : Script} (hS : S.Fair)
    (order : EvalOrder) {fuel : Nat} (hfuel : 2 ≤ fuel) {net : Fd → Peer} (hnet : S.Said net) :
    let r := (assignment4 fuel (Env.working S.port)).run (start order S.nick S.msg net)
    ((∀ s, S.Accepts s) → r.1 = .ok () ∧ writes r.2.log = onWire S.frames) ∧
    ∀ s, (∀ s', s'.number < s.number → S.Accepts s') → ¬ S.Accepts s →
      r.1 = .error (.exit (-1)) ∧ writes r.2.log = onWire (S.frames.take s.sent) ++
        [(s.fd, enc (expectedText (S.expected s) (S.said s)))] := by
  obtain ⟨w', hr, hl⟩ := assignment4_follows hS order hfuel hnet
  dsimp only
  rw [hr]
  refine ⟨fun h => ?_, fun s h hs => ?_⟩
  · rw [Script.play_accepted h] at hl ⊢
    exact ⟨rfl, hl⟩
  · rw [Script.play_refused h hs] at hl ⊢
    rw [onWire_append] at hl
    exact ⟨rfl, hl⟩

/-! ## A correct server, any segments -/

/-- The messages of a correct server. -/
def Script.correct (nick msg token dtoken : List Byte) (port : UInt16) : Script where
  nick := nick
  msg := msg
  port := port
  said
    | .controlVersion => lit "S GRNVS V:1.0"
    | .controlToken => lit "S " ++ token
    | .dataVersion => lit "T GRNVS V:1.0"
    | .dataToken => lit "T " ++ token
    | .dataDtoken => lit "T " ++ dtoken
    | .controlLength => lit "S " ++ dec msg.length
    | .controlAck => lit "S ACK"

theorem Script.correct_accepts (nick msg token dtoken : List Byte) (port : UInt16) (s : Step) :
    (Script.correct nick msg token dtoken port).Accepts s := by
  cases s <;> rfl

/-- One message a read, and nothing behind them. -/
def Script.oneARead (S : Script) (fd : Fd) : Peer :=
  ⟨(Step.all.filter fun s => s.fd = fd).map fun s => some (enc (S.said s)), .eof⟩

theorem Script.oneARead_said (S : Script) : S.Said S.oneARead := ⟨⟨[], rfl⟩, ⟨[], rfl⟩⟩

/-- A session with a correct server. -/
def Script.demo : Script := Script.correct (lit "nick") (lit "hi") (lit "12") (lit "345") 8080

theorem Script.demo_fair : Script.demo.Fair where
  nick := by decide
  nick_le := by decide
  msg := by decide
  msg_le := by decide
  plain s := by cases s <;> decide
  short s := by cases s <;> decide
  noError s := by cases s <;> decide

section Bytewise

attribute [local instance] Libc.bytewise

theorem assignment4_script_demo :
    let r := (assignment4 2 (Env.working Script.demo.port)).run
      (start .before Script.demo.nick Script.demo.msg Script.demo.oneARead)
    r.1 = .ok () ∧ writes r.2.log = onWire Script.demo.frames :=
  (assignment4_script Script.demo_fair .before (Nat.le_refl 2) (Script.oneARead_said _)).1
    (Script.correct_accepts _ _ _ _ _)

end Bytewise

/-- An accepted message is no error message. -/
theorem Script.noError_of_accepts {S : Script} {s : Step} (h : S.Accepts s) :
    (S.said s).headD 0 ≠ letterE := by
  have htake : ∀ {l : List Byte} {b c : Byte}, l.take 2 = [b, c] → l.headD 0 = b := by
    intro l b c hl
    rcases l with _ | ⟨x, l⟩
    · cases hl
    · rw [List.take_succ_cons, List.cons.injEq] at hl
      exact hl.1
  cases s with
  | controlVersion =>
      have h' : S.said .controlVersion = lit "S GRNVS V:1.0" := h
      rw [h']
      decide
  | controlToken =>
      have h' : (S.said .controlToken).take 2 = [83, 32] := h
      rw [htake h']
      decide
  | dataVersion =>
      have h' : S.said .dataVersion = lit "T GRNVS V:1.0" := h
      rw [h']
      decide
  | dataToken =>
      have h' : S.said .dataToken = 84 :: 32 :: S.token := h
      rw [h', List.headD_cons]
      decide
  | dataDtoken =>
      have h' : (S.said .dataDtoken).take 2 = [84, 32] := h
      rw [htake h']
      decide
  | controlLength =>
      have h' : S.said .controlLength = 83 :: 32 :: dec S.msg.length := h
      rw [h', List.headD_cons]
      decide
  | controlAck =>
      have h' : S.said .controlAck = lit "S ACK" := h
      rw [h']
      decide

end Grnvs.Ascii
