/-
  trace6 over the native socket: from the probes of a run to what the kernel sends.

  `Executed` answers the calls of a run with the native methods, one after the other, on the socket
  module. A step lemma says what one call leaves of the module, and `probes_sent` follows: the
  packets the kernel takes in a run are the probes the run writes, in their order and each of them
  once, through the raw socket that the opening has made and to the address in their header.
-/
import Grnvs.Trace.Native
import Grnvs.Trace.Output

namespace Grnvs.Trace

open Bytes

/-! ## A run and the module under it -/

/-- An event that is no call of the socket. -/
def Event.Quiet : Event → Prop
  | .write _ => False
  | .read _ _ => False
  | _ => True

/-- The events of a run with its two lists of results, when the native methods answer its calls on
    the descriptor `fd`. -/
inductive Executed (fd : Int) :
    List Event → List Int → List Answer → Raw.World → Raw.World → Prop where
  | done {w : Raw.World} : Executed fd [] [] [] w w
  | quiet {e : Event} {log : List Event} {written : List Int} {answers : List Answer}
      {w w' : Raw.World} : e.Quiet → Executed fd log written answers w w' →
      Executed fd (e :: log) written answers w w'
  | write {fuel : Nat} {stack buffer bs : List Byte} {size ret : Int} {log : List Event}
      {written : List Int} {answers : List Answer} {w w₁ w' : Raw.World} :
      stack.length = 1514 → getByteArrayRegion buffer 0 size 1514 = .ok bs →
      (write_ fuel stack fd buffer size).run w = (.ok ret, w₁) →
      Executed fd log written answers w₁ w' →
      Executed fd (.write bs :: log) (ret :: written) answers w w'
  | read {fuel : Nat} {buffer bs : List Byte} {time time' : Int} {log : List Event}
      {written : List Int} {answers : List Answer} {w w₁ w' : Raw.World} :
      buffer.length = 1514 →
      (read_ fuel buffer time).run w =
        (.ok (time', .ok (bs.length, splice buffer 0 bs)), w₁) →
      Executed fd log written answers w₁ w' →
      Executed fd (.read time (.bytes bs) :: log) written (⟨.bytes bs, time'⟩ :: answers) w w'

/-! ## One write -/

/-- A socket module that sends packets of IPv6 through the descriptor `six`. -/
structure Sends (six : Int) (w : Raw.World) : Prop where
  pos : 0 < six
  writer : w.statics.write_six = six
  file : w.table.file six = some (.socket .inet6 Raw.SOCK_RAW none)

/-- A packet of IPv6 to an address. -/
structure PacketTo (dst bs : List Byte) : Prop where
  version : bs.headD 0 &&& 0xF0 = 0x60
  destination : destination bs = dst
  header : 40 ≤ bs.length

section Wire

variable {six fd ret : Int} {fuel : Nat} {dst bs stack : List Byte} {w w' : Raw.World}

theorem Sends.frame (h : Sends six w) (hw : w' = { w with reader := w'.reader }) :
    Sends six w' := by
  obtain ⟨h1, h2, h3⟩ := h
  rw [hw]
  exact ⟨h1, h2, h3⟩

theorem Sends.sent (h : Sends six w) (ts : List Raw.Transmission) : Sends six (w.sent ts) :=
  ⟨h.pos, h.writer, h.file⟩

/-- The header of a packet is the same in an array that holds more. -/
theorem PacketTo.sendCall (h : PacketTo dst bs) (hw : Sends six w) (rest : List Byte) :
    Raw.sendCall w.statics fd (bs ++ rest) = some (.sendto six dst) := by
  obtain ⟨hversion, hdestination, hheader⟩ := h
  have hhead : (bs ++ rest).headD 0 = bs.headD 0 := by
    cases bs with
    | nil => exact absurd hheader (by decide)
    | cons b bs => rfl
  have haddress : ((bs ++ rest).drop 24).take 16 = dst := by
    rw [List.drop_append_of_le_length (by omega),
      List.take_append_of_le_length (by rw [List.length_drop]; omega)]
    exact hdestination
  rw [Raw.sendCall, hw.writer, if_pos hw.pos, hhead, if_pos hversion, haddress]

theorem getByteArrayRegion_length {buffer : List Byte} {size : Int}
    (h : getByteArrayRegion buffer 0 size 1514 = .ok bs) : 0 ≤ size ∧ bs.length = size.toNat := by
  unfold getByteArrayRegion at h
  by_cases hin : 0 ≤ (0 : Int) ∧ 0 ≤ size ∧ 0 + size ≤ buffer.length
  · rw [if_pos hin] at h
    by_cases hroom : size ≤ (1514 : Nat)
    · rw [if_pos hroom] at h
      have hbs := Except.ok.inj h
      refine ⟨hin.2.1, ?_⟩
      rw [← hbs, List.length_take, List.length_drop]
      omega
    · rw [if_neg hroom] at h
      exact nomatch h
  · rw [if_neg hin] at h
    exact nomatch h

/-- A region inside the Java array is what is written, with any array on the stack. -/
theorem write_run {buffer : List Byte} {size : Int}
    (h : getByteArrayRegion buffer 0 size 1514 = .ok bs) :
    (write_ fuel stack fd buffer size).run w =
      (do
        let ret ← Raw.grnvs_write fuel fd (splice stack 0 bs) bs.length
        pure (int32 ret) : Raw.Run Int).run w := by
  obtain ⟨hnonneg, hlen⟩ := getByteArrayRegion_length h
  unfold write_
  rw [h]
  dsimp only
  rw [Comp.pure_bind_run, if_neg (by omega), hlen]

/-- A packet that `write_` gives to the module. -/
theorem write_sends (hw : Sends six w) (hp : PacketTo dst bs) {buffer : List Byte} {size : Int}
    (hregion : getByteArrayRegion buffer 0 size 1514 = .ok bs)
    (h : (write_ fuel stack fd buffer size).run w = (.ok ret, w')) :
    ∃ ts, w' = w.sent ts ∧ (∀ t ∈ ts, t.call = .sendto six dst ∧
      t.file = some (.socket .inet6 Raw.SOCK_RAW none) ∧ t.bytes = bs) ∧ Raw.taken ts = [bs] := by
  rw [write_run hregion] at h
  obtain ⟨n, w₁, hwrite, hret⟩ := Comp.bind_eq_ok h
  have hw₁ : w₁ = w' := (Prod.mk.inj hret).2
  obtain ⟨-, hcases⟩ := Raw.grnvs_write_ok hwrite
  rw [splice_zero, hp.sendCall hw, List.take_left] at hcases
  obtain ⟨hnone, -⟩ | ⟨c, k, m, hcall, -, -, hsent⟩ := hcases
  · exact nomatch hnone
  · have hc : c = .sendto six dst := (Option.some.inj hcall).symm
    refine ⟨_, hw₁.symm.trans hsent, ?_, ?_⟩
    · intro t ht
      obtain ⟨hcall, hfile, hbytes⟩ := Raw.mem_tries ht
      refine ⟨hcall.trans hc, ?_, hbytes⟩
      rw [hfile, hc]
      exact hw.file
    · rw [Raw.taken_tries]
      rfl

/-! ## All writes of a run -/

theorem writes_cons_quiet {e : Event} (h : e.Quiet) (log : List Event) :
    writes (e :: log) = writes log := by
  cases e with
  | write bs => exact h.elim
  | _ => rfl

/-- What the calls of a log leave of the module, if all that is written goes to one address. -/
theorem executed_sends {log : List Event} {written : List Int} {answers : List Answer}
    (h : Executed fd log written answers w w') (hw : Sends six w)
    (hp : ∀ bs, .write bs ∈ log → PacketTo dst bs) :
    ∃ ts, w' = { w.sent ts with reader := w'.reader } ∧
      (∀ t ∈ ts, t.call = .sendto six dst ∧
        t.file = some (.socket .inet6 Raw.SOCK_RAW none) ∧ .write t.bytes ∈ log) ∧
      Raw.taken ts = writes log := by
  induction h with
  | done =>
    refine ⟨[], ?_, fun t ht => absurd ht List.not_mem_nil, rfl⟩
    rw [Raw.World.sent_nil]
  | @quiet e log _ _ _ _ he _ ih =>
    obtain ⟨ts, hw', hts, htaken⟩ := ih hw fun bs hbs => hp bs (List.mem_cons_of_mem e hbs)
    refine ⟨ts, hw', fun t ht => ?_, htaken.trans (writes_cons_quiet he log).symm⟩
    obtain ⟨hcall, hfile, hmem⟩ := hts t ht
    exact ⟨hcall, hfile, List.mem_cons_of_mem e hmem⟩
  | @write _ _ _ bs _ _ log _ _ w w₁ w' _ hregion hrun _ ih =>
    obtain ⟨us, hw₁, hus, htaken₁⟩ := write_sends hw (hp bs List.mem_cons_self) hregion hrun
    obtain ⟨ts, hw', hts, htaken⟩ := ih (hw₁ ▸ hw.sent us) fun bs' hbs' =>
      hp bs' (List.mem_cons_of_mem _ hbs')
    refine ⟨us ++ ts, ?_, fun t ht => ?_, ?_⟩
    · rw [← Raw.World.sent_append, ← hw₁]
      exact hw'
    · cases List.mem_append.mp ht with
      | inl ht =>
        obtain ⟨hcall, hfile, hbytes⟩ := hus t ht
        exact ⟨hcall, hfile, hbytes ▸ List.mem_cons_self⟩
      | inr ht =>
        obtain ⟨hcall, hfile, hmem⟩ := hts t ht
        exact ⟨hcall, hfile, List.mem_cons_of_mem _ hmem⟩
    · rw [Raw.taken_append, htaken₁, htaken]
      rfl
  | @read _ _ bs time time' log _ _ w w₁ w' hb hrun _ ih =>
    obtain ⟨len, left, s', -, hw₁, -⟩ := read_native hb hrun
    obtain ⟨ts, hw', hts, htaken⟩ := ih (hw.frame (by rw [hw₁])) fun bs' hbs' =>
      hp bs' (List.mem_cons_of_mem _ hbs')
    refine ⟨ts, ?_, fun t ht => ?_, htaken⟩
    · rw [hw₁] at hw'
      exact hw'
    · obtain ⟨hcall, hfile, hmem⟩ := hts t ht
      exact ⟨hcall, hfile, List.mem_cons_of_mem _ hmem⟩

/-- A layer 3 socket sends through the raw socket that its opening has made. -/
theorem opens_sends {o : Raw.Opening} (h : Raw.Opens w o w') (hlayer : o.Layer3)
    (hsix : 0 < o.six) : Sends o.six w' := by
  obtain ⟨-, hof, rfl⟩ := h
  refine ⟨hsix, ?_, (hof.writers_table hlayer).six⟩
  show (o.statics w.statics).write_six = o.six
  rw [o.statics_eq]
  exact if_pos hlayer

theorem probe_packetTo {p : Parameters} (hsrc : p.srcIp.length = 16) (hdst : p.dstIp.length = 16)
    (hops : Int) (sequence : UInt16) : PacketTo p.dstIp (probe p.srcIp p.dstIp hops sequence) := by
  have hhead : (probe p.srcIp p.dstIp hops sequence).headD 0 = 0x60 := rfl
  refine ⟨?_, echoDatagram_destination rfl hsrc hdst, ?_⟩
  · rw [hhead]
    decide
  · rw [probe_length hsrc hdst]
    decide

/-- The probes of a run on a module that sends. -/
theorem executed_probes {p : Parameters} {written : List Int} {answers : List Answer}
    (hw : Sends six w) (hsrc : p.srcIp.length = 16) (hdst : p.dstIp.length = 16)
    (hrun : Executed fd ((run fuel p).run (World.start written answers)).2.log written answers
      w w') :
    ∃ ts, w' = { w.sent ts with reader := w'.reader } ∧
      (∀ t ∈ ts, t.call = .sendto six p.dstIp ∧
        t.file = some (.socket .inet6 Raw.SOCK_RAW none) ∧
        ∃ hops sequence, t.bytes = probe p.srcIp p.dstIp hops sequence) ∧
      Raw.taken ts = writes ((run fuel p).run (World.start written answers)).2.log := by
  obtain ⟨s, htrace⟩ := run_broken hsrc hdst fuel written answers
  have hprobe : ∀ bs, .write bs ∈ ((run fuel p).run (World.start written answers)).2.log →
      ∃ hops sequence, bs = probe p.srcIp p.dstIp hops sequence := by
    intro bs hbs
    obtain ⟨a, b, hsplit⟩ := List.append_of_mem hbs
    obtain ⟨hops, -, hbs⟩ := trace_write htrace hsplit
    exact ⟨hops, _, hbs⟩
  obtain ⟨ts, hw', hts, htaken⟩ := executed_sends hrun hw fun bs hbs => by
    obtain ⟨hops, sequence, rfl⟩ := hprobe bs hbs
    exact probe_packetTo hsrc hdst hops sequence
  refine ⟨ts, hw', fun t ht => ?_, htaken⟩
  obtain ⟨hcall, hfile, hmem⟩ := hts t ht
  exact ⟨hcall, hfile, hprobe _ hmem⟩

/-- The address of a socket that has just been opened. -/
theorem opens_ip6 {o : Raw.Opening} {ip : List Byte} (h : Raw.Opens w o w')
    (hip : Raw.grnvs_get_ip6addr w'.statics = some ip) :
    ip = (o.statics w.statics).ip6 ∧ ip.length = 16 := by
  unfold Raw.grnvs_get_ip6addr at hip
  by_cases hclosed : w'.statics.ifindex < 0
  · rw [if_pos hclosed] at hip
    exact nomatch hip
  · rw [if_neg hclosed, Option.some.injEq, h.after] at hip
    rw [← hip]
    exact ⟨rfl, o.ip6_length w.statics⟩

/-- A run of trace6 whose calls are answered by the native methods, on a layer 3 socket: whatever is
    read and interrupted, the kernel takes the probes that are written, in their order and each of
    them once, and nothing else is handed to it. Every try goes to the address of the destination,
    through the raw socket of the opening, and nothing else of the module changes. -/
theorem probes_sent {w₀ w₁ w₂ : Raw.World} {o : Raw.Opening} {p : Parameters} {written : List Int}
    {answers : List Answer} (ho : Raw.Opens w₀ o w₁) (hlayer : o.Layer3) (hsix : 0 < o.six)
    (hsrc : Raw.grnvs_get_ip6addr w₁.statics = some p.srcIp) (hdst : p.dstIp.length = 16)
    (hrun : Executed o.fd ((run fuel p).run (World.start written answers)).2.log written answers
      w₁ w₂) :
    ∃ ts, w₂ = { w₁.sent ts with reader := w₂.reader } ∧
      (∀ t ∈ ts, t.call = .sendto o.six p.dstIp ∧
        t.file = some (.socket .inet6 Raw.SOCK_RAW none) ∧
        ∃ hops sequence, t.bytes = probe p.srcIp p.dstIp hops sequence) ∧
      Raw.taken ts = writes ((run fuel p).run (World.start written answers)).2.log :=
  executed_probes (opens_sends ho hlayer hsix) (opens_ip6 ho hsrc).2 hdst hrun

end Wire

/-! ## A probe without an answer -/

/-- A run of one probe that is not answered. -/
theorem run_unanswered {p : Parameters} (hsrc : p.srcIp.length = 16) (hdst : p.dstIp.length = 16)
    (hattempts : p.attempts = 1) (hlimit : p.hopLimit = 1) (time : Int) :
    ∃ s, (run 2 p).run (World.start [48] [⟨.bytes [], time⟩]) = (.ok (), s) ∧
      s.log = [.printInt 1, .write (probe p.srcIp p.dstIp 1 0),
        .read (int32 (p.timeout * 1000)) (.bytes []), .print "  *", .print "\n"] := by
  have hb : (probe p.srcIp p.dstIp 1 0 ++ zeros 1466).length = 1514 := by
    rw [List.length_append, probe_length hsrc hdst, zeros_length]
  let w : World := { World.start [48] [⟨.bytes [], time⟩] with
    myIP := p.srcIp, timeout := int32 (p.timeout * 1000) }
  have hread := @readLoop_timeout 2 1 ((w.note (.printInt 1)).sent p 1 []) _ hb time [] rfl
  have hrun := @run_single p hsrc hdst hattempts (Int.le_of_eq hlimit.symm) 0 _ w _ rfl hread
    (.inr (by omega))
  exact ⟨_, hrun, rfl⟩

/-- One attempt on one line, from the global address of an interface. -/
def wireDemo : Parameters :=
  { attemptDemo with srcIp := [0x20, 1, 0x0d, 0xb8] ++ zeros 11 ++ [1], hopLimit := 1 }

/-- A process in which no wait ends with something to read. -/
def processWire : Raw.Process :=
  .start Raw.kernelMoving ⟨[some .other]⟩
    (Stats.opened { Stats.kernelRetry with select := fun _ _ => (5000000000, .timedOut) })

/-- The module after its opening on layer 3. -/
def openedWire : Raw.World := processWire.world.openedDemo Raw.firstDemo

theorem openedWire_opens : Raw.Opens processWire.world Raw.firstDemo openedWire :=
  ⟨rfl, ⟨.inl rfl, by decide, fun _ => rfl, fun _ => rfl, rfl⟩, rfl⟩

/-- The first try to send a packet is interrupted, the second is not. -/
theorem openedWire_write {bs : List Byte} (hp : PacketTo wireDemo.dstIp bs) (hlen : bs.length = 48)
    {buffer : List Byte} (hregion : getByteArrayRegion buffer 0 48 1514 = .ok bs) :
    ∃ w₁, (write_ 2 (zeros 1514) 3 buffer 48).run openedWire = (.ok 48, w₁) := by
  have hadm : Raw.Admitted openedWire (splice (zeros 1514) 0 bs) 48 := by
    have hsplice : (splice (zeros 1514) 0 bs).length = 1514 := by
      rw [splice_length (by rw [hlen, zeros_length]; decide), zeros_length]
    exact ⟨by decide, by omega, fun _ => by omega⟩
  have hcall : Raw.sendCall openedWire.statics 3 (splice (zeros 1514) 0 bs) =
      some (.sendto 1 wireDemo.dstIp) := by
    rw [splice_zero]
    exact hp.sendCall (opens_sends openedWire_opens rfl (by decide)) _
  have h0 : Raw.sendResult openedWire (.sendto 1 wireDemo.dstIp) 0 = .error .eintr := rfl
  have h1 : Raw.sendResult openedWire (.sendto 1 wireDemo.dstIp) 1 = .ok 48 := rfl
  have hwritten := @Raw.writeLoop_written openedWire _ _ 48 3 hcall 2
  rw [← Raw.grnvs_write_admitted hadm] at hwritten
  rw [write_run hregion, hlen]
  generalize hr : (Raw.grnvs_write 2 3 (splice (zeros 1514) 0 bs) 48).run openedWire = r at hwritten
  cases hwritten with
  | @taken k n hk _ hn =>
    obtain rfl | rfl : k = 0 ∨ k = 1 := by omega
    · exact nomatch h0.symm.trans hn
    · have hret : n = 48 := (Except.ok.inj (h1.symm.trans hn)).symm
      rw [hret] at hr
      exact ⟨_, Comp.bind_ok hr⟩
  | @refused k e _ hk _ he hne =>
    obtain rfl | rfl : k = 0 ∨ k = 1 := by omega
    · exact absurd (Except.error.inj (h0.symm.trans he)).symm hne
    · exact nomatch h1.symm.trans he
  | interrupted hint => exact nomatch h1.symm.trans (hint 1 (by decide))

/-- No answer comes within five seconds. -/
theorem openedWire_read (ts : List Raw.Transmission) {buffer : List Byte}
    (hb : buffer.length = 1514) :
    ∃ w₂, (read_ 1 buffer 5000).run (openedWire.sent ts) =
      (.ok (0, .ok (0, splice buffer 0 [])), w₂) := by
  have hopen : 0 ≤ openedWire.statics.ifindex := by decide
  obtain ⟨c, hread⟩ := @Stats.grnvs_read_timedOut (wiped (openedWire.sent ts)).device 5000000000
    5000 0 1514 hopen (by decide) rfl
  obtain ⟨s', hrun⟩ := @read_run 1 buffer 5000 (openedWire.sent ts) 0 (some 0) hb
    (congrArg Prod.fst hread)
  have hnone : setByteArrayRegion buffer (int32 0) s'.recbuffer = .ok (0, splice buffer 0 []) :=
    setByteArrayRegion_ok hb [] (Nat.zero_le 1514) List.take_zero
  rw [hnone] at hrun
  exact ⟨_, hrun⟩

/-- The calls of a run of one probe, on that module. -/
theorem executed_unanswered : ∃ s w₂,
    (run 2 wireDemo).run (World.start [48] [⟨.bytes [], 0⟩]) = (.ok (), s) ∧
      writes s.log = [probe wireDemo.srcIp wireDemo.dstIp 1 0] ∧
      Executed 3 s.log [48] [⟨.bytes [], 0⟩] openedWire w₂ := by
  obtain ⟨s, hrun, hlog⟩ := @run_unanswered wireDemo rfl rfl rfl rfl 0
  have hp := @probe_packetTo wireDemo rfl rfl 1 0
  have hregion := @getByteArrayRegion_probe wireDemo rfl rfl 1 0
  obtain ⟨w₁, hwrite⟩ := openedWire_write hp (probe_length rfl rfl 1 0) hregion
  obtain ⟨us, rfl, -⟩ :=
    write_sends (opens_sends openedWire_opens rfl (by decide)) hp hregion hwrite
  have hb : (zeros 1514).length = 1514 := zeros_length 1514
  obtain ⟨w₂, hread⟩ := openedWire_read us hb
  refine ⟨s, w₂, hrun, ?_, ?_⟩
  · rw [hlog]
    rfl
  · rw [hlog]
    exact .quiet trivial (.write hb hregion hwrite (.read hb hread
      (.quiet trivial (.quiet trivial .done))))

/-- The probe is interrupted once, and taken once. -/
theorem probes_sent_unanswered : ∃ ts w₂,
    Executed 3 ((run 2 wireDemo).run (World.start [48] [⟨.bytes [], 0⟩])).2.log [48]
        [⟨.bytes [], 0⟩] openedWire w₂ ∧
      w₂.log = openedWire.log ++ ts.map .transmit ∧
      Raw.taken ts = [probe wireDemo.srcIp wireDemo.dstIp 1 0] := by
  obtain ⟨s, w₂, hdone, hwrites, hrun⟩ := executed_unanswered
  have hs : s = ((run 2 wireDemo).run (World.start [48] [⟨.bytes [], 0⟩])).2 :=
    (congrArg Prod.snd hdone).symm
  rw [hs] at hwrites hrun
  obtain ⟨ts, hw, -, htaken⟩ := probes_sent openedWire_opens rfl (by decide) rfl rfl hrun
  refine ⟨ts, w₂, hrun, ?_, htaken.trans hwrites⟩
  rw [hw]
  rfl

end Grnvs.Trace
