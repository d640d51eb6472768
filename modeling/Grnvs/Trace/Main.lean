/-
  `main` of trace6: the command line, the socket on layer 3, the name of the destination, the run,
  and the end.

  `Main` puts the parts together: the constructor of `Arguments`, `getSocket`, the resolver (a
  parameter), `run` with its calls executed by the native methods, and `close`. However far the calls
  of a run have come, the kernel has taken the probes it has written and nothing else, each once and
  each to the address of the name on the command line; an IPv4 address gets none. A run that returns
  has closed the packet socket and left the two it sends through (`main_sends`).
-/
import Grnvs.Stats.Main
import Grnvs.Trace.Arguments
import Grnvs.Trace.Wire

namespace Grnvs.Trace

open Bytes

/-! ## The program -/

/-- How far a run of `main` has come: to its end, to a stop of the Java code, or to one of the native
    code. -/
inductive Ending where
  | returned
  | stopped (why : Stop)
  | native (why : Stats.Stop)

/-- What the `catch` of `main` makes of the end of `run`. -/
def caught : Stop → Stop
  | .arrayIndex _ => .exit 1
  | .arrayCopy => .exit 1
  | .illegalArgument _ => .exit 1
  | .unknownHost => .exit 1
  | .bufferOverflow => .exit 1
  | why => why

/-- The command line is taken, and the socket of its interface is open. -/
structure Started (argv : List String) (w : Raw.World) (out : List Event) (args : Arguments)
    (fd : Int) (w₁ : Raw.World) : Prop where
  parsed : (Arguments.new argv).run [] = (.ok args, out)
  socket : (getSocket args.iface Raw.SOCK_DGRAM).run w = (.ok (fd, false), w₁)

/-- What `run` is called with. -/
def Arguments.parameters (args : Arguments) (srcIp dstIp : List Byte) : Parameters :=
  ⟨srcIp, dstIp, args.timeout, args.attempts, args.hoplimit⟩

/-- The runs of `main`, up to a call that has not returned, with what they print, write and read.
    `getByName` is the resolver: the bytes of the address of a name, or an exception. -/
inductive Main (getByName : String → Option (List Byte)) (argv : List String) (w : Raw.World) :
    List Event → Ending → Raw.World → Prop where
  | refused {out : List Event} {why : Stop} :
      (Arguments.new argv).run [] = (.error why, out) →
      Main getByName argv w out (.stopped why) w
  | unopened {out : List Event} {args : Arguments} {why : Stats.Stop} {w₁ : Raw.World} :
      (Arguments.new argv).run [] = (.ok args, out) →
      (getSocket args.iface Raw.SOCK_DGRAM).run w = (.error why, w₁) →
      Main getByName argv w out (.native why) w₁
  | thrown {out : List Event} {args : Arguments} {fd : Int} {w₁ : Raw.World} :
      (Arguments.new argv).run [] = (.ok args, out) →
      (getSocket args.iface Raw.SOCK_DGRAM).run w = (.ok (fd, true), w₁) →
      Main getByName argv w out (.stopped (.exit 1)) w₁
  | unknown {out : List Event} {args : Arguments} {fd : Int} {w₁ : Raw.World} :
      Started argv w out args fd w₁ → getByName args.dst = none →
      Main getByName argv w out (.stopped (.exit 1)) w₁
  | broken {out : List Event} {args : Arguments} {fd : Int} {fuel : Nat} {srcIp dstIp : List Byte}
      {written : List Int} {answers : List Answer} {why : Stop} {s : World} {w₁ w₂ : Raw.World} :
      Started argv w out args fd w₁ → getByName args.dst = some dstIp →
      ip6_.run w₁ = (.ok srcIp, w₁) →
      (run fuel (args.parameters srcIp dstIp)).run (World.start written answers) =
        (.error why, s) →
      Executed fd s.log written answers w₁ w₂ →
      Main getByName argv w (out ++ s.log) (.stopped (caught why)) w₂
  | completed {out : List Event} {args : Arguments} {fd ret : Int} {fuel : Nat}
      {srcIp dstIp : List Byte} {written : List Int} {answers : List Answer} {s : World}
      {w₁ w₂ w₃ : Raw.World} :
      Started argv w out args fd w₁ → getByName args.dst = some dstIp →
      ip6_.run w₁ = (.ok srcIp, w₁) →
      (run fuel (args.parameters srcIp dstIp)).run (World.start written answers) = (.ok (), s) →
      Executed fd s.log written answers w₁ w₂ → (close_ fd).run w₂ = (.ok ret, w₃) →
      Main getByName argv w (out ++ s.log) .returned w₃

/-! ## Nothing is written by the other parts -/

section Arguments

variable {log : List Event}

theorem println_writes (text : String) : Comp.Keeps writes (println text) :=
  Comp.keeps_modify fun log => (writes_append log _).trans (List.append_nil _)

theorem printlnErr_writes (text : String) : Comp.Keeps writes (printlnErr text) :=
  Comp.keeps_modify fun log => (writes_append log _).trans (List.append_nil _)

theorem printHelp_writes : Comp.Keeps writes Arguments.printHelp := by
  unfold Arguments.printHelp
  induction Arguments.helpLines with
  | nil => exact Comp.keeps_pure _
  | cons line lines ih => exact Comp.keeps_bind (println_writes line) fun _ => ih

theorem number_writes (arg value : String) : Comp.Keeps writes (Arguments.number arg value) := by
  unfold Arguments.number
  cases Integer.parseInt value with
  | none => exact Comp.keeps_bind (printlnErr_writes _) fun _ => Comp.keeps_stop _
  | some n => exact Comp.keeps_pure n

theorem parseLoop_writes (length : Nat) (argv : List String) (f : Fields) :
    Comp.Keeps writes (Arguments.parseLoop length argv f) := by
  fun_induction Arguments.parseLoop length argv f with
  | case1 => exact Comp.keeps_pure _
  | case2 => exact Comp.keeps_bind printHelp_writes fun _ => Comp.keeps_stop _
  | case3 | case5 | case7 | case9 => exact Comp.keeps_stop _
  | case4 _ _ _ _ _ _ ih => exact ih
  | case6 _ _ _ _ _ _ _ ih => exact Comp.keeps_bind (number_writes _ _) ih
  | case8 _ _ _ _ _ _ _ _ ih => exact Comp.keeps_bind (number_writes _ _) ih
  | case10 _ _ _ _ _ _ _ _ _ ih => exact Comp.keeps_bind (number_writes _ _) ih
  | case11 => exact Comp.keeps_bind (println_writes _) fun _ => Comp.keeps_stop _
  | case12 _ _ _ _ _ _ _ _ _ ih => exact ih

/-- The command line is read without a word to the network. -/
theorem arguments_writes (argv : List String) : Comp.Keeps writes (Arguments.new argv) := by
  unfold Arguments.new
  refine Comp.keeps_bind (Comp.keeps_when ?_) fun _ => ?_
  · exact Comp.keeps_bind printHelp_writes fun _ => Comp.keeps_stop _
  refine Comp.keeps_bind (parseLoop_writes _ _ _) fun f => ?_
  cases f.fargs with
  | none => exact Comp.keeps_bind (println_writes _) fun _ => Comp.keeps_stop _
  | some dst => exact Comp.keeps_pure _

end Arguments

section Short

variable {α : Type} {p : Parameters} {w : World} {fuel : Nat}

/-- What follows something that may throw fails if it does so without an exception. -/
theorem fails_of_lift {x : Except Stop α} {β : Type} {g : α → Run β}
    (h : ∀ a, ∃ e, (g a).run w = (.error e, w)) :
    ∃ e, ((liftM x : Run α) >>= g).run w = (.error e, w) := by
  cases x with
  | error e => exact ⟨e, Comp.lift_bind_error rfl g w⟩
  | ok a =>
    obtain ⟨e, he⟩ := h a
    exact ⟨e, (Comp.lift_bind rfl g w).trans he⟩

/-- An address that is too short cannot be copied into the header. -/
theorem buildProbe_short (hdst : p.dstIp.length < 16) (hops : Int) (l : Locals) (w : World) :
    ∃ e, (buildProbe p hops l).run w = (.error e, w) := by
  unfold buildProbe
  dsimp only
  refine fails_of_lift fun _ => fails_of_lift fun _ => fails_of_lift fun _ => ?_
  refine fails_of_lift fun _ => fails_of_lift fun _ => fails_of_lift fun ipHeader => ?_
  have hcopy : arraycopy p.dstIp 0 ipHeader 24 16 = .error .arrayCopy := if_neg (by omega)
  exact ⟨.arrayCopy, Comp.lift_bind_error hcopy _ w⟩

theorem attemptLoop_short (hdst : p.dstIp.length < 16) (hops : Int) (n : Nat) (attempt : Int)
    (l : Locals) : ((attemptLoop fuel p hops n attempt l).run w).2 = w := by
  cases n with
  | zero => rfl
  | succ n =>
    rw [attemptLoop]
    by_cases hattempt : attempt ≤ p.attempts
    · obtain ⟨e, hbuild⟩ := buildProbe_short hdst hops l w
      rw [if_pos hattempt, sendProbe, Comp.bind_error (Comp.bind_error hbuild)]
    · rw [if_neg hattempt]
      rfl

/-- A run to such an address writes nothing. -/
theorem run_short (hdst : p.dstIp.length < 16) :
    Comp.Keeps (fun w => writes w.log) (run fuel p) := by
  have hloop : ∀ n hops l, Comp.Keeps (fun w => writes w.log) (hopsLoop fuel p n hops l) := by
    intro n
    induction n with
    | zero => exact fun _ _ => Comp.keeps_stop _
    | succ n ih =>
      intro hops l
      refine Comp.keeps_gets_bind fun stopProbes => ?_
      by_cases hgo : stopProbes = false ∧ hops ≤ p.hopLimit
      · rw [if_pos hgo]
        have hemit : ∀ e : Event, e.Quiet → Comp.Keeps (fun w => writes w.log) (emit e) := by
          intro e he w
          show writes (w.log ++ [e]) = writes w.log
          rw [writes_append, writes_cons_quiet he]
          exact List.append_nil _
        refine Comp.keeps_bind (hemit _ trivial) fun _ => ?_
        refine Comp.keeps_bind (fun w => ?_) fun l => ?_
        · rw [attemptLoop_short hdst]
        · exact Comp.keeps_bind (hemit _ trivial) fun _ => ih _ _
      · rw [if_neg hgo]
        exact Comp.keeps_pure ()
  exact Comp.keeps_bind (Comp.keeps_modify fun _ => rfl) fun _ =>
    Comp.keeps_bind (Comp.keeps_modify fun _ => rfl) fun _ => hloop _ _ _

end Short

/-! ## What a run of `main` sends and leaves -/

/-- The command line asks for the opening `o`, and it succeeds. -/
structure Opened (argv : List String) (w : Raw.World) (args : Arguments) (o : Raw.Opening) :
    Prop where
  parsed : ((Arguments.new argv).run []).1 = .ok args
  ifname : o.ifname = getStringUTFChars args.iface
  layer : o.Layer3
  opens : ∃ w₁, Raw.Opens w o w₁

/-- A try to send a probe to the address of the name on the command line, from the address of the
    interface on it and through the raw socket of its opening. -/
def Addressed (getByName : String → Option (List Byte)) (argv : List String) (w : Raw.World)
    (t : Raw.Transmission) : Prop :=
  ∃ (args : Arguments) (o : Raw.Opening) (dstIp : List Byte) (hops : Int) (sequence : UInt16),
    Opened argv w args o ∧ getByName args.dst = some dstIp ∧ dstIp.length = 16 ∧
    t.call = .sendto o.six dstIp ∧ t.file = some (.socket .inet6 Raw.SOCK_RAW none) ∧
    t.bytes = probe (o.statics w.statics).ip6 dstIp hops sequence

/-- A process that has opened the socket `o` on layer 3 and closed it: the two raw sockets are still
    there. -/
structure Left (w : Raw.World) (o : Raw.Opening) (w' : Raw.World) : Prop where
  files : ∀ fd, w'.table.file fd = (o.writers w.table).file fd
  sockets : w'.table.count Raw.File.isSocket = w.table.count Raw.File.isSocket + 2
  statics : w'.statics = (o.statics w.statics).closed

section Sends

variable {getByName : String → Option (List Byte)} {argv : List String} {w w' w₁ w₂ w₃ : Raw.World}
  {o : Raw.Opening} {out : List Event} {args : Arguments} {fd ret : Int}

theorem transmissions_transmit (ts : List Raw.Transmission) :
    Stats.transmissions (ts.map .transmit) = ts := by
  induction ts with
  | nil => rfl
  | cons t ts ih => exact congrArg (t :: ·) ih

/-- The opening behind `getSocket`. -/
theorem getSocket_opens {dev : String} {level : Int} {exception : Bool}
    (h : (getSocket dev level).run w = (.ok (fd, exception), w₁)) :
    ∃ o : Raw.Opening, o.ifname = getStringUTFChars dev ∧ o.layer = level ∧ o.fd = fd ∧
      Raw.Opens w o w₁ := by
  unfold getSocket at h
  obtain ⟨sock, w₂, hopen, h⟩ := Comp.bind_eq_ok h
  cases h
  exact Raw.exists_opens hopen

theorem getSocket_silent (dev : String) (level : Int) : Stats.Silent (getSocket dev level) :=
  Comp.keeps_bind (Stats.grnvs_open_silent _ _) fun _ => Comp.keeps_pure _

theorem ip6_ok {ip : List Byte} (h : ip6_.run w = (.ok ip, w')) :
    Raw.grnvs_get_ip6addr w.statics = some ip := by
  unfold ip6_ at h
  rw [Comp.gets_bind] at h
  cases hip : Raw.grnvs_get_ip6addr w.statics with
  | none =>
    rw [hip] at h
    cases h
  | some ip' =>
    rw [hip] at h
    cases h
    rfl

/-- With a standard input, no socket gets the descriptor 0. -/
theorem six_pos {t : Descriptors.Table Raw.File} (hof : o.Of t) (hlayer : o.Layer3)
    (hfile : t.file 0 ≠ none) : 0 < o.six := by
  rw [hof.six hlayer]
  have hne : t.lowest ≠ 0 := by
    intro hzero
    have hfree := Descriptors.Table.file_lowest (t := t)
    rw [hzero] at hfree
    exact hfile hfree
  omega

/-- The calls of `run` on a socket of layer 3, to an address of either length. -/
theorem executed_addressed {fuel : Nat} {p : Parameters} {written : List Int}
    {answers : List Answer} (ho : Raw.Opens w o w₁) (hlayer : o.Layer3) (hsix : 0 < o.six)
    (hsrc : p.srcIp.length = 16) (hdst : p.dstIp.length = 4 ∨ p.dstIp.length = 16)
    (hrun : Executed o.fd ((run fuel p).run (World.start written answers)).2.log written answers
      w₁ w₂) :
    ∃ ts, w₂ = { w₁.sent ts with reader := w₂.reader } ∧
      (∀ t ∈ ts, p.dstIp.length = 16 ∧ t.call = .sendto o.six p.dstIp ∧
        t.file = some (.socket .inet6 Raw.SOCK_RAW none) ∧
        ∃ hops sequence, t.bytes = probe p.srcIp p.dstIp hops sequence) ∧
      Raw.taken ts = writes ((run fuel p).run (World.start written answers)).2.log := by
  have hsends := opens_sends ho hlayer hsix
  obtain h4 | h16 := hdst
  · have hnone : writes ((run fuel p).run (World.start written answers)).2.log = [] :=
      run_short (by omega) (World.start written answers)
    have hno : ∀ bs, .write bs ∉ ((run fuel p).run (World.start written answers)).2.log := by
      intro bs hbs
      have hmem : bs ∈ writes ((run fuel p).run (World.start written answers)).2.log :=
        List.mem_filterMap.mpr ⟨_, hbs, rfl⟩
      rw [hnone] at hmem
      exact List.not_mem_nil hmem
    obtain ⟨ts, hw₂, hts, htaken⟩ := @executed_sends o.six o.fd p.dstIp w₁ w₂ _ _ _ hrun hsends
      fun bs hbs => absurd hbs (hno bs)
    exact ⟨ts, hw₂, fun t ht => absurd (hts t ht).2.2 (hno t.bytes), htaken⟩
  · obtain ⟨ts, hw₂, hts, htaken⟩ := executed_probes hsends hsrc h16 hrun
    exact ⟨ts, hw₂, fun t ht => ⟨h16, hts t ht⟩, htaken⟩

/-- Closing the socket of an opening on layer 3. -/
theorem opens_left (ho : Raw.Opens w o w₁) (hlayer : o.Layer3) {ts : List Raw.Transmission}
    {reader : Stats.World}
    (hclose : (close_ o.fd).run { w₁.sent ts with reader := reader } = (.ok ret, w₃)) :
    Left w o w₃ := by
  have hfile : ({ w₁.sent ts with reader := reader } : Raw.World).table.file o.fd =
      some (.socket .packet o.layer (some o.ifindex)) := by
    show w₁.table.file o.fd = _
    rw [ho.after]
    exact ho.of.file_fd
  have hopen : ({ w₁.sent ts with reader := reader } : Raw.World).table.file o.fd ≠ none :=
    fun h => nomatch hfile.symm.trans h
  obtain ⟨result, hrun⟩ := Raw.grnvs_close_run hopen
  obtain ⟨-, rfl⟩ := Prod.mk.inj (hrun.symm.trans hclose)
  have htable : w₁.table = o.table w.table := by
    rw [ho.after]
    rfl
  refine ⟨fun fd => ?_, ?_, ?_⟩
  · show (w₁.table.remove o.fd).file fd = _
    rw [htable]
    exact ho.of.file_remove fd
  · have hcount := ho.of.count_table
    have hsocket : (Raw.File.socket .packet o.layer (some o.ifindex)).isSocket = true := rfl
    have hremove := Descriptors.Table.count_remove (p := Raw.File.isSocket) ho.of.file_fd
    rw [if_pos hlayer] at hcount
    rw [if_pos hsocket] at hremove
    show (w₁.table.remove o.fd).count Raw.File.isSocket = _
    rw [htable]
    omega
  · show w₁.statics.closed = _
    rw [ho.after]
    rfl

theorem transmissions_sent {reader : Stats.World} {ts : List Raw.Transmission}
    (h : w₂ = { w₁.sent ts with reader }) :
    Stats.transmissions w₂.log = Stats.transmissions w₁.log ++ ts := by
  rw [h]
  show Stats.transmissions (w₁.log ++ ts.map .transmit) = _
  rw [Stats.transmissions_append, transmissions_transmit]

theorem parsed_writes {result : Except Stop Arguments}
    (h : (Arguments.new argv).run [] = (result, out)) : writes out = [] :=
  (arguments_writes argv).of_run h

theorem socket_transmissions {dev : String} {level : Int} {result : Except Stats.Stop (Int × Bool)}
    (h : (getSocket dev level).run w = (result, w₁)) :
    Stats.transmissions w₁.log = Stats.transmissions w.log :=
  (getSocket_silent dev level).of_run h

theorem close_transmissions {result : Except Stats.Stop Int}
    (h : (close_ fd).run w = (result, w₁)) :
    Stats.transmissions w₁.log = Stats.transmissions w.log :=
  (Stats.grnvs_close_silent fd).of_run h

/-- What is sent between the opening of the socket and its end. -/
structure Sent (getByName : String → Option (List Byte)) (argv : List String) (w : Raw.World)
    (out : List Event) (w' : Raw.World) (ts : List Raw.Transmission) : Prop where
  log : Stats.transmissions w'.log = Stats.transmissions w.log ++ ts
  taken : Raw.taken ts = writes out
  addressed : ∀ t ∈ ts, Addressed getByName argv w t

theorem Sent.none (hlog : Stats.transmissions w'.log = Stats.transmissions w.log)
    (hout : writes out = []) : Sent getByName argv w out w' [] :=
  ⟨hlog.trans (List.append_nil _).symm, hout.symm, fun _ ht => absurd ht List.not_mem_nil⟩

/-- The calls of `run` on the socket that `main` has opened. -/
theorem started_sends
    (hname : ∀ name ip, getByName name = some ip → ip.length = 4 ∨ ip.length = 16)
    (hzero : w.table.file 0 ≠ none) (hstart : Started argv w out args fd w₁) {fuel : Nat}
    {srcIp dstIp : List Byte} {written : List Int} {answers : List Answer} {s : World}
    (hdst : getByName args.dst = some dstIp) (hip : ip6_.run w₁ = (.ok srcIp, w₁))
    (hs : ((run fuel (args.parameters srcIp dstIp)).run (World.start written answers)).2 = s)
    (hrun : Executed fd s.log written answers w₁ w₂) :
    ∃ (o : Raw.Opening) (ts : List Raw.Transmission), Opened argv w args o ∧ o.fd = fd ∧
      Raw.Opens w o w₁ ∧ w₂ = { w₁.sent ts with reader := w₂.reader } ∧
      Sent getByName argv w (out ++ s.log) w₂ ts := by
  obtain ⟨hparsed, hsocket⟩ := hstart
  obtain ⟨o, hifname, hlayer, rfl, ho⟩ := getSocket_opens hsocket
  obtain ⟨hsrc, h16⟩ := opens_ip6 ho (ip6_ok hip)
  subst hs
  obtain ⟨ts, hw₂, hts, htaken⟩ := executed_addressed ho hlayer (six_pos ho.of hlayer hzero) h16
    (hname _ _ hdst) hrun
  have hopened : Opened argv w args o := ⟨congrArg Prod.fst hparsed, hifname, hlayer, w₁, ho⟩
  refine ⟨o, ts, hopened, rfl, ho, hw₂, ?_, ?_, fun t ht => ?_⟩
  · rw [transmissions_sent hw₂, socket_transmissions hsocket]
  · rw [writes_append, parsed_writes hparsed]
    exact htaken
  · obtain ⟨hlen, hcall, hfile, hops, sequence, hbytes⟩ := hts t ht
    refine ⟨args, o, dstIp, hops, sequence, hopened, hdst, hlen, hcall, hfile, ?_⟩
    rw [← hsrc]
    exact hbytes

/-- trace6, from the command line on and however far its calls have come, in a process with a
    standard input: the kernel takes the probes that are written, in their order and each of them
    once, and nothing else is handed to it. Every try is a probe from the address of the interface
    on the command line to the address of the name on it, through the raw socket of the opening. A
    run that returns has closed the packet socket of that interface and leaves the two sockets it
    has sent through. -/
theorem main_sends
    (hname : ∀ name ip, getByName name = some ip → ip.length = 4 ∨ ip.length = 16)
    (hzero : w.table.file 0 ≠ none) {r : Ending} (h : Main getByName argv w out r w') :
    (∃ ts, Sent getByName argv w out w' ts) ∧
      (r = .returned → ∃ args o, Opened argv w args o ∧ Left w o w') := by
  cases h with
  | refused hparsed => exact ⟨⟨[], .none rfl (parsed_writes hparsed)⟩, fun hr => nomatch hr⟩
  | unopened hparsed hsocket =>
    exact ⟨⟨[], .none (socket_transmissions hsocket) (parsed_writes hparsed)⟩, fun hr => nomatch hr⟩
  | thrown hparsed hsocket =>
    exact ⟨⟨[], .none (socket_transmissions hsocket) (parsed_writes hparsed)⟩, fun hr => nomatch hr⟩
  | unknown hstart hdst =>
    refine ⟨⟨[], .none ?_ (parsed_writes hstart.parsed)⟩, fun hr => nomatch hr⟩
    exact socket_transmissions hstart.socket
  | broken hstart hdst hip hbroken hrun =>
    obtain ⟨o, ts, -, -, -, -, hsent⟩ := started_sends hname hzero hstart hdst hip
      (congrArg Prod.snd hbroken) hrun
    exact ⟨⟨ts, hsent⟩, fun hr => nomatch hr⟩
  | completed hstart hdst hip hdone hrun hclose =>
    obtain ⟨o, ts, hopened, rfl, ho, hw₂, hsent⟩ := started_sends hname hzero hstart hdst hip
      (congrArg Prod.snd hdone) hrun
    refine ⟨⟨ts, (close_transmissions hclose).trans hsent.log, hsent.taken, hsent.addressed⟩,
      fun _ => ⟨_, o, hopened, ?_⟩⟩
    rw [hw₂] at hclose
    exact opens_left ho hopened.layer hclose

end Sends

/-! ## One probe -/

def argvDemo : List String := ["-q", "1", "-m", "1", "db"]

/-- A resolver that knows one name. -/
def resolverDemo (name : String) : Option (List Byte) :=
  if name = "db" then some wireDemo.dstIp else none

theorem resolverDemo_length (name : String) (ip : List Byte) (h : resolverDemo name = some ip) :
    ip.length = 4 ∨ ip.length = 16 := by
  unfold resolverDemo at h
  by_cases hname : name = "db"
  · rw [if_pos hname] at h
    cases h
    exact .inr rfl
  · rw [if_neg hname] at h
    exact nomatch h

def argumentsDemo : Arguments := ⟨"db", "eth0", 5, 1, 1⟩

theorem started_demo : Started argvDemo processWire.world [] argumentsDemo 3 openedWire :=
  ⟨rfl, rfl⟩

theorem parameters_demo :
    argumentsDemo.parameters wireDemo.srcIp wireDemo.dstIp = wireDemo := rfl

theorem ip6_demo : ip6_.run openedWire = (.ok wireDemo.srcIp, openedWire) := by
  have haddress : Raw.grnvs_get_ip6addr openedWire.statics = some wireDemo.srcIp := rfl
  rw [ip6_, Comp.gets_bind, haddress]
  rfl

/-- A run of one probe that returns: one packet is taken, and two sockets are left. -/
theorem main_sends_probe : ∃ out w' ts,
    Main resolverDemo argvDemo processWire.world out .returned w' ∧
      Sent resolverDemo argvDemo processWire.world out w' ts ∧
      Raw.taken ts = [probe wireDemo.srcIp wireDemo.dstIp 1 0] ∧
      w'.table.count Raw.File.isSocket = 2 := by
  obtain ⟨s, w₂, hdone, hwrites, hrun⟩ := executed_unanswered
  have hs : s = ((run 2 wireDemo).run (World.start [48] [⟨.bytes [], 0⟩])).2 :=
    (congrArg Prod.snd hdone).symm
  have hprobes := hrun
  rw [hs] at hprobes
  obtain ⟨us, hw₂, -⟩ :=
    executed_probes (opens_sends openedWire_opens rfl (by decide)) rfl rfl hprobes
  have hopen : w₂.table.file 3 ≠ none := by
    rw [hw₂]
    exact fun h => nomatch h
  obtain ⟨result, hclose⟩ := Raw.grnvs_close_run hopen
  rw [← parameters_demo] at hdone
  have hmain : Main resolverDemo argvDemo processWire.world ([] ++ s.log) .returned _ :=
    .completed started_demo rfl ip6_demo hdone hrun hclose
  obtain ⟨⟨ts, hsent⟩, hreturned⟩ := main_sends resolverDemo_length (by decide) hmain
  obtain ⟨args, o, -, hleft⟩ := hreturned rfl
  exact ⟨_, _, ts, hmain, hsent, hsent.taken.trans hwrites, hleft.sockets⟩

end Grnvs.Trace
