/-
  `raw.c`: opening, writing to and closing the socket of the module.

  What a call that returns has done is said once for each function: an opening makes its system
  calls in order and leaves the static variables and the table that follow from the answers
  (`grnvs_open_ok`), a write hands one packet to the kernel, again after every interruption and
  never again once it has been taken (`grnvs_write_ok`), and closing keeps the two descriptors that
  a layer 3 socket writes to (`grnvs_close_run`).
-/
import Grnvs.Lib.Fuel
import Grnvs.Raw.Kernel

namespace Grnvs.Raw

open Bytes Descriptors
open Grnvs.Stats (Errno Stop ETH_ALEN)

/-- `fprintf` and `exit(-1)`. -/
def die {α : Type} (text : String) (e : Errno) : Run α := do
  let strerror ← Comp.gets fun w => w.kernel.strerror
  print (text ++ strerror e ++ "\n")
  Comp.stop (.exit (-1))

/-- A system call whose failure ends the program. -/
def orDie {α : Type} (text : String) (x : Run (Except Errno α)) : Run α := do
  match ← x with
  | .ok a => pure a
  | .error e => die text e

/-! ## Addresses -/

def is_global (addr : Octets 16) : Nat :=
  if addr.1.getD 0 0 = 0xFE ∧ addr.1.getD 1 0 = 0x80 then 0 else 1

/-- One turn of the loop of `grnvs_get_addresses`. -/
def copyAddress (ifname : CString) (layer : Int) (s : Statics) (ifc : IfAddrs) : Statics :=
  if ifc.ifa_name ≠ ifname then s
  else
    match ifc.ifa_addr with
    | none => s
    | some (.inet sin_addr) => { s with ip := sin_addr.1 }
    | some (.inet6 tmp) =>
        if layer = SOCK_DGRAM ∧ is_global tmp = 0 then s else { s with ip6 := tmp.1 }
    | some .other => s

def grnvs_get_addresses (ifname : CString) (layer : Int) : Run Unit := do
  let ifa ← orDie "could not determine interface addresses: " getifaddrs
  assign fun s => ifa.foldl (copyAddress ifname layer) s

/-! ## Opening -/

/-- The two sockets a layer 3 socket writes to. -/
def openWriters : Run Unit := do
  let six ← orDie "socket() failed(6): " (socket .inet6 SOCK_RAW)
  assign fun s => { s with write_six := six }
  let four ← orDie "socket() failed(4): " (socket .inet SOCK_RAW)
  assign fun s => { s with write_four := four }

/-- `strcpy(if_idx.ifr_name, ifname)` -/
def strcpyName (ifname : CString) : Run Unit :=
  if ifname.bytes.length < IFNAMSIZ then pure () else Comp.stop .undefined

def grnvs_open (ifname : CString) (layer : Int) : Run Int := do
  assign fun s => { s with ip6 := zeros 16 }
  Comp.when (layer ≠ SOCK_DGRAM ∧ layer ≠ SOCK_RAW)
    (die "Could not open socket: " (.other EINVAL))
  Comp.when (layer = SOCK_DGRAM) openWriters
  let fd ← orDie "socket() failed: " (socket .packet layer)
  strcpyName ifname
  let ifindex ← orDie "ioctl() failed: " (siocgifindex fd ifname)
  assign fun s => { s with ifindex := ifindex }
  let hwaddr ← orDie "ioctl() failed: " (siocgifhwaddr fd ifname)
  assign fun s => { s with mac := hwaddr.1.take ETH_ALEN }
  grnvs_get_addresses ifname layer
  orDie "bind() failed: " (bind fd ifindex)
  pure fd

/-! ## Reading, writing and closing -/

def grnvs_read (fuel maxlen : Nat) (timeout : Option Nat) : Run (Int × Option Nat) :=
  onDevice (Stats.grnvs_read fuel maxlen timeout)

/-- The call a packet is sent with; a layer 3 socket looks at the version. -/
def sendCall (s : Statics) (fd : Int) (buf : List Byte) : Option SendCall :=
  if s.write_six > 0 then
    if buf.headD 0 &&& 0xF0 = 0x60 then some (.sendto s.write_six ((buf.drop 24).take 16))
    else if buf.headD 0 &&& 0xF0 = 0x40 then some (.send s.write_four)
    else none
  else some (.write fd)

/-- `%x` of the version. -/
def unknownVersion (buf : List Byte) : String :=
  "write() on layer 3 socket with unknown IP version 0x" ++
    String.ofList (Nat.toDigits 16 ((buf.headD 0).toNat >>> 4)) ++ "\n"

/-- The loop of `grnvs_write`. -/
def writeLoop (fd : Int) (buf : List Byte) (len : Nat) : Nat → Run Int
  | 0 => Comp.stop .fuel
  | fuel + 1 => do
      let s ← Comp.gets World.statics
      match sendCall s fd buf with
      | none => do
          print (unknownVersion buf)
          pure (-EINVAL)
      | some c => do
          match ← transmit c (buf.take len) with
          | .ok n => pure n
          | .error e =>
              if e = .eintr then writeLoop fd buf len fuel else die "write() failed: " e

/-- `buf` is the memory behind the pointer; the address of an IPv6 packet is copied before anything
    is tested. -/
def grnvs_write (fuel : Nat) (fd : Int) (buf : List Byte) (len : Nat) : Run Int := do
  let s ← Comp.gets World.statics
  Comp.when (s.write_six > 0 ∧ buf.length < 40) (Comp.stop .undefined)
  if s.ifindex < 0 then do
    print "tried to write on closed socket, aborting\n"
    Comp.stop (.exit (-1))
  else if buf.length < len then Comp.stop .undefined
  else writeLoop fd buf len fuel

def grnvs_close (fd : Int) : Run Int := do
  assign fun s =>
    { s with ifindex := -1, mac := zeros ETH_ALEN, ip6 := zeros 16, ip := zeros 4 }
  close fd

def grnvs_get_hwaddr (s : Statics) : Option (List Byte) :=
  if s.ifindex < 0 then none else some s.mac

def grnvs_get_ipaddr (s : Statics) : List Byte := s.ip

def grnvs_get_ip6addr (s : Statics) : Option (List Byte) :=
  if s.ifindex < 0 then none else some s.ip6

/-! ## Calls that have returned -/

/-- A world in which some system calls have been made since `w`. -/
def World.after (w : World) (statics : Statics) (table : Table File) (calls : List Syscall) :
    World :=
  { w with statics, table, log := w.log ++ calls }

section Calls

variable {w w' : World} {α β : Type} {text : String} {e : Errno} {statics s : Statics}
  {table t : Table File} {calls cs : List Syscall}

@[simp] theorem World.after_statics : (w.after statics table calls).statics = statics := rfl

@[simp] theorem World.after_table : (w.after statics table calls).table = table := rfl

@[simp] theorem World.after_log : (w.after statics table calls).log = w.log ++ calls := rfl

@[simp] theorem World.after_after :
    (w.after statics table calls).after s t cs = w.after s t (calls ++ cs) := by
  unfold World.after
  rw [List.append_assoc]

theorem assign_bind (f : Statics → Statics) (g : Unit → Run β) :
    (assign f >>= g).run w = (g ()).run (w.after (f w.statics) w.table []) := by
  unfold World.after
  rw [List.append_nil]
  rfl

theorem die_run (text : String) (e : Errno) (w : World) :
    (die text e : Run α).run w =
      (.error (.exit (-1)), { w with out := w.out ++ [text ++ w.kernel.strerror e ++ "\n"] }) := rfl

theorem orDie_ok {x : Run (Except Errno α)} {a : α} (h : (orDie text x).run w = (.ok a, w')) :
    x.run w = (.ok (.ok a), w') := by
  obtain ⟨r, w₁, hx, hr⟩ := Comp.bind_eq_ok h
  cases r with
  | error e =>
    rw [die_run] at hr
    cases hr
  | ok b =>
    cases hr
    exact hx

theorem socket_ok {family : Family} {type fd : Int}
    (h : (socket family type).run w = (.ok (.ok fd), w')) :
    fd = w.table.lowest ∧ w' = w.after w.statics (w.table.install (.socket family type none))
      [.socket family type (.ok fd)] := by
  unfold socket answer at h
  rw [Comp.gets_bind] at h
  cases hk : w.kernel.socket w.log.length with
  | some e =>
    rw [hk] at h
    cases h
  | none =>
    rw [hk] at h
    cases h
    exact ⟨rfl, rfl⟩

theorem bind_ok {fd ifindex : Int} {u : Unit}
    (h : (bind fd ifindex).run w = (.ok (.ok u), w')) :
    w' = w.after w.statics (bindTo ifindex fd w.table) [.bind fd ifindex none] := by
  unfold bind answer at h
  rw [Comp.gets_bind] at h
  cases hk : w.kernel.bind w.log.length with
  | some e =>
    rw [hk] at h
    cases h
  | none =>
    rw [hk] at h
    cases h
    rfl

theorem siocgifindex_ok {fd : Int} {ifname : CString} {n : Nat}
    (h : (siocgifindex fd ifname).run w = (.ok (.ok n), w')) :
    w' = w.after w.statics w.table [.siocgifindex fd ifname (.ok n)] := by
  obtain ⟨hresult, hw⟩ := Prod.mk.inj h
  have hn : w.kernel.siocgifindex w.log.length ifname = .ok n := Except.ok.inj hresult
  rw [← hw, ← hn]
  rfl

theorem siocgifhwaddr_ok {fd : Int} {ifname : CString} {hwaddr : Octets 14}
    (h : (siocgifhwaddr fd ifname).run w = (.ok (.ok hwaddr), w')) :
    w' = w.after w.statics w.table [.siocgifhwaddr fd ifname (.ok hwaddr)] := by
  obtain ⟨hresult, hw⟩ := Prod.mk.inj h
  have hn : w.kernel.siocgifhwaddr w.log.length ifname = .ok hwaddr := Except.ok.inj hresult
  rw [← hw, ← hn]
  rfl

theorem getifaddrs_ok {addrs : List IfAddrs} (h : getifaddrs.run w = (.ok (.ok addrs), w')) :
    w' = w.after w.statics w.table [.getifaddrs (.ok addrs)] := by
  obtain ⟨hresult, hw⟩ := Prod.mk.inj h
  have hn : w.kernel.getifaddrs w.log.length = .ok addrs := Except.ok.inj hresult
  rw [← hw, ← hn]
  rfl

end Calls

/-! ## What opening does -/

/-- The answers an opening has got. -/
structure Opening where
  ifname : CString
  layer : Int
  six : Int
  four : Int
  fd : Int
  ifindex : Nat
  hwaddr : Octets 14
  addrs : List IfAddrs

/-- Whether the sockets of a layer 3 socket are opened. -/
abbrev Opening.Layer3 (o : Opening) : Prop := o.layer = SOCK_DGRAM

/-- The system calls of an opening. -/
def Opening.calls (o : Opening) : List Syscall :=
  (if o.Layer3 then
    [.socket .inet6 SOCK_RAW (.ok o.six), .socket .inet SOCK_RAW (.ok o.four)] else []) ++
  [.socket .packet o.layer (.ok o.fd), .siocgifindex o.fd o.ifname (.ok o.ifindex),
    .siocgifhwaddr o.fd o.ifname (.ok o.hwaddr), .getifaddrs (.ok o.addrs),
    .bind o.fd o.ifindex none]

/-- The static variables after an opening. -/
def Opening.statics (o : Opening) (s : Statics) : Statics :=
  o.addrs.foldl (copyAddress o.ifname o.layer)
    { ifindex := o.ifindex
      write_six := if o.Layer3 then o.six else s.write_six
      write_four := if o.Layer3 then o.four else s.write_four
      mac := o.hwaddr.1.take ETH_ALEN
      ip := s.ip
      ip6 := zeros 16 }

/-- The table with the sockets that are written to. -/
def Opening.writers (o : Opening) (t : Table File) : Table File :=
  if o.Layer3 then
    (t.install (.socket .inet6 SOCK_RAW none)).install (.socket .inet SOCK_RAW none) else t

/-- The table after an opening. -/
def Opening.table (o : Opening) (t : Table File) : Table File :=
  bindTo o.ifindex o.fd ((o.writers t).install (.socket .packet o.layer none))

/-- The IPv4 address of an interface in an entry. -/
def address4 (ifname : CString) (ifc : IfAddrs) : Option (List Byte) :=
  if ifc.ifa_name ≠ ifname then none
  else
    match ifc.ifa_addr with
    | some (.inet sin_addr) => some sin_addr.1
    | _ => none

/-- The IPv6 address of an interface in an entry, unless it is link-local and the layer is 3. -/
def address6 (ifname : CString) (layer : Int) (ifc : IfAddrs) : Option (List Byte) :=
  if ifc.ifa_name ≠ ifname then none
  else
    match ifc.ifa_addr with
    | some (.inet6 tmp) => if layer = SOCK_DGRAM ∧ is_global tmp = 0 then none else some tmp.1
    | _ => none

section Addresses

variable {ifname : CString} {layer : Int}

theorem copyAddress_eq (s : Statics) (ifc : IfAddrs) :
    copyAddress ifname layer s ifc =
      { s with
        ip := (address4 ifname ifc).getD s.ip
        ip6 := (address6 ifname layer ifc).getD s.ip6 } := by
  unfold copyAddress address4 address6
  by_cases hname : ifc.ifa_name ≠ ifname
  · rw [if_pos hname, if_pos hname, if_pos hname]
    rfl
  · rw [if_neg hname, if_neg hname, if_neg hname]
    match ifc.ifa_addr with
    | none => rfl
    | some (.inet sin_addr) => rfl
    | some .other => rfl
    | some (.inet6 tmp) =>
      dsimp only
      by_cases hlocal : layer = SOCK_DGRAM ∧ is_global tmp = 0
      · rw [if_pos hlocal, if_pos hlocal]
        rfl
      · rw [if_neg hlocal, if_neg hlocal]
        rfl

/-- The loop keeps the last address of each kind. -/
theorem copyAddresses_eq (addrs : List IfAddrs) (s : Statics) :
    addrs.foldl (copyAddress ifname layer) s =
      { s with
        ip := (addrs.filterMap (address4 ifname)).getLastD s.ip
        ip6 := (addrs.filterMap (address6 ifname layer)).getLastD s.ip6 } := by
  induction addrs generalizing s with
  | nil => rfl
  | cons ifc addrs ih =>
    have h4 : ((ifc :: addrs).filterMap (address4 ifname)).getLastD s.ip =
        (addrs.filterMap (address4 ifname)).getLastD ((address4 ifname ifc).getD s.ip) := by
      cases h : address4 ifname ifc with
      | none => rw [List.filterMap_cons_none h, Option.getD_none]
      | some a => rw [List.filterMap_cons_some h, List.getLastD_cons, Option.getD_some]
    have h6 : ((ifc :: addrs).filterMap (address6 ifname layer)).getLastD s.ip6 =
        (addrs.filterMap (address6 ifname layer)).getLastD
          ((address6 ifname layer ifc).getD s.ip6) := by
      cases h : address6 ifname layer ifc with
      | none => rw [List.filterMap_cons_none h, Option.getD_none]
      | some a => rw [List.filterMap_cons_some h, List.getLastD_cons, Option.getD_some]
    rw [List.foldl_cons, ih, copyAddress_eq, h4, h6]

/-- The static variables that an opening leaves. -/
theorem Opening.statics_eq (o : Opening) (s : Statics) :
    o.statics s =
      { ifindex := o.ifindex
        write_six := if o.Layer3 then o.six else s.write_six
        write_four := if o.Layer3 then o.four else s.write_four
        mac := o.hwaddr.1.take ETH_ALEN
        ip := (o.addrs.filterMap (address4 o.ifname)).getLastD s.ip
        ip6 := (o.addrs.filterMap (address6 o.ifname o.layer)).getLastD (zeros 16) } :=
  copyAddresses_eq o.addrs _

end Addresses

/-- The answers are those of a process with these descriptors. -/
structure Opening.Of (o : Opening) (t : Table File) : Prop where
  layer : o.layer = SOCK_DGRAM ∨ o.layer = SOCK_RAW
  ifname : o.ifname.bytes.length < IFNAMSIZ
  six : o.Layer3 → o.six = t.lowest
  four : o.Layer3 → o.four = (t.install (.socket .inet6 SOCK_RAW none)).lowest
  fd : o.fd = (o.writers t).lowest

section Opened

variable {w w' : World} {ifname : CString} {layer fd : Int}

/-- The first part of an opening, for both layers. -/
theorem writers_ok {u : Unit}
    (h : (Comp.when (layer = SOCK_DGRAM) openWriters).run w = (.ok u, w')) :
    ∃ six four : Int, (layer = SOCK_DGRAM → six = w.table.lowest) ∧
      (layer = SOCK_DGRAM → four = (w.table.install (.socket .inet6 SOCK_RAW none)).lowest) ∧
      w' = w.after
        { w.statics with
          write_six := if layer = SOCK_DGRAM then six else w.statics.write_six
          write_four := if layer = SOCK_DGRAM then four else w.statics.write_four }
        (if layer = SOCK_DGRAM then
          (w.table.install (.socket .inet6 SOCK_RAW none)).install (.socket .inet SOCK_RAW none)
        else w.table)
        (if layer = SOCK_DGRAM then
          [.socket .inet6 SOCK_RAW (.ok six), .socket .inet SOCK_RAW (.ok four)] else []) := by
  by_cases hlayer : layer = SOCK_DGRAM
  · rw [Comp.when_pos hlayer] at h
    obtain ⟨six, w₁, hrun, h⟩ := Comp.bind_eq_ok h
    obtain ⟨hsix, rfl⟩ := socket_ok (orDie_ok hrun)
    rw [assign_bind, World.after_after] at h
    obtain ⟨four, w₂, hrun, h⟩ := Comp.bind_eq_ok h
    obtain ⟨hfour, rfl⟩ := socket_ok (orDie_ok hrun)
    cases h
    refine ⟨six, four, fun _ => hsix, fun _ => hfour, ?_⟩
    simp only [if_pos hlayer, World.after, List.append_assoc]
    rfl
  · rw [Comp.when_neg hlayer] at h
    cases h
    refine ⟨0, 0, fun hl => absurd hl hlayer, fun hl => absurd hl hlayer, ?_⟩
    simp only [if_neg hlayer, World.after, List.append_nil]

/-- What a call that has opened the socket has done. -/
theorem grnvs_open_ok (h : (grnvs_open ifname layer).run w = (.ok fd, w')) :
    ∃ o : Opening, o.ifname = ifname ∧ o.layer = layer ∧ o.fd = fd ∧ o.Of w.table ∧
      w' = w.after (o.statics w.statics) (o.table w.table) o.calls := by
  unfold grnvs_open at h
  rw [assign_bind] at h
  by_cases hlayer : layer ≠ SOCK_DGRAM ∧ layer ≠ SOCK_RAW
  · rw [Comp.when_pos hlayer] at h
    cases h
  rw [Comp.when_neg hlayer, Comp.pure_bind_run] at h
  obtain ⟨u, w₁, hwriters, h⟩ := Comp.bind_eq_ok h
  obtain ⟨six, four, hsix, hfour, rfl⟩ := writers_ok hwriters
  rw [World.after_after] at h
  obtain ⟨fd', w₂, hsocket, h⟩ := Comp.bind_eq_ok h
  obtain ⟨hfd, rfl⟩ := socket_ok (orDie_ok hsocket)
  by_cases hname : ifname.bytes.length < IFNAMSIZ
  · rw [strcpyName, if_pos hname, Comp.pure_bind_run, World.after_after] at h
    obtain ⟨ifindex, w₃, hindex, h⟩ := Comp.bind_eq_ok h
    obtain rfl := siocgifindex_ok (orDie_ok hindex)
    rw [assign_bind, World.after_after, World.after_after] at h
    obtain ⟨hwaddr, w₄, hhwaddr, h⟩ := Comp.bind_eq_ok h
    obtain rfl := siocgifhwaddr_ok (orDie_ok hhwaddr)
    rw [assign_bind, World.after_after, World.after_after, grnvs_get_addresses,
      Comp.bind_assoc_run] at h
    obtain ⟨addrs, w₅, haddrs, h⟩ := Comp.bind_eq_ok h
    obtain rfl := getifaddrs_ok (orDie_ok haddrs)
    rw [assign_bind, World.after_after, World.after_after] at h
    obtain ⟨v, w₆, hbind, h⟩ := Comp.bind_eq_ok h
    obtain rfl := bind_ok (orDie_ok hbind)
    cases h
    refine ⟨⟨ifname, layer, six, four, fd, ifindex, hwaddr, addrs⟩, rfl, rfl, rfl,
      ⟨?_, hname, hsix, hfour, hfd⟩, ?_⟩
    · show layer = SOCK_DGRAM ∨ layer = SOCK_RAW
      omega
    · simp only [World.after_after, World.after_statics, World.after_table, List.nil_append,
        List.append_nil, List.append_assoc]
      rfl
  · rw [strcpyName, if_neg hname] at h
    cases h

end Opened

/-! ## What writing does -/

/-- The world after some packets have been given to the kernel. -/
def World.sent (w : World) (ts : List Transmission) : World :=
  w.after w.statics w.table (ts.map .transmit)

/-- What the kernel answers to the k-th try. -/
def sendResult (w : World) (c : SendCall) (k : Nat) : Except Errno Nat :=
  if w.table.file c.fd = none then .error EBADF else w.kernel.send (w.log.length + k)

/-- A packet that is given to the kernel in the state of `w`. -/
def World.transmission (w : World) (c : SendCall) (bytes : List Byte) (result : Except Errno Nat) :
    Transmission :=
  ⟨c, w.table.file c.fd, bytes, result⟩

/-- Some tries that are interrupted, and a last one. -/
def tries (w : World) (c : SendCall) (bytes : List Byte) (k : Nat) (result : Except Errno Nat) :
    List Transmission :=
  List.replicate k (w.transmission c bytes (.error .eintr)) ++ [w.transmission c bytes result]

/-- How the loop of `grnvs_write` ends: the packet is taken, or it is refused for good, or all tries
    are interrupted. -/
inductive Written (w : World) (c : SendCall) (bytes : List Byte) (fuel : Nat) :
    Except Stop Int × World → Prop where
  | taken {k n : Nat} : k < fuel → (∀ i < k, sendResult w c i = .error .eintr) →
      sendResult w c k = .ok n → Written w c bytes fuel (.ok n, w.sent (tries w c bytes k (.ok n)))
  | refused {k : Nat} {e : Errno} (text : String) : k < fuel →
      (∀ i < k, sendResult w c i = .error .eintr) → sendResult w c k = .error e → e ≠ .eintr →
      Written w c bytes fuel (.error (.exit (-1)),
        { w.sent (tries w c bytes k (.error e)) with out := w.out ++ [text] })
  | interrupted : (∀ i < fuel, sendResult w c i = .error .eintr) →
      Written w c bytes fuel
        (.error .fuel, w.sent (List.replicate fuel (w.transmission c bytes (.error .eintr))))

section Write

variable {w w' : World} {c : SendCall} {bytes buf : List Byte} {fuel len k : Nat} {fd ret : Int}
  {ts us : List Transmission} {result : Except Errno Nat}

@[simp] theorem World.sent_statics : (w.sent ts).statics = w.statics := rfl

@[simp] theorem World.sent_table : (w.sent ts).table = w.table := rfl

theorem World.sent_nil : w.sent [] = w := by
  unfold World.sent World.after
  rw [List.map_nil, List.append_nil]

theorem World.sent_append : (w.sent ts).sent us = w.sent (ts ++ us) := by
  unfold World.sent
  rw [World.after_after, ← List.map_append]
  rfl

theorem transmit_run (c : SendCall) (bytes : List Byte) (w : World) :
    (transmit c bytes).run w =
      (.ok (sendResult w c 0), w.sent [w.transmission c bytes (sendResult w c 0)]) := rfl

/-- The answers that are still to come after one try. -/
theorem sendResult_sent (t : Transmission) :
    sendResult (w.sent [t]) c k = sendResult w c (k + 1) := by
  have hlen : (w.sent [t]).log.length + k = w.log.length + (k + 1) := by
    show (w.log ++ [Syscall.transmit t]).length + k = _
    rw [List.length_append, List.length_singleton]
    omega
  unfold sendResult
  rw [hlen]
  rfl

/-- One try more in front. -/
theorem tries_succ :
    (w.sent [w.transmission c bytes (.error .eintr)]).sent
        (tries (w.sent [w.transmission c bytes (.error .eintr)]) c bytes k result) =
      w.sent (tries w c bytes (k + 1) result) := by
  rw [World.sent_append, tries, tries, List.replicate_succ]
  rfl

theorem interrupted_succ {t : Transmission} (h0 : sendResult w c 0 = .error .eintr)
    (h : ∀ i < k, sendResult (w.sent [t]) c i = .error .eintr) :
    ∀ i < k + 1, sendResult w c i = .error .eintr := by
  intro i hi
  cases i with
  | zero => exact h0
  | succ i =>
    rw [← sendResult_sent t]
    exact h i (by omega)

/-- The loop does with `w` after an interrupted try what it does with `w` one try later. -/
theorem Written.succ {r : Except Stop Int × World} (h0 : sendResult w c 0 = .error .eintr)
    (h : Written (w.sent [w.transmission c bytes (.error .eintr)]) c bytes fuel r) :
    Written w c bytes (fuel + 1) r := by
  cases h with
  | taken hk hint hn =>
    rw [tries_succ]
    rw [sendResult_sent] at hn
    exact .taken (by omega) (interrupted_succ h0 hint) hn
  | refused text hk hint he hne =>
    rw [tries_succ]
    rw [sendResult_sent] at he
    exact .refused text (by omega) (interrupted_succ h0 hint) he hne
  | interrupted hint =>
    rw [World.sent_append]
    exact .interrupted (interrupted_succ h0 hint)

theorem writeLoop_written (h : sendCall w.statics fd buf = some c) (fuel : Nat) :
    Written w c (buf.take len) fuel ((writeLoop fd buf len fuel).run w) := by
  induction fuel generalizing w with
  | zero =>
    have hzero : (writeLoop fd buf len 0).run w = (.error .fuel, w.sent []) := by
      rw [World.sent_nil]
      rfl
    rw [hzero]
    exact .interrupted fun i hi => absurd hi (Nat.not_lt_zero i)
  | succ fuel ih =>
    rw [writeLoop, Comp.gets_bind, h]
    dsimp only
    rw [Comp.bind_ok (transmit_run c _ w)]
    have hnone : ∀ i < 0, sendResult w c i = .error .eintr := fun i hi => absurd hi (Nat.not_lt_zero i)
    cases hresult : sendResult w c 0 with
    | ok n => exact .taken (Nat.succ_pos fuel) hnone hresult
    | error e =>
      dsimp only
      by_cases he : e = .eintr
      · rw [if_pos he, he]
        exact Written.succ (he ▸ hresult) (ih h)
      · rw [if_neg he, die_run]
        exact .refused _ (Nat.succ_pos fuel) hnone hresult he

/-- The calls that get to the loop. -/
structure Admitted (w : World) (buf : List Byte) (len : Nat) : Prop where
  isOpen : 0 ≤ w.statics.ifindex
  inside : len ≤ buf.length
  address : 0 < w.statics.write_six → 40 ≤ buf.length

theorem grnvs_write_admitted (h : Admitted w buf len) :
    (grnvs_write fuel fd buf len).run w = (writeLoop fd buf len fuel).run w := by
  obtain ⟨h0, hlen, h40⟩ := h
  have hread : ¬ (w.statics.write_six > 0 ∧ buf.length < 40) := by
    intro hlt
    have := h40 hlt.1
    omega
  rw [grnvs_write, Comp.gets_bind, Comp.when_neg hread, Comp.pure_bind_run, if_neg (by omega),
    if_neg (by omega)]

/-- The other calls end without a system call. -/
theorem grnvs_write_not_admitted (h : ¬ Admitted w buf len) :
    ∃ stop out, stop ≠ .fuel ∧ ∀ fuel,
      (grnvs_write fuel fd buf len).run w = (.error stop, { w with out := out }) := by
  by_cases hread : w.statics.write_six > 0 ∧ buf.length < 40
  · refine ⟨.undefined, w.out, by decide, fun fuel => ?_⟩
    rw [grnvs_write, Comp.gets_bind, Comp.when_pos hread]
    rfl
  by_cases h0 : w.statics.ifindex < 0
  · refine ⟨.exit (-1), w.out ++ ["tried to write on closed socket, aborting\n"],
      by decide, fun fuel => ?_⟩
    rw [grnvs_write, Comp.gets_bind, Comp.when_neg hread, Comp.pure_bind_run, if_pos h0]
    rfl
  by_cases hlen : buf.length < len
  · refine ⟨.undefined, w.out, by decide, fun fuel => ?_⟩
    rw [grnvs_write, Comp.gets_bind, Comp.when_neg hread, Comp.pure_bind_run, if_neg h0,
      if_pos hlen]
    rfl
  · exfalso
    refine h ⟨by omega, by omega, fun hsix => ?_⟩
    by_contra hlt
    exact hread ⟨hsix, by omega⟩

theorem writeLoop_unknown (h : sendCall w.statics fd buf = none) :
    (writeLoop fd buf len (fuel + 1)).run w =
      (.ok (-EINVAL), { w with out := w.out ++ [unknownVersion buf] }) := by
  rw [writeLoop, Comp.gets_bind, h]
  rfl

/-- What a call that returns has done: a packet of no known version is refused, any other has been
    taken by the kernel in the last of its tries. -/
theorem grnvs_write_ok (h : (grnvs_write fuel fd buf len).run w = (.ok ret, w')) :
    Admitted w buf len ∧
      ((sendCall w.statics fd buf = none ∧ ret = -EINVAL ∧
          w' = { w with out := w.out ++ [unknownVersion buf] }) ∨
        ∃ c k n, sendCall w.statics fd buf = some c ∧ ret = (n : Nat) ∧ sendResult w c k = .ok n ∧
          w' = w.sent (tries w c (buf.take len) k (.ok n))) := by
  by_cases hadm : Admitted w buf len
  · refine ⟨hadm, ?_⟩
    rw [grnvs_write_admitted hadm] at h
    cases hcall : sendCall w.statics fd buf with
    | none =>
      left
      cases fuel with
      | zero => cases h
      | succ fuel =>
        rw [writeLoop_unknown hcall] at h
        cases h
        exact ⟨rfl, rfl, rfl⟩
    | some c =>
      right
      have hwritten := @writeLoop_written w c buf len fd hcall fuel
      rw [h] at hwritten
      cases hwritten with
      | @taken k n hk hint hn => exact ⟨c, k, n, rfl, rfl, hn, rfl⟩
  · obtain ⟨stop, out, -, hrun⟩ := @grnvs_write_not_admitted w buf len fd hadm
    rw [hrun fuel] at h
    cases h

/-- The packets the kernel has taken. -/
def taken (ts : List Transmission) : List (List Byte) :=
  ts.filterMap fun t => if t.result.isOk then some t.bytes else none

theorem taken_append (ts us : List Transmission) : taken (ts ++ us) = taken ts ++ taken us :=
  List.filterMap_append

theorem taken_interrupted (w : World) (c : SendCall) (bytes : List Byte) (k : Nat) :
    taken (List.replicate k (w.transmission c bytes (.error .eintr))) = [] := by
  refine List.filterMap_eq_nil_iff.mpr ?_
  intro t ht
  rw [List.eq_of_mem_replicate ht]
  rfl

theorem taken_tries (w : World) (c : SendCall) (bytes : List Byte) (k : Nat)
    (result : Except Errno Nat) :
    taken (tries w c bytes k result) = if result.isOk then [bytes] else [] := by
  have hlast : taken [w.transmission c bytes result] = if result.isOk then [bytes] else [] := by
    cases result with
    | ok n => rfl
    | error e => rfl
  have hnone := taken_interrupted w c bytes k
  rw [tries, taken_append, hnone, hlast, List.nil_append]

/-- A packet in the buffer counts as sent when the call returns a number of bytes. -/
def sentBy (bytes : List Byte) : Except Stop Int → List (List Byte)
  | .ok ret => if 0 ≤ ret then [bytes] else []
  | .error _ => []

/-- The tries of a call. -/
theorem mem_tries {t : Transmission} (h : t ∈ tries w c bytes k result) :
    t.call = c ∧ t.file = w.table.file c.fd ∧ t.bytes = bytes := by
  rw [tries, List.mem_append, List.mem_singleton] at h
  cases h with
  | inl h =>
    rw [List.eq_of_mem_replicate h]
    exact ⟨rfl, rfl, rfl⟩
  | inr h =>
    rw [h]
    exact ⟨rfl, rfl, rfl⟩

/-- All tries of a call but the last have been interrupted. -/
theorem tries_interrupted {t : Transmission} (h : t ∈ (tries w c bytes k result).dropLast) :
    t.result = .error .eintr := by
  rw [tries, List.dropLast_concat] at h
  rw [List.eq_of_mem_replicate h]
  rfl

/-- The packets a call hands to the kernel. -/
theorem grnvs_write_log (fuel : Nat) (fd : Int) (buf : List Byte) (len : Nat) (w : World) :
    ∃ ts, ((grnvs_write fuel fd buf len).run w).2.log = w.log ++ ts.map .transmit ∧
      (∀ t ∈ ts, sendCall w.statics fd buf = some t.call ∧ t.bytes = buf.take len) ∧
      (∀ t ∈ ts.dropLast, t.result = .error .eintr) ∧
      taken ts = sentBy (buf.take len) ((grnvs_write fuel fd buf len).run w).1 := by
  have hnil : ∀ t ∈ ([] : List Transmission),
      sendCall w.statics fd buf = some t.call ∧ t.bytes = buf.take len :=
    fun t ht => absurd ht List.not_mem_nil
  have hlast : ∀ t ∈ ([] : List Transmission).dropLast, t.result = .error .eintr :=
    fun t ht => absurd ht List.not_mem_nil
  by_cases hadm : Admitted w buf len
  · rw [grnvs_write_admitted hadm]
    cases hcall : sendCall w.statics fd buf with
    | none =>
      refine ⟨[], ?_⟩
      rw [List.map_nil, List.append_nil]
      cases fuel with
      | zero => exact ⟨rfl, hcall ▸ hnil, hlast, rfl⟩
      | succ fuel =>
        rw [writeLoop_unknown hcall]
        exact ⟨rfl, hcall ▸ hnil, hlast, rfl⟩
    | some c =>
      have hwritten := @writeLoop_written w c buf len fd hcall fuel
      generalize (writeLoop fd buf len fuel).run w = r at hwritten
      cases hwritten with
      | @taken k n hk hint hn =>
        refine ⟨tries w c (buf.take len) k (.ok n), rfl, ?_, fun t => tries_interrupted, ?_⟩
        · intro t ht
          obtain ⟨hc, -, hbytes⟩ := mem_tries ht
          exact ⟨congrArg some hc.symm, hbytes⟩
        · rw [taken_tries, sentBy, if_pos (Int.natCast_nonneg n)]
          rfl
      | @refused k e text hk hint he hne =>
        refine ⟨tries w c (buf.take len) k (.error e), rfl, ?_, fun t => tries_interrupted, ?_⟩
        · intro t ht
          obtain ⟨hc, -, hbytes⟩ := mem_tries ht
          exact ⟨congrArg some hc.symm, hbytes⟩
        · rw [taken_tries]
          rfl
      | interrupted hint =>
        refine ⟨_, rfl, ?_, ?_, taken_interrupted w c (buf.take len) fuel⟩
        · intro t ht
          rw [List.eq_of_mem_replicate ht]
          exact ⟨rfl, rfl⟩
        · intro t ht
          rw [List.eq_of_mem_replicate (List.dropLast_subset _ ht)]
          rfl
  · obtain ⟨stop, out, -, hrun⟩ := @grnvs_write_not_admitted w buf len fd hadm
    rw [hrun fuel]
    refine ⟨[], ?_, hnil, hlast, rfl⟩
    rw [List.map_nil, List.append_nil]

theorem grnvs_write_ends_iff (fd : Int) (buf : List Byte) (len : Nat) (w : World) :
    Comp.Ends .fuel (fun fuel => grnvs_write fuel fd buf len) w ↔
      ¬ (Admitted w buf len ∧ ∃ c, sendCall w.statics fd buf = some c ∧
        ∀ k, sendResult w c k = .error .eintr) := by
  constructor
  · intro hends hloop
    obtain ⟨hadm, c, hcall, hint⟩ := hloop
    obtain ⟨n, hn⟩ := hends
    have hne := hn n (Nat.le_refl n)
    rw [grnvs_write_admitted hadm] at hne
    have hwritten := @writeLoop_written w c buf len fd hcall n
    generalize (writeLoop fd buf len n).run w = r at hwritten hne
    cases hwritten with
    | @taken k m hk _ hm =>
      rw [hint k] at hm
      cases hm
    | @refused k e text hk _ he hfatal =>
      rw [hint k] at he
      exact hfatal (Except.error.inj he).symm
    | interrupted _ => exact hne rfl
  · intro hloop
    by_cases hadm : Admitted w buf len
    · cases hcall : sendCall w.statics fd buf with
      | none =>
        refine ⟨1, fun fuel hfuel => ?_⟩
        obtain ⟨fuel, rfl⟩ := Nat.exists_eq_succ_of_ne_zero (by omega : fuel ≠ 0)
        rw [grnvs_write_admitted hadm, writeLoop_unknown hcall]
        exact fun he => nomatch he
      | some c =>
        obtain ⟨k, hk⟩ : ∃ k, sendResult w c k ≠ .error .eintr := by
          by_contra hall
          exact hloop ⟨hadm, c, hcall, fun k => by_contra fun hne => hall ⟨k, hne⟩⟩
        refine ⟨k + 1, fun fuel hfuel => ?_⟩
        rw [grnvs_write_admitted hadm]
        have hwritten := @writeLoop_written w c buf len fd hcall fuel
        generalize (writeLoop fd buf len fuel).run w = r at hwritten
        cases hwritten with
        | taken _ _ _ => exact fun he => nomatch he
        | refused text _ _ _ _ => exact fun he => nomatch he
        | interrupted hint => exact absurd (hint k (by omega)) hk
    · obtain ⟨stop, out, hstop, hrun⟩ := @grnvs_write_not_admitted w buf len fd hadm
      refine ⟨0, fun fuel _ => ?_⟩
      rw [hrun fuel]
      exact fun he => hstop (Except.error.inj he)

/-- A call hands nothing to the kernel but its packet, by one system call that is made again just as
    long as it is interrupted. The kernel has taken the packet once when the call returns a number of
    bytes, and not at all when it returns an error or ends the program. The call ends unless it gets
    to the loop and all its tries are interrupted. -/
theorem grnvs_write_once (fd : Int) (buf : List Byte) (len : Nat) (w : World) :
    (∀ fuel, ∃ ts, ((grnvs_write fuel fd buf len).run w).2.log = w.log ++ ts.map .transmit ∧
      (∀ t ∈ ts, sendCall w.statics fd buf = some t.call ∧ t.bytes = buf.take len) ∧
      (∀ t ∈ ts.dropLast, t.result = .error .eintr) ∧
      taken ts = sentBy (buf.take len) ((grnvs_write fuel fd buf len).run w).1) ∧
    (Comp.Ends .fuel (fun fuel => grnvs_write fuel fd buf len) w ↔
      ¬ (Admitted w buf len ∧ ∃ c, sendCall w.statics fd buf = some c ∧
        ∀ k, sendResult w c k = .error .eintr)) :=
  ⟨fun fuel => grnvs_write_log fuel fd buf len w, grnvs_write_ends_iff fd buf len w⟩

end Write

/-! ## What reading and closing do -/

section Close

variable {w w' : World} {fd ret : Int}

/-- A call that returns leaves the module as it is. -/
theorem grnvs_read_ok {fuel maxlen : Nat} {timeout : Option Nat} {r : Int × Option Nat}
    (h : (grnvs_read fuel maxlen timeout).run w = (.ok r, w')) :
    0 ≤ w.statics.ifindex ∧ w' = { w with reader := w'.reader } := by
  obtain ⟨hresult, hw⟩ := Prod.mk.inj h
  constructor
  · by_contra hneg
    have hclosed : w.device.ifindex < 0 := by
      show w.statics.ifindex < 0
      omega
    unfold Stats.grnvs_read at hresult
    rw [Comp.gets_bind, Comp.gets_bind, if_pos hclosed] at hresult
    cases hresult
  · rw [← hw]

/-- The statics of a closed module. -/
def Statics.closed (s : Statics) : Statics :=
  { s with ifindex := -1, mac := zeros ETH_ALEN, ip6 := zeros 16, ip := zeros 4 }

/-- `close` itself does not touch the module. -/
theorem close_statics (fd : Int) (w : World) : ((close fd).run w).2.statics = w.statics := by
  rw [close, answer, Comp.gets_bind, Comp.gets_bind]
  cases w.table.file fd with
  | none => rfl
  | some f => rfl

theorem grnvs_close_statics (h : (grnvs_close fd).run w = (.ok ret, w')) :
    w'.statics = w.statics.closed := by
  have hrun := congrArg (fun r => r.2.statics) h
  rw [grnvs_close, assign, Comp.modify_bind] at hrun
  exact hrun.symm.trans (close_statics fd _)

theorem grnvs_close_run (h : w.table.file fd ≠ none) :
    ∃ result, (grnvs_close fd).run w = (.ok (if result = none then 0 else -1),
      w.after w.statics.closed (w.table.remove fd) [.close fd result]) := by
  obtain ⟨f, hf⟩ := Option.ne_none_iff_exists'.mp h
  refine ⟨w.kernel.close w.log.length, ?_⟩
  rw [grnvs_close, assign, Comp.modify_bind, close, answer, Comp.gets_bind, Comp.gets_bind, hf]
  rfl

end Close

end Grnvs.Raw
