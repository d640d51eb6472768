/-
  What `raw.c` runs on: the static variables of the module, the descriptors of the process, and the
  system calls behind `grnvs_open`, `grnvs_write` and `grnvs_close`.

  The `Kernel` answers every system call in its own way, the n-th call of a run by the n-th answer;
  the log keeps the calls and their answers in order. A descriptor is the lowest number that is
  free. The side of the module that reads is the one of ethstats (`World.device`).
-/
import Grnvs.Lib.Descriptors
import Grnvs.Stats.Client

namespace Grnvs.Raw

open Bytes Descriptors
open Grnvs.Stats (Errno Stop ETH_ALEN)

/-- Addresses of a fixed length. -/
abbrev Octets (n : Nat) := { bs : List Byte // bs.length = n }

def SOCK_DGRAM : Int := 2

def SOCK_RAW : Int := 3

def IFNAMSIZ : Nat := 16

def EBADF : Errno := .other 9

def EINVAL : Nat := 22

inductive Family where
  | inet
  | inet6
  | packet
deriving DecidableEq, Repr

/-- What a descriptor of the process stands for: a socket of the module, with the interface it is
    bound to, or a file that something else has opened. -/
inductive File where
  | socket (family : Family) (type : Int) (bound : Option Int)
  | other
deriving DecidableEq, Repr

/-- `struct sockaddr`, as far as `grnvs_get_addresses` looks at it. -/
inductive SockAddr where
  | inet (sin_addr : Octets 4)
  | inet6 (sin6_addr : Octets 16)
  | other

/-- `struct ifaddrs` -/
structure IfAddrs where
  ifa_name : CString
  ifa_addr : Option SockAddr

/-- The three ways to send a packet, with the descriptor and the address that are given. -/
inductive SendCall where
  | sendto (fd : Int) (sa : List Byte)
  | send (fd : Int)
  | write (fd : Int)
deriving DecidableEq, Repr

def SendCall.fd : SendCall → Int
  | .sendto fd _ => fd
  | .send fd => fd
  | .write fd => fd

/-- A packet given to the kernel, and the file behind the descriptor at that time. -/
structure Transmission where
  call : SendCall
  file : Option File
  bytes : List Byte
  result : Except Errno Nat

/-- The system calls of the module with their answers. -/
inductive Syscall where
  | socket (family : Family) (type : Int) (result : Except Errno Int)
  | siocgifindex (fd : Int) (ifname : CString) (result : Except Errno Nat)
  | siocgifhwaddr (fd : Int) (ifname : CString) (result : Except Errno (Octets 14))
  | getifaddrs (result : Except Errno (List IfAddrs))
  | bind (fd ifindex : Int) (result : Option Errno)
  | transmit (t : Transmission)
  | close (fd : Int) (result : Option Errno)

/-- The answers of the system to the n-th call. The index of an interface is not negative. -/
structure Kernel where
  strerror : Errno → String
  socket : Nat → Option Errno
  siocgifindex : Nat → CString → Except Errno Nat
  siocgifhwaddr : Nat → CString → Except Errno (Octets 14)
  getifaddrs : Nat → Except Errno (List IfAddrs)
  bind : Nat → Option Errno
  send : Nat → Except Errno Nat
  close : Nat → Option Errno

/-- The static variables. -/
structure Statics where
  ifindex : Int
  write_six : Int
  write_four : Int
  mac : List Byte
  ip : List Byte
  ip6 : List Byte
deriving DecidableEq, Repr

def Statics.initial : Statics := ⟨-1, -1, -1, zeros ETH_ALEN, zeros 4, zeros 16⟩

structure World where
  statics : Statics
  kernel : Kernel
  table : Table File
  reader : Stats.World
  out : List String
  log : List Syscall

abbrev Run := Comp Stop World

/-- What the reading side sees of the module. -/
def World.device (w : World) : Stats.World :=
  { w.reader with
    ifindex := w.statics.ifindex
    kernel := { w.reader.kernel with hwaddr := w.statics.mac } }

/-- The reading side. -/
def onDevice {α : Type} (x : Stats.Run α) : Run α :=
  ⟨fun w => ((x.run w.device).1, { w with reader := (x.run w.device).2 })⟩

/-- `fprintf(stderr, ..)` -/
def print (text : String) : Run Unit := Comp.modify fun w => { w with out := w.out ++ [text] }

/-- Assignments to static variables. -/
def assign (f : Statics → Statics) : Run Unit :=
  Comp.modify fun w => { w with statics := f w.statics }

/-! ## System calls -/

/-- The answer of the kernel to this call. -/
def answer {α : Type} (f : Kernel → Nat → α) : Run α := Comp.gets fun w => f w.kernel w.log.length

def note (c : Syscall) : Run Unit := Comp.modify fun w => { w with log := w.log ++ [c] }

/-- `socket`; the protocol is the one `raw.c` uses with the family. -/
def socket (family : Family) (type : Int) : Run (Except Errno Int) := do
  match ← answer Kernel.socket with
  | some e => do
      note (.socket family type (.error e))
      pure (.error e)
  | none => do
      let fd : Int ← Comp.gets fun w => (w.table.lowest : Int)
      Comp.modify fun w => { w with table := w.table.install (.socket family type none) }
      note (.socket family type (.ok fd))
      pure (.ok fd)

/-- `ioctl(fd, SIOCGIFINDEX, ..)` -/
def siocgifindex (fd : Int) (ifname : CString) : Run (Except Errno Nat) := do
  let result ← answer fun k n => k.siocgifindex n ifname
  note (.siocgifindex fd ifname result)
  pure result

/-- `ioctl(fd, SIOCGIFHWADDR, ..)` -/
def siocgifhwaddr (fd : Int) (ifname : CString) : Run (Except Errno (Octets 14)) := do
  let result ← answer fun k n => k.siocgifhwaddr n ifname
  note (.siocgifhwaddr fd ifname result)
  pure result

def getifaddrs : Run (Except Errno (List IfAddrs)) := do
  let result ← answer Kernel.getifaddrs
  note (.getifaddrs result)
  pure result

/-- The table in which a socket is bound to an interface. -/
def bindTo (ifindex fd : Int) (t : Table File) : Table File :=
  match t.file fd with
  | some (.socket family type _) => t.assign fd (.socket family type (some ifindex))
  | _ => t

/-- `bind` of a packet socket to an interface. -/
def bind (fd ifindex : Int) : Run (Except Errno Unit) := do
  let result ← answer Kernel.bind
  note (.bind fd ifindex result)
  match result with
  | some e => pure (.error e)
  | none => do
      Comp.modify fun w => { w with table := bindTo ifindex fd w.table }
      pure (.ok ())

/-- `sendto`, `send` or `write`. -/
def transmit (c : SendCall) (bytes : List Byte) : Run (Except Errno Nat) := do
  let file ← Comp.gets fun w => w.table.file c.fd
  let sent ← answer Kernel.send
  let result : Except Errno Nat := if file = none then .error EBADF else sent
  note (.transmit ⟨c, file, bytes, result⟩)
  pure result

/-- `close`, after which the number is free also if an error is reported. -/
def close (fd : Int) : Run Int := do
  let result ← answer Kernel.close
  match ← Comp.gets fun w => w.table.file fd with
  | none => do
      note (.close fd (some EBADF))
      pure (-1)
  | some _ => do
      Comp.modify fun w => { w with table := w.table.remove fd }
      note (.close fd result)
      pure (if result = none then 0 else -1)

end Grnvs.Raw
