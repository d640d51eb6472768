/-
  The receiving side of `Assignment3`: `checkMessage` and what it calls.

  The extension header walk is a loop over one step (`walkStep`); how many turns it may take is the
  argument `fuel`, and it stops with `fuel` when they do not suffice. Everything in front of the
  handlers works on the datagram alone; only the handlers print and set `stopProbes`.
-/
import Grnvs.Trace.Raw

namespace Grnvs.Trace

open Bytes

/-- Version IPv6, traffic class 0. -/
def versionIpv6 : Byte := 0x60

/-- Length of the ICMPv6 message in bytes. -/
def icmpLength : UInt16 := 8

def icmpNH : Byte := 0x3a
def icmpEchoRequ : Byte := 128
def icmpEchoRep : Byte := 129
def icmpTimeEx : Byte := 3
def icmpDestUnreach : Byte := 1
def icmpID : Byte := 0xab

/-! ## The extension header walk -/

/-- The next header values the walk skips. -/
def isExtension (b : Byte) : Bool := b = 0x00 || b = 0x2b || b = 0x3c

/-- One evaluation of the loop's condition and, where it holds, one turn: the new `pos` and `skip`.
    The length byte is taken with its sign. -/
def walkStep (buffer : List Byte) (pos skip : Int) : Except Stop (Option (Int × Int)) := do
  let next ← arrayGet buffer pos
  if isExtension next then do
    let pos := pos + skip
    let length ← arrayGet buffer (pos + 1)
    pure (some (pos, 8 + 8 * signed length))
  else pure none

def walk : Nat → List Byte → Int → Int → Except Stop (Int × Int)
  | 0, _, _, _ => .error .fuel
  | fuel + 1, buffer, pos, skip => do
      match ← walkStep buffer pos skip with
      | some (pos, skip) => walk fuel buffer pos skip
      | none => pure (pos, skip)

/-! ## The ICMPv6 message -/

/-- The result, and the buffer with its checksum field cleared. -/
def checkIcmpProperties (buffer : List Byte) (pos : Int) : Except Stop (Bool × List Byte) := do
  let sum ← arraycopy buffer (pos + 2) (zeros 2) 0 2
  let buffer ← arraySet buffer (pos + 2) 0
  let buffer ← arraySet buffer (pos + 3) 0
  let cksum ← GRNVS_RAW.checksum buffer 0 buffer pos (buffer.length - 40)
  if (← arrayGet cksum 0) ≠ (← arrayGet sum 0) ∨ (← arrayGet cksum 1) ≠ (← arrayGet sum 1) then
    pure (false, buffer)
  else pure (true, buffer)

def handleIcmpTimeEx (buffer : List Byte) (pos : Int) (host : String) : Run Bool := do
  let code ← arrayGet buffer (pos + 1)
  if code ≠ 0x0 ∨ code ≠ 0x01 then pure false
  else do
    emit (.print ("  " ++ host))
    pure true

def handleIcmpDestUnreach (buffer : List Byte) (pos : Int) (host : String) : Run Bool := do
  let code ← arrayGet buffer (pos + 1)
  if code ≠ 0x0 ∨ code ≠ 0x03 ∨ code ≠ 0x04 then pure false
  else do
    Comp.modify fun w => { w with stopProbes := true }
    emit (.print ("  " ++ host ++ "!X"))
    pure true

def handleIcmpEchoRep (buffer : List Byte) (pos : Int) (host : String) : Run Bool := do
  let code ← arrayGet buffer (pos + 1)
  if code ≠ 0x0 then pure false
  else do
    let id0 ← arrayGet buffer (pos + 4)
    if id0 ≠ icmpID then pure false
    else do
      let id1 ← arrayGet buffer (pos + 5)
      if id1 ≠ 0x0 then pure false
      else do
        emit (.print ("  " ++ host))
        Comp.modify fun w => { w with stopProbes := true }
        pure true

/-- The part of `checkMessage` for a message whose checksum is right. -/
def dispatch (buffer : List Byte) (pos : Int) : Run Bool := do
  let src ← arraycopy buffer 8 (zeros 16) 0 16
  let host ← hostAddress src
  let type ← arrayGet buffer pos
  if type = icmpTimeEx then handleIcmpTimeEx buffer pos host
  else if type = icmpDestUnreach then handleIcmpDestUnreach buffer pos host
  else if type = icmpEchoRep then handleIcmpEchoRep buffer pos host
  else pure false

/-- The part of `checkMessage` behind the tests of the IPv6 header. -/
def searchIcmp (fuel : Nat) (buffer : List Byte) : Run Bool := do
  let (pos, skip) ← walk fuel buffer 6 34
  let next ← arrayGet buffer pos
  if next = icmpNH then do
    let pos := pos + skip
    let (relevant, buffer) ← checkIcmpProperties buffer pos
    if relevant then dispatch buffer pos else pure false
  else pure false

def checkMessage (fuel : Nat) (buffer : List Byte) : Run Bool := do
  let version ← arrayGet buffer 0
  if version ≠ versionIpv6 then pure false
  else do
    let received ← arraycopy buffer 24 (zeros 16) 0 16
    let receiver ← hostAddress received
    let myIP ← Comp.gets World.myIP
    let own ← hostAddress myIP
    if own ≠ receiver then pure false
    else searchIcmp fuel buffer

end Grnvs.Trace
