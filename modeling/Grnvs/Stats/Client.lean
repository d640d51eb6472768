/-
  `assignment2.c`: ethstats, which reads frames, counts them by EtherType in a linked list, and
  prints the list in ascending order of the types while it takes it down.

  The loops over the list are given a number of turns; a run that needs more stops with `fuel`.
-/
import Grnvs.Stats.Read

namespace Grnvs.Stats

open Bytes Linked

/-- The conversion to `u_int16_t`. -/
def u16 (n : Nat) : Nat := n % 65536

/-- The conversion to `u_int32_t`. -/
def u32 (n : Nat) : Nat := n % 4294967296

/-! ## The list -/

def newInfo (type : Nat) : Run Link := do
  let ti ← malloc
  Comp.when (ti ≠ none) do
    assign ti ({ · with ethType := type })
    assign ti ({ · with frameCounter := 0 })
    assign ti ({ · with byteCounter := 0 })
    assign ti ({ · with next := none })
  pure ti

def getInfoByType (ethType : Nat) : Nat → Link → Run Link
  | 0, _ => Comp.stop .fuel
  | fuel + 1, temp =>
      match temp with
      | none => pure none
      | some _ => do
          let info ← deref temp
          if info.ethType ≠ ethType then getInfoByType ethType fuel info.next else pure temp

/-- `while (temp->next != NULL) temp = temp->next;` -/
def lastInfo : Nat → Link → Run Link
  | 0, _ => Comp.stop .fuel
  | fuel + 1, temp => do
      let info ← deref temp
      match info.next with
      | none => pure temp
      | some _ => lastInfo fuel info.next

def insertInfo (fuel : Nat) (new head : Link) : Run Link :=
  match head with
  | none => pure new
  | some _ => do
      let temp ← lastInfo fuel head
      assign temp ({ · with next := new })
      pure head

/-- `while (temp->next != NULL && temp->next->ethType != type) temp = temp->next;` -/
def infoBefore (type : Nat) : Nat → Link → Run Link
  | 0, _ => Comp.stop .fuel
  | fuel + 1, temp => do
      let info ← deref temp
      match info.next with
      | none => pure temp
      | some _ => do
          let behind ← deref info.next
          if behind.ethType ≠ type then infoBefore type fuel info.next else pure temp

def removeByType (fuel type : Nat) (head : Link) : Run Link :=
  match head with
  | none => pure head
  | some _ => do
      let first ← deref head
      if first.ethType = type then do
        free head
        pure first.next
      else do
        let temp ← infoBefore type fuel head
        let info ← deref temp
        match info.next with
        | none => pure head
        | some _ => do
            let t ← deref info.next
            assign temp ({ · with next := t.next })
            free info.next
            pure head

/-- The loop of `min`. -/
def minLoop : Nat → Link → Link → Run Link
  | 0, _, _ => Comp.stop .fuel
  | fuel + 1, cur, temp =>
      match temp with
      | none => pure cur
      | some _ => do
          let info ← deref temp
          let least ← deref cur
          minLoop fuel (if info.ethType < least.ethType then temp else cur) info.next

def min (fuel : Nat) (head : Link) : Run Link := minLoop fuel head head

/-! ## A frame -/

def isMulticast (mac_first : Byte) : Nat := if mac_first &&& 1 ≠ 0 then 1 else 0

/-- The six bytes that are copied. -/
def getMac (src : List Byte) (offset : Nat) : List Byte := (src.drop offset).take ETH_ALEN

def macsEqual (x y : List Byte) : Nat :=
  if (List.range ETH_ALEN).all fun i => x.getD i 0 == y.getD i 0 then 1 else 0

def getType (buf : List Byte) : Nat :=
  let type := (buf.drop (2 * ETH_ALEN)).take 2
  (((type.getD 0 0).toNat <<< 8) % 18446744073709551616 +
    (type.getD 1 0).toNat) % 18446744073709551616

/-! ## The program -/

/-- The local variables of `assignment2` that live from one turn to the next. -/
structure Locals where
  timeout : Nat
  myFrames : Nat
  multiCastFrames : Nat
  infoList : Link
  totalByte : Nat
deriving DecidableEq, Repr

/-- Find the entry of a frame's type and count the frame there, in a new entry if there is none. -/
def countType (fuel eType ret : Nat) (infoList : Link) : Run Link := do
  let temp ← getInfoByType eType fuel infoList
  match temp with
  | none => do
      let temp ← newInfo eType
      assign temp ({ · with frameCounter := 1 })
      assign temp ({ · with byteCounter := u32 ret })
      insertInfo fuel temp infoList
  | some _ => do
      assign temp fun info => { info with frameCounter := u32 (info.frameCounter + 1) }
      assign temp fun info => { info with byteCounter := u32 (info.byteCounter + ret) }
      pure infoList

/-- What is done with a frame of `ret` bytes. -/
def countFrame (fuel ret : Nat) (l : Locals) : Run Locals := do
  let recbuffer ← Comp.gets World.recbuffer
  let mymac ← Comp.gets World.mymac
  let eType := u16 (getType recbuffer)
  let mac := getMac recbuffer 0
  let infoList ← countType fuel eType ret l.infoList
  pure { l with
    infoList := infoList
    myFrames := if macsEqual mymac mac ≠ 0 then u32 (l.myFrames + 1) else l.myFrames
    multiCastFrames :=
      if isMulticast (mac.getD 0 0) ≠ 0 then u32 (l.multiCastFrames + 1) else l.multiCastFrames
    totalByte := u32 (l.totalByte + ret) }

/-- The receive loop, with the number of turns that are left. -/
def receiveLoop (fuel : Nat) : Nat → Locals → Run Locals
  | 0, l => pure l
  | turns + 1, l => do
      let (len, timeout) ← grnvs_read fuel 1514 (some l.timeout)
      let l := { l with timeout := timeout.getD 0 }
      let ret := (len % 18446744073709551616).toNat
      if ret = 0 then do
        print (.stderr ("Timed out, this means there was nothing to " ++
          "receive. Do you have a sender set up?\n"))
        pure l
      else do
        let l ← countFrame fuel ret l
        receiveLoop fuel turns l

/-- `%04x`. -/
def hex4 (n : Nat) : String :=
  let digits := Nat.toDigits 16 n
  String.ofList (List.replicate (4 - digits.length) '0' ++ digits)

/-- `%d` of a `u_int32_t`. -/
def signed (n : Nat) : String :=
  if n < 2147483648 then toString n else toString ((n : Int) - 4294967296)

def summaryLine (ethType frameCounter byteCounter : Nat) : String :=
  "0x" ++ hex4 ethType ++ ": " ++ signed frameCounter ++ " frames, " ++ signed byteCounter ++
    " bytes\n"

/-- The printing loop. -/
def summaryLoop (fuel : Nat) : Nat → Link → Run Link
  | 0, _ => Comp.stop .fuel
  | turns + 1, infoList =>
      match infoList with
      | none => pure none
      | some _ => do
          let temp ← min fuel infoList
          let info ← deref temp
          print (.stdout (summaryLine info.ethType info.frameCounter info.byteCounter))
          let infoList ← removeByType fuel info.ethType infoList
          summaryLoop fuel turns infoList

def grnvs_get_hwaddr : Run (Option (List Byte)) :=
  Comp.gets fun w => if w.ifindex < 0 then none else some w.kernel.hwaddr

def assignment2 (fuel : Nat) (frames : Int) : Run Unit := do
  match ← grnvs_get_hwaddr with
  | none => Comp.stop .undefined
  | some hwaddr => do
      Comp.modify fun w => { w with mymac := hwaddr.take ETH_ALEN }
      print (.stdout "I am ready!\n")
      let l ← receiveLoop fuel frames.toNat ⟨10000, 0, 0, none, 0⟩
      let _ ← summaryLoop fuel fuel l.infoList
      print (.stdout (signed l.myFrames ++ " of them were for me\n"))
      print (.stdout (signed l.multiCastFrames ++ " of them were multicast\n"))
      print (.rate l.totalByte)

end Grnvs.Stats
