/-
  asciiclient, translated function by function from `assignment4/src/assignment4.c`.

  The loops take fuel: `recvMessage` and everything above it stop with `Stop.fuel` when a loop
  runs longer than the fuel given. `size_t` arithmetic is modulo 2^64; `netStringsInBuf` is an
  integer because `recvMessage` may return -1. Calls that only set up sockets are answered by
  `Env`.
-/
import Grnvs.Ascii.Machine

namespace Grnvs.Ascii

open Bytes Decimal Netstring

def BUFSIZE : Nat := 4096

/-- `a - b` on `size_t`. -/
def subSize (a b : Nat) : Nat := (a + 2 ^ 64 - b) % 2 ^ 64

/-- The conversion of a `long` to `size_t`. -/
def sizeOfLong (i : Int) : Nat := (i % 2 ^ 64).toNat

/-! ## Sending -/

/-- counts number of digits of decimal number -/
def countDigits (c : Nat) : Nat := if c / 10 = 0 then 1 else countDigits (c / 10) + 1

/-- `countDigits(len)` in `(len = strlen(src)) < bufSize - countDigits(len)`: the operands are
    unsequenced, so it may see `len` as it was initialised. -/
def digitsSeen (order : EvalOrder) (bufSize len : Nat) : Nat :=
  match order with
  | .before => countDigits bufSize
  | .after => countDigits len

variable [Libc]

/-- Writes the string `src` into `dest` as a netstring. The result is one less than the length of
    the netstring; a string that is too long leaves `0:` in `dest` and returns its length all the
    same. -/
def writeNet (dest : Ptr) (bufSize : Nat) (src : Ptr) : Run Nat := do
  memset dest bufSize
  let len ← strlen src
  let order ← Comp.gets World.order
  if len < subSize bufSize (digitsSeen order bufSize len) then do
    store dest (dec len ++ [colon] ++ [0])
    strcat dest src
    strcat dest (litPtr ",")
    pure (len + countDigits len + 1)
  else do
    store dest (lit "0:" ++ [0])
    pure (len + countDigits len + 1)

def sendMessage (fd : Fd) (m buf : Ptr) : Run Unit := do
  let n ← writeNet buf BUFSIZE m
  writeFd fd buf (n + 1)

/-! ## Checking -/

/-- `'E'` -/
def letterE : Byte := 69

/-- Prints an error of the server and returns; answers any other unexpected message with an error
    of its own and exits. -/
def checkMessage (fd : Fd) (expected actual : Ptr) : Run Unit := do
  let act ← strAt actual
  let want ← strAt expected
  note (.check fd want act)
  let first ← charAt actual
  if first = letterE then do
    let why ← strAt (actual + 2)
    note (.print (lit "Error: " ++ why))
  else if want ≠ act then do
    declare .errmsg BUFSIZE
    let errmsg := Arr.errmsg.ptr
    strcpy errmsg (litPtr "E ")
    strcat errmsg (litPtr "expected: \"")
    strcat errmsg expected
    strcat errmsg (litPtr "\" but received: \"")
    strcat errmsg actual
    strcat errmsg (litPtr "\"")
    sendMessage fd errmsg actual
    let why ← strAt (errmsg + 2)
    note (.print (lit "Error: " ++ why))
    exit (-1)
  else pure ()

/-! ## Receiving -/

/-- The first format test of `readNet`: no colon, or a comma before it. -/
def formatBroken (src : Ptr) : Run Bool := do
  let colonAt ← strchr src colon
  match colonAt with
  | none => pure true
  | some i => do
      let commaAt ← strchr src comma
      match commaAt with
      | none => pure false
      | some j => pure (j < i)

/-- The second format test, made on the full netstring: here a missing comma is refused too. -/
def formatBrokenFull (src : Ptr) : Run Bool := do
  let colonAt ← strchr src colon
  match colonAt with
  | none => pure true
  | some i => do
      let commaAt ← strchr src comma
      match commaAt with
      | none => pure true
      | some j => pure (j < i)

/-- `strchr(src, ':') - src`; the difference with a null pointer is undefined. -/
def digitsBefore (src : Ptr) : Run Nat := do
  let colonAt ← strchr src colon
  match colonAt with
  | none => undefined
  | some i => pure i

/-- The fragment loop of `readNet`: read more until the text is as long as the announced payload. -/
def refill (fd : Fd) (src : Ptr) (strLength : Nat) : Nat → Run Unit
  | 0 => Comp.stop .fuel
  | fuel + 1 => do
      let len ← strlen src
      if strLength > len then do
        let scratch := Arr.scratch.ptr
        let old ← strlen scratch
        let n ← readFd fd scratch (subSize strLength old)
        if n < 0 then pure ()
        else do
          strcat src scratch
          refill fd src strLength fuel
      else pure ()

/-- The end of `readNet`: the payload to `dest`, and where the text goes on after it. The result
    `none` is the pointer -1 of a message that does not fit. -/
def convert (dest : Ptr) (bufSize : Nat) (src : Ptr) (digits strLength curMessageLength : Nat) :
    Run (Option Ptr) :=
  if (strLength + curMessageLength) % 2 ^ 64 > bufSize then pure none
  else do
    strncpy dest (src + (digits + 1)) strLength
    store (dest + strLength) [0]
    pure (some (src + (digits + strLength + 2)))

/-- Lines 140 to 164 of `readNet`: complete a fragmented netstring, test it again, convert. -/
def readRest (fuel : Nat) (dest : Ptr) (bufSize : Nat) (src : Ptr) (fd : Fd)
    (digits strLength curMessageLength : Nat) : Run (Option Ptr) := do
  declare .scratch BUFSIZE
  refill fd src strLength fuel
  let brokenFull ← formatBrokenFull src
  Comp.when (brokenFull = true) (checkMessage fd (litPtr "String in netstring format") src)
  convert dest bufSize src digits strLength curMessageLength

/-- extracts pure String from Netstring src into dest -/
def readNet (fuel : Nat) (dest : Ptr) (bufSize : Nat) (src : Ptr) (fd : Fd)
    (curMessageLength : Nat) : Run (Option Ptr) := do
  let broken ← formatBroken src
  Comp.when (broken = true) (checkMessage fd (litPtr "String in netstring format") src)
  -- refuse leading 0
  let first ← charAt src
  Comp.when (first = 48) (checkMessage fd (litPtr "no leading 0") src)
  -- get netstring length
  let digits ← digitsBefore src
  let txt ← strAt src
  let strLength := sizeOfLong (strtol (txt.take digits))
  readRest fuel dest bufSize src fd digits strLength curMessageLength

/-- `strcpy(dst, src)` from a pointer that may be -1. -/
def strcpyFrom (dst : Ptr) : Option Ptr → Run Unit
  | none => undefined
  | some src => strcpy dst src

/-- A turn of the loop behind `readNet`: the message goes to `respDst` twice, the text goes on at
    `next`. Returns the new `message_length`. -/
def copyOut (respDst : Ptr) (messageLength : Nat) (next : Option Ptr) : Run Nat := do
  let buf := Arr.buf.ptr
  strcpy (respDst + messageLength) buf
  let len ← strlen buf
  let messageLength := messageLength + (len + 1)
  strcpy (respDst + messageLength) buf
  strcpyFrom buf next
  pure messageLength

/-- The loop of `recvMessage`, with `message_length` and `nets`. At its head `next` is `buf`. -/
def recvLoop (fd : Fd) (respDst : Ptr) : Nat → Nat → Nat → Run Int
  | 0, _, _ => Comp.stop .fuel
  | fuel + 1, messageLength, nets => do
      let buf := Arr.buf.ptr
      let c ← charAt buf
      if c ≠ 0 then do
        let next ← readNet fuel buf BUFSIZE buf fd messageLength
        let messageLength ← copyOut respDst messageLength next
        recvLoop fd respDst fuel messageLength (nets + 1)
      else pure nets

/-- receives netstring message m from socket descriptor and stores message in respDst
    returns number of netstrings read -/
def recvMessage (fuel : Nat) (fd : Fd) (respDst : Ptr) : Run Int := do
  memset respDst BUFSIZE
  declare .buf BUFSIZE
  let ret ← readFd fd Arr.buf.ptr BUFSIZE
  if ret < 0 then pure (-1)
  else recvLoop fd respDst fuel 0 0

/-! ## The session -/

/-- `netStringsInBuf` and `startOfNetstring`. -/
structure Cursor where
  netStringsInBuf : Int
  startOfNetstring : Ptr
deriving DecidableEq, Repr

def updateNets (num : Int) (cur buf : Ptr) : Run Ptr :=
  if num = 0 then pure buf
  else do
    let len ← strlen cur
    pure (cur + (len + 1))

/-- `netStringsInBuf--;` and `startOfNetstring = updateNets(...)`. -/
def advance (c : Cursor) : Run Cursor := do
  let num := c.netStringsInBuf - 1
  let start ← updateNets num c.startOfNetstring Arr.recvbuf.ptr
  pure ⟨num, start⟩

/-- `if (netStringsInBuf == 0) netStringsInBuf = recvMessage(fd, recvbuf);` -/
def receive (fuel : Nat) (fd : Fd) (c : Cursor) : Run Cursor :=
  if c.netStringsInBuf = 0 then do
    let nets ← recvMessage fuel fd Arr.recvbuf.ptr
    pure { c with netStringsInBuf := nets }
  else pure c

/-- Builds `head` followed by `tail` in `text` and sends it. -/
def sendText (fd : Fd) (head : String) (tail : Ptr) : Run Unit := do
  strcpy Arr.text.ptr (litPtr head)
  strcat Arr.text.ptr tail
  sendMessage fd Arr.text.ptr Arr.sendbuf.ptr

/-- The message of a step has passed its check. -/
def accept (step : Step) (start : Ptr) : Run Unit := do
  let m ← strAt start
  note (.accept step m)

/-- The check of a token step: only the first two bytes are looked at. -/
def checkPrefix (fd : Fd) (letter : Byte) (expected start : Ptr) : Run Unit := do
  let b0 ← charAt start
  if b0 ≠ letter then checkMessage fd expected start
  else do
    let b1 ← charAt (start + 1)
    Comp.when (b1 ≠ 32) (checkMessage fd expected start)

/-- What the set-up calls answer: `parse_ip`, `socket`, `connect`, `bind`, `listen`, `accept`,
    and the port `getsockname` finds. -/
structure Env where
  addressParsed : Bool
  controlSocket : Bool
  connected : Bool
  dataSocket : Bool
  bound : Bool
  listening : Bool
  accepted : Bool
  port : UInt16
deriving Repr

/-- Lines 281 to 294: the control connection. -/
def connectControl (env : Env) : Run Unit := do
  Comp.when (env.controlSocket = false) (exit 1)
  Comp.when (env.connected = false) (do note (.close .control); exit 1)

/-- Lines 297 to 301. -/
def controlVersion (fuel : Nat) : Run Cursor := do
  sendMessage .control (litPtr "C GRNVS V:1.0") Arr.sendbuf.ptr
  let nets ← recvMessage fuel .control Arr.recvbuf.ptr
  let c : Cursor := ⟨nets, Arr.recvbuf.ptr⟩
  checkMessage .control (litPtr "S GRNVS V:1.0") c.startOfNetstring
  accept .controlVersion c.startOfNetstring
  advance c

/-- Lines 303 to 312. -/
def controlToken (fuel : Nat) (c : Cursor) : Run Cursor := do
  sendText .control "C " Arr.nick.ptr
  let c ← receive fuel .control c
  checkPrefix .control 83 (litPtr "S <token>") c.startOfNetstring
  accept .controlToken c.startOfNetstring
  strcpy Arr.token.ptr (c.startOfNetstring + 2)
  advance c

/-- Lines 319 to 365: the data socket, and the port told to the server. -/
def openData (env : Env) : Run Unit := do
  Comp.when (env.dataSocket = false) (exit 1)
  Comp.when (env.bound = false)
    (do note (.close .control); note (.close .listening); exit 1)
  Comp.when (env.listening = false)
    (do note (.close .control); note (.close .listening); exit 1)
  strcpy Arr.text.ptr (litPtr "C ")
  store Arr.sendbuf.ptr (dec env.port.toNat ++ [0])
  strcat Arr.text.ptr Arr.sendbuf.ptr
  sendMessage .control Arr.text.ptr Arr.sendbuf.ptr
  Comp.when (env.accepted = false)
    (do note (.close .control); note (.close .listening); exit 1)

/-- Lines 369 to 373: the data connection starts with an empty buffer. -/
def dataVersion (fuel : Nat) : Run Cursor := do
  let nets ← recvMessage fuel .data Arr.recvbuf.ptr
  let c : Cursor := ⟨nets, Arr.recvbuf.ptr⟩
  checkMessage .data (litPtr "T GRNVS V:1.0") c.startOfNetstring
  accept .dataVersion c.startOfNetstring
  advance c

/-- Lines 375 to 385. -/
def dataToken (fuel : Nat) (c : Cursor) : Run Cursor := do
  sendText .data "D " Arr.nick.ptr
  let c ← receive fuel .data c
  strcpy Arr.text.ptr (litPtr "T ")
  strcat Arr.text.ptr Arr.token.ptr
  checkMessage .data Arr.text.ptr c.startOfNetstring
  accept .dataToken c.startOfNetstring
  advance c

/-- Lines 387 to 399. The data token is copied from the start of the buffer. -/
def dataDtoken (fuel : Nat) (c : Cursor) : Run Cursor := do
  sendText .data "D " Arr.msg.ptr
  let c ← receive fuel .data c
  checkPrefix .data 84 (litPtr "T <dtoken>") c.startOfNetstring
  accept .dataDtoken c.startOfNetstring
  strcpy Arr.token.ptr (Arr.recvbuf.ptr + 2)
  let c ← advance c
  note (.close .listening)
  note (.close .data)
  pure c

/-- Lines 402 to 408. -/
def controlLength (fuel : Nat) (c : Cursor) : Run Cursor := do
  let c ← receive fuel .control c
  strcpy Arr.text.ptr (litPtr "S ")
  let len ← strlen Arr.msg.ptr
  store (Arr.text.ptr + 2) (dec len ++ [0])
  checkMessage .control Arr.text.ptr c.startOfNetstring
  accept .controlLength c.startOfNetstring
  advance c

/-- Lines 410 to 421. -/
def controlAck (fuel : Nat) (c : Cursor) : Run Unit := do
  sendText .control "C " Arr.token.ptr
  let c ← receive fuel .control c
  strcpy Arr.text.ptr (litPtr "S ACK")
  checkMessage .control Arr.text.ptr c.startOfNetstring
  accept .controlAck c.startOfNetstring
  let _ ← advance c
  note (.close .control)

/-- The client from the connection on. -/
def session (fuel : Nat) (env : Env) : Run Unit := do
  declare .recvbuf BUFSIZE
  declare .sendbuf BUFSIZE
  declare .token BUFSIZE
  declare .text BUFSIZE
  connectControl env
  let c ← controlVersion fuel
  let _ ← controlToken fuel c
  openData env
  let c ← dataVersion fuel
  let c ← dataToken fuel c
  let c ← dataDtoken fuel c
  let c ← controlLength fuel c
  controlAck fuel c

/-- `assignment4`: an address that does not parse ends the client before it connects. -/
def assignment4 (fuel : Nat) (env : Env) : Run Unit :=
  if env.addressParsed then session fuel env else pure ()

/-- The world a process starts in: the argument strings, and what the peers will send. -/
def start (order : EvalOrder) (nick msg : List Byte) (net : Fd → Peer) : World where
  mem := fun
    | .nick => nick ++ [0]
    | .msg => msg ++ [0]
    | _ => []
  net := net
  log := []
  order := order

/-- A client about to receive its first message into `recvbuf`. -/
def receiving (net : Fd → Peer) : World :=
  (start .before [] [] net).setArr .recvbuf (zeros BUFSIZE)

omit [Libc] in
theorem receiving_recvbuf (net : Fd → Peer) : ((receiving net).mem .recvbuf).length = BUFSIZE := by
  simp [receiving]

end Grnvs.Ascii
