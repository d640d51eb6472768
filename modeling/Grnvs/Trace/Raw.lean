/-
  `GRNVS_RAW`: the Java side of the socket and of the checksum, and the native methods behind it.

  `checksum` hands its arguments to `icmp6_checksum` when they pass its tests (`Admitted`), and what
  comes back is the checksum of RFC 1071 in network byte order (`checksum_rfc1071`), although the
  native code sums up the words of a little-endian host.
-/
import Grnvs.Trace.Java

namespace Grnvs.Trace

open Bytes OnesComplement

/-! ## Native methods -/

/-- `GetByteArrayRegion` into a native array of `capacity` bytes; a region outside the Java array
    leaves an exception behind. -/
def getByteArrayRegion (a : List Byte) (start len : Int) (capacity : Nat) :
    Except Stop (List Byte) :=
  if 0 ≤ start ∧ 0 ≤ len ∧ start + len ≤ a.length then
    if len ≤ capacity then .ok ((a.drop start.toNat).take len.toNat) else .error (.native none)
  else .error .arrayCopy

/-- A `uint16_t` in the memory of the host. -/
def memory16 (c : Nat) : List Byte := [UInt8.ofNat c, UInt8.ofNat (c / 256)]

/-- `Java_GRNVS_1RAW_checksum_1`, with its arrays of 40 and 2048 bytes. -/
def checksum_ (hdr : List Byte) (hdrOffset : Int) (payload : List Byte)
    (payloadOffset payloadLength : Int) : Except Stop (List Byte) := do
  let hdrbuffer ← getByteArrayRegion hdr hdrOffset 40 40
  let payloadbuffer ← getByteArrayRegion payload payloadOffset payloadLength 2048
  match ((icmp6_checksum hdrbuffer payloadbuffer payloadLength.toNat).run []).1 with
  | .ok cksum => .ok (memory16 cksum)
  | .error fault => .error (.native (some fault))

/-! ## `GRNVS_RAW` -/

namespace GRNVS_RAW

/-- The arrays cannot be null here. -/
def checksum (hdr : List Byte) (hdrOffset : Int) (payload : List Byte)
    (payloadOffset payloadLength : Int) : Except Stop (List Byte) :=
  if hdrOffset < 0 then .error (.illegalArgument "hdrOffset must not be negative.")
  else if payloadOffset < 0 then .error (.illegalArgument "payloadOffset must not be negative.")
  else if payloadLength < 0 then .error (.illegalArgument "payloadLength must not be negative.")
  else if payloadLength > 2048 then .error (.illegalArgument "payloadLength is too big.")
  else if hdr.length - hdrOffset < 40 then
    .error (.illegalArgument "hdr must contain at least 40 bytes.")
  else if payload.length - payloadOffset < payloadLength then
    .error (.illegalArgument "payload is shorter than payloadLength.")
  else checksum_ hdr hdrOffset payload payloadOffset payloadLength

def write (buffer : List Byte) (size : Int) : Run Int := do
  let buf ← getByteArrayRegion buffer 0 size 1514
  match ← Comp.gets World.written with
  | [] => Comp.stop .waiting
  | ret :: rest => do
      Comp.modify fun w => { w with written := rest }
      emit (.write buf)
      pure ret

/-- `read_` has room for 1514 bytes, and for no more than `buffer` holds. It copies back as many
    bytes as `grnvs_read` returns: after an error `SetByteArrayRegion` throws. -/
def read (buffer : List Byte) : Run (Int × List Byte) := do
  match ← Comp.gets World.answers with
  | [] => Comp.stop .waiting
  | answer :: rest => do
      let time ← Comp.gets World.timeout
      Comp.modify fun w => { w with answers := rest, timeout := answer.timeout }
      match answer.reading with
      | .failed n => do
          emit (.read time (.failed n))
          Comp.stop (.arrayIndex (Int.negSucc n))
      | .bytes bs => do
          let buf := bs.take (min 1514 buffer.length)
          emit (.read time (.bytes buf))
          pure (buf.length, splice buffer 0 buf)

def hexdump (buffer : List Byte) (size : Int) : Run Unit := do
  let buf ← getByteArrayRegion buffer 0 size 1514
  emit (.hexdump buf)

end GRNVS_RAW

/-! ## Calls of the socket -/

section Socket

variable {buffer buf : List Byte} {size : Int} {w : World}

theorem write_waiting (h : getByteArrayRegion buffer 0 size 1514 = .ok buf) (hw : w.written = []) :
    (GRNVS_RAW.write buffer size).run w = (.error .waiting, w) := by
  rw [GRNVS_RAW.write, Comp.lift_bind h, Comp.gets_bind, hw]
  rfl

theorem write_returns (h : getByteArrayRegion buffer 0 size 1514 = .ok buf) {ret : Int}
    {rest : List Int} (hw : w.written = ret :: rest) :
    (GRNVS_RAW.write buffer size).run w =
      (.ok ret, World.note { w with written := rest } (.write buf)) := by
  rw [GRNVS_RAW.write, Comp.lift_bind h, Comp.gets_bind, hw]
  rfl

theorem hexdump_run (h : getByteArrayRegion buffer 0 size 1514 = .ok buf) :
    (GRNVS_RAW.hexdump buffer size).run w = (.ok (), w.note (.hexdump buf)) := by
  rw [GRNVS_RAW.hexdump, Comp.lift_bind h]
  rfl

theorem read_waiting (hw : w.answers = []) :
    (GRNVS_RAW.read buffer).run w = (.error .waiting, w) := by
  rw [GRNVS_RAW.read, Comp.gets_bind, hw]
  rfl

/-- The world in which `read` has taken the next answer. -/
def World.answered (w : World) (timeout : Int) (rest : List Answer) : World :=
  { w with answers := rest, timeout }

theorem read_failed {n : Nat} {timeout : Int} {rest : List Answer}
    (hw : w.answers = ⟨.failed n, timeout⟩ :: rest) :
    (GRNVS_RAW.read buffer).run w = (.error (.arrayIndex (Int.negSucc n)),
      (w.answered timeout rest).note (.read w.timeout (.failed n))) := by
  rw [GRNVS_RAW.read, Comp.gets_bind, hw]
  rfl

/-- A read into a buffer of 1514 bytes, which then starts with what was read. -/
theorem read_returns (hb : buffer.length = 1514) {bs : List Byte} {timeout : Int}
    {rest : List Answer} (hw : w.answers = ⟨.bytes bs, timeout⟩ :: rest) :
    (GRNVS_RAW.read buffer).run w =
      (.ok ((bs.take 1514).length, splice buffer 0 (bs.take 1514)),
        (w.answered timeout rest).note (.read w.timeout (.bytes (bs.take 1514)))) := by
  rw [GRNVS_RAW.read, Comp.gets_bind, hw, hb]
  rfl

end Socket

/-! ## The checksum in network byte order -/

theorem memory16_swap {c : Nat} (h : c ≤ 65535) : memory16 c = be16 (swap c) := by
  have h1 : swap c / 256 = c % 256 := by
    unfold swap
    omega
  have h2 : UInt8.ofNat (c % 256) = UInt8.ofNat c := UInt8.toNat_inj.mp (by simp)
  have h3 : UInt8.ofNat (swap c) = UInt8.ofNat (c / 256) := by
    apply UInt8.toNat_inj.mp
    rw [UInt8.toNat_ofNat', UInt8.toNat_ofNat']
    unfold swap
    omega
  rw [memory16, be16, h1, h2, h3]

/-- The checksum of a message between two addresses: that of RFC 1071 over the pseudo-header and
    the message. -/
def rfc1071 (src dst message : List Byte) : Nat :=
  checksum (pseudoHeader src dst message.length ++ message)

/-- The sum taken from host-order words lies in memory as the checksum in network byte order. -/
theorem memory16_checksum (bs : List Byte) :
    memory16 (65535 - rep 65535 (wordsLE bs).sum) = be16 (checksum bs) := by
  have hle := rep_le (by decide : 0 < 65535) (wordsLE bs).sum
  rw [memory16_swap (by omega), swap_compl hle, swap_sum, checksum_eq]

theorem getByteArrayRegion_ok {a : List Byte} {start len capacity : Nat}
    (h : start + len ≤ a.length) (hc : len ≤ capacity) :
    getByteArrayRegion a (start : Int) (len : Int) capacity = .ok ((a.drop start).take len) := by
  rw [getByteArrayRegion, if_pos (by omega), if_pos (by omega), Int.toNat_natCast,
    Int.toNat_natCast]

/-- The arguments that pass the tests of `GRNVS_RAW.checksum`. -/
structure Admitted (hdr : List Byte) (hdrOffset : Int) (payload : List Byte)
    (payloadOffset payloadLength : Int) : Prop where
  hdr_nonneg : 0 ≤ hdrOffset
  payload_nonneg : 0 ≤ payloadOffset
  length_nonneg : 0 ≤ payloadLength
  length_le : payloadLength ≤ 2048
  hdr_le : 40 ≤ hdr.length - hdrOffset
  payload_le : payloadLength ≤ payload.length - payloadOffset

variable {hdr payload : List Byte} {hdrOffset payloadOffset payloadLength : Int}

/-- Arguments that pass the tests get the checksum of RFC 1071. -/
theorem checksum_admitted
    (h : Admitted hdr hdrOffset payload payloadOffset payloadLength) :
    GRNVS_RAW.checksum hdr hdrOffset payload payloadOffset payloadLength =
      .ok (be16 (rfc1071 ((hdr.drop (hdrOffset.toNat + 8)).take 16)
        ((hdr.drop (hdrOffset.toNat + 24)).take 16)
        ((payload.drop payloadOffset.toNat).take payloadLength.toNat))) := by
  obtain ⟨h1, h2, h3, h4, h5, h6⟩ := h
  obtain ⟨ho, rfl⟩ := Int.eq_ofNat_of_zero_le h1
  obtain ⟨po, rfl⟩ := Int.eq_ofNat_of_zero_le h2
  obtain ⟨n, rfl⟩ := Int.eq_ofNat_of_zero_le h3
  have hlen : ((payload.drop po).take n).length = n := by
    rw [List.length_take, List.length_drop]
    omega
  have hhdr : ((hdr.drop ho).take 40).length = 40 := by
    rw [List.length_take, List.length_drop]
    omega
  have hrun := icmp6_checksum_run ((hdr.drop ho).take 40) ((payload.drop po).take n)
    (by omega) (by omega)
  rw [hlen] at hrun
  have hsrc : (((hdr.drop ho).take 40).drop 8).take 16 = (hdr.drop (ho + 8)).take 16 := by
    rw [List.drop_take, List.drop_drop, List.take_take]
    rfl
  have hdst : (((hdr.drop ho).take 40).drop 24).take 16 = (hdr.drop (ho + 24)).take 16 := by
    rw [List.drop_take, List.drop_drop, List.take_take]
    rfl
  have hcopy : getByteArrayRegion hdr ho 40 40 = .ok ((hdr.drop ho).take 40) :=
    getByteArrayRegion_ok (by omega : ho + 40 ≤ hdr.length) (Nat.le_refl 40)
  unfold GRNVS_RAW.checksum
  rw [if_neg (by omega), if_neg (by omega), if_neg (by omega), if_neg (by omega),
    if_neg (by omega), if_neg (by omega), checksum_, hcopy, ok_bind,
    getByteArrayRegion_ok (by omega) (by omega), ok_bind, Int.toNat_natCast, Int.toNat_natCast,
    Int.toNat_natCast, hrun, rfc1071, hlen, hsrc, hdst]
  exact congrArg Except.ok (memory16_checksum _)

/-- Other arguments are refused before the native code runs. -/
theorem checksum_refused
    (h : ¬ Admitted hdr hdrOffset payload payloadOffset payloadLength) :
    ∃ message, GRNVS_RAW.checksum hdr hdrOffset payload payloadOffset payloadLength =
      .error (.illegalArgument message) := by
  unfold GRNVS_RAW.checksum
  split
  · exact ⟨_, rfl⟩
  split
  · exact ⟨_, rfl⟩
  split
  · exact ⟨_, rfl⟩
  split
  · exact ⟨_, rfl⟩
  split
  · exact ⟨_, rfl⟩
  split
  · exact ⟨_, rfl⟩
  exact absurd ⟨by omega, by omega, by omega, by omega, by omega, by omega⟩ h

/-- `icmp6_checksum` reads every byte once, and its result lies in memory as the checksum of
    RFC 1071 in network byte order; `GRNVS_RAW.checksum` returns these two bytes for all arguments
    it admits. -/
theorem checksum_rfc1071 :
    (∀ hdr payload : List Byte, hdr.length = 40 → payload.length < 2 ^ 32 →
      ∃ cksum, (icmp6_checksum hdr payload payload.length).run [] =
          (.ok cksum, reads .pseudo 0 40 ++ reads .payload 0 payload.length) ∧
        memory16 cksum =
          be16 (rfc1071 ((hdr.drop 8).take 16) ((hdr.drop 24).take 16) payload)) ∧
    ∀ (hdr : List Byte) (hdrOffset : Int) (payload : List Byte) (payloadOffset payloadLength : Int),
      (Admitted hdr hdrOffset payload payloadOffset payloadLength →
        GRNVS_RAW.checksum hdr hdrOffset payload payloadOffset payloadLength =
          .ok (be16 (rfc1071 ((hdr.drop (hdrOffset.toNat + 8)).take 16)
            ((hdr.drop (hdrOffset.toNat + 24)).take 16)
            ((payload.drop payloadOffset.toNat).take payloadLength.toNat)))) ∧
      (¬ Admitted hdr hdrOffset payload payloadOffset payloadLength →
        ∃ message, GRNVS_RAW.checksum hdr hdrOffset payload payloadOffset payloadLength =
          .error (.illegalArgument message)) := by
  constructor
  · intro hdr payload hh hp
    exact ⟨_, icmp6_checksum_run hdr payload (Nat.le_of_eq hh.symm) hp, memory16_checksum _⟩
  · intro hdr hdrOffset payload payloadOffset payloadLength
    exact ⟨checksum_admitted, checksum_refused⟩

/-- Three bytes behind a header of zeros: the words 0x0003, 0x003a, 0x0102 and 0x0300. -/
theorem checksum_rfc1071_odd :
    (∃ cksum, (icmp6_checksum (zeros 40) [1, 2, 3] 3).run [] =
        (.ok cksum, reads .pseudo 0 40 ++ reads .payload 0 3) ∧
      memory16 cksum = [0xfb, 0xc0]) ∧
    GRNVS_RAW.checksum (zeros 40) 0 [9, 1, 2, 3] 1 3 = .ok [0xfb, 0xc0] := by
  constructor
  · exact checksum_rfc1071.1 (zeros 40) [1, 2, 3] rfl (by decide)
  · exact (checksum_rfc1071.2 (zeros 40) 0 [9, 1, 2, 3] 1 3).1
      ⟨by decide, by decide, by decide, by decide, by decide, by decide⟩

end Grnvs.Trace
