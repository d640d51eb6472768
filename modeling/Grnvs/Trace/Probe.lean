/-
  The probes of trace6: how `run` builds one and writes it.

  `ipHeader`, `payload` and `bb2` are used again for every probe. What `run` relies on is that some
  of their bytes are never written (`Locals.Kept`): the three behind the first byte of the header,
  and the checksum field and the low byte of the identifier in the payload. So every probe is the
  same function of the addresses, the line and the sequence number (`probe`, `buildProbe_run`).
-/
import Grnvs.Trace.Datagram

namespace Grnvs.Trace

open Bytes OnesComplement

/-- The arguments of `run`, names resolved. -/
structure Parameters where
  srcIp : List Byte
  dstIp : List Byte
  timeout : Int
  attempts : Int
  hopLimit : Int

/-- The variables of `run` that live through the whole run. -/
structure Locals where
  bb2 : ByteBuffer
  ipHeader : List Byte
  payload : List Byte

def Locals.new : Locals :=
  { bb2 := ByteBuffer.allocate 2, ipHeader := zeros 40, payload := zeros 8 }

/-- The packet in its buffer of 1514 bytes. -/
def buildProbe (p : Parameters) (hops : Int) (l : Locals) : Run (List Byte × Locals) := do
  let length : Int := 48
  let buffer := zeros 1514
  let ipHeader ← arraySet l.ipHeader 0 versionIpv6
  let bb2 ← l.bb2.putChar icmpLength
  let len := bb2.array
  let bb2 := bb2.clear
  let ipHeader ← arraycopy len 0 ipHeader 4 2
  let ipHeader ← arraySet ipHeader 6 icmpNH
  let ipHeader ← arraySet ipHeader 7 (toByte hops)
  let ipHeader ← arraycopy p.srcIp 0 ipHeader 8 16
  let ipHeader ← arraycopy p.dstIp 0 ipHeader 24 16
  let payload ← arraySet l.payload 0 icmpEchoRequ
  let payload ← arraySet payload 1 0x00
  let payload ← arraySet payload 4 icmpID
  Comp.modify fun w => { w with timeout := int32 (p.timeout * 1000) }
  let sequenceNumber ← Comp.gets World.sequenceNumber
  Comp.modify fun w => { w with sequenceNumber := w.sequenceNumber + 1 }
  let bb2 ← bb2.putChar sequenceNumber
  let sequNum := bb2.array
  let bb2 := bb2.clear
  let payload ← arraycopy sequNum 0 payload 6 2
  let buffer ← arraycopy ipHeader 0 buffer 0 40
  let buffer ← arraycopy payload 0 buffer 40 8
  let cksum ← GRNVS_RAW.checksum buffer 0 buffer 40 (length - 40)
  let buffer ← arraycopy cksum 0 buffer 42 2
  pure (buffer, { bb2, ipHeader, payload })

/-- What follows a failed call of the socket. -/
def abort (text : String) (ret : Int) (buffer : List Byte) : Run Unit := do
  emit (.printErr (text ++ toString ret ++ "\n"))
  GRNVS_RAW.hexdump buffer 48
  Comp.stop (.exit 1)

def sendProbe (p : Parameters) (hops : Int) (l : Locals) : Run (List Byte × Locals) := do
  let (buffer, l) ← buildProbe p hops l
  let ret ← GRNVS_RAW.write buffer 48
  Comp.when (0 ≥ ret) (abort "failed to write to socket: " ret buffer)
  pure (buffer, l)

/-! ## The packet -/

/-- An ICMPv6 message with the identifier of trace6. -/
def echo (type : Byte) (cksum : Nat) (sequence : List Byte) : List Byte :=
  [type, 0] ++ be16 cksum ++ [0xab, 0] ++ sequence

/-- An IPv6 datagram with such a message. -/
def echoDatagram (label : List Byte) (hopLimit : Byte) (src dst : List Byte) (type : Byte)
    (cksum : Nat) (sequence : List Byte) : List Byte :=
  0x60 :: label ++ [0, 8, 58, hopLimit] ++ src ++ dst ++ echo type cksum sequence

/-- The checksum of such a message. -/
def echoChecksum (src dst : List Byte) (type : Byte) (sequence : List Byte) : Nat :=
  rfc1071 src dst (echo type 0 sequence)

/-- The probe of a line with a sequence number. -/
def probe (src dst : List Byte) (hops : Int) (sequence : UInt16) : List Byte :=
  echoDatagram (zeros 3) (toByte hops) src dst 128
    (echoChecksum src dst 128 (be16 sequence.toNat)) (be16 sequence.toNat)

section Echo

variable {label src dst sequence : List Byte} {hopLimit type : Byte} {cksum : Nat}

theorem echo_length (hs : sequence.length = 2) : (echo type cksum sequence).length = 8 := by
  simp [echo, be16, hs]

theorem echoDatagram_length (hl : label.length = 3) (hsrc : src.length = 16)
    (hdst : dst.length = 16) (hs : sequence.length = 2) :
    (echoDatagram label hopLimit src dst type cksum sequence).length = 48 := by
  simp [echoDatagram, echo, be16, hl, hsrc, hdst, hs]

section Parts

variable (hl : label.length = 3) (hsrc : src.length = 16) (hdst : dst.length = 16) (t : List Byte)
include hl

theorem echoDatagram_drop8 :
    (echoDatagram label hopLimit src dst type cksum sequence ++ t).drop 8 =
      src ++ (dst ++ (echo type cksum sequence ++ t)) := by
  have hhead : (0x60 :: label ++ [0, 8, 58, hopLimit]).length = 8 := by simp [hl]
  rw [echoDatagram, List.append_assoc, List.append_assoc, List.append_assoc]
  exact List.drop_left' hhead

include hsrc

theorem echoDatagram_drop24 :
    (echoDatagram label hopLimit src dst type cksum sequence ++ t).drop 24 =
      dst ++ (echo type cksum sequence ++ t) := by
  rw [show 24 = 8 + 16 by decide, ← List.drop_drop, echoDatagram_drop8 hl, List.drop_left' hsrc]

theorem echoDatagram_source :
    source (echoDatagram label hopLimit src dst type cksum sequence) = src := by
  have h := @echoDatagram_drop8 label src dst sequence hopLimit type cksum hl []
  rw [List.append_nil] at h
  rw [source, h, List.take_left' hsrc]

include hdst

theorem echoDatagram_drop40 :
    (echoDatagram label hopLimit src dst type cksum sequence ++ t).drop 40 =
      echo type cksum sequence ++ t := by
  rw [show 40 = 24 + 16 by decide, ← List.drop_drop, echoDatagram_drop24 hl hsrc,
    List.drop_left' hdst]

theorem echoDatagram_destination :
    destination (echoDatagram label hopLimit src dst type cksum sequence) = dst := by
  have h := @echoDatagram_drop24 label src dst sequence hopLimit type cksum hl hsrc []
  rw [List.append_nil] at h
  rw [destination, h, List.take_left' hdst]

theorem echoDatagram_message :
    (echoDatagram label hopLimit src dst type cksum sequence).drop 40 =
      echo type cksum sequence := by
  have h := @echoDatagram_drop40 label src dst sequence hopLimit type cksum hl hsrc hdst []
  rwa [List.append_nil, List.append_nil] at h

/-- The checksum field of the message. -/
theorem echoDatagram_stored :
    stored (echoDatagram label hopLimit src dst type cksum sequence) 40 = be16 cksum := by
  rw [stored, ← List.drop_drop (i := 2) (j := 40), echoDatagram_message hl hsrc hdst]
  rfl

theorem echoDatagram_cleared :
    cleared (echoDatagram label hopLimit src dst type cksum sequence) 40 =
      echoDatagram label hopLimit src dst type 0 sequence := by
  have hfront : (0x60 :: label ++ [0, 8, 58, hopLimit] ++ src ++ dst).length = 40 := by
    simp [hl, hsrc, hdst]
  rw [cleared, echoDatagram, List.set_append_right _ _ (by omega), hfront,
    List.set_append_right _ _ (by omega), hfront]
  rfl

theorem echoDatagram_recomputed (hs : sequence.length = 2) :
    recomputed (echoDatagram label hopLimit src dst type cksum sequence) 40 =
      echoChecksum src dst type sequence := by
  have hlen := @echoDatagram_length label src dst sequence hopLimit type cksum hl hsrc hdst hs
  rw [recomputed, echoDatagram_cleared hl hsrc hdst, echoDatagram_source hl hsrc,
    echoDatagram_destination hl hsrc hdst, echoDatagram_message hl hsrc hdst, hlen,
    List.take_of_length_le (Nat.le_of_eq (echo_length hs)), echoChecksum]

/-- A datagram with its own checksum passes the test of RFC 1071. -/
theorem echoDatagram_sum (hs : sequence.length = 2) :
    sum 65535 (summed (echoDatagram label hopLimit src dst type
      (echoChecksum src dst type sequence) sequence)) = 0xffff := by
  have hlen := @echoDatagram_length label src dst sequence hopLimit type
    (echoChecksum src dst type sequence) hl hsrc hdst hs
  refine ((recomputed_iff (by omega)).mp ?_).1
  rw [echoDatagram_recomputed hl hsrc hdst hs, echoDatagram_stored hl hsrc hdst]

end Parts

end Echo

/-! ## The variables between two probes -/

/-- What the variables have in common in front of every probe. -/
structure Locals.Kept (l : Locals) : Prop where
  bb2 : ∃ a b, l.bb2 = ⟨[a, b], 0⟩
  ipHeader : ∃ b0 b4 b5 b6 b7 src dst, src.length = 16 ∧ dst.length = 16 ∧
    l.ipHeader = [b0, 0, 0, 0, b4, b5, b6, b7] ++ src ++ dst
  payload : ∃ b0 b1 b4 b6 b7, l.payload = [b0, b1, 0, 0, b4, 0, b6, b7]

theorem Locals.kept_new : Locals.new.Kept := by
  refine ⟨⟨0, 0, rfl⟩, ⟨0, 0, 0, 0, 0, zeros 16, zeros 16, rfl, rfl, rfl⟩, ⟨0, 0, 0, 0, 0, rfl⟩⟩

theorem putChar_two (a b : Byte) (c : UInt16) :
    ByteBuffer.putChar ⟨[a, b], 0⟩ c = .ok ⟨be16 c.toNat, 2⟩ :=
  if_pos (Nat.le_refl 2)

theorem arraySet_front {a : List Byte} {n : Nat} (h : n < a.length) (c d : List Byte) (b : Byte) :
    arraySet (a ++ c ++ d) (n : Int) b = .ok (a.set n b ++ c ++ d) := by
  have hlt : n < (a ++ c ++ d).length := by
    simp only [List.length_append]
    omega
  rw [arraySet_ok hlt, List.append_assoc, List.set_append_left _ _ h, List.append_assoc]

section Build

variable {p : Parameters} {l : Locals}

/-- The checksum over the packet, its field being zero. -/
theorem checksum_packet {label src dst sequence : List Byte} {hopLimit type : Byte} (k : Nat)
    (hl : label.length = 3) (hsrc : src.length = 16) (hdst : dst.length = 16)
    (hs : sequence.length = 2) :
    GRNVS_RAW.checksum (echoDatagram label hopLimit src dst type 0 sequence ++ zeros k) 0
      (echoDatagram label hopLimit src dst type 0 sequence ++ zeros k) 40 8 =
        .ok (be16 (echoChecksum src dst type sequence)) := by
  have hlen : (echoDatagram label hopLimit src dst type 0 sequence ++ zeros k).length = 48 + k := by
    rw [List.length_append, echoDatagram_length hl hsrc hdst hs, zeros_length]
  have hadm : Admitted (echoDatagram label hopLimit src dst type 0 sequence ++ zeros k) 0
      (echoDatagram label hopLimit src dst type 0 sequence ++ zeros k) 40 8 := by
    constructor <;> omega
  have h := checksum_admitted hadm
  simp only [Int.toNat_zero, Nat.zero_add] at h
  rw [echoDatagram_drop8 hl, echoDatagram_drop24 hl hsrc, List.take_left' hsrc,
    List.take_left' hdst] at h
  rw [h, echoChecksum]
  congr 3
  change (List.drop 40 _).take 8 = _
  rw [echoDatagram_drop40 hl hsrc hdst]
  exact List.take_left' (echo_length hs)

/-- The header of a probe. -/
def probeHeader (p : Parameters) (hops : Int) : List Byte :=
  [0x60, 0, 0, 0, 0, 8, 58, toByte hops] ++ p.srcIp ++ p.dstIp

section Packet

variable (hsrc : p.srcIp.length = 16) (hdst : p.dstIp.length = 16) (hops : Int)
include hsrc hdst

theorem probeHeader_length : (probeHeader p hops).length = 40 := by
  rw [probeHeader, List.length_append, List.length_append, hsrc, hdst]
  rfl

/-! The packet, part by part. -/

theorem packet_header : arraycopy (probeHeader p hops) 0 (zeros 1514) 0 40 =
    .ok (probeHeader p hops ++ zeros 1474) := by
  rw [zeros_add 40 1474]
  exact @arraycopy_replace [] (zeros 40) _ (zeros 1474) 0 40 rfl (probeHeader_length hsrc hdst hops)
    rfl

theorem packet_payload {sequence : List Byte} (hs : sequence.length = 2) :
    arraycopy (echo 128 0 sequence) 0 (probeHeader p hops ++ zeros 1474) 40 8 =
      .ok (echoDatagram (zeros 3) (toByte hops) p.srcIp p.dstIp 128 0 sequence ++ zeros 1466) := by
  rw [zeros_add 8 1466, ← List.append_assoc]
  exact arraycopy_replace (probeHeader_length hsrc hdst hops) (echo_length hs) rfl

theorem packet_checksum (sequence : List Byte) (cksum : Nat) :
    arraycopy (be16 cksum) 0
      (echoDatagram (zeros 3) (toByte hops) p.srcIp p.dstIp 128 0 sequence ++ zeros 1466) 42 2 =
      .ok (echoDatagram (zeros 3) (toByte hops) p.srcIp p.dstIp 128 cksum sequence ++
        zeros 1466) := by
  have hfront : (probeHeader p hops ++ [128, 0]).length = 42 := by
    rw [List.length_append, probeHeader_length hsrc hdst]
    rfl
  have h := @arraycopy_replace _ [0, 0] (be16 cksum) ([0xab, 0] ++ sequence ++ zeros 1466) 42 2
    hfront rfl rfl
  rw [probeHeader] at h
  rw [echoDatagram, echoDatagram, echo, echo]
  simp only [List.append_assoc] at h ⊢
  exact h

end Packet

/-- The world in which the next probe has been built. -/
def World.built (w : World) (p : Parameters) : World :=
  { w with timeout := int32 (p.timeout * 1000), sequenceNumber := w.sequenceNumber + 1 }

/-- Every probe is built from the addresses, the line and the sequence number alone. -/
theorem buildProbe_run (hsrc : p.srcIp.length = 16) (hdst : p.dstIp.length = 16) (hops : Int)
    (hl : l.Kept) (w : World) :
    ∃ l', l'.Kept ∧ (buildProbe p hops l).run w =
      (.ok (probe p.srcIp p.dstIp hops w.sequenceNumber ++ zeros 1466, l'), w.built p) := by
  obtain ⟨⟨a, b, hbb2⟩, ⟨b0, b4, b5, b6, b7, src, dst, hs, hd, hheader⟩, ⟨c0, c1, c4, c6, c7, hpayload⟩⟩ :=
    hl
  -- the header
  have hset0 : arraySet ([b0, 0, 0, 0, b4, b5, b6, b7] ++ src ++ dst) 0 versionIpv6 =
      .ok ([0x60, 0, 0, 0, b4, b5, b6, b7] ++ src ++ dst) :=
    arraySet_front (by decide : 0 < 8) src dst versionIpv6
  have hlen : arraycopy (be16 icmpLength.toNat) 0 ([0x60, 0, 0, 0, b4, b5, b6, b7] ++ src ++ dst)
      4 2 = .ok ([0x60, 0, 0, 0, 0, 8, b6, b7] ++ src ++ dst) :=
    @arraycopy_replace [0x60, 0, 0, 0] [b4, b5] (be16 icmpLength.toNat)
      ([b6, b7] ++ src ++ dst) 4 2 rfl rfl rfl
  have hset6 : arraySet ([0x60, 0, 0, 0, 0, 8, b6, b7] ++ src ++ dst) 6 icmpNH =
      .ok ([0x60, 0, 0, 0, 0, 8, 58, b7] ++ src ++ dst) :=
    arraySet_front (by decide : 6 < 8) src dst icmpNH
  have hset7 : arraySet ([0x60, 0, 0, 0, 0, 8, 58, b7] ++ src ++ dst) 7 (toByte hops) =
      .ok ([0x60, 0, 0, 0, 0, 8, 58, toByte hops] ++ src ++ dst) :=
    arraySet_front (by decide : 7 < 8) src dst (toByte hops)
  have hcopy8 : arraycopy p.srcIp 0 ([0x60, 0, 0, 0, 0, 8, 58, toByte hops] ++ src ++ dst) 8 16 =
      .ok ([0x60, 0, 0, 0, 0, 8, 58, toByte hops] ++ p.srcIp ++ dst) :=
    arraycopy_replace rfl hsrc hs
  have hcopy24 : arraycopy p.dstIp 0 ([0x60, 0, 0, 0, 0, 8, 58, toByte hops] ++ p.srcIp ++ dst)
      24 16 = .ok (probeHeader p hops) := by
    have h := @arraycopy_replace ([0x60, 0, 0, 0, 0, 8, 58, toByte hops] ++ p.srcIp) dst p.dstIp []
      24 16 (by rw [List.length_append, hsrc]; rfl) hdst hd
    rwa [List.append_nil, List.append_nil] at h
  -- the payload
  have hpay0 : arraySet [c0, c1, 0, 0, c4, 0, c6, c7] 0 icmpEchoRequ =
      .ok [128, c1, 0, 0, c4, 0, c6, c7] := rfl
  have hpay1 : arraySet [128, c1, 0, 0, c4, 0, c6, c7] 1 0x00 =
      .ok [128, 0, 0, 0, c4, 0, c6, c7] := rfl
  have hpay4 : arraySet [128, 0, 0, 0, c4, 0, c6, c7] 4 icmpID =
      .ok [128, 0, 0, 0, 0xab, 0, c6, c7] := rfl
  have hputSequence : (ByteBuffer.clear ⟨be16 icmpLength.toNat, 2⟩).putChar w.sequenceNumber =
      .ok ⟨be16 w.sequenceNumber.toNat, 2⟩ := putChar_two _ _ _
  have hpay : arraycopy (be16 w.sequenceNumber.toNat) 0 [128, 0, 0, 0, 0xab, 0, c6, c7] 6 2 =
      .ok (echo 128 0 (be16 w.sequenceNumber.toNat)) :=
    @arraycopy_replace [128, 0, 0, 0, 0xab, 0] [c6, c7] (be16 w.sequenceNumber.toNat) [] 6 2
      rfl rfl rfl
  -- the packet
  have hput1 := packet_header hsrc hdst hops
  have hput2 := @packet_payload p hsrc hdst hops (be16 w.sequenceNumber.toNat) rfl
  have hput3 := packet_checksum hsrc hdst hops (be16 w.sequenceNumber.toNat)
    (echoChecksum p.srcIp p.dstIp 128 (be16 w.sequenceNumber.toNat))
  have hck : GRNVS_RAW.checksum
      (echoDatagram (zeros 3) (toByte hops) p.srcIp p.dstIp 128 0 (be16 w.sequenceNumber.toNat) ++
        zeros 1466) 0
      (echoDatagram (zeros 3) (toByte hops) p.srcIp p.dstIp 128 0 (be16 w.sequenceNumber.toNat) ++
        zeros 1466) 40 (48 - 40) =
      .ok (be16 (echoChecksum p.srcIp p.dstIp 128 (be16 w.sequenceNumber.toNat))) :=
    checksum_packet 1466 rfl hsrc hdst rfl
  refine ⟨⟨⟨be16 w.sequenceNumber.toNat, 0⟩, probeHeader p hops,
    echo 128 0 (be16 w.sequenceNumber.toNat)⟩, ⟨⟨_, _, rfl⟩, ⟨_, _, _, _, _, _, _, hsrc, hdst, rfl⟩,
      ⟨_, _, _, _, _, rfl⟩⟩, ?_⟩
  rw [buildProbe]
  dsimp only
  rw [hheader, Comp.lift_bind hset0, hbb2, Comp.lift_bind (putChar_two a b icmpLength),
    Comp.lift_bind hlen, Comp.lift_bind hset6, Comp.lift_bind hset7, Comp.lift_bind hcopy8,
    Comp.lift_bind hcopy24, hpayload, Comp.lift_bind hpay0, Comp.lift_bind hpay1,
    Comp.lift_bind hpay4, Comp.modify_bind, Comp.gets_bind, Comp.modify_bind]
  dsimp only
  rw [Comp.lift_bind hputSequence]
  dsimp only
  rw [Comp.lift_bind hpay, Comp.lift_bind hput1, Comp.lift_bind hput2, Comp.lift_bind hck,
    Comp.lift_bind hput3]
  rfl

theorem probe_length (hsrc : p.srcIp.length = 16) (hdst : p.dstIp.length = 16) (hops : Int)
    (sequence : UInt16) : (probe p.srcIp p.dstIp hops sequence).length = 48 :=
  echoDatagram_length rfl hsrc hdst rfl

/-- The bytes the socket takes from the buffer of a probe. -/
theorem getByteArrayRegion_probe (hsrc : p.srcIp.length = 16) (hdst : p.dstIp.length = 16)
    (hops : Int) (sequence : UInt16) :
    getByteArrayRegion (probe p.srcIp p.dstIp hops sequence ++ zeros 1466) 0 48 1514 =
      .ok (probe p.srcIp p.dstIp hops sequence) := by
  have hlen := probe_length hsrc hdst hops sequence
  have h : getByteArrayRegion (probe p.srcIp p.dstIp hops sequence ++ zeros 1466) (0 : Nat)
      (48 : Nat) 1514 = .ok _ :=
    getByteArrayRegion_ok (by rw [List.length_append, hlen]; omega) (by decide)
  rw [List.drop_zero, List.take_left' hlen] at h
  exact h

/-- The world in which the next probe has been written. -/
def World.sent (w : World) (p : Parameters) (hops : Int) (rest : List Int) : World :=
  World.note { w.built p with written := rest }
    (.write (probe p.srcIp p.dstIp hops w.sequenceNumber))

/-- All that sending a probe can do. -/
theorem sendProbe_cases (hsrc : p.srcIp.length = 16) (hdst : p.dstIp.length = 16) (hops : Int)
    (hl : l.Kept) (w : World) :
    (w.written = [] ∧ (sendProbe p hops l).run w = (.error .waiting, w.built p)) ∨
    ∃ ret rest, w.written = ret :: rest ∧
      ((0 < ret ∧ ∃ l', l'.Kept ∧ (sendProbe p hops l).run w =
        (.ok (probe p.srcIp p.dstIp hops w.sequenceNumber ++ zeros 1466, l'), w.sent p hops rest)) ∨
      (ret ≤ 0 ∧ (sendProbe p hops l).run w =
        (.error (.exit 1), ((w.sent p hops rest).note
          (.printErr ("failed to write to socket: " ++ toString ret ++ "\n"))).note
            (.hexdump (probe p.srcIp p.dstIp hops w.sequenceNumber))))) := by
  obtain ⟨l', hl', hbuild⟩ := buildProbe_run hsrc hdst hops hl w
  have hregion := getByteArrayRegion_probe hsrc hdst hops w.sequenceNumber
  cases hw : (w.built p).written with
  | nil =>
    refine .inl ⟨hw, ?_⟩
    rw [sendProbe, Comp.bind_ok hbuild]
    exact Comp.bind_error (write_waiting hregion hw)
  | cons ret rest =>
    refine .inr ⟨ret, rest, hw, ?_⟩
    have hwrite : _ = (_, w.sent p hops rest) := write_returns hregion hw
    by_cases hret : 0 < ret
    · refine .inl ⟨hret, l', hl', ?_⟩
      rw [sendProbe, Comp.bind_ok hbuild]
      dsimp only
      rw [Comp.bind_ok hwrite, Comp.when_neg (by omega)]
      rfl
    · refine .inr ⟨by omega, ?_⟩
      rw [sendProbe, Comp.bind_ok hbuild]
      dsimp only
      rw [Comp.bind_ok hwrite, Comp.when_pos (by omega)]
      apply Comp.bind_error
      rw [abort, Comp.bind_ok (emit_run _ _), Comp.bind_ok (hexdump_run hregion), Comp.stop_run]

end Build

/-! ## The answer to a probe -/

/-- The echo reply to a probe `P`, with any traffic class, flow label and hop limit: addresses
    exchanged, identifier and sequence number of `P`, and the checksum of RFC 1071. -/
def echoReply (P label : List Byte) (hopLimit : Byte) : List Byte :=
  let src := (P.drop 24).take 16
  let dst := (P.drop 8).take 16
  let rest := (P.drop 44).take 4
  0x60 :: label ++ [0, 8, 58, hopLimit] ++ src ++ dst ++ [129, 0] ++
    be16 (rfc1071 src dst ([129, 0, 0, 0] ++ rest)) ++ rest

theorem echoReply_probe {src dst : List Byte} (hsrc : src.length = 16) (hdst : dst.length = 16)
    (hops : Int) (sequence : UInt16) (label : List Byte) (hopLimit : Byte) :
    echoReply (probe src dst hops sequence) label hopLimit =
      echoDatagram label hopLimit dst src 129
        (echoChecksum dst src 129 (be16 sequence.toNat)) (be16 sequence.toNat) := by
  have hrest : ((probe src dst hops sequence).drop 44).take 4 =
      [0xab, 0] ++ be16 sequence.toNat := by
    rw [← List.drop_drop (i := 4) (j := 40), probe, echoDatagram_message rfl hsrc hdst]
    rfl
  have hs := @echoDatagram_source (zeros 3) src dst (be16 sequence.toNat) (toByte hops) 128
    (echoChecksum src dst 128 (be16 sequence.toNat)) rfl hsrc
  have hd := @echoDatagram_destination (zeros 3) src dst (be16 sequence.toNat) (toByte hops) 128
    (echoChecksum src dst 128 (be16 sequence.toNat)) rfl hsrc hdst
  rw [source] at hs
  rw [destination] at hd
  rw [echoReply, hrest, probe, hs, hd, echoDatagram, echo]
  simp only [List.append_assoc]
  rfl

/-- The reply passes the tests of `checkMessage`. -/
theorem echoReply_passes {src dst : List Byte} (hsrc : src.length = 16) (hdst : dst.length = 16)
    (hops : Int) (sequence : UInt16) {label : List Byte} (hl : label.length = 3) (hopLimit : Byte) :
    Passes src (echoReply (probe src dst hops sequence) label hopLimit) 40 := by
  have hs : (be16 sequence.toNat).length = 2 := rfl
  have hlen := @echoDatagram_length label dst src (be16 sequence.toNat) hopLimit 129
    (echoChecksum dst src 129 (be16 sequence.toNat)) hl hdst hsrc hs
  have hmessage := @echoDatagram_message label dst src (be16 sequence.toNat) hopLimit 129
    (echoChecksum dst src 129 (be16 sequence.toNat)) hl hdst hsrc
  rw [echoReply_probe hsrc hdst]
  generalize hD : echoDatagram label hopLimit dst src 129
    (echoChecksum dst src 129 (be16 sequence.toNat)) (be16 sequence.toNat) = D at *
  have hat : ∀ i, D[40 + i]? = (echo 129 (echoChecksum dst src 129 (be16 sequence.toNat))
      (be16 sequence.toNat))[i]? := by
    intro i
    rw [← hmessage, List.getElem?_drop]
  have hnext : arrayGet D 6 = .ok icmpNH := by
    match label, hl with
    | [a, b, c], _ =>
      rw [← hD]
      rfl
  refine ⟨⟨by omega, ?_, ?_⟩, ⟨6, 34, .stay (walkStep_end hnext (by decide)), hnext, rfl⟩, ?_, ?_,
    hat 0, hat 1, hat 4, hat 5⟩
  · rw [← hD]
    rfl
  · rw [← hD]
    exact echoDatagram_destination hl hdst hsrc
  · constructor <;> omega
  · rw [← hD, echoDatagram_recomputed hl hdst hsrc hs, echoDatagram_stored hl hdst hsrc]

/-- What is printed for the reply is the address the probe went to. -/
theorem echoReply_token {src dst : List Byte} (hsrc : src.length = 16) (hdst : dst.length = 16)
    (hops : Int) (sequence : UInt16) {label : List Byte} (hl : label.length = 3) (hopLimit : Byte) :
    token (echoReply (probe src dst hops sequence) label hopLimit) 40 = "  " ++ hostText dst := by
  rw [token, echoReply_probe hsrc hdst, source_cleared (by decide), echoDatagram_source hl hdst]

/-- The variables of `run` are always as a probe needs them, and whatever the line, the sequence
    number and the variables are, the reply to the probe that is written then is accepted. -/
theorem echoReply_accepted :
    Locals.new.Kept ∧ ∀ (p : Parameters) (hops : Int) (l : Locals) (w : World) (ret : Int)
      (rest : List Int), p.srcIp.length = 16 → p.dstIp.length = 16 → l.Kept →
      w.written = ret :: rest → 0 < ret →
      ∃ P l' w', (sendProbe p hops l).run w = (.ok (P ++ zeros 1466, l'), w') ∧ l'.Kept ∧
        w'.log = w.log ++ [.write P] ∧ P.length = 48 ∧
        P.drop 46 = be16 w.sequenceNumber.toNat ∧ P[7]? = some (toByte hops) ∧
        ∀ (label : List Byte) (hopLimit : Byte) (w₁ : World), label.length = 3 →
          w₁.myIP = p.srcIp → ∃ n, ∀ fuel, n ≤ fuel →
            (checkMessage fuel (echoReply P label hopLimit)).run w₁ =
              (.ok true, { w₁ with
                stopProbes := true,
                log := w₁.log ++ [.print ("  " ++ hostText p.dstIp)] }) := by
  refine ⟨Locals.kept_new, ?_⟩
  intro p hops l w ret rest hsrc hdst hl hw hret
  have hlen := probe_length hsrc hdst hops w.sequenceNumber
  obtain ⟨hnil, -⟩ | ⟨ret', rest', hw', h⟩ := sendProbe_cases hsrc hdst hops hl w
  · rw [hw] at hnil
    cases hnil
  · rw [hw] at hw'
    cases hw'
    obtain ⟨-, l', hl', hrun⟩ | ⟨hle, -⟩ := h
    · refine ⟨_, l', _, hrun, hl', rfl, hlen, ?_, rfl, ?_⟩
      · rw [← List.drop_drop (i := 6) (j := 40), probe, echoDatagram_message rfl hsrc hdst]
        rfl
      · intro label hopLimit w₁ hlabel hme
        have hpasses : Passes w₁.myIP
            (echoReply (probe p.srcIp p.dstIp hops w.sequenceNumber) label hopLimit) 40 := by
          rw [hme]
          exact echoReply_passes hsrc hdst hops w.sequenceNumber hlabel hopLimit
        obtain ⟨n, hn⟩ := hpasses.run
        refine ⟨n, fun fuel hf => ?_⟩
        rw [hn fuel hf, echoReply_token hsrc hdst hops _ hlabel]
        rfl
    · omega

/-- From fe80::1 to 2001:db8::5, three attempts a line and up to fifteen lines. -/
def parametersDemo : Parameters :=
  { srcIp := [0xfe, 0x80, 0, 0, 0, 0, 0, 0, 0, 0, 0, 0, 0, 0, 0, 1],
    dstIp := [0x20, 1, 0x0d, 0xb8, 0, 0, 0, 0, 0, 0, 0, 0, 0, 0, 0, 5],
    timeout := 5, attempts := 3, hopLimit := 15 }

/-- The first probe of a run and a reply to it. -/
theorem echoReply_accepted_demo :
    ∃ P, P.length = 48 ∧ ∃ n, ∀ fuel, n ≤ fuel →
      (checkMessage fuel (echoReply P [0, 0, 0] 64)).run (World.idle parametersDemo.srcIp) =
        (.ok true, { World.idle parametersDemo.srcIp with
          stopProbes := true,
          log := [.print ("  " ++ hostText parametersDemo.dstIp)] }) := by
  obtain ⟨P, l', w', hrun, hl', hlog, hlen, hsequence, hline, h⟩ := echoReply_accepted.2
    parametersDemo 1 Locals.new { World.idle parametersDemo.srcIp with written := [48] } 48 []
    rfl rfl echoReply_accepted.1 rfl (by decide)
  exact ⟨P, hlen, h [0, 0, 0] 64 (World.idle parametersDemo.srcIp) rfl rfl⟩

end Grnvs.Trace
