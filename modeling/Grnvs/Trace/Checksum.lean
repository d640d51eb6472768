/-
  `icmp6_checksum` of libraw: the checksum over an ICMPv6 message and its pseudo-header, summed up
  from the words of a little-endian host with a 64-bit `long`.

  A byte is read through `load8`, which notes its address and stops the run outside the array, and
  `sum` grows through `addLong`, which stops the run where a `long` would overflow. So
  `icmp6_checksum_run` says in one equation what is computed, that each byte is read exactly once,
  and that nothing else is read and nothing overflows. The loops are total functions: they end.
-/
import Grnvs.Lib.Comp
import Grnvs.Lib.OnesComplement

namespace Grnvs.Trace

open Bytes OnesComplement

/-- The arrays the two loops read. -/
inductive Area where
  | pseudo | payload
deriving DecidableEq, Repr

inductive Fault where
  | outOfBounds (area : Area) (index : Nat)
  | overflow
deriving DecidableEq, Repr

/-- C code that notes the bytes it reads. -/
abbrev Native := Comp Fault (List (Area × Nat))

/-- One byte of an array. -/
def load8 (area : Area) (mem : List Byte) (offset : Nat) : Native Nat := do
  Comp.modify (· ++ [(area, offset)])
  match mem[offset]? with
  | some b => pure b.toNat
  | none => Comp.stop (.outOfBounds area offset)

/-- `*(uint16_t *)(mem + offset)`, the first byte being the low one. -/
def load16 (area : Area) (mem : List Byte) (offset : Nat) : Native Nat := do
  let lo ← load8 area mem offset
  let hi ← load8 area mem (offset + 1)
  pure (lo + 256 * hi)

/-- An addition to a `long` that holds no negative number. -/
def addLong (sum w : Nat) : Native Nat :=
  if sum + w < 2 ^ 63 then pure (sum + w) else Comp.stop .overflow

/-- `for (; offset < bound; offset += 2) sum += *(uint16_t *)(mem + offset);` -/
def sumWords (area : Area) (mem : List Byte) (bound offset sum : Nat) : Native Nat :=
  if offset < bound then do
    let w ← load16 area mem offset
    let sum ← addLong sum w
    sumWords area mem bound (offset + 2) sum
  else pure sum
termination_by bound - offset

/-- `while (sum >> 16) sum = (sum >> 16) + (sum & 0xffff);` -/
def carryLoop (sum : Nat) : Nat :=
  if sum >>> 16 ≠ 0 then carryLoop ((sum >>> 16) + (sum &&& 0xffff)) else sum
termination_by sum
decreasing_by
  rw [show 0xffff = 2 ^ 16 - 1 by decide, Nat.and_two_pow_sub_one_eq_mod]
  rw [Nat.shiftRight_eq_div_pow] at *
  omega

/-- The four bytes of `htonl(len)`, `len` cut to 32 bits. -/
def htonl (len : Nat) : List Byte :=
  [UInt8.ofNat (len / 2 ^ 24), UInt8.ofNat (len / 2 ^ 16), UInt8.ofNat (len / 2 ^ 8),
    UInt8.ofNat len]

/-- `buffer` with the fields of `struct pseudo_hdr` filled in. -/
def pseudoBuffer (hdr : List Byte) (len : Nat) : List Byte :=
  let buffer := zeros 40
  let buffer := splice buffer 0 ((hdr.drop 8).take 16)   -- src_addr
  let buffer := splice buffer 16 ((hdr.drop 24).take 16) -- dst_addr
  let buffer := splice buffer 32 (htonl len)             -- ulplen
  splice buffer 39 [58]                                  -- next_hdr

def icmp6_checksum (hdr payload : List Byte) (len : Nat) : Native Nat := do
  let buffer := pseudoBuffer hdr len
  let sum ← sumWords .pseudo buffer buffer.length 0 0
  -- `len > 0 && offset < len-1`: without the first test an empty payload would make `len-1` wrap
  let sum ← sumWords .payload payload (if 0 < len then len - 1 else 0) 0 sum
  let sum ← if len % 2 = 1 then do
      let b ← load8 .payload payload (len - 1)
      addLong sum b
    else pure sum
  let sum := carryLoop sum
  pure (65535 - sum % 65536)

/-! ## Reads -/

variable {area : Area} {mem : List Byte} {log : List (Area × Nat)} {offset sum : Nat}

theorem load8_run (h : offset < mem.length) :
    (load8 area mem offset).run log = (.ok mem[offset].toNat, log ++ [(area, offset)]) := by
  rw [load8, Comp.modify_bind, List.getElem?_eq_getElem h]
  rfl

theorem load16_run (h : offset + 1 < mem.length) :
    (load16 area mem offset).run log =
      (.ok (mem[offset].toNat + 256 * mem[offset + 1].toNat),
        log ++ [(area, offset), (area, offset + 1)]) := by
  rw [load16, Comp.bind_ok (load8_run (by omega)), Comp.bind_ok (load8_run h), Comp.pure_run,
    List.append_assoc]
  rfl

theorem addLong_run {w : Nat} (h : sum + w < 2 ^ 63) :
    (addLong sum w).run log = (.ok (sum + w), log) := by
  rw [addLong, if_pos h, Comp.pure_run]

/-- The addresses from `offset` on, in order. -/
def reads (area : Area) (offset n : Nat) : List (Area × Nat) :=
  (List.range' offset n).map fun i => (area, i)

theorem reads_add (area : Area) (offset n k : Nat) :
    reads area offset (n + k) = reads area offset n ++ reads area (offset + n) k := by
  rw [reads, reads, reads, ← List.map_append, List.range'_append_1]

theorem wordsLE_sum_le (bs : List Byte) : (wordsLE bs).sum ≤ 65535 * (bs.length / 2 + 1) := by
  induction bs using words.induct with
  | case1 a b bs ih =>
    have ha := a.toNat_lt
    have hb := b.toNat_lt
    rw [wordsLE, List.sum_cons, List.length_cons, List.length_cons]
    omega
  | case2 a =>
    have ha := a.toNat_lt
    rw [wordsLE, List.sum_singleton]
    omega
  | case3 => exact Nat.zero_le _

/-! ## The loops -/

/-- `k` turns of a loop take `k` words. -/
theorem sumWords_run (k : Nat) {bound : Nat} (hlt : offset + 2 * k < bound + 2)
    (hge : bound ≤ offset + 2 * k) (hlen : offset + 2 * k ≤ mem.length)
    (hsum : sum + (wordsLE ((mem.drop offset).take (2 * k))).sum < 2 ^ 63) :
    (sumWords area mem bound offset sum).run log =
      (.ok (sum + (wordsLE ((mem.drop offset).take (2 * k))).sum),
        log ++ reads area offset (2 * k)) := by
  induction k generalizing offset sum log with
  | zero =>
    rw [sumWords, if_neg (by omega), Comp.pure_run]
    simp [wordsLE, reads]
  | succ k ih =>
    have hdrop : (mem.drop offset).take (2 * (k + 1)) =
        mem[offset] :: mem[offset + 1] :: (mem.drop (offset + 2)).take (2 * k) := by
      rw [List.drop_eq_getElem_cons (by omega), List.drop_eq_getElem_cons (by omega)]
      rfl
    rw [hdrop, wordsLE, List.sum_cons, ← Nat.add_assoc] at hsum
    rw [sumWords, if_pos (by omega), Comp.bind_ok (load16_run (by omega)),
      Comp.bind_ok (addLong_run (by omega)),
      ih (by omega) (by omega) (by omega) hsum, hdrop, wordsLE, List.sum_cons, Nat.add_assoc,
      show 2 * (k + 1) = 2 + 2 * k by omega, reads_add, List.append_assoc]
    rfl

theorem carryLoop_eq (sum : Nat) : carryLoop sum = rep 65535 sum := by
  induction sum using carryLoop.induct with
  | case1 sum h ih =>
    have hcarry : (sum >>> 16) + (sum &&& 0xffff) = carry 65535 sum := by
      rw [show 0xffff = 2 ^ 16 - 1 by decide, Nat.and_two_pow_sub_one_eq_mod,
        Nat.shiftRight_eq_div_pow]
      rfl
    rw [carryLoop, if_pos h, ih, hcarry]
    exact rep_congr (by decide) (carry_modEq _ _) carry_eq_zero
  | case2 sum h =>
    rw [carryLoop, if_neg h]
    rw [Nat.shiftRight_eq_div_pow] at h
    exact eq_rep (by omega) (Nat.ModEq.refl _) Iff.rfl

/-! ## The whole function -/

/-- The pseudo-header of an ICMPv6 message: addresses, big-endian length, zeros, next header. -/
def pseudoHeader (src dst : List Byte) (len : Nat) : List Byte :=
  src ++ dst ++ htonl len ++ [0, 0, 0, 58]

theorem pseudoHeader_length {src dst : List Byte} (hs : src.length = 16) (hd : dst.length = 16)
    (len : Nat) : (pseudoHeader src dst len).length = 40 := by
  simp [pseudoHeader, htonl, hs, hd]

/-- An address that lies inside the header. -/
theorem address_length {hdr : List Byte} {n : Nat} (h : n + 16 ≤ hdr.length) :
    ((hdr.drop n).take 16).length = 16 := by
  rw [List.length_take, List.length_drop]
  omega

theorem pseudoBuffer_eq {hdr : List Byte} (h : 40 ≤ hdr.length) (len : Nat) :
    pseudoBuffer hdr len = pseudoHeader ((hdr.drop 8).take 16) ((hdr.drop 24).take 16) len := by
  have hs : ((hdr.drop 8).take 16).length = 16 := address_length (by omega)
  have hd : ((hdr.drop 24).take 16).length = 16 := address_length (by omega)
  unfold pseudoBuffer
  dsimp only
  generalize (hdr.drop 8).take 16 = src at hs ⊢
  generalize (hdr.drop 24).take 16 = dst at hd ⊢
  have h1 : splice (zeros 40) 0 src = src ++ zeros 16 ++ zeros 8 := by
    rw [splice_zero, hs]
    exact (List.append_assoc src (zeros 16) (zeros 8)).symm
  have h2 : splice (src ++ zeros 16 ++ zeros 8) 16 dst = src ++ dst ++ zeros 8 := by
    have := splice_replace (a := src) (c := zeros 8) (hd.trans (zeros_length 16).symm)
    rwa [hs] at this
  have h3 : splice (src ++ dst ++ zeros 8) 32 (htonl len) = src ++ dst ++ htonl len ++ zeros 4 := by
    have hlen : (htonl len).length = (zeros 4).length := rfl
    have := splice_replace (a := src ++ dst) (c := zeros 4) hlen
    rw [List.length_append, hs, hd, List.append_assoc _ (zeros 4)] at this
    exact this
  have h4 : splice (src ++ dst ++ htonl len ++ zeros 4) 39 [58] = pseudoHeader src dst len := by
    have hl : (src ++ dst ++ htonl len ++ zeros 3).length = 39 := by
      simp [hs, hd, htonl]
    have hlen : ([58] : List Byte).length = ([0] : List Byte).length := rfl
    have := splice_replace (a := src ++ dst ++ htonl len ++ zeros 3) (c := []) hlen
    rw [hl, List.append_nil, List.append_nil] at this
    rw [List.append_assoc _ (zeros 3) [0], List.append_assoc _ (zeros 3) [58]] at this
    exact this
  rw [h1, h2, h3, h4]

/-- The words of a text of odd length are those in front of its last byte, and that byte. -/
theorem wordsLE_odd {bs : List Byte} {k : Nat} (h : bs.length = 2 * k + 1) :
    (wordsLE bs).sum = (wordsLE (bs.take (2 * k))).sum + (bs[2 * k]).toNat := by
  have hsplit : bs = bs.take (2 * k) ++ [bs[2 * k]] := by
    rw [List.take_concat_get' bs (2 * k) (by omega), List.take_of_length_le (by omega)]
  have hdvd : 2 ∣ (bs.take (2 * k)).length := by
    rw [List.length_take]
    omega
  conv_lhs => rw [hsplit, wordsLE_append hdvd, List.sum_append]
  rfl

/-- The second loop and the odd byte behind it add up the payload. -/
theorem sumPayload_run {payload : List Byte} {log : List (Area × Nat)} {α : Type}
    (next : Nat → Native α) {sum : Nat} (hsum : sum + (wordsLE payload).sum < 2 ^ 63) :
    (do let sum ← sumWords .payload payload
            (if 0 < payload.length then payload.length - 1 else 0) 0 sum
        let sum ← if payload.length % 2 = 1 then do
            let b ← load8 .payload payload (payload.length - 1)
            addLong sum b
          else pure sum
        next sum : Native α).run log =
      (next (sum + (wordsLE payload).sum)).run (log ++ reads .payload 0 payload.length) := by
  have hbound : (if 0 < payload.length then payload.length - 1 else 0) = payload.length - 1 := by
    split <;> omega
  rw [hbound]
  rcases Nat.mod_two_eq_zero_or_one payload.length with hk | hk
  · obtain ⟨k, hk⟩ : ∃ k, payload.length = 2 * k := ⟨payload.length / 2, by omega⟩
    have htake : (payload.drop 0).take (2 * k) = payload := by
      rw [List.drop_zero, ← hk, List.take_length]
    have hloop : (sumWords .payload payload (payload.length - 1) 0 sum).run log = (.ok _, _) :=
      sumWords_run k (by omega) (by omega) (by omega) (by rwa [htake])
    rw [Comp.bind_ok hloop, if_neg (by omega), Comp.pure_bind_run, htake, ← hk]
  · obtain ⟨k, hk⟩ : ∃ k, payload.length = 2 * k + 1 := ⟨payload.length / 2, by omega⟩
    have hodd := wordsLE_odd hk
    have hloop : (sumWords .payload payload (payload.length - 1) 0 sum).run log = (.ok _, _) :=
      sumWords_run k (by omega) (by omega) (by omega) (by rw [List.drop_zero]; omega)
    have hidx : payload.length - 1 = 2 * k := by omega
    have hload : (load8 .payload payload (payload.length - 1)).run (log ++ reads .payload 0 (2 * k)) =
        (.ok payload[2 * k].toNat, log ++ reads .payload 0 payload.length) := by
      have hreads : reads .payload 0 payload.length =
          reads .payload 0 (2 * k) ++ [(.payload, 2 * k)] := by
        rw [hk, reads_add, Nat.zero_add]
        rfl
      rw [hidx, load8_run (by omega), hreads, List.append_assoc]
    rw [Comp.bind_ok hloop, if_pos (by omega), List.drop_zero, Comp.bind_ok hload,
      Comp.bind_ok (addLong_run (by omega)), hodd, Nat.add_assoc]

/-- What `icmp6_checksum` computes, reads and keeps clear of. -/
theorem icmp6_checksum_run (hdr payload : List Byte) (hh : 40 ≤ hdr.length)
    (hp : payload.length < 2 ^ 32) :
    (icmp6_checksum hdr payload payload.length).run [] =
      (.ok (65535 - rep 65535 (wordsLE (pseudoHeader ((hdr.drop 8).take 16)
          ((hdr.drop 24).take 16) payload.length ++ payload)).sum),
        reads .pseudo 0 40 ++ reads .payload 0 payload.length) := by
  have hs : ((hdr.drop 8).take 16).length = 16 := address_length (by omega)
  have hd : ((hdr.drop 24).take 16).length = 16 := address_length (by omega)
  have hpl := pseudoHeader_length hs hd payload.length
  rw [icmp6_checksum, pseudoBuffer_eq hh]
  dsimp only
  generalize pseudoHeader ((hdr.drop 8).take 16) ((hdr.drop 24).take 16) payload.length = pseudo
    at hpl ⊢
  have h1 := wordsLE_sum_le pseudo
  have h2 := wordsLE_sum_le payload
  have htake : (pseudo.drop 0).take (2 * 20) = pseudo := by
    rw [List.drop_zero, List.take_of_length_le (by omega)]
  have hloop : (sumWords .pseudo pseudo pseudo.length 0 0).run [] = (.ok _, _) :=
    sumWords_run 20 (by omega) (by omega) (by omega) (by rw [htake]; omega)
  rw [htake, Nat.zero_add] at hloop
  have hle := rep_le (by decide : 0 < 65535) (wordsLE (pseudo ++ payload)).sum
  rw [Comp.bind_ok hloop, sumPayload_run _ (by omega), ← List.sum_append,
    ← wordsLE_append (by omega), Comp.pure_run, carryLoop_eq, Nat.mod_eq_of_lt (by omega)]
  rfl

end Grnvs.Trace
