/-
  Where the walk lands behind a chain of extension headers.

  The loop keeps the place of the next header value (`pos`) together with the size of the header it
  is about to leave (`skip`): the fixed header is one of size 34 at offset 6. The headers that are
  still to come begin at `pos + skip` (`Ahead`), and every turn takes one of them (`Ahead.turn`). A
  chain whose length bytes are at most 127 is walked to its end, one turn a header
  (`Ahead.walk_ends`), with no access outside of it (`Ahead.traced`).
-/
import Grnvs.Trace.Extension

namespace Grnvs.Trace

open Bytes

/-! ## The walk with its accesses -/

/-- `buffer[index]`, with the index noted. -/
def readAt (buffer : List Byte) (index : Int) : Comp Stop (List Int) Byte := do
  Comp.modify fun reads => reads ++ [index]
  arrayGet buffer index

/-- `walkStep` with every index it reads noted. -/
def tracedStep (buffer : List Byte) (pos skip : Int) :
    Comp Stop (List Int) (Option (Int × Int)) := do
  let next ← readAt buffer pos
  if isExtension next then do
    let pos := pos + skip
    let length ← readAt buffer (pos + 1)
    pure (some (pos, 8 + 8 * signed length))
  else pure none

/-- `walk` with every index it reads noted. -/
def tracedWalk : Nat → List Byte → Int → Int → Comp Stop (List Int) (Int × Int)
  | 0, _, _, _ => Comp.stop .fuel
  | fuel + 1, buffer, pos, skip => do
      match ← tracedStep buffer pos skip with
      | some (pos, skip) => tracedWalk fuel buffer pos skip
      | none => pure (pos, skip)

section Traced

variable {buffer : List Byte} {pos skip : Int}

theorem readAt_run (buffer : List Byte) (index : Int) (reads : List Int) :
    (readAt buffer index).run reads = (arrayGet buffer index, reads ++ [index]) := rfl

theorem readAt_ok {index : Int} {b : Byte} (h : arrayGet buffer index = .ok b)
    (reads : List Int) : (readAt buffer index).run reads = (.ok b, reads ++ [index]) := by
  rw [readAt_run, h]

theorem readAt_error {index : Int} {e : Stop} (h : arrayGet buffer index = .error e)
    (reads : List Int) : (readAt buffer index).run reads = (.error e, reads ++ [index]) := by
  rw [readAt_run, h]

theorem tracedStep_stay {b : Byte} (h : arrayGet buffer pos = .ok b) (hb : isExtension b = false)
    (reads : List Int) : (tracedStep buffer pos skip).run reads = (.ok none, reads ++ [pos]) := by
  unfold tracedStep
  rw [Comp.bind_ok (readAt_ok h reads), hb, if_neg Bool.false_ne_true, Comp.pure_run]

theorem tracedStep_turn {b l : Byte} (h : arrayGet buffer pos = .ok b) (hb : isExtension b = true)
    (hl : arrayGet buffer (pos + skip + 1) = .ok l) (reads : List Int) :
    (tracedStep buffer pos skip).run reads =
      (.ok (some (pos + skip, 8 + 8 * signed l)), reads ++ [pos, pos + skip + 1]) := by
  unfold tracedStep
  rw [Comp.bind_ok (readAt_ok h reads), hb, if_pos rfl]
  dsimp only
  rw [Comp.bind_ok (readAt_ok hl _), Comp.pure_run, List.append_assoc]
  rfl

/-- Noting the accesses changes nothing else. -/
theorem tracedStep_walkStep (buffer : List Byte) (pos skip : Int) (reads : List Int) :
    ((tracedStep buffer pos skip).run reads).1 = walkStep buffer pos skip := by
  unfold tracedStep walkStep
  rcases hb : arrayGet buffer pos with e | b
  · rw [Comp.bind_error (readAt_error hb reads), error_bind]
  · rw [Comp.bind_ok (readAt_ok hb reads), ok_bind]
    cases isExtension b with
    | false => rfl
    | true =>
      rw [if_pos rfl, if_pos rfl]
      dsimp only
      rcases hl : arrayGet buffer (pos + skip + 1) with e | l
      · rw [Comp.bind_error (readAt_error hl _), error_bind]
      · rw [Comp.bind_ok (readAt_ok hl _), ok_bind]
        rfl

theorem tracedWalk_walk (fuel : Nat) (buffer : List Byte) (pos skip : Int) (reads : List Int) :
    ((tracedWalk fuel buffer pos skip).run reads).1 = walk fuel buffer pos skip := by
  induction fuel generalizing pos skip reads with
  | zero => rfl
  | succ fuel ih =>
    have hstep := tracedStep_walkStep buffer pos skip reads
    unfold tracedWalk walk
    rcases hr : (tracedStep buffer pos skip).run reads with ⟨e | r, reads'⟩
    · rw [hr] at hstep
      rw [Comp.bind_error hr, ← hstep, error_bind]
    · rw [hr] at hstep
      rw [Comp.bind_ok hr, ← hstep, ok_bind]
      cases r with
      | none => rfl
      | some p => exact ih p.1 p.2 reads'

end Traced

/-! ## The chain ahead -/

/-- The bytes of a chain, as its length bytes count them. -/
def chainLength : List ExtensionHeader → Nat
  | [] => 0
  | h :: hs => 8 + 8 * h.length.toNat + chainLength hs

theorem ExtensionHeader.size (h : ExtensionHeader) (b : Byte) :
    (b :: h.length :: h.body).length = 8 + 8 * h.length.toNat := by
  rw [List.length_cons, List.length_cons, h.wf]
  omega

/-- A state of the loop in front of the headers `chain`, which begin at `n` and are followed by a
    message: `skip` belongs to the header that announces them. -/
structure Ahead (buffer : List Byte) (chain : List ExtensionHeader) (pos skip : Int) (n : Nat) :
    Prop where
  next : arrayGet buffer pos = .ok (nextHeader icmpNH chain)
  start : pos + skip = n
  nonneg : 0 ≤ pos
  before : pos < n
  bytes : chainBytes icmpNH chain <+: buffer.drop n

section Ahead

variable {buffer : List Byte} {chain : List ExtensionHeader} {h : ExtensionHeader}
  {pos skip : Int} {n : Nat}

theorem Ahead.stay (ha : Ahead buffer [] pos skip n) : walkStep buffer pos skip = .ok none :=
  walkStep_end ha.next (by decide)

/-- The length byte of the first header ahead. -/
theorem Ahead.length_byte (ha : Ahead buffer (h :: chain) pos skip n) :
    arrayGet buffer (pos + skip + 1) = .ok h.length := by
  obtain ⟨rest, hrest⟩ := ha.bytes
  have hbyte := (getElem?_of_drop hrest.symm).2
  rw [ha.start]
  exact arrayGet_eq_ok.mpr hbyte

/-- One turn leaves the header the state belongs to for the first one ahead. -/
theorem Ahead.turn (ha : Ahead buffer (h :: chain) pos skip n) :
    walkStep buffer pos skip = .ok (some (pos + skip, 8 + 8 * signed h.length)) :=
  walkStep_turn ha.next h.kind.isExtension_code ha.length_byte

theorem Ahead.tail (ha : Ahead buffer (h :: chain) pos skip n) (hl : h.length.toNat ≤ 127) :
    Ahead buffer chain (pos + skip) (8 + 8 * signed h.length) (n + (8 + 8 * h.length.toNat)) := by
  obtain ⟨rest, hrest⟩ := ha.bytes
  have hs : signed h.length = h.length.toNat := signed_of_lt (by omega)
  have hbehind : buffer.drop (n + (8 + 8 * h.length.toNat)) = chainBytes icmpNH chain ++ rest := by
    rw [← List.drop_drop, ← hrest, chainBytes, List.append_assoc]
    exact List.drop_left' (h.size _)
  constructor
  · rw [ha.start]
    exact arrayGet_eq_ok.mpr (getElem?_of_drop hrest.symm).1
  · rw [ha.start, hs]
    omega
  · rw [ha.start]
    omega
  · rw [ha.start]
    omega
  · exact ⟨rest, hbehind.symm⟩

/-- As many turns as headers are not enough to leave the loop. -/
theorem Ahead.walk_fuel (ha : Ahead buffer chain pos skip n)
    (hc : ∀ h ∈ chain, h.length.toNat ≤ 127) {fuel : Nat} (hf : fuel ≤ chain.length) :
    walk fuel buffer pos skip = .error .fuel := by
  induction fuel generalizing chain pos skip n with
  | zero => rfl
  | succ fuel ih =>
    cases chain with
    | nil => exact absurd hf (Nat.not_succ_le_zero fuel)
    | cons h chain =>
      rw [walk_turn ha.turn]
      exact ih (ha.tail (hc h (List.mem_cons_self ..)))
        (fun x hx => hc x (List.mem_cons_of_mem _ hx)) (Nat.le_of_succ_le_succ hf)

/-- The walk through the chain ends at the last header of it, with the message behind. By induction
    on the headers ahead. -/
theorem Ahead.traced (ha : Ahead buffer chain pos skip n)
    (hc : ∀ h ∈ chain, h.length.toNat ≤ 127) {fuel : Nat} (hf : chain.length < fuel)
    (reads : List Int) :
    ∃ pos' skip' reads', (tracedWalk fuel buffer pos skip).run reads =
        (.ok (pos', skip'), reads ++ reads') ∧
      Ahead buffer [] pos' skip' (n + chainLength chain) ∧
      ∀ i ∈ reads', 0 ≤ i ∧ i < (n + chainLength chain : Nat) := by
  induction chain generalizing pos skip n fuel reads with
  | nil =>
    obtain ⟨f, rfl⟩ : ∃ f, fuel = f + 1 := ⟨fuel - 1, by omega⟩
    refine ⟨pos, skip, [pos], ?_, ha, ?_⟩
    · unfold tracedWalk
      rw [Comp.bind_ok (tracedStep_stay ha.next (by decide) reads)]
      rfl
    · intro i hi
      obtain rfl := List.mem_singleton.mp hi
      exact ⟨ha.nonneg, ha.before⟩
  | cons h chain ih =>
    obtain ⟨f, rfl⟩ : ∃ f, fuel = f + 1 := ⟨fuel - 1, by omega⟩
    have hlen : n + (8 + 8 * h.length.toNat) + chainLength chain =
        n + chainLength (h :: chain) := by
      rw [chainLength]
      omega
    obtain ⟨p, s, rs, hrun, hend, hrs⟩ := ih (ha.tail (hc h (List.mem_cons_self ..)))
      (fun x hx => hc x (List.mem_cons_of_mem _ hx)) (Nat.lt_of_succ_lt_succ hf)
      (reads ++ [pos, pos + skip + 1])
    rw [hlen] at hend hrs
    refine ⟨p, s, pos :: (pos + skip + 1) :: rs, ?_, hend, ?_⟩
    · unfold tracedWalk
      rw [Comp.bind_ok (tracedStep_turn ha.next h.kind.isExtension_code ha.length_byte reads)]
      dsimp only
      rw [hrun, List.append_assoc]
      rfl
    · intro i hi
      have hstart := ha.start
      have hnonneg := ha.nonneg
      have hbefore := ha.before
      rcases List.mem_cons.mp hi with rfl | hi
      · omega
      · rcases List.mem_cons.mp hi with rfl | hi
        · omega
        · exact hrs i hi

end Ahead

/-! ## Datagrams with a chain -/

/-- The part of `checkMessage` behind the walk, for a message at the offset `pos`. -/
def examine (buffer : List Byte) (pos : Int) : Run Bool := do
  let (relevant, buffer) ← checkIcmpProperties buffer pos
  if relevant then dispatch buffer pos else pure false

/-- A datagram to the own address whose fixed header is followed by a chain of extension headers,
    the last of which announces an ICMPv6 message. -/
structure Chained (me buffer : List Byte) (chain : List ExtensionHeader) : Prop where
  header : 40 ≤ buffer.length
  version : buffer[0]? = some 0x60
  receiver : (buffer.drop 24).take 16 = me
  next : buffer[6]? = some (nextHeader 58 chain)
  bytes : chainBytes 58 chain <+: buffer.drop 40

section Chained

variable {me buffer : List Byte} {chain : List ExtensionHeader} {w : World} {fuel : Nat}
  {pos skip : Int} {n : Nat}

theorem Chained.reaches (hd : Chained me buffer chain) : Reaches me buffer :=
  ⟨hd.header, hd.version, hd.receiver⟩

/-- The fixed header counts as one of size 34 at offset 6. -/
theorem Chained.ahead (hd : Chained me buffer chain) : Ahead buffer chain 6 34 40 where
  next := arrayGet_eq_ok.mpr hd.next
  start := rfl
  nonneg := by decide
  before := by decide
  bytes := hd.bytes

theorem searchIcmp_examine (hwalk : walk fuel buffer 6 34 = .ok (pos, skip))
    (hend : Ahead buffer [] pos skip n) (w : World) :
    (searchIcmp fuel buffer).run w = (examine buffer n).run w := by
  unfold searchIcmp examine
  rw [Comp.lift_bind hwalk]
  dsimp only
  rw [Comp.lift_bind hend.next, hend.start]
  rfl

end Chained

/-- **The walk lands on the message**: it takes one turn for each header of the chain, reads nothing
    but the IPv6 header and the chain, and hands the offset behind them to
    `checkIcmpProperties`. -/
theorem walk_lands (buffer : List Byte) (chain : List ExtensionHeader) (w : World)
    (hd : Chained w.myIP buffer chain) (hc : ∀ h ∈ chain, h.length.toNat ≤ 127) :
    (∀ fuel ≤ chain.length, walk fuel buffer 6 34 = .error .fuel) ∧
    ∀ fuel, chain.length < fuel →
      (∃ pos skip reads, walk fuel buffer 6 34 = .ok (pos, skip) ∧
        pos + skip = (40 + chainLength chain : Nat) ∧ arrayGet buffer pos = .ok 58 ∧
        (tracedWalk fuel buffer 6 34).run [] = (.ok (pos, skip), reads) ∧
        ∀ i ∈ reads, 0 ≤ i ∧ i < (40 + chainLength chain : Nat)) ∧
      (checkMessage fuel buffer).run w = (examine buffer (40 + chainLength chain : Nat)).run w := by
  refine ⟨fun fuel hf => hd.ahead.walk_fuel hc hf, fun fuel hf => ?_⟩
  obtain ⟨pos, skip, reads, hrun, hend, hreads⟩ := hd.ahead.traced hc hf []
  have hwalk : walk fuel buffer 6 34 = .ok (pos, skip) := by
    rw [← tracedWalk_walk fuel buffer 6 34 [], hrun]
  constructor
  · exact ⟨pos, skip, reads, hwalk, hend.start, hend.next, hrun, hreads⟩
  · rw [checkMessage_reached hd.reaches, searchIcmp_examine hwalk hend]

/-- A Hop-by-Hop header of eight bytes and a Destination Options header of sixteen. -/
def chainDemo : List ExtensionHeader :=
  [paddingDemo, ⟨.destinationOptions, 1, 1 :: 12 :: zeros 12, rfl⟩]

/-- A reply with both in front of it. -/
theorem walk_lands_demo :
    (∀ fuel ≤ 2, walk fuel (inserted replyDemo chainDemo) 6 34 = .error .fuel) ∧
    ∀ fuel, 2 < fuel →
      (∃ pos skip reads, walk fuel (inserted replyDemo chainDemo) 6 34 = .ok (pos, skip) ∧
        pos + skip = (64 : Nat) ∧ arrayGet (inserted replyDemo chainDemo) pos = .ok 58 ∧
        (tracedWalk fuel (inserted replyDemo chainDemo) 6 34).run [] = (.ok (pos, skip), reads) ∧
        ∀ i ∈ reads, 0 ≤ i ∧ i < (64 : Nat)) ∧
      (checkMessage fuel (inserted replyDemo chainDemo)).run
          (World.idle (destination replyDemo)) =
        (examine (inserted replyDemo chainDemo) (64 : Nat)).run
          (World.idle (destination replyDemo)) :=
  walk_lands _ chainDemo (World.idle (destination replyDemo))
    ⟨by decide, by decide, by decide, by decide, by decide⟩ (by decide)

end Grnvs.Trace
