/-
  Extension headers in front of the message of an accepted datagram.

  `checkIcmpProperties` has the checksum taken over as many bytes from the message on as stand
  behind the fixed header, so with extension headers in between it asks for bytes behind the end of
  the datagram, and `GRNVS_RAW.checksum` refuses. A header of more than 1024 bytes takes the walk in
  front of the datagram instead. So no chain of extension headers is transparent: an exception is
  thrown for every one of them (`inserted_throws`).
-/
import Grnvs.Trace.Datagram

namespace Grnvs.Trace

open Bytes OnesComplement

inductive ExtensionKind where
  | hopByHop
  | routing
  | destinationOptions
deriving DecidableEq, Repr

def ExtensionKind.code : ExtensionKind → Byte
  | .hopByHop => 0
  | .routing => 0x2b
  | .destinationOptions => 0x3c

@[simp] theorem ExtensionKind.isExtension_code (k : ExtensionKind) : isExtension k.code = true := by
  cases k <;> rfl

/-- An extension header: what stands behind its length byte makes it as long as that says, in
    units of eight bytes without the first. -/
structure ExtensionHeader where
  kind : ExtensionKind
  length : Byte
  body : List Byte
  wf : body.length = 6 + 8 * length.toNat

/-- The next header value that announces a chain, in front of a header of type `last`. -/
def nextHeader (last : Byte) : List ExtensionHeader → Byte
  | [] => last
  | h :: _ => h.kind.code

def chainBytes (last : Byte) : List ExtensionHeader → List Byte
  | [] => []
  | h :: hs => nextHeader last hs :: h.length :: h.body ++ chainBytes last hs

/-- A datagram with a chain inserted behind its fixed header, whose Payload Length and Next Header
    are adjusted. -/
def inserted (buffer : List Byte) (chain : List ExtensionHeader) : List Byte :=
  let payloadLength := wordAt buffer 4 + (chainBytes (buffer.getD 6 0) chain).length
  let header := (((buffer.take 40).set 4 (UInt8.ofNat (payloadLength / 256))).set 5
    (UInt8.ofNat payloadLength)).set 6 (nextHeader (buffer.getD 6 0) chain)
  header ++ chainBytes (buffer.getD 6 0) chain ++ buffer.drop 40

/-! ## The walk through a chain -/

/-- Where the walk must not lead: to an exception, or to a message at an offset that is negative or
    behind 40. -/
def Strays (buffer : List Byte) (r : Except Stop (Int × Int)) : Prop :=
  (∃ e, e ≠ .fuel ∧ r = .error e) ∨
    ∃ p skip, r = .ok (p, skip) ∧ arrayGet buffer p = .ok icmpNH ∧ (p + skip < 0 ∨ 40 < p + skip)

section Walk

variable {buffer message : List Byte}

theorem getElem?_of_drop {b c : Byte} {bs : List Byte} {n : Nat} (h : buffer.drop n = b :: c :: bs) :
    buffer[n]? = some b ∧ buffer[n + 1]? = some c := by
  have h0 : (buffer.drop n)[0]? = some b := by rw [h]; rfl
  have h1 : (buffer.drop n)[1]? = some c := by rw [h]; rfl
  rw [List.getElem?_drop] at h0 h1
  exact ⟨h0, h1⟩

/-- By induction on the headers behind the first: one of 128 units or more takes the walk in front
    of the datagram, any other one to the next header or behind offset 40. -/
theorem chain_strays (hs : List ExtensionHeader) {h : ExtensionHeader} {n : Nat} (hn : 40 ≤ n)
    (hdrop : buffer.drop n = chainBytes icmpNH (h :: hs) ++ message)
    (hsmall : n + (chainBytes icmpNH (h :: hs)).length ≤ 1514) :
    ∃ k, ∀ fuel, k ≤ fuel → Strays buffer (walk fuel buffer n (8 + 8 * signed h.length)) := by
  induction hs generalizing h n with
  | nil =>
    obtain ⟨hnext, -⟩ := getElem?_of_drop hdrop
    have hend : walkStep buffer n (8 + 8 * signed h.length) = .ok none :=
      walkStep_end (arrayGet_eq_ok.mpr hnext) (by decide)
    refine ⟨1, fun fuel hf => ?_⟩
    obtain ⟨f, rfl⟩ : ∃ f, fuel = f + 1 := ⟨fuel - 1, by omega⟩
    refine .inr ⟨n, _, walk_stay hend, arrayGet_eq_ok.mpr hnext, ?_⟩
    have hwf := h.wf
    simp only [chainBytes, List.length_append, List.length_cons, List.length_nil] at hsmall
    rcases Nat.lt_or_ge h.length.toNat 128 with hlt | hge
    · rw [signed_of_lt hlt]
      omega
    · rw [signed_of_ge hge]
      omega
  | cons h' hs ih =>
    have hwf := h.wf
    obtain ⟨hnext, -⟩ := getElem?_of_drop hdrop
    have hext : isExtension h'.kind.code = true := h'.kind.isExtension_code
    have hlen : (chainBytes icmpNH (h :: h' :: hs)).length =
        8 + 8 * h.length.toNat + (chainBytes icmpNH (h' :: hs)).length := by
      rw [chainBytes, List.length_append, List.length_cons, List.length_cons, hwf]
      omega
    rcases Nat.lt_or_ge h.length.toNat 128 with hlt | hge
    · have hdrop' : buffer.drop (n + (8 + 8 * h.length.toNat)) =
          chainBytes icmpNH (h' :: hs) ++ message := by
        have hhead : (h'.kind.code :: h.length :: h.body).length = 8 + 8 * h.length.toNat := by
          rw [List.length_cons, List.length_cons, hwf]
          omega
        rw [← List.drop_drop, hdrop, chainBytes, List.append_assoc]
        exact List.drop_left' hhead
      obtain ⟨-, hlength⟩ := getElem?_of_drop hdrop'
      have hpos : (n : Int) + (8 + 8 * signed h.length) = (n + (8 + 8 * h.length.toNat) : Nat) := by
        rw [signed_of_lt hlt]
        omega
      obtain ⟨k, hk⟩ := ih (by omega) hdrop' (by omega)
      have hturn : walkStep buffer n (8 + 8 * signed h.length) =
          .ok (some ((n + (8 + 8 * h.length.toNat) : Nat), 8 + 8 * signed h'.length)) := by
        rw [← hpos]
        apply walkStep_turn (arrayGet_eq_ok.mpr hnext) hext
        rw [hpos]
        exact arrayGet_eq_ok.mpr hlength
      refine ⟨k + 1, fun fuel hf => ?_⟩
      obtain ⟨f, rfl⟩ : ∃ f, fuel = f + 1 := ⟨fuel - 1, by omega⟩
      rw [walk_turn hturn]
      exact hk f (by omega)
    · have hneg : (n : Int) + (8 + 8 * signed h.length) + 1 < 0 := by
        rw [signed_of_ge hge]
        omega
      have hthrow : arrayGet buffer (n + (8 + 8 * signed h.length) + 1) =
          .error (.arrayIndex (n + (8 + 8 * signed h.length) + 1)) := by
        rw [arrayGet, if_neg (by omega)]
      have hstep := walkStep_throws (arrayGet_eq_ok.mpr hnext) hext hthrow
      refine ⟨1, fun fuel hf => ?_⟩
      obtain ⟨f, rfl⟩ : ∃ f, fuel = f + 1 := ⟨fuel - 1, by omega⟩
      exact .inl ⟨_, Stop.noConfusion, walk_throws hstep⟩

/-- A message at such an offset makes `checkIcmpProperties` throw. -/
theorem Strays.throws {fuel : Nat} (h : Strays buffer (walk fuel buffer 6 34)) (w : World) :
    ∃ e, e ≠ .fuel ∧ (searchIcmp fuel buffer).run w = (.error e, w) := by
  obtain ⟨e, hne, hwalk⟩ | ⟨p, skip, hwalk, hnext, hpos⟩ := h
  · exact ⟨e, hne, by rw [searchIcmp, Comp.lift_bind_error hwalk]⟩
  · have hnot : ¬ ∃ m : Nat, p + skip = m ∧ Checkable buffer m := by
      intro hm
      obtain ⟨m, hm, hc⟩ := hm
      have := hc.offset
      omega
    obtain ⟨e, he, hne⟩ := checkIcmpProperties_error hnot
    refine ⟨e, hne, ?_⟩
    rw [searchIcmp, Comp.lift_bind hwalk]
    dsimp only
    rw [Comp.lift_bind hnext, if_pos rfl, Comp.lift_bind_error he]

end Walk

/-! ## Inserted chains -/

section Inserted

variable {buffer : List Byte} {chain : List ExtensionHeader} {w : World}

/-- The fixed header keeps its other bytes. -/
theorem inserted_getElem? {i : Nat} (hi : i < 40) (h4 : i ≠ 4) (h5 : i ≠ 5) (h6 : i ≠ 6)
    (hl : 40 ≤ buffer.length) : (inserted buffer chain)[i]? = buffer[i]? := by
  unfold inserted
  dsimp only
  rw [List.append_assoc, List.getElem?_append_left (by simp; omega), List.getElem?_set_ne (by omega),
    List.getElem?_set_ne (by omega), List.getElem?_set_ne (by omega), List.getElem?_take, if_pos hi]

theorem inserted_next (hl : 40 ≤ buffer.length) :
    (inserted buffer chain)[6]? = some (nextHeader (buffer.getD 6 0) chain) := by
  unfold inserted
  dsimp only
  rw [List.append_assoc, List.getElem?_append_left (by simp; omega),
    List.getElem?_set_self (by simp; omega)]

theorem inserted_drop (hl : 40 ≤ buffer.length) :
    (inserted buffer chain).drop 40 = chainBytes (buffer.getD 6 0) chain ++ buffer.drop 40 := by
  unfold inserted
  dsimp only
  rw [List.append_assoc]
  exact List.drop_left' (by simp; omega)

theorem inserted_length (hl : 40 ≤ buffer.length) :
    (inserted buffer chain).length =
      buffer.length + (chainBytes (buffer.getD 6 0) chain).length := by
  unfold inserted
  dsimp only
  simp only [List.length_append, List.length_set, List.length_take, List.length_drop]
  omega

theorem Reaches.inserted {me : List Byte} (h : Reaches me buffer) (chain : List ExtensionHeader) :
    Reaches me (inserted buffer chain) := by
  have hl := h.header
  refine ⟨?_, ?_, ?_⟩
  · rw [inserted_length hl]
    omega
  · rw [inserted_getElem? (by decide) (by decide) (by decide) (by decide) hl]
    exact h.version
  · rw [← h.receiver]
    apply List.ext_getElem?
    intro i
    rw [destination, destination, List.getElem?_take, List.getElem?_take, List.getElem?_drop,
      List.getElem?_drop]
    split
    · exact inserted_getElem? (by omega) (by omega) (by omega) (by omega) hl
    · rfl

/-- A datagram with a chain in it makes `checkMessage` throw. -/
theorem inserted_throws (hr : Reaches w.myIP buffer) (hnext : buffer[6]? = some icmpNH)
    (hchain : chain ≠ []) (hsmall : (inserted buffer chain).length ≤ 1514) :
    ∃ k, ∀ fuel, k ≤ fuel →
      ∃ e, e ≠ .fuel ∧ (checkMessage fuel (inserted buffer chain)).run w = (.error e, w) := by
  have hl := hr.header
  have hlast : buffer.getD 6 0 = icmpNH := by rw [List.getD_eq_getElem?_getD, hnext]; rfl
  obtain ⟨h, hs, rfl⟩ := List.exists_cons_of_ne_nil hchain
  have hsix : (inserted buffer (h :: hs))[6]? = some h.kind.code := inserted_next hl
  have hdrop : (inserted buffer (h :: hs)).drop 40 =
      chainBytes (buffer.getD 6 0) (h :: hs) ++ buffer.drop 40 := inserted_drop hl
  rw [inserted_length hl] at hsmall
  rw [hlast] at hdrop hsmall
  obtain ⟨-, hlength⟩ := getElem?_of_drop hdrop
  obtain ⟨k, hk⟩ := chain_strays hs (Nat.le_refl 40) hdrop (by omega)
  have hturn : walkStep (inserted buffer (h :: hs)) 6 34 =
      .ok (some (40, 8 + 8 * signed h.length)) :=
    walkStep_turn (arrayGet_eq_ok.mpr hsix) h.kind.isExtension_code (arrayGet_eq_ok.mpr hlength)
  refine ⟨k + 1, fun fuel hf => ?_⟩
  obtain ⟨f, rfl⟩ : ∃ f, fuel = f + 1 := ⟨fuel - 1, by omega⟩
  rw [checkMessage_reached (hr.inserted (h :: hs))]
  apply Strays.throws
  rw [walk_turn hturn]
  exact hk f (by omega)

end Inserted

/-! ## Transparency -/

/-- A chain of extension headers does not change what happens on an accepted datagram. -/
def Transparent (buffer : List Byte) (chain : List ExtensionHeader) (w : World) : Prop :=
  ∀ w', (∃ fuel, (checkMessage fuel buffer).run w = (.ok true, w')) →
    ∃ fuel, (checkMessage fuel (inserted buffer chain)).run w = (.ok true, w')

section Transparent

variable {buffer : List Byte} {chain : List ExtensionHeader} {w : World}

theorem accepted_passes (hme : w.myIP.length = 16) {fuel : Nat} {w' : World}
    (h : (checkMessage fuel buffer).run w = (.ok true, w')) : ∃ pos, Passes w.myIP buffer pos := by
  have hout := checkMessage_outcome hme fuel buffer
  rw [h] at hout
  cases hout with
  | accepts hp => exact ⟨_, hp⟩

theorem Passes.not_transparent {pos : Nat} (hp : Passes w.myIP buffer pos)
    (hme : w.myIP.length = 16) (hnext : buffer[6]? = some icmpNH) (hchain : chain ≠ [])
    (hsmall : (inserted buffer chain).length ≤ 1514) : ¬ Transparent buffer chain w := by
  intro h
  obtain ⟨n, hn⟩ := hp.run (w := w)
  obtain ⟨fuel, hrun⟩ := h _ ⟨n, hn n (Nat.le_refl n)⟩
  obtain ⟨pos', hp'⟩ := accepted_passes hme hrun
  obtain ⟨m, hm⟩ := hp'.run (w := w)
  obtain ⟨k, hk⟩ := inserted_throws hp.reaches hnext hchain hsmall
  obtain ⟨e, -, he⟩ := hk (max m k) (Nat.le_max_right m k)
  rw [hm (max m k) (Nat.le_max_left m k)] at he
  cases he

end Transparent

/-- No chain is transparent to an accepted datagram. -/
theorem extension_not_transparent (buffer : List Byte) (chain : List ExtensionHeader) (w : World)
    (hme : w.myIP.length = 16) (hnext : buffer[6]? = some 58)
    (haccept : ∃ fuel w', (checkMessage fuel buffer).run w = (.ok true, w')) (hchain : chain ≠ [])
    (hsmall : (inserted buffer chain).length ≤ 1514) : ¬ Transparent buffer chain w := by
  obtain ⟨fuel, w', hrun⟩ := haccept
  obtain ⟨pos, hp⟩ := accepted_passes hme hrun
  exact hp.not_transparent hme hnext hchain hsmall

/-- A Hop-by-Hop header that holds nothing but padding. -/
def paddingDemo : ExtensionHeader :=
  { kind := .hopByHop, length := 0, body := [1, 4, 0, 0, 0, 0], wf := rfl }

/-- The same with a Destination Options header of sixteen bytes behind it. -/
theorem extension_not_transparent_demo :
    ¬ Transparent replyDemo [paddingDemo, ⟨.destinationOptions, 1, 1 :: 12 :: zeros 12, rfl⟩]
      (World.idle (destination replyDemo)) := by
  obtain ⟨n, hn⟩ := replyDemo_passes.run (w := World.idle (destination replyDemo))
  exact extension_not_transparent _ _ _ (by decide) (by decide) ⟨n, _, hn n (Nat.le_refl n)⟩
    (by simp) (by decide)

/-- A reply is accepted as it is and throws with a Hop-by-Hop header in front of its message. -/
theorem hopByHop_throws :
    (∃ fuel w', (checkMessage fuel replyDemo).run (World.idle (destination replyDemo)) =
      (.ok true, w')) ∧
    ¬ Transparent replyDemo [paddingDemo] (World.idle (destination replyDemo)) := by
  constructor
  · obtain ⟨n, hn⟩ := replyDemo_passes.run (w := World.idle (destination replyDemo))
    exact ⟨n, _, hn n (Nat.le_refl n)⟩
  · exact replyDemo_passes.not_transparent (by decide) (by decide) (by simp) (by decide)

end Grnvs.Trace
