/-
  What `checkMessage` decides.

  `checkIcmpProperties` answers when the message starts at an offset up to 40 (`Checkable`), by
  comparing the stored checksum with that of RFC 1071 over the cleared buffer; everywhere else it
  throws. `checkMessage` then has three outcomes (`checkMessage_outcome`): it throws and has done
  nothing, it rejects and has done nothing, or the datagram is an echo reply that passes all its
  tests (`Passes`), and the address that stands in the cleared buffer is printed.
-/
import Grnvs.Trace.Walk

namespace Grnvs.Trace

open Bytes OnesComplement

/-- The source address of a datagram. -/
def source (buffer : List Byte) : List Byte := (buffer.drop 8).take 16

/-- The destination address of a datagram. -/
def destination (buffer : List Byte) : List Byte := (buffer.drop 24).take 16

/-- A datagram with the checksum field of the message at `pos` cleared. -/
def cleared (buffer : List Byte) (pos : Nat) : List Byte :=
  (buffer.set (pos + 2) 0).set (pos + 3) 0

/-- The checksum field of the message at `pos`. -/
def stored (buffer : List Byte) (pos : Nat) : List Byte := (buffer.drop (pos + 2)).take 2

/-- The checksum that is compared with it: of as many bytes from `pos` on as stand behind the fixed
    header. -/
def recomputed (buffer : List Byte) (pos : Nat) : Nat :=
  rfc1071 (source (cleared buffer pos)) (destination (cleared buffer pos))
    (((cleared buffer pos).drop pos).take (buffer.length - 40))

/-- The places at which `checkIcmpProperties` does not throw. -/
structure Checkable (buffer : List Byte) (pos : Nat) : Prop where
  header : 40 ≤ buffer.length
  small : buffer.length ≤ 2088
  field : pos + 4 ≤ buffer.length
  offset : pos ≤ 40

@[simp] theorem cleared_length (buffer : List Byte) (pos : Nat) :
    (cleared buffer pos).length = buffer.length := by
  rw [cleared, List.length_set, List.length_set]

/-- Nothing but the checksum field is cleared. -/
theorem cleared_getElem? {buffer : List Byte} {pos i : Nat} (h1 : i ≠ pos + 2) (h2 : i ≠ pos + 3) :
    (cleared buffer pos)[i]? = buffer[i]? := by
  rw [cleared, List.getElem?_set_ne (Ne.symm h2), List.getElem?_set_ne (Ne.symm h1)]

/-! ## The checksum test -/

section Checksum

variable {buffer : List Byte} {pos : Nat}

theorem stored_eq (h : pos + 4 ≤ buffer.length) :
    ∃ a b, stored buffer pos = [a, b] ∧ buffer[pos + 2]? = some a ∧ buffer[pos + 3]? = some b := by
  refine ⟨buffer[pos + 2], buffer[pos + 3], ?_, List.getElem?_eq_getElem _,
    List.getElem?_eq_getElem _⟩
  rw [stored, List.drop_eq_getElem_cons (by omega), List.drop_eq_getElem_cons (by omega)]
  rfl

theorem checkIcmpProperties_eq (h : Checkable buffer pos) :
    checkIcmpProperties buffer (pos : Int) =
      .ok (decide (be16 (recomputed buffer pos) = stored buffer pos), cleared buffer pos) := by
  obtain ⟨hheader, hsmall, hfield, hoffset⟩ := h
  have hcopy : arraycopy buffer ((pos : Int) + 2) (zeros 2) 0 2 = .ok (stored buffer pos) :=
    arraycopy_new (by omega : pos + 2 + 2 ≤ buffer.length)
  have hset1 : arraySet buffer ((pos : Int) + 2) 0 = .ok (buffer.set (pos + 2) 0) :=
    arraySet_ok (by omega : pos + 2 < buffer.length) 0
  have hset2 : arraySet (buffer.set (pos + 2) 0) ((pos : Int) + 3) 0 = .ok (cleared buffer pos) :=
    arraySet_ok (by rw [List.length_set]; omega : pos + 3 < (buffer.set (pos + 2) 0).length) 0
  have hlen : ((cleared buffer pos).length : Int) - 40 = (buffer.length - 40 : Nat) := by
    rw [cleared_length]
    omega
  have hadm : Admitted (cleared buffer pos) 0 (cleared buffer pos) pos
      (buffer.length - 40 : Nat) := by
    have := cleared_length buffer pos
    constructor <;> omega
  have hsum := checksum_admitted hadm
  simp only [Int.toNat_natCast] at hsum
  obtain ⟨a, b, hab, -, -⟩ := stored_eq hfield
  rw [checkIcmpProperties, hcopy, ok_bind, hset1, ok_bind, hset2, ok_bind, hlen, hsum, ok_bind, hab]
  change (if UInt8.ofNat (recomputed buffer pos / 256) ≠ a ∨ UInt8.ofNat (recomputed buffer pos) ≠ b
    then Except.ok (false, _) else Except.ok (true, _)) = _
  rw [be16]
  by_cases h1 : UInt8.ofNat (recomputed buffer pos / 256) = a
  · by_cases h2 : UInt8.ofNat (recomputed buffer pos) = b
    · simp [h1, h2]
    · simp [h1, h2]
  · simp [h1]

/-- Without a place for the field the test throws. -/
theorem checkIcmpProperties_outside {pos : Int} (h : ¬ (0 ≤ pos + 2 ∧ pos + 4 ≤ buffer.length)) :
    checkIcmpProperties buffer pos = .error .arrayCopy := by
  have hcopy : arraycopy buffer (pos + 2) (zeros 2) 0 2 = .error .arrayCopy := by
    rw [arraycopy, if_neg (by omega)]
  rw [checkIcmpProperties, hcopy, error_bind]

/-- With a place for the field, at a place that cannot be tested, it throws what
    `GRNVS_RAW.checksum` throws for the datagram without it. -/
theorem checkIcmpProperties_refused {pos : Int} {n : Nat} (hn : pos + 2 = n)
    (hlen : pos + 4 ≤ buffer.length) (h : ¬ ∃ n : Nat, pos = n ∧ Checkable buffer n) :
    let cleared := (buffer.set n 0).set (n + 1) 0
    ¬ Admitted cleared 0 cleared pos (cleared.length - 40) ∧
      ∃ m, GRNVS_RAW.checksum cleared 0 cleared pos (cleared.length - 40) =
          .error (.illegalArgument m) ∧
        checkIcmpProperties buffer pos = .error (.illegalArgument m) := by
  intro cleared
  have hcopy : arraycopy buffer (pos + 2) (zeros 2) 0 2 = .ok ((buffer.drop n).take 2) := by
    rw [hn]
    exact arraycopy_new (by omega : n + 2 ≤ buffer.length)
  have hset1 : arraySet buffer (pos + 2) 0 = .ok (buffer.set n 0) := by
    rw [hn]
    exact arraySet_ok (by omega) 0
  have hset2 : arraySet (buffer.set n 0) (pos + 3) 0 = .ok cleared := by
    rw [show pos + 3 = (n + 1 : Nat) by omega]
    exact arraySet_ok (by rw [List.length_set]; omega) 0
  have hlength : cleared.length = buffer.length := by
    rw [List.length_set, List.length_set]
  have hrefused : ¬ Admitted cleared 0 cleared pos (cleared.length - 40) := by
    intro hadm
    obtain ⟨-, h2, h3, h4, -, h6⟩ := hadm
    refine h ⟨pos.toNat, by omega, ?_⟩
    constructor <;> omega
  obtain ⟨m, hm⟩ := checksum_refused hrefused
  refine ⟨hrefused, m, hm, ?_⟩
  rw [checkIcmpProperties, hcopy, ok_bind, hset1, ok_bind, hset2, ok_bind, hm, error_bind]

/-- Anywhere else an exception is thrown. -/
theorem checkIcmpProperties_error {buffer : List Byte} {pos : Int}
    (h : ¬ ∃ n : Nat, pos = n ∧ Checkable buffer n) :
    ∃ e, checkIcmpProperties buffer pos = .error e ∧ e ≠ .fuel := by
  by_cases hfield : 0 ≤ pos + 2 ∧ pos + 4 ≤ buffer.length
  · obtain ⟨n, hn⟩ := Int.eq_ofNat_of_zero_le hfield.1
    obtain ⟨-, m, -, hrun⟩ := checkIcmpProperties_refused hn hfield.2 h
    exact ⟨_, hrun, by simp⟩
  · exact ⟨_, checkIcmpProperties_outside hfield, by simp⟩

end Checksum

/-! ## `checkMessage` -/

/-- A datagram of version 6 to the address `me`: the extension header walk is reached. -/
structure Reaches (me buffer : List Byte) : Prop where
  header : 40 ≤ buffer.length
  version : buffer[0]? = some versionIpv6
  receiver : destination buffer = me

/-- The tests a datagram passes when it is taken for an echo reply, the message being found at
    `pos`. -/
structure Passes (me buffer : List Byte) (pos : Nat) : Prop where
  reaches : Reaches me buffer
  walked : ∃ p skip, Walks buffer 6 34 p skip ∧ arrayGet buffer p = .ok icmpNH ∧ p + skip = pos
  checkable : Checkable buffer pos
  checksum : be16 (recomputed buffer pos) = stored buffer pos
  type : buffer[pos]? = some icmpEchoRep
  code : buffer[pos + 1]? = some 0
  identifier : buffer[pos + 4]? = some icmpID ∧ buffer[pos + 5]? = some 0

/-- What is printed for a message at `pos`: the source address as it stands in the buffer then. -/
def token (buffer : List Byte) (pos : Nat) : String :=
  "  " ++ hostText (source (cleared buffer pos))

/-- The world after an accepted reply. -/
def World.accept (w : World) (text : String) : World :=
  { w.note (.print text) with stopProbes := true }

/-- All that `checkMessage` can do. -/
inductive Outcome (fuel : Nat) (buffer : List Byte) (w : World) : Except Stop Bool × World → Prop
  | throws (e : Stop)
      (why : e = .fuel → Reaches w.myIP buffer ∧ walk fuel buffer 6 34 = .error .fuel) :
      Outcome fuel buffer w (.error e, w)
  | rejects : Outcome fuel buffer w (.ok false, w)
  | accepts {pos : Nat} (h : Passes w.myIP buffer pos) :
      Outcome fuel buffer w (.ok true, w.accept (token buffer pos))

theorem arrayGet_throws {a : List Byte} {index : Int} {e : Stop} (h : arrayGet a index = .error e) :
    e ≠ .fuel := by
  rw [(arrayGet_error h).1]
  exact Stop.noConfusion

section Handlers

variable {buffer : List Byte} {pos : Int} {host : String} {w : World} {c : Byte}

/-- No code is both 0 and 1, so the handler rejects every message. -/
theorem handleIcmpTimeEx_run (hc : arrayGet buffer (pos + 1) = .ok c) :
    (handleIcmpTimeEx buffer pos host).run w = (.ok false, w) := by
  have hcode : c ≠ 0x0 ∨ c ≠ 0x01 := by
    by_cases h : c = 0
    · exact .inr (by rw [h]; decide)
    · exact .inl h
  rw [handleIcmpTimeEx, Comp.lift_bind hc, if_pos hcode, Comp.pure_run]

/-- No code is 0, 3 and 4 at once, so the handler rejects every message. -/
theorem handleIcmpDestUnreach_run (hc : arrayGet buffer (pos + 1) = .ok c) :
    (handleIcmpDestUnreach buffer pos host).run w = (.ok false, w) := by
  have hcode : c ≠ 0x0 ∨ c ≠ 0x03 ∨ c ≠ 0x04 := by
    by_cases h : c = 0
    · exact .inr (.inl (by rw [h]; decide))
    · exact .inl h
  rw [handleIcmpDestUnreach, Comp.lift_bind hc, if_pos hcode, Comp.pure_run]

/-- The three outcomes of the handler of echo replies. -/
theorem handleIcmpEchoRep_cases (buffer : List Byte) (pos : Int) (host : String) (w : World) :
    (∃ e, e ≠ .fuel ∧ (handleIcmpEchoRep buffer pos host).run w = (.error e, w)) ∨
    (handleIcmpEchoRep buffer pos host).run w = (.ok false, w) ∨
    arrayGet buffer (pos + 1) = .ok 0 ∧ arrayGet buffer (pos + 4) = .ok icmpID ∧
      arrayGet buffer (pos + 5) = .ok 0 ∧
      (handleIcmpEchoRep buffer pos host).run w = (.ok true, w.accept ("  " ++ host)) := by
  rcases hc : arrayGet buffer (pos + 1) with e | c
  · exact .inl ⟨e, arrayGet_throws hc, by rw [handleIcmpEchoRep, Comp.lift_bind_error hc]⟩
  rw [handleIcmpEchoRep, Comp.lift_bind hc]
  by_cases h0 : c ≠ 0
  · rw [if_pos h0]
    exact .inr (.inl rfl)
  rw [if_neg h0]
  rcases hi : arrayGet buffer (pos + 4) with e | i
  · exact .inl ⟨e, arrayGet_throws hi, by rw [Comp.lift_bind_error rfl]⟩
  rw [Comp.lift_bind rfl]
  by_cases h1 : i ≠ icmpID
  · rw [if_pos h1]
    exact .inr (.inl rfl)
  rw [if_neg h1]
  rcases hj : arrayGet buffer (pos + 5) with e | j
  · exact .inl ⟨e, arrayGet_throws hj, by rw [Comp.lift_bind_error rfl]⟩
  rw [Comp.lift_bind rfl]
  by_cases h2 : j ≠ 0
  · rw [if_pos h2]
    exact .inr (.inl rfl)
  rw [if_neg h2]
  refine .inr (.inr ⟨?_, ?_, ?_, rfl⟩)
  · rw [not_not.mp h0]
  · rw [not_not.mp h1]
  · rw [not_not.mp h2]

end Handlers

section Outcome

variable {fuel pos : Nat} {buffer : List Byte} {w : World}

theorem source_cleared_length (h : Checkable buffer pos) :
    (source (cleared buffer pos)).length = 16 := by
  have hheader := h.header
  rw [source, List.length_take, List.length_drop, cleared_length]
  omega

/-- The type and the code are not touched by clearing the checksum. -/
theorem cleared_type (h : Checkable buffer pos) :
    ∃ type code, buffer[pos]? = some type ∧ buffer[pos + 1]? = some code ∧
      arrayGet (cleared buffer pos) (pos : Int) = .ok type ∧
      arrayGet (cleared buffer pos) (pos + 1 : Int) = .ok code := by
  have hfield := h.field
  have htype : buffer[pos]? = some buffer[pos] := List.getElem?_eq_getElem _
  have hcode : buffer[pos + 1]? = some buffer[pos + 1] := List.getElem?_eq_getElem _
  have htype' : (cleared buffer pos)[pos]? = some buffer[pos] := by
    rw [cleared_getElem? (by omega) (by omega), htype]
  have hcode' : (cleared buffer pos)[pos + 1]? = some buffer[pos + 1] := by
    rw [cleared_getElem? (by omega) (by omega), hcode]
  exact ⟨buffer[pos], buffer[pos + 1], htype, hcode, arrayGet_eq_ok.mpr htype',
    arrayGet_eq_ok.mpr hcode'⟩

/-- The handler of the message's type. -/
theorem dispatch_run (h : Checkable buffer pos) {type : Byte} (htype : buffer[pos]? = some type) :
    (dispatch (cleared buffer pos) pos).run w =
      (if type = icmpTimeEx then
        handleIcmpTimeEx (cleared buffer pos) pos (hostText (source (cleared buffer pos)))
      else if type = icmpDestUnreach then
        handleIcmpDestUnreach (cleared buffer pos) pos (hostText (source (cleared buffer pos)))
      else if type = icmpEchoRep then
        handleIcmpEchoRep (cleared buffer pos) pos (hostText (source (cleared buffer pos)))
      else pure false).run w := by
  have hheader := h.header
  have hcopy : arraycopy (cleared buffer pos) 8 (zeros 16) 0 16 =
      .ok (source (cleared buffer pos)) :=
    arraycopy_new (by rw [cleared_length]; omega : 8 + 16 ≤ (cleared buffer pos).length)
  obtain ⟨type', code, htype', -, hget, -⟩ := cleared_type h
  obtain rfl : type' = type := Option.some.inj (htype'.symm.trans htype)
  rw [dispatch, Comp.lift_bind hcopy, Comp.lift_bind (hostAddress_ok (source_cleared_length h)),
    Comp.lift_bind hget]

theorem dispatch_outcome (hr : Reaches w.myIP buffer)
    (hw : ∃ p skip, Walks buffer 6 34 p skip ∧ arrayGet buffer p = .ok icmpNH ∧ p + skip = pos)
    (hc : Checkable buffer pos) (hsum : be16 (recomputed buffer pos) = stored buffer pos) :
    Outcome fuel buffer w ((dispatch (cleared buffer pos) pos).run w) := by
  obtain ⟨type, code, htype, -, -, hcode⟩ := cleared_type hc
  rw [dispatch_run hc htype]
  by_cases h1 : type = icmpTimeEx
  · rw [if_pos h1, handleIcmpTimeEx_run hcode]
    exact .rejects
  by_cases h2 : type = icmpDestUnreach
  · rw [if_neg h1, if_pos h2, handleIcmpDestUnreach_run hcode]
    exact .rejects
  by_cases h3 : type = icmpEchoRep
  · rw [if_neg h1, if_neg h2, if_pos h3]
    rcases handleIcmpEchoRep_cases (cleared buffer pos) pos
      (hostText (source (cleared buffer pos))) w with ⟨e, he, h⟩ | h | ⟨h0, h4, h5, h⟩
    · rw [h]
      exact .throws e fun hf => absurd hf he
    · rw [h]
      exact .rejects
    · rw [h]
      have hkept {i : Nat} (h1 : i ≠ pos + 2) (h2 : i ≠ pos + 3) :
          (cleared buffer pos)[i]? = buffer[i]? := cleared_getElem? h1 h2
      refine .accepts ⟨hr, hw, hc, hsum, h3 ▸ htype, ?_, ?_, ?_⟩
      · rw [← hkept (by omega) (by omega)]
        exact arrayGet_eq_ok.mp h0
      · rw [← hkept (by omega) (by omega)]
        exact arrayGet_eq_ok.mp h4
      · rw [← hkept (by omega) (by omega)]
        exact arrayGet_eq_ok.mp h5
  · rw [if_neg h1, if_neg h2, if_neg h3]
    exact .rejects

/-- A header of type 58 behind the walk, and what then decides: the checksum, and the type. -/
theorem searchIcmp_run {p skip : Int} (hwalk : walk fuel buffer 6 34 = .ok (p, skip))
    (hnext : arrayGet buffer p = .ok icmpNH) (hpos : p + skip = pos) (hc : Checkable buffer pos) :
    (searchIcmp fuel buffer).run w =
      (if be16 (recomputed buffer pos) = stored buffer pos then
        dispatch (cleared buffer pos) pos else pure false).run w := by
  rw [searchIcmp, Comp.lift_bind hwalk]
  dsimp only
  rw [Comp.lift_bind hnext, if_pos rfl, hpos, Comp.lift_bind (checkIcmpProperties_eq hc)]
  dsimp only
  by_cases h : be16 (recomputed buffer pos) = stored buffer pos
  · rw [if_pos h, if_pos (by rw [decide_eq_true h])]
  · rw [if_neg h, if_neg (by simpa using h)]

theorem searchIcmp_outcome (hr : Reaches w.myIP buffer) (fuel : Nat) :
    Outcome fuel buffer w ((searchIcmp fuel buffer).run w) := by
  rcases hwalk : walk fuel buffer 6 34 with e | ⟨p, skip⟩
  · rw [searchIcmp, Comp.lift_bind_error hwalk]
    exact .throws e fun hf => ⟨hr, by rw [hwalk, hf]⟩
  rcases hnext : arrayGet buffer p with e | next
  · rw [searchIcmp, Comp.lift_bind hwalk]
    dsimp only
    rw [Comp.lift_bind_error hnext]
    exact .throws e fun hf => absurd hf (arrayGet_throws hnext)
  by_cases hnh : next = icmpNH
  · rw [hnh] at hnext
    by_cases hat : ∃ n : Nat, p + skip = n ∧ Checkable buffer n
    · obtain ⟨n, hn, hc⟩ := hat
      rw [searchIcmp_run hwalk hnext hn hc]
      by_cases hsum : be16 (recomputed buffer n) = stored buffer n
      · rw [if_pos hsum]
        exact dispatch_outcome hr ⟨p, skip, walks_of_walk hwalk, hnext, hn⟩ hc hsum
      · rw [if_neg hsum]
        exact .rejects
    · obtain ⟨e, he, hne⟩ := checkIcmpProperties_error hat
      rw [searchIcmp, Comp.lift_bind hwalk]
      dsimp only
      rw [Comp.lift_bind hnext, if_pos rfl, Comp.lift_bind_error he]
      exact .throws e fun hf => absurd hf hne
  · rw [searchIcmp, Comp.lift_bind hwalk]
    dsimp only
    rw [Comp.lift_bind hnext, if_neg hnh]
    exact .rejects

theorem destination_length (h : 40 ≤ buffer.length) : (destination buffer).length = 16 := by
  rw [destination, List.length_take, List.length_drop]
  omega

/-- The tests of the IPv6 header. -/
theorem checkMessage_reached (h : Reaches w.myIP buffer) (fuel : Nat) :
    (checkMessage fuel buffer).run w = (searchIcmp fuel buffer).run w := by
  have hcopy : arraycopy buffer 24 (zeros 16) 0 16 = .ok (destination buffer) :=
    arraycopy_new (by have := h.header; omega : 24 + 16 ≤ buffer.length)
  have hdst := destination_length h.header
  have hversion : arrayGet buffer 0 = .ok versionIpv6 := arrayGet_eq_ok.mpr h.version
  rw [checkMessage, Comp.lift_bind hversion, if_neg (by simp),
    Comp.lift_bind hcopy, Comp.lift_bind (hostAddress_ok hdst), Comp.gets_bind, ← h.receiver,
    Comp.lift_bind (hostAddress_ok hdst), if_neg (by simp)]

theorem checkMessage_outcome (hme : w.myIP.length = 16) (fuel : Nat) (buffer : List Byte) :
    Outcome fuel buffer w ((checkMessage fuel buffer).run w) := by
  rcases h0 : arrayGet buffer 0 with e | v
  · rw [checkMessage, Comp.lift_bind_error h0]
    exact .throws e fun hf => absurd hf (arrayGet_throws h0)
  by_cases hv : v ≠ versionIpv6
  · rw [checkMessage, Comp.lift_bind h0, if_pos hv]
    exact .rejects
  by_cases hlen : 40 ≤ buffer.length
  · have hcopy : arraycopy buffer 24 (zeros 16) 0 16 = .ok (destination buffer) :=
      arraycopy_new (by omega : 24 + 16 ≤ buffer.length)
    have hdst := destination_length hlen
    by_cases hown : hostText w.myIP ≠ hostText (destination buffer)
    · rw [checkMessage, Comp.lift_bind h0, if_neg hv, Comp.lift_bind hcopy,
        Comp.lift_bind (hostAddress_ok hdst), Comp.gets_bind, Comp.lift_bind (hostAddress_ok hme),
        if_pos hown]
      exact .rejects
    · have hreach : Reaches w.myIP buffer := by
        refine ⟨hlen, ?_, (hostText_inj hme hdst (not_not.mp hown)).symm⟩
        rw [not_not.mp hv] at h0
        exact arrayGet_eq_ok.mp h0
      rw [checkMessage_reached hreach]
      exact searchIcmp_outcome hreach fuel
  · have hcopy : arraycopy buffer 24 (zeros 16) 0 16 = .error .arrayCopy := by
      rw [arraycopy, if_neg (by omega)]
    rw [checkMessage, Comp.lift_bind h0, if_neg hv, Comp.lift_bind_error hcopy]
    exact .throws _ Stop.noConfusion

/-- A datagram that passes the tests is accepted when its walk ends. -/
theorem Passes.run_of_walk (h : Passes w.myIP buffer pos) {p skip : Int}
    (hwalk : walk fuel buffer 6 34 = .ok (p, skip)) (hnext : arrayGet buffer p = .ok icmpNH)
    (hpos : p + skip = pos) :
    (checkMessage fuel buffer).run w = (.ok true, w.accept (token buffer pos)) := by
  have hcleared : ∀ (i : Nat) b, i ≠ pos + 2 → i ≠ pos + 3 → buffer[i]? = some b →
      arrayGet (cleared buffer pos) (i : Int) = .ok b := fun i b h2 h3 hb =>
    arrayGet_eq_ok.mpr ((cleared_getElem? h2 h3).trans hb)
  have h1 : arrayGet (cleared buffer pos) ((pos : Int) + 1) = .ok 0 :=
    hcleared (pos + 1) _ (by omega) (by omega) h.code
  have h4 : arrayGet (cleared buffer pos) ((pos : Int) + 4) = .ok icmpID :=
    hcleared (pos + 4) _ (by omega) (by omega) h.identifier.1
  have h5 : arrayGet (cleared buffer pos) ((pos : Int) + 5) = .ok 0 :=
    hcleared (pos + 5) _ (by omega) (by omega) h.identifier.2
  rw [checkMessage_reached h.reaches, searchIcmp_run hwalk hnext hpos h.checkable,
    if_pos h.checksum, dispatch_run h.checkable h.type, if_neg (by decide), if_neg (by decide),
    if_pos rfl, handleIcmpEchoRep, Comp.lift_bind h1, if_neg (by simp), Comp.lift_bind h4,
    if_neg (by simp), Comp.lift_bind h5, if_neg (by simp)]
  rfl

/-- A datagram that passes the tests is accepted. -/
theorem Passes.run (h : Passes w.myIP buffer pos) :
    ∃ n, ∀ fuel, n ≤ fuel →
      (checkMessage fuel buffer).run w = (.ok true, w.accept (token buffer pos)) := by
  obtain ⟨p, skip, hwalks, hnext, hpos⟩ := h.walked
  obtain ⟨n, hn⟩ := hwalks.walk
  exact ⟨n, fun fuel hf => h.run_of_walk (hn fuel hf) hnext hpos⟩

/-- It is never rejected. -/
theorem Passes.not_rejected (h : Passes w.myIP buffer pos) (fuel : Nat) :
    ((checkMessage fuel buffer).run w).1 ≠ .ok false := by
  obtain ⟨p, skip, hwalks, hnext, hpos⟩ := h.walked
  obtain hwalk | hwalk := hwalks.walk_or fuel
  · rw [checkMessage_reached h.reaches, searchIcmp, Comp.lift_bind_error hwalk]
    exact nofun
  · rw [h.run_of_walk hwalk hnext hpos]
    simp

/-- The message of a datagram stands at one place. -/
theorem Passes.unique {me : List Byte} {pos' : Nat} (h : Passes me buffer pos)
    (h' : Passes me buffer pos') : pos = pos' := by
  obtain ⟨p, skip, hw, -, hp⟩ := h.walked
  obtain ⟨p', skip', hw', -, hp'⟩ := h'.walked
  obtain ⟨rfl, rfl⟩ := hw.unique hw'
  omega

end Outcome

end Grnvs.Trace
