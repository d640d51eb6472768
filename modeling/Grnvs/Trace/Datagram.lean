/-
  `checkMessage` on one datagram, against what its parts are written for.

  The code tests of the handlers of error messages are chains of inequalities joined by "or", which
  hold for every code, so no error message is accepted (`errors_rejected`). The length byte of an
  extension header is taken with its sign, so the walk can go back: an accepted reply can lie over
  its own source address, and then the address that is printed is not the source (`Misread`), or
  the walk never ends (`Forward`).
-/
import Grnvs.Trace.Integrity

namespace Grnvs.Trace

open Bytes OnesComplement

/-- The state of a tool at the address `me` that has printed nothing yet. -/
def World.idle (me : List Byte) : World :=
  { stopProbes := false, myIP := me, sequenceNumber := 0, timeout := 0, written := [], answers := [],
    log := [] }

/-! ## Error messages -/

section Errors

variable {fuel : Nat} {buffer : List Byte} {w : World}

/-- Without extension headers the message stands at offset 40. -/
theorem checkMessage_plain (hr : Reaches w.myIP buffer) (h1 : 44 ≤ buffer.length)
    (h2 : buffer.length ≤ 1514) (hnext : buffer[6]? = some icmpNH) (hf : 0 < fuel) :
    (checkMessage fuel buffer).run w =
      (if be16 (recomputed buffer 40) = stored buffer 40 then
        dispatch (cleared buffer 40) (40 : Nat) else pure false).run w := by
  obtain ⟨n, rfl⟩ : ∃ n, fuel = n + 1 := ⟨fuel - 1, by omega⟩
  have hget : arrayGet buffer 6 = .ok icmpNH := arrayGet_eq_ok.mpr hnext
  have hwalk : walk (n + 1) buffer 6 34 = .ok (6, 34) :=
    walk_stay (walkStep_end hget (by decide))
  have hcheck : Checkable buffer 40 := by
    constructor <;> omega
  rw [checkMessage_reached hr, searchIcmp_run hwalk hget rfl hcheck]

/-- No message of type 3 or 1 is accepted. -/
theorem errors_rejected (hr : Reaches w.myIP buffer) (h1 : 44 ≤ buffer.length)
    (h2 : buffer.length ≤ 1514) (hnext : buffer[6]? = some icmpNH)
    (htype : buffer[40]? = some icmpTimeEx ∨ buffer[40]? = some icmpDestUnreach) (hf : 0 < fuel) :
    (checkMessage fuel buffer).run w = (.ok false, w) := by
  have hcheck : Checkable buffer 40 := by
    constructor <;> omega
  obtain ⟨type, code, ht, -, -, hcode⟩ := cleared_type hcheck
  rw [checkMessage_plain hr h1 h2 hnext hf]
  split
  · rw [dispatch_run hcheck ht]
    cases htype with
    | inl h =>
      obtain rfl : type = icmpTimeEx := Option.some.inj (ht.symm.trans h)
      rw [if_pos rfl, handleIcmpTimeEx_run hcode]
    | inr h =>
      obtain rfl : type = icmpDestUnreach := Option.some.inj (ht.symm.trans h)
      rw [if_neg (by decide), if_pos rfl, handleIcmpDestUnreach_run hcode]
  · rfl

end Errors

/-- The classification of error messages the handlers are written for. -/
structure Classified (fuel : Nat) (buffer : List Byte) (w : World) : Prop where
  timeEx : ∀ code, buffer[40]? = some icmpTimeEx → buffer[41]? = some code →
    code = 0 ∨ code = 1 → (checkMessage fuel buffer).run w =
      (.ok true, w.note (.print ("  " ++ hostText (source buffer))))
  destUnreach : ∀ code, buffer[40]? = some icmpDestUnreach → buffer[41]? = some code →
    code = 0 ∨ code = 3 ∨ code = 4 → (checkMessage fuel buffer).run w =
      (.ok true,
        { w.note (.print ("  " ++ hostText (source buffer) ++ "!X")) with stopProbes := true })
  otherwise : ∀ code, buffer[41]? = some code →
    buffer[40]? = some icmpTimeEx ∧ ¬ (code = 0 ∨ code = 1) ∨
      buffer[40]? = some icmpDestUnreach ∧ ¬ (code = 0 ∨ code = 3 ∨ code = 4) →
    ∃ w', (checkMessage fuel buffer).run w = (.ok false, w')

/-- Only the error messages that are to be ignored are treated as the handlers intend. -/
theorem errors_classified (buffer : List Byte) (w : World) (h1 : 48 ≤ buffer.length)
    (h2 : buffer.length ≤ 1514) (hversion : buffer[0]? = some 0x60)
    (hreceiver : (buffer.drop 24).take 16 = w.myIP) (hnext : buffer[6]? = some 58)
    (_hsum : sum 65535 (words (pseudoHeader ((buffer.drop 8).take 16) ((buffer.drop 24).take 16)
      (buffer.length - 40) ++ buffer.drop 40)) = 0xffff) :
    (∃ n, ∀ fuel, n ≤ fuel → Classified fuel buffer w) ↔
      ¬ (buffer[40]? = some icmpTimeEx ∧
        ∃ code, buffer[41]? = some code ∧ (code = 0 ∨ code = 1)) ∧
      ¬ (buffer[40]? = some icmpDestUnreach ∧
        ∃ code, buffer[41]? = some code ∧ (code = 0 ∨ code = 3 ∨ code = 4)) := by
  have hr : Reaches w.myIP buffer := ⟨by omega, hversion, hreceiver⟩
  constructor
  · intro h
    obtain ⟨n, hn⟩ := h
    have hclass := hn (n + 1) (Nat.le_succ n)
    constructor
    · intro h
      obtain ⟨htype, code, hcode, hc⟩ := h
      have hrun := hclass.timeEx code htype hcode hc
      rw [errors_rejected hr (by omega) h2 hnext (.inl htype) (Nat.succ_pos n)] at hrun
      cases hrun
    · intro h
      obtain ⟨htype, code, hcode, hc⟩ := h
      have hrun := hclass.destUnreach code htype hcode hc
      rw [errors_rejected hr (by omega) h2 hnext (.inr htype) (Nat.succ_pos n)] at hrun
      cases hrun
  · intro h
    obtain ⟨htimeEx, hunreach⟩ := h
    refine ⟨1, fun fuel hf => ⟨?_, ?_, ?_⟩⟩
    · intro code htype hcode hc
      exact absurd ⟨htype, code, hcode, hc⟩ htimeEx
    · intro code htype hcode hc
      exact absurd ⟨htype, code, hcode, hc⟩ hunreach
    · intro code _ h
      exact ⟨w, errors_rejected hr (by omega) h2 hnext (h.imp And.left And.left) hf⟩

/-- A router at fe80::2 answers a probe of fe80::1 whose hop limit has run out. -/
def timeExDemo : List Byte :=
  [0x60, 0, 0, 0, 0, 56, 58, 64,
    0xfe, 0x80, 0, 0, 0, 0, 0, 0, 0, 0, 0, 0, 0, 0, 0, 2,
    0xfe, 0x80, 0, 0, 0, 0, 0, 0, 0, 0, 0, 0, 0, 0, 0, 1,
    3, 0, 0x65, 0xc2, 0, 0, 0, 0,
    0x60, 0, 0, 0, 0, 8, 58, 0,
    0xfe, 0x80, 0, 0, 0, 0, 0, 0, 0, 0, 0, 0, 0, 0, 0, 1,
    0x20, 0x01, 0x0d, 0xb8, 0, 0, 0, 0, 0, 0, 0, 0, 0, 0, 0, 5,
    128, 0, 0xa8, 0x7c, 0xab, 0, 0, 0]

/-- An answer with a code that no handler asks for. -/
theorem errors_classified_demo : ∃ n, ∀ fuel, n ≤ fuel →
    Classified fuel ((timeExDemo.set 41 2).set 43 0xc0) (World.idle (destination timeExDemo)) :=
  (errors_classified _ _ (by decide) (by decide) (by decide) (by decide) (by decide)
    (by decide +kernel)).mpr ⟨by decide, by decide⟩

/-- The answer of the router is not accepted. -/
theorem timeExceeded_ignored :
    sum 65535 (words (pseudoHeader ((timeExDemo.drop 8).take 16) ((timeExDemo.drop 24).take 16)
      (timeExDemo.length - 40) ++ timeExDemo.drop 40)) = 0xffff ∧
    ¬ ∃ n, ∀ fuel, n ≤ fuel →
      Classified fuel timeExDemo (World.idle (destination timeExDemo)) := by
  refine ⟨by decide +kernel, ?_⟩
  intro h
  obtain ⟨n, hn⟩ := h
  have hrun := (hn (n + 1) (Nat.le_succ n)).timeEx 0 (by decide) (by decide) (.inl rfl)
  have hr : Reaches (World.idle (destination timeExDemo)).myIP timeExDemo :=
    ⟨by decide, by decide, rfl⟩
  rw [errors_rejected hr (by decide) (by decide) (by decide) (.inl (by decide))
    (Nat.succ_pos n)] at hrun
  cases hrun

/-! ## Accepted and rejected datagrams -/

/-- The place the walk gives to the ICMPv6 message, behind a next header of 58. -/
def MessageAt (buffer : List Byte) (pos : Nat) : Prop :=
  ∃ p skip, Walks buffer 6 34 p skip ∧ arrayGet buffer p = .ok icmpNH ∧ p + skip = pos

/-- What an accepted datagram is and does: `w'` is the world after it. -/
structure Genuine (buffer : List Byte) (w w' : World) : Prop where
  token : ∃ mark, (mark = "" ∨ mark = "!X") ∧
    w'.log = w.log ++ [.print ("  " ++ hostText (source buffer) ++ mark)]
  version : buffer[0]? = some 0x60
  receiver : (buffer.drop 24).take 16 = w.myIP
  message : ∃ pos type, MessageAt buffer pos ∧ be16 (recomputed buffer pos) = stored buffer pos ∧
    buffer[pos]? = some type ∧ (type = 1 ∨ type = 3 ∨ type = 129) ∧
    (type = 129 → buffer[pos + 1]? = some 0 ∧ buffer[pos + 4]? = some 0xab ∧
      buffer[pos + 5]? = some 0)

/-- What a call that returns may leave behind. -/
structure Traceless (buffer : List Byte) (w : World) (accepted : Bool) (w' : World) : Prop where
  rejected : accepted = false → w'.stopProbes = w.stopProbes ∧ w'.log = w.log
  genuine : accepted = true → Genuine buffer w w'
  stop : w.stopProbes = false → w'.stopProbes = true →
    ∃ pos type, MessageAt buffer pos ∧ buffer[pos]? = some type ∧ (type = 1 ∨ type = 129)

/-- A datagram taken for a reply whose checksum field lies over its source address: cleared, the
    address is another one. -/
def Misread (me buffer : List Byte) : Prop :=
  ∃ pos, Passes me buffer pos ∧ source (cleared buffer pos) ≠ source buffer

section Genuine

variable {buffer : List Byte} {w : World}

/-- A misread address is printed as it is misread. -/
theorem Misread.token_ne {pos : Nat} (h : Passes w.myIP buffer pos)
    (hne : source (cleared buffer pos) ≠ source buffer) {mark : String}
    (hmark : mark = "" ∨ mark = "!X") :
    token buffer pos ≠ "  " ++ hostText (source buffer) ++ mark := by
  intro htoken
  have hheader := h.reaches.header
  have hsource : (source buffer).length = 16 := by
    rw [source, List.length_take, List.length_drop]
    omega
  have htext : (hostText (source (cleared buffer pos))).toList =
      (hostText (source buffer)).toList ++ mark.toList := by
    have hlist := congrArg String.toList htoken
    rw [token, String.toList_append, String.toList_append, String.toList_append,
      List.append_assoc] at hlist
    exact List.append_cancel_left hlist
  cases hmark with
  | inl hempty =>
    rw [hempty, String.toList_empty, List.append_nil] at htext
    have heq := String.toList_injective htext
    exact hne (hostText_inj (source_cleared_length h.checkable) hsource heq)
  | inr hx =>
    apply not_mem_hostText (d := '!') (by decide) (by decide) (by decide)
      (source (cleared buffer pos))
    rw [htext, hx]
    exact List.mem_append_right _ (by decide)

/-- Every datagram that is not misread is rejected without a trace or genuine. -/
theorem checkMessage_traceless (hme : w.myIP.length = 16) (h : ¬ Misread w.myIP buffer)
    {fuel : Nat} {accepted : Bool} {w' : World}
    (hrun : (checkMessage fuel buffer).run w = (.ok accepted, w')) :
    Traceless buffer w accepted w' := by
  have hout := checkMessage_outcome hme fuel buffer
  rw [hrun] at hout
  cases hout with
  | rejects => exact ⟨fun _ => ⟨rfl, rfl⟩, nofun, fun h1 h2 => absurd (h1.symm.trans h2) (by decide)⟩
  | @accepts pos hp =>
    have hsource : source (cleared buffer pos) = source buffer := by
      by_contra hne
      exact h ⟨pos, hp, hne⟩
    refine ⟨nofun, fun _ => ⟨⟨"", .inl rfl, ?_⟩, hp.reaches.version, hp.reaches.receiver, ?_⟩, ?_⟩
    · rw [String.append_empty, ← hsource]
      rfl
    · exact ⟨pos, 129, hp.walked, hp.checksum, hp.type, .inr (.inr rfl),
        fun _ => ⟨hp.code, hp.identifier⟩⟩
    · intro _ _
      exact ⟨pos, 129, hp.walked, hp.type, .inr rfl⟩

/-- One that is misread is accepted, and not genuine. -/
theorem Misread.traced (h : Misread w.myIP buffer) :
    ¬ ∀ fuel accepted w', (checkMessage fuel buffer).run w = (.ok accepted, w') →
      Traceless buffer w accepted w' := by
  intro hall
  obtain ⟨pos, hp, hne⟩ := h
  obtain ⟨n, hn⟩ := hp.run (w := w)
  obtain ⟨mark, hmark, hlog⟩ := ((hall n true _ (hn n (Nat.le_refl n))).genuine rfl).token
  apply Misread.token_ne hp hne hmark
  have hlast : w.log ++ [Event.print (token buffer pos)] =
      w.log ++ [.print ("  " ++ hostText (source buffer) ++ mark)] := hlog
  exact Event.print.inj (List.cons.inj (List.append_cancel_left hlast)).1

/-- A message behind the source address leaves it alone. -/
theorem not_misread (h : ∀ pos, MessageAt buffer pos → 22 ≤ pos) (me : List Byte) :
    ¬ Misread me buffer := by
  intro hmis
  obtain ⟨pos, hp, hne⟩ := hmis
  exact hne (source_cleared (h pos hp.walked))

end Genuine

/-- Nothing is left behind by a rejected datagram and an accepted one is genuine, for exactly the
    datagrams that are not misread. -/
theorem checkMessage_genuine (buffer : List Byte) (w : World) (hme : w.myIP.length = 16) :
    (∀ fuel accepted w', (checkMessage fuel buffer).run w = (.ok accepted, w') →
      Traceless buffer w accepted w') ↔ ¬ Misread w.myIP buffer := by
  constructor
  · intro h hmis
    exact hmis.traced h
  · intro h fuel accepted w' hrun
    exact checkMessage_traceless hme h hrun

theorem replyDemo_messageAt {pos : Nat} (h : MessageAt replyDemo pos) : pos = 40 := by
  obtain ⟨p, skip, hw, -, hp⟩ := h
  have hstep : walkStep replyDemo 6 34 = .ok none := by decide
  obtain ⟨rfl, rfl⟩ := hw.unique (.stay hstep)
  omega

theorem replyDemo_passes : Passes (destination replyDemo) replyDemo 40 := by
  have hend : walkStep replyDemo 6 34 = .ok none := by decide
  exact ⟨⟨by decide, by decide, rfl⟩, ⟨6, 34, .stay hend, by decide, by decide⟩,
    ⟨by decide, by decide, by decide, by decide⟩, by decide +kernel, by decide, by decide, by decide⟩

/-- The demo reply is not misread, so it is genuine when it is accepted. -/
theorem checkMessage_genuine_demo : ¬ Misread (destination replyDemo) replyDemo ∧
    ∀ fuel accepted w',
      (checkMessage fuel replyDemo).run (World.idle (destination replyDemo)) = (.ok accepted, w') →
        Traceless replyDemo (World.idle (destination replyDemo)) accepted w' := by
  have hread : ¬ Misread (destination replyDemo) replyDemo := by
    apply not_misread
    intro pos h
    rw [replyDemo_messageAt h]
    decide
  exact ⟨hread,
    (checkMessage_genuine replyDemo (World.idle (destination replyDemo)) (by decide)).mpr hread⟩

/-- A datagram from 2001:db8::8100:7b80:ab00:0 whose extension header takes the walk 24 bytes back,
    so that the last half of the source address is read as an echo reply. -/
def misreadDemo : List Byte :=
  [0x60, 0, 0, 0, 0, 8, 0, 64,
    0x20, 0x01, 0x0d, 0xb8, 0, 0, 0, 0, 129, 0, 0x7b, 0x80, 0xab, 0, 0, 0,
    0xfe, 0x80, 0, 0, 0, 0, 0, 0, 0, 0, 0, 0, 0, 0, 0, 1,
    58, 0xfc, 0, 0, 0, 0, 0, 0]

theorem misreadDemo_misread : Misread (destination misreadDemo) misreadDemo := by
  have hstep : walkStep misreadDemo 6 34 = .ok (some (40, -24)) := by decide
  have hend : walkStep misreadDemo 40 (-24) = .ok none := by decide
  refine ⟨16, ⟨⟨by decide, by decide, rfl⟩, ⟨40, -24, .turn hstep (.stay hend), by decide, by decide⟩,
    ⟨by decide, by decide, by decide, by decide⟩, by decide +kernel, by decide, by decide, by decide⟩,
    by decide⟩

/-- It is accepted, and an address it does not come from is printed. -/
theorem misread_accepted :
    ¬ ∀ fuel accepted w',
      (checkMessage fuel misreadDemo).run (World.idle (destination misreadDemo)) =
        (.ok accepted, w') →
      Traceless misreadDemo (World.idle (destination misreadDemo)) accepted w' :=
  misreadDemo_misread.traced

/-! ## The walk over extension headers -/

/-- What is expected of the walk on a datagram: it ends, every turn goes forward, and the end is a
    header of another kind or the end of the datagram. -/
structure Terminates (buffer : List Byte) (w : World) : Prop where
  returns : ∃ n, ∀ fuel, n ≤ fuel → ((checkMessage fuel buffer).run w).1 ≠ .error .fuel
  advances : Reaches w.myIP buffer → ∀ pos skip b, Turns buffer pos skip →
    arrayGet buffer pos = .ok b → isExtension b = true → pos < pos + skip
  ends : Reaches w.myIP buffer → ∃ n, ∀ fuel, n ≤ fuel → Ends buffer (walk fuel buffer 6 34)

/-- A turn that leads to where it started is taken for ever. -/
theorem walk_stuck {buffer : List Byte} {pos skip : Int}
    (h : walkStep buffer pos skip = .ok (some (pos, skip))) (fuel : Nat) :
    walk fuel buffer pos skip = .error .fuel := by
  induction fuel with
  | zero => rfl
  | succ fuel ih => rw [walk_turn h, ih]

/-- The walk is as it should be for exactly the datagrams whose chain goes forward, and those it
    does not come to. -/
theorem walk_terminates (buffer : List Byte) (w : World) (hme : w.myIP.length = 16) :
    Terminates buffer w ↔ (Reaches w.myIP buffer → Forward buffer) := by
  constructor
  · intro h hr
    exact forward_iff.mpr (h.advances hr)
  · intro h
    refine ⟨⟨buffer.length + 2, ?_⟩, ?_, ?_⟩
    · intro fuel hf hfuel
      have hout := checkMessage_outcome hme fuel buffer
      generalize (checkMessage fuel buffer).run w = r at hout hfuel
      cases hout with
      | throws e why =>
        obtain ⟨hr, hwalk⟩ := why (Except.error.inj hfuel)
        have hends : Ends buffer (walk fuel buffer 6 34) := (h hr).ends (by omega)
        rw [hwalk] at hends
        obtain ⟨p, s, b, hok, -⟩ | ⟨index, -, herr⟩ := hends
        · cases hok
        · cases herr
      | rejects => cases hfuel
      | accepts hp => cases hfuel
    · intro hr
      exact forward_iff.mp (h hr)
    · intro hr
      exact ⟨buffer.length + 2, fun fuel hf => (h hr).ends (by omega)⟩

/-- The demo reply has no extension header at all. -/
theorem walk_terminates_demo : Terminates replyDemo (World.idle (destination replyDemo)) := by
  apply (walk_terminates replyDemo (World.idle (destination replyDemo)) (by decide)).mpr
  intro _ b hb hext
  obtain rfl : icmpNH = b := Option.some.inj hb
  cases hext

/-- An extension header of length byte 0xff, followed by another extension header. -/
def hangDemo : List Byte :=
  [0x60, 0, 0, 0, 0, 8, 0, 64,
    0xfe, 0x80, 0, 0, 0, 0, 0, 0, 0, 0, 0, 0, 0, 0, 0, 2,
    0xfe, 0x80, 0, 0, 0, 0, 0, 0, 0, 0, 0, 0, 0, 0, 0, 1,
    0, 0xff, 0, 0, 0, 0, 0, 0]

/-- The tool never comes back from it. -/
theorem walk_hangs :
    (∀ fuel, (checkMessage fuel hangDemo).run (World.idle (destination hangDemo)) =
      (.error .fuel, World.idle (destination hangDemo))) ∧
    ¬ Terminates hangDemo (World.idle (destination hangDemo)) := by
  have hreach : Reaches (World.idle (destination hangDemo)).myIP hangDemo :=
    ⟨by decide, by decide, rfl⟩
  have hstart : walkStep hangDemo 6 34 = .ok (some (40, 0)) := by decide
  have hstuck : walkStep hangDemo 40 0 = .ok (some (40, 0)) := by decide
  have hrun : ∀ fuel, (checkMessage fuel hangDemo).run (World.idle (destination hangDemo)) =
      (.error .fuel, World.idle (destination hangDemo)) := by
    intro fuel
    have hwalk : walk fuel hangDemo 6 34 = .error .fuel := by
      cases fuel with
      | zero => rfl
      | succ fuel => rw [walk_turn hstart, walk_stuck hstuck]
    rw [checkMessage_reached hreach, searchIcmp, Comp.lift_bind_error hwalk]
  refine ⟨hrun, ?_⟩
  intro h
  obtain ⟨n, hn⟩ := h.returns
  apply hn n (Nat.le_refl n)
  rw [hrun]

end Grnvs.Trace
