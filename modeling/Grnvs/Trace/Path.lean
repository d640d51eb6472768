/-
  trace6 and a path of routers.

  A `Path` says which router answers a probe whose Hop Limit runs out, and that the destination
  answers every other one. What the tool reads may be lost, late, doubled or out of order, and
  foreign datagrams may come in between (`Path.Delivers`), but none that the tool itself would
  accept: an echo reply to another program with the identifier 0xab00 would be shown. No answer of a
  router is accepted (`timeExceeded_not_passes`). Two invariants of the machine say that no probe is
  ahead of its line (`Reached`) and that the tool stops once it has shown an address (`Stopped`);
  they decide what each event of a trace can be (`trace_shownAt`).
-/
import Grnvs.Trace.Replies

namespace Grnvs.Trace

open Bytes OnesComplement

/-! ## The network -/

/-- The routers between the tool and the destination. -/
structure Path where
  routers : List (List Byte)
  addresses : ∀ router ∈ routers, router.length = 16

/-- The Hop Limit a probe needs to reach the destination. -/
def Path.distance (π : Path) : Nat := π.routers.length + 1

/-- The Hop Limit of a datagram. -/
def hopLimitOf (P : List Byte) : Nat := (P.getD 7 0).toNat

/-- Time Exceeded of a router for the datagram `P`, with the checksum of RFC 1071. -/
def timeExceeded (router P label : List Byte) (code hopLimit : Byte) : List Byte :=
  0x60 :: label ++ be16 (8 + P.length) ++ [58, hopLimit] ++ router ++ source P ++ ([3, code] ++
    be16 (rfc1071 router (source P) ([3, code, 0, 0] ++ zeros 4 ++ P)) ++ zeros 4 ++ P)

/-- What a read can find on the path when the probes `sent` have been written. Of the datagrams of
    other programs there are those that the tool's tests reject. -/
inductive Path.Delivers (π : Path) (p : Parameters) (sent : List (List Byte)) :
    List Byte → Prop where
  | nothing : Delivers π p sent []
  | exceeded {P router label : List Byte} {i : Nat} (code hopLimit : Byte) : P ∈ sent →
      hopLimitOf P = i + 1 → π.routers[i]? = some router → label.length = 3 →
      Delivers π p sent (timeExceeded router P label code hopLimit)
  | reply {P label : List Byte} (hopLimit : Byte) : P ∈ sent → π.distance ≤ hopLimitOf P →
      label.length = 3 → Delivers π p sent (echoReply P label hopLimit)
  | foreign {D : List Byte} : (∀ pos, ¬ Passes p.srcIp D pos) → Delivers π p sent D

section Network

variable {p : Parameters} {π : Path} {sent : List (List Byte)} {D : List Byte} {pos : Nat}

theorem timeExceeded_type {router P label : List Byte} (code hopLimit : Byte)
    (hr : router.length = 16) (hP : (source P).length = 16) (hl : label.length = 3) :
    (timeExceeded router P label code hopLimit)[40]? = some icmpTimeEx := by
  have hhead : (0x60 :: label ++ be16 (8 + P.length) ++ [58, hopLimit] ++ router ++
      source P).length = 40 := by
    simp [be16, hl, hr, hP]
  rw [timeExceeded, List.getElem?_append_right (by omega), hhead]
  rfl

/-- The answer of a router is not accepted. -/
theorem timeExceeded_not_passes {me router P label : List Byte} (code hopLimit : Byte)
    (hr : router.length = 16) (hP : (source P).length = 16) (hl : label.length = 3) :
    ¬ Passes me (timeExceeded router P label code hopLimit) pos := by
  intro hpasses
  have hnext : arrayGet (timeExceeded router P label code hopLimit) 6 = .ok icmpNH := by
    match label, hl with
    | [a, b, c], _ => rfl
  obtain ⟨q, skip, hwalks, -, hpos⟩ := hpasses.walked
  obtain ⟨rfl, rfl⟩ := hwalks.unique (.stay (walkStep_end hnext (by decide)))
  have hforty : pos = 40 := by omega
  have htype' := hpasses.type
  rw [hforty, timeExceeded_type code hopLimit hr hP hl] at htype'
  cases htype'

theorem hopLimitOf_probe (src dst : List Byte) (n : Int) (sequence : UInt16) :
    (hopLimitOf (probe src dst n sequence) : Int) = n % 256 := by
  have hn : hopLimitOf (probe src dst n sequence) = (n % 256).toNat % 256 := UInt8.toNat_ofNat'
  omega

/-- Only a reply of the destination is accepted. -/
theorem Path.Delivers.passes (h : π.Delivers p sent D) (hp : Passes p.srcIp D pos)
    (hsent : ∀ P ∈ sent, (source P).length = 16) :
    ∃ P label hopLimit, P ∈ sent ∧ π.distance ≤ hopLimitOf P ∧ label.length = 3 ∧
      D = echoReply P label hopLimit := by
  cases h with
  | nothing =>
    have hlen := hp.reaches.header
    exact absurd hlen (by decide)
  | exceeded code hopLimit hP _ hrouter hl =>
    have hr := π.addresses _ (List.mem_of_getElem? hrouter)
    exact absurd hp (timeExceeded_not_passes code hopLimit hr (hsent _ hP) hl)
  | reply hopLimit hP hfar hl => exact ⟨_, _, hopLimit, hP, hfar, hl, rfl⟩
  | foreign hnot => exact absurd hp (hnot pos)

end Network

/-! ## How far the probes have come -/

/-- The probes of a log were written on lines up to the one that is printed. -/
structure Reached (p : Parameters) (log : List Event) (s : Progress) : Prop where
  low : 1 ≤ s.hops
  within : s.phase ≠ .between → s.hops ≤ p.hopLimit
  probes : ∀ P ∈ writes log, ∃ n sequence, 1 ≤ n ∧ n ≤ s.hops ∧
    P = probe p.srcIp p.dstIp n sequence

/-- What shows an address. -/
def Address (text : String) : Prop := text ≠ "\n" ∧ text ≠ "  *"

/-- Once an address is shown, the tool is to stop. -/
def Stopped (log : List Event) (s : Progress) : Prop :=
  ∀ text, .print text ∈ log → Address text → s.stop = true

section Invariants

variable {p : Parameters} {log events : List Event} {s s' : Progress}

/-- A step that writes nothing and stays on its line. -/
theorem Reached.quiet (h : Reached p log s) (hwrite : ∀ bs, .write bs ∉ events)
    (hhops : s'.hops = s.hops) (hphase : s.phase ≠ .between) : Reached p (log ++ events) s' := by
  refine ⟨?_, fun _ => ?_, ?_⟩
  · rw [hhops]
    exact h.low
  · rw [hhops]
    exact h.within hphase
  · rw [writes_append, writes_quiet hwrite, List.append_nil, hhops]
    exact h.probes

theorem Reached.step (hlimit : p.hopLimit < 2 ^ 31 - 1) (h : Reached p log s)
    (hs : Step p s events s') : Reached p (log ++ events) s' := by
  cases hs with
  | @line hops count hle =>
    refine ⟨h.low, fun _ => hle, ?_⟩
    have hnone : writes [.printInt hops] = [] := rfl
    rw [writes_append, hnone, List.append_nil]
    exact h.probes
  | @send attempt hops count stop _ =>
    refine ⟨h.low, fun _ => h.within (by simp), ?_⟩
    intro P hP
    rw [writes_append, List.mem_append] at hP
    cases hP with
    | inl hP => exact h.probes P hP
    | inr hP =>
      have hnew : P = probe p.srcIp p.dstIp hops (UInt16.ofNat count) := List.mem_singleton.mp hP
      exact ⟨hops, _, h.low, Int.le_refl hops, hnew⟩
  | @newline attempt hops count stop _ =>
    have hlow : 1 ≤ hops := h.low
    have hle : hops ≤ p.hopLimit := h.within (by simp)
    have hnext : int32 (hops + 1) = hops + 1 := int32_of_range (by omega) (by omega)
    refine ⟨?_, (absurd rfl ·), ?_⟩
    · show 1 ≤ int32 (hops + 1)
      omega
    · have hnone : writes [.print "\n"] = [] := rfl
      rw [writes_append, hnone, List.append_nil]
      intro P hP
      obtain ⟨n, sequence, h1, hn, rfl⟩ := h.probes P hP
      refine ⟨n, sequence, h1, ?_, rfl⟩
      show n ≤ int32 (hops + 1)
      rw [hnext]
      exact Int.le_add_one hn
  | ignore => exact h.quiet (by simp) rfl (by simp)
  | timeout => exact h.quiet (by simp) rfl (by simp)
  | accept => exact h.quiet (by simp) rfl (by simp)
  | failedWrite => exact h.quiet (by simp) rfl (by simp)
  | failedRead => exact h.quiet (by simp) rfl (by simp)
  | throws => exact h.quiet (by simp) rfl (by simp)

theorem trace_reached (hlimit : p.hopLimit < 2 ^ 31 - 1) (h : (tool p).Trace log s) :
    Reached p log s := by
  apply h.invariant
  · exact ⟨Int.le_refl 1, (absurd rfl ·), by simp [writes]⟩
  · intro log s events s' hI hs
    exact hI.step hlimit hs

/-- A step that shows no address. -/
theorem Stopped.quiet (h : Stopped log s) (hprint : ∀ text, .print text ∈ events → ¬ Address text)
    (hstop : s'.stop = s.stop) : Stopped (log ++ events) s' := by
  intro text htext haddress
  rw [hstop]
  cases List.mem_append.mp htext with
  | inl hold => exact h text hold haddress
  | inr hnew => exact absurd haddress (hprint text hnew)

theorem Stopped.step (h : Stopped log s) (hs : Step p s events s') :
    Stopped (log ++ events) s' := by
  cases hs with
  | accept => exact fun _ _ _ => rfl
  | line => exact h.quiet (by simp) rfl
  | send => exact h.quiet (by simp) rfl
  | ignore => exact h.quiet (by simp) rfl
  | timeout => exact h.quiet (by simp [Address]) rfl
  | newline => exact h.quiet (by simp [Address]) rfl
  | failedWrite => exact h.quiet (by simp) rfl
  | failedRead => exact h.quiet (by simp) rfl
  | throws => exact h.quiet (by simp) rfl

theorem trace_stopped (h : (tool p).Trace log s) : Stopped log s := by
  apply h.invariant
  · exact fun _ htext => absurd htext List.not_mem_nil
  · intro log s events s' hI hs
    exact hI.step hs

end Invariants

/-! ## What is shown -/

/-- What a log shows of a path: of all its addresses the destination's only, on no line before its
    distance, and in the last line that is begun. -/
structure Shown (π : Path) (p : Parameters) (log : List Event) : Prop where
  destination : ∀ a text b, log = a ++ .print text :: b → Address text →
    text = "  " ++ hostText p.dstIp ∧ ∃ n, lineOf a = some n ∧ π.distance ≤ n
  last : ∀ a n b, log = a ++ .printInt n :: b → ∀ text, .print text ∈ a → ¬ Address text

/-- All that has been read was on the path. -/
def Path.Carries (π : Path) (p : Parameters) (log : List Event) : Prop :=
  ∀ a time D b, log = a ++ .read time (.bytes D) :: b → π.Delivers p (writes a) D

section Shown

variable {p : Parameters} {π : Path} {log : List Event} {s : Progress}

/-- The address that is shown for a datagram of the path. -/
theorem Path.Delivers.token (hsrc : p.srcIp.length = 16) (hdst : p.dstIp.length = 16)
    (hr : Reached p log s) {D : List Byte} {pos : Nat} (h : π.Delivers p (writes log) D)
    (hp : Passes p.srcIp D pos) :
    token D pos = "  " ++ hostText p.dstIp ∧ π.distance ≤ s.hops := by
  have hsent : ∀ P ∈ writes log, (source P).length = 16 := by
    intro P hP
    obtain ⟨n, sequence, -, -, rfl⟩ := hr.probes P hP
    rw [probe, echoDatagram_source rfl hsrc, hsrc]
  obtain ⟨P, label, hopLimit, hP, hfar, hl, rfl⟩ := h.passes hp hsent
  obtain ⟨n, sequence, h1, hn, rfl⟩ := hr.probes P hP
  have hforty := hp.unique (echoReply_passes hsrc hdst n sequence hl hopLimit)
  constructor
  · rw [hforty, echoReply_token hsrc hdst n sequence hl hopLimit]
  · have hbyte := hopLimitOf_probe p.srcIp p.dstIp n sequence
    omega

/-- What each event of a trace is, if the reads before it were on the path. -/
def ShownAt (π : Path) (p : Parameters) (a : List Event) (e : Event) : Prop :=
  π.Carries p a →
    match e with
    | .print text => Address text →
        text = "  " ++ hostText p.dstIp ∧ ∃ n, lineOf a = some n ∧ π.distance ≤ n
    | .printInt _ => ∀ text, .print text ∈ a → ¬ Address text
    | _ => True

theorem trace_shownAt (hsrc : p.srcIp.length = 16) (hdst : p.dstIp.length = 16)
    (hlimit : p.hopLimit < 2 ^ 31 - 1) (h : (tool p).Trace log s) :
    ∀ a e b, log = a ++ e :: b → ShownAt π p a e := by
  refine h.events (Q := ShownAt π p) ?_
  intro log s events s' htrace hs a e b hevents hcarries
  cases hs with
  | @line hops count hle =>
    obtain ⟨rfl, rfl⟩ := Machine.singleton_cases hevents
    rw [List.append_nil]
    intro text htext haddress
    cases trace_stopped htrace text htext haddress
  | send ha =>
    obtain ⟨-, rfl⟩ := Machine.singleton_cases hevents
    trivial
  | ignore time hD hnot =>
    obtain ⟨-, rfl⟩ := Machine.singleton_cases hevents
    trivial
  | timeout time =>
    obtain ⟨-, rfl⟩ | ⟨-, rfl⟩ := Machine.pair_cases hevents
    · trivial
    · exact fun haddress => absurd rfl haddress.2
  | @accept attempt hops count pos stop D time hD hp =>
    obtain ⟨-, rfl⟩ | ⟨rfl, rfl⟩ := Machine.pair_cases hevents
    · trivial
    · intro _
      have hdelivers := hcarries log time D [] rfl
      obtain ⟨htoken, hfar⟩ := hdelivers.token hsrc hdst (trace_reached hlimit htrace) hp
      refine ⟨htoken, hops, ?_, hfar⟩
      rw [lineOf_append (by simp)]
      exact (trace_counted htrace).line attempt (.inr rfl)
  | newline ha =>
    obtain ⟨-, rfl⟩ := Machine.singleton_cases hevents
    exact fun haddress => absurd rfl haddress.1
  | failedWrite text bytes =>
    obtain ⟨-, rfl⟩ | ⟨-, rfl⟩ := Machine.pair_cases hevents
    · trivial
    · trivial
  | failedRead time n =>
    obtain ⟨-, rfl⟩ := Machine.singleton_cases hevents
    trivial
  | throws time hD =>
    obtain ⟨-, rfl⟩ := Machine.singleton_cases hevents
    trivial

end Shown

end Grnvs.Trace
