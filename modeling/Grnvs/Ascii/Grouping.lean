/-
  A correct server that packs its messages into segments at will.

  Whatever the segments, the client comes to its end and sends the same frames up to the last one
  (`assignment4_grouped`). The last frame carries the data token, and that is copied from the
  front of the buffer: it is the rest of the message the last data segment begins with
  (`Grouping.leading`). So two groupings give the same session exactly when these rests agree
  (`assignment4_coalescing`).
-/
import Grnvs.Ascii.Session

namespace Grnvs.Ascii

open Bytes Decimal Netstring

/-- A way of packing the messages of a script into segments. No segment mixes the two phases of
    the control connection. -/
structure Script.Grouping (S : Script) where
  early : List (List (List Byte))
  late : List (List (List Byte))
  data : List (List (List Byte))
  early_said : early.flatten = [S.said .controlVersion, S.said .controlToken]
  late_said : late.flatten = [S.said .controlLength, S.said .controlAck]
  data_said : data.flatten = [S.said .dataVersion, S.said .dataToken, S.said .dataDtoken]
  ne_nil : ∀ b ∈ early ++ late ++ data, b ≠ []
  fits : ∀ b ∈ early ++ late ++ data, Fits b

namespace Script.Grouping

variable {S : Script} (G : S.Grouping)

/-- What the sockets give. -/
def net (e : Ending) : Fd → Peer
  | .control => ⟨(G.early ++ G.late).map fun b => some (encs b), e⟩
  | .data => ⟨G.data.map fun b => some (encs b), e⟩
  | .listening => ⟨[], e⟩

/-- The message the last data segment begins with. -/
def leading : List Byte := (G.data.getLastD []).headD []

/-- Every segment can be received. -/
theorem usable {fuel : Nat} (hfuel : 4 ≤ fuel) (hplain : ∀ s, Plain (S.said s))
    {b : List (List Byte)} (hb : b ∈ G.early ++ G.late ++ G.data) : Usable fuel b := by
  have hsub : ∃ l : List Step, b.Sublist (l.map S.said) ∧ l.length ≤ 3 := by
    rcases List.mem_append.mp hb with h | h
    · rcases List.mem_append.mp h with h | h
      · refine ⟨[.controlVersion, .controlToken], ?_, by decide⟩
        exact G.early_said.subst (motive := fun l => b.Sublist l) (List.sublist_flatten_of_mem h)
      · refine ⟨[.controlLength, .controlAck], ?_, by decide⟩
        exact G.late_said.subst (motive := fun l => b.Sublist l) (List.sublist_flatten_of_mem h)
    · refine ⟨[.dataVersion, .dataToken, .dataDtoken], ?_, by decide⟩
      exact G.data_said.subst (motive := fun l => b.Sublist l) (List.sublist_flatten_of_mem h)
  obtain ⟨l, hl, hlen⟩ := hsub
  refine ⟨G.ne_nil b hb, fun m hm => ?_, G.fits b hb, ?_⟩
  · obtain ⟨s, _, rfl⟩ := List.mem_map.mp (hl.subset hm)
    exact hplain s
  · have := hl.length_le
    rw [List.length_map] at this
    omega

end Script.Grouping

/-- A message of a batch that fits. -/
theorem room_length {pos : Nat} {ms : List (List Byte)} {m : List Byte} (h : Room pos ms)
    (hm : m ∈ ms) : m.length ≤ 2047 := by
  induction ms generalizing pos with
  | nil => cases hm
  | cons x ms ih =>
      have hB : BUFSIZE = 4096 := rfl
      rcases List.mem_cons.mp hm with rfl | hm
      · have := h.1
        omega
      · exact ih h.2 hm

/-! ## The phases -/

section Phases

variable {S : Script} {fuel : Nat} {w : World} {c : Cursor} {done unread : List (List Byte)}
  {bs early late data : List (List (List Byte))} {more : List (Option (List Byte))} {fd : Fd}

/-- A socket that has given all its messages. -/
theorem Supply.drained (h : Supply fuel w fd bs more) (hq : unread ++ bs.flatten = []) :
    unread = [] ∧ bs = [] := by
  obtain ⟨h1, h2⟩ := List.append_eq_nil_iff.mp hq
  refine ⟨h1, ?_⟩
  rcases bs with _ | ⟨b, bs⟩
  · rfl
  · exact absurd (List.flatten_eq_nil_iff.mp h2 b (List.mem_cons_self ..))
      (h.usable b (List.mem_cons_self ..)).ne_nil

/-- A phase of the session: it sends `frames`, uses up what `fd` has for it, and leaves the buffer
    empty. -/
structure Phase (S : Script) (fuel : Nat) (fd : Fd) (more : List (Option (List Byte)))
    (frames : List (Fd × List Byte)) (w w' : World) (c' : Cursor) : Prop where
  client : Client S.nick S.msg w'
  cursor : ∃ done, Holds w' c' done []
  pending : (w'.net fd).pending = more
  net : ∀ sd, sd ≠ fd → w'.net sd = w.net sd
  writes : writes w'.log = writes w.log ++ onWire frames

theorem controlPhase_run [Libc] [Libc.CopiesForward] (hS : S.Roomy) (hacc : ∀ s, S.Accepts s)
    (hc : Client S.nick S.msg w)
    (hh : Holds w ⟨0, Arr.recvbuf.ptr⟩ done []) (hs : Supply fuel w .control early more)
    (hq : early.flatten = [S.said .controlVersion, S.said .controlToken]) :
    ∃ c1 w1 c' w', (controlVersion fuel).run w = (.ok c1, w1) ∧
      (controlToken fuel c1).run w1 = (.ok c', w') ∧
      Phase S fuel .control more (S.frames.take 2) w w' c' ∧ IsStr w' Arr.token.ptr S.token := by
  obtain ⟨w1, c1, done1, u1, bs1, hrun1, ha1⟩ := controlVersion_arrives hc hh hs hq
  have hm1 : S.said .controlVersion = lit "S GRNVS V:1.0" := hacc .controlVersion
  obtain ⟨c2, w2, hr2, hh2, hp2⟩ := checked_same .control .controlVersion
    ha1.holds (by rw [hm1]; exact isStr_lit (s := "S GRNVS V:1.0") (by decide))
    (Script.noError_of_accepts (hacc _))
  have hc2 : Client S.nick S.msg w2 :=
    (ha1.client hc).frame hp2.frame List.not_mem_nil List.not_mem_nil
  obtain ⟨w3, c3, done3, u3, bs3, hrun3, ha3⟩ := controlToken_arrives hc2 hS.nick_le hh2
    (ha1.supply.of_net (by rw [hp2.net])) ha1.queue
  have hm3 : S.said .controlToken = 83 :: 32 :: S.token := by
    have h2 : (S.said .controlToken).take 2 = [83, 32] := hacc .controlToken
    rw [← List.take_append_drop 2 (S.said .controlToken), h2]
    rfl
  have hah := ha3.holds
  rw [hm3] at hah
  obtain ⟨c4, w4, hr4, hh4, hp4, ht4⟩ := checked_controlToken hah (ha3.client hc2).token
  obtain ⟨rfl, rfl⟩ := ha3.supply.drained ha3.queue
  refine ⟨c2, w2, c4, w4, hrun1.trans hr2, hrun3.trans hr4,
    ⟨(ha3.client hc2).frame hp4.frame (by decide) (by decide), ⟨_, hh4⟩, ?_, ?_, ?_⟩, ht4⟩
  · rw [hp4.net, ha3.supply.pending]
    rfl
  · intro sd hsd
    rw [hp4.net, ha3.net sd hsd, hp2.net, ha1.net sd hsd]
  · rw [hp4.writes, ha3.writes, hp2.writes, ha1.writes, List.append_assoc]
    rfl

/-- Where the segment in the buffer is among all segments. -/
theorem Arrival.segment {m : List Byte} {q done' unread' : List (List Byte)}
    {bs' : List (List (List Byte))} {sent : List (Fd × List Byte)} {w' : World} {c' : Cursor}
    (h : Arrival fuel fd w done unread bs more m q sent w' c' done' unread' bs')
    (hseg : ∃ used, data = used ++ (done ++ unread) :: bs) :
    ∃ used, data = used ++ ((done' ++ [m]) ++ unread') :: bs' := by
  obtain ⟨used, rfl⟩ := hseg
  rcases h.origin with ⟨rfl, rfl, rfl⟩ | ⟨rfl, rfl, rfl⟩
  · exact ⟨used, by simp⟩
  · exact ⟨used ++ [done], by simp⟩

/-- The message at the front of the last segment, in terms of its place in the buffer. -/
theorem leading_eq {used : List (List (List Byte))} {m : List Byte}
    (hdata : data = used ++ [done ++ [m]]) :
    ∃ b, done ++ [m] = (data.getLastD []).headD [] :: b := by
  rw [hdata, List.getLastD_concat]
  rcases done with _ | ⟨h, t⟩
  · exact ⟨[], rfl⟩
  · exact ⟨t ++ [m], rfl⟩

theorem eq_of_take_two {s : List Byte} {x y : Byte} (h : s.take 2 = [x, y]) :
    s = x :: y :: s.drop 2 := by
  conv_lhs => rw [← List.take_append_drop 2 s, h]
  rfl

/-- Every message of the data connection begins with `"T "`. -/
theorem take_two_of_data (hacc : ∀ s, S.Accepts s) {m : List Byte}
    (hm : m ∈ [S.said .dataVersion, S.said .dataToken, S.said .dataDtoken]) :
    m.take 2 = [84, 32] := by
  have hm1 : S.said .dataVersion = lit "T GRNVS V:1.0" := hacc .dataVersion
  have hm3 : S.said .dataToken = lit "T " ++ S.token := hacc .dataToken
  simp only [List.mem_cons, List.not_mem_nil, or_false] at hm
  rcases hm with h | h | h
  · rw [h, hm1]
    decide
  · rw [h, hm3]
    rfl
  · rw [h]
    exact hacc .dataDtoken

theorem dataPhase_run [Libc] [Libc.CopiesForward] (hS : S.Roomy) (hacc : ∀ s, S.Accepts s)
    (hc : Client S.nick S.msg w)
    (hh : Holds w ⟨0, Arr.recvbuf.ptr⟩ done []) (hs : Supply fuel w .data data more)
    (hq : data.flatten = [S.said .dataVersion, S.said .dataToken, S.said .dataDtoken])
    (htok : IsStr w Arr.token.ptr S.token) (htl : S.token.length ≤ 4087) :
    ∃ c1 w1 c2 w2 c' w', (dataVersion fuel).run w = (.ok c1, w1) ∧
      (dataToken fuel c1).run w1 = (.ok c2, w2) ∧ (dataDtoken fuel c2).run w2 = (.ok c', w') ∧
      Phase S fuel .data more [(.data, lit "D " ++ S.nick), (.data, lit "D " ++ S.msg)] w w' c' ∧
      IsStr w' Arr.token.ptr (((data.getLastD []).headD []).drop 2) := by
  obtain ⟨w1, c1, done1, u1, bs1, hrun1, ha1⟩ := dataVersion_arrives hh hs hq
  have hm1 : S.said .dataVersion = lit "T GRNVS V:1.0" := hacc .dataVersion
  obtain ⟨c2, w2, hr2, hh2, hp2⟩ := checked_same .data .dataVersion
    ha1.holds (by rw [hm1]; exact isStr_lit (s := "T GRNVS V:1.0") (by decide))
    (Script.noError_of_accepts (hacc _))
  have hc2 : Client S.nick S.msg w2 :=
    (ha1.client hc).frame hp2.frame List.not_mem_nil List.not_mem_nil
  have htok2 : IsStr w2 Arr.token.ptr S.token :=
    (ha1.frame.trans hp2.frame).isStr (by rintro a ⟨⟩; decide) htok
  have hseg1 : ∃ used, data = used ++ ((done1 ++ [S.said .dataVersion]) ++ u1) :: bs1 := by
    rcases ha1.origin with ⟨_, h2, _⟩ | ⟨_, rfl, h3⟩
    · cases h2
    · exact ⟨[], h3⟩
  obtain ⟨w3, c3, done3, u3, bs3, hrun3, ha3, hx3⟩ := dataToken_arrives hc2 hS.nick_le htok2 htl hh2
    (ha1.supply.of_net (by rw [hp2.net])) ha1.queue
  have hm3 : S.said .dataToken = lit "T " ++ S.token := hacc .dataToken
  obtain ⟨c4, w4, hr4, hh4, hp4⟩ := checked_same .data .dataToken
    ha3.holds (by rw [hm3]; exact hx3) (Script.noError_of_accepts (hacc _))
  have hc4 : Client S.nick S.msg w4 :=
    (ha3.client hc2).frame hp4.frame List.not_mem_nil List.not_mem_nil
  obtain ⟨w5, c5, done5, u5, bs5, hrun5, ha5⟩ := dataDtoken_arrives hc4 hS.msg_le hh4
    (ha3.supply.of_net (by rw [hp4.net])) ha3.queue
  obtain ⟨rfl, rfl⟩ := ha5.supply.drained ha5.queue
  obtain ⟨used, hused⟩ := ha5.segment (ha3.segment hseg1)
  rw [List.append_nil] at hused
  obtain ⟨b, hb⟩ := leading_eq hused
  set lead := (data.getLastD []).headD [] with hlead
  have hlead2 : lead = 84 :: 32 :: lead.drop 2 := by
    have hmem : lead ∈ data.flatten := by
      rw [hused, List.flatten_append, List.mem_append]
      exact .inr (by simp [hb])
    exact eq_of_take_two (take_two_of_data hacc (hq ▸ hmem))
  have hm5 : S.said .dataDtoken = 84 :: 32 :: S.dtoken := eq_of_take_two (hacc .dataDtoken)
  have hfront : IsStr w5 (Arr.recvbuf.ptr + 2) (lead.drop 2) := by
    have := ha5.holds.first hb
    rw [hlead2] at this
    exact IsStr.add (s := [84, 32]) this
  have hah := ha5.holds
  rw [hm5] at hah
  obtain ⟨c6, w6, hr6, hh6, hp6, ht6⟩ := checked_dataDtoken hah (ha5.client hc4).token hfront
  refine ⟨c2, w2, c4, w4, c6, w6, hrun1.trans hr2, hrun3.trans hr4, hrun5.trans hr6,
    ⟨(ha5.client hc4).frame hp6.frame (by decide) (by decide), ⟨_, hh6⟩, ?_, ?_, ?_⟩, ht6⟩
  · rw [hp6.net, ha5.supply.pending]
    rfl
  · intro sd hsd
    rw [hp6.net, ha5.net sd hsd, hp4.net, ha3.net sd hsd, hp2.net, ha1.net sd hsd]
  · rw [hp6.writes, ha5.writes, hp4.writes, ha3.writes, hp2.writes, ha1.writes, List.append_nil,
      List.append_assoc]
    rfl

theorem finish_run [Libc] [Libc.CopiesForward] (hS : S.Roomy) (hacc : ∀ s, S.Accepts s)
    (hc : Client S.nick S.msg w) (hh : Holds w c done []) (hs : Supply fuel w .control late more)
    (hq : late.flatten = [S.said .controlLength, S.said .controlAck]) {token : List Byte}
    (htok : IsStr w Arr.token.ptr token) (htl : token.length ≤ 4087) :
    ∃ c1 w1 w', (controlLength fuel c).run w = (.ok c1, w1) ∧
      (controlAck fuel c1).run w1 = (.ok (), w') ∧
      writes w'.log = writes w.log ++ onWire [(.control, lit "C " ++ token)] := by
  obtain ⟨w1, c1, done1, u1, bs1, hrun1, ha1, hx1⟩ := controlLength_arrives hc hS.msg_le hh hs hq
  have hm1 : S.said .controlLength = lit "S " ++ dec S.msg.length := hacc .controlLength
  obtain ⟨c2, w2, hr2, hh2, hp2⟩ := checked_same .control .controlLength
    ha1.holds (by rw [hm1]; exact hx1) (Script.noError_of_accepts (hacc _))
  have hc2 : Client S.nick S.msg w2 :=
    (ha1.client hc).frame hp2.frame List.not_mem_nil List.not_mem_nil
  have htok2 : IsStr w2 Arr.token.ptr token :=
    (ha1.frame.trans hp2.frame).isStr (by rintro a ⟨⟩; decide) htok
  obtain ⟨w3, c3, done3, u3, bs3, hrun3, ha3, hx3⟩ := controlAck_arrives hc2 htok2 htl hh2
    (ha1.supply.of_net (by rw [hp2.net])) ha1.queue
  have hm3 : S.said .controlAck = lit "S ACK" := hacc .controlAck
  obtain ⟨w4, hr4, hp4⟩ := checked_controlAck ha3.holds (by rw [hm3]; exact hx3)
    (Script.noError_of_accepts (hacc _))
  refine ⟨c2, w2, w4, hrun1.trans hr2, hrun3.trans hr4, ?_⟩
  rw [hp4.writes, ha3.writes, hp2.writes, ha1.writes, List.append_nil]
  rfl

end Phases

/-! ## Whole sessions -/

namespace Script.Grouping

variable {S : Script} (G : S.Grouping)

theorem message_le {m : List Byte} (hm : m ∈ (G.early ++ G.late ++ G.data).flatten) :
    m.length ≤ 2047 := by
  obtain ⟨b, hb, hmb⟩ := List.mem_flatten.mp hm
  exact room_length (G.fits b hb).room hmb

/-- The message at the front of the last data segment is one of the data messages. -/
theorem leading_mem : G.leading ∈ G.data.flatten := by
  rcases List.eq_nil_or_concat G.data with h | ⟨l, b, h⟩
  · have := G.data_said
    rw [h] at this
    cases this
  · rw [List.concat_eq_append] at h
    have hb : b ≠ [] := G.ne_nil b (by rw [h]; simp)
    rcases b with _ | ⟨m, b⟩
    · exact absurd rfl hb
    · rw [leading, h, List.getLastD_concat]
      simp

/-- Every grouping of an accepted script comes to the end of the session. -/
theorem assignment4_grouped [Libc] [Libc.CopiesForward] (hS : S.Roomy)
    (hplain : ∀ s, Plain (S.said s)) (hacc : ∀ s, S.Accepts s) (order : EvalOrder) {fuel : Nat}
    (hfuel : 4 ≤ fuel) (e : Ending) :
    ∃ w', (assignment4 fuel (Env.working S.port)).run (start order S.nick S.msg (G.net e)) =
        (.ok (), w') ∧
      writes w'.log = onWire (S.frames.take 5 ++ [(.control, lit "C " ++ G.leading.drop 2)]) := by
  have huse : ∀ b ∈ G.early ++ G.late ++ G.data, Usable fuel b := fun b hb =>
    G.usable hfuel hplain hb
  have htl : S.token.length ≤ 4087 := by
    have := G.message_le (m := S.said .controlToken) (by
      rw [List.flatten_append, List.flatten_append, G.early_said]; simp)
    rw [Script.token, List.length_drop]
    omega
  have hll : (G.leading.drop 2).length ≤ 4087 := by
    have := G.message_le (m := G.leading) (by
      rw [List.flatten_append, List.mem_append]; exact .inr G.leading_mem)
    rw [List.length_drop]
    omega
  obtain ⟨w, hrun, hc, hsize, hwn, hlog⟩ := session_start order (G.net e) fuel S.port hS.nick hS.msg
  have hearly : Supply fuel w .control G.early (G.late.map fun b => some (encs b)) :=
    ⟨by rw [hwn]; exact List.map_append, fun b hb => huse b (by simp [hb])⟩
  obtain ⟨c1, w1, c2, w2, hr1, hr2, hp2, ht2⟩ := controlPhase_run hS hacc hc (holds_empty hsize)
    hearly G.early_said
  obtain ⟨w3, hr3, h3⟩ := openData_run S.port hp2.client
  obtain ⟨done, hh2⟩ := hp2.cursor
  rw [hh2.used_up] at hh2
  have hdata : Supply fuel w3 .data G.data [] :=
    ⟨by rw [h3.net, hp2.net _ (by decide), hwn]; exact (List.append_nil _).symm,
      fun b hb => huse b (by simp [hb])⟩
  obtain ⟨c4, w4, c5, w5, c6, w6, hr4, hr5, hr6, hp6, ht6⟩ := dataPhase_run hS hacc
    (hp2.client.frame h3.frame (by decide) (by decide)) (hh2.frame h3.frame (by decide)) hdata
    G.data_said (h3.frame.isStr (by rintro a ⟨⟩; decide) ht2) htl
  obtain ⟨done6, hh6⟩ := hp6.cursor
  have hlate : Supply fuel w6 .control G.late [] :=
    ⟨by rw [hp6.net _ (by decide), h3.net, hp2.pending, List.append_nil],
      fun b hb => huse b (by simp [hb])⟩
  obtain ⟨c7, w7, w8, hr7, hr8, hw8⟩ := finish_run hS hacc hp6.client hh6 hlate G.late_said ht6 hll
  refine ⟨w8, ?_, ?_⟩
  · rw [hrun, Comp.bind_ok hr1, Comp.bind_ok hr2, Comp.bind_ok hr3, Comp.bind_ok hr4,
      Comp.bind_ok hr5, Comp.bind_ok hr6, Comp.bind_ok hr7, hr8]
  · rw [hw8, hp6.writes, h3.writes, hp2.writes, hlog, writes_nil, onWire_append]
    simp [onWire, Script.frames, Script.Grouping.leading]

theorem onWire_last_inj {l : List (Fd × List Byte)} {fd : Fd} {t t' : List Byte}
    (h : onWire (l ++ [(fd, t)]) = onWire (l ++ [(fd, t')])) : t = t' := by
  rw [onWire_append, onWire_append] at h
  have h1 : enc t = enc t' := by simpa [onWire] using List.append_cancel_left h
  exact enc_inj h1

/-- Two groupings give the same session exactly when their last data segments begin with messages
    that agree from the third byte on. -/
theorem assignment4_coalescing [Libc] [Libc.CopiesForward] (hS : S.Roomy)
    (hplain : ∀ s, Plain (S.said s)) (hacc : ∀ s, S.Accepts s) (order : EvalOrder) {fuel : Nat}
    (hfuel : 4 ≤ fuel) (G G' : S.Grouping) (e e' : Ending) :
    let r := (assignment4 fuel (Env.working S.port)).run (start order S.nick S.msg (G.net e))
    let r' := (assignment4 fuel (Env.working S.port)).run (start order S.nick S.msg (G'.net e'))
    r.1 = r'.1 ∧ writes r.2.log = writes r'.2.log ↔ G.leading.drop 2 = G'.leading.drop 2 := by
  obtain ⟨w, hr, hw⟩ := G.assignment4_grouped hS hplain hacc order hfuel e
  obtain ⟨w', hr', hw'⟩ := G'.assignment4_grouped hS hplain hacc order hfuel e'
  dsimp only
  rw [hr, hr']
  dsimp only
  rw [hw, hw']
  refine ⟨fun h => ?_, fun h => ⟨rfl, by rw [h]⟩⟩
  exact List.append_cancel_left (onWire_last_inj h.2)

/-- One message a segment. -/
def demoSingle : Script.demo.Grouping where
  early := [[lit "S GRNVS V:1.0"], [lit "S 12"]]
  late := [[lit "S 2"], [lit "S ACK"]]
  data := [[lit "T GRNVS V:1.0"], [lit "T 12"], [lit "T 345"]]
  early_said := rfl
  late_said := rfl
  data_said := rfl
  ne_nil := by decide
  fits b hb := by
    refine fits_of_length ?_
    revert b
    decide

/-- The two tokens of the data connection in one segment. -/
def demoJoined : Script.demo.Grouping where
  early := [[lit "S GRNVS V:1.0"], [lit "S 12"]]
  late := [[lit "S 2"], [lit "S ACK"]]
  data := [[lit "T GRNVS V:1.0"], [lit "T 12", lit "T 345"]]
  early_said := rfl
  late_said := rfl
  data_said := rfl
  ne_nil := by decide
  fits b hb := by
    refine fits_of_length ?_
    revert b
    decide

section Bytewise

attribute [local instance] Libc.bytewise

/-- Joined segments: the client sends the first token back instead of the data token. -/
theorem coalescing_changes_token :
    let r := (assignment4 4 (Env.working Script.demo.port)).run
      (start .before Script.demo.nick Script.demo.msg (demoSingle.net .eof))
    let r' := (assignment4 4 (Env.working Script.demo.port)).run
      (start .before Script.demo.nick Script.demo.msg (demoJoined.net .eof))
    ¬ (r.1 = r'.1 ∧ writes r.2.log = writes r'.2.log) := by
  have hplain := Script.demo_fair.plain
  have hacc := Script.correct_accepts (lit "nick") (lit "hi") (lit "12") (lit "345") 8080
  obtain ⟨w, hr, hw⟩ := demoSingle.assignment4_grouped Script.demo_fair.toRoomy hplain hacc .before
    (Nat.le_refl 4) .eof
  obtain ⟨w', hr', hw'⟩ := demoJoined.assignment4_grouped Script.demo_fair.toRoomy hplain hacc
    .before (Nat.le_refl 4) .eof
  dsimp only
  rw [hr, hr']
  dsimp only
  rw [hw, hw']
  rintro ⟨_, h⟩
  have := List.append_cancel_left (onWire_last_inj h)
  revert this
  decide

theorem assignment4_coalescing_demo :
    let r := (assignment4 4 (Env.working Script.demo.port)).run
      (start .before Script.demo.nick Script.demo.msg (demoSingle.net .eof))
    let r' := (assignment4 4 (Env.working Script.demo.port)).run
      (start .before Script.demo.nick Script.demo.msg (demoJoined.net .eof))
    r.1 = r'.1 ∧ writes r.2.log = writes r'.2.log ↔
      demoSingle.leading.drop 2 = demoJoined.leading.drop 2 :=
  assignment4_coalescing Script.demo_fair.toRoomy Script.demo_fair.plain
    (Script.correct_accepts _ _ _ _ _) .before (Nat.le_refl 4) demoSingle demoJoined .eof .eof

end Bytewise

end Script.Grouping

end Grnvs.Ascii
