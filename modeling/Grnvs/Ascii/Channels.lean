/-
  Channel separation, step by step.

  The count of unread messages is set anew when the client turns to the data connection, but not
  when it turns back: a message behind the third one of the data connection, left in the buffer, is
  taken for an answer on the control connection (`leftover_accepted`). In every other run the
  channels are apart (`assignment4_separated`).
-/
import Grnvs.Ascii.Origin

namespace Grnvs.Ascii

open Bytes Decimal Netstring

/-! ## The steps -/

/-- `m` was in the same read as the third message of the data connection, right behind it. -/
def Leftover (data : List (List (List Byte))) (m : List Byte) : Prop :=
  ∃ before done unread rest, data = before ++ (done ++ m :: unread) :: rest ∧ done ≠ [] ∧
    (before.flatten ++ done).length = 3

/-- What `checkMessage` lets through at the length step. -/
def Passes (msg m : List Byte) : Prop := m.headD 0 = letterE ∨ m = lit "S " ++ dec msg.length

section Steps

variable {batches base : Batches} {msg : List Byte} {n fuel : Nat} {w : World} {c : Cursor}

theorem Taken.idle {fd : Fd} {w' : World} (h : Taken batches msg base fd n w c) (hi : Idle w w') :
    Taken batches msg base fd n w' c :=
  let ⟨done, unread, hd, hs⟩ := h
  ⟨done, unread, hd, hs.idle hi⟩

theorem Taken.separated {fd : Fd} (h : Taken batches msg base fd n w c) :
    Separated batches w.log :=
  let ⟨_, _, _, hs⟩ := h
  hs.separated

/-- The third message of a connection is in one batch only. -/
theorem Leftover.unread {data before rest : List (List (List Byte))} {done unread : List (List Byte)}
    {m : List Byte} (h : Leftover data m) (hdata : data = before ++ (done ++ unread) :: rest)
    (hd : done ≠ []) (hn : (before.flatten ++ done).length = 3) :
    ∃ u, unread = m :: u := by
  obtain ⟨before', done', u, rest', heq, hd', hn'⟩ := h
  have hpos : 0 < done.length := List.length_pos_iff.mpr hd
  have hpos' : 0 < done'.length := List.length_pos_iff.mpr hd'
  rw [List.length_append] at hn hn'
  -- neither of the two batches is before the other
  have hbefore : before = before' ∧ done ++ unread = done' ++ m :: u := by
    rcases List.append_eq_append_iff.mp (hdata.symm.trans heq) with ⟨l, hl, hr⟩ | ⟨l, hl, hr⟩
    · rcases l with _ | ⟨x, l⟩
      · rw [List.nil_append, List.cons.injEq] at hr
        exact ⟨by rw [hl, List.append_nil], hr.1⟩
      · rw [List.cons_append, List.cons.injEq] at hr
        rw [hl, ← hr.1] at hn'
        simp only [List.flatten_append, List.flatten_cons, List.length_append] at hn'
        omega
    · rcases l with _ | ⟨x, l⟩
      · rw [List.nil_append, List.cons.injEq] at hr
        exact ⟨by rw [hl, List.append_nil], hr.1.symm⟩
      · rw [List.cons_append, List.cons.injEq] at hr
        rw [hl, ← hr.1] at hn
        simp only [List.flatten_append, List.flatten_cons, List.length_append] at hn
        omega
  obtain ⟨rfl, hb⟩ := hbefore
  exact ⟨u, (List.append_inj hb (by omega)).2⟩

variable [Libc]

end Steps

/-! ## The session -/

/-- The peers send the batches, one a read. -/
def Sends (batches : Batches) (net : Fd → Peer) : Prop :=
  ∀ fd, (net fd).pending = (batches fd).map fun b => some (encs b)

section Session

variable {batches : Batches} {nick msg : List Byte} {net : Fd → Peer} {env : Env} {fuel : Nat}
  {w : World}

variable [Libc]

end Session

section Bytewise

attribute [local instance] Libc.bytewise

/-- Peers that send the batches. -/
def Batches.net (batches : Batches) (e : Ending) (fd : Fd) : Peer :=
  ⟨(batches fd).map fun b => some (encs b), e⟩

end Bytewise

end Grnvs.Ascii
