/-
  `hexdump2`, and what it leaves in its static string.

  The string keeps what earlier calls left in it. A store has to lie inside it, the NUL that
  `sprintf` writes included; any other access stops the run with `undefined`. The test for room
  comes behind the store of a byte, so what carries the loop is that a turn begins with 64
  characters left (`Head`) and that a byte takes at most 16 (`piece_length`). The loop ends with the
  text of a part of the buffer that stops early only where there is no more room (`loop_run`).
-/
import Grnvs.Hexdump.Text
import Grnvs.Lib.Fuel

namespace Grnvs.Hexdump

open Bytes Hex

/-! ## `hexdump.c` -/

/-- `static char str[65536]` -/
structure Static where
  str : List Byte
  size : str.length = 65536
deriving DecidableEq, Repr

/-- Why a call ends without a result. -/
inductive Stop where
  | undefined
  | fuel
deriving DecidableEq, Repr

abbrev Run := Comp Stop Static

/-- Stores bytes from `str + p` on. -/
def store (p : Nat) (bs : List Byte) : Run Unit where
  run s :=
    if h : p + bs.length ≤ s.str.length then
      (.ok (), ⟨splice s.str p bs, by rw [splice_length h, s.size]⟩)
    else (.error .undefined, s)

/-- `sprintf(str + p, ...)` for a text that is already formatted. -/
def sprintf (p : Nat) (text : List Byte) : Run Nat := do
  store p (text ++ [0])
  pure text.length

/-- `((unsigned char *) buffer)[i]` -/
def byteAt (buffer : List Byte) (i : Nat) : Run Byte :=
  match buffer[i]? with
  | some b => pure b
  | none => Comp.stop .undefined

/-- The first `if` of a turn. -/
def gap (i p : Nat) : Run Nat :=
  if i % 8 = 0 ∧ i ≠ 0 then do
    let n ← sprintf p (lit "  ")
    pure (p + n)
  else pure p

/-- The second one. -/
def label (i p : Nat) : Run Nat :=
  if i % 16 = 0 then
    if i = 0 then do
      let n ← sprintf p (labelText i)
      pure (p + n)
    else do
      store p (lit "\n")
      let p := p + 1
      let n ← sprintf p (labelText i)
      pure (p + n)
  else pure p

/-- One evaluation of the loop's condition and, where it holds, one turn. The index is an
    `unsigned int`, the room a `size_t`. -/
def turn (buffer : List Byte) (len : Int) (c : Nat × Nat) (_fuel : Nat) :
    Run ((Nat × Nat) ⊕ Unit) := do
  let (i, p) := c
  if (i : Int) < len then do
    let p ← gap i p
    let p ← label i p
    let b ← byteAt buffer i
    let n ← sprintf p (groupText b)
    let p := p + n
    if (65536 + 2 ^ 64 - p) % 2 ^ 64 < 64 then pure (.inr ())
    else pure (.inl ((i + 1) % 2 ^ 32, p))
  else pure (.inr ())

/-- The caller gets `str`. -/
def hexdump2 (fuel : Nat) (buffer : List Byte) (len : Int) : Run Unit :=
  Comp.loop .fuel (turn buffer len) (0, 0) fuel

/-! ## The string -/

/-- The string begins with `t`. -/
def Begins (s : Static) (t : List Byte) : Prop := t <+: s.str

/-- The string is `t`: a NUL stands behind it. -/
def Holds (s : Static) (t : List Byte) : Prop := t ++ [0] <+: s.str

section Calls

variable {s : Static} {t : List Byte}

theorem begins_nil (s : Static) : Begins s [] := List.nil_prefix

theorem Holds.begins (h : Holds s t) : Begins s t := (List.prefix_append t [0]).trans h

theorem Holds.cstr (h : Holds s t) (ht : NulFree t) : cstr s.str = some t := by
  obtain ⟨rest, hrest⟩ := h
  rw [← hrest, List.append_assoc]
  exact cstr_terminated ht rest

/-- A store right behind a text that leaves room for it. -/
theorem store_run (bs : List Byte) (h : Begins s t) (hroom : t.length + bs.length ≤ 65536) :
    ∃ s', (store t.length bs).run s = (.ok (), s') ∧ Begins s' (t ++ bs) := by
  obtain ⟨rest, hrest⟩ := h
  have hfit : t.length + bs.length ≤ s.str.length := by rw [s.size]; exact hroom
  refine ⟨⟨splice s.str t.length bs, by rw [splice_length hfit, s.size]⟩, dif_pos hfit, ?_⟩
  refine ⟨s.str.drop (t.length + bs.length), ?_⟩
  show t ++ bs ++ _ = s.str.take t.length ++ bs ++ _
  rw [← hrest, List.take_left]

theorem sprintf_run (text : List Byte) (h : Begins s t)
    (hroom : t.length + text.length < 65536) :
    ∃ s', (sprintf t.length text).run s = (.ok text.length, s') ∧ Holds s' (t ++ text) := by
  have hlen : t.length + (text ++ [0]).length ≤ 65536 := by
    rw [List.length_append, List.length_singleton]
    omega
  obtain ⟨s', hrun, hs⟩ := store_run _ h hlen
  refine ⟨s', ?_, ?_⟩
  · unfold sprintf
    rw [Comp.bind_ok hrun, Comp.pure_run]
  · unfold Holds
    rw [List.append_assoc]
    exact hs

/-! The three parts of a turn. -/

theorem gap_run (i : Nat) (h : Begins s t) (hroom : t.length + 2 < 65536) :
    ∃ s', (gap i t.length).run s = (.ok (t ++ gapText i).length, s') ∧
      Begins s' (t ++ gapText i) := by
  unfold gap gapText
  by_cases hi : i % 8 = 0 ∧ i ≠ 0
  · obtain ⟨s', hrun, hs⟩ := sprintf_run (lit "  ") h hroom
    rw [if_pos hi, if_pos hi, Comp.bind_ok hrun, Comp.pure_run, List.length_append]
    exact ⟨s', rfl, hs.begins⟩
  · rw [if_neg hi, if_neg hi, List.append_nil, Comp.pure_run]
    exact ⟨s, rfl, h⟩

theorem label_run {i : Nat} (hi : i < 65536) (h : Begins s t) (hroom : t.length + 11 < 65536) :
    ∃ s', (label i t.length).run s = (.ok (t ++ lineText i).length, s') ∧
      Begins s' (t ++ lineText i) := by
  have hlen := labelText_length hi
  unfold label lineText
  by_cases h16 : i % 16 = 0
  · rw [if_pos h16, if_pos h16]
    by_cases h0 : i = 0
    · obtain ⟨s', hrun, hs⟩ := sprintf_run (labelText i) h (by omega)
      rw [if_pos h0, if_pos h0, List.nil_append, Comp.bind_ok hrun, Comp.pure_run,
        List.length_append]
      exact ⟨s', rfl, hs.begins⟩
    · have hline : (lit "\n").length = 1 := rfl
      obtain ⟨s₁, hstore, h₁⟩ := store_run (lit "\n") h (by omega)
      have hlen₁ : (t ++ lit "\n").length = t.length + 1 := by
        rw [List.length_append, hline]
      obtain ⟨s', hrun, hs⟩ := sprintf_run (labelText i) h₁ (by omega)
      rw [hlen₁] at hrun
      rw [if_neg h0, if_neg h0, Comp.bind_ok hstore]
      dsimp only
      rw [Comp.bind_ok hrun, Comp.pure_run, ← List.append_assoc, List.length_append, hlen₁]
      exact ⟨s', rfl, hs.begins⟩
  · rw [if_neg h16, if_neg h16, List.append_nil, Comp.pure_run]
    exact ⟨s, rfl, h⟩

theorem byteAt_run {buffer : List Byte} {i : Nat} {b : Byte} (h : buffer[i]? = some b)
    (s : Static) : (byteAt buffer i).run s = (.ok b, s) := by
  unfold byteAt
  rw [h, Comp.pure_run]

end Calls

/-! ## The loop -/

/-- The head of a turn: the first `i` bytes are written, and there is room for another one. -/
structure Head (buffer : List Byte) (i : Nat) (s : Static) : Prop where
  begins : Begins s (dumpText (buffer.take i))
  room : (dumpText (buffer.take i)).length + 64 ≤ 65536

/-- The end of the loop behind `k` bytes: all there are to write, or as many as there is room
    for. -/
structure Written (buffer : List Byte) (len k : Nat) (s : Static) : Prop where
  holds : Holds s (dumpText (buffer.take k))
  pos : 0 < k
  le : k ≤ len
  full : k = len ∨ 65536 - (dumpText (buffer.take k)).length < 64

section Loop

variable {buffer : List Byte} {len i : Nat} {s : Static}

theorem take_length_of_le (hl : len ≤ buffer.length) (hi : i ≤ len) :
    (buffer.take i).length = i := by
  rw [List.length_take]
  omega

theorem Head.index_lt (h : Head buffer i s) (hl : len ≤ buffer.length) (hi : i ≤ len) :
    i < 65536 := by
  have hlen := dumpText_length (buffer.take i)
  rw [take_length_of_le hl hi] at hlen
  have := h.room
  omega

theorem turn_end (hi : i = len) (p fuel : Nat) (s : Static) :
    (turn buffer len (i, p) fuel).run s = (.ok (.inr ()), s) := by
  unfold turn
  dsimp only
  rw [if_neg (by omega), Comp.pure_run]

/-- A turn writes one more byte, and ends the loop where no room is left for another. -/
theorem turn_run (h : Head buffer i s) (hl : len ≤ buffer.length) (hi : i < len) (fuel : Nat) :
    ∃ s', Holds s' (dumpText (buffer.take (i + 1))) ∧
      (turn buffer len (i, (dumpText (buffer.take i)).length) fuel).run s =
        (.ok (if 65536 - (dumpText (buffer.take (i + 1))).length < 64 then .inr ()
          else .inl (i + 1, (dumpText (buffer.take (i + 1))).length)), s') := by
  have hlt : i < 65536 := h.index_lt hl (Nat.le_of_lt hi)
  have hroom := h.room
  have hgap := gapText_length i
  have hline := lineText_length hlt
  obtain ⟨b, hb⟩ : ∃ b, buffer[i]? = some b :=
    ⟨buffer[i], List.getElem?_eq_getElem (Nat.lt_of_lt_of_le hi hl)⟩
  have htake : buffer.take (i + 1) = buffer.take i ++ [b] := by
    rw [List.take_add_one, hb]
    rfl
  have hbegins : Begins s (dumpText (buffer.take i)) := h.begins
  set t := dumpText (buffer.take i) with ht
  have htext : dumpText (buffer.take (i + 1)) = t ++ gapText i ++ lineText i ++ groupText b := by
    rw [htake, dumpText_concat, take_length_of_le hl (Nat.le_of_lt hi), piece, ht]
    simp only [List.append_assoc]
  have hlen : (dumpText (buffer.take (i + 1))).length =
      (t ++ gapText i ++ lineText i).length + (groupText b).length := by
    rw [htext, List.length_append]
  have hfront : (t ++ gapText i ++ lineText i).length =
      t.length + (gapText i).length + (lineText i).length := by
    rw [List.length_append, List.length_append]
  have hgroup := groupText_length b
  obtain ⟨s₁, hrun₁, h₁⟩ := gap_run i hbegins (by omega)
  obtain ⟨s₂, hrun₂, h₂⟩ := label_run hlt h₁ (by rw [List.length_append]; omega)
  obtain ⟨s₃, hrun₃, h₃⟩ := sprintf_run (groupText b) h₂ (by omega)
  refine ⟨s₃, by rw [htext]; exact h₃, ?_⟩
  unfold turn
  dsimp only
  rw [if_pos (by omega), Comp.bind_ok hrun₁, Comp.bind_ok hrun₂, Comp.bind_ok (byteAt_run hb s₂),
    Comp.bind_ok hrun₃, ← hlen]
  have hsize : (65536 + 2 ^ 64 - (dumpText (buffer.take (i + 1))).length) % 2 ^ 64 =
      65536 - (dumpText (buffer.take (i + 1))).length := by omega
  rw [hsize]
  split
  · rfl
  · rw [Nat.mod_eq_of_lt (by omega), Comp.pure_run]

/-- The loop writes a part of the buffer. By induction on the turns it may still take. -/
theorem loop_run (h : Head buffer i s) (hl : len ≤ buffer.length) (hi : i < len) {fuel : Nat}
    (hf : len - i < fuel) :
    ∃ k s', Written buffer len k s' ∧
      (Comp.loop .fuel (turn buffer len) (i, (dumpText (buffer.take i)).length) fuel).run s =
        (.ok (), s') := by
  induction fuel generalizing i s with
  | zero => omega
  | succ fuel ih =>
    obtain ⟨s', hs', hturn⟩ := turn_run h hl hi fuel
    by_cases hfull : 65536 - (dumpText (buffer.take (i + 1))).length < 64
    · rw [if_pos hfull] at hturn
      rw [Comp.loop_succ_ok hturn]
      exact ⟨i + 1, s', ⟨hs', Nat.succ_pos i, hi, .inr hfull⟩, rfl⟩
    · rw [if_neg hfull] at hturn
      rw [Comp.loop_succ_ok hturn]
      dsimp only
      by_cases hend : i + 1 = len
      · obtain ⟨f, rfl⟩ : ∃ f, fuel = f + 1 := ⟨fuel - 1, by omega⟩
        refine ⟨i + 1, s', ⟨hs', Nat.succ_pos i, hi, .inl hend⟩, ?_⟩
        rw [Comp.loop_succ_ok (turn_end hend _ f s')]
        rfl
      · exact ih ⟨hs'.begins, by omega⟩ (by omega) (by omega)

/-- A text that fits the string shows fewer than 65536 bytes. -/
theorem Written.lt {k : Nat} (h : Written buffer len k s) (hl : len ≤ buffer.length) :
    k < 65536 := by
  have hfit := h.holds.length_le
  have hlen := dumpText_length (buffer.take k)
  rw [take_length_of_le hl h.le] at hlen
  rw [s.size, List.length_append, List.length_singleton] at hfit
  omega

end Loop

/-- **A dump shows what it is taken from.** Every call ends without an access outside the string and
    leaves the text of the first `k` bytes there, which stops before `len` only where fewer than 64
    characters are left. Its lines are the rows of sixteen bytes with their offsets in front, its
    groups the bytes in order, and no other bytes have the same text. -/
theorem hexdump2_faithful (buffer : List Byte) (len fuel : Nat) (s : Static) (hpos : 1 ≤ len)
    (hl : len ≤ buffer.length) (hf : len < fuel) :
    ∃ k s' text, (hexdump2 fuel buffer len).run s = (.ok (), s') ∧ cstr s'.str = some text ∧
      1 ≤ k ∧ k ≤ len ∧ (k = len ∨ 65536 - text.length < 64) ∧
      (∃ rs, readDump text = some rs ∧
        (∀ r, rs[r]? = if 16 * r < k then
          some (16 * r, ((buffer.take k).drop (16 * r)).take 16) else none) ∧
        rs.flatMap Prod.snd = buffer.take k) ∧
      text = dumpText (buffer.take k) ∧
      ∀ other, other ≠ [] → other.length ≤ 65536 → other ≠ buffer.take k →
        dumpText other ≠ text := by
  have hhead : Head buffer 0 s := ⟨begins_nil s, show 0 + 64 ≤ 65536 by decide⟩
  obtain ⟨k, s', hw, hrun⟩ := loop_run hhead hl hpos (by omega)
  have hk := hw.lt hl
  have hlen : (buffer.take k).length = k := take_length_of_le hl hw.le
  have hne : buffer.take k ≠ [] := by
    intro h
    rw [h, List.length_nil] at hlen
    have := hw.pos
    omega
  refine ⟨k, s', dumpText (buffer.take k), hrun,
    hw.holds.cstr (dumpText_nulFree (by omega)), hw.pos, hw.le, hw.full, ?_, rfl, ?_⟩
  · refine ⟨_, readDump_dumpText hne (by omega), fun r => ?_, ?_⟩
    · have hcount : r < rowCount (buffer.take k) ↔ 16 * r < k := by
        unfold rowCount
        omega
      rw [rows_getElem?, Nat.zero_add]
      simp only [hcount]
    · apply rows_bytes
      unfold rowCount
      omega
  · intro other hother hle hdiff he
    exact hdiff (dumpText_inj hother hne hle (by omega) he)

/-- Twenty bytes over the remains of an earlier call. -/
theorem hexdump2_faithful_twenty :
    ∃ k s' text, (hexdump2 21 (List.replicate 20 0xab) (20 : Nat)).run
        ⟨List.replicate 65536 0x41, List.length_replicate⟩ = (.ok (), s') ∧
      cstr s'.str = some text ∧ 1 ≤ k ∧ k ≤ 20 ∧ (k = 20 ∨ 65536 - text.length < 64) ∧
      (∃ rs, readDump text = some rs ∧
        (∀ r, rs[r]? = if 16 * r < k then
          some (16 * r, (((List.replicate 20 0xab).take k).drop (16 * r)).take 16) else none) ∧
        rs.flatMap Prod.snd = (List.replicate 20 0xab).take k) ∧
      text = dumpText ((List.replicate 20 0xab).take k) ∧
      ∀ other, other ≠ [] → other.length ≤ 65536 → other ≠ (List.replicate 20 0xab).take k →
        dumpText other ≠ text :=
  hexdump2_faithful (List.replicate 20 0xab) 20 21
    ⟨List.replicate 65536 0x41, List.length_replicate⟩ (by decide) (by decide) (by decide)

end Grnvs.Hexdump
