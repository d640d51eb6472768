/-
  The text of a hex dump.

  Every byte adds one piece to the text: two blanks in front of every eighth one, a label in front
  of every sixteenth, and its two digits (`piece`). Seen from outside the text consists of lines, a
  line of a label and of groups of two digits, and `readDump` reads it as such. What it gets back
  from the text of a byte string are the rows of the string (`readDump_dumpText`), so the string
  itself (`rows_bytes`), and different strings have different texts (`dumpText_inj`).
-/
import Grnvs.Lib.Hex
import Mathlib.Data.List.Induction

namespace Grnvs.Hexdump

open Bytes Hex

/-! ## The pieces -/

/-- `">> %.4x:  "` -/
def labelText (i : Nat) : List Byte := lit ">> " ++ printHex 4 i ++ lit ":  "

/-- `"%.2x "` -/
def groupText (b : Byte) : List Byte := printHex 2 b.toNat ++ lit " "

/-- Two blanks in front of every eighth byte but the first. -/
def gapText (i : Nat) : List Byte := if i % 8 = 0 ∧ i ≠ 0 then lit "  " else []

/-- A new line with its label in front of every sixteenth byte. -/
def lineText (i : Nat) : List Byte :=
  if i % 16 = 0 then (if i = 0 then [] else lit "\n") ++ labelText i else []

/-- What the byte `b` at the index `i` adds to the text. -/
def piece (i : Nat) (b : Byte) : List Byte := gapText i ++ lineText i ++ groupText b

/-- The text of bytes whose first has the index `i`. -/
def textFrom : Nat → List Byte → List Byte
  | _, [] => []
  | i, b :: bs => piece i b ++ textFrom (i + 1) bs

def dumpText (bs : List Byte) : List Byte := textFrom 0 bs

theorem textFrom_append (i : Nat) (a b : List Byte) :
    textFrom i (a ++ b) = textFrom i a ++ textFrom (i + a.length) b := by
  induction a generalizing i with
  | nil => rfl
  | cons x a ih =>
    rw [List.cons_append, textFrom, textFrom, ih, List.append_assoc, List.length_cons,
      Nat.add_right_comm, Nat.add_assoc]

theorem dumpText_concat (bs : List Byte) (b : Byte) :
    dumpText (bs ++ [b]) = dumpText bs ++ piece bs.length b := by
  unfold dumpText
  rw [textFrom_append, Nat.zero_add, textFrom, textFrom, List.append_nil]

theorem groupText_length (b : Byte) : (groupText b).length = 3 := by
  unfold groupText
  rw [List.length_append, printHex_length (by decide) b.toNat_lt]
  rfl

theorem labelText_length {i : Nat} (hi : i < 65536) : (labelText i).length = 10 := by
  unfold labelText
  rw [List.length_append, List.length_append, printHex_length (by decide) hi]
  rfl

theorem gapText_length (i : Nat) : (gapText i).length ≤ 2 := by
  unfold gapText
  split
  · decide
  · decide

theorem lineText_length {i : Nat} (hi : i < 65536) : (lineText i).length ≤ 11 := by
  unfold lineText
  split
  · rw [List.length_append, labelText_length hi]
    split
    · decide
    · decide
  · decide

theorem piece_length (i : Nat) (b : Byte) :
    (piece i b).length = (gapText i).length + (lineText i).length + 3 := by
  unfold piece
  rw [List.length_append, List.length_append, groupText_length]

/-- Every byte takes at least three characters. -/
theorem dumpText_length (bs : List Byte) : 3 * bs.length ≤ (dumpText bs).length := by
  induction bs using List.reverseRecOn with
  | nil => exact Nat.le_refl 0
  | append_singleton bs b ih =>
    rw [List.length_append, List.length_singleton, dumpText_concat, List.length_append,
      piece_length]
    omega

/-! What a text consists of. -/

/-- No line feed and no NUL. -/
def Inline (s : List Byte) : Prop := (10 : Byte) ∉ s ∧ NulFree s

theorem inline_append {s t : List Byte} (hs : Inline s) (ht : Inline t) : Inline (s ++ t) :=
  ⟨fun h => (List.mem_append.mp h).elim hs.1 ht.1, nulFree_append.mpr ⟨hs.2, ht.2⟩⟩

theorem inline_printHex {w n : Nat} (hw : 0 < w) (hn : n < 16 ^ w) : Inline (printHex w n) := by
  constructor
  · intro h
    obtain ⟨d, hd, he⟩ := mem_printHex hw hn h
    exact (digit_ne hd).2.1 he.symm
  · intro h
    obtain ⟨d, hd, he⟩ := mem_printHex hw hn h
    exact (digit_ne hd).2.2 he.symm

theorem inline_labelText {i : Nat} (hi : i < 65536) : Inline (labelText i) :=
  inline_append (inline_append ⟨by decide, by decide⟩ (inline_printHex (by decide) hi))
    ⟨by decide, by decide⟩

theorem inline_groupText (b : Byte) : Inline (groupText b) :=
  inline_append (inline_printHex (by decide) b.toNat_lt) ⟨by decide, by decide⟩

theorem piece_nulFree {i : Nat} (hi : i < 65536) (b : Byte) : NulFree (piece i b) := by
  unfold piece gapText lineText
  refine nulFree_append.mpr ⟨nulFree_append.mpr ⟨?_, ?_⟩, (inline_groupText b).2⟩
  · split
    · decide
    · decide
  · split
    · refine nulFree_append.mpr ⟨?_, (inline_labelText hi).2⟩
      split
      · decide
      · decide
    · decide

theorem dumpText_nulFree {bs : List Byte} (h : bs.length ≤ 65536) : NulFree (dumpText bs) := by
  induction bs using List.reverseRecOn with
  | nil => exact List.not_mem_nil
  | append_singleton bs b ih =>
    rw [List.length_append, List.length_singleton] at h
    rw [dumpText_concat]
    exact nulFree_append.mpr ⟨ih (by omega), piece_nulFree (by omega) b⟩

/-! ## Reading a dump -/

/-- The bytes of groups of two digits, with any number of blanks between them. -/
def readGroups : List Byte → Option (List Byte)
  | [] => some []
  | [b] => if b = 32 then some [] else none
  | a :: b :: rest =>
      if a = 32 then readGroups (b :: rest)
      else do
        let value ← readHex [a, b]
        let bytes ← readGroups rest
        some (UInt8.ofNat value :: bytes)

/-- A line: a label of four digits and the groups behind it. -/
def readRow (line : List Byte) : Option (Nat × List Byte) :=
  if line.take 3 = lit ">> " ∧ (line.drop 7).take 3 = lit ":  " then do
    let offset ← readHex ((line.drop 3).take 4)
    let bytes ← readGroups (line.drop 10)
    some (offset, bytes)
  else none

/-- The rows of a dump, one a line. -/
def readDump (text : List Byte) : Option (List (Nat × List Byte)) :=
  (text.splitOn 10).mapM readRow

/-- `n` rows of sixteen bytes, the first with the number `r`. -/
def rows : Nat → Nat → List Byte → List (Nat × List Byte)
  | _, 0, _ => []
  | r, n + 1, bs => (16 * r, bs.take 16) :: rows (r + 1) n (bs.drop 16)

theorem rows_getElem? (r n : Nat) (bs : List Byte) (q : Nat) :
    (rows r n bs)[q]? =
      if q < n then some (16 * (r + q), (bs.drop (16 * q)).take 16) else none := by
  induction n generalizing r bs q with
  | zero => rfl
  | succ n ih =>
    cases q with
    | zero => rfl
    | succ q =>
      rw [rows, List.getElem?_cons_succ, ih, List.drop_drop, Nat.mul_succ, Nat.add_comm 16,
        Nat.add_right_comm r 1 q]
      simp only [Nat.add_lt_add_iff_right]
      rfl

/-- The rows hold the bytes in order. -/
theorem rows_bytes {r n : Nat} {bs : List Byte} (h : bs.length ≤ 16 * n) :
    (rows r n bs).flatMap Prod.snd = bs := by
  induction n generalizing r bs with
  | zero => exact (List.length_eq_zero_iff.mp (by omega)).symm
  | succ n ih =>
    rw [rows, List.flatMap_cons, ih (by rw [List.length_drop]; omega), List.take_append_drop]

/-! ### Groups -/

theorem readGroups_blank (t : List Byte) : readGroups (32 :: t) = readGroups t := by
  cases t with
  | nil => rfl
  | cons b t =>
    rw [readGroups, if_pos rfl]

theorem groupText_eq (b : Byte) :
    groupText b = [digit (b.toNat / 16), digit (b.toNat % 16), 32] := by
  have hb := b.toNat_lt
  unfold groupText
  rw [printHex_eq (by decide) hb, lastDigits, lastDigits, lastDigits,
    Nat.mod_eq_of_lt (show b.toNat / 16 < 16 by omega)]
  rfl

theorem readGroups_group (b : Byte) (t : List Byte) :
    readGroups (groupText b ++ t) = (readGroups t).map (b :: ·) := by
  have hb := b.toNat_lt
  have hvalue : readHex [digit (b.toNat / 16), digit (b.toNat % 16)] = some b.toNat := by
    have h := readHex_lastDigits (w := 2) hb
    rwa [lastDigits, lastDigits, lastDigits,
      Nat.mod_eq_of_lt (show b.toNat / 16 < 16 by omega)] at h
  have hblank : digit (b.toNat / 16) ≠ 32 := (digit_ne (by omega)).1
  rw [groupText_eq]
  show readGroups (digit (b.toNat / 16) :: digit (b.toNat % 16) :: 32 :: t) = _
  rw [readGroups, if_neg hblank, hvalue, readGroups_blank]
  cases readGroups t with
  | none => rfl
  | some bytes =>
    show some (UInt8.ofNat b.toNat :: bytes) = some (b :: bytes)
    rw [UInt8.ofNat_toNat]

/-- The groups of a line from its column `j` on. -/
def bodyText : Nat → List Byte → List Byte
  | _, [] => []
  | j, b :: bs => (if j = 8 then lit "  " else []) ++ groupText b ++ bodyText (j + 1) bs

theorem readGroups_body (j : Nat) (bs t : List Byte) :
    readGroups (bodyText j bs ++ t) = (readGroups t).map (bs ++ ·) := by
  induction bs generalizing j with
  | nil =>
    show readGroups t = _
    simp
  | cons b bs ih =>
    have hgap : ∀ x, readGroups ((if j = 8 then lit "  " else []) ++ x) = readGroups x := by
      intro x
      split
      · show readGroups (32 :: 32 :: x) = readGroups x
        rw [readGroups_blank, readGroups_blank]
      · rfl
    rw [bodyText, List.append_assoc, List.append_assoc, hgap, readGroups_group, ih]
    cases readGroups t with
    | none => rfl
    | some bytes => rfl

theorem inline_bodyText (j : Nat) (bs : List Byte) : Inline (bodyText j bs) := by
  induction bs generalizing j with
  | nil => exact ⟨List.not_mem_nil, List.not_mem_nil⟩
  | cons b bs ih =>
    refine inline_append (inline_append ?_ (inline_groupText b)) (ih (j + 1))
    split
    · exact ⟨by decide, by decide⟩
    · exact ⟨List.not_mem_nil, List.not_mem_nil⟩

/-! ### Lines -/

/-- A line with nothing but blanks behind its groups. -/
theorem readRow_line {i : Nat} (hi : i < 65536) (bs : List Byte) {t : List Byte}
    (ht : readGroups t = some []) :
    readRow (labelText i ++ bodyText 0 bs ++ t) = some (i, bs) := by
  have hnum : (printHex 4 i).length = 4 := printHex_length (by decide) hi
  have hline : labelText i ++ bodyText 0 bs ++ t =
      lit ">> " ++ (printHex 4 i ++ (lit ":  " ++ (bodyText 0 bs ++ t))) := by
    unfold labelText
    rw [List.append_assoc, List.append_assoc, List.append_assoc]
  have h3 : (labelText i ++ bodyText 0 bs ++ t).drop 3 =
      printHex 4 i ++ (lit ":  " ++ (bodyText 0 bs ++ t)) := by
    rw [hline]
    rfl
  have h7 : (labelText i ++ bodyText 0 bs ++ t).drop 7 = lit ":  " ++ (bodyText 0 bs ++ t) := by
    rw [show 7 = 3 + 4 from rfl, ← List.drop_drop, h3]
    exact List.drop_left' hnum
  have h10 : (labelText i ++ bodyText 0 bs ++ t).drop 10 = bodyText 0 bs ++ t := by
    rw [show 10 = 7 + 3 from rfl, ← List.drop_drop, h7]
    rfl
  have htake : (labelText i ++ bodyText 0 bs ++ t).take 3 = lit ">> " := by
    rw [hline]
    rfl
  unfold readRow
  rw [if_pos ⟨htake, by rw [h7]; rfl⟩, h3, List.take_left' hnum,
    readHex_printHex (by decide) hi, h10, readGroups_body, ht]
  show some (i, bs ++ []) = some (i, bs)
  rw [List.append_nil]

/-- The bytes of a line behind its first. -/
theorem textFrom_body {r j : Nat} {bs : List Byte} (hj : 0 < j) (hlen : j + bs.length ≤ 16) :
    textFrom (16 * r + j) bs = bodyText j bs := by
  induction bs generalizing j with
  | nil => rfl
  | cons b bs ih =>
    rw [List.length_cons] at hlen
    have hpiece : piece (16 * r + j) b = (if j = 8 then lit "  " else []) ++ groupText b := by
      unfold piece gapText lineText
      rw [if_neg (show ¬ (16 * r + j) % 16 = 0 by omega), List.append_nil]
      congr 1
      by_cases h8 : j = 8
      · rw [if_pos h8, if_pos (by omega)]
      · rw [if_neg h8, if_neg (by omega)]
    rw [textFrom, bodyText, hpiece, Nat.add_assoc, ih (Nat.succ_pos j) (by omega)]

/-- A line and what follows it. The text of the next line begins with two blanks, behind which the
    line ends. -/
theorem textFrom_line {r : Nat} {bs : List Byte} (h : bs ≠ []) :
    textFrom (16 * r) bs = (if r = 0 then [] else lit "  " ++ lit "\n") ++
      (labelText (16 * r) ++ bodyText 0 (bs.take 16) ++ textFrom (16 * (r + 1)) (bs.drop 16)) := by
  obtain ⟨b, bs, rfl⟩ := List.exists_cons_of_ne_nil h
  have hpiece : piece (16 * r) b = (if r = 0 then [] else lit "  " ++ lit "\n") ++
      (labelText (16 * r) ++ groupText b) := by
    unfold piece gapText lineText
    rw [if_pos (show 16 * r % 16 = 0 by omega)]
    by_cases h0 : r = 0
    · rw [if_pos h0, if_pos (show 16 * r = 0 by omega), if_neg (by omega)]
      rfl
    · rw [if_neg h0, if_neg (show ¬ 16 * r = 0 by omega), if_pos (by omega)]
      simp only [List.append_assoc]
  have hsplit : textFrom (16 * r + 1) bs =
      bodyText 1 (bs.take 15) ++ textFrom (16 * (r + 1)) (bs.drop 15) := by
    have hbody : textFrom (16 * r + 1) (bs.take 15) = bodyText 1 (bs.take 15) :=
      textFrom_body Nat.one_pos (by rw [List.length_take]; omega)
    rw [← hbody]
    rcases Nat.lt_or_ge bs.length 15 with hlt | hge
    · rw [List.take_of_length_le (by omega), List.drop_eq_nil_of_le (by omega), textFrom,
        List.append_nil]
    · rw [show 16 * (r + 1) = 16 * r + 1 + (bs.take 15).length by rw [List.length_take]; omega,
        ← textFrom_append, List.take_append_drop]
  rw [textFrom, hpiece, hsplit]
  show _ = (if r = 0 then [] else lit "  " ++ lit "\n") ++ (labelText (16 * r) ++
    ([] ++ groupText b ++ bodyText 1 (bs.take 15)) ++ textFrom (16 * (r + 1)) (bs.drop 15))
  simp only [List.append_assoc, List.nil_append]

/-! ### The dump -/

/-- By induction on the rows: a line is read as one row, and the lines behind it as the others. -/
theorem readDump_lines {n r : Nat} {bs : List Byte} (hne : bs ≠ []) (hle : bs.length ≤ 16 * n)
    (hlt : 16 * n < bs.length + 16) (hfit : 16 * (r + n) ≤ 65536) :
    readDump (labelText (16 * r) ++ bodyText 0 (bs.take 16) ++
      textFrom (16 * (r + 1)) (bs.drop 16)) = some (rows r n bs) := by
  induction n generalizing r bs with
  | zero => exact absurd (List.length_eq_zero_iff.mp (by omega)) hne
  | succ n ih =>
    have hr : 16 * r < 65536 := by omega
    have hin : Inline (labelText (16 * r) ++ bodyText 0 (bs.take 16)) :=
      inline_append (inline_labelText hr) (inline_bodyText 0 _)
    have hlen : (bs.drop 16).length = bs.length - 16 := List.length_drop
    unfold readDump
    by_cases hend : bs.drop 16 = []
    · have hn : n = 0 := by
        rw [hend, List.length_nil] at hlen
        omega
      have hrow := readRow_line hr (bs.take 16) (t := []) rfl
      rw [hend, textFrom, hn, List.append_nil, List.splitOn_eq_singleton hin.1, List.mapM_cons]
      rw [List.append_nil] at hrow
      rw [hrow]
      rfl
    · have hnext := List.length_pos_iff.mpr hend
      have hrow := readRow_line hr (bs.take 16) (t := lit "  ") rfl
      have hblanks : Inline (labelText (16 * r) ++ bodyText 0 (bs.take 16) ++ lit "  ") :=
        inline_append hin ⟨by decide, by decide⟩
      have hrest := @ih (r + 1) (bs.drop 16) hend (by omega) (by omega) (by omega)
      rw [textFrom_line hend, if_neg (Nat.succ_ne_zero r)]
      generalize labelText (16 * (r + 1)) ++ bodyText 0 ((bs.drop 16).take 16) ++
        textFrom (16 * (r + 1 + 1)) ((bs.drop 16).drop 16) = next at hrest ⊢
      unfold readDump at hrest
      show ((labelText (16 * r) ++ bodyText 0 (bs.take 16) ++
        (lit "  " ++ (10 :: next))).splitOn 10).mapM readRow = _
      rw [← List.append_assoc, List.splitOn_append_cons_self_of_not_mem hblanks.1, List.mapM_cons,
        hrow, hrest]
      rfl

/-- The number of rows of a dump. -/
def rowCount (bs : List Byte) : Nat := (bs.length + 15) / 16

/-- Round trip: a dump is read as the rows of the bytes. -/
theorem readDump_dumpText {bs : List Byte} (hne : bs ≠ []) (h : bs.length ≤ 65536) :
    readDump (dumpText bs) = some (rows 0 (rowCount bs) bs) := by
  have hline := textFrom_line (r := 0) hne
  rw [if_pos rfl, List.nil_append] at hline
  unfold dumpText
  show readDump (textFrom (16 * 0) bs) = _
  rw [hline]
  apply readDump_lines hne
  · unfold rowCount
    omega
  · unfold rowCount
    omega
  · unfold rowCount
    omega

/-- The two-digit groups of a dump are its bytes. -/
theorem readDump_bytes {bs : List Byte} (hne : bs ≠ []) (h : bs.length ≤ 65536) :
    (readDump (dumpText bs)).map (fun rs => rs.flatMap Prod.snd) = some bs := by
  rw [readDump_dumpText hne h]
  show some ((rows 0 (rowCount bs) bs).flatMap Prod.snd) = some bs
  rw [rows_bytes (by unfold rowCount; omega)]

/-- Different bytes have different dumps. -/
theorem dumpText_inj {a b : List Byte} (ha : a ≠ []) (hb : b ≠ []) (hla : a.length ≤ 65536)
    (hlb : b.length ≤ 65536) (h : dumpText a = dumpText b) : a = b := by
  have hread := readDump_bytes ha hla
  rw [h, readDump_bytes hb hlb] at hread
  exact (Option.some.inj hread).symm

end Grnvs.Hexdump
