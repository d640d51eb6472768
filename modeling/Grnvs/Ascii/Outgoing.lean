/-
  The sending half of the client, for messages of every length.

  Up to 4089 bytes a message goes out as its netstring, exactly (`sendMessage_exact`). The length
  test of `writeNet` leaves room for the digits alone: a message of 4090 or 4091 bytes is written
  past the end of the array, and a longer one, which the test refuses, past it by the `write` that
  follows (`sendMessage_overflows`). So the two arguments of the client must not be longer than
  4087 bytes (`contained_iff`).
-/
import Grnvs.Ascii.Arguments
import Grnvs.Ascii.Steps

namespace Grnvs.Ascii

open Bytes Decimal Netstring

/-! ## A client that sends -/

/-- The client in front of a send: its two arrays have their size, and the arguments are where
    `main` has left them. -/
structure Called (input : Input) (w : World) : Prop where
  text : (w.mem .text).length = BUFSIZE
  sendbuf : (w.mem .sendbuf).length = BUFSIZE
  nick : w.mem .nick = input.nick
  msg : w.mem .msg = input.msg

/-- A client that has sent nothing yet. -/
def atSend (input : Input) : World where
  mem := fun
    | .nick => input.nick
    | .msg => input.msg
    | .text | .sendbuf => zeros BUFSIZE
    | _ => []
  net := fun _ => ⟨[], .eof⟩
  log := []
  order := .after

theorem atSend_called (input : Input) : Called input (atSend input) where
  text := zeros_length _
  sendbuf := zeros_length _
  nick := rfl
  msg := rfl

/-- `asciiclient nick ::1 -m msg` -/
def commandLine (nick msg : CString) : List Key := [.arg nick, .arg ⟨lit "::1", by decide⟩, .message msg]

theorem main_commandLine (nick msg : CString) (opened : CString → Opened) :
    main opened (commandLine nick msg) = some ⟨nick.bytes ++ [0], msg.bytes ++ [0]⟩ := rfl

/-! ## Messages that fit -/

section Fit

variable [Libc] {w : World} {a : Arr} {src : Ptr} {m : List Byte}

/-- The test, the text and the length that is returned agree: the text is the netstring, the
    returned length is one less, and nothing else is written. `w.order` is either order. -/
theorem sendMessage_exact (fd : Fd) (hm : IsStr w src m) (hsrc : src.blk ≠ .arr a)
    (ha : (w.mem a).length = BUFSIZE) (hlen : m.length ≤ 4089) :
    ∃ n w1 w2, (writeNet a.ptr BUFSIZE src).run w = (.ok n, w1) ∧
      countDigits m.length = (dec m.length).length ∧ n + 1 = (enc m).length ∧ n + 1 < BUFSIZE ∧
      (sendMessage fd src a.ptr).run w = (.ok (), w2) ∧
      w2.log = w.log ++ [.write fd (dec m.length ++ lit ":" ++ m ++ lit ",")] ∧
      ∀ b, b ≠ a → w2.mem b = w.mem b := by
  have hd4 : (dec m.length).length ≤ 4 := dec_length_le (by decide) (by omega)
  have hl := enc_length m
  have hB : BUFSIZE = 4096 := rfl
  have henc : enc m = dec m.length ++ lit ":" ++ m ++ lit "," := by
    rw [show lit ":" = [colon] from by decide, show lit "," = [comma] from by decide]
    simp [enc]
  refine ⟨_, _, _, writeNet_run hm hsrc ha hlen, countDigits_eq _, by omega, by omega,
    sendMessage_run fd hm hsrc ha hlen, ?_, ?_⟩
  · rw [World.note_log, World.setArr_log, henc]
  · intro b hb
    rw [World.note_mem, World.setArr_mem_of_ne _ _ hb]

end Fit

section Bytewise

attribute [local instance] Libc.bytewise

theorem sendMessage_exact_hi :
    ∃ n w1 w2, (writeNet Arr.sendbuf.ptr BUFSIZE Arr.msg.ptr).run
        (atSend ⟨lit "moe" ++ [0], lit "hi" ++ [0]⟩) = (.ok n, w1) ∧
      countDigits (lit "hi").length = (dec (lit "hi").length).length ∧
      n + 1 = (enc (lit "hi")).length ∧ n + 1 < BUFSIZE ∧
      (sendMessage .control Arr.msg.ptr Arr.sendbuf.ptr).run
        (atSend ⟨lit "moe" ++ [0], lit "hi" ++ [0]⟩) = (.ok (), w2) ∧
      w2.log = [] ++ [.write .control (dec (lit "hi").length ++ lit ":" ++ lit "hi" ++ lit ",")] ∧
      ∀ b, b ≠ .sendbuf →
        w2.mem b = (atSend ⟨lit "moe" ++ [0], lit "hi" ++ [0]⟩).mem b :=
  sendMessage_exact .control (cstr_terminated (by decide) []) (by decide) (zeros_length _)
    (by decide)

end Bytewise

/-! ## Messages that do not fit -/

theorem countDigits_four {len : Nat} (h1 : 1000 ≤ len) (h2 : len < 10000) : countDigits len = 4 := by
  unfold countDigits
  rw [if_neg (by omega), countDigits, if_neg (by omega), countDigits, if_neg (by omega),
    countDigits, if_pos (by omega)]

/-- What the length test compares with, for lengths of four digits. -/
theorem writeNet_bound {len : Nat} (h1 : 1000 ≤ len) (h2 : len < 10000) (o : EvalOrder) :
    subSize BUFSIZE (digitsSeen o BUFSIZE len) = 4092 := by
  have hB : BUFSIZE = 4096 := rfl
  have hd : digitsSeen o BUFSIZE len = 4 := by
    cases o with
    | before => exact countDigits_four (by omega) (by omega)
    | after => exact countDigits_four h1 h2
  rw [hd]
  decide

section Overflow

variable [Libc] {w : World} {a : Arr} {src : Ptr} {s t : List Byte}

theorem strcpy_overflows {off : Nat} (hs : IsStr w src s)
    (h : (w.mem a).length ≤ off + s.length) :
    (strcpy ⟨.arr a, off⟩ src).run w = (.error .undefined, w) := by
  unfold strcpy
  rw [Comp.bind_ok (strAt_run hs), copy_undefined (by
    rw [List.length_append, List.length_singleton]
    omega)]

theorem strcat_overflows (ht : IsStr w a.ptr t) (hs : IsStr w src s)
    (h : (w.mem a).length ≤ t.length + s.length) :
    (strcat a.ptr src).run w = (.error .undefined, w) := by
  unfold strcat
  rw [Comp.bind_ok (strlen_run ht), Arr.ptr_add, strcpy_overflows hs h]

/-- The comma of a message of 4090 or 4091 bytes has no room, or the message itself has none. -/
theorem writeNet_overflows (hs : IsStr w src s) (hsrc : src.blk ≠ .arr a)
    (ha : (w.mem a).length = BUFSIZE) (h1 : 4090 ≤ s.length) (h2 : s.length < 4092) :
    ∃ w', (writeNet a.ptr BUFSIZE src).run w = (.error .undefined, w') ∧ w'.log = w.log := by
  have hB : BUFSIZE = 4096 := rfl
  have hd : (dec s.length).length = 4 := by
    rw [← countDigits_eq, countDigits_four (by omega) (by omega)]
  have hs1 : IsStr (w.setArr a (clean [])) src s := (isStr_setArr hsrc).mpr hs
  have hn : NulFree (dec s.length ++ [colon]) := nulFree_append.mpr ⟨dec_nulFree _, by decide⟩
  have hhead : (dec s.length ++ [colon]).length = 5 := by
    rw [List.length_append, hd, List.length_singleton]
  have hs2 : IsStr (w.setArr a (clean (dec s.length ++ [colon]))) src s :=
    (isStr_setArr hsrc).mpr hs
  have hat : IsStr (w.setArr a (clean (dec s.length ++ [colon]))) a.ptr (dec s.length ++ [colon]) :=
    isStr_clean (World.setArr_mem ..) hn (by omega)
  unfold writeNet
  rw [Comp.bind_ok (memset_run ha), Comp.bind_ok (strlen_run hs1), Comp.gets_bind,
    if_pos (by rw [writeNet_bound (by omega) (by omega)]; exact h2),
    Comp.bind_ok (store_clean (by omega))]
  rcases Nat.lt_or_ge s.length 4091 with hlt | hge
  · have hall : (dec s.length ++ [colon] ++ s).length = 4095 := by
      rw [List.length_append, hhead]
      omega
    have hat2 : IsStr (w.setArr a (clean (dec s.length ++ [colon] ++ s))) a.ptr
        (dec s.length ++ [colon] ++ s) :=
      isStr_clean (World.setArr_mem ..) (nulFree_append.mpr ⟨hn, hs.nulFree⟩) (by omega)
    have hcomma : (lit ",").length = 1 := by decide
    rw [Comp.bind_ok (strcat_clean hn hs hsrc (by omega)),
      Comp.bind_error (strcat_overflows hat2 (isStr_lit (by decide)) (by
        rw [World.setArr_mem, clean_length (by omega)]
        omega))]
    exact ⟨_, rfl, rfl⟩
  · rw [Comp.bind_error (strcat_overflows hat hs2 (by
      rw [World.setArr_mem, clean_length (by omega)]
      omega))]
    exact ⟨_, rfl, rfl⟩

/-- A longer message is refused, but its length is returned. -/
theorem writeNet_refuses (hs : IsStr w src s) (hsrc : src.blk ≠ .arr a)
    (ha : (w.mem a).length = BUFSIZE) (h1 : 4092 ≤ s.length) (h2 : s.length < 10000) :
    (writeNet a.ptr BUFSIZE src).run w = (.ok (s.length + 5), w.setArr a (clean (lit "0:"))) := by
  have hB : BUFSIZE = 4096 := rfl
  have hlit : (lit "0:").length = 2 := by decide
  have hs1 : IsStr (w.setArr a (clean [])) src s := (isStr_setArr hsrc).mpr hs
  unfold writeNet
  rw [Comp.bind_ok (memset_run ha), Comp.bind_ok (strlen_run hs1), Comp.gets_bind,
    if_neg (by rw [writeNet_bound (by omega) (by omega)]; omega),
    Comp.bind_ok (store_clean (by omega)), countDigits_four (by omega) h2]
  rfl

/-- No message of more than 4089 bytes stays inside the array. -/
theorem sendMessage_overflows (fd : Fd) (hs : IsStr w src s) (hsrc : src.blk ≠ .arr a)
    (ha : (w.mem a).length = BUFSIZE) (h1 : 4090 ≤ s.length) (h2 : s.length < 10000) :
    ∃ w', (sendMessage fd src a.ptr).run w = (.error .undefined, w') := by
  have hB : BUFSIZE = 4096 := rfl
  have hlit : (lit "0:").length = 2 := by decide
  unfold sendMessage
  rcases Nat.lt_or_ge s.length 4092 with hlt | hge
  · obtain ⟨w', hr, -⟩ := writeNet_overflows hs hsrc ha h1 hlt
    exact ⟨w', Comp.bind_error hr⟩
  · rw [Comp.bind_ok (writeNet_refuses hs hsrc ha hge h2), writeFd, Comp.gets_bind]
    simp only [Arr.ptr_blk, Arr.ptr_off, World.block_arr, World.setArr_mem, List.drop_zero]
    rw [if_neg (by rw [clean_length (by omega)]; omega)]
    exact ⟨_, rfl⟩

/-- Neither does a text built of two parts. -/
theorem sendText_overflows (fd : Fd) (head : String) (hhead : NulFree (lit head))
    (ht : IsStr w src t) (hsrc : src.blk ≠ .arr .text) (htext : (w.mem .text).length = BUFSIZE)
    (hsend : (w.mem .sendbuf).length = BUFSIZE) (hshort : (lit head).length < BUFSIZE)
    (hlen : 4090 ≤ (lit head).length + t.length) :
    ∃ w', (sendText fd head src).run w = (.error .undefined, w') := by
  have hB : BUFSIZE = 4096 := rfl
  rcases Nat.lt_or_ge ((lit head).length + t.length) BUFSIZE with hlt | hge
  · obtain ⟨l, hr, hl, hcs⟩ := text_run _ hhead ht hsrc htext hlt
      (fun _ => sendMessage fd Arr.text.ptr Arr.sendbuf.ptr)
    have hs : IsStr (w.setArr .text l) Arr.text.ptr (lit head ++ t) := by simpa [IsStr] using hcs
    obtain ⟨w', hr'⟩ := sendMessage_overflows fd (a := .sendbuf) hs (by decide)
      (by rw [World.setArr_mem_of_ne _ _ (by decide)]; exact hsend)
      (by rw [List.length_append]; exact hlen) (by rw [List.length_append]; omega)
    refine ⟨w', ?_⟩
    unfold sendText
    rw [hr, hr']
  · obtain ⟨l, hr, hl, hc⟩ :=
      strcpy_start (w := w) (a := .text) (isStr_lit hhead) (litPtr_apart _ _) (by omega)
    have hs : IsStr (w.setArr .text l) Arr.text.ptr (lit head) := by simpa [IsStr] using hc
    have ht' : IsStr (w.setArr .text l) src t := (isStr_setArr hsrc).mpr ht
    refine ⟨w.setArr .text l, ?_⟩
    unfold sendText
    rw [Comp.bind_ok hr, Comp.bind_error (strcat_overflows hs ht' (by
      rw [World.setArr_mem, hl, htext]
      exact hge))]

end Overflow

/-! ## Every user input -/

/-- A text is built and sent inside the two arrays: the call returns, and on the wire is the whole
    netstring of the text, or nothing. -/
def Kept [Libc] (fd : Fd) (head : String) (src : Ptr) (s : List Byte) (w : World) : Prop :=
  ∃ w', (sendText fd head src).run w = (.ok (), w') ∧
    (writes w'.log = writes w.log ++ [(fd, enc (lit head ++ s))] ∨ writes w'.log = writes w.log)

/-- The three messages that are made of the arguments. -/
structure Contained [Libc] (nick msg : List Byte) (w : World) : Prop where
  nickControl : Kept .control "C " Arr.nick.ptr nick w
  nickData : Kept .data "D " Arr.nick.ptr nick w
  msgData : Kept .data "D " Arr.msg.ptr msg w

section Input

variable [Libc] {input : Input} {w : World} {src : Ptr} {s : List Byte}

/-- One message: the longest that is kept has two bytes less than the longest netstring. -/
theorem kept_iff (hw : Called input w) (fd : Fd) {head : String} (hhead : NulFree (lit head))
    (hlen : (lit head).length = 2) (hs : IsStr w src s) (hsrc : src.blk ≠ .arr .text) :
    Kept fd head src s w ↔ s.length ≤ 4087 := by
  have hB : BUFSIZE = 4096 := rfl
  constructor
  · rintro ⟨w', hr, -⟩
    by_contra hlong
    obtain ⟨w'', hr'⟩ := sendText_overflows fd head hhead hs hsrc hw.text hw.sendbuf (by omega)
      (by omega)
    rw [hr] at hr'
    cases hr'
  · intro hshort
    obtain ⟨l, hr, hl, hcs⟩ := text_run head hhead hs hsrc hw.text (by omega)
      (fun _ => sendMessage fd Arr.text.ptr Arr.sendbuf.ptr)
    have htext : IsStr (w.setArr .text l) Arr.text.ptr (lit head ++ s) := by
      simpa [IsStr] using hcs
    obtain ⟨w', hr', hsent⟩ := sendMessage_sent fd Arr.text.ptr htext (by decide)
      (by rw [World.setArr_mem_of_ne _ _ (by decide)]; exact hw.sendbuf)
      (by rw [List.length_append]; omega)
    refine ⟨w', ?_, .inl hsent.writes⟩
    unfold sendText
    rw [hr, hr']

/-- For everything `main` accepts, the sends stay inside the arrays just for a nick and a message of
    at most 4087 bytes. -/
theorem contained_iff {opened : CString → Opened} {keys : List Key}
    (hmain : main opened keys = some input) (hw : Called input w) :
    ∃ nick msg, cstr input.nick = some nick ∧ cstr input.msg = some msg ∧
      (Contained nick msg w ↔ nick.length ≤ 4087 ∧ msg.length ≤ 4087) := by
  obtain ⟨⟨nick, hn⟩, msg, hm⟩ := main_cstr hmain
  have hC : (lit "C ").length = 2 := by decide
  have hD : (lit "D ").length = 2 := by decide
  have hnick : IsStr w Arr.nick.ptr nick := by
    rw [IsStr, Arr.ptr_blk, World.block_arr, Arr.ptr_off, List.drop_zero, hw.nick, hn]
  have hmsg : IsStr w Arr.msg.ptr msg := by
    rw [IsStr, Arr.ptr_blk, World.block_arr, Arr.ptr_off, List.drop_zero, hw.msg, hm]
  refine ⟨nick, msg, hn, hm, ?_, ?_⟩
  · intro h
    exact ⟨(kept_iff hw .control (by decide) hC hnick (by decide)).mp h.nickControl,
      (kept_iff hw .data (by decide) hD hmsg (by decide)).mp h.msgData⟩
  · rintro ⟨h1, h2⟩
    exact ⟨(kept_iff hw .control (by decide) hC hnick (by decide)).mpr h1,
      (kept_iff hw .data (by decide) hD hnick (by decide)).mpr h1,
      (kept_iff hw .data (by decide) hD hmsg (by decide)).mpr h2⟩

end Input

section Bytewise

attribute [local instance] Libc.bytewise

theorem contained_iff_hi :
    ∃ nick msg, cstr (lit "moe" ++ [0]) = some nick ∧ cstr (lit "hi" ++ [0]) = some msg ∧
      (Contained nick msg (atSend ⟨lit "moe" ++ [0], lit "hi" ++ [0]⟩) ↔
        nick.length ≤ 4087 ∧ msg.length ≤ 4087) :=
  contained_iff (main_commandLine ⟨lit "moe", by decide⟩ ⟨lit "hi", by decide⟩ fun _ => .notOpened)
    (atSend_called _)

/-- A nick of 4088 bytes: its comma is written behind the array. -/
theorem longNick_not_contained :
    ∃ nick : CString, nick.bytes.length = 4088 ∧
      main (fun _ => .notOpened) (commandLine nick ⟨lit "hi", by decide⟩) =
        some ⟨nick.bytes ++ [0], lit "hi" ++ [0]⟩ ∧
      Called ⟨nick.bytes ++ [0], lit "hi" ++ [0]⟩ (atSend ⟨nick.bytes ++ [0], lit "hi" ++ [0]⟩) ∧
      ¬ Contained nick.bytes (lit "hi") (atSend ⟨nick.bytes ++ [0], lit "hi" ++ [0]⟩) := by
  have hfree : NulFree (List.replicate 4088 (97 : Byte)) := fun h =>
    absurd (List.eq_of_mem_replicate h) (by decide)
  refine ⟨⟨List.replicate 4088 97, hfree⟩, List.length_replicate, rfl, atSend_called _, ?_⟩
  intro h
  have hs : IsStr (atSend ⟨List.replicate 4088 97 ++ [0], lit "hi" ++ [0]⟩) Arr.nick.ptr
      (List.replicate 4088 97) := cstr_terminated hfree []
  have hle := (kept_iff (atSend_called _) .control (by decide) (by decide) hs (by decide)).mp
    h.nickControl
  rw [List.length_replicate] at hle
  omega

end Bytewise

end Grnvs.Ascii
