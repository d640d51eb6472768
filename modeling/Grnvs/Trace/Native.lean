/-
  `GRNVS_RAW.c`: the native methods behind `GRNVS_RAW`, over the socket module.

  `GRNVS_RAW.read` takes an answer from a list; here it is `grnvs_read` that answers, through a
  buffer of 1514 bytes that is cleared before. Every call that hands something to Java is one of the
  abstract calls (`read_refined`), so what holds of a run with all answers holds of the native code.
  The only other end is an exception, which takes a signal during the first wait.
-/
import Grnvs.Raw.Session
import Grnvs.Stats.Interrupted
import Grnvs.Trace.Run

namespace Grnvs.Trace

open Bytes

/-! ## Strings -/

/-- Three bytes for a character of 16 bits. -/
def threeBytes (n : Nat) : List Byte :=
  [UInt8.ofNat (0xE0 + n / 4096), UInt8.ofNat (0x80 + n / 64 % 64), UInt8.ofNat (0x80 + n % 64)]

/-- A character in modified UTF-8: NUL takes two bytes, a character outside the 16 bits the three
    bytes of each of its surrogates. -/
def modifiedUtf8 (c : Char) : List Byte :=
  let n := c.toNat
  if n = 0 then [0xC0, 0x80]
  else if n < 0x80 then [UInt8.ofNat n]
  else if n < 0x800 then [UInt8.ofNat (0xC0 + n / 64), UInt8.ofNat (0x80 + n % 64)]
  else if n < 0x10000 then threeBytes n
  else
    threeBytes (0xD800 + (n - 0x10000) / 1024) ++ threeBytes (0xDC00 + (n - 0x10000) % 1024)

theorem ofNat_ne_zero {n : Nat} (h0 : 0 < n) (h : n < 256) : UInt8.ofNat n ≠ 0 := by
  intro he
  have hn := congrArg UInt8.toNat he
  rw [UInt8.toNat_ofNat'] at hn
  change n % 256 = 0 at hn
  omega

theorem threeBytes_nulFree {n : Nat} (h : n < 65536) : NulFree (threeBytes n) := by
  intro hmem
  simp only [threeBytes, List.mem_cons, List.not_mem_nil, or_false] at hmem
  obtain h0 | h0 | h0 := hmem
  · exact ofNat_ne_zero (by omega) (by omega) h0.symm
  · exact ofNat_ne_zero (by omega) (by omega) h0.symm
  · exact ofNat_ne_zero (by omega) (by omega) h0.symm

theorem modifiedUtf8_nulFree (c : Char) : NulFree (modifiedUtf8 c) := by
  have hmax : c.toNat < 0x110000 := by
    have := c.valid
    simp only [UInt32.isValidChar, Nat.isValidChar] at this
    show c.val.toNat < 0x110000
    omega
  unfold modifiedUtf8
  dsimp only
  generalize c.toNat = n at hmax
  by_cases h0 : n = 0
  · rw [if_pos h0]
    decide
  rw [if_neg h0]
  by_cases h1 : n < 0x80
  · rw [if_pos h1]
    intro hmem
    exact ofNat_ne_zero (by omega) (by omega) (List.mem_singleton.mp hmem).symm
  rw [if_neg h1]
  by_cases h2 : n < 0x800
  · rw [if_pos h2]
    intro hmem
    simp only [List.mem_cons, List.not_mem_nil, or_false] at hmem
    obtain h | h := hmem
    · exact ofNat_ne_zero (by omega) (by omega) h.symm
    · exact ofNat_ne_zero (by omega) (by omega) h.symm
  rw [if_neg h2]
  by_cases h3 : n < 0x10000
  · rw [if_pos h3]
    exact threeBytes_nulFree h3
  · rw [if_neg h3]
    exact nulFree_append.mpr ⟨threeBytes_nulFree (by omega), threeBytes_nulFree (by omega)⟩

/-- `GetStringUTFChars` -/
def getStringUTFChars (s : String) : CString where
  bytes := s.toList.flatMap modifiedUtf8
  nulFree := by
    intro hmem
    obtain ⟨c, -, hc⟩ := List.mem_flatMap.mp hmem
    exact modifiedUtf8_nulFree c hc

/-! ## Native methods -/

/-- `Java_GRNVS_1RAW_getSocket`; a negative descriptor leaves an exception behind. -/
def getSocket (dev : String) (level : Int) : Raw.Run (Int × Bool) := do
  let sock ← Raw.grnvs_open (getStringUTFChars dev) level
  pure (sock, decide (sock < 0))

/-- `Java_GRNVS_1RAW_write_1`. The array on the stack holds anything before; an exception of
    `GetByteArrayRegion` does not stop the call. -/
def write_ (fuel : Nat) (stack : List Byte) (fd : Int) (buffer : List Byte) (length : Int) :
    Raw.Run Int := do
  let buf ←
    match getByteArrayRegion buffer 0 length 1514 with
    | .ok region => pure (splice stack 0 region)
    | .error .arrayCopy => pure stack
    | .error _ => Comp.stop .undefined
  if length < 0 then Comp.stop .undefined
  else do
    let ret ← Raw.grnvs_write fuel fd buf length.toNat
    pure (int32 ret)

/-- `SetByteArrayRegion` from the start of an array. -/
def setByteArrayRegion (array : List Byte) (length : Int) (buf : List Byte) :
    Except Stop (Int × List Byte) :=
  if 0 ≤ length ∧ length ≤ array.length then
    .ok (length, splice array 0 (buf.take length.toNat))
  else .error (.arrayIndex length)

/-- `Java_GRNVS_1RAW_read_1` with a `Timeout`: the milliseconds it sets, and what it hands to Java.
    An `int` is passed where an `unsigned int` is expected. -/
def read_ (fuel : Nat) (buffer : List Byte) (time : Int) :
    Raw.Run (Int × Except Stop (Int × List Byte)) := do
  Comp.modify fun w => { w with reader := { w.reader with recbuffer := zeros 1514 } }
  let (len, left) ← Raw.grnvs_read fuel (min 1514 buffer.length) (some (Stats.unsigned time))
  let buf ← Comp.gets fun w => w.reader.recbuffer
  pure (int32 (left.getD 0), setByteArrayRegion buffer (int32 len) buf)

def close_ (fd : Int) : Raw.Run Int := Raw.grnvs_close fd

/-- There is no test for a null pointer here. -/
def ip6_ : Raw.Run (List Byte) := do
  match ← Comp.gets fun w => Raw.grnvs_get_ip6addr w.statics with
  | none => Comp.stop .undefined
  | some ip => pure ip

/-! ## Reading -/

section Read

variable {maxlen : Nat} {s s' : Stats.World} {time time' : Option Stats.Timespec} {len : Int}
  {es : List Nat} {en : Stats.Ending}

/-- The bytes of a course that delivers some. -/
theorem course_delivered (h : Stats.Course maxlen s time len es en s' time') {bs : List Byte}
    (hen : en = .delivered bs) :
    ∃ there, s.reads < s'.reads ∧ s'.kernel.read (s'.reads - 1) = .bytes there ∧
      bs = there.take maxlen ∧ s'.recbuffer = splice s.recbuffer 0 bs := by
  induction h with
  | timedOut _ | cut _ _ | waitFailed _ | readFailed _ _ => cases hen
  | delivered _ hread =>
    cases hen
    exact ⟨_, Nat.lt_succ_self _, hread, rfl, rfl⟩
  | waitAgain _ _ _ ih => exact ih hen
  | readAgain _ _ _ ih =>
    obtain ⟨there, hlt, hrest⟩ := ih hen
    exact ⟨there, Nat.lt_of_succ_lt hlt, hrest⟩

theorem course_cut_nonneg (h : Stats.Course maxlen s time len es en s' time') {v : Int}
    (hen : en = .cut v) : 0 ≤ len := by
  induction h with
  | timedOut _ | delivered _ _ | waitFailed _ | readFailed _ _ => cases hen
  | cut _ hlen => exact hlen
  | waitAgain _ _ _ ih => exact ih hen
  | readAgain _ _ _ ih => exact absurd (ih hen) (by decide)

/-- Only the first wait can be cut short: with a `len` that is not negative, nothing follows it. -/
theorem course_cut (h : Stats.Course maxlen s time len es en s' time') {v : Int}
    (hen : en = .cut v) : s'.recbuffer = s.recbuffer ∧
      (s.kernel.select s.selects time).2 = .failed .eintr := by
  have hlen : 0 ≤ len := course_cut_nonneg h hen
  cases h with
  | timedOut _ | delivered _ _ | waitFailed _ | readFailed _ _ => cases hen
  | cut hsel _ => exact ⟨rfl, by rw [hsel]⟩
  | waitAgain _ hneg _ => omega
  | readAgain _ _ hc =>
    have := course_cut_nonneg hc hen
    omega

end Read

section Refined

variable {fuel : Nat} {buffer : List Byte} {time t' : Int} {w w' : Raw.World}
  {r : Except Stop (Int × List Byte)}

/-- The world in which `read_` has cleared its buffer. -/
def wiped (w : Raw.World) : Raw.World :=
  { w with reader := { w.reader with recbuffer := zeros 1514 } }

/-- The first wait of a read in `w` is interrupted. -/
def Cut (w : Raw.World) (time : Int) : Prop :=
  (w.reader.kernel.select w.reader.selects
    (some (Stats.timespecmset (Stats.unsigned time)))).2 = .failed .eintr

/-- A call of `grnvs_read` behind `read_` that returns. -/
theorem read_native (hb : buffer.length = 1514)
    (h : (read_ fuel buffer time).run w = (.ok (t', r), w')) :
    ∃ len left s', (Stats.grnvs_read fuel 1514 (some (Stats.unsigned time))).run (wiped w).device =
        (.ok (len, left), s') ∧ w' = { w with reader := s' } ∧ t' = int32 (left.getD 0) ∧
      r = setByteArrayRegion buffer (int32 len) s'.recbuffer := by
  unfold read_ at h
  rw [Comp.modify_bind, hb] at h
  obtain ⟨⟨len, left⟩, w₁, hrun, h⟩ := Comp.bind_eq_ok h
  obtain ⟨hresult, hw₁⟩ := Prod.mk.inj hrun
  rw [Comp.gets_bind] at h
  obtain ⟨hvalue, hw'⟩ := Prod.mk.inj h
  obtain ⟨htime, hr⟩ := Prod.mk.inj (Except.ok.inj hvalue)
  refine ⟨len, left, _, Prod.ext hresult rfl, ?_, htime.symm, ?_⟩
  · rw [← hw', ← hw₁]
    rfl
  · rw [← hr, ← hw₁]
    rfl

/-- The result of `grnvs_read` is enough to know how `read_` ends. -/
theorem read_run {len : Int} {left : Option Nat} (hb : buffer.length = 1514)
    (h : ((Stats.grnvs_read fuel 1514 (some (Stats.unsigned time))).run (wiped w).device).1 =
      .ok (len, left)) :
    ∃ s', (read_ fuel buffer time).run w =
      (.ok (int32 (left.getD 0), setByteArrayRegion buffer (int32 len) s'.recbuffer),
        { w with reader := s' }) := by
  let s' := ((Stats.grnvs_read fuel 1514 (some (Stats.unsigned time))).run (wiped w).device).2
  have hrun : (Raw.grnvs_read fuel 1514 (some (Stats.unsigned time))).run (wiped w) =
      (.ok (len, left), { wiped w with reader := s' }) := Prod.ext h rfl
  refine ⟨s', ?_⟩
  unfold read_
  rw [Comp.modify_bind, hb, Nat.min_self, ← wiped, Comp.bind_ok hrun]
  rfl

/-- A returned length with its bytes at the front of the buffer. -/
theorem setByteArrayRegion_ok (hb : buffer.length = 1514) (bs : List Byte) {buf : List Byte}
    (hle : bs.length ≤ 1514) (hbuf : buf.take bs.length = bs) :
    setByteArrayRegion buffer (int32 bs.length) buf = .ok (bs.length, splice buffer 0 bs) := by
  rw [int32_of_range (by omega) (by omega), setByteArrayRegion, if_pos (by omega),
    Int.toNat_natCast, hbuf]

/-- A first wait that is cut short copies zeros, or throws. -/
theorem setByteArrayRegion_cut (hb : buffer.length = 1514) (n : Int) {buf : List Byte}
    (hbuf : buf = zeros 1514) :
    (∃ bs, bs.length ≤ 1514 ∧ setByteArrayRegion buffer n buf =
        .ok (bs.length, splice buffer 0 bs)) ∨
      setByteArrayRegion buffer n buf = .error (.arrayIndex n) := by
  by_cases hle : 0 ≤ n ∧ n ≤ 1514
  · left
    obtain ⟨k, rfl⟩ := Int.eq_ofNat_of_zero_le hle.1
    have hk : (buf.take k).length = k := by
      rw [hbuf, List.length_take, zeros_length]
      omega
    refine ⟨buf.take k, by omega, ?_⟩
    rw [setByteArrayRegion, if_pos (by omega), hk, Int.toNat_natCast]
  · right
    rw [setByteArrayRegion, if_neg (by omega)]

/-- What Java is given by a call that starts and ends with these readers: nothing, or what the last
    `read` of the call has delivered. -/
def Got (s s' : Stats.World) (bs : List Byte) : Prop :=
  bs = [] ∨ ∃ there, s.reads < s'.reads ∧ s'.kernel.read (s'.reads - 1) = .bytes there ∧
    bs = there.take 1514

/-- What `grnvs_read` leaves for `SetByteArrayRegion`. -/
theorem read_bytes (hb : buffer.length = 1514)
    (h : (read_ fuel buffer time).run w = (.ok (t', r), w')) :
    (∃ bs, bs.length ≤ 1514 ∧ (¬ Cut w time → Got w.reader w'.reader bs) ∧
        r = .ok (bs.length, splice buffer 0 bs)) ∨
      Cut w time ∧ ∃ n, r = .error (.arrayIndex n) := by
  obtain ⟨len, left, s', hread, hw', -, hr⟩ := read_native hb h
  have hempty : len = 0 → ∃ bs, bs.length ≤ 1514 ∧ (¬ Cut w time → Got w.reader w'.reader bs) ∧
      r = .ok (bs.length, splice buffer 0 bs) := by
    intro hlen
    refine ⟨[], Nat.zero_le 1514, fun _ => .inl rfl, ?_⟩
    rw [hr, hlen]
    exact setByteArrayRegion_ok hb [] (Nat.zero_le 1514) List.take_zero
  obtain ⟨-, he⟩ | ⟨-, he⟩ | ⟨-, -, es, en, time', hc, he⟩ :=
    Stats.grnvs_read_course hread fun why he => nomatch he
  · exact nomatch he
  · exact .inl (hempty (Prod.mk.inj (Except.ok.inj he)).1)
  · cases en with
    | failed => exact nomatch he
    | timedOut => exact .inl (hempty (Prod.mk.inj (Except.ok.inj he)).1)
    | delivered bs =>
      have hlen : len = bs.length := (Prod.mk.inj (Except.ok.inj he)).1
      obtain ⟨there, hlt, hthere, hbs, hrec⟩ := course_delivered hc rfl
      have hle : bs.length ≤ 1514 := hbs ▸ List.length_take_le 1514 there
      refine .inl ⟨bs, hle, fun _ => .inr ⟨there, ?_⟩, ?_⟩
      · rw [hw']
        exact ⟨hlt, hthere, hbs⟩
      · rw [hr, hlen]
        refine setByteArrayRegion_ok hb bs hle ?_
        rw [hrec, splice_zero, List.take_left]
    | cut v =>
      obtain ⟨hrec, hcut⟩ := course_cut hc rfl
      obtain ⟨bs, hle, hok⟩ | hthrows := setByteArrayRegion_cut hb (int32 len) hrec
      · exact .inl ⟨bs, hle, fun hnot => absurd hcut hnot, hr.trans hok⟩
      · exact .inr ⟨hcut, int32 len, hr.trans hthrows⟩

/-- A native read that hands something to Java is a call of `GRNVS_RAW.read` with some answer of at
    most 1514 bytes, and leaves the socket as it is. The answer is empty or has been delivered by the
    kernel during the call, unless the first wait was interrupted; only then can it throw. -/
theorem read_refined (hb : buffer.length = 1514)
    (h : (read_ fuel buffer time).run w = (.ok (t', r), w')) :
    w' = { w with reader := w'.reader } ∧
      ((∃ bs, bs.length ≤ 1514 ∧ (¬ Cut w time → Got w.reader w'.reader bs) ∧
        ∀ (jw : World) (rest : List Answer), jw.timeout = time →
          jw.answers = ⟨.bytes bs, t'⟩ :: rest →
          (GRNVS_RAW.read buffer).run jw =
            (r, (jw.answered t' rest).note (.read time (.bytes bs)))) ∨
        Cut w time ∧ ∃ n, r = .error (.arrayIndex n)) := by
  constructor
  · obtain ⟨len, left, s', -, hw', -⟩ := read_native hb h
    rw [hw']
  · obtain ⟨bs, hle, hgot, hr⟩ | hthrows := read_bytes hb h
    · refine .inl ⟨bs, hle, hgot, ?_⟩
      intro jw rest htime hanswers
      have htake : bs.take 1514 = bs := List.take_of_length_le hle
      rw [read_returns hb hanswers, htake, htime, hr]
    · exact .inr hthrows

end Refined

/-- The first `read` is interrupted, the second delivers two bytes after 3 ms. -/
theorem read_refined_retry :
    ∃ r w', (read_ 2 (zeros 1514) 10).run Raw.worldDemo = (.ok (7, r), w') ∧
      ∃ bs, Got Raw.worldDemo.reader w'.reader bs ∧
        ∀ (jw : World) (rest : List Answer), jw.timeout = 10 →
          jw.answers = ⟨.bytes bs, 7⟩ :: rest →
          (GRNVS_RAW.read (zeros 1514)).run jw =
            (r, (jw.answered 7 rest).note (.read 10 (.bytes bs))) := by
  have hb : (zeros 1514).length = 1514 := zeros_length 1514
  obtain ⟨s', hrun⟩ := @read_run 2 (zeros 1514) 10 Raw.worldDemo 2 (some 7) hb rfl
  have hready : ¬ Cut Raw.worldDemo 10 := fun hcut => Stats.Selected.noConfusion hcut
  obtain ⟨-, ⟨bs, -, hgot, hread⟩ | ⟨hcut, -⟩⟩ := read_refined hb hrun
  · exact ⟨_, _, hrun, bs, hgot hready, hread⟩
  · exact absurd hcut hready

end Grnvs.Trace
