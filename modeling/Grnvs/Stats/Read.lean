/-
  `grnvs_read`: `read` with a timeout in milliseconds that is carried from call to call.

  Each turn of its loop measures the wait with the clock, subtracts it from what is left, and writes
  the rest back in whole milliseconds.
-/
import Grnvs.Stats.Machine
import Mathlib.Tactic.Common

namespace Grnvs.Stats

open Bytes

/-! ## timespec.h -/

def timespecsub (vvp uvp : Timespec) : Timespec :=
  let sec := vvp.tv_sec - uvp.tv_sec
  let nsec := vvp.tv_nsec - uvp.tv_nsec
  if nsec < 0 then ⟨sec - 1, nsec + 1000000000⟩ else ⟨sec, nsec⟩

def timespecmset (msec : Nat) : Timespec :=
  let sec : Int := (msec / 1000 : Nat)
  ⟨sec, (msec - sec * 1000) * 1000000⟩

/-- The conversion of a `long` to `unsigned int`. -/
def unsigned (i : Int) : Nat := (i % 4294967296).toNat

/-! ## raw.c -/

/-- `*timeout` after a wait: what `time` still holds, in ms. -/
def remaining (time : Timespec) : Nat :=
  unsigned (time.tv_sec * 1000 + time.tv_nsec.tdiv 1000000)

/-- One `pselect`; with a timeout it stands between two looks at the clock, and `time` goes down by
    what they differ in. -/
def waitFor (time : Option Timespec) : Run (Selected × Option Timespec) := do
  pass
  match time with
  | none => do
      let ret ← pselect none
      pure (ret, none)
  | some t => do
      let before ← clock_gettime
      let ret ← pselect (some t)
      let after ← clock_gettime
      pure (ret, some (timespecsub t (timespecsub after before)))

/-- The loop of `grnvs_read`, with what `time` and `len` hold; it returns `len` and `*timeout`. -/
def readLoop (maxlen : Nat) : Nat → Option Timespec → Int → Run (Int × Option Nat)
  | 0, _, _ => Comp.stop .fuel
  | fuel + 1, time, len => do
      let (ret, time) ← waitFor time
      match ret with
      | .failed e =>
          -- `continue` goes on with the test of the loop
          if e = .eintr then
            if 0 > len then readLoop maxlen fuel time len
            else pure (len, time.map remaining)
          else do
            let strerror ← Comp.gets fun w => w.kernel.strerror
            print (.stderr ("pselect() failed: " ++ strerror e ++ "\n"))
            Comp.stop (.exit (-1))
      | .timedOut =>
          match time with
          | none => Comp.stop .undefined
          | some _ => pure (0, some 0)
      | .blocked => Comp.stop .blocked
      | .ready => do
          match ← read maxlen with
          | .ok n => pure ((n : Int), time.map remaining)
          | .error e =>
              if e = .eintr then readLoop maxlen fuel time (-1)
              else do
                let strerror ← Comp.gets fun w => w.kernel.strerror
                print (.stderr ("read() failed: " ++ strerror e ++ "\n"))
                Comp.stop (.exit (-1))

def grnvs_read (fuel maxlen : Nat) (timeout : Option Nat) : Run (Int × Option Nat) := do
  let ifindex ← Comp.gets World.ifindex
  let len ← Comp.gets fun w => w.kernel.len w.selects
  if ifindex < 0 then do
    print (.stderr "tried to read from closed socket, aborting\n")
    Comp.stop (.exit (-1))
  else if timeout = some 0 then pure (0, timeout)
  else readLoop maxlen fuel (timeout.map timespecmset) len

/-! ## Time in nanoseconds -/

def Timespec.ns (t : Timespec) : Int := t.tv_sec * 1000000000 + t.tv_nsec

def Timespec.Normal (t : Timespec) : Prop := 0 ≤ t.tv_nsec ∧ t.tv_nsec < 1000000000

section Time

variable {a b t : Timespec}

theorem timespecsub_ns (a b : Timespec) : (timespecsub a b).ns = a.ns - b.ns := by
  unfold timespecsub
  dsimp only
  split
  · simp only [Timespec.ns]
    omega
  · simp only [Timespec.ns]
    omega

theorem timespecsub_normal (ha : a.Normal) (hb : b.Normal) : (timespecsub a b).Normal := by
  obtain ⟨ha1, ha2⟩ := ha
  obtain ⟨hb1, hb2⟩ := hb
  unfold timespecsub
  dsimp only
  split
  · simp only [Timespec.Normal]
    omega
  · simp only [Timespec.Normal]
    omega

theorem timespecmset_ns (msec : Nat) : (timespecmset msec).ns = msec * 1000000 := by
  simp only [timespecmset, Timespec.ns]
  omega

theorem timespecmset_normal (msec : Nat) : (timespecmset msec).Normal := by
  simp only [timespecmset, Timespec.Normal]
  omega

theorem reading_ns (c : Nat) : (reading c).ns = c := by
  simp only [reading, Timespec.ns]
  omega

theorem reading_normal (c : Nat) : (reading c).Normal := by
  simp only [reading, Timespec.Normal]
  omega

theorem unsigned_eq {i : Int} (h0 : 0 ≤ i) (hlt : i < 4294967296) : unsigned i = i.toNat := by
  rw [unsigned, Int.emod_eq_of_lt h0 hlt]

/-- `*timeout` is what is left in whole milliseconds, rounded down, as an `unsigned int`. -/
theorem remaining_floor (ht : t.Normal) : remaining t = unsigned (t.ns / 1000000) := by
  obtain ⟨h1, h2⟩ := ht
  rw [remaining, Timespec.ns, Int.tdiv_eq_ediv_of_nonneg h1]
  congr 1
  omega

/-- The whole milliseconds in what is left. -/
theorem remaining_eq {n : Nat} (ht : t.Normal) (hn : t.ns = n) (hlt : n / 1000000 < 4294967296) :
    remaining t = n / 1000000 := by
  have hms : (n : Int) / 1000000 = (n / 1000000 : Nat) := rfl
  rw [remaining_floor ht, hn, hms, unsigned_eq (by omega) (by omega), Int.toNat_natCast]

end Time

/-! ## A call without interruption -/

section Call

variable {w : World} {t : Timespec} {e T : Nat} {ret : Selected} {bs : List Byte}

/-- After a wait of `e` ns, `time` has lost `e` ns. -/
theorem waitFor_run (ht : t.Normal) (hsel : w.kernel.select w.selects (some t) = (e, ret))
    (hret : ret ≠ .blocked) :
    ∃ t' c, (waitFor (some t)).run w =
        (.ok (ret, some t'), { w with clock := c, selects := w.selects + 1 }) ∧
      t'.Normal ∧ t'.ns = t.ns - e := by
  obtain ⟨before, hbefore⟩ : ∃ c, c = w.clock + w.kernel.idle w.selects := ⟨_, rfl⟩
  have hpselect : (pselect (some t)).run { w with clock := before } =
      (.ok ret, { w with clock := before + e, selects := w.selects + 1 }) := pselect_run hsel hret
  refine ⟨timespecsub t (timespecsub (reading (before + e)) (reading before)), before + e,
    ?_, ?_, ?_⟩
  · rw [waitFor, pass, Comp.modify_bind, ← hbefore, clock_gettime, Comp.gets_bind,
      Comp.bind_ok hpselect, Comp.gets_bind]
    rfl
  · exact timespecsub_normal ht (timespecsub_normal (reading_normal _) (reading_normal _))
  · rw [timespecsub_ns, timespecsub_ns, reading_ns, reading_ns]
    omega

/-- Bytes that `pselect` reports are delivered, however long they took, and the milliseconds that
    are left are written back as an `unsigned int`. -/
theorem grnvs_read_reported (fuel maxlen : Nat) (hopen : 0 ≤ w.ifindex) (hT : 0 < T)
    (hsel : w.kernel.select w.selects (some (timespecmset T)) = (e, .ready))
    (hread : w.kernel.read w.reads = .bytes bs) :
    ∃ c, (grnvs_read (fuel + 1) maxlen (some T)).run w =
      (.ok (((bs.take maxlen).length : Int), some (unsigned ((T * 1000000 - e : Int) / 1000000))),
        { w with
          clock := c
          selects := w.selects + 1
          reads := w.reads + 1
          recbuffer := splice w.recbuffer 0 (bs.take maxlen) }) := by
  obtain ⟨t', c, hrun, hnormal, hns⟩ :=
    waitFor_run (timespecmset_normal T) hsel (by decide)
  have hms : remaining t' = unsigned ((T * 1000000 - e : Int) / 1000000) := by
    rw [remaining_floor hnormal, hns, timespecmset_ns]
  have hpos : ¬ (some T = some 0) := by
    rw [Option.some.injEq]
    omega
  have hdata : (read maxlen).run { w with clock := c, selects := w.selects + 1 } =
      (.ok (.ok (bs.take maxlen).length), { w with
        clock := c
        selects := w.selects + 1
        reads := w.reads + 1
        recbuffer := splice w.recbuffer 0 (bs.take maxlen) }) :=
    read_run (w := { w with clock := c, selects := w.selects + 1 }) hread maxlen
  refine ⟨c, ?_⟩
  rw [grnvs_read, Comp.gets_bind, Comp.gets_bind, if_neg (by omega), if_neg hpos, Option.map_some,
    readLoop, Comp.bind_ok hrun]
  dsimp only
  rw [Comp.bind_ok hdata, ← hms]
  rfl

/-- What a wait that fits leaves. -/
theorem unsigned_left (hlt : T < 4294967296) (he : e ≤ T * 1000000) :
    unsigned ((T * 1000000 - e : Int) / 1000000) = (T * 1000000 - e) / 1000000 := by
  have hms : (T * 1000000 - e : Int) / 1000000 = ((T * 1000000 - e) / 1000000 : Nat) := by omega
  rw [hms, unsigned_eq (by omega) (by omega), Int.toNat_natCast]

theorem grnvs_read_timedOut (fuel maxlen : Nat) (hopen : 0 ≤ w.ifindex) (hT : 0 < T)
    (hsel : w.kernel.select w.selects (some (timespecmset T)) = (e, .timedOut)) :
    ∃ c, (grnvs_read (fuel + 1) maxlen (some T)).run w =
      (.ok (0, some 0), { w with clock := c, selects := w.selects + 1 }) := by
  obtain ⟨t', c, hrun, -⟩ := waitFor_run (timespecmset_normal T) hsel (by decide)
  have hpos : ¬ (some T = some 0) := by
    rw [Option.some.injEq]
    omega
  refine ⟨c, ?_⟩
  rw [grnvs_read, Comp.gets_bind, Comp.gets_bind, if_neg (by omega), if_neg hpos, Option.map_some,
    readLoop, Comp.bind_ok hrun]
  rfl

/-- A used-up budget is a timeout. -/
theorem grnvs_read_spent (fuel maxlen : Nat) (hopen : 0 ≤ w.ifindex) :
    (grnvs_read fuel maxlen (some 0)).run w = (.ok (0, some 0), w) := by
  rw [grnvs_read, Comp.gets_bind, Comp.gets_bind, if_neg (by omega), if_pos rfl]
  rfl

end Call

end Grnvs.Stats
