/-
  The extension header walk of `checkMessage`.

  `Turns` are the states the loop comes to, `Walks` its runs to the end, whatever the number of
  turns. A header whose length byte is 128 or more makes the loop stand still or go back when
  another extension header follows it; `Backward` says, in terms of the lengths as they are meant,
  that the chain comes to such a header. Where it does not, every turn goes forward
  (`Forward.turns`), and the walk ends in front of another header or at the end of the datagram
  (`Forward.ends`).
-/
import Grnvs.Trace.Receiver

namespace Grnvs.Trace

open Bytes

variable {buffer : List Byte} {pos skip pos' skip' : Int}

theorem arrayGet_eq_ok {a : List Byte} {n : Nat} {b : Byte} :
    arrayGet a (n : Int) = .ok b ↔ a[n]? = some b := by
  rw [arrayGet, if_pos (Int.natCast_nonneg n), Int.toNat_natCast]
  cases a[n]? with
  | none => simp
  | some c => simp

/-- An access that does not throw is in bounds. -/
theorem arrayGet_inv {a : List Byte} {index : Int} {b : Byte} (h : arrayGet a index = .ok b) :
    ∃ n : Nat, index = n ∧ a[n]? = some b := by
  rcases arrayGet_cases a index with ⟨n, hn, rfl, hr⟩ | ⟨-, hr⟩
  · exact ⟨n, rfl, arrayGet_eq_ok.mp h⟩
  · rw [h] at hr
    cases hr

theorem arrayGet_error {a : List Byte} {index : Int} {e : Stop} (h : arrayGet a index = .error e) :
    e = .arrayIndex index ∧ (index < 0 ∨ a.length ≤ index) := by
  rcases arrayGet_cases a index with ⟨n, hn, rfl, hr⟩ | ⟨hi, hr⟩
  · rw [h] at hr
    cases hr
  · rw [h] at hr
    exact ⟨Except.error.inj hr, hi⟩

/-! ## One turn -/

theorem walkStep_end {b : Byte} (h : arrayGet buffer pos = .ok b) (hb : isExtension b = false) :
    walkStep buffer pos skip = .ok none := by
  rw [walkStep, h, ok_bind, hb]
  rfl

theorem walkStep_turn {b l : Byte} (h : arrayGet buffer pos = .ok b) (hb : isExtension b = true)
    (hl : arrayGet buffer (pos + skip + 1) = .ok l) :
    walkStep buffer pos skip = .ok (some (pos + skip, 8 + 8 * signed l)) := by
  rw [walkStep, h, ok_bind, hb, if_pos rfl]
  dsimp only
  rw [hl]
  rfl

theorem walkStep_throws {b : Byte} {e : Stop} (h : arrayGet buffer pos = .ok b)
    (hb : isExtension b = true) (hl : arrayGet buffer (pos + skip + 1) = .error e) :
    walkStep buffer pos skip = .error e := by
  rw [walkStep, h, ok_bind, hb, if_pos rfl]
  dsimp only
  rw [hl]
  rfl

/-- Everything one turn can do. -/
theorem walkStep_cases (buffer : List Byte) (pos skip : Int) :
    (∃ b, arrayGet buffer pos = .ok b ∧ isExtension b = false ∧
      walkStep buffer pos skip = .ok none) ∨
    (∃ b l, arrayGet buffer pos = .ok b ∧ isExtension b = true ∧
      arrayGet buffer (pos + skip + 1) = .ok l ∧
      walkStep buffer pos skip = .ok (some (pos + skip, 8 + 8 * signed l))) ∨
    ∃ index : Int, (index < 0 ∨ buffer.length ≤ index) ∧
      (index = pos ∨ index = pos + skip + 1 ∧
        ∃ b, arrayGet buffer pos = .ok b ∧ isExtension b = true) ∧
      walkStep buffer pos skip = .error (.arrayIndex index) := by
  rcases hb : arrayGet buffer pos with e | b
  · obtain ⟨rfl, hi⟩ := arrayGet_error hb
    refine .inr (.inr ⟨pos, hi, .inl rfl, ?_⟩)
    rw [walkStep, hb, error_bind]
  · cases hext : isExtension b with
    | false => exact .inl ⟨b, rfl, hext, walkStep_end hb hext⟩
    | true =>
      rcases hl : arrayGet buffer (pos + skip + 1) with e | l
      · obtain ⟨rfl, hi⟩ := arrayGet_error hl
        exact .inr (.inr ⟨_, hi, .inr ⟨rfl, b, rfl, hext⟩, walkStep_throws hb hext hl⟩)
      · exact .inr (.inl ⟨b, l, rfl, hext, rfl, walkStep_turn hb hext hl⟩)

/-! ## Runs of the loop -/

/-- The states the loop comes to, `skip` belonging to the header at `pos`. -/
inductive Turns (buffer : List Byte) : Int → Int → Prop where
  | start : Turns buffer 6 34
  | turn {pos skip pos' skip' : Int} : Turns buffer pos skip →
      walkStep buffer pos skip = .ok (some (pos', skip')) → Turns buffer pos' skip'

/-- From `pos` and `skip` the loop ends with `endPos` and `endSkip`. -/
inductive Walks (buffer : List Byte) : Int → Int → Int → Int → Prop where
  | stay {pos skip : Int} : walkStep buffer pos skip = .ok none → Walks buffer pos skip pos skip
  | turn {pos skip pos' skip' endPos endSkip : Int} :
      walkStep buffer pos skip = .ok (some (pos', skip')) →
      Walks buffer pos' skip' endPos endSkip → Walks buffer pos skip endPos endSkip

theorem walk_stay {fuel : Nat} (h : walkStep buffer pos skip = .ok none) :
    walk (fuel + 1) buffer pos skip = .ok (pos, skip) := by
  rw [walk, h]
  rfl

theorem walk_turn {fuel : Nat} (h : walkStep buffer pos skip = .ok (some (pos', skip'))) :
    walk (fuel + 1) buffer pos skip = walk fuel buffer pos' skip' := by
  rw [walk, h]
  rfl

theorem walk_throws {fuel : Nat} {e : Stop} (h : walkStep buffer pos skip = .error e) :
    walk (fuel + 1) buffer pos skip = .error e := by
  rw [walk, h]
  rfl

theorem walks_of_walk {fuel : Nat} (h : walk fuel buffer pos skip = .ok (pos', skip')) :
    Walks buffer pos skip pos' skip' := by
  induction fuel generalizing pos skip with
  | zero => cases h
  | succ fuel ih =>
    rcases hs : walkStep buffer pos skip with e | _ | ⟨p, s⟩
    · rw [walk_throws hs] at h
      cases h
    · rw [walk_stay hs] at h
      cases h
      exact .stay hs
    · rw [walk_turn hs] at h
      exact .turn hs (ih h)

/-- Enough turns give the end of the walk. -/
theorem Walks.walk (h : Walks buffer pos skip pos' skip') :
    ∃ n, ∀ fuel, n ≤ fuel → walk fuel buffer pos skip = .ok (pos', skip') := by
  induction h with
  | stay hs =>
    refine ⟨1, fun fuel hf => ?_⟩
    obtain ⟨f, rfl⟩ : ∃ f, fuel = f + 1 := ⟨fuel - 1, by omega⟩
    exact walk_stay hs
  | turn hs _ ih =>
    obtain ⟨n, hn⟩ := ih
    refine ⟨n + 1, fun fuel hf => ?_⟩
    obtain ⟨f, rfl⟩ : ∃ f, fuel = f + 1 := ⟨fuel - 1, by omega⟩
    rw [walk_turn hs]
    exact hn f (by omega)

/-- Fewer turns give nothing else. -/
theorem Walks.walk_or (h : Walks buffer pos skip pos' skip') (fuel : Nat) :
    Grnvs.Trace.walk fuel buffer pos skip = .error .fuel ∨
      Grnvs.Trace.walk fuel buffer pos skip = .ok (pos', skip') := by
  induction fuel generalizing pos skip with
  | zero => exact .inl rfl
  | succ fuel ih =>
    cases h with
    | stay hs => exact .inr (walk_stay hs)
    | turn hs ht =>
      rw [walk_turn hs]
      exact ih ht

/-- The walk has one end. -/
theorem Walks.unique {p s : Int} (h : Walks buffer pos skip pos' skip')
    (h' : Walks buffer pos skip p s) : pos' = p ∧ skip' = s := by
  obtain ⟨n, hn⟩ := h.walk
  obtain ⟨m, hm⟩ := h'.walk
  have he := (hn (max n m) (Nat.le_max_left n m)).symm.trans (hm (max n m) (Nat.le_max_right n m))
  cases he
  exact ⟨rfl, rfl⟩

/-! ## Chains that go forward -/

/-- Followed by the lengths as they are meant, the chain of extension headers comes from the one
    at `n` to one that another extension header follows and whose length byte is 128 or more. -/
inductive Backward (buffer : List Byte) : Nat → Prop where
  | here {n : Nat} {b l : Byte} : buffer[n]? = some b → isExtension b = true →
      buffer[n + 1]? = some l → 128 ≤ l.toNat → Backward buffer n
  | next {n : Nat} {b l : Byte} : buffer[n]? = some b → isExtension b = true →
      buffer[n + 1]? = some l → l.toNat < 128 → Backward buffer (n + (8 + 8 * l.toNat)) →
      Backward buffer n

theorem signed_of_lt {b : Byte} (h : b.toNat < 128) : signed b = b.toNat := if_pos h

theorem signed_of_ge {b : Byte} (h : 128 ≤ b.toNat) : signed b = (b.toNat : Int) - 256 :=
  if_neg (by omega)

/-- A state of the loop behind its first turn: the header at `n` is there, and the chain goes
    forward from it. -/
structure AtHeader (buffer : List Byte) (n : Nat) (pos skip : Int) : Prop where
  pos_eq : pos = n
  forward : ¬ Backward buffer n
  length : ∃ l, buffer[n + 1]? = some l ∧ skip = 8 + 8 * signed l

/-- A turn in a chain that goes forward leads forward. -/
theorem AtHeader.turn {n : Nat} (h : AtHeader buffer n pos skip) {b : Byte}
    (hb : arrayGet buffer pos = .ok b) (hext : isExtension b = true) :
    ∃ m : Nat, n < m ∧ pos + skip = m ∧ ¬ Backward buffer m := by
  obtain ⟨rfl, hfwd, l, hl, rfl⟩ := h
  have hbn := arrayGet_eq_ok.mp hb
  have hl128 : l.toNat < 128 := by
    by_contra hge
    exact hfwd (.here hbn hext hl (by omega))
  refine ⟨n + (8 + 8 * l.toNat), by omega, ?_, fun hback => hfwd (.next hbn hext hl hl128 hback)⟩
  rw [signed_of_lt hl128]
  omega

/-- How a walk can end: at a header of another kind, or at the end of the datagram. -/
def Ends (buffer : List Byte) (r : Except Stop (Int × Int)) : Prop :=
  (∃ p s b, r = .ok (p, s) ∧ arrayGet buffer p = .ok b ∧ isExtension b = false) ∨
    ∃ index : Int, buffer.length ≤ index ∧ r = .error (.arrayIndex index)

theorem AtHeader.ends {n : Nat} (h : AtHeader buffer n pos skip) {fuel : Nat}
    (hf : buffer.length - n < fuel) : Ends buffer (walk fuel buffer pos skip) := by
  induction fuel generalizing n pos skip with
  | zero => omega
  | succ fuel ih =>
    have hpos : 0 ≤ pos := by
      rw [h.pos_eq]
      omega
    rcases walkStep_cases buffer pos skip with ⟨b, hb, hext, hs⟩ | ⟨b, l, hb, hext, hl, hs⟩ |
      ⟨index, hi, hor, hs⟩
    · rw [walk_stay hs]
      exact .inl ⟨pos, skip, b, rfl, hb, hext⟩
    · obtain ⟨m, hnm, hm, hfwd⟩ := h.turn hb hext
      rw [walk_turn hs]
      rw [hm] at hl
      have hlm : buffer[m + 1]? = some l := arrayGet_eq_ok.mp hl
      have hlt : m + 1 < buffer.length := by
        by_contra hge
        rw [List.getElem?_eq_none (by omega)] at hlm
        cases hlm
      exact ih ⟨hm, hfwd, l, hlm, rfl⟩ (by omega)
    · rw [walk_throws hs]
      refine .inr ⟨index, ?_, rfl⟩
      have hnonneg : 0 ≤ index := by
        rcases hor with rfl | ⟨rfl, b, hb, hext⟩
        · exact hpos
        · obtain ⟨m, -, hm, -⟩ := h.turn hb hext
          omega
      omega

/-- The chain of a datagram goes forward when no header of it is followed by another extension
    header and has a length byte of 128 or more. -/
def Forward (buffer : List Byte) : Prop :=
  ∀ b, buffer[6]? = some b → isExtension b = true → ¬ Backward buffer 40

/-- Every state of the loop is its first one or stands at a header of a chain that goes forward. -/
theorem Forward.turns (h : Forward buffer) (ht : Turns buffer pos skip) :
    (pos = 6 ∧ skip = 34) ∨ ∃ n, AtHeader buffer n pos skip := by
  induction ht with
  | start => exact .inl ⟨rfl, rfl⟩
  | @turn pos skip pos' skip' _ hs ih =>
    right
    rcases walkStep_cases buffer pos skip with ⟨b, -, -, hr⟩ | ⟨b, l, hb, hext, hl, hr⟩ |
      ⟨_, -, -, hr⟩
    · rw [hs] at hr
      cases hr
    · rw [hs] at hr
      cases hr
      rcases ih with ⟨rfl, rfl⟩ | ⟨n, hn⟩
      · exact ⟨40, rfl, h b (arrayGet_eq_ok.mp hb) hext, l, arrayGet_eq_ok.mp hl, rfl⟩
      · obtain ⟨m, -, hm, hfwd⟩ := hn.turn hb hext
        rw [hm] at hl ⊢
        exact ⟨m, rfl, hfwd, l, arrayGet_eq_ok.mp hl, rfl⟩
    · rw [hs] at hr
      cases hr

/-- So every turn goes forward. -/
theorem Forward.advances (h : Forward buffer) (ht : Turns buffer pos skip) {b : Byte}
    (hb : arrayGet buffer pos = .ok b) (hext : isExtension b = true) : pos < pos + skip := by
  rcases h.turns ht with ⟨rfl, rfl⟩ | ⟨n, hn⟩
  · decide
  · obtain ⟨m, hnm, hm, -⟩ := hn.turn hb hext
    have := hn.pos_eq
    omega

theorem Forward.ends (h : Forward buffer) {fuel : Nat} (hf : buffer.length + 1 < fuel) :
    Ends buffer (walk fuel buffer 6 34) := by
  obtain ⟨f, rfl⟩ : ∃ f, fuel = f + 1 := ⟨fuel - 1, by omega⟩
  rcases walkStep_cases buffer 6 34 with ⟨b, hb, hext, hs⟩ | ⟨b, l, hb, hext, hl, hs⟩ |
    ⟨index, hi, hor, hs⟩
  · rw [walk_stay hs]
    exact .inl ⟨6, 34, b, rfl, hb, hext⟩
  · rw [walk_turn hs]
    have hat : AtHeader buffer 40 (6 + 34) (8 + 8 * signed l) :=
      ⟨rfl, h b (arrayGet_eq_ok.mp hb) hext, l, arrayGet_eq_ok.mp hl, rfl⟩
    exact hat.ends (by omega)
  · rw [walk_throws hs]
    refine .inr ⟨index, ?_, rfl⟩
    rcases hor with rfl | ⟨rfl, -⟩
    · omega
    · omega

/-- A chain that comes to a backward header takes the loop to a turn that does not go forward. -/
theorem Backward.stalls {n : Nat} (h : Backward buffer n) {l : Byte}
    (hl : buffer[n + 1]? = some l) (ht : Turns buffer n (8 + 8 * signed l)) :
    ∃ pos skip b, Turns buffer pos skip ∧ arrayGet buffer pos = .ok b ∧ isExtension b = true ∧
      pos + skip ≤ pos := by
  induction h generalizing l with
  | @here n b k hb hext hk hge =>
    obtain rfl : l = k := Option.some.inj (hl.symm.trans hk)
    refine ⟨n, _, b, ht, arrayGet_eq_ok.mpr hb, hext, ?_⟩
    have := l.toNat_lt
    rw [signed_of_ge hge]
    omega
  | @next n b k hb hext hk hlt hback ih =>
    obtain rfl : l = k := Option.some.inj (hl.symm.trans hk)
    obtain ⟨l', hl'⟩ : ∃ l', buffer[n + (8 + 8 * l.toNat) + 1]? = some l' := by
      cases hback with
      | here _ _ h _ => exact ⟨_, h⟩
      | next _ _ h _ _ => exact ⟨_, h⟩
    have hpos : (n : Int) + (8 + 8 * signed l) = (n + (8 + 8 * l.toNat) : Nat) := by
      rw [signed_of_lt hlt]
      omega
    refine ih hl' (.turn ht ?_)
    rw [walkStep_turn (arrayGet_eq_ok.mpr hb) hext (by rw [hpos]; exact arrayGet_eq_ok.mpr hl'), hpos]

/-- Every turn goes forward exactly in a chain that does. -/
theorem forward_iff : Forward buffer ↔
    ∀ pos skip b, Turns buffer pos skip → arrayGet buffer pos = .ok b → isExtension b = true →
      pos < pos + skip := by
  constructor
  · intro h pos skip b ht hb hext
    exact h.advances ht hb hext
  · intro h b hb hext hback
    obtain ⟨l, hl⟩ : ∃ l, buffer[41]? = some l := by
      cases hback with
      | here _ _ h _ => exact ⟨_, h⟩
      | next _ _ h _ _ => exact ⟨_, h⟩
    have hs : walkStep buffer 6 34 = .ok (some (40, 8 + 8 * signed l)) :=
      walkStep_turn (arrayGet_eq_ok.mpr hb) hext (arrayGet_eq_ok.mpr hl)
    obtain ⟨pos, skip, b, ht, hb, hext, hle⟩ := hback.stalls hl (.turn .start hs)
    have := h pos skip b ht hb hext
    omega

end Grnvs.Trace
