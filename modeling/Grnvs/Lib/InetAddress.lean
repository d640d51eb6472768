/-
  `java.net.InetAddress` for addresses given as bytes, and their text.

  A 16-byte address that stands for an IPv4 address is that IPv4 address. The text of an IPv6
  address is eight hexadecimal numbers without leading zeros, joined by colons, that of an IPv4
  address four decimal numbers joined by dots. Two 16-byte addresses with the same text are the
  same address (`getHostAddress_inj`).
-/
import Grnvs.Lib.Bytes

namespace InetAddress.Text

/-! ## Joined texts and numerals -/

/-- Texts joined by a character that is in none of them can be told apart again. -/
theorem intercalate_inj {α : Type} {c : α} {xs ys : List (List α)} (hx : ∀ x ∈ xs, c ∉ x)
    (hy : ∀ y ∈ ys, c ∉ y) (hl : xs.length = ys.length)
    (h : [c].intercalate xs = [c].intercalate ys) : xs = ys := by
  induction xs generalizing ys with
  | nil => exact (List.length_eq_zero_iff.mp hl.symm).symm
  | cons x xs ih =>
    cases ys with
    | nil => cases hl
    | cons y ys =>
      have hcx : c ∉ x := hx x List.mem_cons_self
      have hcy : c ∉ y := hy y List.mem_cons_self
      have hl' : xs.length = ys.length := Nat.succ.inj hl
      cases xs with
      | nil =>
        rw [List.length_eq_zero_iff.mp hl'.symm, List.intercalate_singleton,
          List.intercalate_singleton] at h
        rw [h, List.length_eq_zero_iff.mp hl'.symm]
      | cons x' xs =>
        cases ys with
        | nil => cases hl'
        | cons y' ys =>
          rw [List.intercalate_cons_cons, List.intercalate_cons_cons, List.append_assoc,
            List.append_assoc] at h
          -- the first `c` of both sides stands behind `x` and behind `y`
          have hxy : x = y := by
            rcases List.append_eq_append_iff.mp h with ⟨l, hl, hr⟩ | ⟨l, hl, hr⟩
            · cases l with
              | nil => rw [hl, List.append_nil]
              | cons d l =>
                obtain rfl : c = d := (List.cons.inj hr).1
                exact absurd (by simp [hl]) hcy
            · cases l with
              | nil => rw [hl, List.append_nil]
              | cons d l =>
                obtain rfl : c = d := (List.cons.inj hr).1
                exact absurd (by simp [hl]) hcx
          subst hxy
          have htail := List.cons.inj (List.append_cancel_left h)
          rw [ih (fun z hz => hx z (List.mem_cons_of_mem _ hz))
            (fun z hz => hy z (List.mem_cons_of_mem _ hz)) hl' htail.2]

theorem digitChar_inj {n m : Nat} (hn : n < 16) (hm : m < 16)
    (h : n.digitChar = m.digitChar) : n = m := by
  have key : ∀ n < 16, ∀ m < 16, Nat.digitChar n = Nat.digitChar m → n = m := by decide
  exact key n hn m hm h

/-- A number is read off its numeral. -/
theorem toDigits_inj {b n m : Nat} (hb : 1 < b) (hb' : b ≤ 16)
    (h : Nat.toDigits b n = Nat.toDigits b m) : n = m := by
  induction n using Nat.strongRecOn generalizing m with
  | ind n ih =>
    rcases Nat.lt_or_ge n b with hn | hn
    · rcases Nat.lt_or_ge m b with hm | hm
      · rw [Nat.toDigits_of_lt_base hn, Nat.toDigits_of_lt_base hm] at h
        exact digitChar_inj (by omega) (by omega) (List.cons.inj h).1
      · rw [Nat.toDigits_of_lt_base hn, Nat.toDigits_of_base_le hb hm] at h
        have hlen := congrArg List.length h
        have hpos := Nat.length_toDigits_pos (b := b) (n := m / b)
        rw [List.length_append, List.length_singleton, List.length_singleton] at hlen
        omega
    · rcases Nat.lt_or_ge m b with hm | hm
      · rw [Nat.toDigits_of_lt_base hm, Nat.toDigits_of_base_le hb hn] at h
        have hlen := congrArg List.length h
        have hpos := Nat.length_toDigits_pos (b := b) (n := n / b)
        rw [List.length_append, List.length_singleton, List.length_singleton] at hlen
        omega
      · rw [Nat.toDigits_of_base_le hb hn, Nat.toDigits_of_base_le hb hm] at h
        obtain ⟨h1, h2⟩ := List.append_inj' h rfl
        have hdiv : n / b = m / b := ih (n / b) (Nat.div_lt_self (by omega) hb) h1
        have hmod : n % b = m % b := digitChar_inj
          (Nat.lt_of_lt_of_le (Nat.mod_lt _ (by omega)) hb')
          (Nat.lt_of_lt_of_le (Nat.mod_lt _ (by omega)) hb') (List.cons.inj h2).1
        rw [← Nat.div_add_mod n b, ← Nat.div_add_mod m b, hdiv, hmod]

/-- A numeral is made of the sixteen digits. -/
theorem mem_toDigits {b n : Nat} {c : Char} (hb : 1 < b) (hb' : b ≤ 16)
    (h : c ∈ Nat.toDigits b n) : ∃ d < 16, c = Nat.digitChar d := by
  induction n using Nat.strongRecOn with
  | ind n ih =>
    rcases Nat.lt_or_ge n b with hn | hn
    · rw [Nat.toDigits_of_lt_base hn] at h
      exact ⟨n, by omega, List.mem_singleton.mp h⟩
    · rw [Nat.toDigits_of_base_le hb hn] at h
      rcases List.mem_append.mp h with h | h
      · exact ih (n / b) (Nat.div_lt_self (by omega) hb) h
      · exact ⟨n % b, Nat.lt_of_lt_of_le (Nat.mod_lt _ (by omega)) hb', List.mem_singleton.mp h⟩

theorem not_mem_toDigits {b n : Nat} {c : Char} (hb : 1 < b) (hb' : b ≤ 16)
    (hc : ∀ d < 16, c ≠ Nat.digitChar d) : c ∉ Nat.toDigits b n := fun h =>
  let ⟨d, hd, he⟩ := mem_toDigits hb hb' h
  hc d hd he

/-- What stands in a joined text is the separator or stands in one of the parts. -/
theorem mem_intercalate {α : Type} {c d : α} {xs : List (List α)} (h : d ∈ [c].intercalate xs) :
    d = c ∨ ∃ x ∈ xs, d ∈ x := by
  induction xs with
  | nil => exact absurd h List.not_mem_nil
  | cons x xs ih =>
    cases xs with
    | nil =>
      rw [List.intercalate_singleton] at h
      exact .inr ⟨x, List.mem_cons_self, h⟩
    | cons y xs =>
      rw [List.intercalate_cons_cons, List.mem_append, List.mem_append, List.mem_singleton] at h
      obtain (h | h) | h := h
      · exact .inr ⟨x, List.mem_cons_self, h⟩
      · exact .inl h
      · obtain h | ⟨z, hz, hd⟩ := ih h
        · exact .inl h
        · exact .inr ⟨z, List.mem_cons_of_mem x hz, hd⟩

end InetAddress.Text

/-! ## Addresses -/

inductive InetAddress where
  | inet4 (bytes : List Byte)
  | inet6 (bytes : List Byte)
deriving DecidableEq, Repr

namespace InetAddress

open Text

/-- The first twelve bytes of a 16-byte address that stands for an IPv4 address. -/
def mapped : List Byte := [0, 0, 0, 0, 0, 0, 0, 0, 0, 0, 0xff, 0xff]

/-- The address with the given bytes, or nothing when there is none. -/
def getByAddress (addr : List Byte) : Option InetAddress :=
  if addr.length = 16 then
    if addr.take 12 = mapped then some (.inet4 (addr.drop 12)) else some (.inet6 addr)
  else if addr.length = 4 then some (.inet4 addr)
  else none

/-- The 16-bit numbers of an address. -/
def groups : List Byte → List Nat
  | a :: b :: bs => (256 * a.toNat + b.toNat) :: groups bs
  | [_] => []
  | [] => []

def getHostAddress : InetAddress → String
  | .inet4 bytes =>
      String.ofList (['.'].intercalate (bytes.map fun b => Nat.toDigits 10 b.toNat))
  | .inet6 bytes => String.ofList ([':'].intercalate ((groups bytes).map (Nat.toDigits 16)))

theorem groups_length (bs : List Byte) : (groups bs).length = bs.length / 2 := by
  induction bs using groups.induct with
  | case1 a b bs ih =>
    rw [groups, List.length_cons, ih, List.length_cons, List.length_cons]
    omega
  | case2 a => simp [groups]
  | case3 => rfl

theorem groups_inj {as bs : List Byte} (hl : as.length = bs.length) (he : 2 ∣ as.length)
    (h : groups as = groups bs) : as = bs := by
  induction as using groups.induct generalizing bs with
  | case1 a b as ih =>
    match bs, hl with
    | c :: d :: bs, hl =>
      rw [groups, groups] at h
      obtain ⟨hw, ht⟩ := List.cons.inj h
      have ha := a.toNat_lt
      have hb := b.toNat_lt
      have hc := c.toNat_lt
      have hd := d.toNat_lt
      obtain rfl : a = c := UInt8.toNat_inj.mp (by omega)
      obtain rfl : b = d := UInt8.toNat_inj.mp (by omega)
      simp only [List.length_cons] at hl he
      rw [ih (by omega) (by omega) ht]
  | case2 a => simp at he
  | case3 => exact (List.length_eq_zero_iff.mp hl.symm).symm

/-- The colons of an IPv6 text tell it from an IPv4 text. -/
theorem colon_not_mem_inet4 (bytes : List Byte) :
    ':' ∉ ['.'].intercalate (bytes.map fun b => Nat.toDigits 10 b.toNat) := by
  induction bytes with
  | nil => exact List.not_mem_nil
  | cons b bytes ih =>
    have hd : ':' ∉ Nat.toDigits 10 b.toNat :=
      not_mem_toDigits (by decide) (by decide) (by decide)
    cases bytes with
    | nil =>
      rw [List.map_cons, List.map_nil, List.intercalate_singleton]
      exact hd
    | cons c bytes =>
      rw [List.map_cons, List.map_cons, List.intercalate_cons_cons]
      rw [List.map_cons] at ih
      simp only [List.mem_append, List.mem_singleton, not_or]
      exact ⟨⟨hd, by decide⟩, ih⟩

theorem colon_mem_inet6 {bytes : List Byte} (hl : bytes.length = 16) :
    ':' ∈ [':'].intercalate ((groups bytes).map (Nat.toDigits 16)) := by
  match bytes, hl with
  | a :: b :: c :: d :: bytes, _ =>
    rw [groups, groups, List.map_cons, List.map_cons, List.intercalate_cons_cons]
    simp

/-- A text has nothing but digits and separators in it. -/
theorem not_mem_getHostAddress {d : Char} (hd : ∀ n < 16, d ≠ Nat.digitChar n) (h1 : d ≠ '.')
    (h2 : d ≠ ':') (a : InetAddress) : d ∉ a.getHostAddress.toList := by
  intro h
  cases a with
  | inet4 bytes =>
    rw [getHostAddress, String.toList_ofList] at h
    obtain h | ⟨x, hx, h⟩ := mem_intercalate h
    · exact h1 h
    · obtain ⟨b, -, rfl⟩ := List.mem_map.mp hx
      exact not_mem_toDigits (by decide) (by decide) hd h
  | inet6 bytes =>
    rw [getHostAddress, String.toList_ofList] at h
    obtain h | ⟨x, hx, h⟩ := mem_intercalate h
    · exact h2 h
    · obtain ⟨g, -, rfl⟩ := List.mem_map.mp hx
      exact not_mem_toDigits (by decide) (by decide) hd h

/-- An address of 16 bytes is one, and its text determines it. -/
theorem getHostAddress_inj {as bs : List Byte} {x y : InetAddress} (ha : as.length = 16)
    (hb : bs.length = 16) (hx : getByAddress as = some x) (hy : getByAddress bs = some y)
    (h : getHostAddress x = getHostAddress y) : as = bs := by
  have hgroups : ∀ cs : List Byte, ∀ t ∈ (groups cs).map (Nat.toDigits 16), ':' ∉ t := by
    intro cs t ht
    obtain ⟨n, _, rfl⟩ := List.mem_map.mp ht
    exact not_mem_toDigits (by decide) (by decide) (by decide)
  have hdigits : ∀ cs : List Byte, ∀ t ∈ cs.map fun b => Nat.toDigits 10 b.toNat, '.' ∉ t := by
    intro cs t ht
    obtain ⟨n, _, rfl⟩ := List.mem_map.mp ht
    exact not_mem_toDigits (by decide) (by decide) (by decide)
  rw [getByAddress, if_pos ha] at hx
  rw [getByAddress, if_pos hb] at hy
  split at hx <;> split at hy <;> cases hx <;> cases hy
  · -- two mapped addresses
    have ht := intercalate_inj (hdigits _) (hdigits _) (by simp [ha, hb])
      (String.ofList_injective h)
    have htail : as.drop 12 = bs.drop 12 := List.map_injective_iff.mpr (fun a b hab =>
      UInt8.toNat_inj.mp (toDigits_inj (by decide) (by decide) hab)) ht
    rw [← List.take_append_drop 12 as, ← List.take_append_drop 12 bs, htail]
    simp_all
  · have hc := colon_mem_inet6 hb
    rw [← String.ofList_injective h] at hc
    exact absurd hc (colon_not_mem_inet4 _)
  · have hc := colon_mem_inet6 ha
    rw [String.ofList_injective h] at hc
    exact absurd hc (colon_not_mem_inet4 _)
  · have ht := intercalate_inj (hgroups _) (hgroups _)
      (by simp [groups_length, ha, hb]) (String.ofList_injective h)
    exact groups_inj (ha.trans hb.symm) (by omega) (List.map_injective_iff.mpr
      (fun a b hab => toDigits_inj (by decide) (by decide) hab) ht)

end InetAddress
