/-
  What `collatz` prints, against the orbit of the integer map.

  A turn at a number that is even or at most `largest` takes it to the next one of its orbit
  (`turn_fits`); at any other number the exact result is no `long`. So the program follows the orbit
  as long as its numbers fit (`loop_follows`), and leaves it at the first one that does not
  (`assignment1_leaves`). It prints the orbit exactly when no number before the first 1
  is odd and too large (`main_prints`), and whether it ends is a question about the orbit alone
  (`main_ends`): that every orbit reaches 1 is the conjecture the map is known for.
-/
import Grnvs.Collatz.Program
import Mathlib.Data.Nat.Find
import Mathlib.Logic.Function.Iterate

namespace Grnvs.Collatz

open Bytes Decimal Signed

/-! ## The orbit -/

/-- The integer map: `n / 2` for an even `n`, `3 n + 1` for an odd one. -/
def collatz (n : Nat) : Nat := if n % 2 = 0 then n / 2 else 3 * n + 1

/-- For a larger `n` there is no `long` for `3 n + 1`. -/
def largest : Nat := 3074457345618258602

/-- The step from `n` stays inside a `long`. -/
def Fits (n : Nat) : Prop := n % 2 = 0 ∨ n ≤ largest

instance : DecidablePred Fits := fun _ => inferInstanceAs (Decidable (_ ∨ _))

/-- The `k`-th iterate of the map on `n`. -/
def orbit (n k : Nat) : Nat := collatz^[k] n

/-- The first `k` numbers of the orbit are not 1 and can be left. -/
def Clear (n k : Nat) : Prop := ∀ j < k, orbit n j ≠ 1 ∧ Fits (orbit n j)

theorem collatz_of_even {n : Nat} (h : n % 2 = 0) : collatz n = n / 2 := if_pos h

theorem collatz_of_odd {n : Nat} (h : n % 2 = 1) : collatz n = 3 * n + 1 := if_neg (by omega)

@[simp] theorem orbit_zero (n : Nat) : orbit n 0 = n := rfl

/-- The orbit from its second number on. -/
theorem orbit_succ (n k : Nat) : orbit n (k + 1) = orbit (collatz n) k :=
  Function.iterate_succ_apply ..

theorem orbit_next (n k : Nat) : orbit n (k + 1) = collatz (orbit n k) :=
  Function.iterate_succ_apply' ..

theorem Clear.mono {n k m : Nat} (h : Clear n k) (hm : m ≤ k) : Clear n m :=
  fun j hj => h j (Nat.lt_of_lt_of_le hj hm)

theorem Clear.tail {n k : Nat} (h : Clear n (k + 1)) : Clear (collatz n) k := by
  intro j hj
  have := h (j + 1) (Nat.succ_lt_succ hj)
  rwa [orbit_succ] at this

/-- An orbit comes to 1 for the first time. -/
theorem first_one {n k : Nat} (h1 : orbit n k = 1) :
    ∃ m ≤ k, orbit n m = 1 ∧ ∀ j < m, orbit n j ≠ 1 := by
  have hex : ∃ m, orbit n m = 1 := ⟨k, h1⟩
  exact ⟨Nat.find hex, Nat.find_min' hex h1, Nat.find_spec hex, fun j hj => Nat.find_min hex hj⟩

theorem orbit_of_zero (k : Nat) : orbit 0 k = 0 := by
  induction k with
  | zero => rfl
  | succ k ih =>
    rw [orbit_next, ih]
    rfl

/-! ## One turn -/

section Turn

variable {overflow : Overflow} {start next : Long} {n : Nat}

theorem tmod_two (n : Nat) : (n : Int).tmod 2 = (n % 2 : Nat) := rfl

theorem turn_one (h : start.val = 1) (fuel : Nat) (out : List Long) :
    (turn overflow start fuel).run out = (.ok (.inr ()), out) := by
  unfold turn
  rw [if_neg (not_not.mpr h), Comp.pure_run]

theorem long_ok {i : Int} {a : Long} (h : result overflow i = some a) (out : List Long) :
    (long overflow i).run out = (.ok a, out) := by
  unfold long
  rw [h, Comp.pure_run]

theorem long_none {i : Int} (h : result overflow i = none) (out : List Long) :
    (long overflow i).run out = (.error .undefined, out) := by
  unfold long
  rw [h, Comp.stop_run]

theorem turn_even {a : Long} (h1 : start.val ≠ 1) (he : start.val.tmod 2 = 0)
    (ha : result overflow (start.val.tdiv 2) = some a) (fuel : Nat) (out : List Long) :
    (turn overflow start fuel).run out = (.ok (.inl a), out ++ [a]) := by
  unfold turn
  rw [if_pos h1, if_pos he, Comp.bind_ok (long_ok ha out)]
  rfl

theorem turn_odd {t a : Long} (h1 : start.val ≠ 1) (ho : start.val.tmod 2 ≠ 0)
    (ht : result overflow (3 * start.val) = some t)
    (ha : result overflow (t.val + 1) = some a) (fuel : Nat) (out : List Long) :
    (turn overflow start fuel).run out = (.ok (.inl a), out ++ [a]) := by
  unfold turn
  rw [if_pos h1, if_neg ho, Comp.bind_ok (long_ok ht out), Comp.bind_ok (long_ok ha out)]
  rfl

/-- Everything a turn at another number than 1 can do: it stops without a meaning, or it prints
    the number the loop goes on with. -/
theorem turn_cases (overflow : Overflow) (h1 : start.val ≠ 1) (fuel : Nat) (out : List Long) :
    (turn overflow start fuel).run out = (.error .undefined, out) ∨
    ∃ a, (turn overflow start fuel).run out = (.ok (.inl a), out ++ [a]) ∧
      (start.val.tmod 2 = 0 ∧ result overflow (start.val.tdiv 2) = some a ∨
        start.val.tmod 2 ≠ 0 ∧ ∃ t, result overflow (3 * start.val) = some t ∧
          result overflow (t.val + 1) = some a) := by
  by_cases he : start.val.tmod 2 = 0
  · rcases ha : result overflow (start.val.tdiv 2) with _ | a
    · left
      unfold turn
      rw [if_pos h1, if_pos he, Comp.bind_error (long_none ha out)]
    · exact .inr ⟨a, turn_even h1 he ha fuel out, .inl ⟨he, rfl⟩⟩
  · rcases ht : result overflow (3 * start.val) with _ | t
    · left
      unfold turn
      rw [if_pos h1, if_neg he, Comp.bind_error (long_none ht out)]
    · rcases ha : result overflow (t.val + 1) with _ | a
      · left
        unfold turn
        rw [if_pos h1, if_neg he, Comp.bind_ok (long_ok ht out), Comp.bind_error (long_none ha out)]
      · exact .inr ⟨a, turn_odd h1 he ht ha fuel out, .inr ⟨he, t, rfl, ha⟩⟩

/-- A turn at a number that fits leads to the next one of the orbit. -/
theorem turn_fits (overflow : Overflow) (hv : start.val = n) (h1 : n ≠ 1) (hf : Fits n) :
    ∃ next : Long, next.val = collatz n ∧ ∀ fuel out,
      (turn overflow start fuel).run out = (.ok (.inl next), out ++ [next]) := by
  have hne : start.val ≠ 1 := by omega
  have hup := start.upper
  by_cases he : n % 2 = 0
  · have hlong : -2 ^ 63 ≤ ((n / 2 : Nat) : Int) ∧ ((n / 2 : Nat) : Int) < 2 ^ 63 := by omega
    refine ⟨⟨(n / 2 : Nat), hlong.1, hlong.2⟩, by rw [collatz_of_even he], fun fuel out => ?_⟩
    apply turn_even hne
    · rw [hv, tmod_two, he]
      rfl
    · rw [hv]
      exact result_of_range hlong
  · have hle : n ≤ 3074457345618258602 := hf.resolve_left he
    have htriple : -2 ^ 63 ≤ ((3 * n : Nat) : Int) ∧ ((3 * n : Nat) : Int) < 2 ^ 63 := by omega
    have hlong : -2 ^ 63 ≤ ((3 * n + 1 : Nat) : Int) ∧ ((3 * n + 1 : Nat) : Int) < 2 ^ 63 := by
      omega
    refine ⟨⟨(3 * n + 1 : Nat), hlong.1, hlong.2⟩, by rw [collatz_of_odd (by omega)],
      fun fuel out => ?_⟩
    have ht : result overflow (3 * start.val) = some ⟨(3 * n : Nat), htriple.1, htriple.2⟩ := by
      rw [hv]
      exact result_of_range htriple
    apply turn_odd hne _ ht
    · exact result_of_range hlong
    · rw [hv, tmod_two]
      omega

/-- A turn that has a meaning on every machine comes from a number that fits, if it leads to one
    that is not negative. -/
theorem turn_back {a : Long} {m : Nat} (ha : a.val = m)
    (h : start.val.tmod 2 = 0 ∧ result undefined (start.val.tdiv 2) = some a ∨
      start.val.tmod 2 ≠ 0 ∧ ∃ t, result undefined (3 * start.val) = some t ∧
        result undefined (t.val + 1) = some a) :
    ∃ n : Nat, start.val = n ∧ collatz n = m ∧ Fits n := by
  have hdiv := Int.mul_tdiv_add_tmod start.val 2
  obtain ⟨he, hr⟩ | ⟨ho, t, ht, hr⟩ := h
  · have hval := result_undefined hr
    refine ⟨2 * m, by omega, ?_, .inl (by omega)⟩
    rw [collatz_of_even (by omega)]
    omega
  · have htriple := result_undefined ht
    have hval := result_undefined hr
    have hup := a.upper
    obtain ⟨n, hn⟩ := Int.eq_ofNat_of_zero_le (show 0 ≤ start.val by omega)
    rw [hn, tmod_two] at ho
    refine ⟨n, hn, ?_, .inr ?_⟩
    · rw [collatz_of_odd (by omega)]
      omega
    · show n ≤ 3074457345618258602
      omega

end Turn

/-! ## The loop -/

/-- What has been printed is the orbit of `n`, as far as it goes. -/
def Traces (n : Nat) (out : List Long) : Prop :=
  ∀ (j : Nat) (a : Long), out[j]? = some a → a.val = orbit n j

theorem traces_nil (n : Nat) : Traces n [] := by
  intro j a h
  cases h

theorem Traces.cons {n : Nat} {a : Long} {out : List Long} (ha : a.val = n)
    (h : Traces (collatz n) out) : Traces n (a :: out) := by
  intro j b hb
  cases j with
  | zero =>
    obtain rfl := Option.some.inj hb
    exact ha
  | succ j =>
    rw [orbit_succ]
    exact h j b hb

section Loop

variable {overflow : Overflow} {start : Long} {n k : Nat}

/-- The loop follows the orbit as long as its numbers fit. By induction on the number of turns. -/
theorem loop_follows (overflow : Overflow) (hv : start.val = n) (hc : Clear n k) :
    ∃ (next : Long) (vs : List Long), next.val = orbit n k ∧ vs.length = k ∧
      Traces (collatz n) vs ∧ ∀ fuel out,
        (Comp.loop .fuel (turn overflow) start (k + fuel)).run out =
          (Comp.loop .fuel (turn overflow) next fuel).run (out ++ vs) := by
  induction k generalizing start n with
  | zero =>
    refine ⟨start, [], hv, rfl, traces_nil _, fun fuel out => ?_⟩
    rw [Nat.zero_add, List.append_nil]
  | succ k ih =>
    obtain ⟨h1, hf⟩ := hc 0 (Nat.succ_pos k)
    obtain ⟨nx, hnx, hturn⟩ := turn_fits overflow hv h1 hf
    obtain ⟨next, vs, hnext, hlen, htr, hloop⟩ := ih hnx hc.tail
    refine ⟨next, nx :: vs, hnext, congrArg Nat.succ hlen, htr.cons hnx, fun fuel out => ?_⟩
    rw [Nat.succ_add, Comp.loop_succ_ok (hturn _ out)]
    dsimp only
    rw [hloop, List.append_assoc]
    rfl

/-- A loop that ends although nothing is defined beyond a `long` has followed an orbit to 1. -/
theorem loop_reaches {fuel : Nat} {out out' : List Long} {u : Unit}
    (h : (Comp.loop .fuel (turn undefined) start fuel).run out = (.ok u, out')) :
    ∃ n k : Nat, start.val = n ∧ orbit n k = 1 ∧ ∀ j < k, Fits (orbit n j) := by
  induction fuel generalizing start out with
  | zero => cases h
  | succ fuel ih =>
    by_cases h1 : start.val = 1
    · exact ⟨1, 0, h1, rfl, fun j hj => absurd hj (Nat.not_lt_zero j)⟩
    · rcases turn_cases undefined h1 fuel out with hr | ⟨a, hr, hback⟩
      · rw [Comp.loop_succ_error hr] at h
        cases h
      · rw [Comp.loop_succ_ok hr] at h
        obtain ⟨m, k, hm, hk, hfits⟩ := ih h
        obtain ⟨n, hn, hnm, hf⟩ := turn_back hm hback
        refine ⟨n, k + 1, hn, ?_, fun j hj => ?_⟩
        · rw [orbit_succ, hnm, hk]
        · cases j with
          | zero => exact hf
          | succ j =>
            rw [orbit_succ, hnm]
            exact hfits j (Nat.lt_of_succ_lt_succ hj)

end Loop

/-! ## The program -/

section Program

variable {overflow : Overflow} {start : Long} {n k fuel : Nat}

theorem assignment1_follows (overflow : Overflow) (hv : start.val = n) (hc : Clear n k) :
    ∃ (next : Long) (out : List Long), next.val = orbit n k ∧ out.length = k + 1 ∧
      Traces n out ∧ ∀ fuel, (assignment1 overflow (k + fuel) start).run [] =
        (Comp.loop .fuel (turn overflow) next fuel).run out := by
  obtain ⟨next, vs, hnext, hlen, htr, hloop⟩ := loop_follows overflow hv hc
  refine ⟨next, start :: vs, hnext, congrArg Nat.succ hlen, htr.cons hv, fun fuel => ?_⟩
  unfold assignment1 print
  rw [Comp.modify_bind, hloop]
  rfl

/-- An orbit that fits up to its first 1 is printed up to there. -/
theorem assignment1_ends (overflow : Overflow) (hv : start.val = n) (hc : Clear n k)
    (h1 : orbit n k = 1) (hf : k < fuel) :
    ∃ out, (assignment1 overflow fuel start).run [] = (.ok (), out) ∧ Traces n out := by
  obtain ⟨next, out, hnext, -, htr, hrun⟩ := assignment1_follows overflow hv hc
  obtain ⟨f, rfl⟩ : ∃ f, fuel = k + (f + 1) := ⟨fuel - k - 1, by omega⟩
  have hone : next.val = 1 := by
    rw [hnext, h1]
    rfl
  refine ⟨out, ?_, htr⟩
  rw [hrun, Comp.loop_succ_ok (turn_one hone f out)]
  rfl

/-- Before that it has been printed as far as the turns go. -/
theorem assignment1_waits (overflow : Overflow) (hv : start.val = n) (hc : Clear n fuel) :
    ∃ out, (assignment1 overflow fuel start).run [] = (.error .fuel, out) ∧ Traces n out := by
  obtain ⟨next, out, -, -, htr, hrun⟩ := assignment1_follows overflow hv hc
  exact ⟨out, hrun 0, htr⟩

/-- The first number that does not fit takes the program off the orbit, whatever the machine. -/
theorem assignment1_leaves (overflow : Overflow) (hv : start.val = n) (hc : Clear n k)
    (h1 : orbit n k ≠ 1) (hf : ¬ Fits (orbit n k)) :
    ((assignment1 overflow (k + 1) start).run []).1 = .error .undefined ∨
      ¬ Traces n ((assignment1 overflow (k + 1) start).run []).2 := by
  obtain ⟨next, out, hnext, hlen, -, hrun⟩ := assignment1_follows overflow hv hc
  have hne : next.val ≠ 1 := by omega
  rw [hrun 1]
  rcases turn_cases overflow hne 0 out with hr | ⟨a, hr, -⟩
  · rw [Comp.loop_succ_error hr]
    exact .inl rfl
  · rw [Comp.loop_succ_ok hr]
    right
    intro htr
    have hlast : (out ++ [a])[k + 1]? = some a := by
      rw [← hlen]
      exact List.getElem?_concat_length
    have hval := htr (k + 1) a hlast
    have hbig : orbit n (k + 1) = 3 * orbit n k + 1 := by
      rw [orbit_next, collatz_of_odd (by unfold Fits at hf; omega)]
    have hlarge : ¬ orbit n k ≤ 3074457345618258602 := fun h => hf (.inr h)
    exact result_ne (by omega) a hval

/-- The numbers printed are those of the orbit of `n`, and no step leaves the range of a `long`. -/
def PrintsOrbit {α : Type} (n : Nat) (program : Nat → Run α) : Prop :=
  ∀ fuel, ((program fuel).run []).1 ≠ .error .undefined ∧ Traces n ((program fuel).run []).2

theorem assignment1_prints (overflow : Overflow) (hv : start.val = n) :
    PrintsOrbit n (fun fuel => assignment1 overflow fuel start) ↔
      ∀ k, (∀ j ≤ k, orbit n j ≠ 1) → Fits (orbit n k) := by
  constructor
  · intro h k
    induction k using Nat.strongRecOn with
    | ind k ih =>
      intro h1
      by_contra hf
      have hc : Clear n k := fun j hj =>
        ⟨h1 j (Nat.le_of_lt hj), ih j hj fun i hi => h1 i (by omega)⟩
      rcases assignment1_leaves overflow hv hc (h1 k (Nat.le_refl k)) hf with hu | htr
      · exact (h (k + 1)).1 hu
      · exact htr (h (k + 1)).2
  · intro h fuel
    by_cases hone : ∃ k < fuel, orbit n k = 1
    · obtain ⟨k, hk, hk1⟩ := hone
      obtain ⟨m, hm, hm1, hbefore⟩ := first_one hk1
      have hc : Clear n m := fun j hj =>
        ⟨hbefore j hj, h j fun i hi => hbefore i (by omega)⟩
      obtain ⟨out, hrun, htr⟩ := assignment1_ends overflow hv hc hm1 (Nat.lt_of_le_of_lt hm hk)
      rw [hrun]
      exact ⟨nofun, htr⟩
    · have hne : ∀ j < fuel, orbit n j ≠ 1 := fun j hj he => hone ⟨j, hj, he⟩
      have hc : Clear n fuel := fun j hj => ⟨hne j hj, h j fun i hi => hne i (by omega)⟩
      obtain ⟨out, hrun, htr⟩ := assignment1_waits overflow hv hc
      rw [hrun]
      exact ⟨nofun, htr⟩

/-! `main` is `assignment1` on the parsed argument. -/

variable {argc : Nat} {argv : List CString} {args : Arguments}

theorem main_parsed (overflow : Overflow) (fuel : Nat) (h : parse_args argc argv = .ok args) :
    main overflow fuel argc argv = (do
      assignment1 overflow fuel args.start
      pure 0) := by
  unfold main
  rw [h]

theorem main_prints_iff (overflow : Overflow) (h : parse_args argc argv = .ok args) :
    PrintsOrbit n (fun fuel => main overflow fuel argc argv) ↔
      PrintsOrbit n (fun fuel => assignment1 overflow fuel args.start) := by
  unfold PrintsOrbit
  refine forall_congr' fun fuel => ?_
  dsimp only
  rw [main_parsed overflow fuel h]
  rcases hr : (assignment1 overflow fuel args.start).run [] with ⟨e | u, out⟩
  · rw [Comp.bind_error hr]
    show (Except.error e ≠ _ ∧ _) ↔ (Except.error e ≠ _ ∧ _)
    simp
  · rw [Comp.bind_ok hr]
    simp

/-- Whatever an overflow leaves behind, the program ends. -/
def EndsEverywhere (argc : Nat) (argv : List CString) : Prop :=
  ∀ overflow, ∃ fuel code out, (main overflow fuel argc argv).run [] = (.ok code, out)

theorem refused_ends {r : Argp.Refusal} (h : parse_args argc argv = .error r) :
    EndsEverywhere argc argv := by
  intro overflow
  unfold main
  rw [h]
  cases r with
  | code => exact ⟨0, -1, [], rfl⟩
  | unknown => exact ⟨0, Argp.EX_USAGE, [], rfl⟩

theorem endsEverywhere_iff (h : parse_args argc argv = .ok args) :
    EndsEverywhere argc argv ↔ 1 ≤ args.start.val ∧
      ∃ k, orbit args.start.val.toNat k = 1 ∧ ∀ j < k, Fits (orbit args.start.val.toNat j) := by
  constructor
  · intro hends
    obtain ⟨fuel, code, out, hrun⟩ := hends undefined
    rw [main_parsed undefined fuel h] at hrun
    obtain ⟨u, out', hloop, -⟩ := Comp.bind_eq_ok hrun
    unfold assignment1 print at hloop
    rw [Comp.modify_bind] at hloop
    obtain ⟨n, k, hn, hk, hfits⟩ := loop_reaches hloop
    have hpos : n ≠ 0 := by
      intro h0
      rw [h0, orbit_of_zero] at hk
      exact absurd hk (by decide)
    rw [hn]
    exact ⟨by omega, k, hk, hfits⟩
  · intro hreach overflow
    obtain ⟨hpos, k, hk, hfits⟩ := hreach
    obtain ⟨m, hm, hm1, hbefore⟩ := first_one hk
    have hv : args.start.val = (args.start.val.toNat : Nat) := by omega
    have hc : Clear args.start.val.toNat m := fun j hj => ⟨hbefore j hj, hfits j (by omega)⟩
    obtain ⟨out, hrun, -⟩ := assignment1_ends overflow hv hc hm1 (Nat.lt_succ_self m)
    refine ⟨m + 1, 0, out, ?_⟩
    rw [main_parsed overflow (m + 1) h, Comp.bind_ok hrun, Comp.pure_run]

/-- No START of a `long` from 0 on is refused. -/
theorem parse_args_dec (h : n ≤ longMax) :
    ∃ args, parse_args 2 [⟨dec n, dec_nulFree n⟩] = .ok args ∧ args.start.val = n := by
  have hend : strtolEnd (dec n) = [] := strtolEnd_of_digits (dec_ne_nil n) (dec_digit n)
  have hopt : ∀ args, parse_opt 0 args ⟨dec n, dec_nulFree n⟩ =
      .ok { args with start := strtolLong ⟨dec n, dec_nulFree n⟩ } := by
    intro args
    rw [parse_opt, if_pos rfl, if_neg]
    rw [hend]
    exact fun hor => hor.elim (fun hne => hne rfl) fun he => dec_ne_nil n he.symm
  refine ⟨⟨strtolLong ⟨dec n, dec_nulFree n⟩⟩, ?_, strtol_dec h⟩
  rw [parse_args, if_neg (by decide), argp_parse, Argp.parse_taken (hopt _)]
  rfl

end Program

/-- **Which orbits are printed**: whatever the machine makes of an overflow, the numbers printed for
    a START of at least 1 are those of its orbit, without a step out of range, exactly if every odd
    number that the orbit comes to before its first 1 is at most `largest`. -/
theorem main_prints (overflow : Overflow) (argc : Nat) (argv : List CString) (args : Arguments)
    (h : parse_args argc argv = .ok args) (hpos : 1 ≤ args.start.val) :
    PrintsOrbit args.start.val.toNat (fun fuel => main overflow fuel argc argv) ↔
      ∀ k, (∀ j ≤ k, orbit args.start.val.toNat j ≠ 1) →
        orbit args.start.val.toNat k % 2 = 0 ∨
          orbit args.start.val.toNat k ≤ 3074457345618258602 := by
  have hv : args.start.val = (args.start.val.toNat : Nat) := by omega
  rw [main_prints_iff overflow h, assignment1_prints overflow hv]
  rfl

/-- The orbit of 6 is printed, and with it the one of 3. -/
theorem main_prints_six :
    PrintsOrbit 6 (fun fuel => main twosComplement fuel 2 [⟨lit "6", by decide⟩]) := by
  refine (main_prints twosComplement 2 [⟨lit "6", by decide⟩] ⟨⟨6, by decide, by decide⟩⟩
    (by decide) (by decide)).mpr fun k hk => ?_
  have hk8 : k < 8 := by
    by_contra hge
    exact hk 8 (by omega) (by decide)
  have hall : ∀ k < 8, orbit 6 k ≤ 3074457345618258602 := by decide
  exact .inr (hall k hk8)

/-- `LONG_MAX` is odd, and no `long` is the number after it. -/
theorem maximum_leaves_orbit :
    parse_args 2 [⟨lit "9223372036854775807", by decide⟩] =
      .ok ⟨⟨9223372036854775807, by decide, by decide⟩⟩ ∧
    ∀ overflow, ¬ PrintsOrbit 9223372036854775807
      (fun fuel => main overflow fuel 2 [⟨lit "9223372036854775807", by decide⟩]) := by
  have hparse : parse_args 2 [⟨lit "9223372036854775807", by decide⟩] =
      .ok ⟨⟨9223372036854775807, by decide, by decide⟩⟩ := by decide
  refine ⟨hparse, fun overflow h => ?_⟩
  rw [main_prints_iff overflow hparse, assignment1_prints overflow rfl] at h
  have hfits := h 0 fun j hj => by
    rw [Nat.le_zero.mp hj]
    decide
  exact absurd hfits (by decide)

/-- **Which arguments the program comes to an end with**: those it refuses, and every START of at
    least 1 whose orbit comes to 1 without an odd number above `largest` before it. -/
theorem main_ends (argc : Nat) (argv : List CString) :
    EndsEverywhere argc argv ↔
      ∀ args, parse_args argc argv = .ok args → 1 ≤ args.start.val ∧
        ∃ k, orbit args.start.val.toNat k = 1 ∧
          ∀ j < k, orbit args.start.val.toNat j % 2 = 0 ∨
            orbit args.start.val.toNat j ≤ 3074457345618258602 := by
  rcases hp : parse_args argc argv with r | args
  · exact iff_of_true (refused_ends hp) fun args h => by cases h
  · rw [endsEverywhere_iff hp]
    constructor
    · intro h args' he
      cases he
      exact h
    · exact fun h => h args rfl

/-- 0 is even, and its half is 0. -/
theorem zero_endless :
    parse_args 2 [⟨lit "0", by decide⟩] = .ok ⟨⟨0, by decide, by decide⟩⟩ ∧
    ¬ EndsEverywhere 2 [⟨lit "0", by decide⟩] ∧
    ∀ overflow fuel, ((main overflow fuel 2 [⟨lit "0", by decide⟩]).run []).1 = .error .fuel := by
  have hparse : parse_args 2 [⟨lit "0", by decide⟩] = .ok ⟨⟨0, by decide, by decide⟩⟩ := by decide
  have hrun : ∀ overflow fuel,
      ((main overflow fuel 2 [⟨lit "0", by decide⟩]).run []).1 = .error .fuel := by
    intro overflow fuel
    have hc : Clear 0 fuel := by
      intro j _
      rw [orbit_of_zero]
      decide
    have hv : (⟨0, by decide, by decide⟩ : Long).val = (0 : Nat) := rfl
    obtain ⟨out, hout, -⟩ := assignment1_waits overflow hv hc
    rw [main_parsed overflow fuel hparse, Comp.bind_error hout]
  refine ⟨hparse, fun h => ?_, hrun⟩
  obtain ⟨fuel, code, out, hok⟩ := h undefined
  have := hrun undefined fuel
  rw [hok] at this
  cases this

end Grnvs.Collatz
