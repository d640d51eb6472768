/-
  `Arguments.java` of trace6: which command lines are taken, and for what.

  A command line spells a list of settings and one word (`Spells`); the constructor returns for
  these command lines and for no other, prints nothing then, and every field is what the last
  setting of it says (`arguments_iff`). All others end the program, one way or another.
-/
import Grnvs.Lib.Integer
import Grnvs.Trace.Java

namespace Grnvs.Trace

/-- Code that only prints. -/
abbrev Console := Comp Stop (List Event)

def println (text : String) : Console Unit := Comp.modify fun log => log ++ [.print (text ++ "\n")]

def printlnErr (text : String) : Console Unit :=
  Comp.modify fun log => log ++ [.printErr (text ++ "\n")]

/-- The fields of `Arguments`, with the one element of `fargs` in place of `dst`. -/
structure Fields where
  fargs : Option String
  iface : String
  timeout : Int
  hoplimit : Int
  attempts : Int
deriving DecidableEq, Repr

structure Arguments where
  dst : String
  iface : String
  timeout : Int
  hoplimit : Int
  attempts : Int
deriving DecidableEq, Repr

namespace Arguments

def helpLines : List String :=
  ["Traceroute for GRNVS",
    "Usage:",
    "-i/--interface: The interface on which the frame should be sent",
    "-t             The timeout that should be used for timed actions (default: 5)",
    "-q             The attempts that should be done per hop (default: 3)",
    "-m             The maximum hops to trace over (default: 15)",
    "DST:            The destination IPv6 address ",
    "-?/--help\t    Print this help message"]

def printHelp : Console Unit := helpLines.forM println

/-- `Integer.parseInt` of the value of an option, in its `try`. -/
def number (arg value : String) : Console Int :=
  match Integer.parseInt value with
  | some n => pure n
  | none => do
      printlnErr (arg ++ "is not a valid number")
      Comp.stop (.exit (-1))

/-- The loop over `argv`, from some argument on. A value that is missing is an access behind the
    array, which nothing catches. -/
def parseLoop (length : Nat) : List String → Fields → Console Fields
  | [], f => pure f
  | arg :: argv, f =>
      if arg = "-?" ∨ arg = "--help" then do
        printHelp
        Comp.stop (.exit 0)
      else if arg = "-i" ∨ arg = "--interface" then
        match argv with
        | [] => Comp.stop (.arrayIndex length)
        | value :: argv => parseLoop length argv { f with iface := value }
      else if arg = "-t" ∨ arg = "--timeout" then
        match argv with
        | [] => Comp.stop (.arrayIndex length)
        | value :: argv => do
            let n ← number arg value
            parseLoop length argv { f with timeout := n }
      else if arg = "-q" ∨ arg = "--attempts" then
        match argv with
        | [] => Comp.stop (.arrayIndex length)
        | value :: argv => do
            let n ← number arg value
            parseLoop length argv { f with attempts := n }
      else if arg = "-m" ∨ arg = "--hoplimit" then
        match argv with
        | [] => Comp.stop (.arrayIndex length)
        | value :: argv => do
            let n ← number arg value
            parseLoop length argv { f with hoplimit := n }
      else
        match f.fargs with
        | some _ => do
            println "Encountered an unexpected number of positional arguments"
            Comp.stop (.exit 1)
        | none => parseLoop length argv { f with fargs := some arg }

/-- The constructor. -/
def new (argv : List String) : Console Arguments := do
  Comp.when (argv.length = 0) do
    printHelp
    Comp.stop (.exit 0)
  let f ← parseLoop argv.length argv ⟨none, "eth0", 5, 15, 3⟩
  match f.fargs with
  | none => do
      println "Did not find positional argument: destination"
      Comp.stop (.exit 1)
  | some dst => pure ⟨dst, f.iface, f.timeout, f.hoplimit, f.attempts⟩

/-! ## What a command line spells -/

inductive Item where
  | word (w : String)
  | iface (v : String)
  | timeout (n : Int)
  | attempts (n : Int)
  | hoplimit (n : Int)
deriving DecidableEq, Repr

/-- The names of an option. -/
def names : Item → List String
  | .word _ => []
  | .iface _ => ["-i", "--interface"]
  | .timeout _ => ["-t", "--timeout"]
  | .attempts _ => ["-q", "--attempts"]
  | .hoplimit _ => ["-m", "--hoplimit"]

/-- Every name that is not a word. -/
def reserved : List String :=
  ["-?", "--help", "-i", "--interface", "-t", "--timeout", "-q", "--attempts", "-m", "--hoplimit"]

/-- The text of a value spells it. -/
def Value (v : String) : Item → Prop
  | .word _ => False
  | .iface v' => v = v'
  | .timeout n => Integer.parseInt v = some n
  | .attempts n => Integer.parseInt v = some n
  | .hoplimit n => Integer.parseInt v = some n

inductive Spells : List String → List Item → Prop where
  | nil : Spells [] []
  | word {w : String} {argv : List String} {items : List Item} : w ∉ reserved → Spells argv items →
      Spells (w :: argv) (.word w :: items)
  | option {name v : String} {argv : List String} {item : Item} {items : List Item} :
      name ∈ names item → Value v item → Spells argv items →
      Spells (name :: v :: argv) (item :: items)

/-- The fields after an item. -/
def Item.set (f : Fields) : Item → Fields
  | .word w => { f with fargs := some w }
  | .iface v => { f with iface := v }
  | .timeout n => { f with timeout := n }
  | .attempts n => { f with attempts := n }
  | .hoplimit n => { f with hoplimit := n }

def Item.word? : Item → Option String
  | .word w => some w
  | _ => none

def Item.iface? : Item → Option String
  | .iface v => some v
  | _ => none

def Item.timeout? : Item → Option Int
  | .timeout n => some n
  | _ => none

def Item.attempts? : Item → Option Int
  | .attempts n => some n
  | _ => none

def Item.hoplimit? : Item → Option Int
  | .hoplimit n => some n
  | _ => none

/-! ## The loop -/

section Loop

variable {length : Nat} {arg v name w : String} {argv : List String} {f f' : Fields} {item : Item}
  {items : List Item} {log log' : List Event}

theorem number_run {n : Int} (h : Integer.parseInt v = some n) :
    (number arg v).run log = (.ok n, log) := by
  unfold number
  rw [h]
  rfl

/-- What follows a number has got one. -/
theorem number_bind_ok {g : Int → Console Fields}
    (h : (number arg v >>= g).run log = (.ok f', log')) :
    ∃ n, Integer.parseInt v = some n ∧ (g n).run log = (.ok f', log') := by
  unfold number at h
  cases hv : Integer.parseInt v with
  | none =>
    rw [hv] at h
    cases h
  | some n =>
    rw [hv] at h
    exact ⟨n, rfl, h⟩

/-- One argument that is a word. -/
theorem parseLoop_word (hw : w ∉ reserved) (hf : f.fargs = none) :
    parseLoop length (w :: argv) f = parseLoop length argv (Item.set f (.word w)) := by
  simp only [reserved, List.mem_cons, List.not_mem_nil, or_false, not_or] at hw
  obtain ⟨h1, h2, h3, h4, h5, h6, h7, h8, h9, h10⟩ := hw
  rw [parseLoop.eq_def]
  dsimp only
  rw [if_neg (not_or.mpr ⟨h1, h2⟩), if_neg (not_or.mpr ⟨h3, h4⟩),
    if_neg (not_or.mpr ⟨h5, h6⟩), if_neg (not_or.mpr ⟨h7, h8⟩), if_neg (not_or.mpr ⟨h9, h10⟩), hf]
  rfl

/-- An option and its value. -/
theorem parseLoop_option (hname : name ∈ names item) (hv : Value v item) :
    (parseLoop length (name :: v :: argv) f).run log =
      (parseLoop length argv (item.set f)).run log := by
  cases item with
  | word w => exact hv.elim
  | iface v' =>
    have hn : name = "-i" ∨ name = "--interface" := by simpa [names] using hname
    rw [parseLoop, if_neg (by rcases hn with rfl | rfl <;> decide), if_pos hn]
    exact hv ▸ rfl
  | timeout n =>
    have hn : name = "-t" ∨ name = "--timeout" := by simpa [names] using hname
    rw [parseLoop, if_neg (by rcases hn with rfl | rfl <;> decide),
      if_neg (by rcases hn with rfl | rfl <;> decide), if_pos hn]
    exact Comp.bind_ok (number_run hv)
  | attempts n =>
    have hn : name = "-q" ∨ name = "--attempts" := by simpa [names] using hname
    rw [parseLoop, if_neg (by rcases hn with rfl | rfl <;> decide),
      if_neg (by rcases hn with rfl | rfl <;> decide),
      if_neg (by rcases hn with rfl | rfl <;> decide), if_pos hn]
    exact Comp.bind_ok (number_run hv)
  | hoplimit n =>
    have hn : name = "-m" ∨ name = "--hoplimit" := by simpa [names] using hname
    rw [parseLoop, if_neg (by rcases hn with rfl | rfl <;> decide),
      if_neg (by rcases hn with rfl | rfl <;> decide),
      if_neg (by rcases hn with rfl | rfl <;> decide),
      if_neg (by rcases hn with rfl | rfl <;> decide), if_pos hn]
    exact Comp.bind_ok (number_run hv)

/-- What an iteration that goes on has taken. -/
theorem parseLoop_cons_ok (h : (parseLoop length (arg :: argv) f).run log = (.ok f', log')) :
    (arg ∉ reserved ∧ f.fargs = none ∧
      (parseLoop length argv (Item.set f (.word arg))).run log = (.ok f', log')) ∨
    ∃ v rest item, argv = v :: rest ∧ arg ∈ names item ∧ Value v item ∧
      (parseLoop length rest (item.set f)).run log = (.ok f', log') := by
  rw [parseLoop.eq_def] at h
  dsimp only at h
  by_cases hhelp : arg = "-?" ∨ arg = "--help"
  · rw [if_pos hhelp] at h
    obtain ⟨_, _, -, h⟩ := Comp.bind_eq_ok h
    cases h
  rw [if_neg hhelp] at h
  by_cases hi : arg = "-i" ∨ arg = "--interface"
  · rw [if_pos hi] at h
    cases argv with
    | nil => cases h
    | cons v rest => exact .inr ⟨v, rest, .iface v, rfl, by simpa [names] using hi, rfl, h⟩
  rw [if_neg hi] at h
  by_cases ht : arg = "-t" ∨ arg = "--timeout"
  · rw [if_pos ht] at h
    cases argv with
    | nil => cases h
    | cons v rest =>
      obtain ⟨n, hv, h⟩ := number_bind_ok h
      exact .inr ⟨v, rest, .timeout n, rfl, by simpa [names] using ht, hv, h⟩
  rw [if_neg ht] at h
  by_cases hq : arg = "-q" ∨ arg = "--attempts"
  · rw [if_pos hq] at h
    cases argv with
    | nil => cases h
    | cons v rest =>
      obtain ⟨n, hv, h⟩ := number_bind_ok h
      exact .inr ⟨v, rest, .attempts n, rfl, by simpa [names] using hq, hv, h⟩
  rw [if_neg hq] at h
  by_cases hm : arg = "-m" ∨ arg = "--hoplimit"
  · rw [if_pos hm] at h
    cases argv with
    | nil => cases h
    | cons v rest =>
      obtain ⟨n, hv, h⟩ := number_bind_ok h
      exact .inr ⟨v, rest, .hoplimit n, rfl, by simpa [names] using hm, hv, h⟩
  rw [if_neg hm] at h
  cases hf : f.fargs with
  | some dst =>
    rw [hf] at h
    cases h
  | none =>
    rw [hf] at h
    refine .inl ⟨?_, rfl, h⟩
    simp only [reserved, List.mem_cons, List.not_mem_nil, or_false]
    rintro (h1 | h1 | h1 | h1 | h1 | h1 | h1 | h1 | h1 | h1)
    · exact hhelp (.inl h1)
    · exact hhelp (.inr h1)
    · exact hi (.inl h1)
    · exact hi (.inr h1)
    · exact ht (.inl h1)
    · exact ht (.inr h1)
    · exact hq (.inl h1)
    · exact hq (.inr h1)
    · exact hm (.inl h1)
    · exact hm (.inr h1)

/-- The words of a command line, with the one that has been found before. -/
def wordsFrom (f : Fields) (items : List Item) : List String :=
  f.fargs.toList ++ items.filterMap Item.word?

/-- An option adds no word. -/
theorem wordsFrom_option (h : Value v item) :
    wordsFrom f (item :: items) = wordsFrom (item.set f) items := by
  cases item with
  | word w => exact h.elim
  | iface v' => rfl
  | timeout n => rfl
  | attempts n => rfl
  | hoplimit n => rfl

/-- A word is added where there is none. -/
theorem wordsFrom_word (h : f.fargs = none) :
    wordsFrom f (.word w :: items) = wordsFrom (Item.set f (.word w)) items := by
  rw [wordsFrom, h]
  rfl

theorem parseLoop_run (h : Spells argv items) (hwords : (wordsFrom f items).length ≤ 1) :
    (parseLoop length argv f).run log = (.ok (items.foldl Item.set f), log) := by
  induction h generalizing f with
  | nil => rfl
  | @word w argv items hw _ ih =>
    have hf : f.fargs = none := by
      cases hf : f.fargs with
      | none => rfl
      | some dst => simp [wordsFrom, hf, Item.word?] at hwords
    rw [parseLoop_word hw hf, List.foldl_cons]
    apply ih
    rwa [← wordsFrom_word hf]
  | @option name v argv item items hname hv _ ih =>
    rw [parseLoop_option hname hv, List.foldl_cons]
    apply ih
    rwa [← wordsFrom_option hv]

/-- By induction on the number of arguments: an iteration takes one or two of them. -/
theorem parseLoop_ok (h : (parseLoop length argv f).run log = (.ok f', log')) :
    log' = log ∧ ∃ items, Spells argv items ∧ f' = items.foldl Item.set f ∧
      (wordsFrom f items).length ≤ 1 := by
  induction hn : argv.length using Nat.strong_induction_on generalizing argv f with
  | _ n ih =>
    cases argv with
    | nil =>
      cases h
      refine ⟨rfl, [], .nil, rfl, ?_⟩
      rw [wordsFrom, List.filterMap_nil, List.append_nil]
      exact Option.length_toList_le
    | cons arg argv =>
      obtain ⟨harg, hf, h⟩ | ⟨v, rest, item, rfl, harg, hv, h⟩ := parseLoop_cons_ok h
      · obtain ⟨hlog, items, hspells, hf', hwords⟩ :=
          ih argv.length (by rw [← hn]; exact Nat.lt_succ_self _) h rfl
        refine ⟨hlog, _, .word harg hspells, hf', ?_⟩
        rwa [wordsFrom_word hf]
      · obtain ⟨hlog, items, hspells, hf', hwords⟩ :=
          ih rest.length (by rw [← hn, List.length_cons, List.length_cons]; omega) h rfl
        refine ⟨hlog, _, .option harg hv hspells, hf', ?_⟩
        rwa [wordsFrom_option hv]

/-- A field holds what the last item that sets it says. -/
theorem foldl_field (β : Type) (field : Fields → β) (value : Item → Option β)
    (hset : ∀ f item, field (Item.set f item) = (value item).getD (field f)) (items : List Item)
    (f : Fields) :
    field (items.foldl Item.set f) = (items.filterMap value).getLastD (field f) := by
  induction items generalizing f with
  | nil => rfl
  | cons item items ih =>
    rw [List.foldl_cons, ih, hset]
    cases h : value item with
    | none => rw [List.filterMap_cons_none h, Option.getD_none]
    | some v => rw [List.filterMap_cons_some h, List.getLastD_cons, Option.getD_some]

theorem set_iface (f : Fields) (item : Item) :
    (Item.set f item).iface = (item.iface?).getD f.iface := by
  cases item with
  | _ => rfl

theorem set_timeout (f : Fields) (item : Item) :
    (Item.set f item).timeout = (item.timeout?).getD f.timeout := by
  cases item with
  | _ => rfl

theorem set_attempts (f : Fields) (item : Item) :
    (Item.set f item).attempts = (item.attempts?).getD f.attempts := by
  cases item with
  | _ => rfl

theorem set_hoplimit (f : Fields) (item : Item) :
    (Item.set f item).hoplimit = (item.hoplimit?).getD f.hoplimit := by
  cases item with
  | _ => rfl

theorem set_fargs (f : Fields) (item : Item) :
    (Item.set f item).fargs = (item.word?.map some).getD f.fargs := by
  cases item with
  | _ => rfl

end Loop

/-- The fields before the first argument. -/
def defaults : Fields := ⟨none, "eth0", 5, 15, 3⟩

/-- With at most one word, it is the destination. -/
theorem fargs_iff {items : List Item} {dst : String}
    (hwords : (wordsFrom defaults items).length ≤ 1) :
    (items.foldl Item.set defaults).fargs = some dst ↔ items.filterMap Item.word? = [dst] := by
  have hfargs : (items.foldl Item.set defaults).fargs =
      ((items.filterMap Item.word?).map some).getLastD none := by
    rw [foldl_field _ _ _ set_fargs, List.map_filterMap]
    rfl
  rw [hfargs]
  change (items.filterMap Item.word?).length ≤ 1 at hwords
  generalize items.filterMap Item.word? = words at hwords
  match words, hwords with
  | [], _ => simp
  | [w], _ => simp

/-- The constructor returns just when the command line spells settings and one word. Then it has
    printed nothing, and every field is what the last setting of it says, or its default. -/
theorem arguments_iff (argv : List String) (a : Arguments) (log : List Event) :
    (Arguments.new argv).run [] = (.ok a, log) ↔ log = [] ∧ ∃ items, Spells argv items ∧
      items.filterMap Item.word? = [a.dst] ∧
      a.iface = (items.filterMap Item.iface?).getLastD "eth0" ∧
      a.timeout = (items.filterMap Item.timeout?).getLastD 5 ∧
      a.hoplimit = (items.filterMap Item.hoplimit?).getLastD 15 ∧
      a.attempts = (items.filterMap Item.attempts?).getLastD 3 := by
  constructor
  · intro h
    unfold Arguments.new at h
    by_cases hargv : argv.length = 0
    · rw [Comp.when_pos hargv] at h
      cases h
    · rw [Comp.when_neg hargv, Comp.pure_bind_run] at h
      obtain ⟨f, log₁, hloop, h⟩ := Comp.bind_eq_ok h
      obtain ⟨rfl, items, hspells, rfl, hwords⟩ := parseLoop_ok hloop
      cases hdst : (items.foldl Item.set defaults).fargs with
      | none =>
        rw [show (items.foldl Item.set ⟨none, "eth0", 5, 15, 3⟩).fargs = none from hdst] at h
        cases h
      | some dst =>
        rw [show (items.foldl Item.set ⟨none, "eth0", 5, 15, 3⟩).fargs = some dst from hdst] at h
        cases h
        exact ⟨rfl, items, hspells, (fargs_iff hwords).mp hdst,
          foldl_field _ _ _ set_iface items defaults, foldl_field _ _ _ set_timeout items defaults,
          foldl_field _ _ _ set_hoplimit items defaults,
          foldl_field _ _ _ set_attempts items defaults⟩
  · rintro ⟨rfl, items, hspells, hword, hiface, htimeout, hhoplimit, hattempts⟩
    have hwords : (wordsFrom defaults items).length ≤ 1 := by
      show (items.filterMap Item.word?).length ≤ 1
      rw [hword]
      exact Nat.le_refl 1
    have hargv : ¬ argv.length = 0 := by
      intro hlen
      rw [List.length_eq_zero_iff.mp hlen] at hspells
      cases hspells
      cases hword
    have hdst := (fargs_iff hwords).mpr hword
    have hloop : (parseLoop argv.length argv defaults).run [] = _ := parseLoop_run hspells hwords
    rw [Arguments.new, Comp.when_neg hargv, Comp.pure_bind_run]
    rw [show (⟨none, "eth0", 5, 15, 3⟩ : Fields) = defaults from rfl, Comp.bind_ok hloop]
    rw [hdst, foldl_field _ _ _ set_iface, foldl_field _ _ _ set_timeout,
      foldl_field _ _ _ set_hoplimit, foldl_field _ _ _ set_attempts]
    cases a
    cases hiface
    cases htimeout
    cases hhoplimit
    cases hattempts
    rfl

end Arguments

end Grnvs.Trace
