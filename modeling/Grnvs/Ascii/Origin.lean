/-
  Where the message in the buffer comes from.

  One buffer and one count of unread messages serve both connections. `recvMessage` clears the
  buffer before it reads, so what stands in it is from the last read. A message is accepted on its
  own channel when the last read was on the socket of its step and the message is one of the batch
  that was read (`Separated`).

  `Stands` is the invariant between two steps: which batch the buffer holds, which socket it was
  read from, and how many messages of the connection are behind the cursor. `Ends` is the rule for
  the calls: they keep the channels apart, and have led to the next state if they return.
-/
import Grnvs.Ascii.Calm
import Grnvs.Ascii.Session

namespace Grnvs.Ascii

open Bytes Decimal Netstring

/-! ## Where a message comes from -/

/-- The batches a peer sends on each of the sockets. -/
abbrev Batches := Fd → List (List (List Byte))

/-- `b` was read last, from `fd`, and is what the peer sent there. -/
def From (batches : Batches) (fd : Fd) (log : List Event) (b : List (List Byte)) : Prop :=
  b ∈ batches fd ∧ lastRead log = some (fd, some (encs b))

/-- Every message was accepted from the socket of its step. -/
def Separated (batches : Batches) (log : List Event) : Prop :=
  ∀ pre step m post, log = pre ++ .accept step m :: post →
    ∃ b, From batches step.fd pre b ∧ m ∈ b

section Separated

variable {batches : Batches} {log es : List Event} {step : Step} {m : List Byte}
  {b : List (List Byte)}

/-- An event of a log in two parts is in the first or in the second. -/
theorem event_split {pre post : List Event} {e : Event} (h : log ++ es = pre ++ e :: post) :
    (∃ l, log = pre ++ e :: l) ∨ ∃ l, pre = log ++ l ∧ es = l ++ e :: post := by
  rcases List.append_eq_append_iff.mp h with ⟨l, hl, hr⟩ | ⟨l, hl, hr⟩
  · exact .inr ⟨l, hl, hr⟩
  · cases l with
    | nil =>
      rw [List.append_nil] at hl
      exact .inr ⟨[], by rw [hl, List.append_nil], hr.symm⟩
    | cons x l =>
      rw [List.cons_append, List.cons.injEq] at hr
      obtain ⟨rfl, -⟩ := hr
      exact .inl ⟨l, hl⟩

theorem Separated.append (h : Separated batches log) (hes : NoAccept es) :
    Separated batches (log ++ es) := by
  intro pre step m post heq
  rcases event_split heq with ⟨l, hl⟩ | ⟨l, -, rfl⟩
  · exact h pre step m l hl
  · exact absurd (List.mem_append_right _ (List.mem_cons_self ..)) (hes step m)

theorem Separated.front (h : Separated batches (log ++ es)) : Separated batches log := by
  rintro pre step m post rfl
  exact h pre step m (post ++ es) (by rw [List.append_assoc, List.cons_append])

/-- A message of the batch that was read last from the socket of the step. -/
theorem Separated.accept (h : Separated batches log) (hb : From batches step.fd log b)
    (hm : m ∈ b) : Separated batches (log ++ [.accept step m]) := by
  intro pre step' m' post heq
  rcases event_split heq with ⟨l, hl⟩ | ⟨l, rfl, hr⟩
  · exact h pre step' m' l hl
  · obtain ⟨rfl, hone⟩ | ⟨-, hnil⟩ := List.append_eq_singleton_iff.mp hr.symm
    · rw [List.cons.injEq, Event.accept.injEq] at hone
      obtain ⟨⟨rfl, rfl⟩, -⟩ := hone
      rw [List.append_nil]
      exact ⟨b, hb, hm⟩
    · cases hnil

end Separated

/-! ## The client between two steps -/

/-- The call received nothing and took no step. -/
structure Idle (w w' : World) : Prop extends Keeps w w' where
  log : ∃ es, w'.log = w.log ++ es ∧ NoAccept es

section State

variable (batches : Batches) (msg : List Byte)

/-- The peers have sent the batches `used`, and what the sockets still have are the others. -/
structure Wires (used : Batches) (w : World) : Prop where
  pending : ∀ fd, ∃ rest, batches fd = used fd ++ rest ∧
    (w.net fd).pending = rest.map fun b => some (encs b)
  size : (w.mem .recvbuf).length = BUFSIZE
  msg : IsStr w Arr.msg.ptr msg
  log : Separated batches w.log

/-- The batch `done ++ unread` was read last, from `fd`. The other sockets are as in `base`, and
    `n` messages of `fd` are behind the cursor. -/
structure Stands (base : Batches) (fd : Fd) (n : Nat) (done unread : List (List Byte)) (w : World)
    (c : Cursor) : Prop where
  holds : Holds w c done unread
  last : lastRead w.log = some (fd, some (encs (done ++ unread)))
  wires : ∃ before, Wires batches msg (Function.update base fd (before ++ [done ++ unread])) w ∧
    (before.flatten ++ done).length = n

/-- Nothing was received. -/
structure Blank (w : World) (c : Cursor) : Prop where
  start : c.startOfNetstring = Arr.recvbuf.ptr
  empty : IsStr w Arr.recvbuf.ptr []
  msg : IsStr w Arr.msg.ptr msg
  log : Separated batches w.log

/-- A message stands at the cursor, or nothing was received. -/
def Arrived (base : Batches) (fd : Fd) (n : Nat) (w : World) (c : Cursor) : Prop :=
  Blank batches msg w c ∨ ∃ done m unread, Stands batches msg base fd n done (m :: unread) w c

/-- The last message of the cursor has been taken. -/
def Taken (base : Batches) (fd : Fd) (n : Nat) (w : World) (c : Cursor) : Prop :=
  ∃ done unread, done ≠ [] ∧ Stands batches msg base fd n done unread w c

/-- A run that has kept the channels apart, and has returned with `Q` if it returned. -/
structure Ends {α : Type} (Q : α → World → Prop) (r : Except Stop α × World) : Prop where
  ok : ∀ a, r.1 = .ok a → Q a r.2
  log : Separated batches r.2.log

end State

section Ends

variable {α β : Type} {batches : Batches} {Q : α → World → Prop} {R : β → World → Prop}
  {x : Run α} {f : α → Run β} {w w' : World} {a : α}

theorem ends_ok (hr : x.run w = (.ok a, w')) (hq : Q a w') (hs : Separated batches w'.log) :
    Ends batches Q (x.run w) := by
  rw [hr]
  refine ⟨?_, hs⟩
  rintro b ⟨⟩
  exact hq

theorem ends_error {e : Stop} (hr : x.run w = (.error e, w')) (hs : Separated batches w'.log) :
    Ends batches Q (x.run w) := by
  rw [hr]
  refine ⟨?_, hs⟩
  rintro b ⟨⟩

theorem ends_bind (hx : Ends batches Q (x.run w))
    (hf : ∀ a w', Q a w' → Ends batches R ((f a).run w')) : Ends batches R ((x >>= f).run w) := by
  rcases hr : x.run w with ⟨e | a, w'⟩
  · rw [hr] at hx
    exact ends_error (Comp.bind_error hr) hx.log
  · rw [hr] at hx
    rw [Comp.bind_ok hr]
    exact hf a w' (hx.ok a rfl)

/-- What a run that returned has returned with. -/
theorem Ends.run (h : Ends batches Q (x.run w)) (hr : x.run w = (.ok a, w')) : Q a w' := by
  have := h.ok a
  rw [hr] at this
  exact this rfl

theorem Ends.mono {Q' : α → World → Prop} {r : Except Stop α × World} (h : Ends batches Q r)
    (hq : ∀ a, Q a r.2 → Q' a r.2) : Ends batches Q' r := ⟨fun a ha => hq a (h.ok a ha), h.log⟩

end Ends

section Idle

variable {batches base used : Batches} {msg : List Byte} {fd : Fd} {n : Nat} {w w' : World}
  {c : Cursor} {done unread : List (List Byte)} {m : List Byte}

theorem isStr_of_mem {a : Arr} {s : List Byte} (h : IsStr w a.ptr s) (hm : w'.mem a = w.mem a) :
    IsStr w' a.ptr s := by
  unfold IsStr
  rw [Arr.ptr_blk, World.block_arr, hm]
  exact h

theorem Idle.trans {w'' : World} (h : Idle w w') (h' : Idle w' w'') : Idle w w'' where
  toKeeps := h.toKeeps.trans h'.toKeeps
  log := by
    obtain ⟨es, hl, he⟩ := h.log
    obtain ⟨es', hl', he'⟩ := h'.log
    exact ⟨es ++ es', by rw [hl', hl, List.append_assoc], he.append he'⟩

theorem Idle.separated (h : Idle w w') (hs : Separated batches w.log) :
    Separated batches w'.log := by
  obtain ⟨es, hl, he⟩ := h.log
  rw [hl]
  exact hs.append he

theorem Wires.idle (h : Wires batches msg used w) (hi : Idle w w') : Wires batches msg used w' where
  pending := by rw [hi.net]; exact h.pending
  size := by rw [hi.recvbuf]; exact h.size
  msg := isStr_of_mem h.msg hi.msg
  log := hi.separated h.log

theorem Stands.idle (h : Stands batches msg base fd n done unread w c) (hi : Idle w w') :
    Stands batches msg base fd n done unread w' c where
  holds := h.holds.of_mem hi.recvbuf
  last := hi.last.trans h.last
  wires := let ⟨before, hw, hn⟩ := h.wires; ⟨before, hw.idle hi, hn⟩

theorem Arrived.idle (h : Arrived batches msg base fd n w c) (hi : Idle w w') :
    Arrived batches msg base fd n w' c := by
  rcases h with h | ⟨done, m, unread, h⟩
  · exact .inl ⟨h.start, isStr_of_mem h.empty hi.recvbuf, isStr_of_mem h.msg hi.msg,
      hi.separated h.log⟩
  · exact .inr ⟨done, m, unread, h.idle hi⟩

theorem Stands.separated (h : Stands batches msg base fd n done unread w c) :
    Separated batches w.log := let ⟨_, hw, _⟩ := h.wires; hw.log

theorem Arrived.separated (h : Arrived batches msg base fd n w c) : Separated batches w.log := by
  rcases h with h | ⟨_, _, _, h⟩
  · exact h.log
  · exact h.separated

theorem Calm.idle {α : Type} {x : Run α} {a : α} (hx : Calm x) (hr : x.run w = (.ok a, w')) :
    Idle w w' := by
  have hk := hx.2 w a (congrArg Prod.fst hr)
  have hl := hx.1 w
  rw [hr] at hk hl
  exact { hk with log := hl }

/-- A calm call that returns was idle. -/
theorem Calm.ends {α : Type} {x : Run α} (hx : Calm x) (hs : Separated batches w.log) :
    Ends batches (fun a w' => x.run w = (.ok a, w') ∧ Idle w w') (x.run w) := by
  obtain ⟨es, hl, he⟩ := hx.1 w
  have hlog : Separated batches (x.run w).2.log := by
    rw [hl]
    exact hs.append he
  rcases hr : x.run w with ⟨e | a, w'⟩
  · rw [hr] at hlog
    rw [← hr]
    exact ends_error hr hlog
  · rw [hr] at hlog
    rw [← hr]
    exact ends_ok hr ⟨hr, hx.idle hr⟩ hlog

end Idle

/-! ## Receiving -/

section Receive

variable {batches base used : Batches} {before : List (List (List Byte))} {msg : List Byte} {fd : Fd}
  {n fuel : Nat} {w w' : World} {c : Cursor} {done unread : List (List Byte)}
  {got : Option (List Byte)} {p : Peer}

theorem Received.separated (h : Received .recvbuf fd got p w w') (hs : Separated batches w.log) :
    Separated batches w'.log := by
  rw [h.log]
  exact hs.append (by simp [NoAccept])

/-- The next batch of `fd` has been read. -/
theorem Wires.received {b : List (List Byte)} {rest : List (List (List Byte))}
    (hw : Wires batches msg (Function.update base fd before) w)
    (h : Received .recvbuf fd got p w w') (hb : batches fd = before ++ b :: rest)
    (hp : p.pending = rest.map fun b => some (encs b)) :
    Wires batches msg (Function.update base fd (before ++ [b])) w' where
  pending sd := by
    by_cases hsd : sd = fd
    · subst hsd
      refine ⟨rest, ?_, ?_⟩
      · rw [Function.update_self, hb, List.append_assoc, List.singleton_append]
      · rw [h.net, Function.update_self, hp]
    · have hold := hw.pending sd
      rw [Function.update_of_ne hsd] at hold
      rw [Function.update_of_ne hsd, h.net, Function.update_of_ne hsd]
      exact hold
  size := h.size
  msg := isStr_of_mem hw.msg (h.mem _ (by decide) (by decide) (by decide))
  log := h.separated hw.log

variable [Libc]

end Receive

/-! ## Checking and accepting -/

section Check

variable {batches base : Batches} {msg : List Byte} {fd fd' : Fd} {n : Nat} {w w' : World}
  {c : Cursor} {done unread : List (List Byte)} {m want t : List Byte} {expected src : Ptr}
  {step : Step}

/-- A calm call that cannot return without a message in the buffer. -/
theorem Calm.passed {x : Run Unit} (hx : Calm x) (h : Arrived batches msg base fd n w c)
    (hblank : Blank batches msg w c → ∀ a, (x.run w).1 ≠ .ok a) :
    Ends batches (fun _ w' => ∃ done m unread,
      Stands batches msg base fd n done (m :: unread) w c ∧ Idle w w' ∧ x.run w = (.ok (), w'))
      (x.run w) := by
  refine ⟨fun u hu => ?_, (hx.ends h.separated).log⟩
  obtain ⟨hr, hi⟩ := (hx.ends h.separated).ok u hu
  rcases h with h | ⟨done, m, unread, h⟩
  · exact absurd hu (hblank h u)
  · exact ⟨done, m, unread, h, hi, hr⟩

/-- The message at the cursor is one of the batch that was read last, from the socket the cursor
    stands for. -/
theorem Stands.origin (h : Stands batches msg base fd n done unread w c) :
    From batches fd w.log (done ++ unread) := by
  obtain ⟨before, hw, -⟩ := h.wires
  obtain ⟨rest, hb, -⟩ := hw.pending fd
  rw [Function.update_self] at hb
  exact ⟨by rw [hb]; simp, h.last⟩

variable [Libc]

/-- Nothing passes no check. -/
theorem Blank.refused (h : Blank batches msg w c) (hx : IsStr w expected want) (hne : want ≠ [])
    (u : Unit) : ((checkMessage fd' expected c.startOfNetstring).run w).1 ≠ .ok u := by
  intro hr
  rw [h.start] at hr
  rcases checkMessage_returns hx h.empty hr with hE | he
  · cases hE
  · exact hne he.symm

end Check

end Grnvs.Ascii
