/-
  Histories of the module: any number of openings, reads, writes and closings in any order, by a
  process that writes to and closes only descriptors it has got from an opening and not closed.

  The two descriptors that a layer 3 socket writes to are never closed and never given back. So what
  decides how a packet leaves is the last layer 3 opening of the whole history, whatever has been
  closed and opened since (`writes_routed`), these descriptors never dangle, and two more of them
  stay open after every layer 3 opening (`sockets_counted`).
-/
import Grnvs.Lib.Machine
import Grnvs.Raw.Socket
import Grnvs.Stats.Arguments
import Grnvs.Stats.Elapsed

namespace Grnvs.Raw

open Bytes Descriptors
open Grnvs.Stats (Errno Stop)

/-! ## Histories -/

/-- A process and the descriptors it has opened with `grnvs_open` and not closed. -/
structure Process where
  world : World
  held : List Int

def Process.start (kernel : Kernel) (table : Table File) (reader : Stats.World) : Process :=
  ⟨⟨.initial, kernel, table, reader, [], []⟩, []⟩

inductive Event where
  | opened (o : Opening)
  | read (ret : Int × Option Nat)
  | wrote (fd : Int) (buf : List Byte) (len : Nat) (ret : Int) (ts : List Transmission)
  | closed (fd : Int)

/-- A call of `grnvs_open` that returns, with the answers it has got. -/
structure Opens (w : World) (o : Opening) (w' : World) : Prop where
  run : (grnvs_open o.ifname o.layer).run w = (.ok o.fd, w')
  of : o.Of w.table
  after : w' = w.after (o.statics w.statics) (o.table w.table) o.calls

/-- Every call that returns has got some answers. -/
theorem exists_opens {w w' : World} {ifname : CString} {layer fd : Int}
    (h : (grnvs_open ifname layer).run w = (.ok fd, w')) :
    ∃ o : Opening, o.ifname = ifname ∧ o.layer = layer ∧ o.fd = fd ∧ Opens w o w' := by
  obtain ⟨o, rfl, rfl, rfl, hof, hw⟩ := grnvs_open_ok h
  exact ⟨o, rfl, rfl, rfl, ⟨h, hof, hw⟩⟩

/-- The calls of the module, and what else can happen to the descriptors of the process. -/
inductive Step : Process → List Event → Process → Prop where
  | opens {s : Process} {o : Opening} {w' : World} : Opens s.world o w' →
      Step s [.opened o] ⟨w', o.fd :: s.held⟩
  | reads {s : Process} {fuel maxlen : Nat} {timeout : Option Nat} {ret : Int × Option Nat}
      {w' : World} : (grnvs_read fuel maxlen timeout).run s.world = (.ok ret, w') →
      Step s [.read ret] { s with world := w' }
  | writes {s : Process} {fuel len : Nat} {fd ret : Int} {buf : List Byte} {w' : World}
      {ts : List Transmission} : fd ∈ s.held →
      (grnvs_write fuel fd buf len).run s.world = (.ok ret, w') →
      w'.log = s.world.log ++ ts.map .transmit → Step s [.wrote fd buf len ret ts] { s with world := w' }
  | closes {s : Process} {fd ret : Int} {w' : World} : fd ∈ s.held →
      (grnvs_close fd).run s.world = (.ok ret, w') →
      Step s [.closed fd] ⟨w', s.held.erase fd⟩
  | otherOpens {s : Process} :
      Step s [] { s with world := { s.world with table := s.world.table.install .other } }
  | otherCloses {s : Process} {fd : Int} : s.world.table.file fd = some .other →
      Step s [] { s with world := { s.world with table := s.world.table.remove fd } }

def history (s₀ : Process) : Machine Process Event := ⟨s₀, Step⟩

/-- The opening of a layer 3 socket. -/
def Event.layer3 : Event → Option Opening
  | .opened o => if o.Layer3 then some o else none
  | _ => none

/-- The layer 3 openings of a history. -/
def layer3 (log : List Event) : List Opening := log.filterMap Event.layer3

/-- The descriptors that the last layer 3 opening has left. -/
def writersOf (log : List Event) : Int × Int :=
  ((layer3 log).map fun o => (o.six, o.four)).getLastD (-1, -1)

@[simp] theorem layer3_append (log es : List Event) :
    layer3 (log ++ es) = layer3 log ++ layer3 es := List.filterMap_append

theorem layer3_opened (o : Opening) :
    layer3 [.opened o] = if o.Layer3 then [o] else [] := by
  by_cases h : o.Layer3
  · have hsome : Event.layer3 (.opened o) = some o := if_pos h
    rw [if_pos h, layer3, List.filterMap_cons_some hsome, List.filterMap_nil]
  · have hnone : Event.layer3 (.opened o) = none := if_neg h
    rw [if_neg h, layer3, List.filterMap_cons_none hnone, List.filterMap_nil]

theorem writersOf_opened (log : List Event) (o : Opening) :
    writersOf (log ++ [.opened o]) = if o.Layer3 then (o.six, o.four) else writersOf log := by
  unfold writersOf
  rw [layer3_append, layer3_opened]
  by_cases h : o.Layer3
  · rw [if_pos h, if_pos h, List.map_append, List.map_singleton, List.getLastD_concat]
  · rw [if_neg h, if_neg h, List.append_nil]

theorem writersOf_of_layer3 {log es : List Event} (h : layer3 es = []) :
    writersOf (log ++ es) = writersOf log := by
  unfold writersOf
  rw [layer3_append, h, List.append_nil]

/-! ## The invariant -/

/-- The socket an opening returns, bound to its interface. -/
def File.isBound : File → Prop
  | .socket .packet _ (some _) => True
  | _ => False

def File.isSocket : File → Bool
  | .socket _ _ _ => true
  | .other => false

/-- The sockets a layer 3 socket writes to. -/
structure Writers (t : Table File) (o : Opening) : Prop where
  six : t.file o.six = some (.socket .inet6 SOCK_RAW none)
  four : t.file o.four = some (.socket .inet SOCK_RAW none)

/-- What holds after every history. -/
structure Inv (n₀ : Nat) (log : List Event) (s : Process) : Prop where
  held : Table.Holds File.isBound s.world.table s.held
  writers : ∀ o ∈ layer3 log, Writers s.world.table o
  last : (s.world.statics.write_six, s.world.statics.write_four) = writersOf log
  count : s.world.table.count File.isSocket = n₀ + s.held.length + 2 * (layer3 log).length

section Table

variable {t : Table File} {o : Opening} {fd ifindex type : Int} {f : File} {bound : Option Int}

theorem bindTo_eq (h : t.file fd = some (.socket .packet type bound)) :
    bindTo ifindex fd t = t.assign fd (.socket .packet type (some ifindex)) := by
  unfold bindTo
  rw [h]

theorem Opening.Of.file_socket (h : o.Of t) :
    ((o.writers t).install (.socket .packet o.layer none)).file o.fd =
      some (.socket .packet o.layer none) := by
  rw [h.fd]
  exact Table.file_install_self _ _

/-- The table of an opening is that of its sockets, one of them bound. -/
theorem Opening.Of.table_eq (h : o.Of t) :
    o.table t = ((o.writers t).install (.socket .packet o.layer none)).assign o.fd
      (.socket .packet o.layer (some o.ifindex)) :=
  bindTo_eq h.file_socket

theorem Opening.Of.file_fd (h : o.Of t) :
    (o.table t).file o.fd = some (.socket .packet o.layer (some o.ifindex)) := by
  rw [h.table_eq]
  exact Table.file_assign_self _ h.file_socket

theorem Opening.writers_of_file (o : Opening) (h : t.file fd = some f) :
    (o.writers t).file fd = some f := by
  unfold Opening.writers
  by_cases hlayer : o.Layer3
  · rw [if_pos hlayer]
    exact Table.file_install_of_file _ (Table.file_install_of_file _ h)
  · rw [if_neg hlayer]
    exact h

/-- An opening takes free descriptors only. -/
theorem Opening.Of.fd_ne (h : o.Of t) (hfd : (o.writers t).file fd = some f) : fd ≠ o.fd := by
  rw [h.fd]
  exact Table.ne_lowest_of_file hfd

theorem Opening.Of.table_of_file (h : o.Of t) (hfd : (o.writers t).file fd = some f) :
    (o.table t).file fd = some f := by
  rw [h.table_eq, Table.file_assign_ne _ (Table.nonneg_of_file h.file_socket) (h.fd_ne hfd)]
  exact Table.file_install_of_file _ hfd

theorem Opening.Of.writers_table (h : o.Of t) (hlayer : o.Layer3) : Writers (o.table t) o := by
  have hsix := Table.file_install_self t (.socket .inet6 SOCK_RAW none)
  have hfour := Table.file_install_self (t.install (.socket .inet6 SOCK_RAW none))
    (.socket .inet SOCK_RAW none)
  rw [← h.six hlayer] at hsix
  rw [← h.four hlayer] at hfour
  constructor
  · apply h.table_of_file
    rw [Opening.writers, if_pos hlayer]
    exact Table.file_install_of_file _ hsix
  · apply h.table_of_file
    rw [Opening.writers, if_pos hlayer]
    exact hfour

/-- Without its packet socket an opening leaves the table of the writers. -/
theorem Opening.Of.file_remove (h : o.Of t) (fd : Int) :
    ((o.table t).remove o.fd).file fd = (o.writers t).file fd := by
  by_cases hfd : fd = o.fd
  · rw [hfd, Table.file_remove_self, h.fd, Table.file_lowest]
  · have h0 := Table.nonneg_of_file h.file_fd
    rw [Table.file_remove_ne h0 hfd, h.table_eq, Table.file_assign_ne _ h0 hfd,
      Table.file_install_ne _ (h.fd ▸ hfd)]

theorem Opening.Of.count_table (h : o.Of t) :
    (o.table t).count File.isSocket =
      t.count File.isSocket + 1 + if o.Layer3 then 2 else 0 := by
  have hbound : (File.socket .packet o.layer (some (o.ifindex : Int))).isSocket =
      (File.socket .packet o.layer none).isSocket := rfl
  rw [h.table_eq, Table.count_assign h.file_socket hbound, Table.count_install, Opening.writers]
  by_cases hlayer : o.Layer3
  · rw [if_pos hlayer, if_pos hlayer, Table.count_install, Table.count_install]
    rfl
  · rw [if_neg hlayer, if_neg hlayer]
    rfl

theorem Writers.install (h : Writers t o) (f : File) : Writers (t.install f) o :=
  ⟨Table.file_install_of_file f h.six, Table.file_install_of_file f h.four⟩

/-- The writers stay when something else is closed. -/
theorem Writers.remove (h : Writers t o) (hfd : t.file fd = some f)
    (hf : ∀ family, family ≠ Family.packet → f ≠ .socket family SOCK_RAW none) :
    Writers (t.remove fd) o := by
  have h0 := Table.nonneg_of_file hfd
  have hne : ∀ {fd' family}, family ≠ Family.packet →
      t.file fd' = some (.socket family SOCK_RAW none) → fd' ≠ fd := by
    intro fd' family hfamily hfd' he
    rw [he, hfd, Option.some.injEq] at hfd'
    exact hf family hfamily hfd'
  constructor
  · rw [Table.file_remove_ne h0 (hne (by decide) h.six), h.six]
  · rw [Table.file_remove_ne h0 (hne (by decide) h.four), h.four]

end Table

section Step

variable {n₀ : Nat} {log es : List Event} {s s' : Process}

/-- A step that changes neither the descriptors nor the way packets take. -/
theorem Inv.frame (h : Inv n₀ log s) (htable : s'.world.table = s.world.table)
    (hheld : s'.held = s.held) (hsix : s'.world.statics.write_six = s.world.statics.write_six)
    (hfour : s'.world.statics.write_four = s.world.statics.write_four) (hes : layer3 es = []) :
    Inv n₀ (log ++ es) s' := by
  constructor
  · rw [htable, hheld]
    exact h.held
  · rw [htable, layer3_append, hes, List.append_nil]
    exact h.writers
  · rw [hsix, hfour, writersOf_of_layer3 hes]
    exact h.last
  · rw [htable, hheld, layer3_append, hes, List.append_nil]
    exact h.count

theorem Inv.opens (h : Inv n₀ log s) {o : Opening} {w' : World} (ho : Opens s.world o w') :
    Inv n₀ (log ++ [.opened o]) ⟨w', o.fd :: s.held⟩ := by
  obtain ⟨-, hof, rfl⟩ := ho
  have hkept : ∀ fd f, s.world.table.file fd = some f →
      (o.table s.world.table).file fd = some f :=
    fun fd f hfd => hof.table_of_file (o.writers_of_file hfd)
  constructor
  · show Table.Holds File.isBound (o.table s.world.table) (o.fd :: s.held)
    refine Table.Holds.cons (h.held.congr ?_) hof.file_fd trivial ?_
    · intro fd hfd
      obtain ⟨f, hf, -⟩ := h.held.file fd hfd
      rw [hkept fd f hf, hf]
    · intro hfd
      obtain ⟨f, hf, -⟩ := h.held.file _ hfd
      exact hof.fd_ne (o.writers_of_file hf) rfl
  · intro o' ho'
    rw [layer3_append, List.mem_append, layer3_opened] at ho'
    cases ho' with
    | inl hold =>
      obtain ⟨hsix, hfour⟩ := h.writers o' hold
      exact ⟨hkept _ _ hsix, hkept _ _ hfour⟩
    | inr hnew =>
      by_cases hlayer : o.Layer3
      · rw [if_pos hlayer, List.mem_singleton] at hnew
        rw [hnew]
        exact hof.writers_table hlayer
      · rw [if_neg hlayer] at hnew
        exact absurd hnew List.not_mem_nil
  · show ((o.statics s.world.statics).write_six, (o.statics s.world.statics).write_four) = _
    rw [writersOf_opened, o.statics_eq]
    by_cases hlayer : o.Layer3
    · simp only [if_pos hlayer]
    · simp only [if_neg hlayer]
      exact h.last
  · show (o.table s.world.table).count File.isSocket = n₀ + (s.held.length + 1) + _
    rw [hof.count_table, h.count, layer3_append, layer3_opened]
    by_cases hlayer : o.Layer3
    · rw [if_pos hlayer, if_pos hlayer, List.length_append, List.length_singleton]
      omega
    · rw [if_neg hlayer, if_neg hlayer, List.append_nil]
      omega

theorem Inv.closes (h : Inv n₀ log s) {fd ret : Int} {w' : World} (hfd : fd ∈ s.held)
    (hrun : (grnvs_close fd).run s.world = (.ok ret, w')) :
    Inv n₀ (log ++ [.closed fd]) ⟨w', s.held.erase fd⟩ := by
  obtain ⟨f, hf, hbound⟩ := h.held.file fd hfd
  have hopen : s.world.table.file fd ≠ none := by
    rw [hf]
    exact Option.some_ne_none f
  obtain ⟨result, hclose⟩ := grnvs_close_run hopen
  rw [hclose] at hrun
  cases hrun
  have hpacket : ∀ family, family ≠ Family.packet → f ≠ .socket family SOCK_RAW none := by
    intro family hfamily he
    rw [he] at hbound
    cases family with
    | packet => exact hfamily rfl
    | inet => exact hbound
    | inet6 => exact hbound
  have hsocket : f.isSocket = true := by
    cases f with
    | socket family type bound => rfl
    | other => exact hbound.elim
  constructor
  · exact h.held.erase hfd
  · rw [layer3_append]
    intro o ho
    exact (h.writers o (by simpa [layer3, Event.layer3] using ho)).remove hf hpacket
  · rw [writersOf_of_layer3 rfl]
    exact h.last
  · have hcount := @Table.count_remove File s.world.table f fd File.isSocket hf
    rw [h.count, if_pos hsocket] at hcount
    have hlen : (s.held.erase fd).length + 1 = s.held.length := by
      rw [List.length_erase_of_mem hfd]
      have := List.length_pos_of_mem hfd
      omega
    show (s.world.table.remove fd).count File.isSocket = n₀ + (s.held.erase fd).length + _
    rw [layer3_append, show layer3 [.closed fd] = [] from rfl, List.append_nil]
    omega

theorem Inv.step (h : Inv n₀ log s) (hs : Step s es s') : Inv n₀ (log ++ es) s' := by
  cases hs with
  | opens ho => exact h.opens ho
  | reads hrun =>
    obtain ⟨-, hw⟩ := grnvs_read_ok hrun
    rw [hw]
    exact h.frame rfl rfl rfl rfl rfl
  | @writes _ _ _ _ _ w' _ _ hrun _ =>
    obtain ⟨-, hcases⟩ := grnvs_write_ok hrun
    obtain ⟨-, -, rfl⟩ | ⟨c, k, n, -, -, -, rfl⟩ := hcases
    · exact h.frame rfl rfl rfl rfl rfl
    · exact h.frame rfl rfl rfl rfl rfl
  | closes hfd hrun => exact h.closes hfd hrun
  | otherOpens =>
    constructor
    · exact h.held.install .other
    · rw [layer3_append, show layer3 [] = [] from rfl, List.append_nil]
      exact fun o ho => (h.writers o ho).install .other
    · rw [List.append_nil]
      exact h.last
    · rw [List.append_nil]
      show (s.world.table.install .other).count File.isSocket = _
      rw [Table.count_install, h.count]
      rfl
  | @otherCloses fd hfd =>
    have hnot : fd ∉ s.held := by
      intro hmem
      obtain ⟨f, hf, hbound⟩ := h.held.file fd hmem
      rw [hfd, Option.some.injEq] at hf
      rw [← hf] at hbound
      exact hbound
    constructor
    · exact h.held.remove_of_notMem (Table.nonneg_of_file hfd) hnot
    · rw [List.append_nil]
      intro o ho
      exact (h.writers o ho).remove hfd fun family _ he => nomatch he
    · rw [List.append_nil]
      exact h.last
    · rw [List.append_nil]
      have hcount := @Table.count_remove File s.world.table .other fd File.isSocket hfd
      show (s.world.table.remove fd).count File.isSocket = _
      rw [← h.count, ← hcount]
      rfl

end Step

section Histories

variable {kernel : Kernel} {table : Table File} {reader : Stats.World} {log : List Event}
  {s : Process}

theorem inv_start (kernel : Kernel) (table : Table File) (reader : Stats.World) :
    Inv (table.count File.isSocket) [] (Process.start kernel table reader) :=
  ⟨Table.holds_nil, fun _ h => absurd h List.not_mem_nil, rfl, rfl⟩

theorem inv_history (h : (history (Process.start kernel table reader)).Trace log s) :
    Inv (table.count File.isSocket) log s :=
  h.invariant (inv_start kernel table reader) fun _ _ _ _ hinv hstep => hinv.step hstep

/-- After every history the descriptors that are held stand for bound packet sockets, those of every
    layer 3 opening still stand for its two sockets, and apart from them and from what was there at
    the start no socket is open. -/
theorem sockets_counted (h : (history (Process.start kernel table reader)).Trace log s) :
    Table.Holds File.isBound s.world.table s.held ∧
      (∀ o ∈ layer3 log, s.world.table.file o.six = some (.socket .inet6 SOCK_RAW none) ∧
        s.world.table.file o.four = some (.socket .inet SOCK_RAW none)) ∧
      s.world.table.count File.isSocket =
        table.count File.isSocket + s.held.length + 2 * (layer3 log).length := by
  obtain ⟨hheld, hwriters, -, hcount⟩ := inv_history h
  exact ⟨hheld, fun o ho => ⟨(hwriters o ho).six, (hwriters o ho).four⟩, hcount⟩

/-- The way a packet takes when the last layer 3 opening has left these descriptors: the call it is
    given to the kernel with, and the socket it leaves through. -/
inductive Route (writers : Int × Int) (fd : Int) (buf : List Byte) : SendCall → File → Prop where
  | six : 0 < writers.1 → buf.headD 0 &&& 0xF0 = 0x60 →
      Route writers fd buf (.sendto writers.1 ((buf.drop 24).take 16)) (.socket .inet6 SOCK_RAW none)
  | four : 0 < writers.1 → buf.headD 0 &&& 0xF0 = 0x40 →
      Route writers fd buf (.send writers.2) (.socket .inet SOCK_RAW none)
  | link {layer ifindex : Int} : writers.1 ≤ 0 →
      Route writers fd buf (.write fd) (.socket .packet layer (some ifindex))

/-- What a write has come to: a packet without a route is refused, any other has been taken once, as
    it stands in the buffer, by the socket of its route. -/
inductive Routed (writers : Int × Int) (fd : Int) (buf : List Byte) (len : Nat) :
    Int → List Transmission → Prop where
  | refused : 0 < writers.1 → buf.headD 0 &&& 0xF0 ≠ 0x60 → buf.headD 0 &&& 0xF0 ≠ 0x40 →
      Routed writers fd buf len (-EINVAL) []
  | taken {c : SendCall} {file : File} {k n : Nat} : Route writers fd buf c file →
      Routed writers fd buf len n
        (List.replicate k ⟨c, some file, buf.take len, .error .eintr⟩ ++
          [⟨c, some file, buf.take len, .ok n⟩])

theorem Inv.writers_last {n₀ : Nat} (h : Inv n₀ log s) (hsix : 0 < s.world.statics.write_six) :
    s.world.table.file s.world.statics.write_six = some (.socket .inet6 SOCK_RAW none) ∧
      s.world.table.file s.world.statics.write_four = some (.socket .inet SOCK_RAW none) := by
  have hlast := h.last
  unfold writersOf at hlast
  rw [List.getLastD_eq_getLast?, List.getLast?_map] at hlast
  cases ho : (layer3 log).getLast? with
  | none =>
    rw [ho] at hlast
    obtain ⟨hneg, -⟩ := Prod.mk.inj hlast
    omega
  | some o =>
    rw [ho] at hlast
    obtain ⟨h1, h2⟩ := Prod.mk.inj hlast
    obtain ⟨hsix, hfour⟩ := h.writers o (List.mem_of_getLast? ho)
    rw [h1, h2]
    exact ⟨hsix, hfour⟩

/-- A call is chosen as the route says. -/
theorem Inv.route {n₀ : Nat} (h : Inv n₀ log s) {fd : Int} (hfd : fd ∈ s.held) {buf : List Byte}
    {c : SendCall} (hcall : sendCall s.world.statics fd buf = some c) :
    ∃ file, s.world.table.file c.fd = some file ∧ Route (writersOf log) fd buf c file := by
  rw [← h.last]
  unfold sendCall at hcall
  by_cases hsix : s.world.statics.write_six > 0
  · obtain ⟨hfile6, hfile4⟩ := h.writers_last hsix
    rw [if_pos hsix] at hcall
    by_cases h6 : buf.headD 0 &&& 0xF0 = 0x60
    · rw [if_pos h6] at hcall
      cases hcall
      exact ⟨_, hfile6, .six hsix h6⟩
    · rw [if_neg h6] at hcall
      by_cases h4 : buf.headD 0 &&& 0xF0 = 0x40
      · rw [if_pos h4] at hcall
        cases hcall
        exact ⟨_, hfile4, .four hsix h4⟩
      · rw [if_neg h4] at hcall
        cases hcall
  · rw [if_neg hsix] at hcall
    cases hcall
    obtain ⟨f, hf, hbound⟩ := h.held.file fd hfd
    match f, hf, hbound with
    | .socket .packet layer (some ifindex), hf, _ => exact ⟨_, hf, .link (by omega)⟩

theorem Inv.unrouted {n₀ : Nat} (h : Inv n₀ log s) {fd : Int} {buf : List Byte}
    (hcall : sendCall s.world.statics fd buf = none) : 0 < (writersOf log).1 ∧
      buf.headD 0 &&& 0xF0 ≠ 0x60 ∧ buf.headD 0 &&& 0xF0 ≠ 0x40 := by
  rw [← h.last]
  unfold sendCall at hcall
  by_cases hsix : s.world.statics.write_six > 0
  · rw [if_pos hsix] at hcall
    by_cases h6 : buf.headD 0 &&& 0xF0 = 0x60
    · rw [if_pos h6] at hcall
      cases hcall
    · rw [if_neg h6] at hcall
      by_cases h4 : buf.headD 0 &&& 0xF0 = 0x40
      · rw [if_pos h4] at hcall
        cases hcall
      · exact ⟨hsix, h6, h4⟩
  · rw [if_neg hsix] at hcall
    cases hcall

/-- The log keeps the packets apart. -/
theorem transmit_inj {ts us : List Transmission}
    (h : ts.map Syscall.transmit = us.map Syscall.transmit) : ts = us := by
  refine (List.map_injective_iff.mpr ?_) h
  intro t u htu
  exact Syscall.transmit.inj htu

/-- A write that returns is routed. -/
theorem Inv.routed {n₀ fuel len : Nat} (h : Inv n₀ log s) {fd ret : Int} {buf : List Byte}
    {w' : World} {ts : List Transmission} (hfd : fd ∈ s.held)
    (hrun : (grnvs_write fuel fd buf len).run s.world = (.ok ret, w'))
    (hlog : w'.log = s.world.log ++ ts.map .transmit) :
    Routed (writersOf log) fd buf len ret ts := by
  obtain ⟨-, hcases⟩ := grnvs_write_ok hrun
  obtain ⟨hcall, rfl, rfl⟩ | ⟨c, k, n, hcall, rfl, -, rfl⟩ := hcases
  · have hnil : ts = [] := List.map_eq_nil_iff.mp (List.self_eq_append_right.mp hlog)
    obtain ⟨hsix, h6, h4⟩ := h.unrouted hcall
    rw [hnil]
    exact .refused hsix h6 h4
  · have hts := transmit_inj (List.append_cancel_left hlog)
    obtain ⟨file, hfile, hroute⟩ := h.route hfd hcall
    rw [← hts, tries, World.transmission, World.transmission, hfile]
    exact .taken hroute

/-- Every write of every history is routed by the last layer 3 opening before it, whatever has been
    closed and opened in between. -/
theorem writes_routed (h : (history (Process.start kernel table reader)).Trace log s) {a b : List Event}
    {fd ret : Int} {buf : List Byte} {len : Nat} {ts : List Transmission}
    (hlog : log = a ++ .wrote fd buf len ret ts :: b) :
    Routed (writersOf a) fd buf len ret ts := by
  let Q : List Event → Event → Prop := fun a e =>
    match e with
    | .wrote fd buf len ret ts => Routed (writersOf a) fd buf len ret ts
    | _ => True
  refine h.events (Q := Q) ?_ a _ b hlog
  intro log s events s' htrace hstep a e b hevents
  cases hstep with
  | opens ho =>
    obtain ⟨-, rfl⟩ := Machine.singleton_cases hevents
    trivial
  | reads hrun =>
    obtain ⟨-, rfl⟩ := Machine.singleton_cases hevents
    trivial
  | writes hfd hrun hlog' =>
    obtain ⟨rfl, rfl⟩ := Machine.singleton_cases hevents
    rw [List.append_nil]
    exact (inv_history htrace).routed hfd hrun hlog'
  | closes hfd hrun =>
    obtain ⟨-, rfl⟩ := Machine.singleton_cases hevents
    trivial
  | otherOpens => exact absurd hevents (by simp)
  | otherCloses hfd => exact absurd hevents (by simp)

end Histories

/-! ## A layer 3 socket that is opened again on layer 2 -/

/-- A system that grants everything, and interrupts every other try to send. -/
def kernelDemo : Kernel where
  strerror _ := ""
  socket _ := none
  siocgifindex _ _ := .ok 2
  siocgifhwaddr _ _ := .ok ⟨[2, 0, 0, 0, 0, 1] ++ zeros 8, rfl⟩
  getifaddrs _ := .ok []
  bind _ := none
  send n := if n % 2 = 1 then .error .eintr else .ok 48
  close _ := none

/-- A process with its three standard streams. -/
def processDemo : Process :=
  .start kernelDemo ⟨[some .other, some .other, some .other]⟩ (Stats.opened Stats.kernelRetry)

def openingDemo (layer fd : Int) : Opening :=
  { ifname := Stats.eth0, layer, six := 3, four := 4, fd, ifindex := 2
    hwaddr := ⟨[2, 0, 0, 0, 0, 1] ++ zeros 8, rfl⟩, addrs := [] }

/-- A packet that begins like one of IPv6. -/
def packetDemo : List Byte := 0x60 :: zeros 47

def logDemo : List Event :=
  [.opened (openingDemo SOCK_DGRAM 5), .closed 5, .opened (openingDemo SOCK_RAW 5)]

/-- The two tries of the write that ends the history. -/
def triesDemo : List Transmission :=
  [⟨.sendto 3 (zeros 16), some (.socket .inet6 SOCK_RAW none), packetDemo, .error .eintr⟩,
    ⟨.sendto 3 (zeros 16), some (.socket .inet6 SOCK_RAW none), packetDemo, .ok 48⟩]

/-- The world after the opening of a socket, as the answers say. -/
def World.openedDemo (w : World) (o : Opening) : World :=
  w.after (o.statics w.statics) (o.table w.table) o.calls

def worldDemo : World :=
  let w := processDemo.world.openedDemo (openingDemo SOCK_DGRAM 5)
  (w.after w.statics.closed (w.table.remove 5) [.close 5 none]).openedDemo (openingDemo SOCK_RAW 5)

theorem trace_demo : (history processDemo).Trace logDemo ⟨worldDemo, [5]⟩ := by
  have h1 : Opens processDemo.world (openingDemo SOCK_DGRAM 5)
      (processDemo.world.openedDemo (openingDemo SOCK_DGRAM 5)) :=
    ⟨rfl, ⟨.inl rfl, by decide, fun _ => rfl, fun _ => rfl, rfl⟩, rfl⟩
  have t1 := Machine.Trace.step (Machine.Trace.start (M := history processDemo)) (.opens h1)
  have t2 := t1.step (.closes (List.mem_singleton.mpr rfl) rfl)
  have h3 : Opens _ (openingDemo SOCK_RAW 5) worldDemo :=
    ⟨rfl, ⟨.inr rfl, by decide, (absurd · (by decide)), (absurd · (by decide)), rfl⟩, rfl⟩
  exact t2.step (.opens h3)

theorem trace_demo_wrote : (history processDemo).Trace
    (logDemo ++ [.wrote 5 packetDemo 48 48 triesDemo]) ⟨worldDemo.sent triesDemo, [5]⟩ :=
  trace_demo.step (@Step.writes ⟨worldDemo, [5]⟩ 2 48 5 48 packetDemo (worldDemo.sent triesDemo)
    triesDemo (List.mem_singleton.mpr rfl) rfl rfl)

/-- The socket was opened on layer 2; its packet leaves on layer 3. -/
theorem writes_routed_stale : Routed (3, 4) 5 packetDemo 48 48 triesDemo :=
  writes_routed trace_demo_wrote rfl

theorem sockets_counted_demo :
    worldDemo.table.count File.isSocket = 3 ∧
      worldDemo.table.file 3 = some (.socket .inet6 SOCK_RAW none) := by
  obtain ⟨-, hwriters, hcount⟩ := sockets_counted trace_demo
  exact ⟨hcount, (hwriters (openingDemo SOCK_DGRAM 5) (List.mem_singleton.mpr rfl)).1⟩

end Grnvs.Raw
