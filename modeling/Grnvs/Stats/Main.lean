/-
  `main` of ethstats: the command line, the socket on layer 2, the summary, and the end.

  The parts are `parse_args`, `grnvs_open`, `assignment2` and `grnvs_close`, each with what has been
  said about it. Together: ethstats never hands a packet to the kernel, a run that returns 0 leaves
  the descriptors as they were (`main_leaves`), and what it prints is the summary of the frames on
  the interface of the command line, by the hardware address of that interface (`main_summarised`).
-/
import Grnvs.Raw.History
import Grnvs.Stats.Counters

namespace Grnvs.Stats

open Bytes Descriptors

/-- `grnvs_open` returns no negative number (`grnvs_open_ok`), so there is no branch for one. What
    argp prints before it ends the process is left out. -/
def main (fuel : Nat) (keys : List Key) : Raw.Run Int := do
  match parse_args keys with
  | .error .code => do
      Raw.print "Failed to parse arguments, call with --help for more information\n"
      pure (-1)
  | .error .unknown => Comp.stop (.exit Argp.EX_USAGE)
  | .ok args => do
      let sock ← Raw.grnvs_open args.interface Raw.SOCK_RAW
      Raw.onDevice (assignment2 fuel args.frames)
      let _ ← Raw.grnvs_close sock
      pure 0

/-! ## Nothing is sent -/

/-- The packets in a log. -/
def transmissions (log : List Raw.Syscall) : List Raw.Transmission :=
  log.filterMap fun
    | .transmit t => some t
    | _ => none

/-- A part of the program that hands no packet to the kernel. -/
abbrev Silent {α : Type} (x : Raw.Run α) : Prop :=
  Comp.Keeps (fun w => transmissions w.log) x

theorem transmissions_append (log log' : List Raw.Syscall) :
    transmissions (log ++ log') = transmissions log ++ transmissions log' := List.filterMap_append

section Silent

variable {α β : Type} {x : Raw.Run α} {g : α → Raw.Run β}

theorem note_silent {c : Raw.Syscall} (h : transmissions [c] = []) : Silent (Raw.note c) := by
  refine Comp.keeps_modify fun w => ?_
  rw [transmissions_append, h, List.append_nil]

theorem assign_silent (f : Raw.Statics → Raw.Statics) : Silent (Raw.assign f) :=
  Comp.keeps_modify fun _ => rfl

theorem die_silent (text : String) (e : Errno) : Silent (Raw.die text e : Raw.Run α) :=
  fun _ => rfl

theorem orDie_silent (text : String) {x : Raw.Run (Except Errno α)} (h : Silent x) :
    Silent (Raw.orDie text x) := by
  refine Comp.keeps_bind h fun r => ?_
  cases r with
  | ok a => exact Comp.keeps_pure a
  | error e => exact die_silent text e

theorem socket_silent (family : Raw.Family) (type : Int) : Silent (Raw.socket family type) := by
  refine Comp.keeps_gets_bind fun r => ?_
  cases r with
  | some e => exact Comp.keeps_bind (note_silent rfl) fun _ => Comp.keeps_pure _
  | none =>
    refine Comp.keeps_gets_bind fun fd => Comp.keeps_bind (Comp.keeps_modify fun _ => rfl) fun _ => ?_
    exact Comp.keeps_bind (note_silent rfl) fun _ => Comp.keeps_pure _

theorem bind_silent (fd ifindex : Int) : Silent (Raw.bind fd ifindex) := by
  refine Comp.keeps_gets_bind fun r => Comp.keeps_bind (note_silent rfl) fun _ => ?_
  cases r with
  | some e => exact Comp.keeps_pure _
  | none => exact Comp.keeps_bind (Comp.keeps_modify fun _ => rfl) fun _ => Comp.keeps_pure _

theorem openWriters_silent : Silent Raw.openWriters := by
  refine Comp.keeps_bind (orDie_silent _ (socket_silent _ _)) fun _ => ?_
  refine Comp.keeps_bind (assign_silent _) fun _ => ?_
  exact Comp.keeps_bind (orDie_silent _ (socket_silent _ _)) fun _ => assign_silent _

theorem strcpyName_silent (ifname : CString) : Silent (Raw.strcpyName ifname) := by
  unfold Raw.strcpyName
  by_cases h : ifname.bytes.length < Raw.IFNAMSIZ
  · rw [if_pos h]
    exact Comp.keeps_pure ()
  · rw [if_neg h]
    exact Comp.keeps_stop _

theorem siocgifindex_silent (fd : Int) (ifname : CString) : Silent (Raw.siocgifindex fd ifname) :=
  Comp.keeps_gets_bind fun _ => Comp.keeps_bind (note_silent rfl) fun _ => Comp.keeps_pure _

theorem siocgifhwaddr_silent (fd : Int) (ifname : CString) :
    Silent (Raw.siocgifhwaddr fd ifname) :=
  Comp.keeps_gets_bind fun _ => Comp.keeps_bind (note_silent rfl) fun _ => Comp.keeps_pure _

theorem getifaddrs_silent : Silent Raw.getifaddrs :=
  Comp.keeps_gets_bind fun _ => Comp.keeps_bind (note_silent rfl) fun _ => Comp.keeps_pure _

/-- Opening a socket sends nothing, however it ends. -/
theorem grnvs_open_silent (ifname : CString) (layer : Int) :
    Silent (Raw.grnvs_open ifname layer) := by
  refine Comp.keeps_bind (assign_silent _) fun _ => ?_
  refine Comp.keeps_bind (Comp.keeps_when (die_silent _ _)) fun _ => ?_
  refine Comp.keeps_bind (Comp.keeps_when openWriters_silent) fun _ => ?_
  refine Comp.keeps_bind (orDie_silent _ (socket_silent _ _)) fun fd => ?_
  refine Comp.keeps_bind (strcpyName_silent ifname) fun _ => ?_
  refine Comp.keeps_bind (orDie_silent _ (siocgifindex_silent _ _)) fun ifindex => ?_
  refine Comp.keeps_bind (assign_silent _) fun _ => ?_
  refine Comp.keeps_bind (orDie_silent _ (siocgifhwaddr_silent _ _)) fun hwaddr => ?_
  refine Comp.keeps_bind (assign_silent _) fun _ => ?_
  refine Comp.keeps_bind (Comp.keeps_bind (orDie_silent _ getifaddrs_silent) fun _ =>
    assign_silent _) fun _ => ?_
  exact Comp.keeps_bind (orDie_silent _ (bind_silent _ _)) fun _ => Comp.keeps_pure fd

theorem onDevice_silent (x : Run α) : Silent (Raw.onDevice x) := fun _ => rfl

theorem grnvs_close_silent (fd : Int) : Silent (Raw.grnvs_close fd) := by
  refine Comp.keeps_bind (assign_silent _) fun _ => Comp.keeps_gets_bind fun result => ?_
  refine Comp.keeps_gets_bind fun file => ?_
  cases file with
  | none => exact Comp.keeps_bind (note_silent rfl) fun _ => Comp.keeps_pure _
  | some f =>
    refine Comp.keeps_bind (Comp.keeps_modify fun _ => rfl) fun _ => ?_
    exact Comp.keeps_bind (note_silent rfl) fun _ => Comp.keeps_pure _

theorem main_silent (fuel : Nat) (keys : List Key) : Silent (main fuel keys) := by
  unfold main
  rcases parse_args keys with (_ | _) | args
  · exact Comp.keeps_bind (Comp.keeps_modify fun _ => rfl) fun _ => Comp.keeps_pure _
  · exact Comp.keeps_stop _
  · refine Comp.keeps_bind (grnvs_open_silent _ _) fun sock => ?_
    refine Comp.keeps_bind (onDevice_silent _) fun _ => ?_
    exact Comp.keeps_bind (grnvs_close_silent sock) fun _ => Comp.keeps_pure _

end Silent

/-! ## What is left -/

section Left

variable {w w₁ w' : Raw.World} {o : Raw.Opening} {fuel : Nat} {keys : List Key} {ret : Int}

theorem onDevice_run {α : Type} {x : Run α} {a : α} {s : World}
    (h : x.run w.device = (.ok a, s)) :
    (Raw.onDevice x).run w = (.ok a, { w with reader := s }) := by
  show ((x.run w.device).1, { w with reader := (x.run w.device).2 }) = _
  rw [h]

/-- Closing the socket of an opening on layer 2 undoes it. -/
theorem opens_closed_file (h : Raw.Opens w o w₁) (hlayer : ¬ o.Layer3) (fd : Int) :
    (w₁.table.remove o.fd).file fd = w.table.file fd := by
  obtain ⟨-, hof, rfl⟩ := h
  have hwriters : o.writers w.table = w.table := if_neg hlayer
  exact (hof.file_remove fd).trans (congrArg (fun t => t.file fd) hwriters)

/-- A process that has opened the socket `o` on layer 2 and closed it. -/
structure Left (w : Raw.World) (o : Raw.Opening) (w' : Raw.World) : Prop where
  files : ∀ fd, w'.table.file fd = w.table.file fd
  statics : w'.statics = (o.statics w.statics).closed
  log : ∃ result, w'.log = w.log ++ o.calls ++ [.close o.fd result]

/-- What `main` does when the socket has been opened and the frames are counted. -/
theorem main_of_counted {args : Arguments} (hargs : parse_args keys = .ok args)
    (ho : Raw.Opens w o w₁) (hname : o.ifname = args.interface) (hlayer : o.layer = Raw.SOCK_RAW)
    {s : World} (hcount : (assignment2 fuel args.frames).run w₁.device = (.ok (), s)) :
    ∃ w', (main fuel keys).run w = (.ok 0, w') ∧ w'.reader = s ∧ Left w o w' := by
  have hrun := ho.run
  rw [hname, hlayer] at hrun
  have hdevice : (Raw.onDevice (assignment2 fuel args.frames)).run w₁ =
      (.ok (), { w₁ with reader := s }) := onDevice_run hcount
  have hopen : ({ w₁ with reader := s } : Raw.World).table.file o.fd ≠ none := by
    have hfile := ho.of.file_fd
    rw [ho.after]
    exact fun h => nomatch hfile.symm.trans h
  obtain ⟨result, hclose⟩ := Raw.grnvs_close_run hopen
  have hlayer3 : ¬ o.Layer3 := by
    rw [Raw.Opening.Layer3, hlayer]
    decide
  let w' : Raw.World := Raw.World.after { w₁ with reader := s } w₁.statics.closed
    (w₁.table.remove o.fd) [.close o.fd result]
  have hmain : (main fuel keys).run w = (.ok 0, w') := by
    unfold main
    rw [hargs, Comp.bind_ok hrun, Comp.bind_ok hdevice]
    exact Comp.bind_ok hclose
  refine ⟨w', hmain, rfl, opens_closed_file ho hlayer3, ?_, result, ?_⟩
  · show w₁.statics.closed = _
    rw [ho.after]
    rfl
  · show w₁.log ++ _ = _
    rw [ho.after]
    rfl

/-- ethstats hands no packet to the kernel, in no run. A run that returns has refused the command
    line, or has opened a socket on layer 2, on the interface of the command line, and closed it:
    then all descriptors are what they were, and the module is closed. -/
theorem main_leaves (fuel : Nat) (keys : List Key) (w : Raw.World) :
    transmissions ((main fuel keys).run w).2.log = transmissions w.log ∧
    ∀ ret w', (main fuel keys).run w = (.ok ret, w') →
      (ret = -1 ∧ parse_args keys = .error .code ∧ w'.log = w.log) ∨
      ret = 0 ∧ ∃ args o, parse_args keys = .ok args ∧ o.ifname = args.interface ∧
        o.layer = Raw.SOCK_RAW ∧ Left w o w' := by
  refine ⟨main_silent fuel keys w, ?_⟩
  intro ret w' h
  rcases hargs : parse_args keys with (_ | _) | args
  · unfold main at h
    rw [hargs] at h
    obtain ⟨hret, hw⟩ := Prod.mk.inj h
    refine .inl ⟨(Except.ok.inj hret).symm, rfl, ?_⟩
    rw [← hw]
  · -- argp has ended the process
    unfold main at h
    rw [hargs] at h
    cases h
  · have hmain := h
    unfold main at hmain
    rw [hargs] at hmain
    obtain ⟨sock, w₁, hrun, hrest⟩ := Comp.bind_eq_ok hmain
    obtain ⟨_, w₂, hdevice, hrest⟩ := Comp.bind_eq_ok hrest
    obtain ⟨o, hname, hlayer, -, ho⟩ := Raw.exists_opens hrun
    have hcount : (assignment2 fuel args.frames).run w₁.device =
        (.ok (), ((assignment2 fuel args.frames).run w₁.device).2) :=
      Prod.ext (Prod.mk.inj hdevice).1 rfl
    obtain ⟨w'', hrun', -, hleft⟩ := main_of_counted hargs ho hname hlayer hcount
    obtain ⟨hret, rfl⟩ := Prod.mk.inj (h.symm.trans hrun')
    exact .inr ⟨Except.ok.inj hret, args, o, rfl, hname, hlayer, hleft⟩

/-- What a run of ethstats prints on a system that opens the socket, has memory for every type and
    reports frames of 14 to 1514 bytes, from the command line to the last line: the summary of the
    frames on that socket, by the hardware address that the interface of the command line has
    answered. -/
theorem main_summarised {args : Arguments} (hargs : parse_args keys = .ok args)
    (ho : Raw.Opens w o w₁) (hname : o.ifname = args.interface) (hlayer : o.layer = Raw.SOCK_RAW)
    (k : Kernel) (hfull : ∀ n, k.full n = false) (as : List Arrival)
    (hsize : ∀ a ∈ as, 14 ≤ a.frame.length ∧ a.frame.length ≤ 1514) (ifindex : Int) (clock : Nat)
    (recbuffer mymac : List Byte)
    (hreader : w.reader = start (k.reporting as) ifindex clock recbuffer mymac)
    (hfuel : as.length < fuel) :
    ∃ es w', (main fuel keys).run w = (.ok 0, w') ∧ Left w o w' ∧
      Summarised (o.hwaddr.1.take ETH_ALEN) (reported args.frames as)
        (decide (readable as < args.frames.toNat)) es w'.reader := by
  let k' : Kernel := { k with hwaddr := o.hwaddr.1.take ETH_ALEN }
  have hmac : k'.hwaddr.length = ETH_ALEN := by
    show (o.hwaddr.1.take ETH_ALEN).length = ETH_ALEN
    rw [List.length_take, o.hwaddr.2]
    decide
  have hdevice : w₁.device = start (k'.reporting as) o.ifindex clock recbuffer mymac := by
    rw [ho.after]
    show Raw.World.device { w with statics := o.statics w.statics, table := _, log := _ } = _
    rw [Raw.World.device, o.statics_eq]
    dsimp only
    rw [hreader]
    rfl
  obtain ⟨es, s, hrun, hsum⟩ := assignment2_reporting k' as hmac hfull hsize
    (Int.natCast_nonneg o.ifindex) clock recbuffer mymac args.frames hfuel
  rw [← hdevice] at hrun
  obtain ⟨w', hmain, rfl, hleft⟩ := main_of_counted hargs ho hname hlayer hrun
  exact ⟨es, w', hmain, hleft, hsum⟩

end Left

/-! ## Three frames -/

/-- A process with its three standard streams, and three frames on the way. -/
def worldDemo : Raw.World :=
  { Raw.processDemo.world with reader := start (kernelDemo.reporting arrivalsDemo) 0 0 [] [] }

/-- The frames are counted, and descriptor 3 is free again. -/
theorem main_summarised_demo : ∃ es w',
    (main 9 [.interface eth0, .arg ⟨lit "3", by decide⟩]).run worldDemo = (.ok 0, w') ∧
      w'.table.file 3 = none ∧ Summarised [2, 0, 0, 0, 0, 1] (reported 3 arrivalsDemo)
        (decide (readable arrivalsDemo < Int.toNat 3)) es w'.reader := by
  have ho : Raw.Opens worldDemo (Raw.openingDemo Raw.SOCK_RAW 3)
      (worldDemo.openedDemo (Raw.openingDemo Raw.SOCK_RAW 3)) :=
    ⟨rfl, ⟨.inr rfl, by decide, (absurd · (by decide)), (absurd · (by decide)), rfl⟩, rfl⟩
  have hargs : parse_args [.interface eth0, .arg ⟨lit "3", by decide⟩] = .ok ⟨eth0, 3⟩ := by decide
  obtain ⟨es, w', hrun, hleft, hsum⟩ := main_summarised hargs ho rfl rfl kernelDemo (fun _ => rfl)
    arrivalsDemo arrivalsDemo_size 0 0 [] [] rfl (by decide : _ < 9)
  exact ⟨es, w', hrun, hleft.files 3, hsum⟩

end Grnvs.Stats
