/-
  The addresses of the module, over whole histories.

  What the module is for, seen from outside: between two closings it answers the addresses of the
  interface it was opened on. `Session` says this without static variables, as a function of the
  openings since the last closing; `addresses_refined` says that after every history the static
  variables answer the same. The IPv4 address is the last one of all these openings, since nothing
  but closing clears it.
-/
import Grnvs.Raw.History

namespace Grnvs.Raw

open Bytes Descriptors
open Grnvs.Stats (Errno Stop ETH_ALEN)

/-- The openings since the last closing. -/
structure Session where
  openings : List Opening

def Session.next (σ : Session) : Event → Session
  | .opened o => ⟨σ.openings ++ [o]⟩
  | .closed _ => ⟨[]⟩
  | .read _ => σ
  | .wrote .. => σ

def Session.of (log : List Event) : Session := log.foldl Session.next ⟨[]⟩

namespace Session

/-- The MAC address of the interface that was opened last. -/
def hwaddr (σ : Session) : Option (List Byte) :=
  σ.openings.getLast?.map fun o => o.hwaddr.1.take ETH_ALEN

/-- The IPv6 addresses an opening can choose from. -/
def addresses6 (o : Opening) : List (List Byte) := o.addrs.filterMap (address6 o.ifname o.layer)

/-- The last address of the interface that was opened last, or the unspecified address. -/
def ip6addr (σ : Session) : Option (List Byte) :=
  σ.openings.getLast?.map fun o => (addresses6 o).getLastD (zeros 16)

def addresses4 (o : Opening) : List (List Byte) := o.addrs.filterMap (address4 o.ifname)

/-- The last IPv4 address of all openings. -/
def ipaddr (σ : Session) : List Byte := (σ.openings.flatMap addresses4).getLastD (zeros 4)

variable {σ : Session} {o : Opening}

theorem of_append (log es : List Event) : of (log ++ es) = es.foldl next (of log) :=
  List.foldl_append

end Session

/-- The last of a joined list is that of its second part, if there is one. -/
theorem getLastD_append {α : Type} (as bs : List α) (d : α) :
    (as ++ bs).getLastD d = bs.getLastD (as.getLastD d) := by
  rcases List.eq_nil_or_concat bs with rfl | ⟨cs, c, rfl⟩
  · rw [List.append_nil, List.getLastD_nil]
  · rw [List.concat_eq_append, ← List.append_assoc, List.getLastD_concat, List.getLastD_concat]

/-! ## The static variables answer for the session -/

/-- The static variables hold what the session says. -/
structure Answers (s : Statics) (σ : Session) : Prop where
  hwaddr : grnvs_get_hwaddr s = σ.hwaddr
  ipaddr : grnvs_get_ipaddr s = σ.ipaddr
  ip6addr : grnvs_get_ip6addr s = σ.ip6addr

section Answers

variable {s s' : Statics} {σ : Session} {o : Opening}

theorem Answers.opened (h : Answers s σ) (o : Opening) :
    Answers (o.statics s) ⟨σ.openings ++ [o]⟩ := by
  have hopen : ¬ (o.statics s).ifindex < 0 := by
    rw [o.statics_eq]
    exact Int.not_lt.mpr (Int.natCast_nonneg o.ifindex)
  constructor
  · rw [grnvs_get_hwaddr, if_neg hopen, o.statics_eq, Session.hwaddr, List.getLast?_concat]
    rfl
  · have hip : s.ip = σ.ipaddr := h.ipaddr
    rw [grnvs_get_ipaddr, o.statics_eq, Session.ipaddr, List.flatMap_append,
      List.flatMap_singleton, getLastD_append, hip]
    rfl
  · rw [grnvs_get_ip6addr, if_neg hopen, o.statics_eq, Session.ip6addr, List.getLast?_concat]
    rfl

theorem Answers.closed (s : Statics) : Answers s.closed ⟨[]⟩ := ⟨rfl, rfl, rfl⟩

/-- Only the addresses and the index matter. -/
theorem Answers.congr (h : Answers s σ) (hs : s' = s) : Answers s' σ := hs ▸ h

end Answers

section Histories

variable {kernel : Kernel} {table : Table File} {reader : Stats.World} {log es : List Event}
  {s s' : Process}

theorem answers_step (h : Answers s.world.statics (Session.of log)) (hs : Step s es s') :
    Answers s'.world.statics (Session.of (log ++ es)) := by
  rw [Session.of_append]
  cases hs with
  | opens ho =>
    obtain ⟨-, -, rfl⟩ := ho
    exact h.opened _
  | reads hrun =>
    obtain ⟨-, hw⟩ := grnvs_read_ok hrun
    exact h.congr (by rw [hw])
  | writes hfd hrun hlog =>
    obtain ⟨-, hcases⟩ := grnvs_write_ok hrun
    obtain ⟨-, -, rfl⟩ | ⟨c, k, n, -, -, -, rfl⟩ := hcases
    · exact h
    · exact h
  | closes hfd hrun =>
    rw [grnvs_close_statics hrun]
    exact Answers.closed _
  | otherOpens => exact h
  | otherCloses hfd => exact h

/-- What an entry of the interface can be chosen for. -/
theorem address6_eq_some {ifname : CString} {layer : Int} {ifc : IfAddrs} {a : List Byte}
    (h : address6 ifname layer ifc = some a) :
    ∃ tmp : Octets 16, a = tmp.1 ∧ ¬ (layer = SOCK_DGRAM ∧ is_global tmp = 0) := by
  unfold address6 at h
  by_cases hname : ifc.ifa_name ≠ ifname
  · rw [if_pos hname] at h
    cases h
  · rw [if_neg hname] at h
    match hifc : ifc.ifa_addr with
    | none | some (.inet _) | some .other =>
      rw [hifc] at h
      cases h
    | some (.inet6 tmp) =>
      rw [hifc] at h
      dsimp only at h
      by_cases hlocal : layer = SOCK_DGRAM ∧ is_global tmp = 0
      · rw [if_pos hlocal] at h
        cases h
      · rw [if_neg hlocal] at h
        cases h
        exact ⟨tmp, rfl, hlocal⟩

/-- The last address of an opening is the unspecified one, or was chosen from an entry. -/
theorem addresses6_last (o : Opening) :
    (Session.addresses6 o).getLastD (zeros 16) = zeros 16 ∨
      ∃ tmp : Octets 16, (Session.addresses6 o).getLastD (zeros 16) = tmp.1 ∧
        ¬ (o.layer = SOCK_DGRAM ∧ is_global tmp = 0) := by
  rcases List.eq_nil_or_concat (Session.addresses6 o) with hnil | ⟨as, b, has⟩
  · rw [hnil]
    exact .inl rfl
  · have hmem : b ∈ Session.addresses6 o := by
      rw [has, List.concat_eq_append]
      exact List.mem_append_right _ (List.mem_singleton.mpr rfl)
    obtain ⟨ifc, -, hifc⟩ := List.mem_filterMap.mp hmem
    rw [has, List.concat_eq_append, List.getLastD_concat]
    exact .inr (address6_eq_some hifc)

/-- No link-local address is chosen on layer 3. -/
theorem ip6addr_global {σ : Session} {o : Opening} {a : List Byte}
    (ho : σ.openings.getLast? = some o) (hlayer : o.Layer3) (ha : σ.ip6addr = some a) :
    ¬ (a.getD 0 0 = 0xFE ∧ a.getD 1 0 = 0x80) := by
  rw [Session.ip6addr, ho, Option.map_some, Option.some.injEq] at ha
  obtain hzero | ⟨tmp, htmp, hglobal⟩ := addresses6_last o
  · rw [← ha, hzero]
    decide
  · intro hbytes
    rw [← ha, htmp] at hbytes
    exact hglobal ⟨hlayer, if_pos hbytes⟩

theorem Opening.ip6_length (o : Opening) (s : Statics) : (o.statics s).ip6.length = 16 := by
  rw [o.statics_eq]
  obtain hzero | ⟨tmp, htmp, -⟩ := addresses6_last o
  · exact (congrArg List.length hzero).trans (zeros_length 16)
  · exact (congrArg List.length htmp).trans tmp.2

/-- After every history the module answers the addresses of its session, and on layer 3 no
    link-local one. -/
theorem addresses_refined (h : (history (Process.start kernel table reader)).Trace log s) :
    Answers s.world.statics (Session.of log) ∧
      ∀ o a, (Session.of log).openings.getLast? = some o → o.Layer3 →
        grnvs_get_ip6addr s.world.statics = some a → ¬ (a.getD 0 0 = 0xFE ∧ a.getD 1 0 = 0x80) := by
  have hanswers : Answers s.world.statics (Session.of log) :=
    Machine.Trace.invariant (I := fun log s => Answers s.world.statics (Session.of log))
      ⟨rfl, rfl, rfl⟩ (fun _ _ _ _ hanswers hstep => answers_step hanswers hstep) h
  refine ⟨hanswers, ?_⟩
  intro o a ho hlayer ha
  rw [hanswers.ip6addr] at ha
  exact ip6addr_global ho hlayer ha

/-- A call that reads or writes. -/
def Event.Uses : Event → Prop
  | .read _ | .wrote .. => True
  | .opened _ | .closed _ => False

/-- Nothing has been closed since the last opening. -/
def Unclosed (log : List Event) : Prop :=
  ∃ c o d, log = c ++ .opened o :: d ∧ ∀ fd, .closed fd ∉ d

theorem unclosed_snoc_opened (log : List Event) (o : Opening) : Unclosed (log ++ [.opened o]) :=
  ⟨log, o, [], rfl, fun _ => List.not_mem_nil⟩

theorem not_unclosed_snoc_closed (log : List Event) (fd : Int) :
    ¬ Unclosed (log ++ [.closed fd]) := by
  rintro ⟨c, o, d, hlog, hd⟩
  rcases List.eq_nil_or_concat d with rfl | ⟨d', e, rfl⟩
  · obtain ⟨-, he⟩ := List.append_inj' hlog rfl
    cases he
  · rw [List.concat_eq_append] at hlog hd
    have hsplit : log ++ [.closed fd] = (c ++ .opened o :: d') ++ [e] := by
      rw [hlog, List.append_assoc, List.cons_append]
    obtain ⟨-, he⟩ := List.append_inj' hsplit rfl
    rw [← List.singleton_inj.mp he] at hd
    exact hd fd (List.mem_append_right _ (List.mem_singleton.mpr rfl))

theorem unclosed_snoc_uses {e : Event} (he : e.Uses) (log : List Event) :
    Unclosed (log ++ [e]) ↔ Unclosed log := by
  constructor
  · rintro ⟨c, o, d, hlog, hd⟩
    rcases List.eq_nil_or_concat d with rfl | ⟨d', e', rfl⟩
    · obtain ⟨-, heq⟩ := List.append_inj' hlog rfl
      rw [List.singleton_inj.mp heq] at he
      exact he.elim
    · rw [List.concat_eq_append] at hlog hd
      have hsplit : log ++ [e] = (c ++ .opened o :: d') ++ [e'] := by
        rw [hlog, List.append_assoc, List.cons_append]
      obtain ⟨hfront, -⟩ := List.append_inj' hsplit rfl
      exact ⟨c, o, d', hfront, fun fd hmem => hd fd (List.mem_append_left _ hmem)⟩
  · rintro ⟨c, o, d, rfl, hd⟩
    refine ⟨c, o, d ++ [e], by rw [List.append_assoc, List.cons_append], fun fd hmem => ?_⟩
    cases List.mem_append.mp hmem with
    | inl hmem => exact hd fd hmem
    | inr hmem =>
      rw [← List.mem_singleton.mp hmem] at he
      exact he

theorem openings_ne_nil_iff (log : List Event) : (Session.of log).openings ≠ [] ↔ Unclosed log := by
  induction log using List.reverseRecOn with
  | nil => exact ⟨fun h => absurd rfl h, fun ⟨_, _, _, h, _⟩ => by simp at h⟩
  | append_singleton log e ih =>
    rw [Session.of_append]
    cases e with
    | opened o =>
      exact iff_of_true (List.append_ne_nil_of_right_ne_nil _ (List.cons_ne_nil o []))
        (unclosed_snoc_opened log o)
    | closed fd => exact iff_of_false (fun h => h rfl) (not_unclosed_snoc_closed log fd)
    | read ret =>
      have huses : (Event.read ret).Uses := trivial
      exact ih.trans (unclosed_snoc_uses huses log).symm
    | wrote fd buf len ret ts =>
      have huses : (Event.wrote fd buf len ret ts).Uses := trivial
      exact ih.trans (unclosed_snoc_uses huses log).symm

/-- The index that every call looks at says the same. -/
theorem answers_open {σ : Session} {t : Statics} (h : Answers t σ) :
    0 ≤ t.ifindex ↔ σ.openings ≠ [] := by
  have hanswer := h.hwaddr
  unfold grnvs_get_hwaddr Session.hwaddr at hanswer
  by_cases hclosed : t.ifindex < 0
  · rw [if_pos hclosed] at hanswer
    have hnil : σ.openings = [] := by
      rw [← List.getLast?_eq_none_iff]
      exact Option.map_eq_none_iff.mp hanswer.symm
    exact iff_of_false (by omega) fun h => h hnil
  · rw [if_neg hclosed] at hanswer
    refine iff_of_true (by omega) fun hnil => ?_
    rw [hnil] at hanswer
    cases hanswer

theorem history_open (h : (history (Process.start kernel table reader)).Trace log s) :
    0 ≤ s.world.statics.ifindex ↔ Unclosed log := by
  have hanswers : Answers s.world.statics (Session.of log) :=
    Machine.Trace.invariant (I := fun log s => Answers s.world.statics (Session.of log))
      ⟨rfl, rfl, rfl⟩ (fun _ _ _ _ hanswers hstep => answers_step hanswers hstep) h
  exact (answers_open hanswers).trans (openings_ne_nil_iff log)

/-- In every history, whatever is read or written comes after an opening with nothing closed in
    between; and where something has been closed, the next read and the next write on any socket
    end the program. A write has copied the address from its buffer by then, if there has been a
    layer 3 opening. -/
theorem calls_open (h : (history (Process.start kernel table reader)).Trace log s) :
    (∀ a e b, log = a ++ e :: b → e.Uses → Unclosed a) ∧
      (¬ Unclosed log → (∀ fuel maxlen timeout,
          ((grnvs_read fuel maxlen timeout).run s.world).1 = .error (.exit (-1))) ∧
        ∀ fuel fd buf len, (0 < s.world.statics.write_six → 40 ≤ buf.length) →
          ((grnvs_write fuel fd buf len).run s.world).1 = .error (.exit (-1))) := by
  constructor
  · refine h.events (Q := fun a e => e.Uses → Unclosed a) ?_
    intro log s events s' htrace hstep a e b hevents he
    cases hstep with
    | opens ho =>
      obtain ⟨-, rfl⟩ := Machine.singleton_cases hevents
      exact he.elim
    | reads hrun =>
      obtain ⟨rfl, -⟩ := Machine.singleton_cases hevents
      rw [List.append_nil]
      exact (history_open htrace).mp (grnvs_read_ok hrun).1
    | writes hfd hrun hlog' =>
      obtain ⟨rfl, -⟩ := Machine.singleton_cases hevents
      rw [List.append_nil]
      exact (history_open htrace).mp (grnvs_write_ok hrun).1.isOpen
    | closes hfd hrun =>
      obtain ⟨-, rfl⟩ := Machine.singleton_cases hevents
      exact he.elim
    | otherOpens => exact absurd hevents (by simp)
    | otherCloses hfd => exact absurd hevents (by simp)
  · intro hclosed
    have hneg : s.world.statics.ifindex < 0 := by
      have := (history_open h).not.mpr hclosed
      omega
    constructor
    · intro fuel maxlen timeout
      exact congrArg Prod.fst (Stats.grnvs_read_closed (w := s.world.device) hneg)
    · intro fuel fd buf len hlen
      rw [grnvs_write, Comp.gets_bind, Comp.when_neg (by omega), Comp.pure_bind_run, if_pos hneg]
      rfl

end Histories

/-! ## An interface that has lost its addresses -/

/-- 2001:db8::1, then the link-local fe80::1. -/
def addrsDemo : List IfAddrs :=
  [⟨Stats.eth0, some (.inet ⟨[10, 0, 0, 1], rfl⟩)⟩,
    ⟨Stats.eth0, some (.inet6 ⟨[0x20, 1, 0x0d, 0xb8] ++ zeros 11 ++ [1], rfl⟩)⟩,
    ⟨Stats.eth0, some (.inet6 ⟨[0xfe, 0x80] ++ zeros 13 ++ [1], rfl⟩)⟩,
    ⟨Stats.eth0, none⟩]

/-- The interface has addresses at the first opening only. -/
def kernelMoving : Kernel :=
  { kernelDemo with getifaddrs := fun n => .ok (if n < 7 then addrsDemo else []) }

def processMoving : Process :=
  .start kernelMoving ⟨[some .other]⟩ (Stats.opened Stats.kernelRetry)

def firstDemo : Opening :=
  { openingDemo SOCK_DGRAM 3 with six := 1, four := 2, addrs := addrsDemo }

def worldMoving : World :=
  (processMoving.world.openedDemo firstDemo).openedDemo (openingDemo SOCK_RAW 4)

theorem trace_first : (history processMoving).Trace [.opened firstDemo]
    ⟨processMoving.world.openedDemo firstDemo, [3]⟩ := by
  have h1 : Opens processMoving.world firstDemo (processMoving.world.openedDemo firstDemo) :=
    ⟨rfl, ⟨.inl rfl, by decide, fun _ => rfl, fun _ => rfl, rfl⟩, rfl⟩
  exact Machine.Trace.step (Machine.Trace.start (M := history processMoving)) (.opens h1)

theorem trace_moving : (history processMoving).Trace
    [.opened firstDemo, .opened (openingDemo SOCK_RAW 4)] ⟨worldMoving, [4, 3]⟩ := by
  have h2 : Opens (processMoving.world.openedDemo firstDemo) (openingDemo SOCK_RAW 4) worldMoving :=
    ⟨rfl, ⟨.inr rfl, by decide, (absurd · (by decide)), (absurd · (by decide)), rfl⟩, rfl⟩
  exact trace_first.step (.opens h2)

/-- Closing the first of two sockets makes the next read an exit, the second still being open. -/
theorem calls_open_second :
    ((grnvs_read 1 1500 none).run ((grnvs_close 3).run worldMoving).2).1 = .error (.exit (-1)) := by
  have hheld : (3 : Int) ∈ [4, 3] := List.mem_cons_of_mem 4 (List.mem_singleton.mpr rfl)
  have htrace := trace_moving.step (.closes hheld rfl)
  exact ((calls_open htrace).2 (not_unclosed_snoc_closed _ 3)).1 1 1500 none

/-- The IPv4 address of the first opening outlives the second. -/
theorem addresses_refined_moving :
    grnvs_get_ip6addr (processMoving.world.openedDemo firstDemo).statics =
        some ([0x20, 1, 0x0d, 0xb8] ++ zeros 11 ++ [1]) ∧
      grnvs_get_ipaddr worldMoving.statics = [10, 0, 0, 1] ∧
      grnvs_get_ip6addr worldMoving.statics = some (zeros 16) := by
  have hfirst := (addresses_refined trace_first).1
  have hsecond := (addresses_refined trace_moving).1
  exact ⟨hfirst.ip6addr, hsecond.ipaddr, hsecond.ip6addr⟩

end Grnvs.Raw
