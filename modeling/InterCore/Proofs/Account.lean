import Mathlib.Data.List.ReduceOption
import InterCore.Host.Inbox
import InterCore.Proofs.Ring
import InterCore.Proofs.Transfers

/-!
# Accounts of a board

An account lists what a booted board keeps in links, rings and private records: which buffers wait
in which line, in which order, which inbox and which box hold the others, and what the flags and the
doorbells say. Programs are followed on accounts: `Board.Yields` says that a program finishes, and
which account the board then shows. The observer keeps notes and runs no program.

## Main definitions

* `Account`: the account of a board; `Board.Shows`: the board shows it.
* `Account.places`: every buffer that an account knows of, place by place.
* `Board.Yields`: a program finishes with a result and an account.

## Main results

* `Board.Yields.bind`: programs one after the other.
* `Account.places_takeFirst`, `Account.places_append` and the same for inboxes, boxes and the peer:
  what moving one buffer does to the places.
-/

namespace InterCore

open Memory

variable {σ α β : Type}

/-- The observer that only keeps notes. -/
def Observer.passive (note : Event → σ → σ) : Observer σ := fun e => Board.modifySink (note e)

/-- What such an observer has kept after it was told some events. -/
def Event.noteAll (note : Event → σ → σ) (events : List Event) (z : σ) : σ :=
  events.foldl (fun y e => note e y) z

theorem Event.noteAll_append (note : Event → σ → σ) (events events' : List Event) (z : σ) :
    noteAll note (events ++ events') z = noteAll note events' (noteAll note events z) :=
  List.foldl_append

/-- The flags of the host. -/
structure Flags where
  releasePending : Bool
  aclInFlight : Bool
  systemBusy : Bool
  responseReady : Bool
  deriving DecidableEq, Repr

/-- The flags of a host. -/
def Host.flags (h : Host) : Flags :=
  ⟨h.releasePending, h.aclInFlight, h.systemBusy, h.responseReady⟩

/-- The host with other flags. -/
def Host.withFlags (h : Host) (x : Flags) : Host :=
  { h with
    releasePending := x.releasePending
    aclInFlight := x.aclInFlight
    systemBusy := x.systemBusy
    responseReady := x.responseReady }

/-- The box that owns a given buffer, if any. -/
def Box.holding : Option NodeIndex → Box
  | none => Box.empty
  | some n => { node := some n, bound := true }

theorem Box.around_eq {n : NodeIndex} (hn : n ∈ slots) : Box.around n = Box.holding (some n) := by
  have hne : n ≠ NodeIndex.none := by
    rintro rfl
    exact absurd hn (by decide)
  rw [around, NodeIndex.toOption, if_neg hne]
  rfl

theorem Box.node_holding (o : Option NodeIndex) : (Box.holding o).node = o := by
  cases o <;> rfl

/-- The account of a board. -/
structure Account (σ : Type) where
  /-- The memory, as far as it holds no links. -/
  bytes : Memory
  panel : Panel
  /-- The buffers that wait in each line. -/
  line : Line → List NodeIndex
  /-- The slots that the peer may fill, the next one first. -/
  free : List NodeIndex
  /-- The buffers that wait in each inbox, the oldest first. -/
  inbox : Endpoint → List NodeIndex
  /-- How often the application has taken from each inbox, modulo `2 ^ 64`. -/
  taken : Endpoint → UInt64
  /-- What each box of the application owns. -/
  boxes : List (Option NodeIndex)
  flags : Flags
  /-- What the observer keeps. -/
  sink : σ

namespace Account

/-! ### Changes of one part -/

section Changes

variable (s : Account σ)

/-- The observer is told an event. -/
def tell (note : Event → σ → σ) (e : Event) : Account σ := { s with sink := note e s.sink }

/-- The doorbell of a channel changes. -/
def modifyBell (c : Channel) (f : Bell → Bell) : Account σ :=
  { s with panel := s.panel.modify c f }

/-- The flags change. -/
def modifyFlags (f : Flags → Flags) : Account σ := { s with flags := f s.flags }

/-- Bytes change. -/
def modifyBytes (f : Memory → Memory) : Account σ := { s with bytes := f s.bytes }

/-- A line gets other buffers. -/
def setLine (l : Line) (xs : List NodeIndex) : Account σ :=
  { s with line := InterCore.setLine s.line l xs }

/-- A buffer joins the end of a line. -/
def append (l : Line) (n : NodeIndex) : Account σ := s.setLine l (s.line l ++ [n])

/-- An inbox gets other buffers. -/
def setInbox (e : Endpoint) (xs : List NodeIndex) : Account σ :=
  { s with inbox := Function.update s.inbox e xs }

/-- A box owns something else. -/
def setBox (i : Nat) (o : Option NodeIndex) : Account σ := { s with boxes := s.boxes.set i o }

/-- What a box owns; a box that does not exist owns nothing. -/
def box (i : Nat) : Option NodeIndex := s.boxes[i]?.join

/-! ### Places -/

/-- Every buffer, place by place: the slots of the peer, the lines, the inboxes, the boxes. -/
def places : List NodeIndex :=
  s.free ++ Line.all.flatMap s.line ++ (s.inbox .ble ++ s.inbox .system) ++ s.boxes.reduceOption

/-- Every buffer that the host has. -/
def hostPlaces : List NodeIndex :=
  Line.all.flatMap s.line ++ (s.inbox .ble ++ s.inbox .system) ++ s.boxes.reduceOption

theorem places_eq_append : s.places = s.free ++ s.hostPlaces := by
  simp only [places, hostPlaces, List.append_assoc]

/-- Besides the buffers `held`, which are on their way, no event slot is in two places, and nothing
but event slots is in any. -/
def Proper (held : List NodeIndex) : Prop := (held ++ s.places).Subperm slots

end Changes

variable {s s' : Account σ} {n : NodeIndex} {xs held : List NodeIndex} {l : Line} {e : Endpoint}
  {i : Nat}

theorem Proper.nodup (h : s.Proper held) : (held ++ s.places).Nodup := by
  obtain ⟨xs, hperm, hsub⟩ := h
  exact hperm.nodup_iff.mp (hsub.nodup (by decide))

theorem Proper.mem_slots (h : s.Proper held) (hn : n ∈ held ++ s.places) : n ∈ slots :=
  h.subset hn

theorem Proper.of_perm {held' : List NodeIndex} (h : s.Proper held)
    (hperm : (held' ++ s'.places).Perm (held ++ s.places)) : s'.Proper held' :=
  hperm.subperm.trans h

theorem Proper.not_mem_places (h : s.Proper [n]) : n ∉ s.places :=
  (List.nodup_cons.mp h.nodup).1

theorem Proper.not_mem_lines (h : s.Proper [n]) : n ∉ s.free ++ Line.all.flatMap s.line :=
  fun hmem => h.not_mem_places (List.mem_append_left _ (List.mem_append_left _ hmem))

/-- A line and the rest of the places. -/
theorem exists_rest_line (s : Account σ) (l : Line) :
    ∃ rest : List NodeIndex, ∀ xs, (s.setLine l xs).places.Perm (xs ++ rest) := by
  obtain ⟨rest, hrest⟩ := InterCore.places_perm s.line s.free l
  refine ⟨rest ++ ((s.inbox .ble ++ s.inbox .system) ++ s.boxes.reduceOption), fun xs => ?_⟩
  rw [places, List.append_assoc, ← List.append_assoc xs]
  exact (hrest xs).append_right _

/-- An inbox and the rest of the places. -/
theorem exists_rest_inbox (s : Account σ) (e : Endpoint) :
    ∃ rest : List NodeIndex, ∀ xs, (s.setInbox e xs).places.Perm (xs ++ rest) := by
  have hbe : Endpoint.ble ≠ Endpoint.system := by decide
  cases e with
  | ble =>
    refine ⟨s.free ++ Line.all.flatMap s.line ++ (s.inbox .system ++ s.boxes.reduceOption),
      fun xs => ?_⟩
    simp only [places, setInbox, Function.update_self, Function.update_of_ne hbe.symm]
    rw [List.append_assoc, List.append_assoc xs]
    exact List.perm_append_comm_assoc _ _ _
  | system =>
    refine ⟨s.free ++ Line.all.flatMap s.line ++ s.inbox .ble ++ s.boxes.reduceOption,
      fun xs => ?_⟩
    simp only [places, setInbox, Function.update_self, Function.update_of_ne hbe]
    rw [← List.append_assoc, List.append_assoc _ xs,
      List.append_assoc _ (s.inbox .ble) s.boxes.reduceOption]
    refine (List.perm_append_comm_assoc _ _ _).trans ?_
    rw [List.append_assoc _ (s.inbox .ble)]

/-- A box and the rest of the places. -/
theorem exists_rest_box (s : Account σ) (hi : i < s.boxes.length) :
    ∃ rest : List NodeIndex, ∀ o, (s.setBox i o).places.Perm (o.toList ++ rest) := by
  refine ⟨s.free ++ Line.all.flatMap s.line ++ (s.inbox .ble ++ s.inbox .system) ++
    ((s.boxes.take i).reduceOption ++ (s.boxes.drop (i + 1)).reduceOption), fun o => ?_⟩
  have hbox : (s.boxes.set i o).reduceOption.Perm
      (o.toList ++ ((s.boxes.take i).reduceOption ++ (s.boxes.drop (i + 1)).reduceOption)) := by
    rw [List.set_eq_take_append_cons_drop, if_pos hi, List.reduceOption_append,
      ← List.singleton_append, List.reduceOption_append, List.reduceOption_singleton]
    exact List.perm_append_comm_assoc _ _ _
  simp only [places, setBox]
  exact (hbox.append_left _).trans (List.perm_append_comm_assoc _ _ _)

theorem setLine_self (s : Account σ) (l : Line) : s.setLine l (s.line l) = s := by
  rw [setLine, InterCore.setLine_self]

theorem setInbox_self (s : Account σ) (e : Endpoint) : s.setInbox e (s.inbox e) = s := by
  rw [setInbox, Function.update_eq_self]

theorem setBox_self (s : Account σ) (i : Nat) : s.setBox i (s.box i) = s := by
  rw [setBox, box]
  congr 1
  by_cases hi : i < s.boxes.length
  · rw [List.getElem?_eq_getElem hi, Option.join_some, List.set_getElem_self]
  · rw [List.set_eq_of_length_le (Nat.not_lt.mp hi)]

/-- Buffers go into a line or come out of it. -/
theorem places_setLine (held held' : List NodeIndex)
    (h : (held' ++ xs).Perm (held ++ s.line l)) :
    (held' ++ (s.setLine l xs).places).Perm (held ++ s.places) := by
  obtain ⟨rest, hrest⟩ := s.exists_rest_line l
  have hall := perm_exchange hrest held held' h
  rwa [setLine_self] at hall

/-- Buffers go into an inbox or come out of it. -/
theorem places_setInbox (held held' : List NodeIndex)
    (h : (held' ++ xs).Perm (held ++ s.inbox e)) :
    (held' ++ (s.setInbox e xs).places).Perm (held ++ s.places) := by
  obtain ⟨rest, hrest⟩ := s.exists_rest_inbox e
  have hall := perm_exchange hrest held held' h
  rwa [setInbox_self] at hall

/-- A buffer goes into a box or comes out of it. -/
theorem places_setBox {o : Option NodeIndex} (hi : i < s.boxes.length)
    (held held' : List NodeIndex) (h : (held' ++ o.toList).Perm (held ++ (s.box i).toList)) :
    (held' ++ (s.setBox i o).places).Perm (held ++ s.places) := by
  obtain ⟨rest, hrest⟩ := s.exists_rest_box hi
  have hall := perm_exchange hrest held held' h
  rwa [setBox_self] at hall

/-- The first buffer leaves a line. -/
theorem places_takeFirst (hl : s.line l = n :: xs) :
    (n :: (s.setLine l xs).places).Perm s.places :=
  places_setLine [] [n] (.of_eq hl.symm)

/-- A buffer joins the end of a line. -/
theorem places_append (s : Account σ) (l : Line) (n : NodeIndex) :
    (s.append l n).places.Perm (n :: s.places) :=
  places_setLine [n] [] (List.perm_append_singleton n (s.line l))

/-- The oldest buffer leaves an inbox. -/
theorem places_takeInbox (he : s.inbox e = n :: xs) :
    (n :: (s.setInbox e xs).places).Perm s.places :=
  places_setInbox [] [n] (.of_eq he.symm)

/-- A buffer joins the end of an inbox. -/
theorem places_appendInbox (s : Account σ) (e : Endpoint) (n : NodeIndex) :
    (s.setInbox e (s.inbox e ++ [n])).places.Perm (n :: s.places) :=
  places_setInbox [n] [] (List.perm_append_singleton n (s.inbox e))

theorem lt_length_of_box (hi : s.box i = some n) : i < s.boxes.length := by
  rw [box] at hi
  by_contra hge
  rw [List.getElem?_eq_none (Nat.not_lt.mp hge)] at hi
  exact absurd hi (by simp)

/-- A box is emptied. -/
theorem places_emptyBox (hi : s.box i = some n) :
    (n :: (s.setBox i none).places).Perm s.places :=
  places_setBox (lt_length_of_box hi) [] [n] (.of_eq (congrArg Option.toList hi.symm))

/-- An empty box gets a buffer. -/
theorem places_fillBox (hi : i < s.boxes.length) (hempty : s.box i = none) (n : NodeIndex) :
    (s.setBox i (some n)).places.Perm (n :: s.places) := by
  refine places_setBox hi [n] [] (.of_eq ?_)
  rw [hempty]
  rfl

end Account

/-! ### Boards that show an account -/

/-- A board shows an account. -/
structure Board.Shows (p : Placement) (sw : Switches) (b : Board σ) (s : Account σ) : Prop where
  valid : p.Valid
  host : b.host.Started p sw
  carries : Carries p sw.traces b.memory b.peer s.line s.free
  bytes : AgreeOff (p.LinkByte sw.traces) s.bytes b.memory
  panel : b.panel = s.panel
  inbox : ∀ e, (b.host.receiver e).inbox.Holds Box.empty
    ((s.inbox e).map fun n => Box.holding (some n))
  taken : ∀ e, (b.host.receiver e).inbox.head = s.taken e
  boxes : b.boxes.toList = s.boxes.map Box.holding
  flags : b.host.flags = s.flags
  sink : b.sink = s.sink

/-- The program finishes with a result, and the board then shows an account. -/
def Board.Yields (p : Placement) (sw : Switches) (x : BoardM σ α) (b : Board σ) (r : α)
    (s : Account σ) : Prop :=
  ∃ b', x.run b = .ok r b' ∧ b'.Shows p sw s

namespace Board

variable {p : Placement} {sw : Switches} {b : Board σ} {s s' : Account σ} {x : BoardM σ α} {r : α}
  {r' : β}

namespace Yields

/-- Programs one after the other. -/
theorem bind {f : α → BoardM σ β} (hx : Yields p sw x b r s)
    (hf : ∀ b', b'.Shows p sw s → Yields p sw (f r) b' r' s') :
    Yields p sw (x >>= f) b r' s' := by
  obtain ⟨b₁, hrun₁, h₁⟩ := hx
  obtain ⟨b₂, hrun₂, h₂⟩ := hf b₁ h₁
  exact ⟨b₂, by rw [run_bind_ok hrun₁, hrun₂], h₂⟩

/-- A program that finished did what it does to the account. -/
theorem of_run {r₁ : α} {b₁ : Board σ} (hx : Yields p sw x b r s) (hrun : x.run b = .ok r₁ b₁) :
    r₁ = r ∧ b₁.Shows p sw s := by
  obtain ⟨b', hrun', h'⟩ := hx
  rw [hrun'] at hrun
  injection hrun with hr hb
  exact ⟨hr.symm, hb ▸ h'⟩

theorem get {f : Board σ → BoardM σ α} (hf : Yields p sw (f b) b r s) :
    Yields p sw (MonadState.get >>= f) b r s := hf

theorem of_run_eq {y : BoardM σ α} {b' : Board σ} (h : x.run b = y.run b')
    (hy : Yields p sw y b' r s) : Yields p sw x b r s := by
  obtain ⟨b₁, hrun₁, h₁⟩ := hy
  exact ⟨b₁, by rw [h, hrun₁], h₁⟩

end Yields

namespace Shows

variable (h : b.Shows p sw s)
include h

theorem ready : b.Ready p sw s.line s.free := ⟨h.host, h.carries⟩

theorem pure (r : α) : Yields p sw (Pure.pure r) b r s := ⟨b, rfl, h⟩

theorem tell (note : Event → σ → σ) (e : Event) :
    Yields p sw (Observer.passive note e) b () (s.tell note e) :=
  ⟨{ b with sink := note e b.sink }, rfl, { h with sink := congrArg (note e) h.sink }⟩

theorem modifyBell (c : Channel) (f : Bell → Bell) :
    Yields p sw (Board.modifyBell c f) b () (s.modifyBell c f) :=
  ⟨{ b with panel := b.panel.modify c f }, rfl,
    { h with panel := congrArg (·.modify c f) h.panel }⟩

theorem bell (c : Channel) : Yields p sw (Board.bell c) b (s.panel.get c) s :=
  ⟨b, by rw [run_bell, h.panel], h⟩

/-- The host may change its flags. -/
theorem modifyFlags (g : Flags → Flags) {f : Host → Host}
    (hf : ∀ host : Host, f host = host.withFlags (g host.flags)) :
    Yields p sw (modifyHost f) b () (s.modifyFlags g) := by
  refine ⟨{ b with host := b.host.withFlags (g b.host.flags) }, by rw [run_modifyHost, hf],
    { h with
      host := { h.host with }
      inbox := fun e => ?_
      taken := fun e => ?_
      flags := congrArg g h.flags }⟩
  · have := h.inbox e
    cases e <;> exact this
  · have := h.taken e
    cases e <;> exact this

/-- Bytes that belong to no link and to no table may change. -/
theorem modifyBytes {S : Address → Prop} {f : Memory → Memory} (hf : ∀ m, AgreeOff S m (f m))
    (hS : ∀ k, S k → p.Quiet k)
    (hsame : ∀ m m', AgreeOff (p.LinkByte sw.traces) m m' →
      AgreeOff (p.LinkByte sw.traces) (f m) (f m')) :
    Yields p sw (modifyMemory f) b () (s.modifyBytes f) :=
  ⟨{ b with memory := f b.memory }, rfl, { h with
    carries := h.carries.of_quiet h.valid (hf _) hS
    bytes := hsame _ _ h.bytes }⟩

/-- The host links a buffer to the end of a line. -/
theorem append {l : Line} {n head : NodeIndex} (hl : l ∈ Line.made sw.traces)
    (hhead : head = l.head) (hn : s.Proper [n]) :
    Yields p sw (splice fun a m => Chain.pushBack a m head n) b () (s.append l n) := by
  obtain ⟨m', hrun, hagree, hready⟩ :=
    h.ready.append h.valid hl (hn.mem_slots List.mem_cons_self) hn.not_mem_lines
  exact ⟨{ b with memory := m' }, by rw [hhead, hrun],
    { h with carries := hready.carries, bytes := h.bytes.trans hagree }⟩

/-- The host takes the first buffer of a line. -/
theorem takeFirst {l : Line} {n head : NodeIndex} {xs : List NodeIndex}
    (hl : l ∈ Line.made sw.traces) (hhead : head = l.head) (hq : s.line l = n :: xs) :
    Yields p sw (extract fun a m => Chain.popFront a m head) b (some n) (s.setLine l xs) := by
  obtain ⟨m', hrun, hagree, hready⟩ := h.ready.takeFirst h.valid hl hq
  exact ⟨{ b with memory := m' }, by rw [hhead, hrun],
    { h with carries := hready.carries, bytes := h.bytes.trans hagree }⟩

theorem takeFirst_nil {l : Line} {head : NodeIndex} (hl : l ∈ Line.made sw.traces)
    (hhead : head = l.head) (hq : s.line l = []) :
    Yields p sw (extract fun a m => Chain.popFront a m head) b none s :=
  ⟨b, by rw [hhead, h.ready.takeFirst_nil h.valid hl hq], h⟩

theorem address {n : NodeIndex} (hn : n ∈ slots) :
    Yields p sw (Board.address n) b (p.arena.locate n) s :=
  ⟨b, h.ready.has_address (has_of_mem_slots hn), h⟩

end Shows

end Board

end InterCore
