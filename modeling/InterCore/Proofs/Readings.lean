import InterCore.Proofs.Account
import InterCore.Proofs.Message

/-!
# Reading a board

What a look at a board tells: the members of the queues by the links in memory, the slots of the
peer by their addresses, the nodes in the boxes of the inboxes and of the application. On a board
that shows an account, these readings are what the account says.

## Main definitions

* `Board.line`, `Board.slotsToFill`, `Board.inboxNodes`, `Board.boxNodes`: the readings.
* `Board.hostPlaces`, `Board.places`: every buffer that the host has, and every buffer.
* `Board.message`: the packet of a buffer.

## Main results

* `Board.Ready.line_eq`, `Board.Shows.inboxNodes_eq` and so on: the readings of a board that shows
  an account.
-/

namespace InterCore

variable {σ : Type}

/-- The node of the head of a line. -/
def Host.lineHead (h : Host) : Line → NodeIndex
  | .shared q => h.queue q
  | .waiting => h.localQueue

namespace Board

variable (b : Board σ)

/-- The members of a line, by the links in memory. -/
def line (l : Line) : List (Option NodeIndex) :=
  Chain.members b.host.arena b.memory (b.host.lineHead l)

/-- The nodes of the slots that the peer may fill. -/
def slotsToFill : List (Option NodeIndex) := b.peer.free.map b.host.arena.indexOf?

/-- The nodes in the live slots of an inbox. -/
def inboxNodes (e : Endpoint) : List (Option NodeIndex) :=
  (b.host.receiver e).inbox.toList.map Box.node

/-- The nodes in the boxes of the application that own one. -/
def boxNodes : List NodeIndex := (b.boxes.toList.map Box.node).reduceOption

/-- Every buffer that the host has, place by place: the lines, the inboxes and the boxes. -/
def hostPlaces : List (Option NodeIndex) :=
  (Line.made b.host.switches.traces).flatMap b.line ++
    (b.inboxNodes .ble ++ b.inboxNodes .system) ++ b.boxNodes.map some

/-- Every buffer, place by place. -/
def places : List (Option NodeIndex) := b.slotsToFill ++ b.hostPlaces

/-- The packet of a buffer. -/
def message (n : NodeIndex) : Message := Message.load b.memory (b.host.arena.locate n)

end Board

theorem Host.Started.lineHead_eq {p : Placement} {sw : Switches} {h : Host} (hs : h.Started p sw)
    (l : Line) : h.lineHead l = l.head := by
  cases l with
  | shared q => exact hs.queue q
  | waiting => exact hs.localQueue

namespace Board.Ready

variable {p : Placement} {sw : Switches} {b : Board σ} {q : Line → List NodeIndex}
  {free : List NodeIndex} (h : b.Ready p sw q free) (hp : p.Valid)
include h

theorem length_line_le (l : Line) : (q l).length ≤ slots.length := by
  have hlines := (List.nodup_append.mp h.carries.nodup).2.1
  have hnd : (q l).Nodup := (List.nodup_flatMap.mp hlines).1 l l.mem_all
  exact (hnd.subperm fun n hn => h.carries.mem_slots_of_mem hn).length_le

include hp

/-- The links of a line lead to its buffers. -/
theorem line_eq {l : Line} (hl : l ∈ Line.made sw.traces) : b.line l = (q l).map some := by
  have hmem : (l.head, q l) ∈ chains sw.traces q := List.mem_map.mpr ⟨l, hl, rfl⟩
  have hnd := h.carries.chains.nodup_of_mem hmem
  rw [Board.line, h.host.lineHead_eq, h.host.arena,
    (h.carries.chains.represents _ hmem).members_eq hp.separated
      (fun i hi => h.carries.chains.has_of_mem hmem hi) (List.nodup_cons.mp hnd).1,
    List.take_of_length_le (Nat.le_trans (h.length_line_le l) (by decide))]

/-- The addresses in the record of the peer are those of its slots. -/
theorem slotsToFill_eq : b.slotsToFill = free.map some := by
  rw [slotsToFill, h.carries.peer_free, h.host.arena, List.map_map]
  exact List.map_congr_left fun n hn => hp.separated.indexOf?_locate
    (has_of_mem_slots (h.carries.mem_slots n (List.mem_append_left _ hn)))

end Board.Ready

namespace Board.Shows

variable {p : Placement} {sw : Switches} {b : Board σ} {s : Account σ} (h : b.Shows p sw s)
include h

theorem inboxNodes_eq (e : Endpoint) : b.inboxNodes e = (s.inbox e).map some := by
  rw [inboxNodes, (h.inbox e).toList_eq (by decide), List.map_map]
  rfl

theorem line_eq_of_ne {l : Line} (hl : l ≠ .shared .traces) : b.line l = (s.line l).map some :=
  h.ready.line_eq h.valid (Line.mem_made_of_ne _ hl)

theorem line_unmade (ht : sw.traces = false) : b.line (.shared .traces) = [none] := by
  rw [Board.line, h.host.lineHead_eq, h.host.arena]
  exact h.carries.members_unmade h.valid ht

theorem boxNodes_eq : b.boxNodes = s.boxes.reduceOption := by
  rw [boxNodes, h.boxes, List.map_map]
  congr 1
  exact (List.map_congr_left fun o _ => Box.node_holding o).trans (List.map_id _)

/-- Traces that are switched off have no line and no buffer waits in it. -/
theorem flatMap_line_eq :
    (Line.made sw.traces).flatMap b.line = (Line.all.flatMap s.line).map some := by
  have hmade : (Line.made sw.traces).flatMap b.line =
      (Line.made sw.traces).flatMap fun l => (s.line l).map some :=
    List.flatMap_congr fun l hl => h.ready.line_eq h.valid hl
  have hall : (Line.made sw.traces).flatMap s.line = Line.all.flatMap s.line := by
    cases ht : sw.traces with
    | false =>
      have hnone := (h.carries.unmade ht).1
      simp [Line.made, Line.all, hnone]
    | true => rfl
  rw [hmade, ← List.map_flatMap, hall]

/-- Every buffer that the host has is one of its account. -/
theorem hostPlaces_eq : b.hostPlaces = s.hostPlaces.map some := by
  rw [Board.hostPlaces, h.host.switches, h.flatMap_line_eq, h.inboxNodes_eq, h.inboxNodes_eq,
    h.boxNodes_eq, ← List.map_append, ← List.map_append, ← List.map_append, Account.hostPlaces]

/-- **Every buffer of a board is one of its account.** -/
theorem places_eq : b.places = s.places.map some := by
  rw [Board.places, h.ready.slotsToFill_eq h.valid, h.hostPlaces_eq, ← List.map_append,
    s.places_eq_append]

end Board.Shows

end InterCore
