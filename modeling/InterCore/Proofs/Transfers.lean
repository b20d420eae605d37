import InterCore.Proofs.Handover
import InterCore.Proofs.Lines

/-!
# Programs that move buffers between lines

The programs of both cores that only splice: handing the waiting buffers over to the peer and taking
given-back buffers as slots to fill. On a board that carries some lines they succeed, change nothing
but links, and the board then carries the lines with the buffers moved.

## Main definitions

* `Host.Started`: the host as a boot over a placement leaves it, as far as no operation changes it.
* `Board.Ready`: a started host on a board that carries some lines.
* `Placement.lists`: the lines as lists of nodes, with the two for given-back buffers in front.
* `flushed`: the lines after the waiting buffers were handed over.

## Main results

* `Board.Ready.flush`: the host hands the waiting buffers over.
* `Board.Ready.drain_reclaimOne`: the peer takes all given-back buffers.
-/

namespace InterCore

open Memory

/-- What a boot fixes about the host. -/
structure Host.Started (p : Placement) (sw : Switches) (h : Host) : Prop where
  place : h.place = p
  arena : h.arena = p.arena
  switches : h.switches = sw
  firstQueue : h.firstQueue = 0
  freeQueue : h.freeQueue = (Line.shared .free).head
  localQueue : h.localQueue = Line.waiting.head
  ble_queue : h.ble.queue = (Line.shared .ble).head
  system_queue : h.system.queue = (Line.shared .system).head

theorem Host.Started.queue {p : Placement} {sw : Switches} {h : Host} (hs : h.Started p sw)
    (q : Queue) : h.queue q = (Line.shared q).head := by
  rw [Host.queue, hs.firstQueue, UInt16.zero_add]
  rfl

/-- The queue that the peer fills for an endpoint. -/
def Endpoint.queue : Endpoint → Queue
  | .ble => .ble
  | .system => .system

theorem Host.Started.receiver_queue {p : Placement} {sw : Switches} {h : Host}
    (hs : h.Started p sw) (e : Endpoint) : (h.receiver e).queue = (Line.shared e.queue).head := by
  cases e with
  | ble => exact hs.ble_queue
  | system => exact hs.system_queue

variable {σ : Type}

/-! The peer finds its tables. -/

namespace Published

variable {p : Placement} {traces : Bool} {b : Board σ} (h : Published p traces b.memory)
  (htable : b.peer.referenceTable = p.referenceTable)
include h htable

theorem run_references : Peer.references.run b = .ok p.references b := by
  rw [← h.references, ← htable]
  rfl

theorem run_bleTable : Peer.bleTable.run b = .ok p.bleTable b := by
  rw [Peer.bleTable, Board.run_bind_ok (h.run_references htable), ← h.ble]
  rfl

theorem run_systemTable : Peer.systemTable.run b = .ok p.systemTable b := by
  rw [Peer.systemTable, Board.run_bind_ok (h.run_references htable), ← h.system]
  rfl

end Published

/-- A board with a started host that carries some lines. -/
structure Board.Ready (p : Placement) (sw : Switches) (b : Board σ) (q : Line → List NodeIndex)
    (free : List NodeIndex) : Prop where
  host : b.host.Started p sw
  carries : Carries p sw.traces b.memory b.peer q free

namespace Board

namespace Ready

variable {p : Placement} {sw : Switches} {b : Board σ} {q : Line → List NodeIndex}
  {free : List NodeIndex} {l : Line} {n : NodeIndex} {xs : List NodeIndex}

theorem has_address (h : b.Ready p sw q free) {i : NodeIndex} (hi : p.arena.Has i) :
    (Board.address i).run b = .ok (p.arena.locate i) b := by
  refine run_lookup_ok b ?_
  rw [h.host.arena, hi.address]

theorem run_references (h : b.Ready p sw q free) : Peer.references.run b = .ok p.references b :=
  h.carries.published.run_references h.carries.peer_table

theorem run_bleTable (h : b.Ready p sw q free) : Peer.bleTable.run b = .ok p.bleTable b :=
  h.carries.published.run_bleTable h.carries.peer_table

theorem run_systemTable (h : b.Ready p sw q free) : Peer.systemTable.run b = .ok p.systemTable b :=
  h.carries.published.run_systemTable h.carries.peer_table

/-- The host links a buffer to the end of a line. -/
theorem append (h : b.Ready p sw q free) (hp : p.Valid) (hl : l ∈ Line.made sw.traces)
    (hn : n ∈ slots) (hnew : n ∉ free ++ Line.all.flatMap q) :
    ∃ m', (splice fun a m => Chain.pushBack a m l.head n).run b = .ok () { b with memory := m' } ∧
      AgreeOff (p.LinkByte sw.traces) b.memory m' ∧
      Ready p sw { b with memory := m' } (setLine q l (q l ++ [n])) free := by
  obtain ⟨m', hrun, hagree, hcarries⟩ := h.carries.append hp hl hn hnew
  refine ⟨m', run_splice_ok b ?_, hagree, ⟨h.host, hcarries⟩⟩
  rw [h.host.arena, hrun]

/-- The host takes the first buffer of a line. -/
theorem takeFirst (h : b.Ready p sw q free) (hp : p.Valid) (hl : l ∈ Line.made sw.traces)
    (hq : q l = n :: xs) :
    ∃ m', (extract fun a m => Chain.popFront a m l.head).run b =
        .ok (some n) { b with memory := m' } ∧
      AgreeOff (p.LinkByte sw.traces) b.memory m' ∧
      Ready p sw { b with memory := m' } (setLine q l xs) free := by
  obtain ⟨m', hrun, hagree, hcarries⟩ := h.carries.takeFirst hp hl hq
  refine ⟨m', run_extract_ok b ?_, hagree, ⟨h.host, hcarries⟩⟩
  rw [h.host.arena, hrun]

theorem takeFirst_nil (h : b.Ready p sw q free) (hp : p.Valid) (hl : l ∈ Line.made sw.traces)
    (hq : q l = []) :
    (extract fun a m => Chain.popFront a m l.head).run b = .ok none b := by
  refine run_extract_ok b (m := b.memory) ?_
  rw [h.host.arena, h.carries.takeFirst_nil hp hl hq]

end Ready

end Board

/-! ### Lines as lists of nodes -/

/-- The lines besides the two over which buffers are given back. -/
def Line.others (traces : Bool) : List Line :=
  [shared .ble, shared .system] ++ if traces then [shared .traces] else []

theorem Line.made_perm (traces : Bool) :
    (made traces).Perm (shared .free :: waiting :: others traces) := by
  cases traces <;> decide

/-- The lists of a placement. -/
def Placement.lists (p : Placement) (traces : Bool) (q : Line → List NodeIndex) : NodeLists where
  arena := p.arena
  freeQueue := (Line.shared .free).head
  localQueue := Line.waiting.head
  others := (Line.others traces).map fun l => (l.head, q l)

section Lists

variable {p : Placement} {traces : Bool} {q : Line → List NodeIndex}

theorem chains_perm (p : Placement) (traces : Bool) (q : Line → List NodeIndex) :
    (chains traces q).Perm ((p.lists traces q).family (q (.shared .free)) (q .waiting)) :=
  (Line.made_perm traces).map fun l : Line => (l.head, q l)

/-- Given-back buffers are in no other list. -/
theorem Placement.lists_setLine {l : Line} (hl : l = .shared .free ∨ l = .waiting)
    (xs : List NodeIndex) : p.lists traces (setLine q l xs) = p.lists traces q := by
  have hne : ∀ l' ∈ Line.others traces, l' ≠ l := by
    rcases hl with rfl | rfl <;> cases traces <;> decide
  have hothers : ((Line.others traces).map fun l' => (l'.head, setLine q l xs l')) =
      (Line.others traces).map fun l' => (l'.head, q l') :=
    List.map_congr_left fun l' hl' => by rw [setLine, Function.update_of_ne (hne l' hl')]
  rw [lists, hothers, lists]

end Lists

/-! ### Handing waiting buffers over -/

/-- The lines after the waiting buffers were handed over. -/
def flushed (q : Line → List NodeIndex) : Line → List NodeIndex :=
  setLine (setLine q .waiting []) (.shared .free) (q (.shared .free) ++ q .waiting)

theorem flushed_of_nil {q : Line → List NodeIndex} (hq : q .waiting = []) : flushed q = q := by
  rw [flushed, hq, List.append_nil, ← hq, setLine_self, setLine_self]

/-- The buffers of all lines are the same ones. -/
theorem flatMap_flushed (q : Line → List NodeIndex) :
    Line.all.flatMap (flushed q) = Line.all.flatMap q := by
  simp [Line.all, flushed, setLine, Function.update]

namespace Board.Ready

variable {p : Placement} {sw : Switches} {b : Board σ} {q : Line → List NodeIndex}
  {free : List NodeIndex} {n : NodeIndex} {xs : List NodeIndex}

/-- No line has as many buffers as a loop has steps. -/
theorem length_lt_stepLimit (h : b.Ready p sw q free) (l : Line) : (q l).length < stepLimit := by
  have hlines := (List.nodup_append.mp h.carries.nodup).2.1
  exact Chain.length_lt_stepLimit ((List.nodup_flatMap.mp hlines).1 l l.mem_all)

/-- Links of lists are links of lines. -/
theorem agreeOff_of_listed (h : b.Ready p sw q free) {m' : Memory}
    (hagree : AgreeOff (p.arena.Links
      (· ∈ (p.lists sw.traces q).listed (q (.shared .free) ++ q .waiting))) b.memory m') :
    AgreeOff (p.LinkByte sw.traces) b.memory m' := by
  refine hagree.mono fun k hk => hk.mono fun i hi => h.carries.linkable_of_mem_nodes ?_
  have hlisted := (NodeLists.nodes_family _ _).mem_iff.mpr hi
  exact ((chains_perm _ _ _).flatMap_right _).mem_iff.mpr hlisted

/-- **The host hands every waiting buffer over, in order.** -/
theorem flush (h : b.Ready p sw q free) (hp : p.Valid) :
    ∃ m', Host.flush.run b = .ok (q .waiting).length { b with memory := m' } ∧
      AgreeOff (p.LinkByte sw.traces) b.memory m' ∧
      Ready p sw { b with memory := m' } (flushed q) free := by
  obtain ⟨m', hrun, hagree, hw⟩ := flush_family (k := p.lists sw.traces q) h.host.arena
    h.host.localQueue hp.separated h.host.freeQueue (h.carries.chains.perm (chains_perm _ _ _))
  have hperm := chains_perm p sw.traces (flushed q)
  rw [flushed, Placement.lists_setLine (.inl rfl), Placement.lists_setLine (.inr rfl)] at hperm
  have hchains : Chain.WellFormed p.arena m' (chains sw.traces (flushed q)) := hw.perm hperm.symm
  have hagree := h.agreeOff_of_listed hagree
  refine ⟨m', hrun, hagree, h.host, h.carries.relink hp hchains hagree
    (fun ht => (h.carries.unmade ht).1) rfl rfl h.carries.peer_free ?_ ?_⟩
  · rw [flatMap_flushed]
    exact h.carries.nodup
  · rw [flatMap_flushed]
    exact h.carries.mem_slots

/-! ### Taking given-back buffers -/

theorem reclaimOne_nil (h : b.Ready p sw q free) (hq : q (.shared .free) = []) :
    (Peer.reclaimOne (p.arena.locate (Line.shared .free).head)).run b = .ok false b := by
  have hl : Line.shared .free ∈ Line.made sw.traces := Line.mem_made_of_ne _ (by decide)
  have hrun := h.carries.peerTakeFirst_nil hl hq
  simp only [Peer.reclaimOne, EStateM.run_bind, EStateM.run_get, hrun, EStateM.run_pure]

theorem reclaimOne_cons (h : b.Ready p sw q free) (hp : p.Valid)
    (hq : q (.shared .free) = n :: xs) :
    ∃ m', (Peer.reclaimOne (p.arena.locate (Line.shared .free).head)).run b = .ok true
        { b with
          memory := m'
          peer := { b.peer with free := p.arena.locate n :: b.peer.free } } ∧
      AgreeOff (p.LinkByte sw.traces) b.memory m' ∧
      Ready p sw
        { b with
          memory := m'
          peer := { b.peer with free := p.arena.locate n :: b.peer.free } }
        (setLine q (.shared .free) xs) (n :: free) := by
  have hl : Line.shared .free ∈ Line.made sw.traces := Line.mem_made_of_ne _ (by decide)
  obtain ⟨m', hrun, hagree, hcarries⟩ := h.carries.peerTakeFirst hp hl hq
  refine ⟨m', ?_, hagree, ⟨h.host, hcarries⟩⟩
  simp only [Peer.reclaimOne, EStateM.run_bind, EStateM.run_get, hrun, run_modifyMemory,
    run_modifyPeer, EStateM.run_pure]

/-- Buffers that are given back become slots to fill. -/
theorem perm_reclaimed (q : Line → List NodeIndex) (free : List NodeIndex) :
    ((q (.shared .free)).reverse ++ free ++
      Line.all.flatMap (setLine q (.shared .free) [])).Perm (free ++ Line.all.flatMap q) := by
  obtain ⟨rest, hrest⟩ := places_perm q free (.shared .free)
  have hall := perm_exchange hrest [] (q (.shared .free)).reverse (x := q (.shared .free)) (y := [])
    (by rw [List.append_nil]; exact List.reverse_perm _)
  rw [setLine_self] at hall
  rwa [List.append_assoc]

/-- **The peer takes every given-back buffer as a slot to fill.** -/
theorem drain_reclaimOne (h : b.Ready p sw q free) (hp : p.Valid) :
    ∃ m', (drain (Peer.reclaimOne (p.arena.locate (Line.shared .free).head))).run b =
        .ok (q (.shared .free)).length
        { b with
          memory := m'
          peer := { b.peer with
            free := ((q (.shared .free)).reverse ++ free).map p.arena.locate } } ∧
      AgreeOff (p.LinkByte sw.traces) b.memory m' ∧
      Ready p sw
        { b with
          memory := m'
          peer := { b.peer with
            free := ((q (.shared .free)).reverse ++ free).map p.arena.locate } }
        (setLine q (.shared .free) []) ((q (.shared .free)).reverse ++ free) := by
  obtain ⟨m', hrun, hagree, hw⟩ := drain_family (k := p.lists sw.traces q) hp.separated
    (h.carries.chains.perm (chains_perm _ _ _))
  have hslots : ((q (.shared .free)).map p.arena.locate).reverse ++ b.peer.free =
      ((q (.shared .free)).reverse ++ free).map p.arena.locate := by
    rw [h.carries.peer_free, List.map_append, List.map_reverse]
  have hperm := chains_perm p sw.traces (setLine q (.shared .free) [])
  rw [Placement.lists_setLine (.inl rfl)] at hperm
  have hchains : Chain.WellFormed p.arena m'
      (chains sw.traces (setLine q (.shared .free) [])) := hw.perm hperm.symm
  have hagree := h.agreeOff_of_listed hagree
  have hplaces := perm_reclaimed q free
  refine ⟨m', hslots ▸ hrun, hagree, h.host, h.carries.relink hp hchains hagree
    (fun ht => (h.carries.unmade ht).1) rfl rfl rfl (hplaces.nodup_iff.mpr h.carries.nodup)
    fun n hn => h.carries.mem_slots n (hplaces.mem_iff.mp hn)⟩

/-- The peer takes every given-back buffer and acknowledges, if the release doorbell is set. -/
theorem reclaim (h : b.Ready p sw q free) (hp : p.Valid)
    (hflag : (b.panel.get .release).hostFlag = true) :
    ∃ m', Peer.reclaim.run b = .ok (q (.shared .free)).length
        { b with
          memory := m'
          panel := b.panel.modify .release Bell.acknowledge
          peer := { b.peer with
            free := ((q (.shared .free)).reverse ++ free).map p.arena.locate } } ∧
      AgreeOff (p.LinkByte sw.traces) b.memory m' ∧
      Ready p sw
        { b with
          memory := m'
          panel := b.panel.modify .release Bell.acknowledge
          peer := { b.peer with
            free := ((q (.shared .free)).reverse ++ free).map p.arena.locate } }
        (setLine q (.shared .free) []) ((q (.shared .free)).reverse ++ free) := by
  have hbuffers : BufferTable.load b.memory p.references.buffers = p.bufferTable :=
    h.carries.published.buffers
  have hqueue : p.bufferTable.freeQueue = p.arena.locate (Line.shared .free).head :=
    hp.address_queue .free
  obtain ⟨m', hrun, hagree, hready⟩ := h.drain_reclaimOne hp
  refine ⟨m', ?_, hagree, ⟨hready.host, hready.carries⟩⟩
  rw [Peer.reclaim, run_bind_ok (run_bell b .release), hflag, if_pos rfl,
    run_bind_ok h.run_references]
  rw [run_get_bind, hbuffers, hqueue, run_bind_ok hrun,
    run_bind_ok (run_modifyBell _ _ _), EStateM.run_pure]

theorem reclaim_unset (hflag : (b.panel.get .release).hostFlag = false) :
    Peer.reclaim.run b = .ok 0 b := by
  rw [Peer.reclaim, run_bind_ok (run_bell b .release), hflag, if_neg Bool.false_ne_true,
    EStateM.run_pure]

end Board.Ready

end InterCore
