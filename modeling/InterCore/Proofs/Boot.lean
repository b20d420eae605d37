import InterCore.Proofs.Account

/-!
# What a boot leaves

A boot over a valid placement succeeds whatever the memory and the doorbells held before. It leaves
every queue that it made empty, every table as the placement has it, and the storage zero elsewhere;
the peer then finds its five slots.

## Main definitions

* `Booting`: how far a boot has got, by the queues made and the tables stored so far.
* `Placement.booted`: the memory that a boot leaves, as a function of the memory before.
* `Panel.booted`: the doorbells after a boot.
* `Board.start`: a boot of both cores.

## Main results

* `Placement.Valid.booting_booted`: the memory that a boot leaves has its queues and tables.
* `Host.boot_run`: a boot succeeds, and what it leaves.
* `Board.start_shows`: the account of a booted board.
-/

namespace InterCore

open Memory

variable {σ : Type}

/-! ### Stages of a boot -/

/-- The bytes that were written for some queues and tables. -/
def Placement.Touched (p : Placement) (heads : List NodeIndex) (tables : List Table)
    (k : Address) : Prop :=
  p.arena.Links (· ∈ heads) k ∨
    ∃ t ∈ tables, Within (p.address (.table t)) (Object.table t).size k

/-- A table that the host stores lies in memory as the placement has it. -/
def Placement.Stored (p : Placement) (m : Memory) : Table → Prop
  | .ble => BleTable.load m (p.address (.table .ble)) = p.bleTable
  | .system => SystemTable.load m (p.address (.table .system)) = p.systemTable
  | .buffers => BufferTable.load m (p.address (.table .buffers)) = p.bufferTable
  | .traces => TracesTable.load m (p.address (.table .traces)) = p.tracesTable true
  | _ => True

/-- Since the memory was `m₀`, a boot made the queues of some heads and stored some tables. -/
structure Booting (p : Placement) (m₀ m : Memory) (heads : List NodeIndex)
    (tables : List Table) : Prop where
  chains : Chain.WellFormed p.arena m (heads.map fun h => (h, []))
  references : ReferenceTable.load m p.referenceTable = p.references
  stored : ∀ t ∈ tables, p.Stored m t
  kept : AgreeOff (p.Touched heads tables) m₀ m

namespace Placement

variable {p : Placement} {m m' : Memory} {heads : List NodeIndex} {tables : List Table}

/-- A table stays as it is when nothing is written to its bytes. -/
theorem Stored.congr {S : Address → Prop} {t : Table} (h : p.Stored m t) (hm : AgreeOff S m m')
    (hS : ∀ k, Within (p.address (.table t)) (Object.table t).size k → ¬ S k) :
    p.Stored m' t := by
  cases t with
  | ble => exact (BleTable.load_congr hm hS).trans h
  | system => exact (SystemTable.load_congr hm hS).trans h
  | buffers => exact (BufferTable.load_congr hm hS).trans h
  | traces => exact (TracesTable.load_congr hm hS).trans h
  | _ => trivial

variable (hp : p.Valid)
include hp

/-- Tables share no byte. -/
theorem Valid.tables_apart {t t' : Table} (h : t ≠ t') {k : Address}
    (hk : Within (p.address (.table t)) (Object.table t).size k) :
    ¬ Within (p.address (.table t')) (Object.table t').size k := by
  rw [Object.address_eq] at hk ⊢
  refine hp.apart_of (Object.extent_fits _) (Object.extent_fits _) (Object.extent_apart ?_) hk
  rwa [ne_eq, Object.table.injEq]

/-- The reference table shares no byte with another table. -/
theorem Valid.references_apart {t : Table} {k : Address} (hk : Within p.referenceTable 80 k) :
    ¬ Within (p.address (.table t)) (Object.table t).size k := by
  rw [Object.address_eq]
  have hx : Extent.Covers p ⟨.referenceTable, 0, 80⟩ k := by
    rw [← UInt64.add_zero p.referenceTable] at hk
    exact hk
  refine hp.apart_of (by decide) (Object.extent_fits _) ?_ hx
  cases t <;> decide

end Placement

/-- The head at an address becomes an empty chain. -/
def Memory.makeEmpty (m : Memory) (h : Address) : Memory := (m.setNext h h).setPrev h h

namespace Booting

variable {p : Placement} {m₀ m m' : Memory} {heads : List NodeIndex} {tables : List Table}
  {head : NodeIndex}

theorem refl (h : ReferenceTable.load m p.referenceTable = p.references) :
    Booting p m m [] [] where
  chains := Chain.WellFormed.nil
  references := h
  stored _ ht := absurd ht List.not_mem_nil
  kept := .refl _ _

theorem nodes_heads (heads : List NodeIndex) :
    Chain.Family.nodes (heads.map fun h => (h, [])) = heads := by
  induction heads with
  | nil => rfl
  | cons h hs ih => rw [List.map_cons, Chain.Family.nodes_cons, ih, List.nil_append]

/-- One more queue is made. -/
theorem makeEmpty (h : Booting p m₀ m heads tables) (hp : p.Valid) (hhead : p.arena.Has head)
    (hnew : head ∉ heads) :
    Booting p m₀ (m.makeEmpty (p.arena.locate head)) (head :: heads) tables := by
  rw [← nodes_heads heads] at hnew
  obtain ⟨m', hrun, hchains, hagree⟩ := h.chains.init hp.separated hhead hnew
  rw [Chain.init, hhead.address] at hrun
  obtain rfl : m.makeEmpty (p.arena.locate head) = m' := Except.ok.inj hrun
  have hlink : ∀ k, p.arena.Links (· = head) k → p.LinkByte true k := fun k hk =>
    hk.mono fun i hi => ⟨hi ▸ hhead, fun _ => rfl⟩
  refine ⟨hchains, ?_, fun t ht => ?_, ?_⟩
  · refine (ReferenceTable.load_congr hagree fun k hk hS => ?_).trans h.references
    exact hp.not_linkByte_of_tableByte (Placement.tableByte_of_references hk) (hlink k hS)
  · exact (h.stored t ht).congr hagree fun k hk hS =>
      hp.not_linkByte_of_tableByte (hp.tableByte_of hk) (hlink k hS)
  · refine (h.kept.mono fun k hk => ?_).trans (hagree.mono fun k hk => ?_)
    · exact hk.imp (·.mono fun i hi => List.mem_cons_of_mem _ hi) id
    · exact Or.inl (hk.mono fun i hi => hi ▸ List.mem_cons_self)

/-- One more table is stored. -/
theorem store {t : Table} (h : Booting p m₀ m heads tables) (hp : p.Valid) (ht : t ∉ tables)
    (hagree : AgreeOff (Within (p.address (.table t)) (Object.table t).size) m m')
    (hstored : p.Stored m' t) : Booting p m₀ m' heads (t :: tables) where
  chains := h.chains.of_agreeOff hagree fun k hk ⟨i, hi, hik⟩ =>
    @Placement.Valid.not_linkByte_of_tableByte p true hp _ (hp.tableByte_of hk)
      ⟨i, ⟨h.chains.registered i hi, fun _ => rfl⟩, hik⟩
  references := (ReferenceTable.load_congr hagree fun k hk => hp.references_apart hk).trans
    h.references
  stored t' ht' := by
    rcases List.mem_cons.mp ht' with rfl | hmem
    · exact hstored
    · have hne : t' ≠ t := by
        rintro rfl
        exact ht hmem
      exact (h.stored t' hmem).congr hagree fun k hk => hp.tables_apart hne hk
  kept := by
    refine (h.kept.mono fun k hk => ?_).trans (hagree.mono fun k hk => ?_)
    · exact hk.imp id fun ⟨t', ht', hk⟩ => ⟨t', List.mem_cons_of_mem _ ht', hk⟩
    · exact Or.inr ⟨t, List.mem_cons_self, hk⟩

end Booting

/-! ### The memory of a boot -/

/-- The memory once a boot has cleared the storage and stored the reference table. -/
def Placement.blank (p : Placement) (m : Memory) : Memory :=
  p.references.store (p.clear m) p.referenceTable

/-- The queues that a boot makes, the last one first. -/
def bootHeads (traces : Bool) : List NodeIndex := (if traces then [3] else []) ++ [1, 0, 11, 2]

/-- The tables that a boot stores, the last one first. -/
def bootTables (traces : Bool) : List Table :=
  (if traces then [.traces] else []) ++ [.system, .ble, .buffers]

/-- The memory that a boot leaves. -/
def Placement.booted (p : Placement) (traces : Bool) (m : Memory) : Memory :=
  let m := (p.blank m).makeEmpty (p.arena.locate (Line.shared .free).head)
  let m := m.makeEmpty (p.arena.locate Line.waiting.head)
  let m := p.bufferTable.store m (p.address (.table .buffers))
  let m := m.makeEmpty (p.arena.locate (Line.shared .ble).head)
  let m := p.bleTable.store m (p.address (.table .ble))
  let m := m.makeEmpty (p.arena.locate (Line.shared .system).head)
  let m := p.systemTable.store m (p.address (.table .system))
  if traces then
    (p.tracesTable true).store (m.makeEmpty (p.arena.locate (Line.shared .traces).head))
      (p.address (.table .traces))
  else m

/-- A boot makes its queues and stores its tables. -/
theorem Placement.Valid.booting_booted {p : Placement} (hp : p.Valid) (traces : Bool) (m : Memory) :
    Booting p (p.blank m) (p.booted traces m) (bootHeads traces) (bootTables traces) := by
  have hblank : Booting p (p.blank m) (p.blank m) [] [] :=
    .refl (ReferenceTable.load_store _ _ _)
  have hfree := hblank.makeEmpty hp (Line.shared .free).has_head (by decide)
  have hlocal := hfree.makeEmpty hp Line.waiting.has_head (by decide)
  have hbuffers := hlocal.store hp (t := .buffers) (by decide)
    (BufferTable.agreeOff_store p.bufferTable _ _) (BufferTable.load_store p.bufferTable _ _)
  have hqueue := hbuffers.makeEmpty hp (Line.shared .ble).has_head (by decide)
  have hble := hqueue.store hp (t := .ble) (by decide)
    (BleTable.agreeOff_store p.bleTable _ _) (BleTable.load_store p.bleTable _ _)
  have hqueue' := hble.makeEmpty hp (Line.shared .system).has_head (by decide)
  have hsystem := hqueue'.store hp (t := .system) (by decide)
    (SystemTable.agreeOff_store p.systemTable _ _) (SystemTable.load_store p.systemTable _ _)
  rw [Placement.booted]
  cases traces with
  | false =>
    rw [if_neg Bool.false_ne_true]
    exact hsystem
  | true =>
    have htraces := hsystem.makeEmpty hp (Line.shared .traces).has_head (by decide)
    have htable := htraces.store hp (t := .traces) (by decide)
      (TracesTable.agreeOff_store (p.tracesTable true) _ _)
      (TracesTable.load_store (p.tracesTable true) _ _)
    rw [if_pos rfl]
    exact htable

/-! ### The programs of a boot -/

namespace Board

variable {p : Placement} {sw : Switches} {b : Board σ}

theorem run_makeQueue (hs : b.host.Started p sw) {head : NodeIndex} (hhead : p.arena.Has head) :
    (Host.makeQueue head).run b = .ok (p.arena.locate head)
      { b with memory := b.memory.makeEmpty (p.arena.locate head) } := by
  have hsplice : (splice fun a m => Chain.init a m head).run b =
      .ok () { b with memory := b.memory.makeEmpty (p.arena.locate head) } := by
    refine run_splice_ok b ?_
    rw [hs.arena, Chain.init, hhead.address]
    rfl
  rw [Host.makeQueue, run_bind_ok hsplice]
  refine run_lookup_ok _ ?_
  dsimp only
  rw [hs.arena, hhead.address]

theorem run_startRelease (hp : p.Valid) (hs : b.host.Started p sw) :
    Host.startRelease.run b = .ok () { b with
      memory := p.bufferTable.store
        ((b.memory.makeEmpty (p.arena.locate (Line.shared .free).head)).makeEmpty
          (p.arena.locate Line.waiting.head)) (p.address (.table .buffers)) } := by
  have hfree := run_makeQueue hs (Line.shared .free).has_head
  have hlocal := run_makeQueue (b := { b with
    memory := b.memory.makeEmpty (p.arena.locate (Line.shared .free).head) }) hs
    Line.waiting.has_head
  rw [Host.startRelease, run_get_bind]
  dsimp only
  rw [hs.freeQueue, run_bind_ok hfree, hs.localQueue, run_bind_ok hlocal, hs.place,
    ← hp.address_queue]
  rfl

theorem run_startBle (hp : p.Valid) (hs : b.host.Started p sw) :
    Host.startBle.run b = .ok () { b with
      memory := p.bleTable.store (b.memory.makeEmpty (p.arena.locate (Line.shared .ble).head))
        (p.address (.table .ble))
      panel := b.panel.modify .bleEvent (·.enableRx true) } := by
  have hqueue := run_makeQueue hs (Line.shared .ble).has_head
  rw [Host.startBle, run_get_bind]
  dsimp only
  rw [hs.ble_queue, run_bind_ok hqueue, hs.place, ← hp.address_queue]
  rfl

theorem run_startSystem (hp : p.Valid) (hs : b.host.Started p sw) :
    Host.startSystem.run b = .ok () { b with
      memory := p.systemTable.store
        (b.memory.makeEmpty (p.arena.locate (Line.shared .system).head))
        (p.address (.table .system)) } := by
  have hqueue := run_makeQueue hs (Line.shared .system).has_head
  rw [Host.startSystem, run_get_bind]
  dsimp only
  rw [hs.system_queue, run_bind_ok hqueue, hs.place, ← hp.address_queue]
  rfl

theorem run_startTraces (hp : p.Valid) (hs : b.host.Started p sw) :
    Host.startTraces.run b = .ok () { b with
      memory := (p.tracesTable true).store
        (b.memory.makeEmpty (p.arena.locate (Line.shared .traces).head))
        (p.address (.table .traces))
      panel := b.panel.modify .traces (·.enableRx true) } := by
  have hqueue := run_makeQueue hs (Line.shared .traces).has_head
  rw [Host.startTraces, run_get_bind]
  dsimp only
  rw [hs.queue, run_bind_ok hqueue, hs.place, ← hp.address_queue]
  rfl

end Board

/-- The doorbells after a boot. -/
def Panel.booted (sw : Switches) (panel : Panel) : Panel :=
  let panel := (panel.modify .bleEvent (·.enableRx true)).modify .systemEvent
    (·.enableRx sw.systemEvents)
  if sw.traces then panel.modify .traces (·.enableRx true) else panel

/-- A boot sets masks and neither flags nor counts. -/
theorem Panel.get_booted (sw : Switches) (panel : Panel) (c : Channel) :
    ((panel.booted sw).get c).hostFlag = (panel.get c).hostFlag ∧
      ((panel.booted sw).get c).rings = (panel.get c).rings := by
  have hmask : ∀ (panel : Panel) (d : Channel) (on : Bool),
      ((panel.modify d (·.enableRx on)).get c).hostFlag = (panel.get c).hostFlag ∧
        ((panel.modify d (·.enableRx on)).get c).rings = (panel.get c).rings := by
    intro panel d on
    rw [get_modify]
    split
    · next hd => exact hd ▸ ⟨rfl, rfl⟩
    · exact ⟨rfl, rfl⟩
  simp only [booted]
  split
  · simp only [hmask, and_self]
  · simp only [hmask, and_self]

theorem Host.started_fresh (p : Placement) (sw : Switches) :
    (Host.fresh p p.arena sw).Started p sw :=
  ⟨rfl, rfl, rfl, rfl, rfl, (by decide : (12 : NodeIndex) - 1 = 11), rfl, rfl⟩

namespace Host

open Board

variable {p : Placement} {sw : Switches}

/-- **A boot over a valid placement succeeds.** -/
theorem boot_run (hp : p.Valid) (b : Board σ) :
    (boot p.storage p.localHead sw).run b = .ok ()
      { b with
        memory := p.booted sw.traces b.memory
        panel := b.panel.booted sw
        clockEnables := b.clockEnables + 1
        host := fresh p p.arena sw } := by
  have hstorage : p.storage.placement? p.localHead = some p := rfl
  have hs := started_fresh p sw
  have harena : ∀ b : Board σ,
      (ofExcept (registerAll {} p.runs) : BoardM σ Arena).run b = .ok p.arena b := by
    intro b
    rw [hp.registerAll_eq]
    rfl
  rw [boot, hstorage]
  show EStateM.run (do
    start p p.runs sw
    modifyBell .systemEvent (·.enableRx sw.systemEvents)
    if sw.traces then startTraces)
      { b with memory := p.blank b.memory, clockEnables := b.clockEnables + 1 } = _
  rw [start, bind_assoc, run_bind_ok (harena _), bind_assoc, run_bind_ok (run_modifyHost _ _),
    bind_assoc, run_bind_ok (run_startRelease hp hs), bind_assoc,
    run_bind_ok (run_startBle hp hs), run_bind_ok (run_startSystem hp hs),
    run_bind_ok (run_modifyBell _ _ _), Placement.booted, Panel.booted]
  cases sw.traces with
  | false =>
    simp only [Bool.false_eq_true, if_false]
    rfl
  | true =>
    rw [if_pos rfl, run_startTraces hp hs]
    simp only [if_true]

end Host

/-! ### The peer -/

namespace Placement.Valid

variable {p : Placement} (hp : p.Valid) {m m' : Memory} {k : Address}
include hp

/-- A boot leaves zeros in the control area and in the buffer area. -/
theorem get_blank (m : Memory) (hk : Extent.Covers p ⟨.control, 0, Area.control.size⟩ k ∨
    Extent.Covers p ⟨.buffers, 0, Area.buffers.size⟩ k) : (p.blank m).get k = 0 := by
  have hreference : ¬ Within p.referenceTable 80 k := by
    rw [← UInt64.add_zero p.referenceTable]
    intro hk'
    rcases hk with hk | hk
    · exact hp.apart_of (x := ⟨.control, 0, Area.control.size⟩) (y := ⟨.referenceTable, 0, 80⟩)
        (by decide) (by decide) (by decide) hk hk'
    · exact hp.apart_of (x := ⟨.buffers, 0, Area.buffers.size⟩) (y := ⟨.referenceTable, 0, 80⟩)
        (by decide) (by decide) (by decide) hk hk'
  have hstore := Memory.agreeOff_write_pointers (p.clear m) p.referenceTable
    (n := 80) (show 8 * p.references.toList.length = 80 from rfl) (by decide) k hreference
  have hcover : ∀ part size, Extent.Covers p ⟨part, 0, size⟩ k ↔ Within (p.base part) size k := by
    intro part size
    rw [Extent.Covers, Extent.start, show UInt64.ofNat 0 = 0 from rfl, UInt64.add_zero]
  rw [hcover, hcover] at hk
  rw [blank, ReferenceTable.store, hstore, clear, get_clear, get_clear]
  rcases hk with hk | hk
  · split
    · rfl
    · exact if_pos hk
  · exact if_pos hk

end Placement.Valid

namespace Booting

variable {p : Placement} {sw : Switches} {m₀ m : Memory}

/-- A table that a boot does not store is zero. -/
theorem get_of_unstored {heads : List NodeIndex} {tables : List Table}
    (h : Booting p (p.blank m₀) m heads tables) (hp : p.Valid)
    {t : Table} (ht : t ∉ tables) {k : Address}
    (hk : Within (p.address (.table t)) (Object.table t).size k) : m.get k = 0 := by
  have hcovers : Extent.Covers p ⟨.control, 0, Area.control.size⟩ k := by
    rw [Object.address_eq] at hk
    exact hp.covers_mono (Object.extent_fits _) (by decide) (by cases t <;> decide) hk
  rw [← hp.get_blank m₀ (.inl hcovers)]
  refine h.kept k ?_
  rintro (⟨i, hi, hik⟩ | ⟨t', hmem, ht'⟩)
  · exact @Placement.Valid.not_linkByte_of_tableByte p true hp _ (hp.tableByte_of hk)
      ⟨i, ⟨h.chains.registered i (by rwa [nodes_heads]), fun _ => rfl⟩, hik⟩
  · refine hp.tables_apart (fun heq => ht ?_) hk ht'
    exact heq ▸ hmem

/-- Traces that are switched off leave their queue and their table zero. -/
theorem unmade (h : Booting p (p.blank m₀) m (bootHeads false) (bootTables false)) (hp : p.Valid) :
    m.next (p.arena.locate 3) = Address.null ∧
      TracesTable.load m (p.address (.table .traces)) = p.tracesTable false := by
  have h3 : p.arena.Has 3 := Placement.has_iff.mpr (by decide)
  have hlinks : ∀ k, Within (p.arena.locate 3) 8 k →
      Extent.Covers p ⟨.control, 296, 16⟩ k := fun k hk =>
    hp.covers_of_within h3 (hk.mono (by decide))
  constructor
  · refine pointer_eq_null fun k hk => ?_
    have hzero := hp.get_blank m₀ (Or.inl (hp.covers_mono (by decide) (by decide)
      (by decide) (hlinks k hk)))
    rw [← hzero]
    refine h.kept k ?_
    rintro (⟨i, hi, hik⟩ | ⟨t, -, ht⟩)
    · have hall : (bootHeads false).all (fun i => i.toNat < 12 ∧ 3 ≠ i) = true := by decide
      obtain ⟨hlt, hne⟩ := of_decide_eq_true (List.all_eq_true.mp hall i hi)
      exact hp.separated.links_apart h3 (Placement.has_iff.mpr hlt) hne (hk.mono (by decide)) hik
    · exact @Placement.Valid.not_linkByte_of_tableByte p true hp _ (hp.tableByte_of ht)
        ⟨3, ⟨h3, fun _ => rfl⟩, hk.mono (by decide)⟩
  · exact congrArg TracesTable.mk (pointer_eq_null fun k hk =>
      h.get_of_unstored hp (t := .traces) (by decide) hk)

theorem published (h : Booting p (p.blank m₀) m (bootHeads sw.traces) (bootTables sw.traces))
    (hp : p.Valid) : Published p sw.traces m where
  references := h.references
  ble := h.stored .ble (List.mem_append_right _ (by decide))
  system := h.stored .system (List.mem_append_right _ (by decide))
  buffers := h.stored .buffers (List.mem_append_right _ (by decide))
  traces := by
    cases ht : sw.traces with
    | false =>
      rw [ht] at h
      exact (h.unmade hp).2
    | true =>
      rw [ht] at h
      exact h.stored .traces (by decide)

/-- **After a boot every line is empty and the peer may fill every slot of the pool.** -/
theorem carries (h : Booting p (p.blank m₀) m (bootHeads sw.traces) (bootTables sw.traces))
    (hp : p.Valid) {peer : Peer} (htable : peer.referenceTable = p.referenceTable)
    (hsize : peer.poolSlots = pool.length)
    (hfree : peer.free = pool.reverse.map p.arena.locate) :
    Carries p sw.traces m peer (fun _ => []) pool.reverse where
  chains := by
    refine h.chains.perm ?_
    have hheads : InterCore.chains sw.traces (fun _ => []) =
        ((Line.made sw.traces).map Line.head).map fun h => (h, []) := by
      rw [List.map_map]
      rfl
    rw [hheads]
    refine List.Perm.map _ ?_
    cases sw.traces <;> decide
  unmade ht := by
    rw [ht] at h
    exact ⟨rfl, (h.unmade hp).1⟩
  published := h.published hp
  peer_table := htable
  peer_slots := hsize
  peer_free := hfree
  nodup := by decide
  mem_slots n hn := by
    refine mem_slots_of_mem_pool (List.mem_reverse.mp ?_)
    simpa using hn

end Booting

/-- The slots of the pool lie one after the other. -/
theorem Placement.Valid.locate_pool {p : Placement} (hp : p.Valid) :
    (List.range 5).reverse.map (fun i => p.address .pool + UInt64.ofNat (i * Packet.slotSize)) =
      pool.reverse.map p.arena.locate := by
  have hall : ∀ i < 5, (UInt16.ofNat (4 + i)).toNat < 12 ∧
      nodeExtent (UInt16.ofNat (4 + i)) = ⟨.buffers, i * Packet.slotSize, 276⟩ := by decide
  have hlocate : ∀ i < 5, p.arena.locate (UInt16.ofNat (4 + i)) =
      p.address .pool + UInt64.ofNat (i * Packet.slotSize) := by
    intro i hi
    rw [(hp.slot_eq (Placement.has_iff.mpr (hall i hi).1)).1, (hall i hi).2]
    show p.buffers + _ = p.buffers + 0 + _
    rw [UInt64.add_zero]
  have hpool : pool.reverse = (List.range 5).reverse.map fun i => UInt16.ofNat (4 + i) := by decide
  rw [hpool, List.map_map]
  refine List.map_congr_left fun i hi => (hlocate i ?_).symm
  exact List.mem_range.mp (List.mem_reverse.mp hi)

/-- The peer finds the slots of the pool. -/
theorem Peer.attach_run {p : Placement} (hp : p.Valid) {traces : Bool} {b : Board σ}
    (h : Published p traces b.memory) :
    (attach p.referenceTable).run b = .ok ()
      { b with peer := ⟨p.referenceTable, pool.reverse.map p.arena.locate, 5⟩ } := by
  have hbuffers : BufferTable.load b.memory
      (ReferenceTable.load b.memory p.referenceTable).buffers = p.bufferTable := by
    rw [h.references]
    exact h.buffers
  have hslots : p.bufferTable.poolSize.toNat / Packet.slotSize = 5 := by
    show (UInt32.ofNat InterCore.poolSize).toNat / Packet.slotSize = 5
    decide
  rw [attach, Board.run_get_bind]
  dsimp only
  rw [hbuffers, hslots, ← hp.locate_pool]
  rfl

/-! ### Both cores -/

/-- A boot of the host and then of the peer. -/
def Board.start (p : Placement) (sw : Switches) : BoardM σ Unit := do
  Host.boot p.storage p.localHead sw
  Peer.attach p.referenceTable

/-- The account of a booted board. -/
def Account.booted (m : Memory) (panel : Panel) (boxes : Nat) (sink : σ) : Account σ where
  bytes := m
  panel := panel
  line _ := []
  free := pool.reverse
  inbox _ := []
  taken _ := 0
  boxes := List.replicate boxes none
  flags := ⟨false, false, false, false⟩
  sink := sink

/-- **A boot of both cores succeeds.** Every line is empty, and the peer may fill every slot. -/
theorem Board.start_run {p : Placement} (hp : p.Valid) (sw : Switches) (b : Board σ) :
    ∃ m', (start p sw).run b = .ok ()
        { b with
          memory := m'
          panel := b.panel.booted sw
          clockEnables := b.clockEnables + 1
          host := Host.fresh p p.arena sw
          peer := ⟨p.referenceTable, pool.reverse.map p.arena.locate, 5⟩ } ∧
      Carries p sw.traces m' ⟨p.referenceTable, pool.reverse.map p.arena.locate, 5⟩ (fun _ => [])
        pool.reverse := by
  have hbooting := hp.booting_booted sw.traces b.memory
  exact ⟨p.booted sw.traces b.memory,
    (run_bind_ok (Host.boot_run hp b)).trans (Peer.attach_run hp (hbooting.published hp)),
    hbooting.carries hp rfl rfl rfl⟩

/-- The board of a boot shows empty lines, empty inboxes and a full record of the peer. -/
theorem Board.start_shows {p : Placement} (hp : p.Valid) (sw : Switches) (b : Board σ)
    (hboxes : ∀ x ∈ b.boxes, x = Box.empty) :
    ∃ b', (start p sw).run b = .ok () b' ∧ b'.Shows p sw
      (Account.booted b'.memory (b.panel.booted sw) b.boxes.size b.sink) := by
  obtain ⟨m, hrun, hcarries⟩ := start_run hp sw b
  refine ⟨_, hrun, hp, Host.started_fresh p sw, hcarries, .refl _ _, rfl, fun e => ?_,
    fun e => ?_, ?_, rfl, rfl⟩
  · cases e <;> exact Ring.holds_empty _
  · cases e <;> rfl
  · show b.boxes.toList = (List.replicate b.boxes.size none).map Box.holding
    rw [List.map_replicate, List.eq_replicate_iff]
    exact ⟨rfl, fun x hx => hboxes x (Array.mem_toList_iff.mp hx)⟩

theorem Account.places_booted (m : Memory) (panel : Panel) (boxes : Nat) (sink : σ) :
    (Account.booted m panel boxes sink).places.Perm pool := by
  rw [places, booted, List.reduceOption_replicate_none, List.append_nil]
  exact List.reverse_perm pool

end InterCore
