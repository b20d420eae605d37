import InterCore.Demo
import InterCore.Proofs.Boot
import InterCore.Proofs.Readings

/-!
# Boots over stale storage

A boot may find anything in the storage: zeros, noise, or the links of an earlier boot with buffers
in its queues. Nothing of that survives. Every byte that a boot writes is fixed by the placement and
the switches, and every byte that it does not write it has cleared before.

## Main definitions

* `Placement.Stale`: the bytes that a boot may find in any state.
* `roles`: the pointers of every published table, and the object that each is for.
* `Board.Clean`: what a boot leaves.

## Main results

* `Placement.Valid.booted_eq`: the memory after a boot does not depend on stale bytes.
* `Host.boot_clean`: two boots over different stale storage cannot be told apart.
-/

namespace InterCore

open Memory

/-! ### Two memories at a time -/

namespace Memory

variable {S : Address → Prop} {m m' : Memory} {a h : Address} {bs : List UInt8}

/-- Memories that agree nowhere less than everywhere are the same. -/
theorem AgreeOff.eq (hm : AgreeOff S m m') (hS : ∀ k, ¬ S k) : m = m' :=
  Memory.ext fun k => (hm k (hS k)).symm

/-- After the same write, memories agree on the bytes that it wrote. -/
theorem AgreeOff.write_within (hm : AgreeOff (fun k => S k ∨ Within a bs.length k) m m')
    (hn : bs.length ≤ UInt64.size) : AgreeOff S (m.write a bs) (m'.write a bs) := by
  intro k hk
  rw [get_write _ _ _ _ hn, get_write _ _ _ _ hn]
  by_cases hin : Within a bs.length k
  · rw [List.getElem?_eq_getElem hin, Option.getD_some, Option.getD_some]
  · rw [hm k (not_or.mpr ⟨hk, hin⟩)]

theorem AgreeOff.setPointer (hm : AgreeOff S m m') (a q : Address) :
    AgreeOff S (m.setPointer a q) (m'.setPointer a q) :=
  hm.write a (by rw [LittleEndian.length_encode]; decide)

theorem AgreeOff.setPointer_within {q : Address}
    (hm : AgreeOff (fun k => S k ∨ Within a 8 k) m m') :
    AgreeOff S (m.setPointer a q) (m'.setPointer a q) := by
  have hlength : (LittleEndian.encode 8 q.toNat).length = 8 := LittleEndian.length_encode 8 _
  refine AgreeOff.write_within ?_ (by rw [hlength]; decide)
  rwa [hlength]

/-- The links of a node are its forward link and its backward link. -/
theorem within_next_or_prev {k : Address} (hk : Within h 16 k) :
    Within h 8 k ∨ Within (h + 8) 8 k := by
  have hh := h.toNat_lt
  have hk' := k.toNat_lt
  simp only [Within, UInt64.toNat_sub, UInt64.toNat_add, UInt64.reduceToNat] at hk ⊢
  omega

theorem AgreeOff.makeEmpty (hm : AgreeOff S m m') (h : Address) :
    AgreeOff S (m.makeEmpty h) (m'.makeEmpty h) :=
  (hm.setPointer h h).setPointer (h + 8) h

/-- An empty chain does not depend on the links that its head had. -/
theorem AgreeOff.makeEmpty_within (hm : AgreeOff (Within h 16) m m') :
    m.makeEmpty h = m'.makeEmpty h := by
  refine AgreeOff.eq (S := fun _ => False) ?_ fun _ => id
  refine AgreeOff.setPointer_within (AgreeOff.setPointer_within (hm.mono fun k hk => ?_))
  exact (within_next_or_prev hk).elim .inr fun hk => .inl (.inr hk)

end Memory

/-! ### Stale bytes -/

namespace Placement

variable (p : Placement)

/-- The bytes that a boot may find in any state: the storage, and the head of the local queue. -/
def Stale (k : Address) : Prop := ∃ part : Part, Within (p.base part) part.size k

variable {p} {m m' : Memory}

/-- The reference table is written over storage that was cleared. -/
theorem agreeOff_blank (hm : AgreeOff p.Stale m m') :
    AgreeOff (Within p.localHead 16) (p.blank m) (p.blank m') := by
  have hlength : (p.references.toList.flatMap pointerBytes).length ≤ UInt64.size := by
    rw [length_flatMap_pointerBytes]
    show 8 * 10 ≤ UInt64.size
    decide
  rw [blank, blank, ReferenceTable.store, ReferenceTable.store]
  refine AgreeOff.write (fun k hk => ?_) _ hlength
  simp only [clear, get_clear]
  split
  · rfl
  · split
    · rfl
    · split
      · rfl
      · next hbuffers hcontrol hreference =>
        refine hm k fun hstale => ?_
        obtain ⟨part, hpart⟩ := hstale
        cases part with
        | referenceTable => exact hreference hpart
        | control => exact hcontrol hpart
        | buffers => exact hbuffers hpart
        | localHead => exact hk hpart

/-- The local queue has its head outside the shared storage. -/
theorem Valid.locate_localHead (hp : p.Valid) :
    p.arena.locate Line.waiting.head = p.localHead := by
  rw [(hp.slot_eq Line.waiting.has_head).1]
  show p.localHead + 0 = p.localHead
  exact UInt64.add_zero _

/-- **The memory after a boot does not depend on stale bytes.** -/
theorem Valid.booted_eq (hp : p.Valid) (traces : Bool) (hm : AgreeOff p.Stale m m') :
    p.booted traces m = p.booted traces m' := by
  have hfree := (agreeOff_blank hm).makeEmpty (p.arena.locate (Line.shared .free).head)
  rw [← hp.locate_localHead] at hfree
  rw [booted, booted, hfree.makeEmpty_within]

end Placement

/-! ### What a boot leaves -/

/-- The pointers in each published table: their offset, and the object that each is for. Pointers
for which there is no object are null. The reference table is `none`. -/
def roles (traces : Bool) : Option Table → List (UInt64 × Option Object)
  | none =>
    [(0, some (.table .deviceInfo)), (8, some (.table .ble)), (16, some (.table .thread)),
      (24, some (.table .system)), (32, some (.table .buffers)), (40, some (.table .traces)),
      (48, some (.table .mac802154)), (56, some (.table .zigbee)), (64, some (.table .lldTests)),
      (72, some (.table .bleLld))]
  | some .deviceInfo => []
  | some .ble =>
    [(0, some .bleCommand), (8, some .commandStatus), (16, some (.queue .ble)),
      (24, some .aclData)]
  | some .thread => [(0, none), (8, none), (16, none), (24, none)]
  | some .lldTests | some .bleLld => [(0, none), (8, none)]
  | some .system => [(0, some .systemCommand), (8, some (.queue .system))]
  | some .buffers =>
    [(0, some (.spare .ble)), (8, some (.spare .system)), (16, some .pool),
      (28, some (.queue .free)), (36, none)]
  | some .traces => [(0, if traces then some (.queue .traces) else none)]
  | some .mac802154 | some .zigbee => [(0, none), (8, none), (16, none)]

namespace Placement

variable (p : Placement)

/-- Where a published table lies. -/
def tableAddress : Option Table → Address
  | none => p.referenceTable
  | some t => p.address (.table t)

/-- The pointer at an address leads to the object of its role, all of which lies in the storage, or
nowhere if its role has no object. -/
def Designates (m : Memory) (a : Address) : Option Object → Prop
  | none => m.pointer a = Address.null
  | some o => m.pointer a = p.address o ∧ p.address o ≠ Address.null ∧
      ∀ k, Within (p.address o) o.size k → Within (p.base o.area.part) o.area.part.size k

variable {p} {m : Memory} {a : Address}

/-- Objects lie within their areas. -/
theorem Valid.within_part (hp : p.Valid) {o : Object} {k : Address}
    (hk : Within (p.address o) o.size k) : Within (p.base o.area.part) o.area.part.size k := by
  rw [Object.address_eq] at hk
  have hcovers : Extent.Covers p ⟨o.area.part, 0, o.area.part.size⟩ k :=
    hp.covers_mono o.extent_fits (Nat.le_of_eq (Nat.zero_add _))
      ⟨rfl, Nat.zero_le _, by rw [Nat.zero_add]; exact o.extent_fits⟩ hk
  rwa [Extent.Covers, Extent.start, show UInt64.ofNat 0 = 0 from rfl, UInt64.add_zero] at hcovers

theorem Valid.designates (hp : p.Valid) {o : Object} (h : m.pointer a = p.address o) :
    p.Designates m a (some o) :=
  ⟨h, hp.address_ne_null o, fun _ hk => hp.within_part hk⟩

end Placement

/-- The traces have a queue that leads somewhere exactly if they are switched on. -/
theorem Placement.Valid.designates_traces {p : Placement} (hp : p.Valid) {traces : Bool}
    {m : Memory} {a : Address} (h : m.pointer a = (p.tracesTable traces).queue) :
    p.Designates m a (if traces then some (.queue .traces) else none) := by
  cases traces with
  | false => exact h
  | true => exact hp.designates h

namespace Booting

variable {p : Placement} {sw : Switches} {m₀ m : Memory} {heads : List NodeIndex}
  {tables : List Table}

/-- A boot leaves the buffers zero. -/
theorem get_buffers (h : Booting p (p.blank m₀) m (bootHeads sw.traces) tables) (hp : p.Valid)
    {k : Address} (hk : Within p.buffers Area.buffers.size k) : m.get k = 0 := by
  have hcovers : Extent.Covers p ⟨.buffers, 0, Area.buffers.size⟩ k := by
    rw [← UInt64.add_zero p.buffers] at hk
    exact hk
  rw [← hp.get_blank m₀ (.inr hcovers)]
  refine h.kept k ?_
  rintro (⟨i, hi, hik⟩ | ⟨t, -, ht⟩)
  · have hhas := h.chains.registered i (by rwa [nodes_heads])
    have hpart : (nodeExtent i).part ≠ .buffers ∧
        (⟨(nodeExtent i).part, (nodeExtent i).offset, 16⟩ : Extent).Fits := by
      have hall : ∀ traces, (bootHeads traces).all fun i => (nodeExtent i).part ≠ .buffers ∧
          (⟨(nodeExtent i).part, (nodeExtent i).offset, 16⟩ : Extent).Fits := by decide
      exact of_decide_eq_true (List.all_eq_true.mp (hall _) i hi)
    exact hp.apart_of hpart.2 (by decide) (.inl hpart.1) (hp.covers_of_within hhas hik) hcovers
  · rw [Object.address_eq] at ht
    exact hp.apart_of (Object.extent_fits _) (by decide) (.inl (by cases t <;> decide)) ht hcovers

/-- The tables that a boot does not store hold null pointers. -/
theorem pointer_eq_null (h : Booting p (p.blank m₀) m (bootHeads sw.traces) (bootTables sw.traces))
    (hp : p.Valid) {t : Table} (ht : t ∉ [Table.traces, .system, .ble, .buffers]) (offset : UInt64)
    (hoffset : offset.toNat + 8 ≤ (Object.table t).size) :
    m.pointer (p.address (.table t) + offset) = Address.null := by
  have hunstored : t ∉ bootTables sw.traces := by
    refine fun hmem => ht ?_
    rw [bootTables] at hmem
    split at hmem
    · exact hmem
    · exact List.mem_cons_of_mem _ hmem
  exact Memory.pointer_eq_null fun k hk => h.get_of_unstored hp hunstored (hk.of_add hoffset)

/-- **Every pointer that a boot publishes leads where it should.** -/
theorem designates (h : Booting p (p.blank m₀) m (bootHeads sw.traces) (bootTables sw.traces))
    (hp : p.Valid) (t : Option Table) {x : UInt64 × Option Object} (hx : x ∈ roles sw.traces t) :
    p.Designates m (p.tableAddress t + x.1) x.2 := by
  have hpublished := h.published hp
  have hfirst : ∀ {a q : Address}, m.pointer a = q → m.pointer (a + 0) = q := by
    intro a q ha
    rw [UInt64.add_zero, ha]
  revert x
  rw [← List.forall_iff_forall_mem]
  match t with
  | none =>
    have href := hpublished.references
    simp only [ReferenceTable.load, Placement.references, ReferenceTable.mk.injEq] at href
    obtain ⟨hinfo, hble, hthread, hsystem, hbuffers, htraces, hmac, hzigbee, htests, hlld⟩ := href
    exact ⟨hp.designates (hfirst hinfo), hp.designates hble, hp.designates hthread,
      hp.designates hsystem, hp.designates hbuffers, hp.designates htraces, hp.designates hmac,
      hp.designates hzigbee, hp.designates htests, hp.designates hlld⟩
  | some .deviceInfo => exact trivial
  | some .ble =>
    have htable := hpublished.ble
    simp only [BleTable.load, Placement.bleTable, BleTable.mk.injEq] at htable
    obtain ⟨hcommand, hstatus, hqueue, hdata⟩ := htable
    exact ⟨hp.designates (hfirst hcommand), hp.designates hstatus, hp.designates hqueue,
      hp.designates hdata⟩
  | some .system =>
    have htable := hpublished.system
    simp only [SystemTable.load, Placement.systemTable, SystemTable.mk.injEq] at htable
    exact ⟨hp.designates (hfirst htable.1), hp.designates htable.2⟩
  | some .buffers =>
    have htable := hpublished.buffers
    simp only [BufferTable.load, Placement.bufferTable, BufferTable.mk.injEq] at htable
    obtain ⟨hble, hsystem, hpool, -, hqueue, htraces, -⟩ := htable
    exact ⟨hp.designates (hfirst hble), hp.designates hsystem, hp.designates hpool,
      hp.designates hqueue, htraces⟩
  | some .traces =>
    have htable := hpublished.traces
    rw [TracesTable.load] at htable
    exact hp.designates_traces (hfirst (congrArg TracesTable.queue htable))
  | some .thread =>
    have hthread := h.pointer_eq_null hp (t := .thread) (by decide)
    exact ⟨hthread 0 (by decide), hthread 8 (by decide), hthread 16 (by decide),
      hthread 24 (by decide)⟩
  | some .lldTests =>
    have hlldTests := h.pointer_eq_null hp (t := .lldTests) (by decide)
    exact ⟨hlldTests 0 (by decide), hlldTests 8 (by decide)⟩
  | some .bleLld =>
    have hbleLld := h.pointer_eq_null hp (t := .bleLld) (by decide)
    exact ⟨hbleLld 0 (by decide), hbleLld 8 (by decide)⟩
  | some .mac802154 =>
    have hmac := h.pointer_eq_null hp (t := .mac802154) (by decide)
    exact ⟨hmac 0 (by decide), hmac 8 (by decide), hmac 16 (by decide)⟩
  | some .zigbee =>
    have hzigbee := h.pointer_eq_null hp (t := .zigbee) (by decide)
    exact ⟨hzigbee 0 (by decide), hzigbee 8 (by decide), hzigbee 16 (by decide)⟩

end Booting

/-- What a boot leaves, whatever the storage held before. -/
structure Board.Clean {σ : Type} (p : Placement) (sw : Switches) (b : Board σ) : Prop where
  /-- Every queue is an empty chain, except that the traces have none when they are switched off. -/
  empty : ∀ l, Chain.Represents b.host.arena b.memory (b.host.lineHead l) [] ↔
    (l = .shared .traces → sw.traces = true)
  /-- The buffers are zero. -/
  buffers : ∀ k, Within p.buffers Area.buffers.size k → b.memory.get k = 0
  /-- Every published pointer leads to the object of its role. -/
  published : ∀ t, ∀ x ∈ roles sw.traces t,
    p.Designates b.memory (p.tableAddress t + x.1) x.2

namespace Host

open Board

variable {σ : Type} {p : Placement} {sw : Switches}

/-- A boot makes every queue but that of the traces, and that one too if they are switched on. -/
theorem head_mem_bootHeads {traces : Bool} {l : Line} (hl : l = .shared .traces → traces = true) :
    l.head ∈ bootHeads traces := by
  cases traces with
  | true =>
    cases l with
    | waiting => decide
    | shared q => cases q <;> decide
  | false =>
    cases l with
    | waiting => decide
    | shared q =>
      cases q with
      | traces => exact absurd (hl rfl) (by decide)
      | _ => decide

theorem clean_of_booting (hp : p.Valid) {b : Board σ} {m₀ : Memory}
    (hs : b.host.Started p sw)
    (h : Booting p (p.blank m₀) b.memory (bootHeads sw.traces) (bootTables sw.traces)) :
    b.Clean p sw where
  empty l := by
    rw [hs.lineHead_eq, hs.arena]
    by_cases hl : l = .shared .traces → sw.traces = true
    · refine iff_of_true ?_ hl
      exact h.chains.represents (l.head, []) (List.mem_map_of_mem (head_mem_bootHeads hl))
    · refine iff_of_false (fun hempty => ?_) hl
      rw [Classical.not_imp, Bool.not_eq_true] at hl
      obtain ⟨rfl, htraces⟩ := hl
      rw [htraces] at h
      have hself : b.memory.next (p.arena.locate 3) = p.arena.locate 3 :=
        (Chain.represents_nil.mp hempty).next
      have hqueue : p.address (.queue .traces) = p.arena.locate 3 := hp.address_queue .traces
      rw [(h.unmade hp).1, ← hqueue] at hself
      exact hp.address_ne_null _ hself.symm
  buffers k hk := h.get_buffers hp hk
  published t x hx := h.designates hp t hx

/-- **A boot does not depend on what the storage held.** Over any two memories that differ only in
the storage and in the head of the local queue, a boot with the same doorbells succeeds and leaves
the same memory, the same host and the same doorbells. Every queue of it is an empty chain, and the
traces queue exactly if traces are switched on; the buffers are zero; every pointer in the published
tables leads to the object of its role in the same storage, or nowhere. -/
theorem boot_clean (hp : p.Valid) (sw : Switches) {b c : Board σ}
    (hmemory : AgreeOff p.Stale b.memory c.memory) (hpanel : b.panel = c.panel) :
    ∃ b' c', (boot p.storage p.localHead sw).run b = .ok () b' ∧
      (boot p.storage p.localHead sw).run c = .ok () c' ∧
      b'.memory = c'.memory ∧ b'.host = c'.host ∧ b'.panel = c'.panel ∧ b'.Clean p sw := by
  refine ⟨_, _, boot_run hp b, boot_run hp c, hp.booted_eq sw.traces hmemory, rfl,
    congrArg (Panel.booted sw) hpanel, ?_⟩
  exact clean_of_booting hp (started_fresh p sw) (hp.booting_booted sw.traces b.memory)

/-- A memory in which the BLE queue leads to the first event slot and back. -/
def linked (p : Placement) : Memory :=
  let head := p.address (.queue .ble)
  let slot := p.address .pool
  ((Memory.zero.setNext head slot).setPrev head slot |>.setNext slot head).setPrev slot head

theorem agreeOff_linked {p : Placement} (hp : p.Valid) :
    AgreeOff p.Stale Memory.zero (linked p) := by
  have hhead : ∀ k, Within (p.address (.queue .ble)) 16 k → p.Stale k := fun k hk =>
    ⟨.control, hp.within_part (o := .queue .ble) hk⟩
  have hslot : ∀ k, Within (p.address .pool) 16 k → p.Stale k := fun k hk =>
    ⟨.buffers, hp.within_part (o := .pool) (hk.mono (by decide))⟩
  exact ((((agreeOff_setNext _ _ _).mono hhead).trans ((agreeOff_setPrev _ _ _).mono hhead)).trans
    ((agreeOff_setNext _ _ _).mono hslot)).trans ((agreeOff_setPrev _ _ _).mono hslot)

/-- A boot over a linked queue leaves what a boot over zeros leaves. -/
theorem boot_clean_linked :
    (linked Placement.standard).next (Placement.standard.address (.queue .ble)) =
      Placement.standard.address .pool ∧
    ∃ b' c',
      (boot Placement.standard.storage Placement.standard.localHead {}).run Demo.blank = .ok () b' ∧
      (boot Placement.standard.storage Placement.standard.localHead {}).run
        { Demo.blank with memory := linked Placement.standard } = .ok () c' ∧
      b'.memory = c'.memory ∧ b'.host = c'.host ∧ b'.panel = c'.panel ∧
      b'.Clean Placement.standard {} :=
  ⟨by decide +kernel, boot_clean (b := Demo.blank)
    (c := { Demo.blank with memory := linked Placement.standard }) Placement.valid_standard {}
    (agreeOff_linked Placement.valid_standard) rfl⟩

end Host

end InterCore
