import InterCore.Host.Boot
import InterCore.Proofs.Arena

/-!
# The parts of a placement

A placement is valid when its parts lie apart and none of them touches an end of the address space.
A run of bytes in it is then told by the part it lies in, its offset and its length, and whether two
runs have a byte in common is a question about these numbers only.

## Main definitions

* `Part`, `Extent`: the parts of a placement, and runs of bytes inside them.
* `Placement.Valid`: the parts lie apart.
* `Placement.arena`: the nodes that a boot registers.
* `nodeExtent`: where the slot of a node lies.

## Main results

* `Placement.Valid.apart_of`: runs with disjoint offsets share no byte.
* `Placement.Valid.registerAll_eq`: a boot registers its nodes, and their regions are separate.
-/

namespace InterCore

/-- The parts of a placement. -/
inductive Part where
  | referenceTable
  | control
  | buffers
  | localHead
  deriving DecidableEq, Repr

/-- The number of bytes of a part. -/
def Part.size : Part → Nat
  | referenceTable => referenceTableSize
  | control => Area.control.size
  | buffers => Area.buffers.size
  | localHead => 16

/-- The part in which an area lies. -/
def Area.part : Area → Part
  | control => .control
  | buffers => .buffers

/-- Where a part starts. -/
def Placement.base (p : Placement) : Part → Address
  | .referenceTable => p.referenceTable
  | .control => p.control
  | .buffers => p.buffers
  | .localHead => p.localHead

/-- The parts are objects of a program: none starts at the null address or wraps, and no two
overlap. -/
structure Placement.Valid (p : Placement) : Prop where
  base_ne_null : ∀ part, p.base part ≠ Address.null
  base_lt : ∀ part, (p.base part).toNat + part.size < UInt64.size
  apart : ∀ part part', part ≠ part' →
    (p.base part).toNat + part.size ≤ (p.base part').toNat ∨
      (p.base part').toNat + part'.size ≤ (p.base part).toNat

theorem Placement.valid_standard : Placement.standard.Valid where
  base_ne_null part := by cases part <;> decide
  base_lt part := by cases part <;> decide
  apart part part' := by cases part <;> cases part' <;> decide

/-! ### Runs of bytes -/

/-- A run of bytes in a part. -/
structure Extent where
  part : Part
  offset : Nat
  length : Nat
  deriving DecidableEq, Repr

namespace Extent

/-- The address of the first byte. -/
def start (p : Placement) (x : Extent) : Address := p.base x.part + UInt64.ofNat x.offset

/-- The byte at `k` belongs to the run. -/
def Covers (p : Placement) (x : Extent) (k : Address) : Prop :=
  Memory.Within (x.start p) x.length k

/-- The run ends within its part. -/
def Fits (x : Extent) : Prop := x.offset + x.length ≤ x.part.size

/-- The runs lie in different parts or one ends before the other. -/
def Apart (x y : Extent) : Prop :=
  x.part ≠ y.part ∨ x.offset + x.length ≤ y.offset ∨ y.offset + y.length ≤ x.offset

/-- The run lies inside another one. -/
def Inside (x y : Extent) : Prop :=
  x.part = y.part ∧ y.offset ≤ x.offset ∧ x.offset + x.length ≤ y.offset + y.length

instance (x : Extent) : Decidable x.Fits := inferInstanceAs (Decidable (_ ≤ _))

instance (x y : Extent) : Decidable (x.Apart y) := inferInstanceAs (Decidable (_ ∨ _))

instance (x y : Extent) : Decidable (x.Inside y) := inferInstanceAs (Decidable (_ ∧ _))

end Extent

namespace Placement.Valid

variable {p : Placement} (hp : p.Valid) {x y : Extent} {k : Address}
include hp

theorem toNat_start (hx : x.Fits) : (x.start p).toNat = (p.base x.part).toNat + x.offset := by
  have hlt := hp.base_lt x.part
  have hsize : UInt64.size = 18446744073709551616 := rfl
  rw [Extent.Fits] at hx
  rw [Extent.start, UInt64.toNat_add, UInt64.toNat_ofNat_of_lt' (by omega)]
  exact Nat.mod_eq_of_lt (by omega)

theorem covers_iff (hx : x.Fits) : x.Covers p k ↔
    (p.base x.part).toNat + x.offset ≤ k.toNat ∧
      k.toNat < (p.base x.part).toNat + x.offset + x.length := by
  have hlt := hp.base_lt x.part
  have hstart := hp.toNat_start hx
  rw [Extent.Fits] at hx
  rw [Extent.Covers, Memory.within_iff (by omega), hstart]

/-- Runs apart in their offsets do not overlap. -/
theorem start_apart (hx : x.Fits) (hy : y.Fits) (hxy : x.Apart y) :
    (x.start p).toNat + x.length ≤ (y.start p).toNat ∨
      (y.start p).toNat + y.length ≤ (x.start p).toNat := by
  have hparts := hp.apart x.part y.part
  rw [hp.toNat_start hx, hp.toNat_start hy]
  rw [Extent.Fits] at hx hy
  by_cases hpart : x.part = y.part
  · rcases hxy with hne | hoff
    · exact absurd hpart hne
    · rw [hpart]
      omega
  · have := hparts hpart
    omega

/-- **Runs apart in their offsets share no byte.** -/
theorem apart_of (hx : x.Fits) (hy : y.Fits) (hxy : x.Apart y) (hk : x.Covers p k) :
    ¬ y.Covers p k := by
  have hapart := hp.start_apart hx hy hxy
  rw [hp.covers_iff hx, ← hp.toNat_start hx] at hk
  rw [hp.covers_iff hy, ← hp.toNat_start hy]
  omega

theorem covers_mono (hx : x.Fits) (hy : y.Fits) (hxy : x.Inside y) (hk : x.Covers p k) :
    y.Covers p k := by
  obtain ⟨hpart, hlow, hhigh⟩ := hxy
  rw [hp.covers_iff hx, hpart] at hk
  rw [hp.covers_iff hy]
  omega

theorem start_ne_null (hx : x.Fits) : x.start p ≠ Address.null := by
  intro h
  have hne := hp.base_ne_null x.part
  have hstart := hp.toNat_start hx
  rw [h] at hstart
  have hzero : (p.base x.part).toNat = 0 := by
    have : (Address.null).toNat = 0 := rfl
    omega
  exact hne (UInt64.toNat_inj.mp hzero)

end Placement.Valid

/-! ### Objects -/

/-- The bytes of an object. -/
def Object.extent (o : Object) : Extent := ⟨o.area.part, o.offset.toNat, o.size⟩

theorem Object.address_eq (p : Placement) (o : Object) : p.address o = o.extent.start p := by
  rw [Placement.address, Extent.start, extent, UInt64.ofNat_toNat]
  cases o.area <;> rfl

/-- Every object ends within its area. -/
theorem Object.extent_fits (o : Object) : o.extent.Fits := by
  cases o with
  | table t => cases t <;> decide
  | queue q => cases q <;> decide
  | spare e => cases e <;> decide
  | _ => decide

theorem Object.mem_all (o : Object) : o ∈ Object.all := by
  cases o with
  | table t => cases t <;> decide
  | queue q => cases q <;> decide
  | spare e => cases e <;> decide
  | _ => decide

theorem Object.size_le (o : Object) : o.size ≤ UInt64.size := by
  have hall : ∀ o ∈ Object.all, o.size ≤ UInt64.size := by decide
  exact hall o o.mem_all

/-- Different objects share no byte. -/
theorem Object.extent_apart {o o' : Object} (h : o ≠ o') : o.extent.Apart o'.extent := by
  have hall : ∀ o ∈ Object.all, ∀ o' ∈ Object.all, o ≠ o' → o.extent.Apart o'.extent := by
    decide
  exact hall o o.mem_all o' o'.mem_all h

/-! ### Nodes -/

/-- The nodes of a boot: the heads of the shared queues, the event pool, the spare slots and the
head of the local queue. -/
def Placement.arena (p : Placement) : Arena where
  regions :=
    [⟨p.address (.queue .ble), 16, 0, 4⟩, ⟨p.address .pool, 276, 4, 5⟩,
      ⟨p.address (.spare .system), 276, 9, 2⟩, ⟨p.localHead, 16, 11, 1⟩]
  size := 12

/-- The runs of nodes of a boot. -/
def Placement.runs (p : Placement) : List Host.NodeRun :=
  [Host.queueHeads p, Host.eventPool p, Host.spareEvents p, Host.localHead p]

/-- Where the runs of nodes of a boot lie. -/
def runExtents : List Extent :=
  [⟨.control, 248, 64⟩, ⟨.buffers, 0, 1380⟩, ⟨.buffers, 1380, 552⟩, ⟨.localHead, 0, 16⟩]

/-- Where the `n`-th node lies. -/
def slotExtent (n : Nat) : Extent :=
  if n < 4 then ⟨.control, 248 + n * 16, 16⟩
  else if n < 9 then ⟨.buffers, (n - 4) * 276, 276⟩
  else if n < 11 then ⟨.buffers, 1380 + (n - 9) * 276, 276⟩
  else ⟨.localHead, (n - 11) * 16, 16⟩

/-- The slot of a node. -/
def nodeExtent (i : NodeIndex) : Extent := slotExtent i.toNat

namespace Placement

variable {p : Placement} {i : NodeIndex}

theorem has_iff : p.arena.Has i ↔ i.toNat < 12 := by
  simp only [Arena.Has, arena, Region.holds_iff, List.mem_cons, List.not_mem_nil, or_false,
    exists_eq_or_imp, exists_eq_left, UInt16.reduceToNat]
  omega

end Placement

namespace Placement.Valid

variable {p : Placement} (hp : p.Valid)
include hp

theorem address_ne_null (o : Object) : p.address o ≠ Address.null := by
  rw [o.address_eq]
  exact hp.start_ne_null o.extent_fits

/-- **A boot registers its nodes.** -/
theorem registerAll_eq : Host.registerAll {} p.runs = .ok p.arena := by
  have hlocal : p.localHead ≠ Address.null := hp.base_ne_null .localHead
  have haddress := hp.address_ne_null
  simp only [Placement.runs, Host.queueHeads, Host.eventPool, Host.spareEvents, Host.localHead,
    Host.registerAll, bind, Except.bind]
  rw [Arena.register_ok (n := 0) (s := 0) rfl rfl (by decide) (haddress _) (by decide)]
  dsimp only
  rw [Arena.register_ok (n := 1) (s := 4) rfl rfl (by decide) (haddress _) (by decide)]
  dsimp only
  rw [Arena.register_ok (n := 2) (s := 9) rfl rfl (by decide) (haddress _) (by decide)]
  dsimp only
  rw [Arena.register_ok (n := 3) (s := 11) rfl rfl (by decide) hlocal (by decide)]
  rfl

omit hp in
theorem runs_eq : p.runs.map (fun run => (run.base, run.bytes)) =
    runExtents.map fun x => (x.start p, x.length) := by
  have hstart : ∀ o : Object, p.address o = o.extent.start p := fun o => o.address_eq p
  have hlocal : p.localHead = Extent.start p ⟨.localHead, 0, 16⟩ := (UInt64.add_zero _).symm
  simp only [Placement.runs, Host.queueHeads, Host.eventPool, Host.spareEvents, Host.localHead,
    hstart, List.map_cons, List.map_nil]
  rw [hlocal]
  rfl

/-- **The regions of a boot are separate.** -/
theorem separated : p.arena.Separated := by
  have hfits : ∀ x ∈ runExtents, x.Fits := by decide
  have hapart : runExtents.Pairwise Extent.Apart := by decide
  refine Arena.separated_of_registerAll hp.registerAll_eq (fun run hrun => ?_) ?_
  · have hmem : (run.base, run.bytes) ∈ p.runs.map fun run => (run.base, run.bytes) :=
      List.mem_map.mpr ⟨run, hrun, rfl⟩
    rw [runs_eq] at hmem
    obtain ⟨x, hx, heq⟩ := List.mem_map.mp hmem
    obtain ⟨hbase, hbytes⟩ := Prod.mk.inj heq
    have hlt := hp.base_lt x.part
    have hx := hfits x hx
    rw [Host.NodeRun.Fits, ← hbase, ← hbytes, hp.toNat_start hx]
    rw [Extent.Fits] at hx
    omega
  · have hpairs : (p.runs.map fun run => (run.base, run.bytes)).Pairwise fun x y =>
        x.1.toNat + x.2 ≤ y.1.toNat ∨ y.1.toNat + y.2 ≤ x.1.toNat := by
      rw [runs_eq, List.pairwise_map]
      exact hapart.imp_of_mem fun hx hy hxy => hp.start_apart (hfits _ hx) (hfits _ hy) hxy
    rw [List.pairwise_map] at hpairs
    exact hpairs

/-! ### Slots -/

omit hp in
theorem nodeExtent_fits {i : NodeIndex} (hi : p.arena.Has i) : (nodeExtent i).Fits := by
  have hall : ∀ n < 12, (slotExtent n).Fits := by decide
  exact hall _ (has_iff.mp hi)

theorem toNat_address (o : Object) :
    (p.address o).toNat = (p.base o.area.part).toNat + o.offset.toNat := by
  rw [o.address_eq]
  exact hp.toNat_start o.extent_fits

/-- **The slot of a node starts where its extent does, and is as long.** -/
theorem slot_eq {i : NodeIndex} (hi : p.arena.Has i) :
    p.arena.locate i = (nodeExtent i).start p ∧ p.arena.width i = (nodeExtent i).length := by
  obtain ⟨r, hr, hri, hfind⟩ := hi.exists_regionOf?
  have hnat := (hp.separated.fits r hr).toNat_address hri
  have hstart := hp.toNat_start (nodeExtent_fits hi)
  rw [← UInt64.toNat_inj]
  simp only [Arena.locate, Arena.width, hfind, hnat, hstart]
  rw [Region.holds_iff] at hri
  simp only [arena, List.mem_cons, List.not_mem_nil, or_false] at hr
  rcases hr with rfl | rfl | rfl | rfl <;>
    simp only [UInt16.reduceToNat, UInt64.reduceToNat, hp.toNat_address] at hri ⊢
  · have hext : nodeExtent i = ⟨.control, 248 + i.toNat * 16, 16⟩ := if_pos hri.2
    rw [hext]
    exact ⟨Nat.add_assoc _ _ _, rfl⟩
  · have hext : nodeExtent i = ⟨.buffers, (i.toNat - 4) * 276, 276⟩ := by
      rw [nodeExtent, slotExtent, if_neg (by omega), if_pos hri.2]
    rw [hext]
    exact ⟨rfl, rfl⟩
  · have hext : nodeExtent i = ⟨.buffers, 1380 + (i.toNat - 9) * 276, 276⟩ := by
      rw [nodeExtent, slotExtent, if_neg (by omega), if_neg (by omega), if_pos hri.2]
    rw [hext]
    exact ⟨Nat.add_assoc _ _ _, rfl⟩
  · have hext : nodeExtent i = ⟨.localHead, (i.toNat - 11) * 16, 16⟩ := by
      rw [nodeExtent, slotExtent, if_neg (by omega), if_neg (by omega), if_neg (by omega)]
    rw [hext]
    exact ⟨rfl, rfl⟩

theorem locate_ne_null {i : NodeIndex} (hi : p.arena.Has i) :
    p.arena.locate i ≠ Address.null := by
  rw [(hp.slot_eq hi).1]
  exact hp.start_ne_null (nodeExtent_fits hi)

end Placement.Valid

end InterCore
