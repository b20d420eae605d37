import InterCore.Host.Boot
import InterCore.Proofs.Footprint
import Mathlib.Data.List.Pairwise

/-!
# Arenas with separate regions

When the regions of an arena overlap neither in their indices nor in their addresses, numbers and
addresses of nodes determine each other, and every node has a slot of its own: the bytes from its
address up to the next node.

## Main definitions

* `Arena.Separated`: the regions are pairwise disjoint and none wraps.
* `Arena.Has`: an index names a node; `Arena.locate`, `Arena.width`: where its slot lies and how
  long it is.

## Main results

* `Arena.Separated.indexOf?_locate`: the index of the address of a node is the node.
* `Arena.Separated.slots_apart`: the slots of two nodes share no byte.
* `Arena.separated_of_registerAll`: registering runs of nodes that lie apart makes such an arena.
-/

namespace InterCore

namespace Region

/-- The number of bytes from the first node of a region to its end. -/
def bytes (r : Region) : Nat := r.stride.toNat * r.count.toNat

/-- The nodes of a region do not overlap, and neither its addresses nor its indices wrap. The index
that stands for no node is not among them. -/
structure Fits (r : Region) : Prop where
  node_le_stride : 16 ≤ r.stride.toNat
  address_lt : r.base.toNat + r.bytes < UInt64.size
  index_le : r.first.toNat + r.count.toNat ≤ 65535

/-- Two regions share neither an index nor a byte. -/
def Disjoint (r s : Region) : Prop :=
  (r.first.toNat + r.count.toNat ≤ s.first.toNat ∨ s.first.toNat + s.count.toNat ≤ r.first.toNat) ∧
    (r.base.toNat + r.bytes ≤ s.base.toNat ∨ s.base.toNat + s.bytes ≤ r.base.toNat)

instance : Std.Symm Region.Disjoint where
  symm _ _ h := ⟨h.1.symm, h.2.symm⟩

variable {r s : Region} {i : NodeIndex}

theorem holds_iff :
    r.holds i ↔ r.first.toNat ≤ i.toNat ∧ i.toNat < r.first.toNat + r.count.toNat := by
  simp [holds, UInt16.le_iff_toNat_le]

/-- The slot of a node lies inside its region. -/
theorem slot_le_bytes (h : r.holds i) :
    (i.toNat - r.first.toNat) * r.stride.toNat + r.stride.toNat ≤ r.bytes := by
  rw [holds_iff] at h
  calc (i.toNat - r.first.toNat) * r.stride.toNat + r.stride.toNat
      = r.stride.toNat * (i.toNat - r.first.toNat + 1) := by
        rw [Nat.mul_add, Nat.mul_one, Nat.mul_comm]
    _ ≤ r.bytes := Nat.mul_le_mul_left _ (by omega)

namespace Fits

theorem toNat_address (hr : r.Fits) (h : r.holds i) :
    (r.address i).toNat = r.base.toNat + (i.toNat - r.first.toNat) * r.stride.toNat := by
  have hsize : UInt64.size = 18446744073709551616 := rfl
  have hslot := slot_le_bytes h
  have hlt := hr.address_lt
  rw [holds_iff] at h
  have hsub : (i - r.first).toNat = i.toNat - r.first.toNat :=
    UInt16.toNat_sub_of_le _ _ (UInt16.le_iff_toNat_le.mpr h.1)
  rw [address, UInt64.toNat_add, UInt64.toNat_mul, UInt16.toNat_toUInt64, hsub]
  have hmul : (i.toNat - r.first.toNat) * r.stride.toNat < 2 ^ 64 := by omega
  rw [Nat.mod_eq_of_lt hmul, Nat.mod_eq_of_lt (by omega)]

theorem toNat_limit (hr : r.Fits) : r.limit.toNat = r.base.toNat + r.bytes := by
  have hsize : UInt64.size = 18446744073709551616 := rfl
  have hlt := hr.address_lt
  rw [limit, UInt64.toNat_add, UInt64.toNat_mul, UInt16.toNat_toUInt64]
  change (r.base.toNat + r.bytes % 2 ^ 64) % 2 ^ 64 = _
  rw [Nat.mod_eq_of_lt (show r.bytes < 2 ^ 64 by omega), Nat.mod_eq_of_lt (by omega)]

theorem spans_iff (hr : r.Fits) {p : Address} :
    r.spans p ↔ r.base.toNat ≤ p.toNat ∧ p.toNat < r.base.toNat + r.bytes := by
  simp [spans, UInt64.le_iff_toNat_le, UInt64.lt_iff_toNat_lt, hr.toNat_limit]

theorem spans_address (hr : r.Fits) (h : r.holds i) : r.spans (r.address i) := by
  have := hr.node_le_stride
  have := slot_le_bytes h
  rw [hr.spans_iff, hr.toNat_address h]
  omega

/-- The start of a slot is a whole number of strides into the region. -/
theorem indexOf?_address (hr : r.Fits) (h : r.holds i) : r.indexOf? (r.address i) = some i := by
  have hstride : 0 < r.stride.toNat := Nat.lt_of_lt_of_le (by decide) hr.node_le_stride
  have hoff : (r.address i - r.base).toNat = (i.toNat - r.first.toNat) * r.stride.toNat := by
    rw [UInt64.toNat_sub_of_le _ _ (by
      rw [UInt64.le_iff_toNat_le, hr.toNat_address h]; exact Nat.le_add_right _ _),
      hr.toNat_address h, Nat.add_sub_cancel_left]
  have hzero : (r.address i - r.base) % r.stride = 0 := by
    apply UInt64.toNat_inj.mp
    rw [UInt64.toNat_mod, hoff, Nat.mul_mod_left]
    rfl
  have hi := holds_iff.mp h
  have hlt := i.toNat_lt
  have hindex : r.first + ((r.address i - r.base) / r.stride).toUInt16 = i := by
    apply UInt16.toNat_inj.mp
    rw [UInt16.toNat_add, UInt64.toNat_toUInt16, UInt64.toNat_div, hoff,
      Nat.mul_div_cancel _ hstride]
    omega
  have hnone : i ≠ NodeIndex.none := by
    rintro rfl
    have := hr.index_le
    have : (NodeIndex.none).toNat = 65535 := rfl
    omega
  rw [indexOf?, if_pos hzero, hindex, NodeIndex.toOption, if_neg hnone]

end Fits

end Region

namespace Arena

/-- The regions of an arena are pairwise disjoint and none of them wraps. -/
structure Separated (a : Arena) : Prop where
  fits : ∀ r ∈ a.regions, r.Fits
  disjoint : a.regions.Pairwise Region.Disjoint

/-- The index names a node of the arena. -/
def Has (a : Arena) (i : NodeIndex) : Prop := ∃ r ∈ a.regions, r.holds i

instance (a : Arena) (i : NodeIndex) : Decidable (a.Has i) :=
  inferInstanceAs (Decidable (∃ r ∈ a.regions, r.holds i))

/-- The region of a node. -/
def regionOf? (a : Arena) (i : NodeIndex) : Option Region := a.regions.find? (·.holds i)

/-- The address of a node; indices that name no node have the null address. -/
def locate (a : Arena) (i : NodeIndex) : Address :=
  match a.regionOf? i with
  | some r => r.address i
  | none => Address.null

/-- The number of bytes of the slot of a node. -/
def width (a : Arena) (i : NodeIndex) : Nat :=
  match a.regionOf? i with
  | some r => r.stride.toNat
  | none => 0

variable {a : Arena} {i j : NodeIndex}

theorem Has.exists_regionOf? (hi : a.Has i) :
    ∃ r ∈ a.regions, r.holds i ∧ a.regionOf? i = some r := by
  obtain ⟨r, hr, hri⟩ := hi
  cases hfind : a.regionOf? i with
  | none => exact absurd hri (List.find?_eq_none.mp hfind r hr)
  | some s =>
    have hsi := List.find?_some hfind
    exact ⟨s, List.mem_of_find?_eq_some hfind, hsi, rfl⟩

@[simp] theorem Has.address (hi : a.Has i) : a.address i = .ok (a.locate i) := by
  obtain ⟨r, -, -, hr⟩ := hi.exists_regionOf?
  rw [locate, hr]
  rw [regionOf?] at hr
  rw [Arena.address, hr]
  rfl

namespace Separated

theorem eq_of_not_disjoint (ha : a.Separated) {r s : Region} (hr : r ∈ a.regions)
    (hs : s ∈ a.regions) (h : ¬ r.Disjoint s) : r = s := by
  by_contra hne
  exact h (ha.disjoint.forall hr hs hne)

/-- The first region around an address is the only one. -/
theorem find?_spans (ha : a.Separated) {r : Region} (hr : r ∈ a.regions) {p : Address}
    (hp : r.spans p) : a.regions.find? (·.spans p) = some r := by
  cases hfind : a.regions.find? (·.spans p) with
  | none => exact absurd hp (List.find?_eq_none.mp hfind r hr)
  | some s =>
    have hs := List.mem_of_find?_eq_some hfind
    have hsp := List.find?_some hfind
    change s.spans p = true at hsp
    rw [(ha.fits r hr).spans_iff] at hp
    rw [(ha.fits s hs).spans_iff] at hsp
    rw [ha.eq_of_not_disjoint hr hs]
    rintro ⟨-, h | h⟩ <;> omega

/-- The index of the address of a node is the node. -/
theorem indexOf?_locate (ha : a.Separated) (hi : a.Has i) : a.indexOf? (a.locate i) = some i := by
  obtain ⟨r, hr, hri, hfind⟩ := hi.exists_regionOf?
  have hfit := ha.fits r hr
  simp only [locate, hfind]
  rw [indexOf?, ha.find?_spans hr (hfit.spans_address hri)]
  exact hfit.indexOf?_address hri

theorem resolve_locate (ha : a.Separated) (hi : a.Has i) : a.resolve (a.locate i) = .ok i := by
  rw [resolve, ha.indexOf?_locate hi]
  rfl

theorem follow_locate (ha : a.Separated) (hi : a.Has i) :
    a.follow (a.locate i) = .ok (a.locate i) := by
  rw [follow, ha.resolve_locate hi]
  exact hi.address

theorem locate_inj (ha : a.Separated) (hi : a.Has i) (hj : a.Has j) :
    a.locate i = a.locate j ↔ i = j := by
  refine ⟨fun h => ?_, fun h => h ▸ rfl⟩
  have := ha.indexOf?_locate hi
  rw [h, ha.indexOf?_locate hj] at this
  exact (Option.some.inj this).symm

theorem node_le_width (ha : a.Separated) (hi : a.Has i) : 16 ≤ a.width i := by
  obtain ⟨r, hr, -, hfind⟩ := hi.exists_regionOf?
  simp only [width, hfind]
  exact (ha.fits r hr).node_le_stride

/-- A slot is an interval of addresses. -/
theorem slot_lt (ha : a.Separated) (hi : a.Has i) :
    (a.locate i).toNat + a.width i < UInt64.size := by
  obtain ⟨r, hr, hri, hfind⟩ := hi.exists_regionOf?
  have := (ha.fits r hr).address_lt
  have := Region.slot_le_bytes hri
  simp only [locate, width, hfind]
  rw [(ha.fits r hr).toNat_address hri]
  omega

/-- **Every byte belongs to one slot at most.** -/
theorem slots_apart (ha : a.Separated) (hi : a.Has i) (hj : a.Has j) (hij : i ≠ j) {k : Address}
    (hk : Memory.Within (a.locate i) (a.width i) k) :
    ¬ Memory.Within (a.locate j) (a.width j) k := by
  intro hk'
  rw [Memory.within_iff (Nat.le_of_lt (ha.slot_lt hi))] at hk
  rw [Memory.within_iff (Nat.le_of_lt (ha.slot_lt hj))] at hk'
  obtain ⟨r, hr, hri, hfindi⟩ := hi.exists_regionOf?
  obtain ⟨s, hs, hsj, hfindj⟩ := hj.exists_regionOf?
  have hri' := Region.slot_le_bytes hri
  have hsj' := Region.slot_le_bytes hsj
  simp only [locate, width, hfindi, hfindj] at hk hk'
  rw [(ha.fits r hr).toNat_address hri] at hk
  rw [(ha.fits s hs).toNat_address hsj] at hk'
  have hrs : r = s := by
    apply ha.eq_of_not_disjoint hr hs
    rintro ⟨-, h | h⟩ <;> omega
  subst hrs
  have hne : i.toNat ≠ j.toNat := fun h => hij (UInt16.toNat_inj.mp h)
  rw [Region.holds_iff] at hri hsj
  rcases Nat.lt_or_gt_of_ne hne with h | h
  · have : (i.toNat - r.first.toNat + 1) * r.stride.toNat
        ≤ (j.toNat - r.first.toNat) * r.stride.toNat := Nat.mul_le_mul_right _ (by omega)
    rw [Nat.add_mul] at this
    omega
  · have : (j.toNat - r.first.toNat + 1) * r.stride.toNat
        ≤ (i.toNat - r.first.toNat) * r.stride.toNat := Nat.mul_le_mul_right _ (by omega)
    rw [Nat.add_mul] at this
    omega

/-- The links of two nodes share no byte. -/
theorem links_apart (ha : a.Separated) (hi : a.Has i) (hj : a.Has j) (hij : i ≠ j) {k : Address}
    (hk : Memory.Within (a.locate i) 16 k) : ¬ Memory.Within (a.locate j) 16 k := fun hk' =>
  ha.slots_apart hi hj hij (hk.mono (ha.node_le_width hi)) (hk'.mono (ha.node_le_width hj))

end Separated

/-! ### Registering runs of nodes -/

/-- An arena whose regions are separate and whose next index is behind all of theirs. -/
structure Packed (a : Arena) : Prop extends a.Separated where
  index_le_size : ∀ r ∈ a.regions, r.first.toNat + r.count.toNat ≤ a.size.toNat
  size_lt : a.size.toNat < 65535

theorem packed_empty : Packed {} where
  fits _ hr := absurd hr List.not_mem_nil
  disjoint := List.Pairwise.nil
  index_le_size _ hr := absurd hr List.not_mem_nil
  size_lt := by decide

/-- What an accepted registration adds. -/
theorem register_eq_ok {base : Address} {stride count : UInt64} {first : NodeIndex} {a' : Arena}
    (h : a.register base stride count = .ok (first, a')) :
    16 ≤ stride.toNat ∧ count ≠ 0 ∧ (a.size.toNat + count.toNat) % UInt64.size < 65535 ∧
      a' = { regions := a.regions ++ [⟨base, stride, a.size, count.toUInt16⟩]
             size := a.size + count.toUInt16 } := by
  unfold register at h
  split at h
  · cases h
  · split at h
    · cases h
    · next hvalid =>
      simp only [not_or, UInt64.not_lt, UInt64.not_le] at hvalid
      obtain ⟨-, hstride, hcount, hsize⟩ := hvalid
      rw [UInt64.le_iff_toNat_le] at hstride
      rw [UInt64.lt_iff_toNat_lt, UInt64.toNat_add] at hsize
      cases h
      exact ⟨hstride, hcount, hsize, rfl⟩

/-- A region that passes the checks is registered. -/
theorem register_ok {base : Address} {stride count : UInt64} {n : Nat} {s : UInt16}
    (hn : a.regions.length = n) (hs : a.size = s) (hroom : n ≠ maxRegions)
    (hbase : base ≠ Address.null)
    (hrest : ¬ (stride < nodeSize ∨ count = 0 ∨ NodeIndex.none.toUInt64 ≤ s.toUInt64 + count)) :
    a.register base stride count = .ok (s,
      { regions := a.regions ++ [⟨base, stride, s, count.toUInt16⟩]
        size := s + count.toUInt16 }) := by
  rw [← hn] at hroom
  rw [← hs] at hrest ⊢
  rw [register, if_neg hroom, if_neg (not_or.mpr ⟨hbase, hrest⟩)]
  rfl

/-- Registering a run of nodes that shares no byte with the regions so far. -/
theorem Packed.register {base : Address} {stride count : UInt64} {first : NodeIndex} {a' : Arena}
    (ha : a.Packed) (h : a.register base stride count = .ok (first, a'))
    (hfit : base.toNat + stride.toNat * count.toNat < UInt64.size)
    (hapart : ∀ r ∈ a.regions, r.base.toNat + r.bytes ≤ base.toNat ∨
      base.toNat + stride.toNat * count.toNat ≤ r.base.toNat) :
    a'.Packed ∧ ∃ r : Region, a'.regions = a.regions ++ [r] ∧ r.base = base ∧
      r.bytes = stride.toNat * count.toNat := by
  obtain ⟨hstride, hcount, hsize, rfl⟩ := register_eq_ok h
  have hword : UInt64.size = 18446744073709551616 := rfl
  have hlt := ha.size_lt
  -- a run that does not wrap is far too short for its count to wrap the check
  have hcount' : count.toNat * 16 ≤ stride.toNat * count.toNat := by
    rw [Nat.mul_comm]
    exact Nat.mul_le_mul_right _ hstride
  rw [Nat.mod_eq_of_lt (by omega)] at hsize
  have hstored : count.toUInt16.toNat = count.toNat := by
    rw [UInt64.toNat_toUInt16]
    exact Nat.mod_eq_of_lt (by omega)
  have hnext : (a.size + count.toUInt16).toNat = a.size.toNat + count.toNat := by
    rw [UInt16.toNat_add, hstored]
    exact Nat.mod_eq_of_lt (by omega)
  have hbytes : Region.bytes ⟨base, stride, a.size, count.toUInt16⟩
      = stride.toNat * count.toNat := by rw [Region.bytes, hstored]
  refine ⟨{ fits := ?_, disjoint := ?_, index_le_size := ?_, size_lt := ?_ }, _, rfl, rfl, hbytes⟩
  · intro r hr
    rcases List.mem_append.mp hr with hr | hr
    · exact ha.fits r hr
    · obtain rfl := List.mem_singleton.mp hr
      refine ⟨hstride, ?_, ?_⟩
      · rw [hbytes]
        exact hfit
      · change a.size.toNat + count.toUInt16.toNat ≤ 65535
        omega
  · rw [List.pairwise_append]
    refine ⟨ha.disjoint, List.pairwise_singleton _ _, fun r hr s hs => ?_⟩
    obtain rfl := List.mem_singleton.mp hs
    refine ⟨Or.inl (ha.index_le_size r hr), ?_⟩
    rw [hbytes]
    exact hapart r hr
  · intro r hr
    rw [hnext]
    rcases List.mem_append.mp hr with hr | hr
    · exact Nat.le_trans (ha.index_le_size r hr) (Nat.le_add_right _ _)
    · obtain rfl := List.mem_singleton.mp hr
      exact Nat.add_le_add_left (Nat.le_of_eq hstored) _
  · rw [hnext]
    exact hsize

end Arena

namespace Host.NodeRun

/-- The number of bytes from the first node of a run to its end. -/
def bytes (run : NodeRun) : Nat := run.stride * run.count.toNat

/-- The run ends below the end of the address space. -/
def Fits (run : NodeRun) : Prop := run.base.toNat + run.bytes < UInt64.size

instance (run : NodeRun) : Decidable run.Fits :=
  inferInstanceAs (Decidable (_ < _))

/-- Two runs share no byte. -/
def Apart (run run' : NodeRun) : Prop :=
  run.base.toNat + run.bytes ≤ run'.base.toNat ∨ run'.base.toNat + run'.bytes ≤ run.base.toNat

instance : DecidableRel Apart := fun _ _ => inferInstanceAs (Decidable (_ ∨ _))

end Host.NodeRun

namespace Arena

variable {a a' : Arena} {run : Host.NodeRun} {runs : List Host.NodeRun}

/-- A list of registrations starts with the first one. -/
theorem registerAll_cons (h : Host.registerAll a (run :: runs) = .ok a') :
    ∃ first b, a.register run.base (UInt64.ofNat run.stride) run.count = .ok (first, b) ∧
      Host.registerAll b runs = .ok a' := by
  simp only [Host.registerAll] at h
  cases hreg : a.register run.base (UInt64.ofNat run.stride) run.count with
  | error e =>
    rw [hreg] at h
    cases h
  | ok result =>
    rw [hreg] at h
    exact ⟨result.1, result.2, rfl, h⟩

/-- An accepted run that does not wrap is passed on as it is, and is short. -/
theorem fits_of_register {first : NodeIndex} (hfits : run.Fits)
    (h : a.register run.base (UInt64.ofNat run.stride) run.count = .ok (first, a')) :
    (UInt64.ofNat run.stride).toNat = run.stride ∧ run.count.toNat * 16 < UInt64.size := by
  obtain ⟨hnode, hcount, -, -⟩ := register_eq_ok h
  have hpos : 0 < run.count.toNat :=
    Nat.pos_of_ne_zero fun h0 => hcount (UInt64.toNat_inj.mp h0)
  rw [Host.NodeRun.Fits] at hfits
  have hbytes : run.stride ≤ run.bytes := Nat.le_mul_of_pos_right _ hpos
  have hstride : (UInt64.ofNat run.stride).toNat = run.stride :=
    UInt64.toNat_ofNat_of_lt' (by omega)
  rw [hstride] at hnode
  have hshort : run.count.toNat * 16 ≤ run.bytes := by
    rw [Host.NodeRun.bytes, Nat.mul_comm]
    exact Nat.mul_le_mul_right _ hnode
  exact ⟨hstride, by omega⟩

theorem Packed.registerAll (ha : a.Packed) (h : Host.registerAll a runs = .ok a')
    (hfits : ∀ run ∈ runs, run.Fits) (hapart : runs.Pairwise Host.NodeRun.Apart)
    (hregions : ∀ r ∈ a.regions, ∀ run ∈ runs, r.base.toNat + r.bytes ≤ run.base.toNat ∨
      run.base.toNat + run.bytes ≤ r.base.toNat) :
    a'.Packed := by
  induction runs generalizing a with
  | nil =>
    cases h
    exact ha
  | cons run runs ih =>
    obtain ⟨first, b, hreg, hrest⟩ := registerAll_cons h
    have hfit := hfits run List.mem_cons_self
    have hnew : (UInt64.ofNat run.stride).toNat * run.count.toNat = run.bytes := by
      rw [(fits_of_register hfit hreg).1, Host.NodeRun.bytes]
    obtain ⟨hb, r, hregs, hbase, hbytes⟩ := ha.register hreg (by rw [hnew]; exact hfit)
      (by rw [hnew]; exact fun r hr => hregions r hr run List.mem_cons_self)
    rw [hnew] at hbytes
    obtain ⟨hrun, hruns⟩ := List.pairwise_cons.mp hapart
    refine ih hb hrest (fun s hs => hfits s (List.mem_cons_of_mem _ hs)) hruns ?_
    rw [hregs]
    intro s hs run' hrun'
    rcases List.mem_append.mp hs with hs | hs
    · exact hregions s hs run' (List.mem_cons_of_mem _ hrun')
    · obtain rfl := List.mem_singleton.mp hs
      rw [hbase, hbytes]
      exact hrun run' hrun'

/-- **Runs of nodes that lie apart make an arena with separate regions.** Nothing is asked of their
counts: a run that ends below the end of the address space is too short to deceive the check of a
registration. -/
theorem separated_of_registerAll
    (h : Host.registerAll {} runs = .ok a) (hfits : ∀ run ∈ runs, run.Fits)
    (hapart : runs.Pairwise Host.NodeRun.Apart) : a.Separated :=
  (packed_empty.registerAll h hfits hapart fun _ hr => absurd hr List.not_mem_nil).toSeparated

end Arena

end InterCore
