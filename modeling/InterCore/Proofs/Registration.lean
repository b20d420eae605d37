import InterCore.Proofs.Arena
import Mathlib.Data.List.Nodup

/-!
# The index space and its registrations

A registration takes the next indices for the nodes of a new region. While the numbers of nodes add
up to less than the index space holds, the ranges of the regions fill the indices below the size
without gaps, and if the runs of nodes lie apart in memory as well then numbers and addresses of
nodes are each other's inverse.

The check of a registration adds the size and the number of new nodes as machine words. A number
just below the end of the words makes that sum wrap, passes the check, and leaves a region that
reaches beyond the size: from then on two regions can number the same index.

## Main definitions

* `Arena.Numbers`: the arena numbers exactly the nodes of the registered runs, both ways.
* `Arena.Ordered`: the ranges of the regions lie apart and below the size.
* `Host.NodeRun.total`: the number of nodes of a list of runs.
* `Arena.Admission`: what a registration does for each number of nodes.

## Main results

* `Region.not_spans_of_end`: a region that reaches the very end of the address space is lost.
* `Arena.numbers_of_registerAll`: registering runs of nodes that lie apart numbers them.
* `Arena.registrations_wrap`: which numbers of nodes are accepted, and when the ranges stay in
  order.
-/

namespace InterCore

namespace Region

/-- The indices of the nodes of a region. -/
def indices (r : Region) : List Nat := List.range' r.first.toNat r.count.toNat

variable {r : Region} {i : NodeIndex} {p : Address}

/-- **What a region finds at an address is one of its nodes, and lies there.** -/
theorem Fits.of_indexOf? (hr : r.Fits) (hp : r.spans p) (h : r.indexOf? p = some i) :
    r.holds i ∧ r.address i = p := by
  rw [hr.spans_iff] at hp
  have hstride : 0 < r.stride.toNat := Nat.lt_of_lt_of_le (by decide) hr.node_le_stride
  have hoff : (p - r.base).toNat = p.toNat - r.base.toNat :=
    UInt64.toNat_sub_of_le _ _ (UInt64.le_iff_toNat_le.mpr hp.1)
  obtain ⟨k, hk⟩ : ∃ k, (p.toNat - r.base.toNat) / r.stride.toNat = k := ⟨_, rfl⟩
  have hslot : k < r.count.toNat := by
    rw [← hk, Nat.div_lt_iff_lt_mul hstride, Nat.mul_comm]
    change _ < r.bytes
    omega
  have hindex := hr.index_le
  simp only [indexOf?, NodeIndex.toOption] at h
  split at h
  case isFalse => cases h
  case isTrue hzero =>
  split at h
  case isTrue => cases h
  case isFalse =>
  have hi : i.toNat = r.first.toNat + k := by
    rw [← Option.some.inj h, UInt16.toNat_add, UInt64.toNat_toUInt16, UInt64.toNat_div, hoff, hk]
    omega
  have hholds : r.holds i := by
    rw [holds_iff]
    omega
  refine ⟨hholds, UInt64.toNat_inj.mp ?_⟩
  have hmod : (p.toNat - r.base.toNat) % r.stride.toNat = 0 := by
    rw [← hoff, ← UInt64.toNat_mod, hzero]
    rfl
  rw [hr.toNat_address hholds, hi, Nat.add_sub_cancel_left, ← hk,
    Nat.div_mul_cancel (Nat.dvd_of_mod_eq_zero hmod), Nat.add_sub_cancel' hp.1]

/-- A region that reaches the very end of the address space is lost: its limit wraps to zero. -/
theorem not_spans_of_end (h : r.base.toNat + r.bytes = UInt64.size) : ¬ r.spans p := by
  have hlimit : r.limit = 0 := by
    apply UInt64.toNat_inj.mp
    rw [limit, UInt64.toNat_add, UInt64.toNat_mul, UInt16.toNat_toUInt64, Nat.add_mod_mod]
    change (r.base.toNat + r.bytes) % UInt64.size = 0
    rw [h, Nat.mod_self]
  simp [spans, hlimit]

end Region

namespace Arena

variable {a a' : Arena} {i j : NodeIndex} {p q : Address}

/-- An address is given by a region that holds the node. -/
theorem exists_region_of_address (h : a.address i = .ok p) :
    ∃ r ∈ a.regions, r.holds i ∧ r.address i = p := by
  unfold address at h
  split at h
  · next r hfind =>
    have hri := List.find?_some hfind
    exact ⟨r, List.mem_of_find?_eq_some hfind, hri, Except.ok.inj h⟩
  · cases h

namespace Separated

/-- A node has the address that its region gives it. -/
theorem address_eq_ok_iff (ha : a.Separated) :
    a.address i = .ok p ↔ ∃ r ∈ a.regions, r.holds i ∧ r.address i = p := by
  constructor
  · exact exists_region_of_address
  · rintro ⟨r, hr, hri, rfl⟩
    obtain ⟨s, hs, hsi, hfind⟩ := Has.exists_regionOf? ⟨r, hr, hri⟩
    rw [Region.holds_iff] at hri hsi
    have hrs : r = s := by
      apply ha.eq_of_not_disjoint hr hs
      rintro ⟨h | h, -⟩ <;> omega
    rw [regionOf?] at hfind
    rw [address, hfind, hrs]
    rfl

/-- **Numbers and addresses of nodes are each other's inverse.** -/
theorem indexOf?_eq_some_iff (ha : a.Separated) : a.indexOf? p = some i ↔ a.address i = .ok p := by
  constructor
  · intro h
    unfold indexOf? at h
    split at h
    · next r hfind =>
      have hr := List.mem_of_find?_eq_some hfind
      have hp := List.find?_some hfind
      exact ha.address_eq_ok_iff.mpr ⟨r, hr, (ha.fits r hr).of_indexOf? hp h⟩
    · cases h
  · intro h
    obtain ⟨r, hr, hri, rfl⟩ := ha.address_eq_ok_iff.mp h
    rw [indexOf?, ha.find?_spans hr ((ha.fits r hr).spans_address hri)]
    exact (ha.fits r hr).indexOf?_address hri

end Separated

theorem resolve_eq_error_iff {e : Halt} :
    a.resolve p = .error e ↔ a.indexOf? p = none ∧ e = .strayLink := by
  unfold resolve
  split
  · next h => simp [h, pure, Except.pure]
  · next h => simp [h, throw, throwThe, MonadExceptOf.throw, eq_comm]

theorem resolve_eq_ok_iff : a.resolve p = .ok i ↔ a.indexOf? p = some i := by
  unfold resolve
  split
  · next j h => simp [h, pure, Except.pure]
  · next h => simp [h, throw, throwThe, MonadExceptOf.throw]

/-! ### One registration -/

/-- The ranges of the regions follow each other without gaps and cover the indices below the
size. -/
def Tiled (a : Arena) : Prop := a.regions.flatMap Region.indices = List.range a.size.toNat

/-- The ranges of the regions lie below the size and share no index. -/
structure Ordered (a : Arena) : Prop where
  below : ∀ r ∈ a.regions, ∀ k ∈ r.indices, k < a.size.toNat
  apart : a.regions.Pairwise fun r s => r.indices.Disjoint s.indices

theorem Tiled.ordered (ha : a.Tiled) : a.Ordered where
  below r hr k hk := by
    rw [← List.mem_range, ← ha]
    exact List.mem_flatMap.mpr ⟨r, hr, hk⟩
  apart := by
    have hnodup : (a.regions.flatMap Region.indices).Nodup := ha ▸ List.nodup_range
    exact (List.nodup_flatMap.mp hnodup).2

variable {base : Address} {stride count : UInt64} {first : NodeIndex}

/-- The size after a registration, also when the sum wraps. -/
theorem register_size (h : a.register base stride count = .ok (first, a')) :
    a'.size.toNat = (a.size.toNat + count.toNat) % UInt64.size ∧ a'.size.toNat < 65535 := by
  obtain ⟨-, -, hsize, rfl⟩ := register_eq_ok h
  have hword : UInt64.size = 18446744073709551616 := rfl
  have hnext : (a.size + count.toUInt16).toNat = (a.size.toNat + count.toNat) % UInt64.size := by
    rw [hword] at hsize ⊢
    rw [UInt16.toNat_add, UInt64.toNat_toUInt16]
    omega
  exact ⟨hnext, hnext ▸ hsize⟩

/-- **A registration whose sum does not wrap takes the next indices.** -/
theorem Tiled.register (ha : a.Tiled) (hlt : a.size.toNat < 65535)
    (hsum : a.size.toNat + count.toNat < UInt64.size)
    (h : a.register base stride count = .ok (first, a')) :
    a'.Tiled ∧ count.toUInt16.toUInt64 = count := by
  obtain ⟨hnext, hroom⟩ := register_size h
  obtain ⟨-, -, -, rfl⟩ := register_eq_ok h
  rw [Nat.mod_eq_of_lt hsum] at hnext
  have hstored : count.toUInt16.toNat = count.toNat := by
    rw [UInt64.toNat_toUInt16]
    exact Nat.mod_eq_of_lt (by omega)
  constructor
  · unfold Tiled
    rw [hnext, List.flatMap_append, ha, List.flatMap_singleton]
    change _ ++ List.range' a.size.toNat count.toUInt16.toNat = _
    rw [hstored, List.range_eq_range', List.range_eq_range', ← List.range'_append_1, Nat.zero_add]
  · apply UInt64.toNat_inj.mp
    rw [UInt16.toNat_toUInt64, hstored]

/-- **A registration whose sum wraps leaves a region that reaches the end of the index space.** -/
theorem register_overflow (hlt : a.size.toNat < 65535)
    (hsum : UInt64.size ≤ a.size.toNat + count.toNat)
    (h : a.register base stride count = .ok (first, a')) :
    ∃ r ∈ a'.regions, 65535 ∈ r.indices := by
  obtain ⟨-, -, -, rfl⟩ := register_eq_ok h
  have hword : UInt64.size = 18446744073709551616 := rfl
  have hcount := count.toNat_lt_size
  refine ⟨_, List.mem_append_right _ List.mem_cons_self, ?_⟩
  rw [Region.indices, List.mem_range'_1]
  change a.size.toNat ≤ 65535 ∧ 65535 < a.size.toNat + count.toUInt16.toNat
  rw [UInt64.toNat_toUInt16]
  omega

theorem Ordered.not_reaches (ha : a.Ordered) {r : Region} (hr : r ∈ a.regions) :
    65535 ∉ r.indices := fun h => by
  have := ha.below r hr 65535 h
  have := a.size.toNat_lt
  omega

/-- What a registration does for a number of nodes, while a region is left and the base and the
stride are sound. -/
structure Admission (a : Arena) (base : Address) (stride count : UInt64) : Prop where
  /-- Accepted are the numbers of nodes that fit, and those that make the sum wrap. -/
  accepted_iff : (∃ result, a.register base stride count = .ok result) ↔ 0 < count.toNat ∧
    (a.size.toNat + count.toNat < 65535 ∨ UInt64.size ≤ a.size.toNat + count.toNat)
  refused_iff : a.register base stride count = .error .invalidRegion ↔ count.toNat = 0 ∨
    (65535 ≤ a.size.toNat + count.toNat ∧ a.size.toNat + count.toNat < UInt64.size)
  first_eq : ∀ first a', a.register base stride count = .ok (first, a') → first = a.size
  size_eq : ∀ first a', a.register base stride count = .ok (first, a') →
    a'.size.toNat = (a.size.toNat + count.toNat) % UInt64.size
  /-- The size grows by the number of nodes exactly when they fit. -/
  grows_iff : ∀ first a', a.register base stride count = .ok (first, a') →
    (a'.size.toNat = a.size.toNat + count.toNat ↔ a.size.toNat + count.toNat < 65535)

/-- With a region left and a sound base and stride, a registration looks at the sum alone. -/
theorem register_eq (hroom : a.regions.length < maxRegions) (hbase : base ≠ Address.null)
    (hstride : 16 ≤ stride.toNat) :
    a.register base stride count =
      if count.toNat = 0 ∨ 65535 ≤ (a.size.toNat + count.toNat) % UInt64.size then
        .error .invalidRegion
      else .ok (a.size,
        { regions := a.regions ++ [⟨base, stride, a.size, count.toUInt16⟩]
          size := a.size + count.toUInt16 }) := by
  have hwide : ¬ stride < nodeSize := by
    rw [UInt64.not_lt, UInt64.le_iff_toNat_le]
    exact hstride
  have hzero : count = 0 ↔ count.toNat = 0 := UInt64.toNat_inj.symm
  have hsum : NodeIndex.none.toUInt64 ≤ a.size.toUInt64 + count ↔
      65535 ≤ (a.size.toNat + count.toNat) % UInt64.size := by
    rw [UInt64.le_iff_toNat_le, UInt64.toNat_add]
    rfl
  rw [Arena.register, if_neg (Nat.ne_of_lt hroom)]
  simp only [hbase, hwide, false_or, hzero, hsum]
  rfl

theorem admission (hlt : a.size.toNat < 65535) (hroom : a.regions.length < maxRegions)
    (hbase : base ≠ Address.null) (hstride : 16 ≤ stride.toNat) :
    a.Admission base stride count := by
  have hword : UInt64.size = 18446744073709551616 := rfl
  have hcount := count.toNat_lt_size
  have hwrap : 65535 ≤ (a.size.toNat + count.toNat) % UInt64.size ↔
      65535 ≤ a.size.toNat + count.toNat ∧ a.size.toNat + count.toNat < UInt64.size := by
    rw [hword] at hcount ⊢
    omega
  have heq : a.register base stride count = _ := register_eq hroom hbase hstride
  simp only [hwrap] at heq
  refine ⟨?_, ?_, ?_, fun first a' h => (register_size h).1, fun first a' h => ?_⟩
  · rw [heq]
    split
    · simp only [reduceCtorEq, exists_false, false_iff]
      omega
    · simp only [Except.ok.injEq, exists_eq', true_iff]
      omega
  · rw [heq]
    split
    · next h => exact iff_of_true rfl h
    · next h => exact iff_of_false (by simp) h
  · intro first a' h
    rw [heq] at h
    split at h
    · cases h
    · cases h
      rfl
  · obtain ⟨hnext, hsmall⟩ := register_size h
    rw [hword] at hnext hcount
    omega

end Arena

/-! ### Runs of registrations -/

namespace Host.NodeRun

/-- The address is that of a node of the run. -/
def Names (run : NodeRun) (p : Address) : Prop :=
  ∃ k < run.count.toNat, p.toNat = run.base.toNat + k * run.stride

/-- The number of nodes of a list of runs. -/
def total (runs : List NodeRun) : Nat := runs.foldr (fun run n => run.count.toNat + n) 0

end Host.NodeRun

/-- The run of nodes that a region holds. -/
def Region.run (r : Region) : Host.NodeRun := ⟨r.base, r.stride.toNat, r.count.toUInt64⟩

namespace Arena

open Host.NodeRun (total)

variable {a a' : Arena} {run : Host.NodeRun} {runs : List Host.NodeRun}

/-- Registrations only add regions. -/
theorem registerAll_mem (h : Host.registerAll a runs = .ok a') {r : Region} (hr : r ∈ a.regions) :
    r ∈ a'.regions := by
  induction runs generalizing a with
  | nil =>
    cases h
    exact hr
  | cons run runs ih =>
    obtain ⟨first, b, hreg, hrest⟩ := registerAll_cons h
    apply ih hrest
    obtain ⟨-, -, -, rfl⟩ := register_eq_ok hreg
    exact List.mem_append_left _ hr

theorem registerAll_size_lt (hlt : a.size.toNat < 65535)
    (h : Host.registerAll a runs = .ok a') : a'.size.toNat < 65535 := by
  induction runs generalizing a with
  | nil =>
    cases h
    exact hlt
  | cons run runs ih =>
    obtain ⟨first, b, hreg, hrest⟩ := registerAll_cons h
    exact ih (register_size hreg).2 hrest

/-- **Registrations fill the index space, or one of them has wrapped.** -/
theorem Tiled.registerAll (ha : a.Tiled) (hlt : a.size.toNat < 65535)
    (h : Host.registerAll a runs = .ok a') :
    (a'.Tiled ∧ a'.size.toNat = a.size.toNat + total runs) ∨
      (65535 ≤ a.size.toNat + total runs ∧ ∃ r ∈ a'.regions, 65535 ∈ r.indices) := by
  induction runs generalizing a with
  | nil =>
    cases h
    exact Or.inl ⟨ha, rfl⟩
  | cons run runs ih =>
    obtain ⟨first, b, hreg, hrest⟩ := registerAll_cons h
    obtain ⟨hnext, hroom⟩ := register_size hreg
    have htotal : total (run :: runs) = run.count.toNat + total runs := rfl
    rw [htotal, ← Nat.add_assoc]
    rcases Nat.lt_or_ge (a.size.toNat + run.count.toNat) UInt64.size with hsum | hsum
    · rw [Nat.mod_eq_of_lt hsum] at hnext
      rw [← hnext]
      exact ih (ha.register hlt hsum hreg).1 hroom hrest
    · obtain ⟨r, hr, hreach⟩ := register_overflow hlt hsum hreg
      have hword : UInt64.size = 18446744073709551616 := rfl
      exact Or.inr ⟨by omega, r, registerAll_mem hrest hr, hreach⟩

theorem tiled_empty : Tiled {} := rfl

/-- The ranges of the regions are in order exactly when the nodes fit the index space. -/
theorem ordered_iff (h : Host.registerAll {} runs = .ok a) : a.Ordered ↔ total runs < 65535 := by
  rcases tiled_empty.registerAll (by decide) h with ⟨ha, hsize⟩ | ⟨htotal, r, hr, hreach⟩
  · have hlt := registerAll_size_lt (by decide) h
    refine iff_of_true ha.ordered ?_
    rw [hsize] at hlt
    exact Nat.lt_of_le_of_lt (Nat.le_add_left _ _) hlt
  · refine iff_of_false (fun ha => ha.not_reaches hr hreach) ?_
    exact Nat.not_lt.mpr (Nat.le_trans htotal (Nat.le_of_eq (Nat.zero_add _)))

/-- **Which numbers of nodes a registration accepts, and when the ranges stay in order.** The check
lets exactly those numbers through that fit and those that make the sum of words wrap; the ranges
are in order as long as none of the second kind was accepted. -/
theorem registrations_wrap (h : Host.registerAll {} runs = .ok a) :
    (a.Ordered ↔ total runs < 65535) ∧
      ∀ base stride count, a.regions.length < maxRegions → base ≠ Address.null →
        16 ≤ stride.toNat → a.Admission base stride count :=
  ⟨ordered_iff h, fun _ _ _ => admission (registerAll_size_lt (by decide) h)⟩

/-- After five nodes, three less than the number of words are accepted and shrink the arena. -/
theorem registrations_wrap_five : ∃ a a',
    Host.registerAll {} [⟨4096, 16, 5⟩] = .ok a ∧
      a.register 8192 16 18446744073709551613 = .ok (5, a') ∧ a'.size.toNat = 2 ∧
      a.Admission 8192 16 18446744073709551613 ∧ a.Ordered := by
  have h : Host.registerAll {} [⟨4096, 16, 5⟩] = .ok ⟨[⟨4096, 16, 0, 5⟩], 5⟩ := by decide
  obtain ⟨hordered, hadmits⟩ := registrations_wrap h
  exact ⟨_, ⟨[⟨4096, 16, 0, 5⟩, ⟨8192, 16, 5, 65533⟩], 2⟩, h, by decide, rfl,
    hadmits 8192 16 18446744073709551613 (by decide) (by decide) (by decide),
    hordered.mpr (by decide)⟩

/-- A registration can be accepted although its nodes do not fit. Its range then lies beyond the
size, and the nodes of the next region get indices that another region has already. -/
theorem registration_exceeds : ∃ a a' a'',
    Host.registerAll {} [⟨4096, 16, 5⟩] = .ok a ∧ a.size.toNat = 5 ∧
      a.register 8192 16 18446744073709551613 = .ok (5, a') ∧
      ¬ (a.size.toNat + (18446744073709551613 : UInt64).toNat < 65535) ∧ a'.size.toNat = 2 ∧
      ¬ a'.Ordered ∧ a'.register 12288 16 1 = .ok (2, a'') ∧
      ∃ r ∈ a''.regions, ∃ s ∈ a''.regions, r ≠ s ∧ 2 ∈ r.indices ∧ 2 ∈ s.indices := by
  refine ⟨⟨[⟨4096, 16, 0, 5⟩], 5⟩, ⟨[⟨4096, 16, 0, 5⟩, ⟨8192, 16, 5, 65533⟩], 2⟩,
    ⟨[⟨4096, 16, 0, 5⟩, ⟨8192, 16, 5, 65533⟩, ⟨12288, 16, 2, 1⟩], 3⟩,
    by decide, rfl, by decide, by decide, rfl, fun ha => ?_, by decide, ?_⟩
  · have := ha.below ⟨8192, 16, 5, 65533⟩ (by decide) 5 (List.mem_range'_1.mpr (by decide))
    exact absurd this (by decide)
  · exact ⟨⟨4096, 16, 0, 5⟩, by decide, ⟨12288, 16, 2, 1⟩, by decide, by decide, by decide,
      by decide⟩

/-! ### Runs that lie apart -/

/-- The nodes of a run, both ways: by number and by address. -/
structure Numbers (a : Arena) (runs : List Host.NodeRun) : Prop where
  /-- The regions hold the runs in the order of their registration. -/
  runs_eq : a.regions.map Region.run = runs
  /-- Their ranges follow each other without gaps and cover the indices below the size. -/
  tiled : a.Tiled
  /-- Exactly the indices below the size have an address. -/
  address_iff : ∀ i, (∃ p, a.address i = .ok p) ↔ i.toNat < a.size.toNat
  unknown_iff : ∀ i, a.address i = .error .unknownNode ↔ a.size.toNat ≤ i.toNat
  /-- The index of the address of a node is the node, and the address of the index of a node is
  where it was found. -/
  inverse : ∀ i p, a.indexOf? p = some i ↔ a.address i = .ok p
  /-- Exactly the addresses of registered nodes have an index. -/
  none_iff : ∀ p, a.indexOf? p = none ↔ ¬ ∃ run ∈ runs, run.Names p
  /-- Different nodes share no byte of their links, and none of them wraps. -/
  apart : ∀ i j p q, i ≠ j → a.address i = .ok p → a.address j = .ok q →
    p.toNat + 16 ≤ q.toNat ∨ q.toNat + 16 ≤ p.toNat
  in_memory : ∀ i p, a.address i = .ok p → p.toNat + 16 < UInt64.size
  /-- A link is refused exactly when it leads to no node. -/
  stray_iff : ∀ p, a.resolve p = .error .strayLink ↔ a.indexOf? p = none
  resolve_iff : ∀ p i, a.resolve p = .ok i ↔ a.indexOf? p = some i

theorem has_iff_mem_indices {i : NodeIndex} :
    a.Has i ↔ i.toNat ∈ a.regions.flatMap Region.indices := by
  simp only [Has, List.mem_flatMap, Region.indices, List.mem_range'_1, Region.holds_iff]

theorem Tiled.has_iff (ha : a.Tiled) {i : NodeIndex} : a.Has i ↔ i.toNat < a.size.toNat := by
  rw [has_iff_mem_indices, ha, List.mem_range]

theorem has_iff_address {i : NodeIndex} : a.Has i ↔ ∃ p, a.address i = .ok p := by
  refine ⟨fun hi => ⟨_, hi.address⟩, fun ⟨p, h⟩ => ?_⟩
  obtain ⟨r, hr, hri, -⟩ := exists_region_of_address h
  exact ⟨r, hr, hri⟩

theorem address_eq_error_iff {i : NodeIndex} : a.address i = .error .unknownNode ↔ ¬ a.Has i := by
  rw [has_iff_address]
  unfold address
  split
  · exact iff_of_false (by rintro ⟨⟩) (not_not_intro ⟨_, rfl⟩)
  · exact iff_of_true rfl (by rintro ⟨p, ⟨⟩⟩)

/-- The addresses of the nodes of a region are those that its run names. -/
theorem names_run_iff {r : Region} (hr : r.Fits) {p : Address} :
    r.run.Names p ↔ ∃ i, r.holds i ∧ r.address i = p := by
  have hcount : r.run.count.toNat = r.count.toNat := UInt16.toNat_toUInt64 _
  have hindex := hr.index_le
  constructor
  · rintro ⟨k, hk, hp⟩
    rw [hcount] at hk
    have hi : (UInt16.ofNat (r.first.toNat + k)).toNat = r.first.toNat + k :=
      UInt16.toNat_ofNat_of_lt' (by
        change _ < 65536
        omega)
    have hholds : r.holds (UInt16.ofNat (r.first.toNat + k)) := by
      rw [Region.holds_iff]
      omega
    refine ⟨_, hholds, UInt64.toNat_inj.mp ?_⟩
    rw [hr.toNat_address hholds, hi, Nat.add_sub_cancel_left]
    exact hp.symm
  · rintro ⟨i, hi, rfl⟩
    have hi' := Region.holds_iff.mp hi
    refine ⟨i.toNat - r.first.toNat, ?_, hr.toNat_address hi⟩
    omega

namespace Separated

variable {i j : NodeIndex} {p q : Address}

theorem indexOf?_eq_none_iff (ha : a.Separated) :
    a.indexOf? p = none ↔ ¬ ∃ run ∈ a.regions.map Region.run, run.Names p := by
  rw [Option.eq_none_iff_forall_not_mem, not_exists]
  constructor
  · rintro hnone run ⟨hrun, hp⟩
    obtain ⟨r, hr, rfl⟩ := List.mem_map.mp hrun
    obtain ⟨i, hi⟩ := (names_run_iff (ha.fits r hr)).mp hp
    exact hnone i (ha.indexOf?_eq_some_iff.mpr (ha.address_eq_ok_iff.mpr ⟨r, hr, hi⟩))
  · intro hnames i hi
    obtain ⟨r, hr, hri⟩ := ha.address_eq_ok_iff.mp (ha.indexOf?_eq_some_iff.mp hi)
    exact hnames r.run ⟨List.mem_map_of_mem hr, (names_run_iff (ha.fits r hr)).mpr ⟨i, hri⟩⟩

/-- The links of a node are an interval of addresses. -/
theorem address_lt (ha : a.Separated) (hp : a.address i = .ok p) :
    p.toNat + 16 < UInt64.size := by
  have hi := has_iff_address.mpr ⟨p, hp⟩
  obtain rfl := Except.ok.inj (hi.address.symm.trans hp)
  exact Nat.lt_of_le_of_lt (Nat.add_le_add_left (ha.node_le_width hi) _) (ha.slot_lt hi)

/-- The links of different nodes are intervals that lie apart. -/
theorem address_apart (ha : a.Separated) (hij : i ≠ j) (hp : a.address i = .ok p)
    (hq : a.address j = .ok q) : p.toNat + 16 ≤ q.toNat ∨ q.toNat + 16 ≤ p.toNat := by
  have hpl := Nat.le_of_lt (ha.address_lt hp)
  have hql := Nat.le_of_lt (ha.address_lt hq)
  have hi := has_iff_address.mpr ⟨p, hp⟩
  have hj := has_iff_address.mpr ⟨q, hq⟩
  obtain rfl := Except.ok.inj (hi.address.symm.trans hp)
  obtain rfl := Except.ok.inj (hj.address.symm.trans hq)
  -- otherwise the later of the two starts is a byte of both
  by_contra hnear
  rcases Nat.le_total (a.locate i).toNat (a.locate j).toNat with h | h
  · exact ha.links_apart hi hj hij (k := a.locate j) ((Memory.within_iff hpl).mpr (by omega))
      ((Memory.within_iff hql).mpr (by omega))
  · exact ha.links_apart hi hj hij (k := a.locate i) ((Memory.within_iff hpl).mpr (by omega))
      ((Memory.within_iff hql).mpr (by omega))

end Separated

/-- Runs that do not wrap are held by the regions as they were registered. -/
theorem Tiled.registerAll_fits (ha : a.Tiled) (hlt : a.size.toNat < 65535)
    (h : Host.registerAll a runs = .ok a') (hfits : ∀ run ∈ runs, run.Fits) :
    a'.Tiled ∧ a'.regions.map Region.run = a.regions.map Region.run ++ runs := by
  induction runs generalizing a with
  | nil =>
    cases h
    exact ⟨ha, (List.append_nil _).symm⟩
  | cons run runs ih =>
    obtain ⟨first, b, hreg, hrest⟩ := registerAll_cons h
    obtain ⟨hstride, hshort⟩ := fits_of_register (hfits run List.mem_cons_self) hreg
    have hword : UInt64.size = 18446744073709551616 := rfl
    obtain ⟨hb, hcount⟩ := ha.register hlt (by omega) hreg
    obtain ⟨hb', hruns⟩ := ih hb (register_size hreg).2 hrest
      fun s hs => hfits s (List.mem_cons_of_mem _ hs)
    refine ⟨hb', ?_⟩
    obtain ⟨-, -, -, rfl⟩ := register_eq_ok hreg
    rw [hruns, List.map_append, List.append_assoc]
    congr 1
    change Host.NodeRun.mk run.base (UInt64.ofNat run.stride).toNat run.count.toUInt16.toUInt64 ::
      runs = run :: runs
    rw [hstride, hcount]

/-- **Runs of nodes that lie apart are numbered one to one.** A run has to end below the end of the
address space: the address behind its last slot is the limit that a lookup compares with. -/
theorem numbers_of_registerAll (h : Host.registerAll {} runs = .ok a)
    (hfits : ∀ run ∈ runs, run.Fits) (hapart : runs.Pairwise Host.NodeRun.Apart) :
    a.Numbers runs := by
  have ha := separated_of_registerAll h hfits hapart
  obtain ⟨htiled, hruns⟩ := tiled_empty.registerAll_fits (by decide) h hfits
  have hruns : a.regions.map Region.run = runs := hruns
  exact {
    runs_eq := hruns
    tiled := htiled
    address_iff := fun i => by rw [← has_iff_address, htiled.has_iff]
    unknown_iff := fun i => by rw [address_eq_error_iff, htiled.has_iff, Nat.not_lt]
    inverse := fun i p => ha.indexOf?_eq_some_iff
    none_iff := fun p => by rw [ha.indexOf?_eq_none_iff, hruns]
    apart := fun i j p q hij => ha.address_apart hij
    in_memory := fun i p => ha.address_lt
    stray_iff := fun p => by simp [resolve_eq_error_iff]
    resolve_iff := fun p i => resolve_eq_ok_iff }

/-- Three runs with different spacing, the second of them below the first: the node behind the
first run is found at the start of the second, and an address inside a slot names none. -/
theorem numbers_of_registerAll_spaced : ∃ a,
    Host.registerAll {} [⟨8192, 24, 4⟩, ⟨4096, 16, 3⟩, ⟨65536, 512, 2⟩] = .ok a ∧
      a.Numbers [⟨8192, 24, 4⟩, ⟨4096, 16, 3⟩, ⟨65536, 512, 2⟩] ∧ a.size.toNat = 9 ∧
      a.indexOf? 4096 = some 4 ∧ a.indexOf? 4104 = none :=
  ⟨⟨[⟨8192, 24, 0, 4⟩, ⟨4096, 16, 4, 3⟩, ⟨65536, 512, 7, 2⟩], 9⟩, by decide,
    numbers_of_registerAll (by decide) (by decide) (by decide), rfl, by decide, by decide⟩

end Arena

end InterCore
