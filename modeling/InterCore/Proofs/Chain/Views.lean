import InterCore.Proofs.Chain.Represents

/-!
# What a well formed chain shows

Walks in both directions, the count, the test for emptiness and the neighbours of a node all show
the list that the head represents.

## Main results

* `Chain.Represents.walkTo_next`, `Chain.Represents.walkTo_prev`: the members in both directions.
* `Chain.Represents.neighbours`: the links of a node lead back to it.
* `Chain.Represents.isEmpty_eq`, `Chain.Represents.length_eq`, `Chain.Represents.members_eq`.
-/

namespace InterCore.Chain

open Memory

variable {a : Arena} {m : Memory} {h i j : NodeIndex} {xs : List NodeIndex}

theorem Joined.next_eq (hj : Joined a m i j) (ha : a.Separated) (hi : a.Has i) (hjreg : a.Has j) :
    Chain.next a m i = .ok j := by
  simp only [Chain.next, hi.address, bind, Except.bind, hj.next]
  exact ha.resolve_locate hjreg

theorem Joined.prev_eq (hj : Joined a m i j) (ha : a.Separated) (hi : a.Has i) (hjreg : a.Has j) :
    Chain.prev a m j = .ok i := by
  simp only [Chain.prev, hjreg.address, bind, Except.bind, hj.prev]
  exact ha.resolve_locate hi

/-- A walk along a chain of steps that ends at the first stop. -/
theorem walkTo_eq {step : NodeIndex → Except Halt NodeIndex} {l : List NodeIndex} {i : NodeIndex}
    (hl : (i :: (l ++ [h])).IsChain fun i j => step i = .ok j) (hh : h ∉ l) (limit : Nat) :
    walkTo step h limit i = .ok (l.take limit) := by
  induction limit generalizing l i with
  | zero => rfl
  | succ limit ih =>
    cases l with
    | nil =>
      have hstep : step i = .ok h := hl.rel
      simp only [walkTo, hstep, bind, Except.bind, if_true]
      rfl
    | cons x l =>
      obtain ⟨hstep, hl⟩ := List.isChain_cons_cons.mp hl
      have hx : x ≠ h := fun heq => hh (heq ▸ List.mem_cons_self)
      simp only [walkTo, hstep, bind, Except.bind, if_neg hx,
        ih hl fun hmem => hh (List.mem_cons_of_mem _ hmem)]
      rfl

/-- Counting forward links from `p` to the head. -/
theorem countTo_eq (ha : a.Separated) {l : List NodeIndex} {i : NodeIndex}
    (hl : (i :: (l ++ [h])).IsChain (Joined a m)) (hreg : ∀ j ∈ h :: l, a.Has j) (hh : h ∉ l)
    {fuel : Nat} (hfuel : l.length < fuel) (counted : Nat) :
    countTo m (a.locate h) fuel counted (m.next (a.locate i)) = .ok (counted + l.length) := by
  induction l generalizing i fuel counted with
  | nil =>
    obtain ⟨fuel, rfl⟩ := Nat.exists_eq_add_one_of_ne_zero (Nat.ne_of_gt hfuel)
    rw [(List.isChain_pair.mp hl).next, countTo, if_pos rfl]
    rfl
  | cons x l ih =>
    obtain ⟨fuel, rfl⟩ := Nat.exists_eq_add_one_of_ne_zero (Nat.ne_of_gt (Nat.zero_lt_of_lt hfuel))
    obtain ⟨hstep, hl⟩ := List.isChain_cons_cons.mp hl
    have hx : a.locate x ≠ a.locate h := by
      rw [Ne, ha.locate_inj (hreg x (by simp)) (hreg h (by simp))]
      exact fun heq => hh (heq ▸ List.mem_cons_self)
    rw [hstep.next, countTo, if_neg hx, ih hl (by grind) (by grind) (by simpa using hfuel)]
    rw [List.length_cons, Nat.add_assoc, Nat.add_comm 1]

/-- What the forward links lead to. -/
theorem membersFrom_eq (ha : a.Separated) {l : List NodeIndex} {i : NodeIndex}
    (hl : (i :: (l ++ [h])).IsChain (Joined a m)) (hreg : ∀ j ∈ h :: l, a.Has j) (hh : h ∉ l)
    (limit : Nat) :
    membersFrom a m (a.locate h) limit (m.next (a.locate i)) = (l.take limit).map some := by
  induction limit generalizing l i with
  | zero => rfl
  | succ limit ih =>
    cases l with
    | nil =>
      rw [(List.isChain_pair.mp hl).next, membersFrom, if_pos rfl]
      rfl
    | cons x l =>
      obtain ⟨hstep, hl⟩ := List.isChain_cons_cons.mp hl
      have hx : a.locate x ≠ a.locate h := by
        rw [Ne, ha.locate_inj (hreg x (by simp)) (hreg h (by simp))]
        exact fun heq => hh (heq ▸ List.mem_cons_self)
      rw [hstep.next, membersFrom, if_neg hx, ha.indexOf?_locate (hreg x (by simp))]
      simp only [ih hl (by grind) (by grind), List.take_succ_cons, List.map_cons]

/-- There are far fewer nodes than steps before a loop is called endless. -/
theorem length_lt_stepLimit (hnd : xs.Nodup) : xs.length < stepLimit := by
  have hsub : xs.map UInt16.toNat ⊆ List.range UInt16.size := by
    intro k hk
    obtain ⟨i, -, rfl⟩ := List.mem_map.mp hk
    exact List.mem_range.mpr i.toNat_lt
  have hinj : Function.Injective UInt16.toNat := fun _ _ => UInt16.toNat_inj.mp
  have hle := (List.subperm_of_subset (hnd.map hinj) hsub).length_le
  rw [List.length_map, List.length_range] at hle
  exact Nat.lt_of_le_of_lt hle (by decide)

namespace Represents

variable (hr : Represents a m h xs) (ha : a.Separated) (hreg : ∀ i ∈ h :: xs, a.Has i)
include hr ha hreg

/-- The links on both sides of a head or a member lead back to it. -/
theorem neighbours (hi : i ∈ h :: xs) :
    (∃ j ∈ h :: xs, Chain.next a m i = .ok j ∧ Chain.prev a m j = .ok i) ∧
      ∃ j ∈ h :: xs, Chain.prev a m i = .ok j ∧ Chain.next a m j = .ok i := by
  have hstep : ∀ {i j}, i ∈ h :: xs → j ∈ h :: xs → Joined a m i j →
      Chain.next a m i = .ok j ∧ Chain.prev a m j = .ok i := fun hi hj hij =>
    ⟨hij.next_eq ha (hreg _ hi) (hreg _ hj), hij.prev_eq ha (hreg _ hi) (hreg _ hj)⟩
  rcases List.mem_cons.mp hi with rfl | hmem
  · have hfirst : xs.headD i ∈ i :: xs := by cases xs <;> simp
    have hlast : xs.getLastD i ∈ i :: xs := List.getLastD_mem_cons
    exact ⟨⟨_, hfirst, hstep hi hfirst hr.joined_first⟩,
      ⟨_, hlast, (hstep hlast hi hr.joined_last).symm⟩⟩
  · obtain ⟨ys, zs, rfl⟩ := List.append_of_mem hmem
    obtain ⟨hbefore, hafter⟩ := hr.joined_member
    have hb : ys.getLastD h ∈ h :: (ys ++ i :: zs) := before_mem
    have hz : zs.headD h ∈ h :: (ys ++ i :: zs) := by cases zs <;> simp
    exact ⟨⟨_, hz, hstep hi hz hafter⟩, ⟨_, hb, (hstep hb hi hbefore).symm⟩⟩

theorem isEmpty_eq (hh : h ∉ xs) : isEmpty a m h = .ok xs.isEmpty := by
  have hhead := hreg h List.mem_cons_self
  simp only [Chain.isEmpty, hhead.address, bind, Except.bind, pure, Except.pure]
  cases xs with
  | nil => rw [(represents_nil.mp hr).next, beq_self_eq_true, List.isEmpty_nil]
  | cons x xs =>
    have hne : a.locate x ≠ a.locate h := by
      rw [Ne, ha.locate_inj (hreg x (by simp)) hhead]
      exact fun heq => hh (heq ▸ List.mem_cons_self)
    rw [hr.joined_first.next, List.headD_cons]
    simpa using hne

theorem length_eq (hnd : (h :: xs).Nodup) : length a m h = .ok xs.length := by
  obtain ⟨hh, hxs⟩ := List.nodup_cons.mp hnd
  simp only [Chain.length, (hreg h List.mem_cons_self).address, bind, Except.bind]
  rw [countTo_eq ha hr hreg hh (length_lt_stepLimit hxs), Nat.zero_add]

theorem members_eq (hh : h ∉ xs) : members a m h = (xs.take viewLimit).map some := by
  simp only [Chain.members, (hreg h List.mem_cons_self).address]
  exact membersFrom_eq ha hr hreg hh _

theorem walkTo_next (hh : h ∉ xs) (limit : Nat) :
    walkTo (Chain.next a m) h limit h = .ok (xs.take limit) := by
  refine walkTo_eq (List.IsChain.imp_of_mem_imp (fun i j hi hj hij => ?_) hr) hh limit
  exact hij.next_eq ha (hreg i (by grind)) (hreg j (by grind))

theorem walkTo_prev (hh : h ∉ xs) (limit : Nat) :
    walkTo (Chain.prev a m) h limit h = .ok (xs.reverse.take limit) := by
  have hrev : (h :: (xs.reverse ++ [h])).IsChain fun i j => Joined a m j i := by
    rw [← List.isChain_reverse]
    simpa [Represents] using hr
  refine walkTo_eq (List.IsChain.imp_of_mem_imp (fun i j hi hj hij => ?_) hrev) (by simpa) limit
  exact hij.prev_eq ha (hreg j (by grind)) (hreg i (by grind))

end Represents

end InterCore.Chain
