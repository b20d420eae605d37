import InterCore.Proofs.Chain.Links
import Mathlib.Data.List.Chain
import Mathlib.Data.List.Nodup
import Mathlib.Data.Fintype.Card

/-!
# Chains as lists

A head represents a list when the head, the members in order and the head again follow one another.
Nothing is said of the links of other nodes, so what a removed node still holds does not matter.
Several heads are well formed together when no node occurs twice among all heads and members; a
splice then touches one of the lists and leaves the others as they are.

## Main definitions

* `Chain.Represents`: the circular chain of a head as a list.
* `Chain.Family`, `Chain.WellFormed`: several disjoint chains.

## Main results

* `Chain.WellFormed.splice`, `Chain.WellFormed.bypass`: inserting and removing a node.
* `Chain.WellFormed.of_agreeOff`: stores elsewhere keep the family.
-/

namespace InterCore.Chain

open Memory

variable {a : Arena} {m m' : Memory} {h n : NodeIndex} {xs ys : List NodeIndex}

/-! ### One chain -/

/-- The head, the members `xs` in this order and the head again follow one another. -/
def Represents (a : Arena) (m : Memory) (h : NodeIndex) (xs : List NodeIndex) : Prop :=
  (h :: (xs ++ [h])).IsChain (Joined a m)

/-- The chain is cut between two members: it consists of the part up to the last node before the
cut, the part from the first node after it, and the links across. -/
theorem represents_append : Represents a m h (xs ++ ys) ↔
    (h :: xs).IsChain (Joined a m) ∧ (ys ++ [h]).IsChain (Joined a m) ∧
      Joined a m (xs.getLastD h) (ys.headD h) := by
  have hlast : ∀ x, x ∈ (h :: xs).getLast? ↔ x = xs.getLastD h := by
    simp [List.getLast?_cons, eq_comm]
  have hhead : ∀ y, y ∈ (ys ++ [h]).head? ↔ y = ys.headD h := by
    cases ys <;> simp [eq_comm]
  rw [Represents, List.append_assoc, ← List.cons_append, List.isChain_append]
  simp only [hlast, hhead, forall_eq]

theorem represents_nil : Represents a m h [] ↔ Joined a m h h := by
  simp [Represents]

theorem Represents.joined (hr : Represents a m h (xs ++ ys)) :
    Joined a m (xs.getLastD h) (ys.headD h) :=
  (represents_append.mp hr).2.2

/-- The head is joined to the first member. -/
theorem Represents.joined_first (hr : Represents a m h xs) : Joined a m h (xs.headD h) :=
  @Represents.joined _ _ _ [] _ hr

/-- The last member is joined to the head. -/
theorem Represents.joined_last (hr : Represents a m h xs) : Joined a m (xs.getLastD h) h :=
  @Represents.joined _ _ _ _ [] (by rwa [List.append_nil])

/-- Members are joined to the nodes on both sides. -/
theorem Represents.joined_member (hr : Represents a m h (xs ++ n :: ys)) :
    Joined a m (xs.getLastD h) n ∧ Joined a m n (ys.headD h) := by
  refine ⟨hr.joined, ?_⟩
  rw [List.append_cons] at hr
  have := hr.joined
  rwa [List.getLastD_concat] at this

theorem before_mem : xs.getLastD h ∈ h :: (xs ++ ys) :=
  (List.sublist_append_left _ _ |>.cons_cons h).subset List.getLastD_mem_cons

theorem after_mem : ys.headD h ∈ h :: (xs ++ ys) := by
  cases ys <;> simp

/-- Steps are kept when they are kept from all nodes but the last to all nodes but the first. -/
theorem isChain_imp {R S : NodeIndex → NodeIndex → Prop} {l : List NodeIndex} (hl : l.IsChain R)
    (himp : ∀ i ∈ l.dropLast, ∀ j ∈ l.tail, R i j → S i j) : l.IsChain S := by
  induction hl with grind

/-- The nodes around a cut occur at the cut only. -/
theorem ne_of_nodup (hnd : (h :: (xs ++ ys)).Nodup) :
    (∀ i ∈ (h :: xs).dropLast, i ≠ xs.getLastD h) ∧ (∀ j ∈ xs, j ≠ ys.headD h) ∧
      (∀ i ∈ ys, i ≠ xs.getLastD h) ∧ ∀ j ∈ (ys ++ [h]).tail, j ≠ ys.headD h := by
  refine ⟨?_, ?_, ?_, ?_⟩
  · intro i hi
    have hpre : (h :: xs).Nodup := hnd.sublist (List.sublist_append_left _ _ |>.cons_cons h)
    rw [← List.dropLast_append_getLast (List.cons_ne_nil h xs), List.nodup_append] at hpre
    rw [← List.getLast_eq_getLastD (List.cons_ne_nil h xs)]
    exact hpre.2.2 i hi _ (List.mem_singleton.mpr rfl)
  · rintro j hj rfl
    cases ys with
    | nil => exact (List.nodup_cons.mp hnd).1 (List.mem_append_left _ hj)
    | cons y ys =>
      exact (List.nodup_append.mp (List.nodup_cons.mp hnd).2).2.2 _ hj _ List.mem_cons_self rfl
  · rintro i hi rfl
    rcases List.mem_cons.mp (List.getLastD_mem_cons (l := xs) (a := h)) with heq | hmem
    · exact (List.nodup_cons.mp hnd).1 (List.mem_append_right _ (heq ▸ hi))
    · exact (List.nodup_append.mp (List.nodup_cons.mp hnd).2).2.2 _ hmem _ hi rfl
  · rintro j hj rfl
    cases ys with
    | nil => cases hj
    | cons y ys =>
      have hys := (List.nodup_append.mp (List.nodup_cons.mp hnd).2).2.1
      rcases List.mem_append.mp hj with hmem | hmem
      · exact (List.nodup_cons.mp hys).1 hmem
      · have heq : y = h := List.mem_singleton.mp hmem
        exact (List.nodup_cons.mp hnd).1 (List.mem_append_right _ (heq ▸ List.mem_cons_self))

/-- The chain is read from the links of its nodes only. -/
theorem Represents.congr (hr : Represents a m h xs)
    (hnext : ∀ i ∈ h :: xs, m'.next (a.locate i) = m.next (a.locate i))
    (hprev : ∀ i ∈ h :: xs, m'.prev (a.locate i) = m.prev (a.locate i)) :
    Represents a m' h xs := by
  refine List.IsChain.imp_of_mem_imp (fun i j hi hj hij => ⟨?_, ?_⟩) hr
  · rw [hnext i (by grind), hij.next]
  · rw [hprev j (by grind), hij.prev]

/-- The two parts of a chain around a cut do not depend on the links across. -/
theorem parts_congr (hnd : (h :: (xs ++ ys)).Nodup) (hbefore : (h :: xs).IsChain (Joined a m))
    (hafter : (ys ++ [h]).IsChain (Joined a m))
    (hnext : ∀ i ∈ h :: (xs ++ ys), i ≠ xs.getLastD h →
      m'.next (a.locate i) = m.next (a.locate i))
    (hprev : ∀ i ∈ h :: (xs ++ ys), i ≠ ys.headD h →
      m'.prev (a.locate i) = m.prev (a.locate i)) :
    (h :: xs).IsChain (Joined a m') ∧ (ys ++ [h]).IsChain (Joined a m') := by
  obtain ⟨hne₁, hne₂, hne₃, hne₄⟩ := ne_of_nodup hnd
  refine ⟨isChain_imp hbefore fun i hi j hj hij => ⟨?_, ?_⟩,
    isChain_imp hafter fun i hi j hj hij => ⟨?_, ?_⟩⟩
  · have hmem := List.mem_of_mem_dropLast hi
    rw [hnext i (by grind) (hne₁ i hi), hij.next]
  · rw [hprev j (by grind) (hne₂ j hj), hij.prev]
  · rw [List.dropLast_concat] at hi
    rw [hnext i (by grind) (hne₃ i hi), hij.next]
  · have hmem := List.mem_of_mem_tail hj
    rw [hprev j (by grind) (hne₄ j hj), hij.prev]

/-- A node linked across a cut lies at the cut. -/
theorem Represents.splice_of_links (hr : Represents a m h (xs ++ ys))
    (hnd : (h :: (xs ++ ys)).Nodup) (hbefore : Joined a m' (xs.getLastD h) n)
    (hafter : Joined a m' n (ys.headD h))
    (hnext : ∀ i ∈ h :: (xs ++ ys), i ≠ xs.getLastD h →
      m'.next (a.locate i) = m.next (a.locate i))
    (hprev : ∀ i ∈ h :: (xs ++ ys), i ≠ ys.headD h →
      m'.prev (a.locate i) = m.prev (a.locate i)) :
    Represents a m' h (xs ++ n :: ys) := by
  obtain ⟨hleft, hright, -⟩ := represents_append.mp hr
  obtain ⟨hleft, hright⟩ := parts_congr hnd hleft hright hnext hprev
  refine represents_append.mpr ⟨hleft, List.IsChain.cons hright fun r hr' => ?_, hbefore⟩
  have : r = ys.headD h := by cases ys <;> simp_all
  rw [this]
  exact hafter

/-- Joining the neighbours of a member takes it out. -/
theorem Represents.bypass_of_links (hr : Represents a m h (xs ++ n :: ys))
    (hnd : (h :: (xs ++ n :: ys)).Nodup) (hjoined : Joined a m' (xs.getLastD h) (ys.headD h))
    (hnext : ∀ i ∈ h :: (xs ++ ys), i ≠ xs.getLastD h →
      m'.next (a.locate i) = m.next (a.locate i))
    (hprev : ∀ i ∈ h :: (xs ++ ys), i ≠ ys.headD h →
      m'.prev (a.locate i) = m.prev (a.locate i)) :
    Represents a m' h (xs ++ ys) := by
  have hsub : (h :: (xs ++ ys)).Sublist (h :: (xs ++ n :: ys)) :=
    ((List.sublist_cons_self n ys).append_left xs).cons_cons h
  obtain ⟨hleft, hright, -⟩ := represents_append.mp hr
  obtain ⟨hleft, hright⟩ := parts_congr (hnd.sublist hsub) hleft hright.tail hnext hprev
  exact represents_append.mpr ⟨hleft, hright, hjoined⟩

/-- **A node linked across a cut lies at the cut.** -/
theorem Represents.splice (hr : Represents a m h (xs ++ ys)) (hnd : (h :: (xs ++ ys)).Nodup)
    (hreg : ∀ i ∈ h :: (xs ++ ys), a.Has i) (hn : n ∉ h :: (xs ++ ys))
    (hs : Spliced a m m' (xs.getLastD h) n (ys.headD h)) : Represents a m' h (xs ++ n :: ys) := by
  have hne : ∀ i ∈ h :: (xs ++ ys), i ≠ n := fun i hi heq => hn (heq ▸ hi)
  exact hr.splice_of_links hnd hs.before hs.after
    (fun i hi hib => hs.next_eq i (hreg i hi) (hne i hi) hib)
    fun i hi hir => hs.prev_eq i (hreg i hi) (hne i hi) hir

/-- **Joining the neighbours of a member takes it out.** -/
theorem Represents.bypass (hr : Represents a m h (xs ++ n :: ys))
    (hnd : (h :: (xs ++ n :: ys)).Nodup) (hreg : ∀ i ∈ h :: (xs ++ n :: ys), a.Has i)
    (hs : Bypassed a m m' (xs.getLastD h) (ys.headD h)) : Represents a m' h (xs ++ ys) := by
  have hsub : h :: (xs ++ ys) ⊆ h :: (xs ++ n :: ys) :=
    (((List.sublist_cons_self n ys).append_left xs).cons_cons h).subset
  exact hr.bypass_of_links hnd hs.joined
    (fun i hi hib => hs.next_eq i (hreg i (hsub hi)) hib)
    fun i hi hir => hs.prev_eq i (hreg i (hsub hi)) hir

/-! ### Families of chains -/

/-- Heads with their members. -/
abbrev Family := List (NodeIndex × List NodeIndex)

/-- All heads and members of a family. -/
def Family.nodes (F : Family) : List NodeIndex :=
  F.flatMap fun c => c.1 :: c.2

@[simp] theorem Family.nodes_cons (c : NodeIndex × List NodeIndex) (F : Family) :
    Family.nodes (c :: F) = c.1 :: (c.2 ++ F.nodes) := by
  simp [Family.nodes]

@[simp] theorem Family.nodes_append (F F' : Family) :
    Family.nodes (F ++ F') = F.nodes ++ F'.nodes :=
  List.flatMap_append

theorem Family.mem_nodes_of_mem {F : Family} {c : NodeIndex × List NodeIndex} (hc : c ∈ F)
    {i : NodeIndex} (hi : i ∈ c.1 :: c.2) : i ∈ F.nodes :=
  List.mem_flatMap.mpr ⟨c, hc, hi⟩

/-- Every head of the family represents its list, and no node occurs twice. -/
structure WellFormed (a : Arena) (m : Memory) (F : Family) : Prop where
  registered : ∀ i ∈ F.nodes, a.Has i
  nodup : F.nodes.Nodup
  represents : ∀ c ∈ F, Represents a m c.1 c.2

namespace WellFormed

variable {F F₁ F₂ : Family}

theorem nil : WellFormed a m [] :=
  ⟨fun _ hi => absurd hi List.not_mem_nil, List.nodup_nil, fun _ hc => absurd hc List.not_mem_nil⟩

theorem nodup_of_mem (hw : WellFormed a m F) {c : NodeIndex × List NodeIndex} (hc : c ∈ F) :
    (c.1 :: c.2).Nodup := by
  have := hw.nodup
  rw [Family.nodes, List.nodup_flatMap] at this
  exact this.1 c hc

theorem has_of_mem (hw : WellFormed a m F) {c : NodeIndex × List NodeIndex} (hc : c ∈ F)
    {i : NodeIndex} (hi : i ∈ c.1 :: c.2) : a.Has i :=
  hw.registered i (Family.mem_nodes_of_mem hc hi)

/-- The order of the chains of a family does not matter. -/
theorem perm {F' : Family} (hw : WellFormed a m F) (hp : F.Perm F') : WellFormed a m F' where
  registered i hi := hw.registered i ((hp.flatMap_right _).mem_iff.mpr hi)
  nodup := (hp.flatMap_right _).nodup_iff.mp hw.nodup
  represents c hc := hw.represents c (hp.mem_iff.mpr hc)

theorem middle_iff {c : NodeIndex × List NodeIndex} :
    WellFormed a m (F₁ ++ c :: F₂) ↔ WellFormed a m (c :: (F₁ ++ F₂)) :=
  ⟨fun hw => hw.perm List.perm_middle, fun hw => hw.perm List.perm_middle.symm⟩

theorem tail {c : NodeIndex × List NodeIndex} (hw : WellFormed a m (c :: F)) :
    WellFormed a m F where
  registered i hi := hw.registered i (by simp [hi])
  nodup := by
    have hnd := hw.nodup
    rw [Family.nodes_cons, ← List.cons_append, List.nodup_append] at hnd
    exact hnd.2.1
  represents d hd := hw.represents d (List.mem_cons_of_mem _ hd)

/-- Stores that avoid the links of the family keep it. -/
theorem of_agreeOff {S : Address → Prop} (hw : WellFormed a m F) (hm : AgreeOff S m m')
    (hS : ∀ k, S k → ¬ a.Links (· ∈ F.nodes) k) : WellFormed a m' F where
  registered := hw.registered
  nodup := hw.nodup
  represents c hc := by
    refine (hw.represents c hc).congr (fun i hi => ?_) (fun i hi => ?_)
    · exact hm.pointer_eq fun k hk hSk =>
        hS k hSk ⟨i, Family.mem_nodes_of_mem hc hi, hk.mono (by decide)⟩
    · exact hm.pointer_eq fun k hk hSk =>
        hS k hSk ⟨i, Family.mem_nodes_of_mem hc hi, hk.of_add (by decide)⟩

/-- A store at the links of one chain keeps the other chains. -/
theorem others_congr {c : NodeIndex × List NodeIndex} (hw : WellFormed a m (c :: F))
    (hnext : ∀ i ∈ F.nodes, i ∉ c.1 :: c.2 → m'.next (a.locate i) = m.next (a.locate i))
    (hprev : ∀ i ∈ F.nodes, i ∉ c.1 :: c.2 → m'.prev (a.locate i) = m.prev (a.locate i)) :
    ∀ d ∈ F, Represents a m' d.1 d.2 := by
  have hnd := hw.nodup
  rw [Family.nodes_cons, ← List.cons_append, List.nodup_append] at hnd
  intro d hd
  refine (hw.represents d (List.mem_cons_of_mem _ hd)).congr (fun i hi => ?_) (fun i hi => ?_)
  · have hi' := Family.mem_nodes_of_mem hd hi
    exact hnext i hi' fun hc => hnd.2.2 i hc i hi' rfl
  · have hi' := Family.mem_nodes_of_mem hd hi
    exact hprev i hi' fun hc => hnd.2.2 i hc i hi' rfl

theorem nodes_insert (h n : NodeIndex) (xs ys : List NodeIndex) (F : Family) :
    (Family.nodes ((h, xs ++ n :: ys) :: F)).Perm (n :: Family.nodes ((h, xs ++ ys) :: F)) := by
  simp only [Family.nodes_cons, ← List.cons_append, List.append_assoc]
  exact List.perm_middle

theorem splice_cons (hw : WellFormed a m ((h, xs ++ ys) :: F)) (hn : a.Has n)
    (hnew : n ∉ Family.nodes ((h, xs ++ ys) :: F))
    (hs : Spliced a m m' (xs.getLastD h) n (ys.headD h)) :
    WellFormed a m' ((h, xs ++ n :: ys) :: F) := by
  have hperm := nodes_insert h n xs ys F
  have hne : ∀ i ∈ F.nodes, i ≠ n := by
    rintro i hi rfl
    exact hnew (by simp [hi])
  refine ⟨fun i hi => ?_, ?_, ?_⟩
  · rcases List.mem_cons.mp (hperm.mem_iff.mp hi) with rfl | hi
    · exact hn
    · exact hw.registered i hi
  · rw [hperm.nodup_iff, List.nodup_cons]
    exact ⟨hnew, hw.nodup⟩
  · have hreg : ∀ i ∈ h :: (xs ++ ys), a.Has i := fun i hi => hw.has_of_mem List.mem_cons_self hi
    rintro d (_ | ⟨_, hd⟩)
    · exact (hw.represents _ List.mem_cons_self).splice (hw.nodup_of_mem List.mem_cons_self) hreg
        (fun hi => hnew (Family.mem_nodes_of_mem List.mem_cons_self hi)) hs
    · refine hw.others_congr (fun i hi hic => ?_) (fun i hi hic => ?_) d hd
      · have hi' : a.Has i := hw.registered i (by simp [hi])
        exact hs.next_eq i hi' (hne i hi) fun heq => hic (heq ▸ before_mem)
      · have hi' : a.Has i := hw.registered i (by simp [hi])
        exact hs.prev_eq i hi' (hne i hi) fun heq => hic (heq ▸ after_mem)

theorem bypass_cons (hw : WellFormed a m ((h, xs ++ n :: ys) :: F))
    (hs : Bypassed a m m' (xs.getLastD h) (ys.headD h)) :
    WellFormed a m' ((h, xs ++ ys) :: F) := by
  have hperm := nodes_insert h n xs ys F
  have hsub : h :: (xs ++ ys) ⊆ h :: (xs ++ n :: ys) :=
    (((List.sublist_cons_self n ys).append_left xs).cons_cons h).subset
  refine ⟨fun i hi => ?_, ?_, ?_⟩
  · exact hw.registered i (hperm.mem_iff.mpr (List.mem_cons_of_mem _ hi))
  · exact (List.nodup_cons.mp (hperm.nodup_iff.mp hw.nodup)).2
  · have hreg : ∀ i ∈ h :: (xs ++ n :: ys), a.Has i :=
      fun i hi => hw.has_of_mem List.mem_cons_self hi
    rintro d (_ | ⟨_, hd⟩)
    · exact (hw.represents _ List.mem_cons_self).bypass (hw.nodup_of_mem List.mem_cons_self) hreg hs
    · refine hw.others_congr (fun i hi hic => ?_) (fun i hi hic => ?_) d hd
      · have hi' : a.Has i := hw.registered i (by simp [hi])
        exact hs.next_eq i hi' fun heq => hic (hsub (heq ▸ before_mem))
      · have hi' : a.Has i := hw.registered i (by simp [hi])
        exact hs.prev_eq i hi' fun heq => hic (hsub (heq ▸ after_mem))

/-- **Inserting a node that is in no chain.** -/
theorem splice (hw : WellFormed a m (F₁ ++ (h, xs ++ ys) :: F₂)) (hn : a.Has n)
    (hnew : n ∉ Family.nodes (F₁ ++ (h, xs ++ ys) :: F₂))
    (hs : Spliced a m m' (xs.getLastD h) n (ys.headD h)) :
    WellFormed a m' (F₁ ++ (h, xs ++ n :: ys) :: F₂) := by
  rw [middle_iff] at hw ⊢
  refine hw.splice_cons hn ?_ hs
  rwa [Family.nodes, (List.perm_middle.flatMap_right _).mem_iff] at hnew

/-- **Taking a member out.** -/
theorem bypass (hw : WellFormed a m (F₁ ++ (h, xs ++ n :: ys) :: F₂))
    (hs : Bypassed a m m' (xs.getLastD h) (ys.headD h)) :
    WellFormed a m' (F₁ ++ (h, xs ++ ys) :: F₂) := by
  rw [middle_iff] at hw ⊢
  exact hw.bypass_cons hs

end WellFormed

end InterCore.Chain
