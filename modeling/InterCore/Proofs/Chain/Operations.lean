import InterCore.Proofs.Chain.Views

/-!
# Operations on well formed families

Each operation of a chain, in a family that is cut at the place where it works: it succeeds, the
family afterwards has the node inserted or taken out at that place, and only the links of the node
and of its two neighbours are written. Whatever is said of one family holds of every other chain in
it, since a family has no node twice.

## Main results

* `Chain.WellFormed.insertAfter`, `Chain.WellFormed.insertBefore`, `Chain.WellFormed.remove`: the
  splices.
* `Chain.WellFormed.popFront`, `Chain.WellFormed.popBack`: the ends of a chain.
* `Chain.WellFormed.linkBack`, `Chain.WellFormed.unlinkFront`: the same for the peer.
* `Chain.WellFormed.init`: a new chain.
-/

namespace InterCore.Chain

open Memory

variable {a : Arena} {m : Memory} {h n : NodeIndex} {xs ys : List NodeIndex} {F F₁ F₂ : Family}

namespace WellFormed

/-! ### Reading the place of a cut -/

theorem represents_middle (hw : WellFormed a m (F₁ ++ (h, xs) :: F₂)) : Represents a m h xs :=
  hw.represents (h, xs) (by simp)

theorem has_middle (hw : WellFormed a m (F₁ ++ (h, xs) :: F₂)) : ∀ i ∈ h :: xs, a.Has i :=
  fun _ hi => hw.has_of_mem (c := (h, xs)) (by simp) hi

theorem nodup_middle (hw : WellFormed a m (F₁ ++ (h, xs) :: F₂)) : (h :: xs).Nodup :=
  hw.nodup_of_mem (c := (h, xs)) (by simp)

theorem has_before (hw : WellFormed a m (F₁ ++ (h, xs ++ ys) :: F₂)) : a.Has (xs.getLastD h) :=
  hw.has_middle _ before_mem

theorem has_after (hw : WellFormed a m (F₁ ++ (h, xs ++ ys) :: F₂)) : a.Has (ys.headD h) :=
  hw.has_middle _ after_mem

theorem ne_of_new (hnew : n ∉ Family.nodes (F₁ ++ (h, xs ++ ys) :: F₂)) :
    n ≠ xs.getLastD h ∧ n ≠ ys.headD h := by
  have hmem : ∀ i ∈ h :: (xs ++ ys), i ∈ Family.nodes (F₁ ++ (h, xs ++ ys) :: F₂) :=
    fun i hi => Family.mem_nodes_of_mem (c := (h, xs ++ ys)) (by simp) hi
  exact ⟨fun heq => hnew (heq ▸ hmem _ before_mem), fun heq => hnew (heq ▸ hmem _ after_mem)⟩

variable (ha : a.Separated)
include ha

/-! ### Insertion -/

theorem insertAfter (hw : WellFormed a m (F₁ ++ (h, xs ++ ys) :: F₂)) (hn : a.Has n)
    (hnew : n ∉ Family.nodes (F₁ ++ (h, xs ++ ys) :: F₂)) :
    ∃ m', Chain.insertAfter a m n (xs.getLastD h) = .ok m' ∧
      WellFormed a m' (F₁ ++ (h, xs ++ n :: ys) :: F₂) ∧
      AgreeOff (a.Links (· ∈ [xs.getLastD h, n, ys.headD h])) m m' := by
  obtain ⟨hnb, hnr⟩ := ne_of_new hnew
  obtain ⟨m', hrun, hs⟩ := insertAfter_spliced ha hw.has_before hn hw.has_after hnb hnr
    hw.represents_middle.joined.next
  exact ⟨m', hrun, hw.splice hn hnew hs, hs.agree⟩

theorem insertBefore (hw : WellFormed a m (F₁ ++ (h, xs ++ ys) :: F₂)) (hn : a.Has n)
    (hnew : n ∉ Family.nodes (F₁ ++ (h, xs ++ ys) :: F₂)) :
    ∃ m', Chain.insertBefore a m n (ys.headD h) = .ok m' ∧
      WellFormed a m' (F₁ ++ (h, xs ++ n :: ys) :: F₂) ∧
      AgreeOff (a.Links (· ∈ [xs.getLastD h, n, ys.headD h])) m m' := by
  obtain ⟨hnb, hnr⟩ := ne_of_new hnew
  obtain ⟨m', hrun, hs⟩ := insertBefore_spliced ha hw.has_before hn hw.has_after hnb hnr
    hw.represents_middle.joined.prev
  exact ⟨m', hrun, hw.splice hn hnew hs, hs.agree⟩

/-- The peer appends a node. -/
theorem linkBack (hw : WellFormed a m (F₁ ++ (h, xs) :: F₂)) (hn : a.Has n)
    (hnew : n ∉ Family.nodes (F₁ ++ (h, xs) :: F₂)) :
    WellFormed a (Peer.linkBack m (a.locate h) (a.locate n)) (F₁ ++ (h, xs ++ [n]) :: F₂) ∧
      AgreeOff (a.Links (· ∈ [xs.getLastD h, n, h])) m
        (Peer.linkBack m (a.locate h) (a.locate n)) := by
  rw [← List.append_nil xs] at hw hnew
  obtain ⟨hnb, hnr⟩ := ne_of_new hnew
  have hs := Peer.linkBack_spliced ha hw.has_before hn hw.has_after hnb hnr
    hw.represents_middle.joined.prev
  exact ⟨hw.splice hn hnew hs, hs.agree⟩

/-! ### Removal -/

theorem remove (hw : WellFormed a m (F₁ ++ (h, xs ++ n :: ys) :: F₂)) :
    ∃ m', Chain.remove a m n = .ok m' ∧ WellFormed a m' (F₁ ++ (h, xs ++ ys) :: F₂) ∧
      AgreeOff (a.Links (· ∈ [xs.getLastD h, ys.headD h])) m m' := by
  obtain ⟨hbefore, hafter⟩ := hw.represents_middle.joined_member
  have hn : a.Has n := hw.has_middle n (by simp)
  have hr : a.Has (ys.headD h) := hw.has_middle _ (by cases ys <;> simp)
  obtain ⟨m', hrun, hs⟩ := remove_bypassed ha hw.has_before hn hr hbefore.prev hafter.next
  exact ⟨m', hrun, hw.bypass hs, hs.agree⟩

/-- The first member of a chain, if there is one. -/
theorem popFront_nil (hw : WellFormed a m (F₁ ++ (h, []) :: F₂)) :
    Chain.popFront a m h = .ok (none, m) := by
  simp only [Chain.popFront, hw.represents_middle.isEmpty_eq ha hw.has_middle (by simp), bind,
    Except.bind, List.isEmpty_nil]
  rfl

theorem popBack_nil (hw : WellFormed a m (F₁ ++ (h, []) :: F₂)) :
    Chain.popBack a m h = .ok (none, m) := by
  simp only [Chain.popBack, hw.represents_middle.isEmpty_eq ha hw.has_middle (by simp), bind,
    Except.bind, List.isEmpty_nil]
  rfl

theorem popFront (hw : WellFormed a m (F₁ ++ (h, n :: xs) :: F₂)) :
    ∃ m', Chain.popFront a m h = .ok (some n, m') ∧ WellFormed a m' (F₁ ++ (h, xs) :: F₂) ∧
      AgreeOff (a.Links (· ∈ [h, xs.headD h])) m m' := by
  have hreg := hw.has_middle
  have hh := (List.nodup_cons.mp hw.nodup_middle).1
  obtain ⟨m', hrun, hrest⟩ := @remove a m h n [] xs F₁ F₂ ha hw
  refine ⟨m', ?_, hrest⟩
  simp only [Chain.popFront, hw.represents_middle.isEmpty_eq ha hreg hh, bind, Except.bind,
    List.isEmpty_cons, (hreg h List.mem_cons_self).address, hw.represents_middle.joined_first.next,
    List.headD_cons, ha.resolve_locate (hreg n (by simp)), hrun]
  rfl

theorem popBack (hw : WellFormed a m (F₁ ++ (h, xs ++ [n]) :: F₂)) :
    ∃ m', Chain.popBack a m h = .ok (some n, m') ∧ WellFormed a m' (F₁ ++ (h, xs) :: F₂) ∧
      AgreeOff (a.Links (· ∈ [xs.getLastD h, h])) m m' := by
  have hreg := hw.has_middle
  have hh := (List.nodup_cons.mp hw.nodup_middle).1
  obtain ⟨m', hrun, hw', hagree⟩ := @remove a m h n xs [] F₁ F₂ ha hw
  rw [List.append_nil] at hw'
  refine ⟨m', ?_, hw', hagree⟩
  have hne : (xs ++ [n]).isEmpty = false := by simp
  simp only [Chain.popBack, hw.represents_middle.isEmpty_eq ha hreg hh, bind, Except.bind,
    hne, (hreg h List.mem_cons_self).address, hw.represents_middle.joined_last.prev,
    List.getLastD_concat, ha.resolve_locate (hreg n (by simp)), hrun]
  rfl

/-- The peer takes the first member out. -/
theorem unlinkFront (hw : WellFormed a m (F₁ ++ (h, n :: xs) :: F₂)) :
    ∃ m', Peer.unlinkFront m (a.locate h) = (some (a.locate n), m') ∧
      WellFormed a m' (F₁ ++ (h, xs) :: F₂) ∧ AgreeOff (a.Links (· ∈ [h, xs.headD h])) m m' := by
  have hreg := hw.has_middle
  have hnh : n ≠ h := fun heq => (List.nodup_cons.mp hw.nodup_middle).1 (heq ▸ List.mem_cons_self)
  obtain ⟨hbefore, hafter⟩ := @Represents.joined_member a m h n [] xs hw.represents_middle
  have hr : a.Has (xs.headD h) := hreg _ (by cases xs <;> simp)
  obtain ⟨m', hrun, hs⟩ := Peer.unlinkFront_bypassed ha (hreg n (by simp)) (hreg h (by simp)) hr hnh
    hbefore.next hafter.next
  exact ⟨m', hrun, @bypass a m m' h n [] xs F₁ F₂ hw hs, hs.agree⟩

omit ha in
theorem unlinkFront_nil (hw : WellFormed a m (F₁ ++ (h, []) :: F₂)) :
    Peer.unlinkFront m (a.locate h) = (none, m) :=
  Peer.unlinkFront_self hw.represents_middle.joined_first.next

/-! ### New chains -/

/-- A head that is in no chain becomes an empty one. -/
theorem init (hw : WellFormed a m F) (hh : a.Has h) (hnew : h ∉ F.nodes) :
    ∃ m', Chain.init a m h = .ok m' ∧ WellFormed a m' ((h, []) :: F) ∧
      AgreeOff (a.Links (· = h)) m m' := by
  have hs := bypassed_of_stores (m := m) ha hh hh
  have hne : ∀ i ∈ F.nodes, i ≠ h := fun i hi heq => hnew (heq ▸ hi)
  refine ⟨(m.setNext (a.locate h) (a.locate h)).setPrev (a.locate h) (a.locate h), ?_,
    ⟨fun i hi => ?_, ?_, ?_⟩, ?_⟩
  · rw [Chain.init, hh.address]
    rfl
  · rcases List.mem_cons.mp hi with rfl | hi
    · exact hh
    · exact hw.registered i (by simpa [Family.nodes] using hi)
  · rw [Family.nodes_cons, List.nil_append, List.nodup_cons]
    exact ⟨hnew, hw.nodup⟩
  · rintro c (_ | ⟨_, hc⟩)
    · exact represents_nil.mpr hs.joined
    · refine (hw.represents c hc).congr (fun i hi => ?_) (fun i hi => ?_)
      · exact hs.next_eq i (hw.has_of_mem hc hi) (hne i (Family.mem_nodes_of_mem hc hi))
      · exact hs.prev_eq i (hw.has_of_mem hc hi) (hne i (Family.mem_nodes_of_mem hc hi))
  · exact hs.agree.mono fun k hk => hk.mono (by simp)

/-- An empty chain stays one. -/
theorem init_nil (hw : WellFormed a m (F₁ ++ (h, []) :: F₂)) :
    ∃ m', Chain.init a m h = .ok m' ∧ WellFormed a m' (F₁ ++ (h, []) :: F₂) ∧
      AgreeOff (a.Links (· = h)) m m' := by
  have hh := hw.has_middle h List.mem_cons_self
  rw [middle_iff] at hw
  have hnd := hw.nodup
  rw [Family.nodes_cons, List.nil_append, List.nodup_cons] at hnd
  obtain ⟨m', hrun, hw', hagree⟩ := init ha hw.tail hh hnd.1
  exact ⟨m', hrun, middle_iff.mpr hw', hagree⟩

end WellFormed

end InterCore.Chain
