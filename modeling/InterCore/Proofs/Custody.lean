import InterCore.Proofs.Postings
import InterCore.Proofs.Staging
import Mathlib.Data.Fintype.EquivFin

/-!
# Custody of buffers

A box that owns a buffer is the only one that does, and no list holds the buffer meanwhile. Here
this is said of any board: any registered nodes, any number of boxes, any lists beside the two over
which buffers are given back. A buffer changes hands by the programs of boxes alone, and one that
leaves its box for good joins the given-back ones, at the end.

## Main definitions

* `Board.boxAt`, `Board.boxPlaces`, `Board.boxed`: the boxes of a board, and what they own.
* `Board.Lists`: the lists of given-back buffers, as far as no box changes them.
* `Board.InCustody`: every buffer is in one box, on its way, or in a list.
* `Event.Tells`: the observer is told of a number of given-back buffers.

## Main results

* `Board.InCustody.giveBack`: a buffer on its way joins the given-back ones.
* `Board.InCustody.releaseBox`, `Board.InCustody.moveBox`: what boxes lose is given back.
* `Board.InCustody.shutdown`: a shutdown gives back what the boxes own, place by place.
-/

namespace InterCore

open Memory

variable {σ : Type}

/-! ### The boxes of a board -/

/-- Another inbox of one endpoint leaves the other endpoint alone. -/
theorem Host.receiver_withInbox_of_ne {h : Host} {e e' : Endpoint} {ring : Inbox} (he : e' ≠ e) :
    (h.withInbox e ring).receiver e' = h.receiver e' := by
  cases e <;> cases e' <;> first | rfl | exact absurd rfl he

/-- The place of a box, with the least counter that stands for its slot. -/
def BoxRef.place : BoxRef → BoxRef
  | application i => application i
  | inbox e c => inbox e (UInt64.ofNat (Ring.index 5 c).val)

/-- The slots of the inboxes, those of the system first, from the last to the first. -/
def slotPlaces : List BoxRef :=
  [Endpoint.system, Endpoint.ble].flatMap fun e =>
    (List.range 32).reverse.map fun c => .inbox e (UInt64.ofNat c)

namespace Board

section Boxes

variable (b : Board σ)

/-- The box at a place. -/
def boxAt : BoxRef → Box
  | .application i => b.boxes.getD i Box.empty
  | .inbox e c => (b.host.receiver e).inbox.slot c

/-- Another box lies at a place. -/
def putBox (r : BoxRef) (x : Box) : Board σ :=
  match r with
  | .application i => { b with boxes := b.boxes.setIfInBounds i x }
  | .inbox e c => { b with host := b.host.withInbox e ((b.host.receiver e).inbox.setSlot c x) }

/-- There is a box at a place. -/
def HasBox : BoxRef → Prop
  | .application i => i < b.boxes.size
  | .inbox _ _ => True

/-- The places of boxes: those of the application in order, then the slots of the inboxes. -/
def boxPlaces : List BoxRef :=
  (List.range b.boxes.size).map .application ++ slotPlaces

/-- The nodes in the boxes, place by place. -/
def boxed : List NodeIndex := b.boxPlaces.filterMap fun r => (b.boxAt r).node

theorem run_boxAt (r : BoxRef) : (Host.box r).run b = .ok (b.boxAt r) b := by
  cases r <;> rfl

theorem run_putBox (r : BoxRef) (x : Box) : (Host.setBox r x).run b = .ok () (b.putBox r x) := by
  cases r <;> rfl

end Boxes

variable {b b' : Board σ} {r r' : BoxRef} {x : Box}

theorem mem_slotPlaces {e : Endpoint} {k : Nat} (hk : k < 32) :
    .inbox e (UInt64.ofNat k) ∈ slotPlaces := by
  refine List.mem_flatMap.mpr ⟨e, by cases e <;> decide, ?_⟩
  exact List.mem_map.mpr ⟨k, List.mem_reverse.mpr (List.mem_range.mpr hk), rfl⟩

theorem place_mem_boxPlaces (hr : b.HasBox r) : r.place ∈ b.boxPlaces := by
  cases r with
  | application i =>
    exact List.mem_append_left _ (List.mem_map_of_mem (List.mem_range.mpr hr))
  | inbox e c => exact List.mem_append_right _ (mem_slotPlaces (Ring.index 5 c).isLt)

theorem nodup_slotPlaces : slotPlaces.Nodup := by decide +kernel

theorem nodup_boxPlaces (b : Board σ) : b.boxPlaces.Nodup := by
  refine List.nodup_append.mpr ⟨?_, nodup_slotPlaces, ?_⟩
  · exact List.nodup_range.map fun i j hij => BoxRef.application.inj hij
  · rintro r hr r' hr' rfl
    obtain ⟨i, -, rfl⟩ := List.mem_map.mp hr
    exact absurd hr' (by simp [slotPlaces])

/-- Two counters have the same place when they stand for the same slot. -/
theorem place_inbox_eq_iff {e e' : Endpoint} {c c' : UInt64} :
    (BoxRef.inbox e c).place = (BoxRef.inbox e' c').place ↔
      e = e' ∧ Ring.index 5 c = Ring.index 5 c' := by
  have hnat : ∀ k : Fin (ringCapacity 5), (UInt64.ofNat k.val).toNat = k.val := fun k =>
    UInt64.toNat_ofNat_of_lt' (Nat.lt_trans k.isLt (by decide))
  rw [BoxRef.place, BoxRef.place, BoxRef.inbox.injEq]
  refine and_congr_right fun _ => ⟨fun h => ?_, fun h => by rw [h]⟩
  have := congrArg UInt64.toNat h
  rwa [hnat, hnat, Fin.val_inj] at this

/-- The least counter of a slot stands for the slot. -/
theorem boxAt_place (r : BoxRef) : b.boxAt r.place = b.boxAt r := by
  cases r with
  | application i => rfl
  | inbox e c =>
    have hindex : Ring.index 5 (UInt64.ofNat (Ring.index 5 c).val) = Ring.index 5 c := by
      have hlt := (Ring.index 5 c).isLt
      refine Fin.val_inj.mp ?_
      show (UInt64.ofNat (Ring.index 5 c).val).toNat % ringCapacity 5 = _
      rw [UInt64.toNat_ofNat_of_lt' (Nat.lt_trans hlt (by decide)), Nat.mod_eq_of_lt hlt]
    simp only [BoxRef.place, boxAt, Ring.slot, hindex]

theorem boxAt_putBox (hr : b.HasBox r) (r' : BoxRef) :
    (b.putBox r x).boxAt r' = if r'.place = r.place then x else b.boxAt r' := by
  cases r with
  | application i =>
    cases r' with
    | application j =>
      have hplace : (BoxRef.application j).place = (BoxRef.application i).place ↔ i = j := by
        rw [BoxRef.place, BoxRef.place, BoxRef.application.injEq, eq_comm]
      simp only [hplace]
      show (b.boxes.setIfInBounds i x).getD j Box.empty = _
      rw [Array.getD_eq_getD_getElem?, Array.getElem?_setIfInBounds]
      split
      · rw [if_pos (show i < b.boxes.size from hr), Option.getD_some]
      · rw [← Array.getD_eq_getD_getElem?, boxAt]
    | inbox e c =>
      rw [if_neg (by simp [BoxRef.place])]
      rfl
  | inbox e c =>
    cases r' with
    | application j =>
      rw [if_neg (by simp [BoxRef.place])]
      rfl
    | inbox e' c' =>
      simp only [place_inbox_eq_iff, putBox, boxAt]
      by_cases he : e' = e
      · subst he
        rw [Host.receiver_withInbox]
        simp only [Ring.slot_setSlot, true_and, eq_comm]
      · rw [Host.receiver_withInbox_of_ne he, if_neg fun h => he h.1]

/-- Putting back the box that lies at a place changes nothing. -/
theorem putBox_self : b.putBox r (b.boxAt r) = b := by
  cases r with
  | application i =>
    have hself : b.boxes.setIfInBounds i (b.boxes.getD i Box.empty) = b.boxes := by
      refine Array.ext_getElem? fun j => ?_
      rw [Array.getElem?_setIfInBounds, Array.getD_eq_getD_getElem?]
      split
      · next hij =>
        subst hij
        split
        · next hi => rw [Array.getElem?_eq_getElem hi, Option.getD_some]
        · next hi => rw [Array.getElem?_eq_none (Nat.not_lt.mp hi)]
      · rfl
    rw [putBox, boxAt, hself]
  | inbox e c =>
    have hself : ∀ ring : Inbox, ring.setSlot c (ring.slot c) = ring := by
      intro ring
      simp only [Ring.setSlot, Ring.slot, Fin.getElem_fin, Vector.set_getElem_self]
    simp only [putBox, boxAt, hself]
    cases e <;> rfl

@[simp] theorem boxPlaces_putBox : (b.putBox r x).boxPlaces = b.boxPlaces := by
  cases r with
  | application i => rw [boxPlaces, putBox, Array.size_setIfInBounds, boxPlaces]
  | inbox e c => rfl

theorem hasBox_putBox : (b.putBox r x).HasBox r' ↔ b.HasBox r' := by
  cases r with
  | application i =>
    cases r' with
    | application j => simp only [HasBox, putBox, Array.size_setIfInBounds]
    | inbox e c => rfl
  | inbox e c => cases r' <;> rfl

/-- Places in the list of all boxes are least ones. -/
theorem place_of_mem (hr : r ∈ b.boxPlaces) : r.place = r := by
  rcases List.mem_append.mp hr with hr | hr
  · obtain ⟨i, -, rfl⟩ := List.mem_map.mp hr
    rfl
  · have hall : ∀ r ∈ slotPlaces, r.place = r := by decide +kernel
    exact hall r hr

/-- What the application owns, and what lies in the inboxes. -/
theorem boxed_eq (b : Board σ) : b.boxed =
    b.boxes.toList.filterMap Box.node ++ slotPlaces.filterMap fun r => (b.boxAt r).node := by
  have hboxes : (List.range b.boxes.size).map (fun i => b.boxes.getD i Box.empty) =
      b.boxes.toList := by
    refine List.ext_getElem (by rw [List.length_map, List.length_range, Array.length_toList]) ?_
    intro i hi _
    rw [List.getElem_map, List.getElem_range, Array.getElem_toList, Array.getD_eq_getD_getElem?,
      Array.getElem?_eq_getElem, Option.getD_some]
  rw [boxed, boxPlaces, List.filterMap_append, List.filterMap_map, ← hboxes, List.filterMap_map]
  rfl

/-- What lies at a place, and what the other boxes own. -/
theorem exists_boxed_perm (hr : b.HasBox r) : ∃ rest : List NodeIndex, ∀ x,
    (b.putBox r x).boxed.Perm (x.node.toList ++ rest) := by
  refine ⟨(b.boxPlaces.erase r.place).filterMap fun r' => (b.boxAt r').node, fun x => ?_⟩
  have hself : (b.putBox r x).boxAt r.place = x := by
    rw [boxAt_place, boxAt_putBox hr, if_pos rfl]
  have hkeep : (b.boxPlaces.erase r.place).filterMap (fun r' => ((b.putBox r x).boxAt r').node) =
      (b.boxPlaces.erase r.place).filterMap fun r' => (b.boxAt r').node := by
    refine List.filterMap_congr fun r' hr' => ?_
    obtain ⟨hne, hmem⟩ := (nodup_boxPlaces b).mem_erase_iff.mp hr'
    rw [boxAt_putBox hr, if_neg (by rwa [place_of_mem hmem])]
  rw [boxed, boxPlaces_putBox]
  refine ((List.perm_cons_erase (place_mem_boxPlaces hr)).filterMap _).trans ?_
  rw [List.filterMap_cons, hself, hkeep]
  cases x.node with
  | none => exact .refl _
  | some n => exact .refl _

end Board

/-- The other board has the same boxes. -/
structure Board.SameBoxes (b b' : Board σ) : Prop where
  boxes : b'.boxes = b.boxes
  inbox : ∀ e, (b'.host.receiver e).inbox = (b.host.receiver e).inbox

namespace Board.SameBoxes

variable {b b' b₁ : Board σ} {r : BoxRef} {x : Box}

theorem refl (b : Board σ) : b.SameBoxes b := ⟨rfl, fun _ => rfl⟩

theorem boxAt (h : b.SameBoxes b') (r : BoxRef) : b'.boxAt r = b.boxAt r := by
  cases r with
  | application i => rw [Board.boxAt, h.boxes, Board.boxAt]
  | inbox e c => rw [Board.boxAt, h.inbox, Board.boxAt]

theorem hasBox (h : b.SameBoxes b') : b'.HasBox r ↔ b.HasBox r := by
  cases r with
  | application i => rw [HasBox, h.boxes, HasBox]
  | inbox e c => rfl

theorem boxed (h : b.SameBoxes b') : b'.boxed = b.boxed := by
  rw [Board.boxed, boxPlaces, h.boxes, Board.boxed, boxPlaces]
  exact List.filterMap_congr fun r _ => by rw [h.boxAt]

theorem putBox (h : b.SameBoxes b') : (b.putBox r x).SameBoxes (b'.putBox r x) := by
  cases r with
  | application i => exact ⟨congrArg (·.setIfInBounds i x) h.boxes, h.inbox⟩
  | inbox e c =>
    refine ⟨h.boxes, fun e' => ?_⟩
    simp only [Board.putBox]
    by_cases he : e' = e
    · subst he
      rw [Host.receiver_withInbox, Host.receiver_withInbox, h.inbox]
    · rw [Host.receiver_withInbox_of_ne he, Host.receiver_withInbox_of_ne he, h.inbox]

end Board.SameBoxes

/-! ### Given-back buffers that are told of -/

/-- The observer is told that a number of buffers were given back, among other things. -/
def Event.Tells (note : Event → σ → σ) (k : Nat) (y y' : σ) : Prop :=
  ∃ events, y' = events.foldl (fun y e => note e y) y ∧ tally .bufferReleased events = k

namespace Event.Tells

variable {note : Event → σ → σ} {k l : Nat} {y y₁ y' : σ}

theorem refl (y : σ) : Tells note 0 y y := ⟨[], rfl, rfl⟩

theorem trans (h : Tells note k y y₁) (h' : Tells note l y₁ y') : Tells note (k + l) y y' := by
  obtain ⟨events, rfl, rfl⟩ := h
  obtain ⟨events', rfl, rfl⟩ := h'
  exact ⟨events ++ events', List.foldl_append.symm, tally_append _ _ _⟩

end Event.Tells

/-! ### Lists -/

namespace Board

/-- The lists are well formed, and hold the given-back buffers. -/
structure Lists (k : NodeLists) (given : List NodeIndex) (b : Board σ) : Prop where
  arena : b.host.arena = k.arena
  freeQueue : b.host.freeQueue = k.freeQueue
  localQueue : b.host.localQueue = k.localQueue
  separated : k.arena.Separated
  chains : ∃ free waiting, given = free ++ waiting ∧
    Chain.WellFormed k.arena b.memory (k.family free waiting)

theorem Stages.lists {k : NodeLists} {r : Release} {b : Board σ} (h : b.Stages k r) :
    b.Lists k (r.free ++ r.waiting) :=
  ⟨h.arena, h.freeQueue, h.localQueue, h.separated, r.free, r.waiting, rfl, h.chains⟩

/-- Giving back and waking up leave the boxes alone. -/
theorem Told.sameBoxes {note : Event → σ → σ} {events : List Event} {b b' : Board σ}
    (h : Told note events b b') : b.SameBoxes b' := by
  rw [h.eq]
  exact ⟨rfl, fun e => by cases e <;> rfl⟩

/-- **A node that no list holds is given back.** The board keeps its boxes, and the observer is told
once. -/
theorem Lists.giveBack {k : NodeLists} {b : Board σ} {given : List NodeIndex} {n : NodeIndex}
    (note : Event → σ → σ) (h : b.Lists k given) (hn : k.arena.Has n) (hnew : n ∉ k.listed given) :
    ∃ b', (Host.giveBack (Observer.passive note) n).run b = .ok () b' ∧
      b'.Lists k (given ++ [n]) ∧ b.SameBoxes b' ∧ Event.Tells note 1 b.sink b'.sink := by
  obtain ⟨free, waiting, rfl, hw⟩ := h.chains
  let r : Release :=
    ⟨free, waiting, b.host.releasePending, (b.panel.get .release).outbound⟩
  have hstages : b.Stages k r :=
    ⟨h.arena, h.freeQueue, h.localQueue, h.separated, hw, rfl, rfl⟩
  have hnew' : n ∉ (k.family free waiting).nodes := fun hmem =>
    hnew ((NodeLists.nodes_family free waiting).mem_iff.mp hmem)
  obtain ⟨b', hrun, hstages', htold⟩ := hstages.giveBack note hn hnew'
  refine ⟨b', hrun, r.given_giveBack n ▸ hstages'.lists, htold.sameBoxes, r.dropEvents, ?_, ?_⟩
  · rw [htold.eq]
    rfl
  · rw [Release.dropEvents]
    split <;> rfl

/-! ### Custody -/

/-- Of the buffers `all`, those in `given` were given back, those in `held` are on their way, and
each of the others is in one box. No other list holds any of them. -/
structure InCustody (k : NodeLists) (all given held : List NodeIndex) (b : Board σ) : Prop where
  lists : b.Lists k given
  /-- A box knows where to give its buffer back exactly while it owns one. -/
  bound : ∀ r, (b.boxAt r).node = none ↔ (b.boxAt r).bound = false
  total : (given ++ (held ++ b.boxed)).Perm all
  registered : ∀ n ∈ all, k.arena.Has n
  nodup : (k.listed all).Nodup

namespace InCustody

variable {k : NodeLists} {b b' : Board σ} {all given held held' : List NodeIndex}
  {n : NodeIndex} {r r' : BoxRef} {x : Box} (note : Event → σ → σ)

theorem nodup_all (h : b.InCustody k all given held) : (given ++ (held ++ b.boxed)).Nodup :=
  h.total.nodup_iff.mpr
    (List.nodup_append.mp (List.nodup_cons.mp (List.nodup_cons.mp h.nodup).2).2).1

theorem nodup_boxed (h : b.InCustody k all given held) : b.boxed.Nodup :=
  (List.nodup_append.mp (List.nodup_append.mp h.nodup_all).2.1).2.1

/-- A buffer that was not given back is in no list. -/
theorem not_mem_listed (h : b.InCustody k all given held) (hn : n ∈ held ++ b.boxed) :
    n ∉ k.listed given := by
  have hnd := (NodeLists.listed_perm h.total).nodup_iff.mpr h.nodup
  rw [(NodeLists.listed_append _ _).nodup_iff] at hnd
  exact fun hlisted => (List.nodup_append.mp hnd).2.2 n hn n hlisted rfl

/-- Of the buffers in boxes none is in a list. -/
theorem of_boxed (hlists : b.Lists k given)
    (hbound : ∀ r, (b.boxAt r).node = none ↔ (b.boxAt r).bound = false)
    (hregistered : ∀ n ∈ b.boxed, k.arena.Has n) (hnd : b.boxed.Nodup)
    (hapart : ∀ n ∈ b.boxed, n ∉ k.listed given) :
    b.InCustody k (given ++ b.boxed) given [] := by
  obtain ⟨free, waiting, rfl, hw⟩ := hlists.chains
  have hlisted := NodeLists.nodes_family (k := k) free waiting
  refine ⟨hlists, hbound, .refl _, fun n hn => ?_, ?_⟩
  · rcases List.mem_append.mp hn with hn | hn
    · refine hw.registered n (hlisted.mem_iff.mpr ?_)
      exact List.mem_cons_of_mem _ (List.mem_cons_of_mem _ (List.mem_append_left _ hn))
    · exact hregistered n hn
  · rw [(NodeLists.listed_append _ _).nodup_iff, List.nodup_append]
    exact ⟨hnd, hlisted.nodup_iff.mp hw.nodup, fun n hn _ hn' heq => hapart n hn (heq ▸ hn')⟩

/-- A node comes into custody that was in no box and in no list. -/
theorem enlarge (h : b.InCustody k all given held) (hn : k.arena.Has n) (hheld : n ∉ held)
    (hboxed : n ∉ b.boxed) (hlisted : n ∉ k.listed given) :
    b.InCustody k (all ++ [n]) given (held ++ [n]) := by
  have hnew : n ∉ k.listed all := by
    rw [← (NodeLists.listed_perm h.total).mem_iff, (NodeLists.listed_append _ _).mem_iff,
      List.mem_append, List.mem_append]
    rintro ((hmem | hmem) | hmem)
    · exact hheld hmem
    · exact hboxed hmem
    · exact hlisted hmem
  refine { h with total := ?_, registered := fun i hi => ?_, nodup := ?_ }
  · refine List.Perm.trans ?_ (h.total.append_right [n])
    rw [List.append_assoc, List.append_assoc, List.append_assoc]
    exact ((List.perm_append_comm).append_left held).append_left given
  · rcases List.mem_append.mp hi with hi | hi
    · exact h.registered i hi
    · rwa [List.mem_singleton.mp hi]
  · rw [(NodeLists.listed_append _ _).nodup_iff]
    exact List.nodup_cons.mpr ⟨hnew, h.nodup⟩

/-- The same boxes and lists, told of in another way. -/
theorem of_boxAt (h : b.InCustody k all given held) (hlists : b'.Lists k given)
    (hsize : b'.boxes.size = b.boxes.size) (hboxes : ∀ r, b'.boxAt r = b.boxAt r) :
    b'.InCustody k all given held := by
  have hboxed : b'.boxed = b.boxed := by
    rw [boxed, boxPlaces, hsize, boxed, boxPlaces]
    exact List.filterMap_congr fun r _ => by rw [hboxes]
  refine { h with lists := hlists, bound := fun r => ?_, total := ?_ }
  · rw [hboxes]
    exact h.bound r
  · rw [hboxed]
    exact h.total

/-- A counter of an inbox moves on. -/
theorem withInbox (h : b.InCustody k all given held) {e : Endpoint} {ring : Inbox}
    (hslots : ring.slots = (b.host.receiver e).inbox.slots) :
    InCustody k all given held { b with host := b.host.withInbox e ring } := by
  refine h.of_boxAt ?_ rfl fun r => ?_
  · cases e <;> exact { h.lists with }
  · cases r with
    | application i => rfl
    | inbox e' c =>
      simp only [boxAt]
      by_cases he : e' = e
      · subst he
        rw [Host.receiver_withInbox]
        simp only [Ring.slot, hslots]
      · rw [Host.receiver_withInbox_of_ne he]

/-- An empty box is the same as one that was never filled. -/
theorem boxAt_eq_empty (h : b.InCustody k all given held) (hnone : (b.boxAt r).node = none) :
    b.boxAt r = Box.empty := by
  have hbound := (h.bound r).mp hnone
  cases hx : b.boxAt r with
  | mk node bound =>
    rw [hx] at hnone hbound
    rw [show node = none from hnone, show bound = false from hbound]
    rfl

/-- Other nodes in boxes and on their way, which are the same all together. -/
theorem of_perm (h : b.InCustody k all given held) (hlists : b'.Lists k given)
    (hbound : ∀ r, (b'.boxAt r).node = none ↔ (b'.boxAt r).bound = false)
    (hperm : (held' ++ b'.boxed).Perm (held ++ b.boxed)) : b'.InCustody k all given held' :=
  { h with
    lists := hlists
    bound := hbound
    total := (hperm.append_left given).trans h.total }

/-- Another box is put at a place; what either of them owns is on its way. -/
theorem putBox (h : b.InCustody k all given held) (hr : b.HasBox r)
    (hx : x.node = none ↔ x.bound = false)
    (hperm : (held' ++ x.node.toList).Perm (held ++ (b.boxAt r).node.toList)) :
    (b.putBox r x).InCustody k all given held' := by
  obtain ⟨rest, hrest⟩ := exists_boxed_perm hr
  have hboxed := perm_exchange hrest held held' hperm
  rw [putBox_self] at hboxed
  refine h.of_perm ?_ (fun r' => ?_) hboxed
  · have := h.lists
    cases r with
    | application i => exact { this with }
    | inbox e c => cases e <;> exact { this with }
  · rw [boxAt_putBox hr]
    split
    · exact hx
    · exact h.bound r'

theorem emptyBox (h : b.InCustody k all given held) (hr : b.HasBox r) :
    (b.putBox r Box.empty).InCustody k all given (held ++ (b.boxAt r).node.toList) :=
  h.putBox hr (by decide) (.of_eq (List.append_nil _))

/-- A box is filled that is empty. -/
theorem fillBox (h : b.InCustody k all given (held ++ x.node.toList)) (hr : b.HasBox r)
    (hx : x.node = none ↔ x.bound = false) (hempty : (b.boxAt r).node = none) :
    (b.putBox r x).InCustody k all given held := by
  refine h.putBox hr hx (.of_eq ?_)
  rw [hempty, Option.toList_none, List.append_nil]

/-- **A buffer on its way is given back.** -/
theorem giveBack (h : b.InCustody k all given (held ++ [n])) :
    ∃ b', (Host.giveBack (Observer.passive note) n).run b = .ok () b' ∧
      b'.InCustody k all (given ++ [n]) held ∧ b.SameBoxes b' ∧
      Event.Tells note 1 b.sink b'.sink := by
  have hmem : n ∈ held ++ [n] ++ b.boxed := by simp
  have hn := h.registered n (h.total.mem_iff.mp (List.mem_append_right _ hmem))
  obtain ⟨b', hrun, hlists, hsame, htells⟩ := h.lists.giveBack note hn (h.not_mem_listed hmem)
  refine ⟨b', hrun, { h with
    lists := hlists
    bound := fun r => by rw [hsame.boxAt]; exact h.bound r
    total := ?_ }, hsame, htells⟩
  rw [hsame.boxed]
  refine List.Perm.trans ?_ h.total
  rw [List.append_assoc, List.append_assoc held]
  exact (List.perm_append_comm_assoc _ _ _).append_left given

/-- **A box gives back what it owns.** -/
theorem releaseBox (h : b.InCustody k all given held) (hr : b.HasBox r) :
    ∃ b', (Host.releaseBox (Observer.passive note) r).run b = .ok () b' ∧
      b'.InCustody k all (given ++ (b.boxAt r).node.toList) held ∧
      (b.putBox r Box.empty).SameBoxes b' ∧
      Event.Tells note (b.boxAt r).node.toList.length b.sink b'.sink := by
  have hempty := h.emptyBox hr
  cases hnode : (b.boxAt r).node with
  | none =>
    have hself : b.putBox r Box.empty = b := by rw [← h.boxAt_eq_empty hnode, putBox_self]
    refine ⟨b, Host.run_releaseBox_of_none _ (run_boxAt b r) hnode, ?_, ?_, .refl _⟩
    · rwa [Option.toList_none, List.append_nil]
    · rw [hself]
      exact .refl b
  | some n =>
    rw [hnode] at hempty
    obtain ⟨b', hrun, hcustody, hsame, htells⟩ := hempty.giveBack note
    refine ⟨b', ?_, hcustody, hsame, ?_⟩
    · rw [Host.releaseBox, run_bind_ok (run_boxAt b r), hnode]
      exact (run_bind_ok (run_putBox b r _)).trans hrun
    · cases r <;> exact htells

/-- **The content of a box moves into another one, which first gives back what it owned.** -/
theorem moveBox (h : b.InCustody k all given held) (hr : b.HasBox r) (hr' : b.HasBox r')
    (hplace : r.place ≠ r'.place) :
    ∃ b', (Host.moveBox (Observer.passive note) r r').run b = .ok () b' ∧
      b'.InCustody k all (given ++ (b.boxAt r').node.toList) held ∧
      (((b.putBox r' Box.empty).putBox r Box.empty).putBox r' (b.boxAt r)).SameBoxes b' ∧
      Event.Tells note (b.boxAt r').node.toList.length b.sink b'.sink := by
  obtain ⟨b₁, hrun₁, h₁, hsame₁, htells₁⟩ := h.releaseBox note hr'
  have hne : r ≠ r' := fun heq => hplace (by rw [heq])
  have hr₁ : b₁.HasBox r := hsame₁.hasBox.mpr (hasBox_putBox.mpr hr)
  have hr₁' : (b₁.putBox r Box.empty).HasBox r' :=
    hasBox_putBox.mpr (hsame₁.hasBox.mpr (hasBox_putBox.mpr hr'))
  have hsource : b₁.boxAt r = b.boxAt r := by
    rw [hsame₁.boxAt, boxAt_putBox hr', if_neg hplace]
  have htarget : (b₁.putBox r Box.empty).boxAt r' = Box.empty := by
    rw [boxAt_putBox hr₁, if_neg hplace.symm, hsame₁.boxAt, boxAt_putBox hr', if_pos rfl]
  have h₂ := h₁.emptyBox hr₁
  rw [hsource] at h₂
  refine ⟨(b₁.putBox r Box.empty).putBox r' (b.boxAt r), ?_,
    h₂.fillBox hr₁' (h.bound r) (by rw [htarget]; rfl), hsame₁.putBox.putBox, ?_⟩
  · rw [Host.moveBox, if_pos hne, run_bind_ok hrun₁]
    have htake : (Host.takeBox r).run b₁ = .ok (b.boxAt r) (b₁.putBox r Box.empty) := by
      rw [Host.takeBox, run_bind_ok (run_boxAt b₁ r), run_bind_ok (run_putBox b₁ r _), hsource,
        EStateM.run_pure]
    rw [run_bind_ok htake, run_putBox]
  · cases r <;> cases r' <;> exact htells₁

/-- Another list of boxes with the same nodes. -/
theorem of_boxes (h : b.InCustody k all given held) {boxes : Array Box}
    (hbound : ∀ x ∈ boxes, x.node = none ↔ x.bound = false)
    (hperm : (held' ++ boxes.toList.filterMap Box.node).Perm
      (held ++ b.boxes.toList.filterMap Box.node)) :
    InCustody k all given held' { b with boxes := boxes } := by
  have hslots : slotPlaces.filterMap (fun r => (boxAt { b with boxes := boxes } r).node) =
      slotPlaces.filterMap fun r => (b.boxAt r).node := by
    refine List.filterMap_congr fun r hr => ?_
    cases r with
    | application i => exact absurd hr (by simp [slotPlaces])
    | inbox e c => rfl
  refine h.of_perm { h.lists with } (fun r => ?_) ?_
  · cases r with
    | application i =>
      show (boxes.getD i Box.empty).node = none ↔ (boxes.getD i Box.empty).bound = false
      rw [Array.getD_eq_getD_getElem?]
      cases hi : boxes[i]? with
      | none => decide
      | some x => exact hbound x (Array.mem_of_getElem? hi)
    | inbox e c => exact h.bound (.inbox e c)
  · rw [boxed_eq, boxed_eq, hslots, ← List.append_assoc, ← List.append_assoc]
    exact hperm.append_right _

theorem bound_of_mem (h : b.InCustody k all given held) (hx : x ∈ b.boxes) :
    x.node = none ↔ x.bound = false := by
  obtain ⟨i, hi, rfl⟩ := Array.mem_iff_getElem.mp hx
  have := h.bound (.application i)
  rwa [boxAt, Array.getD_eq_getD_getElem?, Array.getElem?_eq_getElem hi, Option.getD_some] at this

/-- A new box takes what is on its way. -/
theorem newBox (held : List NodeIndex) (x : Box)
    (h : b.InCustody k all given (held ++ x.node.toList))
    (hx : x.node = none ↔ x.bound = false) :
    InCustody k all given held { b with boxes := b.boxes.push x } := by
  refine h.of_boxes (fun y hy => ?_) ?_
  · rcases Array.mem_push.mp hy with hy | rfl
    · exact h.bound_of_mem hy
    · exact hx
  · rw [Array.toList_push, List.filterMap_append, List.append_assoc]
    refine List.Perm.append_left held (List.perm_append_comm.trans ?_)
    cases x with
    | mk node bound => cases node <;> exact .refl _

/-- A box that owns nothing is gone. -/
theorem eraseBox (h : b.InCustody k all given held) {i : Nat}
    (hnone : (b.boxAt (.application i)).node = none) :
    InCustody k all given held { b with boxes := b.boxes.eraseIdxIfInBounds i } := by
  refine h.of_boxes (fun y hy => ?_) (.of_eq ?_)
  · rw [← Array.mem_toList_iff, Array.toList_eraseIdxIfInBounds] at hy
    exact h.bound_of_mem (Array.mem_toList_iff.mp (List.mem_of_mem_eraseIdx hy))
  · rw [Array.toList_eraseIdxIfInBounds]
    congr 1
    rw [boxAt, Array.getD_eq_getD_getElem?, ← Array.getElem?_toList] at hnone
    by_cases hi : i < b.boxes.toList.length
    · rw [List.getElem?_eq_getElem hi, Option.getD_some] at hnone
      have hsplit : b.boxes.toList.take i ++ b.boxes.toList[i] :: b.boxes.toList.drop (i + 1) =
          b.boxes.toList := by
        rw [← List.drop_eq_getElem_cons hi, List.take_append_drop]
      have := congrArg (List.filterMap Box.node) hsplit
      rwa [List.filterMap_append, List.filterMap_cons_none hnone, ← List.filterMap_append,
        ← List.eraseIdx_eq_take_drop_succ] at this
    · rw [List.eraseIdx_of_length_le (Nat.not_lt.mp hi)]

/-- **Boxes give back what they own, one after the other.** -/
theorem releaseBoxes (h : b.InCustody k all given held) {rs : List BoxRef}
    (hrs : ∀ r ∈ rs, b.HasBox r)
    (hnd : (rs.map BoxRef.place).Nodup) :
    ∃ b', (rs.forM (Host.releaseBox (Observer.passive note))).run b = .ok () b' ∧
      b'.InCustody k all (given ++ rs.filterMap fun r => (b.boxAt r).node) held ∧
      b'.boxes.size = b.boxes.size ∧
      (∀ r, (b'.boxAt r) = if r.place ∈ rs.map BoxRef.place then Box.empty else b.boxAt r) ∧
      Event.Tells note (rs.filterMap fun r => (b.boxAt r).node).length b.sink b'.sink := by
  induction rs generalizing b given with
  | nil =>
    refine ⟨b, rfl, ?_, rfl, fun r => ?_, .refl _⟩
    · rwa [List.filterMap_nil, List.append_nil]
    · rw [List.map_nil, if_neg List.not_mem_nil]
  | cons r rs ih =>
    obtain ⟨hr, hrs⟩ := List.forall_mem_cons.mp hrs
    rw [List.map_cons, List.nodup_cons] at hnd
    obtain ⟨b₁, hrun₁, h₁, hsame₁, htells₁⟩ := h.releaseBox note hr
    have hkeep : ∀ r' ∈ rs, b₁.boxAt r' = b.boxAt r' := by
      intro r' hr'
      rw [hsame₁.boxAt, boxAt_putBox hr, if_neg]
      exact fun heq => hnd.1 (heq ▸ List.mem_map_of_mem hr')
    have hnodes : rs.filterMap (fun r' => (b₁.boxAt r').node) =
        rs.filterMap fun r' => (b.boxAt r').node :=
      List.filterMap_congr fun r' hr' => by rw [hkeep r' hr']
    obtain ⟨b₂, hrun₂, h₂, hsize₂, hboxes₂, htells₂⟩ := ih h₁
      (fun r' hr' => hsame₁.hasBox.mpr (hasBox_putBox.mpr (hrs r' hr'))) hnd.2
    have hcons : (r :: rs).filterMap (fun r' => (b.boxAt r').node) =
        (b.boxAt r).node.toList ++ rs.filterMap fun r' => (b.boxAt r').node := by
      rw [List.filterMap_cons]
      cases (b.boxAt r).node <;> rfl
    rw [hnodes, List.append_assoc, ← hcons] at h₂
    rw [hnodes] at htells₂
    refine ⟨b₂, ?_, h₂, ?_, fun r' => ?_, ?_⟩
    · exact (run_bind_ok hrun₁).trans hrun₂
    · rw [hsize₂, hsame₁.boxes]
      cases r with
      | application i => exact Array.size_setIfInBounds
      | inbox e c => rfl
    · rw [hboxes₂, hsame₁.boxAt, boxAt_putBox hr, List.map_cons]
      by_cases hplace : r'.place = r.place
      · rw [hplace, if_pos rfl, if_pos List.mem_cons_self, ite_self]
      · simp only [List.mem_cons, hplace, false_or, if_false]
    · rw [hcons, List.length_append]
      exact htells₁.trans htells₂

/-- **A shutdown gives back what the boxes own, place by place**, and leaves every box empty. -/
theorem shutdown (h : b.InCustody k all given []) :
    ∃ b', (Host.shutdown (Observer.passive note)).run b = .ok () b' ∧
      b'.InCustody k all (given ++ b.boxed) [] ∧ (∀ r ∈ b.boxPlaces, b'.boxAt r = Box.empty) ∧
      b'.boxed = [] ∧ Event.Tells note b.boxed.length b.sink b'.sink := by
  have hplaces : ∀ r ∈ b.boxPlaces, b.HasBox r := by
    intro r hr
    rcases List.mem_append.mp hr with hr | hr
    · obtain ⟨i, hi, rfl⟩ := List.mem_map.mp hr
      exact List.mem_range.mp hi
    · cases r with
      | application i => exact absurd hr (by simp [slotPlaces])
      | inbox e c => trivial
  have hleast : b.boxPlaces.map BoxRef.place = b.boxPlaces :=
    (List.map_congr_left fun r hr => place_of_mem hr).trans (List.map_id _)
  obtain ⟨b', hrun, hcustody, hsize, hboxes, htells⟩ :=
    h.releaseBoxes note hplaces (by rw [hleast]; exact nodup_boxPlaces b)
  have hempty : ∀ r ∈ b.boxPlaces, b'.boxAt r = Box.empty := by
    intro r hr
    rw [hboxes, place_of_mem hr, hleast, if_pos hr]
  refine ⟨b', ?_, hcustody, hempty, ?_, htells⟩
  · rw [← hrun, Host.shutdown, boxPlaces, slotPlaces]
    simp only [List.forM_eq_forM, List.forM_append, List.forM_map, List.flatMap_cons,
      List.flatMap_nil, List.forM_cons, List.forM_nil]
    rfl
  · rw [boxed, boxPlaces, hsize]
    refine List.filterMap_eq_nil_iff.mpr fun r hr => ?_
    rw [hempty r hr]
    rfl

end InCustody

end Board

end InterCore
