import InterCore.Host.Boxes
import InterCore.Proofs.Steps.Release

/-!
# Boxes, on accounts

What releasing, moving, making and destroying boxes of the application do to an account. A box that
loses its content gives it back, and no operation copies a buffer.

## Main definitions

* `Host.newBox`, `Host.constructBox`, `Host.destroyBox`: boxes come and go.
* `Account.releaseBox`, `Account.moveBox` and so on: a box gives back what it owns, or gets the
  content of another one.

## Main results

* `Board.Shows.releaseBox`, `Board.Shows.moveBox` and so on: the programs of the host do this.
* `Account.places_releaseBox`, `Account.places_moveBox` and so on: no buffer is lost or copied.
-/

namespace InterCore

variable {σ : Type}

/-! ### Making and destroying boxes -/

namespace Host

/-- Make a box. -/
def newBox (x : Box) : BoardM σ Unit := modify fun b => { b with boxes := b.boxes.push x }

/-- Make a box from the content of another one. -/
def constructBox (i : Nat) : BoardM σ Unit := do
  newBox (← takeBox (.application i))

/-- A box gives back what it owns and is gone. The boxes behind it move up. -/
def destroyBox (observer : Observer σ) (i : Nat)
    (drop : NodeIndex → BoardM σ Unit := giveBack observer) : BoardM σ Unit := do
  releaseBox observer (.application i) drop
  modify fun b => { b with boxes := b.boxes.eraseIdxIfInBounds i }

end Host

namespace Account

variable (note : Event → σ → σ) (s : Account σ)

/-- A box gives back what it owns. -/
def releaseBox (i : Nat) : Account σ :=
  match s.box i with
  | none => s
  | some n => (s.setBox i none).giveBack note n

/-- The content of a box moves into another one, which first gives back what it owned. -/
def moveBox (i j : Nat) : Account σ :=
  if i = j then s
  else
    let s := s.releaseBox note j
    (s.setBox i none).setBox j (s.box i)

/-- There is one more box. -/
def addBox (o : Option NodeIndex) : Account σ := { s with boxes := s.boxes ++ [o] }

/-- There is one box less. -/
def eraseBox (i : Nat) : Account σ := { s with boxes := s.boxes.eraseIdx i }

/-- The content of a box goes to a new one. -/
def constructBox (i : Nat) : Account σ := (s.setBox i none).addBox (s.box i)

/-- A box gives back what it owns and is gone. -/
def destroyBox (i : Nat) : Account σ :=
  (s.releaseBox note i).eraseBox i

/-! ### What boxes own -/

variable {note s} {i j : Nat} {n : NodeIndex} {o : Option NodeIndex}

@[simp] theorem length_boxes_setBox : (s.setBox i o).boxes.length = s.boxes.length :=
  List.length_set

theorem box_setBox_self (hi : i < s.boxes.length) : (s.setBox i o).box i = o := by
  rw [box, setBox, List.getElem?_set_self hi, Option.join_some]

theorem box_setBox_of_ne (hij : i ≠ j) : (s.setBox i o).box j = s.box j := by
  rw [box, setBox, List.getElem?_set_ne hij, box]

@[simp] theorem box_giveBack : (s.giveBack note n).box i = s.box i := by
  rw [box, giveBack_boxes, box]

@[simp] theorem inbox_releaseBox : (s.releaseBox note i).inbox = s.inbox := by
  rw [releaseBox]
  split
  · rfl
  · rw [giveBack_inbox]
    rfl

@[simp] theorem taken_releaseBox : (s.releaseBox note i).taken = s.taken := by
  rw [releaseBox]
  split
  · rfl
  · rw [giveBack_taken]
    rfl

@[simp] theorem length_boxes_releaseBox :
    (s.releaseBox note i).boxes.length = s.boxes.length := by
  rw [releaseBox]
  split
  · rfl
  · rw [giveBack_boxes, length_boxes_setBox]

/-- A released box is empty. -/
@[simp] theorem box_releaseBox_self : (s.releaseBox note i).box i = none := by
  rw [releaseBox]
  split
  · next hi => exact hi
  · next n hi => rw [box_giveBack, box_setBox_self (lt_length_of_box hi)]

/-! ### Places -/

theorem places_releaseBox : (s.releaseBox note i).places.Perm s.places := by
  rw [releaseBox]
  split
  · exact .refl _
  · next n hi => exact places_giveBack.trans (places_emptyBox hi)

/-- The content of a box moves into an empty one. -/
theorem places_setBox_setBox (hj : j < s.boxes.length) (hij : i ≠ j)
    (hempty : s.box j = none) :
    ((s.setBox i none).setBox j (s.box i)).places.Perm s.places := by
  have hj' : (s.setBox i none).box j = none := by rw [box_setBox_of_ne hij, hempty]
  cases hbox : s.box i with
  | none =>
    have hfirst : s.setBox i none = s := by rw [← hbox, setBox_self]
    rw [hfirst, ← hempty, setBox_self]
  | some n =>
    exact (places_fillBox (by rwa [length_boxes_setBox]) hj' n).trans (places_emptyBox hbox)

theorem places_moveBox (hj : j < s.boxes.length) :
    (s.moveBox note i j).places.Perm s.places := by
  rw [moveBox]
  split
  · exact .refl _
  · next hij =>
    refine (places_setBox_setBox ?_ hij box_releaseBox_self).trans places_releaseBox
    rwa [length_boxes_releaseBox]

theorem places_addBox (s : Account σ) (o : Option NodeIndex) :
    (s.addBox o).places.Perm (o.toList ++ s.places) := by
  rw [places, addBox, List.reduceOption_append, List.reduceOption_singleton, ← List.append_assoc]
  exact List.perm_append_comm

theorem places_eraseBox (hi : i < s.boxes.length) (hempty : s.box i = none) :
    (s.eraseBox i).places = s.places := by
  have hnone : s.boxes[i] = none := by
    rw [box, List.getElem?_eq_getElem hi, Option.join_some] at hempty
    exact hempty
  have hsplit : s.boxes.take i ++ none :: s.boxes.drop (i + 1) = s.boxes := by
    rw [← hnone, ← List.drop_eq_getElem_cons hi, List.take_append_drop]
  have hboxes := congrArg List.reduceOption hsplit
  rw [List.reduceOption_append, List.reduceOption_cons_of_none, ← List.reduceOption_append,
    ← List.eraseIdx_eq_take_drop_succ] at hboxes
  rw [places, eraseBox, hboxes, places]

theorem places_constructBox (s : Account σ) (i : Nat) :
    (s.constructBox i).places.Perm s.places := by
  refine ((s.setBox i none).places_addBox (s.box i)).trans ?_
  cases hbox : s.box i with
  | none =>
    rw [← hbox, setBox_self, hbox]
    exact .refl _
  | some n => exact places_emptyBox hbox

theorem places_destroyBox (hi : i < s.boxes.length) :
    (s.destroyBox note i).places.Perm s.places := by
  rw [destroyBox, places_eraseBox (by rwa [length_boxes_releaseBox]) box_releaseBox_self]
  exact places_releaseBox

theorem Proper.setBox_none {held : List NodeIndex} (h : s.Proper held) (hi : s.box i = some n) :
    (s.setBox i none).Proper (n :: held) :=
  h.of_perm (List.perm_middle.symm.trans ((places_emptyBox hi).append_left held))

end Account

namespace Board.Shows

variable {p : Placement} {sw : Switches} {b : Board σ} {s : Account σ} {n : NodeIndex} {i j : Nat}
  (note : Event → σ → σ) (h : b.Shows p sw s)
include h

theorem getD_boxes (i : Nat) : b.boxes.getD i Box.empty = Box.holding (s.box i) := by
  rw [Array.getD_eq_getD_getElem?, ← Array.getElem?_toList, h.boxes, List.getElem?_map,
    Account.box]
  cases s.boxes[i]? with
  | none => rfl
  | some o => rw [Option.map_some, Option.getD_some, Option.join_some]

theorem box (i : Nat) :
    Yields p sw (Host.box (.application i)) b (Box.holding (s.box i)) s := by
  refine ⟨b, ?_, h⟩
  rw [← h.getD_boxes]
  rfl

/-- A box of the application may change. -/
theorem withBox (i : Nat) (o : Option NodeIndex) :
    Shows p sw { b with boxes := b.boxes.setIfInBounds i (Box.holding o) } (s.setBox i o) :=
  { h with boxes := by rw [Account.setBox, Array.toList_setIfInBounds, h.boxes, List.map_set] }

theorem setBox (i : Nat) (o : Option NodeIndex) :
    Yields p sw (Host.setBox (.application i) (Box.holding o)) b () (s.setBox i o) :=
  ⟨_, rfl, h.withBox i o⟩

/-- **A box gives back what it owns.** -/
theorem releaseBox (hs : s.Proper []) :
    Yields p sw (Host.releaseBox (Observer.passive note) (.application i)) b ()
      (s.releaseBox note i) := by
  refine (h.box i).bind fun b₁ h₁ => ?_
  rw [Account.releaseBox, Box.node_holding]
  cases hbox : s.box i with
  | none => exact h₁.pure ()
  | some n => exact (h₁.setBox i none).bind fun b₂ h₂ => h₂.giveBack note (hs.setBox_none hbox)

/-- **The content of a box moves into another one.** -/
theorem moveBox (hs : s.Proper []) :
    Yields p sw (Host.moveBox (Observer.passive note) (.application i) (.application j)) b ()
      (s.moveBox note i j) := by
  rw [Account.moveBox, Host.moveBox]
  by_cases hij : i = j
  · rw [if_pos hij, if_neg (by rw [hij]; exact fun h => h rfl)]
    exact h.pure ()
  · rw [if_neg hij, if_pos (by rwa [ne_eq, BoxRef.application.injEq])]
    refine (h.releaseBox note hs).bind fun b₁ h₁ => ?_
    refine Yields.bind (r := Box.holding ((s.releaseBox note j).box i))
      (s := (s.releaseBox note j).setBox i none) ?_ fun b₂ h₂ => h₂.setBox j _
    exact (h₁.box i).bind fun b₂ h₂ => (h₂.setBox i none).bind fun b₃ h₃ => h₃.pure _

theorem size_boxes : b.boxes.size = s.boxes.length := by
  rw [← Array.length_toList, h.boxes, List.length_map]

theorem newBox (o : Option NodeIndex) :
    Yields p sw (Host.newBox (Box.holding o)) b () (s.addBox o) :=
  ⟨{ b with boxes := b.boxes.push (Box.holding o) }, rfl, { h with
    boxes := by rw [Account.addBox, Array.toList_push, h.boxes, List.map_append,
      List.map_singleton] }⟩

theorem constructBox (i : Nat) : Yields p sw (Host.constructBox i) b () (s.constructBox i) := by
  refine Yields.bind (r := Box.holding (s.box i)) (s := s.setBox i none) ?_
    fun b₁ h₁ => h₁.newBox (s.box i)
  exact (h.box i).bind fun b₁ h₁ => (h₁.setBox i none).bind fun b₂ h₂ => h₂.pure _

theorem destroyBox (hs : s.Proper []) (i : Nat) :
    Yields p sw (Host.destroyBox (Observer.passive note) i) b () (s.destroyBox note i) := by
  refine (h.releaseBox note hs).bind fun b₁ h₁ => ?_
  exact ⟨{ b₁ with boxes := b₁.boxes.eraseIdxIfInBounds i }, rfl, { h₁ with
    boxes := by
      show _ = ((s.releaseBox note i).boxes.eraseIdx i).map Box.holding
      rw [Array.toList_eraseIdxIfInBounds, h₁.boxes, List.eraseIdx_map] }⟩

end Board.Shows

end InterCore
