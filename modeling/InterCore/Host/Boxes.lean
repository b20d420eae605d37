import InterCore.Host.Release

/-!
# Boxes

A box owns one received buffer until it gives it back, which happens once: when it is released,
overwritten or destroyed. Boxes move and are never copied. They lie with the application or in the
slots of an inbox.

Giving a buffer back tells the observer, which may run programs that use the very box that is being
overwritten. The order of the steps below is therefore part of their meaning: the old content goes
first, and what is moved in is read only after that.

By what program a box gives its buffer back is a parameter, so that every drop can be watched. Where
none is named it is `Host.giveBack`.

## Main definitions

* `BoxRef`: where a box lies.
* `Host.releaseBox`, `Host.assignBox`, `Host.moveBox`: the ways a box loses or gets its content.
* `Host.openBox`: the packet in a box.
-/

namespace InterCore

/-- Where a box lies. -/
inductive BoxRef where
  /-- A box of the application. -/
  | application (i : Nat)
  /-- The slot of an inbox that a counter stands for. -/
  | inbox (e : Endpoint) (counter : UInt64)
  deriving DecidableEq, Repr

namespace Host

open Board

variable {σ : Type} (observer : Observer σ)

/-- The box at a place. -/
def box (r : BoxRef) : BoardM σ Box := do
  let b ← get
  match r with
  | .application i => return b.boxes.getD i Box.empty
  | .inbox e counter => return (b.host.receiver e).inbox.slot counter

/-- Replace the box at a place without regard to what it owns. -/
def setBox (r : BoxRef) (x : Box) : BoardM σ Unit :=
  match r with
  | .application i => modify fun b => { b with boxes := b.boxes.setIfInBounds i x }
  | .inbox e counter =>
    modifyHost fun h =>
      let receiver := h.receiver e
      h.setReceiver e { receiver with inbox := receiver.inbox.setSlot counter x }

/-- Give back what a box owns. -/
def releaseBox (r : BoxRef) (drop : NodeIndex → BoardM σ Unit := giveBack observer) :
    BoardM σ Unit := do
  match (← box r).node with
  | none => pure ()
  | some node =>
    setBox r Box.empty
    drop node

/-- Give back what a box owns and let it hold `x`. -/
def assignBox (r : BoxRef) (x : Box) (drop : NodeIndex → BoardM σ Unit := giveBack observer) :
    BoardM σ Unit := do
  releaseBox observer r drop
  setBox r x

/-- Take a box out of its place and leave an empty one. -/
def takeBox (r : BoxRef) : BoardM σ Box := do
  let x ← box r
  setBox r Box.empty
  return x

/-- Move the content of one box into another, which first gives back what it owned. Moving a box
onto itself does nothing. -/
def moveBox (source target : BoxRef)
    (drop : NodeIndex → BoardM σ Unit := giveBack observer) : BoardM σ Unit := do
  if source ≠ target then
    releaseBox observer target drop
    let x ← takeBox source
    setBox target x

/-- The address of the packet in a box. An empty box has none. -/
def openBox (r : BoxRef) : BoardM σ Address := do
  match ← box r with
  | { node := some node, bound := true } => address node
  | _ => throw .emptyBox

end Host

end InterCore
