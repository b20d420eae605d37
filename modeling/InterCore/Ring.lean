/-!
# Bounded rings

A first-in first-out queue of fixed capacity for one producer and one consumer. Two counters run
freely and wrap at 64 bits; the element with counter `c` lies in slot `c mod capacity`. The ring is
empty when the counters agree and full when they differ by the capacity, so every slot is usable.
The capacity is a power of two: it divides the range of the counters, and a counter that wraps goes
on to the next slot.

Elements are moved, not copied: an element of which the content went elsewhere still lies where it
was. What is left of it is up to its type, and is given here by a function `leave`.

## Main definitions

* `Ring.push?`: append an element, unless the ring is full.
* `Ring.pop?`: take the oldest element, unless the ring is empty.
* `Ring.serve`: either of them, with the variable of the caller.
* `Ring.toList`: the waiting elements, oldest first.
-/

namespace InterCore

/-- What a caller asks of a queue. -/
inductive QueueRequest (α : Type) where
  /-- Append what a variable of the caller holds. -/
  | push (x : α)
  /-- Take the oldest element into a variable of the caller, which holds `out`. -/
  | pop (out : α)
  deriving DecidableEq, Repr

/-- What a caller gets back from a queue. -/
structure QueueReply (α : Type) where
  /-- The request was served. -/
  served : Bool
  /-- What the variable of the caller holds afterwards. -/
  kept : α
  deriving DecidableEq, Repr

/-- The number of slots of a ring: two to the power of `bits`. -/
def ringCapacity (bits : Nat) : Nat :=
  1 <<< bits

theorem ringCapacity_pos (bits : Nat) : 0 < ringCapacity bits := by
  rw [ringCapacity, Nat.one_shiftLeft]
  exact Nat.two_pow_pos bits

/-- A ring of `ringCapacity bits` slots. -/
structure Ring (α : Type) (bits : Nat) where
  slots : Vector α (ringCapacity bits)
  /-- Elements taken so far, modulo `2 ^ 64`. -/
  head : UInt64
  /-- Elements appended so far, modulo `2 ^ 64`. -/
  tail : UInt64

namespace Ring

variable {α : Type} {bits : Nat}

/-- The ring without elements, its slots filled with a blank. -/
def empty (blank : α) : Ring α bits where
  slots := Vector.replicate (ringCapacity bits) blank
  head := 0
  tail := 0

/-- The number of slots. -/
def capacity (_ : Ring α bits) : Nat :=
  ringCapacity bits

/-- The number of waiting elements. -/
def size (r : Ring α bits) : Nat :=
  (r.tail - r.head).toNat

/-- No element is waiting. -/
def isEmpty (r : Ring α bits) : Bool :=
  r.head == r.tail

/-- Every slot holds a waiting element. -/
def isFull (r : Ring α bits) : Bool :=
  r.size == r.capacity

/-- The slot that a counter stands for. -/
def index (bits : Nat) (counter : UInt64) : Fin (ringCapacity bits) :=
  ⟨counter.toNat % ringCapacity bits, Nat.mod_lt _ (ringCapacity_pos bits)⟩

/-- The content of the slot that a counter stands for. -/
def slot (r : Ring α bits) (counter : UInt64) : α :=
  r.slots[index bits counter]

/-- Replace the content of the slot that a counter stands for. -/
def setSlot (r : Ring α bits) (counter : UInt64) (x : α) : Ring α bits :=
  { r with slots := r.slots.set (index bits counter) x }

/-- Append an element. A full ring takes none. -/
def push? (r : Ring α bits) (x : α) : Option (Ring α bits) :=
  if r.isFull then none
  else some { r.setSlot r.tail x with tail := r.tail + 1 }

/-- Take the oldest element. What moving it out leaves of it stays in its slot. An empty ring has
none. -/
def pop? (leave : α → α) (r : Ring α bits) : Option (α × Ring α bits) :=
  if r.isEmpty then none
  else
    let x := r.slot r.head
    some (x, { r.setSlot r.head (leave x) with head := r.head + 1 })

/-- The waiting elements, oldest first. -/
def toList (r : Ring α bits) : List α :=
  (List.range r.size).map fun i => r.slot (r.head + UInt64.ofNat i)

/-- Serve a request. One that cannot be served leaves the ring and the variable as they are. -/
def serve (leave : α → α) (r : Ring α bits) : QueueRequest α → QueueReply α × Ring α bits
  | .push x =>
    match r.push? x with
    | some r' => (⟨true, leave x⟩, r')
    | none => (⟨false, x⟩, r)
  | .pop out =>
    match r.pop? leave with
    | some (x, r') => (⟨true, x⟩, r')
    | none => (⟨false, out⟩, r)

theorem slot_setSlot (r : Ring α bits) (i j : UInt64) (x : α) :
    (r.setSlot i x).slot j = if index bits i = index bits j then x else r.slot j := by
  simp only [slot, setSlot, Fin.getElem_fin, Vector.getElem_set, Fin.val_inj]

end Ring

end InterCore
