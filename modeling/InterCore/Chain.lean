import InterCore.Arena

/-!
# Circular chains of nodes

A chain is a circular doubly linked list through memory: every node starts with two pointers, to
the next node and to the previous one, and an empty head points at itself. Callers name nodes by
their index; the links are addresses, because the other core follows them as they are.

Every operation first looks up all the nodes it will touch and stops before it has written
anything if one of them cannot be found. The links are then written in the order given here, which
matters where neighbours coincide.

## Main definitions

* `Chain.insertAfter`, `Chain.insertBefore`, `Chain.remove`: the three splices.
* `Chain.pushFront`, `Chain.pushBack`, `Chain.popFront`, `Chain.popBack`: a chain as a list.
* `Chain.members`: what the forward links of a head lead to.
-/

namespace InterCore

namespace Memory

/-- The forward link of the node at an address. -/
def next (m : Memory) (p : Address) : Address :=
  m.pointer p

/-- The backward link of the node at an address. -/
def prev (m : Memory) (p : Address) : Address :=
  m.pointer (p + 8)

/-- Store the forward link of a node. -/
def setNext (m : Memory) (p q : Address) : Memory :=
  m.setPointer p q

/-- Store the backward link of a node. -/
def setPrev (m : Memory) (p q : Address) : Memory :=
  m.setPointer (p + 8) q

end Memory

namespace Chain

variable (a : Arena) (m : Memory)

/-- Make a head an empty chain. -/
def init (head : NodeIndex) : Except Halt Memory := do
  let h ← a.address head
  return (m.setNext h h).setPrev h h

/-- The head has no members: its forward link leads back to it. -/
def isEmpty (head : NodeIndex) : Except Halt Bool := do
  let h ← a.address head
  return m.next h == h

/-- Link a node between `ref` and what follows it. -/
def insertAfter (node ref : NodeIndex) : Except Halt Memory := do
  let n ← a.address node
  let r ← a.address ref
  let after ← a.follow (m.next r)
  return (((m.setNext n after).setPrev n r).setNext r n).setPrev after n

/-- Link a node between `ref` and what precedes it. -/
def insertBefore (node ref : NodeIndex) : Except Halt Memory := do
  let n ← a.address node
  let r ← a.address ref
  let before ← a.follow (m.prev r)
  return (((m.setNext n r).setPrev n before).setPrev r n).setNext before n

/-- Add a node at the front of a chain. -/
def pushFront (head node : NodeIndex) : Except Halt Memory :=
  insertAfter a m node head

/-- Add a node at the back of a chain. -/
def pushBack (head node : NodeIndex) : Except Halt Memory :=
  insertBefore a m node head

/-- Join the neighbours of a node. The node keeps its own links. -/
def remove (node : NodeIndex) : Except Halt Memory := do
  let n ← a.address node
  let before ← a.follow (m.prev n)
  let after ← a.follow (m.next n)
  let joined := m.setNext before (m.next n)
  return joined.setPrev after (joined.prev n)

/-- Take the first member of a chain, if there is one. -/
def popFront (head : NodeIndex) : Except Halt (Option NodeIndex × Memory) := do
  if ← isEmpty a m head then
    return (none, m)
  let first ← a.resolve (m.next (← a.address head))
  return (some first, ← remove a m first)

/-- Take the last member of a chain, if there is one. -/
def popBack (head : NodeIndex) : Except Halt (Option NodeIndex × Memory) := do
  if ← isEmpty a m head then
    return (none, m)
  let last ← a.resolve (m.prev (← a.address head))
  return (some last, ← remove a m last)

/-- The node after a node. -/
def next (ref : NodeIndex) : Except Halt NodeIndex := do
  a.resolve (m.next (← a.address ref))

/-- The node before a node. -/
def prev (ref : NodeIndex) : Except Halt NodeIndex := do
  a.resolve (m.prev (← a.address ref))

/-- Count forward links from `p` to `h`, given how many were counted before. -/
def countTo (h : Address) : Nat → Nat → Address → Except Halt Nat
  | 0, _, _ => throw .endless
  | fuel + 1, counted, p =>
    if p = h then pure counted else countTo h fuel (counted + 1) (m.next p)

/-- The number of members, by following the forward links as they are. -/
def length (head : NodeIndex) : Except Halt Nat := do
  let h ← a.address head
  countTo m h stepLimit 0 (m.next h)

/-! ### Views -/

/-- The nodes that `step` leads to one after the other, at most `limit` of them, up to `stop`. -/
def walkTo (step : NodeIndex → Except Halt NodeIndex) (stop : NodeIndex) :
    Nat → NodeIndex → Except Halt (List NodeIndex)
  | 0, _ => pure []
  | limit + 1, i => do
    let j ← step i
    if j = stop then pure [] else return j :: (← walkTo step stop limit j)

/-- The number of nodes after which a walk or a view is cut off. -/
def viewLimit : Nat := 64

/-- The members from first to last. -/
def walk (head : NodeIndex) : Except Halt (List NodeIndex) :=
  walkTo (next a m) head viewLimit head

/-- The members from last to first. -/
def walkBack (head : NodeIndex) : Except Halt (List NodeIndex) :=
  walkTo (prev a m) head viewLimit head

/-- What the forward links from `p` lead to before they reach `h`. A link that is not the address
of a node shows as `none` and ends the view. -/
def membersFrom (h : Address) : Nat → Address → List (Option NodeIndex)
  | 0, _ => []
  | limit + 1, p =>
    if p = h then [] else
      match a.indexOf? p with
      | some i => some i :: membersFrom h limit (m.next p)
      | none => [none]

/-- The members that the forward links of a head lead to. -/
def members (head : NodeIndex) : List (Option NodeIndex) :=
  match a.address head with
  | .ok h => membersFrom a m h viewLimit (m.next h)
  | .error _ => []

end Chain

end InterCore
