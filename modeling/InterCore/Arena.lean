import InterCore.Halt
import InterCore.Memory

/-!
# The index space of nodes

Nodes lie in memory in up to eight regions, each a run of equally spaced slots. An arena numbers
the slots of its regions one after the other and translates between those numbers and addresses.

All arithmetic is that of machine words: addresses wrap at 64 bits and indices at 16.

## Main definitions

* `Arena.register`: add a region.
* `Arena.address`: the address of a node; `Arena.indexOf?`: the node at an address.
* `Arena.resolve`: the node a link refers to, or a stop.
-/

namespace InterCore

/-- The number of a node within an arena. -/
abbrev NodeIndex := UInt16

/-- The index that names no node. -/
def NodeIndex.none : NodeIndex := 0xFFFF

/-- Read an index as a node, or nothing. -/
def NodeIndex.toOption (i : NodeIndex) : Option NodeIndex :=
  if i = NodeIndex.none then Option.none else some i

/-- Bytes taken by the two links at the start of a node. -/
def nodeSize : UInt64 := 16

/-- A run of nodes `stride` bytes apart. -/
structure Region where
  base : Address
  stride : UInt64
  /-- The index of the first node. -/
  first : NodeIndex
  count : UInt16
  deriving DecidableEq, Repr

namespace Region

/-- The first address past the region. -/
def limit (r : Region) : Address :=
  r.base + r.stride * r.count.toUInt64

/-- The region numbers this index. -/
def holds (r : Region) (i : NodeIndex) : Bool :=
  r.first ≤ i && i.toNat < r.first.toNat + r.count.toNat

/-- The address of the node with a given index. -/
def address (r : Region) (i : NodeIndex) : Address :=
  r.base + (i - r.first).toUInt64 * r.stride

/-- The address lies between the ends of the region. -/
def spans (r : Region) (p : Address) : Bool :=
  r.base ≤ p && p < r.limit

/-- The index of the node that starts at an address of the region, if one does. -/
def indexOf? (r : Region) (p : Address) : Option NodeIndex :=
  let offset := p - r.base
  if offset % r.stride = 0 then (r.first + (offset / r.stride).toUInt16).toOption else Option.none

end Region

/-- A set of registered regions. -/
structure Arena where
  /-- The regions in the order of their registration. -/
  regions : List Region := []
  /-- The number of registered nodes, which is the next free index. -/
  size : UInt16 := 0
  deriving DecidableEq, Repr

namespace Arena

/-- The number of regions an arena has room for. -/
def maxRegions : Nat := 8

/-- Register `count` nodes `stride` bytes apart from `base` on. Returns the index of the first. -/
def register (a : Arena) (base : Address) (stride count : UInt64) :
    Except Halt (NodeIndex × Arena) :=
  if a.regions.length = maxRegions then
    throw .regionTableFull
  else if base = Address.null ∨ stride < nodeSize ∨ count = 0 ∨
      NodeIndex.none.toUInt64 ≤ a.size.toUInt64 + count then
    throw .invalidRegion
  else
    let region : Region := { base, stride, first := a.size, count := count.toUInt16 }
    pure (a.size, { regions := a.regions ++ [region], size := a.size + count.toUInt16 })

/-- The address of a node. -/
def address (a : Arena) (i : NodeIndex) : Except Halt Address :=
  match a.regions.find? (·.holds i) with
  | some r => pure (r.address i)
  | none => throw .unknownNode

/-- The node that starts at an address. The first region around the address decides. -/
def indexOf? (a : Arena) (p : Address) : Option NodeIndex :=
  match a.regions.find? (·.spans p) with
  | some r => r.indexOf? p
  | none => none

/-- The node that a link found in memory refers to. -/
def resolve (a : Arena) (p : Address) : Except Halt NodeIndex :=
  match a.indexOf? p with
  | some i => pure i
  | none => throw .strayLink

/-- The address of the node that a link found in memory refers to. -/
def follow (a : Arena) (p : Address) : Except Halt Address := do
  a.address (← a.resolve p)

end Arena

end InterCore
