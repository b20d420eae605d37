import InterCore.Bench.ChainStep

/-!
# Scripts on one arena

A script that registers regions of one zeroed memory and links their nodes. Addresses of the
script are distances from the origin of that memory, in either direction.
-/

namespace InterCore.Bench

/-- Where the memory of arena scripts starts. -/
def arenaOrigin : Address := 0x7F4C2D600000

/-- The address at a distance from the origin; nothing stands for the null pointer. -/
def addressAt : Option Int → Address
  | none => Address.null
  | some offset => arenaOrigin + UInt64.ofInt offset

/-- The distance of an address from the origin. -/
def positionOf (p : Address) : Option Int :=
  if p = Address.null then none else some (p - arenaOrigin).toInt64.toInt

/-- A step of an arena script. -/
inductive ArenaStep where
  | register (base : Option Int) (stride count : UInt64)
  | address (node : NodeIndex)
  | indexOf (position : Option Int)
  | resolve (position : Option Int)
  | size
  /-- Store links of a node as they are; an absent one is kept. -/
  | poke (node : NodeIndex) (next prev : Option (Option Int))
  | peek (node : NodeIndex)
  | chain (step : ChainStep)
  deriving DecidableEq, Repr

/-- The state of an arena script. -/
structure ArenaBench where
  arena : Arena := {}
  memory : Memory := Memory.zero

namespace ArenaBench

/-- Perform a step. -/
def perform (b : ArenaBench) : ArenaStep → Except Halt (Reply × ArenaBench)
  | .register base stride count => do
    let (first, arena) ← b.arena.register (addressAt base) stride count
    return (.number first.toNat, { b with arena })
  | .address node => return (.position (positionOf (← b.arena.address node)), b)
  | .indexOf position => return (.node (b.arena.indexOf? (addressAt position)), b)
  | .resolve position =>
    return (.node (some (← b.arena.resolve (addressAt position))), b)
  | .size => return (.number b.arena.size.toNat, b)
  | .poke node next prev => do
    let p ← b.arena.address node
    let m := match next with
      | some q => b.memory.setNext p (addressAt q)
      | none => b.memory
    let m := match prev with
      | some q => m.setPrev p (addressAt q)
      | none => m
    return (.done, { b with memory := m })
  | .peek node => do
    let p ← b.arena.address node
    return (.positions [positionOf (b.memory.next p), positionOf (b.memory.prev p)], b)
  | .chain step => do
    let (reply, memory) ← step.perform b.arena b.memory
    return (reply, { b with memory })

/-- The links of every registered node, in the order of their indices. -/
def links (b : ArenaBench) : List (List (Option Int)) :=
  (List.range b.arena.size.toNat).filterMap fun i =>
    match b.arena.address (UInt16.ofNat i) with
    | .ok p => some [positionOf (b.memory.next p), positionOf (b.memory.prev p)]
    | .error _ => none

/-- The outcome of one step of a script. -/
structure Outcome where
  reply : Reply
  /-- The links after the step, if the script asks for them. -/
  links : Option (List (List (Option Int)))

/-- Run a script up to its end or its first halt. -/
def run (b : ArenaBench) (showLinks : Bool) : List ArenaStep → List Outcome × Option Halt
  | [] => ([], none)
  | step :: steps =>
    match b.perform step with
    | .error e => ([], some e)
    | .ok (reply, b) =>
      let (outcomes, halt) := run b showLinks steps
      ({ reply, links := if showLinks then some b.links else none } :: outcomes, halt)

end ArenaBench

end InterCore.Bench
