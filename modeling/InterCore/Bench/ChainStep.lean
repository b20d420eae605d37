import InterCore.Bench.Reply

/-!
# Steps on chains

The operations of `InterCore.Chain` as script steps.
-/

namespace InterCore.Bench

/-- A step on the chains of an arena. -/
inductive ChainStep where
  | init (head : NodeIndex)
  | pushFront (head node : NodeIndex)
  | pushBack (head node : NodeIndex)
  | remove (node : NodeIndex)
  | insertAfter (node ref : NodeIndex)
  | insertBefore (node ref : NodeIndex)
  | isEmpty (head : NodeIndex)
  | popFront (head : NodeIndex)
  | popBack (head : NodeIndex)
  | length (head : NodeIndex)
  | next (ref : NodeIndex)
  | prev (ref : NodeIndex)
  | walk (head : NodeIndex)
  | walkBack (head : NodeIndex)
  deriving DecidableEq, Repr

/-- Perform a step. -/
def ChainStep.perform (a : Arena) (m : Memory) : ChainStep → Except Halt (Reply × Memory)
  | init head => return (.done, ← Chain.init a m head)
  | pushFront head node => return (.done, ← Chain.pushFront a m head node)
  | pushBack head node => return (.done, ← Chain.pushBack a m head node)
  | remove node => return (.done, ← Chain.remove a m node)
  | insertAfter node ref => return (.done, ← Chain.insertAfter a m node ref)
  | insertBefore node ref => return (.done, ← Chain.insertBefore a m node ref)
  | isEmpty head => return (.flag (← Chain.isEmpty a m head), m)
  | popFront head => do
    let (i, m) ← Chain.popFront a m head
    return (.node i, m)
  | popBack head => do
    let (i, m) ← Chain.popBack a m head
    return (.node i, m)
  | length head => return (.number (← Chain.length a m head), m)
  | next ref => return (.node (some (← Chain.next a m ref)), m)
  | prev ref => return (.node (some (← Chain.prev a m ref)), m)
  | walk head => return (.nodes (← Chain.walk a m head), m)
  | walkBack head => return (.nodes (← Chain.walkBack a m head), m)

end InterCore.Bench
