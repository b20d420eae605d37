import InterCore.Board

/-!
# Replies of the bench

What a step of a bench script answers, as data. Writing it down is left to whoever runs the bench.
-/

namespace InterCore.Bench

/-- What a pointer of a published table points at. -/
inductive Published where
  | nothing
  | object (o : Object)
  | elsewhere
  /-- Not a pointer but a size. -/
  | size (n : Nat)
  deriving DecidableEq, Repr

/-- The published tables, field by field. -/
structure PublishedTables where
  reference : List Published
  ble : List Published
  system : List Published
  buffers : List Published
  traces : List Published
  deriving DecidableEq, Repr

/-- The answer of one step. -/
inductive Reply where
  | done
  | flag (b : Bool)
  | number (n : Nat)
  | numbers (ns : List Nat)
  | node (i : Option NodeIndex)
  | nodes (is : List NodeIndex)
  /-- A distance from the origin of the memory; nothing stands for the null pointer. -/
  | position (offset : Option Int)
  | positions (offsets : List (Option Int))
  | sent (result : Except SendError Unit)
  | bytes (bs : List UInt8)
  /-- A region of fixed size. -/
  | region (bs : List UInt8)
  | event (view : EventView)
  | fields (contents : List Field.Content)
  | settings (s : Switches)
  | counters (c : Counters)
  | tables (t : PublishedTables)

end InterCore.Bench
