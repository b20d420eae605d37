import InterCore.Ring

/-!
# Scripts on one ring

A script that pushes boxed numbers into a ring and pops them. A box holds a number or, once that
was moved out, nothing. What is popped goes to one output box.
-/

namespace InterCore.Bench

/-- A step of a ring script. -/
inductive RingStep where
  | push (v : Int)
  | pop
  | capacity
  deriving DecidableEq, Repr

/-- The answer of a step of a ring script. -/
inductive RingReply where
  /-- Whether the number was taken, and what the caller's box holds afterwards. -/
  | pushed (taken : Bool) (kept : Option Int)
  /-- Whether a number was found, and what the output box holds afterwards. -/
  | popped (found : Bool) (out : Option Int)
  | capacity (n : Nat)
  deriving DecidableEq, Repr

/-- The state of a ring script. -/
structure RingBench (bits : Nat) where
  ring : Ring (Option Int) bits := Ring.empty none
  out : Option Int := none

/-- The outcome of one step: its answer and the state of the ring after it. -/
structure RingOutcome where
  reply : RingReply
  size : Nat
  isEmpty : Bool
  isFull : Bool
  deriving DecidableEq, Repr

namespace RingBench

variable {bits : Nat}

/-- Perform a step. -/
def perform (b : RingBench bits) : RingStep → RingReply × RingBench bits
  | .push v =>
    let (reply, ring) := b.ring.serve (fun _ => none) (.push (some v))
    (.pushed reply.served reply.kept, { b with ring })
  | .pop =>
    let (reply, ring) := b.ring.serve (fun _ => none) (.pop b.out)
    (.popped reply.served reply.kept, { ring, out := reply.kept })
  | .capacity => (.capacity b.ring.capacity, b)

/-- Run a script. -/
def run (b : RingBench bits) : List RingStep → List RingOutcome
  | [] => []
  | step :: steps =>
    let (reply, b) := b.perform step
    { reply, size := b.ring.size, isEmpty := b.ring.isEmpty, isFull := b.ring.isFull } ::
      run b steps

end RingBench

end InterCore.Bench
