import InterCore.Bench.Recorder

/-!
# Bench sessions

A session boots a board, performs a script, and shuts the board down. Every step is reported with
its answer, what was observed while it ran, and the state of the board after it. A halt ends the
session.

## Main definitions

* `BoardView`: what a report shows of a board.
* `Session.run`: the reports of a session.
-/

namespace InterCore.Bench

open Board

/-- What a report shows of a board. -/
structure BoardView where
  bells : List Bell
  /-- The members of the four shared queues and of the local queue. -/
  queues : List (List (Option NodeIndex))
  boxes : List (Option NodeIndex)
  /-- Events in the inboxes. -/
  bleWaiting : Nat
  systemWaiting : Nat
  releasePending : Bool
  aclInFlight : Bool
  systemBusy : Bool
  responseReady : Bool
  /-- The free slots of the peer and the slots it misses, if there is a peer. -/
  peer : Option (Nat × UInt64)
  clockEnables : UInt32

/-- The board as a report shows it. -/
def BoardView.of {σ : Type} (b : Board σ) : BoardView where
  bells := Channel.all.map b.panel.get
  queues :=
    [b.host.queue .ble, b.host.queue .system, b.host.queue .free, b.host.queue .traces,
      b.host.localQueue].map (Chain.members b.host.arena b.memory)
  boxes := b.boxes.toList.map (·.node)
  bleWaiting := b.host.ble.inbox.size
  systemWaiting := b.host.system.inbox.size
  releasePending := b.host.releasePending
  aclInFlight := b.host.aclInFlight
  systemBusy := b.host.systemBusy
  responseReady := b.host.responseReady
  peer :=
    if b.peer.referenceTable = Address.null then none
    else some (b.peer.free.length, b.peer.outstanding)
  clockEnables := b.clockEnables

/-- The report of one step. -/
structure Report where
  /-- The answer; the last step has none. -/
  reply : Option Reply
  events : List Event
  hookReplies : List Reply
  lines : List String
  /-- The board after the step; the last step leaves none. -/
  view : Option BoardView

/-- The report of a halt: its cause and the events of the step before it. -/
structure HaltReport where
  cause : Halt
  events : List Event

/-- The observer of a session. -/
def sessionObserver : Observer Recorder :=
  recording stepLimit

/-- Run one step of a session. -/
def step (b : Board Recorder) (x : BenchM Reply) : Except HaltReport (Report × Board Recorder) :=
  match x.run { b with sink := b.sink.startStep } with
  | .ok reply b =>
    .ok ({ reply := some reply
           events := b.sink.events.toList
           hookReplies := b.sink.hookReplies.toList
           lines := b.sink.lines.toList
           view := some (BoardView.of b) }, b)
  | .error cause b => .error { cause, events := b.sink.events.toList }

/-- Shut the board down: drop the hooks and give back what the boxes own. -/
def finish : BenchM Reply := do
  modifySink fun r => { r with hooks := [] }
  Host.shutdown sessionObserver
  return .done

/-- Run actions, then shut down. -/
def runActions (b : Board Recorder) : List Action → List Report × Option HaltReport
  | [] =>
    match step b finish with
    | .ok (report, _) => ([{ report with reply := none, view := none }], none)
    | .error halt => ([], some halt)
  | action :: actions =>
    match step b (perform sessionObserver action) with
    | .ok (report, b) =>
      let (reports, halt) := runActions b actions
      (report :: reports, halt)
    | .error halt => ([], some halt)

/-- Boot a blank board, run actions and shut down. -/
def runSession (plan : BootPlan) (script : List Action) : List Report × Option HaltReport :=
  runActions blank (.boot plan :: script)

end InterCore.Bench
