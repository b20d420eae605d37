import InterCore.Chain
import InterCore.Doorbell
import InterCore.Event
import InterCore.Ring
import InterCore.Storage
import InterCore.Switches

/-!
# The board

The state of the whole system: memory and doorbells, which both cores see, the private state of
the host core and of the peer core, the boxes of the application, and whatever the observer keeps.
Operations of the host are programs on a board that may halt; the board as it was when it halted
is kept.

## Main definitions

* `Board`: the state, over the type of the observer's own state.
* `BoardM`: programs on a board.
* `Observer`: told every event as it happens. It may run any program on the board, in the middle
  of the operation that tells it.
-/

namespace InterCore

/-- A handle that owns at most one received event buffer. -/
structure Box where
  /-- The buffer it owns. -/
  node : Option NodeIndex := none
  /-- It knows where to give its buffer back. -/
  bound : Bool := false
  deriving DecidableEq, Repr, Inhabited

/-- The empty box. -/
def Box.empty : Box := {}

/-- A box around a node. -/
def Box.around (node : NodeIndex) : Box where
  node := node.toOption
  bound := true

/-- The ring of received events that wait for the application. -/
abbrev Inbox := Ring Box 5

/-- The receiving side of an endpoint. -/
structure Receiver where
  /-- The head of the shared queue that the peer fills. -/
  queue : NodeIndex
  inbox : Inbox

/-- The private state of the host core. -/
structure Host where
  place : Placement
  arena : Arena
  switches : Switches
  /-- The first of the shared queue heads. -/
  firstQueue : NodeIndex
  /-- Buffers given back, which the peer takes. -/
  freeQueue : NodeIndex
  /-- Buffers waiting to be given back, which only the host sees. -/
  localQueue : NodeIndex
  /-- Waiting buffers need the release channel to become free. -/
  releasePending : Bool
  ble : Receiver
  system : Receiver
  /-- An ACL packet was sent and not yet acknowledged. -/
  aclInFlight : Bool
  /-- A system command was sent and not yet answered. -/
  systemBusy : Bool
  /-- The last system command was answered. -/
  responseReady : Bool

namespace Host

/-- The receiving side of an endpoint. -/
def receiver (h : Host) : Endpoint → Receiver
  | .ble => h.ble
  | .system => h.system

/-- Replace the receiving side of an endpoint. -/
def setReceiver (h : Host) : Endpoint → Receiver → Host
  | .ble, r => { h with ble := r }
  | .system, r => { h with system := r }

/-- The node of a shared queue head. -/
def queue (h : Host) (q : Queue) : NodeIndex :=
  h.firstQueue + q.number

end Host

/-- The private state of the peer core. -/
structure Peer where
  /-- Where it finds the reference table. -/
  referenceTable : Address
  /-- The event slots it may fill, the next one first. -/
  free : List Address
  /-- The number of event slots it was given at boot. -/
  poolSlots : Nat
  deriving DecidableEq, Repr, Inhabited

/-- The state of the whole system. -/
structure Board (σ : Type) where
  memory : Memory
  panel : Panel
  /-- How often the clock of the doorbells was enabled, modulo `2 ^ 32`. -/
  clockEnables : UInt32
  host : Host
  peer : Peer
  /-- The boxes of the application. -/
  boxes : Array Box
  /-- What the observer keeps. -/
  sink : σ

/-- Programs on a board, which may halt. -/
abbrev BoardM (σ : Type) := EStateM Halt (Board σ)

/-- What is told every event as it happens. -/
abbrev Observer (σ : Type) := Event → BoardM σ Unit

/-- The observer that takes no notice. -/
def Observer.silent {σ : Type} : Observer σ := fun _ => pure ()

namespace Board

variable {σ : Type}

/-- Look something up in the arena and the memory. -/
def lookup {α : Type} (f : Arena → Memory → Except Halt α) : BoardM σ α := fun b =>
  match f b.host.arena b.memory with
  | .ok x => .ok x b
  | .error e => .error e b

/-- Change links in memory. -/
def splice (f : Arena → Memory → Except Halt Memory) : BoardM σ Unit := fun b =>
  match f b.host.arena b.memory with
  | .ok m => .ok () { b with memory := m }
  | .error e => .error e b

/-- Change links in memory and learn a node. -/
def extract {α : Type} (f : Arena → Memory → Except Halt (α × Memory)) : BoardM σ α := fun b =>
  match f b.host.arena b.memory with
  | .ok (x, m) => .ok x { b with memory := m }
  | .error e => .error e b

/-- The address of a node. -/
def address (i : NodeIndex) : BoardM σ Address :=
  lookup fun a _ => a.address i

/-- Change the memory. -/
def modifyMemory (f : Memory → Memory) : BoardM σ Unit :=
  modify fun b => { b with memory := f b.memory }

/-- Change the state of a channel. -/
def modifyBell (c : Channel) (f : Bell → Bell) : BoardM σ Unit :=
  modify fun b => { b with panel := b.panel.modify c f }

/-- The state of a channel. -/
def bell (c : Channel) : BoardM σ Bell := do
  return (← get).panel.get c

/-- Change the private state of the host. -/
def modifyHost (f : Host → Host) : BoardM σ Unit :=
  modify fun b => { b with host := f b.host }

/-- Change the private state of the peer. -/
def modifyPeer (f : Peer → Peer) : BoardM σ Unit :=
  modify fun b => { b with peer := f b.peer }

/-- Change what the observer keeps. -/
def modifySink (f : σ → σ) : BoardM σ Unit :=
  modify fun b => { b with sink := f b.sink }

/-- Run `round` until it says that nothing was left to do, and count the rounds before. More than
`limit` rounds count as endless. -/
def countRounds (round : BoardM σ Bool) : Nat → Nat → BoardM σ Nat
  | 0, _ => throw .endless
  | limit + 1, counted => do
    if ← round then countRounds round limit (counted + 1) else return counted

/-- Run `round` until nothing is left to do. Returns the number of rounds that did something. -/
def drain (round : BoardM σ Bool) : BoardM σ Nat :=
  countRounds round stepLimit 0

end Board

end InterCore
