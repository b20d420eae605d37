import InterCore.Bench.ChainStep
import InterCore.Host.Boot
import InterCore.Host.Interrupt
import InterCore.Peer

/-!
# Actions on the board

Everything a bench script can do to a board, as data: boots, calls of the host, uses of the
application's boxes, moves of the peer, the doorbells, raw writes to shared memory, and questions.
-/

namespace InterCore.Bench

/-- What observes the board. -/
inductive Watch where
  /-- Keep every event, count it, and run the hooks that wait for it. -/
  | record
  /-- Nothing does. -/
  | silent
  /-- Log and count every event. -/
  | log
  deriving DecidableEq, Repr

/-- A boot. -/
structure BootPlan where
  /-- The number of event slots for a boot without a reference table. -/
  slots : Option UInt64
  switches : Switches
  watch : Watch
  /-- The parts of the storage that are offered. -/
  storage : Storage
  deriving DecidableEq, Repr

/-- A call of the host. -/
inductive HostAction where
  | receiveInterrupt
  | transmitInterrupt
  | discardTraces
  | fetchEvents (e : Endpoint)
  | systemAnswered
  | aclAcknowledged
  | releaseAcknowledged
  | flush
  | giveBack (node : NodeIndex)
  | sendCommandSerial (bytes : List UInt8)
  | sendCommand (opcode : UInt16) (parameters : List UInt8)
  | sendAclSerial (bytes : List UInt8)
  | sendAcl (handle : UInt16) (data : List UInt8)
  | sendSystemCommand (opcode : UInt16) (parameters : List UInt8)
  deriving DecidableEq, Repr

/-- A use of the application's boxes. -/
inductive BoxAction where
  | take (e : Endpoint) (i : Nat)
  /-- Put a box around a node in this place. -/
  | wrap (i : Nat) (node : NodeIndex)
  | release (i : Nat)
  /-- Destroy a box and make an empty one. -/
  | renew (i : Nat)
  | move (source target : Nat)
  /-- Move a box out, then move what was taken out into another. -/
  | moveByTemporary (source target : Nat)
  | node (i : Nat)
  | owns (i : Nat)
  | kind (i : Nat)
  | eventCode (i : Nat)
  | eventData (i : Nat)
  | packet (i : Nat)
  deriving DecidableEq, Repr

/-- A move of the peer. -/
inductive PeerAction where
  | deliverEvent (code : UInt8) (data : List UInt8)
  | deliverSystemEvent (code : UInt8) (data : List UInt8)
  | deliverTrace (data : List UInt8)
  | reclaim
  | takeCommand
  | takeAcl
  | answerSystemCommand (status : UInt8)
  | writeCommandStatus (status : UInt8) (opcode : UInt16)
  deriving DecidableEq, Repr

/-- A use of one channel of the doorbells. -/
inductive BellAction where
  | ring
  | clear
  | isBusy
  | enableRx (on : Bool)
  | enableTx (on : Bool)
  | rxPending
  | txPending
  | acknowledge
  | signal
  | rings
  deriving DecidableEq, Repr

/-- A raw link. -/
inductive LinkTarget where
  | null
  | node (i : NodeIndex)
  /-- A node that no region holds. -/
  | stray
  /-- So many bytes into a node. -/
  | inside (i : NodeIndex) (offset : UInt64)
  deriving DecidableEq, Repr

/-- A raw write to shared memory. -/
inductive RawAction where
  /-- Write an event packet at a node. -/
  | put (node : NodeIndex) (kind code length : UInt8) (data : List UInt8)
  /-- Store links of a node as they are; an absent one is kept. -/
  | poke (node : NodeIndex) (next prev : Option LinkTarget)
  /-- Fill the serial parts of all buffers, and the device information, with one byte. -/
  | scribble (value : UInt8)
  deriving DecidableEq, Repr

/-- A question. -/
inductive Query where
  | commandBuffer
  | aclBuffer
  | systemBuffer
  | response
  | commandStatus
  | settings
  | queueIndex (q : UInt16)
  | queues
  | deviceInfo
  | counters
  | tables
  deriving DecidableEq, Repr

/-- A step of a board script. -/
inductive Action where
  | boot (plan : BootPlan)
  | host (action : HostAction)
  | box (action : BoxAction)
  | peer (action : PeerAction)
  | bell (channel : UInt8) (action : BellAction)
  | raw (action : RawAction)
  | query (query : Query)
  | chain (step : ChainStep)
  /-- Wait once for an event with a given name and run a script in the middle of the operation that
  tells it. -/
  | hook (event : String) (script : List Action)

end InterCore.Bench
