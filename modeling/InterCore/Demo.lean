import InterCore.Host.Boot
import InterCore.Host.Interrupt
import InterCore.Peer
import InterCore.Version

/-!
# The demonstration

One walk through everything that the two cores exchange: a reset command and the event that
completes it, a packet of ACL data, a system command answered in place. The interrupts are called
after each move of the peer.

## Main definitions

* `Demo.run`: the lines that a demonstration prints, and its exit code.
-/

namespace InterCore.Demo

open Board

/-- What a demonstration has printed so far, and the counters of its observer. -/
structure Console where
  out : Array String := #[]
  err : Array String := #[]
  counters : Counters := {}

/-- Programs that print. -/
abbrev DemoM := BoardM Console

/-- Print a line. -/
def say (line : String) : DemoM Unit :=
  modifySink fun c => { c with out := c.out.push line }

/-- Print a line of complaint and fail. -/
def complain (line : String) : DemoM UInt32 := do
  modifySink fun c => { c with err := c.err.push ("mbox_demo: " ++ line) }
  return 1

/-- Complain about a refused send. -/
def refused (step : String) (e : SendError) : DemoM UInt32 :=
  complain (step ++ " failed: " ++ e.name)

/-- The observer that logs and counts. -/
def logging : Observer Console := fun e =>
  modifySink fun c => { c with out := c.out.push e.line, counters := c.counters.record e }

/-- The HCI reset command. -/
def resetOpcode : UInt16 := 0x0C03

/-- The system command that asks for the firmware version. -/
def firmwareOpcode : UInt16 := 0xFC56

/-- The connection that the ACL data is for. -/
def connection : UInt16 := 0x0040

variable (observer : Observer Console)

/-- The fields of the packet at an address after its event header, as a command complete event:
credits, opcode and status. -/
def completion (m : Memory) (p : Address) : Nat × Nat × Nat :=
  let body := Packet.serial p + 3
  (m.number body 1, m.number (body + 1) 2, m.number (body + 3) 1)

/-- Describe the packet at an address. -/
def describe (m : Memory) (p : Address) : String :=
  let code := Packet.eventCode m p
  if code = EventCode.commandComplete.code then
    let (credits, opcode, status) := completion m p
    "command complete: opcode " ++ Hexadecimal.text 4 opcode ++ ", status " ++
      Hexadecimal.text 2 status ++ ", " ++ toString credits ++ " credit(s)"
  else
    "ble event " ++ Hexadecimal.text 2 code.toNat ++ ", " ++
      toString (Packet.eventLength m p).toNat ++ " payload bytes"

/-- Describe the oldest received event and give its buffer back, if there is one. -/
def describeOne : DemoM Bool := do
  unless ← Host.takeEvent observer .ble 0 do
    return false
  let p ← Host.openBox (.application 0)
  say (describe (← get).memory p)
  Host.releaseBox observer (.application 0)
  return true

/-- The line of the counters that a demonstration ends with. -/
def counterLine (c : Counters) : String :=
  "counters: commands=" ++ toString c.commandsSent.toNat ++
    " acl=" ++ toString c.aclSent.toNat ++
    " events=" ++ toString c.eventsReceived.toNat ++
    " released=" ++ toString c.buffersReleased.toNat ++
    " doorbells=" ++ toString c.releaseDoorbells.toNat

/-- Send the reset command, let the peer complete it, and describe what was received. -/
def exchangeCommand : DemoM (Option UInt32) := do
  if let .error e ← Host.sendCommand observer resetOpcode [] then
    return some (← refused "send_cmd" e)
  if let some serial ← Peer.takeCommand then
    let opcode := (serial.drop 1).take 2
    let body := 1 :: (opcode ++ [0])
    unless ← Peer.deliverEvent EventCode.commandComplete.code body do
      return some (← complain "peer has no free event buffer")
  Host.receiveInterrupt observer
  let _ ← drain (describeOne observer)
  say ("peer reclaimed " ++ toString (← Peer.reclaim) ++ " buffer(s)")
  return none

/-- Send ACL data and let the peer consume it. -/
def exchangeAcl : DemoM (Option UInt32) := do
  if let .error e ← Host.sendAcl observer connection [0x02, 0x01, 0x04, 0x00] then
    return some (← refused "send_acl_data" e)
  if (← Peer.takeAcl).isNone then
    return some (← complain "acl doorbell not seen by peer")
  Host.transmitInterrupt observer
  let answer := if (← get).host.aclInFlight then "yes" else "no"
  say ("acl in flight after ack: " ++ answer)
  return none

/-- Send a system command and let the peer answer it. -/
def exchangeSystemCommand : DemoM (Option UInt32) := do
  if let .error e ← Host.sendSystemCommand observer firmwareOpcode [] then
    return some (← refused "sys send_cmd" e)
  unless ← Peer.answerSystemCommand 0 do
    return some (← complain "sys doorbell not seen by peer")
  Host.transmitInterrupt observer
  let b ← get
  if b.host.responseReady then
    let (_, _, status) := completion b.memory (b.host.place.address .systemCommand)
    say ("sys response status " ++ Hexadecimal.text 2 status)
  return none

/-- The demonstration. Returns its exit code. -/
def program (switches : Switches) : DemoM UInt32 := do
  let place := Placement.standard
  Host.boot place.storage place.localHead switches
  Peer.attach place.referenceTable
  say ("tlmbox " ++ Version.current.text ++ ": mailbox up, " ++
    toString (← get).host.arena.size.toNat ++ " nodes in arena")
  let observer := if switches.logEvents then logging else Observer.silent
  if let some code ← exchangeCommand observer then
    return code
  if let some code ← exchangeAcl observer then
    return code
  if let some code ← exchangeSystemCommand observer then
    return code
  if switches.logEvents then
    say (counterLine (← get).sink.counters)
  return 0

/-- What a demonstration leaves. -/
structure Transcript where
  exitCode : UInt32
  out : List String
  err : List String
  deriving DecidableEq, Repr

/-- The board before the boot. -/
def blank : Board Console where
  memory := Memory.zero
  panel := Panel.reset
  clockEnables := 0
  host := Host.fresh Placement.standard {} {}
  peer := default
  boxes := #[Box.empty]
  sink := {}

/-- The blank board is one that a boot may start from. -/
theorem boxes_blank : ∀ x ∈ blank.boxes, x = Box.empty := by
  simp [blank]

/-- The exit code of a core that halted. -/
def haltCode : UInt32 := 134

/-- Run the demonstration. -/
def run (switches : Switches) : Transcript :=
  match (program switches).run blank with
  | .ok code b => { exitCode := code, out := b.sink.out.toList, err := b.sink.err.toList }
  | .error cause b =>
    { exitCode := haltCode
      out := b.sink.out.toList
      err := b.sink.err.toList ++ ["tlmbox: fatal: " ++ cause.message] }

end InterCore.Demo
