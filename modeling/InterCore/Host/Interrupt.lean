import InterCore.Host.Inbox
import InterCore.Host.Send

/-!
# Interrupts

The two interrupts of the doorbell peripheral: one for flags that the peer set, one for flags of
the host that the peer consumed. Each looks at its channels in a fixed order and serves those that
are pending at that moment.

## Main definitions

* `Host.receiveInterrupt`: system events, BLE events, traces.
* `Host.transmitInterrupt`: the system response, given-back buffers, ACL data.
* `Host.discardTraces`: report and give back every trace record.
-/

namespace InterCore.Host

open Board

variable {σ : Type} (observer : Observer σ)

/-- Report the first trace record and give its buffer back, if there is one. -/
def discardOne (drop : NodeIndex → BoardM σ Unit := giveBack observer) : BoardM σ Bool := do
  let queue := (← get).host.queue .traces
  match ← extract fun a m => Chain.popFront a m queue with
  | none => return false
  | some node =>
    let p ← address node
    let m := (← get).memory
    observer
      { kind := .traceReceived, channel := Channel.traces.number,
        length := (Packet.eventLength m p).toUInt64, code := Packet.kind m p }
    drop node
    return true

/-- Report and give back every trace record, then clear the peer's flag. -/
def discardTraces (drop : NodeIndex → BoardM σ Unit := giveBack observer) : BoardM σ Unit := do
  let _ ← drain (discardOne observer drop)
  acknowledge .traces

/-- The peer set flags. -/
def receiveInterrupt (drop : NodeIndex → BoardM σ Unit := giveBack observer) : BoardM σ Unit := do
  if (← bell .systemEvent).rxPending then
    fetchEvents observer .system drop
  if (← bell .bleEvent).rxPending then
    fetchEvents observer .ble drop
  if (← bell .traces).rxPending then
    discardTraces observer drop

/-- The peer consumed flags. -/
def transmitInterrupt : BoardM σ Unit := do
  if (← bell .systemCommand).txPending then
    systemAnswered observer
  if (← bell .release).txPending then
    releaseAcknowledged observer
  if (← bell .aclData).txPending then
    aclAcknowledged observer

end InterCore.Host
