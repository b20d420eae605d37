import InterCore.Host.Boxes

/-!
# Receiving events

Each endpoint has a queue in shared memory, which the peer fills, and an inbox, from which the
application takes. The receive interrupt moves everything from the queue to the inbox, then clears
the peer's flag.

## Main definitions

* `Host.fetchOne`: move one event from the shared queue to the inbox.
* `Host.fetchEvents`: move all of them and clear the flag.
* `Host.takeEvent`: the application takes the oldest event.
-/

namespace InterCore

namespace Endpoint

/-- The channel on which the peer announces events to the endpoint. -/
def channel : Endpoint → Channel
  | .ble => .bleEvent
  | .system => .systemEvent

/-- What an observer is told about an event that reached the inbox. -/
def received : Endpoint → Event.Kind
  | .ble => .eventReceived
  | .system => .systemEventReceived

end Endpoint

namespace Host

open Board

variable {σ : Type} (observer : Observer σ) (e : Endpoint)

/-- The inbox of an endpoint. -/
def inbox : BoardM σ Inbox := do
  return ((← get).host.receiver e).inbox

/-- Change the inbox of an endpoint. -/
def modifyInbox (f : Inbox → Inbox) : BoardM σ Unit :=
  modifyHost fun h =>
    let receiver := h.receiver e
    h.setReceiver e { receiver with inbox := f receiver.inbox }

/-- Append a box to the inbox, unless it is full. The slot is assigned like any box, and the
counter moves on last. -/
def deliverBox (x : Box) (drop : NodeIndex → BoardM σ Unit := giveBack observer) :
    BoardM σ Bool := do
  let ring ← inbox e
  if ring.isFull then
    return false
  assignBox observer (.inbox e ring.tail) x drop
  modifyInbox e fun r => { r with tail := ring.tail + 1 }
  return true

/-- Move the oldest event of the inbox into a box of the application, unless there is none. The
counter moves on last, from where it was at the start. -/
def takeEvent (i : Nat) (drop : NodeIndex → BoardM σ Unit := giveBack observer) :
    BoardM σ Bool := do
  let ring ← inbox e
  if ring.isEmpty then
    return false
  moveBox observer (.inbox e ring.head) (.application i) drop
  modifyInbox e fun r => { r with head := ring.head + 1 }
  return true

/-- Move the first event of the shared queue to the inbox, if there is one. An inbox without room
halts the host. -/
def fetchOne (drop : NodeIndex → BoardM σ Unit := giveBack observer) : BoardM σ Bool := do
  let queue := ((← get).host.receiver e).queue
  match ← extract fun a m => Chain.popFront a m queue with
  | none => return false
  | some node =>
    let p ← address node
    let m := (← get).memory
    let code := Packet.eventCode m p
    let length := (Packet.eventLength m p).toUInt64
    unless ← deliverBox observer e (Box.around node) drop do
      throw (.inboxOverflow e)
    observer { kind := e.received, channel := e.channel.number, length, code }
    return true

/-- The host took notice of the peer's flag on a channel. -/
def acknowledge (c : Channel) : BoardM σ Unit :=
  modifyBell c Bell.clear

/-- Move every event of the shared queue to the inbox, then clear the peer's flag. -/
def fetchEvents (drop : NodeIndex → BoardM σ Unit := giveBack observer) : BoardM σ Unit := do
  let _ ← drain (fetchOne observer e drop)
  acknowledge e.channel

end Host

end InterCore
