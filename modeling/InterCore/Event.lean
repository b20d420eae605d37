import InterCore.Hexadecimal

/-!
# Observed events and their counters

What an observer of the mailbox is told: one `Event` for each thing that happens, and the running
`Counters` over them.

## Main definitions

* `Event.Kind`: what happened, with its number and its name.
* `Counters.record`: count one event.
* `Event.line`: the log line of one event.
-/

namespace InterCore

/-- What happened on the mailbox. -/
inductive Event.Kind where
  /-- A BLE command was rung. -/
  | commandSent
  /-- An ACL packet was rung. -/
  | aclSent
  /-- The peer consumed the ACL buffer. -/
  | aclAcked
  /-- A BLE event moved to its inbox. -/
  | eventReceived
  /-- An event buffer was given back. -/
  | bufferReleased
  /-- The release doorbell was rung. -/
  | releaseRung
  /-- A release was put off because the channel was busy. -/
  | releaseDeferred
  /-- A system command was rung. -/
  | systemCommandSent
  /-- The peer answered the system command. -/
  | systemResponse
  /-- A system event moved to its inbox. -/
  | systemEventReceived
  /-- A trace record was drained and given back. -/
  | traceReceived
  /-- A send was refused. -/
  | sendRejected
  /-- A number that stands for no event. -/
  | other (code : UInt8)
  deriving DecidableEq, Repr

namespace Event.Kind

/-- The kind with a given number. -/
def ofCode : UInt8 → Event.Kind
  | 0 => commandSent
  | 1 => aclSent
  | 2 => aclAcked
  | 3 => eventReceived
  | 4 => bufferReleased
  | 5 => releaseRung
  | 6 => releaseDeferred
  | 7 => systemCommandSent
  | 8 => systemResponse
  | 9 => systemEventReceived
  | 10 => traceReceived
  | 11 => sendRejected
  | c => other c

/-- The name of a kind in logs. -/
def name : Event.Kind → String
  | commandSent => "command_sent"
  | aclSent => "acl_sent"
  | aclAcked => "acl_acked"
  | eventReceived => "event_received"
  | bufferReleased => "buffer_released"
  | releaseRung => "release_rung"
  | releaseDeferred => "release_deferred"
  | systemCommandSent => "sys_command_sent"
  | systemResponse => "sys_response"
  | systemEventReceived => "sys_event_received"
  | traceReceived => "trace_received"
  | sendRejected => "send_rejected"
  | other _ => "unknown"

end Event.Kind

/-- One thing that happened. -/
structure Event where
  kind : Event.Kind
  /-- The number of the doorbell channel. -/
  channel : UInt8
  /-- The bytes involved, where that means something. -/
  length : UInt64
  /-- The event code or packet kind, where that means something. -/
  code : UInt8
  deriving DecidableEq, Repr

/-- How often each thing happened, modulo `2 ^ 64`. -/
structure Counters where
  commandsSent : UInt64 := 0
  aclSent : UInt64 := 0
  eventsReceived : UInt64 := 0
  buffersReleased : UInt64 := 0
  releaseDoorbells : UInt64 := 0
  releasesDeferred : UInt64 := 0
  systemCommandsSent : UInt64 := 0
  systemEventsReceived : UInt64 := 0
  tracesReceived : UInt64 := 0
  rejectedSends : UInt64 := 0
  deriving DecidableEq, Repr

/-- Count one event. Acknowledgements and responses have no counter. -/
def Counters.record (c : Counters) (e : Event) : Counters :=
  match e.kind with
  | .commandSent => { c with commandsSent := c.commandsSent + 1 }
  | .aclSent => { c with aclSent := c.aclSent + 1 }
  | .eventReceived => { c with eventsReceived := c.eventsReceived + 1 }
  | .bufferReleased => { c with buffersReleased := c.buffersReleased + 1 }
  | .releaseRung => { c with releaseDoorbells := c.releaseDoorbells + 1 }
  | .releaseDeferred => { c with releasesDeferred := c.releasesDeferred + 1 }
  | .systemCommandSent => { c with systemCommandsSent := c.systemCommandsSent + 1 }
  | .systemEventReceived => { c with systemEventsReceived := c.systemEventsReceived + 1 }
  | .traceReceived => { c with tracesReceived := c.tracesReceived + 1 }
  | .sendRejected => { c with rejectedSends := c.rejectedSends + 1 }
  | .aclAcked | .systemResponse | .other _ => c

/-- The counters after a run of events. -/
def Counters.ofEvents (events : List Event) : Counters :=
  events.foldl Counters.record {}

/-- The log line of an event. -/
def Event.line (e : Event) : String :=
  "\x7b\"event\":\"" ++ e.kind.name ++
    "\",\"channel\":" ++ toString e.channel.toNat ++
    ",\"length\":" ++ toString e.length.toNat ++
    ",\"code\":\"" ++ Hexadecimal.text 2 e.code.toNat ++ "\"\x7d"

end InterCore
