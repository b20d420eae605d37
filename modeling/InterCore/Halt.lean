/-!
# Causes of a stop, and refusals

A `Halt` stops the host core: something that correct cores never do has happened. A `SendError`
is returned to the caller, who may try again.
-/

namespace InterCore

/-- The two endpoints of the host that receive events. -/
inductive Endpoint where
  | ble
  | system
  deriving DecidableEq, Repr

/-- Why the host core stopped. -/
inductive Halt where
  /-- A region was offered to an arena that has no room for another. -/
  | regionTableFull
  /-- A region without a base, too narrow, empty, or too large for the index space. -/
  | invalidRegion
  /-- A node index that no region holds. -/
  | unknownNode
  /-- A link in memory that is not the address of a registered node. -/
  | strayLink
  /-- A packet was read through a box that owns none. -/
  | emptyBox
  /-- A part of the shared storage is missing at boot. -/
  | incompleteStorage
  /-- A channel number outside the doorbell peripheral. -/
  | unknownChannel
  /-- More events are waiting than the endpoint's inbox can hold. -/
  | inboxOverflow (endpoint : Endpoint)
  /-- A loop over shared memory went on past every length a chain can have. -/
  | endless
  deriving DecidableEq, Repr

/-- The text reported for a stop. -/
def Halt.message : Halt → String
  | regionTableFull => "node arena: region table full"
  | invalidRegion => "node arena: invalid region"
  | unknownNode => "node arena: index out of range"
  | strayLink => "node arena: wire link outside shared storage"
  | emptyBox => "evt_box: access through an empty box"
  | incompleteStorage => "mailbox: incomplete shared memory"
  | unknownChannel => "sim: channel out of range"
  | inboxOverflow .ble => "ble: software event queue overflow"
  | inboxOverflow .system => "sys: software event queue overflow"
  | endless => "step limit reached"

/-- The number of rounds after which a loop over shared memory counts as endless. It is far above
the number of nodes an arena can name. -/
def stepLimit : Nat := 4294967296

/-- Why a send was refused. -/
inductive SendError where
  | payloadTooLarge
  | channelBusy
  deriving DecidableEq, Repr

namespace SendError

/-- The number of an error in answers and logs. -/
def code : SendError → UInt8
  | payloadTooLarge => 1
  | channelBusy => 2

/-- The error with a given number. -/
def ofCode? : UInt8 → Option SendError
  | 1 => some payloadTooLarge
  | 2 => some channelBusy
  | _ => none

theorem ofCode?_code (e : SendError) : ofCode? e.code = some e := by
  cases e <;> rfl

/-- The name of an error. -/
def name : SendError → String
  | payloadTooLarge => "payload_too_large"
  | channelBusy => "channel_busy"

/-- The name of the error with a given number; numbers without an error are `unknown`. -/
def nameOfCode (c : UInt8) : String :=
  ((ofCode? c).map name).getD "unknown"

end SendError

end InterCore
