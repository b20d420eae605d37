import InterCore.Board

/-!
# Sending

Commands and ACL data go to the peer through one buffer each. A send fills the buffer, rings its
doorbell and tells the observer; what does not fit is refused and changes nothing.

## Main definitions

* `Host.sendCommandSerial`, `Host.sendCommand`: a BLE command, as bytes or by its parts.
* `Host.sendAclSerial`, `Host.sendAcl`: ACL data, as bytes or by its parts.
* `Host.sendSystemCommand`: a system command, one at a time.
-/

namespace InterCore.Host

open Board

variable {σ : Type} (observer : Observer σ)

/-- The outcome of a send. -/
abbrev SendResult := Except SendError Unit

/-- A length as an observer is told it. -/
def offered (bytes : List UInt8) : UInt64 :=
  UInt64.ofNat bytes.length

/-- Refuse a send. -/
def reject (c : Channel) (bytes : List UInt8) (e : SendError) : BoardM σ SendResult := do
  observer { kind := .sendRejected, channel := c.number, length := offered bytes, code := 0 }
  return .error e

/-- Send a BLE command given by the bytes after its kind. -/
def sendCommandSerial (bytes : List UInt8) : BoardM σ SendResult := do
  if Packet.commandCapacity < bytes.length then
    reject observer .bleCommand bytes .payloadTooLarge
  else
    let p := Packet.serial ((← get).host.place.address .bleCommand)
    modifyMemory fun m => (m.write (p + 1) bytes).set p PacketKind.bleCommand.code
    modifyBell .bleCommand Bell.ring
    observer
      { kind := .commandSent, channel := Channel.bleCommand.number, length := offered bytes,
        code := PacketKind.bleCommand.code }
    return .ok ()

/-- The bytes of a command after its kind. -/
def commandBytes (opcode : UInt16) (parameters : List UInt8) : List UInt8 :=
  LittleEndian.encode 2 opcode.toNat ++ LittleEndian.encode 1 parameters.length ++ parameters

/-- Send a BLE command. -/
def sendCommand (opcode : UInt16) (parameters : List UInt8) : BoardM σ SendResult :=
  if Packet.commandPayload < parameters.length then
    reject observer .bleCommand parameters .payloadTooLarge
  else
    sendCommandSerial observer (commandBytes opcode parameters)

/-- Send an ACL packet given by the bytes after its kind. -/
def sendAclSerial (bytes : List UInt8) : BoardM σ SendResult := do
  if Packet.aclCapacity < bytes.length then
    reject observer .aclData bytes .payloadTooLarge
  else
    let p := Packet.serial ((← get).host.place.address .aclData)
    modifyMemory fun m => (m.write (p + 1) bytes).set p PacketKind.aclData.code
    modifyHost fun h => { h with aclInFlight := true }
    modifyBell .aclData Bell.ring
    modifyBell .aclData (·.enableTx true)
    observer
      { kind := .aclSent, channel := Channel.aclData.number, length := offered bytes,
        code := PacketKind.aclData.code }
    return .ok ()

/-- The bytes of an ACL packet after its kind. -/
def aclBytes (handle : UInt16) (data : List UInt8) : List UInt8 :=
  LittleEndian.encode 2 handle.toNat ++ LittleEndian.encode 2 data.length ++ data

/-- Send an ACL packet. -/
def sendAcl (handle : UInt16) (data : List UInt8) : BoardM σ SendResult :=
  if Packet.aclPayload < data.length then
    reject observer .aclData data .payloadTooLarge
  else
    sendAclSerial observer (aclBytes handle data)

/-- The peer consumed the ACL packet. -/
def aclAcknowledged : BoardM σ Unit := do
  modifyBell .aclData (·.enableTx false)
  modifyHost fun h => { h with aclInFlight := false }
  observer { kind := .aclAcked, channel := Channel.aclData.number, length := 0, code := 0 }

/-- Send a system command. While one is unanswered, another is refused whatever its length. -/
def sendSystemCommand (opcode : UInt16) (parameters : List UInt8) : BoardM σ SendResult := do
  let host := (← get).host
  if host.systemBusy then
    reject observer .systemCommand parameters .channelBusy
  else if Packet.commandPayload < parameters.length then
    reject observer .systemCommand parameters .payloadTooLarge
  else
    let p := Packet.serial (host.place.address .systemCommand)
    modifyMemory fun m =>
      m.write p (PacketKind.systemCommand.code :: commandBytes opcode parameters)
    modifyHost fun h => { h with systemBusy := true, responseReady := false }
    modifyBell .systemCommand Bell.ring
    modifyBell .systemCommand (·.enableTx true)
    observer
      { kind := .systemCommandSent, channel := Channel.systemCommand.number,
        length := offered parameters, code := PacketKind.systemCommand.code }
    return .ok ()

/-- The peer answered the system command in its own buffer. -/
def systemAnswered : BoardM σ Unit := do
  modifyBell .systemCommand (·.enableTx false)
  modifyHost fun h => { h with systemBusy := false, responseReady := true }
  let b ← get
  let p := b.host.place.address .systemCommand
  observer
    { kind := .systemResponse, channel := Channel.systemCommand.number,
      length := (Packet.eventLength b.memory p).toUInt64, code := Packet.kind b.memory p }

end InterCore.Host
