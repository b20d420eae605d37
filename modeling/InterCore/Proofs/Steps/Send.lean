import InterCore.Host.Send
import InterCore.Proofs.Account

/-!
# Sending, on accounts

What sends do to an account: a send that is refused only tells the observer; one that is accepted
fills its buffer and rings its doorbell. No send touches a line, an inbox or a box.

## Main definitions

* `Account.sendCommandSerial`, `Account.sendAclSerial`, `Account.sendSystemCommand`: the sends.

## Main results

* `Board.Shows.sendCommandSerial`, `Board.Shows.sendAclSerial`, `Board.Shows.sendSystemCommand`: the
  programs of the host do this.
-/

namespace InterCore

open Memory

variable {σ : Type}

namespace Board.Shows

variable {p : Placement} {sw : Switches} {b : Board σ} {s : Account σ} {o : Object}
  (h : b.Shows p sw s)
include h

/-- A buffer is read as in the account. -/
theorem read_object (ho : o ∈ Object.buffers) {x : Address} {n : Nat} (hx : x.toNat + n ≤ o.size) :
    b.memory.read (p.address o + x) n = s.bytes.read (p.address o + x) n :=
  h.bytes.read_eq fun _ hk =>
    Placement.not_linkByte_of_quiet (h.valid.quiet_object ho (hk.of_add hx))

/-- A buffer may be written. -/
theorem writeObject (ho : o ∈ Object.buffers) {f : Memory → Memory}
    (hf : ∀ m, AgreeOff (Within (p.address o) o.size) m (f m))
    (hsame : ∀ m m', AgreeOff (p.LinkByte sw.traces) m m' →
      AgreeOff (p.LinkByte sw.traces) (f m) (f m')) :
    Yields p sw (modifyMemory f) b () (s.modifyBytes f) :=
  h.modifyBytes hf (fun _ hk => h.valid.quiet_object ho hk) hsame

end Board.Shows

/-! ### The sends -/

theorem Host.length_commandBytes (opcode : UInt16) (parameters : List UInt8) :
    (Host.commandBytes opcode parameters).length = 3 + parameters.length := by
  rw [commandBytes, List.length_append, List.length_append, LittleEndian.length_encode,
    LittleEndian.length_encode]

theorem Host.length_aclBytes (handle : UInt16) (data : List UInt8) :
    (Host.aclBytes handle data).length = 4 + data.length := by
  rw [aclBytes, List.length_append, List.length_append, LittleEndian.length_encode,
    LittleEndian.length_encode]

/-! ### The bytes that sends write -/

/-- The kind and the bytes of a command lie in its buffer. -/
theorem Object.bleCommand_fits {bytes : List UInt8}
    (h : ¬ Packet.commandCapacity < bytes.length) : 17 + bytes.length ≤ Object.bleCommand.size :=
  Nat.add_le_add_left (Nat.not_lt.mp h) 17

/-- The kind and the bytes of an ACL packet lie in its buffer. -/
theorem Object.aclData_fits {bytes : List UInt8}
    (h : ¬ Packet.aclCapacity < bytes.length) : 17 + bytes.length ≤ Object.aclData.size :=
  Nat.add_le_add_left (Nat.not_lt.mp h) 17

/-- A packet written as its kind and the bytes after it lies in its buffer. -/
theorem Placement.agreeOff_writeSerial (p : Placement) (m : Memory) {o : Object}
    {bytes : List UInt8} (kind : UInt8) (hsize : 17 + bytes.length ≤ o.size) :
    AgreeOff (Within (p.address o) o.size) m
      ((m.write (Packet.serial (p.address o) + 1) bytes).set
        (Packet.serial (p.address o)) kind) := by
  have hbytes : (16 : Address).toNat + (1 + bytes.length) ≤ o.size := by
    rw [← Nat.add_assoc]
    exact hsize
  exact (Memory.agreeOff_writeSerial m _ kind (Nat.le_refl _)
    (Nat.le_trans (Nat.le_trans (Nat.le_add_left _ _) hbytes) o.size_le)).mono
      fun _ hk => hk.of_add hbytes

/-- A system command lies in its buffer. -/
theorem Host.length_systemCommand (opcode : UInt16) {parameters : List UInt8}
    (h : ¬ Packet.commandPayload < parameters.length) :
    (16 : Address).toNat + (PacketKind.systemCommand.code ::
      Host.commandBytes opcode parameters).length ≤ Object.systemCommand.size := by
  have hfits : parameters.length ≤ 255 := Nat.not_lt.mp h
  have hsize : Object.systemCommand.size = 275 := by decide
  rw [List.length_cons, Host.length_commandBytes, hsize]
  exact Nat.add_le_add_left (Nat.add_le_add_right (Nat.add_le_add_left hfits 3) 1) 16

namespace Account

variable (p : Placement) (note : Event → σ → σ) (s : Account σ)

/-- A send is refused. -/
def reject (c : Channel) (bytes : List UInt8) : Account σ :=
  s.tell note
    { kind := .sendRejected, channel := c.number, length := Host.offered bytes, code := 0 }

/-- A BLE command is sent by the bytes after its kind. -/
def sendCommandSerial (bytes : List UInt8) : Account σ :=
  if Packet.commandCapacity < bytes.length then s.reject note .bleCommand bytes
  else
    let a := Packet.serial (p.address .bleCommand)
    ((s.modifyBytes fun m => (m.write (a + 1) bytes).set a PacketKind.bleCommand.code).modifyBell
      .bleCommand Bell.ring).tell note
        { kind := .commandSent, channel := Channel.bleCommand.number,
          length := Host.offered bytes, code := PacketKind.bleCommand.code }

/-- A BLE command is sent. -/
def sendCommand (opcode : UInt16) (parameters : List UInt8) : Account σ :=
  if Packet.commandPayload < parameters.length then s.reject note .bleCommand parameters
  else s.sendCommandSerial p note (Host.commandBytes opcode parameters)

/-- An ACL packet is sent by the bytes after its kind. -/
def sendAclSerial (bytes : List UInt8) : Account σ :=
  if Packet.aclCapacity < bytes.length then s.reject note .aclData bytes
  else
    let a := Packet.serial (p.address .aclData)
    ((((s.modifyBytes fun m => (m.write (a + 1) bytes).set a PacketKind.aclData.code).modifyFlags
      ({ · with aclInFlight := true })).modifyBell .aclData Bell.ring).modifyBell .aclData
        (·.enableTx true)).tell note
          { kind := .aclSent, channel := Channel.aclData.number, length := Host.offered bytes,
            code := PacketKind.aclData.code }

/-- An ACL packet is sent. -/
def sendAcl (handle : UInt16) (data : List UInt8) : Account σ :=
  if Packet.aclPayload < data.length then s.reject note .aclData data
  else s.sendAclSerial p note (Host.aclBytes handle data)

/-- A system command is sent. -/
def sendSystemCommand (opcode : UInt16) (parameters : List UInt8) : Account σ :=
  if s.flags.systemBusy then s.reject note .systemCommand parameters
  else if Packet.commandPayload < parameters.length then s.reject note .systemCommand parameters
  else
    let a := Packet.serial (p.address .systemCommand)
    ((((s.modifyBytes fun m => m.write a (PacketKind.systemCommand.code ::
      Host.commandBytes opcode parameters)).modifyFlags
        ({ · with systemBusy := true, responseReady := false })).modifyBell .systemCommand
          Bell.ring).modifyBell .systemCommand (·.enableTx true)).tell note
            { kind := .systemCommandSent, channel := Channel.systemCommand.number,
              length := Host.offered parameters, code := PacketKind.systemCommand.code }

/-! ### The answers -/

/-- The answer to a send that is refused when its bytes exceed a capacity. -/
def sendAnswer (capacity : Nat) (bytes : List UInt8) : Host.SendResult :=
  if capacity < bytes.length then .error .payloadTooLarge else .ok ()

/-- The answer to a system command. -/
def systemSendAnswer (parameters : List UInt8) : Host.SendResult :=
  if s.flags.systemBusy then .error .channelBusy else sendAnswer Packet.commandPayload parameters

/-- Parameters that fit are accepted as the bytes of a command. -/
theorem sendAnswer_commandBytes (opcode : UInt16) {parameters : List UInt8}
    (h : ¬ Packet.commandPayload < parameters.length) :
    sendAnswer Packet.commandCapacity (Host.commandBytes opcode parameters) = .ok () := by
  rw [sendAnswer, Host.length_commandBytes]
  exact if_neg (Nat.not_lt.mpr (Nat.add_le_add_left (Nat.not_lt.mp h) 3))

/-- Data that fit are accepted as the bytes of an ACL packet. -/
theorem sendAnswer_aclBytes (handle : UInt16) {data : List UInt8}
    (h : ¬ Packet.aclPayload < data.length) :
    sendAnswer Packet.aclCapacity (Host.aclBytes handle data) = .ok () := by
  rw [sendAnswer, Host.length_aclBytes]
  exact if_neg (Nat.not_lt.mpr (Nat.add_le_add_left (Nat.not_lt.mp h) 4))

end Account

namespace Board.Shows

variable {p : Placement} {sw : Switches} {b : Board σ} {s : Account σ}
  (note : Event → σ → σ) (h : b.Shows p sw s)
include h

theorem reject (c : Channel) (bytes : List UInt8) (e : SendError) :
    Yields p sw (Host.reject (Observer.passive note) c bytes e) b (.error e)
      (s.reject note c bytes) :=
  (h.tell note _).bind fun _ h₁ => h₁.pure _

/-- A packet is written as its kind and the bytes after it. -/
theorem writeSerial {o : Object} (ho : o ∈ Object.buffers) {bytes : List UInt8} (kind : UInt8)
    (hsize : 17 + bytes.length ≤ o.size) :
    Yields p sw (modifyMemory fun m => (m.write (Packet.serial (p.address o) + 1) bytes).set
        (Packet.serial (p.address o)) kind) b ()
      (s.modifyBytes fun m => (m.write (Packet.serial (p.address o) + 1) bytes).set
        (Packet.serial (p.address o)) kind) := by
  have hlength : bytes.length ≤ UInt64.size :=
    Nat.le_trans (Nat.le_add_left _ _) (Nat.le_trans hsize o.size_le)
  exact h.writeObject ho (fun m => p.agreeOff_writeSerial m kind hsize)
    fun m m' hm => (hm.write _ hlength).set _ _

/-- **The host sends a BLE command given by its bytes.** -/
theorem sendCommandSerial (bytes : List UInt8) :
    Yields p sw (Host.sendCommandSerial (Observer.passive note) bytes) b
      (Account.sendAnswer Packet.commandCapacity bytes) (s.sendCommandSerial p note bytes) := by
  rw [Host.sendCommandSerial, Account.sendCommandSerial, Account.sendAnswer]
  split
  · exact h.reject note _ _ _
  · next hfits =>
    have hsize := Object.bleCommand_fits hfits
    refine Yields.get ?_
    rw [h.host.place]
    refine (h.writeSerial (by decide) _ hsize).bind fun b₁ h₁ => ?_
    refine (h₁.modifyBell .bleCommand Bell.ring).bind fun b₂ h₂ => ?_
    exact (h₂.tell note _).bind fun b₃ h₃ => h₃.pure _

/-- **The host sends a BLE command.** -/
theorem sendCommand (opcode : UInt16) (parameters : List UInt8) :
    Yields p sw (Host.sendCommand (Observer.passive note) opcode parameters) b
      (Account.sendAnswer Packet.commandPayload parameters)
      (s.sendCommand p note opcode parameters) := by
  rw [Host.sendCommand, Account.sendCommand, Account.sendAnswer]
  split
  · exact h.reject note _ _ _
  · next hfits =>
    have hserial := h.sendCommandSerial note (Host.commandBytes opcode parameters)
    rwa [Account.sendAnswer_commandBytes opcode hfits] at hserial

/-- **The host sends an ACL packet given by its bytes.** -/
theorem sendAclSerial (bytes : List UInt8) :
    Yields p sw (Host.sendAclSerial (Observer.passive note) bytes) b
      (Account.sendAnswer Packet.aclCapacity bytes) (s.sendAclSerial p note bytes) := by
  rw [Host.sendAclSerial, Account.sendAclSerial, Account.sendAnswer]
  split
  · exact h.reject note _ _ _
  · next hfits =>
    have hsize := Object.aclData_fits hfits
    refine Yields.get ?_
    rw [h.host.place]
    refine (h.writeSerial (by decide) _ hsize).bind fun b₁ h₁ => ?_
    refine (h₁.modifyFlags ({ · with aclInFlight := true }) fun _ => rfl).bind fun b₂ h₂ => ?_
    refine (h₂.modifyBell .aclData Bell.ring).bind fun b₃ h₃ => ?_
    refine (h₃.modifyBell .aclData (·.enableTx true)).bind fun b₄ h₄ => ?_
    exact (h₄.tell note _).bind fun b₅ h₅ => h₅.pure _

/-- **The host sends an ACL packet.** -/
theorem sendAcl (handle : UInt16) (data : List UInt8) :
    Yields p sw (Host.sendAcl (Observer.passive note) handle data) b
      (Account.sendAnswer Packet.aclPayload data) (s.sendAcl p note handle data) := by
  rw [Host.sendAcl, Account.sendAcl, Account.sendAnswer]
  split
  · exact h.reject note _ _ _
  · next hfits =>
    have hserial := h.sendAclSerial note (Host.aclBytes handle data)
    rwa [Account.sendAnswer_aclBytes handle hfits] at hserial

/-- **The host sends a system command.** -/
theorem sendSystemCommand (opcode : UInt16) (parameters : List UInt8) :
    Yields p sw (Host.sendSystemCommand (Observer.passive note) opcode parameters) b
      (s.systemSendAnswer parameters) (s.sendSystemCommand p note opcode parameters) := by
  have hbusy : b.host.systemBusy = s.flags.systemBusy := congrArg Flags.systemBusy h.flags
  refine Yields.get ?_
  rw [Account.sendSystemCommand, Account.systemSendAnswer, Account.sendAnswer]
  dsimp only
  rw [hbusy, h.host.place]
  split
  · exact h.reject note _ _ _
  · split
    · exact h.reject note _ _ _
    · next hfits =>
      have hsize := Host.length_systemCommand opcode hfits
      have hlength := Nat.le_trans (Nat.le_trans (Nat.le_add_left _ _) hsize)
        Object.systemCommand.size_le
      refine (h.writeObject (by decide) (fun m => agreeOff_write_of_add m hsize
        Object.systemCommand.size_le) fun m m' hm => hm.write _ hlength).bind fun b₁ h₁ => ?_
      refine (h₁.modifyFlags ({ · with systemBusy := true, responseReady := false })
        fun _ => rfl).bind fun b₂ h₂ => ?_
      refine (h₂.modifyBell .systemCommand Bell.ring).bind fun b₃ h₃ => ?_
      refine (h₃.modifyBell .systemCommand (·.enableTx true)).bind fun b₄ h₄ => ?_
      exact (h₄.tell note _).bind fun b₅ h₅ => h₅.pure _

end Board.Shows

end InterCore
