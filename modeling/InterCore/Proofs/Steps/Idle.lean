import InterCore.Proofs.Steps.Peer

/-!
# Steps that move no buffer

Sends, and the peer consuming them, touch no line, no inbox, no box and no packet of an event: their
bytes lie apart.

## Main definitions

* `Placement.PacketByte`: the bytes of event packets.
* `Account.Idle`: a step that moves no buffer and changes no event packet.

## Main results

* `Account.idle_sendCommand`, `Account.idle_answerSystemCommand` and so on: these steps are idle.
-/

namespace InterCore

open Memory

variable {σ : Type}

/-- The byte belongs to the packet of an event slot. -/
def Placement.PacketByte (p : Placement) (k : Address) : Prop :=
  ∃ n ∈ slots, Within (Packet.serial (p.arena.locate n)) 258 k

namespace Placement.Valid

variable {p : Placement} (hp : p.Valid)
include hp

/-- The packet of a slot, as a run of bytes. -/
theorem covers_packet {n : NodeIndex} (hn : n ∈ slots) {k : Address}
    (hk : Within (Packet.serial (p.arena.locate n)) 258 k) :
    Extent.Covers p ⟨(nodeExtent n).part, (nodeExtent n).offset + 16, 258⟩ k := by
  rw [Extent.Covers, Extent.start, UInt64.ofNat_add, ← UInt64.add_assoc]
  rwa [Packet.serial, (hp.slot_eq (has_of_mem_slots hn)).1] at hk

/-- No byte of a buffer for commands or data belongs to an event packet. -/
theorem not_packetByte_of_object {o : Object} (ho : o ∈ Object.buffers) {k : Address}
    (hk : Within (p.address o) o.size k) : ¬ p.PacketByte k := by
  rintro ⟨n, hn, hpacket⟩
  obtain ⟨h₁, h₂⟩ := mem_slots_iff.mp hn
  have hfits : ∀ n < 11, 4 ≤ n →
      Extent.Fits ⟨(slotExtent n).part, (slotExtent n).offset + 16, 258⟩ := by decide
  have hapart : ∀ o ∈ Object.buffers, ∀ n < 11, 4 ≤ n →
      o.extent.Apart ⟨(slotExtent n).part, (slotExtent n).offset + 16, 258⟩ := by decide
  rw [o.address_eq] at hk
  exact hp.apart_of o.extent_fits (hfits _ h₂ h₁) (hapart o ho _ h₂ h₁) hk
    (hp.covers_packet hn hpacket)

end Placement.Valid

namespace Account

/-- A step moves no buffer and changes no event packet. -/
structure Idle (p : Placement) (s s' : Account σ) : Prop where
  line : s'.line = s.line
  free : s'.free = s.free
  inbox : s'.inbox = s.inbox
  boxes : s'.boxes = s.boxes
  bytes : ∀ k, p.PacketByte k → s'.bytes.get k = s.bytes.get k

variable {p : Placement} {note : Event → σ → σ} {s s' : Account σ} {o : Object}

theorem Idle.places (h : Idle p s s') : s'.places = s.places := by
  rw [Account.places, h.line, h.free, h.inbox, h.boxes, Account.places]

/-- Bytes of a buffer for commands or data may change. -/
theorem bytes_of_object (hp : p.Valid) (ho : o ∈ Object.buffers) {f : Memory → Memory}
    (hf : ∀ m, AgreeOff (Within (p.address o) o.size) m (f m)) (m : Memory) (k : Address)
    (hk : p.PacketByte k) : (f m).get k = m.get k :=
  hf m k fun hwithin => hp.not_packetByte_of_object ho hwithin hk

theorem idle_reject (c : Channel) (bytes : List UInt8) : Idle p s (s.reject note c bytes) :=
  ⟨rfl, rfl, rfl, rfl, fun _ _ => rfl⟩

variable (hp : p.Valid)
include hp

theorem idle_sendCommandSerial (bytes : List UInt8) :
    Idle p s (s.sendCommandSerial p note bytes) := by
  rw [sendCommandSerial]
  split
  · exact idle_reject _ _
  · next hfits =>
    have hsize := Object.bleCommand_fits hfits
    exact ⟨rfl, rfl, rfl, rfl, bytes_of_object hp (o := .bleCommand) (by decide)
      (fun m => p.agreeOff_writeSerial m _ hsize) s.bytes⟩

theorem idle_sendCommand (opcode : UInt16) (parameters : List UInt8) :
    Idle p s (s.sendCommand p note opcode parameters) := by
  rw [sendCommand]
  split
  · exact idle_reject _ _
  · exact idle_sendCommandSerial hp _

theorem idle_sendAclSerial (bytes : List UInt8) : Idle p s (s.sendAclSerial p note bytes) := by
  rw [sendAclSerial]
  split
  · exact idle_reject _ _
  · next hfits =>
    have hsize := Object.aclData_fits hfits
    exact ⟨rfl, rfl, rfl, rfl, bytes_of_object hp (o := .aclData) (by decide)
      (fun m => p.agreeOff_writeSerial m _ hsize) s.bytes⟩

theorem idle_sendAcl (handle : UInt16) (data : List UInt8) :
    Idle p s (s.sendAcl p note handle data) := by
  rw [sendAcl]
  split
  · exact idle_reject _ _
  · exact idle_sendAclSerial hp _

theorem idle_sendSystemCommand (opcode : UInt16) (parameters : List UInt8) :
    Idle p s (s.sendSystemCommand p note opcode parameters) := by
  rw [sendSystemCommand]
  split
  · exact idle_reject _ _
  · split
    · exact idle_reject _ _
    · next hfits =>
      have hsize := Host.length_systemCommand opcode hfits
      exact ⟨rfl, rfl, rfl, rfl, bytes_of_object hp (o := .systemCommand) (by decide)
        (fun m => agreeOff_write_of_add m hsize Object.systemCommand.size_le) s.bytes⟩

omit hp in
theorem idle_takePacket (c : Channel) : Idle p s (s.takePacket c) := by
  rw [takePacket]
  split <;> exact ⟨rfl, rfl, rfl, rfl, fun _ _ => rfl⟩

theorem idle_answerSystemCommand (status : UInt8) :
    Idle p s (s.answerSystemCommand p status) := by
  rw [answerSystemCommand]
  split
  · refine ⟨rfl, rfl, rfl, rfl, bytes_of_object hp (o := .systemCommand) (by decide)
      (fun m => agreeOff_write_of_add m ?_ Object.systemCommand.size_le) s.bytes⟩
    simp only [List.length_cons, List.length_append, length_read, List.length_nil]
    decide
  · exact ⟨rfl, rfl, rfl, rfl, fun _ _ => rfl⟩

theorem idle_writeCommandStatus (status : UInt8) (opcode : UInt16) :
    Idle p s (s.writeCommandStatus p status opcode) := by
  refine ⟨rfl, rfl, rfl, rfl, bytes_of_object hp (o := .commandStatus) (by decide)
    (fun m => agreeOff_write_of_add m ?_ Object.commandStatus.size_le) s.bytes⟩
  simp only [List.length_cons, List.length_append, List.length_nil, LittleEndian.length_encode]
  decide

end Account

end InterCore
