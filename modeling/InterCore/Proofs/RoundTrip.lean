import InterCore.Proofs.FlowControl
import InterCore.Proofs.Handling

/-!
# Round trips

The application sends through two buffers, one for BLE commands and one for ACL data. What it sends
is written byte by byte at fixed offsets, and the peer copies the whole buffer and reads it as a
packed record. Each buffer takes what its record has room for and no byte more, its neighbours are
not touched, and until the next packet is sent or taken the record says what was sent, with whatever
the buffer held before in the bytes that follow.

## Main definitions

* `Wire`: the two buffers, with the programs that fill and take them.
* `Wire.Elapses`: what may happen between a send and the take.
* `Wire.Transmits`: what sends on a board do, and what the peer takes after them.

## Main results

* `Format.decodeFields_number`, `Format.decodeFields_block`: a field reads back as it was written.
* `Wire.decode_packet`: a packet reads back as it was written.
* `Wire.held_call`: whatever else happens, the packet stays as it is.
* `Usage.wires_transmit`: round trips from every board.
-/

namespace InterCore

open Memory

variable {σ : Type}

/-! ### Packed records -/

namespace Format

/-- A number reads back as it was written, cut to its width. -/
theorem decodeFields_number (width n : Nat) (fields : List Field) (rest : List UInt8) :
    decodeFields (.number width :: fields) (LittleEndian.encode width n ++ rest) =
      .number (n % LittleEndian.bound width) :: decodeFields fields rest := by
  have hlength := LittleEndian.length_encode width n
  rw [decodeFields, Field.decode, Field.size, List.take_left' hlength, List.drop_left' hlength,
    LittleEndian.decode_encode]

/-- A block reads back as it was written. -/
theorem decodeFields_block (bytes : List UInt8) (fields : List Field) (rest : List UInt8) :
    decodeFields (.block bytes.length :: fields) (bytes ++ rest) =
      .block bytes :: decodeFields fields rest := by
  rw [decodeFields, Field.decode, Field.size, List.take_left, List.drop_left]

end Format

/-! ### Two buffers -/

/-- A buffer through which the application sends. -/
inductive Wire where
  | command
  | acl
  deriving DecidableEq, Repr

namespace Wire

def outlet : Wire → Outlet
  | command => .command
  | acl => .acl

def kind : Wire → PacketKind
  | command => .bleCommand
  | acl => .aclData

/-- The record that lies in the buffer. -/
def format : Wire → Format
  | command => .command
  | acl => .aclData

/-- The width of the length of the payload. -/
def lengthWidth : Wire → Nat
  | command => 1
  | acl => 2

/-- The bytes before the payload: the kind, the opcode or handle, and the length. -/
def header (w : Wire) : Nat := 3 + w.lengthWidth

/-- The longest payload. -/
def limit : Wire → Nat
  | command => 255
  | acl => 251

/-- The most bytes after the kind. -/
def capacity : Wire → Nat
  | command => 258
  | acl => 255

/-- The bytes after the kind, for an opcode or a handle and a payload. -/
def bytes : Wire → UInt16 → List UInt8 → List UInt8
  | command => Host.commandBytes
  | acl => Host.aclBytes

/-- Send the bytes after the kind. -/
def sendSerial (observer : Observer σ) : Wire → List UInt8 → BoardM σ Host.SendResult
  | command => Host.sendCommandSerial observer
  | acl => Host.sendAclSerial observer

/-- Send an opcode or a handle and a payload. -/
def send (observer : Observer σ) : Wire → UInt16 → List UInt8 → BoardM σ Host.SendResult
  | command => Host.sendCommand observer
  | acl => Host.sendAcl observer

/-- The peer takes the packet. -/
def take : Wire → BoardM σ (Option (List UInt8))
  | command => Peer.takeCommand
  | acl => Peer.takeAcl

/-- The call sends through the buffer or takes from it. -/
def uses : Wire → Call → Bool
  | command, .operation (.sendCommandSerial _) | command, .operation (.sendCommand _ _)
  | command, .operation .takeCommand
  | acl, .operation (.sendAclSerial _) | acl, .operation (.sendAcl _ _)
  | acl, .operation .takeAcl => true
  | _, _ => false

/-- The packet that lies in the buffer. -/
def packet (w : Wire) (b : Board σ) : List UInt8 :=
  b.memory.read (Packet.serial (b.host.place.address w.outlet.object)) w.format.size

variable (w : Wire)

theorem format_fields : w.format.fields =
    [.number 1, .number 2, .number w.lengthWidth, .block w.limit] := by
  cases w <;> rfl

theorem format_size : w.format.size = w.header + w.limit := by
  cases w <;> rfl

theorem capacity_eq : w.header + w.limit = 1 + w.capacity := by
  cases w <;> rfl

theorem object_size : w.outlet.object.size = 16 + (1 + w.capacity) := by
  cases w <;> decide

theorem limit_lt : w.limit < LittleEndian.bound w.lengthWidth := by
  cases w <;> decide

theorem bytes_eq (field : UInt16) (payload : List UInt8) : w.bytes field payload =
    LittleEndian.encode 2 field.toNat ++ LittleEndian.encode w.lengthWidth payload.length ++
      payload := by
  cases w <;> rfl

theorem length_bytes (field : UInt16) (payload : List UInt8) :
    1 + (w.bytes field payload).length = w.header + payload.length := by
  rw [bytes_eq, List.length_append, List.length_append, LittleEndian.length_encode,
    LittleEndian.length_encode, header]
  omega

/-- What fits by its parts fits by its bytes. -/
theorem length_bytes_le (field : UInt16) {payload : List UInt8} (h : payload.length ≤ w.limit) :
    (w.bytes field payload).length ≤ w.capacity := by
  have hbytes := w.length_bytes field payload
  have hcapacity := w.capacity_eq
  omega

/-- **A packet reads back as it was written**, and the payload goes on with what the buffer held. -/
theorem decode_packet (field : UInt16) {payload old : List UInt8}
    (hfits : payload.length ≤ w.limit) (hold : old.length = w.format.size) :
    w.format.decode
        (w.kind.code :: w.bytes field payload ++ old.drop (1 + (w.bytes field payload).length)) =
      [.number w.kind.code.toNat, .number field.toNat, .number payload.length,
        .block (payload ++ old.drop (w.header + payload.length))] := by
  have hkind : [w.kind.code] = LittleEndian.encode 1 w.kind.code.toNat := by
    rw [LittleEndian.encode, LittleEndian.encode, UInt8.ofNat_toNat]
  have hblock : w.limit = (payload ++ old.drop (w.header + payload.length)).length := by
    rw [List.length_append, List.length_drop, hold, w.format_size]
    omega
  have hsplit : ∀ rest zeros : List UInt8,
      w.kind.code :: w.bytes field payload ++ rest ++ zeros =
        LittleEndian.encode 1 w.kind.code.toNat ++ (LittleEndian.encode 2 field.toNat ++
          (LittleEndian.encode w.lengthWidth payload.length ++ ((payload ++ rest) ++ zeros))) := by
    intro rest zeros
    rw [bytes_eq, ← hkind]
    simp only [List.append_assoc, List.cons_append, List.nil_append]
  have hcode : w.kind.code.toNat < LittleEndian.bound 1 := w.kind.code.toNat_lt
  have hfield : field.toNat < LittleEndian.bound 2 := field.toNat_lt
  rw [Format.decode, w.length_bytes, hsplit, w.format_fields, Format.decodeFields_number,
    Format.decodeFields_number, Format.decodeFields_number, hblock, Format.decodeFields_block,
    Format.decodeFields, Nat.mod_eq_of_lt hcode, Nat.mod_eq_of_lt hfield,
    Nat.mod_eq_of_lt (Nat.lt_of_le_of_lt hfits w.limit_lt)]

/-! ### Sends on any board -/

section Sends

variable (note : Event → σ → σ) (b : Board σ)

/-- Bytes that fit are written after the kind, which is written too, and nothing else is. -/
theorem sendSerial_of_le {bytes : List UInt8} (h : bytes.length ≤ w.capacity) :
    ∃ b', (w.sendSerial (Observer.passive note) bytes).run b = .ok (.ok ()) b' ∧
      b'.memory = (b.memory.write (Packet.serial (b.host.place.address w.outlet.object) + 1)
        bytes).set (Packet.serial (b.host.place.address w.outlet.object)) w.kind.code := by
  cases w with
  | command =>
    have hfits : ¬ Packet.commandCapacity < bytes.length := Nat.not_lt.mpr h
    rw [sendSerial, Host.sendCommandSerial, if_neg hfits]
    exact ⟨_, rfl, rfl⟩
  | acl =>
    have hfits : ¬ Packet.aclCapacity < bytes.length := Nat.not_lt.mpr h
    rw [sendSerial, Host.sendAclSerial, if_neg hfits]
    exact ⟨_, rfl, rfl⟩

/-- Bytes that do not fit are refused, and nothing is written. -/
theorem sendSerial_of_lt {bytes : List UInt8} (h : w.capacity < bytes.length) :
    ∃ b', (w.sendSerial (Observer.passive note) bytes).run b = .ok (.error .payloadTooLarge) b' ∧
      b'.memory = b.memory := by
  cases w with
  | command =>
    have hover : Packet.commandCapacity < bytes.length := h
    rw [sendSerial, Host.sendCommandSerial, if_pos hover]
    exact ⟨_, rfl, rfl⟩
  | acl =>
    have hover : Packet.aclCapacity < bytes.length := h
    rw [sendSerial, Host.sendAclSerial, if_pos hover]
    exact ⟨_, rfl, rfl⟩

/-- A payload that fits is sent as the bytes of its packet. -/
theorem send_of_le (observer : Observer σ) (field : UInt16) {payload : List UInt8}
    (h : payload.length ≤ w.limit) :
    w.send observer field payload = w.sendSerial observer (w.bytes field payload) := by
  cases w with
  | command => exact if_neg (Nat.not_lt.mpr h)
  | acl => exact if_neg (Nat.not_lt.mpr h)

/-- A payload that does not fit is refused. -/
theorem send_of_lt (field : UInt16) {payload : List UInt8} (h : w.limit < payload.length) :
    ∃ b', (w.send (Observer.passive note) field payload).run b =
      .ok (.error .payloadTooLarge) b' := by
  cases w with
  | command =>
    have hover : Packet.commandPayload < payload.length := h
    rw [send, Host.sendCommand, if_pos hover]
    exact ⟨_, rfl⟩
  | acl =>
    have hover : Packet.aclPayload < payload.length := h
    rw [send, Host.sendAcl, if_pos hover]
    exact ⟨_, rfl⟩

end Sends

/-! ### Accounts -/

/-- The call that sends the bytes after the kind. -/
def post : Wire → List UInt8 → Call
  | command, bytes => .operation (.sendCommandSerial bytes)
  | acl, bytes => .operation (.sendAclSerial bytes)

/-- The packet that lies in the buffer for the peer, if any. -/
def held (p : Placement) (s : Account σ) : Option (List UInt8) :=
  s.packet p w.outlet.channel w.format w.outlet.object

variable {p : Placement} {sw : Switches} {note : Event → σ → σ} {b b' : Board σ} {s : Account σ}
  {c : Call}

/-- Bytes that are sent lie in the buffer behind the kind, and before what it held. -/
theorem held_post (s : Account σ) {bytes : List UInt8} (h : bytes.length ≤ w.capacity) :
    w.held p ((w.post bytes).apply p sw note s) = some (w.kind.code :: bytes ++
      (s.bytes.read (Packet.serial (p.address w.outlet.object)) w.format.size).drop
        (1 + bytes.length)) := by
  have hsize : 1 + bytes.length ≤ w.format.size := by
    rw [w.format_size, w.capacity_eq]
    omega
  have hread := read_writeSerial s.bytes (Packet.serial (p.address w.outlet.object)) w.kind.code
    hsize (by cases w <;> decide)
  cases w with
  | command =>
    have hrung : ((s.panel.modify .bleCommand Bell.ring).get .bleCommand).hostFlag = true :=
      congrArg Bell.hostFlag Panel.get_modify_self
    have hfits : ¬ Packet.commandCapacity < bytes.length := Nat.not_lt.mpr h
    rw [post, Call.apply, Operation.apply, Account.sendCommandSerial, if_neg hfits]
    exact (if_pos hrung).trans (congrArg some hread)
  | acl =>
    have hrung : (((s.panel.modify .aclData Bell.ring).modify .aclData
        (·.enableTx true)).get .aclData).hostFlag = true := by
      rw [Panel.get_modify_self, Panel.get_modify_self]
      rfl
    have hfits : ¬ Packet.aclCapacity < bytes.length := Nat.not_lt.mpr h
    rw [post, Call.apply, Operation.apply, Account.sendAclSerial, if_neg hfits]
    exact (if_pos hrung).trans (congrArg some hread)

theorem held_same {s' : Account σ} (h : s.SameOutlet p w.outlet s') :
    w.held p s' = w.held p s :=
  h.packet_eq (by rw [w.object_size, w.format_size, w.capacity_eq]; exact Nat.le_refl _)

/-- The host is told that a packet was taken, which says nothing of the packet. -/
theorem held_aclAcknowledged (s : Account σ) :
    acl.held p (s.aclAcknowledged note) = acl.held p s := by
  have hbell : (s.aclAcknowledged note).panel.get .aclData =
      (s.panel.get .aclData).enableTx false := Panel.get_modify_self
  have hflag : ((s.aclAcknowledged note).panel.get .aclData).hostFlag =
      (s.panel.get .aclData).hostFlag := by rw [hbell, Bell.enableTx]
  show (if ((s.aclAcknowledged note).panel.get .aclData).hostFlag then _ else _) = _
  rw [hflag]
  rfl

/-- **Whatever else happens, the packet stays as it is.** -/
theorem held_call (hp : p.Valid) (hs : s.Proper []) (hc : w.uses c = false) :
    w.held p (c.apply p sw note s) = w.held p s := by
  by_cases hmem : w.outlet ∈ c.outlets
  · cases w with
    | command =>
      cases c with
      | operation op =>
        cases op with
        | sendCommandSerial | sendCommand | takeCommand => cases hc
        | _ => exact nomatch hmem
      | _ => exact nomatch hmem
    | acl =>
      rcases Call.cases_of_acl_mem_outlets hmem with
        ⟨bytes, rfl⟩ | ⟨handle, data, rfl⟩ | rfl | rfl | rfl
      · cases hc
      · cases hc
      · cases hc
      · exact (Account.serve_keeps (acl.held p) held_aclAcknowledged _).trans
          (acl.held_same (Account.sameAcl_serve_rest s))
      · exact held_aclAcknowledged s
  · exact w.held_same ((Account.call_effect sw note hp hs c).outlet w.outlet hmem)

/-! ### From the send to the take -/

/-- What may happen between a send and the take: any call that neither sends through the buffer nor
takes from it, and boxes made around buffers that are in no place. -/
inductive Elapses (note : Event → σ → σ) (b : Board σ) : Board σ → Prop
  | none : Elapses note b b
  | call {b₁ b₂ : Board σ} {c : Call} {r : Answer} (hbefore : Elapses note b b₁)
      (hw : w.uses c = false) (hc : c.Permitted b₁)
      (hrun : (c.run (Observer.passive note)).run b₁ = .ok r b₂) : Elapses note b b₂
  | wrap {b₁ b₂ : Board σ} {n : NodeIndex} (hbefore : Elapses note b b₁) (hn : n ∈ slots)
      (hplaces : some n ∉ b₁.places) (hrun : (Host.newBox (Box.around n)).run b₁ = .ok () b₂) :
      Elapses note b b₂

/-- The board shows an account with this packet in the buffer. -/
def Holds (p : Placement) (sw : Switches) (packet : List UInt8) (b : Board σ) : Prop :=
  ∃ s, b.Shows p sw s ∧ s.Proper [] ∧ w.held p s = some packet

variable {w} {packet : List UInt8}

theorem Elapses.holds (h : w.Elapses note b b') (hb : w.Holds p sw packet b) :
    w.Holds p sw packet b' := by
  induction h with
  | none => exact hb
  | call _ hw hc hrun ih =>
    obtain ⟨s, hshows, hs, hheld⟩ := ih
    refine ⟨_, (hshows.of_call hs hc hrun).2,
      Account.proper_call hshows.valid hshows hs hc, ?_⟩
    rw [w.held_call hshows.valid hs hw, hheld]
  | wrap _ hn hplaces hrun ih =>
    obtain ⟨s, hshows, hs, hheld⟩ := ih
    obtain ⟨hshows', hs'⟩ := hshows.of_wrap hs hn hplaces hrun
    exact ⟨_, hshows', hs', hheld⟩

/-- The peer takes what lies in the buffer. -/
theorem Holds.take (h : w.Holds p sw packet b) :
    ∃ b', w.take.run b = .ok (some packet) b' := by
  obtain ⟨s, hshows, -, hheld⟩ := h
  cases w with
  | command =>
    obtain ⟨b', hrun, -⟩ := hshows.takeCommand
    exact ⟨b', hrun.trans (by rw [← hheld]; rfl)⟩
  | acl =>
    obtain ⟨b', hrun, -⟩ := hshows.takeAcl
    exact ⟨b', hrun.trans (by rw [← hheld]; rfl)⟩

end Wire

namespace Board.Shows

variable {p : Placement} {sw : Switches} {note : Event → σ → σ} {b b' : Board σ} {s : Account σ}
  (h : b.Shows p sw s) (hs : s.Proper []) (w : Wire)
include h

/-- A packet is read as in the account. -/
theorem packet_eq : w.packet b =
    s.bytes.read (Packet.serial (p.address w.outlet.object)) w.format.size := by
  rw [Wire.packet, h.host.place]
  refine h.read_object w.outlet.object_mem ?_
  rw [w.object_size, w.format_size, w.capacity_eq]
  exact Nat.le_refl _

include hs

/-- After bytes were sent the buffer holds them, behind the kind and before what it held. -/
theorem holds_sendSerial {bytes : List UInt8} (hfits : bytes.length ≤ w.capacity)
    (hrun : (w.sendSerial (Observer.passive note) bytes).run b = .ok (.ok ()) b') :
    w.Holds p sw (w.kind.code :: bytes ++ (w.packet b).drop (1 + bytes.length)) b' := by
  have hpost : ((w.post bytes).run (Observer.passive note)).run b = .ok (.sent (.ok ())) b' := by
    cases w <;> exact run_map_ok _ hrun
  have hc : (w.post bytes).Permitted b := by
    cases w <;> exact fun _ hi => absurd hi List.not_mem_nil
  refine ⟨_, (h.of_call hs hc hpost).2, Account.proper_call h.valid h hs hc, ?_⟩
  rw [w.held_post s hfits, h.packet_eq w]

end Board.Shows

/-! ### Round trips -/

/-- What sends through a buffer do to a board, and what the peer takes after them. -/
structure Wire.Transmits (w : Wire) (note : Event → σ → σ) (b : Board σ) : Prop where
  /-- Bytes are accepted if there is room for them, and refused otherwise. -/
  serial : ∀ bytes, ∃ b', (w.sendSerial (Observer.passive note) bytes).run b =
    .ok (if bytes.length ≤ w.capacity then .ok () else .error .payloadTooLarge) b'
  /-- A payload is accepted if there is room for it, and refused otherwise. -/
  parts : ∀ field payload, ∃ b', (w.send (Observer.passive note) field payload).run b =
    .ok (if payload.length ≤ w.limit then .ok () else .error .payloadTooLarge) b'
  /-- A payload that is accepted is sent as its header and its bytes, least significant first. -/
  same : ∀ field payload, payload.length ≤ w.limit →
    (w.send (Observer.passive note) field payload).run b =
      (w.sendSerial (Observer.passive note) (LittleEndian.encode 2 field.toNat ++
        LittleEndian.encode w.lengthWidth payload.length ++ payload)).run b
  /-- Nothing is written but the kind and the bytes after it, and those only if there is room, -/
  confined : ∀ bytes r b', (w.sendSerial (Observer.passive note) bytes).run b = .ok r b' →
    AgreeOff (fun k => bytes.length ≤ w.capacity ∧
      Within (Packet.serial (b.host.place.address w.outlet.object)) (1 + bytes.length) k)
      b.memory b'.memory
  /-- so every other object keeps its bytes. -/
  apart : ∀ bytes r b', (w.sendSerial (Observer.passive note) bytes).run b = .ok r b' →
    ∀ o ≠ w.outlet.object, ∀ k, Within (b.host.place.address o) o.size k →
      b'.memory.get k = b.memory.get k
  /-- Whatever else happens, the peer takes a packet that says what was sent, and whose payload goes
  on with what the buffer held before. -/
  arrives : ∀ field payload b₁ b₂,
    (w.send (Observer.passive note) field payload).run b = .ok (.ok ()) b₁ →
      w.Elapses note b₁ b₂ → ∃ packet b₃, w.take.run b₂ = .ok (some packet) b₃ ∧
        packet.length = w.format.size ∧
        w.format.decode packet = [.number w.kind.code.toNat, .number field.toNat,
          .number payload.length,
          .block (payload ++ (w.packet b).drop (w.header + payload.length))]

namespace Wire

variable (w : Wire) (note : Event → σ → σ) (b : Board σ)

/-- A send by its bytes, whatever its outcome. -/
theorem exists_sendSerial (bytes : List UInt8) :
    ∃ b', (w.sendSerial (Observer.passive note) bytes).run b =
        .ok (if bytes.length ≤ w.capacity then .ok () else .error .payloadTooLarge) b' ∧
      AgreeOff (fun k => bytes.length ≤ w.capacity ∧
        Within (Packet.serial (b.host.place.address w.outlet.object)) (1 + bytes.length) k)
        b.memory b'.memory := by
  by_cases hfits : bytes.length ≤ w.capacity
  · obtain ⟨b', hrun, hmemory⟩ := w.sendSerial_of_le note b hfits
    refine ⟨b', by rw [hrun, if_pos hfits], ?_⟩
    rw [hmemory]
    have hroom : 1 + bytes.length ≤ w.outlet.object.size := by
      rw [w.object_size]
      omega
    exact (agreeOff_writeSerial _ _ w.kind.code (Nat.le_refl _)
      (Nat.le_trans hroom w.outlet.object.size_le)).mono fun _ hk => ⟨hfits, hk⟩
  · obtain ⟨b', hrun, hmemory⟩ := w.sendSerial_of_lt note b (Nat.not_le.mp hfits)
    refine ⟨b', by rw [hrun, if_neg hfits], ?_⟩
    rw [hmemory]
    exact .refl _ _

/-- A send by its parts, whatever its outcome. -/
theorem exists_send (field : UInt16) (payload : List UInt8) :
    ∃ b', (w.send (Observer.passive note) field payload).run b =
      .ok (if payload.length ≤ w.limit then .ok () else .error .payloadTooLarge) b' := by
  by_cases hfits : payload.length ≤ w.limit
  · obtain ⟨b', hrun, -⟩ := w.sendSerial_of_le note b (w.length_bytes_le field hfits)
    exact ⟨b', by rw [w.send_of_le _ field hfits, hrun, if_pos hfits]⟩
  · obtain ⟨b', hrun⟩ := w.send_of_lt note b field (Nat.not_le.mp hfits)
    exact ⟨b', by rw [hrun, if_neg hfits]⟩

variable {note b}

/-- A send that is accepted has room for its payload. -/
theorem le_limit_of_run {field : UInt16} {payload : List UInt8} {b' : Board σ}
    (hrun : (w.send (Observer.passive note) field payload).run b = .ok (.ok ()) b') :
    payload.length ≤ w.limit := by
  obtain ⟨b₁, hrun₁⟩ := w.exists_send note b field payload
  by_contra hover
  rw [hrun, if_neg hover] at hrun₁
  cases hrun₁

/-- What a send by its bytes may write. -/
theorem confined_of_run {bytes : List UInt8} {r : Host.SendResult} {b' : Board σ}
    (hrun : (w.sendSerial (Observer.passive note) bytes).run b = .ok r b') :
    AgreeOff (fun k => bytes.length ≤ w.capacity ∧
      Within (Packet.serial (b.host.place.address w.outlet.object)) (1 + bytes.length) k)
      b.memory b'.memory := by
  obtain ⟨b₁, hrun₁, hagree⟩ := w.exists_sendSerial note b bytes
  cases hrun.symm.trans hrun₁
  exact hagree

/-- The bytes that fit lie in their object. -/
theorem within_object {bytes : List UInt8} {a k : Address} (hfits : bytes.length ≤ w.capacity)
    (hk : Within (Packet.serial a) (1 + bytes.length) k) : Within a w.outlet.object.size k := by
  refine Within.of_add hk ?_
  rw [w.object_size]
  exact Nat.add_le_add_left (Nat.add_le_add_left hfits 1) 16

end Wire

/-- **Round trips from a board that shows an account.** -/
theorem Board.Shows.transmits {p : Placement} {sw : Switches} {b : Board σ} {s : Account σ}
    (h : b.Shows p sw s) (hs : s.Proper []) (w : Wire) (note : Event → σ → σ) :
    w.Transmits note b where
  serial bytes := (w.exists_sendSerial note b bytes).imp fun _ h => h.1
  parts := w.exists_send note b
  same field payload hfits := by rw [w.send_of_le _ field hfits, w.bytes_eq]
  confined _ _ _ hrun := w.confined_of_run hrun
  apart bytes r b' hrun o ho k hk := by
    rw [h.host.place] at hk
    refine w.confined_of_run hrun k fun ⟨hfits, hwritten⟩ => ?_
    rw [h.host.place] at hwritten
    exact h.valid.objects_apart ho hk (w.within_object hfits hwritten)
  arrives field payload b₁ b₂ hrun helapses := by
    have hfits := w.le_limit_of_run hrun
    rw [w.send_of_le _ field hfits] at hrun
    have hlength : (w.packet b).length = w.format.size := length_read _ _ _
    have hbytes := w.length_bytes field payload
    obtain ⟨b₃, htake⟩ := (helapses.holds
      (h.holds_sendSerial hs w (w.length_bytes_le field hfits) hrun)).take
    refine ⟨_, b₃, htake, ?_, w.decode_packet field hfits hlength⟩
    rw [List.length_append, List.length_cons, List.length_drop, hlength, w.format_size]
    omega

/-- **Round trips from every board.** -/
theorem Usage.wires_transmit {p : Placement} {sw : Switches} {note : Event → σ → σ}
    {b₀ b : Board σ} (hp : p.Valid) (hboxes : ∀ x ∈ b₀.boxes, x = Box.empty)
    (h : Usage p sw note b₀ b) (w : Wire) : w.Transmits note b := by
  obtain ⟨s, hshows, hs⟩ := h.exists_shows hp hboxes
  exact hshows.transmits hs w note

/-- A longer command and longer data were sent and taken before. -/
theorem Usage.wires_transmit_session : ∃ ts b,
    Calls Placement.standard {} (fun _ c => c) Demo.blank ts b ∧
    ts.map (·.call) = [Operation.sendCommand 0x0C03 [1, 2, 3], .takeCommand,
      .sendAcl 0x0040 [9, 8, 7, 6], .takeAcl].map Call.operation ∧
    Wire.command.Transmits (fun _ c => c) b ∧ Wire.acl.Transmits (fun _ c => c) b := by
  obtain ⟨ts, b, h, hcalls⟩ : ∃ ts b,
      Calls Placement.standard {} (fun _ c => c) Demo.blank ts b ∧
      ts.map (·.call) = [Operation.sendCommand 0x0C03 [1, 2, 3], .takeCommand,
        .sendAcl 0x0040 [9, 8, 7, 6], .takeAcl].map Call.operation :=
    Calls.exists_of_legal Placement.valid_standard Demo.boxes_blank (by decide) (by decide)
  have hroundTrip := Usage.wires_transmit Placement.valid_standard Demo.boxes_blank
    (Usage.of_calls h)
  exact ⟨ts, b, h, hcalls, hroundTrip .command, hroundTrip .acl⟩

end InterCore
