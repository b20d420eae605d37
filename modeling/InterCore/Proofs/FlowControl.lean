import InterCore.Proofs.Calls

/-!
# Flow control of ACL packets

ACL packets go to the peer through one buffer. The host fills it, rings and unmasks the transmit
interrupt; the peer copies the packet and acknowledges the ring, which the host learns no sooner
than from that interrupt. While a packet may still lie in the buffer it counts as in flight, so an
application that sends only while nothing is in flight never writes over a packet: the peer takes
what was sent, in the order in which it was sent, except that the last packet may still be there.

## Main definitions

* `AclView`: what an ACL packet says.
* `Shipment`: what a send hands over; `Shipment.Arrives`: a packet carries it.
* `Call.shipped`, `Call.unloaded`: what a call sends and what it takes.
* `Account.announced`, `Board.announced`: the packet that lies in the buffer for the peer.
* `FlowControlled`: what a board shows of the packets of a run.

## Main results

* `Account.Waits.step`: what a call does to the marks of a packet in flight.
* `Account.Waits.carried`: what was announced and is sent is what is taken and stays announced.
* `Calls.acl_flow_controlled`: the packets of a run.
-/

namespace InterCore

open Memory

variable {σ : Type}

/-! ### ACL packets -/

/-- What an ACL packet says. -/
structure AclView where
  kind : UInt8
  handle : UInt16
  length : UInt16
  data : List UInt8
  deriving DecidableEq, Repr

namespace AclView

/-- What the bytes of a packet say, with as much data as the packet says. -/
def decode (packet : List UInt8) : AclView where
  kind := packet.headD 0
  handle := UInt16.ofNat (LittleEndian.decode ((packet.drop 1).take 2))
  length := UInt16.ofNat (LittleEndian.decode ((packet.drop 3).take 2))
  data := (packet.drop 5).take (LittleEndian.decode ((packet.drop 3).take 2))

/-- The packet for a handle and data. -/
def of (handle : UInt16) (data : List UInt8) : AclView :=
  ⟨PacketKind.aclData.code, handle, UInt16.ofNat data.length, data⟩

/-- A packet says what it was made of, whatever follows in its buffer. -/
theorem decode_of_isPrefix {handle : UInt16} {data packet : List UInt8}
    (hfits : data.length ≤ Packet.aclPayload)
    (h : PacketKind.aclData.code :: Host.aclBytes handle data <+: packet) :
    decode packet = of handle data := by
  obtain ⟨rest, rfl⟩ := h
  have hhandle : UInt16.ofNat (LittleEndian.decode (LittleEndian.encode 2 handle.toNat)) =
      handle := by
    rw [LittleEndian.decode_encode, show LittleEndian.bound 2 = 65536 from rfl,
      Nat.mod_eq_of_lt handle.toNat_lt, UInt16.ofNat_toNat]
  have hlength : LittleEndian.decode (LittleEndian.encode 2 data.length) = data.length := by
    rw [LittleEndian.decode_encode]
    exact Nat.mod_eq_of_lt (Nat.lt_of_le_of_lt hfits (by decide))
  rw [decode, of, mk.injEq]
  refine ⟨rfl, hhandle, congrArg UInt16.ofNat hlength, ?_⟩
  show (data ++ rest).take (LittleEndian.decode (LittleEndian.encode 2 data.length)) = data
  rw [hlength, List.take_left]

end AclView

/-- What a send hands over. -/
inductive Shipment where
  | parts (handle : UInt16) (data : List UInt8)
  | serial (bytes : List UInt8)
  deriving DecidableEq, Repr

/-- A packet carries what was sent: it says the handle and the data, or it starts with the bytes. -/
def Shipment.Arrives : Shipment → List UInt8 → Prop
  | parts handle data, packet => AclView.decode packet = AclView.of handle data
  | serial bytes, packet => PacketKind.aclData.code :: bytes <+: packet

namespace Call

/-- What a call sends, if the send is accepted. -/
def shipped : Call → Answer → List Shipment
  | .operation (.sendAcl handle data), .sent (.ok _) => [.parts handle data]
  | .operation (.sendAclSerial bytes), .sent (.ok _) => [.serial bytes]
  | _, _ => []

/-- What the peer takes in a call. -/
def unloaded : Call → Answer → List (List UInt8)
  | .operation .takeAcl, .packet (some packet) => [packet]
  | _, _ => []

variable {c : Call} {r : Answer}

/-- Only five calls have anything to do with ACL packets. -/
theorem cases_of_acl_mem_outlets (h : .acl ∈ c.outlets) :
    (∃ bytes, c = .operation (.sendAclSerial bytes)) ∨
      (∃ handle data, c = .operation (.sendAcl handle data)) ∨
      c = .operation .takeAcl ∨ c = .operation .transmitInterrupt ∨ c = .aclAcknowledged := by
  cases c with
  | operation op =>
    cases op with
    | sendAclSerial bytes => exact .inl ⟨bytes, rfl⟩
    | sendAcl handle data => exact .inr (.inl ⟨handle, data, rfl⟩)
    | takeAcl => exact .inr (.inr (.inl rfl))
    | transmitInterrupt => exact .inr (.inr (.inr (.inl rfl)))
    | _ => exact nomatch h
  | aclAcknowledged => exact .inr (.inr (.inr (.inr rfl)))
  | _ => exact nomatch h

/-- Other calls neither send a packet nor take one. -/
theorem shipped_of_not_mem (h : .acl ∉ c.outlets) : c.shipped r = [] ∧ c.unloaded r = [] := by
  cases c with
  | operation op =>
    cases op with
    | sendAclSerial | sendAcl | takeAcl => exact absurd List.mem_cons_self h
    | _ => exact ⟨rfl, rfl⟩
  | _ => exact ⟨rfl, rfl⟩

end Call

/-- What a turn sends, if the send is accepted. -/
def Turn.shipped (t : Turn σ) : List Shipment := t.call.shipped t.answer

/-- What the peer takes in a turn. -/
def Turn.unloaded (t : Turn σ) : List (List UInt8) := t.call.unloaded t.answer

/-! ### Packets in flight -/

/-- A packet written as its kind and the bytes after it reads as these, and goes on as before. -/
theorem Memory.read_writeSerial (m : Memory) (a : Address) (kind : UInt8) {bytes : List UInt8}
    {n : Nat} (hn : 1 + bytes.length ≤ n) (hsize : n ≤ UInt64.size) :
    ((m.write (a + 1) bytes).set a kind).read a n =
      kind :: bytes ++ (m.read a n).drop (1 + bytes.length) := by
  have hlimit : UInt64.size = 18446744073709551616 := rfl
  apply List.ext_getElem?
  intro i
  rw [getElem?_read]
  cases i with
  | zero =>
    rw [show UInt64.ofNat 0 = 0 from rfl, UInt64.add_zero, get_set, if_pos rfl, if_pos (by omega)]
    rfl
  | succ i =>
    have hshift : a + UInt64.ofNat (i + 1) = a + 1 + UInt64.ofNat i := by
      rw [UInt64.ofNat_add, UInt64.add_assoc, UInt64.add_comm (UInt64.ofNat i)]
      rfl
    rw [List.cons_append, List.getElem?_cons_succ, List.getElem?_append, List.getElem?_drop,
      getElem?_read]
    by_cases hi : i + 1 < n
    · have hne : a ≠ a + UInt64.ofNat (i + 1) := fun h => by
        have hzero := toNat_add_ofNat_sub_self a (show i + 1 < UInt64.size by omega)
        rw [← h, UInt64.sub_self] at hzero
        exact absurd hzero (Nat.succ_ne_zero i).symm
      rw [if_pos hi, get_set, if_neg hne, get_write _ _ _ _ (by omega), hshift,
        toNat_add_ofNat_sub_self _ (by omega), ← hshift]
      split
      · next hin => rw [List.getElem?_eq_getElem hin, Option.getD_some]
      · next hout =>
        have hback : 1 + bytes.length + (i - bytes.length) = i + 1 := by omega
        rw [hback, if_pos hi, List.getElem?_eq_none (Nat.not_lt.mp hout), Option.getD_none]
    · rw [if_neg hi, if_neg (by omega), if_neg (by omega)]

/-- A packet written as its kind and the bytes after it starts with them. -/
theorem Memory.isPrefix_read_writeSerial (m : Memory) (a : Address) (kind : UInt8)
    {bytes : List UInt8} {n : Nat} (hn : 1 + bytes.length ≤ n) (hsize : n ≤ UInt64.size) :
    kind :: bytes <+: ((m.write (a + 1) bytes).set a kind).read a n :=
  ⟨_, (read_writeSerial m a kind hn hsize).symm⟩

namespace Account

/-- The packet that lies in the buffer for the peer, if any. -/
def announced (p : Placement) (s : Account σ) : List (List UInt8) :=
  (s.packet p .aclData .aclData .aclData).toList

/-- A packet is in flight exactly while the transmit interrupt is unmasked, and at least as long as
it lies in the buffer. -/
structure Waits (s : Account σ) : Prop where
  unmasked : s.flags.aclInFlight = (s.panel.get .aclData).txEnabled
  inFlight : (s.panel.get .aclData).hostFlag = true → s.flags.aclInFlight = true

variable {p : Placement} {sw : Switches} {note : Event → σ → σ} {s s' : Account σ} {c : Call}

theorem announced_of_clear (h : (s.panel.get .aclData).hostFlag = false) : s.announced p = [] := by
  rw [announced, packet, if_neg (Bool.eq_false_iff.mp h)]
  rfl

/-- While nothing is in flight the buffer is the host's. -/
theorem Waits.announced_eq_nil (h : s.Waits) (hidle : s.flags.aclInFlight = false) :
    s.announced p = [] :=
  announced_of_clear (Bool.eq_false_iff.mpr fun hflag =>
    Bool.false_ne_true (hidle.symm.trans (h.inFlight hflag)))

namespace SameOutlet

/-- Whatever has nothing to do with a buffer leaves the packet in it alone. -/
theorem packet_eq {o : Outlet} {format : Format} (h : SameOutlet p o s s')
    (hsize : (16 : Address).toNat + format.size ≤ o.object.size) :
    s'.packet p o.channel format o.object = s.packet p o.channel format o.object := by
  have hflag : (s'.panel.get o.channel).hostFlag = (s.panel.get o.channel).hostFlag :=
    congrArg Outbound.hostFlag h.bell
  have hread : s'.bytes.read (Packet.serial (p.address o.object)) format.size =
      s.bytes.read (Packet.serial (p.address o.object)) format.size :=
    AgreeOff.read_eq (S := fun k => ¬ Within (p.address o.object) o.object.size k)
      (fun k hk => h.bytes k (not_not.mp hk)) fun k hk => not_not.mpr (hk.of_add hsize)
  rw [packet, packet, hflag, hread]

variable (h : SameOutlet p .acl s s')
include h

theorem hostFlag_acl : (s'.panel.get .aclData).hostFlag = (s.panel.get .aclData).hostFlag :=
  congrArg Outbound.hostFlag h.bell

theorem waits (hs : s.Waits) : s'.Waits := by
  have hflag : s'.flags.aclInFlight = s.flags.aclInFlight := congrArg Prod.fst h.marks
  have htx : (s'.panel.get .aclData).txEnabled = (s.panel.get .aclData).txEnabled :=
    congrArg Outbound.txEnabled h.bell
  exact ⟨by rw [hflag, htx, hs.unmasked], by rw [hflag, h.hostFlag_acl]; exact hs.inFlight⟩

/-- Whatever has nothing to do with ACL packets leaves the buffer alone. -/
theorem announced : s'.announced p = s.announced p :=
  congrArg Option.toList (packet_eq h (show _ + Format.aclData.size ≤ _ by decide))

end SameOutlet

/-! ### The calls -/

/-- A refused send tells the observer and no more. -/
theorem sameAcl_reject (c : Channel) (bytes : List UInt8) :
    SameOutlet p .acl s (s.reject note c bytes) :=
  ⟨rfl, rfl, fun _ _ => rfl⟩

/-- A send that fits fills the buffer. -/
theorem sendAclSerial_of_le {bytes : List UInt8} (hfits : bytes.length ≤ Packet.aclCapacity) :
    (s.sendAclSerial p note bytes).Waits ∧
      ∃ packet, (s.sendAclSerial p note bytes).announced p = [packet] ∧
        PacketKind.aclData.code :: bytes <+: packet := by
  have hbell : ∀ q : Panel, ((q.modify .aclData Bell.ring).modify .aclData
      (·.enableTx true)).get .aclData = ((q.get .aclData).ring).enableTx true := fun q => by
    rw [Panel.get_modify_self, Panel.get_modify_self]
  rw [sendAclSerial, if_neg (Nat.not_lt.mpr hfits)]
  refine ⟨⟨?_, fun _ => rfl⟩, ?_⟩
  · exact (congrArg Bell.txEnabled (hbell s.panel)).symm
  · refine ⟨_, congrArg Option.toList (if_pos (congrArg Bell.hostFlag (hbell s.panel))), ?_⟩
    refine isPrefix_read_writeSerial s.bytes _ _ ?_ (by decide)
    rw [Nat.add_comm]
    exact Nat.add_le_add_right hfits 1

theorem sendAcl_of_le {handle : UInt16} {data : List UInt8}
    (hfits : data.length ≤ Packet.aclPayload) :
    s.sendAcl p note handle data = s.sendAclSerial p note (Host.aclBytes handle data) ∧
      (Host.aclBytes handle data).length ≤ Packet.aclCapacity := by
  rw [sendAcl, if_neg (Nat.not_lt.mpr hfits), Host.length_aclBytes]
  exact ⟨rfl, Nat.add_le_add_left hfits 4⟩

theorem waits_sendAclSerial (h : s.Waits) (bytes : List UInt8) :
    (s.sendAclSerial p note bytes).Waits := by
  by_cases hfits : bytes.length ≤ Packet.aclCapacity
  · exact (sendAclSerial_of_le hfits).1
  · rw [sendAclSerial, if_pos (Nat.not_le.mp hfits)]
    exact (sameAcl_reject (p := p) _ _).waits h

theorem waits_sendAcl (h : s.Waits) (handle : UInt16) (data : List UInt8) :
    (s.sendAcl p note handle data).Waits := by
  rw [sendAcl]
  split
  · exact (sameAcl_reject (p := p) _ _).waits h
  · exact waits_sendAclSerial h _

/-- The other channels of the transmit interrupt have nothing to do with ACL packets. -/
theorem sameAcl_serve_rest (s : Account σ) : SameOutlet p .acl s
    ((s.serve Bell.txPending .systemCommand (systemAnswered p note)).serve Bell.txPending .release
      (releaseAcknowledged note)) := by
  have heffect : Effect p Release.Steps [.system] s
      ((s.serve Bell.txPending .systemCommand (systemAnswered p note)).serve Bell.txPending
        .release (releaseAcknowledged note)) :=
    (effect_serve (fun _ => effect_systemAnswered List.mem_cons_self) s).trans
      (effect_serve (fun _ => effect_releaseAcknowledged) _)
  exact heffect.outlet .acl (by decide)

/-- The transmit interrupt tells the host that a packet was taken. -/
theorem waits_serve (h : s.Waits) :
    (s.serve Bell.txPending .aclData (aclAcknowledged note)).Waits ∧
      (s.serve Bell.txPending .aclData (aclAcknowledged note)).announced p = s.announced p := by
  rw [serve]
  split
  · next hpending =>
    have hclear : (s.panel.get .aclData).hostFlag = false := by
      rw [Bell.txPending, Bool.and_eq_true, Bool.not_eq_true'] at hpending
      exact hpending.2
    have hbell : (s.aclAcknowledged note).panel.get .aclData =
        (s.panel.get .aclData).enableTx false := Panel.get_modify_self
    have hclear' : ((s.aclAcknowledged note).panel.get .aclData).hostFlag = false :=
      (congrArg Bell.hostFlag hbell).trans hclear
    refine ⟨⟨(congrArg Bell.txEnabled hbell).symm, fun hflag => ?_⟩, ?_⟩
    · exact absurd (hclear'.symm.trans hflag) Bool.false_ne_true
    · rw [announced_of_clear hclear', announced_of_clear hclear]
  · exact ⟨h, rfl⟩

/-- The peer takes the packet that lies in the buffer. -/
theorem waits_takePacket (h : s.Waits) :
    (s.takePacket .aclData).Waits ∧ (s.takePacket .aclData).announced p = [] := by
  rw [takePacket]
  split
  · have hbell : (s.modifyBell .aclData Bell.acknowledge).panel.get .aclData =
        (s.panel.get .aclData).acknowledge := Panel.get_modify_self
    have hclear : ((s.modifyBell .aclData Bell.acknowledge).panel.get .aclData).hostFlag = false :=
      congrArg Bell.hostFlag hbell
    refine ⟨⟨h.unmasked.trans (congrArg Bell.txEnabled hbell).symm, fun hflag => ?_⟩,
      announced_of_clear hclear⟩
    exact absurd (hclear.symm.trans hflag) Bool.false_ne_true
  · next hflag => exact ⟨h, announced_of_clear (Bool.eq_false_of_not_eq_true hflag)⟩

/-- What the peer takes is what lies in the buffer. -/
theorem unloaded_takeAcl : (Call.operation .takeAcl).unloaded
    (.packet (s.packet p .aclData .aclData .aclData)) = s.announced p := by
  rw [announced]
  cases s.packet p .aclData .aclData .aclData <;> rfl

/-- **A packet stays in flight until the transmit interrupt says otherwise**, if nobody else tells
the host that it was taken. -/
theorem Waits.step (hp : p.Valid) (hs : s.Proper []) (h : s.Waits) (hc : c ≠ .aclAcknowledged) :
    (c.apply p sw note s).Waits := by
  by_cases hmem : .acl ∈ c.outlets
  · rcases Call.cases_of_acl_mem_outlets hmem with
      ⟨bytes, rfl⟩ | ⟨handle, data, rfl⟩ | rfl | rfl | rfl
    · exact waits_sendAclSerial h bytes
    · exact waits_sendAcl h handle data
    · exact (waits_takePacket (p := p) h).1
    · exact (waits_serve (p := p) ((sameAcl_serve_rest (p := p) s).waits h)).1
    · exact absurd rfl hc
  · exact ((call_effect sw note hp hs c).outlet .acl hmem).waits h

/-! ### The way of the packets -/

/-- What lay in the buffer and what is sent is what is taken and what lies in the buffer then. -/
def Carried (p : Placement) (s s' : Account σ) (shipped : List Shipment)
    (unloaded : List (List UInt8)) : Prop :=
  ∃ fresh, List.Forall₂ Shipment.Arrives shipped fresh ∧
    s.announced p ++ fresh = unloaded ++ s'.announced p

theorem carried_of_same (h : s'.announced p = s.announced p) : Carried p s s' [] [] :=
  ⟨[], .nil, (List.append_nil _).trans h.symm⟩

/-- A send while nothing is in flight. -/
theorem Waits.carried_send (h : s.Waits) (hidle : s.flags.aclInFlight = false) {x : Shipment}
    {bytes : List UInt8} (hfits : bytes.length ≤ Packet.aclCapacity)
    (hx : ∀ packet, PacketKind.aclData.code :: bytes <+: packet → x.Arrives packet) :
    Carried p s (s.sendAclSerial p note bytes) [x] [] := by
  obtain ⟨-, packet, hpacket, hprefix⟩ :=
    @sendAclSerial_of_le σ p note s bytes hfits
  refine ⟨[packet], .cons (hx packet hprefix) .nil, ?_⟩
  rw [h.announced_eq_nil hidle, hpacket]

theorem Waits.carried_sendAclSerial (h : s.Waits) (bytes : List UInt8) {r : Answer}
    (hr : r = .sent (sendAnswer Packet.aclCapacity bytes))
    (hidle : (Call.operation (.sendAclSerial bytes)).shipped r ≠ [] →
      s.flags.aclInFlight = false) :
    Carried p s (s.sendAclSerial p note bytes)
      ((Call.operation (.sendAclSerial bytes)).shipped r) [] := by
  subst hr
  by_cases hfits : bytes.length ≤ Packet.aclCapacity
  · rw [sendAnswer, if_neg (Nat.not_lt.mpr hfits)] at hidle ⊢
    exact h.carried_send (hidle (List.cons_ne_nil _ _)) hfits fun _ hprefix => hprefix
  · rw [sendAnswer, if_pos (Nat.not_le.mp hfits), sendAclSerial, if_pos (Nat.not_le.mp hfits)]
    exact carried_of_same (sameAcl_reject _ _).announced

theorem Waits.carried_sendAcl (h : s.Waits) (handle : UInt16) (data : List UInt8) {r : Answer}
    (hr : r = .sent (sendAnswer Packet.aclPayload data))
    (hidle : (Call.operation (.sendAcl handle data)).shipped r ≠ [] →
      s.flags.aclInFlight = false) :
    Carried p s (s.sendAcl p note handle data)
      ((Call.operation (.sendAcl handle data)).shipped r) [] := by
  subst hr
  by_cases hfits : data.length ≤ Packet.aclPayload
  · rw [sendAnswer, if_neg (Nat.not_lt.mpr hfits)] at hidle ⊢
    obtain ⟨heq, hserial⟩ := @sendAcl_of_le σ p note s handle data hfits
    rw [heq]
    exact h.carried_send (hidle (List.cons_ne_nil _ _)) hserial
      fun _ hprefix => AclView.decode_of_isPrefix hfits hprefix
  · rw [sendAnswer, if_pos (Nat.not_le.mp hfits), sendAcl, if_pos (Nat.not_le.mp hfits)]
    exact carried_of_same (sameAcl_reject _ _).announced

theorem Waits.carried_takePacket (h : s.Waits) : Carried p s (s.takePacket .aclData) []
    ((Call.operation .takeAcl).unloaded (.packet (s.packet p .aclData .aclData .aclData))) := by
  refine ⟨[], .nil, ?_⟩
  rw [(waits_takePacket h).2, List.append_nil, List.append_nil, unloaded_takeAcl]

/-- **Packets are taken as they were sent**, unless a call sends while a packet is in flight. -/
theorem Waits.carried (hp : p.Valid) (hs : s.Proper []) (h : s.Waits) (hc : c ≠ .aclAcknowledged)
    (hidle : c.shipped (c.answer p sw s) ≠ [] → s.flags.aclInFlight = false) :
    Carried p s (c.apply p sw note s) (c.shipped (c.answer p sw s))
      (c.unloaded (c.answer p sw s)) := by
  by_cases hmem : .acl ∈ c.outlets
  · rcases Call.cases_of_acl_mem_outlets hmem with
      ⟨bytes, rfl⟩ | ⟨handle, data, rfl⟩ | rfl | rfl | rfl
    · exact h.carried_sendAclSerial bytes rfl hidle
    · exact h.carried_sendAcl handle data rfl hidle
    · exact h.carried_takePacket
    · have hrest := @sameAcl_serve_rest σ p note s
      exact carried_of_same ((waits_serve (hrest.waits h)).2.trans hrest.announced)
    · exact absurd rfl hc
  · obtain ⟨hshipped, hunloaded⟩ := Call.shipped_of_not_mem (r := c.answer p sw s) hmem
    rw [hshipped, hunloaded]
    exact carried_of_same ((call_effect sw note hp hs c).outlet .acl hmem).announced

/-- The way of the packets of many calls, and of one more. -/
theorem Carried.append {shipped shipped' : List Shipment} {unloaded unloaded' : List (List UInt8)}
    (hrun : List.Forall₂ Shipment.Arrives shipped (unloaded ++ s.announced p))
    (h : Carried p s s' shipped' unloaded') :
    List.Forall₂ Shipment.Arrives (shipped ++ shipped')
      ((unloaded ++ unloaded') ++ s'.announced p) := by
  obtain ⟨fresh, hfresh, heq⟩ := h
  rw [List.append_assoc, ← heq, ← List.append_assoc]
  exact List.rel_append hrun hfresh

end Account

/-! ### Boards -/

/-- The packet that lies in the buffer for the peer, if any. -/
def Board.announced (p : Placement) (b : Board σ) : List (List UInt8) :=
  if (b.panel.get .aclData).hostFlag then
    [b.memory.read (Packet.serial (p.address .aclData)) Format.aclData.size]
  else []

theorem Board.Shows.announced_eq {p : Placement} {sw : Switches} {b : Board σ} {s : Account σ}
    (h : b.Shows p sw s) : b.announced p = s.announced p := by
  have hread := h.read_object (o := .aclData) (by decide) (x := 16) (n := Format.aclData.size)
    (by decide)
  rw [Board.announced, Account.announced, Account.packet, h.panel, Packet.serial, hread]
  split <;> rfl

/-- Nothing was sent while a packet was in flight. -/
def Turn.Polite (t : Turn σ) : Prop := t.shipped ≠ [] → t.before.host.aclInFlight = false

instance (t : Turn σ) : Decidable t.Polite :=
  inferInstanceAs (Decidable (t.shipped ≠ [] → t.before.host.aclInFlight = false))

/-- What a board shows of the ACL packets of some turns. -/
structure FlowControlled (p : Placement) (ts : List (Turn σ)) (b : Board σ) : Prop where
  /-- A packet is in flight exactly while the transmit interrupt is unmasked, -/
  unmasked : b.host.aclInFlight = true ↔ (b.panel.get .aclData).txEnabled = true
  /-- and at least as long as the doorbell is set. -/
  inFlight : (b.panel.get .aclData).hostFlag = true → b.host.aclInFlight = true
  /-- If nothing was sent while a packet was in flight, what the peer took, and then what lies in
  the buffer for it, is what was sent. -/
  carried : (∀ t ∈ ts, t.Polite) → List.Forall₂ Shipment.Arrives (ts.flatMap Turn.shipped)
    (ts.flatMap Turn.unloaded ++ b.announced p)
  /-- The same for the handles and the data, if every packet was sent by its parts. -/
  said : (∀ t ∈ ts, t.Polite) → ∀ xs : List (UInt16 × List UInt8),
    ts.flatMap Turn.shipped = xs.map (fun x => .parts x.1 x.2) →
      (ts.flatMap Turn.unloaded ++ b.announced p).map AclView.decode =
        xs.map fun x => AclView.of x.1 x.2

/-- What arrives of packets that were sent by their parts. -/
theorem Shipment.map_decode_eq {xs : List (UInt16 × List UInt8)} {packets : List (List UInt8)}
    (h : List.Forall₂ Arrives (xs.map fun x => .parts x.1 x.2) packets) :
    packets.map AclView.decode = xs.map fun x => AclView.of x.1 x.2 := by
  induction xs generalizing packets with
  | nil =>
    cases h
    rfl
  | cons x xs ih =>
    cases h with
    | cons hx hrest => rw [List.map_cons, List.map_cons, hx, ih hrest]

namespace Calls

variable {p : Placement} {sw : Switches} {note : Event → σ → σ} {b₀ b : Board σ}
  {ts : List (Turn σ)}

/-- What an account tells of the packets of some turns. -/
structure Flowing (p : Placement) (ts : List (Turn σ)) (s : Account σ) : Prop where
  waits : s.Waits
  carried : (∀ t ∈ ts, t.Polite) → List.Forall₂ Shipment.Arrives (ts.flatMap Turn.shipped)
    (ts.flatMap Turn.unloaded ++ s.announced p)

theorem flowing_booted (hfresh : (b₀.panel.get .aclData).outbound = {}) (m : Memory) :
    Flowing p [] (Account.booted m (b₀.panel.booted sw) b₀.boxes.size b₀.sink) := by
  have hbell := (Panel.outbound_booted sw b₀.panel .aclData).trans hfresh
  have hclear : ((b₀.panel.booted sw).get .aclData).hostFlag = false :=
    congrArg Outbound.hostFlag hbell
  refine ⟨⟨(congrArg Outbound.txEnabled hbell).symm, fun hflag => ?_⟩, fun _ => ?_⟩
  · exact absurd (hclear.symm.trans hflag) Bool.false_ne_true
  · rw [Account.announced_of_clear hclear]
    exact .nil

theorem Flowing.step (hp : p.Valid) {s : Account σ} {c : Call} {b' : Board σ}
    (hshows : b.Shows p sw s) (hs : s.Proper []) (hc : c ≠ .aclAcknowledged)
    (h : Flowing p ts s) :
    Flowing p (ts ++ [⟨b, c, c.answer p sw s, b'⟩]) (c.apply p sw note s) := by
  refine ⟨h.waits.step hp hs hc, fun hpolite => ?_⟩
  obtain ⟨hbefore, hlast⟩ := List.forall_mem_append.mp hpolite
  have hidle : c.shipped (c.answer p sw s) ≠ [] → s.flags.aclInFlight = false := fun hne =>
    (congrArg Flags.aclInFlight hshows.flags).symm.trans (List.forall_mem_singleton.mp hlast hne)
  rw [List.flatMap_append, List.flatMap_append, List.flatMap_singleton, List.flatMap_singleton]
  exact (h.waits.carried hp hs hc hidle).append (h.carried hbefore)

/-- What is known of the packets when nobody but the transmit interrupt tells the host that one was
taken. -/
theorem exists_flowing (hp : p.Valid) (hboxes : ∀ x ∈ b₀.boxes, x = Box.empty)
    (hfresh : (b₀.panel.get .aclData).outbound = {}) (h : Calls p sw note b₀ ts b)
    (hacknowledged : ∀ t ∈ ts, t.call ≠ .aclAcknowledged) :
    ∃ s, b.Shows p sw s ∧ Flowing p ts s := by
  obtain ⟨s, hshows, -, hflowing, -⟩ := h.invariant_of hp hboxes (P := fun _ => True)
    (flowing_booted hfresh)
    (fun _ _ _ _ _ hflowing hshows hs _ _ hc => ⟨hflowing.step hp hshows hs hc, trivial⟩)
    hacknowledged
  exact ⟨s, hshows, hflowing⟩

/-- **No ACL packet is lost, overwritten or taken twice.** After a boot on a fresh channel, and if
nobody but the transmit interrupt tells the host that a packet was taken, every board shows what is
in flight; and if nothing was sent while something was, the peer takes what was sent. -/
theorem acl_flow_controlled (hp : p.Valid) (hboxes : ∀ x ∈ b₀.boxes, x = Box.empty)
    (hfresh : (b₀.panel.get .aclData).outbound = {}) (h : Calls p sw note b₀ ts b)
    (hacknowledged : ∀ t ∈ ts, t.call ≠ .aclAcknowledged) : FlowControlled p ts b := by
  obtain ⟨s, hshows, hwaits, hcarried⟩ := h.exists_flowing hp hboxes hfresh hacknowledged
  have hinFlight : b.host.aclInFlight = s.flags.aclInFlight :=
    congrArg Flags.aclInFlight hshows.flags
  rw [← hshows.announced_eq] at hcarried
  constructor
  case unmasked => rw [hinFlight, hshows.panel, hwaits.unmasked]
  case inFlight =>
    rw [hinFlight, hshows.panel]
    exact hwaits.inFlight
  case carried => exact hcarried
  case said =>
    intro hpolite xs hxs
    have hall := hcarried hpolite
    rw [hxs] at hall
    exact Shipment.map_decode_eq hall

/-- Two packets are sent and one of them is taken, while a third is refused for its length and the
interrupt first comes too early. -/
theorem acl_flow_controlled_session : ∃ ts b,
    Calls Placement.standard {} (fun _ c => c) Demo.blank ts b ∧
    ts.map (·.call) = [.sendAcl 0x40 [2, 1], .transmitInterrupt, .sendAcl 0x42
      (List.replicate 252 0), .takeAcl, .transmitInterrupt, .sendAcl 0x41 [7]].map
        Call.operation ∧
    (∀ t ∈ ts, t.Polite) ∧
    ts.flatMap Turn.shipped = [.parts 0x40 [2, 1], .parts 0x41 [7]] ∧
    (ts.flatMap Turn.unloaded).length = 1 ∧
    FlowControlled Placement.standard ts b := by
  obtain ⟨⟨ts, b⟩, hturns, heq⟩ := Option.map_eq_some_iff.mp (show
    (Call.turns Placement.standard {} (fun _ c => c) ([.sendAcl 0x40 [2, 1], .transmitInterrupt,
      .sendAcl 0x42 (List.replicate 252 0), .takeAcl, .transmitInterrupt,
      .sendAcl 0x41 [7]].map Call.operation) Demo.blank).map (fun x =>
        (decide (∀ t ∈ x.1, t.Polite), x.1.flatMap Turn.shipped,
          (x.1.flatMap Turn.unloaded).length)) =
      some (true, [.parts 0x40 [2, 1], .parts 0x41 [7]], 1) from by decide +kernel)
  obtain ⟨hpolite, hrest⟩ := Prod.mk.inj heq
  obtain ⟨hshipped, hunloaded⟩ := Prod.mk.inj hrest
  obtain ⟨h, hcalls⟩ := of_turns hturns
  exact ⟨ts, b, h, hcalls, of_decide_eq_true hpolite, hshipped, hunloaded,
    acl_flow_controlled Placement.valid_standard Demo.boxes_blank (Demo.outbound_blank _) h
      (Turn.call_ne hcalls (by decide))⟩

end Calls

end InterCore
