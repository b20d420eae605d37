import InterCore.Proofs.Lines

/-!
# Messages

What an event packet says: its kind, its code, its payload length and its payload. A packet that was
filled says what it was filled with, for as long as nothing is written to its bytes.

## Main definitions

* `Message`: the contents of an event packet; `Message.load`: read from memory.

## Main results

* `Message.load_putEvent`: what was filled in is read.
* `Message.load_congr`: stores elsewhere keep a message.
* `Carries.fill`: the peer fills a slot and queues it.
-/

namespace InterCore

open Memory

/-- What an event packet says. -/
structure Message where
  kind : UInt8
  code : UInt8
  length : UInt8
  payload : List UInt8
  deriving DecidableEq, Repr

namespace Message

/-- The message in the packet at an address. -/
def load (m : Memory) (p : Address) : Message where
  kind := Packet.kind m p
  code := Packet.eventCode m p
  length := Packet.eventLength m p
  payload := Packet.eventData m p

/-- The message that a packet gets when it is filled with a payload. -/
def of (kind : PacketKind) (code : UInt8) (data : List UInt8) : Message where
  kind := kind.code
  code := code
  length := UInt8.ofNat data.length
  payload := data

variable {m m' : Memory} {p : Address}

/-- What was filled in is read. -/
theorem load_putEvent (m : Memory) (p : Address) (kind code : UInt8) {data : List UInt8}
    (h : data.length ≤ Packet.eventPayload) :
    Message.load (Packet.putEvent m p kind code (UInt8.ofNat data.length) data) p =
      ⟨kind, code, UInt8.ofNat data.length, data⟩ := by
  rw [Packet.eventPayload] at h
  have hsize : UInt64.size = 18446744073709551616 := rfl
  have hget : ∀ i, (Packet.putEvent m p kind code (UInt8.ofNat data.length) data).get
      (Packet.serial p + UInt64.ofNat i) =
        (kind :: code :: UInt8.ofNat data.length :: data)[(Packet.serial p + UInt64.ofNat i -
          Packet.serial p).toNat]?.getD (m.get (Packet.serial p + UInt64.ofNat i)) := by
    intro i
    refine get_write m _ _ _ ?_
    simp only [List.length_cons]
    omega
  have hfield : ∀ i < 3, (Packet.serial p + UInt64.ofNat i - Packet.serial p).toNat = i :=
    fun i hi => toNat_add_ofNat_sub_self _ (by omega)
  have hkind := hget 0
  have hcode := hget 1
  have hlength := hget 2
  rw [hfield 0 (by decide), show Packet.serial p + UInt64.ofNat 0 = Packet.serial p from
    UInt64.add_zero _] at hkind
  rw [hfield 1 (by decide)] at hcode
  rw [hfield 2 (by decide)] at hlength
  have hnat : (UInt8.ofNat data.length).toNat = data.length :=
    UInt8.toNat_ofNat_of_lt' (Nat.lt_of_le_of_lt h (by decide))
  have hdata := read_write_append m (Packet.serial p) [kind, code, UInt8.ofNat data.length] data []
    (by simp only [List.append_nil, List.length_append, List.length_cons, List.length_nil]; omega)
  rw [List.append_nil] at hdata
  have hpayload : Packet.eventData (Packet.putEvent m p kind code (UInt8.ofNat data.length) data) p
      = data := by
    rw [Packet.eventData, Packet.eventLength]
    rw [show Packet.serial p + 2 = Packet.serial p + UInt64.ofNat 2 from rfl, hlength]
    show Memory.read _ _ (UInt8.ofNat data.length).toNat = data
    rw [hnat]
    exact hdata
  rw [Message.load, hpayload, Message.mk.injEq]
  exact ⟨hkind, hcode, hlength, rfl⟩

/-- Stores elsewhere keep a message. -/
theorem load_congr {S : Address → Prop} (h : AgreeOff S m m')
    (hS : ∀ k, Within (Packet.serial p) 258 k → ¬ S k) : Message.load m' p = Message.load m p := by
  have hfield : ∀ i < 258, m'.get (Packet.serial p + UInt64.ofNat i) =
      m.get (Packet.serial p + UInt64.ofNat i) := fun i hi => h _ (hS _ (within_add_ofNat _ hi))
  have hkind : Packet.kind m' p = Packet.kind m p := h _ (hS _ (within_self _ (by decide)))
  have hcode : Packet.eventCode m' p = Packet.eventCode m p := hfield 1 (by decide)
  have hlength : Packet.eventLength m' p = Packet.eventLength m p := hfield 2 (by decide)
  have hdata : Packet.eventData m' p = Packet.eventData m p := by
    rw [Packet.eventData, Packet.eventData, hlength]
    refine h.read_eq fun k hk => hS k (hk.of_add ?_)
    have := (Packet.eventLength m p).toNat_lt
    show 3 + (Packet.eventLength m p).toNat ≤ 258
    omega
  rw [Message.load, Message.load, hkind, hcode, hlength, hdata]

/-- A packet is filled within its bytes. -/
theorem agreeOff_putEvent (m : Memory) (p : Address) (kind code length : UInt8)
    {data : List UInt8} (h : data.length ≤ Packet.eventPayload) :
    AgreeOff (Within (Packet.serial p) 258) m (Packet.putEvent m p kind code length data) :=
  agreeOff_write m _ (by simp only [List.length_cons]; exact Nat.add_le_add_right h 3) (by decide)

end Message

/-- The peer fills its first slot and links it to the end of a shared queue. -/
theorem Carries.fill {p : Placement} {traces : Bool} {m : Memory} {peer : Peer}
    {q : Line → List NodeIndex} {n : NodeIndex} {ns : List NodeIndex} {x : Queue}
    {data : List UInt8} (h : Carries p traces m peer q (n :: ns)) (hp : p.Valid)
    (hx : Line.shared x ∈ Line.made traces) (kind code : UInt8)
    (hfits : data.length ≤ Packet.eventPayload) :
    let filled := Packet.putEvent m (p.arena.locate n) kind code (UInt8.ofNat data.length) data
    AgreeOff (p.LinkByte traces) filled
        (Peer.linkBack filled (p.address (.queue x)) (p.arena.locate n)) ∧
      Carries p traces (Peer.linkBack filled (p.address (.queue x)) (p.arena.locate n))
        { peer with free := ns.map p.arena.locate } (setLine q (.shared x) (q (.shared x) ++ [n]))
        ns := by
  have hn : n ∈ slots := h.mem_slots n List.mem_cons_self
  have hfill := Message.agreeOff_putEvent m (p.arena.locate n) kind code
    (UInt8.ofNat data.length) hfits
  rw [hp.address_queue]
  exact (h.of_quiet hp hfill fun k hk => hp.quiet_packet hn hk).peerAppend hp hx

end InterCore
