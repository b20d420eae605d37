/-!
# The doorbell peripheral

Six channels join the two cores. Each has a flag in either direction and a mask for either
interrupt. A flag carries no payload: from the host it says that a buffer is ready until the peer
has consumed it, from the peer it announces that something was published.

## Main definitions

* `Channel`: the channels, with their numbers and their uses.
* `Bell`: the state of one channel; `Panel`: the state of all six.
* `Bell.rxPending`, `Bell.txPending`: when a channel interrupts the host.
-/

namespace InterCore

/-- A channel of the peripheral. -/
inductive Channel where
  | one
  | two
  | three
  | four
  | five
  | six
  deriving DecidableEq, Repr

namespace Channel

/-- Every channel, in order. -/
def all : List Channel :=
  [one, two, three, four, five, six]

/-- The position of a channel among the six. -/
def index : Channel → Fin 6
  | one => 0
  | two => 1
  | three => 2
  | four => 3
  | five => 4
  | six => 5

/-- The number of a channel; the first is 1. -/
def number : Channel → UInt8
  | one => 1
  | two => 2
  | three => 3
  | four => 4
  | five => 5
  | six => 6

/-- The channel with a given number. -/
def ofNumber? : UInt8 → Option Channel
  | 1 => some one
  | 2 => some two
  | 3 => some three
  | 4 => some four
  | 5 => some five
  | 6 => some six
  | _ => none

theorem ofNumber?_number (c : Channel) : ofNumber? c.number = some c := by
  cases c <;> rfl

theorem index_inj {c d : Channel} : c.index = d.index ↔ c = d := by
  cases c <;> cases d <;> decide

/-! Uses from the host to the peer. -/

/-- A BLE command is ready. -/
def bleCommand : Channel := one

/-- A system command is ready; consumed once it is answered. -/
def systemCommand : Channel := two

/-- Event buffers were given back. -/
def release : Channel := four

/-- An ACL packet is ready. -/
def aclData : Channel := six

/-! Uses from the peer to the host. -/

/-- BLE events were queued. -/
def bleEvent : Channel := one

/-- System events were queued. -/
def systemEvent : Channel := two

/-- Trace records were queued. -/
def traces : Channel := four

end Channel

/-- The state of one channel. -/
structure Bell where
  /-- Set by the host, cleared by the peer. -/
  hostFlag : Bool := false
  /-- Set by the peer, cleared by the host. -/
  peerFlag : Bool := false
  /-- The peer's flag may interrupt the host. -/
  rxEnabled : Bool := false
  /-- A consumed host flag may interrupt the host. -/
  txEnabled : Bool := false
  /-- Rings by the host, modulo `2 ^ 32`. -/
  rings : UInt32 := 0
  deriving DecidableEq, Repr

namespace Bell

/-- Set the host's flag, and count it. -/
def ring (b : Bell) : Bell :=
  { b with hostFlag := true, rings := b.rings + 1 }

/-- The peer consumed what the host announced. -/
def acknowledge (b : Bell) : Bell :=
  { b with hostFlag := false }

/-- The peer announces something. -/
def signal (b : Bell) : Bell :=
  { b with peerFlag := true }

/-- The host took notice of the peer's flag. -/
def clear (b : Bell) : Bell :=
  { b with peerFlag := false }

/-- Mask or unmask the interrupt of the peer's flag. -/
def enableRx (b : Bell) (on : Bool) : Bell :=
  { b with rxEnabled := on }

/-- Mask or unmask the interrupt of a consumed host flag. -/
def enableTx (b : Bell) (on : Bool) : Bell :=
  { b with txEnabled := on }

/-- The peer's flag interrupts the host. -/
def rxPending (b : Bell) : Bool :=
  b.peerFlag && b.rxEnabled

/-- The consumed host flag interrupts the host. -/
def txPending (b : Bell) : Bool :=
  b.txEnabled && !b.hostFlag

end Bell

/-- The state of the whole peripheral. -/
structure Panel where
  bells : Vector Bell 6
  deriving DecidableEq

namespace Panel

/-- The peripheral after reset. -/
def reset : Panel where
  bells := Vector.replicate 6 {}

instance : Inhabited Panel := ⟨reset⟩

/-- The state of a channel. -/
def get (p : Panel) (c : Channel) : Bell :=
  p.bells[c.index]

/-- Replace the state of a channel. -/
def set (p : Panel) (c : Channel) (b : Bell) : Panel where
  bells := p.bells.set c.index b

/-- Change the state of a channel. -/
def modify (p : Panel) (c : Channel) (f : Bell → Bell) : Panel :=
  p.set c (f (p.get c))

@[simp] theorem get_reset (c : Channel) : reset.get c = {} := by
  cases c <;> rfl

theorem get_set (p : Panel) (c d : Channel) (b : Bell) :
    (p.set c b).get d = if c = d then b else p.get d := by
  simp only [get, set, Fin.getElem_fin, Vector.getElem_set, Fin.val_inj, Channel.index_inj]

theorem get_modify (p : Panel) (c d : Channel) (f : Bell → Bell) :
    (p.modify c f).get d = if c = d then f (p.get c) else p.get d :=
  get_set p c d (f (p.get c))

/-- Panels with the same channels are the same. -/
@[ext] theorem ext {p q : Panel} (h : ∀ c, p.get c = q.get c) : p = q := by
  obtain ⟨b⟩ := p
  obtain ⟨b'⟩ := q
  congr 1
  ext i hi : 1
  have hcase : ∃ c : Channel, c.index.val = i := by
    match i, hi with
    | 0, _ => exact ⟨.one, rfl⟩
    | 1, _ => exact ⟨.two, rfl⟩
    | 2, _ => exact ⟨.three, rfl⟩
    | 3, _ => exact ⟨.four, rfl⟩
    | 4, _ => exact ⟨.five, rfl⟩
    | 5, _ => exact ⟨.six, rfl⟩
  obtain ⟨c, rfl⟩ := hcase
  exact h c

end Panel

end InterCore
