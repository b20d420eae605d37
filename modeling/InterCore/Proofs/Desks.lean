import InterCore.Proofs.Chain.Beside
import InterCore.Proofs.Steps.Effects

/-!
# Desks

Each buffer that the host fills comes with a few other things that belong to it alone: the half of
its channel that the host rings, and what the host notes about it. Together they are the desk of the
buffer. A board is a desk and the rest of it, and the desk may be exchanged for another one.

## Main definitions

* `Desk`, `Board.desk`, `Board.withDesk`: the desk of a buffer, and how it is exchanged.
* `Board.Furnished`: what a program finds on a board whatever lies on the desks.

## Main results

* `Board.withDesk_desk`, `Board.desk_withDesk`, `Board.withDesk_withDesk`: a desk is put down and
  found again.
* `Board.withDesk_comm`, `Board.desk_withDesk_of_ne`: different desks do not meet.
* `Board.eq_withDesk`: boards that differ at one desk only.
-/

namespace InterCore

open Memory

variable {σ : Type}

/-! ### Parts of a desk -/

namespace Outlet

/-- What the host notes about a buffer. -/
def Marks : Outlet → Type
  | command => Unit
  | system => Bool × Bool
  | acl => Bool

/-- The number of bytes of its packet, behind the links. -/
def size (o : Outlet) : Nat := o.object.size - Packet.headerSize

/-- Where its packet starts, behind the links. -/
def start (p : Placement) (o : Outlet) : Address := Packet.serial (p.address o.object)

end Outlet

namespace Host

/-- What the host notes about a buffer. -/
def marks (h : Host) : (o : Outlet) → o.Marks
  | .command => ()
  | .system => (h.systemBusy, h.responseReady)
  | .acl => h.aclInFlight

/-- The host notes something else about a buffer. -/
def withMarks (h : Host) : (o : Outlet) → o.Marks → Host
  | .command, _ => h
  | .system, x => { h with systemBusy := x.1, responseReady := x.2 }
  | .acl, x => { h with aclInFlight := x }

section Marks

variable (h : Host) {o o' : Outlet} (x y : o.Marks) (x' : o'.Marks)

@[simp] theorem marks_withMarks : (h.withMarks o x).marks o = x := by cases o <;> rfl

@[simp] theorem withMarks_marks : h.withMarks o (h.marks o) = h := by cases o <;> rfl

@[simp] theorem withMarks_withMarks : (h.withMarks o x).withMarks o y = h.withMarks o y := by
  cases o <;> rfl

theorem withMarks_comm (ho : o ≠ o') :
    (h.withMarks o x).withMarks o' x' = (h.withMarks o' x').withMarks o x := by
  cases o <;> cases o' <;> first | rfl | exact absurd rfl ho

theorem marks_withMarks_of_ne (ho : o ≠ o') : (h.withMarks o x).marks o' = h.marks o' := by
  cases o <;> cases o' <;> first | rfl | exact absurd rfl ho

/-! Nothing else about the host depends on its notes. -/

@[simp] theorem place_withMarks : (h.withMarks o x).place = h.place := by cases o <;> rfl

@[simp] theorem arena_withMarks : (h.withMarks o x).arena = h.arena := by cases o <;> rfl

@[simp] theorem freeQueue_withMarks : (h.withMarks o x).freeQueue = h.freeQueue := by
  cases o <;> rfl

@[simp] theorem localQueue_withMarks : (h.withMarks o x).localQueue = h.localQueue := by
  cases o <;> rfl

@[simp] theorem queue_withMarks (q : Queue) : (h.withMarks o x).queue q = h.queue q := by
  cases o <;> rfl

@[simp] theorem receiver_withMarks (e : Endpoint) :
    (h.withMarks o x).receiver e = h.receiver e := by
  cases o <;> cases e <;> rfl

theorem setReceiver_withMarks (e : Endpoint) (r : Receiver) :
    (h.withMarks o x).setReceiver e r = (h.setReceiver e r).withMarks o x := by
  cases o <;> cases e <;> rfl

end Marks

end Host

namespace Bell

/-- The half that the host rings is another one. -/
def withOutbound (b : Bell) (x : Outbound) : Bell :=
  { b with hostFlag := x.hostFlag, txEnabled := x.txEnabled, rings := x.rings }

@[simp] theorem withOutbound_outbound (b : Bell) : b.withOutbound b.outbound = b := rfl

/-- Channels whose other halves are the same. -/
theorem eq_withOutbound {b b' : Bell} (h : b'.inbound = b.inbound) :
    b' = b.withOutbound b'.outbound := by
  obtain ⟨hpeer, hrx⟩ := (Inbound.mk.injEq ..).mp h
  rw [withOutbound, Bell.mk.injEq]
  exact ⟨rfl, hpeer, hrx, rfl, rfl⟩

end Bell

namespace Panel

variable (q : Panel) {c d : Channel} {f g : Bell → Bell}

theorem modify_modify_self : (q.modify c f).modify c g = q.modify c (g ∘ f) := by
  ext k : 1
  simp only [get_modify]
  split <;> simp

theorem modify_comm (h : c ≠ d) : (q.modify c f).modify d g = (q.modify d g).modify c f := by
  ext k : 1
  simp only [get_modify, if_neg h, if_neg h.symm]
  split
  · next hd => rw [if_neg (hd ▸ h)]
  · rfl

/-- Changes that do the same to the channel. -/
theorem modify_congr {q : Panel} (h : f (q.get c) = g (q.get c)) : q.modify c f = q.modify c g := by
  rw [modify, h, modify]

/-- A change that does nothing to a channel. -/
theorem modify_eq_self (h : f (q.get c) = q.get c) : q.modify c f = q := by
  ext k : 1
  rw [get_modify]
  split
  · next hc => rw [h, hc]
  · rfl

end Panel

/-! ### Where the packets of desks lie -/

theorem Outlet.size_le (o : Outlet) : o.size ≤ UInt64.size := by cases o <;> decide

theorem Outlet.within_object {p : Placement} {o : Outlet} {k : Address}
    (hk : Within (o.start p) o.size k) : Within (p.address o.object) o.object.size k :=
  hk.of_add (by cases o <;> decide)

theorem Outlet.object_inj {o o' : Outlet} : o.object = o'.object ↔ o = o' := by
  cases o <;> cases o' <;> decide

namespace Placement.Valid

variable {p : Placement} (hp : p.Valid) {o o' : Outlet} {k : Address}
include hp

theorem quiet_desk (hk : Within (o.start p) o.size k) : p.Quiet k :=
  hp.quiet_object o.object_mem (Outlet.within_object hk)

theorem beside_desk (o : Outlet) : Chain.Beside p.arena (o.start p) o.size :=
  fun _ hk ⟨i, hi, hlink⟩ => (hp.quiet_desk hk).2 i hi hlink

theorem desks_apart (ho : o ≠ o') (hk : Within (o.start p) o.size k) :
    ¬ Within (o'.start p) o'.size k :=
  fun hk' => hp.objects_apart (fun h => ho (Outlet.object_inj.mp h)) (Outlet.within_object hk)
    (Outlet.within_object hk')

end Placement.Valid

/-! ### Desks -/

/-- What belongs to a buffer that the host fills: its packet, the half of its channel that the host
rings, and what the host notes about it. -/
@[ext] structure Desk (o : Outlet) where
  bytes : List UInt8
  length_bytes : bytes.length = o.size
  bell : Outbound
  marks : o.Marks

theorem Desk.length_le {o : Outlet} (d : Desk o) : d.bytes.length ≤ UInt64.size :=
  Nat.le_trans (Nat.le_of_eq d.length_bytes) o.size_le

namespace Board

variable (p : Placement) (b : Board σ) {o o' : Outlet}

/-- The desk of a buffer. -/
def desk (o : Outlet) : Desk o where
  bytes := b.memory.read (o.start p) o.size
  length_bytes := length_read _ _ _
  bell := (b.panel.get o.channel).outbound
  marks := b.host.marks o

/-- The board with another desk, and with an observer that keeps something else. -/
def withDesk (d : Desk o) (z : σ) : Board σ :=
  { b with
    memory := b.memory.write (o.start p) d.bytes
    panel := b.panel.modify o.channel (·.withOutbound d.bell)
    host := b.host.withMarks o d.marks
    sink := z }

variable {p b} {d d' : Desk o} {z z' : σ}

/-- Boards that differ at one desk and in what the observer keeps. -/
theorem eq_withDesk {b' : Board σ}
    (hmemory : AgreeOff (Within (o.start p) o.size) b.memory b'.memory)
    (hpanel : b.panel.modify o.channel (·.withOutbound (b'.panel.get o.channel).outbound) =
      b'.panel)
    (hhost : b.host.withMarks o (b'.host.marks o) = b'.host)
    (hrest : { b with
      memory := b'.memory
      panel := b'.panel
      host := b'.host
      sink := b'.sink } = b') : b' = b.withDesk p (b'.desk p o) b'.sink := by
  rw [← hrest, withDesk, desk, Board.mk.injEq]
  exact ⟨(hmemory.write_read o.size_le).symm, hpanel.symm, rfl, hhost.symm, rfl, rfl, rfl⟩

/-- A panel with the same half of a channel. -/
theorem modify_outbound (c : Channel) :
    b.panel.modify c (·.withOutbound (b.panel.get c).outbound) = b.panel :=
  b.panel.modify_eq_self (Bell.withOutbound_outbound _)

theorem withDesk_desk (z : σ) : b.withDesk p (b.desk p o) z = { b with sink := z } := by
  have heq : { b with sink := z } = b.withDesk p (b.desk p o) z :=
    eq_withDesk (.refl _ _) (modify_outbound _) (Host.withMarks_marks _) rfl
  exact heq.symm

@[simp] theorem desk_withDesk : (b.withDesk p d z).desk p o = d := by
  have hbytes : (b.memory.write (o.start p) d.bytes).read (o.start p) o.size = d.bytes := by
    rw [← d.length_bytes, read_write_self _ _ _ d.length_le]
  ext : 1
  · exact hbytes
  · exact congrArg Bell.outbound Panel.get_modify_self
  · exact Host.marks_withMarks _ _

@[simp] theorem withDesk_withDesk :
    (b.withDesk p d z).withDesk p d' z' = b.withDesk p d' z' := by
  have hbytes := write_write b.memory (o.start p) (d.length_bytes.trans d'.length_bytes.symm)
    d'.length_le
  simp only [withDesk, hbytes, Panel.modify_modify_self, Host.withMarks_withMarks]
  rfl

/-- Different desks are exchanged in any order. -/
theorem withDesk_comm (hp : p.Valid) (ho : o ≠ o') (d : Desk o) (d' : Desk o') (y y' z : σ) :
    (b.withDesk p d y).withDesk p d' z = (b.withDesk p d' y').withDesk p d z := by
  have hbytes : (b.memory.write (o.start p) d.bytes).write (o'.start p) d'.bytes =
      (b.memory.write (o'.start p) d'.bytes).write (o.start p) d.bytes := by
    refine write_comm _ d.length_le d'.length_le fun k hk => ?_
    rw [d.length_bytes] at hk
    rw [d'.length_bytes]
    exact hp.desks_apart ho hk
  have hchannel : o.channel ≠ o'.channel := fun h => ho (Outlet.channel_inj.mp h)
  simp only [withDesk, hbytes, Panel.modify_comm _ hchannel, Host.withMarks_comm _ _ _ ho]

/-- Another desk stays as it is. -/
theorem desk_withDesk_of_ne (hp : p.Valid) (ho : o ≠ o') :
    (b.withDesk p d z).desk p o' = b.desk p o' := by
  have hchannel : o.channel ≠ o'.channel := fun h => ho (Outlet.channel_inj.mp h)
  ext : 1
  · refine (agreeOff_write b.memory (o.start p) (Nat.le_of_eq d.length_bytes)
      o.size_le).read_eq fun k hk hk' => hp.desks_apart ho hk' hk
  · exact congrArg Bell.outbound (Panel.get_modify_of_ne hchannel)
  · exact Host.marks_withMarks_of_ne _ _ ho

end Board

/-! ### Boards around the desks -/

/-- What a program finds on a board, whatever lies on the desks: the placement and the nodes of the
boot, and the published tables. -/
structure Board.Furnished (p : Placement) (traces : Bool) (b : Board σ) : Prop where
  valid : p.Valid
  place : b.host.place = p
  arena : b.host.arena = p.arena
  table : b.peer.referenceTable = p.referenceTable
  published : Published p traces b.memory

namespace Board.Furnished

variable {p : Placement} {traces : Bool} {b : Board σ} (h : b.Furnished p traces)
include h

/-- Another desk is no other furniture. -/
theorem withDesk {o : Outlet} (d : Desk o) (z : σ) : (b.withDesk p d z).Furnished p traces where
  valid := h.valid
  place := (Host.place_withMarks _ _).trans h.place
  arena := (Host.arena_withMarks _ _).trans h.arena
  table := h.table
  published := h.published.of_agreeOff h.valid
    (agreeOff_write b.memory (o.start p) (Nat.le_of_eq d.length_bytes) o.size_le)
    fun _ hk hk' => (h.valid.quiet_desk hk').1 hk

/-- Other links are no other furniture. -/
theorem of_links {m : Memory} (hm : AgreeOff (p.arena.Links p.arena.Has) b.memory m) :
    Furnished p traces { b with memory := m } := by
  have hlinks : ∀ k, p.TableByte k → ¬ p.arena.Links p.arena.Has k := fun k hk hlink =>
    have hnot : ¬ p.LinkByte true k := h.valid.not_linkByte_of_tableByte hk
    hnot (hlink.mono fun _ hi => ⟨hi, fun _ => rfl⟩)
  exact { h with published := h.published.of_agreeOff h.valid hm hlinks }

end Board.Furnished

theorem Board.Shows.furnished {p : Placement} {sw : Switches} {b : Board σ} {s : Account σ}
    (h : b.Shows p sw s) : b.Furnished p sw.traces where
  valid := h.valid
  place := h.host.place
  arena := h.host.arena
  table := h.carries.peer_table
  published := h.carries.published

end InterCore
