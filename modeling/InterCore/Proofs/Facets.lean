import Mathlib.Logic.Relation
import InterCore.Proofs.Account

/-!
# Facets of an account

Most of an account plays no part in how buffers are given back, how events are fetched or how a
command is answered. Each of these goes by a few lists, marks and bytes, and by one half of one
doorbell: the half that the host rings or the half that the peer signals. This module names the
facets and says what may happen to each of them, apart from everything else on the board.

## Main definitions

* `Outbound`, `Inbound`: the two halves of a channel.
* `Release`: the facet of given-back buffers, with everything that can happen to it.
* `Release.CoversDrops`: a relation that holds whenever buffers are given back.
* `Feed`, `Intake`: the facet of a queue that the peer fills.
* `Outlet`, `Account.SameOutlet`: the facet of a buffer that the host fills.

## Main results

* `Release.Steps.armed`, `Release.Steps.exact`: giving back leaves no buffer without a wake-up.
* `Release.Steps.held`: a set flag shields the shared free queue.
* `Release.Armed.settled`: two looks of the peer and a transmit interrupt in between recover
  everything.
* `Intake.Steps.announced`: a queue that holds something is announced.
-/

namespace InterCore

open Memory Relation

variable {σ : Type}

/-! ### Halves of a channel -/

/-- The half of a channel that the host rings. -/
structure Outbound where
  hostFlag : Bool := false
  txEnabled : Bool := false
  rings : UInt32 := 0
  deriving DecidableEq, Repr

/-- The half of a channel that the peer signals. -/
structure Inbound where
  peerFlag : Bool
  rxEnabled : Bool
  deriving DecidableEq, Repr

namespace Bell

/-- The half of a channel that the host rings. -/
def outbound (b : Bell) : Outbound := ⟨b.hostFlag, b.txEnabled, b.rings⟩

/-- The half of a channel that the peer signals. -/
def inbound (b : Bell) : Inbound := ⟨b.peerFlag, b.rxEnabled⟩

theorem inbound_ring (b : Bell) : b.ring.inbound = b.inbound := rfl

theorem inbound_acknowledge (b : Bell) : b.acknowledge.inbound = b.inbound := rfl

theorem inbound_enableTx (on : Bool) (b : Bell) : (b.enableTx on).inbound = b.inbound := rfl

theorem outbound_signal (b : Bell) : b.signal.outbound = b.outbound := rfl

theorem outbound_clear (b : Bell) : b.clear.outbound = b.outbound := rfl

theorem outbound_enableRx (on : Bool) (b : Bell) : (b.enableRx on).outbound = b.outbound := rfl

end Bell

namespace Panel

variable {q : Panel} {c d : Channel} {f : Bell → Bell}

@[simp] theorem get_modify_self : (q.modify c f).get c = f (q.get c) := by
  rw [get_modify, if_pos rfl]

theorem get_modify_of_ne (h : c ≠ d) : (q.modify c f).get d = q.get d := by
  rw [get_modify, if_neg h]

/-- What a change keeps of one channel it keeps of all of them. -/
theorem modify_keeps {γ : Type} {g : Bell → γ} (h : ∀ b, g (f b) = g b) :
    g ((q.modify c f).get d) = g (q.get d) := by
  rw [get_modify]
  split
  · next hcd => rw [h, hcd]
  · rfl

end Panel

/-! ### Given-back buffers -/

/-- The facet of given-back buffers: the two lines, the mark of the host, and the half of the
release channel that the host rings. -/
structure Release where
  /-- The shared free queue. -/
  free : List NodeIndex
  /-- The local queue. -/
  waiting : List NodeIndex
  pending : Bool
  bell : Outbound
  deriving DecidableEq, Repr

namespace Release

variable (r : Release)

/-- Every waiting buffer moves to the shared free queue. -/
def handOver : Release := { r with free := r.free ++ r.waiting, waiting := [] }

/-- The doorbell rings. -/
def ring : Release := { r with bell := { r.bell with hostFlag := true, rings := r.bell.rings + 1 } }

/-- The host waits until the doorbell is free. -/
def await : Release := { r with pending := true, bell := { r.bell with txEnabled := true } }

/-- A buffer is given back. -/
def giveBack (n : NodeIndex) : Release :=
  let r := { r with waiting := r.waiting ++ [n] }
  if r.bell.hostFlag then r.await else r.handOver.ring

/-- The host takes notice that a ring was consumed, or is woken without cause. -/
def acknowledged : Release :=
  let r := { r with pending := false, bell := { r.bell with txEnabled := false } }
  if r.bell.hostFlag then r.await
  else if r.waiting.length ≠ 0 then r.handOver.ring
  else r

/-- The peer takes what was announced. -/
def reclaim : Release :=
  if r.bell.hostFlag then { r with free := [], bell := { r.bell with hostFlag := false } } else r

/-- The transmit interrupt looks at the channel. -/
def served : Release :=
  if r.bell.txEnabled && !r.bell.hostFlag then r.acknowledged else r

/-- What the host does to given-back buffers at once. -/
inductive Step (r : Release) : Release → Prop
  | giveBack (n : NodeIndex) : Step r (r.giveBack n)
  | acknowledged : Step r r.acknowledged

/-- What the host does to given-back buffers in the end. -/
abbrev Steps : Release → Release → Prop := ReflTransGen Step

/-- A relation that holds whenever some buffers are given back one after the other. -/
class CoversDrops (R : Release → Release → Prop) : Prop where
  refl (r : Release) : R r r
  trans {r r' r'' : Release} (h : R r r') (h' : R r' r'') : R r r''
  giveBack (r : Release) (n : NodeIndex) : R r (r.giveBack n)

theorem CoversDrops.of_eq {R : Release → Release → Prop} [CoversDrops R] {r r' : Release}
    (h : r' = r) : R r r' := by
  subst h
  exact refl r'

instance : CoversDrops Steps where
  refl _ := .refl
  trans := .trans
  giveBack _ n := .single (.giveBack n)

/-- Nothing waits without a wake-up. -/
structure Armed : Prop where
  announced : r.free ≠ [] → r.bell.hostFlag = true
  awaited : r.waiting ≠ [] → r.bell.txEnabled = true
  marked : r.pending = true → r.bell.txEnabled = true

/-- No wake-up without something that waits, after the peer has found the flag set so many times. -/
structure Exact (found : Nat) : Prop where
  filled : r.bell.hostFlag = true → r.free ≠ []
  unmasked : r.bell.txEnabled = true → r.pending = true
  counted : r.bell.rings = UInt32.ofNat (found + r.bell.hostFlag.toNat)

variable {r} {r' : Release} {found : Nat} {n : NodeIndex}

/-! Without a set flag a step hands everything over, or has nothing to hand over; with a set flag
it waits. -/

theorem giveBack_of_flag (h : r.bell.hostFlag = true) :
    r.giveBack n = { r with waiting := r.waiting ++ [n] }.await := if_pos h

theorem giveBack_of_clear (h : r.bell.hostFlag = false) :
    r.giveBack n = { r with waiting := r.waiting ++ [n] }.handOver.ring :=
  if_neg (Bool.eq_false_iff.mp h)

theorem acknowledged_of_flag (h : r.bell.hostFlag = true) : r.acknowledged = r.await := if_pos h

theorem acknowledged_of_waiting (h : r.bell.hostFlag = false) (hw : r.waiting ≠ []) :
    r.acknowledged = { r with
      pending := false, bell := { r.bell with txEnabled := false } }.handOver.ring :=
  (if_neg (Bool.eq_false_iff.mp h)).trans (if_pos (mt List.length_eq_zero_iff.mp hw))

theorem acknowledged_of_nil (h : r.bell.hostFlag = false) (hw : r.waiting = []) :
    r.acknowledged = { r with pending := false, bell := { r.bell with txEnabled := false } } :=
  (if_neg (Bool.eq_false_iff.mp h)).trans (if_neg (not_not.mpr (List.length_eq_zero_iff.mpr hw)))

theorem Step.armed (h : Step r r') (hr : r.Armed) : r'.Armed := by
  cases hflag : r.bell.hostFlag with
  | true =>
    cases h with
    | giveBack n =>
      rw [giveBack_of_flag hflag]
      exact ⟨fun _ => hflag, fun _ => rfl, fun _ => rfl⟩
    | acknowledged =>
      rw [acknowledged_of_flag hflag]
      exact ⟨fun _ => hflag, fun _ => rfl, fun _ => rfl⟩
  | false =>
    cases h with
    | giveBack n =>
      rw [giveBack_of_clear hflag]
      exact ⟨fun _ => rfl, fun h => absurd rfl h, hr.marked⟩
    | acknowledged =>
      by_cases hw : r.waiting = []
      · rw [acknowledged_of_nil hflag hw]
        exact ⟨hr.announced, fun h => absurd hw h, fun h => absurd h Bool.false_ne_true⟩
      · rw [acknowledged_of_waiting hflag hw]
        exact ⟨fun _ => rfl, fun h => absurd rfl h, fun h => absurd h Bool.false_ne_true⟩

theorem ofNat_succ_clear (found : Nat) {flag : Bool} (h : flag = false) :
    UInt32.ofNat (found + flag.toNat) + 1 = UInt32.ofNat (found + 1) := by
  rw [h, UInt32.ofNat_add found 1]
  rfl

theorem Step.exact (h : Step r r') (hr : r.Exact found) : r'.Exact found := by
  cases hflag : r.bell.hostFlag with
  | true =>
    cases h with
    | giveBack n =>
      rw [giveBack_of_flag hflag]
      exact ⟨hr.filled, fun _ => rfl, hr.counted⟩
    | acknowledged =>
      rw [acknowledged_of_flag hflag]
      exact ⟨hr.filled, fun _ => rfl, hr.counted⟩
  | false =>
    have hrings : r.bell.rings + 1 = UInt32.ofNat (found + 1) := by
      rw [hr.counted, ofNat_succ_clear found hflag]
    cases h with
    | giveBack n =>
      rw [giveBack_of_clear hflag]
      exact ⟨fun _ => by simp [handOver, ring], hr.unmasked, hrings⟩
    | acknowledged =>
      by_cases hw : r.waiting = []
      · rw [acknowledged_of_nil hflag hw]
        exact ⟨hr.filled, fun h => absurd h Bool.false_ne_true, hr.counted⟩
      · rw [acknowledged_of_waiting hflag hw]
        exact ⟨fun _ => List.append_ne_nil_of_right_ne_nil _ hw,
          fun h => absurd h Bool.false_ne_true, hrings⟩

/-- A set flag shields the shared free queue from the host. -/
theorem Step.held (h : Step r r') (hflag : r.bell.hostFlag = true) :
    r'.free = r.free ∧ r'.bell.hostFlag = true := by
  cases h with
  | giveBack n =>
    rw [giveBack_of_flag hflag]
    exact ⟨rfl, hflag⟩
  | acknowledged =>
    rw [acknowledged_of_flag hflag]
    exact ⟨rfl, hflag⟩

/-- **Nothing ever waits without a wake-up.** -/
theorem Steps.armed (h : Steps r r') (hr : r.Armed) : r'.Armed := by
  induction h with
  | refl => exact hr
  | tail _ hstep ih => exact hstep.armed ih

/-- **There is no wake-up without cause, and no ring is lost.** -/
theorem Steps.exact (h : Steps r r') (hr : r.Exact found) : r'.Exact found := by
  induction h with
  | refl => exact hr
  | tail _ hstep ih => exact hstep.exact ih

/-- **A set flag shields the shared free queue from the host.** -/
theorem Steps.held (h : Steps r r') (hflag : r.bell.hostFlag = true) :
    r'.free = r.free ∧ r'.bell.hostFlag = true := by
  induction h with
  | refl => exact ⟨rfl, hflag⟩
  | tail _ hstep ih =>
    obtain ⟨hfree, hflag'⟩ := hstep.held ih.2
    exact ⟨hfree.trans ih.1, hflag'⟩

theorem reclaim_of_flag (h : r.bell.hostFlag = true) :
    r.reclaim = { r with free := [], bell := { r.bell with hostFlag := false } } := if_pos h

theorem reclaim_of_clear (h : r.bell.hostFlag = false) : r.reclaim = r :=
  if_neg (Bool.eq_false_iff.mp h)

theorem Armed.reclaim (hr : r.Armed) : r.reclaim.Armed := by
  cases hflag : r.bell.hostFlag with
  | true =>
    rw [reclaim_of_flag hflag]
    exact ⟨fun h => absurd rfl h, hr.awaited, hr.marked⟩
  | false => rwa [reclaim_of_clear hflag]

/-- Handing over without a ring is safe as long as the flag is set or nothing waits. -/
theorem Armed.handOver (hr : r.Armed) (h : r.bell.hostFlag = true ∨ r.waiting = []) :
    r.handOver.Armed := by
  refine ⟨fun hne => ?_, fun hne => absurd rfl hne, hr.marked⟩
  rcases h with hflag | hwaiting
  · exact hflag
  · exact hr.announced (by rwa [Release.handOver, hwaiting, List.append_nil] at hne)

/-- The peer found the flag once more. -/
theorem Exact.reclaim (hr : r.Exact found) : r.reclaim.Exact (found + r.bell.hostFlag.toNat) := by
  cases hflag : r.bell.hostFlag with
  | true =>
    rw [reclaim_of_flag hflag]
    refine ⟨fun h => absurd h Bool.false_ne_true, hr.unmasked, ?_⟩
    have hcounted := hr.counted
    rwa [hflag] at hcounted
  | false => rwa [reclaim_of_clear hflag]

/-! ### Settling -/

/-- Nothing is left of what was given back. -/
structure Settled : Prop where
  free : r.free = []
  waiting : r.waiting = []
  pending : r.pending = false
  hostFlag : r.bell.hostFlag = false
  txEnabled : r.bell.txEnabled = false

/-- What the peer leaves behind it. -/
theorem Armed.cleared (hr : r.Armed) : r.reclaim.free = [] ∧ r.reclaim.bell.hostFlag = false := by
  cases hflag : r.bell.hostFlag with
  | true =>
    rw [reclaim_of_flag hflag]
    exact ⟨rfl, rfl⟩
  | false =>
    rw [reclaim_of_clear hflag]
    refine ⟨?_, hflag⟩
    by_contra hfree
    exact Bool.false_ne_true (hflag.symm.trans (hr.announced hfree))

/-- What the transmit interrupt leaves behind it when the flag is clear. -/
theorem served_of_clear (hawaited : r.waiting ≠ [] → r.bell.txEnabled = true)
    (hmarked : r.pending = true → r.bell.txEnabled = true) (hflag : r.bell.hostFlag = false) :
    r.served.waiting = [] ∧ r.served.pending = false ∧ r.served.bell.txEnabled = false := by
  rw [served, hflag, Bool.not_false, Bool.and_true]
  cases htx : r.bell.txEnabled with
  | false =>
    refine ⟨?_, Bool.eq_false_iff.mpr fun h => ?_, htx⟩
    · by_contra hw
      exact Bool.false_ne_true (htx.symm.trans (hawaited hw))
    · exact Bool.false_ne_true (htx.symm.trans (hmarked h))
  | true =>
    rw [if_pos rfl]
    by_cases hw : r.waiting = []
    · rw [acknowledged_of_nil hflag hw]
      exact ⟨hw, rfl, rfl⟩
    · rw [acknowledged_of_waiting hflag hw]
      exact ⟨rfl, rfl, rfl⟩

/-- Without a set flag, and with nothing that would set it, nobody takes from the shared free
queue. -/
theorem stranded (hflag : r.bell.hostFlag = false) (hwaiting : r.waiting = []) :
    r.reclaim.served.reclaim.free = r.free ∧ r.reclaim.served.reclaim.bell.hostFlag = false := by
  have hserved : r.served.free = r.free ∧ r.served.bell.hostFlag = false := by
    rw [served]
    split
    · rw [acknowledged_of_nil hflag hwaiting]
      exact ⟨rfl, hflag⟩
    · exact ⟨rfl, hflag⟩
  rw [reclaim_of_clear hflag, reclaim_of_clear hserved.2]
  exact hserved

theorem served_steps (r : Release) : Steps r r.served := by
  rw [served]
  split
  · exact .single .acknowledged
  · exact .refl

/-- **Two looks of the peer and a transmit interrupt in between recover everything.** -/
theorem Armed.settled (hr : r.Armed) : r.reclaim.served.reclaim.Settled := by
  obtain ⟨-, hflag⟩ := hr.cleared
  have hserved := (served_steps r.reclaim).armed hr.reclaim
  obtain ⟨hfree, hclear⟩ := hserved.cleared
  obtain ⟨hwaiting, hpending, htx⟩ := served_of_clear hr.reclaim.awaited hr.reclaim.marked hflag
  generalize r.reclaim.served = t at hfree hclear hwaiting hpending htx ⊢
  have hkept : t.reclaim.waiting = t.waiting ∧ t.reclaim.pending = t.pending ∧
      t.reclaim.bell.txEnabled = t.bell.txEnabled := by
    rw [Release.reclaim]
    split <;> exact ⟨rfl, rfl, rfl⟩
  exact ⟨hfree, hkept.1.trans hwaiting, hkept.2.1.trans hpending, hclear, hkept.2.2.trans htx⟩

end Release

/-! ### Queues that the peer fills -/

/-- A queue that the peer fills. -/
inductive Feed where
  | events (e : Endpoint)
  | traces
  deriving DecidableEq, Repr

/-- The queue itself. -/
def Feed.queue : Feed → Queue
  | events e => e.queue
  | traces => .traces

/-- The channel on which the peer announces what it has queued. -/
def Feed.channel : Feed → Channel
  | events e => e.channel
  | traces => .traces

theorem Feed.queue_inj {f g : Feed} : f.queue = g.queue ↔ f = g := by
  rcases f with (_ | _) | _ <;> rcases g with (_ | _) | _ <;> decide

theorem Feed.channel_inj {f g : Feed} : f.channel = g.channel ↔ f = g := by
  rcases f with (_ | _) | _ <;> rcases g with (_ | _) | _ <;> decide

theorem Feed.queue_ne_free (f : Feed) : f.queue ≠ .free := by
  rcases f with (_ | _) | _ <;> decide

/-- The facet of a queue that the peer fills: what is in it, and the half of its channel that the
peer signals. -/
structure Intake where
  line : List NodeIndex
  bell : Inbound
  deriving DecidableEq, Repr

namespace Intake

/-- What happens to such a queue at once. The flag is cleared only when nothing is left. -/
inductive Step (i : Intake) : Intake → Prop
  | delivered (n : NodeIndex) : Step i ⟨i.line ++ [n], { i.bell with peerFlag := true }⟩
  | taken {n : NodeIndex} {xs : List NodeIndex} (h : i.line = n :: xs) :
    Step i { i with line := xs }
  | cleared (h : i.line = []) : Step i { i with bell := { i.bell with peerFlag := false } }

/-- What happens to such a queue in the end. -/
abbrev Steps : Intake → Intake → Prop := ReflTransGen Step

/-- What is in the queue is announced. -/
def Announced (i : Intake) : Prop := i.line ≠ [] → i.bell.peerFlag = true

variable {i i' : Intake}

theorem Step.announced (h : Step i i') (hi : i.Announced) : i'.Announced := by
  cases h with
  | delivered n => exact fun _ => rfl
  | taken hline => exact fun _ => hi (by rw [hline]; exact List.cons_ne_nil _ _)
  | cleared hline => exact fun hne => absurd hline hne

/-- **What is in a queue is announced.** -/
theorem Steps.announced (h : Steps i i') (hi : i.Announced) : i'.Announced := by
  induction h with
  | refl => exact hi
  | tail _ hstep ih => exact hstep.announced ih

/-- The mask is the one of the boot. -/
theorem Steps.rxEnabled (h : Steps i i') : i'.bell.rxEnabled = i.bell.rxEnabled := by
  induction h with
  | refl => rfl
  | tail _ hstep ih =>
    refine Eq.trans ?_ ih
    cases hstep <;> rfl

end Intake

/-! ### Buffers that the host fills -/

/-- A buffer that the host fills for the peer. -/
inductive Outlet where
  | command
  | system
  | acl
  deriving DecidableEq, Repr

/-- The channel on which the host announces that the buffer is full. -/
def Outlet.channel : Outlet → Channel
  | command => .bleCommand
  | system => .systemCommand
  | acl => .aclData

/-- The buffer itself. -/
def Outlet.object : Outlet → Object
  | command => .bleCommand
  | system => .systemCommand
  | acl => .aclData

theorem Outlet.channel_inj {o o' : Outlet} : o.channel = o'.channel ↔ o = o' := by
  cases o <;> cases o' <;> decide

theorem Outlet.channel_ne_release (o : Outlet) : o.channel ≠ .release := by
  cases o <;> decide

theorem Outlet.object_mem (o : Outlet) : o.object ∈ Object.buffers := by
  cases o <;> decide

/-- What the host notes about a buffer: the peer has yet to take it, and the peer has answered. -/
def Flags.marks (x : Flags) : Outlet → Bool × Bool
  | .command => (false, false)
  | .system => (x.systemBusy, x.responseReady)
  | .acl => (x.aclInFlight, false)

namespace Account

/-- The facet of given-back buffers. -/
def release (s : Account σ) : Release where
  free := s.line (.shared .free)
  waiting := s.line .waiting
  pending := s.flags.releasePending
  bell := (s.panel.get .release).outbound

/-- The facet of a queue that the peer fills. -/
def intake (s : Account σ) (f : Feed) : Intake where
  line := s.line (.shared f.queue)
  bell := (s.panel.get f.channel).inbound

/-- Nothing happens to a buffer that the host fills: neither to its bytes nor to what the host notes
about it nor to the half of its channel that the host rings. -/
structure SameOutlet (p : Placement) (o : Outlet) (s s' : Account σ) : Prop where
  bell : (s'.panel.get o.channel).outbound = (s.panel.get o.channel).outbound
  marks : s'.flags.marks o = s.flags.marks o
  bytes : ∀ k, Within (p.address o.object) o.object.size k → s'.bytes.get k = s.bytes.get k

namespace SameOutlet

variable {p : Placement} {o : Outlet} {s s' s'' : Account σ}

theorem refl (p : Placement) (o : Outlet) (s : Account σ) : SameOutlet p o s s :=
  ⟨rfl, rfl, fun _ _ => rfl⟩

theorem trans (h : SameOutlet p o s s') (h' : SameOutlet p o s' s'') : SameOutlet p o s s'' :=
  ⟨h'.bell.trans h.bell, h'.marks.trans h.marks, fun k hk => (h'.bytes k hk).trans (h.bytes k hk)⟩

end SameOutlet

end Account

end InterCore
