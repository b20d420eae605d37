import InterCore.Proofs.Outcome
import InterCore.Proofs.Readings
import InterCore.Proofs.Runs

/-!
# Callbacks

An observer may use the mailbox again while it is told an event: run interrupts, drop buffers, let
the peer step, and be told further events on the way. What the callbacks do is a plan, one list of
reactions for each of them, and the plan is arbitrary. A ledger keeps which buffers were dropped and
which the peer took back, in order, and how often the release doorbell rang.

A drop is written down where it is called, before anything is done with the buffer. If the buffer is
not live or is in a list at that moment, the run ends there, which is written down as well.

## Main definitions

* `Reaction`, `Ledger`: what callbacks do, and what is kept about a run with them.
* `dropNoted`: a buffer is given back, which is written down first.
* `callback`: the observer whose callbacks follow the plan, nested to a given depth.
* `performFromBoot`: a whole run.
* `Board.Balanced`: the buffers dropped are those reclaimed and those that wait.
* `Board.Alternates`: no ring came before the one before was consumed.
* `Board.Ends`: why a run may end early.
* `Sound`: the invariant between any two steps.

## Main results

* `Board.Ready.append_loose`: a buffer that is live and in no list can always be given back.
* `Sound.append`, `Sound.ring`, `Sound.flush`: the steps of a release keep the invariant.
-/

namespace InterCore

open Memory

/-- What a callback does, and what happens between callbacks. -/
inductive Reaction where
  | operation (op : Operation)
  /-- Give a buffer back that is in no box. -/
  | drop (n : NodeIndex)
  deriving DecidableEq, Repr

/-- What is kept about a run with callbacks. -/
structure Ledger where
  /-- What the callbacks still to come do, one list of reactions for each. -/
  plan : List (List Reaction)
  /-- The release doorbell was set before the boot. -/
  earlier : Bool
  /-- How many reactions were begun. -/
  begun : Nat := 0
  /-- The buffers dropped, in the order in which they were. -/
  dropped : List NodeIndex := []
  /-- How often an observer was told a drop. -/
  told : Nat := 0
  /-- The buffers that the peer took back, in order. -/
  reclaimed : List (Option NodeIndex) := []
  /-- How often the release doorbell rang. -/
  rung : Nat := 0
  /-- How often the peer consumed a ring. -/
  acknowledged : Nat := 0
  /-- How often a look found drops and queues, or rings and acknowledgements, out of balance. -/
  breaches : Nat := 0
  /-- The buffer that was to be dropped though it was not live or was in a list. -/
  refused : Option NodeIndex := none
  deriving DecidableEq, Repr

/-- Drops and rings are counted. -/
def Ledger.noted (l : Ledger) (e : Event) : Ledger :=
  match e.kind with
  | .bufferReleased => { l with told := l.told + 1 }
  | .releaseRung => { l with rung := l.rung + 1 }
  | _ => l

namespace Board

/-- The node is an event slot that the peer does not have, and in no list. -/
def Loose {σ : Type} (b : Board σ) (n : NodeIndex) : Prop :=
  n ∈ slots ∧ some n ∉ b.slotsToFill ∧
    ∀ l ∈ Line.made b.host.switches.traces, some n ∉ b.line l

instance {σ : Type} (b : Board σ) (n : NodeIndex) : Decidable (b.Loose n) :=
  inferInstanceAs (Decidable (_ ∧ _))

variable (b : Board Ledger)

/-- The buffers dropped are those that the peer took back, then those of the shared free queue, then
those of the local queue, and each drop was told. -/
def Balanced : Prop :=
  b.sink.dropped.map some = b.sink.reclaimed ++ b.line (.shared .free) ++ b.line .waiting ∧
    b.sink.told = b.sink.dropped.length

instance : Decidable b.Balanced := inferInstanceAs (Decidable (_ ∧ _))

/-- Every ring was consumed but the one that the release doorbell still shows. -/
def Alternates : Prop :=
  b.sink.rung + b.sink.earlier.toNat =
    b.sink.acknowledged + (b.panel.get .release).hostFlag.toNat

instance : Decidable b.Alternates := inferInstanceAs (Decidable (_ = _))

/-- Why a run may end early. -/
inductive Ends : Halt → Prop
  /-- A buffer was to be dropped that is not live, or is in a list. -/
  | refused {n : NodeIndex} (hn : b.sink.refused = some n) (hloose : ¬ b.Loose n) :
    Ends .unknownNode
  /-- An event came for an inbox without room. -/
  | overflow {e : Endpoint} (hfull : (b.host.receiver e).inbox.isFull = true) :
    Ends (.inboxOverflow e)
  /-- Traces interrupted a host that has them switched off. -/
  | untraced (htraces : b.host.switches.traces = false) : Ends .strayLink
  /-- Callbacks kept a loop supplied, reaction by reaction. -/
  | endless (hbegun : stepLimit ≤ b.sink.begun) : Ends .endless

end Board

/-! ### The observer -/

section Observer

open Board

variable (observer : Observer Ledger)

/-- Give a buffer back, which is written down first. A buffer that is not live, or is in a list,
ends the run. -/
def dropNoted (n : NodeIndex) : BoardM Ledger Unit := do
  if (← get).Loose n then
    modifySink fun l => { l with dropped := l.dropped ++ [n] }
    Host.giveBack observer n
  else
    modifySink fun l => { l with refused := some n }
    throw .unknownNode

/-- An imbalance of drops and queues, or of rings and acknowledgements, is written down. -/
def audit : BoardM Ledger Unit :=
  modify fun b =>
    if b.Balanced ∧ b.Alternates then b
    else { b with sink := { b.sink with breaches := b.sink.breaches + 1 } }

/-- The peer takes given-back buffers, which are written down. -/
def reclaimNoted : BoardM Ledger Unit := do
  let rung := (← bell .release).hostFlag
  let taken ← Peer.reclaim
  let b ← get
  modifySink fun l => { l with
    reclaimed := l.reclaimed ++ (b.slotsToFill.take taken).reverse
    acknowledged := if rung then l.acknowledged + 1 else l.acknowledged }

/-- The program of a reaction. -/
def Reaction.run : Reaction → BoardM Ledger Unit
  | .operation .reclaim => reclaimNoted
  | .operation op => do
    let _ ← op.run observer (dropNoted observer)
  | .drop n => dropNoted observer n

/-- Perform reactions one after the other and look at the balance after each. -/
def performAll (rs : List Reaction) : BoardM Ledger Unit :=
  rs.forM fun r => do
    modifySink fun l => { l with begun := l.begun + 1 }
    r.run observer
    audit

/-- The next list of reactions of the plan. -/
def nextReactions : BoardM Ledger (List Reaction) := do
  let plan := (← get).sink.plan
  modifySink fun l => { l with plan := plan.tail }
  return plan.headD []

/-- The observer whose callbacks follow the plan, nested to a given depth. -/
def callback : Nat → Observer Ledger
  | 0, e => do
    modifySink (·.noted e)
    audit
  | depth + 1, e => do
    modifySink (·.noted e)
    audit
    performAll (callback depth) (← nextReactions)

/-- Boot both cores and perform reactions, with callbacks nested to a given depth. -/
def performFromBoot (p : Placement) (sw : Switches) (depth : Nat) (rs : List Reaction) :
    BoardM Ledger Unit := do
  Board.start p sw
  performAll (callback depth) rs

end Observer

/-! ### Events that wait -/

/-- The number of events and trace records that wait in shared memory. -/
def incoming (q : Line → List NodeIndex) : Nat :=
  (q (.shared .ble)).length + (q (.shared .system)).length + (q (.shared .traces)).length

theorem incoming_setLine (q : Line → List NodeIndex) {x : Queue} (hx : x ≠ .free)
    (ns : List NodeIndex) :
    incoming (setLine q (.shared x) ns) + (q (.shared x)).length = incoming q + ns.length := by
  cases x with
  | free => exact absurd rfl hx
  | ble | system | traces =>
    simp only [incoming, setLine, Function.update, reduceCtorEq, dite_false, dite_true,
      Line.shared.injEq]
    omega

/-! ### The invariant -/

/-- Drops are balanced with the lines `q`, and at least `k` more reactions were begun than events
wait in them. -/
structure Ledger.Balances (l : Ledger) (q : Line → List NodeIndex) (k : Nat) : Prop where
  dropped : l.dropped.map some = l.reclaimed ++ (q (.shared .free) ++ q .waiting).map some
  told : l.told = l.dropped.length
  begun : incoming q + k ≤ l.begun

/-- A buffer that is dropped and told waits at the end of the local queue. -/
theorem Ledger.Balances.append {l : Ledger} {q : Line → List NodeIndex} {k : Nat}
    (h : l.Balances q k) (n : NodeIndex) :
    Balances { l with dropped := l.dropped ++ [n], told := l.told + 1 }
      (setLine q .waiting (q .waiting ++ [n])) k where
  dropped := by
    have hother : setLine q .waiting (q .waiting ++ [n]) (.shared .free) = q (.shared .free) :=
      Function.update_of_ne (by decide) _ _
    rw [hother, setLine, Function.update_self]
    simp only [h.dropped, List.map_append, List.append_assoc]
  told := by rw [List.length_append, h.told, List.length_singleton]
  begun := h.begun

/-- Since the release doorbell was as in `start`, the rings told are those it counted, each but the
last was consumed before the next, and no imbalance was seen. -/
structure Rings (start : Bell) (b : Board Ledger) : Prop where
  earlier : b.sink.earlier = start.hostFlag
  rings : (b.panel.get .release).rings = start.rings + UInt32.ofNat b.sink.rung
  alternates : b.Alternates
  breaches : b.sink.breaches = 0

/-- Between any two steps the lines are well formed and balanced, and the rings are counted. -/
structure Sound (p : Placement) (sw : Switches) (start : Bell) (k : Nat) (b : Board Ledger) :
    Prop where
  lines : ∃ q free, b.Ready p sw q free ∧ b.sink.Balances q k
  rings : Rings start b

namespace Board.Ready

variable {σ : Type} {p : Placement} {sw : Switches} {b : Board σ} {q : Line → List NodeIndex}
  {free : List NodeIndex} {n : NodeIndex} {l : Line}

/-- Buffers wait in lines that a boot makes. -/
theorem mem_made_of_mem (h : b.Ready p sw q free) (hn : n ∈ q l) : l ∈ Line.made sw.traces := by
  refine Line.mem_made_iff.mpr fun hl => ?_
  by_contra ht
  rw [hl, (h.carries.unmade (Bool.eq_false_of_not_eq_true ht)).1] at hn
  exact List.not_mem_nil hn

theorem mem_line_iff (h : b.Ready p sw q free) (hp : p.Valid) (hl : l ∈ Line.made sw.traces) :
    some n ∈ b.line l ↔ n ∈ q l := by
  rw [h.line_eq hp hl, List.mem_map_of_injective (Option.some_injective _)]

theorem mem_slotsToFill_iff (h : b.Ready p sw q free) (hp : p.Valid) :
    some n ∈ b.slotsToFill ↔ n ∈ free := by
  rw [h.slotsToFill_eq hp, List.mem_map_of_injective (Option.some_injective _)]

/-- A buffer is in no list if and only if none of them shows it. -/
theorem loose_iff (h : b.Ready p sw q free) (hp : p.Valid) :
    b.Loose n ↔ n ∈ slots ∧ n ∉ free ++ Line.all.flatMap q := by
  rw [Loose, h.mem_slotsToFill_iff hp, h.host.switches, List.mem_append, not_or, List.mem_flatMap,
    not_exists]
  refine and_congr_right fun _ => and_congr_right fun _ => ⟨fun hnot l ⟨_, hn⟩ => ?_,
    fun hnot l hl hn => hnot l ⟨l.mem_all, (h.mem_line_iff hp hl).mp hn⟩⟩
  have hl := h.mem_made_of_mem hn
  exact hnot l hl ((h.mem_line_iff hp hl).mpr hn)

/-- **A buffer that is live and in no list can always be given back.** It comes to the end of the
local queue. -/
theorem append_loose (h : b.Ready p sw q free) (hp : p.Valid) (hn : b.Loose n) :
    ∃ m', (splice fun a m => Chain.pushBack a m b.host.localQueue n).run b =
        .ok () { b with memory := m' } ∧
      Ready p sw { b with memory := m' } (setLine q .waiting (q .waiting ++ [n])) free := by
  obtain ⟨hslot, hnew⟩ := (h.loose_iff hp).mp hn
  have hwaiting : Line.waiting ∈ Line.made sw.traces := Line.mem_made_of_ne _ (by decide)
  obtain ⟨m', hrun, -, hready⟩ := h.append hp hwaiting hslot hnew
  rw [← h.host.localQueue] at hrun
  exact ⟨m', hrun, hready⟩

end Board.Ready

namespace Sound

variable {p : Placement} {sw : Switches} {start : Bell} {k : Nat} {b : Board Ledger}

theorem started (h : Sound p sw start k b) : b.host.Started p sw :=
  let ⟨_, _, hready, _⟩ := h.lines
  hready.host

theorem balanced (h : Sound p sw start k b) (hp : p.Valid) : b.Balanced := by
  obtain ⟨q, free, hready, hbalances⟩ := h.lines
  rw [Board.Balanced, hready.line_eq hp (Line.mem_made_of_ne _ (by decide)),
    hready.line_eq hp (Line.mem_made_of_ne _ (by decide)), hbalances.dropped, List.map_append,
    List.append_assoc]
  exact ⟨rfl, hbalances.told⟩

theorem of_add {l : Nat} (h : Sound p sw start (k + l) b) : Sound p sw start k b := by
  obtain ⟨q, free, hready, hbalances⟩ := h.lines
  have hbegun := hbalances.begun
  exact ⟨⟨q, free, hready, hbalances.dropped, hbalances.told, by omega⟩, h.rings⟩

theorem weaken (h : Sound p sw start k b) : Sound p sw start 0 b :=
  of_add (l := k) (by rwa [Nat.zero_add])

theorem le_begun (h : Sound p sw start k b) : k ≤ b.sink.begun := by
  obtain ⟨q, free, -, hbalances⟩ := h.lines
  exact (Nat.le_add_left _ _).trans hbalances.begun

/-- **A dropped buffer comes to the end of the local queue.** It was written down before, and is
counted when it is told. -/
theorem append (h : Sound p sw start k b) (hp : p.Valid) {n : NodeIndex} (hn : b.Loose n) :
    ∃ m', (Board.splice fun a m => Chain.pushBack a m b.host.localQueue n).run
          { b with sink := { b.sink with dropped := b.sink.dropped ++ [n] } } =
        .ok () { b with memory := m', sink := { b.sink with dropped := b.sink.dropped ++ [n] } } ∧
      Sound p sw start k { b with
        memory := m'
        sink := { b.sink with dropped := b.sink.dropped ++ [n], told := b.sink.told + 1 } } := by
  obtain ⟨q, free, hready, hbalances⟩ := h.lines
  have hnoted : Board.Ready p sw { b with sink := { b.sink with dropped := b.sink.dropped ++ [n] } }
      q free := ⟨hready.host, hready.carries⟩
  obtain ⟨m', hrun, hready'⟩ := hnoted.append_loose hp hn
  exact ⟨m', hrun, ⟨_, free, ⟨hready'.host, hready'.carries⟩, hbalances.append n⟩, { h.rings with }⟩

/-- **The waiting buffers are handed over.** -/
theorem flush (h : Sound p sw start k b) (hp : p.Valid) :
    ∃ n m', Host.flush.run b = .ok n { b with memory := m' } ∧
      Sound p sw start k { b with memory := m' } := by
  obtain ⟨q, free, hready, hbalances⟩ := h.lines
  obtain ⟨m', hrun, -, hready'⟩ := hready.flush hp
  refine ⟨_, m', hrun, ⟨flushed q, free, hready', ?_, hbalances.told, hbalances.begun⟩,
    { h.rings with }⟩
  rw [hbalances.dropped, flushed, setLine, Function.update_self, Function.update_of_ne (by decide),
    setLine, Function.update_self, List.append_nil]

/-- **A doorbell that is free is rung**, which is counted. -/
theorem ring (h : Sound p sw start k b) (hflag : (b.panel.get .release).hostFlag = false) :
    Sound p sw start k { b with
      panel := b.panel.modify .release Bell.ring
      sink := { b.sink with rung := b.sink.rung + 1 } } := by
  obtain ⟨q, free, hready, hbalances⟩ := h.lines
  have hbell := Panel.get_modify b.panel .release .release Bell.ring
  have hcount : b.sink.rung + b.sink.earlier.toNat = b.sink.acknowledged := by
    have := h.rings.alternates
    rwa [Board.Alternates, hflag] at this
  refine ⟨⟨q, free, ⟨hready.host, hready.carries⟩, { hbalances with }⟩, h.rings.earlier, ?_, ?_,
    h.rings.breaches⟩
  · show ((b.panel.modify .release Bell.ring).get .release).rings =
      start.rings + UInt32.ofNat (b.sink.rung + 1)
    rw [hbell, UInt32.ofNat_add, ← UInt32.add_assoc, ← h.rings.rings]
    rfl
  · show b.sink.rung + 1 + b.sink.earlier.toNat =
      b.sink.acknowledged + ((b.panel.modify .release Bell.ring).get .release).hostFlag.toNat
    rw [hbell, Nat.add_right_comm, hcount]
    rfl

end Sound

/-- What programs with callbacks keep. The surplus is that of reactions begun over events that
wait. -/
def releasePact (p : Placement) (sw : Switches) (start : Bell) : Pact Ledger where
  holds := Sound p sw start
  holds_of_succ h := h.of_add
  halted e b := Sound p sw start 0 b ∧ b.Ends e
  endless h := ⟨h.weaken, .endless ((Nat.le_add_left _ _).trans h.le_begun)⟩

end InterCore
