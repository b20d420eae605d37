import InterCore.Proofs.Facets
import InterCore.Proofs.Handover

/-!
# Given-back buffers over any arena

How buffers are given back does not depend on the boards that a mailbox boots to: any registered
nodes will do, with any lists beside the two over which buffers go back. Every program that has to
do with them changes the facet of given-back buffers and tells the observer.

## Main definitions

* `Board.Stages`: the two lists, the mark and the doorbell are as a facet says.
* `Board.Told`: nothing but these changed, and the observer was told of some events.
* `Peer.takeAll`: the peer takes the shared free queue and acknowledges.

## Main results

* `Board.Stages.giveBack`, `Board.Stages.releaseAcknowledged`: the programs of the host.
* `Board.Stages.takeAll`: the program of the peer.
-/

namespace InterCore

open Memory

variable {σ : Type}

namespace Board

/-! ### The facet of given-back buffers -/

/-- The lists are well formed, and the two lists of given-back buffers, the mark of the host and its
half of the release channel are those of the facet `r`. -/
structure Stages (k : NodeLists) (r : Release) (b : Board σ) : Prop where
  arena : b.host.arena = k.arena
  freeQueue : b.host.freeQueue = k.freeQueue
  localQueue : b.host.localQueue = k.localQueue
  separated : k.arena.Separated
  chains : Chain.WellFormed k.arena b.memory (k.family r.free r.waiting)
  pending : b.host.releasePending = r.pending
  bell : (b.panel.get .release).outbound = r.bell

/-- From the first board to the second nothing changed but links, the release channel on the side of
the host, and the mark of the host, and the observer was told of `events`. -/
structure Told (note : Event → σ → σ) (events : List Event) (b b' : Board σ) : Prop where
  eq : b' = { b with
    memory := b'.memory
    panel := b'.panel
    host := { b.host with releasePending := b'.host.releasePending }
    sink := Event.noteAll note events b.sink }
  bells : ∀ c ≠ .release, b'.panel.get c = b.panel.get c
  inbound : (b'.panel.get .release).inbound = (b.panel.get .release).inbound

namespace Told

variable {note : Event → σ → σ} {events events' : List Event} {b b₁ b' : Board σ}

theorem refl (note : Event → σ → σ) (b : Board σ) : Told note [] b b := ⟨rfl, fun _ _ => rfl, rfl⟩

theorem trans (h : Told note events b b₁) (h' : Told note events' b₁ b') :
    Told note (events ++ events') b b' where
  eq := by
    rw [h'.eq, h.eq]
    simp only [Event.noteAll_append]
  bells c hc := (h'.bells c hc).trans (h.bells c hc)
  inbound := h'.inbound.trans h.inbound

end Told

end Board

namespace Release

variable (r : Release)

/-- An event of the release channel. -/
def event (kind : Event.Kind) : Event where
  kind := kind
  channel := Channel.release.number
  length := 0
  code := 0

/-- What the observer is told when a buffer is given back. -/
def dropEvents : List Event :=
  [event .bufferReleased, event (if r.bell.hostFlag then .releaseDeferred else .releaseRung)]

/-- What the observer is told when a ring was consumed, or the host is woken without cause. -/
def wakeEvents : List Event :=
  if r.bell.hostFlag ∨ r.waiting = [] then [] else [event .releaseRung]

/-- The peer takes the shared free queue and acknowledges. -/
def taken : Release := { r with free := [], bell := { r.bell with hostFlag := false } }

variable {r}

theorem wakeEvents_of_flag (h : r.bell.hostFlag = true) : r.wakeEvents = [] := if_pos (.inl h)

theorem wakeEvents_of_nil (h : r.waiting = []) : r.wakeEvents = [] := if_pos (.inr h)

theorem wakeEvents_of_waiting (h : r.bell.hostFlag = false) (hw : r.waiting ≠ []) :
    r.wakeEvents = [event .releaseRung] :=
  if_neg (not_or.mpr ⟨Bool.eq_false_iff.mp h, hw⟩)

theorem handOver_of_nil (h : r.waiting = []) : r.handOver = r := by
  rw [handOver, h, List.append_nil, ← h]

/-- The buffers that were given back, with the one that is given back now. -/
theorem given_giveBack (r : Release) (n : NodeIndex) :
    (r.giveBack n).free ++ (r.giveBack n).waiting = r.free ++ r.waiting ++ [n] := by
  cases hflag : r.bell.hostFlag with
  | true =>
    rw [Release.giveBack_of_flag hflag]
    exact (List.append_assoc _ _ _).symm
  | false =>
    rw [Release.giveBack_of_clear hflag]
    exact (List.append_nil _).trans (List.append_assoc _ _ _).symm

end Release

/-- The peer takes every buffer of the queue at an address as a slot to fill and acknowledges. -/
def Peer.takeAll (queue : Address) : BoardM σ Nat := do
  let taken ← Board.drain (reclaimOne queue)
  Board.modifyBell .release Bell.acknowledge
  return taken

/-! ### Programs -/

/-- The program finishes with a result and a facet, after it has told the observer of `events`. -/
def Board.Leads {α : Type} (k : NodeLists) (note : Event → σ → σ) (x : BoardM σ α) (b : Board σ)
    (a : α) (r : Release) (events : List Event) : Prop :=
  ∃ b', x.run b = .ok a b' ∧ b'.Stages k r ∧ Told note events b b'

/-- Programs one after the other. -/
theorem Board.Leads.bind {α β : Type} {k : NodeLists} {note : Event → σ → σ} {x : BoardM σ α}
    {f : α → BoardM σ β} {b : Board σ} {a : α} {c : β} {r r' : Release}
    {events events' : List Event}
    (h : Leads k note x b a r events)
    (hf : ∀ b', b'.Stages k r → Leads k note (f a) b' c r' events') :
    Leads k note (x >>= f) b c r' (events ++ events') := by
  obtain ⟨b₁, hrun₁, h₁, htold₁⟩ := h
  obtain ⟨b₂, hrun₂, h₂, htold₂⟩ := hf b₁ h₁
  exact ⟨b₂, by rw [run_bind_ok hrun₁, hrun₂], h₂, htold₁.trans htold₂⟩

/-- A program that tells nothing, and then another one. -/
theorem Board.Leads.andThen {α β : Type} {k : NodeLists} {note : Event → σ → σ} {x : BoardM σ α}
    {f : α → BoardM σ β} {b : Board σ} {a : α} {c : β} {r r' : Release} {events : List Event}
    (h : Leads k note x b a r []) (hf : ∀ b', b'.Stages k r → Leads k note (f a) b' c r' events) :
    Leads k note (x >>= f) b c r' events :=
  h.bind hf

namespace Board.Stages

variable {k : NodeLists} {r : Release} {b : Board σ} {n : NodeIndex} (note : Event → σ → σ)
  (h : b.Stages k r)
include h

theorem hostFlag_eq : (b.panel.get .release).hostFlag = r.bell.hostFlag := by
  rw [← h.bell]
  rfl

theorem pure {α : Type} (a : α) : Leads k note (Pure.pure a) b a r [] := ⟨b, rfl, h, .refl note b⟩

/-- A look at the release channel. -/
theorem look : Leads k note (Board.bell .release) b (b.panel.get .release) r [] :=
  ⟨b, rfl, h, .refl note b⟩

/-- The observer is told an event. -/
theorem tell (e : Event) : Leads k note (Observer.passive note e) b () r [e] :=
  ⟨_, rfl, { h with }, rfl, fun _ _ => rfl, rfl⟩

/-- The mark of the host is set or removed. -/
theorem mark (pending : Bool) :
    Leads k note (modifyHost fun h => { h with releasePending := pending }) b ()
      { r with pending } [] :=
  ⟨_, rfl, { h with pending := rfl }, rfl, fun _ _ => rfl, rfl⟩

/-- The release channel changes on the side of the host. -/
theorem modifyBell {f : Bell → Bell} {x : Outbound} (hf : ∀ bell, (f bell).inbound = bell.inbound)
    (hx : (f (b.panel.get .release)).outbound = x) :
    Leads k note (Board.modifyBell .release f) b () { r with bell := x } [] := by
  refine ⟨_, rfl, { h with bell := ?_ }, rfl, fun c hc => Panel.get_modify_of_ne hc.symm,
    Panel.modify_keeps (g := Bell.inbound) hf⟩
  show ((b.panel.modify .release f).get .release).outbound = _
  rw [Panel.get_modify_self, hx]

theorem enableTx (on : Bool) :
    Leads k note (Board.modifyBell .release (·.enableTx on)) b ()
      { r with bell := { r.bell with txEnabled := on } } [] :=
  h.modifyBell note (fun _ => rfl) (by rw [← h.bell]; rfl)

/-- The release doorbell rings. -/
theorem ringRelease :
    Leads k note (Host.ringRelease (Observer.passive note)) b () r.ring
      [Release.event .releaseRung] :=
  (h.modifyBell note (f := Bell.ring) (fun _ => rfl) (by rw [← h.bell]; rfl)).bind fun _ h₁ =>
    h₁.tell note _

/-- Every waiting buffer is handed over. -/
theorem flush : Leads k note Host.flush b r.waiting.length r.handOver [] := by
  obtain ⟨m', hrun, -, hw⟩ := flush_family h.arena h.localQueue h.separated h.freeQueue h.chains
  exact ⟨_, hrun, { h with chains := hw }, rfl, fun _ _ => rfl, rfl⟩

/-- A node that no list holds starts to wait. -/
theorem wait (hn : k.arena.Has n) (hnew : n ∉ (k.family r.free r.waiting).nodes) :
    Leads k note (splice fun a m => Chain.pushBack a m b.host.localQueue n) b ()
      { r with waiting := r.waiting ++ [n] } [] := by
  obtain ⟨m', hpush, hw⟩ := NodeLists.pushBack_waiting h.separated h.chains hn hnew
  refine ⟨{ b with memory := m' }, run_splice_ok b ?_, { h with chains := hw }, rfl,
    fun _ _ => rfl, rfl⟩
  rw [h.arena, h.localQueue]
  exact hpush

/-- **A node that no list holds is given back.** -/
theorem giveBack (hn : k.arena.Has n) (hnew : n ∉ (k.family r.free r.waiting).nodes) :
    Leads k note (Host.giveBack (Observer.passive note) n) b () (r.giveBack n) r.dropEvents := by
  refine (h.wait note hn hnew).andThen fun b₁ h₁ => ?_
  refine (h₁.tell note (Release.event .bufferReleased)).bind fun b₂ h₂ => ?_
  refine (h₂.look note).andThen fun b₃ h₃ => ?_
  rw [h₂.hostFlag_eq]
  cases hflag : r.bell.hostFlag with
  | true =>
    rw [Release.giveBack_of_flag hflag]
    refine (h₃.mark note true).andThen fun b₄ h₄ => ?_
    exact (h₄.enableTx note true).andThen fun b₅ h₅ => h₅.tell note _
  | false =>
    rw [Release.giveBack_of_clear hflag]
    exact (h₃.flush note).andThen fun b₄ h₄ => h₄.ringRelease note

/-- **The host takes notice of an acknowledged ring**, or is woken without cause. -/
theorem releaseAcknowledged :
    Leads k note (Host.releaseAcknowledged (Observer.passive note)) b () r.acknowledged
      r.wakeEvents := by
  refine (h.enableTx note false).andThen fun b₁ h₁ => ?_
  refine (h₁.mark note false).andThen fun b₂ h₂ => ?_
  refine (h₂.look note).andThen fun b₃ h₃ => ?_
  rw [h₂.hostFlag_eq]
  cases hflag : r.bell.hostFlag with
  | true =>
    rw [Release.acknowledged_of_flag hflag, Release.wakeEvents_of_flag hflag]
    exact (h₃.mark note true).andThen fun b₄ h₄ => h₄.enableTx note true
  | false =>
    refine (h₃.flush note).andThen fun b₄ h₄ => ?_
    by_cases hw : r.waiting = []
    · have hnone : ¬ r.waiting.length ≠ 0 := not_not.mpr (List.length_eq_zero_iff.mpr hw)
      rw [Release.handOver_of_nil (by exact hw)] at h₄
      rw [Release.acknowledged_of_nil hflag hw, Release.wakeEvents_of_nil hw, if_neg hnone]
      exact h₄.pure note ()
    · have hsome : r.waiting.length ≠ 0 := mt List.length_eq_zero_iff.mp hw
      rw [Release.acknowledged_of_waiting hflag hw, Release.wakeEvents_of_waiting hflag hw,
        if_pos hsome]
      exact h₄.ringRelease note

end Board.Stages

/-! ### The peer -/

/-- **The peer takes every buffer of the shared free queue and acknowledges.** -/
theorem Board.Stages.takeAll {k : NodeLists} {r : Release} {b : Board σ} (h : b.Stages k r) :
    ∃ b', (Peer.takeAll (k.arena.locate k.freeQueue)).run b = .ok r.free.length b' ∧
      b'.Stages k r.taken ∧
      b'.peer.free = (r.free.map k.arena.locate).reverse ++ b.peer.free ∧ b'.sink = b.sink := by
  obtain ⟨m', hrun, -, hw⟩ := drain_family h.separated h.chains
  refine ⟨{ b with
    memory := m'
    panel := b.panel.modify .release Bell.acknowledge
    peer := { b.peer with free := (r.free.map k.arena.locate).reverse ++ b.peer.free } }, ?_,
    ⟨h.arena, h.freeQueue, h.localQueue, h.separated, hw, h.pending, ?_⟩, rfl, rfl⟩
  · rw [Peer.takeAll, run_bind_ok hrun, run_bind_ok (run_modifyBell _ _ _), EStateM.run_pure]
  · show ((b.panel.modify .release Bell.acknowledge).get .release).outbound = _
    rw [Panel.get_modify_self, Release.taken, ← h.bell]
    rfl

end InterCore
