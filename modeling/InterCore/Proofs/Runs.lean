import InterCore.Proofs.Boot
import InterCore.Proofs.Steps.Idle

/-!
# Runs

A run starts with a boot of both cores over any memory and any doorbells. Then the peer, the
interrupts and the application take steps in any order, for as long as no step halts the host. Every
board of a run shows an account, and every step does to the account what its operation says.

## Main definitions

* `Operation`: what the peer, the interrupts and the application may do.
* `Operation.run`, `Operation.apply`, `Operation.answer`: its program, and what it does to an
  account and answers.
* `Run`: the boards that follow a boot, with the steps that lead there.

## Main results

* `Board.Shows.run`: every operation does to the board what it does to the account.
* `Run.invariant`: what every operation keeps holds after every run.
-/

namespace InterCore

open Memory

variable {σ : Type}

/-- A step of the peer, of an interrupt or of the application. -/
inductive Operation where
  | deliverEvent (code : UInt8) (data : List UInt8)
  | deliverSystemEvent (code : UInt8) (data : List UInt8)
  | deliverTrace (data : List UInt8)
  | reclaim
  | takeCommand
  | takeAcl
  | answerSystemCommand (status : UInt8)
  | writeCommandStatus (status : UInt8) (opcode : UInt16)
  | receiveInterrupt
  | transmitInterrupt
  | fetchEvents (e : Endpoint)
  | releaseAcknowledged
  | sendCommandSerial (bytes : List UInt8)
  | sendCommand (opcode : UInt16) (parameters : List UInt8)
  | sendAclSerial (bytes : List UInt8)
  | sendAcl (handle : UInt16) (data : List UInt8)
  | sendSystemCommand (opcode : UInt16) (parameters : List UInt8)
  /-- Take an event into a box. -/
  | takeEvent (e : Endpoint) (i : Nat)
  | releaseBox (i : Nat)
  /-- Move the content of a box into another one, or into itself. -/
  | moveBox (i j : Nat)
  /-- Make an empty box. -/
  | newBox
  /-- Make a box from the content of another one. -/
  | constructBox (i : Nat)
  | destroyBox (i : Nat)
  deriving DecidableEq, Repr

/-- What an operation answers. -/
inductive Answer where
  | done
  | flag (yes : Bool)
  | count (n : Nat)
  | packet (bytes : Option (List UInt8))
  | sent (result : Host.SendResult)

/-- The answer of a program without a result. -/
def Answer.ofUnit (_ : Unit) : Answer := .done

namespace Operation

/-- The boxes that an operation names. -/
def boxes : Operation → List Nat
  | takeEvent _ i | releaseBox i | constructBox i | destroyBox i => [i]
  | moveBox i j => [i, j]
  | _ => []

/-- The program of an operation. Buffers are given back by `drop`. -/
def run (observer : Observer σ) (op : Operation)
    (drop : NodeIndex → BoardM σ Unit := Host.giveBack observer) : BoardM σ Answer :=
  match op with
  | deliverEvent code data => .flag <$> Peer.deliverEvent code data
  | deliverSystemEvent code data => .flag <$> Peer.deliverSystemEvent code data
  | deliverTrace data => .flag <$> Peer.deliverTrace data
  | reclaim => .count <$> Peer.reclaim
  | takeCommand => .packet <$> Peer.takeCommand
  | takeAcl => .packet <$> Peer.takeAcl
  | answerSystemCommand status => .flag <$> Peer.answerSystemCommand status
  | writeCommandStatus status opcode => .ofUnit <$> Peer.writeCommandStatus status opcode
  | receiveInterrupt => .ofUnit <$> Host.receiveInterrupt observer drop
  | transmitInterrupt => .ofUnit <$> Host.transmitInterrupt observer
  | fetchEvents e => .ofUnit <$> Host.fetchEvents observer e drop
  | releaseAcknowledged => .ofUnit <$> Host.releaseAcknowledged observer
  | sendCommandSerial bytes => .sent <$> Host.sendCommandSerial observer bytes
  | sendCommand opcode parameters => .sent <$> Host.sendCommand observer opcode parameters
  | sendAclSerial bytes => .sent <$> Host.sendAclSerial observer bytes
  | sendAcl handle data => .sent <$> Host.sendAcl observer handle data
  | sendSystemCommand opcode parameters =>
    .sent <$> Host.sendSystemCommand observer opcode parameters
  | takeEvent e i => .flag <$> Host.takeEvent observer e i drop
  | releaseBox i => .ofUnit <$> Host.releaseBox observer (.application i) drop
  | moveBox i j => .ofUnit <$> Host.moveBox observer (.application i) (.application j) drop
  | newBox => .ofUnit <$> Host.newBox Box.empty
  | constructBox i => .ofUnit <$> Host.constructBox i
  | destroyBox i => .ofUnit <$> Host.destroyBox observer i drop

section Accounts

variable (p : Placement) (sw : Switches) (note : Event → σ → σ) (s : Account σ)

/-- What an operation does to an account. -/
def apply : Operation → Account σ
  | deliverEvent code data => s.deliver p .ble .bleEvent code data .bleEvent
  | deliverSystemEvent code data => s.deliver p .system .systemEvent code data .systemEvent
  | deliverTrace data =>
    if sw.traces then
      s.deliver p .traces .wirelessTrace EventCode.vendorSpecific.code data .traces
    else s
  | reclaim => s.reclaim
  | takeCommand => s.takePacket .bleCommand
  | takeAcl => s.takePacket .aclData
  | answerSystemCommand status => s.answerSystemCommand p status
  | writeCommandStatus status opcode => s.writeCommandStatus p status opcode
  | receiveInterrupt => s.receiveInterrupt p note
  | transmitInterrupt => s.transmitInterrupt p note
  | fetchEvents e => s.fetchEvents p note e
  | releaseAcknowledged => s.releaseAcknowledged note
  | sendCommandSerial bytes => s.sendCommandSerial p note bytes
  | sendCommand opcode parameters => s.sendCommand p note opcode parameters
  | sendAclSerial bytes => s.sendAclSerial p note bytes
  | sendAcl handle data => s.sendAcl p note handle data
  | sendSystemCommand opcode parameters => s.sendSystemCommand p note opcode parameters
  | takeEvent e i => s.takeEvent note e i
  | releaseBox i => s.releaseBox note i
  | moveBox i j => s.moveBox note i j
  | newBox => s.addBox none
  | constructBox i => s.constructBox i
  | destroyBox i => s.destroyBox note i

/-- What an operation answers. -/
def answer : Operation → Answer
  | deliverEvent _ data | deliverSystemEvent _ data => .flag (s.accepts data)
  | deliverTrace data => .flag (sw.traces && s.accepts data)
  | reclaim => .count s.reclaimed
  | takeCommand => .packet (s.packet p .bleCommand .command .bleCommand)
  | takeAcl => .packet (s.packet p .aclData .aclData .aclData)
  | answerSystemCommand _ => .flag (s.panel.get .systemCommand).hostFlag
  | sendCommandSerial bytes => .sent (Account.sendAnswer Packet.commandCapacity bytes)
  | sendCommand _ parameters => .sent (Account.sendAnswer Packet.commandPayload parameters)
  | sendAclSerial bytes => .sent (Account.sendAnswer Packet.aclCapacity bytes)
  | sendAcl _ data => .sent (Account.sendAnswer Packet.aclPayload data)
  | sendSystemCommand _ parameters => .sent (s.systemSendAnswer parameters)
  | takeEvent e _ => .flag !(s.inbox e).isEmpty
  | _ => .done

end Accounts

end Operation

/-! ### One step -/

theorem Board.Yields.map {p : Placement} {sw : Switches} {α β : Type} {x : BoardM σ α}
    {b : Board σ} {r : α} {s : Account σ} (hx : Yields p sw x b r s) (f : α → β) :
    Yields p sw (f <$> x) b (f r) s := by
  rw [map_eq_pure_bind]
  exact hx.bind fun _ h₁ => h₁.pure (f r)

/-- **Every operation does to the board what it does to the account.** -/
theorem Board.Shows.run {p : Placement} {sw : Switches} {b : Board σ} {s : Account σ}
    (note : Event → σ → σ) (h : b.Shows p sw s) (hs : s.Proper []) (op : Operation)
    (hmask : op = .receiveInterrupt → (s.panel.get .traces).rxPending = true → sw.traces = true) :
    Yields p sw (op.run (Observer.passive note)) b (op.answer p sw s) (op.apply p sw note s) := by
  cases op with
  | deliverEvent code data => exact (h.deliverEvent code data).map _
  | deliverSystemEvent code data => exact (h.deliverSystemEvent code data).map _
  | deliverTrace data => exact (h.deliverTrace data).map _
  | reclaim => exact h.reclaim.map _
  | takeCommand => exact h.takeCommand.map _
  | takeAcl => exact h.takeAcl.map _
  | answerSystemCommand status => exact (h.answerSystemCommand status).map _
  | writeCommandStatus status opcode => exact (h.writeCommandStatus status opcode).map _
  | receiveInterrupt => exact (h.receiveInterrupt note hs (hmask rfl)).map _
  | transmitInterrupt => exact (h.transmitInterrupt note).map _
  | fetchEvents e => exact (h.fetchEvents note hs).map _
  | releaseAcknowledged => exact (h.releaseAcknowledged note).map _
  | sendCommandSerial bytes => exact (h.sendCommandSerial note bytes).map _
  | sendCommand opcode parameters => exact (h.sendCommand note opcode parameters).map _
  | sendAclSerial bytes => exact (h.sendAclSerial note bytes).map _
  | sendAcl handle data => exact (h.sendAcl note handle data).map _
  | sendSystemCommand opcode parameters => exact (h.sendSystemCommand note opcode parameters).map _
  | takeEvent e i => exact (h.takeEvent note hs).map _
  | releaseBox i => exact (h.releaseBox note hs).map _
  | moveBox i j => exact (h.moveBox note hs).map _
  | newBox => exact (h.newBox none).map _
  | constructBox i => exact (h.constructBox i).map _
  | destroyBox i => exact (h.destroyBox note hs i).map _

namespace Account

variable {p : Placement} {sw : Switches} {note : Event → σ → σ} {s : Account σ}

/-- **No operation loses a buffer or copies one.** -/
theorem places_apply (hp : p.Valid) (op : Operation) (hop : ∀ i ∈ op.boxes, i < s.boxes.length) :
    (op.apply p sw note s).places.Perm s.places := by
  cases op with
  | deliverEvent code data => exact places_deliver _ _ _ _ _
  | deliverSystemEvent code data => exact places_deliver _ _ _ _ _
  | deliverTrace data =>
    rw [Operation.apply]
    split
    · exact places_deliver _ _ _ _ _
    · exact .refl _
  | reclaim => exact places_reclaim
  | takeCommand => exact .of_eq (idle_takePacket (p := p) _).places
  | takeAcl => exact .of_eq (idle_takePacket (p := p) _).places
  | answerSystemCommand status => exact .of_eq (idle_answerSystemCommand hp status).places
  | writeCommandStatus status opcode => exact .refl _
  | receiveInterrupt => exact places_receiveInterrupt
  | transmitInterrupt => exact places_transmitInterrupt
  | fetchEvents e => exact places_fetchEvents
  | releaseAcknowledged => exact places_releaseAcknowledged
  | sendCommandSerial bytes => exact .of_eq (idle_sendCommandSerial hp bytes).places
  | sendCommand opcode parameters => exact .of_eq (idle_sendCommand hp opcode parameters).places
  | sendAclSerial bytes => exact .of_eq (idle_sendAclSerial hp bytes).places
  | sendAcl handle data => exact .of_eq (idle_sendAcl hp handle data).places
  | sendSystemCommand opcode parameters =>
    exact .of_eq (idle_sendSystemCommand hp opcode parameters).places
  | takeEvent e i => exact places_takeEvent (hop i List.mem_cons_self)
  | releaseBox i => exact places_releaseBox
  | moveBox i j => exact places_moveBox (hop j (List.mem_cons_of_mem _ List.mem_cons_self))
  | newBox => exact places_addBox s none
  | constructBox i => exact places_constructBox s i
  | destroyBox i => exact places_destroyBox (hop i List.mem_cons_self)

end Account

theorem Account.proper_of_perm {s : Account σ} (h : s.places.Perm pool) : s.Proper [] :=
  h.subperm.trans (by decide)

/-- An operation that finished did what it does to the account. -/
theorem Board.Shows.of_run {p : Placement} {sw : Switches} {note : Event → σ → σ} {b b' : Board σ}
    {s : Account σ} (h : b.Shows p sw s) (hs : s.Proper []) {op : Operation} {r : Answer}
    (hrun : (op.run (Observer.passive note)).run b = .ok r b') :
    r = op.answer p sw s ∧ b'.Shows p sw (op.apply p sw note s) := by
  by_cases hmask : op = .receiveInterrupt → (s.panel.get .traces).rxPending = true →
      sw.traces = true
  · exact (h.run note hs op hmask).of_run hrun
  · simp only [Classical.not_imp, Bool.not_eq_true] at hmask
    obtain ⟨rfl, hpending, ht⟩ := hmask
    obtain ⟨b₁, hhalt⟩ := h.receiveInterrupt_halts note hs ht hpending
    rw [Operation.run, map_eq_pure_bind, run_bind_error hhalt] at hrun
    cases hrun

/-! ### Runs -/

/-- One step of a run. -/
structure Transition (σ : Type) where
  before : Board σ
  operation : Operation
  answer : Answer
  after : Board σ

/-- After a boot of both cores, steps lead to a board. Their operations name boxes that exist. -/
inductive Run (p : Placement) (sw : Switches) (note : Event → σ → σ) (b₀ : Board σ) :
    List (Transition σ) → Board σ → Prop
  | boot {b : Board σ} (hrun : (Board.start p sw).run b₀ = .ok () b) : Run p sw note b₀ [] b
  | step {ts : List (Transition σ)} {b b' : Board σ} {op : Operation} {r : Answer}
      (hbefore : Run p sw note b₀ ts b) (hop : ∀ i ∈ op.boxes, i < b.boxes.size)
      (hrun : (op.run (Observer.passive note)).run b = .ok r b') :
      Run p sw note b₀ (ts ++ [⟨b, op, r, b'⟩]) b'

namespace Run

variable {p : Placement} {sw : Switches} {note : Event → σ → σ} {b₀ b : Board σ}
  {ts : List (Transition σ)}

/-- **What every operation keeps holds after every run.** Every board of a run shows an account in
which each slot of the pool is in one place. -/
theorem invariant (hp : p.Valid) (hboxes : ∀ x ∈ b₀.boxes, x = Box.empty)
    {I : List (Transition σ) → Account σ → Prop}
    (hboot : ∀ m, I [] (Account.booted m (b₀.panel.booted sw) b₀.boxes.size b₀.sink))
    (hstep : ∀ ts b s op b', I ts s → b.Shows p sw s → s.places.Perm pool →
      (∀ i ∈ op.boxes, i < s.boxes.length) → b'.Shows p sw (op.apply p sw note s) →
      I (ts ++ [⟨b, op, op.answer p sw s, b'⟩]) (op.apply p sw note s))
    (h : Run p sw note b₀ ts b) : ∃ s, b.Shows p sw s ∧ s.places.Perm pool ∧ I ts s := by
  induction h with
  | boot hrun =>
    obtain ⟨b', hrun', hshows⟩ := Board.start_shows hp sw b₀ hboxes
    rw [hrun'] at hrun
    injection hrun with _ hb
    exact ⟨_, hb ▸ hshows, Account.places_booted _ _ _ _, hboot _⟩
  | step hbefore hop hrun ih =>
    obtain ⟨s, hshows, hperm, hI⟩ := ih
    obtain ⟨rfl, hshows'⟩ := hshows.of_run (Account.proper_of_perm hperm) hrun
    rw [hshows.size_boxes] at hop
    exact ⟨_, hshows', (Account.places_apply hp _ hop).trans hperm,
      hstep _ _ _ _ _ hI hshows hperm hop hshows'⟩

/-- Every board of a run shows an account in which each slot of the pool is in one place. -/
theorem exists_shows (hp : p.Valid) (hboxes : ∀ x ∈ b₀.boxes, x = Box.empty)
    (h : Run p sw note b₀ ts b) : ∃ s, b.Shows p sw s ∧ s.places.Perm pool := by
  obtain ⟨s, hshows, hperm, -⟩ := h.invariant hp hboxes (I := fun _ _ => True)
    (fun _ => trivial) fun _ _ _ _ _ _ _ _ _ _ => trivial
  exact ⟨s, hshows, hperm⟩

/-- **No operation halts a run**, except that traces interrupt a host that has them switched off. -/
theorem exists_step (hp : p.Valid) (hboxes : ∀ x ∈ b₀.boxes, x = Box.empty)
    (h : Run p sw note b₀ ts b) {op : Operation} (hop : ∀ i ∈ op.boxes, i < b.boxes.size)
    (hmask : op = .receiveInterrupt → (b.panel.get .traces).rxPending = true → sw.traces = true) :
    ∃ r b', Run p sw note b₀ (ts ++ [⟨b, op, r, b'⟩]) b' := by
  obtain ⟨s, hshows, hperm⟩ := h.exists_shows hp hboxes
  rw [hshows.panel] at hmask
  obtain ⟨b', hrun, -⟩ := hshows.run note (Account.proper_of_perm hperm) op hmask
  exact ⟨_, b', h.step hop hrun⟩

end Run

end InterCore
