import InterCore.Proofs.Runs
import InterCore.Proofs.Steps.Steady

/-!
# Scripts

Every list of operations can be run after a boot, as long as each of them names boxes that exist
when its turn comes: no operation halts, whatever came before.

## Main definitions

* `Operation.boxCount`: how many boxes there are after an operation.
* `Operation.Legal`: each operation of a list names boxes that exist.

## Main results

* `Run.exists_of_legal`: a legal list of operations runs to its end.
-/

namespace InterCore

variable {σ : Type}

namespace Account

variable {p : Placement} {note : Event → σ → σ} {s : Account σ} {e : Endpoint}

theorem boxes_fetchEvents : (s.fetchEvents p note e).boxes = s.boxes :=
  foldl_line (R := fun s s' => s'.boxes = s.boxes) (l := .shared e.queue) (f := fetchOne p note e)
    (fun _ => rfl) (fun _ _ _ h h' => h'.trans h) (fun _ _ _ hl => ⟨rfl, by
      rw [line_fetchOne, hl, List.tail_cons]⟩) s

theorem boxes_discardTraces : (s.discardTraces p note).boxes = s.boxes :=
  foldl_line (R := fun s s' => s'.boxes = s.boxes) (l := .shared .traces) (f := discardOne p note)
    (fun _ => rfl) (fun _ _ _ h h' => h'.trans h) (fun _ _ _ hl => ⟨giveBack_boxes, by
      rw [line_discardOne, hl, List.tail_cons]⟩) s

theorem boxes_receiveInterrupt : (s.receiveInterrupt p note).boxes = s.boxes :=
  (serve_keeps boxes (fun _ => boxes_discardTraces) _).trans
    ((serve_keeps boxes (fun _ => boxes_fetchEvents) _).trans
      (serve_keeps boxes (fun _ => boxes_fetchEvents) s))

theorem boxes_releaseAcknowledged : (s.releaseAcknowledged note).boxes = s.boxes := by
  rw [releaseAcknowledged]
  split
  · rfl
  · split <;> rfl

theorem boxes_transmitInterrupt : (s.transmitInterrupt p note).boxes = s.boxes :=
  (serve_keeps boxes (f := aclAcknowledged note) (fun _ => rfl) _).trans
    ((serve_keeps boxes (fun _ => boxes_releaseAcknowledged) _).trans
      (serve_keeps boxes (f := systemAnswered p note) (fun _ => rfl) s))

theorem boxes_reclaim : s.reclaim.boxes = s.boxes := by
  rw [reclaim]
  split <;> rfl

theorem boxes_deliver (q : Queue) (kind : PacketKind) (code : UInt8) (data : List UInt8)
    (c : Channel) : (s.deliver p q kind code data c).boxes = s.boxes := by
  rw [deliver]
  split
  · rfl
  · split <;> rfl

theorem length_boxes_takeEvent (i : Nat) :
    (s.takeEvent note e i).boxes.length = s.boxes.length := by
  rw [takeEvent]
  split
  · rfl
  · rw [length_boxes_setBox]
    exact length_boxes_releaseBox

theorem length_boxes_moveBox (i j : Nat) :
    (s.moveBox note i j).boxes.length = s.boxes.length := by
  rw [moveBox]
  split
  · rfl
  · rw [length_boxes_setBox, length_boxes_setBox, length_boxes_releaseBox]

end Account

/-! ### Legal lists -/

namespace Operation

/-- How many boxes there are after an operation. -/
def boxCount : Operation → Nat → Nat
  | newBox, k | constructBox _, k => k + 1
  | destroyBox _, k => k - 1
  | _, k => k

/-- Each operation names boxes that exist when its turn comes. -/
def Legal : Nat → List Operation → Prop
  | _, [] => True
  | k, op :: ops => (∀ i ∈ op.boxes, i < k) ∧ Legal (op.boxCount k) ops

instance : (k : Nat) → (ops : List Operation) → Decidable (Legal k ops)
  | _, [] => .isTrue trivial
  | k, op :: ops =>
    have : Decidable (Legal (op.boxCount k) ops) := instDecidableLegal _ ops
    inferInstanceAs (Decidable (_ ∧ _))

theorem length_boxes_apply {p : Placement} {sw : Switches} {note : Event → σ → σ} {s : Account σ}
    (hp : p.Valid) (op : Operation) (hop : ∀ i ∈ op.boxes, i < s.boxes.length) :
    (op.apply p sw note s).boxes.length = op.boxCount s.boxes.length := by
  cases op with
  | deliverEvent code data => exact congrArg List.length (Account.boxes_deliver _ _ _ _ _)
  | deliverSystemEvent code data => exact congrArg List.length (Account.boxes_deliver _ _ _ _ _)
  | deliverTrace data =>
    rw [apply]
    split
    · exact congrArg List.length (Account.boxes_deliver _ _ _ _ _)
    · rfl
  | reclaim => exact congrArg List.length Account.boxes_reclaim
  | takeCommand => exact congrArg List.length (Account.idle_takePacket (p := p) _).boxes
  | takeAcl => exact congrArg List.length (Account.idle_takePacket (p := p) _).boxes
  | answerSystemCommand status =>
    exact congrArg List.length (Account.idle_answerSystemCommand hp status).boxes
  | writeCommandStatus status opcode => rfl
  | receiveInterrupt => exact congrArg List.length Account.boxes_receiveInterrupt
  | transmitInterrupt => exact congrArg List.length Account.boxes_transmitInterrupt
  | fetchEvents e => exact congrArg List.length Account.boxes_fetchEvents
  | releaseAcknowledged => exact congrArg List.length Account.boxes_releaseAcknowledged
  | sendCommandSerial bytes =>
    exact congrArg List.length (Account.idle_sendCommandSerial hp bytes).boxes
  | sendCommand opcode parameters =>
    exact congrArg List.length (Account.idle_sendCommand hp opcode parameters).boxes
  | sendAclSerial bytes => exact congrArg List.length (Account.idle_sendAclSerial hp bytes).boxes
  | sendAcl handle data => exact congrArg List.length (Account.idle_sendAcl hp handle data).boxes
  | sendSystemCommand opcode parameters =>
    exact congrArg List.length (Account.idle_sendSystemCommand hp opcode parameters).boxes
  | takeEvent e i => exact Account.length_boxes_takeEvent i
  | releaseBox i => exact Account.length_boxes_releaseBox
  | moveBox i j => exact Account.length_boxes_moveBox i j
  | newBox => exact List.length_append
  | constructBox i =>
    rw [apply, Account.constructBox, Account.addBox, List.length_append,
      Account.length_boxes_setBox]
    rfl
  | destroyBox i =>
    have hi : i < (s.releaseBox note i).boxes.length := by
      rw [Account.length_boxes_releaseBox]
      exact hop i List.mem_cons_self
    rw [apply, Account.destroyBox, Account.eraseBox, List.length_eraseIdx_of_lt hi,
      Account.length_boxes_releaseBox]
    rfl

end Operation

namespace Run

variable {p : Placement} {sw : Switches} {note : Event → σ → σ} {b₀ b : Board σ}
  {ts : List (Transition σ)}

/-- A run goes on with every legal list of operations. -/
theorem exists_append (hp : p.Valid) (hboxes : ∀ x ∈ b₀.boxes, x = Box.empty) :
    ∀ (ops : List Operation) {ts b}, Run p sw note b₀ ts b → Operation.Legal b.boxes.size ops →
      (.receiveInterrupt ∈ ops → sw.traces = true) →
      ∃ ts' b', Run p sw note b₀ (ts ++ ts') b' ∧ ts'.map (·.operation) = ops
  | [], ts, b, h, _, _ => ⟨[], b, by rwa [List.append_nil], rfl⟩
  | op :: ops, ts, b, h, ⟨hop, hlegal⟩, htraces => by
    obtain ⟨s, hshows, hperm⟩ := h.exists_shows hp hboxes
    obtain ⟨b₁, hrun, h₁⟩ := hshows.run note (Account.proper_of_perm hperm) op
      fun heq _ => htraces (heq ▸ List.mem_cons_self)
    have hsize : b₁.boxes.size = op.boxCount b.boxes.size := by
      rw [hshows.size_boxes] at hop
      rw [h₁.size_boxes, hshows.size_boxes, Operation.length_boxes_apply hp op hop]
    rw [← hsize] at hlegal
    obtain ⟨ts', b', h', hops⟩ := exists_append hp hboxes ops (h.step hop hrun) hlegal
      fun hmem => htraces (List.mem_cons_of_mem _ hmem)
    rw [List.append_assoc, List.singleton_append] at h'
    exact ⟨_, b', h', by rw [List.map_cons, hops]⟩

/-- **Every legal list of operations runs to its end.** Only traces that are switched off must not
interrupt the host. -/
theorem exists_of_legal (hp : p.Valid) (hboxes : ∀ x ∈ b₀.boxes, x = Box.empty)
    {ops : List Operation} (hops : Operation.Legal b₀.boxes.size ops)
    (htraces : .receiveInterrupt ∈ ops → sw.traces = true) :
    ∃ ts b, Run p sw note b₀ ts b ∧ ts.map (·.operation) = ops := by
  obtain ⟨b, hrun, hshows⟩ := Board.start_shows hp sw b₀ hboxes
  have hsize : b.boxes.size = b₀.boxes.size := by
    rw [hshows.size_boxes, Account.booted, List.length_replicate]
  rw [← hsize] at hops
  exact exists_append hp hboxes ops (.boot hrun) hops htraces

end Run

end InterCore
