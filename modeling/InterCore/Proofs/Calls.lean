import InterCore.Demo
import InterCore.Proofs.Readings
import InterCore.Proofs.Scripts
import InterCore.Proofs.Steps.Effects

/-!
# Calls

A run knows the operations that two well-behaved cores use. The application can do more: it can call
the handler of an acknowledgement or of the traces by itself, hand waiting buffers over without a
ring, or give back a buffer that was in no place. And an interrupt may come between any two rounds
of a loop. With these as steps too, what holds on every board also holds between two rounds.

## Main definitions

* `Call`: an operation, a handler by itself, or a single round of a loop.
* `Call.Permitted`: the boxes of a call exist, and a buffer that it gives back is in no place.
* `Calls`: the boards that follow a boot, with the calls that lead there.

## Main results

* `Board.Shows.call`: every call does to the board what it does to the account.
* `Account.drops_effect`, `Account.call_effect`: what a call does to the facets of an account.
* `Calls.invariant`, `Calls.invariant_of`: what every call keeps holds after all of them.
-/

namespace InterCore

variable {σ : Type}

/-- Something that is done to a board. -/
inductive Call where
  | operation (op : Operation)
  | systemAnswered
  | aclAcknowledged
  | discardTraces
  /-- Hand every waiting buffer over without a ring. -/
  | flush
  /-- Give a buffer back that is in no place. -/
  | giveBack (n : NodeIndex)
  /-- One round of the loop that fetches events. -/
  | fetchOne (e : Endpoint)
  /-- One round of the loop that discards traces. -/
  | discardOne
  deriving DecidableEq, Repr

/-- The buffers that an operation may fill, empty or take notice of. -/
def Operation.outlets : Operation → List Outlet
  | sendCommandSerial _ | sendCommand _ _ | takeCommand => [.command]
  | sendAclSerial _ | sendAcl _ _ | takeAcl => [.acl]
  | sendSystemCommand _ _ | answerSystemCommand _ => [.system]
  | transmitInterrupt => [.system, .acl]
  | _ => []

namespace Call

/-- The boxes of a call exist, and a buffer that it gives back is in no place. -/
def Permitted (b : Board σ) : Call → Prop
  | operation op => ∀ i ∈ op.boxes, i < b.boxes.size
  | giveBack n => n ∈ slots ∧ some n ∉ b.places
  | _ => True

instance (b : Board σ) : (c : Call) → Decidable (c.Permitted b)
  | operation op => inferInstanceAs (Decidable (∀ i ∈ op.boxes, i < b.boxes.size))
  | giveBack n => inferInstanceAs (Decidable (n ∈ slots ∧ some n ∉ b.places))
  | systemAnswered | aclAcknowledged | discardTraces | flush | fetchOne _ | discardOne =>
    .isTrue trivial

/-- The program of a call. -/
def run (observer : Observer σ) : Call → BoardM σ Answer
  | operation op => op.run observer
  | systemAnswered => .ofUnit <$> Host.systemAnswered observer
  | aclAcknowledged => .ofUnit <$> Host.aclAcknowledged observer
  | discardTraces => .ofUnit <$> Host.discardTraces observer
  | flush => .count <$> Host.flush
  | giveBack n => .ofUnit <$> Host.giveBack observer n
  | fetchOne e => .flag <$> Host.fetchOne observer e
  | discardOne => .flag <$> Host.discardOne observer

/-- The call gives a buffer back that was in no place. -/
def gives : Call → Bool
  | giveBack _ => true
  | _ => false

/-- The call takes trace records. -/
def drainsTraces (panel : Panel) : Call → Bool
  | operation .receiveInterrupt => (panel.get .traces).rxPending
  | discardTraces | discardOne => true
  | _ => false

/-- The buffers that a call may fill, empty or take notice of. -/
def outlets : Call → List Outlet
  | operation op => op.outlets
  | systemAnswered => [.system]
  | aclAcknowledged => [.acl]
  | _ => []

/-- What a call does to given-back buffers. -/
def releases : Call → Release → Release → Prop
  | operation .reclaim => fun r r' => r' = r.reclaim
  | flush => fun r r' => r' = r.handOver
  | _ => Release.Steps

/-- All that a call does to given-back buffers is to give some back. -/
def onlyDrops : Call → Bool
  | operation .reclaim | operation .transmitInterrupt | operation .releaseAcknowledged | flush =>
    false
  | _ => true

theorem releases_of_onlyDrops {c : Call} (hc : c.onlyDrops = true) :
    c.releases = Release.Steps := by
  cases c with
  | operation op => cases op <;> first | rfl | exact absurd hc Bool.false_ne_true
  | flush => exact absurd hc Bool.false_ne_true
  | systemAnswered | aclAcknowledged | discardTraces | giveBack | fetchOne | discardOne => rfl

theorem cases_of_not_onlyDrops {c : Call} (hc : ¬ c.onlyDrops = true) :
    c = .operation .reclaim ∨ c = .operation .transmitInterrupt ∨
      c = .operation .releaseAcknowledged ∨ c = .flush := by
  cases c with
  | operation op => cases op <;> first | exact absurd rfl hc | simp
  | flush => simp
  | systemAnswered | aclAcknowledged | discardTraces | giveBack | fetchOne | discardOne =>
    exact absurd rfl hc

/-- Unless buffers are handed over without a ring, only the peer does to given-back buffers what
the host does not. -/
theorem releases_cases {c : Call} (hc : c ≠ .flush) {r r' : Release} (h : c.releases r r') :
    (c = .operation .reclaim ∧ r' = r.reclaim) ∨
      (c ≠ .operation .reclaim ∧ Release.Steps r r') := by
  by_cases hreclaim : c = .operation .reclaim
  · subst hreclaim
    exact .inl ⟨rfl, h⟩
  · refine .inr ⟨hreclaim, ?_⟩
    cases c with
    | operation op => cases op <;> first | exact h | exact absurd rfl hreclaim
    | flush => exact absurd rfl hc
    | systemAnswered | aclAcknowledged | discardTraces | giveBack | fetchOne | discardOne => exact h

section Releases

variable {c : Call} {r r' : Release} (hc : c ≠ .flush) (h : c.releases r r')
include hc h

/-- Calls leave nothing without a wake-up. -/
theorem armed (hr : r.Armed) : r'.Armed := by
  rcases releases_cases hc h with ⟨-, rfl⟩ | ⟨-, hsteps⟩
  · exact hr.reclaim
  · exact hsteps.armed hr

/-- Calls lose no ring and make none without cause. -/
theorem exact {found : Nat} (hr : r.Exact found) :
    r'.Exact (found + (c = .operation .reclaim && r.bell.hostFlag : Bool).toNat) := by
  rcases releases_cases hc h with ⟨rfl, rfl⟩ | ⟨hne, hsteps⟩
  · rw [decide_eq_true rfl, Bool.true_and]
    exact hr.reclaim
  · rw [decide_eq_false hne, Bool.false_and]
    exact hsteps.exact hr

/-- Calls that find the flag set keep the shared free queue, unless the peer takes from it. -/
theorem held (hreclaim : c ≠ .operation .reclaim) (hflag : r.bell.hostFlag = true) :
    r'.free = r.free := by
  rcases releases_cases hc h with ⟨heq, -⟩ | ⟨-, hsteps⟩
  · exact absurd heq hreclaim
  · exact (hsteps.held hflag).1

end Releases

section Accounts

variable (p : Placement) (sw : Switches) (note : Event → σ → σ) (s : Account σ)

/-- What a call does to an account. -/
def apply : Call → Account σ
  | operation op => op.apply p sw note s
  | systemAnswered => s.systemAnswered p note
  | aclAcknowledged => s.aclAcknowledged note
  | discardTraces => s.discardTraces p note
  | flush => s.handOver
  | giveBack n => s.giveBack note n
  | fetchOne e =>
    match s.line (.shared e.queue) with
    | [] => s
    | n :: _ => s.fetchOne p note e n
  | discardOne =>
    match s.line (.shared .traces) with
    | [] => s
    | n :: _ => s.discardOne p note n

/-- What a call answers. -/
def answer : Call → Answer
  | operation op => op.answer p sw s
  | flush => .count (s.line .waiting).length
  | fetchOne e => .flag !(s.line (.shared e.queue)).isEmpty
  | discardOne => .flag !(s.line (.shared .traces)).isEmpty
  | _ => .done

end Accounts

end Call

/-! ### One call -/

namespace Board.Shows

variable {p : Placement} {sw : Switches} {note : Event → σ → σ} {b b' : Board σ} {s : Account σ}
  (h : b.Shows p sw s) (hs : s.Proper [])
include h hs

/-- A buffer that is in no place may be on its way. -/
theorem proper_of_not_mem {n : NodeIndex} (hn : n ∈ slots) (hplaces : some n ∉ b.places) :
    s.Proper [n] := by
  rw [h.places_eq, List.mem_map_of_injective (Option.some_injective _)] at hplaces
  refine List.Nodup.subperm (List.nodup_cons.mpr ⟨hplaces, hs.nodup⟩) fun m hm => ?_
  rcases List.mem_cons.mp hm with rfl | hm
  · exact hn
  · exact hs.mem_slots hm

/-- **Every call does to the board what it does to the account.** -/
theorem call (c : Call) (hc : c.Permitted b)
    (htraces : c.drainsTraces b.panel = true → sw.traces = true) :
    Yields p sw (c.run (Observer.passive note)) b (c.answer p sw s) (c.apply p sw note s) := by
  cases c with
  | operation op =>
    refine h.run note hs op fun hop hpending => htraces ?_
    rwa [hop, Call.drainsTraces, h.panel]
  | systemAnswered => exact (h.systemAnswered note).map _
  | aclAcknowledged => exact (h.aclAcknowledged note).map _
  | discardTraces => exact (h.discardTraces note (htraces rfl) hs).map _
  | flush => exact h.flush.map _
  | giveBack n => exact (h.giveBack note (h.proper_of_not_mem hs hc.1 hc.2)).map _
  | fetchOne e =>
    rw [Call.apply, Call.answer]
    cases hl : s.line (.shared e.queue) with
    | nil => exact (h.fetchOne_nil note hl).map _
    | cons n xs => exact (h.fetchOne note hs hl).map _
  | discardOne =>
    rw [Call.apply, Call.answer]
    cases hl : s.line (.shared .traces) with
    | nil => exact (h.discardOne_nil note (htraces rfl) hl).map _
    | cons n xs => exact (h.discardOne note (htraces rfl) hs hl).map _

/-- A call that finished did what it does to the account. -/
theorem of_call {c : Call} (hc : c.Permitted b) {r : Answer}
    (hrun : (c.run (Observer.passive note)).run b = .ok r b') :
    r = c.answer p sw s ∧ b'.Shows p sw (c.apply p sw note s) := by
  by_cases htraces : c.drainsTraces b.panel = true → sw.traces = true
  · exact (h.call hs c hc htraces).of_run hrun
  · rw [Classical.not_imp, Bool.not_eq_true] at htraces
    have hround := h.discardOne_halts note htraces.2
    cases c with
    | operation op => exact h.of_run hs hrun
    | discardTraces =>
      have hhalts : (Host.discardTraces (Observer.passive note)).run b = .error .strayLink b :=
        run_bind_error (run_countRounds_of_error b (stepLimit - 1) 0 hround)
      rw [Call.run, map_eq_pure_bind, run_bind_error hhalts] at hrun
      cases hrun
    | discardOne =>
      rw [Call.run, map_eq_pure_bind, run_bind_error hround] at hrun
      cases hrun
    | systemAnswered | aclAcknowledged | flush | giveBack | fetchOne =>
      exact absurd htraces.1 Bool.false_ne_true

end Board.Shows

namespace Account

variable {p : Placement} {sw : Switches} {note : Event → σ → σ} {b : Board σ} {s : Account σ}

/-- No call but giving back a buffer from nowhere adds a buffer to the places, and none takes one
out. -/
theorem places_call (hp : p.Valid) (c : Call)
    (hop : ∀ op, c = .operation op → ∀ i ∈ op.boxes, i < s.boxes.length)
    (hgive : ∀ n, c ≠ .giveBack n) : (c.apply p sw note s).places.Perm s.places := by
  cases c with
  | operation op => exact places_apply hp op (hop op rfl)
  | systemAnswered => exact places_systemAnswered
  | aclAcknowledged => exact places_aclAcknowledged
  | discardTraces => exact places_discardTraces
  | flush => exact places_handOver
  | giveBack n => exact absurd rfl (hgive n)
  | fetchOne e =>
    rw [Call.apply]
    split
    · exact .refl _
    · next n xs hl => exact places_fetchOne hl
  | discardOne =>
    rw [Call.apply]
    split
    · exact .refl _
    · next n xs hl => exact places_discardOne hl

/-- The boxes of a call exist in the account. -/
theorem lt_length_of_permitted (h : b.Shows p sw s) {c : Call} (hc : c.Permitted b)
    (op : Operation) (hop : c = .operation op) : ∀ i ∈ op.boxes, i < s.boxes.length := by
  subst hop
  intro i hi
  rw [← h.size_boxes]
  exact hc i hi

theorem proper_call (hp : p.Valid) (h : b.Shows p sw s) (hs : s.Proper []) {c : Call}
    (hc : c.Permitted b) : (c.apply p sw note s).Proper [] := by
  by_cases hgive : ∀ n, c ≠ .giveBack n
  · exact hs.of_perm (places_call hp c (lt_length_of_permitted h hc) hgive)
  · simp only [ne_eq, not_forall, not_not] at hgive
    obtain ⟨n, rfl⟩ := hgive
    exact (h.proper_of_not_mem hs hc.1 hc.2).of_perm places_giveBack

/-- **What a call does to the facets of an account** whose part in given-back buffers is to give
some back. -/
theorem drops_effect {R : Release → Release → Prop} [Release.CoversDrops R] (sw : Switches)
    (note : Event → σ → σ) (hp : p.Valid) (hs : s.Proper []) {c : Call}
    (hc : c.onlyDrops = true) : Effect p R c.outlets s (c.apply p sw note s) := by
  cases c with
  | operation op =>
    cases op with
    | deliverEvent code data => exact effect_deliver hp hs (.events .ble) _ _ _
    | deliverSystemEvent code data => exact effect_deliver hp hs (.events .system) _ _ _
    | deliverTrace data =>
      rw [Call.apply, Operation.apply]
      split
      · exact effect_deliver hp hs .traces _ _ _
      · exact .refl p _ s
    | takeCommand => exact effect_takePacket (o := .command) List.mem_cons_self
    | takeAcl => exact effect_takePacket (o := .acl) List.mem_cons_self
    | answerSystemCommand status => exact effect_answerSystemCommand hp List.mem_cons_self status
    | writeCommandStatus status opcode => exact effect_writeCommandStatus hp status opcode
    | receiveInterrupt => exact effect_receiveInterrupt
    | fetchEvents e => exact effect_fetchEvents
    | sendCommandSerial bytes => exact effect_sendCommandSerial hp List.mem_cons_self bytes
    | sendCommand opcode parameters =>
      exact effect_sendCommand hp List.mem_cons_self opcode parameters
    | sendAclSerial bytes => exact effect_sendAclSerial hp List.mem_cons_self bytes
    | sendAcl handle data => exact effect_sendAcl hp List.mem_cons_self handle data
    | sendSystemCommand opcode parameters =>
      exact effect_sendSystemCommand hp List.mem_cons_self opcode parameters
    | takeEvent e i => exact effect_takeEvent
    | releaseBox i => exact effect_releaseBox
    | moveBox i j => exact effect_moveBox
    | newBox => exact effect_addBox none
    | constructBox i => exact effect_constructBox
    | destroyBox i => exact effect_destroyBox
    | reclaim | transmitInterrupt | releaseAcknowledged => exact absurd hc Bool.false_ne_true
  | systemAnswered => exact effect_systemAnswered List.mem_cons_self
  | aclAcknowledged => exact effect_aclAcknowledged List.mem_cons_self
  | discardTraces => exact effect_discardTraces
  | flush => exact absurd hc Bool.false_ne_true
  | giveBack n => exact effect_giveBack
  | fetchOne e =>
    rw [Call.apply]
    split
    · exact .refl p _ s
    · next n xs hl => exact effect_fetchOne hl
  | discardOne =>
    rw [Call.apply]
    split
    · exact .refl p _ s
    · next n xs hl => exact effect_discardOne hl

/-- **What a call does to the facets of an account.** -/
theorem call_effect (sw : Switches) (note : Event → σ → σ) (hp : p.Valid) (hs : s.Proper [])
    (c : Call) : Effect p c.releases c.outlets s (c.apply p sw note s) := by
  by_cases hc : c.onlyDrops = true
  · rw [Call.releases_of_onlyDrops hc]
    exact drops_effect sw note hp hs hc
  · rcases Call.cases_of_not_onlyDrops hc with rfl | rfl | rfl | rfl
    · exact effect_reclaim
    · exact effect_transmitInterrupt List.mem_cons_self
        (List.mem_cons_of_mem _ List.mem_cons_self)
    · exact effect_releaseAcknowledged
    · exact effect_handOver

end Account

/-! ### Many calls -/

/-- A boot leaves the half of every channel that the host rings as it was. -/
theorem Panel.outbound_booted (sw : Switches) (panel : Panel) (c : Channel) :
    ((panel.booted sw).get c).outbound = (panel.get c).outbound := by
  have hevents : ∀ on, (((panel.modify .bleEvent (·.enableRx true)).modify .systemEvent
      (·.enableRx on)).get c).outbound = (panel.get c).outbound := fun on =>
    (modify_keeps (Bell.outbound_enableRx on)).trans (modify_keeps (Bell.outbound_enableRx true))
  rw [booted]
  split
  · exact (modify_keeps (Bell.outbound_enableRx true)).trans (hevents _)
  · exact hevents _

/-- One call of many. -/
structure Turn (σ : Type) where
  before : Board σ
  call : Call
  answer : Answer
  after : Board σ

/-- After a boot of both cores, permitted calls lead to a board. -/
inductive Calls (p : Placement) (sw : Switches) (note : Event → σ → σ) (b₀ : Board σ) :
    List (Turn σ) → Board σ → Prop
  | boot {b : Board σ} (hrun : (Board.start p sw).run b₀ = .ok () b) : Calls p sw note b₀ [] b
  | step {ts : List (Turn σ)} {b b' : Board σ} {c : Call} {r : Answer}
      (hbefore : Calls p sw note b₀ ts b) (hc : c.Permitted b)
      (hrun : (c.run (Observer.passive note)).run b = .ok r b') :
      Calls p sw note b₀ (ts ++ [⟨b, c, r, b'⟩]) b'

/-- Turns are counted one at a time. -/
theorem Turn.countP_append (ts : List (Turn σ)) (t : Turn σ) (f : Turn σ → Bool) :
    (ts ++ [t]).countP f = ts.countP f + (f t).toNat := by
  rw [List.countP_append, List.countP_singleton]
  cases f t <;> rfl

theorem Turn.call_ne {ts : List (Turn σ)} {cs : List Call} (h : ts.map (·.call) = cs) {c : Call}
    (hc : c ∉ cs) : ∀ t ∈ ts, t.call ≠ c := by
  rintro t ht rfl
  exact hc (h ▸ List.mem_map_of_mem ht)

/-- A step of a run is a call. -/
def Transition.turn (t : Transition σ) : Turn σ :=
  ⟨t.before, .operation t.operation, t.answer, t.after⟩

variable {p : Placement} {sw : Switches} {note : Event → σ → σ} {b₀ b : Board σ}

/-- Every run is made of calls. -/
theorem Run.calls {ts : List (Transition σ)} (h : Run p sw note b₀ ts b) :
    Calls p sw note b₀ (ts.map Transition.turn) b := by
  induction h with
  | boot hrun => exact .boot hrun
  | step _ hop hrun ih =>
    rw [List.map_append, List.map_singleton]
    exact ih.step hop hrun

namespace Calls

variable {ts : List (Turn σ)}

/-- **What every call keeps holds after all of them.** Every board shows an account in which no
buffer is in two places. -/
theorem invariant (hp : p.Valid) (hboxes : ∀ x ∈ b₀.boxes, x = Box.empty)
    {I : List (Turn σ) → Account σ → Prop}
    (hboot : ∀ m, I [] (Account.booted m (b₀.panel.booted sw) b₀.boxes.size b₀.sink))
    (hstep : ∀ ts b s c b', I ts s → b.Shows p sw s → s.Proper [] → c.Permitted b →
      b'.Shows p sw (c.apply p sw note s) →
      I (ts ++ [⟨b, c, c.answer p sw s, b'⟩]) (c.apply p sw note s))
    (h : Calls p sw note b₀ ts b) : ∃ s, b.Shows p sw s ∧ s.Proper [] ∧ I ts s := by
  induction h with
  | boot hrun =>
    obtain ⟨b', hrun', hshows⟩ := Board.start_shows hp sw b₀ hboxes
    rw [hrun'] at hrun
    injection hrun with _ hb
    exact ⟨_, hb ▸ hshows, Account.proper_of_perm (Account.places_booted _ _ _ _), hboot _⟩
  | step hbefore hc hrun ih =>
    obtain ⟨s, hshows, hs, hI⟩ := ih
    obtain ⟨rfl, hshows'⟩ := hshows.of_call hs hc hrun
    exact ⟨_, hshows', Account.proper_call hp hshows hs hc,
      hstep _ _ _ _ _ hI hshows hs hc hshows'⟩

/-- The same for calls of which `Q` holds, with what each of them does by itself. -/
theorem invariant_of (hp : p.Valid) (hboxes : ∀ x ∈ b₀.boxes, x = Box.empty)
    {I : List (Turn σ) → Account σ → Prop} {P Q : Turn σ → Prop}
    (hboot : ∀ m, I [] (Account.booted m (b₀.panel.booted sw) b₀.boxes.size b₀.sink))
    (hstep : ∀ ts b s c b', I ts s → b.Shows p sw s → s.Proper [] → c.Permitted b →
      b'.Shows p sw (c.apply p sw note s) → Q ⟨b, c, c.answer p sw s, b'⟩ →
      I (ts ++ [⟨b, c, c.answer p sw s, b'⟩]) (c.apply p sw note s) ∧
        P ⟨b, c, c.answer p sw s, b'⟩)
    (h : Calls p sw note b₀ ts b) (hQ : ∀ t ∈ ts, Q t) :
    ∃ s, b.Shows p sw s ∧ s.Proper [] ∧ I ts s ∧ ∀ t ∈ ts, P t := by
  obtain ⟨s, hshows, hs, hI⟩ := h.invariant hp hboxes
    (I := fun ts s => (∀ t ∈ ts, Q t) → I ts s ∧ ∀ t ∈ ts, P t)
    (fun m _ => ⟨hboot m, fun _ ht => absurd ht List.not_mem_nil⟩)
    fun ts b s c b' hI hshows hs hc hshows' hQ => by
      obtain ⟨hQ, hlast⟩ := List.forall_mem_append.mp hQ
      obtain ⟨hI, hP⟩ := hI hQ
      obtain ⟨hI', hP'⟩ :=
        hstep ts b s c b' hI hshows hs hc hshows' (List.forall_mem_singleton.mp hlast)
      exact ⟨hI', List.forall_mem_append.mpr ⟨hP, List.forall_mem_singleton.mpr hP'⟩⟩
  exact ⟨s, hshows, hs, hI hQ⟩

/-- Every board shows an account in which no buffer is in two places. -/
theorem exists_shows (hp : p.Valid) (hboxes : ∀ x ∈ b₀.boxes, x = Box.empty)
    (h : Calls p sw note b₀ ts b) : ∃ s, b.Shows p sw s ∧ s.Proper [] := by
  obtain ⟨s, hshows, hs, -⟩ := h.invariant hp hboxes (I := fun _ _ => True)
    (fun _ => trivial) fun _ _ _ _ _ _ _ _ _ _ => trivial
  exact ⟨s, hshows, hs⟩

/-- Every legal list of operations can be called. -/
theorem exists_of_legal (hp : p.Valid) (hboxes : ∀ x ∈ b₀.boxes, x = Box.empty)
    {ops : List Operation} (hops : Operation.Legal b₀.boxes.size ops)
    (htraces : .receiveInterrupt ∈ ops → sw.traces = true) :
    ∃ ts b, Calls p sw note b₀ ts b ∧ ts.map (·.call) = ops.map .operation := by
  obtain ⟨ts, b, hrun, rfl⟩ := @Run.exists_of_legal σ p sw note b₀ hp hboxes ops hops htraces
  exact ⟨_, b, hrun.calls, by rw [List.map_map, List.map_map]; rfl⟩

end Calls

/-! ### Sessions -/

theorem Demo.outbound_blank (c : Channel) : (blank.panel.get c).outbound = {} := by
  rw [blank, Panel.get_reset]
  rfl

/-- The board that a program leaves, if it finishes. -/
def Board.leftBy {α : Type} : EStateM.Result Halt (Board σ) α → Option (Board σ)
  | .ok _ b => some b
  | .error _ _ => none

theorem Board.exists_of_leftBy {α : Type} {x : EStateM.Result Halt (Board σ) α} {b : Board σ}
    (h : leftBy x = some b) : ∃ r, x = .ok r b := by
  cases x with
  | ok r b' => exact ⟨r, by rw [Option.some.inj h]⟩
  | error e b' => cases h

namespace Call

/-- The board after some calls, if each is permitted and none halts. -/
def follow (observer : Observer σ) : List Call → Board σ → Option (Board σ)
  | [], b => some b
  | c :: cs, b =>
    if c.Permitted b then (Board.leftBy ((c.run observer).run b)).bind (follow observer cs)
    else none

/-- The turns of some calls and the board after them, if each call is permitted and none halts. -/
def replay (observer : Observer σ) : List Call → Board σ → Option (List (Turn σ) × Board σ)
  | [], b => some ([], b)
  | c :: cs, b =>
    if c.Permitted b then
      match (c.run observer).run b with
      | .ok r b' => (replay observer cs b').map fun x => (⟨b, c, r, b'⟩ :: x.1, x.2)
      | .error _ _ => none
    else none

/-- The board after a boot and some calls. -/
def session (p : Placement) (sw : Switches) (note : Event → σ → σ) (cs : List Call)
    (b₀ : Board σ) : Option (Board σ) :=
  (Board.leftBy ((Board.start p sw).run b₀)).bind (follow (Observer.passive note) cs)

/-- The turns after a boot. -/
def turns (p : Placement) (sw : Switches) (note : Event → σ → σ) (cs : List Call)
    (b₀ : Board σ) : Option (List (Turn σ) × Board σ) :=
  (Board.leftBy ((Board.start p sw).run b₀)).bind (replay (Observer.passive note) cs)

end Call

namespace Calls

variable {ts : List (Turn σ)} {b' : Board σ} {cs : List Call}

theorem follow (h : Calls p sw note b₀ ts b)
    (hfollow : Call.follow (Observer.passive note) cs b = some b') :
    ∃ ts', Calls p sw note b₀ (ts ++ ts') b' ∧ ts'.map (·.call) = cs := by
  induction cs generalizing ts b with
  | nil =>
    obtain rfl := Option.some.inj hfollow
    exact ⟨[], by rwa [List.append_nil], rfl⟩
  | cons c cs ih =>
    rw [Call.follow, Option.ite_none_right_eq_some, Option.bind_eq_some_iff] at hfollow
    obtain ⟨hc, b₁, hleft, hrest⟩ := hfollow
    obtain ⟨r, hrun⟩ := Board.exists_of_leftBy hleft
    obtain ⟨ts', h', hcalls⟩ := ih (h.step hc hrun) hrest
    rw [List.append_assoc, List.singleton_append] at h'
    exact ⟨_, h', by rw [List.map_cons, hcalls]⟩

/-- A session is made of its calls. -/
theorem of_session (h : Call.session p sw note cs b₀ = some b) :
    ∃ ts, Calls p sw note b₀ ts b ∧ ts.map (·.call) = cs := by
  obtain ⟨b₁, hleft, hfollow⟩ := Option.bind_eq_some_iff.mp h
  obtain ⟨r, hrun⟩ := Board.exists_of_leftBy hleft
  exact (Calls.boot hrun).follow hfollow

theorem replay {ts' : List (Turn σ)} (h : Calls p sw note b₀ ts b)
    (hreplay : Call.replay (Observer.passive note) cs b = some (ts', b')) :
    Calls p sw note b₀ (ts ++ ts') b' ∧ ts'.map (·.call) = cs := by
  induction cs generalizing ts ts' b with
  | nil =>
    obtain ⟨rfl, rfl⟩ := Prod.mk.inj (Option.some.inj hreplay)
    exact ⟨by rwa [List.append_nil], rfl⟩
  | cons c cs ih =>
    rw [Call.replay, Option.ite_none_right_eq_some] at hreplay
    obtain ⟨hc, hreplay⟩ := hreplay
    split at hreplay
    · next r b₁ hrun =>
      obtain ⟨⟨ts₁, b₂⟩, hrest, heq⟩ := Option.map_eq_some_iff.mp hreplay
      obtain ⟨rfl, rfl⟩ := Prod.mk.inj heq
      obtain ⟨h', hcalls⟩ := ih (h.step hc hrun) hrest
      rw [List.append_assoc, List.singleton_append] at h'
      exact ⟨h', by rw [List.map_cons, hcalls]⟩
    · cases hreplay

/-- The turns of a session. -/
theorem of_turns (h : Call.turns p sw note cs b₀ = some (ts, b)) :
    Calls p sw note b₀ ts b ∧ ts.map (·.call) = cs := by
  obtain ⟨b₁, hleft, hreplay⟩ := Option.bind_eq_some_iff.mp h
  obtain ⟨r, hrun⟩ := Board.exists_of_leftBy hleft
  exact (Calls.boot hrun).replay hreplay

end Calls

end InterCore
