import InterCore.Proofs.Wakeups

/-!
# Deliveries between the steps of a handler

The peer does not wait for the host: it may queue something while a handler of the host is at work.
A handler takes what is in the queue round by round until a round finds it empty, and clears the
flag of the peer last. Whatever is queued before the last round is taken like the rest. What is
queued between that round and the clearing stays in the queue and loses its announcement, until the
peer announces something else on the same channel.

## Main definitions

* `Feed.round`, `Feed.handler`, `Feed.deliver`: the programs of both cores around one queue.
* `Stage`: how far a handler is.
* `Interleaved`: the steps of a handler, with deliveries of the peer in between.

## Main results

* `Interleaved.of_handler`: a handler is made of these steps.
* `Stage.Holds.deliver`, `Interleaved.holds`: what a delivery keeps, and what all steps keep.
* `Calls.late_events_only`: only what is delivered late can be left unannounced.
* `Calls.late_event_stranded`: one late event is.
-/

namespace InterCore

variable {σ : Type}

/-! ### The programs around one queue -/

namespace Feed

/-- One round of the loop of a handler: take the first buffer of the queue, if there is one. -/
def round (observer : Observer σ) : Feed → BoardM σ Bool
  | events e => Host.fetchOne observer e
  | traces => Host.discardOne observer

/-- The handler that empties the queue. -/
def handler (observer : Observer σ) : Feed → BoardM σ Unit
  | events e => Host.fetchEvents observer e
  | traces => Host.discardTraces observer

/-- The peer queues something. A trace record has no code of its own. -/
def deliver (code : UInt8) (data : List UInt8) : Feed → BoardM σ Bool
  | events .ble => Peer.deliverEvent code data
  | events .system => Peer.deliverSystemEvent code data
  | traces => Peer.deliverTrace data

/-- **A handler takes what is in its queue and clears the flag last.** -/
theorem handler_eq (observer : Observer σ) (f : Feed) : f.handler observer =
    Board.drain (f.round observer) >>= fun _ => Host.acknowledge f.channel := by
  cases f <;> rfl

/-- A round, as a call. -/
def roundCall : Feed → Call
  | events e => .fetchOne e
  | traces => .discardOne

/-- A delivery, as a call. -/
def deliverCall (code : UInt8) (data : List UInt8) : Feed → Call
  | events .ble => .operation (.deliverEvent code data)
  | events .system => .operation (.deliverSystemEvent code data)
  | traces => .operation (.deliverTrace data)

variable {observer : Observer σ} {f : Feed} {b b' : Board σ} {code : UInt8} {data : List UInt8}
  {yes : Bool}

theorem run_roundCall (h : (f.round observer).run b = .ok yes b') :
    (f.roundCall.run observer).run b = .ok (.flag yes) b' := by
  cases f <;> exact Board.run_map_ok _ h

theorem run_deliverCall (h : (f.deliver code data).run b = .ok yes b') :
    ((f.deliverCall code data).run observer).run b = .ok (.flag yes) b' := by
  rcases f with (_ | _) | _ <;> exact Board.run_map_ok _ h

theorem permitted_roundCall (f : Feed) (b : Board σ) : f.roundCall.Permitted b := by
  cases f <;> exact trivial

theorem permitted_deliverCall (f : Feed) (b : Board σ) (code : UInt8) (data : List UInt8) :
    (f.deliverCall code data).Permitted b := by
  rcases f with (_ | _) | _ <;> exact fun i hi => absurd hi List.not_mem_nil

end Feed

/-! ### What the steps do to an account -/

namespace Account

variable {p : Placement} {sw : Switches} {note : Event → σ → σ} {s : Account σ} {f : Feed}
  {code : UInt8} {data : List UInt8} {yes : Bool}

theorem answer_roundCall (f : Feed) :
    f.roundCall.answer p sw s = .flag !(s.line (.shared f.queue)).isEmpty := by
  cases f <;> rfl

/-- A round that finds the queue empty does nothing. -/
theorem apply_roundCall_of_nil (h : s.line (.shared f.queue) = []) :
    f.roundCall.apply p sw note s = s := by
  cases f with
  | events e =>
    have hnil : s.line (.shared e.queue) = [] := h
    simp only [Feed.roundCall, Call.apply, hnil]
  | traces =>
    have hnil : s.line (.shared .traces) = [] := h
    simp only [Feed.roundCall, Call.apply, hnil]

theorem deliver_of_not_accepts {q : Queue} {kind : PacketKind} {c : Channel}
    (h : s.accepts data = false) : s.deliver p q kind code data c = s := by
  rw [deliver]
  split
  · rfl
  · next n ns hfree =>
    rw [accepts, hfree, List.isEmpty_cons, Bool.not_false, Bool.true_and,
      decide_eq_false_iff_not, Nat.not_le] at h
    rw [if_pos h]

/-- What is delivered joins the end of the queue and is announced. -/
theorem deliver_of_accepts {kind : PacketKind} (h : s.accepts data = true) :
    ∃ n, (s.deliver p f.queue kind code data f.channel).intake f =
      ⟨(s.intake f).line ++ [n], { (s.intake f).bell with peerFlag := true }⟩ := by
  rw [accepts, Bool.and_eq_true, Bool.not_eq_true', decide_eq_true_iff] at h
  rw [deliver]
  split
  · next hfree =>
    rw [hfree] at h
    exact absurd h.1 (by decide)
  · next n ns hfree =>
    rw [if_neg (Nat.not_lt.mpr h.2)]
    exact ⟨n, congrArg₂ Intake.mk (Function.update_self _ _ _)
      (congrArg Bell.inbound Panel.get_modify_self)⟩

/-- The peer delivers, or it does nothing. -/
theorem deliverCall_cases (h : (f.deliverCall code data).answer p sw s = .flag yes) :
    (yes = false ∧ (f.deliverCall code data).apply p sw note s = s) ∨
      (yes = true ∧ ∃ n, ((f.deliverCall code data).apply p sw note s).intake f =
        ⟨(s.intake f).line ++ [n], { (s.intake f).bell with peerFlag := true }⟩) := by
  have hevents : ∀ (q : Queue) (kind : PacketKind) (code : UInt8) (c : Channel),
      q = f.queue → c = f.channel → s.accepts data = yes →
      (yes = false ∧ s.deliver p q kind code data c = s) ∨
        (yes = true ∧ ∃ n, (s.deliver p q kind code data c).intake f =
          ⟨(s.intake f).line ++ [n], { (s.intake f).bell with peerFlag := true }⟩) := by
    rintro q kind code c rfl rfl haccepts
    cases yes with
    | false => exact .inl ⟨rfl, deliver_of_not_accepts haccepts⟩
    | true => exact .inr ⟨rfl, deliver_of_accepts haccepts⟩
  rcases f with (_ | _) | _
  · exact hevents _ _ _ _ rfl rfl (Answer.flag.inj h)
  · exact hevents _ _ _ _ rfl rfl (Answer.flag.inj h)
  · have hyes : (sw.traces && s.accepts data) = yes := Answer.flag.inj h
    rw [Feed.deliverCall, Call.apply, Operation.apply]
    cases ht : sw.traces with
    | false =>
      rw [ht, Bool.false_and] at hyes
      exact .inl ⟨hyes.symm, rfl⟩
    | true =>
      rw [ht, Bool.true_and] at hyes
      exact hevents _ _ _ _ rfl rfl hyes

end Account

/-! ### Interleavings -/

/-- How far a handler is: it still takes from the queue; or it has found the queue empty, and so
many buffers were queued since; or it has cleared the flag. -/
inductive Stage where
  | draining
  | emptied (late : Nat)
  | returned (late : Nat)
  deriving DecidableEq, Repr

/-- The stage after a delivery. -/
def Stage.deliver (accepted : Bool) : Stage → Stage
  | emptied late => emptied (late + accepted.toNat)
  | stage => stage

/-- The steps of a handler that starts on a board, with deliveries of the peer in between. -/
inductive Interleaved (note : Event → σ → σ) (f : Feed) (b : Board σ) : Stage → Board σ → Prop
  | start : Interleaved note f b .draining b
  | round {b₁ b₂ : Board σ} (h : Interleaved note f b .draining b₁)
      (hrun : (f.round (Observer.passive note)).run b₁ = .ok true b₂) :
      Interleaved note f b .draining b₂
  | empty {b₁ b₂ : Board σ} (h : Interleaved note f b .draining b₁)
      (hrun : (f.round (Observer.passive note)).run b₁ = .ok false b₂) :
      Interleaved note f b (.emptied 0) b₂
  | clear {late : Nat} {b₁ b₂ : Board σ} (h : Interleaved note f b (.emptied late) b₁)
      (hrun : (Host.acknowledge f.channel).run b₁ = .ok () b₂) :
      Interleaved note f b (.returned late) b₂
  | deliver {stage : Stage} {b₁ b₂ : Board σ} {code : UInt8} {data : List UInt8} {accepted : Bool}
      (h : Interleaved note f b stage b₁) (hrun : (f.deliver code data).run b₁ = .ok accepted b₂) :
      Interleaved note f b (stage.deliver accepted) b₂

/-- A step of a handler, or a delivery in between. -/
inductive Move where
  | round
  | clear
  | deliver (code : UInt8) (data : List UInt8)
  deriving DecidableEq, Repr

/-- What a move does in a stage, if it belongs there. -/
def Move.play (observer : Observer σ) (f : Feed) : Move → Stage → BoardM σ (Option Stage)
  | round, .draining => do
    let found ← f.round observer
    return some (if found then .draining else .emptied 0)
  | clear, .emptied late => do
    Host.acknowledge f.channel
    return some (.returned late)
  | deliver code data, stage => do
    let accepted ← f.deliver code data
    return some (stage.deliver accepted)
  | _, _ => return none

/-- The stage and the board after some moves, if each belongs where it is made and none halts. -/
def Move.playAll (observer : Observer σ) (f : Feed) :
    List Move → Stage → Board σ → Option (Stage × Board σ)
  | [], stage, b => some (stage, b)
  | move :: moves, stage, b =>
    match (move.play observer f stage).run b with
    | .ok (some stage') b' => playAll observer f moves stage' b'
    | _ => none

namespace Interleaved

variable {note : Event → σ → σ} {f : Feed} {b b' : Board σ}

/-- The rounds of a loop without deliveries. -/
theorem rounds {b₁ b₂ : Board σ} {limit counted n : Nat} (h : Interleaved note f b .draining b₁)
    (hrun : (Board.countRounds (f.round (Observer.passive note)) limit counted).run b₁ =
      .ok n b₂) : Interleaved note f b (.emptied 0) b₂ := by
  induction limit generalizing b₁ counted with
  | zero => cases hrun
  | succ limit ih =>
    cases hround : (f.round (Observer.passive note)).run b₁ with
    | error e b₃ =>
      rw [Board.run_countRounds_of_error b₁ limit counted hround] at hrun
      cases hrun
    | ok yes b₃ =>
      cases yes with
      | false =>
        rw [Board.run_countRounds_of_false b₁ limit counted hround] at hrun
        cases hrun
        exact h.empty hround
      | true =>
        rw [Board.run_countRounds_of_true b₁ limit counted hround] at hrun
        exact ih (h.round hround) hrun

/-- **A handler is made of these steps**, and without deliveries nothing is late. -/
theorem of_handler (h : (f.handler (Observer.passive note)).run b = .ok () b') :
    Interleaved note f b (.returned 0) b' := by
  rw [Feed.handler_eq] at h
  cases hdrain : (Board.drain (f.round (Observer.passive note))).run b with
  | error e b₁ =>
    rw [Board.run_bind_error hdrain] at h
    cases h
  | ok n b₁ =>
    rw [Board.run_bind_ok hdrain] at h
    exact (Interleaved.start.rounds hdrain).clear h

/-- A program that goes on purely. -/
theorem exists_of_run_map {α β : Type} {x : BoardM σ α} {g : α → β} {b₁ b₂ : Board σ} {r : β}
    (h : (x >>= fun y => Pure.pure (g y)).run b₁ = .ok r b₂) :
    ∃ y, x.run b₁ = .ok y b₂ ∧ g y = r := by
  cases hx : x.run b₁ with
  | error e b₃ =>
    rw [Board.run_bind_error hx] at h
    cases h
  | ok y b₃ =>
    rw [Board.run_bind_ok hx] at h
    cases h
    exact ⟨y, rfl, rfl⟩

/-- A move that is made where it belongs is one of these steps. -/
theorem move {stage stage' : Stage} {b₁ b₂ : Board σ} {m : Move}
    (h : Interleaved note f b stage b₁)
    (hrun : (m.play (Observer.passive note) f stage).run b₁ = .ok (some stage') b₂) :
    Interleaved note f b stage' b₂ := by
  cases m with
  | round =>
    cases stage with
    | draining =>
      obtain ⟨found, hround, hstage⟩ := exists_of_run_map hrun
      cases found with
      | false => exact Option.some.inj hstage ▸ h.empty hround
      | true => exact Option.some.inj hstage ▸ h.round hround
    | emptied late => cases hrun
    | returned late => cases hrun
  | clear =>
    cases stage with
    | draining => cases hrun
    | emptied late =>
      obtain ⟨_, hclear, hstage⟩ := exists_of_run_map hrun
      exact Option.some.inj hstage ▸ h.clear hclear
    | returned late => cases hrun
  | deliver code data =>
    obtain ⟨yes, hdeliver, hstage⟩ := exists_of_run_map hrun
    exact Option.some.inj hstage ▸ h.deliver hdeliver

theorem moves {stage stage' : Stage} {b₁ : Board σ} {ms : List Move}
    (h : Interleaved note f b stage b₁)
    (hplay : Move.playAll (Observer.passive note) f ms stage b₁ = some (stage', b')) :
    Interleaved note f b stage' b' := by
  induction ms generalizing stage b₁ with
  | nil =>
    obtain ⟨rfl, rfl⟩ := Prod.mk.inj (Option.some.inj hplay)
    exact h
  | cons m ms ih =>
    rw [Move.playAll] at hplay
    split at hplay
    · next stage₂ b₂ hrun => exact ih (h.move hrun) hplay
    · cases hplay

end Interleaved

/-- What is known of the queue in a stage. -/
def Stage.Holds (i : Intake) : Stage → Prop
  | draining => i.Announced
  | emptied late => i.line.length = late
  | returned late => i.bell.peerFlag = false → i.line.length = late

/-- What is known of the queue survives a delivery. -/
theorem Stage.Holds.deliver {i : Intake} {stage : Stage} (h : stage.Holds i) (n : NodeIndex) :
    (stage.deliver true).Holds ⟨i.line ++ [n], { i.bell with peerFlag := true }⟩ := by
  cases stage with
  | draining => exact (Intake.Step.delivered n).announced h
  | emptied late => exact (List.length_append).trans (congrArg (· + 1) h)
  | returned late => exact fun hclear => Bool.noConfusion hclear

namespace Interleaved

variable {p : Placement} {sw : Switches} {note : Event → σ → σ} {f : Feed} {b b' : Board σ}
  {s : Account σ} {stage : Stage}

/-- A round that does not halt looks into a queue that exists. -/
theorem made_of_round {b₁ : Board σ} {yes : Bool} (hshows : b.Shows p sw s)
    (hrun : (f.round (Observer.passive note)).run b = .ok yes b₁) :
    Line.shared f.queue ∈ Line.made sw.traces := by
  refine Line.mem_made_iff.mpr fun hqueue => ?_
  obtain rfl : f = .traces := Feed.queue_inj.mp (Line.shared.inj hqueue)
  by_contra ht
  have hhalts := hshows.discardOne_halts note (Bool.eq_false_of_not_eq_true ht)
  rw [Feed.round, hhalts] at hrun
  cases hrun

/-- What the steps of a handler and the deliveries in between keep. The queue exists once a round
has looked into it. -/
theorem holds (hp : p.Valid) (hshows : b.Shows p sw s) (hs : s.Proper [])
    (hannounced : (s.intake f).Announced) (h : Interleaved note f b stage b') :
    ∃ s', b'.Shows p sw s' ∧ s'.Proper [] ∧ stage.Holds (s'.intake f) ∧
      (stage ≠ .draining → Line.shared f.queue ∈ Line.made sw.traces) := by
  induction h with
  | start => exact ⟨s, hshows, hs, hannounced, fun h => absurd rfl h⟩
  | @round b₁ b₂ h hrun ih =>
    obtain ⟨s₁, h₁, hs₁, hholds, -⟩ := ih
    have hpermitted := f.permitted_roundCall b₁
    obtain ⟨-, h₂⟩ := h₁.of_call hs₁ hpermitted (Feed.run_roundCall hrun)
    exact ⟨_, h₂, Account.proper_call hp h₁ hs₁ hpermitted,
      ((Account.call_effect sw note hp hs₁ _).intake f).announced hholds, fun h => absurd rfl h⟩
  | @empty b₁ b₂ h hrun ih =>
    obtain ⟨s₁, h₁, hs₁, hholds, -⟩ := ih
    obtain ⟨hanswer, h₂⟩ := h₁.of_call hs₁ (f.permitted_roundCall b₁) (Feed.run_roundCall hrun)
    have hnil : s₁.line (.shared f.queue) = [] := by
      rw [Account.answer_roundCall, Answer.flag.injEq, eq_comm, Bool.not_eq_false',
        List.isEmpty_iff] at hanswer
      exact hanswer
    rw [Account.apply_roundCall_of_nil hnil] at h₂
    exact ⟨s₁, h₂, hs₁, congrArg List.length hnil, fun _ => made_of_round h₁ hrun⟩
  | clear h hrun ih =>
    obtain ⟨s₁, h₁, hs₁, hholds, hmade⟩ := ih
    obtain ⟨-, h₂⟩ := (h₁.modifyBell f.channel Bell.clear).of_run hrun
    exact ⟨_, h₂, hs₁, fun _ => hholds, fun _ => hmade Stage.noConfusion⟩
  | @deliver stage b₁ b₂ code data accepted h hrun ih =>
    obtain ⟨s₁, h₁, hs₁, hholds, hmade⟩ := ih
    have hpermitted := f.permitted_deliverCall b₁ code data
    have hcall := @Feed.run_deliverCall σ (Observer.passive note) f b₁ b₂ code data accepted hrun
    obtain ⟨hanswer, h₂⟩ := h₁.of_call hs₁ hpermitted hcall
    refine ⟨_, h₂, Account.proper_call hp h₁ hs₁ hpermitted, ?_, fun hstage => hmade ?_⟩
    · rcases @Account.deliverCall_cases σ p sw note s₁ f code data accepted hanswer.symm with
        ⟨rfl, heq⟩ | ⟨rfl, n, heq⟩
      · rw [heq]
        cases stage <;> exact hholds
      · rw [heq]
        exact hholds.deliver n
    · rintro rfl
      exact hstage rfl

end Interleaved

namespace Calls

variable {p : Placement} {sw : Switches} {note : Event → σ → σ} {f : Feed} {b₀ b b' : Board σ}
  {ts : List (Turn σ)} {late : Nat}

/-- **Only what is delivered late can be left unannounced.** Take any board that calls led to, any
of the three handlers, and any deliveries of the peer between its steps and after it. If nothing
was queued between the round that found the queue empty and the clearing of the flag, a queue that
holds something is announced. Otherwise, as long as the flag is clear, the queue holds just what was
queued in between. -/
theorem late_events_only (hp : p.Valid) (hboxes : ∀ x ∈ b₀.boxes, x = Box.empty)
    (h : Calls p sw note b₀ ts b) (hi : Interleaved note f b (.returned late) b') :
    (late = 0 → b'.line (.shared f.queue) ≠ [] → (b'.panel.get f.channel).peerFlag = true) ∧
      ((b'.panel.get f.channel).peerFlag = false →
        (b'.line (.shared f.queue)).length = late) := by
  obtain ⟨s, hshows, hs, hannounced⟩ := h.exists_announced hp hboxes
  obtain ⟨s', hshows', -, hholds, hmade⟩ := hi.holds hp hshows hs (hannounced f)
  have hlength : (b'.panel.get f.channel).peerFlag = false →
      (b'.line (.shared f.queue)).length = late := fun hclear => by
    rw [hshows'.ready.line_eq hshows'.valid (hmade Stage.noConfusion), List.length_map]
    rw [hshows'.panel] at hclear
    exact hholds hclear
  refine ⟨fun hlate hne => ?_, hlength⟩
  by_contra hclear
  have hzero := (hlength (Bool.eq_false_of_not_eq_true hclear)).trans hlate
  exact hne (List.length_eq_zero_iff.mp hzero)

/-- A session, the moves of a handler after it, and what is read off the board then. -/
theorem exists_interleaved {cs : List Call} {ms : List Move} {stage : Stage} {γ : Type} {x : γ}
    {g : Board σ → γ}
    (h : ((Call.session p sw note cs b₀).bind
      (Move.playAll (Observer.passive note) f ms .draining)).map (fun y => (y.1, g y.2)) =
        some (stage, x)) :
    ∃ ts b b', Calls p sw note b₀ ts b ∧ ts.map (·.call) = cs ∧ Interleaved note f b stage b' ∧
      g b' = x := by
  obtain ⟨⟨stage', b'⟩, hbind, heq⟩ := Option.map_eq_some_iff.mp h
  obtain ⟨rfl, rfl⟩ := Prod.mk.inj heq
  obtain ⟨b, hsession, hplay⟩ := Option.bind_eq_some_iff.mp hbind
  obtain ⟨ts, hcalls, hmap⟩ := of_session hsession
  exact ⟨ts, b, b', hcalls, hmap, Interleaved.start.moves hplay, rfl⟩

/-- One event is delivered while the handler is at work on another one, and one more after it has
returned. -/
theorem late_events_only_session : ∃ ts b b',
    Calls Placement.standard {} (fun _ c => c) Demo.blank ts b ∧
    ts.map (·.call) = [.operation (.deliverEvent 14 [2])] ∧
    Interleaved (fun _ c => c) (.events .ble) b (.returned 0) b' ∧
    b'.line (.shared .ble) ≠ [] ∧
    (0 = 0 → b'.line (.shared .ble) ≠ [] → (b'.panel.get .bleEvent).peerFlag = true) ∧
    ((b'.panel.get .bleEvent).peerFlag = false → (b'.line (.shared .ble)).length = 0) := by
  obtain ⟨ts, b, b', h, hcalls, hi, hline⟩ := @exists_interleaved Demo.Console Placement.standard {}
    (fun _ c => c) (.events .ble) Demo.blank [.operation (.deliverEvent 14 [2])]
    [.round, .deliver 15 [0, 1], .round, .round, .clear, .deliver 15 [0, 1]] (.returned 0)
    (List (Option NodeIndex)) [some 6] (·.line (.shared .ble)) (by decide +kernel)
  obtain ⟨hannounced, hlength⟩ := late_events_only Placement.valid_standard Demo.boxes_blank h hi
  exact ⟨ts, b, b', h, hcalls, hi, fun hnil => List.cons_ne_nil _ _ (hline.symm.trans hnil),
    hannounced, hlength⟩

/-- A late event is stranded: it was queued after the handler had found the queue empty, the handler
clears its announcement, and the next interrupt leaves it where it is. -/
theorem late_event_stranded : ∃ ts b b' b'',
    Calls Placement.standard {} (fun _ c => c) Demo.blank ts b ∧
    ts.map (·.call) = [.operation (.deliverEvent 14 [2])] ∧
    Interleaved (fun _ c => c) (.events .ble) b (.returned 1) b' ∧
    b'.line (.shared .ble) = [some 7] ∧ (b'.panel.get .bleEvent).peerFlag = false ∧
    (Host.receiveInterrupt (Observer.passive fun _ c => c)).run b' = .ok () b'' ∧
    b''.line (.shared .ble) = [some 7] := by
  obtain ⟨ts, b, b', h, hcalls, hi, hread⟩ := @exists_interleaved Demo.Console Placement.standard {}
    (fun _ c => c) (.events .ble) Demo.blank [.operation (.deliverEvent 14 [2])]
    [.round, .round, .deliver 15 [0, 1], .clear] (.returned 1)
    (List (Option NodeIndex) × Bool × Option (List (Option NodeIndex)))
    ([some 7], false, some [some 7])
    (fun b => (b.line (.shared .ble), (b.panel.get .bleEvent).peerFlag, (Board.leftBy
      ((Host.receiveInterrupt (Observer.passive fun _ c => c)).run b)).map (·.line (.shared .ble))))
    (by decide +kernel)
  obtain ⟨hline, hrest⟩ := Prod.mk.inj hread
  obtain ⟨hflag, hinterrupt⟩ := Prod.mk.inj hrest
  obtain ⟨b'', hleft, hline'⟩ := Option.map_eq_some_iff.mp hinterrupt
  obtain ⟨_, hrun⟩ := Board.exists_of_leftBy hleft
  exact ⟨ts, b, b', b'', h, hcalls, hi, hline, hflag, hrun, hline'⟩

end Calls

end InterCore
