import InterCore.Proofs.Masks
import InterCore.Proofs.Progress

/-!
# Quiet interrupts

An interrupt that leaves its own cause behind comes again at once, without end. The handlers of the
receive interrupt act on more than their own queue: draining traces gives buffers back, which rings
and unmasks on the other side. Still each of them clears the flag that called it and sets none, and
each handler of the transmit interrupt leaves its channel masked or its flag set. So after either
interrupt no channel is pending, and the same interrupt again does nothing at all.

## Main definitions

* `Line.channel`: the channel that a line of buffers belongs to.
* `Account.SameAt`, `Account.OnlyAt`: nothing happens to what belongs to a channel, or to anything
  else.
* `Account.Handles`: a handler achieves its aim and does nothing but to its own channel.
* `Account.Served`: what an interrupt has done once it has looked at some channels.
* `Host.transmitInterruptOr`: the transmit interrupt with any program in place of what the host does
  when it is woken without cause.
* `Board.ReceiveQuiesces`, `Board.TransmitQuiesces`: what is left to do after each interrupt, and
  what has changed; `Board.Quiesces`: both.

## Main results

* `Account.Served.serve`: an interrupt looks at one more channel.
* `Account.served_receiveInterrupt`, `Account.served_transmitInterrupt`: all channels.
* `Host.transmitInterruptOr_run`: the transmit interrupt never wakes the host without cause.
* `Traffic.interrupts_quiesce`: the interrupts on every board.
-/

namespace InterCore

open Board

variable {σ : Type}

/-- The channel that a line of buffers belongs to. -/
def Line.channel : Line → Channel
  | .shared .ble => .bleEvent
  | .shared .system => .systemEvent
  | .shared .traces => .traces
  | .shared .free | .waiting => .release

namespace Feed

/-- Every queue that the peer fills. -/
def all : List Feed := [traces, events .ble, events .system]

theorem mem_all (f : Feed) : f ∈ all := by
  rcases f with (_ | _) | _ <;> decide

theorem channel_line (f : Feed) : (Line.shared f.queue).channel = f.channel := by
  rcases f with (_ | _) | _ <;> rfl

end Feed

namespace Account

/-! ### What belongs to a channel -/

/-- Two accounts agree in what belongs to a channel: its bell, its lines and its inbox. -/
structure SameAt (c : Channel) (s s' : Account σ) : Prop where
  bell : s'.panel.get c = s.panel.get c
  line : ∀ l : Line, l.channel = c → s'.line l = s.line l
  inbox : ∀ e : Endpoint, e.channel = c → s'.inbox e = s.inbox e ∧ s'.taken e = s.taken e

/-- Nothing happens but to what belongs to a channel. -/
def OnlyAt (c : Channel) (s s' : Account σ) : Prop := ∀ d ≠ c, SameAt d s s'

variable {p : Placement} {note : Event → σ → σ} {s s' s'' : Account σ} {c : Channel}

namespace SameAt

theorem refl (c : Channel) (s : Account σ) : SameAt c s s :=
  ⟨rfl, fun _ _ => rfl, fun _ _ => ⟨rfl, rfl⟩⟩

theorem trans (h : SameAt c s s') (h' : SameAt c s' s'') : SameAt c s s'' where
  bell := h'.bell.trans h.bell
  line l hl := (h'.line l hl).trans (h.line l hl)
  inbox e he :=
    ⟨(h'.inbox e he).1.trans (h.inbox e he).1, (h'.inbox e he).2.trans (h.inbox e he).2⟩

end SameAt

namespace OnlyAt

theorem refl (c : Channel) (s : Account σ) : OnlyAt c s s := fun d _ => .refl d s

theorem trans (h : OnlyAt c s s') (h' : OnlyAt c s' s'') : OnlyAt c s s'' :=
  fun d hd => (h d hd).trans (h' d hd)

theorem modifyBell (c : Channel) (f : Bell → Bell) (s : Account σ) :
    OnlyAt c s (s.modifyBell c f) :=
  fun d hd => { SameAt.refl d s with bell := Panel.get_modify_of_ne hd.symm }

theorem setLine {l : Line} (hl : l.channel = c) (xs : List NodeIndex) (s : Account σ) :
    OnlyAt c s (s.setLine l xs) := by
  refine fun d hd => { SameAt.refl d s with line := fun l' hl' => Function.update_of_ne ?_ _ _ }
  rintro rfl
  exact hd (hl'.symm.trans hl)

theorem setInbox (e : Endpoint) (xs : List NodeIndex) (s : Account σ) :
    OnlyAt e.channel s (s.setInbox e xs) := by
  refine fun d hd =>
    { SameAt.refl d s with inbox := fun e' he' => ⟨Function.update_of_ne ?_ _ _, rfl⟩ }
  rintro rfl
  exact hd he'.symm

theorem tell (note : Event → σ → σ) (x : Event) (s : Account σ) : OnlyAt c s (s.tell note x) :=
  fun _ _ => ⟨rfl, fun _ _ => rfl, fun _ _ => ⟨rfl, rfl⟩⟩

theorem modifyFlags (f : Flags → Flags) (s : Account σ) : OnlyAt c s (s.modifyFlags f) :=
  fun _ _ => ⟨rfl, fun _ _ => rfl, fun _ _ => ⟨rfl, rfl⟩⟩

theorem handOver (s : Account σ) : OnlyAt .release s s.handOver :=
  (setLine (l := .waiting) rfl [] s).trans (setLine (l := .shared .free) rfl _ _)

theorem ringRelease (note : Event → σ → σ) (s : Account σ) :
    OnlyAt .release s (s.ringRelease note) :=
  (modifyBell .release Bell.ring s).trans (tell _ _ _)

theorem awaitRelease (s : Account σ) : OnlyAt .release s s.awaitRelease :=
  (modifyFlags _ s).trans (modifyBell .release _ _)

theorem giveBack (note : Event → σ → σ) (n : NodeIndex) (s : Account σ) :
    OnlyAt .release s (s.giveBack note n) := by
  have hwaits := (setLine (l := .waiting) rfl (s.line .waiting ++ [n]) s).trans
    (tell note
      { kind := .bufferReleased, channel := Channel.release.number, length := 0, code := 0 } _)
  rw [Account.giveBack]
  split
  · exact hwaits.trans ((awaitRelease _).trans (tell _ _ _))
  · exact hwaits.trans ((handOver _).trans (ringRelease _ _))

theorem releaseAcknowledged (note : Event → σ → σ) (s : Account σ) :
    OnlyAt .release s (s.releaseAcknowledged note) := by
  have hmasked := (modifyBell .release (·.enableTx false) s).trans
    (modifyFlags ({ · with releasePending := false }) _)
  rw [Account.releaseAcknowledged]
  split
  · exact hmasked.trans (awaitRelease _)
  · split
    · exact hmasked.trans ((handOver _).trans (ringRelease _ _))
    · exact hmasked

theorem foldl {f : Account σ → NodeIndex → Account σ} (hf : ∀ s n, OnlyAt c s (f s n))
    (xs : List NodeIndex) (s : Account σ) : OnlyAt c s (xs.foldl f s) := by
  induction xs generalizing s with
  | nil => exact refl c s
  | cons n xs ih => exact (hf s n).trans (ih (f s n))

end OnlyAt

/-! ### Interrupts and their handlers -/

/-- What handlers achieve for a channel, told from what belongs to the channel. -/
structure Aim (σ : Type) where
  Reached : Channel → Account σ → Prop
  congr : ∀ {c s s'}, SameAt c s s' → Reached c s → Reached c s'

/-- A handler achieves its aim and does nothing but to its own channel. -/
structure Handles (aim : Aim σ) (c : Channel) (f : Account σ → Account σ) : Prop where
  only : ∀ s, OnlyAt c s (f s)
  reached : ∀ s, aim.Reached c (f s)

/-- What an interrupt has done to an account `s` once it has looked at the channels `cs`. -/
structure Served (pending : Bell → Bool) (aim : Aim σ) (cs : List Channel) (s s' : Account σ) :
    Prop where
  reached : ∀ c ∈ cs, pending (s.panel.get c) = true → aim.Reached c s'
  /-- What was not pending, or is still to come, is as it was. -/
  kept : ∀ c, pending (s.panel.get c) = false ∨ c ∉ cs → SameAt c s s'

namespace Served

variable {pending : Bell → Bool} {aim : Aim σ} {cs : List Channel} {f : Account σ → Account σ}

theorem start (pending : Bell → Bool) (aim : Aim σ) (s : Account σ) :
    Served pending aim [] s s :=
  ⟨fun _ hc => absurd hc List.not_mem_nil, fun c _ => .refl c s⟩

/-- **The interrupt looks at one more channel.** -/
theorem serve (h : Served pending aim cs s s') (hc : c ∉ cs) (hf : Handles aim c f) :
    Served pending aim (c :: cs) s (s'.serve pending c f) := by
  have hsame : s'.panel.get c = s.panel.get c := (h.kept c (.inr hc)).bell
  rw [Account.serve, hsame]
  split
  case isTrue hpending =>
    refine ⟨fun d hd hd' => ?_, fun d hd => ?_⟩
    · rcases List.mem_cons.mp hd with rfl | hd
      · exact hf.reached s'
      · exact aim.congr (hf.only s' d fun heq => hc (heq ▸ hd)) (h.reached d hd hd')
    · have hother : d ≠ c := by
        rintro rfl
        rcases hd with hd | hd
        · rw [hpending] at hd
          cases hd
        · exact hd List.mem_cons_self
      have hkept := h.kept d (hd.imp_right fun hd hmem => hd (List.mem_cons_of_mem _ hmem))
      exact hkept.trans (hf.only s' d hother)
  case isFalse hpending =>
    refine ⟨fun d hd hd' => ?_, fun d hd => ?_⟩
    · rcases List.mem_cons.mp hd with rfl | hd
      · exact absurd hd' hpending
      · exact h.reached d hd hd'
    · exact h.kept d (hd.imp_right fun hd hmem => hd (List.mem_cons_of_mem _ hmem))

/-- **After all channels that were pending none is**, if the aim is that they are not. -/
theorem quiet (h : Served pending aim cs s s')
    (hall : ∀ c, pending (s.panel.get c) = true → c ∈ cs)
    (haim : ∀ c, aim.Reached c s' → pending (s'.panel.get c) = false) (c : Channel) :
    pending (s'.panel.get c) = false := by
  cases hpending : pending (s.panel.get c) with
  | false => rw [(h.kept c (.inl hpending)).bell, hpending]
  | true => exact haim c (h.reached c (hall c hpending) hpending)

end Served

/-! ### The receive interrupt -/

/-- The flag of the peer is clear, and the queue behind it is empty. -/
def drained : Aim σ where
  Reached c s :=
    (s.panel.get c).peerFlag = false ∧ ∀ f : Feed, f.channel = c → s.line (.shared f.queue) = []
  congr {c s s'} hsame h := by
    refine ⟨by rw [hsame.bell, h.1], fun f hf => ?_⟩
    rw [hsame.line _ (f.channel_line.trans hf), h.2 f hf]

/-- A handler leaves its queue empty and its flag clear. -/
theorem drained_of_line {f : Feed} (hflag : (s.panel.get f.channel).peerFlag = false)
    (hline : s.line (.shared f.queue) = []) : drained.Reached f.channel s :=
  ⟨hflag, fun _ hg => Feed.channel_inj.mp hg ▸ hline⟩

variable (p note)

theorem handles_fetchEvents (e : Endpoint) :
    Handles drained e.channel (fetchEvents p note e) where
  only s := by
    refine (OnlyAt.foldl (fun s n => ?_) _ s).trans (.modifyBell e.channel Bell.clear _)
    exact ((OnlyAt.setLine (Feed.channel_line (.events e)) _ s).trans (.setInbox e _ _)).trans
      (.tell _ _ _)
  reached s := by
    refine drained_of_line (f := .events e) (congrArg Bell.peerFlag Panel.get_modify_self) ?_
    exact line_foldl (fun s n xs hl => by rw [line_fetchOne, hl, List.tail_cons]) s

/-- Traces share their channel with the buffers that are given back on the way. -/
theorem handles_discardTraces : Handles drained .traces (discardTraces p note) where
  only s := by
    refine (OnlyAt.foldl (fun s n => ?_) _ s).trans (.modifyBell .traces Bell.clear _)
    exact ((OnlyAt.setLine (l := .shared .traces) rfl _ s).trans (.tell _ _ _)).trans
      (.giveBack note n _)
  reached s := by
    refine drained_of_line (f := .traces) (congrArg Bell.peerFlag Panel.get_modify_self) ?_
    exact line_foldl (fun s n xs hl => by rw [line_discardOne, hl, List.tail_cons]) s

/-- **What the receive interrupt does.** -/
theorem served_receiveInterrupt (s : Account σ) :
    Served Bell.rxPending drained (Feed.all.map Feed.channel) s (s.receiveInterrupt p note) := by
  have h₁ := (Served.start Bell.rxPending drained s).serve (by decide)
    (handles_fetchEvents p note .system)
  have h₂ := h₁.serve (by decide) (handles_fetchEvents p note .ble)
  exact h₂.serve (by decide) (handles_discardTraces p note)

/-! ### The transmit interrupt -/

/-- The channel does not interrupt the host for a flag that the peer consumed. -/
def answered : Aim σ where
  Reached c s := (s.panel.get c).txPending = false
  congr hsame h := by rw [hsame.bell, h]

/-- A channel that is masked does not interrupt the host. -/
theorem answered_masked (s : Account σ) (c : Channel) :
    answered.Reached c (s.modifyBell c (·.enableTx false)) := by
  show (((s.modifyBell c (·.enableTx false)).panel.get c).txPending = false)
  rw [modifyBell, Panel.get_modify_self]
  rfl

theorem handles_systemAnswered : Handles answered .systemCommand (systemAnswered p note) where
  only s := ((OnlyAt.modifyBell _ _ s).trans (.modifyFlags _ _)).trans (.tell _ _ _)
  reached s := answered_masked s .systemCommand

theorem handles_aclAcknowledged : Handles answered .aclData (aclAcknowledged note) where
  only s := ((OnlyAt.modifyBell _ _ s).trans (.modifyFlags _ _)).trans (.tell _ _ _)
  reached s := answered_masked s .aclData

/-- The release channel is left masked, or its flag set. -/
theorem handles_releaseAcknowledged : Handles answered .release (releaseAcknowledged note) where
  only := OnlyAt.releaseAcknowledged note
  reached s := by
    have hbell : (s.releaseAcknowledged note).release.bell = s.release.acknowledged.bell :=
      congrArg Release.bell release_releaseAcknowledged
    have hpending : ((s.releaseAcknowledged note).panel.get .release).txPending =
        (s.release.acknowledged.bell.txEnabled && !s.release.acknowledged.bell.hostFlag) := by
      rw [← hbell]
      rfl
    refine hpending.trans ?_
    cases hflag : s.release.bell.hostFlag with
    | true =>
      rw [Release.acknowledged_of_flag hflag]
      show (true && !s.release.bell.hostFlag) = false
      rw [hflag]
      rfl
    | false =>
      by_cases hw : s.release.waiting = []
      · rw [Release.acknowledged_of_nil hflag hw]
        rfl
      · rw [Release.acknowledged_of_waiting hflag hw]
        rfl

/-- **What the transmit interrupt does.** -/
theorem served_transmitInterrupt (s : Account σ) :
    Served Bell.txPending answered Channel.awaited.reverse s (s.transmitInterrupt p note) := by
  have h₁ := (Served.start Bell.txPending answered s).serve (by decide)
    (handles_systemAnswered p note)
  have h₂ := h₁.serve (by decide) (handles_releaseAcknowledged note)
  exact h₂.serve (by decide) (handles_aclAcknowledged note)

end Account

/-! ### Interrupts on a quiet board -/

namespace Host

variable (observer : Observer σ) {b : Board σ}

theorem receiveInterrupt_idle (h : ∀ c, (b.panel.get c).rxPending = false) :
    (receiveInterrupt observer).run b = .ok () b := by
  simp [receiveInterrupt, h]

theorem transmitInterrupt_idle (h : ∀ c, (b.panel.get c).txPending = false) :
    (transmitInterrupt observer).run b = .ok () b := by
  simp [transmitInterrupt, h]

/-! ### Wake-ups without cause -/

variable (x y : BoardM σ Unit)

/-- The host stays with a release that is still unacknowledged. -/
def stayReleasing : BoardM σ Unit := do
  modifyHost fun h => { h with releasePending := true }
  modifyBell .release (·.enableTx true)

/-- The handler of an acknowledgement, which runs `x` when it is woken without cause. -/
def releaseAcknowledgedOr : BoardM σ Unit := do
  unmask
  if (← bell .release).hostFlag then x
  else if (← flush) ≠ 0 then ringRelease observer

/-- The transmit interrupt with this handler. -/
def transmitInterruptOr : BoardM σ Unit := do
  if (← bell .systemCommand).txPending then systemAnswered observer
  if (← bell .release).txPending then releaseAcknowledgedOr observer x
  if (← bell .aclData).txPending then aclAcknowledged observer

theorem transmitInterrupt_eq_or :
    transmitInterrupt observer = transmitInterruptOr observer stayReleasing := by
  simp only [transmitInterrupt, transmitInterruptOr, releaseAcknowledged_eq]
  rfl

theorem hostFlag_unmask {b' : Board σ} (hrun : unmask.run b = .ok () b') :
    (b'.panel.get .release).hostFlag = (b.panel.get .release).hostFlag := by
  obtain rfl := (EStateM.Result.ok.inj hrun).2
  exact Panel.modify_keeps (g := Bell.hostFlag) fun _ => rfl

/-- With the flag of the channel clear nobody was woken without cause. -/
theorem releaseAcknowledgedOr_run (h : (b.panel.get .release).hostFlag = false) :
    (releaseAcknowledgedOr observer x).run b = (releaseAcknowledgedOr observer y).run b := by
  refine run_bind_congr fun _ b₁ hrun => run_bind_congr fun bell b₂ hbell => ?_
  have hflag : bell.hostFlag = false := by
    rw [← (EStateM.Result.ok.inj hbell).1, hostFlag_unmask hrun, h]
  rw [hflag, if_neg Bool.false_ne_true, if_neg Bool.false_ne_true]

/-- **The transmit interrupt never wakes the host without cause.** It looks at the flag right before
it calls the handler, which so finds the flag clear. -/
theorem transmitInterruptOr_run :
    (transmitInterruptOr observer x).run b = (transmitInterruptOr observer y).run b := by
  have hrelease : ∀ b : Board σ,
      (do if (← bell .release).txPending then releaseAcknowledgedOr observer x
          if (← bell .aclData).txPending then aclAcknowledged observer).run b =
        (do if (← bell .release).txPending then releaseAcknowledgedOr observer y
            if (← bell .aclData).txPending then aclAcknowledged observer).run b := by
    refine fun b => run_bind_congr fun bell b₁ hbell => ?_
    obtain ⟨rfl, rfl⟩ := EStateM.Result.ok.inj hbell
    split
    case isTrue hpending =>
      have hflag : (b.panel.get .release).hostFlag = false := by
        simpa using (Bool.and_eq_true_iff.mp hpending).2
      rw [EStateM.run_bind, EStateM.run_bind, releaseAcknowledgedOr_run observer x y hflag]
    case isFalse => rfl
  refine run_bind_congr fun bell b₁ _ => ?_
  split
  · exact run_bind_congr fun _ b₂ _ => hrelease b₂
  · exact hrelease b₁

end Host

/-! ### Interrupts of a board -/

namespace Board

/-- The receive interrupt leads to a board on which it has nothing to do. -/
structure ReceiveQuiesces (note : Event → σ → σ) (b b' : Board σ) : Prop where
  run : (Host.receiveInterrupt (Observer.passive note)).run b = .ok () b'
  quiet : ∀ c, (b'.panel.get c).rxPending = false
  /-- What the peer announced was taken. -/
  emptied : ∀ f : Feed, (b.panel.get f.channel).rxPending = true → b'.line (.shared f.queue) = []
  /-- What belongs to a channel that is masked, or on which nothing was announced, is as it was: the
  channel, -/
  bell : ∀ c, (b.panel.get c).rxPending = false → b'.panel.get c = b.panel.get c
  /-- its lines, -/
  line : ∀ l : Line, (b.panel.get l.channel).rxPending = false → b'.line l = b.line l
  /-- and its inbox. -/
  receiver : ∀ e : Endpoint, (b.panel.get e.channel).rxPending = false →
    b'.host.receiver e = b.host.receiver e
  /-- The same interrupt again does nothing, and tells no observer anything. -/
  again : ∀ observer : Observer σ, (Host.receiveInterrupt observer).run b' = .ok () b'

/-- The transmit interrupt leads to a board on which it has nothing to do. -/
structure TransmitQuiesces (note : Event → σ → σ) (b b' : Board σ) : Prop where
  run : (Host.transmitInterrupt (Observer.passive note)).run b = .ok () b'
  quiet : ∀ c, (b'.panel.get c).txPending = false
  /-- A channel that did not call the host is as it was. -/
  bell : ∀ c, (b.panel.get c).txPending = false → b'.panel.get c = b.panel.get c
  /-- The same interrupt again does nothing, and tells no observer anything. -/
  again : ∀ observer : Observer σ, (Host.transmitInterrupt observer).run b' = .ok () b'

/-- Neither interrupt leaves behind what would call it again. -/
structure Quiesces (note : Event → σ → σ) (b : Board σ) : Prop where
  receive : ∃ b', b.ReceiveQuiesces note b'
  transmit : ∃ b', b.TransmitQuiesces note b'
  /-- It makes no difference what the host would do when it is woken without cause. -/
  founded : ∀ (observer : Observer σ) (x : BoardM σ Unit),
    (Host.transmitInterrupt observer).run b = (Host.transmitInterruptOr observer x).run b

namespace Shows

variable {p : Placement} {sw : Switches} {b b' : Board σ} {s s' : Account σ}

/-- A line that is the same in two accounts is the same on their boards. -/
theorem line_congr (h : b.Shows p sw s) (h' : b'.Shows p sw s') {l : Line}
    (hl : s'.line l = s.line l) : b'.line l = b.line l := by
  by_cases hmade : l ∈ Line.made sw.traces
  · rw [h'.ready.line_eq h.valid hmade, h.ready.line_eq h.valid hmade, hl]
  · obtain ⟨rfl, ht⟩ := Classical.not_imp.mp (mt Line.mem_made_iff.mpr hmade)
    rw [Bool.not_eq_true] at ht
    rw [h'.line_unmade ht, h.line_unmade ht]

/-- An inbox that is the same in two accounts is the same on their boards. -/
theorem receiver_congr (h : b.Shows p sw s) (h' : b'.Shows p sw s') {e : Endpoint}
    (hinbox : s'.inbox e = s.inbox e) (htaken : s'.taken e = s.taken e) :
    b'.host.receiver e = b.host.receiver e := by
  have hqueue : (b'.host.receiver e).queue = (b.host.receiver e).queue := by
    rw [h'.host.receiver_queue, h.host.receiver_queue]
  have hring : (b'.host.receiver e).inbox = (b.host.receiver e).inbox :=
    (h.inbox e).eq_of_head (hinbox ▸ h'.inbox e) (by decide) (by rw [h'.taken, h.taken, htaken])
  exact congrArg₂ Receiver.mk hqueue hring

variable (note : Event → σ → σ) (h : b.Shows p sw s) (hpanel : s.panel.Serviceable sw)
include h hpanel

/-- **The receive interrupt leaves nothing behind that would call it again.** -/
theorem receiveQuiesces (hs : s.Proper []) : ∃ b', b.ReceiveQuiesces note b' := by
  have hmade : ∀ f : Feed, (s.panel.get f.channel).rxPending = true →
      Line.shared f.queue ∈ Line.made sw.traces := by
    intro f hf
    obtain ⟨g, hg, ht⟩ := hpanel.rx f.channel (Bool.and_eq_true_iff.mp hf).2
    obtain rfl := Feed.channel_inj.mp hg
    refine Line.mem_made_iff.mpr fun hqueue => ht ?_
    exact Feed.queue_inj.mp (Line.shared.inj hqueue)
  obtain ⟨b', hrun, h'⟩ := h.receiveInterrupt note hs fun hf =>
    Line.mem_made_iff.mp (hmade .traces hf) rfl
  have hserved : Account.Served Bell.rxPending _ _ s (s.receiveInterrupt p note) :=
    Account.served_receiveInterrupt p note s
  have hquiet : ∀ c, (b'.panel.get c).rxPending = false := by
    intro c
    rw [h'.panel]
    refine hserved.quiet (fun c hc => ?_) (fun c hc => ?_) c
    · obtain ⟨f, rfl, -⟩ := hpanel.rx c (Bool.and_eq_true_iff.mp hc).2
      exact List.mem_map_of_mem f.mem_all
    · rw [Bell.rxPending, hc.1, Bool.false_and]
  refine ⟨b', hrun, hquiet, fun f hf => ?_, fun c hc => ?_, fun l hl => ?_, fun e he => ?_,
    fun observer => Host.receiveInterrupt_idle observer hquiet⟩
  · rw [h.panel] at hf
    have hempty := (hserved.reached f.channel (List.mem_map_of_mem f.mem_all) hf).2 f rfl
    rw [h'.ready.line_eq h.valid (hmade f hf), hempty, List.map_nil]
  · rw [h.panel] at hc ⊢
    rw [h'.panel, (hserved.kept c (.inl hc)).bell]
  · rw [h.panel] at hl
    exact h.line_congr h' ((hserved.kept _ (.inl hl)).line l rfl)
  · rw [h.panel] at he
    obtain ⟨hinbox, htaken⟩ := (hserved.kept _ (.inl he)).inbox e rfl
    exact h.receiver_congr h' hinbox htaken

/-- **The transmit interrupt leaves nothing behind that would call it again.** -/
theorem transmitQuiesces : ∃ b', b.TransmitQuiesces note b' := by
  obtain ⟨b', hrun, h'⟩ := h.transmitInterrupt note
  have hserved : Account.Served Bell.txPending _ _ s (s.transmitInterrupt p note) :=
    Account.served_transmitInterrupt p note s
  have hquiet : ∀ c, (b'.panel.get c).txPending = false := by
    intro c
    rw [h'.panel]
    refine hserved.quiet (fun c hc => List.mem_reverse.mpr ?_) (fun c hc => hc) c
    exact hpanel.tx c (Bool.and_eq_true_iff.mp hc).1
  refine ⟨b', hrun, hquiet, fun c hc => ?_,
    fun observer => Host.transmitInterrupt_idle observer hquiet⟩
  rw [h.panel] at hc ⊢
  rw [h'.panel, (hserved.kept c (.inl hc)).bell]

end Shows

end Board

namespace Traffic

variable {p : Placement} {sw : Switches} {note : Event → σ → σ} {b₀ b : Board σ}

/-- **After either interrupt no channel is pending for it, what was pending is served and the rest
is as it was, and the same interrupt again does nothing.** -/
theorem interrupts_quiesce (hp : p.Valid) (hboxes : ∀ x ∈ b₀.boxes, x = Box.empty)
    (hmasks : b₀.panel.Serviceable sw) (h : Traffic p sw note b₀ b) : b.Quiesces note := by
  obtain ⟨s, hshows, hs, hpanel⟩ := h.exists_shows hp hboxes hmasks
  refine ⟨hshows.receiveQuiesces note hpanel hs, hshows.transmitQuiesces note hpanel,
    fun observer x => ?_⟩
  rw [Host.transmitInterrupt_eq_or]
  exact Host.transmitInterruptOr_run observer Host.stayReleasing x

/-- A BLE event, a trace record, both answers and a consumed release are due at once, and a system
event waits behind its mask. -/
theorem interrupts_quiesce_session : ∃ b : Board Demo.Console,
    Traffic Placement.standard { systemEvents := false, traces := true } (fun _ x => x)
        Demo.blank b ∧
      ([Channel.bleEvent, .systemEvent, .traces].map fun c => (b.panel.get c).rxPending) =
        [true, false, true] ∧
      (Channel.awaited.map fun c => (b.panel.get c).txPending) = [true, true, true] ∧
      b.Quiesces fun _ x => x := by
  have hsession : (Call.session Placement.standard { systemEvents := false, traces := true }
      (fun _ x => x) ([.deliverTrace [1], .receiveInterrupt, .deliverTrace [2], .receiveInterrupt,
        .reclaim, .sendSystemCommand 0xFC56 [], .answerSystemCommand 0, .sendAcl 1 [9], .takeAcl,
        .deliverEvent 15 [0], .deliverSystemEvent 255 [3], .deliverTrace [4]].map Call.operation)
      Demo.blank).map (fun b =>
        ([Channel.bleEvent, .systemEvent, .traces].map fun c => (b.panel.get c).rxPending,
          Channel.awaited.map fun c => (b.panel.get c).txPending)) =
      some ([true, false, true], [true, true, true]) := by decide +kernel
  obtain ⟨b, hsession, hread⟩ := Option.map_eq_some_iff.mp hsession
  obtain ⟨hreceive, htransmit⟩ := Prod.mk.inj hread
  obtain ⟨ts, hcalls, -⟩ := Calls.of_session hsession
  have htraffic := of_usage (Usage.of_calls hcalls)
  have hmasks : Demo.blank.panel.Serviceable { systemEvents := false, traces := true } := by
    constructor <;> rintro (_ | _) h <;> exact absurd h (by decide)
  exact ⟨b, htraffic, hreceive, htransmit,
    interrupts_quiesce Placement.valid_standard Demo.boxes_blank hmasks htraffic⟩

end Traffic

end InterCore
