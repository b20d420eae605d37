import InterCore.Proofs.Steps.Inbox

/-!
# Interrupts, on accounts

What the two interrupts do to an account: each serves its channels in a fixed order. Without traces
their queue was never made, and serving it halts the host; with a mask that a boot left alone, this
does not happen.

## Main definitions

* `Account.serve`: do something if a channel interrupts the host.
* `Account.receiveInterrupt`, `Account.transmitInterrupt`: the two interrupts.
* `Host.receiveInterruptOr`: the receive interrupt with any program in place of what the host does
  about traces.

## Main results

* `Board.Shows.receiveInterrupt`, `Board.Shows.transmitInterrupt`: the programs of the host do this.
* `Board.Shows.receiveInterrupt_halts`: traces that are switched off cannot be served.
* `Board.Shows.receiveInterruptOr_run`: while they do not interrupt the host, they are not.
-/

namespace InterCore

open Memory

variable {σ : Type}

namespace Account

variable (p : Placement) (note : Event → σ → σ) (s : Account σ)

/-- Do something if a channel interrupts the host. -/
def serve (pending : Bell → Bool) (c : Channel) (f : Account σ → Account σ) : Account σ :=
  if pending (s.panel.get c) then f s else s

/-- The peer set flags. -/
def receiveInterrupt : Account σ :=
  ((s.serve Bell.rxPending .systemEvent (fetchEvents p note .system)).serve Bell.rxPending .bleEvent
    (fetchEvents p note .ble)).serve Bell.rxPending .traces (discardTraces p note)

/-- The peer answered the system command. -/
def systemAnswered : Account σ :=
  ((s.modifyBell .systemCommand (·.enableTx false)).modifyFlags
    ({ · with systemBusy := false, responseReady := true })).tell note
      { kind := .systemResponse
        channel := Channel.systemCommand.number
        length := (Packet.eventLength s.bytes (p.address .systemCommand)).toUInt64
        code := Packet.kind s.bytes (p.address .systemCommand) }

/-- The peer consumed the ACL packet. -/
def aclAcknowledged : Account σ :=
  ((s.modifyBell .aclData (·.enableTx false)).modifyFlags ({ · with aclInFlight := false })).tell
    note { kind := .aclAcked, channel := Channel.aclData.number, length := 0, code := 0 }

/-- The peer consumed flags. -/
def transmitInterrupt : Account σ :=
  ((s.serve Bell.txPending .systemCommand (systemAnswered p note)).serve Bell.txPending .release
    (releaseAcknowledged note)).serve Bell.txPending .aclData (aclAcknowledged note)

/-- Whatever relates an account to what a handler makes of it, and to itself, relates it to what an
interrupt makes of it that may call the handler. -/
theorem serve_rel {R : Account σ → Account σ → Prop} {pending : Bell → Bool} {c : Channel}
    {f : Account σ → Account σ} (hrefl : ∀ s, R s s) (hf : ∀ s, R s (f s)) (s : Account σ) :
    R s (s.serve pending c f) := by
  rw [serve]
  split
  · exact hf s
  · exact hrefl s

/-- What a handler keeps, an interrupt keeps that may call it. -/
theorem serve_keeps {γ : Type} (g : Account σ → γ) {pending : Bell → Bool} {c : Channel}
    {f : Account σ → Account σ} (hf : ∀ s, g (f s) = g s) (s : Account σ) :
    g (s.serve pending c f) = g s :=
  serve_rel (R := fun s s' => g s' = g s) (fun _ => rfl) hf s

/-! ### Places -/

variable {p note s} {e : Endpoint} {n : NodeIndex}

theorem places_serve {pending : Bell → Bool} {c : Channel} {f : Account σ → Account σ}
    (hf : ∀ s, (f s).places.Perm s.places) : (s.serve pending c f).places.Perm s.places :=
  serve_rel (R := fun s s' => s'.places.Perm s.places) (fun _ => .refl _) hf s

theorem Proper.serve {pending : Bell → Bool} {c : Channel} {f : Account σ → Account σ}
    {held : List NodeIndex} (hf : ∀ s, (f s).places.Perm s.places) (hs : s.Proper held) :
    (s.serve pending c f).Proper held :=
  hs.of_perm ((places_serve hf).append_left held)

theorem places_receiveInterrupt : (s.receiveInterrupt p note).places.Perm s.places :=
  (places_serve fun _ => places_discardTraces).trans
    ((places_serve fun _ => places_fetchEvents).trans (places_serve fun _ => places_fetchEvents))

theorem places_systemAnswered : (s.systemAnswered p note).places.Perm s.places := .refl _

theorem places_aclAcknowledged : (s.aclAcknowledged note).places.Perm s.places := .refl _

theorem places_transmitInterrupt : (s.transmitInterrupt p note).places.Perm s.places :=
  (places_serve fun _ => places_aclAcknowledged).trans
    ((places_serve fun _ => places_releaseAcknowledged).trans
      (places_serve fun _ => places_systemAnswered))

/-! ### The channel of the traces -/

theorem panel_foldl_fetchOne (xs : List NodeIndex) (s : Account σ) :
    (xs.foldl (fetchOne p note e) s).panel = s.panel := by
  induction xs generalizing s with
  | nil => rfl
  | cons n xs ih => exact ih (s.fetchOne p note e n)

/-- Fetching events changes no other channel. -/
theorem bell_fetchEvents {c : Channel} (hc : e.channel ≠ c) :
    (s.fetchEvents p note e).panel.get c = s.panel.get c := by
  rw [fetchEvents, modifyBell, Panel.get_modify, if_neg hc, panel_foldl_fetchOne]

theorem bell_serve {pending : Bell → Bool} {c c' : Channel} {f : Account σ → Account σ}
    (hf : (f s).panel.get c' = s.panel.get c') :
    (s.serve pending c f).panel.get c' = s.panel.get c' := by
  rw [serve]
  split
  · exact hf
  · rfl

end Account

/-- The receive interrupt with any program in place of what the host does about traces. -/
def Host.receiveInterruptOr (observer : Observer σ) (x : BoardM σ Unit) : BoardM σ Unit := do
  if (← Board.bell .systemEvent).rxPending then fetchEvents observer .system
  if (← Board.bell .bleEvent).rxPending then fetchEvents observer .ble
  if (← Board.bell .traces).rxPending then x

theorem Host.receiveInterrupt_eq_or (observer : Observer σ) :
    receiveInterrupt observer = receiveInterruptOr observer (discardTraces observer) := rfl

namespace Board

variable {p : Placement} {sw : Switches} {b : Board σ} {s s' : Account σ}

/-- A channel is served, and the program goes on. -/
theorem Shows.serve {x : BoardM σ Unit} {f : Account σ → Account σ}
    (h : b.Shows p sw s) (pending : Bell → Bool) (c : Channel)
    (hx : pending (s.panel.get c) = true → ∀ b', b'.Shows p sw s → Yields p sw x b' () (f s)) :
    ∃ b', b'.Shows p sw (s.serve pending c f) ∧ ∀ k : Unit → BoardM σ Unit,
      (Board.bell c >>= fun bell => if pending bell then x >>= k else k ()).run b =
        (k ()).run b' := by
  have hbell : ∀ f : Bell → BoardM σ Unit,
      (Board.bell c >>= f).run b = (f (s.panel.get c)).run b := by
    intro f
    rw [run_bind_ok (run_bell b c), h.panel]
  rw [Account.serve]
  split
  · next hpending =>
    obtain ⟨b', hrun, h'⟩ := hx hpending b h
    refine ⟨b', h', fun k => ?_⟩
    rw [hbell, if_pos hpending, run_bind_ok hrun]
  · next hpending => exact ⟨b, h, fun k => by rw [hbell, if_neg hpending]⟩

theorem Yields.serve_last {pending : Bell → Bool} {c : Channel} {x : BoardM σ Unit}
    {f : Account σ → Account σ} (h : b.Shows p sw s)
    (hx : pending (s.panel.get c) = true → ∀ b', b'.Shows p sw s → Yields p sw x b' () (f s)) :
    Yields p sw (Board.bell c >>= fun bell => if pending bell then x else Pure.pure ()) b ()
      (s.serve pending c f) := by
  refine (h.bell c).bind fun b₁ h₁ => ?_
  rw [Account.serve]
  split
  · next hpending => exact hx hpending b₁ h₁
  · exact h₁.pure ()

namespace Shows

variable (note : Event → σ → σ) (h : b.Shows p sw s)
include h

/-- The host serves events before traces, whatever it does about those. -/
theorem exists_after_events (hs : s.Proper []) : ∃ b', b'.Shows p sw
      ((s.serve Bell.rxPending .systemEvent (Account.fetchEvents p note .system)).serve
        Bell.rxPending .bleEvent (Account.fetchEvents p note .ble)) ∧
      ∀ x, (Host.receiveInterruptOr (Observer.passive note) x).run b =
        (do if (← Board.bell .traces).rxPending then x).run b' := by
  have hs₁ : (s.serve Bell.rxPending .systemEvent (Account.fetchEvents p note .system)).Proper [] :=
    hs.serve fun _ => Account.places_fetchEvents
  obtain ⟨b₁, h₁, hrun₁⟩ := h.serve Bell.rxPending .systemEvent
    fun _ b₁ h₁ => h₁.fetchEvents note hs
  obtain ⟨b₂, h₂, hrun₂⟩ := h₁.serve Bell.rxPending .bleEvent
    fun _ b₂ h₂ => h₂.fetchEvents note hs₁
  refine ⟨b₂, h₂, fun x => ?_⟩
  have htraces := hrun₂ fun _ => do if (← Board.bell .traces).rxPending then x
  exact (hrun₁ fun _ => do
    if (← Board.bell .bleEvent).rxPending then Host.fetchEvents (Observer.passive note) .ble
    if (← Board.bell .traces).rxPending then x).trans htraces

/-- Events do not touch the channel of the traces. -/
theorem bell_after_events {b' : Board σ} (h' : b'.Shows p sw
      ((s.serve Bell.rxPending .systemEvent (Account.fetchEvents p note .system)).serve
        Bell.rxPending .bleEvent (Account.fetchEvents p note .ble))) :
    b'.panel.get .traces = b.panel.get .traces := by
  rw [h'.panel, Account.bell_serve (Account.bell_fetchEvents (by decide)),
    Account.bell_serve (Account.bell_fetchEvents (by decide)), h.panel]

/-- **The host serves the flags of the peer.** -/
theorem receiveInterrupt (hs : s.Proper [])
    (hmask : (s.panel.get .traces).rxPending = true → sw.traces = true) :
    Yields p sw (Host.receiveInterrupt (Observer.passive note)) b ()
      (s.receiveInterrupt p note) := by
  obtain ⟨b', h', hrun⟩ := h.exists_after_events note hs
  refine Yields.of_run_eq (hrun (Host.discardTraces (Observer.passive note))) ?_
  refine Yields.serve_last h' fun hpending b₃ h₃ => h₃.discardTraces note (hmask ?_) ?_
  · rwa [← h'.panel, h.bell_after_events note h', h.panel] at hpending
  · exact (hs.serve fun _ => Account.places_fetchEvents).serve fun _ => Account.places_fetchEvents

/-- Traces that are switched off have no queue to take from. -/
theorem extract_traces_halts (ht : sw.traces = false) :
    (extract fun a m => Chain.popFront a m (b.host.queue .traces)).run b = .error .strayLink b := by
  have hunmade := h.carries.takeFirst_unmade h.valid ht
  have hqueue : b.host.queue .traces = 3 := h.host.queue .traces
  refine run_extract_error b ?_
  rw [h.host.arena, hqueue, hunmade]

theorem discardOne_halts (ht : sw.traces = false) :
    (Host.discardOne (Observer.passive note)).run b = .error .strayLink b :=
  (run_get_bind b _).trans
    (run_bind_error (h.extract_traces_halts ht))

/-- **Traces that are switched off cannot be served.** -/
theorem receiveInterrupt_halts (hs : s.Proper []) (ht : sw.traces = false)
    (hmask : (s.panel.get .traces).rxPending = true) :
    ∃ b', (Host.receiveInterrupt (Observer.passive note)).run b = .error .strayLink b' := by
  obtain ⟨b', h', hrun⟩ := h.exists_after_events note hs
  have hpending : (b'.panel.get .traces).rxPending = true := by
    rwa [h.bell_after_events note h', h.panel]
  refine ⟨b', (hrun (Host.discardTraces (Observer.passive note))).trans ?_⟩
  have hdrain := run_countRounds_of_error b' (stepLimit - 1) 0 (h'.discardOne_halts note ht)
  rw [run_bind_ok (run_bell b' .traces), if_pos hpending]
  exact run_bind_error hdrain

/-- **While traces do not interrupt the host, it makes no difference what it does about them.** -/
theorem receiveInterruptOr_run (hs : s.Proper [])
    (hquiet : (b.panel.get .traces).rxPending = false) (x y : BoardM σ Unit) :
    (Host.receiveInterruptOr (Observer.passive note) x).run b =
      (Host.receiveInterruptOr (Observer.passive note) y).run b := by
  obtain ⟨b', h', hrun⟩ := h.exists_after_events note hs
  have hquiet' : ¬ (b'.panel.get .traces).rxPending = true := by
    rw [h.bell_after_events note h', hquiet]
    exact Bool.false_ne_true
  rw [hrun, hrun, run_bind_ok (run_bell b' .traces), run_bind_ok (run_bell b' .traces),
    if_neg hquiet', if_neg hquiet']

/-- The answer to a system command lies as in the account. -/
theorem response_eq : Message.load b.memory (p.address .systemCommand) =
    Message.load s.bytes (p.address .systemCommand) :=
  Message.load_congr h.bytes fun _ hk =>
    Placement.not_linkByte_of_quiet (h.valid.quiet_object (o := .systemCommand) (by decide)
      (hk.of_add (by decide)))

theorem systemAnswered :
    Yields p sw (Host.systemAnswered (Observer.passive note)) b ()
      (s.systemAnswered p note) := by
  refine (h.modifyBell .systemCommand _).bind fun b₁ h₁ => ?_
  refine (h₁.modifyFlags ({ · with systemBusy := false, responseReady := true })
    fun _ => rfl).bind fun b₂ h₂ => ?_
  refine Yields.get ?_
  have hresponse := h₂.response_eq
  have hlength : Packet.eventLength b₂.memory (p.address .systemCommand) =
      Packet.eventLength s.bytes (p.address .systemCommand) := congrArg Message.length hresponse
  have hkind : Packet.kind b₂.memory (p.address .systemCommand) =
      Packet.kind s.bytes (p.address .systemCommand) := congrArg Message.kind hresponse
  rw [h₂.host.place, Account.systemAnswered, ← hlength, ← hkind]
  exact h₂.tell note _

theorem aclAcknowledged :
    Yields p sw (Host.aclAcknowledged (Observer.passive note)) b () (s.aclAcknowledged note) := by
  refine (h.modifyBell .aclData _).bind fun b₁ h₁ => ?_
  refine (h₁.modifyFlags ({ · with aclInFlight := false }) fun _ => rfl).bind fun b₂ h₂ => ?_
  exact h₂.tell note _

/-- **The host serves the flags that the peer consumed.** -/
theorem transmitInterrupt :
    Yields p sw (Host.transmitInterrupt (Observer.passive note)) b ()
      (s.transmitInterrupt p note) := by
  obtain ⟨b₁, h₁, hrun₁⟩ := h.serve Bell.txPending .systemCommand
    fun _ b₁ h₁ => h₁.systemAnswered note
  obtain ⟨b₂, h₂, hrun₂⟩ := h₁.serve Bell.txPending .release
    fun _ b₂ h₂ => h₂.releaseAcknowledged note
  have hacl := hrun₂ fun _ => do
    if (← Board.bell .aclData).txPending then Host.aclAcknowledged (Observer.passive note)
  have hrelease := hrun₁ fun _ => do
    if (← Board.bell .release).txPending then Host.releaseAcknowledged (Observer.passive note)
    if (← Board.bell .aclData).txPending then Host.aclAcknowledged (Observer.passive note)
  exact Yields.of_run_eq (hrelease.trans hacl)
    (Yields.serve_last h₂ fun _ b₃ h₃ => h₃.aclAcknowledged note)

end Shows

end Board

end InterCore
