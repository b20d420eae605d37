import InterCore.Proofs.Masks

/-!
# Boots over stale doorbells

A boot takes the doorbells as it finds them, flags and masks of an earlier boot included. It opens
the mask of the BLE events, sets that of the system events as they are switched, and opens that of
the traces if they are switched on. What it does not do is close the mask of traces that are
switched off. Found closed, that mask stays closed whatever follows, and the handler of the traces
is never reached. Found open it stays open too, and the first flag on the channel sends the host to
a queue that was never made.

## Main definitions

* `Panel.Reopened`: the receive masks of a boot, over those that it finds.
* `Panel.Ajar`: a boot finds a mask open that it should close.
* `Board.GuardsTraces`: what the receive interrupt does on a board after a boot.

## Main results

* `Panel.reopened_booted`: a boot leaves these masks.
* `Host.boot_opened`: a mask of the traces may as well be opened after the boot as before.
* `Traffic.traces_guarded`: every boot, and every board of the traffic after it.
-/

namespace InterCore

open Board

variable {σ : Type}

namespace Panel

/-- The receive masks in `q'` are those that a boot leaves over the ones in `q`. -/
structure Reopened (sw : Switches) (q q' : Panel) : Prop where
  ble : (q'.get .bleEvent).rxEnabled = true
  system : (q'.get .systemEvent).rxEnabled = sw.systemEvents
  /-- Traces are let through if they are switched on, or if they were let through before. -/
  traces : (q'.get .traces).rxEnabled = (sw.traces || (q.get .traces).rxEnabled)

/-- Traces are switched off, and their mask is open. -/
def Ajar (sw : Switches) (q : Panel) : Prop :=
  sw.traces = false ∧ (q.get .traces).rxEnabled = true

instance (sw : Switches) (q : Panel) : Decidable (Ajar sw q) :=
  inferInstanceAs (Decidable (_ ∧ _))

variable {sw : Switches} {q q' q'' : Panel}

/-- **A boot leaves these masks**, whatever it finds. -/
theorem reopened_booted (sw : Switches) (q : Panel) : q.Reopened sw (q.booted sw) := by
  obtain ⟨systemEvents, traces, logEvents⟩ := sw
  cases traces with
  | false =>
    constructor <;> simp [booted, get_modify, Bell.enableRx, Channel.bleEvent, Channel.systemEvent,
      Channel.traces]
  | true =>
    constructor <;> simp [booted, get_modify, Bell.enableRx, Channel.bleEvent, Channel.systemEvent,
      Channel.traces]

/-- Masks of the peer's flags do not change after the boot. -/
theorem Reopened.sameMasks (h : q.Reopened sw q') (hsame : q'.SameMasks q'') :
    q.Reopened sw q'' where
  ble := (hsame.rx _).trans h.ble
  system := (hsame.rx _).trans h.system
  traces := (hsame.rx _).trans h.traces

/-- The mask of the traces is as they are switched, unless it was found open. -/
theorem Reopened.traces_eq_iff (h : q.Reopened sw q') :
    (q'.get .traces).rxEnabled = sw.traces ↔ ¬ Ajar sw q := by
  rw [h.traces, Ajar]
  cases sw.traces <;> simp

/-- A mask of the traces may as well be opened after the boot as before. -/
theorem booted_enableRx (sw : Switches) (q : Panel) :
    (q.modify .traces (·.enableRx true)).booted sw =
      (q.booted sw).modify .traces (·.enableRx true) := by
  ext c
  simp only [booted]
  split <;> cases c <;>
    simp [get_modify, Bell.enableRx, Channel.bleEvent, Channel.systemEvent, Channel.traces]

end Panel

/-- A mask of the traces may as well be opened after the boot as before. -/
theorem Host.boot_opened {p : Placement} (hp : p.Valid) (sw : Switches) (b : Board σ) :
    (do modifyBell .traces (·.enableRx true); boot p.storage p.localHead sw).run b =
      (do boot p.storage p.localHead sw; modifyBell .traces (·.enableRx true)).run b := by
  rw [run_bind_ok (run_modifyBell b _ _), boot_run hp, run_bind_ok (boot_run hp b), run_modifyBell,
    Panel.booted_enableRx]

/-- What the receive interrupt does on a board, after a boot that found the doorbells `q`. -/
structure Board.GuardsTraces (sw : Switches) (note : Event → σ → σ) (q : Panel) (b : Board σ) :
    Prop where
  /-- The masks are still those of the boot. -/
  masks : q.Reopened sw b.panel
  /-- The interrupt finishes, -/
  finishes : ¬ (q.Ajar sw ∧ (b.panel.get .traces).peerFlag = true) →
    ∃ b', (Host.receiveInterrupt (Observer.passive note)).run b = .ok () b'
  /-- unless it is let through to the queue that was never made. -/
  halts : q.Ajar sw → (b.panel.get .traces).peerFlag = true →
    ∃ b', (Host.receiveInterrupt (Observer.passive note)).run b = .error .strayLink b'
  /-- Behind a mask that was found closed it makes no difference what the host would do. -/
  unreached : sw.traces = false → ¬ q.Ajar sw → ∀ x,
    (Host.receiveInterrupt (Observer.passive note)).run b =
      (Host.receiveInterruptOr (Observer.passive note) x).run b

namespace Board.Shows

variable {p : Placement} {sw : Switches} {b : Board σ} {s : Account σ} {q : Panel}

/-- The masks of the boot decide what the receive interrupt does. -/
theorem guardsTraces (h : b.Shows p sw s) (hs : s.Proper []) (hmasks : q.Reopened sw b.panel)
    (note : Event → σ → σ) : b.GuardsTraces sw note q where
  masks := hmasks
  finishes hclosed := by
    obtain ⟨b', hrun, -⟩ := h.receiveInterrupt note hs fun hpending => by
      by_contra htraces
      rw [Bool.not_eq_true] at htraces
      rw [← h.panel, Bell.rxPending, hmasks.traces, htraces, Bool.false_or,
        Bool.and_eq_true] at hpending
      exact hclosed ⟨⟨htraces, hpending.2⟩, hpending.1⟩
    exact ⟨b', hrun⟩
  halts hajar hflag := by
    refine h.receiveInterrupt_halts note hs hajar.1 ?_
    rw [← h.panel, Bell.rxPending, hmasks.traces, hajar.1, hajar.2, hflag]
    rfl
  unreached htraces hclosed x := by
    have hmasked : (b.panel.get .traces).rxPending = false := by
      rw [Bell.rxPending, hmasks.traces_eq_iff.mpr hclosed, htraces, Bool.and_false]
    rw [Host.receiveInterrupt_eq_or]
    exact h.receiveInterruptOr_run note hs hmasked _ x

end Board.Shows

namespace Traffic

variable {p : Placement}

/-- **Traces that are switched off are off, unless a boot found their mask open.** A boot succeeds
over any storage and any doorbells. It leaves the masks of BLE events, system events and traces as
they are switched, with this exception. On every board of the traffic that follows, the receive
interrupt finishes and does not serve traces that are switched off, with the same exception: then it
halts exactly if the flag of the traces is set. -/
theorem traces_guarded (hp : p.Valid) (sw : Switches) (note : Event → σ → σ) (b₀ : Board σ) :
    (∃ b, (Host.boot p.storage p.localHead sw).run b₀ = .ok () b ∧
      b₀.panel.Reopened sw b.panel ∧
      ((b.panel.get .traces).rxEnabled = sw.traces ↔ ¬ b₀.panel.Ajar sw)) ∧
    ((∀ x ∈ b₀.boxes, x = Box.empty) →
      ∀ b, Traffic p sw note b₀ b → b.GuardsTraces sw note b₀.panel) := by
  have hbooted : b₀.panel.Reopened sw (b₀.panel.booted sw) := Panel.reopened_booted sw b₀.panel
  refine ⟨⟨_, Host.boot_run hp b₀, hbooted, hbooted.traces_eq_iff⟩, fun hboxes b htraffic => ?_⟩
  obtain ⟨s, hshows, hs, hsame⟩ := htraffic.exists_shows_sameMasks hp hboxes
  rw [← hshows.panel] at hsame
  exact hshows.guardsTraces hs (hbooted.sameMasks hsame) note

/-- A blank board with the doorbells of an earlier boot, which had traces. -/
def reused : Board Demo.Console :=
  { Demo.blank with panel := Panel.reset.booted { traces := true } }

/-- Without traces, an event is queued and a trace record refused; then the flag of the traces is
set by hand. -/
theorem traces_guarded_reused : ∃ b : Board Demo.Console,
    Traffic Placement.standard {} (fun _ x => x) reused b ∧
      reused.panel.Ajar {} ∧ (b.panel.get .traces).peerFlag = true ∧
      (b.panel.get .bleEvent).rxPending = true ∧ b.peer.free.length = 4 ∧
      b.GuardsTraces {} (fun _ x => x) reused.panel := by
  have hsession : (Call.session Placement.standard {} (fun _ x => x)
      ([.deliverEvent 15 [0], .deliverTrace [1]].map Call.operation) reused).map (fun b =>
        ((b.panel.get .bleEvent).rxPending, b.peer.free.length)) = some (true, 4) := by
    decide +kernel
  obtain ⟨b, hsession, hread⟩ := Option.map_eq_some_iff.mp hsession
  obtain ⟨hevent, hfree⟩ := Prod.mk.inj hread
  obtain ⟨ts, hcalls, -⟩ := Calls.of_session hsession
  have htraffic := (of_usage (Usage.of_calls hcalls)).flag .traces .signal
  have hguards := (traces_guarded Placement.valid_standard {} (fun _ x => x) reused).2
    Demo.boxes_blank _ htraffic
  refine ⟨_, htraffic, by decide, congrArg Bell.peerFlag Panel.get_modify_self, ?_, hfree, hguards⟩
  exact (congrArg Bell.rxPending (Panel.get_modify_of_ne (by decide))).trans hevent

/-- A boot without traces, over the doorbells of a boot with traces, leaves the doorbells of a first
boot whose mask of the traces is then opened by hand. The next flag of the peer halts the host. -/
theorem stale_mask_outlasts_boot : ∃ b₁ b₂ b₃ : Board Demo.Console,
    (start Placement.standard { traces := true }).run Demo.blank = .ok () b₁ ∧
      (start Placement.standard {}).run b₁ = .ok () b₂ ∧
      (b₂.panel.get .traces).rxEnabled ≠ ({} : Switches).traces ∧
      b₂.panel = (Demo.blank.panel.booted {}).modify .traces (·.enableRx true) ∧
      (do modifyBell .traces Bell.signal
          Host.receiveInterrupt (Observer.passive fun _ x => x)).run b₂ =
        .error .strayLink b₃ := by
  obtain ⟨m₁, hrun₁, -⟩ := start_run Placement.valid_standard { traces := true } Demo.blank
  obtain ⟨b₂, hrun₂, hshows⟩ := start_shows Placement.valid_standard {}
    { Demo.blank with
      memory := m₁
      panel := Demo.blank.panel.booted { traces := true }
      clockEnables := Demo.blank.clockEnables + 1
      host := Host.fresh Placement.standard Placement.standard.arena { traces := true }
      peer := ⟨Placement.standard.referenceTable, pool.reverse.map Placement.standard.arena.locate,
        5⟩ } Demo.boxes_blank
  have hproper := Account.proper_of_perm (Account.places_booted b₂.memory
    ((Demo.blank.panel.booted { traces := true }).booted {}) Demo.blank.boxes.size Demo.blank.sink)
  have hpanel : b₂.panel = (Demo.blank.panel.booted { traces := true }).booted {} := hshows.panel
  have hpending : (((Panel.booted {} (Demo.blank.panel.booted { traces := true })).modify
      .traces Bell.signal).get .traces).rxPending = true := by decide
  obtain ⟨b, hsignal, hsignalled⟩ := hshows.modifyBell .traces Bell.signal
  obtain ⟨b₃, hhalts⟩ :=
    hsignalled.receiveInterrupt_halts (fun _ x => x) hproper rfl hpending
  refine ⟨_, b₂, b₃, hrun₁, hrun₂, ?_, ?_, ?_⟩
  · rw [hpanel]
    decide
  · rw [hpanel]
    decide
  · rw [run_bind_ok hsignal, hhalts]

end Traffic

end InterCore
