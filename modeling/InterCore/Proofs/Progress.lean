import InterCore.Proofs.Calls

/-!
# Progress

No core ever halts. Every link that it follows leads to a node, every inbox has room for what waits
in front of it, and without traces nobody looks at the queue that was never made. Every loop over a
line does as many rounds as the line has members, wherever in an operation the loop is entered.

The interrupts are made of calls, so their loops are entered on boards that calls lead to as well.
The loop that hands waiting buffers over is different: it is entered in the middle of giving one
back, on a board that no call leaves behind. `Board.HandsOver` names these boards, by the first
halves of the programs that give buffers back.

## Main definitions

* `Host.enqueue`, `Host.emptyBox`, `Host.takeTrace`, `Host.unmask`: these first halves.
* `Board.HandsOver`: the boards on which the host hands waiting buffers over.
* `Live`: whatever is asked of a board is done, and every loop ends in time.

## Main results

* `Host.giveBack_eq`, `Host.releaseBox_eq`, `Host.discardOne_eq`, `Host.releaseAcknowledged_eq`:
  each of these programs is its first half and then the rest.
* `Calls.never_halt`: a boot finishes, and every board that calls lead to is live.
-/

namespace InterCore

open Board Memory

variable {σ : Type}

/-! ### First halves -/

namespace Host

variable (observer : Observer σ)

/-- A buffer joins those that wait. -/
def enqueue (node : NodeIndex) : BoardM σ Unit := do
  let host := (← get).host
  splice fun a m => Chain.pushBack a m host.localQueue node
  observer { kind := .bufferReleased, channel := Channel.release.number, length := 0, code := 0 }

/-- A box loses what it owns. -/
def emptyBox (r : BoxRef) : BoardM σ (Option NodeIndex) := do
  match (← box r).node with
  | none => return none
  | some node =>
    setBox r Box.empty
    return some node

/-- The first trace record is reported and leaves its queue. -/
def takeTrace : BoardM σ (Option NodeIndex) := do
  let queue := (← get).host.queue .traces
  match ← extract fun a m => Chain.popFront a m queue with
  | none => return none
  | some node =>
    let p ← address node
    let m := (← get).memory
    observer
      { kind := .traceReceived, channel := Channel.traces.number,
        length := (Packet.eventLength m p).toUInt64, code := Packet.kind m p }
    return some node

/-- The host waits for no acknowledgement any more. -/
def unmask : BoardM σ Unit := do
  modifyBell .release (·.enableTx false)
  modifyHost fun h => { h with releasePending := false }

/-! The rest of each program follows. -/

theorem giveBack_eq (node : NodeIndex) : giveBack observer node = (do
    enqueue observer node
    if (← bell .release).hostFlag then
      modifyHost fun h => { h with releasePending := true }
      modifyBell .release (·.enableTx true)
      observer
        { kind := .releaseDeferred, channel := Channel.release.number, length := 0, code := 0 }
    else
      let _ ← flush
      ringRelease observer) := by
  simp only [giveBack, enqueue, bind_assoc]

theorem releaseBox_eq (r : BoxRef) : releaseBox observer r = (do
    match ← emptyBox r with
    | none => pure ()
    | some node => giveBack observer node) := by
  rw [releaseBox, emptyBox, bind_assoc]
  congr 1
  funext x
  cases x.node with
  | none => rfl
  | some node => simp only [bind_assoc, pure_bind]

theorem discardOne_eq : discardOne observer = (do
    match ← takeTrace observer with
    | none => return false
    | some node =>
      giveBack observer node
      return true) := by
  simp only [discardOne, takeTrace, bind_assoc]
  congr 1
  funext b
  congr 1
  funext o
  cases o with
  | none => rfl
  | some node => simp only [bind_assoc, pure_bind]

theorem releaseAcknowledged_eq : releaseAcknowledged observer = (do
    unmask
    if (← bell .release).hostFlag then
      modifyHost fun h => { h with releasePending := true }
      modifyBell .release (·.enableTx true)
    else if (← flush) ≠ 0 then
      ringRelease observer) := by
  simp only [releaseAcknowledged, unmask, bind_assoc]

end Host

/-- The host is in the middle of what it does to a board `b`, and about to hand every waiting buffer
over. -/
inductive Board.HandsOver (observer : Observer σ) (b : Board σ) : Board σ → Prop
  | atOnce : HandsOver observer b b
  | acknowledged {b₁ : Board σ} (hunmask : Host.unmask.run b = .ok () b₁) : HandsOver observer b b₁
  | released {i : Nat} {n : NodeIndex} {b₁ b₂ : Board σ}
      (htake : (Host.emptyBox (.application i)).run b = .ok (some n) b₁)
      (hlink : (Host.enqueue observer n).run b₁ = .ok () b₂) : HandsOver observer b b₂
  | discarded {n : NodeIndex} {b₁ b₂ : Board σ}
      (htake : (Host.takeTrace observer).run b = .ok (some n) b₁)
      (hlink : (Host.enqueue observer n).run b₁ = .ok () b₂) : HandsOver observer b b₂
  | givenBack {n : NodeIndex} {b₁ : Board σ} (hn : n ∈ slots) (hplaces : some n ∉ b.places)
      (hlink : (Host.enqueue observer n).run b = .ok () b₁) : HandsOver observer b b₁

/-- Whatever is asked of a board is done, and every loop over a line does as many rounds as the line
has members. -/
structure Live (p : Placement) (sw : Switches) (note : Event → σ → σ) (ts : List (Turn σ))
    (b : Board σ) : Prop where
  /-- No call halts. Traces are taken by hand only where they are switched on. -/
  finishes : ∀ c : Call, c.Permitted b → (c = .discardTraces ∨ c = .discardOne → sw.traces = true) →
    ∃ r b', (c.run (Observer.passive note)).run b = .ok r b'
  /-- A box that owns a buffer can be opened. -/
  opens : ∀ i n, (b.boxes.getD i Box.empty).node = some n →
    (Host.openBox (.application i)).run b = .ok (p.arena.locate n) b
  /-- Every link leads to a node. -/
  linked : ∀ l ∈ Line.made sw.traces, none ∉ b.line l
  /-- An inbox has room for everything that waits in front of it. -/
  roomy : ∀ e, (b.inboxNodes e).length + (b.line (.shared e.queue)).length <
    (b.host.receiver e).inbox.capacity
  /-- Without traces nobody serves their queue, -/
  shut : sw.traces = false → (b.panel.get .traces).rxPending = false
  /-- which would halt the host, -/
  barred : sw.traces = false →
    (Host.discardOne (Observer.passive note)).run b = .error .strayLink b
  /-- and nobody has written to its head. -/
  untouched : sw.traces = false → ∀ t ∈ ts, ∀ k, Within (p.address (.queue .traces)) 16 k →
    t.after.memory.get k = t.before.memory.get k
  fetches : ∀ e, ∃ b', (drain (Host.fetchOne (Observer.passive note) e)).run b =
    .ok (b.line (.shared e.queue)).length b'
  discards : sw.traces = true → ∃ b', (drain (Host.discardOne (Observer.passive note))).run b =
    .ok (b.line (.shared .traces)).length b'
  flushes : ∀ b₁, b.HandsOver (Observer.passive note) b₁ →
    ∃ b₂, Host.flush.run b₁ = .ok (b₁.line .waiting).length b₂
  reclaims : (b.panel.get .release).hostFlag = true →
    ∃ b', Peer.reclaim.run b = .ok (b.line (.shared .free)).length b'

/-- Traces are taken where the peer signals them to a host that listens, and by hand. -/
theorem Call.cases_of_drainsTraces {c : Call} {panel : Panel} (h : c.drainsTraces panel = true) :
    (panel.get .traces).rxPending = true ∨ c = .discardTraces ∨ c = .discardOne := by
  cases c with
  | operation op => cases op <;> first | exact .inl h | cases h
  | discardTraces => exact .inr (.inl rfl)
  | discardOne => exact .inr (.inr rfl)
  | systemAnswered | aclAcknowledged | flush | giveBack | fetchOne => cases h

/-! ### Boards in the middle of an operation -/

namespace Board.Shows

variable {p : Placement} {sw : Switches} {note : Event → σ → σ} {b b₁ : Board σ} {s : Account σ}
  {n : NodeIndex} (h : b.Shows p sw s)
include h

theorem exists_of_enqueue (hn : s.Proper [n])
    (hrun : (Host.enqueue (Observer.passive note) n).run b = .ok () b₁) :
    ∃ s₁, b₁.Shows p sw s₁ := by
  have hl : Line.waiting ∈ Line.made sw.traces := Line.mem_made_of_ne _ (by decide)
  have hyields : Yields p sw (Host.enqueue (Observer.passive note) n) b () _ :=
    Yields.get ((h.append hl h.host.localQueue hn).bind fun _ h₁ => h₁.tell note _)
  exact ⟨_, (hyields.of_run hrun).2⟩

theorem exists_of_unmask (hrun : Host.unmask.run b = .ok () b₁) : ∃ s₁, b₁.Shows p sw s₁ := by
  have hyields : Yields p sw Host.unmask b () _ := (h.modifyBell .release _).bind fun _ h₁ =>
    h₁.modifyFlags ({ · with releasePending := false }) fun _ => rfl
  exact ⟨_, (hyields.of_run hrun).2⟩

theorem exists_of_emptyBox (hs : s.Proper []) {i : Nat}
    (hrun : (Host.emptyBox (.application i)).run b = .ok (some n) b₁) :
    ∃ s₁, b₁.Shows p sw s₁ ∧ s₁.Proper [n] := by
  have hbox := h.box i
  cases hi : s.box i with
  | none =>
    have hyields : Yields p sw (Host.emptyBox (.application i)) b none s := by
      refine hbox.bind fun b₂ h₂ => ?_
      rw [Box.node_holding, hi]
      exact h₂.pure none
    exact absurd (hyields.of_run hrun).1 (Option.some_ne_none n)
  | some m =>
    have hyields : Yields p sw (Host.emptyBox (.application i)) b (some m) (s.setBox i none) := by
      refine hbox.bind fun b₂ h₂ => ?_
      rw [Box.node_holding, hi]
      exact (h₂.setBox i none).bind fun b₃ h₃ => h₃.pure (some m)
    obtain ⟨hnm, h₁⟩ := hyields.of_run hrun
    obtain rfl := Option.some.inj hnm
    exact ⟨_, h₁, hs.setBox_none hi⟩

theorem exists_of_takeTrace (hs : s.Proper [])
    (hrun : (Host.takeTrace (Observer.passive note)).run b = .ok (some n) b₁) :
    ∃ s₁, b₁.Shows p sw s₁ ∧ s₁.Proper [n] := by
  cases ht : sw.traces with
  | false =>
    have hhalts : (Host.takeTrace (Observer.passive note)).run b = .error .strayLink b :=
      (run_get_bind b _).trans
        (run_bind_error (h.extract_traces_halts ht))
    rw [hhalts] at hrun
    cases hrun
  | true =>
    have hmade : Line.shared .traces ∈ Line.made sw.traces := Line.mem_made_iff.mpr fun _ => ht
    cases hl : s.line (.shared .traces) with
    | nil =>
      have hyields : Yields p sw (Host.takeTrace (Observer.passive note)) b none s :=
        Yields.get ((h.takeFirst_nil hmade (h.host.queue .traces) hl).bind fun _ h₁ => h₁.pure none)
      exact absurd (hyields.of_run hrun).1 (Option.some_ne_none n)
    | cons m xs =>
      have hs₁ : (s.setLine (.shared .traces) xs).Proper [m] :=
        hs.of_perm (Account.places_takeFirst hl)
      have hm := hs₁.mem_slots List.mem_cons_self
      have hyields : Yields p sw (Host.takeTrace (Observer.passive note)) b (some m)
          ((s.setLine (.shared .traces) xs).tell note
            (Account.sighting ((s.setLine (.shared .traces) xs).message p m))) := by
        refine Yields.get ?_
        refine (h.takeFirst hmade (h.host.queue .traces) hl).bind fun b₂ h₂ => ?_
        refine (h₂.address hm).bind fun b₃ h₃ => ?_
        refine Yields.get ?_
        rw [← h₃.message_eq hm]
        exact (h₃.tell note _).bind fun b₄ h₄ => h₄.pure (some m)
      obtain ⟨hnm, h₁⟩ := hyields.of_run hrun
      obtain rfl := Option.some.inj hnm
      exact ⟨_, h₁, hs₁⟩

/-- In the middle of an operation, too, the board shows an account. -/
theorem exists_of_handsOver (hs : s.Proper [])
    (hover : b.HandsOver (Observer.passive note) b₁) : ∃ s₁, b₁.Shows p sw s₁ := by
  cases hover with
  | atOnce => exact ⟨s, h⟩
  | acknowledged hunmask => exact h.exists_of_unmask hunmask
  | released htake hlink =>
    obtain ⟨s₁, h₁, hs₁⟩ := h.exists_of_emptyBox hs htake
    exact h₁.exists_of_enqueue hs₁ hlink
  | discarded htake hlink =>
    obtain ⟨s₁, h₁, hs₁⟩ := h.exists_of_takeTrace hs htake
    exact h₁.exists_of_enqueue hs₁ hlink
  | givenBack hn hplaces hlink =>
    exact h.exists_of_enqueue (h.proper_of_not_mem hs hn hplaces) hlink

/-! ### Loops and other facts about one board -/

theorem length_line {l : Line} (hl : l ∈ Line.made sw.traces) :
    (b.line l).length = (s.line l).length := by
  rw [h.ready.line_eq h.valid hl, List.length_map]

/-- A box that owns a buffer can be opened. -/
theorem openBox (hs : s.Proper []) {i : Nat} (hi : (b.boxes.getD i Box.empty).node = some n) :
    (Host.openBox (.application i)).run b = .ok (p.arena.locate n) b := by
  have hbox : b.boxes.getD i Box.empty = Box.holding (some n) := by
    rw [h.getD_boxes, Box.node_holding] at hi
    rw [h.getD_boxes, hi]
  rw [h.getD_boxes, Box.node_holding] at hi
  have hn : n ∈ slots := (hs.setBox_none hi).mem_slots List.mem_cons_self
  have hrun : (Host.box (.application i)).run b = .ok (Box.holding (some n)) b := by
    rw [← hbox]
    rfl
  rw [Host.openBox, run_bind_ok hrun]
  exact h.ready.has_address (has_of_mem_slots hn)

/-- All events that wait for an endpoint find room in its inbox. -/
theorem length_pipeline_lt (hs : s.Proper []) (e : Endpoint) :
    (b.inboxNodes e).length + (b.line (.shared e.queue)).length <
      (b.host.receiver e).inbox.capacity := by
  have hline : (b.line (.shared e.queue)).length = (s.line (.shared e.queue)).length :=
    h.length_line (Line.mem_made_of_ne _ (Account.shared_ne_traces e))
  have hle : s.places.length ≤ 7 := List.Subperm.length_le hs
  rw [h.inboxNodes_eq, List.length_map, hline]
  show _ < 32
  cases e <;>
  · simp only [Account.places, Line.all, List.flatMap_cons, List.length_append] at hle
    simp only [Endpoint.queue]
    omega

/-- No step writes to the head of a queue that was never made. -/
theorem unmade_untouched (hp : p.Valid) {b' : Board σ} {s' : Account σ} (h' : b'.Shows p sw s')
    (ht : sw.traces = false) (hbytes : ∀ k, ¬ p.Quiet k → s'.bytes.get k = s.bytes.get k)
    {k : Address} (hk : Within (p.address (.queue .traces)) 16 k) :
    b'.memory.get k = b.memory.get k := by
  have h3 : p.arena.Has (Line.shared .traces).head := (Line.shared .traces).has_head
  rw [hp.address_queue] at hk
  have hlink : ¬ p.LinkByte sw.traces k := by
    rintro ⟨i, ⟨hi, hmade⟩, hik⟩
    refine hp.separated.links_apart h3 hi (fun heq => ?_) hk hik
    rw [hmade heq.symm] at ht
    cases ht
  rw [h'.bytes k hlink, h.bytes k hlink]
  exact hbytes k fun hquiet => hquiet.2 _ h3 hk

end Board.Shows

namespace Calls

variable {p : Placement} {sw : Switches} {note : Event → σ → σ} {b₀ b : Board σ}
  {ts : List (Turn σ)}

/-- The mask of the traces channel is the one of the boot, and the head of a queue that was never
made keeps its bytes. -/
theorem exists_guarded (hp : p.Valid) (hboxes : ∀ x ∈ b₀.boxes, x = Box.empty)
    (hmask : (b₀.panel.get .traces).rxEnabled = true → sw.traces = true)
    (h : Calls p sw note b₀ ts b) : ∃ s, b.Shows p sw s ∧ s.Proper [] ∧
      ((s.panel.get .traces).rxEnabled = true → sw.traces = true) ∧
      ∀ t ∈ ts, sw.traces = false → ∀ k, Within (p.address (.queue .traces)) 16 k →
        t.after.memory.get k = t.before.memory.get k := by
  refine h.invariant_of hp hboxes (Q := fun _ => True)
    (I := fun _ s => (s.panel.get .traces).rxEnabled = true → sw.traces = true) (fun m => ?_)
    (fun ts b s c b' hI hshows hs _ hshows' _ => ?_) fun _ _ => trivial
  · show ((b₀.panel.booted sw).get .traces).rxEnabled = true → sw.traces = true
    rw [Panel.booted]
    split
    · next ht => exact fun _ => ht
    · rw [Panel.get_modify_of_ne (by decide), Panel.get_modify_of_ne (by decide)]
      exact hmask
  · have heffect := Account.call_effect sw note hp hs c
    refine ⟨fun henabled => hI ?_, fun ht k hk => ?_⟩
    · rw [← henabled]
      exact (heffect.intake .traces).rxEnabled.symm
    · exact hshows.unmade_untouched hp hshows' ht heffect.bytes hk

/-- **No core ever halts, and no loop goes on for longer than its line.** On a board whose traces
channel may interrupt the host only if traces are switched on, a boot finishes, and every board that
calls lead to is live. -/
theorem never_halt (hp : p.Valid) (hboxes : ∀ x ∈ b₀.boxes, x = Box.empty)
    (hmask : (b₀.panel.get .traces).rxEnabled = true → sw.traces = true) :
    (∃ b₁, (Board.start p sw).run b₀ = .ok () b₁) ∧
      ∀ ts b, Calls p sw note b₀ ts b → Live p sw note ts b := by
  refine ⟨?_, fun ts b h => ?_⟩
  · obtain ⟨b₁, hrun, -⟩ := Board.start_shows hp sw b₀ hboxes
    exact ⟨b₁, hrun⟩
  obtain ⟨s, hshows, hs, henabled, huntouched⟩ := h.exists_guarded hp hboxes hmask
  have hpending : (b.panel.get .traces).rxPending = true → sw.traces = true := by
    intro hpending
    rw [hshows.panel, Bell.rxPending, Bool.and_eq_true] at hpending
    exact henabled hpending.2
  constructor
  case finishes =>
    intro c hc htraces
    obtain ⟨b', hrun, -⟩ : Yields p sw (c.run (Observer.passive note)) b _ _ :=
      hshows.call hs c hc fun hdrains =>
        (Call.cases_of_drainsTraces hdrains).elim hpending htraces
    exact ⟨_, b', hrun⟩
  case opens => exact fun i n hi => hshows.openBox hs hi
  case linked =>
    intro l hl
    rw [hshows.ready.line_eq hshows.valid hl]
    exact fun hmem => by simp at hmem
  case roomy => exact hshows.length_pipeline_lt hs
  case shut =>
    intro ht
    by_contra hne
    rw [hpending (Bool.not_eq_false _ ▸ hne)] at ht
    cases ht
  case barred => exact fun ht => hshows.discardOne_halts note ht
  case untouched => exact fun ht t hmem => huntouched t hmem ht
  case fetches =>
    intro e
    rw [hshows.length_line (Line.mem_made_of_ne _ (Account.shared_ne_traces e))]
    obtain ⟨b', hrun, -⟩ := hshows.drain_fetchOne note (e := e) hs
    exact ⟨b', hrun⟩
  case discards =>
    intro ht
    rw [hshows.length_line (Line.mem_made_iff.mpr fun _ => ht)]
    obtain ⟨b', hrun, -⟩ := hshows.drain_discardOne note ht hs
    exact ⟨b', hrun⟩
  case flushes =>
    intro b₁ hover
    obtain ⟨s₁, h₁⟩ := hshows.exists_of_handsOver hs hover
    rw [h₁.length_line (Line.mem_made_of_ne _ (by decide))]
    obtain ⟨b₂, hrun, -⟩ := h₁.flush
    exact ⟨b₂, hrun⟩
  case reclaims =>
    intro hflag
    obtain ⟨b', hrun, -⟩ := hshows.reclaim
    rw [hshows.panel] at hflag
    rw [Account.reclaimed, if_pos hflag] at hrun
    rw [hshows.length_line (Line.mem_made_of_ne _ (by decide))]
    exact ⟨b', hrun⟩

/-- No core halts while an event and a trace record pass through the host and back to the peer. -/
theorem never_halt_session :
    (∃ b₁, (Board.start Placement.standard { traces := true }).run Demo.blank = .ok () b₁) ∧
    ∃ ts b, Calls Placement.standard { traces := true } (fun _ c => c) Demo.blank ts b ∧
      ts.map (·.call) = [.deliverEvent 15 [0, 1], .deliverTrace [2, 3], .receiveInterrupt,
        .takeEvent .ble 0, .releaseBox 0, .reclaim, .transmitInterrupt].map Call.operation ∧
      Live Placement.standard { traces := true } (fun _ c => c) ts b := by
  have hmask : (Demo.blank.panel.get .traces).rxEnabled = true →
      ({ traces := true } : Switches).traces = true := fun _ => rfl
  have hnever := @never_halt _ Placement.standard { traces := true } (fun _ c => c) Demo.blank
    Placement.valid_standard Demo.boxes_blank hmask
  obtain ⟨ts, b, h, hcalls⟩ : ∃ ts b,
      Calls Placement.standard { traces := true } (fun _ c => c) Demo.blank ts b ∧
      ts.map (·.call) = [.deliverEvent 15 [0, 1], .deliverTrace [2, 3], .receiveInterrupt,
        .takeEvent .ble 0, .releaseBox 0, .reclaim, .transmitInterrupt].map Call.operation :=
    exists_of_legal Placement.valid_standard Demo.boxes_blank (by decide) (fun _ => rfl)
  exact ⟨hnever.1, ts, b, h, hcalls, hnever.2 ts b h⟩

end Calls

end InterCore
