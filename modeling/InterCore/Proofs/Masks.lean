import InterCore.Proofs.Handling

/-!
# Masks of the doorbells

A boot decides which flags of the peer may interrupt the host, and nothing changes that afterwards.
The other masks are opened while the host waits for the peer to consume a flag, on the channels
where it ever does, and nowhere else. So on every board each interrupt that can come has a handler.

## Main definitions

* `Panel.SameMasks`: no mask has changed but those of flags that the host waits for.
* `Panel.Serviceable`: every interrupt that is not masked has a handler.
* `Traffic`: the boards that any use of the two cores leads to, with flags set and cleared by hand
  in between.

## Main results

* `Account.masks_call`: calls keep the masks.
* `Traffic.exists_shows_sameMasks`: every board shows an account, with the masks of the boot.
* `Traffic.exists_shows`: every board shows an account, with interrupts that have handlers.
-/

namespace InterCore

variable {σ : Type}

namespace Channel

/-- The channels on which the host waits for the peer to consume a flag. -/
def awaited : List Channel := [systemCommand, release, aclData]

end Channel

/-- A change of one flag of a channel. -/
inductive FlagChange where
  | ring
  | acknowledge
  | signal
  | clear
  deriving DecidableEq, Repr

/-- What it does to the channel. -/
def FlagChange.apply : FlagChange → Bell → Bell
  | ring => Bell.ring
  | acknowledge => Bell.acknowledge
  | signal => Bell.signal
  | clear => Bell.clear

/-! ### Panels -/

namespace Panel

/-- The masks are the same, except that the host may have begun or ended to wait. -/
structure SameMasks (q q' : Panel) : Prop where
  rx : ∀ c, (q'.get c).rxEnabled = (q.get c).rxEnabled
  tx : ∀ c ∉ Channel.awaited, (q'.get c).txEnabled = (q.get c).txEnabled

/-- Every interrupt that is not masked has a handler: the queue of the channel was made, or the host
waits on it. -/
structure Serviceable (sw : Switches) (q : Panel) : Prop where
  rx : ∀ c, (q.get c).rxEnabled = true →
    ∃ f : Feed, f.channel = c ∧ (f = .traces → sw.traces = true)
  tx : ∀ c, (q.get c).txEnabled = true → c ∈ Channel.awaited

variable {q q' q'' : Panel} {c : Channel} {sw : Switches}

namespace SameMasks

theorem refl (q : Panel) : SameMasks q q := ⟨fun _ => rfl, fun _ _ => rfl⟩

theorem trans (h : SameMasks q q') (h' : SameMasks q' q'') : SameMasks q q'' :=
  ⟨fun c => (h'.rx c).trans (h.rx c), fun c hc => (h'.tx c hc).trans (h.tx c hc)⟩

/-- Flags are no masks. -/
theorem flag (x : FlagChange) (q : Panel) (c : Channel) : SameMasks q (q.modify c x.apply) :=
  ⟨fun _ => modify_keeps fun _ => by cases x <;> rfl,
    fun _ _ => modify_keeps fun _ => by cases x <;> rfl⟩

/-- The host begins or ends to wait. -/
theorem enableTx (hc : c ∈ Channel.awaited) (on : Bool) (q : Panel) :
    SameMasks q (q.modify c (·.enableTx on)) where
  rx _ := modify_keeps (g := Bell.rxEnabled) fun _ => rfl
  tx d hd := by
    rw [get_modify_of_ne]
    rintro rfl
    exact hd hc

theorem serviceable (h : SameMasks q q') (hq : q.Serviceable sw) : q'.Serviceable sw where
  rx c hc := hq.rx c ((h.rx c).symm.trans hc)
  tx c hc := by
    by_cases hawaited : c ∈ Channel.awaited
    · exact hawaited
    · exact hq.tx c ((h.tx c hawaited).symm.trans hc)

end SameMasks

/-- A boot opens the masks of queues that it makes. -/
theorem Serviceable.booted (hq : q.Serviceable sw) : (q.booted sw).Serviceable sw where
  rx c hc := by
    by_cases hble : Channel.bleEvent = c
    · exact ⟨.events .ble, hble, fun h => by cases h⟩
    by_cases hsystem : Channel.systemEvent = c
    · exact ⟨.events .system, hsystem, fun h => by cases h⟩
    by_cases htraces : Channel.traces = c ∧ sw.traces = true
    · exact ⟨.traces, htraces.1, fun _ => htraces.2⟩
    refine hq.rx c ?_
    rw [Panel.booted] at hc
    split at hc
    · next ht =>
      rwa [get_modify_of_ne fun h => htraces ⟨h, ht⟩, get_modify_of_ne hsystem,
        get_modify_of_ne hble] at hc
    · rwa [get_modify_of_ne hsystem, get_modify_of_ne hble] at hc
  tx c hc := hq.tx c ((congrArg Outbound.txEnabled (outbound_booted sw q c)).symm.trans hc)

end Panel

/-! ### Accounts -/

namespace Account

/-- The masks of an account are the same, except that the host may have begun or ended to wait. -/
abbrev SameMasks (s s' : Account σ) : Prop := s.panel.SameMasks s'.panel

variable {p : Placement} {sw : Switches} {note : Event → σ → σ} {s : Account σ} {n : NodeIndex}
  {c : Channel} {e : Endpoint} {i j : Nat}

theorem masks_giveBack : s.SameMasks (s.giveBack note n) := by
  rw [giveBack]
  split
  · exact .enableTx (by decide) true _
  · exact .flag .ring s.panel .release

theorem masks_releaseAcknowledged : s.SameMasks (s.releaseAcknowledged note) := by
  have hmasked : s.panel.SameMasks (s.panel.modify .release (·.enableTx false)) :=
    .enableTx (by decide) false _
  rw [releaseAcknowledged]
  split
  · exact hmasked.trans (.enableTx (by decide) true _)
  · split
    · exact hmasked.trans (.flag .ring _ .release)
    · exact hmasked

theorem masks_releaseBox : s.SameMasks (s.releaseBox note i) := by
  rw [releaseBox]
  split
  · exact .refl _
  · next n _ => exact masks_giveBack (s := s.setBox i none)

theorem masks_moveBox : s.SameMasks (s.moveBox note i j) := by
  rw [moveBox]
  split
  · exact .refl _
  · exact masks_releaseBox

theorem masks_takeEvent : s.SameMasks (s.takeEvent note e i) := by
  rw [takeEvent]
  split
  · exact .refl _
  · exact masks_releaseBox

theorem masks_fetchEvents : s.SameMasks (s.fetchEvents p note e) := by
  have hrounds : ((s.line (.shared e.queue)).foldl (fetchOne p note e) s).panel = s.panel :=
    panel_foldl_fetchOne _ s
  rw [SameMasks, fetchEvents, modifyBell, hrounds]
  exact .flag .clear s.panel e.channel

theorem masks_discardOne : s.SameMasks (s.discardOne p note n) :=
  masks_giveBack (s := (s.setLine (.shared .traces) (s.line (.shared .traces)).tail).tell note _)

theorem masks_discardTraces : s.SameMasks (s.discardTraces p note) :=
  (foldl_line (R := SameMasks) (fun s => .refl s.panel) (fun _ _ _ => .trans)
    (fun _ _ _ hl => ⟨masks_discardOne, by rw [line_discardOne, hl, List.tail_cons]⟩) s).trans
    (.flag .clear _ .traces)

theorem masks_serve {pending : Bell → Bool} {f : Account σ → Account σ}
    (hf : ∀ s, SameMasks s (f s)) (s : Account σ) : s.SameMasks (s.serve pending c f) :=
  serve_rel (fun s => .refl s.panel) hf s

theorem masks_receiveInterrupt : s.SameMasks (s.receiveInterrupt p note) :=
  .trans (.trans (masks_serve (fun _ => masks_fetchEvents) s)
    (masks_serve (fun _ => masks_fetchEvents) _)) (masks_serve (fun _ => masks_discardTraces) _)

theorem masks_systemAnswered : s.SameMasks (s.systemAnswered p note) :=
  .enableTx (by decide) false _

theorem masks_aclAcknowledged : s.SameMasks (s.aclAcknowledged note) :=
  .enableTx (by decide) false _

theorem masks_transmitInterrupt : s.SameMasks (s.transmitInterrupt p note) :=
  .trans (.trans (masks_serve (fun _ => masks_systemAnswered) s)
    (masks_serve (fun _ => masks_releaseAcknowledged) _))
    (masks_serve (fun _ => masks_aclAcknowledged) _)

theorem masks_deliver (q : Queue) (kind : PacketKind) (code : UInt8) (data : List UInt8)
    (c : Channel) : s.SameMasks (s.deliver p q kind code data c) := by
  rw [deliver]
  split
  · exact .refl _
  · split
    · exact .refl _
    · exact .flag .signal s.panel c

theorem masks_reclaim : s.SameMasks s.reclaim := by
  rw [reclaim]
  split
  · exact .flag .acknowledge s.panel .release
  · exact .refl _

theorem masks_takePacket : s.SameMasks (s.takePacket c) := by
  rw [takePacket]
  split
  · exact .flag .acknowledge s.panel c
  · exact .refl _

theorem masks_answerSystemCommand (status : UInt8) :
    s.SameMasks (s.answerSystemCommand p status) := by
  rw [answerSystemCommand]
  split
  · exact .flag .acknowledge s.panel .systemCommand
  · exact .refl _

theorem masks_sendCommandSerial (bytes : List UInt8) :
    s.SameMasks (s.sendCommandSerial p note bytes) := by
  rw [sendCommandSerial]
  split
  · exact .refl _
  · exact .flag .ring s.panel .bleCommand

theorem masks_sendAclSerial (bytes : List UInt8) : s.SameMasks (s.sendAclSerial p note bytes) := by
  rw [sendAclSerial]
  split
  · exact .refl _
  · exact (Panel.SameMasks.flag .ring s.panel .aclData).trans (.enableTx (by decide) true _)

theorem masks_sendSystemCommand (opcode : UInt16) (parameters : List UInt8) :
    s.SameMasks (s.sendSystemCommand p note opcode parameters) := by
  rw [sendSystemCommand]
  split
  · exact .refl _
  · split
    · exact .refl _
    · exact (Panel.SameMasks.flag .ring s.panel .systemCommand).trans (.enableTx (by decide) true _)

theorem masks_operation (op : Operation) : s.SameMasks (op.apply p sw note s) := by
  cases op with
  | deliverEvent code data => exact masks_deliver _ _ _ _ _
  | deliverSystemEvent code data => exact masks_deliver _ _ _ _ _
  | deliverTrace data =>
    rw [Operation.apply]
    split
    · exact masks_deliver _ _ _ _ _
    · exact .refl _
  | reclaim => exact masks_reclaim
  | takeCommand => exact masks_takePacket
  | takeAcl => exact masks_takePacket
  | answerSystemCommand status => exact masks_answerSystemCommand status
  | receiveInterrupt => exact masks_receiveInterrupt
  | transmitInterrupt => exact masks_transmitInterrupt
  | fetchEvents e => exact masks_fetchEvents
  | releaseAcknowledged => exact masks_releaseAcknowledged
  | sendCommandSerial bytes => exact masks_sendCommandSerial bytes
  | sendCommand opcode parameters =>
    rw [Operation.apply, sendCommand]
    split
    · exact .refl _
    · exact masks_sendCommandSerial _
  | sendAclSerial bytes => exact masks_sendAclSerial bytes
  | sendAcl handle data =>
    rw [Operation.apply, sendAcl]
    split
    · exact .refl _
    · exact masks_sendAclSerial _
  | sendSystemCommand opcode parameters => exact masks_sendSystemCommand opcode parameters
  | takeEvent e i => exact masks_takeEvent
  | releaseBox i => exact masks_releaseBox
  | moveBox i j => exact masks_moveBox
  | destroyBox i => exact masks_releaseBox
  | writeCommandStatus | newBox | constructBox => exact .refl _

/-- **Calls keep the masks.** -/
theorem masks_call (c : Call) : s.SameMasks (c.apply p sw note s) := by
  cases c with
  | operation op => exact masks_operation op
  | systemAnswered => exact masks_systemAnswered
  | aclAcknowledged => exact masks_aclAcknowledged
  | discardTraces => exact masks_discardTraces
  | flush => exact .refl _
  | giveBack n => exact masks_giveBack
  | fetchOne e =>
    rw [Call.apply]
    split <;> exact .refl _
  | discardOne =>
    rw [Call.apply]
    split
    · exact .refl _
    · exact masks_discardOne

end Account

/-! ### Boards -/

/-- After a boot of both cores, calls, boxes made around buffers that are in no place, and flags of
any channel that are set and cleared by hand lead to a board. -/
inductive Traffic (p : Placement) (sw : Switches) (note : Event → σ → σ) (b₀ : Board σ) :
    Board σ → Prop
  | boot {b : Board σ} (hrun : (Board.start p sw).run b₀ = .ok () b) : Traffic p sw note b₀ b
  | call {b b' : Board σ} {c : Call} {r : Answer} (hbefore : Traffic p sw note b₀ b)
      (hc : c.Permitted b) (hrun : (c.run (Observer.passive note)).run b = .ok r b') :
      Traffic p sw note b₀ b'
  | wrap {b b' : Board σ} {n : NodeIndex} (hbefore : Traffic p sw note b₀ b) (hn : n ∈ slots)
      (hplaces : some n ∉ b.places) (hrun : (Host.newBox (Box.around n)).run b = .ok () b') :
      Traffic p sw note b₀ b'
  | flag {b : Board σ} (hbefore : Traffic p sw note b₀ b) (c : Channel) (x : FlagChange) :
      Traffic p sw note b₀ { b with panel := b.panel.modify c x.apply }

namespace Traffic

variable {p : Placement} {sw : Switches} {note : Event → σ → σ} {b₀ b : Board σ}

/-- A use of the two cores is traffic. -/
theorem of_usage (h : Usage p sw note b₀ b) : Traffic p sw note b₀ b := by
  induction h with
  | boot hrun => exact .boot hrun
  | call _ hc hrun ih => exact ih.call hc hrun
  | wrap _ hn hplaces hrun ih => exact ih.wrap hn hplaces hrun

/-- **Every board shows an account, with the masks that the boot left**, whatever masks it found. -/
theorem exists_shows_sameMasks (hp : p.Valid) (hboxes : ∀ x ∈ b₀.boxes, x = Box.empty)
    (h : Traffic p sw note b₀ b) :
    ∃ s, b.Shows p sw s ∧ s.Proper [] ∧ (b₀.panel.booted sw).SameMasks s.panel := by
  induction h with
  | boot hrun =>
    obtain ⟨b', hrun', hshows⟩ := Board.start_shows hp sw b₀ hboxes
    rw [hrun'] at hrun
    injection hrun with _ hb
    exact ⟨_, hb ▸ hshows, Account.proper_of_perm (Account.places_booted _ _ _ _), .refl _⟩
  | call _ hc hrun ih =>
    obtain ⟨s, hshows, hs, hmasks⟩ := ih
    exact ⟨_, (hshows.of_call hs hc hrun).2, Account.proper_call hp hshows hs hc,
      hmasks.trans (Account.masks_call _)⟩
  | wrap _ hn hplaces hrun ih =>
    obtain ⟨s, hshows, hs, hmasks⟩ := ih
    obtain ⟨hshows', hs'⟩ := hshows.of_wrap hs hn hplaces hrun
    exact ⟨_, hshows', hs', hmasks⟩
  | flag _ c x ih =>
    obtain ⟨s, hshows, hs, hmasks⟩ := ih
    obtain ⟨b', hrun, hshows'⟩ := hshows.modifyBell c x.apply
    obtain rfl := (EStateM.Result.ok.inj ((Board.run_modifyBell _ c x.apply).symm.trans hrun)).2
    exact ⟨_, hshows', hs, hmasks.trans (.flag x _ c)⟩

/-- **Every board shows an account, and every interrupt that is not masked has a handler.** -/
theorem exists_shows (hp : p.Valid) (hboxes : ∀ x ∈ b₀.boxes, x = Box.empty)
    (hmasks : b₀.panel.Serviceable sw) (h : Traffic p sw note b₀ b) :
    ∃ s, b.Shows p sw s ∧ s.Proper [] ∧ s.panel.Serviceable sw := by
  obtain ⟨s, hshows, hs, hsame⟩ := h.exists_shows_sameMasks hp hboxes
  exact ⟨s, hshows, hs, hsame.serviceable hmasks.booted⟩

end Traffic

end InterCore
