import InterCore.Proofs.Callbacks

/-!
# Programs that are re-entered

Every program of the host and of the peer keeps the invariant of runs with callbacks, whatever the
observer does in the middle of it, if only the observer keeps the invariant itself. Nothing is asked
of boxes and inboxes, which callbacks may change under a program that is using them.

## Main definitions

* `Observer.Obeys`: an observer that keeps the invariant at every event.

## Main results

* `Observer.Obeys.dropNoted`, `Observer.Obeys.releaseAcknowledged`: giving buffers back, re-entered.
* `Observer.Obeys.operation`: every operation keeps the invariant.
-/

namespace InterCore

open Memory Board

variable {p : Placement} {sw : Switches} {start : Bell} {k : Nat} {b b' : Board Ledger}

/-! ### Keeping the invariant -/

theorem Rings.congr (h : Rings start b) (hsink : b'.sink = b.sink)
    (hflag : (b'.panel.get .release).hostFlag = (b.panel.get .release).hostFlag)
    (hrings : (b'.panel.get .release).rings = (b.panel.get .release).rings) : Rings start b' where
  earlier := by rw [hsink, h.earlier]
  rings := by rw [hrings, hsink, h.rings]
  alternates := by rw [Alternates, hsink, hflag, h.alternates]
  breaches := by rw [hsink, h.breaches]

namespace Sound

/-- Steps that move no buffer. -/
theorem of_ready (h : Sound p sw start k b)
    (hready : ∀ q free, b.Ready p sw q free → b'.Ready p sw q free) (hsink : b'.sink = b.sink)
    (hflag : (b'.panel.get .release).hostFlag = (b.panel.get .release).hostFlag)
    (hrings : (b'.panel.get .release).rings = (b.panel.get .release).rings) :
    Sound p sw start k b' := by
  obtain ⟨q, free, hlines, hbalances⟩ := h.lines
  exact ⟨⟨q, free, hready q free hlines, hsink ▸ hbalances⟩, h.rings.congr hsink hflag hrings⟩

/-- Steps of the ledger alone. -/
theorem note (h : Sound p sw start k b) {l : Ledger} {j : Nat}
    (hl : ∀ q, b.sink.Balances q k → l.Balances q j) (hrings : Rings start { b with sink := l }) :
    Sound p sw start j { b with sink := l } := by
  obtain ⟨q, free, hready, hbalances⟩ := h.lines
  exact ⟨⟨q, free, ⟨hready.host, hready.carries⟩, hl q hbalances⟩, hrings⟩

theorem run_address (h : Sound p sw start k b) {n : NodeIndex} (hn : n ∈ slots) :
    (Board.address n).run b = .ok (p.arena.locate n) b :=
  let ⟨_, _, hready, _⟩ := h.lines
  hready.has_address (has_of_mem_slots hn)

end Sound

/-! ### Steps that move no buffer -/

theorem keeps_modifyHost (f : Host → Host) (hf : ∀ h, h.Started p sw → (f h).Started p sw) :
    Keeps (releasePact p sw start) (modifyHost f) :=
  .of_run (fun b => run_modifyHost b f) fun _ _ h =>
    h.of_ready (fun _ _ hready => ⟨hf _ hready.host, hready.carries⟩) rfl rfl rfl

theorem keeps_modifyBell (c : Channel) (f : Bell → Bell)
    (hf : c = .release → ∀ x, (f x).hostFlag = x.hostFlag ∧ (f x).rings = x.rings) :
    Keeps (releasePact p sw start) (modifyBell c f) := by
  refine .of_run (fun b => run_modifyBell b c f) fun _ b h => ?_
  have hbell : ((b.panel.modify c f).get .release).hostFlag = (b.panel.get .release).hostFlag ∧
      ((b.panel.modify c f).get .release).rings = (b.panel.get .release).rings := by
    rw [Panel.get_modify]
    split
    · next hc => exact hc ▸ hf hc _
    · exact ⟨rfl, rfl⟩
  exact h.of_ready (fun _ _ hready => ⟨hready.host, hready.carries⟩) rfl hbell.1 hbell.2

/-- Stores that no link and no table sees. -/
theorem keeps_modifyMemory (hp : p.Valid) {S : Address → Prop} {f : Memory → Memory}
    (hf : ∀ m, AgreeOff S m (f m)) (hS : ∀ k, S k → p.Quiet k) :
    Keeps (releasePact p sw start) (modifyMemory f) :=
  .of_run (fun b => run_modifyMemory b f) fun _ b h =>
    h.of_ready (fun _ _ hready =>
      ⟨hready.host, hready.carries.of_quiet hp (hf b.memory) hS⟩) rfl rfl rfl

theorem keeps_modifyBoxes (f : Array Box → Array Box) :
    Keeps (releasePact p sw start) (modify fun b => { b with boxes := f b.boxes }) :=
  .of_run (fun _ => rfl) fun _ _ h =>
    h.of_ready (fun _ _ hready => ⟨hready.host, hready.carries⟩) rfl rfl rfl

theorem keeps_bell (c : Channel) : Keeps (releasePact p sw start) (bell c) :=
  .of_run (fun b => run_bell b c) fun _ _ h => h

/-- A queue of events has other members. -/
theorem Ledger.Balances.setLine {l : Ledger} {q : Line → List NodeIndex} {j : Nat}
    (h : l.Balances q k) {x : Queue} (hx : x ≠ .free) {ns : List NodeIndex}
    (hj : ns.length + j ≤ (q (.shared x)).length + k) :
    l.Balances (setLine q (.shared x) ns) j where
  dropped := by
    rw [InterCore.setLine, Function.update_of_ne fun heq => hx (Line.shared.inj heq).symm,
      Function.update_of_ne Line.noConfusion, h.dropped]
  told := h.told
  begun := by
    have hcount := incoming_setLine q hx ns
    have hbegun := h.begun
    omega

/-- The host takes the first event or trace record, if there is a queue to take it from. -/
theorem Sound.popFront (h : Sound p sw start k b) (hp : p.Valid) {x : Queue} (hx : x ≠ .free) :
    Ensures (releasePact p sw start).halted
      (extract fun a m => Chain.popFront a m (Line.shared x).head) b
      fun r b' => Sound p sw start (k + r.isSome.toNat) b' ∧ ∀ n, r = some n → n ∈ slots := by
  obtain ⟨q, free, hready, hbalances⟩ := h.lines
  by_cases hmade : Line.shared x ∈ Line.made sw.traces
  · cases hq : q (.shared x) with
    | nil => exact .of_ok (hready.takeFirst_nil hp hmade hq) ⟨h, fun _ hr => nomatch hr⟩
    | cons n ns =>
      obtain ⟨m', hrun, -, hready'⟩ := hready.takeFirst hp hmade hq
      refine .of_ok hrun ⟨⟨⟨_, free, hready', hbalances.setLine hx ?_⟩, { h.rings with }⟩, ?_⟩
      · rw [hq, List.length_cons, Nat.add_assoc, Nat.add_comm 1]
        exact le_rfl
      · rintro _ ⟨⟩
        exact hready.carries.mem_slots_of_mem (hq ▸ List.mem_cons_self)
  · obtain ⟨hline, ht⟩ := Classical.not_imp.mp (mt Line.mem_made_iff.mpr hmade)
    have ht := Bool.eq_false_of_not_eq_true ht
    have hrun : (extract fun a m => Chain.popFront a m (Line.shared x).head).run b =
        .error .strayLink b := by
      refine run_extract_error b ?_
      rw [hready.host.arena, hline]
      exact hready.carries.takeFirst_unmade hp ht
    exact .of_error hrun ⟨h.weaken, .untraced (by rw [h.started.switches, ht])⟩

theorem keeps_box (r : BoxRef) : Keeps (releasePact p sw start) (Host.box r) := by
  refine .get fun _ b _ => ?_
  cases r with
  | application i => exact .pure _
  | inbox e c => exact .pure _

theorem started_withInbox {h : Host} (hs : h.Started p sw) (e : Endpoint) (ring : Inbox) :
    (h.withInbox e ring).Started p sw := by
  cases e <;> exact { hs with }

theorem keeps_setBox (r : BoxRef) (x : Box) : Keeps (releasePact p sw start) (Host.setBox r x) := by
  cases r with
  | application i => exact keeps_modifyBoxes (·.setIfInBounds i x)
  | inbox e c =>
    exact keeps_modifyHost (fun h => h.withInbox e ((h.receiver e).inbox.setSlot c x))
      fun _ hs => started_withInbox hs e _

theorem keeps_takeBox (r : BoxRef) : Keeps (releasePact p sw start) (Host.takeBox r) :=
  (keeps_box r).bind fun x => (keeps_setBox r Box.empty).bind fun _ => .pure x

theorem keeps_modifyInbox (e : Endpoint) (f : Inbox → Inbox) :
    Keeps (releasePact p sw start) (Host.modifyInbox e f) :=
  keeps_modifyHost _ fun _ hs => started_withInbox hs e _

theorem keeps_inbox (e : Endpoint) : Keeps (releasePact p sw start) (Host.inbox e) :=
  .of_run (fun b => Host.run_inbox e b) fun _ _ h => h

/-! ### The peer -/

/-- The peer finds the queue of the BLE events. -/
theorem run_bleTable (h : Sound p sw start k b) : Peer.bleTable.run b = .ok p.bleTable b :=
  let ⟨_, _, hready, _⟩ := h.lines
  hready.run_bleTable

theorem run_systemTable (h : Sound p sw start k b) :
    Peer.systemTable.run b = .ok p.systemTable b :=
  let ⟨_, _, hready, _⟩ := h.lines
  hready.run_systemTable

/-- **The peer fills a slot and queues it.** -/
theorem spends_deliver (hp : p.Valid) {x : Queue} (hx : x ≠ .free)
    (hmade : Line.shared x ∈ Line.made sw.traces) (kind : PacketKind) (code : UInt8)
    (data : List UInt8) (c : Channel) :
    Spends (releasePact p sw start) (Peer.deliver (p.address (.queue x)) kind code data c) := by
  intro k b h
  obtain ⟨q, free, hready, hbalances⟩ := h.lines
  have hpeer := hready.carries.peer_free
  refine .get ?_
  cases free with
  | nil =>
    rw [hpeer]
    exact (Keeps.pure false).spends k b h
  | cons n ns =>
    rw [hpeer]
    show Ensures _ (if _ then _ else _) b _
    by_cases hlong : Packet.eventPayload < data.length
    · rw [if_pos (Or.inr hlong)]
      exact (Keeps.pure false).spends k b h
    · rw [if_neg (not_or.mpr ⟨hp.address_ne_null _, hlong⟩)]
      obtain ⟨-, hcarries⟩ := hready.carries.fill hp hmade kind.code code (Nat.not_lt.mp hlong)
      have hfilled : Sound p sw start k { b with
          memory := Peer.linkBack (Packet.putEvent b.memory (p.arena.locate n) kind.code code
            (UInt8.ofNat data.length) data) (p.address (.queue x)) (p.arena.locate n)
          peer := { b.peer with free := ns.map p.arena.locate } } := by
        refine ⟨⟨_, ns, ⟨hready.host, hcarries⟩, hbalances.setLine hx ?_⟩, { h.rings with }⟩
        rw [List.length_append, List.length_singleton, Nat.add_assoc, Nat.add_comm 1]
      refine .bind_of_ok (run_modifyPeer b _) (.bind_of_ok (run_modifyMemory _ _) ?_)
      exact ((keeps_modifyBell c Bell.signal fun _ _ => ⟨rfl, rfl⟩).bind fun _ => .pure true) _ _
        hfilled

/-- Without a queue the peer delivers nothing. -/
theorem keeps_deliver_null (kind : PacketKind) (code : UInt8) (data : List UInt8) (c : Channel) :
    Keeps (releasePact p sw start) (Peer.deliver Address.null kind code data c) := by
  refine .get fun _ b h => ?_
  cases b.peer.free with
  | nil => exact .pure false
  | cons slot rest =>
    show Keeps _ (if _ then _ else _)
    rw [if_pos (Or.inl rfl)]
    exact .pure false

theorem spends_deliverEvent (hp : p.Valid) (code : UInt8) (data : List UInt8) :
    Spends (releasePact p sw start) (Peer.deliverEvent code data) := fun k b h =>
  .bind_of_ok (run_bleTable h)
    (spends_deliver hp (x := .ble) (by decide) (Line.mem_made_of_ne _ (by decide)) _ _ _ _ k b h)

theorem spends_deliverSystemEvent (hp : p.Valid) (code : UInt8) (data : List UInt8) :
    Spends (releasePact p sw start) (Peer.deliverSystemEvent code data) := fun k b h =>
  .bind_of_ok (run_systemTable h)
    (spends_deliver hp (x := .system) (by decide) (Line.mem_made_of_ne _ (by decide)) _ _ _ _ k b h)

theorem spends_deliverTrace (hp : p.Valid) (data : List UInt8) :
    Spends (releasePact p sw start) (Peer.deliverTrace data) := by
  intro k b h
  obtain ⟨q, free, hready, -⟩ := h.lines
  have htraces : TracesTable.load b.memory p.references.traces = p.tracesTable sw.traces :=
    hready.carries.published.traces
  refine .bind_of_ok hready.run_references (.get ?_)
  rw [htraces, Placement.tracesTable]
  cases ht : sw.traces with
  | false => exact (keeps_deliver_null _ _ _ _).spends k b h
  | true =>
    have hmade : Line.shared .traces ∈ Line.made sw.traces := Line.mem_made_iff.mpr fun _ => ht
    exact spends_deliver hp (by decide) hmade _ _ _ _ k b h

theorem keeps_takePacket {c : Channel} (hc : c ≠ .release) (format : Format) (a : Address) :
    Keeps (releasePact p sw start) (Peer.takePacket c format a) := by
  refine (keeps_bell c).bind fun _ => .ite (.get fun _ b _ => ?_) (.pure none)
  exact (keeps_modifyBell c Bell.acknowledge fun h => absurd h hc).bind fun _ => .pure _

theorem keeps_takeCommand : Keeps (releasePact p sw start) Peer.takeCommand := fun k b h =>
  .bind_of_ok (run_bleTable h) (keeps_takePacket (by decide) _ _ k b h)

theorem keeps_takeAcl : Keeps (releasePact p sw start) Peer.takeAcl := fun k b h =>
  .bind_of_ok (run_bleTable h) (keeps_takePacket (by decide) _ _ k b h)

/-- The peer fills a buffer with an event. -/
theorem keeps_putEvent (hp : p.Valid) {x : Object} (hx : x ∈ Object.buffers)
    (kind code length : UInt8) {data : Memory → List UInt8}
    (hsize : ∀ m, 19 + (data m).length ≤ x.size) :
    Keeps (releasePact p sw start)
      (modifyMemory fun m => Packet.putEvent m (p.address x) kind code length (data m)) := by
  refine keeps_modifyMemory hp (fun m => agreeOff_write_of_add m ?_ x.size_le)
    fun k hk => hp.quiet_object hx hk
  have := hsize m
  simp only [List.length_cons, UInt64.reduceToNat]
  omega

theorem keeps_answerSystemCommand (hp : p.Valid) (status : UInt8) :
    Keeps (releasePact p sw start) (Peer.answerSystemCommand status) := by
  refine (keeps_bell _).bind fun _ => .ite (fun k b h => ?_) (.pure false)
  refine .bind_of_ok (run_systemTable h) ?_
  refine Keeps.bind (keeps_putEvent hp (x := .systemCommand) (by decide) _ _ _ fun m => ?_)
    (fun _ => ?_) k b h
  · rw [List.length_cons, List.length_append, length_read]
    exact (by decide : 23 ≤ Object.systemCommand.size)
  · exact (keeps_modifyBell .systemCommand Bell.acknowledge (absurd · (by decide))).bind
      fun _ => .pure true

theorem keeps_writeCommandStatus (hp : p.Valid) (status : UInt8) (opcode : UInt16) :
    Keeps (releasePact p sw start) (Peer.writeCommandStatus status opcode) := by
  intro k b h
  refine .bind_of_ok (run_bleTable h) ?_
  refine keeps_putEvent hp (x := .commandStatus) (by decide) _ _ _ (fun m => ?_) k b h
  rw [List.length_append, LittleEndian.length_encode]
  exact (by decide : 23 ≤ Object.commandStatus.size)

/-- **What the peer takes back was dropped first.** -/
theorem keeps_reclaimNoted (hp : p.Valid) : Keeps (releasePact p sw start) reclaimNoted := by
  intro k b h
  obtain ⟨q, free, hready, hbalances⟩ := h.lines
  refine .bind_of_ok (run_bell b .release) ?_
  cases hflag : (b.panel.get .release).hostFlag with
  | false =>
    refine .bind_of_ok (Ready.reclaim_unset hflag) (.get ?_)
    refine .of_ok (run_modifySink _ _) (h.note (fun q hq => { hq with dropped := ?_ })
      { h.rings with })
    rw [List.take_zero, List.reverse_nil, List.append_nil]
    exact hq.dropped
  | true =>
    obtain ⟨m', hrun, -, hready'⟩ := hready.reclaim hp hflag
    have hslots := hready'.slotsToFill_eq hp
    have htaken : ((((q (.shared .free)).reverse ++ free).map some).take
        (q (.shared .free)).length).reverse = (q (.shared .free)).map some := by
      rw [List.map_append, List.take_left' (by rw [List.length_map, List.length_reverse]),
        List.map_reverse, List.reverse_reverse]
    have hbell := Panel.get_modify b.panel .release .release Bell.acknowledge
    have hcount : b.sink.rung + b.sink.earlier.toNat = b.sink.acknowledged + 1 := by
      have := h.rings.alternates
      rwa [Alternates, hflag] at this
    refine .bind_of_ok hrun (.get ?_)
    refine .of_ok (run_modifySink _ _) ⟨⟨_, _, ⟨hready'.host, hready'.carries⟩, ?_,
      hbalances.told, hbalances.begun⟩, ?_⟩
    · rw [hslots, htaken, setLine, Function.update_self, Function.update_of_ne Line.noConfusion,
        List.nil_append, List.append_assoc, ← List.map_append]
      exact hbalances.dropped
    · refine ⟨h.rings.earlier, ?_, ?_, h.rings.breaches⟩
      · show ((b.panel.modify .release Bell.acknowledge).get .release).rings = _
        rw [hbell]
        exact h.rings.rings
      · show b.sink.rung + b.sink.earlier.toNat = b.sink.acknowledged + 1 +
          ((b.panel.modify .release Bell.acknowledge).get .release).hostFlag.toNat
        rw [hbell]
        exact hcount

/-! ### Observers -/

/-- An observer that finds the invariant again by the end of each callback, if it holds as soon as
the event is counted. -/
def Observer.Obeys (p : Placement) (sw : Switches) (start : Bell) (o : Observer Ledger) : Prop :=
  ∀ e k b, Sound p sw start k { b with sink := b.sink.noted e } →
    Ensures (releasePact p sw start).halted (o e) b fun _ => Sound p sw start k

namespace Observer.Obeys

variable {o : Observer Ledger} (ho : o.Obeys p sw start) (hp : p.Valid)
include ho

/-- Events that are not counted. -/
theorem other {e : Event} (he : ∀ l : Ledger, l.noted e = l) :
    Keeps (releasePact p sw start) (o e) := fun k b h => by
  refine ho e k b ?_
  rw [he]
  exact h

/-! ### Giving back -/

/-- A doorbell that is free is rung. -/
theorem ringRelease (h : Sound p sw start k b) (hflag : (b.panel.get .release).hostFlag = false) :
    Ensures (releasePact p sw start).halted (Host.ringRelease o) b fun _ => Sound p sw start k :=
  .bind_of_ok (run_modifyBell b _ _) (ho _ _ _ (h.ring hflag))

include hp

/-- **A buffer is given back.** The callback that is told the drop may find the doorbell free and
leave it set. -/
theorem dropNoted (n : NodeIndex) : Keeps (releasePact p sw start) (dropNoted o n) := by
  intro k b h
  refine .get ?_
  split
  · next hn =>
    obtain ⟨m', hrun, hlinked⟩ := h.append hp hn
    refine .bind_of_ok (run_modifySink b _) (.get (.bind_of_ok hrun ?_))
    refine .bind (ho _ k _ hlinked) fun _ b₁ h₁ => ?_
    refine .bind_of_ok (run_bell b₁ .release) ?_
    split
    · refine Keeps.bind (keeps_modifyHost ({ · with releasePending := true })
        fun _ hs => { hs with }) (fun _ => ?_) k b₁ h₁
      refine (keeps_modifyBell .release (·.enableTx true) fun _ _ => ⟨rfl, rfl⟩).bind fun _ => ?_
      exact ho.other fun _ => rfl
    · next hflag =>
      obtain ⟨j, m₂, hflush, h₂⟩ := h₁.flush hp
      exact .bind_of_ok hflush (ho.ringRelease h₂ (Bool.eq_false_of_not_eq_true hflag))
  · next hn =>
    refine .bind_of_ok (run_modifySink b _) (.of_error rfl ⟨?_, .refused rfl hn⟩)
    exact h.weaken.note (fun _ hbalances => { hbalances with }) { h.rings with }

/-- **The host takes notice of an acknowledged ring.** -/
theorem releaseAcknowledged : Keeps (releasePact p sw start) (Host.releaseAcknowledged o) := by
  refine (keeps_modifyBell .release (·.enableTx false) fun _ _ => ⟨rfl, rfl⟩).bind fun _ => ?_
  refine Keeps.bind (keeps_modifyHost ({ · with releasePending := false })
    fun _ hs => { hs with }) fun _ k b h => ?_
  refine .bind_of_ok (run_bell b .release) ?_
  split
  · refine Keeps.bind (keeps_modifyHost ({ · with releasePending := true })
      fun _ hs => { hs with }) (fun _ => ?_) k b h
    exact keeps_modifyBell .release (·.enableTx true) fun _ _ => ⟨rfl, rfl⟩
  · next hflag =>
    obtain ⟨j, m₂, hflush, h₂⟩ := h.flush hp
    refine .bind_of_ok hflush ?_
    split
    · exact ho.ringRelease h₂ (Bool.eq_false_of_not_eq_true hflag)
    · exact .of_ok rfl h₂

/-! ### Boxes -/

theorem releaseBox (r : BoxRef) :
    Keeps (releasePact p sw start) (Host.releaseBox o r (InterCore.dropNoted o)) := by
  refine (keeps_box r).bind fun x => ?_
  cases x.node with
  | none => exact .pure ()
  | some n => exact (keeps_setBox r Box.empty).bind fun _ => ho.dropNoted hp n

theorem assignBox (r : BoxRef) (x : Box) :
    Keeps (releasePact p sw start) (Host.assignBox o r x (InterCore.dropNoted o)) :=
  (ho.releaseBox hp r).bind fun _ => keeps_setBox r x

theorem moveBox (r r' : BoxRef) :
    Keeps (releasePact p sw start) (Host.moveBox o r r' (InterCore.dropNoted o)) := by
  rw [Host.moveBox]
  refine .ite ?_ (.pure ())
  exact (ho.releaseBox hp r').bind fun _ => (keeps_takeBox r).bind fun x => keeps_setBox r' x

theorem destroyBox (i : Nat) :
    Keeps (releasePact p sw start) (Host.destroyBox o i (InterCore.dropNoted o)) :=
  (ho.releaseBox hp _).bind fun _ => keeps_modifyBoxes (·.eraseIdxIfInBounds i)

/-! ### Events -/

/-- Only an inbox without room takes no box. -/
theorem deliverBox (e : Endpoint) (x : Box) (h : Sound p sw start k b) :
    Ensures (releasePact p sw start).halted (Host.deliverBox o e x (InterCore.dropNoted o)) b
      fun yes b' => Sound p sw start k b' ∧
        (yes = false → (b'.host.receiver e).inbox.isFull = true) := by
  refine .bind_of_ok (Host.run_inbox e b) ?_
  split
  · next hfull => exact .of_ok rfl ⟨h, fun _ => hfull⟩
  · refine (ho.assignBox hp _ x k b h).bind fun _ b₁ h₁ => ?_
    refine (keeps_modifyInbox e _ k b₁ h₁).bind fun _ b₂ h₂ => ?_
    exact .of_ok rfl ⟨h₂, Bool.noConfusion⟩

theorem takeEvent (e : Endpoint) (i : Nat) :
    Keeps (releasePact p sw start) (Host.takeEvent o e i (InterCore.dropNoted o)) := by
  refine (keeps_inbox e).bind fun ring => ?_
  refine .ite (.pure false) ?_
  refine (ho.moveBox hp _ _).bind fun _ => ?_
  exact (keeps_modifyInbox e _).bind fun _ => .pure true

theorem fetchOne (e : Endpoint) :
    Gains (releasePact p sw start) (Host.fetchOne o e (InterCore.dropNoted o)) := by
  intro k b h
  have he : e.queue ≠ .free := by cases e <;> decide
  refine .get ?_
  rw [h.started.receiver_queue e]
  refine (h.popFront hp he).bind fun r b₁ h₁ => ?_
  cases r with
  | none => exact .of_ok rfl h₁.1
  | some n =>
    refine .bind_of_ok (h₁.1.run_address (h₁.2 n rfl)) (.get ?_)
    refine (ho.deliverBox hp e _ h₁.1).bind fun yes b₂ h₂ => ?_
    cases yes with
    | false => exact .of_error rfl ⟨h₂.1.weaken, .overflow (h₂.2 rfl)⟩
    | true =>
      have htold : ∀ length code, Keeps (releasePact p sw start)
          (o { kind := e.received, channel := e.channel.number, length, code }) :=
        fun _ _ => ho.other (by cases e <;> exact fun _ => rfl)
      exact (htold _ _ _ b₂ h₂.1).bind fun _ b₃ h₃ => .of_ok rfl h₃

/-- **The interrupt routine of an endpoint.** -/
theorem fetchEvents (e : Endpoint) :
    Keeps (releasePact p sw start) (Host.fetchEvents o e (InterCore.dropNoted o)) := by
  refine (ho.fetchOne hp e).drain.bind fun _ => ?_
  exact keeps_modifyBell _ Bell.clear fun _ _ => ⟨rfl, rfl⟩

theorem discardOne :
    Gains (releasePact p sw start) (Host.discardOne o (InterCore.dropNoted o)) := by
  intro k b h
  refine .get ?_
  rw [h.started.queue .traces]
  refine (h.popFront hp (by decide)).bind fun r b₁ h₁ => ?_
  cases r with
  | none => exact .of_ok rfl h₁.1
  | some n =>
    refine .bind_of_ok (h₁.1.run_address (h₁.2 n rfl)) (.get ?_)
    have htold : ∀ length code, Keeps (releasePact p sw start)
        (o { kind := .traceReceived, channel := Channel.traces.number, length, code }) :=
      fun _ _ => ho.other fun _ => rfl
    refine (htold _ _ _ b₁ h₁.1).bind fun _ b₂ h₂ => ?_
    exact (ho.dropNoted hp n _ b₂ h₂).bind fun _ b₃ h₃ => .of_ok rfl h₃

theorem discardTraces :
    Keeps (releasePact p sw start) (Host.discardTraces o (InterCore.dropNoted o)) := by
  refine (ho.discardOne hp).drain.bind fun _ => ?_
  exact keeps_modifyBell _ Bell.clear fun _ _ => ⟨rfl, rfl⟩

/-! ### Interrupts -/

/-- **The host serves the flags of the peer.** -/
theorem receiveInterrupt :
    Keeps (releasePact p sw start) (Host.receiveInterrupt o (InterCore.dropNoted o)) := by
  have htraces : Keeps (releasePact p sw start) (do
      if (← bell .traces).rxPending then Host.discardTraces o (InterCore.dropNoted o)) :=
    (keeps_bell .traces).bind fun _ => .ite (ho.discardTraces hp) (.pure ())
  have hble : Keeps (releasePact p sw start) (do
      if (← bell .bleEvent).rxPending then Host.fetchEvents o .ble (InterCore.dropNoted o)
      if (← bell .traces).rxPending then Host.discardTraces o (InterCore.dropNoted o)) :=
    (keeps_bell .bleEvent).bind fun _ =>
      .ite ((ho.fetchEvents hp .ble).bind fun _ => htraces) htraces
  exact (keeps_bell .systemEvent).bind fun _ =>
    .ite ((ho.fetchEvents hp .system).bind fun _ => hble) hble

omit hp in
theorem aclAcknowledged : Keeps (releasePact p sw start) (Host.aclAcknowledged o) := by
  refine (keeps_modifyBell .aclData (·.enableTx false) fun _ _ => ⟨rfl, rfl⟩).bind fun _ => ?_
  refine (keeps_modifyHost ({ · with aclInFlight := false }) fun _ hs => { hs with }).bind
    fun _ => ?_
  exact ho.other fun _ => rfl

omit hp in
theorem systemAnswered : Keeps (releasePact p sw start) (Host.systemAnswered o) := by
  refine (keeps_modifyBell .systemCommand (·.enableTx false) fun _ _ => ⟨rfl, rfl⟩).bind
    fun _ => ?_
  refine (keeps_modifyHost ({ · with systemBusy := false, responseReady := true })
    fun _ hs => { hs with }).bind fun _ => ?_
  exact .get fun _ b _ => ho.other fun _ => rfl

/-- **The host serves the flags that the peer consumed.** -/
theorem transmitInterrupt : Keeps (releasePact p sw start) (Host.transmitInterrupt o) := by
  have hacl : Keeps (releasePact p sw start) (do
      if (← bell .aclData).txPending then Host.aclAcknowledged o) :=
    (keeps_bell .aclData).bind fun _ => .ite ho.aclAcknowledged (.pure ())
  have hrelease : Keeps (releasePact p sw start) (do
      if (← bell .release).txPending then Host.releaseAcknowledged o
      if (← bell .aclData).txPending then Host.aclAcknowledged o) :=
    (keeps_bell .release).bind fun _ =>
      .ite ((ho.releaseAcknowledged hp).bind fun _ => hacl) hacl
  exact (keeps_bell .systemCommand).bind fun _ =>
    .ite (ho.systemAnswered.bind fun _ => hrelease) hrelease

/-! ### Sends -/

omit hp in
theorem reject (c : Channel) (bytes : List UInt8) (e : SendError) :
    Keeps (releasePact p sw start) (Host.reject o c bytes e) :=
  (ho.other fun _ => rfl).bind fun _ => .pure _

theorem sendCommandSerial (bytes : List UInt8) :
    Keeps (releasePact p sw start) (Host.sendCommandSerial o bytes) := by
  rw [Host.sendCommandSerial]
  split
  · exact ho.reject _ _ _
  · next hfits =>
    have hsize := Object.bleCommand_fits hfits
    refine .get fun _ b h => ?_
    rw [h.started.place]
    refine (keeps_modifyMemory hp (fun m => p.agreeOff_writeSerial m _ hsize)
      fun k hk => hp.quiet_object (by decide) hk).bind fun _ => ?_
    refine (keeps_modifyBell .bleCommand Bell.ring (absurd · (by decide))).bind fun _ => ?_
    exact (ho.other fun _ => rfl).bind fun _ => .pure _

theorem sendCommand (opcode : UInt16) (parameters : List UInt8) :
    Keeps (releasePact p sw start) (Host.sendCommand o opcode parameters) :=
  .ite (ho.reject _ _ _) (ho.sendCommandSerial hp _)

theorem sendAclSerial (bytes : List UInt8) :
    Keeps (releasePact p sw start) (Host.sendAclSerial o bytes) := by
  rw [Host.sendAclSerial]
  split
  · exact ho.reject _ _ _
  · next hfits =>
    have hsize := Object.aclData_fits hfits
    refine .get fun _ b h => ?_
    rw [h.started.place]
    refine (keeps_modifyMemory hp (fun m => p.agreeOff_writeSerial m _ hsize)
      fun k hk => hp.quiet_object (by decide) hk).bind fun _ => ?_
    refine (keeps_modifyHost ({ · with aclInFlight := true }) fun _ hs => { hs with }).bind
      fun _ => ?_
    refine (keeps_modifyBell .aclData Bell.ring (absurd · (by decide))).bind fun _ => ?_
    refine (keeps_modifyBell .aclData (·.enableTx true) fun _ _ => ⟨rfl, rfl⟩).bind fun _ => ?_
    exact (ho.other fun _ => rfl).bind fun _ => .pure _

theorem sendAcl (handle : UInt16) (data : List UInt8) :
    Keeps (releasePact p sw start) (Host.sendAcl o handle data) :=
  .ite (ho.reject _ _ _) (ho.sendAclSerial hp _)

theorem sendSystemCommand (opcode : UInt16) (parameters : List UInt8) :
    Keeps (releasePact p sw start) (Host.sendSystemCommand o opcode parameters) := by
  refine .get fun _ b h => .ite (ho.reject _ _ _) ?_
  split
  · exact ho.reject _ _ _
  · next hfits =>
    have hsize := Host.length_systemCommand opcode hfits
    rw [h.started.place]
    refine (keeps_modifyMemory hp (fun m => agreeOff_write_of_add m hsize
      Object.systemCommand.size_le) fun k hk => hp.quiet_object (by decide) hk).bind fun _ => ?_
    refine (keeps_modifyHost ({ · with systemBusy := true, responseReady := false })
      fun _ hs => { hs with }).bind fun _ => ?_
    refine (keeps_modifyBell .systemCommand Bell.ring (absurd · (by decide))).bind fun _ => ?_
    refine (keeps_modifyBell .systemCommand (·.enableTx true) fun _ _ => ⟨rfl, rfl⟩).bind
      fun _ => ?_
    exact (ho.other fun _ => rfl).bind fun _ => .pure _

/-! ### Operations -/

/-- **Every operation keeps the invariant**, whatever the observer does in its middle. The peer's
reclaiming is written down. -/
theorem operation {op : Operation} (hop : op ≠ .reclaim) :
    Spends (releasePact p sw start) (op.run o (InterCore.dropNoted o)) := by
  cases op with
  | deliverEvent code data => exact (spends_deliverEvent hp code data).map _
  | deliverSystemEvent code data => exact (spends_deliverSystemEvent hp code data).map _
  | deliverTrace data => exact (spends_deliverTrace hp data).map _
  | reclaim => exact absurd rfl hop
  | takeCommand => exact keeps_takeCommand.spends.map _
  | takeAcl => exact keeps_takeAcl.spends.map _
  | answerSystemCommand status => exact (keeps_answerSystemCommand hp status).spends.map _
  | writeCommandStatus status opcode =>
    exact (keeps_writeCommandStatus hp status opcode).spends.map _
  | receiveInterrupt => exact (ho.receiveInterrupt hp).spends.map _
  | transmitInterrupt => exact (ho.transmitInterrupt hp).spends.map _
  | fetchEvents e => exact (ho.fetchEvents hp e).spends.map _
  | releaseAcknowledged => exact (ho.releaseAcknowledged hp).spends.map _
  | sendCommandSerial bytes => exact (ho.sendCommandSerial hp bytes).spends.map _
  | sendCommand opcode parameters => exact (ho.sendCommand hp opcode parameters).spends.map _
  | sendAclSerial bytes => exact (ho.sendAclSerial hp bytes).spends.map _
  | sendAcl handle data => exact (ho.sendAcl hp handle data).spends.map _
  | sendSystemCommand opcode parameters =>
    exact (ho.sendSystemCommand hp opcode parameters).spends.map _
  | takeEvent e i => exact (ho.takeEvent hp e i).spends.map _
  | releaseBox i => exact (ho.releaseBox hp _).spends.map _
  | moveBox i j => exact (ho.moveBox hp _ _).spends.map _
  | newBox => exact (keeps_modifyBoxes (·.push Box.empty)).spends.map _
  | constructBox i =>
    exact ((keeps_takeBox _).bind fun x => keeps_modifyBoxes (·.push x)).spends.map _
  | destroyBox i => exact (ho.destroyBox hp i).spends.map _

end Observer.Obeys

end InterCore
