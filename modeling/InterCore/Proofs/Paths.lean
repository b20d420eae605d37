import InterCore.Proofs.Custody
import InterCore.Proofs.Calls
import InterCore.Proofs.Locality

/-!
# The paths of commands and of buffers

Everything that the two cores do with a command, a system command or an ACL packet happens at the
desk of its buffer. Everything they do with event buffers passes by all three desks, although events
are announced on the very channels on which commands are. This module goes through the programs.

## Main definitions

* `Board.InService`: a board in which no buffer is in two places.

## Main results

* `Call.worksAt`: a call that touches one buffer of the host works at its desk.
* `Call.passesBy`: a call passes by the desks of the buffers that it does not touch.
-/

namespace InterCore

open Board Memory

variable {σ α β : Type}

/-! ### Commands and data -/

namespace Board.WorksAt

variable {p : Placement} {traces : Bool} {note : Event → σ → σ} {o : Outlet}

theorem reject (c : Channel) (bytes : List UInt8) (e : SendError) :
    WorksAt p traces note o (Host.reject (Observer.passive note) c bytes e) :=
  (tell _).bind fun _ => .pure _

/-- The bytes behind the kind are written, and then the kind. -/
theorem putPacket (kind : UInt8) {bytes : List UInt8} (h : bytes.length < o.size) :
    WorksAt p traces note o
      (Board.modifyMemory fun m => (m.write (o.start p + 1) bytes).set (o.start p) kind) := by
  have hle : bytes.length ≤ UInt64.size := Nat.le_trans (Nat.le_of_lt h) o.size_le
  refine modifyMemory (fun m => ?_) fun m m' hm => (hm.write _ hle).set _ _
  refine (agreeOff_write_of_add m (x := 1) ?_ o.size_le).trans
    ((agreeOff_set _ _ _).mono fun _ hk => hk.mono (Nat.lt_of_le_of_lt (Nat.zero_le _) h))
  rw [Nat.add_comm]
  exact h

theorem sendCommandSerial (bytes : List UInt8) :
    WorksAt p traces note .command (Host.sendCommandSerial (Observer.passive note) bytes) := by
  rw [Host.sendCommandSerial]
  split
  · exact reject _ _ _
  · next hfits =>
    refine get (fun b b' hb hb' _ => by rw [hb.place, hb'.place]) fun b hb => ?_
    rw [hb.place]
    refine (putPacket (o := .command) _ (Nat.lt_of_le_of_lt (Nat.not_lt.mp hfits) (by decide))).bind
      fun _ => ?_
    exact (ring (o := .command)).bind fun _ => (tell _).bind fun _ => .pure _

theorem sendCommand (opcode : UInt16) (parameters : List UInt8) :
    WorksAt p traces note .command
      (Host.sendCommand (Observer.passive note) opcode parameters) :=
  .ite (reject _ _ _) (sendCommandSerial _)

theorem sendAclSerial (bytes : List UInt8) :
    WorksAt p traces note .acl (Host.sendAclSerial (Observer.passive note) bytes) := by
  rw [Host.sendAclSerial]
  split
  · exact reject _ _ _
  · next hfits =>
    refine get (fun b b' hb hb' _ => by rw [hb.place, hb'.place]) fun b hb => ?_
    rw [hb.place]
    refine (putPacket (o := .acl) _ (Nat.lt_of_le_of_lt (Nat.not_lt.mp hfits) (by decide))).bind
      fun _ => ?_
    refine (modifyHost (o := .acl) (g := fun _ => true) fun _ => rfl).bind fun _ => ?_
    refine (ring (o := .acl)).bind fun _ => (enableTx (o := .acl) true).bind fun _ => ?_
    exact (tell _).bind fun _ => .pure _

theorem sendAcl (handle : UInt16) (data : List UInt8) :
    WorksAt p traces note .acl (Host.sendAcl (Observer.passive note) handle data) :=
  .ite (reject _ _ _) (sendAclSerial _)

theorem sendSystemCommand (opcode : UInt16) (parameters : List UInt8) :
    WorksAt p traces note .system
      (Host.sendSystemCommand (Observer.passive note) opcode parameters) := by
  refine get (fun b b' hb hb' hdesk => ?_) fun b hb => ?_
  · have hbusy : b'.host.systemBusy = b.host.systemBusy :=
      congrArg Prod.fst (congrArg Desk.marks hdesk)
    simp only [hbusy, hb.place, hb'.place]
  · refine .ite (reject _ _ _) ?_
    split
    · exact reject _ _ _
    · next hfits =>
      simp only [hb.place]
      have hlength : (PacketKind.systemCommand.code :: Host.commandBytes opcode parameters).length ≤
          Outlet.system.size := by
        rw [List.length_cons, Host.length_commandBytes]
        exact Nat.add_le_add_right (Nat.add_le_add_left (Nat.not_lt.mp hfits) 3) 1
      have hle := Nat.le_trans hlength Outlet.system.size_le
      refine (modifyMemory (fun m => agreeOff_write m _ hlength Outlet.system.size_le)
        fun m m' hm => hm.write _ hle).bind fun _ => ?_
      refine (modifyHost (o := .system) (g := fun _ => (true, false)) fun _ => rfl).bind fun _ => ?_
      refine (ring (o := .system)).bind fun _ => (enableTx (o := .system) true).bind fun _ => ?_
      exact (tell _).bind fun _ => .pure _

/-- A flag on the desk is looked at, and the packet is copied. -/
theorem takePacket {format : Format} (hsize : format.size = o.size) :
    WorksAt p traces note o (Peer.takePacket o.channel format (p.address o.object)) := by
  refine bell (fun v v' h => ?_) fun v => ?_
  · have hflag : v'.hostFlag = v.hostFlag := congrArg Outbound.hostFlag h
    rw [hflag]
  · refine .ite (get (fun b b' _ _ hdesk => ?_) fun b _ => ?_) (.pure _)
    · have hbytes : b'.memory.read (o.start p) format.size =
          b.memory.read (o.start p) format.size := by
        rw [hsize]
        exact congrArg Desk.bytes hdesk
      simp only [Outlet.start] at hbytes
      rw [hbytes]
    · exact acknowledge.bind fun _ => .pure _

theorem takeCommand : WorksAt p traces note .command Peer.takeCommand :=
  bind_of_run (fun _ hb => hb.published.run_bleTable hb.table) (takePacket (o := .command) rfl)

theorem takeAcl : WorksAt p traces note .acl Peer.takeAcl :=
  bind_of_run (fun _ hb => hb.published.run_bleTable hb.table) (takePacket (o := .acl) rfl)

theorem answerSystemCommand (status : UInt8) :
    WorksAt p traces note .system (Peer.answerSystemCommand status) := by
  refine bell (o := .system) (fun v v' h => ?_) fun v => .ite ?_ (.pure _)
  · have hflag : v'.hostFlag = v.hostFlag := congrArg Outbound.hostFlag h
    rw [hflag]
  · refine bind_of_run (fun _ hb => hb.published.run_systemTable hb.table) ?_
    refine (modifyMemory (fun m => ?_) fun m m' hm => ?_).bind fun _ =>
      (acknowledge (o := .system)).bind fun _ => .pure _
    · refine (Message.agreeOff_putEvent m _ _ _ _ ?_).mono fun _ hk => hk.mono (by decide)
      rw [List.length_cons, List.length_append, length_read]
      exact (by decide : 4 ≤ Packet.eventPayload)
    · have hopcode : m'.read (Outlet.system.start p + 1) 2 = m.read (Outlet.system.start p + 1) 2 :=
        hm.read_eq fun _ hk => not_not.mpr (hk.of_add (by decide))
      dsimp only [Placement.systemTable]
      rw [Outlet.start, Outlet.object] at hopcode
      rw [hopcode]
      refine hm.write _ ?_
      simp only [List.length_cons, List.length_append, length_read]
      exact (by decide : 7 ≤ UInt64.size)

theorem systemAnswered :
    WorksAt p traces note .system (Host.systemAnswered (Observer.passive note)) := by
  refine (enableTx (o := .system) false).bind fun _ => ?_
  refine (modifyHost (o := .system) (g := fun _ => (false, true)) fun _ => rfl).bind fun _ => ?_
  refine get (fun b b' hb hb' hdesk => ?_) fun b hb => tell _
  have hresponse : Message.load b'.memory (p.address .systemCommand) =
      Message.load b.memory (p.address .systemCommand) :=
    Message.load_congr (.of_read_eq (congrArg Desk.bytes hdesk))
      fun _ hk => not_not.mpr (hk.mono (by decide))
  have hlength : Packet.eventLength b'.memory (p.address .systemCommand) =
      Packet.eventLength b.memory (p.address .systemCommand) := congrArg Message.length hresponse
  have hkind : Packet.kind b'.memory (p.address .systemCommand) =
      Packet.kind b.memory (p.address .systemCommand) := congrArg Message.kind hresponse
  simp only [hb.place, hb'.place, hlength, hkind]

theorem aclAcknowledged :
    WorksAt p traces note .acl (Host.aclAcknowledged (Observer.passive note)) :=
  (enableTx (o := .acl) false).bind fun _ =>
    (modifyHost (o := .acl) (g := fun _ => false) fun _ => rfl).bind fun _ => tell _

end Board.WorksAt

/-! ### Given-back buffers -/

namespace Board.PassesBy

variable {p : Placement} {traces : Bool} {note : Event → σ → σ} {o : Outlet} {b : Board σ}

theorem flushOne : PassesBy p traces note o (Host.flushOne : BoardM σ Bool) b := by
  refine get (fun d z => by simp only [withDesk, Host.localQueue_withMarks,
    Host.freeQueue_withMarks]) ?_
  refine (popFront _).bind fun first _ _ => ?_
  cases first with
  | none => exact pure _
  | some n => exact (pushBack _ _).bind fun _ _ _ => pure _

theorem flush : PassesBy p traces note o (Host.flush : BoardM σ Nat) b :=
  drain (I := fun _ => True) (fun _ _ => flushOne) (fun _ _ _ _ => trivial) trivial

/-- The release channel is on no desk. -/
theorem modifyRelease (f : Bell → Bell) :
    PassesBy p traces note o (Board.modifyBell .release f) b :=
  modifyBell fun h => absurd h.symm o.channel_ne_release

theorem modifyPending (pending : Bool) : PassesBy p traces note o
    (Board.modifyHost fun h => { h with releasePending := pending }) b :=
  modifyHost (fun _ _ => by cases o <;> rfl) rfl rfl

theorem releaseBell {f : Bell → BoardM σ α}
    (h : PassesBy p traces note o (f (b.panel.get .release)) b) :
    PassesBy p traces note o (Board.bell .release >>= f) b :=
  bell (fun hc => absurd hc.symm o.channel_ne_release) h

theorem ringRelease :
    PassesBy p traces note o (Host.ringRelease (Observer.passive note)) b :=
  (modifyRelease _).bind fun _ _ _ => tell _

/-- The host waits until the release doorbell is free. -/
theorem awaitRelease {x : BoardM σ α} (hx : ∀ b, PassesBy p traces note o x b) :
    PassesBy p traces note o (do
      Board.modifyHost fun h => { h with releasePending := true }
      Board.modifyBell .release (·.enableTx true)
      x) b :=
  (modifyPending true).bind fun _ _ _ => (modifyRelease _).bind fun _ _ _ => hx _

theorem giveBack (n : NodeIndex) :
    PassesBy p traces note o (Host.giveBack (Observer.passive note) n) b := by
  refine get (fun d z => by simp only [withDesk, Host.localQueue_withMarks]) ?_
  refine (pushBack _ _).bind fun _ b₁ _ => (tell _).bind fun _ b₂ _ => releaseBell ?_
  split
  · exact awaitRelease fun _ => tell _
  · exact flush.bind fun _ _ _ => ringRelease

theorem releaseAcknowledged :
    PassesBy p traces note o (Host.releaseAcknowledged (Observer.passive note)) b := by
  refine (modifyRelease _).bind fun _ b₁ _ => (modifyPending false).bind fun _ b₂ _ =>
    releaseBell ?_
  split
  · exact (modifyPending true).bind fun _ _ _ => modifyRelease _
  · refine flush.bind fun moved _ _ => ?_
    split
    · exact ringRelease
    · exact pure _

/-! ### Boxes -/

theorem boxAt_withDesk (d : Desk o) (z : σ) (r : BoxRef) :
    (b.withDesk p d z).boxAt r = b.boxAt r := by
  cases r with
  | application i => rfl
  | inbox e c => exact congrArg (fun r : Receiver => r.inbox.slot c) (Host.receiver_withMarks _ _ e)

theorem box (r : BoxRef) : PassesBy p traces note o (Host.box r) b :=
  of_run fun d z => (run_boxAt _ r).trans (by rw [boxAt_withDesk])

theorem setBox (r : BoxRef) (x : Box) : PassesBy p traces note o (Host.setBox r x) b := by
  cases r with
  | application i =>
    rw [Host.setBox]
    exact modifyBoxes fun boxes => boxes.setIfInBounds i x
  | inbox e c =>
    rw [Host.setBox]
    refine modifyHost (fun h y => ?_) (by cases e <;> rfl) (by cases e <;> rfl)
    simp only [Host.receiver_withMarks, Host.setReceiver_withMarks]

theorem releaseBox (r : BoxRef) :
    PassesBy p traces note o (Host.releaseBox (Observer.passive note) r) b := by
  refine (box r).bind fun x _ _ => ?_
  cases x.node with
  | none => exact pure _
  | some n => exact (setBox r _).bind fun _ _ _ => giveBack n

theorem assignBox (r : BoxRef) (x : Box) :
    PassesBy p traces note o (Host.assignBox (Observer.passive note) r x) b :=
  (releaseBox r).bind fun _ _ _ => setBox r x

theorem takeBox (r : BoxRef) : PassesBy p traces note o (Host.takeBox r) b :=
  (box r).bind fun _ _ _ => (setBox r _).bind fun _ _ _ => pure _

theorem moveBox (source target : BoxRef) :
    PassesBy p traces note o (Host.moveBox (Observer.passive note) source target) b := by
  rw [Host.moveBox]
  split
  · exact (releaseBox target).bind fun _ _ _ => (takeBox source).bind fun x _ _ => setBox target x
  · exact pure _

theorem newBox (x : Box) : PassesBy p traces note o (Host.newBox x) b :=
  modifyBoxes fun boxes => boxes.push x

theorem constructBox (i : Nat) : PassesBy p traces note o (Host.constructBox i) b :=
  (takeBox _).bind fun x _ _ => newBox x

theorem destroyBox (i : Nat) :
    PassesBy p traces note o (Host.destroyBox (Observer.passive note) i) b :=
  (releaseBox _).bind fun _ _ _ => modifyBoxes fun boxes => boxes.eraseIdxIfInBounds i

/-! ### Inboxes -/

theorem inbox (e : Endpoint) : PassesBy p traces note o (Host.inbox e) b :=
  of_run fun d z => (Host.run_inbox e _).trans (by
    rw [withDesk, Host.receiver_withMarks])

theorem modifyInbox (e : Endpoint) (f : Inbox → Inbox) :
    PassesBy p traces note o (Host.modifyInbox e f) b :=
  modifyHost (fun h y => by simp only [Host.receiver_withMarks, Host.setReceiver_withMarks])
    (by cases e <;> rfl) (by cases e <;> rfl)

theorem deliverBox (e : Endpoint) (x : Box) :
    PassesBy p traces note o (Host.deliverBox (Observer.passive note) e x) b := by
  refine (inbox e).bind fun ring _ _ => ?_
  split
  · exact pure _
  · exact (assignBox _ x).bind fun _ _ _ => (modifyInbox e _).bind fun _ _ _ => pure _

theorem takeEvent (e : Endpoint) (i : Nat) :
    PassesBy p traces note o (Host.takeEvent (Observer.passive note) e i) b := by
  refine (inbox e).bind fun ring _ _ => ?_
  split
  · exact pure _
  · exact (moveBox _ _).bind fun _ _ _ => (modifyInbox e _).bind fun _ _ _ => pure _

end Board.PassesBy

/-! ### Queues as lists -/

namespace Carries

variable {p : Placement} {traces : Bool} {m : Memory} {peer : Peer} {q : Line → List NodeIndex}
  {free : List NodeIndex} {l : Line} {n : NodeIndex}

theorem wired (h : Carries p traces m peer q free) (hp : p.Valid) (hl : l ∈ Line.made traces) :
    Chain.Wired p.arena m l.head (q l) :=
  h.chains.wired hp.separated (List.mem_map.mpr ⟨l, hl, rfl⟩)

/-- The slot that the peer fills next may join a line. -/
theorem joins (h : Carries p traces m peer q (n :: free)) (hp : p.Valid)
    (hl : l ∈ Line.made traces) : Chain.Joins p.arena l.head (q l) n := by
  have hn : n ∈ slots := h.mem_slots n List.mem_cons_self
  have hnew : n ∉ Line.all.flatMap q := fun hmem =>
    (List.nodup_cons.mp h.nodup).1 (List.mem_append_right free hmem)
  exact Chain.Joins.of_separated hp.separated (has_of_mem_slots hn)
    (fun i hi => h.chains.has_of_mem (List.mem_map.mpr ⟨l, hl, rfl⟩) hi)
    fun hmem => not_mem_nodes hn hnew (mem_nodes_of_mem hl hmem)

end Carries

/-! ### Boards in service -/

/-- The board shows an account in which no buffer is in two places. -/
def Board.InService (p : Placement) (sw : Switches) (b : Board σ) : Prop :=
  ∃ s, b.Shows p sw s ∧ s.Proper []

namespace Board

variable {p : Placement} {sw : Switches} {note : Event → σ → σ} {o : Outlet} {b b' : Board σ}
  {e : Endpoint} {n : NodeIndex}

namespace InService

theorem furnished (h : b.InService p sw) : b.Furnished p sw.traces :=
  let ⟨_, hshows, _⟩ := h
  hshows.furnished

/-- A program that is a call leaves the board in service. -/
theorem of_run (h : b.InService p sw) {c : Call} (hc : c.Permitted b) {x : BoardM σ α}
    {g : α → Answer} (hcall : c.run (Observer.passive note) = g <$> x) {r : α}
    (hrun : x.run b = .ok r b') : b'.InService p sw := by
  obtain ⟨s, hshows, hs⟩ := h
  have hrun' : (c.run (Observer.passive note)).run b = .ok (g r) b' := by
    rw [hcall, map_eq_pure_bind, run_bind_ok hrun]
    rfl
  exact ⟨_, (hshows.of_call hs hc hrun').2, Account.proper_call hshows.valid hshows hs hc⟩

/-- What the host takes out of a shared queue is an event slot. -/
theorem of_popFront (h : b.InService p sw) {q : Queue} {head : NodeIndex}
    (hhead : head = (Line.shared q).head)
    (hrun : (extract fun a m => Chain.popFront a m head).run b = .ok (some n) b') :
    n ∈ slots ∧ ∃ s, b'.Shows p sw s := by
  obtain ⟨s, hshows, hs⟩ := h
  by_cases hl : Line.shared q ∈ Line.made sw.traces
  · cases hline : s.line (.shared q) with
    | nil => cases ((hshows.takeFirst_nil hl hhead hline).of_run hrun).1
    | cons n' xs =>
      obtain ⟨hn, hshows'⟩ := (hshows.takeFirst hl hhead hline).of_run hrun
      obtain rfl := Option.some.inj hn
      exact ⟨hshows.carries.mem_slots_of_mem (l := .shared q) (hline ▸ List.mem_cons_self), _,
        hshows'⟩
  · rw [Line.mem_made_iff, Classical.not_imp, Line.shared.injEq, Bool.not_eq_true] at hl
    obtain ⟨rfl, ht⟩ := hl
    have hhalts := hshows.extract_traces_halts ht
    rw [hshows.host.queue, ← hhead, hrun] at hhalts
    cases hhalts

end InService

/-- The packets of event slots lie on no desk. -/
theorem readings_withDesk (hp : p.Valid) (hn : n ∈ slots) (d : Desk o) (z : σ) :
    Packet.kind (b.withDesk p d z).memory (p.arena.locate n) =
        Packet.kind b.memory (p.arena.locate n) ∧
      Packet.eventCode (b.withDesk p d z).memory (p.arena.locate n) =
        Packet.eventCode b.memory (p.arena.locate n) ∧
      Packet.eventLength (b.withDesk p d z).memory (p.arena.locate n) =
        Packet.eventLength b.memory (p.arena.locate n) := by
  have hmessage : Message.load (b.withDesk p d z).memory (p.arena.locate n) =
      Message.load b.memory (p.arena.locate n) :=
    Message.load_congr (agreeOff_write b.memory _ (Nat.le_of_eq d.length_bytes) o.size_le)
      fun _ hk hdesk =>
        hp.not_packetByte_of_object o.object_mem (Outlet.within_object hdesk) ⟨n, hn, hk⟩
  exact ⟨congrArg Message.kind hmessage, congrArg Message.code hmessage,
    congrArg Message.length hmessage⟩

/-! ### Fetching -/

namespace PassesBy

theorem fetchOne (h : b.InService p sw) :
    PassesBy p sw.traces note o (Host.fetchOne (Observer.passive note) e) b := by
  have hhead : (b.host.receiver e).queue = (Line.shared e.queue).head := by
    obtain ⟨s, hshows, -⟩ := h
    exact hshows.host.receiver_queue e
  refine get (fun d z => by simp only [withDesk, Host.receiver_withMarks]) ?_
  refine (popFront _).bind fun first b₁ hrun => ?_
  cases first with
  | none => exact pure _
  | some n =>
    obtain ⟨hn, s₁, h₁⟩ := h.of_popFront hhead hrun
    refine (address n).bind fun q b₂ hrun₂ => ?_
    obtain ⟨rfl, h₂⟩ := (h₁.address hn).of_run hrun₂
    refine get (fun d z => ?_) ?_
    · obtain ⟨-, hcode, hlength⟩ := readings_withDesk (b := b₂) h₂.valid hn d z
      simp only [hcode, hlength]
    · refine (deliverBox e _).bind fun delivered _ _ => ?_
      cases delivered with
      | true => exact (tell _).bind fun _ _ _ => pure _
      | false => exact throw _

/-- The half of a channel that the peer signals is on no desk. -/
theorem clear (c : Channel) : PassesBy p sw.traces note o (Host.acknowledge c) b :=
  modifyBell fun _ _ _ => rfl

theorem fetchEvents (h : b.InService p sw) :
    PassesBy p sw.traces note o (Host.fetchEvents (Observer.passive note) e) b :=
  (drain (I := InService p sw) (fun _ => fetchOne)
    (fun _ _ h hrun => h.of_run (c := .fetchOne e) trivial rfl hrun) h).bind fun _ _ _ => clear _

theorem discardOne (h : b.InService p sw) :
    PassesBy p sw.traces note o (Host.discardOne (Observer.passive note)) b := by
  have hhead : b.host.queue .traces = (Line.shared .traces).head := by
    obtain ⟨s, hshows, -⟩ := h
    exact hshows.host.queue .traces
  refine get (fun d z => by simp only [withDesk, Host.queue_withMarks]) ?_
  refine (popFront _).bind fun first b₁ hrun => ?_
  cases first with
  | none => exact pure _
  | some n =>
    obtain ⟨hn, s₁, h₁⟩ := h.of_popFront hhead hrun
    refine (address n).bind fun q b₂ hrun₂ => ?_
    obtain ⟨rfl, h₂⟩ := (h₁.address hn).of_run hrun₂
    refine get (fun d z => ?_) ?_
    · obtain ⟨hkind, -, hlength⟩ := readings_withDesk (b := b₂) h₂.valid hn d z
      simp only [hkind, hlength]
    · exact (tell _).bind fun _ _ _ => (giveBack n).bind fun _ _ _ => pure _

theorem discardTraces (h : b.InService p sw) :
    PassesBy p sw.traces note o (Host.discardTraces (Observer.passive note)) b :=
  (drain (I := InService p sw) (fun _ => discardOne)
    (fun _ _ h hrun => h.of_run (c := .discardOne) trivial rfl hrun) h).bind fun _ _ _ => clear _

theorem receiveInterrupt (h : b.InService p sw) :
    PassesBy p sw.traces note o (Host.receiveInterrupt (Observer.passive note)) b := by
  have htraces (b : Board σ) (h : b.InService p sw) : PassesBy p sw.traces note o (do
      if (← Board.bell .traces).rxPending then
        Host.discardTraces (Observer.passive note)) b := by
    refine bell (fun _ _ _ => rfl) ?_
    split
    · exact discardTraces h
    · exact pure _
  have hble (b : Board σ) (h : b.InService p sw) : PassesBy p sw.traces note o (do
      if (← Board.bell .bleEvent).rxPending then
        Host.fetchEvents (Observer.passive note) .ble
      if (← Board.bell .traces).rxPending then
        Host.discardTraces (Observer.passive note)) b := by
    refine bell (fun _ _ _ => rfl) ?_
    split
    · exact (fetchEvents h).bind fun _ b₁ hrun => htraces b₁
        (h.of_run (c := .operation (.fetchEvents .ble)) (fun _ hi => absurd hi List.not_mem_nil)
          rfl hrun)
    · exact htraces b h
  refine bell (fun _ _ _ => rfl) ?_
  split
  · exact (fetchEvents h).bind fun _ b₁ hrun => hble b₁
      (h.of_run (c := .operation (.fetchEvents .system)) (fun _ hi => absurd hi List.not_mem_nil)
        rfl hrun)
  · exact hble b h

/-! ### Delivering -/

/-- A packet is filled alike before and after a write to the desk. -/
theorem putEvent_write (hp : p.Valid) (hn : n ∈ slots) (kind code length : UInt8)
    {data : List UInt8} (hfits : data.length ≤ Packet.eventPayload) (m : Memory) (d : Desk o) :
    Packet.putEvent (m.write (o.start p) d.bytes) (p.arena.locate n) kind code length data =
      (Packet.putEvent m (p.arena.locate n) kind code length data).write (o.start p) d.bytes := by
  have hlength : (kind :: code :: length :: data).length ≤ 258 := Nat.add_le_add_right hfits 3
  refine write_comm m d.length_le (Nat.le_trans hlength (by decide)) fun k hk hk' => ?_
  rw [d.length_bytes] at hk
  exact hp.not_packetByte_of_object o.object_mem (Outlet.within_object hk) ⟨n, hn, hk'.mono hlength⟩

theorem deliver {s : Account σ} (h : b.Shows p sw s) {q : Queue}
    (hq : Line.shared q ∈ Line.made sw.traces) (kind : PacketKind) (code : UInt8)
    (data : List UInt8) (c : Channel) :
    PassesBy p sw.traces note o (Peer.deliver (p.address (.queue q)) kind code data c) b := by
  refine get (fun _ _ => rfl) ?_
  have hpeer := h.carries.peer_free
  cases hfree : s.free with
  | nil =>
    rw [hfree, List.map_nil] at hpeer
    rw [hpeer]
    exact pure _
  | cons n ns =>
    rw [hfree, List.map_cons] at hpeer
    rw [hpeer]
    dsimp only
    split
    · exact pure _
    · next hlong =>
      have hfits := Nat.not_lt.mp (not_or.mp hlong).2
      have hcarries : Carries p sw.traces b.memory b.peer s.line (n :: ns) := hfree ▸ h.carries
      have hn : n ∈ slots := hcarries.mem_slots n List.mem_cons_self
      have hfill := Message.agreeOff_putEvent b.memory (p.arena.locate n) kind.code code
        (UInt8.ofNat data.length) hfits
      refine (modifyPeer rfl).bind fun _ b₁ hrun => ?_
      cases hrun
      refine (modifyMemory (fun _ d => ?_) fun _ => ?_).bind fun _ _ _ =>
        (modifyBell fun _ _ _ => rfl).bind fun _ _ _ => pure _
      · have hfilled := hcarries.of_quiet h.valid hfill fun _ hk => h.valid.quiet_packet hn hk
        dsimp only
        rw [putEvent_write h.valid hn kind.code code _ hfits, h.valid.address_queue]
        exact (hfilled.wired h.valid hq).linkBack_write (d.length_bytes ▸ h.valid.beside_desk o)
          d.length_le (hfilled.joins h.valid hq)
      · have hlinks := (hcarries.fill h.valid hq kind.code code hfits).1
        refine (hfill.mono fun _ hk htable => (h.valid.quiet_packet hn hk).1 htable).trans ?_
        exact hlinks.mono fun _ hk htable => h.valid.not_linkByte_of_tableByte htable hk

/-- Without a queue the peer delivers nothing. -/
theorem deliver_null (kind : PacketKind) (code : UInt8) (data : List UInt8) (c : Channel) :
    PassesBy p sw.traces note o (Peer.deliver Address.null kind code data c) b := by
  refine get (fun _ _ => rfl) ?_
  cases b.peer.free with
  | nil => exact pure _
  | cons slot rest =>
    dsimp only
    rw [if_pos (Or.inl rfl)]
    exact pure _

theorem deliverEvent (h : b.InService p sw) (code : UInt8) (data : List UInt8) :
    PassesBy p sw.traces note o (Peer.deliverEvent code data) b := by
  obtain ⟨s, hshows, -⟩ := h
  have hb := hshows.furnished
  refine bind_of_run (fun d z => (hb.withDesk d z).published.run_bleTable hb.table) ?_
  exact deliver hshows (Line.mem_made_of_ne sw.traces (by decide)) _ _ _ _

theorem deliverSystemEvent (h : b.InService p sw) (code : UInt8) (data : List UInt8) :
    PassesBy p sw.traces note o (Peer.deliverSystemEvent code data) b := by
  obtain ⟨s, hshows, -⟩ := h
  have hb := hshows.furnished
  refine bind_of_run (fun d z => (hb.withDesk d z).published.run_systemTable hb.table) ?_
  exact deliver hshows (Line.mem_made_of_ne sw.traces (by decide)) _ _ _ _

theorem deliverTrace (h : b.InService p sw) (data : List UInt8) :
    PassesBy p sw.traces note o (Peer.deliverTrace data) b := by
  obtain ⟨s, hshows, -⟩ := h
  have hb := hshows.furnished
  have htable (b : Board σ) (hb : b.Furnished p sw.traces) :
      TracesTable.load b.memory p.references.traces = p.tracesTable sw.traces := hb.published.traces
  refine bind_of_run (fun d z => (hb.withDesk d z).published.run_references hb.table) ?_
  refine get (fun d z => by rw [htable _ (hb.withDesk d z), htable b hb]) ?_
  rw [htable b hb, Placement.tracesTable]
  dsimp only
  split
  · next ht => exact deliver hshows (Line.mem_made_iff.mpr fun _ => ht) _ _ _ _
  · exact deliver_null _ _ _ _

/-! ### Taking buffers back -/

/-- Taking a buffer back is taking it out of the queue, and then keeping it. -/
theorem run_reclaimOne (queue : Address) : (Peer.reclaimOne queue).run b = (do
    match ← Board.extract fun _ m => .ok (Peer.unlinkFront m queue) with
    | none => return false
    | some node =>
      Board.modifyPeer fun p => { p with free := node :: p.free }
      return true).run b := by
  cases htaken : Peer.unlinkFront b.memory queue with
  | mk first m =>
    have hextract : (Board.extract fun _ m => .ok (Peer.unlinkFront m queue)).run b =
        .ok first { b with memory := m } := run_extract_ok b (congrArg Except.ok htaken)
    rw [Peer.reclaimOne, run_get_bind, run_bind_ok hextract,
      htaken]
    cases first with
    | none =>
      obtain rfl : m = b.memory := by
        rw [Peer.unlinkFront] at htaken
        split at htaken
        · exact (Prod.mk.inj htaken).2.symm
        · cases (Prod.mk.inj htaken).1
      rfl
    | some node => rfl

theorem reclaimOne {q : Line → List NodeIndex} {free : List NodeIndex} (h : b.Ready p sw q free)
    (hp : p.Valid) : PassesBy p sw.traces note o
      (Peer.reclaimOne (p.arena.locate (Line.shared .free).head)) b := by
  have hl : Line.shared .free ∈ Line.made sw.traces := Line.mem_made_of_ne _ (by decide)
  have hw := h.carries.wired hp hl
  refine congr (fun _ _ => run_reclaimOne _) ?_
  refine (extract (fun d hd => ?_) fun r m hm => ?_).bind fun first _ _ => ?_
  · rw [hw.unlinkFront_write hd d.length_le]
    rfl
  · have hm : Peer.unlinkFront b.memory _ = (r, m) := Except.ok.inj hm
    cases hline : q (.shared .free) with
    | nil =>
      rw [h.carries.peerTakeFirst_nil hl hline] at hm
      cases hm
      exact .refl _ _
    | cons n xs =>
      obtain ⟨m', hrun, hagree, -⟩ := h.carries.peerTakeFirst hp hl hline
      rw [hrun] at hm
      cases hm
      exact hagree.mono fun _ hk => hk.mono fun _ hi => hi.1
  · cases first with
    | none => exact pure _
    | some node => exact (modifyPeer rfl).bind fun _ _ _ => pure _

theorem reclaim (h : b.InService p sw) :
    PassesBy p sw.traces note o (Peer.reclaim : BoardM σ Nat) b := by
  obtain ⟨s, hshows, -⟩ := h
  have hb := hshows.furnished
  have htable (b : Board σ) (hb : b.Furnished p sw.traces) :
      BufferTable.load b.memory p.references.buffers = p.bufferTable := hb.published.buffers
  have hqueue : p.bufferTable.freeQueue = p.arena.locate (Line.shared .free).head :=
    hshows.valid.address_queue .free
  refine releaseBell ?_
  split
  · refine bind_of_run (fun d z => (hb.withDesk d z).published.run_references hb.table) ?_
    refine get (fun d z => by rw [htable _ (hb.withDesk d z), htable b hb]) ?_
    rw [htable b hb, hqueue]
    refine (drain (I := fun b => ∃ q free, b.Ready p sw q free)
      (fun _ ⟨_, _, h⟩ => reclaimOne h hshows.valid) (fun b b' ⟨q, free, h⟩ hrun => ?_)
      ⟨_, _, hshows.ready⟩).bind fun _ _ _ => (modifyRelease _).bind fun _ _ _ => pure _
    cases hline : q (.shared .free) with
    | nil =>
      rw [h.reclaimOne_nil hline] at hrun
      cases hrun
    | cons n xs =>
      obtain ⟨m, hrun', -, h'⟩ := h.reclaimOne_cons hshows.valid hline
      rw [hrun'] at hrun
      cases hrun
      exact ⟨_, _, h'⟩
  · exact pure _

/-- The buffer of command status events is on no desk. -/
theorem writeCommandStatus (h : b.InService p sw) (status : UInt8) (opcode : UInt16) :
    PassesBy p sw.traces note o (Peer.writeCommandStatus status opcode) b := by
  have hb := h.furnished
  refine bind_of_run (fun d z => (hb.withDesk d z).published.run_bleTable hb.table) ?_
  have hlength : (PacketKind.bleEvent.code :: EventCode.commandStatus.code :: 4 ::
      ([status, 1] ++ LittleEndian.encode 2 opcode.toNat)).length = 7 := by
    simp only [List.length_cons, List.length_append, LittleEndian.length_encode, List.length_nil]
  have hobject {k : Address} (hk : Within (Packet.serial (p.address .commandStatus)) 7 k) :
      Within (p.address .commandStatus) Object.commandStatus.size k := hk.of_add (by decide)
  refine modifyMemory (fun _ d => ?_) fun _ => ?_
  · refine write_comm _ d.length_le (by rw [hlength]; decide) fun k hk hk' => ?_
    rw [d.length_bytes] at hk
    rw [hlength] at hk'
    exact hb.valid.objects_apart (by cases o <;> decide) (Outlet.within_object hk) (hobject hk')
  · refine (agreeOff_write b.memory _ (Nat.le_of_eq hlength) (by decide)).mono fun k hk htable => ?_
    exact (hb.valid.quiet_object (o := .commandStatus) (by decide) (hobject hk)).1 htable

/-! ### The transmit interrupt -/

/-- The transmit interrupt looks at two of the three desks. -/
theorem transmitInterrupt (hsystem : Outlet.system ≠ o) (hacl : Outlet.acl ≠ o) :
    PassesBy p sw.traces note o (Host.transmitInterrupt (Observer.passive note)) b := by
  have hchannel {o' : Outlet} (ho : o' ≠ o) (h : o'.channel = o.channel) : False :=
    ho (Outlet.channel_inj.mp h)
  have hlast (b : Board σ) : PassesBy p sw.traces note o (do
      if (← Board.bell .aclData).txPending then
        Host.aclAcknowledged (Observer.passive note)) b := by
    refine bell (fun h => (hchannel hacl h).elim) ?_
    split
    · exact WorksAt.aclAcknowledged.passesBy hacl
    · exact pure _
  have hrelease (b : Board σ) : PassesBy p sw.traces note o (do
      if (← Board.bell .release).txPending then
        Host.releaseAcknowledged (Observer.passive note)
      if (← Board.bell .aclData).txPending then
        Host.aclAcknowledged (Observer.passive note)) b := by
    refine releaseBell ?_
    split
    · exact releaseAcknowledged.bind fun _ b₁ _ => hlast b₁
    · exact hlast b
  refine bell (fun h => (hchannel hsystem h).elim) ?_
  split
  · exact (WorksAt.systemAnswered.passesBy hsystem).bind fun _ b₁ _ => hrelease b₁
  · exact hrelease b

end PassesBy

end Board

/-! ### Calls -/

namespace Call

variable {p : Placement} {sw : Switches} {note : Event → σ → σ} {o : Outlet} {b : Board σ}
  {c : Call}

/-- **A call that touches one buffer of the host works at its desk.** -/
theorem worksAt {traces : Bool} (hc : c.outlets = [o]) :
    WorksAt p traces note o (c.run (Observer.passive note)) := by
  cases c with
  | operation op =>
    cases op with
    | sendCommandSerial bytes => cases hc; exact (WorksAt.sendCommandSerial bytes).map _
    | sendCommand opcode parameters => cases hc; exact (WorksAt.sendCommand opcode parameters).map _
    | takeCommand => cases hc; exact WorksAt.takeCommand.map _
    | sendAclSerial bytes => cases hc; exact (WorksAt.sendAclSerial bytes).map _
    | sendAcl handle data => cases hc; exact (WorksAt.sendAcl handle data).map _
    | takeAcl => cases hc; exact WorksAt.takeAcl.map _
    | sendSystemCommand opcode parameters =>
      cases hc; exact (WorksAt.sendSystemCommand opcode parameters).map _
    | answerSystemCommand status => cases hc; exact (WorksAt.answerSystemCommand status).map _
    | _ => cases hc
  | systemAnswered => cases hc; exact WorksAt.systemAnswered.map _
  | aclAcknowledged => cases hc; exact WorksAt.aclAcknowledged.map _
  | _ => cases hc

/-- **A call passes by the desks of the buffers that it does not touch.** -/
theorem passesBy (h : b.InService p sw) (hc : o ∉ c.outlets) :
    PassesBy p sw.traces note o (c.run (Observer.passive note)) b := by
  by_cases hone : ∃ o', c.outlets = [o']
  · obtain ⟨o', ho'⟩ := hone
    exact (worksAt ho').passesBy fun heq => hc (by rw [ho', heq]; exact List.mem_singleton_self o)
  cases c with
  | operation op =>
    cases op with
    | deliverEvent code data => exact (PassesBy.deliverEvent h code data).map _
    | deliverSystemEvent code data => exact (PassesBy.deliverSystemEvent h code data).map _
    | deliverTrace data => exact (PassesBy.deliverTrace h data).map _
    | reclaim => exact (PassesBy.reclaim h).map _
    | writeCommandStatus status opcode => exact (PassesBy.writeCommandStatus h status opcode).map _
    | receiveInterrupt => exact (PassesBy.receiveInterrupt h).map _
    | transmitInterrupt =>
      have hsystem : Outlet.system ≠ o := fun heq => hc (by rw [← heq]; exact List.mem_cons_self)
      have hacl : Outlet.acl ≠ o := fun heq =>
        hc (by rw [← heq]; exact List.mem_cons_of_mem _ List.mem_cons_self)
      exact (PassesBy.transmitInterrupt hsystem hacl).map _
    | fetchEvents e => exact (PassesBy.fetchEvents h).map _
    | releaseAcknowledged => exact PassesBy.releaseAcknowledged.map _
    | takeEvent e i => exact (PassesBy.takeEvent e i).map _
    | releaseBox i => exact (PassesBy.releaseBox _).map _
    | moveBox i j => exact (PassesBy.moveBox _ _).map _
    | newBox => exact (PassesBy.newBox _).map _
    | constructBox i => exact (PassesBy.constructBox i).map _
    | destroyBox i => exact (PassesBy.destroyBox i).map _
    | _ => exact absurd ⟨_, rfl⟩ hone
  | discardTraces => exact (PassesBy.discardTraces h).map _
  | flush => exact PassesBy.flush.map _
  | giveBack n => exact (PassesBy.giveBack n).map _
  | fetchOne e => exact (PassesBy.fetchOne h).map _
  | discardOne => exact (PassesBy.discardOne h).map _
  | systemAnswered | aclAcknowledged => exact absurd ⟨_, rfl⟩ hone

end Call

end InterCore
