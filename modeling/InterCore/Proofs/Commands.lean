import InterCore.Proofs.Calls

/-!
# Exchanges of system commands

A system command and its answer share one buffer. The host fills it and rings; the peer reads the
opcode, writes its answer over the command, and acknowledges; the transmit interrupt then tells the
host that the answer is there. In each of these stages the flags of the host, its mask and the
doorbell say which of the two lies in the buffer, and the buffer holds exactly that.

## Main definitions

* `CommandView`: what a command packet says.
* `Exchange`: a command that was accepted, and the status that it was answered with;
  `Exchange.last`: the last one of a run, from the calls and what they answered alone.
* `Account.Stands`: the stages of an exchange.
* `Exchanging`: what a board shows of the last exchange.

## Main results

* `Account.Stands.step`: what a call does to an exchange.
* `Calls.commands_answered`: the last exchange on every board.
-/

namespace InterCore

open Memory

variable {σ : Type}

/-! ### Command packets -/

/-- What a command packet says. -/
structure CommandView where
  kind : UInt8
  opcode : UInt16
  length : UInt8
  parameters : List UInt8
  deriving DecidableEq, Repr

/-- The command in the packet at an address, with as many parameters as the packet says. -/
def CommandView.load (m : Memory) (p : Address) : CommandView where
  kind := Packet.kind m p
  opcode := UInt16.ofNat (m.number (Packet.serial p + 1) 2)
  length := m.get (Packet.serial p + 3)
  parameters := m.read (Packet.serial p + 4) (m.get (Packet.serial p + 3)).toNat

/-- The fields of a command that lies in memory. -/
theorem CommandView.fields_of_read {m : Memory} {p : Address} {kind : UInt8} {opcode : UInt16}
    {parameters : List UInt8} (h : m.read (Packet.serial p) (4 + parameters.length) =
      kind :: Host.commandBytes opcode parameters) :
    Packet.kind m p = kind ∧
      m.read (Packet.serial p + 1) 2 = LittleEndian.encode 2 opcode.toNat ∧
      m.get (Packet.serial p + 3) = UInt8.ofNat parameters.length ∧
      m.read (Packet.serial p + 4) parameters.length = parameters := by
  have hlength : Packet.serial p + UInt64.ofNat 1 + UInt64.ofNat 2 = Packet.serial p + 3 :=
    UInt64.add_assoc _ 1 2
  have hpayload : Packet.serial p + 3 + UInt64.ofNat 1 = Packet.serial p + 4 :=
    UInt64.add_assoc _ 3 1
  have hsplit : m.read (Packet.serial p) (4 + parameters.length) = Packet.kind m p ::
      (m.read (Packet.serial p + 1) 2 ++
        (m.get (Packet.serial p + 3) :: m.read (Packet.serial p + 4) parameters.length)) := by
    rw [show 4 + parameters.length = 1 + (2 + (1 + parameters.length)) by omega, read_add,
      read_add, read_add, hlength, hpayload]
    rfl
  rw [hsplit, Host.commandBytes, List.append_assoc] at h
  obtain ⟨hkind, hrest⟩ := List.cons.inj h
  obtain ⟨hopcode, hrest⟩ := List.append_inj hrest (by simp)
  obtain ⟨hlength, hparameters⟩ := List.cons.inj hrest
  exact ⟨hkind, hopcode, hlength, hparameters⟩

/-- A command that lies in memory is read. -/
theorem CommandView.load_of_read {m : Memory} {p : Address} {kind : UInt8} {opcode : UInt16}
    {parameters : List UInt8} (hfits : parameters.length ≤ 255)
    (h : m.read (Packet.serial p) (4 + parameters.length) =
      kind :: Host.commandBytes opcode parameters) :
    load m p = ⟨kind, opcode, UInt8.ofNat parameters.length, parameters⟩ := by
  obtain ⟨hkind, hopcode, hlength, hparameters⟩ := fields_of_read h
  have hcount : (UInt8.ofNat parameters.length).toNat = parameters.length :=
    UInt8.toNat_ofNat_of_lt' (Nat.lt_of_le_of_lt hfits (by decide))
  have hnumber : UInt16.ofNat (m.number (Packet.serial p + 1) 2) = opcode := by
    rw [number, hopcode, LittleEndian.decode_encode, show LittleEndian.bound 2 = 65536 from rfl,
      Nat.mod_eq_of_lt opcode.toNat_lt, UInt16.ofNat_toNat]
  rw [load, hkind, hnumber, hlength, hcount, hparameters]

/-! ### Exchanges -/

/-- A system command that was accepted, and what became of it. -/
structure Exchange where
  opcode : UInt16
  parameters : List UInt8
  /-- The status that the peer answered with, once it has. -/
  status : Option UInt8 := none
  deriving DecidableEq, Repr

namespace Exchange

/-- The last exchange after one more call: a command that is accepted starts one, and the answer of
the peer completes it. -/
def after (last : Option Exchange) : Call → Answer → Option Exchange
  | .operation (.sendSystemCommand opcode parameters), .sent (.ok _) => some { opcode, parameters }
  | .operation (.answerSystemCommand status), .flag true =>
    last.map ({ · with status := some status })
  | _, _ => last

/-- The last exchange of a run. -/
def last (ts : List (Turn σ)) : Option Exchange :=
  ts.foldl (fun x t => after x t.call t.answer) none

theorem last_append (ts : List (Turn σ)) (t : Turn σ) :
    last (ts ++ [t]) = after (last ts) t.call t.answer := by
  rw [last, List.foldl_append]
  rfl

/-- The command as it was sent. -/
def command (x : Exchange) : CommandView :=
  ⟨PacketKind.systemCommand.code, x.opcode, UInt8.ofNat x.parameters.length, x.parameters⟩

/-- The answer with a status: a command complete event of one credit, the opcode and the status. -/
def response (x : Exchange) (status : UInt8) : Message where
  kind := PacketKind.systemResponse.code
  code := EventCode.commandComplete.code
  length := 4
  payload := 1 :: (LittleEndian.encode 2 x.opcode.toNat ++ [status])

variable {x : Option Exchange} {c : Call} {r : Answer}

/-- Only four calls have anything to do with system commands. -/
theorem cases_of_mem_outlets (h : .system ∈ c.outlets) :
    (∃ opcode parameters, c = .operation (.sendSystemCommand opcode parameters)) ∨
      (∃ status, c = .operation (.answerSystemCommand status)) ∨
      c = .operation .transmitInterrupt ∨ c = .systemAnswered := by
  cases c with
  | operation op =>
    cases op with
    | sendSystemCommand opcode parameters => exact .inl ⟨opcode, parameters, rfl⟩
    | answerSystemCommand status => exact .inr (.inl ⟨status, rfl⟩)
    | transmitInterrupt => exact .inr (.inr (.inl rfl))
    | _ => exact nomatch h
  | systemAnswered => exact .inr (.inr (.inr rfl))
  | _ => exact nomatch h

/-- Other calls neither start an exchange nor complete one. -/
theorem after_of_not_mem (h : .system ∉ c.outlets) : after x c r = x := by
  cases c with
  | operation op =>
    cases op with
    | sendSystemCommand | answerSystemCommand => exact absurd List.mem_cons_self h
    | _ => rfl
  | _ => rfl

end Exchange

/-! ### Stages -/

/-- What tells the stages of an exchange apart. -/
structure Signals where
  hostFlag : Bool
  txEnabled : Bool
  busy : Bool
  ready : Bool
  deriving DecidableEq, Repr

namespace Account

/-- The signals of the system command. -/
def signals (s : Account σ) : Signals where
  hostFlag := (s.panel.get .systemCommand).hostFlag
  txEnabled := (s.panel.get .systemCommand).txEnabled
  busy := s.flags.systemBusy
  ready := s.flags.responseReady

/-- An exchange stands at one of four stages. In each of them the signals and the buffer say so. -/
inductive Stands (p : Placement) (s : Account σ) : Option Exchange → Prop
  /-- No command was accepted yet. -/
  | idle (hsignals : s.signals = ⟨false, false, false, false⟩) : Stands p s none
  /-- The command lies in the buffer. -/
  | sent {x : Exchange} (hsignals : s.signals = ⟨true, true, true, false⟩) (hx : x.status = none)
      (hfits : x.parameters.length ≤ 255)
      (hbytes : s.bytes.read (Packet.serial (p.address .systemCommand)) (4 + x.parameters.length) =
        PacketKind.systemCommand.code :: Host.commandBytes x.opcode x.parameters) :
      Stands p s (some x)
  /-- The answer lies in the buffer, and the host does not know yet. -/
  | serviced {x : Exchange} {status : UInt8} (hsignals : s.signals = ⟨false, true, true, false⟩)
      (hx : x.status = some status)
      (hbytes : Message.load s.bytes (p.address .systemCommand) = x.response status) :
      Stands p s (some x)
  /-- The answer lies in the buffer, and the host knows. -/
  | answered {x : Exchange} {status : UInt8} (hsignals : s.signals = ⟨false, false, false, true⟩)
      (hx : x.status = some status)
      (hbytes : Message.load s.bytes (p.address .systemCommand) = x.response status) :
      Stands p s (some x)

variable {p : Placement} {sw : Switches} {note : Event → σ → σ} {s s' : Account σ}
  {x : Option Exchange} {c : Call}

theorem SameOutlet.signals (h : SameOutlet p .system s s') : s'.signals = s.signals := by
  obtain ⟨hbusy, hready⟩ := Prod.mk.inj h.marks
  have hflag := congrArg Outbound.hostFlag h.bell
  have htx := congrArg Outbound.txEnabled h.bell
  exact (Signals.mk.injEq ..).mpr ⟨hflag, htx, hbusy, hready⟩

theorem SameOutlet.agreeOff (h : SameOutlet p .system s s') :
    AgreeOff (fun k => ¬ Within (p.address .systemCommand) Object.systemCommand.size k) s.bytes
      s'.bytes :=
  fun k hk => h.bytes k (not_not.mp hk)

/-- Whatever has nothing to do with the system command keeps the stage of the exchange. -/
theorem Stands.of_same (h : Stands p s x) (hsame : SameOutlet p .system s s') : Stands p s' x := by
  have hload : Message.load s'.bytes (p.address .systemCommand) =
      Message.load s.bytes (p.address .systemCommand) :=
    Message.load_congr hsame.agreeOff fun k hk => not_not.mpr (hk.of_add (by decide))
  cases h with
  | idle hsignals => exact .idle (hsame.signals.trans hsignals)
  | sent hsignals hx hfits hbytes =>
    refine .sent (hsame.signals.trans hsignals) hx hfits (Eq.trans ?_ hbytes)
    refine hsame.agreeOff.read_eq fun k hk => not_not.mpr (hk.of_add ?_)
    show 16 + (4 + _) ≤ 275
    omega
  | serviced hsignals hx hbytes =>
    exact .serviced (hsame.signals.trans hsignals) hx (hload.trans hbytes)
  | answered hsignals hx hbytes =>
    exact .answered (hsame.signals.trans hsignals) hx (hload.trans hbytes)

/-- At every stage the host waits while the interrupt is unmasked, at least as long as the flag is
set, and not while it has an answer. -/
theorem Stands.coherent (h : Stands p s x) :
    (s.signals.busy = true ↔ s.signals.txEnabled = true) ∧
      (s.signals.hostFlag = true → s.signals.busy = true) ∧
      ¬ (s.signals.busy = true ∧ s.signals.ready = true) := by
  cases h with
  | idle hsignals | sent hsignals | serviced hsignals | answered hsignals =>
    rw [hsignals]
    decide

/-- While the flag is set the command lies in the buffer. -/
theorem Stands.sent_of_flag (h : Stands p s x)
    (hflag : (s.panel.get .systemCommand).hostFlag = true) :
    ∃ y, x = some y ∧ s.signals = ⟨true, true, true, false⟩ ∧ y.status = none ∧
      y.parameters.length ≤ 255 ∧
      s.bytes.read (Packet.serial (p.address .systemCommand)) (4 + y.parameters.length) =
        PacketKind.systemCommand.code :: Host.commandBytes y.opcode y.parameters := by
  have hflag : s.signals.hostFlag = true := hflag
  cases h with
  | sent hsignals hx hfits hbytes => exact ⟨_, rfl, hsignals, hx, hfits, hbytes⟩
  | idle hsignals | serviced hsignals | answered hsignals =>
    rw [hsignals] at hflag
    cases hflag

/-- A refused send tells the observer and no more. -/
theorem same_reject (c : Channel) (bytes : List UInt8) :
    SameOutlet p .system s (s.reject note c bytes) :=
  ⟨rfl, rfl, fun _ _ => rfl⟩

/-- The host sends a system command, or refuses to. -/
theorem Stands.sendSystemCommand (h : Stands p s x) (opcode : UInt16) (parameters : List UInt8) :
    Stands p (s.sendSystemCommand p note opcode parameters)
      (Exchange.after x (.operation (.sendSystemCommand opcode parameters))
        (.sent (s.systemSendAnswer parameters))) := by
  rw [Account.sendSystemCommand, systemSendAnswer, sendAnswer]
  split
  · exact h.of_same (same_reject _ _)
  · split
    · exact h.of_same (same_reject _ _)
    · next hfits =>
      have hfits := Nat.not_lt.mp hfits
      have hlength : (PacketKind.systemCommand.code ::
          Host.commandBytes opcode parameters).length = 4 + parameters.length := by
        rw [List.length_cons, Host.length_commandBytes]
        omega
      have hbell : ∀ q : Panel, ((q.modify .systemCommand Bell.ring).modify .systemCommand
          (·.enableTx true)).get .systemCommand =
            ((q.get .systemCommand).ring).enableTx true := fun q => by
        rw [Panel.get_modify_self, Panel.get_modify_self]
      refine .sent ((Signals.mk.injEq ..).mpr ⟨?_, ?_, rfl, rfl⟩) rfl hfits ?_
      · exact congrArg Bell.hostFlag (hbell s.panel)
      · exact congrArg Bell.txEnabled (hbell s.panel)
      · rw [← hlength]
        refine read_write_self _ _ _ ?_
        rw [hlength]
        exact Nat.le_trans (Nat.add_le_add_left hfits 4) (by decide)

/-- The peer answers the system command, if it is announced. -/
theorem Stands.answerSystemCommand (h : Stands p s x) (status : UInt8) :
    Stands p (s.answerSystemCommand p status)
      (Exchange.after x (.operation (.answerSystemCommand status))
        (.flag (s.panel.get .systemCommand).hostFlag)) := by
  rw [Account.answerSystemCommand]
  split
  · next hflag =>
    obtain ⟨y, rfl, hsignals, -, -, hbytes⟩ := h.sent_of_flag hflag
    obtain ⟨-, hopcode, -, -⟩ := CommandView.fields_of_read hbytes
    rw [hflag]
    refine .serviced (x := { y with status := some status })
      ((Signals.mk.injEq ..).mpr ⟨?_, ?_, ?_, ?_⟩) rfl ?_
    · exact congrArg Bell.hostFlag (Panel.get_modify_self (q := s.panel) (f := Bell.acknowledge))
    · refine Eq.trans (congrArg Bell.txEnabled (Panel.get_modify_self (q := s.panel)
        (f := Bell.acknowledge))) ?_
      exact congrArg Signals.txEnabled hsignals
    · exact congrArg Signals.busy hsignals
    · exact congrArg Signals.ready hsignals
    · have hlength : (1 :: (LittleEndian.encode 2 y.opcode.toNat ++ [status])).length = 4 := by
        rw [List.length_cons, List.length_append, LittleEndian.length_encode]
        rfl
      have hload := Message.load_putEvent s.bytes (p.address .systemCommand)
        PacketKind.systemResponse.code EventCode.commandComplete.code
        (hlength.le.trans (by decide : 4 ≤ Packet.eventPayload))
      rw [hlength, ← hopcode] at hload
      rw [Exchange.response, ← hopcode]
      exact hload
  · next hflag =>
    rw [Bool.eq_false_of_not_eq_true hflag]
    exact h

/-- The other channels of the transmit interrupt have nothing to do with the system command. -/
theorem same_serve_rest (s : Account σ) : SameOutlet p .system s
    ((s.serve Bell.txPending .release (releaseAcknowledged note)).serve Bell.txPending .aclData
      (aclAcknowledged note)) := by
  have heffect : Effect p Release.Steps [.acl] s
      ((s.serve Bell.txPending .release (releaseAcknowledged note)).serve Bell.txPending .aclData
        (aclAcknowledged note)) :=
    (effect_serve (fun _ => effect_releaseAcknowledged) s).trans
      (effect_serve (fun _ => effect_aclAcknowledged List.mem_cons_self) _)
  exact heffect.outlet .system (by decide)

/-- The transmit interrupt tells the host of an answer. -/
theorem Stands.transmitInterrupt (h : Stands p s x) : Stands p (s.transmitInterrupt p note) x := by
  refine Stands.of_same ?_ (same_serve_rest _)
  rw [serve]
  split
  · next hpending =>
    have hpending : s.signals.txEnabled = true ∧ s.signals.hostFlag = false := by
      rwa [Bell.txPending, Bool.and_eq_true, Bool.not_eq_true'] at hpending
    cases h with
    | serviced hsignals hx hbytes =>
      refine .answered ((Signals.mk.injEq ..).mpr ⟨?_, ?_, rfl, rfl⟩) hx hbytes
      · refine Eq.trans (congrArg Bell.hostFlag (Panel.get_modify_self (q := s.panel)
          (f := (·.enableTx false)))) ?_
        exact hpending.2
      · exact congrArg Bell.txEnabled (Panel.get_modify_self (q := s.panel)
          (f := (·.enableTx false)))
    | idle hsignals | sent hsignals | answered hsignals =>
      rw [hsignals] at hpending
      exact absurd hpending (by decide)
  · exact h

/-- **What a call does to an exchange**, if nobody but the transmit interrupt tells the host of an
answer. -/
theorem Stands.step (hp : p.Valid) (hs : s.Proper []) (h : Stands p s x)
    (hc : c ≠ .systemAnswered) :
    Stands p (c.apply p sw note s) (Exchange.after x c (c.answer p sw s)) := by
  by_cases hmem : .system ∈ c.outlets
  · rcases Exchange.cases_of_mem_outlets hmem with
      ⟨opcode, parameters, rfl⟩ | ⟨status, rfl⟩ | rfl | rfl
    · exact h.sendSystemCommand opcode parameters
    · exact h.answerSystemCommand status
    · exact h.transmitInterrupt
    · exact absurd rfl hc
  · rw [Exchange.after_of_not_mem hmem]
    exact h.of_same ((call_effect sw note hp hs c).outlet .system hmem)

/-- A call that starts with the flag set neither rings nor writes into the buffer, unless it is the
answer, which does not ring. -/
theorem Stands.held (hp : p.Valid) (hs : s.Proper []) (h : Stands p s x) (hc : c ≠ .systemAnswered)
    (hflag : (s.panel.get .systemCommand).hostFlag = true) :
    ((c.apply p sw note s).panel.get .systemCommand).rings =
        (s.panel.get .systemCommand).rings ∧
      ((∀ status, c ≠ .operation (.answerSystemCommand status)) →
        SameOutlet p .system s (c.apply p sw note s)) := by
  have hrings : ∀ {s' : Account σ}, SameOutlet p .system s s' →
      (s'.panel.get .systemCommand).rings = (s.panel.get .systemCommand).rings := fun hsame =>
    congrArg Outbound.rings hsame.bell
  by_cases hmem : .system ∈ c.outlets
  · rcases Exchange.cases_of_mem_outlets hmem with
      ⟨opcode, parameters, rfl⟩ | ⟨status, rfl⟩ | rfl | rfl
    · have hsame : SameOutlet p .system s (s.sendSystemCommand p note opcode parameters) := by
        obtain ⟨-, -, hsignals, -⟩ := h.sent_of_flag hflag
        have hbusy : s.flags.systemBusy = true := congrArg Signals.busy hsignals
        rw [Account.sendSystemCommand, if_pos hbusy]
        exact same_reject _ _
      exact ⟨hrings hsame, fun _ => hsame⟩
    · refine ⟨?_, fun hne => absurd rfl (hne status)⟩
      show ((s.answerSystemCommand p status).panel.get .systemCommand).rings = _
      rw [Account.answerSystemCommand, if_pos hflag]
      exact Panel.modify_keeps (g := Bell.rings) fun _ => rfl
    · have hsame : SameOutlet p .system s (s.transmitInterrupt p note) := by
        have hnone : s.serve Bell.txPending .systemCommand (systemAnswered p note) = s := by
          refine if_neg ?_
          rw [Bell.txPending, hflag, Bool.not_true, Bool.and_false]
          exact Bool.false_ne_true
        rw [Account.transmitInterrupt, hnone]
        exact same_serve_rest s
      exact ⟨hrings hsame, fun _ => hsame⟩
    · exact absurd rfl hc
  · have hsame := (call_effect sw note hp hs c).outlet .system hmem
    exact ⟨hrings hsame, fun _ => hsame⟩

end Account

/-! ### Boards -/

/-- What a board shows of the last exchange of system commands, after some turns. -/
structure Exchanging (p : Placement) (ts : List (Turn σ)) (b : Board σ) : Prop where
  /-- The host waits for an answer exactly while the transmit interrupt is unmasked, -/
  awaited : b.host.systemBusy = true ↔ (b.panel.get .systemCommand).txEnabled = true
  /-- at least as long as the doorbell is set, -/
  busy : (b.panel.get .systemCommand).hostFlag = true → b.host.systemBusy = true
  /-- and not while it has one. -/
  exclusive : ¬ (b.host.systemBusy = true ∧ b.host.responseReady = true)
  /-- While the doorbell is set the buffer holds the last command that was accepted. -/
  command : (b.panel.get .systemCommand).hostFlag = true → ∃ x, Exchange.last ts = some x ∧
    x.status = none ∧ CommandView.load b.memory (p.address .systemCommand) = x.command
  /-- While there is an answer, it answers that command with the status that the peer gave. -/
  response : b.host.responseReady = true → ∃ x status, Exchange.last ts = some x ∧
    x.status = some status ∧ Message.load b.memory (p.address .systemCommand) = x.response status
  /-- No turn that started with the doorbell set rang it. -/
  unrung : ∀ t ∈ ts, (t.before.panel.get .systemCommand).hostFlag = true →
    (t.after.panel.get .systemCommand).rings = (t.before.panel.get .systemCommand).rings
  /-- Nor did it write into the buffer, unless it answered. -/
  unwritten : ∀ t ∈ ts, (t.before.panel.get .systemCommand).hostFlag = true →
    (∀ status, t.call ≠ .operation (.answerSystemCommand status)) →
    ∀ k, Within (p.address .systemCommand) Object.systemCommand.size k →
      t.after.memory.get k = t.before.memory.get k

namespace Board.Shows

variable {p : Placement} {sw : Switches} {b b' : Board σ} {s s' : Account σ} {x : Option Exchange}
  (h : b.Shows p sw s)
include h

/-- The buffer of the system command lies as in the account. -/
theorem get_systemCommand {k : Address}
    (hk : Within (p.address .systemCommand) Object.systemCommand.size k) :
    b.memory.get k = s.bytes.get k :=
  h.bytes k (Placement.not_linkByte_of_quiet
    (h.valid.quiet_object (o := .systemCommand) (by decide) hk))

theorem command_of_stands (hstands : s.Stands p x)
    (hflag : (b.panel.get .systemCommand).hostFlag = true) :
    ∃ y, x = some y ∧ y.status = none ∧
      CommandView.load b.memory (p.address .systemCommand) = y.command := by
  rw [h.panel] at hflag
  obtain ⟨y, rfl, -, hx, hfits, hbytes⟩ := hstands.sent_of_flag hflag
  have hread := h.read_object (o := .systemCommand) (by decide) (x := 16)
    (n := 4 + y.parameters.length) (by show 16 + (4 + _) ≤ 275; omega)
  exact ⟨y, rfl, hx, CommandView.load_of_read hfits (hread.trans hbytes)⟩

theorem response_of_stands (hstands : s.Stands p x) (hready : b.host.responseReady = true) :
    ∃ y status, x = some y ∧ y.status = some status ∧
      Message.load b.memory (p.address .systemCommand) = y.response status := by
  have hready : s.signals.ready = true := (congrArg Flags.responseReady h.flags).symm.trans hready
  cases hstands with
  | answered hsignals hx hbytes => exact ⟨_, _, rfl, hx, h.response_eq.trans hbytes⟩
  | idle hsignals | sent hsignals | serviced hsignals =>
    rw [hsignals] at hready
    cases hready

end Board.Shows

namespace Calls

variable {p : Placement} {sw : Switches} {note : Event → σ → σ} {b₀ b : Board σ}
  {ts : List (Turn σ)}

theorem stands_booted (hfresh : (b₀.panel.get .systemCommand).outbound = {}) (m : Memory) :
    (Account.booted m (b₀.panel.booted sw) b₀.boxes.size b₀.sink).Stands p none := by
  have hbell := (Panel.outbound_booted sw b₀.panel .systemCommand).trans hfresh
  exact .idle ((Signals.mk.injEq ..).mpr
    ⟨congrArg Outbound.hostFlag hbell, congrArg Outbound.txEnabled hbell, rfl, rfl⟩)

/-- What is known of the last exchange when nobody but the transmit interrupt tells the host of an
answer. -/
theorem exists_stands (hp : p.Valid) (hboxes : ∀ x ∈ b₀.boxes, x = Box.empty)
    (hfresh : (b₀.panel.get .systemCommand).outbound = {}) (h : Calls p sw note b₀ ts b)
    (hanswered : ∀ t ∈ ts, t.call ≠ .systemAnswered) :
    ∃ s, b.Shows p sw s ∧ s.Proper [] ∧ s.Stands p (Exchange.last ts) ∧
      ∀ t ∈ ts, (t.before.panel.get .systemCommand).hostFlag = true →
        (t.after.panel.get .systemCommand).rings = (t.before.panel.get .systemCommand).rings ∧
        ((∀ status, t.call ≠ .operation (.answerSystemCommand status)) →
          ∀ k, Within (p.address .systemCommand) Object.systemCommand.size k →
            t.after.memory.get k = t.before.memory.get k) := by
  refine h.invariant_of hp hboxes (I := fun ts s => s.Stands p (Exchange.last ts))
    (stands_booted hfresh)
    (fun ts b s c b' hstands hshows hs _ hshows' hc => ⟨?_, fun hflag => ?_⟩) hanswered
  · rw [Exchange.last_append]
    exact hstands.step hp hs hc
  · rw [hshows.panel] at hflag
    obtain ⟨hrings, hsame⟩ : _ ∧ (_ → Account.SameOutlet p .system s (c.apply p sw note s)) :=
      hstands.held hp hs hc hflag
    refine ⟨?_, fun hne k hk => ?_⟩
    · rw [hshows.panel, hshows'.panel]
      exact hrings
    · rw [hshows.get_systemCommand hk, hshows'.get_systemCommand hk]
      exact (hsame hne).bytes k hk

/-- **Every system command is answered by its answer.** After a boot on a fresh channel, and if
nobody but the transmit interrupt tells the host of an answer, every board shows the last exchange
as far as it has come. -/
theorem commands_answered (hp : p.Valid) (hboxes : ∀ x ∈ b₀.boxes, x = Box.empty)
    (hfresh : (b₀.panel.get .systemCommand).outbound = {}) (h : Calls p sw note b₀ ts b)
    (hanswered : ∀ t ∈ ts, t.call ≠ .systemAnswered) : Exchanging p ts b := by
  obtain ⟨s, hshows, -, hstands, hheld⟩ := h.exists_stands hp hboxes hfresh hanswered
  have hbusy : b.host.systemBusy = s.signals.busy := congrArg Flags.systemBusy hshows.flags
  have hready : b.host.responseReady = s.signals.ready := congrArg Flags.responseReady hshows.flags
  have hbell : ∀ s : Account σ, (s.panel.get .systemCommand).txEnabled = s.signals.txEnabled ∧
      (s.panel.get .systemCommand).hostFlag = s.signals.hostFlag := fun _ => ⟨rfl, rfl⟩
  obtain ⟨hawaited, hset, hexclusive⟩ := hstands.coherent
  constructor
  case awaited => rwa [hbusy, hshows.panel, (hbell s).1]
  case busy => rwa [hbusy, hshows.panel, (hbell s).2]
  case exclusive => rwa [hbusy, hready]
  case command => exact hshows.command_of_stands hstands
  case response => exact hshows.response_of_stands hstands
  case unrung => exact fun t ht hflag => (hheld t ht hflag).1
  case unwritten => exact fun t ht hflag hne => (hheld t ht hflag).2 hne

/-- A command is answered while another one is refused and the interrupt comes too early. -/
theorem commands_answered_session : ∃ ts b,
    Calls Placement.standard {} (fun _ c => c) Demo.blank ts b ∧
    ts.map (·.call) = [.sendSystemCommand 0xFC56 [1, 2], .sendSystemCommand 0xFC57 [],
      .transmitInterrupt, .answerSystemCommand 3, .sendSystemCommand 0xFC58 [],
      .transmitInterrupt].map Call.operation ∧
    Exchanging Placement.standard ts b := by
  obtain ⟨ts, b, h, hcalls⟩ : ∃ ts b,
      Calls Placement.standard {} (fun _ c => c) Demo.blank ts b ∧
      ts.map (·.call) = [.sendSystemCommand 0xFC56 [1, 2], .sendSystemCommand 0xFC57 [],
        .transmitInterrupt, .answerSystemCommand 3, .sendSystemCommand 0xFC58 [],
        .transmitInterrupt].map Call.operation :=
    exists_of_legal Placement.valid_standard Demo.boxes_blank (by decide) (by decide)
  exact ⟨ts, b, h, hcalls,
    commands_answered Placement.valid_standard Demo.boxes_blank (Demo.outbound_blank _) h
      (Turn.call_ne hcalls (by decide))⟩

end Calls

end InterCore
