import InterCore.Proofs.Steps.Idle

/-!
# Steps that carry events on

From the peer to the application an event waits in a shared queue and then in an inbox. Interrupts
and given-back buffers leave the sequence of waiting events as it is, and change no event packet;
only a delivery adds an event behind, and only the application takes one in front.

## Main definitions

* `Account.pipeline`: the buffers of the events that wait for an endpoint, the oldest first.
* `Account.Steady`: a step that keeps every pipeline and every event packet.

## Main results

* `Account.steady_fetchEvents`, `Account.steady_receiveInterrupt` and so on: these steps are steady.
* `Account.pipeline_takeEvent`, `Account.pipeline_deliver`: the two steps that are not.
-/

namespace InterCore

open Memory

variable {σ : Type}

namespace Account

/-- The buffers of the events that wait for an endpoint, the oldest first. -/
def pipeline (s : Account σ) (e : Endpoint) : List NodeIndex :=
  s.inbox e ++ s.line (.shared e.queue)

/-- A step keeps every pipeline and every event packet, and takes no slot from the peer. -/
structure Steady (p : Placement) (s s' : Account σ) : Prop where
  pipeline : ∀ e, s'.pipeline e = s.pipeline e
  free : s.free ⊆ s'.free
  bytes : ∀ k, p.PacketByte k → s'.bytes.get k = s.bytes.get k

variable {p : Placement} {note : Event → σ → σ} {s s' s'' : Account σ} {n : NodeIndex}
  {xs : List NodeIndex} {e : Endpoint} {i j : Nat}

namespace Steady

theorem refl (p : Placement) (s : Account σ) : Steady p s s :=
  ⟨fun _ => rfl, List.Subset.refl _, fun _ _ => rfl⟩

theorem trans (h : Steady p s s') (h' : Steady p s' s'') : Steady p s s'' :=
  ⟨fun e => (h'.pipeline e).trans (h.pipeline e), List.Subset.trans h.free h'.free,
    fun k hk => (h'.bytes k hk).trans (h.bytes k hk)⟩

/-- Whatever happens to the other lines is steady. -/
theorem of_eq (hline : ∀ e : Endpoint, s'.line (.shared e.queue) = s.line (.shared e.queue))
    (hinbox : s'.inbox = s.inbox) (hfree : s.free ⊆ s'.free) (hbytes : s'.bytes = s.bytes) :
    Steady p s s' :=
  ⟨fun e => by rw [Account.pipeline, hinbox, hline, Account.pipeline], hfree,
    fun _ _ => by rw [hbytes]⟩

/-- Whatever happens to flags, doorbells, boxes and the observer is steady. -/
theorem same (hline : s'.line = s.line) (hinbox : s'.inbox = s.inbox) (hfree : s'.free = s.free)
    (hbytes : s'.bytes = s.bytes) : Steady p s s' :=
  .of_eq (fun _ => by rw [hline]) hinbox (by rw [hfree]; exact List.Subset.refl _) hbytes

/-- A steady step keeps every message. -/
theorem message (h : Steady p s s') (hn : n ∈ slots) : s'.message p n = s.message p n :=
  Message.load_congr (S := fun k => ¬ p.PacketByte k)
    (fun k hk => h.bytes k (not_not.mp hk)) fun _ hk hnot => hnot ⟨n, hn, hk⟩

end Steady

theorem Idle.steady (h : Idle p s s') : Steady p s s' where
  pipeline e := by rw [pipeline, h.inbox, h.line, pipeline]
  free := by rw [h.free]; exact List.Subset.refl _
  bytes := h.bytes

/-! ### Given-back buffers -/

theorem shared_ne_free (e : Endpoint) : Line.shared e.queue ≠ .shared .free := by
  cases e <;> decide

theorem shared_ne_traces (e : Endpoint) : Line.shared e.queue ≠ .shared .traces := by
  cases e <;> decide

theorem steady_handOver : Steady p s s.handOver :=
  .of_eq (fun e => (Function.update_of_ne (shared_ne_free e) _ _).trans
    (Function.update_of_ne Line.noConfusion _ _)) rfl (List.Subset.refl _) rfl

theorem steady_giveBack : Steady p s (s.giveBack note n) :=
  .of_eq (fun e => giveBack_line (shared_ne_free e) Line.noConfusion) giveBack_inbox
    (by rw [giveBack_free]; exact List.Subset.refl _) giveBack_bytes

theorem steady_releaseAcknowledged : Steady p s (s.releaseAcknowledged note) := by
  rw [releaseAcknowledged]
  split
  · exact .same rfl rfl rfl rfl
  · split
    · exact .trans (.same rfl rfl rfl rfl) (.trans steady_handOver (.same rfl rfl rfl rfl))
    · exact .same rfl rfl rfl rfl

theorem steady_reclaim : Steady p s s.reclaim := by
  rw [reclaim]
  split
  · exact .of_eq (fun e => Function.update_of_ne (shared_ne_free e) _ _) rfl
      (List.subset_append_right _ _) rfl
  · exact .refl p s

/-! ### Boxes -/

theorem steady_releaseBox : Steady p s (s.releaseBox note i) := by
  rw [releaseBox]
  split
  · exact .refl p s
  · refine Steady.trans ?_ steady_giveBack
    exact .same rfl rfl rfl rfl

theorem steady_moveBox : Steady p s (s.moveBox note i j) := by
  rw [moveBox]
  split
  · exact .refl p s
  · exact steady_releaseBox.trans (.same rfl rfl rfl rfl)

theorem steady_addBox (o : Option NodeIndex) : Steady p s (s.addBox o) := .same rfl rfl rfl rfl

theorem steady_constructBox : Steady p s (s.constructBox i) := .same rfl rfl rfl rfl

theorem steady_destroyBox : Steady p s (s.destroyBox note i) :=
  steady_releaseBox.trans (.same rfl rfl rfl rfl)

/-! ### Interrupts -/

/-- An event that moves from the shared queue to the inbox keeps its turn. -/
theorem steady_fetchOne (hl : s.line (.shared e.queue) = n :: xs) :
    Steady p s (s.fetchOne p note e n) := by
  refine ⟨fun e' => ?_, List.Subset.refl _, fun _ _ => rfl⟩
  show Function.update s.inbox e (s.inbox e ++ [n]) e' ++
    Function.update s.line (.shared e.queue) (s.line (.shared e.queue)).tail (.shared e'.queue) =
      s.inbox e' ++ s.line (.shared e'.queue)
  by_cases he : e' = e
  · subst he
    rw [Function.update_self, Function.update_self, hl, List.tail_cons, List.append_assoc,
      List.singleton_append]
  · have hline : Line.shared e'.queue ≠ Line.shared e.queue := by
      revert he
      cases e <;> cases e' <;> decide
    rw [Function.update_of_ne he, Function.update_of_ne hline]

theorem steady_fetchEvents : Steady p s (s.fetchEvents p note e) := by
  have hfold := foldl_line (R := Steady p) (l := .shared e.queue) (f := fetchOne p note e)
    (.refl p) (fun _ _ _ => .trans) (fun _ _ _ hl => ⟨steady_fetchOne hl, by
      rw [line_fetchOne, hl, List.tail_cons]⟩) s
  exact hfold.trans (.same rfl rfl rfl rfl)

theorem steady_discardOne : Steady p s (s.discardOne p note n) := by
  rw [discardOne]
  refine Steady.trans ?_ steady_giveBack
  refine .of_eq (fun e => ?_) rfl (List.Subset.refl _) rfl
  exact Function.update_of_ne (shared_ne_traces e) _ _

theorem steady_discardTraces : Steady p s (s.discardTraces p note) := by
  have hfold := foldl_line (R := Steady p) (l := .shared .traces) (f := discardOne p note)
    (.refl p) (fun _ _ _ => .trans) (fun _ _ _ hl => ⟨steady_discardOne, by
      rw [line_discardOne, hl, List.tail_cons]⟩) s
  exact hfold.trans (.same rfl rfl rfl rfl)

theorem steady_serve {pending : Bell → Bool} {c : Channel} {f : Account σ → Account σ}
    (hf : ∀ s, Steady p s (f s)) (s : Account σ) : Steady p s (s.serve pending c f) :=
  serve_rel (.refl p) hf s

theorem steady_receiveInterrupt : Steady p s (s.receiveInterrupt p note) :=
  .trans (.trans (steady_serve (fun _ => steady_fetchEvents) s)
    (steady_serve (fun _ => steady_fetchEvents) _)) (steady_serve (fun _ => steady_discardTraces) _)

theorem steady_systemAnswered : Steady p s (s.systemAnswered p note) := .same rfl rfl rfl rfl

theorem steady_aclAcknowledged : Steady p s (s.aclAcknowledged note) := .same rfl rfl rfl rfl

theorem steady_transmitInterrupt : Steady p s (s.transmitInterrupt p note) :=
  .trans (.trans (steady_serve (fun _ => steady_systemAnswered) s)
    (steady_serve (fun _ => steady_releaseAcknowledged) _))
      (steady_serve (fun _ => steady_aclAcknowledged) _)

/-! ### Taking and delivering -/

/-- The oldest event leaves its pipeline. -/
theorem pipeline_takeEvent (hinbox : s.inbox e = n :: xs) (e' : Endpoint) :
    s.pipeline e' = (if e = e' then [n] else []) ++ (s.takeEvent note e i).pipeline e' := by
  have hrelease : s.pipeline e' = (s.releaseBox note i).pipeline e' :=
    ((steady_releaseBox (p := Placement.standard)).pipeline e').symm
  rw [hrelease, takeEvent, hinbox]
  show (s.releaseBox note i).inbox e' ++ (s.releaseBox note i).line (.shared e'.queue) =
    (if e = e' then [n] else []) ++ (Function.update (s.releaseBox note i).inbox e xs e' ++
      (s.releaseBox note i).line (.shared e'.queue))
  rw [← List.append_assoc, inbox_releaseBox]
  congr 1
  split
  · next he => rw [← he, hinbox, Function.update_self, List.singleton_append]
  · next he => rw [Function.update_of_ne (Ne.symm he), List.nil_append]

/-- Taking an event takes no slot from the peer and changes no packet. -/
theorem free_takeEvent : s.free ⊆ (s.takeEvent note e i).free := by
  rw [takeEvent]
  split
  · exact List.Subset.refl _
  · exact (steady_releaseBox (p := Placement.standard)).free

theorem message_takeEvent (hn : n ∈ slots) :
    (s.takeEvent note e i).message p n = s.message p n := by
  rw [takeEvent]
  split
  · rfl
  · exact steady_releaseBox.message hn

/-- The box has the event that was taken. -/
theorem box_takeEvent (hinbox : s.inbox e = n :: xs) (hi : i < s.boxes.length) :
    (s.takeEvent note e i).box i = some n := by
  rw [takeEvent, hinbox]
  refine box_setBox_self ?_
  show i < (s.releaseBox note i).boxes.length
  rwa [length_boxes_releaseBox]

end Account

/-- The packets of different slots lie apart. -/
theorem Placement.Valid.packets_apart {p : Placement} (hp : p.Valid) {n n' : NodeIndex}
    (hn : n ∈ slots) (hn' : n' ∈ slots) (hne : n ≠ n') {k : Address}
    (hk : Within (Packet.serial (p.arena.locate n)) 258 k) :
    ¬ Within (Packet.serial (p.arena.locate n')) 258 k := by
  intro hk'
  obtain ⟨h₁, h₂⟩ := mem_slots_iff.mp hn
  obtain ⟨h₁', h₂'⟩ := mem_slots_iff.mp hn'
  have hfits : ∀ n < 11, 4 ≤ n →
      Extent.Fits ⟨(slotExtent n).part, (slotExtent n).offset + 16, 258⟩ := by decide
  have hapart : ∀ n < 11, 4 ≤ n → ∀ n' < 11, 4 ≤ n' → n ≠ n' →
      Extent.Apart ⟨(slotExtent n).part, (slotExtent n).offset + 16, 258⟩
        ⟨(slotExtent n').part, (slotExtent n').offset + 16, 258⟩ := by decide
  exact hp.apart_of (hfits _ h₂ h₁) (hfits _ h₂' h₁')
    (hapart _ h₂ h₁ _ h₂' h₁' (mt UInt16.toNat_inj.mp hne)) (hp.covers_packet hn hk)
    (hp.covers_packet hn' hk')

namespace Account

variable {p : Placement} {s : Account σ} {n n' : NodeIndex} {ns : List NodeIndex} {q : Queue}
  {kind : PacketKind} {code : UInt8} {data : List UInt8} {c : Channel}

theorem deliver_of_free (hfree : s.free = n :: ns) (hfits : data.length ≤ Packet.eventPayload) :
    s.deliver p q kind code data c =
      (((({ s with free := ns } : Account σ).modifyBytes fun m =>
        Packet.putEvent m (p.arena.locate n) kind.code code (UInt8.ofNat data.length) data).append
          (.shared q) n).modifyBell c Bell.signal) := by
  rw [deliver, hfree]
  exact if_neg (Nat.not_lt.mpr hfits)

/-- A delivered event is the last of its pipeline. -/
theorem pipeline_deliver (hfree : s.free = n :: ns) (hfits : data.length ≤ Packet.eventPayload)
    (e : Endpoint) : (s.deliver p q kind code data c).pipeline e =
      s.pipeline e ++ if e.queue = q then [n] else [] := by
  rw [deliver_of_free hfree hfits]
  show s.inbox e ++
      Function.update s.line (.shared q) (s.line (.shared q) ++ [n]) (.shared e.queue) =
    s.inbox e ++ s.line (.shared e.queue) ++ if e.queue = q then [n] else []
  rw [List.append_assoc]
  congr 1
  split
  · next hq => rw [hq, Function.update_self]
  · next hq => rw [Function.update_of_ne (fun heq => hq (Line.shared.inj heq)), List.append_nil]

/-- The packet of a delivered event says what was delivered. -/
theorem message_deliver_self (hfree : s.free = n :: ns)
    (hfits : data.length ≤ Packet.eventPayload) :
    (s.deliver p q kind code data c).message p n = Message.of kind code data := by
  rw [deliver_of_free hfree hfits]
  exact Message.load_putEvent s.bytes (p.arena.locate n) kind.code code hfits

/-- A delivery keeps every other packet. -/
theorem message_deliver_of_ne (hp : p.Valid) (hfree : s.free = n :: ns)
    (hfits : data.length ≤ Packet.eventPayload) (hn : n ∈ slots) (hn' : n' ∈ slots)
    (hne : n' ≠ n) : (s.deliver p q kind code data c).message p n' = s.message p n' := by
  rw [deliver_of_free hfree hfits]
  exact Message.load_congr (Message.agreeOff_putEvent s.bytes (p.arena.locate n) kind.code code
    (UInt8.ofNat data.length) hfits) fun k hk => hp.packets_apart hn' hn hne hk

/-- A delivery that is refused changes nothing. -/
theorem deliver_of_refused (h : s.accepts data = false) : s.deliver p q kind code data c = s := by
  rw [accepts] at h
  rw [deliver]
  split
  · rfl
  · next n ns hfree =>
    rw [hfree, List.isEmpty_cons, Bool.not_false, Bool.true_and, decide_eq_false_iff_not] at h
    exact if_pos (Nat.not_le.mp h)

theorem exists_free_of_accepts (h : s.accepts data = true) :
    ∃ n ns, s.free = n :: ns ∧ data.length ≤ Packet.eventPayload := by
  rw [accepts, Bool.and_eq_true, Bool.not_eq_true', decide_eq_true_eq] at h
  obtain ⟨n, ns, hfree⟩ := List.exists_cons_of_ne_nil (List.isEmpty_eq_false_iff.mp h.1)
  exact ⟨n, ns, hfree, h.2⟩

end Account

end InterCore
