import InterCore.Proofs.Facets
import InterCore.Proofs.Steps.Steady

/-!
# Effects of steps

What each step does to the facets of an account: what becomes of given-back buffers, what happens
to the queues that the peer fills, and which of the buffers that the host fills it touches at all.
What is said elsewhere about doorbells, wake-ups and answers goes by these effects and looks at no
step again.

## Main definitions

* `Account.Effect`: what a step does to the facets.

## Main results

* `Account.release_giveBack`, `Account.release_reclaim` and so on: a step acts on given-back buffers
  as it does on their facet alone.
* `Account.effect_giveBack`, `Account.effect_deliver` and so on: the effect of each step.
-/

namespace InterCore

open Memory Relation

variable {σ : Type}

/-- Different objects share no byte. -/
theorem Placement.Valid.objects_apart {p : Placement} (hp : p.Valid) {x y : Object} (h : x ≠ y)
    {k : Address} (hk : Within (p.address x) x.size k) : ¬ Within (p.address y) y.size k := by
  rw [Object.address_eq] at hk ⊢
  exact hp.apart_of x.extent_fits y.extent_fits (Object.extent_apart h) hk

namespace Account

/-- A step does `R` to given-back buffers, something regular to each queue that the peer fills, and
nothing to the buffers that the host fills, except to those it touches. It writes into packets
only. -/
structure Effect (p : Placement) (R : Release → Release → Prop) (touched : List Outlet)
    (s s' : Account σ) : Prop where
  release : R s.release s'.release
  intake : ∀ f, Intake.Steps (s.intake f) (s'.intake f)
  outlet : ∀ o ∉ touched, SameOutlet p o s s'
  bytes : ∀ k, ¬ p.Quiet k → s'.bytes.get k = s.bytes.get k

/-- A step does nothing but to given-back buffers. -/
structure Aside (p : Placement) (s s' : Account σ) : Prop where
  intake : ∀ f, s'.intake f = s.intake f
  outlet : ∀ o, SameOutlet p o s s'
  bytes : s'.bytes = s.bytes

variable {p : Placement} {note : Event → σ → σ} {R : Release → Release → Prop}
  {touched : List Outlet} {s s' s'' : Account σ} {n : NodeIndex} {xs : List NodeIndex}
  {c : Channel} {e : Endpoint} {i j : Nat} {f : Bell → Bell}

theorem Aside.trans (h : Aside p s s') (h' : Aside p s' s'') : Aside p s s'' :=
  ⟨fun f => (h'.intake f).trans (h.intake f), fun o => (h.outlet o).trans (h'.outlet o),
    h'.bytes.trans h.bytes⟩

theorem Aside.effect (h : Aside p s s') (hR : R s.release s'.release) : Effect p R touched s s' :=
  ⟨hR, fun f => by rw [h.intake f], fun o _ => h.outlet o, fun _ _ => by rw [h.bytes]⟩

variable [Release.CoversDrops R]

namespace Effect

theorem trans (h : Effect p R touched s s') (h' : Effect p R touched s' s'') :
    Effect p R touched s s'' :=
  ⟨Release.CoversDrops.trans h.release h'.release, fun f => (h.intake f).trans (h'.intake f),
    fun o ho => (h.outlet o ho).trans (h'.outlet o ho),
    fun k hk => (h'.bytes k hk).trans (h.bytes k hk)⟩

/-- Whatever happens to inboxes, boxes and the observer is no effect. -/
theorem same (hline : s'.line = s.line) (hpanel : s'.panel = s.panel)
    (hflags : s'.flags = s.flags) (hbytes : s'.bytes = s.bytes) :
    Effect p R touched s s' := by
  have hrelease : s'.release = s.release := by
    simp only [Account.release, hline, hpanel, hflags]
  refine Aside.effect ⟨fun f => ?_, fun o => ⟨by rw [hpanel], by rw [hflags], fun _ _ => by
    rw [hbytes]⟩, hbytes⟩ (Release.CoversDrops.of_eq hrelease)
  rw [Account.intake, hline, hpanel, Account.intake]

theorem refl (p : Placement) (touched : List Outlet) (s : Account σ) :
    Effect p R touched s s :=
  .same rfl rfl rfl rfl

end Effect

/-! ### Given-back buffers -/

theorem aside_modifyBell (hf : ∀ b, (f b).inbound = b.inbound) (s : Account σ) :
    Aside p s (s.modifyBell .release f) where
  intake _ := congrArg (Intake.mk _) (Panel.modify_keeps hf)
  outlet o := ⟨congrArg Bell.outbound (Panel.get_modify_of_ne o.channel_ne_release.symm), rfl,
    fun _ _ => rfl⟩
  bytes := rfl

theorem aside_setPending (yes : Bool) (s : Account σ) :
    Aside p s (s.modifyFlags ({ · with releasePending := yes })) :=
  ⟨fun _ => rfl, fun o => ⟨rfl, by cases o <;> rfl, fun _ _ => rfl⟩, rfl⟩

theorem aside_setLine {l : Line} (hl : ∀ f : Feed, l ≠ .shared f.queue) (xs : List NodeIndex)
    (s : Account σ) : Aside p s (s.setLine l xs) where
  intake f := congrArg (Intake.mk · _) (Function.update_of_ne (hl f).symm _ _)
  outlet _ := ⟨rfl, rfl, fun _ _ => rfl⟩
  bytes := rfl

theorem waiting_ne_feed (f : Feed) : Line.waiting ≠ .shared f.queue := Line.noConfusion

theorem free_ne_feed (f : Feed) : Line.shared .free ≠ .shared f.queue :=
  fun h => f.queue_ne_free (Line.shared.inj h).symm

theorem aside_tell (e : Event) (s : Account σ) : Aside p s (s.tell note e) :=
  ⟨fun _ => rfl, fun _ => ⟨rfl, rfl, fun _ _ => rfl⟩, rfl⟩

theorem aside_awaitRelease (s : Account σ) : Aside p s s.awaitRelease :=
  (aside_setPending true s).trans (aside_modifyBell (Bell.inbound_enableTx true) _)

theorem aside_handOver (s : Account σ) : Aside p s s.handOver :=
  (aside_setLine waiting_ne_feed [] s).trans (aside_setLine free_ne_feed _ _)

theorem aside_ringRelease (s : Account σ) : Aside p s (s.ringRelease note) :=
  (aside_modifyBell Bell.inbound_ring s).trans (aside_tell _ _)

theorem aside_append_waiting (n : NodeIndex) (s : Account σ) : Aside p s (s.append .waiting n) :=
  aside_setLine waiting_ne_feed _ s

theorem aside_giveBack : Aside p s (s.giveBack note n) := by
  rw [giveBack]
  split
  · exact (((aside_append_waiting n s).trans (aside_tell _ _)).trans (aside_awaitRelease _)).trans
      (aside_tell _ _)
  · exact (((aside_append_waiting n s).trans (aside_tell _ _)).trans (aside_handOver _)).trans
      (aside_ringRelease _)

theorem aside_releaseAcknowledged : Aside p s (s.releaseAcknowledged note) := by
  have hmasked := (aside_modifyBell (p := p) (Bell.inbound_enableTx false) s).trans
    (aside_setPending false _)
  rw [releaseAcknowledged]
  split
  · exact hmasked.trans (aside_awaitRelease _)
  · split
    · exact hmasked.trans ((aside_handOver _).trans (aside_ringRelease _))
    · exact hmasked

theorem aside_setFree (xs : List NodeIndex) (s : Account σ) : Aside p s { s with free := xs } :=
  ⟨fun _ => rfl, fun _ => ⟨rfl, rfl, fun _ _ => rfl⟩, rfl⟩

theorem aside_reclaim : Aside p s s.reclaim := by
  rw [reclaim]
  split
  · exact ((aside_setFree _ s).trans (aside_setLine free_ne_feed [] _)).trans
      (aside_modifyBell Bell.inbound_acknowledge _)
  · exact ⟨fun _ => rfl, fun o => .refl p o s, rfl⟩

theorem release_modifyBell : (s.modifyBell .release f).release =
    { s.release with bell := (f (s.panel.get .release)).outbound } :=
  congrArg (Release.mk _ _ _) (congrArg Bell.outbound Panel.get_modify_self)

theorem release_setLine_waiting :
    (s.setLine .waiting xs).release = { s.release with waiting := xs } := by
  simp [release, setLine]

theorem release_setLine_free :
    (s.setLine (.shared .free) xs).release = { s.release with free := xs } := by
  simp [release, setLine]

theorem release_append_waiting : (s.append .waiting n).release =
    { s.release with waiting := s.release.waiting ++ [n] } :=
  release_setLine_waiting

theorem release_handOver : s.handOver.release = s.release.handOver := by
  show ((s.setLine .waiting []).setLine (.shared .free) _).release = _
  rw [release_setLine_free, release_setLine_waiting]
  rfl

theorem release_awaitRelease : s.awaitRelease.release = s.release.await := release_modifyBell

theorem release_ringRelease : (s.ringRelease note).release = s.release.ring :=
  release_modifyBell (s := s) (f := Bell.ring)

/-- Giving back acts on the facet alone. -/
theorem release_giveBack : (s.giveBack note n).release = s.release.giveBack n := by
  rw [giveBack, Release.giveBack, ← release_append_waiting]
  split
  · next hflag => exact release_awaitRelease.trans (if_pos hflag).symm
  · next hflag =>
    refine Eq.trans ?_ (if_neg hflag).symm
    exact release_ringRelease.trans (congrArg Release.ring release_handOver)

/-- An acknowledgement acts on the facet alone. -/
theorem release_releaseAcknowledged :
    (s.releaseAcknowledged note).release = s.release.acknowledged := by
  have hmasked : ((s.modifyBell .release (·.enableTx false)).modifyFlags
      ({ · with releasePending := false })).release =
        { s.release with pending := false, bell := { s.release.bell with txEnabled := false } } :=
    congrArg (Release.mk _ _ false) (congrArg Bell.outbound Panel.get_modify_self)
  rw [releaseAcknowledged, Release.acknowledged, ← hmasked]
  split
  · next hflag => exact release_awaitRelease.trans (if_pos hflag).symm
  · next hflag =>
    refine Eq.trans ?_ (if_neg hflag).symm
    split
    · next hwaiting =>
      refine Eq.trans ?_ (if_pos hwaiting).symm
      exact release_ringRelease.trans (congrArg Release.ring release_handOver)
    · next hwaiting => exact (if_neg hwaiting).symm

/-- The peer acts on the facet alone. -/
theorem release_reclaim : s.reclaim.release = s.release.reclaim := by
  rw [reclaim, Release.reclaim]
  split
  · next hflag =>
    refine Eq.trans ?_ (if_pos hflag).symm
    refine release_modifyBell.trans ?_
    rw [release_setLine_free]
    rfl
  · next hflag => exact (if_neg hflag).symm

/-- The handler of an acknowledgement, when it is due, acts on the facet alone. -/
theorem release_serve :
    (s.serve Bell.txPending .release (releaseAcknowledged note)).release = s.release.served := by
  rw [serve, Release.served]
  split
  · next hpending => exact release_releaseAcknowledged.trans (if_pos hpending).symm
  · next hpending => exact (if_neg hpending).symm

/-- The half of another channel that the host rings is nothing to given-back buffers. -/
theorem release_modifyBell_outlet (o : Outlet) (f : Bell → Bell) :
    (s.modifyBell o.channel f).release = s.release :=
  congrArg (Release.mk _ _ _) (congrArg Bell.outbound (Panel.get_modify_of_ne o.channel_ne_release))

/-- The transmit interrupt does to given-back buffers what its second handler does. -/
theorem release_transmitInterrupt : (s.transmitInterrupt p note).release = s.release.served := by
  have hacl : ∀ t : Account σ, (t.aclAcknowledged note).release = t.release := fun t =>
    release_modifyBell_outlet (s := t) .acl (·.enableTx false)
  have hsystem : ∀ t : Account σ, (t.systemAnswered p note).release = t.release := fun t =>
    release_modifyBell_outlet (s := t) .system (·.enableTx false)
  rw [transmitInterrupt, serve_keeps release hacl, release_serve,
    serve_keeps release hsystem]

theorem effect_giveBack : Effect p R touched s (s.giveBack note n) :=
  aside_giveBack.effect (release_giveBack ▸ Release.CoversDrops.giveBack s.release n)

theorem effect_releaseAcknowledged :
    Effect p Release.Steps touched s (s.releaseAcknowledged note) :=
  aside_releaseAcknowledged.effect (release_releaseAcknowledged ▸ .single .acknowledged)

theorem effect_handOver : Effect p (fun r r' => r' = r.handOver) touched s s.handOver :=
  (aside_handOver s).effect release_handOver

theorem effect_reclaim : Effect p (fun r r' => r' = r.reclaim) touched s s.reclaim :=
  aside_reclaim.effect release_reclaim

/-! ### Boxes -/

theorem effect_releaseBox : Effect p R touched s (s.releaseBox note i) := by
  rw [releaseBox]
  split
  · exact .refl p touched s
  · refine Effect.trans ?_ effect_giveBack
    exact .same rfl rfl rfl rfl

theorem effect_moveBox : Effect p R touched s (s.moveBox note i j) := by
  rw [moveBox]
  split
  · exact .refl p touched s
  · exact effect_releaseBox.trans (.same rfl rfl rfl rfl)

theorem effect_addBox (o : Option NodeIndex) : Effect p R touched s (s.addBox o) :=
  .same rfl rfl rfl rfl

theorem effect_constructBox : Effect p R touched s (s.constructBox i) :=
  .same rfl rfl rfl rfl

theorem effect_destroyBox : Effect p R touched s (s.destroyBox note i) :=
  effect_releaseBox.trans (.same rfl rfl rfl rfl)

theorem effect_takeEvent : Effect p R touched s (s.takeEvent note e i) := by
  rw [takeEvent]
  split
  · exact .refl p touched s
  · exact effect_releaseBox.trans (.same rfl rfl rfl rfl)

/-! ### Queues that the peer fills -/

/-- What happens to one queue that the peer fills, and to nothing else. -/
theorem Effect.of_feed (f : Feed) (hrelease : s'.release = s.release)
    (hself : Intake.Step (s.intake f) (s'.intake f))
    (hother : ∀ g, g ≠ f → s'.intake g = s.intake g) (houtlet : ∀ o, SameOutlet p o s s')
    (hbytes : s'.bytes = s.bytes) : Effect p R touched s s' where
  release := Release.CoversDrops.of_eq hrelease
  intake g := by
    by_cases hg : g = f
    · exact .single (hg ▸ hself)
    · rw [hother g hg]
  outlet o _ := houtlet o
  bytes _ _ := by rw [hbytes]

theorem intake_setLine_self (f : Feed) :
    (s.setLine (.shared f.queue) xs).intake f = { s.intake f with line := xs } :=
  congrArg (Intake.mk · _) (Function.update_self _ _ _)

theorem intake_setLine_of_ne {f g : Feed} (h : g ≠ f) :
    (s.setLine (.shared f.queue) xs).intake g = s.intake g :=
  congrArg (Intake.mk · _) (Function.update_of_ne
    (fun heq => h (Feed.queue_inj.mp (Line.shared.inj heq))) _ _)

theorem release_setLine_feed (f : Feed) : (s.setLine (.shared f.queue) xs).release = s.release := by
  have hfree : Line.shared .free ≠ .shared f.queue := free_ne_feed f
  simp [release, setLine, hfree]

/-- The first buffer leaves a queue that the peer fills. -/
theorem effect_takeFirst (f : Feed) (hl : s.line (.shared f.queue) = n :: xs) :
    Effect p R touched s (s.setLine (.shared f.queue) xs) :=
  .of_feed f (release_setLine_feed f) (intake_setLine_self f ▸ .taken hl)
    (fun _ hg => intake_setLine_of_ne hg) (fun _ => ⟨rfl, rfl, fun _ _ => rfl⟩) rfl

/-- The flag of a queue that is empty is cleared. -/
theorem effect_clear (f : Feed) (hl : s.line (.shared f.queue) = []) :
    Effect p R touched s (s.modifyBell f.channel Bell.clear) := by
  refine .of_feed f ?_ ?_ (fun g hg => ?_)
    (fun o => ⟨Panel.modify_keeps Bell.outbound_clear, rfl, fun _ _ => rfl⟩) rfl
  · exact congrArg (Release.mk _ _ _) (Panel.modify_keeps Bell.outbound_clear)
  · have hself : (s.modifyBell f.channel Bell.clear).intake f =
        { s.intake f with bell := { (s.intake f).bell with peerFlag := false } } :=
      congrArg (Intake.mk _) (congrArg Bell.inbound Panel.get_modify_self)
    exact hself ▸ .cleared hl
  · exact congrArg (Intake.mk _) (congrArg Bell.inbound
      (Panel.get_modify_of_ne fun h => hg (Feed.channel_inj.mp h.symm)))

/-- The peer queues a buffer and announces it. -/
theorem effect_append (f : Feed) (n : NodeIndex) :
    Effect p R touched s
      ((s.append (.shared f.queue) n).modifyBell f.channel Bell.signal) := by
  refine .of_feed f ?_ ?_ (fun g hg => ?_)
    (fun o => ⟨Panel.modify_keeps Bell.outbound_signal, rfl, fun _ _ => rfl⟩) rfl
  · have hline : (s.append (.shared f.queue) n).release = s.release := release_setLine_feed f
    rw [← hline]
    exact congrArg (Release.mk _ _ _) (Panel.modify_keeps Bell.outbound_signal)
  · have hself : ((s.append (.shared f.queue) n).modifyBell f.channel Bell.signal).intake f =
        ⟨(s.intake f).line ++ [n], { (s.intake f).bell with peerFlag := true }⟩ :=
      congrArg₂ Intake.mk (Function.update_self _ _ _)
        (congrArg Bell.inbound Panel.get_modify_self)
    exact hself ▸ .delivered n
  · have hline : (s.append (.shared f.queue) n).intake g = s.intake g := intake_setLine_of_ne hg
    rw [← hline]
    exact congrArg (Intake.mk _) (congrArg Bell.inbound
      (Panel.get_modify_of_ne fun h => hg (Feed.channel_inj.mp h.symm)))

/-- Rounds that take the members of a queue one after the other leave it empty. -/
theorem line_foldl {l : Line} {g : Account σ → NodeIndex → Account σ}
    (hg : ∀ s n xs, s.line l = n :: xs → (g s n).line l = xs) (s : Account σ) :
    ((s.line l).foldl g s).line l = [] := by
  generalize hxs : s.line l = xs
  induction xs generalizing s with
  | nil => exact hxs
  | cons n xs ih => exact ih (g s n) (hg s n xs hxs)

/-- A loop over a queue that the peer fills, with the flag cleared at the end. -/
theorem effect_drain (f : Feed) {g : Account σ → NodeIndex → Account σ}
    (hg : ∀ s n xs, s.line (.shared f.queue) = n :: xs →
      Effect p R touched s (g s n) ∧ (g s n).line (.shared f.queue) = xs)
    (s : Account σ) :
    Effect p R touched s
      (((s.line (.shared f.queue)).foldl g s).modifyBell f.channel Bell.clear) := by
  have hrounds := foldl_line (R := Effect p R touched) (.refl p touched)
    (fun _ _ _ => .trans) hg s
  exact hrounds.trans (effect_clear f (line_foldl (fun s n xs hl => (hg s n xs hl).2) s))

theorem effect_fetchOne (hl : s.line (.shared e.queue) = n :: xs) :
    Effect p R touched s (s.fetchOne p note e n) := by
  rw [fetchOne, hl]
  exact (effect_takeFirst (.events e) hl).trans (.same rfl rfl rfl rfl)

theorem effect_fetchEvents : Effect p R touched s (s.fetchEvents p note e) :=
  effect_drain (.events e) (fun _ _ _ hl => ⟨effect_fetchOne hl, by
    rw [Feed.queue, line_fetchOne, ← Feed.queue.eq_1, hl, List.tail_cons]⟩) s

theorem effect_discardOne (hl : s.line (.shared .traces) = n :: xs) :
    Effect p R touched s (s.discardOne p note n) := by
  rw [discardOne, hl]
  refine (effect_takeFirst .traces hl).trans (Effect.trans ?_ effect_giveBack)
  exact .same rfl rfl rfl rfl

theorem effect_discardTraces : Effect p R touched s (s.discardTraces p note) :=
  effect_drain .traces (fun _ _ _ hl => ⟨effect_discardOne hl, by
    rw [Feed.queue, line_discardOne, ← Feed.queue.eq_2, hl, List.tail_cons]⟩) s

theorem effect_serve {pending : Bell → Bool} {f : Account σ → Account σ}
    (hf : ∀ s, Effect p R touched s (f s)) (s : Account σ) :
    Effect p R touched s (s.serve pending c f) :=
  serve_rel (.refl p touched) hf s

theorem effect_receiveInterrupt :
    Effect p R touched s (s.receiveInterrupt p note) :=
  .trans (.trans (effect_serve (fun _ => effect_fetchEvents) s)
    (effect_serve (fun _ => effect_fetchEvents) _)) (effect_serve (fun _ => effect_discardTraces) _)

/-! ### Buffers that the host fills -/

/-- The half of the channel that the host rings changes. -/
theorem effect_modifyBell {o : Outlet} (ho : o ∈ touched) (hf : ∀ b, (f b).inbound = b.inbound)
    (s : Account σ) : Effect p R touched s (s.modifyBell o.channel f) where
  release := Release.CoversDrops.of_eq (release_modifyBell_outlet o f)
  intake g := by
    have heq : (s.modifyBell o.channel f).intake g = s.intake g :=
      congrArg (Intake.mk _) (Panel.modify_keeps hf)
    rw [heq]
  outlet o' ho' := by
    refine ⟨congrArg Bell.outbound (Panel.get_modify_of_ne fun h => ho' ?_), rfl, fun _ _ => rfl⟩
    exact Outlet.channel_inj.mp h ▸ ho
  bytes _ _ := rfl

/-- The host notes something about the system command. -/
theorem effect_noteSystem (ho : .system ∈ touched) (busy ready : Bool) (s : Account σ) :
    Effect p R touched s
      (s.modifyFlags ({ · with systemBusy := busy, responseReady := ready })) := by
  refine ⟨Release.CoversDrops.refl _, fun _ => .refl, fun o h => ⟨rfl, ?_, fun _ _ => rfl⟩,
    fun _ _ => rfl⟩
  cases o with
  | system => exact absurd ho h
  | command | acl => rfl

/-- The host notes something about the ACL packet. -/
theorem effect_noteAcl (ho : .acl ∈ touched) (inFlight : Bool) (s : Account σ) :
    Effect p R touched s (s.modifyFlags ({ · with aclInFlight := inFlight })) := by
  refine ⟨Release.CoversDrops.refl _, fun _ => .refl, fun o h => ⟨rfl, ?_, fun _ _ => rfl⟩,
    fun _ _ => rfl⟩
  cases o with
  | acl => exact absurd ho h
  | command | system => rfl

/-- Bytes of packets change. -/
theorem effect_modifyBytes {g : Memory → Memory} {S : Address → Prop}
    (hg : ∀ m, AgreeOff S m (g m)) (hS : ∀ k, S k → p.Quiet k)
    (hapart : ∀ o ∉ touched, ∀ k, Within (p.address o.object) o.object.size k → ¬ S k)
    (s : Account σ) : Effect p R touched s (s.modifyBytes g) :=
  ⟨Release.CoversDrops.refl _, fun _ => .refl,
    fun o ho => ⟨rfl, rfl, fun k hk => hg s.bytes k (hapart o ho k hk)⟩,
    fun k hk => hg s.bytes k fun hSk => hk (hS k hSk)⟩

/-- The bytes of an object change. -/
theorem effect_writeObject (hp : p.Valid) {x : Object} {g : Memory → Memory}
    (hbuffer : x ∈ Object.buffers) (hx : ∀ o ∉ touched, o.object ≠ x)
    (hg : ∀ m, AgreeOff (Within (p.address x) x.size) m (g m)) (s : Account σ) :
    Effect p R touched s (s.modifyBytes g) :=
  effect_modifyBytes hg (fun _ => hp.quiet_object hbuffer)
    (fun _ ho _ hk => hp.objects_apart (hx _ ho) hk) s

theorem effect_systemAnswered (ho : .system ∈ touched) :
    Effect p R touched s (s.systemAnswered p note) :=
  .trans (.trans (effect_modifyBell ho (Bell.inbound_enableTx false) s)
    (effect_noteSystem ho false true _)) (.same rfl rfl rfl rfl)

theorem effect_aclAcknowledged (ho : .acl ∈ touched) :
    Effect p R touched s (s.aclAcknowledged note) :=
  .trans (.trans (effect_modifyBell ho (Bell.inbound_enableTx false) s)
    (effect_noteAcl ho false _)) (.same rfl rfl rfl rfl)

theorem effect_transmitInterrupt (hsystem : .system ∈ touched) (hacl : .acl ∈ touched) :
    Effect p Release.Steps touched s (s.transmitInterrupt p note) :=
  .trans (.trans (effect_serve (fun _ => effect_systemAnswered hsystem) s)
    (effect_serve (fun _ => effect_releaseAcknowledged) _))
      (effect_serve (fun _ => effect_aclAcknowledged hacl) _)

theorem effect_takePacket {o : Outlet} (ho : o ∈ touched) :
    Effect p R touched s (s.takePacket o.channel) := by
  rw [takePacket]
  split
  · exact effect_modifyBell ho Bell.inbound_acknowledge s
  · exact .refl p touched s

theorem effect_reject (bytes : List UInt8) :
    Effect p R touched s (s.reject note c bytes) :=
  .same rfl rfl rfl rfl

theorem object_ne_of_not_mem {o o' : Outlet} (ho : o ∈ touched) (ho' : o' ∉ touched) :
    o'.object ≠ o.object := by
  refine fun h => ho' ?_
  have heq : o' = o := by
    revert h
    cases o <;> cases o' <;> decide
  rwa [heq]

section Sends

variable (hp : p.Valid)
include hp

theorem effect_sendCommandSerial (ho : .command ∈ touched) (bytes : List UInt8) :
    Effect p R touched s (s.sendCommandSerial p note bytes) := by
  rw [sendCommandSerial]
  split
  · exact effect_reject bytes
  · next hfits =>
    have hsize := Object.bleCommand_fits hfits
    have hwritten := effect_writeObject (R := R) hp (Outlet.object_mem _)
      (fun _ => object_ne_of_not_mem ho)
      (fun m => p.agreeOff_writeSerial m PacketKind.bleCommand.code hsize) s
    exact (hwritten.trans (effect_modifyBell ho Bell.inbound_ring _)).trans (.same rfl rfl rfl rfl)

theorem effect_sendCommand (ho : .command ∈ touched) (opcode : UInt16) (parameters : List UInt8) :
    Effect p R touched s (s.sendCommand p note opcode parameters) := by
  rw [sendCommand]
  split
  · exact effect_reject parameters
  · exact effect_sendCommandSerial hp ho _

theorem effect_sendAclSerial (ho : .acl ∈ touched) (bytes : List UInt8) :
    Effect p R touched s (s.sendAclSerial p note bytes) := by
  rw [sendAclSerial]
  split
  · exact effect_reject bytes
  · next hfits =>
    have hsize := Object.aclData_fits hfits
    have hwritten := effect_writeObject (R := R) hp (Outlet.object_mem _)
      (fun _ => object_ne_of_not_mem ho)
      (fun m => p.agreeOff_writeSerial m PacketKind.aclData.code hsize) s
    have hrung := (hwritten.trans (effect_noteAcl ho true _)).trans
      (effect_modifyBell ho Bell.inbound_ring _)
    exact (hrung.trans (effect_modifyBell ho (Bell.inbound_enableTx true) _)).trans
      (.same rfl rfl rfl rfl)

theorem effect_sendAcl (ho : .acl ∈ touched) (handle : UInt16) (data : List UInt8) :
    Effect p R touched s (s.sendAcl p note handle data) := by
  rw [sendAcl]
  split
  · exact effect_reject data
  · exact effect_sendAclSerial hp ho _

theorem effect_sendSystemCommand (ho : .system ∈ touched) (opcode : UInt16)
    (parameters : List UInt8) :
    Effect p R touched s (s.sendSystemCommand p note opcode parameters) := by
  rw [sendSystemCommand]
  split
  · exact effect_reject parameters
  · split
    · exact effect_reject parameters
    · next hfits =>
      have hsize := Host.length_systemCommand opcode hfits
      have hwritten := effect_writeObject (R := R) hp (Outlet.object_mem _)
        (fun _ => object_ne_of_not_mem ho)
        (fun m => agreeOff_write_of_add m hsize Object.systemCommand.size_le) s
      have hrung := (hwritten.trans (effect_noteSystem ho true false _)).trans
        (effect_modifyBell ho Bell.inbound_ring _)
      exact (hrung.trans (effect_modifyBell ho (Bell.inbound_enableTx true) _)).trans
        (.same rfl rfl rfl rfl)

theorem effect_answerSystemCommand (ho : .system ∈ touched) (status : UInt8) :
    Effect p R touched s (s.answerSystemCommand p status) := by
  rw [answerSystemCommand]
  split
  · refine (effect_writeObject hp (Outlet.object_mem _) (fun _ => object_ne_of_not_mem ho)
      (fun m => agreeOff_write_of_add m ?_ Object.systemCommand.size_le) s).trans
        (effect_modifyBell ho Bell.inbound_acknowledge _)
    simp only [List.length_cons, List.length_append, length_read, List.length_nil]
    decide
  · exact .refl p touched s

theorem effect_writeCommandStatus (status : UInt8) (opcode : UInt16) :
    Effect p R touched s (s.writeCommandStatus p status opcode) := by
  refine effect_writeObject hp (x := .commandStatus) (by decide) (fun o _ => ?_)
    (fun m => agreeOff_write_of_add m ?_ Object.commandStatus.size_le) s
  · cases o <;> decide
  · simp only [List.length_cons, List.length_append, List.length_nil, LittleEndian.length_encode]
    decide

/-- The peer fills a slot, which lies apart from every buffer that the host fills. -/
theorem effect_deliver (hs : s.Proper []) (f : Feed) (kind : PacketKind) (code : UInt8)
    (data : List UInt8) :
    Effect p R touched s (s.deliver p f.queue kind code data f.channel) := by
  rw [deliver]
  split
  · exact .refl p touched s
  · next n ns hfree =>
    split
    · exact .refl p touched s
    · next hfits =>
      have hn : n ∈ slots := hs.mem_slots ((places_takeFree hfree).subset List.mem_cons_self)
      have htaken : Effect p R touched s ({ s with free := ns } : Account σ) :=
        .same rfl rfl rfl rfl
      have hfilled := htaken.trans (effect_modifyBytes
        (fun m => Message.agreeOff_putEvent m (p.arena.locate n) kind.code code
          (UInt8.ofNat data.length) (Nat.not_lt.mp hfits))
        (fun _ => hp.quiet_packet hn)
        (fun o _ _ hk hwithin => hp.not_packetByte_of_object o.object_mem hk ⟨n, hn, hwithin⟩) _)
      exact hfilled.trans (effect_append f n)

end Sends

end Account

end InterCore
