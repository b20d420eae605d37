import InterCore.Proofs.Handling

/-!
# Coalescing of releases

The release doorbell cannot queue rings. When buffers are given back one after the other, and the
peer does not look in between, at most the first of them rings; all later ones are staged. Once the
peer has taken what was announced, a single ring hands over everything that was staged.

## Main definitions

* `Release.RingsOnce`, `Release.Defers`: what a batch of drops does, with the doorbell clear or set.
* `Release.Resumes`: what the wake-up after it does.
* `Board.Coalesces`: the batch, the peer, and the wake-up.

## Main results

* `Release.giveBackAll_of_clear`, `Release.giveBackAll_of_flag`: a batch of any length.
* `Board.Stages.giveBackAll`: the program does this to any board.
* `Board.releases_coalesce`: the batch, the peer, and the wake-up, from every board.
-/

namespace InterCore

open Memory

variable {σ : Type}

/-! ### Batches of drops, on facets -/

namespace Release

variable (r : Release)

/-- What the observer is told when buffers are given back one after the other. -/
def batchEvents (r : Release) : List NodeIndex → List Event
  | [] => []
  | n :: ns => r.dropEvents ++ batchEvents (r.giveBack n) ns

/-- The doorbell was clear: the first buffer took everything that waited with it, with one ring, and
all later buffers wait. -/
structure RingsOnce (n : NodeIndex) (ns : List NodeIndex) (r' : Release) (events : List Event) :
    Prop where
  free : r'.free = r.free ++ r.waiting ++ [n]
  waiting : r'.waiting = ns
  rings : r'.bell.rings = r.bell.rings + 1
  busy : r'.bell.hostFlag = true
  released : Event.tally .bufferReleased events = ns.length + 1
  rung : Event.tally .releaseRung events = 1
  deferred : Event.tally .releaseDeferred events = ns.length

/-- The doorbell was set: all buffers wait behind those that waited before. -/
structure Defers (ns : List NodeIndex) (r' : Release) (events : List Event) : Prop where
  free : r'.free = r.free
  waiting : r'.waiting = r.waiting ++ ns
  rings : r'.bell.rings = r.bell.rings
  busy : r'.bell.hostFlag = true
  released : Event.tally .bufferReleased events = ns.length
  rung : Event.tally .releaseRung events = 0
  deferred : Event.tally .releaseDeferred events = ns.length

/-- The doorbell is clear and the shared free queue empty: everything that waited is handed over,
with one ring if there was anything. -/
structure Resumes (r' : Release) (events : List Event) : Prop where
  free : r'.free = r.waiting
  waiting : r'.waiting = []
  rings : r'.bell.rings = if r.waiting = [] then r.bell.rings else r.bell.rings + 1
  rung : Event.tally .releaseRung events = if r.waiting = [] then 0 else 1

variable {r}

theorem dropEvents_of_flag (h : r.bell.hostFlag = true) :
    r.dropEvents = [event .bufferReleased, event .releaseDeferred] := by
  rw [dropEvents, if_pos h]

theorem dropEvents_of_clear (h : r.bell.hostFlag = false) :
    r.dropEvents = [event .bufferReleased, event .releaseRung] := by
  rw [dropEvents, if_neg (Bool.eq_false_iff.mp h)]

/-- **While the doorbell is set, every drop is deferred.** -/
theorem giveBackAll_of_flag (h : r.bell.hostFlag = true) (ns : List NodeIndex) :
    r.Defers ns (ns.foldl giveBack r) (r.batchEvents ns) := by
  induction ns generalizing r with
  | nil => exact ⟨rfl, (List.append_nil _).symm, rfl, h, rfl, rfl, rfl⟩
  | cons n ns ih =>
    have hdrops := dropEvents_of_flag h
    have hgive := giveBack_of_flag (n := n) h
    obtain ⟨hfree, hwaiting, hrings, hbusy, hreleased, hrung, hdeferred⟩ :=
      ih (r := r.giveBack n) (by rw [hgive]; exact h)
    rw [batchEvents, hdrops, List.foldl_cons]
    refine ⟨?_, ?_, ?_, hbusy, ?_, ?_, ?_⟩
    · rw [hfree, hgive]
      rfl
    · rw [hwaiting, hgive]
      exact List.append_assoc _ _ _
    · rw [hrings, hgive]
      rfl
    · rw [Event.tally_append, hreleased, List.length_cons, Nat.add_comm]
      rfl
    · rw [Event.tally_append, hrung]
      rfl
    · rw [Event.tally_append, hdeferred, List.length_cons, Nat.add_comm]
      rfl

/-- **With the doorbell clear, the first drop rings for everything that waited**, and all others are
deferred. -/
theorem giveBackAll_of_clear (h : r.bell.hostFlag = false) (n : NodeIndex) (ns : List NodeIndex) :
    r.RingsOnce n ns ((n :: ns).foldl giveBack r) (r.batchEvents (n :: ns)) := by
  have hdrops := dropEvents_of_clear h
  have hgive := giveBack_of_clear (n := n) h
  obtain ⟨hfree, hwaiting, hrings, hbusy, hreleased, hrung, hdeferred⟩ :=
    giveBackAll_of_flag (r := r.giveBack n) (by rw [hgive]; rfl) ns
  rw [batchEvents, hdrops, List.foldl_cons]
  refine ⟨?_, ?_, ?_, hbusy, ?_, ?_, ?_⟩
  · rw [hfree, hgive]
    exact (List.append_assoc _ _ _).symm
  · rw [hwaiting, hgive]
    rfl
  · rw [hrings, hgive]
    rfl
  · rw [Event.tally_append, hreleased, Nat.add_comm]
    rfl
  · rw [Event.tally_append, hrung]
    rfl
  · rw [Event.tally_append, hdeferred]
    exact Nat.zero_add _

/-- **One wake-up hands over everything that was staged.** -/
theorem resumes (hflag : r.bell.hostFlag = false) (hfree : r.free = []) :
    r.Resumes r.acknowledged r.wakeEvents := by
  by_cases hw : r.waiting = []
  · rw [acknowledged_of_nil hflag hw, wakeEvents_of_nil hw]
    exact ⟨hfree.trans hw.symm, hw, (if_pos hw).symm, (if_pos hw).symm⟩
  · rw [acknowledged_of_waiting hflag hw, wakeEvents_of_waiting hflag hw]
    refine ⟨?_, rfl, (if_neg hw).symm, (if_neg hw).symm⟩
    show r.free ++ r.waiting = r.waiting
    rw [hfree, List.nil_append]

end Release

/-! ### Batches of drops, on boards -/

namespace NodeLists

variable {k : NodeLists} {r : Release} {n i : NodeIndex}

/-- What the lists hold after a drop. -/
theorem mem_nodes_giveBack :
    i ∈ (k.family (r.giveBack n).free (r.giveBack n).waiting).nodes ↔
      i = n ∨ i ∈ (k.family r.free r.waiting).nodes := by
  rw [(nodes_family _ _).mem_iff, r.given_giveBack n, (listed_append _ _).mem_iff,
    (nodes_family _ _).mem_iff, List.singleton_append, List.mem_cons]

end NodeLists

namespace Board.Stages

variable {k : NodeLists} {r : Release} {b : Board σ} {n : NodeIndex} {ns : List NodeIndex}
  (note : Event → σ → σ)

/-- **Nodes that no list holds are given back one after the other.** -/
theorem giveBackAll (h : b.Stages k r)
    (hlive : ∀ n ∈ ns, k.arena.Has n ∧ n ∉ (k.family r.free r.waiting).nodes) (hnd : ns.Nodup) :
    Leads k note (ns.forM (Host.giveBack (Observer.passive note))) b ()
      (ns.foldl Release.giveBack r) (r.batchEvents ns) := by
  induction ns generalizing b r with
  | nil => exact h.pure note ()
  | cons n ns ih =>
    obtain ⟨⟨hn, hnew⟩, hlive⟩ := List.forall_mem_cons.mp hlive
    obtain ⟨hnotin, hnd⟩ := List.nodup_cons.mp hnd
    refine (h.giveBack note hn hnew).bind fun b₁ h₁ => ih h₁ (fun i hi => ?_) hnd
    refine ⟨(hlive i hi).1, fun hmem => ?_⟩
    rcases NodeLists.mem_nodes_giveBack.mp hmem with rfl | hmem
    · exact hnotin hi
    · exact (hlive i hi).2 hmem

end Board.Stages

/-- Some nodes are given back one after the other. If the release channel is free, the doorbell
rings once for what waited and the first node, and the other nodes are staged; if it is busy, all of
them are staged. The peer then takes the shared free queue and acknowledges, and one wake-up hands
over what is staged. -/
def Board.Coalesces (note : Event → σ → σ) (k : NodeLists) (r : Release) (n : NodeIndex)
    (ns : List NodeIndex) (b : Board σ) : Prop :=
  ∃ b₁ r₁ events, ((n :: ns).forM (Host.giveBack (Observer.passive note))).run b = .ok () b₁ ∧
    b₁.Stages k r₁ ∧ Told note events b b₁ ∧
    (r.bell.hostFlag = false → r.RingsOnce n ns r₁ events) ∧
    (r.bell.hostFlag = true → r.Defers (n :: ns) r₁ events) ∧
    ∃ b₂, (Peer.takeAll (k.arena.locate k.freeQueue)).run b₁ = .ok r₁.free.length b₂ ∧
      b₂.Stages k r₁.taken ∧
      b₂.peer.free = (r₁.free.map k.arena.locate).reverse ++ b.peer.free ∧
      ∃ b₃ r₃ events', (Host.releaseAcknowledged (Observer.passive note)).run b₂ = .ok () b₃ ∧
        b₃.Stages k r₃ ∧ Told note events' b₂ b₃ ∧ r₁.taken.Resumes r₃ events'

theorem Board.Stages.coalesces {k : NodeLists} {r : Release} {b : Board σ} {n : NodeIndex}
    {ns : List NodeIndex} (note : Event → σ → σ) (h : b.Stages k r)
    (hlive : ∀ i ∈ n :: ns, k.arena.Has i ∧ i ∉ (k.family r.free r.waiting).nodes)
    (hnd : (n :: ns).Nodup) : b.Coalesces note k r n ns := by
  obtain ⟨b₁, hrun₁, h₁, htold₁⟩ := h.giveBackAll note hlive hnd
  obtain ⟨b₂, hrun₂, h₂, hpeer, -⟩ := h₁.takeAll
  obtain ⟨b₃, hrun₃, h₃, htold₃⟩ := h₂.releaseAcknowledged note
  refine ⟨b₁, _, _, hrun₁, h₁, htold₁, fun hflag => Release.giveBackAll_of_clear hflag n ns,
    fun hflag => Release.giveBackAll_of_flag hflag (n :: ns), b₂, hrun₂, h₂, ?_, b₃, _, _, hrun₃,
    h₃, htold₃, Release.resumes rfl rfl⟩
  rw [hpeer, htold₁.eq]

/-! ### Boards of the two cores -/

namespace Board.Shows

variable {p : Placement} {sw : Switches} {b : Board σ} {s : Account σ} (h : b.Shows p sw s)
include h

/-- The facet of an account is that of its board. -/
theorem stages : b.Stages (s.lists p sw) s.release where
  arena := h.host.arena
  freeQueue := h.host.freeQueue
  localQueue := h.host.localQueue
  separated := h.valid.separated
  chains := h.carries.chains.perm (chains_perm _ _ _)
  pending := congrArg Flags.releasePending h.flags
  bell := by
    rw [h.panel]
    rfl

/-- An event slot that no line leads to is in no list. -/
theorem live_of_not_mem_line {n : NodeIndex} (hn : n ∈ slots)
    (hnone : ∀ l ∈ Line.made sw.traces, some n ∉ b.line l) :
    (s.lists p sw).arena.Has n ∧
      n ∉ ((s.lists p sw).family s.release.free s.release.waiting).nodes := by
  refine ⟨has_of_mem_slots hn, fun hmem => ?_⟩
  obtain ⟨c, hc, hmem⟩ := List.mem_flatMap.mp hmem
  obtain ⟨l, hl, rfl⟩ := List.mem_map.mp ((chains_perm _ _ _).mem_iff.mpr hc)
  rcases List.mem_cons.mp hmem with rfl | hmem
  · exact l.head_not_mem_slots hn
  · refine hnone l hl ?_
    rw [h.ready.line_eq h.valid hl]
    exact List.mem_map_of_mem hmem

/-- If the release doorbell is set, the peer takes the shared free queue and acknowledges. -/
theorem run_reclaim (hflag : (b.panel.get .release).hostFlag = true) :
    Peer.reclaim.run b =
      (Peer.takeAll ((s.lists p sw).arena.locate (s.lists p sw).freeQueue)).run b := by
  have hbuffers : BufferTable.load b.memory p.references.buffers = p.bufferTable :=
    h.carries.published.buffers
  have hqueue : p.bufferTable.freeQueue = p.arena.locate (Line.shared .free).head :=
    h.valid.address_queue .free
  rw [Peer.reclaim, run_bind_ok (run_bell b .release), hflag, if_pos rfl,
    run_bind_ok h.ready.run_references, run_get_bind, hbuffers, hqueue]
  rfl

end Board.Shows

/-- **Releases are coalesced**, from every board over any arena whose lists are well formed, and for
any distinct nodes that no list holds. Every use of the two cores leads to such a board, and there
every event slot that no line leads to may be given back, and the peer does what it is said to do
when it looks for given-back buffers and the doorbell is set. -/
theorem Board.releases_coalesce (note : Event → σ → σ) :
    (∀ (k : NodeLists) (r : Release) (b : Board σ) (n : NodeIndex) (ns : List NodeIndex),
      b.Stages k r →
      (∀ i ∈ n :: ns, k.arena.Has i ∧ i ∉ (k.family r.free r.waiting).nodes) →
      (n :: ns).Nodup → b.Coalesces note k r n ns) ∧
    ∀ (p : Placement) (sw : Switches) (b₀ b : Board σ), p.Valid →
      (∀ x ∈ b₀.boxes, x = Box.empty) → Usage p sw note b₀ b →
        ∃ k r, b.Stages k r ∧ r.free.map some = b.line (.shared .free) ∧
          r.waiting.map some = b.line .waiting ∧
          (∀ n ∈ slots, (∀ l ∈ Line.made sw.traces, some n ∉ b.line l) →
            k.arena.Has n ∧ n ∉ (k.family r.free r.waiting).nodes) ∧
          ((b.panel.get .release).hostFlag = true → Peer.reclaim.run b =
            (Peer.takeAll (k.arena.locate k.freeQueue)).run b) := by
  refine ⟨fun k r b n ns h hlive hnd => h.coalesces note hlive hnd, ?_⟩
  intro p sw b₀ b hp hboxes husage
  obtain ⟨s, hshows, -⟩ := husage.exists_shows hp hboxes
  exact ⟨s.lists p sw, s.release, hshows.stages, (hshows.line_eq_of_ne (by decide)).symm,
    (hshows.line_eq_of_ne (by decide)).symm,
    fun n hn hnone => hshows.live_of_not_mem_line hn hnone, hshows.run_reclaim⟩

/-- A board on which the peer has acknowledged a ring while an older buffer still waits, because the
transmit interrupt has not come yet. Two spare buffers are given back: the first one rings for the
older one too, and the second one is handed over after the next acknowledgement. -/
theorem Board.releases_coalesce_session : ∃ (k : NodeLists) (r : Release) (b : Board Demo.Console),
    Usage Placement.standard {} (fun _ c => c) Demo.blank b ∧ b.Stages k r ∧ r.free = [] ∧
      r.waiting = [7] ∧ r.pending = true ∧ r.bell.hostFlag = false ∧
      (∀ i ∈ [9, 10], k.arena.Has i ∧ i ∉ (k.family r.free r.waiting).nodes) ∧
      b.Coalesces (fun _ c => c) k r 9 [10] := by
  obtain ⟨hcoalesces, husage⟩ := @releases_coalesce Demo.Console fun _ c => c
  have hsession : (Call.session Placement.standard {} (fun _ c => c)
      ([.deliverEvent 15 [0, 1], .deliverEvent 14 [2], .deliverEvent 62 [], .fetchEvents .ble,
        .takeEvent .ble 0, .takeEvent .ble 0, .takeEvent .ble 0, .reclaim].map Call.operation)
      Demo.blank).map (fun b => ((Line.made false).map b.line, b.host.releasePending,
        (b.panel.get .release).hostFlag)) =
      some ([[], [], [], [some 7]], true, false) := by decide +kernel
  obtain ⟨b, hsession, hread⟩ := Option.map_eq_some_iff.mp hsession
  obtain ⟨ts, hcalls, -⟩ := Calls.of_session hsession
  obtain ⟨k, r, hstages, hfree, hwaiting, hlive, -⟩ :=
    husage _ _ _ _ Placement.valid_standard Demo.boxes_blank (.of_calls hcalls)
  obtain ⟨hlines, hmark⟩ := Prod.mk.inj hread
  obtain ⟨hpending, hflag⟩ := Prod.mk.inj hmark
  obtain ⟨hble, hsystem, hnone, hseven⟩ : b.line (.shared .ble) = [] ∧
      b.line (.shared .system) = [] ∧ b.line (.shared .free) = [] ∧ b.line .waiting = [some 7] := by
    simpa [Line.made] using hlines
  have hspare : ∀ i ∈ [9, 10], k.arena.Has i ∧ i ∉ (k.family r.free r.waiting).nodes := by
    have hslots : [9, 10] ⊆ slots := by decide
    have hseven' : ∀ i ∈ ([9, 10] : List NodeIndex), some i ∉ [some (7 : NodeIndex)] := by simp
    intro i hi
    refine hlive i (hslots hi) ?_
    show ∀ l ∈ [Line.shared .ble, .shared .system, .shared .free, .waiting], some i ∉ b.line l
    simp only [List.forall_mem_cons, hble, hsystem, hnone, hseven]
    exact ⟨List.not_mem_nil, List.not_mem_nil, List.not_mem_nil, hseven' i hi,
      fun _ hl => absurd hl List.not_mem_nil⟩
  have hsome := List.map_injective_iff.mpr (Option.some_injective NodeIndex)
  exact ⟨k, r, b, .of_calls hcalls, hstages, hsome (hfree.trans hnone),
    hsome (hwaiting.trans hseven), hstages.pending.symm.trans hpending,
    hstages.hostFlag_eq.symm.trans hflag, hspare,
    hcoalesces k r b 9 [10] hstages hspare (by decide)⟩

end InterCore
