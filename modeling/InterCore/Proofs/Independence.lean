import InterCore.Proofs.Counting
import InterCore.Proofs.Handling
import InterCore.Proofs.Paths
import InterCore.Proofs.Progress

/-!
# The independence of commands and buffers

Commands, system commands and ACL packets share their channels, the records of both cores and the
storage with the event buffers. Even so a call on one of these paths and a call beside it may trade
places: whatever happened before, both orders give the same answers and leave the same board, down
to the last byte of memory. Only an observer can tell the order, by the order in which it was told.

## Main definitions

* `Board.Commute`: two programs may trade places.
* `Call.Sound`: nothing that a call is given is in use elsewhere.

## Main results

* `Board.WorksAt.commute`: what works at a desk and what passes by it may trade places.
* `Calls.paths_independent`: the calls of one path and all other calls may trade places.
-/

namespace InterCore

open Board Memory

variable {σ α β : Type}

/-! ### Counters in any order -/

instance : RightCommutative Counters.record where
  right_comm c e e' := by
    rw [Counters.record, Counters.record, Counters.record, Counters.record]
    cases e.kind <;> cases e'.kind <;> rfl

/-- Counters cannot tell the order of events. -/
theorem Counts.noteAll_comm {note : Event → σ → σ} {counters : σ → Counters}
    (h : Counts note counters) (es fs : List Event) (z : σ) :
    counters (Event.noteAll note (es ++ fs) z) = counters (Event.noteAll note (fs ++ es) z) := by
  rw [Event.noteAll, Event.noteAll, h.foldl, h.foldl]
  exact List.perm_append_comm.foldl_eq _

/-! ### Trading places -/

/-- Two programs may trade places. If the second finishes, then both do in either order, with the
same answers and the same board; the observer was told what one of them tells before or after what
the other tells, and counts the same. If the second halts, it does so after the first as well, and
for the same cause. -/
structure Board.Commute (note : Event → σ → σ) (x : BoardM σ α) (y : BoardM σ β) (b : Board σ) :
    Prop where
  finishes : ∀ s b', y.run b = .ok s b' → ∃ (r : α) (after : Board σ) (es fs : List Event),
    (do let r ← x; let s ← y; return (r, s)).run b =
        .ok (r, s) { after with sink := Event.noteAll note (es ++ fs) b.sink } ∧
      (do let s ← y; let r ← x; return (r, s)).run b =
        .ok (r, s) { after with sink := Event.noteAll note (fs ++ es) b.sink } ∧
      ∀ counters, Counts note counters → counters (Event.noteAll note (es ++ fs) b.sink) =
        counters (Event.noteAll note (fs ++ es) b.sink)
  halts : ∀ e b', y.run b = .error e b' →
    (∃ b₁, (do let r ← x; let s ← y; return (r, s)).run b = .error e b₁) ∧
      ∃ b₁, (do let s ← y; let r ← x; return (r, s)).run b = .error e b₁

/-- **What works at a desk and what passes by it may trade places.** -/
theorem Board.WorksAt.commute {p : Placement} {traces : Bool} {note : Event → σ → σ} {o : Outlet}
    {x : BoardM σ α} {y : BoardM σ β} {b : Board σ} (hx : WorksAt p traces note o x)
    (hy : PassesBy p traces note o y b) (hb : b.Furnished p traces) : Commute note x y b := by
  obtain ⟨r, d, es, hrunx⟩ := hx b hb
  obtain ⟨⟨fs, hfs⟩, hkept⟩ := hy hb
  have hfirst := hrunx b hb rfl
  have hsecond := hfs d (Event.noteAll note es b.sink)
  constructor
  case finishes =>
    intro s b' hrun
    -- the second program leaves the desk as it was
    have hself := hfs (b.desk p o) b.sink
    rw [withDesk_desk, hrun, mapEnd] at hself
    obtain ⟨-, hb'⟩ := EStateM.Result.ok.inj hself
    have hdesk : b'.desk p o = b.desk p o := by rw [hb', desk_withDesk]
    have hsink : b'.sink = Event.noteAll note fs b.sink := by rw [hb']; rfl
    rw [hrun, mapEnd] at hsecond
    refine ⟨r, b'.withDesk p d b'.sink, es, fs, ?_, ?_, fun counters h => h.noteAll_comm es fs _⟩
    · rw [run_bind_ok hfirst, run_bind_ok hsecond, EStateM.run_pure, Event.noteAll_append]
      rfl
    · rw [run_bind_ok hrun, run_bind_ok (hrunx b' (hkept s b' hrun) hdesk), EStateM.run_pure, hsink,
        ← Event.noteAll_append]
      rfl
  case halts =>
    intro e b' hrun
    rw [hrun, mapEnd] at hsecond
    exact ⟨⟨_, (run_bind_ok hfirst).trans (run_bind_error hsecond)⟩, ⟨b', run_bind_error hrun⟩⟩

/-! ### Calls that finish -/

/-- The boxes of a call exist, a buffer that it gives back is in no list, wherever else it may be,
and traces are taken by hand only where they are switched on. -/
def Call.Sound (sw : Switches) (b : Board σ) : Call → Prop
  | .operation op => ∀ i ∈ op.boxes, i < b.boxes.size
  | .giveBack n => n ∈ slots ∧ ∀ l ∈ Line.made sw.traces, some n ∉ b.line l
  | .discardTraces | .discardOne => sw.traces = true
  | _ => True

namespace Board.Shows

variable {p : Placement} {sw : Switches} {note : Event → σ → σ} {b : Board σ} {s : Account σ}
  {n : NodeIndex} (h : b.Shows p sw s)
include h

/-- A slot that no line of the board has is in no list of the account. -/
theorem not_mem_listed (hn : n ∈ slots) (hline : ∀ l ∈ Line.made sw.traces, some n ∉ b.line l) :
    n ∉ (s.lists p sw).listed s.given := by
  intro hlisted
  have hmem : n ∈ (chains sw.traces s.line).nodes :=
    ((chains_perm _ _ _).flatMap_right _).mem_iff.mpr
      ((NodeLists.nodes_family _ _).mem_iff.mpr hlisted)
  obtain ⟨c, hc, hmem⟩ := List.mem_flatMap.mp hmem
  obtain ⟨l, hl, rfl⟩ := List.mem_map.mp hc
  rcases List.mem_cons.mp hmem with rfl | hmem
  · exact l.head_not_mem_slots hn
  · refine hline l hl ?_
    rw [h.ready.line_eq h.valid hl]
    exact List.mem_map_of_mem hmem

/-- A sound call finishes. -/
theorem exists_run (hs : s.Proper []) {c : Call} (hc : c.Sound sw b)
    (hpending : (b.panel.get .traces).rxPending = true → sw.traces = true) :
    ∃ r b', (c.run (Observer.passive note)).run b = .ok r b' := by
  by_cases hgive : ∃ n, c = .giveBack n
  · obtain ⟨n, rfl⟩ := hgive
    obtain ⟨hn, hline⟩ := hc
    obtain ⟨b', hrun, -⟩ := h.lists.giveBack note (has_of_mem_slots hn) (h.not_mem_listed hn hline)
    refine ⟨.done, b', ?_⟩
    rw [Call.run, map_eq_pure_bind, run_bind_ok hrun]
    rfl
  · have hpermitted : c.Permitted b := by
      cases c with
      | operation op => exact hc
      | giveBack n => exact absurd ⟨n, rfl⟩ hgive
      | _ => exact trivial
    have htraces : c.drainsTraces b.panel = true → sw.traces = true := by
      intro hdrains
      rcases Call.cases_of_drainsTraces hdrains with hrings | rfl | rfl
      · exact hpending hrings
      · exact hc
      · exact hc
    obtain ⟨b', hrun, -⟩ : Yields p sw (c.run (Observer.passive note)) b _ _ :=
      h.call hs c hpermitted htraces
    exact ⟨_, b', hrun⟩

end Board.Shows

/-! ### All calls -/

namespace Calls

variable {p : Placement} {sw : Switches} {note : Event → σ → σ} {b₀ b : Board σ}
  {ts : List (Turn σ)}

/-- **The paths of commands, of system commands and of ACL packets are independent of each other and
of the path of the buffers.** After a boot and whatever calls, a call that touches one of the three
packets and a call that does not touch it, such as every call that moves buffers, may trade places.
The former never halts, and neither does a sound call of the latter kind, unless the traces channel
interrupts a host that does without traces. -/
theorem paths_independent (hp : p.Valid) (hboxes : ∀ x ∈ b₀.boxes, x = Box.empty)
    (h : Calls p sw note b₀ ts b) {o : Outlet} {c c' : Call} (hc : c.outlets = [o])
    (hc' : o ∉ c'.outlets) :
    Commute note (c.run (Observer.passive note)) (c'.run (Observer.passive note)) b ∧
      (((b₀.panel.get .traces).rxEnabled = true → sw.traces = true) → c'.Sound sw b →
        ∃ r b', (c'.run (Observer.passive note)).run b = .ok r b') := by
  obtain ⟨s, hshows, hs⟩ := h.exists_shows hp hboxes
  have hin : b.InService p sw := ⟨s, hshows, hs⟩
  refine ⟨(Call.worksAt hc).commute (Call.passesBy hin hc') hin.furnished, fun hmask hsound => ?_⟩
  obtain ⟨s, hshows, hs, henabled, -⟩ := h.exists_guarded hp hboxes hmask
  refine hshows.exists_run hs hsound fun hpending => henabled ?_
  rw [hshows.panel, Bell.rxPending, Bool.and_eq_true] at hpending
  exact hpending.2

/-- A command may trade places with the end of a buffer that a box owns, and with a packet. -/
theorem paths_independent_session : ∃ ts b,
    Calls Placement.standard { traces := true } Demo.counting Demo.blank ts b ∧
    ts.map (·.call) = [.deliverEvent 15 [0, 1], .receiveInterrupt, .takeEvent .ble 0,
      .deliverEvent 14 [2]].map Call.operation ∧
    (b.boxes.getD 0 Box.empty).node = some 8 ∧
    Commute Demo.counting
      (Call.run (Observer.passive Demo.counting) (.operation (.sendCommand 0x0C03 [])))
      (Call.run (Observer.passive Demo.counting) (.giveBack 8)) b ∧
    (∃ r b', (Call.run (Observer.passive Demo.counting) (.giveBack 8)).run b = .ok r b') ∧
    Commute Demo.counting
      (Call.run (Observer.passive Demo.counting) (.operation (.sendCommand 0x0C03 [])))
      (Call.run (Observer.passive Demo.counting) (.operation (.sendAcl 0x40 [2, 1]))) b := by
  obtain ⟨b, hsession, heq⟩ := Option.map_eq_some_iff.mp (show
    (Call.session Placement.standard { traces := true } Demo.counting
      ([.deliverEvent 15 [0, 1], .receiveInterrupt, .takeEvent .ble 0,
        .deliverEvent 14 [2]].map Call.operation) Demo.blank).map (fun b =>
          ((b.boxes.getD 0 Box.empty).node,
            decide (∀ l ∈ Line.made true, some 8 ∉ b.line l))) =
      some (some 8, true) from by decide +kernel)
  obtain ⟨hbox, hlines⟩ := Prod.mk.inj heq
  obtain ⟨ts, h, hcalls⟩ := of_session hsession
  have hsound : (Call.giveBack 8).Sound { traces := true } b :=
    ⟨by decide, of_decide_eq_true hlines⟩
  have hsend : (Call.operation (.sendCommand 0x0C03 [])).outlets = [.command] := rfl
  obtain ⟨hbuffer, hfinishes⟩ := paths_independent Placement.valid_standard Demo.boxes_blank h
    hsend (show Outlet.command ∉ (Call.giveBack 8).outlets by decide)
  obtain ⟨hpacket, -⟩ := paths_independent Placement.valid_standard Demo.boxes_blank h hsend
    (show Outlet.command ∉ (Call.operation (.sendAcl 0x40 [2, 1])).outlets by decide)
  exact ⟨ts, b, h, hcalls, hbox, hbuffer, hfinishes (fun _ => rfl) hsound, hpacket⟩

end Calls

end InterCore
