import InterCore.Proofs.Calls

/-!
# The mark of waiting buffers

The host notes that given-back buffers wait for the release channel. The note is made where a buffer
is put off, and taken back where the transmit interrupt finds the channel free. But buffers leave
the local queue on another way too: one that is given back after the peer has looked, and before the
transmit interrupt has come, takes all that waited along and leaves the mark set. A wake-up without
cause sets it as well. So the mark never misses a buffer that waits, and is set for nothing only
after such a turn, until the transmit interrupt finds the channel free.

## Main definitions

* `Standing`: what tells whether the mark is right.
* `Release.Drops`: what giving buffers back comes to.
* `Call.Moves`: what a call does to given-back buffers, handler by handler.
* `Call.Strays`, `Turn.Strays`: the turns that leave the mark set for nothing.
* `Marked`: what the mark tells on a board that calls led to.

## Main results

* `Call.Moves.inStep_iff`: only these turns do.
* `Calls.mark_follows_queue`: the mark on every board of a run.
* `Calls.mark_outlasts_queue`: a run with such a turn for each of two causes.
-/

namespace InterCore

variable {σ : Type}

/-! ### Standings -/

/-- What tells whether the mark of the host is right. -/
structure Standing where
  /-- The local queue holds something. -/
  waits : Bool
  /-- The host has noted so. -/
  marked : Bool
  /-- The release doorbell is set. -/
  rung : Bool
  deriving DecidableEq, Repr

/-- The mark is set exactly while something waits. -/
def Standing.InStep (x : Standing) : Prop := x.marked = x.waits

def Release.standing (r : Release) : Standing where
  waits := !r.waiting.isEmpty
  marked := r.pending
  rung := r.bell.hostFlag

def Board.standing (b : Board σ) : Standing where
  waits := !(b.line .waiting).isEmpty
  marked := b.host.releasePending
  rung := (b.panel.get .release).hostFlag

/-- A mark that tells whether a list holds something. -/
theorem mark_eq_not_isEmpty_iff {α : Type} {mark : Bool} {l : List α} :
    mark = (!l.isEmpty) ↔ (mark = true ↔ l ≠ []) := by
  rw [Bool.eq_iff_iff, Bool.not_eq_true', Bool.eq_false_iff, ne_eq, List.isEmpty_iff]

theorem Board.inStep_iff (b : Board σ) :
    b.standing.InStep ↔ (b.host.releasePending = true ↔ b.line .waiting ≠ []) :=
  mark_eq_not_isEmpty_iff

namespace Board.Shows

variable {p : Placement} {sw : Switches} {b : Board σ} {s : Account σ} (h : b.Shows p sw s)
include h

theorem waiting_eq : b.line .waiting = s.release.waiting.map some := h.line_eq_of_ne (by decide)

theorem pending_eq : b.host.releasePending = s.release.pending :=
  congrArg Flags.releasePending h.flags

theorem hostFlag_eq : (b.panel.get .release).hostFlag = s.release.bell.hostFlag := by
  rw [h.panel]
  rfl

theorem standing : b.standing = s.release.standing := by
  rw [Board.standing, h.waiting_eq, List.isEmpty_map, h.pending_eq, h.hostFlag_eq]
  rfl

end Board.Shows

/-! ### Drops and handlers, on facets -/

namespace Release

variable {r r' r₁ : Release} {n : NodeIndex}

/-- Every drop leaves the doorbell set. -/
theorem hostFlag_giveBack : (r.giveBack n).bell.hostFlag = true := by
  cases hflag : r.bell.hostFlag with
  | true =>
    rw [giveBack_of_flag hflag]
    exact hflag
  | false =>
    rw [giveBack_of_clear hflag]
    rfl

/-- What giving buffers back one after the other comes to. Only the first of them can find the
doorbell clear. -/
inductive Drops (r : Release) : Release → Prop
  | none : Drops r r
  | rung (n : NodeIndex) (hclear : r.bell.hostFlag = false) : Drops r (r.giveBack n)
  | deferred {r₁ : Release} (n : NodeIndex) (hset : r₁.bell.hostFlag = true) :
    Drops r (r₁.giveBack n)

instance : CoversDrops Drops where
  refl _ := .none
  trans h h' := by
    cases h' with
    | none => exact h
    | deferred n hset => exact .deferred n hset
    | rung n hclear =>
      cases h with
      | none => exact .rung n hclear
      | rung m | deferred m => exact absurd (hostFlag_giveBack.symm.trans hclear) (by decide)
  giveBack r n := by
    cases hflag : r.bell.hostFlag with
    | true => exact .deferred n hflag
    | false => exact .rung n hflag

/-- What waits is marked, and the mark is watched by the transmit interrupt. -/
structure Noted (r : Release) : Prop where
  marked : r.waiting ≠ [] → r.pending = true
  watched : r.pending = true → r.bell.txEnabled = true

theorem Noted.await (r : Release) : r.await.Noted := ⟨fun _ => rfl, fun _ => rfl⟩

/-- Buffers that are handed over leave the mark as it is. -/
theorem Noted.handOver (hr : r.Noted) : r.handOver.Noted :=
  ⟨fun hne => absurd rfl hne, hr.watched⟩

theorem Noted.giveBack (hr : r.Noted) (n : NodeIndex) : (r.giveBack n).Noted := by
  cases hflag : r.bell.hostFlag with
  | true =>
    rw [giveBack_of_flag hflag]
    exact .await _
  | false =>
    rw [giveBack_of_clear hflag]
    exact ⟨fun hne => absurd rfl hne, hr.watched⟩

theorem Noted.acknowledged (r : Release) : r.acknowledged.Noted := by
  cases hflag : r.bell.hostFlag with
  | true =>
    rw [acknowledged_of_flag hflag]
    exact .await r
  | false =>
    by_cases hw : r.waiting = []
    · rw [acknowledged_of_nil hflag hw]
      exact ⟨fun hne => absurd hw hne, fun h => absurd h Bool.false_ne_true⟩
    · rw [acknowledged_of_waiting hflag hw]
      exact ⟨fun hne => absurd rfl hne, fun h => absurd h Bool.false_ne_true⟩

theorem Noted.drops (hr : r.Noted) (h : Drops r r') : r'.Noted := by
  cases h with
  | none => exact hr
  | rung n => exact hr.giveBack n
  | deferred n hset =>
    rw [giveBack_of_flag hset]
    exact .await _

theorem Noted.served (hr : r.Noted) : r.served.Noted := by
  rw [Release.served]
  split
  · exact .acknowledged r
  · exact hr

theorem Noted.reclaim (hr : r.Noted) : r.reclaim.Noted := by
  rw [Release.reclaim]
  split
  · exact ⟨hr.marked, hr.watched⟩
  · exact hr

/-! The mark is right after a drop that was put off, and after one that rang only if it was not set
before. -/

theorem inStep_iff : r.standing.InStep ↔ (r.pending = true ↔ r.waiting ≠ []) :=
  mark_eq_not_isEmpty_iff

theorem inStep_giveBack_of_flag (h : r.bell.hostFlag = true) :
    (r.giveBack n).standing.InStep := by
  rw [giveBack_of_flag h, inStep_iff]
  exact iff_of_true rfl (List.append_ne_nil_of_right_ne_nil _ (List.cons_ne_nil n []))

theorem inStep_giveBack_of_clear (h : r.bell.hostFlag = false) :
    (r.giveBack n).standing.InStep ↔ r.pending = false := by
  rw [giveBack_of_clear h]
  exact Iff.rfl

theorem inStep_handOver : r.handOver.standing.InStep ↔ r.pending = false := Iff.rfl

theorem inStep_reclaim : r.reclaim.standing.InStep ↔ r.standing.InStep := by
  rw [Release.reclaim]
  split <;> exact Iff.rfl

theorem inStep_acknowledged_of_flag (h : r.bell.hostFlag = true) :
    r.acknowledged.standing.InStep ↔ r.waiting ≠ [] := by
  rw [acknowledged_of_flag h, inStep_iff]
  exact ⟨fun hin => hin.mp rfl, fun hne => iff_of_true rfl hne⟩

theorem inStep_acknowledged_of_clear (h : r.bell.hostFlag = false) :
    r.acknowledged.standing.InStep := by
  by_cases hw : r.waiting = []
  · rw [acknowledged_of_nil h hw, inStep_iff]
    exact iff_of_false Bool.false_ne_true (not_not.mpr hw)
  · rw [acknowledged_of_waiting h hw]
    rfl

end Release

/-! ### Calls -/

namespace Call

/-- What a call does to given-back buffers, handler by handler. -/
inductive Moves (c : Call) (r : Release) : Release → Prop
  | drops {r' : Release} (hc : c.onlyDrops = true) (h : r.Drops r') : Moves c r r'
  | reclaim (hc : c = .operation .reclaim) : Moves c r r.reclaim
  | served (hc : c = .operation .transmitInterrupt) : Moves c r r.served
  | acknowledged (hc : c = .operation .releaseAcknowledged) : Moves c r r.acknowledged
  | handedOver (hc : c = .flush) : Moves c r r.handOver

/-- The call leaves the mark set although nothing waits. -/
def Strays (x x' : Standing) : Call → Prop
  | operation .reclaim | operation .transmitInterrupt => False
  -- a wake-up without cause
  | operation .releaseAcknowledged => x.rung = true ∧ x.waits = false
  -- what waited is handed over without a ring
  | flush => x.waits = true
  -- the mark was set and the channel free, and a buffer that was given back rang
  | _ => x.marked = true ∧ x.rung = false ∧ x'.rung = true ∧ x'.waits = false

variable {c : Call} {r r' : Release} {x x' : Standing}

theorem strays_of_onlyDrops (hc : c.onlyDrops = true) : c.Strays x x' ↔
    x.marked = true ∧ x.rung = false ∧ x'.rung = true ∧ x'.waits = false := by
  cases c with
  | operation op => cases op <;> first | exact Iff.rfl | exact absurd hc Bool.false_ne_true
  | flush => exact absurd hc Bool.false_ne_true
  | systemAnswered | aclAcknowledged | discardTraces | giveBack | fetchOne | discardOne =>
    exact Iff.rfl

/-- **What waits stays marked.** -/
theorem Moves.noted (h : c.Moves r r') (hr : r.Noted) : r'.Noted := by
  cases h with
  | drops hc h => exact hr.drops h
  | reclaim hc => exact hr.reclaim
  | served hc => exact hr.served
  | acknowledged hc => exact .acknowledged r
  | handedOver hc => exact hr.handOver

/-- **A mark that is right stays so, unless the call is one of those that leave it set.** -/
theorem Moves.inStep_iff (h : c.Moves r r') (hin : r.standing.InStep) :
    r'.standing.InStep ↔ ¬ c.Strays r.standing r'.standing := by
  cases h with
  | drops hc h =>
    rw [strays_of_onlyDrops hc]
    cases h with
    | none =>
      refine iff_of_true hin ?_
      rintro ⟨-, hclear, hrang, -⟩
      exact Bool.false_ne_true (hclear.symm.trans hrang)
    | rung n hclear =>
      rw [Release.inStep_giveBack_of_clear hclear, Release.giveBack_of_clear hclear]
      exact ⟨fun h hs => Bool.false_ne_true (h.symm.trans hs.1),
        fun h => Bool.eq_false_iff.mpr fun hp => h ⟨hp, hclear, rfl, rfl⟩⟩
    | deferred n hset =>
      refine iff_of_true (Release.inStep_giveBack_of_flag hset) ?_
      rintro ⟨-, -, -, hnone⟩
      rw [Release.giveBack_of_flag hset] at hnone
      simp [Release.standing, Release.await] at hnone
  | reclaim hc =>
    subst hc
    exact iff_of_true (Release.inStep_reclaim.mpr hin) id
  | served hc =>
    subst hc
    refine iff_of_true ?_ id
    rw [Release.served]
    split
    · next hdue =>
      exact Release.inStep_acknowledged_of_clear (by simpa using (Bool.and_eq_true_iff.mp hdue).2)
    · exact hin
  | acknowledged hc =>
    subst hc
    cases hflag : r.bell.hostFlag with
    | true =>
      rw [Release.inStep_acknowledged_of_flag hflag]
      simp [Strays, Release.standing, hflag]
    | false =>
      refine iff_of_true (Release.inStep_acknowledged_of_clear hflag) ?_
      rintro ⟨hrung, -⟩
      exact Bool.false_ne_true (hflag.symm.trans hrung)
  | handedOver hc =>
    subst hc
    rw [Release.inStep_handOver, ← Bool.not_eq_true]
    exact not_congr (Bool.eq_iff_iff.mp hin)

end Call

namespace Account

variable {p : Placement} {sw : Switches} {note : Event → σ → σ} {s : Account σ}

/-- **What a call does to given-back buffers, handler by handler.** -/
theorem call_moves (sw : Switches) (note : Event → σ → σ) (hp : p.Valid) (hs : s.Proper [])
    (c : Call) : c.Moves s.release (c.apply p sw note s).release := by
  by_cases hc : c.onlyDrops = true
  · exact .drops hc (drops_effect sw note hp hs hc).release
  · rcases Call.cases_of_not_onlyDrops hc with rfl | rfl | rfl | rfl
    · exact release_reclaim ▸ .reclaim rfl
    · exact release_transmitInterrupt ▸ .served rfl
    · exact release_releaseAcknowledged ▸ .acknowledged rfl
    · exact release_handOver ▸ .handedOver rfl

end Account

/-- The turn leaves the mark set although nothing waits. -/
def Turn.Strays (t : Turn σ) : Prop := t.call.Strays t.before.standing t.after.standing

/-- What the mark tells on a board that calls led to. -/
structure Marked (ts : List (Turn σ)) (b : Board σ) : Prop where
  /-- What waits is marked. -/
  marked : b.line .waiting ≠ [] → b.host.releasePending = true
  /-- Nothing else is, if no turn has left the mark set. -/
  exact : (∀ t ∈ ts, ¬ t.Strays) → (b.host.releasePending = true ↔ b.line .waiting ≠ [])
  /-- Each of these turns puts a mark that was right out of step, and no other turn does. -/
  strays : ∀ t ∈ ts, t.before.standing.InStep → (t.after.standing.InStep ↔ ¬ t.Strays)
  /-- A transmit interrupt that finds the channel free puts the mark right. -/
  mended : ∀ t ∈ ts, t.call = .operation .transmitInterrupt →
    (t.before.panel.get .release).hostFlag = false →
      t.after.host.releasePending = false ∧ t.after.line .waiting = []

namespace Calls

variable {p : Placement} {sw : Switches} {note : Event → σ → σ} {b₀ b : Board σ}
  {ts : List (Turn σ)}

/-- What is known of the mark after some calls. -/
theorem exists_noted (hp : p.Valid) (hboxes : ∀ x ∈ b₀.boxes, x = Box.empty)
    (h : Calls p sw note b₀ ts b) :
    ∃ s, b.Shows p sw s ∧ s.Proper [] ∧
      (s.release.Noted ∧ ((∀ t ∈ ts, ¬ t.Strays) → s.release.standing.InStep)) ∧
      ∀ t ∈ ts, (t.before.standing.InStep → (t.after.standing.InStep ↔ ¬ t.Strays)) ∧
        (t.call = .operation .transmitInterrupt →
          (t.before.panel.get .release).hostFlag = false →
            t.after.host.releasePending = false ∧ t.after.line .waiting = []) := by
  refine h.invariant_of hp hboxes (Q := fun _ => True)
    (I := fun ts s => s.release.Noted ∧ ((∀ t ∈ ts, ¬ t.Strays) → s.release.standing.InStep))
    (fun m => ?_) (fun ts b s c b' hI hshows hs _ hshows' _ => ?_) fun _ _ => trivial
  · exact ⟨⟨fun hne => absurd rfl hne, fun h => absurd h Bool.false_ne_true⟩, fun _ => rfl⟩
  · have hmoves := Account.call_moves sw note hp hs c
    have hstep : b.standing.InStep → (b'.standing.InStep ↔ ¬ c.Strays b.standing b'.standing) := by
      rw [hshows.standing, hshows'.standing]
      exact hmoves.inStep_iff
    refine ⟨⟨hmoves.noted hI.1, fun hnone => ?_⟩, hstep, fun hc hclear => ?_⟩
    · obtain ⟨hbefore, hlast⟩ := List.forall_mem_append.mp hnone
      rw [← hshows'.standing]
      exact (hstep (hshows.standing ▸ hI.2 hbefore)).mpr (hlast _ List.mem_cons_self)
    · obtain rfl : c = .operation .transmitInterrupt := hc
      have hserved : (Call.apply p sw note s (.operation .transmitInterrupt)).release =
          s.release.served := Account.release_transmitInterrupt
      obtain ⟨hwaiting, hpending, -⟩ := Release.served_of_clear
        (fun hne => hI.1.watched (hI.1.marked hne)) hI.1.watched (hshows.hostFlag_eq ▸ hclear)
      rw [hshows'.pending_eq, hshows'.waiting_eq, hserved, hwaiting, hpending]
      exact ⟨rfl, rfl⟩

/-- **The mark follows the local queue, up to turns that leave it set.** -/
theorem mark_follows_queue (hp : p.Valid) (hboxes : ∀ x ∈ b₀.boxes, x = Box.empty)
    (h : Calls p sw note b₀ ts b) : Marked ts b := by
  obtain ⟨s, hshows, -, ⟨hnoted, hinStep⟩, hturns⟩ := h.exists_noted hp hboxes
  refine ⟨fun hne => ?_, fun hnone => ?_, fun t ht => (hturns t ht).1, fun t ht => (hturns t ht).2⟩
  · rw [hshows.waiting_eq, ne_eq, List.map_eq_nil_iff] at hne
    rw [hshows.pending_eq]
    exact hnoted.marked hne
  · rw [← b.inStep_iff, hshows.standing]
    exact hinStep hnone

/-- Three events are received, and their buffers given back: the first one rings, and the second one
waits. The peer looks, and before the transmit interrupt comes the third one rings for both. -/
def lateDrop : List Operation :=
  [.deliverEvent 15 [0, 1], .deliverEvent 14 [2], .deliverEvent 62 [], .fetchEvents .ble,
    .takeEvent .ble 0, .newBox, .takeEvent .ble 1, .newBox, .takeEvent .ble 2, .releaseBox 0,
    .releaseBox 1, .reclaim, .releaseBox 2]

/-- After the next look the transmit interrupt takes the mark back that such a run has left set. -/
theorem mark_follows_queue_session : ∃ ts b,
    Calls Placement.standard {} (fun _ c => c) Demo.blank ts b ∧
    ts.map (·.call) = (lateDrop ++ [Operation.reclaim, .transmitInterrupt]).map Call.operation ∧
    Marked ts b := by
  obtain ⟨ts, b, h, hcalls⟩ : ∃ ts b,
      Calls Placement.standard {} (fun _ c => c) Demo.blank ts b ∧
      ts.map (·.call) = (lateDrop ++ [Operation.reclaim, .transmitInterrupt]).map Call.operation :=
    exists_of_legal Placement.valid_standard Demo.boxes_blank (by decide) (by decide)
  exact ⟨ts, b, h, hcalls, mark_follows_queue Placement.valid_standard Demo.boxes_blank h⟩

/-- **The mark may be set although nothing waits**: after a buffer was given back between a look of
the peer and the transmit interrupt, and after a wake-up without cause. -/
theorem mark_outlasts_queue :
    (∃ ts b, Calls Placement.standard {} (fun _ c => c) Demo.blank ts b ∧
      ts.map (·.call) = lateDrop.map Call.operation ∧
      b.line .waiting = [] ∧ b.host.releasePending = true) ∧
    ∃ ts b, Calls Placement.standard {} (fun _ c => c) Demo.blank ts b ∧
      ts.map (·.call) = [.deliverEvent 15 [0, 1], .fetchEvents .ble, .takeEvent .ble 0,
        .releaseBox 0, .releaseAcknowledged].map Call.operation ∧
      b.line .waiting = [] ∧ b.host.releasePending = true := by
  have hread : ∀ cs, ((Call.session Placement.standard {} (fun _ c => c) cs Demo.blank).map
      fun b => (b.line .waiting, b.host.releasePending)) = some ([], true) →
      ∃ ts b, Calls Placement.standard {} (fun _ c => c) Demo.blank ts b ∧
        ts.map (·.call) = cs ∧ b.line .waiting = [] ∧ b.host.releasePending = true := by
    intro cs hcs
    obtain ⟨b, hsession, hread⟩ := Option.map_eq_some_iff.mp hcs
    obtain ⟨ts, hcalls, hts⟩ := Calls.of_session hsession
    obtain ⟨hwaiting, hpending⟩ := Prod.mk.inj hread
    exact ⟨ts, b, hcalls, hts, hwaiting, hpending⟩
  exact ⟨hread _ (by decide +kernel), hread _ (by decide +kernel)⟩

end Calls

end InterCore
