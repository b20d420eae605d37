import InterCore.Host.Release
import InterCore.Proofs.Account

/-!
# Giving buffers back, on accounts

What giving a buffer back and the acknowledgement of a ring do to an account. A buffer that is given
back joins the waiting ones; they all move on at once when the doorbell is rung, and no buffer is
lost on the way.

## Main definitions

* `Account.handOver`: every waiting buffer moves to the shared free queue.
* `Account.giveBack`, `Account.releaseAcknowledged`: the two operations.

## Main results

* `Board.Shows.giveBack`, `Board.Shows.releaseAcknowledged`: the programs of the host do this.
* `Account.places_giveBack`, `Account.places_releaseAcknowledged`: no buffer is lost.
-/

namespace InterCore

variable {σ : Type}

namespace Account

variable (note : Event → σ → σ) (s : Account σ)

/-- Every waiting buffer moves to the shared free queue. -/
def handOver : Account σ := { s with line := flushed s.line }

/-- The release doorbell rings. -/
def ringRelease : Account σ :=
  (s.modifyBell .release Bell.ring).tell note
    { kind := .releaseRung, channel := Channel.release.number, length := 0, code := 0 }

/-- The release waits until the doorbell is free. -/
def awaitRelease : Account σ :=
  (s.modifyFlags ({ · with releasePending := true })).modifyBell .release (·.enableTx true)

/-- One buffer is given back. -/
def giveBack (n : NodeIndex) : Account σ :=
  let s := (s.append .waiting n).tell note
    { kind := .bufferReleased, channel := Channel.release.number, length := 0, code := 0 }
  if (s.panel.get .release).hostFlag then
    s.awaitRelease.tell note
      { kind := .releaseDeferred, channel := Channel.release.number, length := 0, code := 0 }
  else s.handOver.ringRelease note

/-- A ring was acknowledged. -/
def releaseAcknowledged : Account σ :=
  let s := (s.modifyBell .release (·.enableTx false)).modifyFlags
    ({ · with releasePending := false })
  if (s.panel.get .release).hostFlag then s.awaitRelease
  else if (s.line .waiting).length ≠ 0 then s.handOver.ringRelease note
  else s

/-! ### Places -/

variable {note s} {n : NodeIndex} {held : List NodeIndex}

theorem flushed_perm (q : Line → List NodeIndex) :
    (Line.all.flatMap (flushed q)).Perm (Line.all.flatMap q) := by
  have hflat : ∀ q : Line → List NodeIndex, Line.all.flatMap q =
      q (.shared .ble) ++ q (.shared .system) ++ (q (.shared .free) ++ q .waiting) ++
        q (.shared .traces) := by
    intro q
    simp [Line.all]
  rw [hflat q, hflat (flushed q)]
  simp [flushed, InterCore.setLine, Function.update]

theorem handOver_of_nil (hs : s.line .waiting = []) : s.handOver = s := by
  rw [handOver, flushed_of_nil hs]

theorem places_handOver : s.handOver.places.Perm s.places :=
  (((flushed_perm s.line).append_left s.free).append_right _).append_right _

theorem places_giveBack : (s.giveBack note n).places.Perm (n :: s.places) := by
  rw [giveBack]
  split
  · exact s.places_append .waiting n
  · exact places_handOver.trans (s.places_append .waiting n)

theorem places_releaseAcknowledged : (s.releaseAcknowledged note).places.Perm s.places := by
  rw [releaseAcknowledged]
  split
  · exact .refl _
  · split
    · exact places_handOver (s := s)
    · exact .refl _

/-! ### What giving back leaves alone -/

@[simp] theorem giveBack_inbox : (s.giveBack note n).inbox = s.inbox := by
  rw [giveBack]
  split <;> rfl

@[simp] theorem giveBack_taken : (s.giveBack note n).taken = s.taken := by
  rw [giveBack]
  split <;> rfl

@[simp] theorem giveBack_boxes : (s.giveBack note n).boxes = s.boxes := by
  rw [giveBack]
  split <;> rfl

@[simp] theorem giveBack_bytes : (s.giveBack note n).bytes = s.bytes := by
  rw [giveBack]
  split <;> rfl

@[simp] theorem giveBack_free : (s.giveBack note n).free = s.free := by
  rw [giveBack]
  split <;> rfl

/-- Giving back changes no line but the one of the waiting buffers and the shared free queue. -/
theorem giveBack_line {l : Line} (hfree : l ≠ .shared .free) (hwaiting : l ≠ .waiting) :
    (s.giveBack note n).line l = s.line l := by
  rw [giveBack]
  split
  · exact Function.update_of_ne hwaiting _ _
  · exact (Function.update_of_ne hfree _ _).trans ((Function.update_of_ne hwaiting _ _).trans
      (Function.update_of_ne hwaiting _ _))

end Account

namespace Board.Shows

variable {p : Placement} {sw : Switches} {b : Board σ} {s : Account σ} {n : NodeIndex}
  (note : Event → σ → σ) (h : b.Shows p sw s)
include h

theorem flush : Yields p sw Host.flush b (s.line .waiting).length s.handOver := by
  obtain ⟨m', hrun, hagree, hready⟩ := h.ready.flush h.valid
  exact ⟨{ b with memory := m' }, hrun,
    { h with carries := hready.carries, bytes := h.bytes.trans hagree }⟩

theorem ringRelease :
    Yields p sw (Host.ringRelease (Observer.passive note)) b () (s.ringRelease note) :=
  (h.modifyBell .release Bell.ring).bind fun _ h₁ => h₁.tell note _

/-- **The host gives a buffer back.** -/
theorem giveBack (hn : s.Proper [n]) :
    Yields p sw (Host.giveBack (Observer.passive note) n) b () (s.giveBack note n) := by
  have hl : Line.waiting ∈ Line.made sw.traces := Line.mem_made_of_ne _ (by decide)
  refine Yields.get ?_
  refine (h.append hl h.host.localQueue hn).bind fun b₁ h₁ => ?_
  refine (h₁.tell note _).bind fun b₂ h₂ => ?_
  refine (h₂.bell .release).bind fun b₃ h₃ => ?_
  rw [Account.giveBack]
  split
  · refine (h₃.modifyFlags ({ · with releasePending := true }) fun _ => rfl).bind fun b₄ h₄ => ?_
    refine (h₄.modifyBell .release (·.enableTx true)).bind fun b₅ h₅ => ?_
    exact h₅.tell note _
  · exact h₃.flush.bind fun b₄ h₄ => h₄.ringRelease note

/-- **The host takes notice of an acknowledged ring.** -/
theorem releaseAcknowledged :
    Yields p sw (Host.releaseAcknowledged (Observer.passive note)) b ()
      (s.releaseAcknowledged note) := by
  refine (h.modifyBell .release _).bind fun b₁ h₁ => ?_
  refine (h₁.modifyFlags ({ · with releasePending := false }) fun _ => rfl).bind fun b₂ h₂ => ?_
  refine (h₂.bell .release).bind fun b₃ h₃ => ?_
  rw [Account.releaseAcknowledged]
  split
  · refine (h₃.modifyFlags ({ · with releasePending := true }) fun _ => rfl).bind fun b₄ h₄ => ?_
    exact h₄.modifyBell .release _
  · refine h₃.flush.bind fun b₄ h₄ => ?_
    split
    · exact h₄.ringRelease note
    · next hzero =>
      rw [Account.handOver_of_nil (List.length_eq_zero_iff.mp (not_not.mp hzero))] at h₄
      exact h₄.pure ()

end Board.Shows

end InterCore
