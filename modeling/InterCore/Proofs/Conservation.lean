import InterCore.Demo
import InterCore.Proofs.Readings
import InterCore.Proofs.Scripts

/-!
# Conservation of buffers

No buffer is ever lost or in two places: on every board of a run, every slot of the pool is in
exactly one place, the heads and the spare slots are in none, and the peer misses as many slots as
the host has.

## Main results

* `Run.buffers_conserved`: the places of a board hold every slot of the pool once and nothing else.
-/

namespace InterCore

variable {σ : Type}

/-- The number of slots that the peer misses. -/
theorem Board.Shows.outstanding_eq {p : Placement} {sw : Switches} {b : Board σ} {s : Account σ}
    (h : b.Shows p sw s) (hs : s.places.Perm pool) :
    b.peer.outstanding.toNat = b.hostPlaces.length ∧
      b.peer.free.length + b.peer.outstanding.toNat = pool.length := by
  have hfree : b.peer.free.length = s.free.length := by
    rw [h.carries.peer_free, List.length_map]
  have hplaces := hs.length_eq
  have hhost := congrArg List.length h.hostPlaces_eq
  rw [s.places_eq_append] at hplaces
  simp only [List.length_map, List.length_append] at hplaces hhost
  have hpool : pool.length = 5 := rfl
  have hsize : UInt64.size = 18446744073709551616 := rfl
  have hslots : (UInt64.ofNat pool.length).toNat = 5 := rfl
  have hcount : (UInt64.ofNat s.free.length).toNat = s.free.length :=
    UInt64.toNat_ofNat_of_lt' (by omega)
  have hle : UInt64.ofNat s.free.length ≤ UInt64.ofNat pool.length := by
    rw [UInt64.le_iff_toNat_le, hcount, hslots]
    omega
  rw [Peer.outstanding, h.carries.peer_slots, hfree, UInt64.toNat_sub_of_le _ _ hle, hcount, hslots]
  omega

/-- **Buffers are conserved.** After every run each slot of the pool is in exactly one place, once,
and nothing else is in any: no head of a queue and no spare slot. The peer misses exactly the slots
that the host has. -/
theorem Run.buffers_conserved {p : Placement} {sw : Switches} {note : Event → σ → σ}
    {b₀ b : Board σ} {ts : List (Transition σ)} (hp : p.Valid)
    (hboxes : ∀ x ∈ b₀.boxes, x = Box.empty) (h : Run p sw note b₀ ts b) :
    b.places.Perm (pool.map some) ∧ (∀ l, some (b.host.lineHead l) ∉ b.places) ∧
      (∀ n ∈ slots, n ∉ pool → some n ∉ b.places) ∧
      b.peer.outstanding.toNat = b.hostPlaces.length ∧
      b.peer.free.length + b.peer.outstanding.toNat = pool.length := by
  obtain ⟨s, hshows, hperm⟩ := h.exists_shows hp hboxes
  have hplaces : b.places.Perm (pool.map some) := by
    rw [hshows.places_eq]
    exact hperm.map some
  have hmem : ∀ n, some n ∈ b.places → n ∈ pool := by
    intro n hn
    obtain ⟨n', hn', heq⟩ := List.mem_map.mp (hplaces.mem_iff.mp hn)
    exact Option.some.inj heq ▸ hn'
  refine ⟨hplaces, fun l hl => ?_, fun n _ hn hmem' => hn (hmem n hmem'),
    hshows.outstanding_eq hperm⟩
  rw [hshows.host.lineHead_eq] at hl
  exact l.head_not_mem_slots (List.mem_append_left [9, 10] (hmem _ hl))

/-- Buffers are conserved while one event passes through two boxes and back to the peer. -/
theorem Run.buffers_conserved_session : ∃ ts b,
    Run Placement.standard {} (fun _ c => c) Demo.blank ts b ∧
    ts.map (·.operation) = [.deliverEvent 15 [0, 1], .fetchEvents .ble, .takeEvent .ble 0, .newBox,
      .moveBox 0 1, .releaseBox 1, .reclaim, .destroyBox 1] ∧
    b.places.Perm (pool.map some) ∧ (∀ l, some (b.host.lineHead l) ∉ b.places) ∧
    (∀ n ∈ slots, n ∉ pool → some n ∉ b.places) ∧
    b.peer.outstanding.toNat = b.hostPlaces.length ∧
    b.peer.free.length + b.peer.outstanding.toNat = pool.length := by
  obtain ⟨ts, b, hrun, hops⟩ : ∃ ts b,
      Run Placement.standard {} (fun _ c => c) Demo.blank ts b ∧
      ts.map (·.operation) = [.deliverEvent 15 [0, 1], .fetchEvents .ble, .takeEvent .ble 0,
        .newBox, .moveBox 0 1, .releaseBox 1, .reclaim, .destroyBox 1] :=
    Run.exists_of_legal Placement.valid_standard Demo.boxes_blank (by decide) (by decide)
  exact ⟨ts, b, hrun, hops, Run.buffers_conserved Placement.valid_standard Demo.boxes_blank hrun⟩

end InterCore
