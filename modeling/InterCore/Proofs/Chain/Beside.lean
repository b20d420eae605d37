import InterCore.Proofs.Chain.Agreement

/-!
# Writes beside the links

A splice reads and writes the links of nodes and nothing else. So a write to bytes that belong to no
link may come before it or after it, whatever the links are: the splice stops for the same cause,
or leaves the same memory. Nothing is asked of the chain.

## Main definitions

* `Chain.Beside`: a run of bytes that belongs to no link.

## Main results

* `Chain.pushBack_write`, `Chain.popFront_write`: a splice and a write beside the links trade
  places.
* `Chain.agreeOff_pushBack`, `Chain.agreeOff_popFront`: a splice writes links only.
* `Chain.Wired.linkBack_write`, `Chain.Wired.unlinkFront_write`: the same for the other core.
-/

namespace InterCore

open Memory

namespace Arena

variable {a : Arena} {i : NodeIndex} {p q : Address}

/-- An address that was looked up is that of a node. -/
theorem locate_of_address (h : a.address i = .ok p) : a.Has i ∧ p = a.locate i := by
  have hi := has_of_address h
  rw [hi.address] at h
  exact ⟨hi, (Except.ok.inj h).symm⟩

/-- A link that was followed leads to a node. -/
theorem exists_locate_of_follow (h : a.follow p = .ok q) : ∃ i, a.Has i ∧ q = a.locate i := by
  rw [Arena.follow] at h
  cases hresolve : a.resolve p with
  | error e =>
    rw [hresolve] at h
    cases h
  | ok i =>
    rw [hresolve] at h
    exact ⟨i, locate_of_address h⟩

end Arena

namespace Chain

/-- The run of bytes belongs to no link. -/
def Beside (a : Arena) (q : Address) (n : Nat) : Prop :=
  ∀ k, Within q n k → ¬ a.Links a.Has k

variable {a : Arena} {q : Address} {bs : List UInt8} {m m' : Memory} {i h n : NodeIndex}

section Writes

variable (hq : Beside a q bs.length) (hbs : bs.length ≤ UInt64.size)
include hq hbs

/-! ### Single links -/

theorem agreeOff_beside (m : Memory) :
    AgreeOff (fun k => ¬ a.Links a.Has k) m (m.write q bs) :=
  (agreeOff_write m q (Nat.le_refl _) hbs).mono hq

theorem next_write (hi : a.Has i) :
    (m.write q bs).next (a.locate i) = m.next (a.locate i) :=
  (agreeOff_beside hq hbs m).pointer_eq fun _ hk => not_not.mpr ⟨i, hi, hk.mono (by decide)⟩

theorem prev_write (hi : a.Has i) :
    (m.write q bs).prev (a.locate i) = m.prev (a.locate i) :=
  (agreeOff_beside hq hbs m).pointer_eq fun _ hk => not_not.mpr ⟨i, hi, hk.of_add (by decide)⟩

theorem setNext_write (hi : a.Has i) (v : Address) :
    (m.write q bs).setNext (a.locate i) v = (m.setNext (a.locate i) v).write q bs := by
  have hlength : (LittleEndian.encode 8 v.toNat).length = 8 := LittleEndian.length_encode 8 _
  refine write_comm m hbs (by rw [hlength]; decide) fun k hk hk' => hq k hk ⟨i, hi, ?_⟩
  rw [hlength] at hk'
  exact hk'.mono (by decide)

theorem setPrev_write (hi : a.Has i) (v : Address) :
    (m.write q bs).setPrev (a.locate i) v = (m.setPrev (a.locate i) v).write q bs := by
  have hlength : (LittleEndian.encode 8 v.toNat).length = 8 := LittleEndian.length_encode 8 _
  refine write_comm m hbs (by rw [hlength]; decide) fun k hk hk' => hq k hk ⟨i, hi, ?_⟩
  rw [hlength] at hk'
  exact hk'.of_add (by decide)

/-! ### Splices -/

/-- Linking a node to the end of a chain and a write beside the links trade places. -/
theorem pushBack_write :
    pushBack a (m.write q bs) h n = (pushBack a m h n).map (·.write q bs) := by
  simp only [pushBack, insertBefore, bind, Except.bind]
  cases hn : a.address n with
  | error e => rfl
  | ok x =>
    obtain ⟨hhas, rfl⟩ := Arena.locate_of_address hn
    cases hh : a.address h with
    | error e => rfl
    | ok y =>
      obtain ⟨hhas', rfl⟩ := Arena.locate_of_address hh
      simp only [prev_write hq hbs hhas']
      cases hlast : a.follow (m.prev (a.locate h)) with
      | error e => rfl
      | ok z =>
        obtain ⟨j, hj, rfl⟩ := Arena.exists_locate_of_follow hlast
        simp only [setNext_write hq hbs hhas, setPrev_write hq hbs hhas,
          setPrev_write hq hbs hhas', setNext_write hq hbs hj]
        rfl

/-- Joining the neighbours of a node and a write beside the links trade places. -/
theorem remove_write : remove a (m.write q bs) n = (remove a m n).map (·.write q bs) := by
  simp only [remove, bind, Except.bind]
  cases hn : a.address n with
  | error e => rfl
  | ok x =>
    obtain ⟨hhas, rfl⟩ := Arena.locate_of_address hn
    simp only [prev_write hq hbs hhas, next_write hq hbs hhas]
    cases hbefore : a.follow (m.prev (a.locate n)) with
    | error e => rfl
    | ok y =>
      obtain ⟨i, hi, rfl⟩ := Arena.exists_locate_of_follow hbefore
      cases hafter : a.follow (m.next (a.locate n)) with
      | error e => rfl
      | ok z =>
        obtain ⟨j, hj, rfl⟩ := Arena.exists_locate_of_follow hafter
        simp only [setNext_write hq hbs hi, prev_write hq hbs hhas, setPrev_write hq hbs hj]
        rfl

/-- Taking the first node of a chain and a write beside the links trade places. -/
theorem popFront_write : popFront a (m.write q bs) h =
    (popFront a m h).map (Prod.map id (·.write q bs)) := by
  simp only [popFront, isEmpty, bind, Except.bind]
  cases hh : a.address h with
  | error e => rfl
  | ok x =>
    obtain ⟨hhas, rfl⟩ := Arena.locate_of_address hh
    simp only [next_write hq hbs hhas, pure, Except.pure]
    split
    · rfl
    · cases hfirst : a.resolve (m.next (a.locate h)) with
      | error e => rfl
      | ok n =>
        simp only [remove_write hq hbs]
        cases remove a m n <;> rfl

end Writes

/-! ### What splices write -/

/-- What trades places with every write beside the links writes links only. -/
theorem agreeOff_of_write {f : Memory → Except Halt Memory}
    (hf : ∀ q v, Beside a q 1 → f (m.write q [v]) = (f m).map (·.write q [v]))
    (hm : f m = .ok m') : AgreeOff (a.Links a.Has) m m' := by
  intro k hk
  have hbeside : Beside a k 1 := by
    intro k' hk'
    have heq : k' = k := by
      rw [← UInt64.toNat_inj]
      have := k.toNat_lt
      have := k'.toNat_lt
      simp only [Within, UInt64.toNat_sub] at hk'
      omega
    rwa [heq]
  have hsame : m.write k [m.get k] = m :=
    (AgreeOff.refl (Within k 1) m).write_read (by decide)
  have hwrite := hf k (m.get k) hbeside
  rw [hsame, hm] at hwrite
  have hwritten : m' = m'.write k [m.get k] := Except.ok.inj hwrite
  rw [hwritten, get_write m' k k [m.get k] (show 1 ≤ UInt64.size by decide), UInt64.sub_self]
  rfl

theorem agreeOff_pushBack (hm : pushBack a m h n = .ok m') :
    AgreeOff (a.Links a.Has) m m' :=
  agreeOff_of_write (f := fun m => pushBack a m h n)
    (fun _ _ hq => pushBack_write hq (show 1 ≤ UInt64.size by decide)) hm

theorem agreeOff_popFront {o : Option NodeIndex} (hm : popFront a m h = .ok (o, m')) :
    AgreeOff (a.Links a.Has) m m' := by
  refine agreeOff_of_write (f := fun m => (popFront a m h).map Prod.snd) (fun q v hq => ?_)
    (by rw [hm]; rfl)
  have hwrite : popFront a (m.write q [v]) h =
      (popFront a m h).map (Prod.map id (·.write q [v])) :=
    popFront_write hq (show 1 ≤ UInt64.size by decide)
  rw [hwrite]
  cases popFront a m h <;> rfl

/-! ### The other core -/

namespace Wired

variable {xs : List NodeIndex} (hw : Wired a m h xs)
  (hq : Beside a q bs.length) (hbs : bs.length ≤ UInt64.size)
include hw hq hbs

/-- A write beside the links keeps a list. -/
theorem write : Wired a (m.write q bs) h xs where
  represents := hw.represents.congr (fun _ hi => next_write hq hbs (hw.has hi))
    fun _ hi => prev_write hq hbs (hw.has hi)
  finds := hw.finds
  apart := hw.apart

/-- The peer may append before a write beside the links or after it. -/
theorem linkBack_write (hn : Joins a h xs n) :
    Peer.linkBack (m.write q bs) (a.locate h) (a.locate n) =
      (Peer.linkBack m (a.locate h) (a.locate n)).write q bs := by
  have hpush := pushBack_write (m := m) (h := h) (n := n) hq hbs
  rw [hw.pushBack_eq hn, (hw.write hq hbs).pushBack_eq hn] at hpush
  exact Except.ok.inj hpush

/-- The peer may take the first node before a write beside the links or after it. -/
theorem unlinkFront_write : Peer.unlinkFront (m.write q bs) (a.locate h) =
    Prod.map id (·.write q bs) (Peer.unlinkFront m (a.locate h)) := by
  have hw' := hw.write hq hbs
  cases xs with
  | nil => rw [hw.popFront_nil.2, hw'.popFront_nil.2, Prod.map_apply, id]
  | cons n xs =>
    rw [hw.unlinkFront_eq, hw'.unlinkFront_eq, Prod.map_apply, id, taken, taken,
      setNext_write hq hbs (hw.has List.mem_cons_self), setPrev_write hq hbs (hw.has second_mem)]

end Wired

end Chain

end InterCore
