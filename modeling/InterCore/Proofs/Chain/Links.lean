import InterCore.Chain
import InterCore.Peer
import InterCore.Proofs.Arena

/-!
# Links and splices

The two links of a node are fields of its slot, so in an arena with separate regions a stored link
is read back at its own node and nowhere else. From this follows what each splice does to the
links, in two forms: a node comes to lie between two neighbours, or it is passed over. Both hold
when the neighbours are one node, as in an empty chain.

## Main definitions

* `Arena.Links`: the link bytes of some nodes; `Arena.Apart`: two nodes share none.
* `Chain.Joined`: a node follows another.
* `Chain.Spliced`, `Chain.Bypassed`: what inserting and removing a node do to the links.

## Main results

* `Chain.insertAfter_spliced`, `Chain.insertBefore_spliced`, `Peer.linkBack_spliced`: insertion.
* `Chain.remove_bypassed`, `Peer.unlinkFront_bypassed`: removal.
-/

namespace InterCore

namespace Arena

/-- The bytes of the links of some nodes. -/
def Links (a : Arena) (S : NodeIndex → Prop) (k : Address) : Prop :=
  ∃ i, S i ∧ Memory.Within (a.locate i) 16 k

/-- The links of two nodes share no byte. -/
def Apart (a : Arena) (i j : NodeIndex) : Prop :=
  ∀ k, Memory.Within (a.locate i) 16 k → ¬ Memory.Within (a.locate j) 16 k

theorem Apart.symm {a : Arena} {i j : NodeIndex} (h : a.Apart i j) : a.Apart j i :=
  fun k hk hk' => h k hk' hk

theorem Apart.ne {a : Arena} {i j : NodeIndex} (h : a.Apart i j) : a.locate i ≠ a.locate j :=
  fun heq => h _ (Memory.within_self _ (by decide)) (heq ▸ Memory.within_self _ (by decide))

theorem Separated.apart {a : Arena} (ha : a.Separated) {i j : NodeIndex} (hi : a.Has i)
    (hj : a.Has j) (hij : i ≠ j) : a.Apart i j :=
  fun _ => ha.links_apart hi hj hij

theorem Links.mono {a : Arena} {S S' : NodeIndex → Prop} {k : Address} (h : a.Links S k)
    (hS : ∀ i, S i → S' i) : a.Links S' k :=
  let ⟨i, hi, hk⟩ := h
  ⟨i, hS i hi, hk⟩

end Arena

namespace Memory

/-! ### Single links -/

theorem agreeOff_setNext (m : Memory) (p q : Address) :
    AgreeOff (Within p 16) m (m.setNext p q) :=
  (agreeOff_setPointer m p q).mono fun _ hk => hk.mono (by decide)

theorem agreeOff_setPrev (m : Memory) (p q : Address) :
    AgreeOff (Within p 16) m (m.setPrev p q) :=
  (agreeOff_setPointer m (p + 8) q).mono fun _ hk => hk.of_add (by decide)

/-- The forward link and the backward link of a node are different fields. -/
theorem not_within_prev_of_within_next {p k : Address} (h : Within p 8 k) :
    ¬ Within (p + 8) 8 k := by
  have hp := p.toNat_lt
  have hk := k.toNat_lt
  simp only [Within, UInt64.toNat_sub, UInt64.toNat_add, UInt64.reduceToNat] at h ⊢
  omega

section Apart

variable {a : Arena} {i j : NodeIndex} (h : i ≠ j → a.Apart i j) (m : Memory) (q : Address)
include h

/-! A stored link is read back at its own node, and at no node that lies apart. -/

theorem next_setNext_of_apart :
    (m.setNext (a.locate i) q).next (a.locate j) = if i = j then q else m.next (a.locate j) := by
  split
  · next hij => rw [hij, next, setNext, pointer_setPointer_self]
  · next hij =>
    refine (agreeOff_setNext m _ q).pointer_eq fun k hk hk' => ?_
    exact h hij k hk' (hk.mono (by decide))

theorem prev_setPrev_of_apart :
    (m.setPrev (a.locate i) q).prev (a.locate j) = if i = j then q else m.prev (a.locate j) := by
  split
  · next hij => rw [hij, prev, setPrev, pointer_setPointer_self]
  · next hij =>
    refine (agreeOff_setPrev m _ q).pointer_eq fun k hk hk' => ?_
    exact h hij k hk' (hk.of_add (by decide))

theorem next_setPrev_of_apart :
    (m.setPrev (a.locate i) q).next (a.locate j) = m.next (a.locate j) := by
  by_cases hij : i = j
  · subst hij
    exact (agreeOff_setPointer m _ q).pointer_eq fun k hk => not_within_prev_of_within_next hk
  · refine (agreeOff_setPrev m _ q).pointer_eq fun k hk hk' => ?_
    exact h hij k hk' (hk.mono (by decide))

theorem prev_setNext_of_apart :
    (m.setNext (a.locate i) q).prev (a.locate j) = m.prev (a.locate j) := by
  by_cases hij : i = j
  · subst hij
    refine (agreeOff_setPointer m _ q).pointer_eq fun k hk hk' => ?_
    exact not_within_prev_of_within_next hk' hk
  · refine (agreeOff_setNext m _ q).pointer_eq fun k hk hk' => ?_
    exact h hij k hk' (hk.of_add (by decide))

/-- Links of different kinds, or of nodes that lie apart, may be stored in either order. -/
theorem setNext_setPrev_comm (q' : Address) :
    (m.setNext (a.locate i) q).setPrev (a.locate j) q' =
      (m.setPrev (a.locate j) q').setNext (a.locate i) q := by
  have hlength : ∀ n, (LittleEndian.encode 8 n).length = 8 := LittleEndian.length_encode 8
  refine write_comm m (by rw [hlength]; decide) (by rw [hlength]; decide) fun k hk => ?_
  rw [hlength] at hk ⊢
  by_cases hij : i = j
  · subst hij
    exact not_within_prev_of_within_next hk
  · exact fun hk' => h hij k (hk.mono (by decide)) (hk'.of_add (by decide))

end Apart

section Separated

variable {a : Arena} (ha : a.Separated) {i j : NodeIndex} (hi : a.Has i) (hj : a.Has j)
  (m : Memory) (q : Address)
include ha hi hj

theorem next_setNext :
    (m.setNext (a.locate i) q).next (a.locate j) = if i = j then q else m.next (a.locate j) :=
  next_setNext_of_apart (ha.apart hi hj) m q

theorem prev_setPrev :
    (m.setPrev (a.locate i) q).prev (a.locate j) = if i = j then q else m.prev (a.locate j) :=
  prev_setPrev_of_apart (ha.apart hi hj) m q

theorem next_setPrev : (m.setPrev (a.locate i) q).next (a.locate j) = m.next (a.locate j) :=
  next_setPrev_of_apart (ha.apart hi hj) m q

theorem prev_setNext : (m.setNext (a.locate i) q).prev (a.locate j) = m.prev (a.locate j) :=
  prev_setNext_of_apart (ha.apart hi hj) m q

end Separated

end Memory

namespace Chain

open Memory

/-- The node `j` follows the node `i`: the links between them name each other. -/
structure Joined (a : Arena) (m : Memory) (i j : NodeIndex) : Prop where
  next : m.next (a.locate i) = a.locate j
  prev : m.prev (a.locate j) = a.locate i

/-- Between `m` and `m'` the node `n` was linked between `b` and `r`, and no other link changed. -/
structure Spliced (a : Arena) (m m' : Memory) (b n r : NodeIndex) : Prop where
  before : Joined a m' b n
  after : Joined a m' n r
  next_eq : ∀ i, a.Has i → i ≠ n → i ≠ b → m'.next (a.locate i) = m.next (a.locate i)
  prev_eq : ∀ i, a.Has i → i ≠ n → i ≠ r → m'.prev (a.locate i) = m.prev (a.locate i)
  agree : AgreeOff (a.Links (· ∈ [b, n, r])) m m'

/-- Between `m` and `m'` the nodes `b` and `r` were joined, and no other link changed. -/
structure Bypassed (a : Arena) (m m' : Memory) (b r : NodeIndex) : Prop where
  joined : Joined a m' b r
  next_eq : ∀ i, a.Has i → i ≠ b → m'.next (a.locate i) = m.next (a.locate i)
  prev_eq : ∀ i, a.Has i → i ≠ r → m'.prev (a.locate i) = m.prev (a.locate i)
  agree : AgreeOff (a.Links (· ∈ [b, r])) m m'

variable {a : Arena} {m : Memory} {b n r : NodeIndex}

theorem agreeOff_links_setNext {S : NodeIndex → Prop} {i : NodeIndex} (m : Memory) (q : Address)
    (hi : S i) : AgreeOff (a.Links S) m (m.setNext (a.locate i) q) :=
  (agreeOff_setNext m _ q).mono fun _ hk => ⟨i, hi, hk⟩

theorem agreeOff_links_setPrev {S : NodeIndex → Prop} {i : NodeIndex} (m : Memory) (q : Address)
    (hi : S i) : AgreeOff (a.Links S) m (m.setPrev (a.locate i) q) :=
  (agreeOff_setPrev m _ q).mono fun _ hk => ⟨i, hi, hk⟩

/-- The four stores of an insertion, whatever their order. -/
theorem spliced_of_links {m' : Memory} (hb : a.Has b) (hn : a.Has n) (hr : a.Has r) (hnb : n ≠ b)
    (hnr : n ≠ r)
    (hnext : ∀ i, a.Has i → m'.next (a.locate i) =
      if b = i then a.locate n else if n = i then a.locate r else m.next (a.locate i))
    (hprev : ∀ i, a.Has i → m'.prev (a.locate i) =
      if r = i then a.locate n else if n = i then a.locate b else m.prev (a.locate i))
    (hagree : AgreeOff (a.Links (· ∈ [b, n, r])) m m') : Spliced a m m' b n r where
  before := by
    constructor
    · rw [hnext b hb, if_pos rfl]
    · rw [hprev n hn, if_neg hnr.symm, if_pos rfl]
  after := by
    constructor
    · rw [hnext n hn, if_neg hnb.symm, if_pos rfl]
    · rw [hprev r hr, if_pos rfl]
  next_eq i hi hin hib := by rw [hnext i hi, if_neg (Ne.symm hib), if_neg (Ne.symm hin)]
  prev_eq i hi hin hir := by rw [hprev i hi, if_neg (Ne.symm hir), if_neg (Ne.symm hin)]
  agree := hagree

/-- The stores of an insertion that end with the node after. -/
theorem spliced_of_stores (ha : a.Separated) (hb : a.Has b) (hn : a.Has n) (hr : a.Has r)
    (hnb : n ≠ b) (hnr : n ≠ r) :
    Spliced a m ((((m.setNext (a.locate n) (a.locate r)).setPrev (a.locate n) (a.locate b)).setNext
      (a.locate b) (a.locate n)).setPrev (a.locate r) (a.locate n)) b n r := by
  refine spliced_of_links hb hn hr hnb hnr (fun i hi => ?_) (fun i hi => ?_) ?_
  · rw [next_setPrev ha hr hi, next_setNext ha hb hi, next_setPrev ha hn hi, next_setNext ha hn hi]
  · rw [prev_setPrev ha hr hi, prev_setNext ha hb hi, prev_setPrev ha hn hi, prev_setNext ha hn hi]
  · exact (((agreeOff_links_setNext m _ (by simp)).trans (agreeOff_links_setPrev _ _
      (by simp))).trans (agreeOff_links_setNext _ _ (by simp))).trans
      (agreeOff_links_setPrev _ _ (by simp))

/-- The two stores of a removal. -/
theorem bypassed_of_stores (ha : a.Separated) (hb : a.Has b) (hr : a.Has r) :
    Bypassed a m ((m.setNext (a.locate b) (a.locate r)).setPrev (a.locate r) (a.locate b)) b r where
  joined := by
    constructor
    · rw [next_setPrev ha hr hb, next_setNext ha hb hb, if_pos rfl]
    · rw [prev_setPrev ha hr hr, if_pos rfl]
  next_eq i hi hib := by
    rw [next_setPrev ha hr hi, next_setNext ha hb hi, if_neg (Ne.symm hib)]
  prev_eq i hi hir := by
    rw [prev_setPrev ha hr hi, if_neg (Ne.symm hir), prev_setNext ha hb hi]
  agree := (agreeOff_links_setNext m _ (by simp)).trans (agreeOff_links_setPrev _ _ (by simp))

/-! ### The splices of the host -/

/-- The host stores the two links of the neighbours in the other order. -/
theorem insertBefore_spliced (ha : a.Separated) (hb : a.Has b) (hn : a.Has n) (hr : a.Has r)
    (hnb : n ≠ b) (hnr : n ≠ r) (hprev : m.prev (a.locate r) = a.locate b) :
    ∃ m', insertBefore a m n r = .ok m' ∧ Spliced a m m' b n r := by
  refine ⟨_, ?_, spliced_of_stores ha hb hn hr hnb hnr⟩
  rw [setNext_setPrev_comm (ha.apart hb hr), insertBefore, hn.address, hr.address]
  simp only [bind, Except.bind, hprev, ha.follow_locate hb]
  rfl

theorem insertAfter_spliced (ha : a.Separated) (hb : a.Has b) (hn : a.Has n) (hr : a.Has r)
    (hnb : n ≠ b) (hnr : n ≠ r) (hnext : m.next (a.locate b) = a.locate r) :
    ∃ m', insertAfter a m n b = .ok m' ∧ Spliced a m m' b n r := by
  refine ⟨_, ?_, spliced_of_stores ha hb hn hr hnb hnr⟩
  rw [insertAfter, hn.address, hb.address]
  simp only [bind, Except.bind, hnext, ha.follow_locate hr]
  rfl

theorem remove_bypassed (ha : a.Separated) (hb : a.Has b) (hn : a.Has n) (hr : a.Has r)
    (hprev : m.prev (a.locate n) = a.locate b) (hnext : m.next (a.locate n) = a.locate r) :
    ∃ m', remove a m n = .ok m' ∧ Bypassed a m m' b r := by
  refine ⟨_, ?_, bypassed_of_stores ha hb hr⟩
  rw [remove, hn.address]
  simp only [bind, Except.bind, hprev, hnext, ha.follow_locate hb, ha.follow_locate hr,
    prev_setNext ha hb hn]
  rfl

end Chain

/-! ### The splices of the peer -/

namespace Peer

open Memory Chain

variable {a : Arena} {m : Memory} {b n h r : NodeIndex}

theorem linkBack_spliced (ha : a.Separated) (hb : a.Has b) (hn : a.Has n) (hh : a.Has h)
    (hnb : n ≠ b) (hnh : n ≠ h) (hprev : m.prev (a.locate h) = a.locate b) :
    Spliced a m (linkBack m (a.locate h) (a.locate n)) b n h := by
  have hprev' : ((m.setNext (a.locate n) (a.locate h)).setPrev (a.locate n) (a.locate b)).prev
      (a.locate h) = a.locate b := by
    rw [prev_setPrev ha hn hh, if_neg hnh, prev_setNext ha hn hh, hprev]
  have hstores : linkBack m (a.locate h) (a.locate n) =
      (((m.setNext (a.locate n) (a.locate h)).setPrev (a.locate n) (a.locate b)).setNext
        (a.locate b) (a.locate n)).setPrev (a.locate h) (a.locate n) := by
    simp only [linkBack, prev_setNext ha hn hh, hprev, hprev']
  rw [hstores]
  exact spliced_of_stores ha hb hn hh hnb hnh

theorem unlinkFront_bypassed (ha : a.Separated) (hn : a.Has n) (hh : a.Has h) (hr : a.Has r)
    (hnh : n ≠ h) (hnext : m.next (a.locate h) = a.locate n)
    (hafter : m.next (a.locate n) = a.locate r) :
    ∃ m', unlinkFront m (a.locate h) = (some (a.locate n), m') ∧ Bypassed a m m' h r := by
  refine ⟨_, ?_, bypassed_of_stores ha hh hr⟩
  have hne : a.locate n ≠ a.locate h := fun heq => hnh ((ha.locate_inj hn hh).mp heq)
  simp only [unlinkFront, hnext, if_neg hne, hafter, next_setNext ha hh hn, if_neg (Ne.symm hnh)]

theorem unlinkFront_self {p : Address} (hnext : m.next p = p) : unlinkFront m p = (none, m) := by
  simp only [unlinkFront, hnext, if_true]

end Peer

end InterCore
