import InterCore.Proofs.Chain.Edits

/-!
# Two cores, one queue

The host splices nodes that it names by their index, after it has looked up every node that it will
touch; the peer writes through the addresses it finds. They store the links of a new node in a
different order, and take the neighbours of a removed node from different links. On a chain whose
links agree with each other this makes no difference: both leave the same memory behind, so it does
not matter to a queue which of them appends and which of them takes.

Nothing is asked of the arena as a whole. Its regions may overlap elsewhere, as long as the links of
this chain can be followed and its nodes share no byte of them.

## Main definitions

* `Arena.Finds`: the link to a node can be followed.
* `Chain.Wired`: a circular list over nodes that the arena finds.
* `Chain.Side`, `Chain.Move`: who splices, and how.

## Main results

* `Chain.Wired.pushBack_eq`, `Chain.Wired.popFront_eq`: the splices of both cores are the same.
* `Chain.Wired.move`: the step, with the list that is there afterwards.
* `Chain.cores_agree`: the run.
-/

namespace InterCore

/-! ### Nodes that can be found -/

namespace Arena

variable {a : Arena} {i j : NodeIndex}

/-- The index names a node, and a link to this node can be followed. -/
structure Finds (a : Arena) (i : NodeIndex) : Prop where
  has : a.Has i
  follow : a.follow (a.locate i) = .ok (a.locate i)

theorem Separated.finds (ha : a.Separated) (hi : a.Has i) : a.Finds i :=
  ⟨hi, ha.follow_locate hi⟩

theorem has_of_address {p : Address} (h : a.address i = .ok p) : a.Has i := by
  rw [Arena.address] at h
  split at h
  · next r hr =>
    have hholds := List.find?_some hr
    exact ⟨r, List.mem_of_find?_eq_some hr, hholds⟩
  · cases h

/-- What a link to a node is resolved to is a node at the same address. -/
theorem Finds.exists_resolve (h : a.Finds i) :
    ∃ j, a.resolve (a.locate i) = .ok j ∧ a.Has j ∧ a.locate j = a.locate i := by
  have hfollow := h.follow
  rw [Arena.follow] at hfollow
  cases hresolve : a.resolve (a.locate i) with
  | error e =>
    rw [hresolve] at hfollow
    cases hfollow
  | ok j =>
    rw [hresolve] at hfollow
    have hj : a.address j = .ok (a.locate i) := hfollow
    have hhas := has_of_address hj
    rw [hhas.address] at hj
    exact ⟨j, rfl, hhas, Except.ok.inj hj⟩

instance (a : Arena) : Std.Symm a.Apart where
  symm _ _ h := h.symm

end Arena

namespace Chain

open Memory

/-! ### One splice -/

/-- The circular list of a head is well formed: its links agree with each other, every one of them
can be followed, and no two nodes share a byte of theirs. -/
structure Wired (a : Arena) (m : Memory) (h : NodeIndex) (xs : List NodeIndex) : Prop where
  represents : Represents a m h xs
  finds : ∀ i ∈ h :: xs, a.Finds i
  apart : (h :: xs).Pairwise a.Apart

/-- A node may join a list: it lies apart from all of its nodes. -/
structure Joins (a : Arena) (h : NodeIndex) (xs : List NodeIndex) (n : NodeIndex) : Prop where
  has : a.Has n
  apart : ∀ i ∈ h :: xs, a.Apart n i

variable {a : Arena} {m m' : Memory} {h n : NodeIndex} {xs : List NodeIndex}

theorem nodup_of_apart {is : List NodeIndex} (h : is.Pairwise a.Apart) : is.Nodup :=
  h.imp fun hij heq => hij.ne (congrArg a.locate heq)

/-- A family of an arena with separate regions is made of such lists. -/
theorem WellFormed.wired {F : Family} (hw : WellFormed a m F) (ha : a.Separated)
    {c : NodeIndex × List NodeIndex} (hc : c ∈ F) : Wired a m c.1 c.2 where
  represents := hw.represents c hc
  finds _ hi := ha.finds (hw.has_of_mem hc hi)
  apart := (hw.nodup_of_mem hc).imp_of_mem fun hi hj hij =>
    ha.apart (hw.has_of_mem hc hi) (hw.has_of_mem hc hj) hij

theorem Joins.of_separated (ha : a.Separated) (hn : a.Has n) (hxs : ∀ i ∈ h :: xs, a.Has i)
    (hnew : n ∉ h :: xs) : Joins a h xs n :=
  ⟨hn, fun i hi => ha.apart hn (hxs i hi) fun heq => hnew (heq ▸ hi)⟩

namespace Wired

theorem has (hw : Wired a m h xs) {i : NodeIndex} (hi : i ∈ h :: xs) : a.Has i :=
  (hw.finds i hi).has

theorem apart_of_ne (hw : Wired a m h xs) {i j : NodeIndex} (hi : i ∈ h :: xs) (hj : j ∈ h :: xs)
    (hij : i ≠ j) : a.Apart i j :=
  hw.apart.forall hi hj hij

/-- The last node, which is the head if there are no members. -/
theorem last_mem : xs.getLastD h ∈ h :: xs := List.getLastD_mem_cons

/-- The node after the first member, which is the head if there is no other. -/
theorem second_mem : xs.headD h ∈ h :: n :: xs := by
  cases xs <;> simp

/-- What the peer stores when it appends a node. -/
theorem linkBack_eq (hw : Wired a m h xs) (hn : Joins a h xs n) :
    Peer.linkBack m (a.locate h) (a.locate n) =
      (((m.setNext (a.locate n) (a.locate h)).setPrev (a.locate n)
        (a.locate (xs.getLastD h))).setNext (a.locate (xs.getLastD h)) (a.locate n)).setPrev
          (a.locate h) (a.locate n) := by
  have hnh : n ≠ h → a.Apart n h := fun _ => hn.apart h List.mem_cons_self
  have hne : n ≠ h := fun heq =>
    (hn.apart h List.mem_cons_self).ne (congrArg a.locate heq)
  have hprev : (m.setNext (a.locate n) (a.locate h)).prev (a.locate h) =
      a.locate (xs.getLastD h) := by
    rw [prev_setNext_of_apart hnh, hw.represents.joined_last.prev]
  simp only [Peer.linkBack, hprev, prev_setPrev_of_apart hnh, if_neg hne]

/-- **Host and peer append alike.** -/
theorem pushBack_eq (hw : Wired a m h xs) (hn : Joins a h xs n) :
    Chain.pushBack a m h n = .ok (Peer.linkBack m (a.locate h) (a.locate n)) := by
  have hlast := (hw.finds _ last_mem).follow
  rw [hw.linkBack_eq hn, Chain.pushBack, Chain.insertBefore, hn.has.address,
    (hw.has List.mem_cons_self).address]
  simp only [bind, Except.bind, hw.represents.joined_last.prev, hlast]
  rw [setNext_setPrev_comm (hw.apart_of_ne last_mem List.mem_cons_self)]
  rfl

section Appending

variable (hw : Wired a m h xs) (hn : Joins a h xs n)
include hw hn

theorem apart_of_joins {i j : NodeIndex} (hi : i ∈ n :: h :: xs) (hj : j ∈ n :: h :: xs)
    (hij : i ≠ j) : a.Apart i j := by
  have hall : (n :: h :: xs).Pairwise a.Apart := List.pairwise_cons.mpr ⟨hn.apart, hw.apart⟩
  exact hall.forall hi hj hij

/-! The links of the list and of the node after the peer has appended it. -/

theorem next_linkBack {j : NodeIndex} (hj : j ∈ n :: h :: xs) :
    (Peer.linkBack m (a.locate h) (a.locate n)).next (a.locate j) =
      if xs.getLastD h = j then a.locate n else if n = j then a.locate h
        else m.next (a.locate j) := by
  have hapart : ∀ {i}, i ∈ n :: h :: xs → i ≠ j → a.Apart i j :=
    fun hi => hw.apart_of_joins hn hi hj
  have hh : h ∈ n :: h :: xs := by simp
  have hlast : xs.getLastD h ∈ n :: h :: xs := List.mem_cons_of_mem _ last_mem
  rw [hw.linkBack_eq hn, next_setPrev_of_apart (hapart hh), next_setNext_of_apart (hapart hlast),
    next_setPrev_of_apart (hapart List.mem_cons_self),
    next_setNext_of_apart (hapart List.mem_cons_self)]

theorem prev_linkBack {j : NodeIndex} (hj : j ∈ n :: h :: xs) :
    (Peer.linkBack m (a.locate h) (a.locate n)).prev (a.locate j) =
      if h = j then a.locate n else if n = j then a.locate (xs.getLastD h)
        else m.prev (a.locate j) := by
  have hapart : ∀ {i}, i ∈ n :: h :: xs → i ≠ j → a.Apart i j :=
    fun hi => hw.apart_of_joins hn hi hj
  have hh : h ∈ n :: h :: xs := by simp
  have hlast : xs.getLastD h ∈ n :: h :: xs := List.mem_cons_of_mem _ last_mem
  rw [hw.linkBack_eq hn, prev_setPrev_of_apart (hapart hh), prev_setNext_of_apart (hapart hlast),
    prev_setPrev_of_apart (hapart List.mem_cons_self),
    prev_setNext_of_apart (hapart List.mem_cons_self)]

/-- The list after a node was appended. -/
theorem append (hfinds : a.Finds n) :
    Wired a (Peer.linkBack m (a.locate h) (a.locate n)) h (xs ++ [n]) := by
  have hne : ∀ i ∈ h :: xs, n ≠ i := fun i hi heq => (hn.apart i hi).ne (congrArg a.locate heq)
  have hnh := hne h List.mem_cons_self
  have hnlast := hne _ last_mem
  have hmem : ∀ i ∈ h :: xs, i ∈ n :: h :: xs := fun i hi => List.mem_cons_of_mem _ hi
  have hr := hw.represents
  have hnodup := nodup_of_apart hw.apart
  rw [← List.append_nil xs] at hr hnodup
  refine ⟨hr.splice_of_links hnodup ⟨?_, ?_⟩ ⟨?_, ?_⟩ (fun i hi hib => ?_) (fun i hi hih => ?_),
    fun i hi => ?_, ?_⟩
  · rw [hw.next_linkBack hn (hmem _ last_mem), if_pos rfl]
  · rw [hw.prev_linkBack hn List.mem_cons_self, if_neg hnh.symm, if_pos rfl]
  · rw [hw.next_linkBack hn List.mem_cons_self, if_neg hnlast.symm, if_pos rfl, List.headD_nil]
  · rw [List.headD_nil, hw.prev_linkBack hn (hmem _ List.mem_cons_self), if_pos rfl]
  · rw [List.append_nil] at hi
    rw [hw.next_linkBack hn (hmem i hi), if_neg hib.symm, if_neg (hne i hi)]
  · rw [List.append_nil] at hi
    rw [List.headD_nil] at hih
    rw [hw.prev_linkBack hn (hmem i hi), if_neg hih.symm, if_neg (hne i hi)]
  · rw [← List.cons_append, List.mem_append, List.mem_singleton] at hi
    rcases hi with hi | rfl
    · exact hw.finds i hi
    · exact hfinds
  · rw [← List.cons_append, List.pairwise_append]
    refine ⟨hw.apart, List.pairwise_singleton _ _, fun i hi j hj => ?_⟩
    exact List.mem_singleton.mp hj ▸ (hn.apart i hi).symm

end Appending

/-- An empty list is empty for both. -/
theorem popFront_nil (hw : Wired a m h []) :
    Chain.popFront a m h = .ok (none, m) ∧ Peer.unlinkFront m (a.locate h) = (none, m) := by
  have hnext : m.next (a.locate h) = a.locate h := (represents_nil.mp hw.represents).next
  refine ⟨?_, Peer.unlinkFront_self hnext⟩
  simp only [Chain.popFront, Chain.isEmpty, (hw.has List.mem_cons_self).address, bind, Except.bind,
    pure, Except.pure, hnext, beq_self_eq_true, if_true]

/-- The memory after the first member was taken. -/
def taken (a : Arena) (m : Memory) (h : NodeIndex) (xs : List NodeIndex) : Memory :=
  (m.setNext (a.locate h) (a.locate (xs.headD h))).setPrev (a.locate (xs.headD h)) (a.locate h)

section Taking

variable (hw : Wired a m h (n :: xs))
include hw

theorem head_ne_first : h ≠ n :=
  (List.ne_of_not_mem_cons (List.nodup_cons.mp (nodup_of_apart hw.apart)).1)

/-- What the peer stores when it takes the first member. -/
theorem unlinkFront_eq :
    Peer.unlinkFront m (a.locate h) = (some (a.locate n), taken a m h xs) := by
  obtain ⟨hbefore, hafter⟩ := @Represents.joined_member a m h n [] xs hw.represents
  have hnext : m.next (a.locate h) = a.locate n := hbefore.next
  have hhn := hw.apart_of_ne (i := h) (j := n) List.mem_cons_self (by simp)
  have hne := (hhn hw.head_ne_first).ne
  simp only [Peer.unlinkFront, hnext, if_neg hne.symm, hafter.next, next_setNext_of_apart hhn,
    if_neg hw.head_ne_first, taken]

/-- What the host stores when it takes a node at the address of the first member. -/
theorem remove_eq {i : NodeIndex} (hi : a.Has i) (hin : a.locate i = a.locate n) :
    Chain.remove a m i = .ok (taken a m h xs) := by
  obtain ⟨hbefore, hafter⟩ := @Represents.joined_member a m h n [] xs hw.represents
  have hprev : m.prev (a.locate n) = a.locate h := hbefore.prev
  have hhn := hw.apart_of_ne (i := h) (j := n) List.mem_cons_self (by simp)
  rw [Chain.remove, hi.address, hin]
  simp only [bind, Except.bind, hprev, hafter.next, (hw.finds h List.mem_cons_self).follow,
    (hw.finds _ second_mem).follow, prev_setNext_of_apart hhn]
  rfl

/-- **Host and peer take alike.** -/
theorem popFront_eq : ∃ i, a.locate i = a.locate n ∧
    Chain.popFront a m h = .ok (some i, taken a m h xs) := by
  obtain ⟨i, hresolve, hi, hin⟩ := (hw.finds n (by simp)).exists_resolve
  have hnext : m.next (a.locate h) = a.locate n := hw.represents.joined_first.next
  have hne : (a.locate n == a.locate h) = false :=
    beq_eq_false_iff_ne.mpr ((hw.apart_of_ne (by simp) (by simp) hw.head_ne_first).ne).symm
  refine ⟨i, hin, ?_⟩
  simp only [Chain.popFront, Chain.isEmpty, (hw.has List.mem_cons_self).address, bind, Except.bind,
    pure, Except.pure, hnext, hne, hresolve, hw.remove_eq hi hin]
  rfl

/-- The list after its first member was taken. -/
theorem tail : Wired a (taken a m h xs) h xs := by
  have hsub : (h :: xs).Sublist (h :: n :: xs) := (List.sublist_cons_self n xs).cons_cons h
  have hh : h ∈ h :: n :: xs := List.mem_cons_self
  have hself : ∀ i, i ≠ i → a.Apart i i := fun _ hii => absurd rfl hii
  refine ⟨?_, fun i hi => hw.finds i (hsub.subset hi), hw.apart.sublist hsub⟩
  refine @Represents.bypass_of_links a m (taken a m h xs) h n [] xs hw.represents
    (nodup_of_apart hw.apart) ⟨?_, ?_⟩ (fun i hi hih => ?_) (fun i hi his => ?_)
  · show (taken a m h xs).next (a.locate h) = _
    rw [taken, next_setPrev_of_apart (hw.apart_of_ne second_mem hh),
      next_setNext_of_apart (hself h), if_pos rfl]
  · rw [taken, prev_setPrev_of_apart (hself _), if_pos rfl]
    rfl
  · have hi := hsub.subset hi
    rw [List.getLastD_nil] at hih
    rw [taken, next_setPrev_of_apart (hw.apart_of_ne second_mem hi),
      next_setNext_of_apart (hw.apart_of_ne hh hi), if_neg (Ne.symm hih)]
  · have hi := hsub.subset hi
    rw [taken, prev_setPrev_of_apart (hw.apart_of_ne second_mem hi), if_neg (Ne.symm his),
      prev_setNext_of_apart (hw.apart_of_ne hh hi)]

end Taking

end Wired

/-! ### Moves -/

/-- The core that splices. -/
inductive Side where
  | host
  | peer
  deriving DecidableEq, Repr

/-- A splice of a queue. -/
inductive Move where
  | append (n : NodeIndex)
  | takeFirst
  deriving DecidableEq, Repr

namespace Move

/-- A core makes a move on the queue of a head. Taking replies with the address of the node. -/
def run (a : Arena) (m : Memory) (h : NodeIndex) :
    Side → Move → Except Halt (Option Address × Memory)
  | .host, append n => return (none, ← Chain.pushBack a m h n)
  | .host, takeFirst => do
    let (node, m) ← Chain.popFront a m h
    return (node.map a.locate, m)
  | .peer, append n => return (none, Peer.linkBack m (a.locate h) (a.locate n))
  | .peer, takeFirst => return Peer.unlinkFront m (a.locate h)

/-- The list after a move. -/
def apply (xs : List NodeIndex) : Move → List NodeIndex
  | append n => xs ++ [n]
  | takeFirst => xs.tail

/-- The reply of a move. -/
def answer (a : Arena) (xs : List NodeIndex) : Move → Option Address
  | append _ => none
  | takeFirst => xs.head?.map a.locate

/-- A node that is appended can be found and is in no list. -/
def Legal (a : Arena) (h : NodeIndex) (xs : List NodeIndex) : Move → Prop
  | append n => a.Finds n ∧ Joins a h xs n
  | takeFirst => True

/-- Moves one after the other, each by one of the cores. -/
def runAll (a : Arena) (h : NodeIndex) : Memory → List (Side × Move) →
    Except Halt (List (Option Address) × Memory)
  | m, [] => return ([], m)
  | m, (side, move) :: moves => do
    let (reply, m) ← move.run a m h side
    let (replies, m) ← runAll a h m moves
    return (reply :: replies, m)

/-- The list after some moves. -/
def applyAll (xs : List NodeIndex) (moves : List Move) : List NodeIndex := moves.foldl apply xs

/-- The replies of some moves. -/
def answers (a : Arena) (xs : List NodeIndex) : List Move → List (Option Address)
  | [] => []
  | move :: moves => move.answer a xs :: answers a (move.apply xs) moves

/-- Every move is legal when its turn comes. -/
def LegalAll (a : Arena) (h : NodeIndex) (xs : List NodeIndex) : List Move → Prop
  | [] => True
  | move :: moves => move.Legal a h xs ∧ LegalAll a h (move.apply xs) moves

end Move

/-- **A move is the same by either core**, and does to the chain what it does to the list. -/
theorem Wired.move (hw : Wired a m h xs) (move : Move) (hlegal : move.Legal a h xs) :
    ∃ m', (∀ side, move.run a m h side = .ok (move.answer a xs, m')) ∧
      Wired a m' h (move.apply xs) := by
  cases move with
  | append n =>
    obtain ⟨hfinds, hn⟩ := hlegal
    refine ⟨_, fun side => ?_, hw.append hn hfinds⟩
    cases side with
    | host =>
      rw [Move.run, hw.pushBack_eq hn]
      rfl
    | peer => rfl
  | takeFirst =>
    cases xs with
    | nil =>
      obtain ⟨hhost, hpeer⟩ := hw.popFront_nil
      refine ⟨m, fun side => ?_, hw⟩
      cases side with
      | host =>
        rw [Move.run, hhost]
        rfl
      | peer =>
        rw [Move.run, hpeer]
        rfl
    | cons n xs =>
      obtain ⟨i, hi, hhost⟩ := hw.popFront_eq
      refine ⟨_, fun side => ?_, hw.tail⟩
      cases side with
      | host =>
        rw [Move.run, hhost]
        simp only [bind, Except.bind, Option.map_some, hi]
        rfl
      | peer =>
        rw [Move.run, hw.unlinkFront_eq]
        rfl

/-- Moves are the same by any of the cores, and do to the chain what they do to the list. -/
theorem Wired.moves (hw : Wired a m h xs) (moves : List Move)
    (hlegal : Move.LegalAll a h xs moves) :
    ∃ m', (∀ sided : List (Side × Move), sided.map Prod.snd = moves →
        Move.runAll a h m sided = .ok (Move.answers a xs moves, m')) ∧
      Wired a m' h (Move.applyAll xs moves) := by
  induction moves generalizing m xs with
  | nil =>
    refine ⟨m, fun sided hsided => ?_, hw⟩
    rw [List.map_eq_nil_iff.mp hsided]
    rfl
  | cons move moves ih =>
    obtain ⟨m₁, hrun, hw₁⟩ := hw.move move hlegal.1
    obtain ⟨m', hrest, hw'⟩ := ih hw₁ hlegal.2
    refine ⟨m', fun sided hsided => ?_, hw'⟩
    obtain ⟨⟨side, _⟩, sided, rfl, rfl, hsided'⟩ := List.map_eq_cons_iff.mp hsided
    simp only [Move.runAll, hrun side, hrest sided hsided', bind, Except.bind]
    rfl

/-- **Host and peer agree on a queue.** On a well formed circular list, appending any node that is
in no list leaves the same memory behind, whichever core does it. So does taking the first node;
both take the same one, or none. Hence any moves, each by any of the cores, make the queue of a
plain list. -/
theorem cores_agree (hw : Wired a m h xs) :
    (∀ n, Joins a h xs n →
      Chain.pushBack a m h n = .ok (Peer.linkBack m (a.locate h) (a.locate n))) ∧
    (∃ node m', Chain.popFront a m h = .ok (node, m') ∧
      Peer.unlinkFront m (a.locate h) = (node.map a.locate, m') ∧
      node.map a.locate = xs.head?.map a.locate) ∧
    ∀ moves, Move.LegalAll a h xs moves →
      ∃ m', (∀ sided : List (Side × Move), sided.map Prod.snd = moves →
          Move.runAll a h m sided = .ok (Move.answers a xs moves, m')) ∧
        Wired a m' h (Move.applyAll xs moves) := by
  refine ⟨fun n hn => hw.pushBack_eq hn, ?_, hw.moves⟩
  cases xs with
  | nil =>
    obtain ⟨hhost, hpeer⟩ := hw.popFront_nil
    exact ⟨none, m, hhost, hpeer, rfl⟩
  | cons n xs =>
    obtain ⟨i, hi, hhost⟩ := hw.popFront_eq
    refine ⟨some i, _, hhost, ?_, congrArg some hi⟩
    rw [hw.unlinkFront_eq, Option.map_some, hi]

/-- A queue of one node in an arena of two runs: another node joins it, and then both are taken. -/
theorem cores_agree_two_runs :
    ∃ a m, Host.registerAll {} [⟨0x2000, 24, 3⟩, ⟨0x1000, 276, 2⟩] = .ok a ∧ Wired a m 0 [3] ∧
      Chain.pushBack a m 0 4 = .ok (Peer.linkBack m (a.locate 0) (a.locate 4)) ∧
      ∃ m', ∀ sided : List (Side × Move),
        sided.map Prod.snd = [.append 4, .takeFirst, .takeFirst, .takeFirst] →
          Move.runAll a 0 m sided = .ok ([none, some 0x1000, some 0x1114, none], m') := by
  have ha : Host.registerAll {} [⟨0x2000, 24, 3⟩, ⟨0x1000, 276, 2⟩] =
      .ok ⟨[⟨0x2000, 24, 0, 3⟩, ⟨0x1000, 276, 3, 2⟩], 5⟩ := rfl
  have hsep := Arena.separated_of_registerAll ha (by decide) (by decide)
  obtain ⟨m, -, hm⟩ := WellFormed.runAll (m := Memory.zero) hsep .nil [.init 0, .pushBack 0 3]
    (by decide)
  have hw : Wired _ m 0 [3] := hm.wired hsep (c := (0, [3])) (by decide)
  have hn : Joins _ 0 [3] 4 := .of_separated hsep (by decide) (fun _ => hw.has) (by decide)
  obtain ⟨hpush, -, hmoves⟩ := cores_agree hw
  obtain ⟨m', hrun, -⟩ := hmoves [.append 4, .takeFirst, .takeFirst, .takeFirst]
    ⟨⟨hsep.finds (by decide), hn⟩, trivial, trivial, trivial, trivial⟩
  exact ⟨_, m, ha, hw, hpush 4 hn, m', hrun⟩

end Chain

end InterCore
