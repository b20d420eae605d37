import InterCore.Board.Lemmas
import InterCore.Host.Release
import InterCore.Peer
import InterCore.Proofs.Chain.Operations
import InterCore.Proofs.Chain.Views

/-!
# Handing buffers over

Given-back buffers pass through two lists, and each is emptied by a loop: the host hands over what
waits in its local queue, and the peer takes the shared free queue as slots to fill. Both loops work
over any registered nodes, with any lists beside the two.

## Main definitions

* `NodeLists`: the nodes and the lists.
* `Board.Flushing`, `Board.Taking`: boards in the middle of the two loops.

## Main results

* `Board.flush_family`: every waiting buffer is handed over, in order.
* `Board.drain_family`: the peer takes every buffer of the shared free queue.
-/

namespace InterCore

open Memory

variable {σ : Type}

/-! ### Nodes and lists -/

/-- The nodes that boxes and lists may hold, the two lists over which buffers are given back, and
all other lists. -/
structure NodeLists where
  arena : Arena
  /-- The queue that the peer takes given-back buffers from. -/
  freeQueue : NodeIndex
  /-- The queue in which they wait for the doorbell. -/
  localQueue : NodeIndex
  others : Chain.Family

namespace NodeLists

variable (k : NodeLists)

/-- The heads of all lists. -/
def heads : List NodeIndex := k.freeQueue :: k.localQueue :: k.others.map Prod.fst

/-- The nodes that the lists hold when some buffers were given back, the heads included. -/
def listed (given : List NodeIndex) : List NodeIndex :=
  k.freeQueue :: k.localQueue :: (given ++ k.others.nodes)

/-- The lists, when some of the given-back buffers wait. -/
def family (free waiting : List NodeIndex) : Chain.Family :=
  (k.freeQueue, free) :: (k.localQueue, waiting) :: k.others

variable {k} {free waiting given : List NodeIndex} {n : NodeIndex} {m : Memory}

theorem nodes_family (free waiting : List NodeIndex) :
    (k.family free waiting).nodes.Perm (k.listed (free ++ waiting)) := by
  rw [family, listed, Chain.Family.nodes_cons, Chain.Family.nodes_cons, List.append_assoc]
  exact List.perm_middle.cons _

theorem listed_perm {given' : List NodeIndex} (h : given.Perm given') :
    (k.listed given).Perm (k.listed given') :=
  ((h.append_right _).cons _).cons _

theorem listed_append (given xs : List NodeIndex) :
    (k.listed (given ++ xs)).Perm (xs ++ k.listed given) := by
  have hgiven : (given ++ xs ++ k.others.nodes).Perm (xs ++ (given ++ k.others.nodes)) := by
    rw [List.append_assoc]
    exact List.perm_append_comm_assoc _ _ _
  exact (hgiven.append_left [k.freeQueue, k.localQueue]).trans (List.perm_append_comm_assoc _ _ _)

/-- The first waiting buffer and all other nodes of the lists. -/
theorem nodes_family_cons (free waiting : List NodeIndex) (n : NodeIndex) :
    (k.family free (n :: waiting)).nodes.Perm (n :: (k.family free waiting).nodes) := by
  refine (nodes_family free (n :: waiting)).trans ?_
  refine ((listed_perm ?_).trans (listed_append (free ++ waiting) [n])).trans
    ((nodes_family free waiting).symm.cons n)
  exact List.perm_middle.trans (List.perm_append_singleton n _).symm

section Links

variable (hsep : k.arena.Separated)
include hsep

theorem popFront_nil (hw : Chain.WellFormed k.arena m (k.family free [])) :
    Chain.popFront k.arena m k.localQueue = .ok (none, m) :=
  Chain.WellFormed.popFront_nil hsep (show Chain.WellFormed k.arena m
    ([(k.freeQueue, free)] ++ (k.localQueue, []) :: k.others) from hw)

/-- A buffer stops waiting. -/
theorem popFront (hw : Chain.WellFormed k.arena m (k.family free (n :: waiting))) :
    ∃ m', Chain.popFront k.arena m k.localQueue = .ok (some n, m') ∧
      Chain.WellFormed k.arena m' (k.family free waiting) ∧
      AgreeOff (k.arena.Links (· ∈ (k.family free (n :: waiting)).nodes)) m m' := by
  obtain ⟨m', hpop, hw', hagree⟩ := Chain.WellFormed.popFront hsep (show Chain.WellFormed k.arena m
    ([(k.freeQueue, free)] ++ (k.localQueue, n :: waiting) :: k.others) from hw)
  refine ⟨m', hpop, hw', hagree.mono fun _ hk => hk.mono fun i hi => ?_⟩
  refine Chain.Family.mem_nodes_of_mem (c := (k.localQueue, n :: waiting)) (by simp [family]) ?_
  rcases List.mem_pair.mp hi with rfl | rfl
  · exact List.mem_cons_self
  · cases waiting <;> simp

/-- The peer gets a buffer back. -/
theorem pushBack_free (hw : Chain.WellFormed k.arena m (k.family free waiting))
    (hn : k.arena.Has n) (hnew : n ∉ (k.family free waiting).nodes) :
    ∃ m', Chain.pushBack k.arena m k.freeQueue n = .ok m' ∧
      Chain.WellFormed k.arena m' (k.family (free ++ [n]) waiting) ∧
      AgreeOff (k.arena.Links (· ∈ n :: (k.family free waiting).nodes)) m m' := by
  have hfamily : k.family free waiting =
      [] ++ (k.freeQueue, free ++ []) :: (k.localQueue, waiting) :: k.others := by
    rw [List.append_nil]
    rfl
  rw [hfamily] at hw hnew
  obtain ⟨m', hpush, hw', hagree⟩ := Chain.WellFormed.insertBefore hsep hw hn hnew
  refine ⟨m', hpush, hw', hagree.mono fun _ hk => hk.mono fun i hi => ?_⟩
  simp only [List.mem_cons, List.headD_nil, List.not_mem_nil, or_false] at hi
  rcases hi with rfl | rfl | rfl
  · exact List.mem_cons_of_mem _ (Chain.Family.mem_nodes_of_mem List.mem_cons_self
      List.getLastD_mem_cons)
  · exact List.mem_cons_self
  · exact List.mem_cons_of_mem _ List.mem_cons_self

/-- A buffer starts to wait. -/
theorem pushBack_waiting (hw : Chain.WellFormed k.arena m (k.family free waiting))
    (hn : k.arena.Has n) (hnew : n ∉ (k.family free waiting).nodes) :
    ∃ m', Chain.pushBack k.arena m k.localQueue n = .ok m' ∧
      Chain.WellFormed k.arena m' (k.family free (waiting ++ [n])) := by
  have hfamily : k.family free waiting =
      [(k.freeQueue, free)] ++ (k.localQueue, waiting ++ []) :: k.others := by
    rw [List.append_nil]
    rfl
  rw [hfamily] at hw hnew
  obtain ⟨m', hpush, hw', -⟩ := Chain.WellFormed.insertBefore hsep hw hn hnew
  exact ⟨m', hpush, hw'⟩

/-- The peer takes a buffer. -/
theorem unlinkFront (hw : Chain.WellFormed k.arena m (k.family (n :: free) waiting)) :
    ∃ m', Peer.unlinkFront m (k.arena.locate k.freeQueue) = (some (k.arena.locate n), m') ∧
      Chain.WellFormed k.arena m' (k.family free waiting) ∧
      AgreeOff (k.arena.Links (· ∈ (k.family (n :: free) waiting).nodes)) m m' := by
  have hchains : Chain.WellFormed k.arena m ([] ++ k.family (n :: free) waiting) := hw
  obtain ⟨m', hunlink, hw', hagree⟩ := Chain.WellFormed.unlinkFront hsep hchains
  refine ⟨m', hunlink, hw', hagree.mono fun _ hk => hk.mono fun i hi => ?_⟩
  refine Chain.Family.mem_nodes_of_mem (c := (k.freeQueue, n :: free)) List.mem_cons_self ?_
  rcases List.mem_pair.mp hi with rfl | rfl
  · exact List.mem_cons_self
  · cases free <;> simp

end Links

end NodeLists

namespace Board

/-! ### The host hands over -/

/-- Of the buffers that waited on a board `b`, the buffers `xs` still wait. -/
structure Flushing (k : NodeLists) (given : List NodeIndex) (b : Board σ) (xs : List NodeIndex)
    (b' : Board σ) : Prop where
  eq : b' = { b with memory := b'.memory }
  agree : AgreeOff (k.arena.Links (· ∈ k.listed given)) b.memory b'.memory
  chains : ∃ free, free ++ xs = given ∧ Chain.WellFormed k.arena b'.memory (k.family free xs)

section Flush

variable {k : NodeLists} {b : Board σ} {given free waiting : List NodeIndex} {n : NodeIndex}
  (harena : b.host.arena = k.arena) (hlocal : b.host.localQueue = k.localQueue)
  (hsep : k.arena.Separated)
include harena hlocal hsep

theorem flushOne_nil (hw : Chain.WellFormed k.arena b.memory (k.family free [])) :
    Host.flushOne.run b = .ok false b := by
  have hpop := NodeLists.popFront_nil hsep hw
  have hrun : (extract fun a m => Chain.popFront a m b.host.localQueue).run b = .ok none b :=
    run_extract_ok b (m := b.memory) (by rw [harena, hlocal, hpop])
  simp only [Host.flushOne, EStateM.run_bind, EStateM.run_get, hrun, EStateM.run_pure]

theorem Flushing.nil (b' : Board σ) (h : Flushing k given b [] b') :
    ∃ b₁, Host.flushOne.run b' = .ok false b₁ ∧ Flushing k given b [] b₁ := by
  have hhost : b'.host = b.host := by rw [h.eq]
  rw [← hhost] at harena hlocal
  obtain ⟨free, -, hw⟩ := h.chains
  exact ⟨b', flushOne_nil harena hlocal hsep hw, h⟩

variable (hfree : b.host.freeQueue = k.freeQueue)
include hfree

theorem flushOne_cons (hw : Chain.WellFormed k.arena b.memory (k.family free (n :: waiting))) :
    ∃ m', Host.flushOne.run b = .ok true { b with memory := m' } ∧
      Chain.WellFormed k.arena m' (k.family (free ++ [n]) waiting) ∧
      AgreeOff (k.arena.Links (· ∈ (k.family free (n :: waiting)).nodes)) b.memory m' := by
  have hperm := NodeLists.nodes_family_cons (k := k) free waiting n
  have hnew := (List.nodup_cons.mp (hperm.nodup_iff.mp hw.nodup)).1
  have hn := hw.registered n (hperm.mem_iff.mpr List.mem_cons_self)
  obtain ⟨m₁, hpop, hw₁, hagree₁⟩ := NodeLists.popFront hsep hw
  obtain ⟨m₂, hpush, hw₂, hagree₂⟩ := NodeLists.pushBack_free hsep hw₁ hn hnew
  refine ⟨m₂, ?_, hw₂, hagree₁.trans (hagree₂.mono fun _ hk => hk.mono fun i hi =>
    hperm.mem_iff.mpr hi)⟩
  have hrun₁ : (extract fun a m => Chain.popFront a m b.host.localQueue).run b =
      .ok (some n) { b with memory := m₁ } :=
    run_extract_ok b (by rw [harena, hlocal, hpop])
  have hrun₂ : (splice fun a m => Chain.pushBack a m b.host.freeQueue n).run
      { b with memory := m₁ } = .ok () { b with memory := m₂ } := by
    refine run_splice_ok { b with memory := m₁ } ?_
    rw [harena, hfree]
    exact hpush
  simp only [Host.flushOne, EStateM.run_bind, EStateM.run_get, hrun₁, hrun₂, EStateM.run_pure]

theorem Flushing.cons (n : NodeIndex) (xs : List NodeIndex) (b' : Board σ)
    (h : Flushing k given b (n :: xs) b') :
    ∃ b₁, Host.flushOne.run b' = .ok true b₁ ∧ Flushing k given b xs b₁ := by
  have hhost : b'.host = b.host := by rw [h.eq]
  rw [← hhost] at harena hlocal hfree
  obtain ⟨free, hgiven, hw⟩ := h.chains
  obtain ⟨m₁, hrun₁, hw₁, hagree₁⟩ := flushOne_cons harena hlocal hsep hfree hw
  have hlisted : (k.family free (n :: xs)).nodes.Perm (k.listed given) :=
    hgiven ▸ NodeLists.nodes_family free (n :: xs)
  refine ⟨_, hrun₁, by rw [h.eq], h.agree.trans (hagree₁.mono fun _ hk => hk.mono fun i hi =>
    hlisted.mem_iff.mp hi), free ++ [n], ?_, hw₁⟩
  rw [← hgiven, List.append_assoc, List.singleton_append]

/-- **Every waiting buffer is handed over, in order.** -/
theorem flush_family (hw : Chain.WellFormed k.arena b.memory (k.family free waiting)) :
    ∃ m', Host.flush.run b = .ok waiting.length { b with memory := m' } ∧
      AgreeOff (k.arena.Links (· ∈ k.listed (free ++ waiting))) b.memory m' ∧
      Chain.WellFormed k.arena m' (k.family (free ++ waiting) []) := by
  have hnd : waiting.Nodup :=
    (hw.nodup_of_mem (c := (k.localQueue, waiting)) (by simp [NodeLists.family])).of_cons
  have hstart : Flushing k (free ++ waiting) b waiting b := ⟨rfl, .refl _ _, free, rfl, hw⟩
  obtain ⟨b', hrun, heq, hagree, free', hgiven, hw'⟩ := exists_run_drain
    (Flushing.nil harena hlocal hsep) (Flushing.cons harena hlocal hsep hfree) hstart
    (Chain.length_lt_stepLimit hnd)
  rw [List.append_nil] at hgiven
  subst hgiven
  exact ⟨b'.memory, by rw [← heq]; exact hrun, hagree, hw'⟩

end Flush

/-! ### The peer takes -/

/-- Of the buffers `free` in the shared free queue of a board `b`, the buffers `xs` are not taken
yet. -/
structure Taking (k : NodeLists) (free waiting : List NodeIndex) (b : Board σ)
    (xs : List NodeIndex) (b' : Board σ) : Prop where
  eq : b' = { b with memory := b'.memory, peer := { b.peer with free := b'.peer.free } }
  agree : AgreeOff (k.arena.Links (· ∈ k.listed (free ++ waiting))) b.memory b'.memory
  chains : Chain.WellFormed k.arena b'.memory (k.family xs waiting)
  taken : ∃ taken, taken ++ xs = free ∧
    b'.peer.free = (taken.map k.arena.locate).reverse ++ b.peer.free

namespace Taking

variable {k : NodeLists} {free waiting : List NodeIndex} {b : Board σ}

theorem nil (b' : Board σ) (h : Taking k free waiting b [] b') :
    ∃ b₁, (Peer.reclaimOne (k.arena.locate k.freeQueue)).run b' = .ok false b₁ ∧
      Taking k free waiting b [] b₁ := by
  have hchains : Chain.WellFormed k.arena b'.memory ([] ++ k.family [] waiting) := h.chains
  have hunlink := Chain.WellFormed.unlinkFront_nil hchains
  refine ⟨b', ?_, h⟩
  simp only [Peer.reclaimOne, EStateM.run_bind, EStateM.run_get, hunlink, EStateM.run_pure]

theorem cons (hsep : k.arena.Separated) (n : NodeIndex) (xs : List NodeIndex) (b' : Board σ)
    (h : Taking k free waiting b (n :: xs) b') :
    ∃ b₁, (Peer.reclaimOne (k.arena.locate k.freeQueue)).run b' = .ok true b₁ ∧
      Taking k free waiting b xs b₁ := by
  obtain ⟨taken, hfree, hslots⟩ := h.taken
  obtain ⟨m', hunlink, hw, hagree⟩ := NodeLists.unlinkFront hsep h.chains
  refine ⟨{ b' with
    memory := m'
    peer := { b'.peer with free := k.arena.locate n :: b'.peer.free } }, ?_, ?_,
    h.agree.trans (hagree.mono fun _ hk => hk.mono fun i hi => ?_), hw, taken ++ [n], ?_, ?_⟩
  · simp only [Peer.reclaimOne, EStateM.run_bind, EStateM.run_get, hunlink, run_modifyMemory,
      run_modifyPeer, EStateM.run_pure]
  · rw [h.eq]
  · have hi := (NodeLists.nodes_family (n :: xs) waiting).mem_iff.mp hi
    rw [← hfree, List.append_assoc, (NodeLists.listed_perm List.perm_append_comm).mem_iff,
      (NodeLists.listed_append _ _).mem_iff]
    exact List.mem_append_right _ hi
  · rw [← hfree, List.append_assoc, List.singleton_append]
  · rw [hslots, List.map_append, List.reverse_append]
    rfl

end Taking

/-- **The peer takes every buffer of the shared free queue**, the last one first. -/
theorem drain_family {k : NodeLists} {b : Board σ} {free waiting : List NodeIndex}
    (hsep : k.arena.Separated) (hw : Chain.WellFormed k.arena b.memory (k.family free waiting)) :
    ∃ m', (drain (Peer.reclaimOne (k.arena.locate k.freeQueue))).run b = .ok free.length
        { b with
          memory := m'
          peer := { b.peer with free := (free.map k.arena.locate).reverse ++ b.peer.free } } ∧
      AgreeOff (k.arena.Links (· ∈ k.listed (free ++ waiting))) b.memory m' ∧
      Chain.WellFormed k.arena m' (k.family [] waiting) := by
  have hnd : free.Nodup :=
    (hw.nodup_of_mem (c := (k.freeQueue, free)) List.mem_cons_self).of_cons
  have hstart : Taking k free waiting b free b := ⟨rfl, .refl _ _, hw, [], rfl, rfl⟩
  obtain ⟨b', hrun, heq, hagree, hw', taken, hfree, hslots⟩ := exists_run_drain Taking.nil
    (Taking.cons hsep) hstart (Chain.length_lt_stepLimit hnd)
  rw [List.append_nil] at hfree
  subst hfree
  refine ⟨b'.memory, ?_, hagree, hw'⟩
  rw [hrun, ← hslots, ← heq]

end Board

end InterCore
