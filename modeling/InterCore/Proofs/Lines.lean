import Mathlib.Logic.Function.Basic
import InterCore.Proofs.Chain.Operations
import InterCore.Proofs.Tables

/-!
# The lines in which buffers wait

On a booted board buffers wait in five lines: the four shared queues and the local queue. Traces
that are switched off have no line. The lines are read from the links in memory, and the slots that
the peer may fill from its own record; no buffer is in two of these places.

## Main definitions

* `Line`: the lines, with their heads; `Line.made`: those that a boot makes.
* `slots`, `pool`: the nodes that are event slots, and those of them that a boot gives to the peer.
* `Carries`: which buffers wait in each line, and which slots the peer may fill.

## Main results

* `Carries.append`, `Carries.takeFirst`: the host links a buffer to the end of a line and takes the
  first one off.
* `Carries.peerAppend`, `Carries.peerTakeFirst`: the same for the peer.
-/

namespace InterCore

open Memory

/-! ### Lines and slots -/

/-- Where buffers wait. -/
inductive Line where
  /-- In a queue that both cores see. -/
  | shared (q : Queue)
  /-- In the local queue, until the peer has taken the earlier ones. -/
  | waiting
  deriving DecidableEq, Repr

namespace Line

/-- The head of a line. -/
def head : Line → NodeIndex
  | shared q => q.number
  | waiting => 11

/-- Every line. -/
def all : List Line :=
  [shared .ble, shared .system, shared .free, waiting, shared .traces]

/-- The lines that a boot makes. -/
def made (traces : Bool) : List Line :=
  [shared .ble, shared .system, shared .free, waiting] ++ if traces then [shared .traces] else []

theorem mem_all (l : Line) : l ∈ all := by
  cases l with
  | shared q => cases q <;> decide
  | waiting => decide

theorem nodup_all : all.Nodup := by decide

theorem nodup_made (traces : Bool) : (made traces).Nodup := by
  cases traces <;> decide

theorem mem_made_of_ne {l : Line} (traces : Bool) (h : l ≠ shared .traces) : l ∈ made traces := by
  cases l with
  | shared q => cases q <;> simp_all [made]
  | waiting => simp [made]

/-- A line is missing only when traces are switched off. -/
theorem mem_made_iff {l : Line} {traces : Bool} :
    l ∈ made traces ↔ (l = shared .traces → traces = true) := by
  cases l with
  | shared q => cases q <;> cases traces <;> decide
  | waiting => cases traces <;> decide

end Line

/-- The event slots: the pool and the spare slots. -/
def slots : List NodeIndex := [4, 5, 6, 7, 8, 9, 10]

/-- The slots of the pool. -/
def pool : List NodeIndex := [4, 5, 6, 7, 8]

theorem mem_slots_of_mem_pool {n : NodeIndex} (hn : n ∈ pool) : n ∈ slots :=
  List.mem_append_left [9, 10] hn

theorem mem_slots_iff {n : NodeIndex} : n ∈ slots ↔ 4 ≤ n.toNat ∧ n.toNat < 11 := by
  constructor
  · intro hn
    have hall : slots.all (fun n => 4 ≤ n.toNat ∧ n.toNat < 11) = true := by decide
    exact of_decide_eq_true (List.all_eq_true.mp hall n hn)
  · rintro ⟨h₁, h₂⟩
    have hn : n = UInt16.ofNat n.toNat := UInt16.ofNat_toNat.symm
    rw [hn]
    generalize n.toNat = k at h₁ h₂
    revert k
    decide

theorem has_of_mem_slots {p : Placement} {n : NodeIndex} (hn : n ∈ slots) : p.arena.Has n := by
  rw [Placement.has_iff]
  exact Nat.lt_trans (mem_slots_iff.mp hn).2 (by decide)

theorem Line.has_head {p : Placement} (l : Line) : p.arena.Has l.head := by
  rw [Placement.has_iff]
  cases l with
  | shared q => cases q <;> decide
  | waiting => decide

theorem Line.head_not_mem_slots (l : Line) : l.head ∉ slots := by
  cases l with
  | shared q => cases q <;> decide
  | waiting => decide

/-! ### Bytes of links -/

namespace Placement

variable (p : Placement)

/-- The nodes that are ever linked. The head of the traces queue is not while there are no
traces. -/
def Linkable (traces : Bool) (i : NodeIndex) : Prop :=
  p.arena.Has i ∧ (i = 3 → traces = true)

/-- The bytes of links. -/
def LinkByte (traces : Bool) (k : Address) : Prop :=
  p.arena.Links (p.Linkable traces) k

variable {p} {traces : Bool}

theorem linkable_of_mem_slots {n : NodeIndex} (hn : n ∈ slots) : p.Linkable traces n := by
  refine ⟨has_of_mem_slots hn, ?_⟩
  rintro rfl
  exact absurd hn (by decide)

theorem linkable_head {l : Line} (hl : l ∈ Line.made traces) : p.Linkable traces l.head := by
  refine ⟨l.has_head, fun h => Line.mem_made_iff.mp hl ?_⟩
  revert h
  cases l with
  | shared q => cases q <;> decide
  | waiting => decide

variable (hp : p.Valid)
include hp

/-- The links of a node are the first bytes of its slot. -/
theorem Valid.covers_of_within {i : NodeIndex} (hi : p.arena.Has i) {n : Nat} {k : Address}
    (hk : Within (p.arena.locate i) n k) :
    Extent.Covers p ⟨(nodeExtent i).part, (nodeExtent i).offset, n⟩ k := by
  rw [(hp.slot_eq hi).1] at hk
  exact hk

/-- A queue head starts where its object does. -/
theorem Valid.address_queue (q : Queue) :
    p.address (.queue q) = p.arena.locate (Line.shared q).head := by
  rw [(hp.slot_eq (Line.shared q).has_head).1, Object.address_eq]
  cases q <;> rfl

/-- No byte of a table is a byte of a link. -/
theorem Valid.not_linkByte_of_tableByte {k : Address} (hk : p.TableByte k) :
    ¬ p.LinkByte traces k := by
  rintro ⟨i, ⟨hi, -⟩, hlink⟩
  have hfits : ∀ n < 12, Extent.Fits ⟨(slotExtent n).part, (slotExtent n).offset, 16⟩ := by decide
  have hcontrol : ∀ n < 12,
      Extent.Apart ⟨.control, 0, 248⟩ ⟨(slotExtent n).part, (slotExtent n).offset, 16⟩ := by decide
  have href : ∀ n < 12, Extent.Apart ⟨.referenceTable, 0, 80⟩
      ⟨(slotExtent n).part, (slotExtent n).offset, 16⟩ := by decide
  have hn := has_iff.mp hi
  have hlink := hp.covers_of_within hi hlink
  rcases hk with hk | hk
  · exact hp.apart_of (by decide) (hfits _ hn) (href _ hn) hk hlink
  · exact hp.apart_of (by decide) (hfits _ hn) (hcontrol _ hn) hk hlink

end Placement

/-! ### What a board carries -/

/-- The chains of a board. -/
def chains (traces : Bool) (q : Line → List NodeIndex) : Chain.Family :=
  (Line.made traces).map fun l => (l.head, q l)

/-- The buffers `q l` wait in the line `l`, the peer may fill the slots `free`, the next one first,
and it finds its tables. -/
structure Carries (p : Placement) (traces : Bool) (m : Memory) (peer : Peer)
    (q : Line → List NodeIndex) (free : List NodeIndex) : Prop where
  chains : Chain.WellFormed p.arena m (chains traces q)
  unmade : traces = false → q (.shared .traces) = [] ∧ m.next (p.arena.locate 3) = Address.null
  published : Published p traces m
  peer_table : peer.referenceTable = p.referenceTable
  peer_slots : peer.poolSlots = pool.length
  peer_free : peer.free = free.map p.arena.locate
  nodup : (free ++ Line.all.flatMap q).Nodup
  mem_slots : ∀ n ∈ free ++ Line.all.flatMap q, n ∈ slots

/-- The line `l` gets other buffers. -/
abbrev setLine (q : Line → List NodeIndex) (l : Line) (xs : List NodeIndex) :
    Line → List NodeIndex :=
  Function.update q l xs

theorem exists_split {L : List Line} (hnd : L.Nodup) {l : Line} (hl : l ∈ L) :
    ∃ L₁ L₂, L = L₁ ++ l :: L₂ ∧ (∀ l' ∈ L₁, l' ≠ l) ∧ ∀ l' ∈ L₂, l' ≠ l := by
  obtain ⟨L₁, L₂, rfl⟩ := List.append_of_mem hl
  rw [List.nodup_append] at hnd
  exact ⟨L₁, L₂, rfl, fun l' hl' => hnd.2.2 l' hl' l List.mem_cons_self,
    fun l' hl' heq => (List.nodup_cons.mp hnd.2.1).1 (heq ▸ hl')⟩

/-- The chain of a line among the others. -/
theorem chains_eq {traces : Bool} {l : Line} (hl : l ∈ Line.made traces)
    (q : Line → List NodeIndex) : ∃ F₁ F₂ : Chain.Family, ∀ xs,
      chains traces (setLine q l xs) = F₁ ++ (l.head, xs) :: F₂ := by
  obtain ⟨L₁, L₂, hsplit, hL₁, hL₂⟩ := exists_split (Line.nodup_made traces) hl
  have hkeep : ∀ L : List Line, (∀ l' ∈ L, l' ≠ l) → ∀ xs,
      (L.map fun l' => (l'.head, setLine q l xs l')) = L.map fun l' => (l'.head, q l') :=
    fun L hL xs => List.map_congr_left fun l' hl' => by
      rw [setLine, Function.update_of_ne (hL l' hl')]
  refine ⟨L₁.map fun l' => (l'.head, q l'), L₂.map fun l' => (l'.head, q l'), fun xs => ?_⟩
  rw [chains, hsplit, List.map_append, List.map_cons, hkeep L₁ hL₁, hkeep L₂ hL₂, setLine,
    Function.update_self]

/-- The buffers of one line and those of the others. -/
theorem lines_perm (q : Line → List NodeIndex) (l : Line) : ∃ others : List NodeIndex, ∀ xs,
    (Line.all.flatMap (setLine q l xs)).Perm (xs ++ others) := by
  obtain ⟨L₁, L₂, hsplit, hL₁, hL₂⟩ := exists_split Line.nodup_all l.mem_all
  have hkeep : ∀ L : List Line, (∀ l' ∈ L, l' ≠ l) → ∀ xs,
      L.flatMap (setLine q l xs) = L.flatMap q :=
    fun L hL xs => List.flatMap_congr fun l' hl' => by
      rw [setLine, Function.update_of_ne (hL l' hl')]
  refine ⟨L₁.flatMap q ++ L₂.flatMap q, fun xs => ?_⟩
  rw [hsplit, List.flatMap_append, List.flatMap_cons, hkeep L₁ hL₁, hkeep L₂ hL₂, setLine,
    Function.update_self]
  exact List.perm_append_comm_assoc _ _ _

/-- One part of a whole is exchanged for another one: what is on its way in or out for the part is
so for the whole. -/
theorem perm_exchange {α β : Type} {whole part : β → List α} {rest : List α}
    (hwhole : ∀ x, (whole x).Perm (part x ++ rest)) (held held' : List α) {x y : β}
    (h : (held' ++ part y).Perm (held ++ part x)) :
    (held' ++ whole y).Perm (held ++ whole x) := by
  have hpart : ∀ (out : List α) (z : β), (out ++ whole z).Perm (out ++ part z ++ rest) :=
    fun out z => by
      rw [List.append_assoc]
      exact (hwhole z).append_left out
  exact (hpart held' y).trans ((h.append_right rest).trans (hpart held x).symm)

/-- The places of all buffers, with one line in front. -/
theorem places_perm (q : Line → List NodeIndex) (free : List NodeIndex) (l : Line) :
    ∃ rest : List NodeIndex, ∀ xs,
      (free ++ Line.all.flatMap (setLine q l xs)).Perm (xs ++ rest) := by
  obtain ⟨others, hothers⟩ := lines_perm q l
  exact ⟨free ++ others, fun xs =>
    ((hothers xs).append_left free).trans (List.perm_append_comm_assoc _ _ _)⟩

theorem setLine_self (q : Line → List NodeIndex) (l : Line) : setLine q l (q l) = q :=
  Function.update_eq_self l q

namespace Carries

variable {p : Placement} {traces : Bool} {m m' : Memory} {peer : Peer}
  {q q' : Line → List NodeIndex} {free free' : List NodeIndex} {l : Line} {n : NodeIndex}
  {xs : List NodeIndex}

theorem mem_slots_of_mem (h : Carries p traces m peer q free) (hn : n ∈ q l) : n ∈ slots :=
  h.mem_slots n (List.mem_append_right _ (List.mem_flatMap.mpr ⟨l, l.mem_all, hn⟩))

theorem linkable_of_mem_nodes (h : Carries p traces m peer q free) {i : NodeIndex}
    (hi : i ∈ (InterCore.chains traces q).nodes) : p.Linkable traces i := by
  obtain ⟨c, hc, hi⟩ := List.mem_flatMap.mp hi
  obtain ⟨l, hl, rfl⟩ := List.mem_map.mp hc
  rcases List.mem_cons.mp hi with rfl | hi
  · exact Placement.linkable_head hl
  · exact Placement.linkable_of_mem_slots (h.mem_slots_of_mem hi)

/-- Splices keep everything but the lines. -/
theorem relink (h : Carries p traces m peer q free) (hp : p.Valid)
    (hchains : Chain.WellFormed p.arena m' (InterCore.chains traces q'))
    (hagree : AgreeOff (p.LinkByte traces) m m')
    (hunmade : traces = false → q' (.shared .traces) = []) {peer' : Peer}
    (htable : peer'.referenceTable = peer.referenceTable)
    (hsize : peer'.poolSlots = peer.poolSlots)
    (hfree : peer'.free = free'.map p.arena.locate)
    (hperm : (free' ++ Line.all.flatMap q').Nodup)
    (hslots : ∀ n ∈ free' ++ Line.all.flatMap q', n ∈ slots) :
    Carries p traces m' peer' q' free' where
  chains := hchains
  unmade ht := by
    refine ⟨hunmade ht, ?_⟩
    rw [← (h.unmade ht).2]
    refine hagree.pointer_eq fun k hk hlink => ?_
    obtain ⟨i, ⟨hi, hne⟩, hik⟩ := hlink
    have h3 : p.arena.Has 3 := Placement.has_iff.mpr (by decide)
    have hne : (3 : NodeIndex) ≠ i := fun heq => by simp [ht] at hne; exact hne heq.symm
    exact hp.separated.links_apart h3 hi hne (hk.mono (by decide)) hik
  published := h.published.of_agreeOff hp hagree fun k hk => hp.not_linkByte_of_tableByte hk
  peer_table := htable.trans h.peer_table
  peer_slots := hsize.trans h.peer_slots
  peer_free := hfree
  nodup := hperm
  mem_slots := hslots

/-- A slot that is in no line is in no chain. -/
theorem not_mem_nodes (hn : n ∈ slots) (hnew : n ∉ Line.all.flatMap q) :
    n ∉ (InterCore.chains traces q).nodes := by
  intro hmem
  obtain ⟨c, hc, hmem⟩ := List.mem_flatMap.mp hmem
  obtain ⟨l, -, rfl⟩ := List.mem_map.mp hc
  rcases List.mem_cons.mp hmem with rfl | hmem
  · exact l.head_not_mem_slots hn
  · exact hnew (List.mem_flatMap.mpr ⟨l, l.mem_all, hmem⟩)

theorem setLine_traces (h : Carries p traces m peer q free) (hl : l ∈ Line.made traces)
    (ht : traces = false) (xs : List NodeIndex) : setLine q l xs (.shared .traces) = [] := by
  rw [setLine, Function.update_of_ne, (h.unmade ht).1]
  rintro rfl
  rw [ht] at hl
  exact absurd hl (by decide)

theorem mem_nodes_of_mem {i : NodeIndex} (hl : l ∈ Line.made traces) (hi : i ∈ l.head :: q l) :
    i ∈ (InterCore.chains traces q).nodes :=
  Chain.Family.mem_nodes_of_mem (List.mem_map.mpr ⟨l, hl, rfl⟩) hi

/-- The links that a splice in a line writes. -/
theorem agreeOff_links (h : Carries p traces m peer q free) {nodes : List NodeIndex}
    (hagree : AgreeOff (p.arena.Links (· ∈ nodes)) m m')
    (hnodes : ∀ i ∈ nodes, i ∈ (InterCore.chains traces q).nodes ∨ i ∈ slots) :
    AgreeOff (p.LinkByte traces) m m' := by
  refine hagree.mono fun k hk => hk.mono fun i hi => ?_
  rcases hnodes i hi with hi | hi
  · exact h.linkable_of_mem_nodes hi
  · exact Placement.linkable_of_mem_slots hi

/-- What is there when a buffer was added to a line. -/
theorem perm_append (q : Line → List NodeIndex) (l : Line) (n : NodeIndex)
    (free : List NodeIndex) : (free ++ Line.all.flatMap (setLine q l (q l ++ [n]))).Perm
      (n :: (free ++ Line.all.flatMap q)) := by
  obtain ⟨rest, hrest⟩ := places_perm q free l
  have hall := perm_exchange hrest [n] [] (List.perm_append_singleton n (q l))
  rwa [setLine_self] at hall

theorem agreeOff_links_append (h : Carries p traces m peer q free) (hl : l ∈ Line.made traces)
    (hn : n ∈ slots)
    (hagree : AgreeOff (p.arena.Links (· ∈ [(q l).getLastD l.head, n, l.head])) m m') :
    AgreeOff (p.LinkByte traces) m m' := by
  refine h.agreeOff_links hagree fun i hi => ?_
  simp only [List.mem_cons, List.not_mem_nil, or_false] at hi
  rcases hi with rfl | rfl | rfl
  · exact Or.inl (mem_nodes_of_mem hl List.getLastD_mem_cons)
  · exact Or.inr hn
  · exact Or.inl (mem_nodes_of_mem hl List.mem_cons_self)

/-- The host links a buffer to the end of a line. -/
theorem append (h : Carries p traces m peer q free) (hp : p.Valid) (hl : l ∈ Line.made traces)
    (hn : n ∈ slots) (hnew : n ∉ free ++ Line.all.flatMap q) :
    ∃ m', Chain.pushBack p.arena m l.head n = .ok m' ∧ AgreeOff (p.LinkByte traces) m m' ∧
      Carries p traces m' peer (setLine q l (q l ++ [n])) free := by
  obtain ⟨F₁, F₂, hF⟩ := chains_eq hl q
  have hw := h.chains
  have hnodes := @not_mem_nodes traces q n hn fun hmem =>
    hnew (List.mem_append_right free hmem)
  rw [← setLine_self q l, hF, ← List.append_nil (q l)] at hw hnodes
  obtain ⟨m', hrun, hw', hagree⟩ := hw.insertBefore hp.separated (has_of_mem_slots hn) hnodes
  rw [← hF] at hw'
  have hagree' := h.agreeOff_links_append hl hn hagree
  have hperm := perm_append q l n free
  refine ⟨m', hrun, hagree', h.relink hp hw' hagree' (fun ht => h.setLine_traces hl ht _) rfl rfl
    h.peer_free (hperm.nodup_iff.mpr (List.nodup_cons.mpr ⟨hnew, h.nodup⟩)) fun i hi => ?_⟩
  rcases List.mem_cons.mp (hperm.mem_iff.mp hi) with rfl | hi
  · exact hn
  · exact h.mem_slots i hi

/-- What is left when the first buffer leaves a line. -/
theorem perm_takeFirst (hq : q l = n :: xs) (free : List NodeIndex) :
    (n :: (free ++ Line.all.flatMap (setLine q l xs))).Perm (free ++ Line.all.flatMap q) := by
  obtain ⟨rest, hrest⟩ := places_perm q free l
  have hall := perm_exchange hrest [] [n] (.of_eq hq.symm)
  rwa [setLine_self] at hall

theorem agreeOff_links_takeFirst (h : Carries p traces m peer q free) (hl : l ∈ Line.made traces)
    (hq : q l = n :: xs) (hagree : AgreeOff (p.arena.Links (· ∈ [l.head, xs.headD l.head])) m m') :
    AgreeOff (p.LinkByte traces) m m' := by
  refine h.agreeOff_links hagree fun i hi => Or.inl (mem_nodes_of_mem hl ?_)
  rw [hq]
  rcases List.mem_pair.mp hi with rfl | rfl
  · exact List.mem_cons_self
  · cases xs <;> simp

/-- The host takes the first buffer of a line. -/
theorem takeFirst (h : Carries p traces m peer q free) (hp : p.Valid) (hl : l ∈ Line.made traces)
    (hq : q l = n :: xs) :
    ∃ m', Chain.popFront p.arena m l.head = .ok (some n, m') ∧
      AgreeOff (p.LinkByte traces) m m' ∧ Carries p traces m' peer (setLine q l xs) free := by
  obtain ⟨F₁, F₂, hF⟩ := chains_eq hl q
  have hw := h.chains
  rw [← setLine_self q l, hF, hq] at hw
  obtain ⟨m', hrun, hw', hagree⟩ := hw.popFront hp.separated
  rw [← hF] at hw'
  have hagree' := h.agreeOff_links_takeFirst hl hq hagree
  have hperm := perm_takeFirst hq free
  refine ⟨m', hrun, hagree', h.relink hp hw' hagree' (fun ht => h.setLine_traces hl ht _) rfl rfl
    h.peer_free ?_ fun i hi => h.mem_slots i (hperm.mem_iff.mp (List.mem_cons_of_mem n hi))⟩
  exact (List.nodup_cons.mp (hperm.nodup_iff.mpr h.nodup)).2

theorem takeFirst_nil (h : Carries p traces m peer q free) (hp : p.Valid)
    (hl : l ∈ Line.made traces) (hq : q l = []) :
    Chain.popFront p.arena m l.head = .ok (none, m) := by
  obtain ⟨F₁, F₂, hF⟩ := chains_eq hl q
  have hw := h.chains
  rw [← setLine_self q l, hF, hq] at hw
  exact hw.popFront_nil hp.separated

/-- The null address lies in no region. -/
theorem indexOf?_null (hp : p.Valid) : p.arena.indexOf? Address.null = none := by
  have hnone : p.arena.regions.find? (·.spans Address.null) = none := by
    rw [List.find?_eq_none]
    intro r hr
    have hbase : r.base ≠ Address.null := by
      simp only [Placement.arena, List.mem_cons, List.not_mem_nil, or_false] at hr
      rcases hr with rfl | rfl | rfl | rfl
      · exact hp.address_ne_null (.queue .ble)
      · exact hp.address_ne_null .pool
      · exact hp.address_ne_null (.spare .system)
      · exact hp.base_ne_null .localHead
    rw [Region.spans, Bool.and_eq_true, decide_eq_true_iff, not_and]
    intro hle
    exact absurd (UInt64.le_zero_iff.mp hle) hbase
  rw [Arena.indexOf?, hnone]

/-- Nothing is taken from a line that no boot made. -/
theorem takeFirst_unmade (h : Carries p traces m peer q free) (hp : p.Valid)
    (ht : traces = false) : Chain.popFront p.arena m 3 = .error .strayLink := by
  have h3 : p.arena.Has 3 := Placement.has_iff.mpr (by decide)
  have hnext := (h.unmade ht).2
  have hne : Address.null ≠ p.arena.locate 3 := (hp.locate_ne_null h3).symm
  simp only [Chain.popFront, Chain.isEmpty, h3.address, hnext, bind, Except.bind, pure,
    Except.pure, beq_eq_false_iff_ne.mpr hne, Bool.false_eq_true, if_false, Arena.resolve,
    indexOf?_null hp]
  rfl

/-- The links of a line that no boot made lead nowhere. -/
theorem members_unmade (h : Carries p traces m peer q free) (hp : p.Valid)
    (ht : traces = false) : Chain.members p.arena m 3 = [none] := by
  have h3 : p.arena.Has 3 := Placement.has_iff.mpr (by decide)
  simp only [Chain.members, h3.address, (h.unmade ht).2, Chain.viewLimit, Chain.membersFrom,
    if_neg (hp.locate_ne_null h3).symm, indexOf?_null hp]

/-! ### The peer -/

/-- The peer links the slot it fills next to the end of a line. -/
theorem peerAppend (h : Carries p traces m peer q (n :: free)) (hp : p.Valid)
    (hl : l ∈ Line.made traces) :
    AgreeOff (p.LinkByte traces) m
        (Peer.linkBack m (p.arena.locate l.head) (p.arena.locate n)) ∧
      Carries p traces (Peer.linkBack m (p.arena.locate l.head) (p.arena.locate n))
        { peer with free := free.map p.arena.locate } (setLine q l (q l ++ [n])) free := by
  obtain ⟨F₁, F₂, hF⟩ := chains_eq hl q
  have hn : n ∈ slots := h.mem_slots n List.mem_cons_self
  have hnew : n ∉ free ++ Line.all.flatMap q := (List.nodup_cons.mp h.nodup).1
  have hnodes := @not_mem_nodes traces q n hn fun hmem =>
    hnew (List.mem_append_right free hmem)
  have hw := h.chains
  rw [← setLine_self q l, hF] at hw hnodes
  obtain ⟨hw', hagree⟩ := hw.linkBack hp.separated (has_of_mem_slots hn) hnodes
  rw [← hF] at hw'
  have hagree' := h.agreeOff_links_append hl hn hagree
  have hperm := perm_append q l n free
  exact ⟨hagree', h.relink hp hw' hagree' (fun ht => h.setLine_traces hl ht _) rfl rfl rfl
    (hperm.nodup_iff.mpr h.nodup) fun i hi => h.mem_slots i (hperm.mem_iff.mp hi)⟩

/-- The peer takes the first buffer of a line as a slot to fill. -/
theorem peerTakeFirst (h : Carries p traces m peer q free) (hp : p.Valid)
    (hl : l ∈ Line.made traces) (hq : q l = n :: xs) :
    ∃ m', Peer.unlinkFront m (p.arena.locate l.head) = (some (p.arena.locate n), m') ∧
      AgreeOff (p.LinkByte traces) m m' ∧
      Carries p traces m' { peer with free := p.arena.locate n :: peer.free } (setLine q l xs)
        (n :: free) := by
  obtain ⟨F₁, F₂, hF⟩ := chains_eq hl q
  have hw := h.chains
  rw [← setLine_self q l, hF, hq] at hw
  obtain ⟨m', hrun, hw', hagree⟩ := hw.unlinkFront hp.separated
  rw [← hF] at hw'
  have hagree' := h.agreeOff_links_takeFirst hl hq hagree
  have hperm := perm_takeFirst hq free
  refine ⟨m', hrun, hagree', h.relink hp hw' hagree' (fun ht => h.setLine_traces hl ht _) rfl rfl ?_
    (hperm.nodup_iff.mpr h.nodup) fun i hi => h.mem_slots i (hperm.mem_iff.mp hi)⟩
  rw [List.map_cons, h.peer_free]

theorem peerTakeFirst_nil (h : Carries p traces m peer q free)
    (hl : l ∈ Line.made traces) (hq : q l = []) :
    Peer.unlinkFront m (p.arena.locate l.head) = (none, m) := by
  obtain ⟨F₁, F₂, hF⟩ := chains_eq hl q
  have hw := h.chains
  rw [← setLine_self q l, hF, hq] at hw
  exact hw.unlinkFront_nil

end Carries

/-! ### Stores that touch no link and no table -/

/-- The byte belongs to no link and to no table. -/
def Placement.Quiet (p : Placement) (k : Address) : Prop :=
  ¬ p.TableByte k ∧ ∀ i, p.arena.Has i → ¬ Within (p.arena.locate i) 16 k

theorem Placement.not_linkByte_of_quiet {p : Placement} {traces : Bool} {k : Address}
    (h : p.Quiet k) : ¬ p.LinkByte traces k :=
  fun ⟨i, ⟨hi, _⟩, hik⟩ => h.2 i hi hik

theorem Carries.of_quiet {p : Placement} {traces : Bool} {m m' : Memory} {peer : Peer}
    {q : Line → List NodeIndex} {free : List NodeIndex} {S : Address → Prop}
    (h : Carries p traces m peer q free) (hp : p.Valid) (hagree : AgreeOff S m m')
    (hS : ∀ k, S k → p.Quiet k) : Carries p traces m' peer q free where
  chains := h.chains.of_agreeOff hagree fun k hk ⟨i, hi, hik⟩ =>
    (hS k hk).2 i (h.chains.registered i hi) hik
  unmade ht := by
    refine ⟨(h.unmade ht).1, ?_⟩
    rw [← (h.unmade ht).2]
    exact hagree.pointer_eq fun k hk hSk =>
      (hS k hSk).2 3 (Placement.has_iff.mpr (by decide)) (hk.mono (by decide))
  published := h.published.of_agreeOff hp hagree fun k hk hSk => (hS k hSk).1 hk
  peer_table := h.peer_table
  peer_slots := h.peer_slots
  peer_free := h.peer_free
  nodup := h.nodup
  mem_slots := h.mem_slots

/-- The buffers for commands, data and their answers. -/
def Object.buffers : List Object := [.systemCommand, .bleCommand, .commandStatus, .aclData]

namespace Placement.Valid

variable {p : Placement} (hp : p.Valid)
include hp

/-- Runs apart from the tables and from the links of every node are quiet. -/
theorem quiet_of_extent {x : Extent} (hx : x.Fits)
    (htables : x.Apart ⟨.referenceTable, 0, 80⟩ ∧ x.Apart ⟨.control, 0, 248⟩)
    (hlinks : ∀ n < 12, x.Apart ⟨(slotExtent n).part, (slotExtent n).offset, 16⟩) {k : Address}
    (hk : x.Covers p k) : p.Quiet k := by
  have hfits : ∀ n < 12, Extent.Fits ⟨(slotExtent n).part, (slotExtent n).offset, 16⟩ := by decide
  refine ⟨?_, fun i hi hik => ?_⟩
  · rintro (h | h)
    · exact hp.apart_of hx (by decide) htables.1 hk h
    · exact hp.apart_of hx (by decide) htables.2 hk h
  · have hn := has_iff.mp hi
    exact hp.apart_of hx (hfits _ hn) (hlinks _ hn) hk (hp.covers_of_within hi hik)

/-- The packet of an event slot lies behind its links and before the next slot. -/
theorem quiet_packet {n : NodeIndex} (hn : n ∈ slots) {k : Address}
    (hk : Within (p.arena.locate n + 16) 258 k) : p.Quiet k := by
  have hi := has_of_mem_slots (p := p) hn
  have hk' : Extent.Covers p ⟨(nodeExtent n).part, (nodeExtent n).offset + 16, 258⟩ k := by
    rw [Extent.Covers, Extent.start, UInt64.ofNat_add, ← UInt64.add_assoc]
    rwa [(hp.slot_eq hi).1] at hk
  obtain ⟨h₁, h₂⟩ := mem_slots_iff.mp hn
  have hfits : ∀ n < 11, 4 ≤ n →
      Extent.Fits ⟨(slotExtent n).part, (slotExtent n).offset + 16, 258⟩ := by decide
  have htables : ∀ n < 11, 4 ≤ n →
      Extent.Apart ⟨(slotExtent n).part, (slotExtent n).offset + 16, 258⟩
          ⟨.referenceTable, 0, 80⟩ ∧
        Extent.Apart ⟨(slotExtent n).part, (slotExtent n).offset + 16, 258⟩ ⟨.control, 0, 248⟩ := by
    decide
  have hlinks : ∀ n < 11, 4 ≤ n → ∀ n' < 12,
      Extent.Apart ⟨(slotExtent n).part, (slotExtent n).offset + 16, 258⟩
        ⟨(slotExtent n').part, (slotExtent n').offset, 16⟩ := by decide
  exact hp.quiet_of_extent (hfits _ h₂ h₁) (htables _ h₂ h₁) (hlinks _ h₂ h₁) hk'

/-- The buffers of commands and data are quiet. -/
theorem quiet_object {o : Object} (ho : o ∈ Object.buffers) {k : Address}
    (hk : Within (p.address o) o.size k) : p.Quiet k := by
  have htables : ∀ o ∈ Object.buffers,
      o.extent.Apart ⟨.referenceTable, 0, 80⟩ ∧ o.extent.Apart ⟨.control, 0, 248⟩ := by decide
  have hlinks : ∀ o ∈ Object.buffers, ∀ n < 12,
      o.extent.Apart ⟨(slotExtent n).part, (slotExtent n).offset, 16⟩ := by decide
  rw [o.address_eq] at hk
  exact hp.quiet_of_extent o.extent_fits (htables o ho) (hlinks o ho) hk

end Placement.Valid

end InterCore
