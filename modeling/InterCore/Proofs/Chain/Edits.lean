import InterCore.Proofs.Chain.Operations

/-!
# Chains refine lists

Sequences of edits on a family of any number of chains, next to the same edits on plain lists. An
edit is legal when it inserts a node that is in no chain, next to a head or a member, takes out a
member, takes an end of a chain off, or makes a head that is in no chain or has no members an empty
chain. After every legal sequence the links in memory show the lists, and one more legal edit writes
the links of the node it moves and of the two nodes around it, and nothing else.

## Main definitions

* `Chain.Edit`: the eight operations; `Chain.Edit.run` performs one in memory, `Chain.Edit.apply` on
  the lists.
* `Chain.Edit.Legal`: when an edit may be performed.
* `Chain.Shows`: what can be seen of a chain.
* `Chain.Edit.Outcome`: an edit did what it does to the lists.

## Main results

* `Chain.WellFormed.edit`: the step, one case for each operation.
* `Chain.edits_refine`: the run.
-/

namespace InterCore.Chain

open Memory

/-! ### Edits of lists -/

/-- An operation that changes a family of chains. -/
inductive Edit where
  | init (head : NodeIndex)
  | pushFront (head node : NodeIndex)
  | pushBack (head node : NodeIndex)
  | insertAfter (node ref : NodeIndex)
  | insertBefore (node ref : NodeIndex)
  | remove (node : NodeIndex)
  | popFront (head : NodeIndex)
  | popBack (head : NodeIndex)
  deriving DecidableEq, Repr

namespace Family

/-- The heads of a family. -/
def heads (F : Family) : List NodeIndex := F.map Prod.fst

/-- The members of a head. -/
def members (F : Family) (h : NodeIndex) : List NodeIndex := (F.lookup h).getD []

/-- Change the members of one head. -/
def under (F : Family) (h : NodeIndex) (f : List NodeIndex → List NodeIndex) : Family :=
  F.map fun c => if c.1 = h then (c.1, f c.2) else c

/-- Change the members of every head. -/
def inside (F : Family) (f : List NodeIndex → List NodeIndex) : Family :=
  F.map fun c => (c.1, f c.2)

/-- The node `i` comes directly before or after the node `n` on the circle of a head. -/
def Beside (F : Family) (n i : NodeIndex) : Prop :=
  ∃ c ∈ F, [i, n] <:+: c.1 :: (c.2 ++ [c.1]) ∨ [n, i] <:+: c.1 :: (c.2 ++ [c.1])

end Family

namespace Edit

/-- Perform an edit in memory. Taking an end off replies with the node. -/
def run (a : Arena) (m : Memory) : Edit → Except Halt (Option NodeIndex × Memory)
  | init head => return (none, ← Chain.init a m head)
  | pushFront head node => return (none, ← Chain.pushFront a m head node)
  | pushBack head node => return (none, ← Chain.pushBack a m head node)
  | insertAfter node ref => return (none, ← Chain.insertAfter a m node ref)
  | insertBefore node ref => return (none, ← Chain.insertBefore a m node ref)
  | remove node => return (none, ← Chain.remove a m node)
  | popFront head => Chain.popFront a m head
  | popBack head => Chain.popBack a m head

/-- The lists after an edit. -/
def apply (F : Family) : Edit → Family
  | init head => if head ∈ F.heads then F else (head, []) :: F
  | pushFront head node => F.under head (node :: ·)
  | pushBack head node => F.under head (· ++ [node])
  | insertAfter node ref =>
    (F.inside (·.flatMap fun i => if i = ref then [i, node] else [i])).under ref (node :: ·)
  | insertBefore node ref =>
    (F.inside (·.flatMap fun i => if i = ref then [node, i] else [i])).under ref (· ++ [node])
  | remove node => F.inside (·.erase node)
  | popFront head => F.under head List.tail
  | popBack head => F.under head List.dropLast

/-- The reply of an edit. -/
def answer (F : Family) : Edit → Option NodeIndex
  | popFront head => (F.members head).head?
  | popBack head => (F.members head).getLast?
  | _ => none

/-- The edit is within what the operations promise. -/
def Legal (a : Arena) (F : Family) : Edit → Prop
  | init head => a.Has head ∧ (head ∉ F.nodes ∨ (head, []) ∈ F)
  | pushFront head node | pushBack head node => head ∈ F.heads ∧ a.Has node ∧ node ∉ F.nodes
  | insertAfter node ref | insertBefore node ref => ref ∈ F.nodes ∧ a.Has node ∧ node ∉ F.nodes
  | remove node => ∃ c ∈ F, node ∈ c.2
  | popFront head | popBack head => head ∈ F.heads

instance (a : Arena) (F : Family) : (e : Edit) → Decidable (e.Legal a F)
  | init head => inferInstanceAs (Decidable (a.Has head ∧ (head ∉ F.nodes ∨ (head, []) ∈ F)))
  | pushFront head node | pushBack head node =>
    inferInstanceAs (Decidable (head ∈ F.heads ∧ a.Has node ∧ node ∉ F.nodes))
  | insertAfter node ref | insertBefore node ref =>
    inferInstanceAs (Decidable (ref ∈ F.nodes ∧ a.Has node ∧ node ∉ F.nodes))
  | remove node => inferInstanceAs (Decidable (∃ c ∈ F, node ∈ c.2))
  | popFront head | popBack head => inferInstanceAs (Decidable (head ∈ F.heads))

/-- The node that says which chain an edit works on. -/
def target : Edit → NodeIndex
  | init head | pushFront head _ | pushBack head _ | popFront head | popBack head => head
  | insertAfter _ ref | insertBefore _ ref => ref
  | remove node => node

/-- The nodes whose links an edit writes: the node that is linked and the nodes on both sides of
it, or the nodes on both sides of the one that is taken out. -/
def Writes (F : Family) (e : Edit) (i : NodeIndex) : Prop :=
  match e with
  | init head => i = head
  | pushFront _ node | pushBack _ node | insertAfter node _ | insertBefore node _ =>
    i = node ∨ (e.apply F).Beside node i
  | remove node => F.Beside node i
  | popFront _ | popBack _ => ∃ node ∈ e.answer F, F.Beside node i

/-! ### Sequences -/

/-- Perform edits one after the other. -/
def runAll (a : Arena) (m : Memory) : List Edit → Except Halt (List (Option NodeIndex) × Memory)
  | [] => return ([], m)
  | e :: es => do
    let (reply, m) ← e.run a m
    let (replies, m) ← runAll a m es
    return (reply :: replies, m)

/-- The lists after a sequence of edits. -/
def applyAll (F : Family) (es : List Edit) : Family :=
  es.foldl apply F

/-- The replies of a sequence of edits. -/
def answers (F : Family) : List Edit → List (Option NodeIndex)
  | [] => []
  | e :: es => e.answer F :: answers (e.apply F) es

/-- Every edit of a sequence is legal when its turn comes. -/
def LegalAll (a : Arena) (F : Family) : List Edit → Prop
  | [] => True
  | e :: es => e.Legal a F ∧ LegalAll a (e.apply F) es

instance (a : Arena) : (F : Family) → (es : List Edit) → Decidable (LegalAll a F es)
  | _, [] => instDecidableTrue
  | F, e :: es =>
    have := instDecidableLegalAll a (e.apply F) es
    inferInstanceAs (Decidable (_ ∧ _))

end Edit

/-- What can be seen of the chain of a head in memory. -/
structure Shows (a : Arena) (m : Memory) (h : NodeIndex) (xs : List NodeIndex) : Prop where
  forward : ∀ limit, walkTo (next a m) h limit h = .ok (xs.take limit)
  backward : ∀ limit, walkTo (prev a m) h limit h = .ok (xs.reverse.take limit)
  prev_next : ∀ i ∈ h :: xs, ∃ j, next a m i = .ok j ∧ prev a m j = .ok i
  next_prev : ∀ i ∈ h :: xs, ∃ j, prev a m i = .ok j ∧ next a m j = .ok i
  isEmpty_eq : isEmpty a m h = .ok xs.isEmpty
  length_eq : length a m h = .ok xs.length

/-- The edit succeeded, shows in memory as it does on the lists, and wrote nothing else. -/
structure Edit.Outcome (a : Arena) (m : Memory) (F : Family) (e : Edit) (m' : Memory) : Prop where
  run_eq : e.run a m = .ok (e.answer F, m')
  shows : ∀ c ∈ e.apply F, Shows a m' c.1 c.2
  others : ∀ c ∈ F, e.target ∉ c.1 :: c.2 → c ∈ e.apply F
  writes : AgreeOff (a.Links (e.Writes F)) m m'
  idle : ∀ h, (h, []) ∈ F → e = .popFront h ∨ e = .popBack h → e.answer F = none ∧ m' = m

/-! ### Edits at a cut -/

variable {a : Arena} {m : Memory} {h n r : NodeIndex} {xs ys : List NodeIndex} {F F₁ F₂ : Family}

namespace Family

theorem exists_cut_of_mem {c : NodeIndex × List NodeIndex} (hc : c ∈ F) :
    ∃ F₁ F₂, F = F₁ ++ (c.1, c.2) :: F₂ :=
  List.append_of_mem hc

theorem exists_cut_of_mem_heads (hh : h ∈ F.heads) : ∃ F₁ xs F₂, F = F₁ ++ (h, xs) :: F₂ := by
  obtain ⟨c, hc, rfl⟩ := List.mem_map.mp hh
  obtain ⟨F₁, F₂, hF⟩ := exists_cut_of_mem hc
  exact ⟨F₁, c.2, F₂, hF⟩

/-- A node of one chain is in no other. -/
theorem not_mem_of_nodup (hnd : (nodes (F₁ ++ (h, xs) :: F₂)).Nodup) {i : NodeIndex}
    (hi : i ∈ h :: xs) {d : NodeIndex × List NodeIndex} (hd : d ∈ F₁ ++ F₂) : i ∉ d.1 :: d.2 := by
  have hperm : (nodes (F₁ ++ (h, xs) :: F₂)).Perm (nodes ((h, xs) :: (F₁ ++ F₂))) :=
    List.perm_middle.flatMap_right _
  rw [hperm.nodup_iff, nodes_cons, ← List.cons_append, List.nodup_append] at hnd
  exact fun hi' => hnd.2.2 i hi i (mem_nodes_of_mem hd hi') rfl

theorem map_middle {f : NodeIndex × List NodeIndex → NodeIndex × List NodeIndex}
    {c : NodeIndex × List NodeIndex} (hf : ∀ d ∈ F₁ ++ F₂, f d = d) :
    (F₁ ++ c :: F₂).map f = F₁ ++ f c :: F₂ := by
  have hkeep : ∀ G : Family, G ⊆ F₁ ++ F₂ → G.map f = G := fun G hG =>
    (List.map_congr_left fun d hd => hf d (hG hd)).trans (List.map_id G)
  rw [List.map_append, List.map_cons, hkeep F₁ (List.subset_append_left _ _),
    hkeep F₂ (List.subset_append_right _ _)]

variable {f g : List NodeIndex → List NodeIndex}

theorem under_middle (hnd : (nodes (F₁ ++ (h, xs) :: F₂)).Nodup) :
    under (F₁ ++ (h, xs) :: F₂) h f = F₁ ++ (h, f xs) :: F₂ := by
  have hne : ∀ d ∈ F₁ ++ F₂, d.1 ≠ h := fun d hd heq =>
    not_mem_of_nodup hnd List.mem_cons_self hd (heq ▸ List.mem_cons_self)
  rw [under, map_middle fun d hd => if_neg (hne d hd), if_pos rfl]

theorem inside_middle (hnd : (nodes (F₁ ++ (h, xs) :: F₂)).Nodup)
    (hf : ∀ ys, r ∉ ys → f ys = ys) (hr : r ∈ xs) :
    inside (F₁ ++ (h, xs) :: F₂) f = F₁ ++ (h, f xs) :: F₂ := by
  refine map_middle fun d hd => ?_
  have := not_mem_of_nodup hnd (List.mem_cons_of_mem h hr) hd
  rw [hf d.2 fun hmem => this (List.mem_cons_of_mem _ hmem)]

theorem under_inside (F : Family) (f g : List NodeIndex → List NodeIndex) (r : NodeIndex) :
    under (inside F f) r g = F.map fun c => if c.1 = r then (c.1, g (f c.2)) else (c.1, f c.2) := by
  rw [under, inside, List.map_map]
  rfl

/-- An insertion next to a head. -/
theorem placed_head (hnd : (nodes (F₁ ++ (r, xs) :: F₂)).Nodup) (hf : ∀ ys, r ∉ ys → f ys = ys) :
    under (inside (F₁ ++ (r, xs) :: F₂) f) r g = F₁ ++ (r, g xs) :: F₂ := by
  have hr : r ∉ xs := by
    rw [nodes_append, nodes_cons, List.nodup_append] at hnd
    exact fun hmem => (List.nodup_cons.mp hnd.2.1).1 (List.mem_append_left _ hmem)
  rw [under_inside, map_middle fun d hd => ?_, if_pos rfl, hf xs hr]
  have hd' := List.ne_and_not_mem_of_not_mem_cons (not_mem_of_nodup hnd List.mem_cons_self hd)
  rw [if_neg (Ne.symm hd'.1), hf d.2 hd'.2]

/-- An insertion next to a member. -/
theorem placed_member (hnd : (nodes (F₁ ++ (h, xs) :: F₂)).Nodup) (hf : ∀ ys, r ∉ ys → f ys = ys)
    (hr : r ∈ xs) : under (inside (F₁ ++ (h, xs) :: F₂) f) r g = F₁ ++ (h, f xs) :: F₂ := by
  have hh : h ≠ r := by
    rintro rfl
    rw [nodes_append, nodes_cons, List.nodup_append] at hnd
    exact (List.nodup_cons.mp hnd.2.1).1 (List.mem_append_left _ hr)
  rw [under_inside, map_middle fun d hd => ?_, if_neg hh]
  have hd' := List.ne_and_not_mem_of_not_mem_cons
    (not_mem_of_nodup hnd (List.mem_cons_of_mem h hr) hd)
  rw [if_neg (Ne.symm hd'.1), hf d.2 hd'.2]

theorem members_middle (hnd : (nodes (F₁ ++ (h, xs) :: F₂)).Nodup) :
    members (F₁ ++ (h, xs) :: F₂) h = xs := by
  have hnone : F₁.lookup h = none := by
    rw [List.lookup_eq_none_iff]
    rintro d hd
    have := not_mem_of_nodup hnd List.mem_cons_self (List.mem_append_left F₂ hd)
    simpa using fun heq : h = d.1 => this (heq ▸ List.mem_cons_self)
  rw [members, List.lookup_append, hnone, List.lookup_cons_self]
  rfl

/-- The nodes on both sides of a member. -/
theorem beside_middle {i : NodeIndex} (hi : i ∈ [xs.getLastD h, ys.headD h]) :
    Beside (F₁ ++ (h, xs ++ n :: ys) :: F₂) n i := by
  refine ⟨(h, xs ++ n :: ys), by simp, ?_⟩
  rcases List.mem_pair.mp hi with rfl | rfl
  · refine Or.inl ⟨(h :: xs).dropLast, ys ++ [h], ?_⟩
    have hlast := List.dropLast_append_getLast (List.cons_ne_nil h xs)
    rw [List.getLast_eq_getLastD] at hlast
    calc (h :: xs).dropLast ++ [xs.getLastD h, n] ++ (ys ++ [h])
        = ((h :: xs).dropLast ++ [xs.getLastD h]) ++ n :: (ys ++ [h]) := by simp
      _ = h :: (xs ++ n :: ys ++ [h]) := by rw [hlast]; simp
  · refine Or.inr ⟨h :: xs, (ys ++ [h]).tail, ?_⟩
    cases ys <;> simp

end Family

/-- Inserting next to a node changes no list without it. -/
theorem flatMap_of_not_mem {f : NodeIndex → List NodeIndex} (hr : r ∉ xs) :
    (xs.flatMap fun i => if i = r then f i else [i]) = xs := by
  calc (xs.flatMap fun i => if i = r then f i else [i])
      = xs.flatMap fun i => [i] :=
        List.flatMap_congr fun i hi => if_neg fun heq : i = r => hr (heq ▸ hi)
    _ = xs := List.flatMap_singleton' xs

theorem flatMap_middle {f : NodeIndex → List NodeIndex} (hnd : (xs ++ r :: ys).Nodup) :
    ((xs ++ r :: ys).flatMap fun i => if i = r then f i else [i]) = xs ++ (f r ++ ys) := by
  obtain ⟨-, hcons, hne⟩ := List.nodup_append.mp hnd
  have hxs : r ∉ xs := fun hmem => hne r hmem r List.mem_cons_self rfl
  rw [List.flatMap_append, List.flatMap_cons, if_pos rfl, flatMap_of_not_mem hxs,
    flatMap_of_not_mem (List.nodup_cons.mp hcons).1]

/-! ### The step -/

namespace WellFormed

/-- A well formed chain shows its list. -/
theorem shows (hw : WellFormed a m F) (ha : a.Separated) {c : NodeIndex × List NodeIndex}
    (hc : c ∈ F) : Shows a m c.1 c.2 := by
  have hr := hw.represents c hc
  have hreg : ∀ i ∈ c.1 :: c.2, a.Has i := fun i hi => hw.has_of_mem hc hi
  have hnd := hw.nodup_of_mem hc
  have hh := (List.nodup_cons.mp hnd).1
  constructor
  · exact hr.walkTo_next ha hreg hh
  · exact hr.walkTo_prev ha hreg hh
  · intro i hi
    obtain ⟨⟨j, -, hj⟩, -⟩ := hr.neighbours ha hreg hi
    exact ⟨j, hj⟩
  · intro i hi
    obtain ⟨-, ⟨j, -, hj⟩⟩ := hr.neighbours ha hreg hi
    exact ⟨j, hj⟩
  · exact hr.isEmpty_eq ha hreg hh
  · exact hr.length_eq ha hreg hnd

end WellFormed

/-- What an edit does in memory, with the lists of the family before and after. -/
structure Edit.Done (a : Arena) (m : Memory) (F : Family) (e : Edit) (m' : Memory) : Prop where
  run_eq : e.run a m = .ok (e.answer F, m')
  wellFormed : WellFormed a m' (e.apply F)
  writes : AgreeOff (a.Links (e.Writes F)) m m'

theorem silent_ok {x : Except Halt Memory} {m' : Memory} (hx : x = .ok m') :
    (do return (none, ← x) : Except Halt (Option NodeIndex × Memory)) = .ok (none, m') := by
  rw [hx]
  rfl

/-- An insertion: the lists afterwards tell which nodes are beside the new one. -/
theorem Edit.Done.of_insert {e : Edit} {m' : Memory} (hrun : e.run a m = .ok (e.answer F, m'))
    (happly : e.apply F = F₁ ++ (h, xs ++ n :: ys) :: F₂)
    (hwrites : e.Writes F = fun i => i = n ∨ (e.apply F).Beside n i)
    (hdone : WellFormed a m' (F₁ ++ (h, xs ++ n :: ys) :: F₂) ∧
      AgreeOff (a.Links (· ∈ [xs.getLastD h, n, ys.headD h])) m m') : e.Done a m F m' where
  run_eq := hrun
  wellFormed := happly ▸ hdone.1
  writes := by
    refine hdone.2.mono fun k hk => hk.mono fun i hi => ?_
    rw [hwrites, happly]
    rcases List.mem_cons.mp hi with rfl | hi
    · exact Or.inr (Family.beside_middle (by simp))
    · rcases List.mem_pair.mp hi with rfl | rfl
      · exact Or.inl rfl
      · exact Or.inr (Family.beside_middle (by simp))

/-- A removal: the lists before tell which nodes are beside the one that leaves. -/
theorem Edit.Done.of_remove {e : Edit} {m' : Memory} (hF : F = F₁ ++ (h, xs ++ n :: ys) :: F₂)
    (hrun : e.run a m = .ok (e.answer F, m'))
    (happly : e.apply F = F₁ ++ (h, xs ++ ys) :: F₂) (hwrites : ∀ i, F.Beside n i → e.Writes F i)
    (hdone : WellFormed a m' (F₁ ++ (h, xs ++ ys) :: F₂) ∧
      AgreeOff (a.Links (· ∈ [xs.getLastD h, ys.headD h])) m m') : e.Done a m F m' where
  run_eq := hrun
  wellFormed := happly ▸ hdone.1
  writes := hdone.2.mono fun _ hk => hk.mono fun i hi => hwrites i (hF ▸ Family.beside_middle hi)

namespace WellFormed

variable (ha : a.Separated) (hw : WellFormed a m F)
include ha hw

theorem done_init (hl : (Edit.init h).Legal a F) : ∃ m', (Edit.init h).Done a m F m' := by
  obtain ⟨hh, hnew | hempty⟩ := hl
  · obtain ⟨m', hrun, hw', hagree⟩ := hw.init ha hh hnew
    have hheads : h ∉ F.heads := by
      intro hmem
      obtain ⟨c, hc, rfl⟩ := List.mem_map.mp hmem
      exact hnew (Family.mem_nodes_of_mem hc List.mem_cons_self)
    exact ⟨m', silent_ok hrun, by rwa [Edit.apply, if_neg hheads], hagree⟩
  · have hheads : h ∈ F.heads := List.mem_map.mpr ⟨_, hempty, rfl⟩
    obtain ⟨F₁, F₂, rfl⟩ := List.append_of_mem hempty
    obtain ⟨m', hrun, hw', hagree⟩ := hw.init_nil ha
    exact ⟨m', silent_ok hrun, by rwa [Edit.apply, if_pos hheads], hagree⟩

theorem done_pushFront (hl : (Edit.pushFront h n).Legal a F) :
    ∃ m', (Edit.pushFront h n).Done a m F m' := by
  obtain ⟨hh, hn, hnew⟩ := hl
  obtain ⟨F₁, xs, F₂, rfl⟩ := Family.exists_cut_of_mem_heads hh
  obtain ⟨m', hrun, hdone⟩ := @insertAfter a m h n [] xs F₁ F₂ ha hw hn hnew
  have happly := Family.under_middle (f := (n :: ·)) hw.nodup
  exact ⟨m', @Edit.Done.of_insert a m h n [] xs _ F₁ F₂ _ m' (silent_ok hrun) happly rfl hdone⟩

theorem done_pushBack (hl : (Edit.pushBack h n).Legal a F) :
    ∃ m', (Edit.pushBack h n).Done a m F m' := by
  obtain ⟨hh, hn, hnew⟩ := hl
  obtain ⟨F₁, xs, F₂, rfl⟩ := Family.exists_cut_of_mem_heads hh
  have happly := Family.under_middle (f := (· ++ [n])) hw.nodup
  rw [← List.append_nil xs] at hw hnew
  obtain ⟨m', hrun, hdone⟩ := hw.insertBefore ha hn hnew
  exact ⟨m', .of_insert (silent_ok hrun) happly rfl hdone⟩

theorem done_insertAfter (hl : (Edit.insertAfter n r).Legal a F) :
    ∃ m', (Edit.insertAfter n r).Done a m F m' := by
  obtain ⟨hr, hn, hnew⟩ := hl
  obtain ⟨⟨h, xs⟩, hc, hmem⟩ := List.mem_flatMap.mp hr
  obtain ⟨F₁, F₂, rfl⟩ := List.append_of_mem hc
  have hf : ∀ xs : List NodeIndex, r ∉ xs →
      (xs.flatMap fun i => if i = r then [i, n] else [i]) = xs :=
    fun _ => flatMap_of_not_mem
  rcases List.mem_cons.mp hmem with rfl | hmem
  · obtain ⟨m', hrun, hdone⟩ := @insertAfter a m r n [] xs F₁ F₂ ha hw hn hnew
    have happly := Family.placed_head (g := (n :: ·)) hw.nodup hf
    exact ⟨m', @Edit.Done.of_insert a m r n [] xs _ F₁ F₂ _ m' (silent_ok hrun) happly rfl hdone⟩
  · have happly := Family.placed_member (g := (n :: ·)) hw.nodup hf hmem
    obtain ⟨ys, zs, rfl⟩ := List.append_of_mem hmem
    rw [flatMap_middle (List.nodup_cons.mp hw.nodup_middle).2] at happly
    rw [List.append_cons ys] at hw hnew
    obtain ⟨m', hrun, hdone⟩ := hw.insertAfter ha hn hnew
    rw [List.getLastD_concat] at hrun
    exact ⟨m', .of_insert (silent_ok hrun) (happly.trans (by simp)) rfl hdone⟩

theorem done_insertBefore (hl : (Edit.insertBefore n r).Legal a F) :
    ∃ m', (Edit.insertBefore n r).Done a m F m' := by
  obtain ⟨hr, hn, hnew⟩ := hl
  obtain ⟨⟨h, xs⟩, hc, hmem⟩ := List.mem_flatMap.mp hr
  obtain ⟨F₁, F₂, rfl⟩ := List.append_of_mem hc
  have hf : ∀ xs : List NodeIndex, r ∉ xs →
      (xs.flatMap fun i => if i = r then [n, i] else [i]) = xs :=
    fun _ => flatMap_of_not_mem
  rcases List.mem_cons.mp hmem with rfl | hmem
  · have happly := Family.placed_head (g := (· ++ [n])) hw.nodup hf
    rw [← List.append_nil xs] at hw hnew
    obtain ⟨m', hrun, hdone⟩ := hw.insertBefore ha hn hnew
    exact ⟨m', .of_insert (silent_ok hrun) happly rfl hdone⟩
  · have happly := Family.placed_member (g := (· ++ [n])) hw.nodup hf hmem
    obtain ⟨ys, zs, rfl⟩ := List.append_of_mem hmem
    rw [flatMap_middle (List.nodup_cons.mp hw.nodup_middle).2] at happly
    obtain ⟨m', hrun, hdone⟩ := hw.insertBefore ha hn hnew
    exact ⟨m', .of_insert (silent_ok hrun) happly rfl hdone⟩

theorem done_remove (hl : (Edit.remove n).Legal a F) : ∃ m', (Edit.remove n).Done a m F m' := by
  obtain ⟨⟨h, xs⟩, hc, hmem⟩ := hl
  obtain ⟨F₁, F₂, rfl⟩ := List.append_of_mem hc
  have happly := Family.inside_middle (f := (·.erase n)) hw.nodup
    (fun _ => List.erase_of_not_mem) hmem
  obtain ⟨ys, zs, rfl⟩ := List.append_of_mem hmem
  have hys : n ∉ ys := fun hmem =>
    (List.nodup_append.mp (List.nodup_cons.mp hw.nodup_middle).2).2.2 n hmem n
      List.mem_cons_self rfl
  rw [List.erase_append_right _ hys, List.erase_cons_head] at happly
  obtain ⟨m', hrun, hdone⟩ := hw.remove ha
  exact ⟨m', .of_remove rfl (silent_ok hrun) happly (fun _ => id) hdone⟩

theorem done_popFront (hl : (Edit.popFront h).Legal a F) :
    ∃ m', (Edit.popFront h).Done a m F m' := by
  obtain ⟨F₁, xs, F₂, rfl⟩ := Family.exists_cut_of_mem_heads hl
  have happly := Family.under_middle (f := List.tail) hw.nodup
  have hmembers := Family.members_middle hw.nodup
  cases xs with
  | nil =>
    refine ⟨m, ?_, by rwa [Edit.apply, happly], .refl _ _⟩
    rw [Edit.run, Edit.answer, hmembers, hw.popFront_nil ha, List.head?_nil]
  | cons n xs =>
    obtain ⟨m', hrun, hdone⟩ := hw.popFront ha
    have hanswer : (Edit.popFront h).answer (F₁ ++ (h, n :: xs) :: F₂) = some n := by
      rw [Edit.answer, hmembers, List.head?_cons]
    exact ⟨m', @Edit.Done.of_remove a m h n [] xs _ F₁ F₂ (.popFront h) m' rfl (hanswer ▸ hrun)
      happly (fun i hi => ⟨n, hanswer, hi⟩) hdone⟩

theorem done_popBack (hl : (Edit.popBack h).Legal a F) :
    ∃ m', (Edit.popBack h).Done a m F m' := by
  obtain ⟨F₁, xs, F₂, rfl⟩ := Family.exists_cut_of_mem_heads hl
  have happly := Family.under_middle (f := List.dropLast) hw.nodup
  have hmembers := Family.members_middle hw.nodup
  rcases List.eq_nil_or_concat' xs with rfl | ⟨xs, n, rfl⟩
  · refine ⟨m, ?_, by rwa [Edit.apply, happly], .refl _ _⟩
    rw [Edit.run, Edit.answer, hmembers, hw.popBack_nil ha, List.getLast?_nil]
  · obtain ⟨m', hrun, hw', hagree⟩ := hw.popBack ha
    have hanswer : (Edit.popBack h).answer (F₁ ++ (h, xs ++ [n]) :: F₂) = some n := by
      rw [Edit.answer, hmembers, List.getLast?_concat]
    rw [List.dropLast_concat] at happly
    exact ⟨m', @Edit.Done.of_remove a m h n xs [] _ F₁ F₂ (.popBack h) m' rfl (hanswer ▸ hrun)
      (by rwa [List.append_nil]) (fun i hi => ⟨n, hanswer, hi⟩)
        ⟨by rwa [List.append_nil], hagree⟩⟩

/-- **A legal edit does in memory what it does to the lists.** -/
theorem done (e : Edit) (hl : e.Legal a F) : ∃ m', e.Done a m F m' := by
  cases e with
  | init h => exact done_init ha hw hl
  | pushFront h n => exact done_pushFront ha hw hl
  | pushBack h n => exact done_pushBack ha hw hl
  | insertAfter n r => exact done_insertAfter ha hw hl
  | insertBefore n r => exact done_insertBefore ha hw hl
  | remove n => exact done_remove ha hw hl
  | popFront h => exact done_popFront ha hw hl
  | popBack h => exact done_popBack ha hw hl

end WellFormed

theorem Family.mem_under {c : NodeIndex × List NodeIndex} {f : List NodeIndex → List NodeIndex}
    (hc : c ∈ F) (hne : h ≠ c.1) : c ∈ F.under h f :=
  List.mem_map.mpr ⟨c, hc, if_neg (Ne.symm hne)⟩

theorem Family.mem_inside {c : NodeIndex × List NodeIndex} {f : List NodeIndex → List NodeIndex}
    (hc : c ∈ F) (hf : f c.2 = c.2) : c ∈ F.inside f :=
  List.mem_map.mpr ⟨c, hc, by rw [hf]⟩

/-- Chains without the target of an edit stay in the family. -/
theorem Edit.mem_apply {c : NodeIndex × List NodeIndex} (e : Edit) (hc : c ∈ F)
    (he : e.target ∉ c.1 :: c.2) : c ∈ e.apply F := by
  obtain ⟨hne, hmem⟩ := List.ne_and_not_mem_of_not_mem_cons he
  cases e with
  | init h =>
    rw [apply]
    split
    · exact hc
    · exact List.mem_cons_of_mem _ hc
  | pushFront h n => exact Family.mem_under hc hne
  | pushBack h n => exact Family.mem_under (f := (· ++ [n])) hc hne
  | insertAfter n r =>
    exact Family.mem_under (Family.mem_inside hc (flatMap_of_not_mem hmem)) hne
  | insertBefore n r =>
    exact Family.mem_under (f := (· ++ [n])) (Family.mem_inside hc (flatMap_of_not_mem hmem)) hne
  | remove n => exact Family.mem_inside (f := (·.erase n)) hc (List.erase_of_not_mem hmem)
  | popFront h => exact Family.mem_under hc hne
  | popBack h => exact Family.mem_under hc hne

/-- Taking an end of an empty chain off replies with nothing and writes nothing. -/
theorem Edit.Done.idle {e : Edit} {m' : Memory} (ha : a.Separated) (hw : WellFormed a m F)
    (hd : e.Done a m F m') (hc : (h, []) ∈ F) (he : e = .popFront h ∨ e = .popBack h) :
    e.answer F = none ∧ m' = m := by
  obtain ⟨F₁, F₂, rfl⟩ := List.append_of_mem hc
  have hrun : e.run a m = .ok (none, m) := by
    rcases he with rfl | rfl
    · exact hw.popFront_nil ha
    · exact hw.popBack_nil ha
  rw [hd.run_eq, Except.ok.injEq, Prod.mk.injEq] at hrun
  exact hrun

/-- An edit that is done has the outcome it has on the lists. -/
theorem Edit.Done.outcome {e : Edit} {m' : Memory} (ha : a.Separated) (hw : WellFormed a m F)
    (hd : e.Done a m F m') : e.Outcome a m F m' where
  run_eq := hd.run_eq
  shows _ hc := hd.wellFormed.shows ha hc
  others _ hc he := e.mem_apply hc he
  writes := hd.writes
  idle _ hc he := hd.idle ha hw hc he

/-! ### Runs -/

/-- A legal sequence keeps the family well formed and answers as on the lists. -/
theorem WellFormed.runAll (ha : a.Separated) (hw : WellFormed a m F) (es : List Edit)
    (hl : Edit.LegalAll a F es) : ∃ m', Edit.runAll a m es = .ok (Edit.answers F es, m') ∧
      WellFormed a m' (Edit.applyAll F es) := by
  induction es generalizing m F with
  | nil => exact ⟨m, rfl, hw⟩
  | cons e es ih =>
    obtain ⟨m₁, hd⟩ := hw.done ha e hl.1
    obtain ⟨m₂, hrun, hw'⟩ := ih hd.wellFormed hl.2
    refine ⟨m₂, ?_, hw'⟩
    simp only [Edit.runAll, hd.run_eq, hrun, bind, Except.bind]
    rfl

/-- **The chains of an arena refine lists.** In an arena made of runs of nodes that lie apart, from
any family of disjoint chains, every legal sequence of edits succeeds with the replies it has on the
lists, every chain then shows its list, and every further legal edit has its outcome. -/
theorem edits_refine {runs : List Host.NodeRun} (ha : Host.registerAll {} runs = .ok a)
    (hfits : ∀ run ∈ runs, run.Fits) (hapart : runs.Pairwise Host.NodeRun.Apart)
    (hw : WellFormed a m F) (es : List Edit) (hl : Edit.LegalAll a F es) :
    ∃ m', Edit.runAll a m es = .ok (Edit.answers F es, m') ∧
      (∀ c ∈ Edit.applyAll F es, Shows a m' c.1 c.2) ∧
      ∀ e : Edit, e.Legal a (Edit.applyAll F es) →
        ∃ m'', e.Outcome a m' (Edit.applyAll F es) m'' := by
  have hsep := Arena.separated_of_registerAll ha hfits hapart
  obtain ⟨m', hrun, hw'⟩ := hw.runAll hsep es hl
  refine ⟨m', hrun, fun c hc => hw'.shows hsep hc, fun e he => ?_⟩
  obtain ⟨m'', hd⟩ := hw'.done hsep e he
  exact ⟨m'', hd.outcome hsep hw'⟩

/-- Four nodes from two runs: the last member of the chain of the first node is taken off, between
two heads that were made after it. -/
theorem edits_refine_two_runs :
    ∃ a, Host.registerAll {} [⟨0x2000, 24, 3⟩, ⟨0x1000, 276, 2⟩] = .ok a ∧
      ∃ m', Edit.runAll a Memory.zero [.init 0, .pushFront 0 3, .insertAfter 4 3, .init 1,
          .insertBefore 2 4, .remove 3, .popBack 0, .popFront 1] =
        .ok ([none, none, none, none, none, none, some 4, none], m') ∧
        Shows a m' 0 [2] ∧ Shows a m' 1 [] := by
  have ha : Host.registerAll {} [⟨0x2000, 24, 3⟩, ⟨0x1000, 276, 2⟩] =
      .ok ⟨[⟨0x2000, 24, 0, 3⟩, ⟨0x1000, 276, 3, 2⟩], 5⟩ := rfl
  obtain ⟨m', hrun, hshows, -⟩ := edits_refine (m := Memory.zero) (F := []) ha (by decide)
    (by decide) .nil
    [.init 0, .pushFront 0 3, .insertAfter 4 3, .init 1, .insertBefore 2 4, .remove 3, .popBack 0,
      .popFront 1] (by decide)
  exact ⟨_, ha, m', hrun, hshows (0, [2]) (by decide), hshows (1, []) (by decide)⟩

end InterCore.Chain
