import InterCore.Proofs.Custody

/-!
# Handling of boxes

The application makes boxes, around nodes that are nowhere else or from the content of other boxes;
it assigns, releases and destroys them, and sends them through the inboxes. However it does this,
every buffer is given back once: when the box that owns it is released, overwritten or destroyed,
and not before. At the end a shutdown gives back what is left.

## Main definitions

* `BoxStep`: what the application does to its boxes; `BoxStep.drops`: the buffer it gives back.
* `Handling`: boards that follow one another by such steps; `BoxStep.replay`: trying steps out.
* `Usage`: the boards of the two cores, with boxes made in between.

## Main results

* `BoxStep.keeps`: a step keeps every buffer in one place.
* `Handling.keeps`: so do many steps, and they give back each buffer at most once.
* `Board.boxes_drop_once`: both, and the shutdown after them.
-/

namespace InterCore

open Memory

variable {σ : Type}

/-! ### Nodes that lists lead to -/

namespace Chain

variable {a : Arena} {m : Memory} {h i n : NodeIndex} {xs : List NodeIndex}

/-- The forward links lead from a node to all that follow it. -/
theorem exists_iterate_of_mem (hl : (i :: xs).IsChain (Joined a m)) (hn : n ∈ i :: xs) :
    ∃ j, m.next^[j] (a.locate i) = a.locate n := by
  induction xs generalizing i with
  | nil =>
    rw [List.mem_singleton.mp hn]
    exact ⟨0, rfl⟩
  | cons x xs ih =>
    obtain ⟨hstep, hl⟩ := List.isChain_cons_cons.mp hl
    rcases List.mem_cons.mp hn with rfl | hn
    · exact ⟨0, rfl⟩
    · obtain ⟨j, hj⟩ := ih hl hn
      exact ⟨j + 1, by rw [Function.iterate_succ_apply, hstep.next, hj]⟩

/-- The forward links of a head lead to nothing but the head and its members. -/
theorem Represents.mem_of_iterate (hr : Represents a m h xs) (j : Nat) :
    ∃ n ∈ h :: xs, m.next^[j] (a.locate h) = a.locate n := by
  induction j with
  | zero => exact ⟨h, List.mem_cons_self, rfl⟩
  | succ j ih =>
    obtain ⟨i, hi, hlocate⟩ := ih
    rw [Function.iterate_succ_apply', hlocate]
    rcases List.mem_cons.mp hi with rfl | hmem
    · exact ⟨_, by cases xs <;> simp, hr.joined_first.next⟩
    · obtain ⟨ys, zs, rfl⟩ := List.append_of_mem hmem
      exact ⟨_, by cases zs <;> simp, hr.joined_member.2.next⟩

end Chain

namespace Board

/-- The forward links of one of the heads lead to a node. -/
def Linked (heads : List NodeIndex) (b : Board σ) (n : NodeIndex) : Prop :=
  ∃ h ∈ heads, ∃ j, b.memory.next^[j] (b.host.arena.locate h) = b.host.arena.locate n

/-- The links lead to what the lists hold. -/
theorem Lists.linked_iff {k : NodeLists} {given : List NodeIndex} {b : Board σ} {n : NodeIndex}
    (h : b.Lists k given) (hn : k.arena.Has n) : b.Linked k.heads n ↔ n ∈ k.listed given := by
  obtain ⟨free, waiting, rfl, hw⟩ := h.chains
  have hheads : k.heads = (k.family free waiting).map Prod.fst := rfl
  rw [Linked, h.arena, hheads, ← (NodeLists.nodes_family free waiting).mem_iff]
  constructor
  · rintro ⟨_, hhead, j, hj⟩
    obtain ⟨c, hc, rfl⟩ := List.mem_map.mp hhead
    obtain ⟨i, hi, hlocate⟩ := (hw.represents c hc).mem_of_iterate j
    rw [hj, h.separated.locate_inj hn (hw.has_of_mem hc hi)] at hlocate
    exact Chain.Family.mem_nodes_of_mem hc (hlocate ▸ hi)
  · intro hmem
    obtain ⟨c, hc, hi⟩ := List.mem_flatMap.mp hmem
    have hi' : n ∈ c.1 :: (c.2 ++ [c.1]) :=
      ((List.sublist_append_left c.2 [c.1]).cons_cons c.1).subset hi
    exact ⟨c.1, List.mem_map_of_mem hc, Chain.exists_iterate_of_mem (hw.represents c hc) hi'⟩

end Board

/-! ### Steps -/

/-- A box around a registered node owns the node. -/
theorem Arena.Separated.around_eq {a : Arena} {n : NodeIndex} (ha : a.Separated) (hn : a.Has n) :
    Box.around n = Box.holding (some n) := by
  have hne : n ≠ NodeIndex.none := by
    rintro rfl
    obtain ⟨r, hr, hholds⟩ := hn
    have hlt := (Region.holds_iff.mp hholds).2
    have hle := (ha.fits r hr).index_le
    rw [show NodeIndex.none.toNat = 65535 from rfl] at hlt
    omega
  rw [Box.around, NodeIndex.toOption, if_neg hne]
  rfl

theorem Box.bound_holding (o : Option NodeIndex) :
    (Box.holding o).node = none ↔ (Box.holding o).bound = false := by
  cases o <;> simp [holding, empty]

/-- Move the content of a box of the application to the end of an inbox, unless it is full. The
counter moves on last, from where it was at the start. -/
def Host.pushBox (observer : Observer σ) (e : Endpoint) (i : Nat) : BoardM σ Bool := do
  let ring ← inbox e
  if ring.isFull then
    return false
  moveBox observer (.application i) (.inbox e ring.tail)
  modifyInbox e fun r => { r with tail := ring.tail + 1 }
  return true

/-- What the application does to its boxes. -/
inductive BoxStep where
  /-- Make an empty box. -/
  | new
  /-- Make a box around a node. -/
  | wrap (n : NodeIndex)
  /-- Make a box from the content of another one. -/
  | construct (i : Nat)
  /-- Assign the content of the first box to the second one, which may be the same. -/
  | assign (i j : Nat)
  | release (i : Nat)
  | destroy (i : Nat)
  /-- Move the content of a box to the end of an inbox. -/
  | push (e : Endpoint) (i : Nat)
  /-- Move the oldest content of an inbox into a box. -/
  | pop (e : Endpoint) (i : Nat)
  deriving DecidableEq, Repr

namespace BoxStep

/-- The program of a step. -/
def run (observer : Observer σ) : BoxStep → BoardM σ Answer
  | new => .ofUnit <$> Host.newBox Box.empty
  | wrap n => .ofUnit <$> Host.newBox (Box.around n)
  | construct i => .ofUnit <$> Host.constructBox i
  | assign i j => .ofUnit <$> Host.moveBox observer (.application i) (.application j)
  | release i => .ofUnit <$> Host.releaseBox observer (.application i)
  | destroy i => .ofUnit <$> Host.destroyBox observer i
  | push e i => .flag <$> Host.pushBox observer e i
  | pop e i => .flag <$> Host.takeEvent observer e i

/-- The boxes that a step names. -/
def boxes : BoxStep → List Nat
  | new | wrap _ => []
  | construct i | release i | destroy i | push _ i | pop _ i => [i]
  | assign i j => [i, j]

/-- The boxes of a step exist, and a node that gets a box is registered, in no box and in none of
the lists with the given heads. -/
def Permitted (heads : List NodeIndex) (b : Board σ) : BoxStep → Prop
  | wrap n => b.host.arena.Has n ∧ n ∉ b.boxed ∧ ¬ b.Linked heads n
  | s => ∀ i ∈ s.boxes, i < b.boxes.size

/-- The node that gets a box. -/
def wraps : BoxStep → Option NodeIndex
  | wrap n => some n
  | _ => none

/-- The box that is released, overwritten or destroyed. -/
def target (b : Board σ) : BoxStep → Option Nat
  | release i | destroy i => some i
  | assign i j => if i = j then none else some j
  | pop e i => if (b.host.receiver e).inbox.isEmpty then none else some i
  | new | wrap _ | construct _ | push _ _ => none

/-- The buffer that a step gives back: what is in the box that it releases, overwrites or
destroys. -/
def drops (b : Board σ) (s : BoxStep) : Option NodeIndex :=
  (s.target b).bind fun i => (b.boxAt (.application i)).node

end BoxStep

namespace Board

/-- Every buffer is in one place, and the slots of an inbox are empty outside its live window. -/
structure AtRest (k : NodeLists) (all given : List NodeIndex) (b : Board σ) : Prop where
  custody : b.InCustody k all given []
  window : ∀ e, ∃ xs, (b.host.receiver e).inbox.Holds Box.empty xs

/-- The program finishes, gives back the buffer that it drops, and the observer is told of it. -/
def Settles {α : Type} (k : NodeLists) (note : Event → σ → σ) (x : BoardM σ α) (b : Board σ)
    (all given : List NodeIndex) (dropped : Option NodeIndex) : Prop :=
  ∃ r b', x.run b = .ok r b' ∧ b'.AtRest k all (given ++ dropped.toList) ∧
    Event.Tells note dropped.toList.length b.sink b'.sink

theorem Settles.map {α β : Type} {k : NodeLists} {note : Event → σ → σ} {x : BoardM σ α}
    {b : Board σ} {all given : List NodeIndex} {dropped : Option NodeIndex}
    (h : Settles k note x b all given dropped) (f : α → β) :
    Settles k note (f <$> x) b all given dropped := by
  obtain ⟨r, b', hrun, hrest⟩ := h
  exact ⟨f r, b', by rw [map_eq_pure_bind, run_bind_ok hrun, EStateM.run_pure], hrest⟩

namespace AtRest

variable {k : NodeLists} {all given : List NodeIndex} {b b' : Board σ} {i j : Nat}
  {n : NodeIndex} {e : Endpoint} {note : Event → σ → σ}

/-- The same inboxes, and boxes in custody. -/
theorem of_inbox (h : b.AtRest k all given) {given' : List NodeIndex}
    (hcustody : b'.InCustody k all given' [])
    (hinbox : ∀ e, (b'.host.receiver e).inbox = (b.host.receiver e).inbox) :
    b'.AtRest k all given' :=
  ⟨hcustody, fun e => by rw [hinbox]; exact h.window e⟩

theorem newBox (h : b.AtRest k all given) :
    Settles k note (Host.newBox Box.empty) b all given none := by
  refine ⟨(), { b with boxes := b.boxes.push Box.empty }, rfl, ?_, .refl _⟩
  rw [Option.toList_none, List.append_nil]
  exact ⟨h.custody.newBox [] Box.empty (by decide), h.window⟩

/-- A box is made around a node that is nowhere else. -/
theorem wrapBox (h : b.AtRest k all given) (hs : (BoxStep.wrap n).Permitted k.heads b) :
    Settles k note (Host.newBox (Box.around n)) b (all ++ [n]) given none := by
  obtain ⟨hn, hboxed, hlinked⟩ := hs
  rw [h.custody.lists.arena] at hn
  rw [h.custody.lists.linked_iff hn] at hlinked
  have henlarged := h.custody.enlarge hn List.not_mem_nil hboxed hlinked
  refine ⟨(), { b with boxes := b.boxes.push (Box.around n) }, rfl, ?_, .refl _⟩
  rw [Option.toList_none, List.append_nil, h.custody.lists.separated.around_eq hn]
  exact ⟨henlarged.newBox [] (Box.holding (some n)) (Box.bound_holding _), h.window⟩

theorem constructBox (h : b.AtRest k all given) (hi : i < b.boxes.size) :
    Settles k note (Host.constructBox i) b all given none := by
  have htaken := h.custody.emptyBox (r := .application i) hi
  refine ⟨(), _, rfl, ?_, .refl _⟩
  rw [Option.toList_none, List.append_nil]
  exact ⟨htaken.newBox [] (b.boxAt (.application i)) (h.custody.bound _), h.window⟩

theorem releaseBox (h : b.AtRest k all given) (hi : i < b.boxes.size) :
    Settles k note (Host.releaseBox (Observer.passive note) (.application i)) b all given
      (b.boxAt (.application i)).node := by
  obtain ⟨b', hrun, hcustody, hsame, htells⟩ :=
    h.custody.releaseBox note (r := .application i) hi
  exact ⟨(), b', hrun, h.of_inbox hcustody hsame.inbox, htells⟩

theorem assignBox (h : b.AtRest k all given) (hi : i < b.boxes.size) (hj : j < b.boxes.size) :
    Settles k note (Host.moveBox (Observer.passive note) (.application i) (.application j)) b all
      given ((BoxStep.assign i j).drops b) := by
  rw [BoxStep.drops, BoxStep.target]
  by_cases hij : i = j
  · refine ⟨(), b, ?_, ?_, ?_⟩
    · rw [Host.moveBox, if_neg fun hne => hne (congrArg _ hij)]
      rfl
    · rwa [if_pos hij, Option.bind_none, Option.toList_none, List.append_nil]
    · rw [if_pos hij]
      exact .refl _
  · rw [if_neg hij, Option.bind_some]
    have hsource : b.HasBox (.application i) := hi
    have htarget : b.HasBox (.application j) := hj
    obtain ⟨b', hrun, hcustody, hsame, htells⟩ := h.custody.moveBox note hsource htarget
      fun heq => hij (BoxRef.application.inj heq)
    exact ⟨(), b', hrun, h.of_inbox hcustody hsame.inbox, htells⟩

theorem destroyBox (h : b.AtRest k all given) (hi : i < b.boxes.size) :
    Settles k note (Host.destroyBox (Observer.passive note) i) b all given
      (b.boxAt (.application i)).node := by
  obtain ⟨b₁, hrun, hcustody, hsame, htells⟩ :=
    h.custody.releaseBox note (r := .application i) hi
  have hnone : (b₁.boxAt (.application i)).node = none := by
    rw [hsame.boxAt, boxAt_putBox (show b.HasBox (.application i) from hi), if_pos rfl]
    rfl
  refine ⟨(), { b₁ with boxes := b₁.boxes.eraseIdxIfInBounds i }, ?_,
    h.of_inbox (hcustody.eraseBox hnone) hsame.inbox, htells⟩
  rw [Host.destroyBox, run_bind_ok hrun]
  rfl

/-- A counter of an inbox moves on. -/
theorem withInbox (h : b.InCustody k all given []) {ring : Inbox} {xs : List Box}
    (hslots : ring.slots = (b.host.receiver e).inbox.slots) (hholds : ring.Holds Box.empty xs)
    (hother : ∀ e' ≠ e, ∃ xs, (b.host.receiver e').inbox.Holds Box.empty xs) :
    AtRest k all given { b with host := b.host.withInbox e ring } := by
  refine ⟨h.withInbox hslots, fun e' => ?_⟩
  by_cases he : e' = e
  · subst he
    exact ⟨xs, by rwa [Host.receiver_withInbox]⟩
  · obtain ⟨ys, hys⟩ := hother e' he
    exact ⟨ys, by rwa [Host.receiver_withInbox_of_ne he]⟩

/-- **The content of a box moves to the end of an inbox**, into a slot that is empty. -/
theorem pushBox (h : b.AtRest k all given) (hi : i < b.boxes.size) :
    Settles k note (Host.pushBox (Observer.passive note) e i) b all given none := by
  obtain ⟨xs, hholds⟩ := h.window e
  have hfull := hholds.isFull_eq (by decide)
  by_cases hroom : xs.length = ringCapacity 5
  · rw [decide_eq_true hroom] at hfull
    refine ⟨false, b, ?_, ?_, .refl _⟩
    · rw [Host.pushBox, run_bind_ok (Host.run_inbox e b), if_pos hfull, EStateM.run_pure]
    · rwa [Option.toList_none, List.append_nil]
  · rw [decide_eq_false hroom] at hfull
    have hlt := Nat.lt_of_le_of_ne hholds.length_le hroom
    have hslot : b.boxAt (.inbox e (b.host.receiver e).inbox.tail) = Box.empty :=
      hholds.slot_tail hlt
    have hsource : b.HasBox (.application i) := hi
    have htarget : b.HasBox (.inbox e (b.host.receiver e).inbox.tail) := trivial
    obtain ⟨b₁, hrun, hcustody, hsame, htells⟩ :=
      h.custody.moveBox note hsource htarget BoxRef.noConfusion
    have hpush := hholds.push (by decide) hlt (b.boxAt (.application i))
    rw [hslot] at hcustody htells
    rw [← hslot, putBox_self] at hsame
    have hinbox : (b₁.host.receiver e).inbox = (b.host.receiver e).inbox.setSlot
        (b.host.receiver e).inbox.tail (b.boxAt (.application i)) := by
      rw [hsame.inbox]
      simp only [putBox, Host.receiver_withInbox]
    refine ⟨true, _, ?_, withInbox (e := e) hcustody ?_ hpush fun e' he => ?_, htells⟩
    · rw [Host.pushBox, run_bind_ok (Host.run_inbox e b), hfull, if_neg Bool.false_ne_true,
        run_bind_ok hrun, run_bind_ok (Host.run_modifyInbox e b₁ _), EStateM.run_pure, hinbox]
    · rw [hinbox]
    · rw [hsame.inbox]
      simp only [putBox, Host.receiver_withInbox_of_ne he]
      exact h.window e'

/-- **The oldest content of an inbox moves into a box**, which first gives back what it owned. -/
theorem takeEvent (h : b.AtRest k all given) (hi : i < b.boxes.size) :
    Settles k note (Host.takeEvent (Observer.passive note) e i) b all given
      ((BoxStep.pop e i).drops b) := by
  obtain ⟨xs, hholds⟩ := h.window e
  have hempty := hholds.isEmpty_eq (by decide)
  rw [BoxStep.drops, BoxStep.target, hempty]
  cases xs with
  | nil =>
    refine ⟨false, b, ?_, ?_, .refl _⟩
    · rw [Host.takeEvent, run_bind_ok (Host.run_inbox e b), hempty, List.isEmpty_nil, if_pos rfl,
        EStateM.run_pure]
    · rw [List.isEmpty_nil, if_pos rfl, Option.bind_none, Option.toList_none, List.append_nil]
      exact h
  | cons x xs =>
    rw [List.isEmpty_cons, if_neg Bool.false_ne_true, Option.bind_some]
    have hsource : b.HasBox (.inbox e (b.host.receiver e).inbox.head) := trivial
    have htarget : b.HasBox (.application i) := hi
    obtain ⟨b₁, hrun, hcustody, hsame, htells⟩ :=
      h.custody.moveBox note hsource htarget BoxRef.noConfusion
    have hpop := hholds.pop (by decide)
    have hinbox : (b₁.host.receiver e).inbox = (b.host.receiver e).inbox.setSlot
        (b.host.receiver e).inbox.head Box.empty := by
      rw [hsame.inbox]
      simp only [putBox, Host.receiver_withInbox]
    refine ⟨true, _, ?_, withInbox (e := e) hcustody ?_ hpop fun e' he => ?_, htells⟩
    · rw [Host.takeEvent, run_bind_ok (Host.run_inbox e b), hempty, List.isEmpty_cons,
        if_neg Bool.false_ne_true, run_bind_ok hrun, run_bind_ok (Host.run_modifyInbox e b₁ _),
        EStateM.run_pure, hinbox]
    · rw [hinbox]
    · rw [hsame.inbox]
      simp only [putBox, Host.receiver_withInbox_of_ne he]
      exact h.window e'

end AtRest

end Board

/-- **A step finishes, and gives back what is in the box that it releases, overwrites or
destroys.** -/
theorem BoxStep.keeps {k : NodeLists} {all given : List NodeIndex} {b : Board σ}
    {note : Event → σ → σ} (h : b.AtRest k all given) {s : BoxStep} (hs : s.Permitted k.heads b) :
    b.Settles k note (s.run (Observer.passive note)) (all ++ s.wraps.toList) given (s.drops b) := by
  have hsame : ∀ {o : Option NodeIndex}, o = none → all ++ o.toList = all := by
    rintro _ rfl
    exact List.append_nil all
  cases s with
  | wrap n => exact (h.wrapBox hs).map _
  | new => exact (hsame rfl ▸ h.newBox).map _
  | construct i => exact (hsame rfl ▸ h.constructBox (hs i List.mem_cons_self)).map _
  | assign i j =>
    exact (hsame rfl ▸ h.assignBox (hs i List.mem_cons_self)
      (hs j (List.mem_cons_of_mem _ List.mem_cons_self))).map _
  | release i => exact (hsame rfl ▸ h.releaseBox (hs i List.mem_cons_self)).map _
  | destroy i => exact (hsame rfl ▸ h.destroyBox (hs i List.mem_cons_self)).map _
  | push e i => exact (hsame rfl ▸ h.pushBox (hs i List.mem_cons_self)).map _
  | pop e i => exact (hsame rfl ▸ h.takeEvent (hs i List.mem_cons_self)).map _

/-! ### Many steps -/

/-- One step of many. -/
structure BoxTurn where
  step : BoxStep
  /-- The buffer that it gave back. -/
  dropped : Option NodeIndex

/-- The nodes that got a box. -/
def BoxTurn.wrapped (ts : List BoxTurn) : List NodeIndex := ts.filterMap (·.step.wraps)

/-- The buffers that were given back, in order. -/
def BoxTurn.given (ts : List BoxTurn) : List NodeIndex := ts.filterMap (·.dropped)

theorem BoxTurn.given_concat (ts : List BoxTurn) (t : BoxTurn) :
    given (ts ++ [t]) = given ts ++ t.dropped.toList := by
  rw [given, List.filterMap_append, given]
  cases hd : t.dropped <;> simp [hd]

/-- Permitted steps lead from one board to another. -/
inductive Handling (note : Event → σ → σ) (heads : List NodeIndex) (b₀ : Board σ) :
    List BoxTurn → Board σ → Prop
  | start : Handling note heads b₀ [] b₀
  | step {ts : List BoxTurn} {b b' : Board σ} {s : BoxStep} {r : Answer}
      (hbefore : Handling note heads b₀ ts b) (hs : s.Permitted heads b)
      (hrun : (s.run (Observer.passive note)).run b = .ok r b') :
      Handling note heads b₀ (ts ++ [⟨s, s.drops b⟩]) b'

/-- **Many steps keep every buffer in one place.** -/
theorem Handling.keeps {k : NodeLists} {all given : List NodeIndex} {b₀ b : Board σ}
    {note : Event → σ → σ} {ts : List BoxTurn} (h₀ : b₀.AtRest k all given)
    (h : Handling note k.heads b₀ ts b) :
    b.AtRest k (all ++ BoxTurn.wrapped ts) (given ++ BoxTurn.given ts) ∧
      Event.Tells note (BoxTurn.given ts).length b₀.sink b.sink := by
  induction h with
  | start =>
    refine ⟨?_, .refl _⟩
    simpa only [BoxTurn.wrapped, BoxTurn.given, List.filterMap_nil, List.append_nil] using h₀
  | @step ts b b' s r _ hs hrun ih =>
    obtain ⟨hrest, htells⟩ := ih
    obtain ⟨r', b'', hrun', hrest', htells'⟩ := BoxStep.keeps hrest hs
    rw [hrun] at hrun'
    injection hrun' with _ hb
    subst hb
    have hwrapped : BoxTurn.wrapped (ts ++ [⟨s, s.drops b⟩]) =
        BoxTurn.wrapped ts ++ s.wraps.toList := by
      rw [BoxTurn.wrapped, List.filterMap_append, BoxTurn.wrapped]
      cases hw : s.wraps <;> simp [hw]
    rw [hwrapped, BoxTurn.given_concat, ← List.append_assoc, ← List.append_assoc,
      List.length_append]
    exact ⟨hrest', htells.trans htells'⟩

/-! ### Steps that are tried out -/

namespace BoxStep

/-- A step is permitted where the lists are known, and `given` has been given back. -/
def Admitted (k : NodeLists) (given : List NodeIndex) (b : Board σ) : BoxStep → Prop
  | wrap n => k.arena.Has n ∧ n ∉ b.boxed ∧ n ∉ k.listed given
  | s => ∀ i ∈ s.boxes, i < b.boxes.size

instance (k : NodeLists) (given : List NodeIndex) (b : Board σ) (s : BoxStep) :
    Decidable (s.Admitted k given b) :=
  match s with
  | wrap n => inferInstanceAs (Decidable (k.arena.Has n ∧ n ∉ b.boxed ∧ n ∉ k.listed given))
  | new => inferInstanceAs (Decidable (∀ i ∈ [], i < b.boxes.size))
  | construct i | release i | destroy i | push _ i | pop _ i =>
    inferInstanceAs (Decidable (∀ j ∈ [i], j < b.boxes.size))
  | assign i j => inferInstanceAs (Decidable (∀ l ∈ [i, j], l < b.boxes.size))

/-- Perform steps one after the other, as long as each is permitted. -/
def replay (observer : Observer σ) (k : NodeLists) :
    List NodeIndex → List BoxStep → Board σ → Option (List BoxTurn × Board σ)
  | _, [], b => some ([], b)
  | given, s :: ss, b =>
    if s.Admitted k given b then
      match (s.run observer).run b with
      | .ok _ b' =>
        (replay observer k (given ++ (s.drops b).toList) ss b').map fun (ts, b'') =>
          (⟨s, s.drops b⟩ :: ts, b'')
      | .error _ _ => none
    else none

end BoxStep

theorem Board.AtRest.permitted_iff {k : NodeLists} {all given : List NodeIndex} {b : Board σ}
    (h : b.AtRest k all given) (s : BoxStep) : s.Permitted k.heads b ↔ s.Admitted k given b := by
  cases s with
  | wrap n =>
    rw [BoxStep.Permitted, BoxStep.Admitted, h.custody.lists.arena]
    exact and_congr_right fun hn => and_congr_right fun _ =>
      not_congr (h.custody.lists.linked_iff hn)
  | new | construct | assign | release | destroy | push | pop => exact .rfl

/-- Steps that were tried out are a handling. -/
theorem Handling.replay {k : NodeLists} {all given : List NodeIndex} {b₀ b b' : Board σ}
    {note : Event → σ → σ} {ts ts' : List BoxTurn} {ss : List BoxStep}
    (h₀ : b₀.AtRest k all given) (h : Handling note k.heads b₀ ts b)
    (hreplay : BoxStep.replay (Observer.passive note) k (given ++ BoxTurn.given ts) ss b =
      some (ts', b')) :
    Handling note k.heads b₀ (ts ++ ts') b' ∧ ts'.map (·.step) = ss := by
  induction ss generalizing ts ts' b with
  | nil =>
    obtain ⟨rfl, rfl⟩ := Prod.mk.inj (Option.some.inj hreplay)
    exact ⟨by rwa [List.append_nil], rfl⟩
  | cons s ss ih =>
    rw [BoxStep.replay, Option.ite_none_right_eq_some] at hreplay
    obtain ⟨hs, hreplay⟩ := hreplay
    split at hreplay
    · next r b₁ hrun =>
      obtain ⟨⟨ts₁, b₂⟩, hrest, heq⟩ := Option.map_eq_some_iff.mp hreplay
      obtain ⟨rfl, rfl⟩ := Prod.mk.inj heq
      have hstep := h.step (((h.keeps h₀).1.permitted_iff s).mpr hs) hrun
      rw [List.append_assoc] at hrest
      obtain ⟨h', hsteps⟩ := ih hstep (by rwa [BoxTurn.given_concat])
      rw [List.append_assoc, List.singleton_append] at h'
      exact ⟨h', by rw [List.map_cons, hsteps]⟩
    · cases hreplay

/-! ### Boards that show an account -/

namespace Ring

variable {α : Type} {bits : Nat}

/-- As many counters as there are slots stand for every slot once. -/
theorem perm_slots (hbits : bits ≤ 63) (r : Ring α bits) (c c' : UInt64) :
    ((List.range (ringCapacity bits)).map fun i => r.slot (c + UInt64.ofNat i)).Perm
      ((List.range (ringCapacity bits)).map fun i => r.slot (c' + UInt64.ofNat i)) := by
  let indices (c : UInt64) : List (Fin (ringCapacity bits)) :=
    (List.range (ringCapacity bits)).map fun i => index bits (c + UInt64.ofNat i)
  have hnodup : ∀ c, (indices c).Nodup := fun c =>
    List.nodup_range.map_on fun i hi j hj hij =>
      (index_add_inj hbits c (List.mem_range.mp hi) (List.mem_range.mp hj)).mp hij
  have hall : ∀ c j, j ∈ indices c := by
    intro c j
    have hinj : Function.Injective fun i : Fin (ringCapacity bits) =>
        index bits (c + UInt64.ofNat i.val) := fun i i' hii' =>
      Fin.val_inj.mp ((index_add_inj hbits c i.isLt i'.isLt).mp hii')
    obtain ⟨i, hi⟩ := Finite.injective_iff_surjective.mp hinj j
    exact List.mem_map.mpr ⟨i.val, List.mem_range.mpr i.isLt, hi⟩
  have hperm : (indices c).Perm (indices c') :=
    (List.perm_ext_iff_of_nodup (hnodup c) (hnodup c')).mpr fun j =>
      iff_of_true (hall c j) (hall c' j)
  have := hperm.map fun j => r.slots[j]
  simp only [indices, List.map_map] at this
  exact this

/-- The slots of a ring hold its elements and blanks. -/
theorem Holds.map_slot {blank : α} {r : Ring α bits} {xs : List α} (h : r.Holds blank xs) :
    ((List.range (ringCapacity bits)).map fun i => r.slot (r.head + UInt64.ofNat i)) =
      xs ++ List.replicate (ringCapacity bits - xs.length) blank := by
  refine List.ext_getElem ?_ fun i hi _ => ?_
  · rw [List.length_map, List.length_range, List.length_append, List.length_replicate,
      Nat.add_sub_cancel' h.length_le]
  · rw [List.length_map, List.length_range] at hi
    rw [List.getElem_map, List.getElem_range, h.slot i hi, List.getElem_append]
    split
    · next hlt => rw [List.getElem?_eq_getElem hlt, Option.getD_some]
    · next hge => rw [List.getElem?_eq_none (Nat.not_lt.mp hge), Option.getD_none,
        List.getElem_replicate]

end Ring

namespace Account

variable (p : Placement) (sw : Switches) (s : Account σ)

/-- The lists of an account. -/
def lists : NodeLists := p.lists sw.traces s.line

/-- The buffers of an account that were given back. -/
def given : List NodeIndex := s.line (.shared .free) ++ s.line .waiting

variable {p sw s}

theorem heads_lists : (s.lists p sw).heads.Perm ((Line.made sw.traces).map Line.head) := by
  rw [NodeLists.heads, lists, Placement.lists, List.map_map]
  exact ((Line.made_perm sw.traces).map Line.head).symm

end Account

namespace Board.Shows

variable {p : Placement} {sw : Switches} {b : Board σ} {s : Account σ} (h : b.Shows p sw s)
include h

theorem lists : b.Lists (s.lists p sw) s.given :=
  ⟨h.host.arena, h.host.freeQueue, h.host.localQueue, h.valid.separated, _, _, rfl,
    h.carries.chains.perm (chains_perm _ _ _)⟩

/-- The counters of an inbox may start anywhere. -/
theorem perm_slots_inbox (e : Endpoint) (c : UInt64) :
    ((List.range 32).map fun i => (b.host.receiver e).inbox.slot (c + UInt64.ofNat i)).Perm
      ((s.inbox e).map (fun n => Box.holding (some n)) ++
        List.replicate (32 - (s.inbox e).length) Box.empty) := by
  refine (Ring.perm_slots (by decide) _ c (b.host.receiver e).inbox.head).trans (.of_eq ?_)
  rw [(h.inbox e).map_slot, List.length_map]
  rfl

/-- The boxes of an inbox own what waits there. -/
theorem boxed_inbox (e : Endpoint) :
    (((List.range 32).reverse.map fun c => BoxRef.inbox e (UInt64.ofNat c)).filterMap
      fun r => (b.boxAt r).node).Perm (s.inbox e) := by
  have hslots := (h.perm_slots_inbox e 0).filterMap Box.node
  simp only [UInt64.zero_add, List.filterMap_append, List.filterMap_map] at hslots
  rw [List.filterMap_map]
  refine ((List.reverse_perm _).filterMap _).trans (hslots.trans (.of_eq ?_))
  rw [List.filterMap_replicate_of_none rfl, List.append_nil]
  exact List.filterMap_some

theorem boxed_perm : b.boxed.Perm (s.boxes.reduceOption ++ (s.inbox .system ++ s.inbox .ble)) := by
  have hboxes : b.boxes.toList.filterMap Box.node = s.boxes.reduceOption := by
    rw [h.boxes, List.filterMap_map, List.reduceOption]
    exact List.filterMap_congr fun o _ => Box.node_holding o
  rw [boxed_eq, slotPlaces, List.flatMap_cons, List.flatMap_cons, List.flatMap_nil,
    List.append_nil, List.filterMap_append, hboxes]
  exact ((h.boxed_inbox .system).append (h.boxed_inbox .ble)).append_left _

/-- A box of the board is the one that the account says. -/
theorem exists_holding (r : BoxRef) : ∃ o, b.boxAt r = Box.holding o := by
  cases r with
  | application i => exact ⟨_, h.getD_boxes i⟩
  | inbox e c =>
    have hmem : b.boxAt (.inbox e c) ∈
        (List.range 32).map fun i => (b.host.receiver e).inbox.slot (c + UInt64.ofNat i) :=
      List.mem_map.mpr ⟨0, by decide, by
        rw [show UInt64.ofNat 0 = 0 from rfl, UInt64.add_zero]
        rfl⟩
    rcases List.mem_append.mp ((h.perm_slots_inbox e c).mem_iff.mp hmem) with hmem | hmem
    · obtain ⟨n, -, hn⟩ := List.mem_map.mp hmem
      exact ⟨some n, hn.symm⟩
    · exact ⟨none, List.eq_of_mem_replicate hmem⟩

/-- **In a board that shows an account every buffer is in one place.** -/
theorem atRest (hs : s.Proper []) : b.AtRest (s.lists p sw) (s.given ++ b.boxed) s.given := by
  have hnodup : (s.free ++ Line.all.flatMap s.line ++ (s.inbox .ble ++ s.inbox .system) ++
      s.boxes.reduceOption).Nodup := hs.nodup
  have hplaces : ∀ n ∈ b.boxed, n ∈ (s.inbox .ble ++ s.inbox .system) ++ s.boxes.reduceOption := by
    intro n hn
    have := h.boxed_perm.mem_iff.mp hn
    simp only [List.mem_append] at this ⊢
    tauto
  have hslots : ∀ n ∈ b.boxed, n ∈ slots := fun n hn => hs.mem_slots (by
    rw [List.nil_append, Account.places, List.append_assoc]
    exact List.mem_append_right _ (hplaces n hn))
  rw [List.append_assoc, List.nodup_append] at hnodup
  refine ⟨.of_boxed h.lists (fun r => ?_) (fun n hn => has_of_mem_slots (hslots n hn)) ?_
    fun n hn hlisted => ?_, fun e => ⟨_, h.inbox e⟩⟩
  · obtain ⟨o, ho⟩ := h.exists_holding r
    rw [ho]
    exact Box.bound_holding o
  · refine h.boxed_perm.nodup_iff.mpr (List.Perm.nodup ?_ hnodup.2.1)
    exact List.perm_append_comm.trans (List.perm_append_comm.append_left _)
  · have hchains : (chains sw.traces s.line).nodes.Perm ((s.lists p sw).listed s.given) :=
      ((chains_perm _ _ _).flatMap_right _).trans (NodeLists.nodes_family _ _)
    refine Carries.not_mem_nodes (hslots n hn) (fun hline => ?_) (hchains.mem_iff.mpr hlisted)
    exact hnodup.2.2 n (List.mem_append_right _ hline) n (hplaces n hn) rfl

end Board.Shows

/-! ### Boards of the two cores -/

/-- A box made around a buffer that is in no place joins the boxes. -/
theorem Board.Shows.of_wrap {p : Placement} {sw : Switches} {b b' : Board σ} {s : Account σ}
    {n : NodeIndex} (h : b.Shows p sw s) (hs : s.Proper []) (hn : n ∈ slots)
    (hplaces : some n ∉ b.places) (hrun : (Host.newBox (Box.around n)).run b = .ok () b') :
    b'.Shows p sw (s.addBox (some n)) ∧ (s.addBox (some n)).Proper [] := by
  rw [Box.around_eq hn] at hrun
  exact ⟨((h.newBox (some n)).of_run hrun).2,
    (h.proper_of_not_mem hs hn hplaces).of_perm (s.places_addBox (some n))⟩

/-- After a boot of both cores, calls and boxes made around buffers that are in no place lead to a
board. -/
inductive Usage (p : Placement) (sw : Switches) (note : Event → σ → σ) (b₀ : Board σ) :
    Board σ → Prop
  | boot {b : Board σ} (hrun : (Board.start p sw).run b₀ = .ok () b) : Usage p sw note b₀ b
  | call {b b' : Board σ} {c : Call} {r : Answer} (hbefore : Usage p sw note b₀ b)
      (hc : c.Permitted b) (hrun : (c.run (Observer.passive note)).run b = .ok r b') :
      Usage p sw note b₀ b'
  | wrap {b b' : Board σ} {n : NodeIndex} (hbefore : Usage p sw note b₀ b) (hn : n ∈ slots)
      (hplaces : some n ∉ b.places) (hrun : (Host.newBox (Box.around n)).run b = .ok () b') :
      Usage p sw note b₀ b'

namespace Usage

variable {p : Placement} {sw : Switches} {note : Event → σ → σ} {b₀ b : Board σ}

/-- Calls alone lead to such boards. -/
theorem of_calls {ts : List (Turn σ)} (h : Calls p sw note b₀ ts b) : Usage p sw note b₀ b := by
  induction h with
  | boot hrun => exact .boot hrun
  | step _ hc hrun ih => exact ih.call hc hrun

theorem exists_shows (hp : p.Valid) (hboxes : ∀ x ∈ b₀.boxes, x = Box.empty)
    (h : Usage p sw note b₀ b) : ∃ s, b.Shows p sw s ∧ s.Proper [] := by
  induction h with
  | boot hrun => exact (@Calls.boot _ _ _ note _ _ hrun).exists_shows hp hboxes
  | call _ hc hrun ih =>
    obtain ⟨s, hshows, hs⟩ := ih
    exact ⟨_, (hshows.of_call hs hc hrun).2, Account.proper_call hp hshows hs hc⟩
  | wrap _ hn hplaces hrun ih =>
    obtain ⟨s, hshows, hs⟩ := ih
    exact ⟨_, hshows.of_wrap hs hn hplaces hrun⟩

end Usage

/-! ### Every buffer once -/

/-- What holds after some steps on a board where `given` had been given back. -/
structure Handling.Accounts (note : Event → σ → σ) (k : NodeLists) (given : List NodeIndex)
    (b₀ : Board σ) (ts : List BoxTurn) (b : Board σ) : Prop where
  /-- A box knows where to give its buffer back exactly while it owns one. -/
  bound : ∀ r, (b.boxAt r).node = none ↔ (b.boxAt r).bound = false
  /-- No node is in two boxes. -/
  owned : b.boxed.Nodup
  /-- What was in a box, or got one, was given back or is in a box. -/
  balance : (b₀.boxed ++ BoxTurn.wrapped ts).Perm (BoxTurn.given ts ++ b.boxed)
  /-- The lists of given-back buffers grew by what the steps dropped. -/
  lists : b.Lists k (given ++ BoxTurn.given ts)
  /-- Nothing was given back twice, or is in a box although it was given back. -/
  once : (given ++ BoxTurn.given ts ++ b.boxed).Nodup
  /-- The observer was told of each of them. -/
  told : Event.Tells note (BoxTurn.given ts).length b₀.sink b.sink

theorem Handling.accounts {k : NodeLists} {given : List NodeIndex} {b₀ b : Board σ}
    {note : Event → σ → σ} {ts : List BoxTurn} (h₀ : b₀.AtRest k (given ++ b₀.boxed) given)
    (h : Handling note k.heads b₀ ts b) : Handling.Accounts note k given b₀ ts b := by
  obtain ⟨⟨hcustody, -⟩, htold⟩ := h.keeps h₀
  have htotal := hcustody.total
  have hnodup := hcustody.nodup_all
  rw [List.nil_append] at htotal hnodup
  refine ⟨hcustody.bound, hcustody.nodup_boxed, ?_, hcustody.lists, hnodup, htold⟩
  rw [List.append_assoc, List.append_assoc, List.perm_append_left_iff] at htotal
  exact htotal.symm

/-- What a shutdown does to a board where `given` had been given back. -/
structure Board.ShutDown (note : Event → σ → σ) (k : NodeLists) (given : List NodeIndex)
    (b b' : Board σ) : Prop where
  run : (Host.shutdown (Observer.passive note)).run b = .ok () b'
  /-- What was in the boxes was given back, place by place. -/
  lists : b'.Lists k (given ++ b.boxed)
  once : (given ++ b.boxed).Nodup
  /-- Every box is empty. -/
  empty : ∀ r ∈ b.boxPlaces, b'.boxAt r = Box.empty
  owned : b'.boxed = []
  told : Event.Tells note b.boxed.length b.sink b'.sink

theorem Board.AtRest.exists_shutDown {k : NodeLists} {all given : List NodeIndex} {b : Board σ}
    (note : Event → σ → σ) (h : b.AtRest k all given) :
    ∃ b', Board.ShutDown note k given b b' := by
  obtain ⟨b', hrun, hcustody, hempty, hboxed, htold⟩ := h.custody.shutdown note
  exact ⟨b', hrun, hcustody.lists, h.custody.nodup_all, hempty, hboxed, htold⟩

/-- **Every buffer is given back once, when the box that owns it is released, overwritten or
destroyed.** However boxes are made, assigned, released, destroyed and sent through an inbox, each
step finishes, and what got a box was given back or is in one box; a shutdown then gives back what
is still in a box, and nothing else. Any use of the two cores leads to a board where this holds. -/
theorem Board.boxes_drop_once (note : Event → σ → σ) :
    (∀ (k : NodeLists) (given : List NodeIndex) (b₀ b : Board σ) (ts : List BoxTurn),
      b₀.AtRest k (given ++ b₀.boxed) given → Handling note k.heads b₀ ts b →
        Handling.Accounts note k given b₀ ts b ∧
        (∀ s : BoxStep, s.Permitted k.heads b →
          ∃ r b', (s.run (Observer.passive note)).run b = .ok r b') ∧
        ∃ b', b.ShutDown note k (given ++ BoxTurn.given ts) b') ∧
    ∀ (p : Placement) (sw : Switches) (b₀ b₁ : Board σ), p.Valid →
      (∀ x ∈ b₀.boxes, x = Box.empty) → Usage p sw note b₀ b₁ →
        ∃ k given, k.heads.Perm ((Line.made sw.traces).map Line.head) ∧
          b₁.AtRest k (given ++ b₁.boxed) given := by
  constructor
  · intro k given b₀ b ts h₀ h
    obtain ⟨hrest, -⟩ := h.keeps h₀
    refine ⟨h.accounts h₀, fun s hs => ?_, hrest.exists_shutDown note⟩
    obtain ⟨r, b', hrun, -⟩ := BoxStep.keeps hrest hs
    exact ⟨r, b', hrun⟩
  · intro p sw b₀ b₁ hp hboxes husage
    obtain ⟨s, hshows, hs⟩ := husage.exists_shows hp hboxes
    exact ⟨s.lists p sw, s.given, Account.heads_lists, hshows.atRest hs⟩

/-- Three boxes are made around slots after a boot. The first slot passes through a new box and an
inbox into the second box, which drops its own, and then into a box of the application, which is
released twice. The shutdown gives the third one back. -/
theorem Board.boxes_drop_once_session :
    ∃ (k : NodeLists) (b₁ b b' : Board Demo.Console) (ts : List BoxTurn),
      Usage Placement.standard {} (fun _ c => c) Demo.blank b₁ ∧
      (∃ k given, k.heads.Perm ((Line.made false).map Line.head) ∧
        b₁.AtRest k (given ++ b₁.boxed) given) ∧
      b₁.AtRest k ([] ++ b₁.boxed) [] ∧ Handling (fun _ c => c) k.heads b₁ ts b ∧
      ts.map (·.step) = [.wrap 9, .wrap 10, .wrap 8, .construct 1, .push .ble 4, .pop .ble 2,
        .assign 2 0, .release 0, .release 0] ∧
      BoxTurn.given ts = [10, 9] ∧ Handling.Accounts (fun _ c => c) k [] b₁ ts b ∧
      b.boxed = [8] ∧ b.ShutDown (fun _ c => c) k [10, 9] b' := by
  obtain ⟨hhandling, husage⟩ := @boxes_drop_once Demo.Console fun _ c => c
  have hreplay : ((Board.leftBy ((Board.start Placement.standard {}).run Demo.blank)).bind
      (BoxStep.replay (Observer.passive fun _ c => c) (Placement.standard.lists false fun _ => [])
        [] [.wrap 9, .wrap 10, .wrap 8, .construct 1, .push .ble 4, .pop .ble 2, .assign 2 0,
          .release 0, .release 0])).map (fun (ts, b) => (BoxTurn.given ts, b.boxed)) =
      some ([10, 9], [8]) := by decide +kernel
  obtain ⟨b₁, hboot, hshows⟩ :=
    start_shows Placement.valid_standard {} Demo.blank Demo.boxes_blank
  have hs := Account.proper_of_perm (Account.places_booted b₁.memory
    (Demo.blank.panel.booted {}) Demo.blank.boxes.size Demo.blank.sink)
  have hrest : b₁.AtRest (Placement.standard.lists false fun _ => []) ([] ++ b₁.boxed) [] :=
    hshows.atRest hs
  rw [hboot] at hreplay
  obtain ⟨⟨ts, b⟩, hreplay, hread⟩ := Option.map_eq_some_iff.mp hreplay
  obtain ⟨hgiven, hboxed⟩ := Prod.mk.inj hread
  obtain ⟨hhandled, hsteps⟩ := Handling.start.replay hrest hreplay
  obtain ⟨haccounts, -, b', hshut⟩ := hhandling _ _ _ _ _ hrest hhandled
  exact ⟨_, b₁, b, b', ts, .boot hboot,
    husage _ _ _ _ Placement.valid_standard Demo.boxes_blank (.boot hboot), hrest, hhandled,
    hsteps, hgiven, haccounts, hboxed, hgiven ▸ hshut⟩

end InterCore
