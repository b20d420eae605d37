import Mathlib.Data.Fintype.EquivFin
import Mathlib.Data.Nat.ModEq
import InterCore.Ring

/-!
# Rings as lists

What a ring holds, as a list from the oldest element on. The counters may start anywhere and wrap;
slots that hold no waiting element are vacant, so appending never overwrites one.

## Main definitions

* `Ring.Fills`: the waiting elements of a ring, and something vacant in every other slot.
* `Ring.Holds`: the same with a blank in every other slot.
* `BoundedQueue.serve`: a first-in first-out queue that takes no more than so many elements.
* `Ring.Matches`: a ring that no caller can tell from a bounded queue.

## Main results

* `Ring.Fills.push`, `Ring.Fills.pop`: appending and taking, as the operations of a list.
* `Ring.Fills.toList_eq`: the waiting elements are read back in order.
* `Ring.serves_as_queue`: a ring serves requests as a bounded queue does, wherever its counters are.
-/

namespace InterCore.Ring

variable {α : Type} {bits : Nat}

/-! ### Slots of counters -/

theorem ringCapacity_dvd (hbits : bits ≤ 63) : ringCapacity bits ∣ UInt64.size := by
  rw [ringCapacity, Nat.one_shiftLeft]
  exact Nat.pow_dvd_pow 2 (Nat.le_succ_of_le hbits)

theorem ringCapacity_lt (hbits : bits ≤ 63) : ringCapacity bits < UInt64.size := by
  rw [ringCapacity, Nat.one_shiftLeft]
  exact Nat.pow_lt_pow_right Nat.one_lt_two (Nat.lt_succ_of_le hbits)

/-- The counters wrap at a multiple of the capacity. -/
theorem index_add (hbits : bits ≤ 63) (c : UInt64) (i : Nat) :
    (index bits (c + UInt64.ofNat i)).val = (c.toNat + i) % ringCapacity bits := by
  have hwrap : (c.toNat + i % UInt64.size) % UInt64.size = (c.toNat + i) % UInt64.size :=
    Nat.add_mod_mod _ _ _
  have hnat : (c + UInt64.ofNat i).toNat = (c.toNat + i) % UInt64.size := by
    rw [UInt64.toNat_add, UInt64.toNat_ofNat']
    exact hwrap
  show (c + UInt64.ofNat i).toNat % ringCapacity bits = _
  rw [hnat]
  exact Nat.mod_mod_of_dvd _ (ringCapacity_dvd hbits)

/-- Nearby counters have different slots. -/
theorem index_add_inj (hbits : bits ≤ 63) (c : UInt64) {i j : Nat} (hi : i < ringCapacity bits)
    (hj : j < ringCapacity bits) :
    index bits (c + UInt64.ofNat i) = index bits (c + UInt64.ofNat j) ↔ i = j := by
  rw [← Fin.val_inj, index_add hbits, index_add hbits]
  refine ⟨fun h => ?_, fun h => by rw [h]⟩
  have hmod : i ≡ j [MOD ringCapacity bits] := Nat.ModEq.add_left_cancel' c.toNat h
  rwa [Nat.ModEq, Nat.mod_eq_of_lt hi, Nat.mod_eq_of_lt hj] at hmod

theorem index_ne_add_succ (hbits : bits ≤ 63) (c : UInt64) {i : Nat}
    (hi : i + 1 < ringCapacity bits) : index bits c ≠ index bits (c + UInt64.ofNat (i + 1)) := by
  have hinj := index_add_inj hbits c (ringCapacity_pos bits) hi
  rw [show c + UInt64.ofNat 0 = c from UInt64.add_zero c] at hinj
  exact fun heq => absurd (hinj.mp heq) (Nat.succ_ne_zero i).symm

/-- Every slot is that of a nearby counter. -/
theorem exists_index_add (hbits : bits ≤ 63) (c : UInt64) (i : Fin (ringCapacity bits)) :
    ∃ j < ringCapacity bits, index bits (c + UInt64.ofNat j) = i := by
  have hinj : Function.Injective fun j : Fin (ringCapacity bits) =>
      index bits (c + UInt64.ofNat j) :=
    fun j k h => Fin.val_inj.mp ((index_add_inj hbits c j.isLt k.isLt).mp h)
  obtain ⟨j, hj⟩ := Finite.surjective_of_injective hinj i
  exact ⟨j, j.isLt, hj⟩

/-- A counter comes back to its slot after as many steps as there are slots. -/
theorem index_add_capacity (hbits : bits ≤ 63) (c : UInt64) :
    index bits (c + UInt64.ofNat (ringCapacity bits)) = index bits c := by
  rw [← Fin.val_inj, index_add hbits, Nat.add_mod_right]
  rfl

theorem add_ofNat_succ (c : UInt64) (i : Nat) :
    c + UInt64.ofNat (i + 1) = c + 1 + UInt64.ofNat i := by
  rw [UInt64.ofNat_add, UInt64.add_comm (UInt64.ofNat i), ← UInt64.add_assoc]
  rfl

/-! ### What a ring holds -/

/-- The elements `xs` wait, the oldest first, and what lies in every other slot is vacant. -/
structure Fills (Vacant : α → Prop) (r : Ring α bits) (xs : List α) : Prop where
  length_le : xs.length ≤ ringCapacity bits
  tail : r.tail = r.head + UInt64.ofNat xs.length
  slot : ∀ i (hi : i < xs.length), r.slot (r.head + UInt64.ofNat i) = xs[i]
  vacant : ∀ i, xs.length ≤ i → i < ringCapacity bits → Vacant (r.slot (r.head + UInt64.ofNat i))

theorem slot_empty (blank : α) (c : UInt64) : (empty blank : Ring α bits).slot c = blank := by
  simp only [slot, empty, Fin.getElem_fin, Vector.getElem_replicate]

namespace Fills

variable {Vacant : α → Prop} {x : α} {r : Ring α bits} {xs : List α}

section Counters

variable (h : r.Fills Vacant xs) (hbits : bits ≤ 63)
include h hbits

theorem size_eq : r.size = xs.length := by
  rw [size, h.tail, UInt64.add_comm, UInt64.add_sub_cancel]
  exact UInt64.toNat_ofNat_of_lt' (Nat.lt_of_le_of_lt h.length_le (ringCapacity_lt hbits))

theorem isEmpty_eq : r.isEmpty = xs.isEmpty := by
  rw [Bool.eq_iff_iff, isEmpty, beq_iff_eq, List.isEmpty_iff, ← List.length_eq_zero_iff,
    ← h.size_eq hbits, size, ← UInt64.toNat_inj]
  constructor
  · intro heq
    rw [UInt64.toNat_inj] at heq
    rw [heq, UInt64.sub_self]
    rfl
  · intro hzero
    have hsub : r.tail - r.head = 0 := UInt64.toNat_inj.mp hzero
    rw [← UInt64.sub_add_cancel r.tail r.head, hsub, UInt64.zero_add]

theorem isFull_eq : r.isFull = decide (xs.length = ringCapacity bits) := by
  rw [Bool.eq_iff_iff, isFull, beq_iff_eq, decide_eq_true_iff, h.size_eq hbits]
  rfl

/-- **The waiting elements are read back in order.** -/
theorem toList_eq : r.toList = xs := by
  apply List.ext_getElem?
  intro i
  rw [toList, h.size_eq hbits, List.getElem?_map]
  by_cases hi : i < xs.length
  · rw [List.getElem?_range hi, Option.map_some, h.slot i hi, List.getElem?_eq_getElem hi]
  · rw [List.getElem?_eq_none (by rwa [List.length_range, ← Nat.not_lt]),
      List.getElem?_eq_none (Nat.not_lt.mp hi), Option.map_none]

end Counters

/-- The slot that is filled next is vacant. -/
theorem slot_tail (h : r.Fills Vacant xs) (hroom : xs.length < ringCapacity bits) :
    Vacant (r.slot r.tail) := by
  rw [h.tail]
  exact h.vacant _ (Nat.le_refl _) hroom

theorem slot_head (h : r.Fills Vacant (x :: xs)) : r.slot r.head = x := by
  have := h.slot 0 (Nat.zero_lt_succ _)
  rwa [show r.head + UInt64.ofNat 0 = r.head from UInt64.add_zero _] at this

/-- **Appending goes to the end.** -/
theorem push (h : r.Fills Vacant xs) (hbits : bits ≤ 63) (hroom : xs.length < ringCapacity bits)
    (x : α) : Fills Vacant { r.setSlot r.tail x with tail := r.tail + 1 } (xs ++ [x]) := by
  have hslot : ∀ i, i < ringCapacity bits →
      (r.setSlot r.tail x).slot (r.head + UInt64.ofNat i) =
        if xs.length = i then x else r.slot (r.head + UInt64.ofNat i) := by
    intro i hi
    rw [slot_setSlot, h.tail]
    simp only [index_add_inj hbits r.head hroom hi]
  refine ⟨?_, ?_, fun i hi => ?_, fun i hlow hi => ?_⟩
  · rw [List.length_append]
    exact hroom
  · rw [List.length_append, List.length_singleton, add_ofNat_succ, UInt64.add_assoc,
      UInt64.add_comm 1, ← UInt64.add_assoc]
    exact congrArg (· + 1) h.tail
  · rw [List.length_append, List.length_singleton] at hi
    refine (hslot i (Nat.lt_of_lt_of_le hi hroom)).trans ?_
    rcases Nat.lt_or_eq_of_le (Nat.le_of_lt_succ hi) with hlt | rfl
    · rw [if_neg (Nat.ne_of_gt hlt), h.slot i hlt, List.getElem_append_left hlt]
    · rw [if_pos rfl, List.getElem_append_right (Nat.le_refl _)]
      simp only [Nat.sub_self, List.getElem_cons_zero]
  · rw [List.length_append, List.length_singleton] at hlow
    have hvacant := h.vacant i (Nat.le_of_succ_le hlow) hi
    rwa [← if_neg (Nat.ne_of_lt hlow) (t := x) (e := r.slot (r.head + UInt64.ofNat i)),
      ← hslot i hi] at hvacant

/-- **Taking removes the oldest**, and what is left in its slot has to be vacant. -/
theorem pop (h : r.Fills Vacant (x :: xs)) (hbits : bits ≤ 63) {left : α} (hleft : Vacant left) :
    Fills Vacant { r.setSlot r.head left with head := r.head + 1 } xs := by
  have hslot : ∀ i, i + 1 < ringCapacity bits →
      (r.setSlot r.head left).slot (r.head + 1 + UInt64.ofNat i) =
        r.slot (r.head + UInt64.ofNat (i + 1)) := by
    intro i hi
    rw [slot_setSlot, ← add_ofNat_succ, if_neg (index_ne_add_succ hbits r.head hi)]
  refine ⟨Nat.le_of_succ_le h.length_le, ?_, fun i hi => ?_, fun i hlow hi => ?_⟩
  · rw [← add_ofNat_succ]
    exact h.tail
  · refine (hslot i (Nat.lt_of_lt_of_le (Nat.succ_lt_succ hi) h.length_le)).trans ?_
    rw [h.slot (i + 1) (Nat.succ_lt_succ hi), List.getElem_cons_succ]
  · show Vacant ((r.setSlot r.head left).slot (r.head + 1 + UInt64.ofNat i))
    rcases Nat.lt_or_eq_of_le (Nat.succ_le_of_lt hi) with hlt | heq
    · rw [hslot i hlt]
      exact h.vacant (i + 1) (Nat.succ_le_succ hlow) hlt
    · rw [Nat.succ_eq_add_one] at heq
      rw [slot_setSlot, ← add_ofNat_succ, heq, index_add_capacity hbits, if_pos rfl]
      exact hleft

end Fills

/-- The elements `xs` wait, the oldest first, and every other slot is blank. -/
structure Holds (blank : α) (r : Ring α bits) (xs : List α) : Prop where
  length_le : xs.length ≤ ringCapacity bits
  tail : r.tail = r.head + UInt64.ofNat xs.length
  slot : ∀ i < ringCapacity bits, r.slot (r.head + UInt64.ofNat i) = xs[i]?.getD blank

theorem holds_iff {blank : α} {r : Ring α bits} {xs : List α} :
    r.Holds blank xs ↔ r.Fills (· = blank) xs := by
  constructor
  · intro h
    refine ⟨h.length_le, h.tail, fun i hi => ?_, fun i hlow hi => ?_⟩
    · rw [h.slot i (Nat.lt_of_lt_of_le hi h.length_le), List.getElem?_eq_getElem hi,
        Option.getD_some]
    · rw [h.slot i hi, List.getElem?_eq_none hlow, Option.getD_none]
  · intro h
    refine ⟨h.length_le, h.tail, fun i hi => ?_⟩
    by_cases hlow : i < xs.length
    · rw [h.slot i hlow, List.getElem?_eq_getElem hlow, Option.getD_some]
    · rw [h.vacant i (Nat.not_lt.mp hlow) hi, List.getElem?_eq_none (Nat.not_lt.mp hlow),
        Option.getD_none]

theorem holds_empty (blank : α) : (empty blank : Ring α bits).Holds blank [] where
  length_le := Nat.zero_le _
  tail := rfl
  slot i _ := by rw [slot_empty, List.getElem?_nil, Option.getD_none]

namespace Holds

variable {blank x : α} {r : Ring α bits} {xs : List α}

section Counters

variable (h : r.Holds blank xs) (hbits : bits ≤ 63)
include h hbits

theorem size_eq : r.size = xs.length := (holds_iff.mp h).size_eq hbits

theorem isEmpty_eq : r.isEmpty = xs.isEmpty := (holds_iff.mp h).isEmpty_eq hbits

theorem isFull_eq : r.isFull = decide (xs.length = ringCapacity bits) :=
  (holds_iff.mp h).isFull_eq hbits

theorem toList_eq : r.toList = xs := (holds_iff.mp h).toList_eq hbits

end Counters

/-- The slot that is filled next is blank. -/
theorem slot_tail (h : r.Holds blank xs) (hroom : xs.length < ringCapacity bits) :
    r.slot r.tail = blank :=
  (holds_iff.mp h).slot_tail hroom

theorem slot_head (h : r.Holds blank (x :: xs)) : r.slot r.head = x := (holds_iff.mp h).slot_head

/-- **Appending goes to the end.** -/
theorem push (h : r.Holds blank xs) (hbits : bits ≤ 63) (hroom : xs.length < ringCapacity bits)
    (x : α) : Holds blank { r.setSlot r.tail x with tail := r.tail + 1 } (xs ++ [x]) :=
  holds_iff.mpr ((holds_iff.mp h).push hbits hroom x)

/-- **Taking removes the oldest and leaves a blank.** -/
theorem pop (h : r.Holds blank (x :: xs)) (hbits : bits ≤ 63) :
    Holds blank { r.setSlot r.head blank with head := r.head + 1 } xs :=
  holds_iff.mpr ((holds_iff.mp h).pop hbits rfl)

/-- What a ring holds and where it starts determine the ring, as every other slot is blank. -/
theorem eq_of_head {r' : Ring α bits} (h : r.Holds blank xs) (h' : r'.Holds blank xs)
    (hbits : bits ≤ 63) (hhead : r'.head = r.head) : r' = r := by
  have htail : r'.tail = r.tail := by rw [h'.tail, h.tail, hhead]
  have hslots : r'.slots = r.slots := by
    ext i hi
    obtain ⟨j, hj, hindex⟩ := exists_index_add hbits r.head ⟨i, hi⟩
    have hsame : r'.slot (r.head + UInt64.ofNat j) = r.slot (r.head + UInt64.ofNat j) := by
      rw [h.slot j hj, ← hhead, h'.slot j hj]
    simp only [Ring.slot, hindex] at hsame
    exact hsame
  obtain ⟨slots, head, tail⟩ := r
  obtain ⟨slots', head', tail'⟩ := r'
  subst hslots hhead htail
  rfl

end Holds

end InterCore.Ring

/-! ### Requests -/

namespace InterCore

/-! A bounded queue has no slots and no counters. -/

namespace BoundedQueue

variable {α : Type} (capacity : Nat) (leave : α → α)

/-- A queue of elements, the oldest first, serves a request. A push to a queue that holds as many
elements as it may and a pop from one without elements change nothing. -/
def serve (xs : List α) : QueueRequest α → QueueReply α × List α
  | .push x =>
    if xs.length = capacity then (⟨false, x⟩, xs) else (⟨true, leave x⟩, xs ++ [x])
  | .pop out =>
    match xs with
    | [] => (⟨false, out⟩, [])
    | x :: xs => (⟨true, x⟩, xs)

/-- A queue serves requests one after the other. -/
def serveAll (xs : List α) : List (QueueRequest α) → List (QueueReply α) × List α
  | [] => ([], xs)
  | request :: requests =>
    let (reply, xs) := serve capacity leave xs request
    let (replies, xs) := serveAll xs requests
    (reply :: replies, xs)

end BoundedQueue

namespace Ring

variable {α : Type} {bits : Nat}

/-- A ring serves requests one after the other. -/
def serveAll (leave : α → α) (r : Ring α bits) :
    List (QueueRequest α) → List (QueueReply α) × Ring α bits
  | [] => ([], r)
  | request :: requests =>
    let (reply, r) := r.serve leave request
    let (replies, r) := serveAll leave r requests
    (reply :: replies, r)

/-- A blank, or what is left of an element that was moved out. -/
def Vacated (leave : α → α) (blank x : α) : Prop := x = blank ∨ ∃ y, x = leave y

/-- No caller can tell the ring from a queue that holds `xs`, and what it overwrites next is no
waiting element. -/
structure Matches (leave : α → α) (blank : α) (r : Ring α bits) (xs : List α) : Prop where
  toList : r.toList = xs
  size : r.size = xs.length
  isEmpty : r.isEmpty = true ↔ xs = []
  isFull : r.isFull = true ↔ xs.length = r.capacity
  /-- Every slot outside the live window was vacated. -/
  vacated : ∀ i, r.size ≤ i → i < r.capacity →
    Vacated leave blank (r.slot (r.head + UInt64.ofNat i))
  /-- A push goes to such a slot. -/
  overwrites : r.isFull = false → Vacated leave blank (r.slot r.tail)
  replies : ∀ request, (r.serve leave request).1 =
    (BoundedQueue.serve r.capacity leave xs request).1
  /-- What is refused changes nothing. -/
  refuses : ∀ request, (r.serve leave request).1.served = false → (r.serve leave request).2 = r

variable {leave : α → α} {blank : α} {r : Ring α bits} {xs : List α}

namespace Fills

/-- **A ring serves a request as a bounded queue does.** -/
theorem serve (h : r.Fills (Vacated leave blank) xs) (hbits : bits ≤ 63)
    (request : QueueRequest α) :
    (r.serve leave request).1 = (BoundedQueue.serve (ringCapacity bits) leave xs request).1 ∧
      (r.serve leave request).2.Fills (Vacated leave blank)
        (BoundedQueue.serve (ringCapacity bits) leave xs request).2 ∧
      ((r.serve leave request).1.served = false → (r.serve leave request).2 = r) := by
  cases request with
  | push x =>
    rw [Ring.serve, push?, h.isFull_eq hbits, BoundedQueue.serve]
    by_cases hfull : xs.length = ringCapacity bits
    · rw [if_pos (decide_eq_true hfull), if_pos hfull]
      exact ⟨rfl, h, fun _ => rfl⟩
    · rw [if_neg (by rwa [decide_eq_true_iff]), if_neg hfull]
      exact ⟨rfl, h.push hbits (Nat.lt_of_le_of_ne h.length_le hfull) x,
        fun hserved => Bool.noConfusion hserved⟩
  | pop out =>
    rw [Ring.serve, pop?, h.isEmpty_eq hbits, BoundedQueue.serve.eq_def]
    cases xs with
    | nil => exact ⟨rfl, h, fun _ => rfl⟩
    | cons x xs =>
      rw [if_neg (show ¬ (x :: xs).isEmpty = true from Bool.false_ne_true)]
      exact ⟨congrArg (QueueReply.mk true) h.slot_head, h.pop hbits (.inr ⟨_, rfl⟩),
        fun hserved => Bool.noConfusion hserved⟩

/-- Any number of requests. -/
theorem serveAll (h : r.Fills (Vacated leave blank) xs) (hbits : bits ≤ 63)
    (requests : List (QueueRequest α)) :
    (r.serveAll leave requests).1 =
        (BoundedQueue.serveAll (ringCapacity bits) leave xs requests).1 ∧
      (r.serveAll leave requests).2.Fills (Vacated leave blank)
        (BoundedQueue.serveAll (ringCapacity bits) leave xs requests).2 := by
  induction requests generalizing r xs with
  | nil => exact ⟨rfl, h⟩
  | cons request requests ih =>
    obtain ⟨hreply, hfills, -⟩ := h.serve hbits request
    obtain ⟨hreplies, hrest⟩ := ih hfills
    exact ⟨congrArg₂ List.cons hreply hreplies, hrest⟩

theorem matches_queue (h : r.Fills (Vacated leave blank) xs) (hbits : bits ≤ 63) :
    r.Matches leave blank xs where
  toList := h.toList_eq hbits
  size := h.size_eq hbits
  isEmpty := by rw [h.isEmpty_eq hbits, List.isEmpty_iff]
  isFull := by
    rw [h.isFull_eq hbits, decide_eq_true_iff]
    rfl
  vacated i hlow hi := by
    rw [h.size_eq hbits] at hlow
    exact h.vacant i hlow hi
  overwrites hfull := by
    rw [h.isFull_eq hbits, decide_eq_false_iff_not] at hfull
    exact h.slot_tail (Nat.lt_of_le_of_ne h.length_le hfull)
  replies request := (h.serve hbits request).1
  refuses request := (h.serve hbits request).2.2

end Fills

/-- Counters that differ by no more than the capacity make a window. -/
theorem fills_toList {Vacant : α → Prop} (hbits : bits ≤ 63) {k : Nat}
    (hk : k ≤ ringCapacity bits) (htail : r.tail = r.head + UInt64.ofNat k)
    (hvacant : ∀ i, k ≤ i → i < ringCapacity bits → Vacant (r.slot (r.head + UInt64.ofNat i))) :
    r.Fills Vacant r.toList := by
  have hsize : r.size = k := by
    rw [size, htail, UInt64.add_comm, UInt64.add_sub_cancel]
    exact UInt64.toNat_ofNat_of_lt' (Nat.lt_of_le_of_lt hk (ringCapacity_lt hbits))
  have hlength : r.toList.length = k := by
    rw [toList, List.length_map, List.length_range, hsize]
  refine ⟨hlength ▸ hk, hlength ▸ htail, fun i hi => ?_, fun i hlow => hvacant i (hlength ▸ hlow)⟩
  simp only [toList, List.getElem_map, List.getElem_range]

/-- **A ring is a bounded queue.** Let the head of a ring stand at any counter and its tail `k` on
from there, wrapped at 64 bits, with at most as many elements as slots, and let the slots outside
this window hold blanks or what was left of elements. Whatever pushes and pops follow, the ring
replies as a queue of this capacity does, and no caller can tell the two apart at the end. -/
theorem serves_as_queue (hbits : bits ≤ 63) (leave : α → α) (blank : α) (r : Ring α bits) {k : Nat}
    (hk : k ≤ ringCapacity bits) (htail : r.tail = r.head + UInt64.ofNat k)
    (hvacated : ∀ i, k ≤ i → i < ringCapacity bits →
      Vacated leave blank (r.slot (r.head + UInt64.ofNat i)))
    (requests : List (QueueRequest α)) :
    r.toList.length = k ∧
      (r.serveAll leave requests).1 =
        (BoundedQueue.serveAll (ringCapacity bits) leave r.toList requests).1 ∧
      (r.serveAll leave requests).2.Matches leave blank
        (BoundedQueue.serveAll (ringCapacity bits) leave r.toList requests).2 := by
  have hfills := fills_toList hbits hk htail hvacated
  obtain ⟨hreplies, hrest⟩ := hfills.serveAll hbits requests
  refine ⟨?_, hreplies, hrest.matches_queue hbits⟩
  rw [← hfills.size_eq hbits, size, htail, UInt64.add_comm, UInt64.add_sub_cancel]
  exact UInt64.toNat_ofNat_of_lt' (Nat.lt_of_le_of_lt hk (ringCapacity_lt hbits))

/-- A ring of two slots whose head is about to wrap, with one element. -/
def lastCounter : Ring (Option Nat) 1 where
  slots := #v[none, some 7]
  head := 0xFFFFFFFFFFFFFFFF
  tail := 0

/-- A ring is a bounded queue while its counters wrap: one push fills it, the next is refused, and
three pops find two elements. -/
theorem serves_as_queue_wrapping :
    (lastCounter.serveAll (fun _ => none)
      [.push (some 8), .push (some 9), .pop none, .pop none, .pop (some 5)]).1 =
        [⟨true, none⟩, ⟨false, some 9⟩, ⟨true, some 7⟩, ⟨true, some 8⟩, ⟨false, some 5⟩] ∧
      (lastCounter.serveAll (fun _ => none)
        [.push (some 8), .push (some 9), .pop none, .pop none, .pop (some 5)]).2.Matches
        (fun _ => none) none [] := by
  have hvacated : ∀ i, 1 ≤ i → i < ringCapacity 1 →
      Vacated (fun _ => none) none (lastCounter.slot (lastCounter.head + UInt64.ofNat i)) := by
    intro i hlow hi
    obtain rfl : i = 1 := Nat.le_antisymm (Nat.le_of_lt_succ hi) hlow
    exact .inl (by decide)
  obtain ⟨-, hreplies, hmatches⟩ := serves_as_queue (by decide) (fun _ => none) none lastCounter
    (by decide) (by decide) hvacated
    [.push (some 8), .push (some 9), .pop none, .pop none, .pop (some 5)]
  exact ⟨hreplies.trans (by decide), hmatches⟩

end Ring

end InterCore
