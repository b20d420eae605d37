import InterCore.Memory.Lemmas

/-!
# Footprints of writes

Which bytes a write can change, and what therefore reads as before. Addresses wrap, so a run of
bytes is told by the distance from its start; a run that does not pass the end of the address
space is an interval of numbers, and that form is what disjointness is decided in.

## Main definitions

* `Memory.Within`: an address lies in a run of bytes.
* `Memory.AgreeOff`: two memories hold the same bytes outside a set of addresses.

## Main results

* `Memory.agreeOff_write`, `Memory.agreeOff_set`, `Memory.agreeOff_writeSerial`: a write stays
  within its run.
* `Memory.AgreeOff.read_eq`, `Memory.AgreeOff.pointer_eq`: what lies outside reads as before.
* `Memory.write_comm`, `Memory.write_write`: writes side by side and over each other.
* `Memory.read_write_append`: a field in the middle of a written run.
-/

namespace InterCore.Memory

/-! ### Runs of addresses -/

/-- The address `k` lies in the run of `n` bytes from `a` on. -/
def Within (a : Address) (n : Nat) (k : Address) : Prop := (k - a).toNat < n

instance (a : Address) (n : Nat) (k : Address) : Decidable (Within a n k) :=
  inferInstanceAs (Decidable (_ < _))

/-- A run that stays below the end of the address space is an interval. -/
theorem within_iff {a k : Address} {n : Nat} (h : a.toNat + n ≤ UInt64.size) :
    Within a n k ↔ a.toNat ≤ k.toNat ∧ k.toNat < a.toNat + n := by
  have hsize : UInt64.size = 18446744073709551616 := rfl
  have ha := a.toNat_lt
  have hk := k.toNat_lt
  simp only [Within, UInt64.toNat_sub]
  omega

theorem Within.mono {a k : Address} {n l : Nat} (h : Within a n k) (hl : n ≤ l) : Within a l k :=
  Nat.lt_of_lt_of_le h hl

/-- A run inside another one. -/
theorem Within.of_add {a x k : Address} {n l : Nat} (h : Within (a + x) n k)
    (hl : x.toNat + n ≤ l) : Within a l k := by
  have ha := a.toNat_lt
  have hx := x.toNat_lt
  have hk := k.toNat_lt
  simp only [Within, UInt64.toNat_sub, UInt64.toNat_add] at h ⊢
  omega

theorem within_add_ofNat (a : Address) {n i : Nat} (h : i < n) :
    Within a n (a + UInt64.ofNat i) := by
  have : (UInt64.ofNat i).toNat ≤ i := by
    rw [UInt64.toNat_ofNat']
    exact Nat.mod_le _ _
  rw [Within, UInt64.add_comm, UInt64.add_sub_cancel]
  omega

theorem within_self (a : Address) {n : Nat} (h : 0 < n) : Within a n a := by
  rw [Within, UInt64.sub_self]
  exact h

/-! ### Memories that agree outside a set -/

/-- Outside `S` both memories hold the same bytes. -/
def AgreeOff (S : Address → Prop) (m m' : Memory) : Prop :=
  ∀ k, ¬ S k → m'.get k = m.get k

namespace AgreeOff

variable {S T : Address → Prop} {m m' m'' : Memory}

theorem refl (S : Address → Prop) (m : Memory) : AgreeOff S m m := fun _ _ => rfl

theorem trans (h : AgreeOff S m m') (h' : AgreeOff S m' m'') : AgreeOff S m m'' :=
  fun k hk => (h' k hk).trans (h k hk)

theorem mono (h : AgreeOff S m m') (hST : ∀ k, S k → T k) : AgreeOff T m m' :=
  fun k hk => h k fun hS => hk (hST k hS)

/-- A run outside the set reads as before. -/
theorem read_eq (h : AgreeOff S m m') {a : Address} {n : Nat} (hS : ∀ k, Within a n k → ¬ S k) :
    m'.read a n = m.read a n :=
  read_congr fun _ hi => h _ (hS _ (within_add_ofNat a hi))

/-- A number outside the set reads as before. -/
theorem number_eq (h : AgreeOff S m m') {a : Address} {width : Nat}
    (hS : ∀ k, Within a width k → ¬ S k) : m'.number a width = m.number a width := by
  rw [number, number, h.read_eq hS]

/-- A pointer outside the set reads as before. -/
theorem pointer_eq (h : AgreeOff S m m') {a : Address} (hS : ∀ k, Within a 8 k → ¬ S k) :
    m'.pointer a = m.pointer a := by
  rw [pointer, pointer, h.number_eq hS]

end AgreeOff

/-- Zero bytes are the null pointer. -/
theorem pointer_eq_null {m : Memory} {a : Address} (h : ∀ k, Within a 8 k → m.get k = 0) :
    m.pointer a = Address.null := by
  have hagree : AgreeOff (fun k => ¬ Within a 8 k) zero m := fun k hk => by
    rw [h k (Decidable.not_not.mp hk), get_zero]
  have hzero : zero.pointer a = Address.null := by
    simp [pointer, number, read, LittleEndian.decode, Address.null]
  rw [hagree.pointer_eq fun k hk => Decidable.not_not.mpr hk, hzero]

/-! ### What writes leave alone -/

/-- A write stays within its run. -/
theorem agreeOff_write (m : Memory) (a : Address) {bs : List UInt8} {n : Nat}
    (h : bs.length ≤ n) (hn : n ≤ UInt64.size) : AgreeOff (Within a n) m (m.write a bs) := by
  intro k hk
  have hlen : bs.length ≤ (k - a).toNat := Nat.le_trans h (Nat.le_of_not_lt hk)
  rw [get_write _ _ _ _ (Nat.le_trans h hn), List.getElem?_eq_none hlen, Option.getD_none]

/-- A write inside a run. -/
theorem agreeOff_write_of_add (m : Memory) {a x : Address} {bs : List UInt8} {n : Nat}
    (h : x.toNat + bs.length ≤ n) (hn : n ≤ UInt64.size) :
    AgreeOff (Within a n) m (m.write (a + x) bs) :=
  (agreeOff_write m (a + x) (Nat.le_refl _)
    (Nat.le_trans (Nat.le_trans (Nat.le_add_left _ _) h) hn)).mono fun _ hk => hk.of_add h

theorem agreeOff_set (m : Memory) (a : Address) (b : UInt8) :
    AgreeOff (Within a 1) m (m.set a b) := by
  intro k hk
  rw [get_set, if_neg]
  rintro rfl
  exact hk (within_self a Nat.one_pos)

/-- A byte and the bytes after it, written in two parts. -/
theorem agreeOff_writeSerial (m : Memory) (a : Address) (kind : UInt8) {bs : List UInt8} {n : Nat}
    (h : 1 + bs.length ≤ n) (hn : n ≤ UInt64.size) :
    AgreeOff (Within a n) m ((m.write (a + 1) bs).set a kind) :=
  (agreeOff_write_of_add m h hn).trans <| (agreeOff_set _ a kind).mono fun _ hk =>
    hk.mono (Nat.le_trans (Nat.le_add_right _ _) h)

theorem agreeOff_setPointer (m : Memory) (a p : Address) :
    AgreeOff (Within a 8) m (m.setPointer a p) :=
  agreeOff_write m a (Nat.le_of_eq (LittleEndian.length_encode 8 _)) (by decide)

/-- The same write to memories that agree. -/
theorem AgreeOff.write {S : Address → Prop} {m m' : Memory} (h : AgreeOff S m m') (a : Address)
    {bs : List UInt8} (hn : bs.length ≤ UInt64.size) :
    AgreeOff S (m.write a bs) (m'.write a bs) := by
  intro k hk
  rw [get_write _ _ _ _ hn, get_write _ _ _ _ hn, h k hk]

theorem AgreeOff.set {S : Address → Prop} {m m' : Memory} (h : AgreeOff S m m') (a : Address)
    (b : UInt8) : AgreeOff S (m.set a b) (m'.set a b) := by
  intro k hk
  rw [get_set, get_set, h k hk]

/-- Two writes that share no byte may trade places. -/
theorem write_comm (m : Memory) {a b : Address} {as bs : List UInt8} (ha : as.length ≤ UInt64.size)
    (hb : bs.length ≤ UInt64.size) (h : ∀ k, Within a as.length k → ¬ Within b bs.length k) :
    (m.write a as).write b bs = (m.write b bs).write a as := by
  ext k
  rw [get_write _ _ _ _ hb, get_write _ _ _ _ ha, get_write _ _ _ _ ha, get_write _ _ _ _ hb]
  by_cases hk : Within a as.length k
  · rw [List.getElem?_eq_none (Nat.le_of_not_lt (h k hk)), Option.getD_none, Option.getD_none]
  · rw [List.getElem?_eq_none (l := as) (Nat.le_of_not_lt hk), Option.getD_none, Option.getD_none]

/-- A run that is written over as far as it goes does not matter. -/
theorem write_write (m : Memory) (a : Address) {as bs : List UInt8} (h : as.length = bs.length)
    (hb : bs.length ≤ UInt64.size) : (m.write a as).write a bs = m.write a bs := by
  ext k
  rw [get_write _ _ _ _ hb, get_write _ _ _ _ hb, get_write _ _ _ _ (h ▸ hb)]
  by_cases hk : (k - a).toNat < bs.length
  · rw [List.getElem?_eq_getElem hk, Option.getD_some, Option.getD_some]
  · rw [List.getElem?_eq_none (l := as) (h ▸ Nat.le_of_not_lt hk), Option.getD_none]

theorem add_ofNat_toNat_sub (a k : Address) : a + UInt64.ofNat (k - a).toNat = k := by
  rw [UInt64.ofNat_toNat, UInt64.add_comm, UInt64.sub_add_cancel]

/-- Memories in which a run reads the same agree on it. -/
theorem AgreeOff.of_read_eq {a : Address} {n : Nat} {m m' : Memory}
    (h : m'.read a n = m.read a n) : AgreeOff (fun k => ¬ Within a n k) m m' := by
  intro k hk
  have hi : (k - a).toNat < n := Decidable.not_not.mp hk
  have hget := congrArg (·[(k - a).toNat]?) h
  simp only [getElem?_read, if_pos hi, add_ofNat_toNat_sub] at hget
  exact Option.some.inj hget

/-- Memories that agree outside a run differ by a write to it. -/
theorem AgreeOff.write_read {a : Address} {n : Nat} {m m' : Memory}
    (h : AgreeOff (Within a n) m m') (hn : n ≤ UInt64.size) : m.write a (m'.read a n) = m' := by
  refine Memory.ext fun k => ?_
  rw [get_write _ _ _ _ (by rwa [length_read]), getElem?_read, add_ofNat_toNat_sub]
  split
  · rfl
  · next hk => exact (h k hk).symm

/-! ### Fields of a written run -/

/-- A field in the middle of a run reads back as it was written. -/
theorem read_write_append (m : Memory) (a : Address) (xs ys zs : List UInt8)
    (h : (xs ++ ys ++ zs).length ≤ UInt64.size) :
    (m.write a (xs ++ ys ++ zs)).read (a + UInt64.ofNat xs.length) ys.length = ys := by
  simp only [List.length_append] at h
  have hsize : UInt64.size = 18446744073709551616 := rfl
  apply List.ext_getElem?
  intro i
  rw [getElem?_read]
  split
  · next hi =>
    have hpos : a + UInt64.ofNat xs.length + UInt64.ofNat i = a + UInt64.ofNat (xs.length + i) := by
      rw [UInt64.ofNat_add, UInt64.add_assoc]
    rw [hpos, get_write _ _ _ _ (by simp only [List.length_append]; omega),
      toNat_add_ofNat_sub_self a (by omega), List.append_assoc,
      List.getElem?_append_right (by omega),
      Nat.add_sub_cancel_left, List.getElem?_append_left hi, List.getElem?_eq_getElem hi,
      Option.getD_some]
  · next hi => rw [List.getElem?_eq_none (by omega)]

end InterCore.Memory
