import InterCore.Memory

/-!
# Reading what was written

Laws of runs of bytes and of pointers in memory. Addresses wrap, so whether an address lies in a
run is told by its distance from the start of the run.

## Main results

* `Memory.get_write`: a byte after a run was written.
* `Memory.read_write_self`: a run after it was written.
* `Memory.pointer_setPointer_self`: a pointer after it was stored.
-/

namespace InterCore.Memory

/-- One step further on, the distance is one less, unless the step passes the address. -/
theorem toNat_sub_succ {a k : Address} (h : k ≠ a) :
    (k - a).toNat = (k - (a + 1)).toNat + 1 := by
  have hne : k.toNat ≠ a.toNat := fun e => h (UInt64.toNat_inj.mp e)
  have hk := k.toNat_lt
  have ha := a.toNat_lt
  simp only [UInt64.toNat_sub, UInt64.toNat_add, UInt64.reduceToNat]
  omega

theorem toNat_sub_add_one_self (a : Address) : (a - (a + 1)).toNat = 18446744073709551615 := by
  have ha := a.toNat_lt
  simp only [UInt64.toNat_sub, UInt64.toNat_add, UInt64.reduceToNat]
  omega

/-- After a run was written, its addresses hold its bytes and all others what they held. -/
theorem get_write (m : Memory) (a k : Address) (bs : List UInt8) (h : bs.length ≤ UInt64.size) :
    (m.write a bs).get k = bs[(k - a).toNat]?.getD (m.get k) := by
  induction bs generalizing m a with
  | nil => simp [write]
  | cons b bs ih =>
    have hlen : bs.length + 1 ≤ UInt64.size := by simpa using h
    rw [write, ih _ _ (Nat.le_of_succ_le hlen), get_set]
    by_cases hk : k = a
    · subst hk
      have hout : bs[(k - (k + 1)).toNat]? = none := by
        rw [toNat_sub_add_one_self]
        exact List.getElem?_eq_none (Nat.le_of_succ_le_succ hlen)
      rw [hout, Option.getD_none, if_pos rfl, UInt64.sub_self]
      rfl
    · simp [toNat_sub_succ hk, Ne.symm hk]

theorem getElem?_read (m : Memory) (a : Address) (n i : Nat) :
    (m.read a n)[i]? = if i < n then some (m.get (a + UInt64.ofNat i)) else none := by
  induction n generalizing a i with
  | zero => simp [read]
  | succ n ih =>
    cases i with
    | zero => simp [read]
    | succ i =>
      have hshift : a + UInt64.ofNat (i + 1) = a + 1 + UInt64.ofNat i := by
        rw [UInt64.ofNat_add, UInt64.add_assoc, UInt64.add_comm (UInt64.ofNat i)]
        rfl
      rw [read, List.getElem?_cons_succ, ih, hshift]
      simp only [Nat.add_lt_add_iff_right]

/-- A run of bytes is read in two parts. -/
theorem read_add (m : Memory) (a : Address) (k n : Nat) :
    m.read a (k + n) = m.read a k ++ m.read (a + UInt64.ofNat k) n := by
  induction k generalizing a with
  | zero =>
    rw [Nat.zero_add, read, List.nil_append, show UInt64.ofNat 0 = 0 from rfl, UInt64.add_zero]
  | succ k ih =>
    have hshift : a + 1 + UInt64.ofNat k = a + UInt64.ofNat (k + 1) := by
      rw [Nat.add_comm k, UInt64.ofNat_add, UInt64.add_assoc]
      rfl
    rw [Nat.succ_add, read, read, ih, hshift, List.cons_append]

/-- Two runs with the same bytes are the same. -/
theorem read_congr {m m' : Memory} {a : Address} {n : Nat}
    (h : ∀ i < n, m.get (a + UInt64.ofNat i) = m'.get (a + UInt64.ofNat i)) :
    m.read a n = m'.read a n := by
  apply List.ext_getElem?
  intro i
  rw [getElem?_read, getElem?_read]
  split
  · next hi => rw [h i hi]
  · rfl

theorem toNat_add_ofNat_sub_self (a : Address) {i : Nat} (h : i < UInt64.size) :
    (a + UInt64.ofNat i - a).toNat = i := by
  rw [UInt64.add_comm, UInt64.add_sub_cancel, UInt64.toNat_ofNat_of_lt' h]

/-- A run reads back as it was written. -/
theorem read_write_self (m : Memory) (a : Address) (bs : List UInt8) (h : bs.length ≤ UInt64.size) :
    (m.write a bs).read a bs.length = bs := by
  apply List.ext_getElem?
  intro i
  rw [getElem?_read]
  split
  · next hi =>
    rw [get_write _ _ _ _ h, toNat_add_ofNat_sub_self a (by omega), List.getElem?_eq_getElem hi]
    rfl
  · next hi => rw [List.getElem?_eq_none (by omega)]

/-- A pointer reads back as it was stored. -/
@[simp] theorem pointer_setPointer_self (m : Memory) (a p : Address) :
    (m.setPointer a p).pointer a = p := by
  have hp : p.toNat < LittleEndian.bound 8 := p.toNat_lt
  have hread := read_write_self m a (LittleEndian.encode 8 p.toNat)
    (by rw [LittleEndian.length_encode]; decide)
  rw [LittleEndian.length_encode] at hread
  simp only [pointer, setPointer, number, setNumber, hread, LittleEndian.decode_encode]
  rw [Nat.mod_eq_of_lt hp, UInt64.ofNat_toNat]

end InterCore.Memory
