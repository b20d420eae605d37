import Std.Data.ExtTreeMap
import InterCore.LittleEndian

/-!
# Byte memory

The memory both cores see: one byte at every 64-bit address, zero until something is written.
Only the bytes that differ from zero are stored, so two memories with the same contents are the
same value.

## Main definitions

* `Memory.get`, `Memory.set`: one byte.
* `Memory.read`, `Memory.write`: a run of bytes at consecutive (wrapping) addresses.
* `Memory.number`, `Memory.pointer`: little-endian fields.

## Main results

* `Memory.ext`: equal contents make equal memories.
* `Memory.get_set`: a write is read back at its own address and changes no other.
-/

namespace InterCore

/-- An address; arithmetic on addresses wraps at 64 bits. -/
abbrev Address := UInt64

/-- The address that points at nothing. -/
def Address.null : Address := 0

/-- Contents of the whole address space. Zero bytes are never stored. -/
structure Memory where
  /-- The bytes that are not zero. -/
  cells : Std.ExtTreeMap Address UInt8
  cells_ne_zero : ∀ a : Address, cells[a]? ≠ some 0

namespace Memory

/-- The memory that holds zeros only. -/
def zero : Memory where
  cells := ∅
  cells_ne_zero := by simp

instance : Inhabited Memory := ⟨zero⟩

/-- The byte at an address. -/
def get (m : Memory) (a : Address) : UInt8 :=
  m.cells.getD a 0

/-- Store one byte. -/
def set (m : Memory) (a : Address) (b : UInt8) : Memory :=
  if h : b = 0 then
    { cells := m.cells.erase a
      cells_ne_zero := by
        intro k
        rw [Std.ExtTreeMap.getElem?_erase]
        split
        · simp
        · exact m.cells_ne_zero k }
  else
    { cells := m.cells.insert a b
      cells_ne_zero := by
        intro k
        rw [Std.ExtTreeMap.getElem?_insert]
        split
        · simpa using h
        · exact m.cells_ne_zero k }

@[simp] theorem get_zero (a : Address) : zero.get a = 0 := by
  simp [zero, get]

theorem get_set (m : Memory) (a k : Address) (b : UInt8) :
    (m.set a b).get k = if a = k then b else m.get k := by
  unfold set
  split
  · next h =>
    simp only [get, Std.ExtTreeMap.getD_erase, Std.LawfulEqCmp.compare_eq_iff_eq, h]
  · simp only [get, Std.ExtTreeMap.getD_insert, Std.LawfulEqCmp.compare_eq_iff_eq]

/-- Equal contents make equal memories. -/
@[ext] theorem ext {m m' : Memory} (h : ∀ a, m.get a = m'.get a) : m = m' := by
  obtain ⟨cells, hcells⟩ := m
  obtain ⟨cells', hcells'⟩ := m'
  have heq : cells = cells' := by
    apply Std.ExtTreeMap.ext_getElem?
    intro k
    have hk := h k
    have hz := hcells k
    have hz' := hcells' k
    simp only [get, Std.ExtTreeMap.getD_eq_getD_getElem?] at hk
    cases hx : cells[k]? <;> cases hy : cells'[k]? <;> simp_all
  subst heq
  rfl

/-! ### Runs of bytes -/

/-- The bytes at `n` consecutive addresses. -/
def read (m : Memory) (a : Address) : Nat → List UInt8
  | 0 => []
  | n + 1 => m.get a :: read m (a + 1) n

/-- Store bytes at consecutive addresses, in order. -/
def write (m : Memory) (a : Address) : List UInt8 → Memory
  | [] => m
  | b :: bs => write (m.set a b) (a + 1) bs

/-- Store one byte value at `n` consecutive addresses. -/
def fill (m : Memory) (a : Address) (n : Nat) (b : UInt8) : Memory :=
  m.write a (List.replicate n b)

/-- Store zero at `n` consecutive addresses. -/
def clear (m : Memory) (a : Address) (n : Nat) : Memory where
  cells := m.cells.filter fun k _ => n ≤ (k - a).toNat
  cells_ne_zero := by
    intro k hk
    rw [Std.ExtTreeMap.getElem?_filter'] at hk
    exact m.cells_ne_zero k (Option.eq_some_of_filter_eq_some hk)

theorem get_clear (m : Memory) (a k : Address) (n : Nat) :
    (m.clear a n).get k = if (k - a).toNat < n then 0 else m.get k := by
  simp only [get, clear, Std.ExtTreeMap.getD_eq_getD_getElem?, Std.ExtTreeMap.getElem?_filter']
  by_cases h : (k - a).toNat < n
  · cases m.cells[k]? <;> simp [h, Nat.not_le.mpr h]
  · cases m.cells[k]? <;> simp [h, Nat.not_lt.mp h, Option.filter]

@[simp] theorem length_read (m : Memory) (a : Address) (n : Nat) : (m.read a n).length = n := by
  induction n generalizing a with
  | zero => rfl
  | succ n ih => simp [read, ih]

/-! ### Little-endian fields -/

/-- The number in a field of `width` bytes. -/
def number (m : Memory) (a : Address) (width : Nat) : Nat :=
  LittleEndian.decode (m.read a width)

/-- Store a number in a field of `width` bytes. -/
def setNumber (m : Memory) (a : Address) (width n : Nat) : Memory :=
  m.write a (LittleEndian.encode width n)

/-- The pointer in an eight-byte field. -/
def pointer (m : Memory) (a : Address) : Address :=
  UInt64.ofNat (m.number a 8)

/-- Store a pointer in an eight-byte field. -/
def setPointer (m : Memory) (a p : Address) : Memory :=
  m.setNumber a 8 p.toNat

end Memory

end InterCore
