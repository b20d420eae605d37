import InterCore.Peer
import InterCore.Proofs.Placement

/-!
# The published tables

The tables that a boot stores are read back by the peer as they were stored, and stay so as long as
nothing is written to their bytes.

## Main definitions

* `Placement.bleTable`, `Placement.systemTable`, `Placement.bufferTable`, `Placement.tracesTable`:
  the tables of a placement.
* `Published`: the peer finds every table of a placement.

## Main results

* `ReferenceTable.load_store` and the same for every table: what is stored is loaded.
* `Published.of_agreeOff`: stores elsewhere keep the tables.
-/

namespace InterCore

/-! ### Pointers in a row -/

namespace Memory

theorem length_pointerBytes (q : Address) : (pointerBytes q).length = 8 :=
  LittleEndian.length_encode 8 _

theorem length_flatMap_pointerBytes (ps : List Address) :
    (ps.flatMap pointerBytes).length = 8 * ps.length := by
  induction ps with
  | nil => rfl
  | cons q ps ih =>
    rw [List.flatMap_cons, List.length_append, length_pointerBytes, ih, List.length_cons]
    omega

/-- Fields written one after the other. -/
theorem read_write_flatten (m : Memory) (a : Address) {fields : List (List UInt8)} {i offset : Nat}
    (h : fields.flatten.length ≤ UInt64.size) (hi : i < fields.length)
    (hoffset : (fields.take i).flatten.length = offset) :
    (m.write a fields.flatten).read (a + UInt64.ofNat offset) fields[i].length = fields[i] := by
  have hsplit : fields.flatten =
      (fields.take i).flatten ++ fields[i] ++ (fields.drop (i + 1)).flatten := by
    conv => lhs; rw [← List.take_append_drop i fields, List.drop_eq_getElem_cons hi]
    rw [List.flatten_append, List.flatten_cons, List.append_assoc]
  subst hoffset
  rw [hsplit] at h ⊢
  exact read_write_append m a _ _ _ h

theorem number_write_flatten (m : Memory) (a : Address) {fields : List (List UInt8)}
    {i offset width n : Nat} (h : fields.flatten.length ≤ UInt64.size) (hi : i < fields.length)
    (hoffset : (fields.take i).flatten.length = offset)
    (hfield : fields[i] = LittleEndian.encode width n) :
    (m.write a fields.flatten).number (a + UInt64.ofNat offset) width =
      n % LittleEndian.bound width := by
  have hread := read_write_flatten m a h hi hoffset
  rw [hfield, LittleEndian.length_encode] at hread
  rw [number, hread, LittleEndian.decode_encode]

theorem pointer_write_flatten (m : Memory) (a : Address) {q : Address}
    {fields : List (List UInt8)} {i offset : Nat} (h : fields.flatten.length ≤ UInt64.size)
    (hi : i < fields.length) (hoffset : (fields.take i).flatten.length = offset)
    (hfield : fields[i] = pointerBytes q) :
    (m.write a fields.flatten).pointer (a + UInt64.ofNat offset) = q := by
  have hq : q.toNat < LittleEndian.bound 8 := q.toNat_lt
  rw [pointer, number_write_flatten m a h hi hoffset hfield, Nat.mod_eq_of_lt hq,
    UInt64.ofNat_toNat]

/-- Pointers stored one after the other. -/
theorem pointer_write_pointers (m : Memory) (a : Address) (ps : List Address)
    (h : 8 * ps.length ≤ UInt64.size) {i : Nat} (hi : i < ps.length) :
    (m.write a (ps.flatMap pointerBytes)).pointer (a + UInt64.ofNat (8 * i)) = ps[i] := by
  rw [List.flatMap_def]
  refine pointer_write_flatten m a ?_ (by rwa [List.length_map]) ?_ (List.getElem_map _)
  · rw [← List.flatMap_def, length_flatMap_pointerBytes]
    exact h
  · rw [← List.map_take, ← List.flatMap_def, length_flatMap_pointerBytes, List.length_take,
      Nat.min_eq_left (Nat.le_of_lt hi)]

theorem pointer_write_first (m : Memory) (a q : Address) (ps : List Address)
    (h : 8 * (ps.length + 1) ≤ UInt64.size) :
    (m.write a ((q :: ps).flatMap pointerBytes)).pointer a = q := by
  have := pointer_write_pointers m a (q :: ps) h (i := 0) (Nat.succ_pos _)
  rwa [show a + UInt64.ofNat (8 * 0) = a from UInt64.add_zero a] at this

end Memory

/-! ### Stored tables are loaded -/

theorem ReferenceTable.load_store (t : ReferenceTable) (m : Memory) (a : Address) :
    load (t.store m a) a = t := by
  have hfirst := Memory.pointer_write_first m a t.deviceInfo t.toList.tail
    (show 80 ≤ UInt64.size by decide)
  have hkey := fun i (hi : i < 10) => Memory.pointer_write_pointers m a t.toList
    (show 80 ≤ UInt64.size by decide) (i := i) hi
  cases t
  simp only [load, mk.injEq]
  exact ⟨hfirst, hkey 1 (by decide), hkey 2 (by decide), hkey 3 (by decide), hkey 4 (by decide),
    hkey 5 (by decide), hkey 6 (by decide), hkey 7 (by decide), hkey 8 (by decide),
    hkey 9 (by decide)⟩

theorem BleTable.load_store (t : BleTable) (m : Memory) (a : Address) :
    load (t.store m a) a = t := by
  have hfirst := Memory.pointer_write_first m a t.command t.toList.tail
    (show 32 ≤ UInt64.size by decide)
  have hkey := fun i (hi : i < 4) => Memory.pointer_write_pointers m a t.toList
    (show 32 ≤ UInt64.size by decide) (i := i) hi
  cases t
  simp only [load, mk.injEq]
  exact ⟨hfirst, hkey 1 (by decide), hkey 2 (by decide), hkey 3 (by decide)⟩

theorem SystemTable.load_store (t : SystemTable) (m : Memory) (a : Address) :
    load (t.store m a) a = t := by
  have hfirst := Memory.pointer_write_first m a t.command t.toList.tail
    (show 16 ≤ UInt64.size by decide)
  have hkey := fun i (hi : i < 2) => Memory.pointer_write_pointers m a t.toList
    (show 16 ≤ UInt64.size by decide) (i := i) hi
  cases t
  simp only [load, mk.injEq]
  exact ⟨hfirst, hkey 1 (by decide)⟩

/-- The fields of the table of the event buffers, in order. -/
def BufferTable.fields (t : BufferTable) : List (List UInt8) :=
  [pointerBytes t.spareBle, pointerBytes t.spareSystem, pointerBytes t.pool,
    LittleEndian.encode 4 t.poolSize.toNat, pointerBytes t.freeQueue, pointerBytes t.tracesPool,
    LittleEndian.encode 4 t.tracesPoolSize.toNat]

theorem BufferTable.store_eq (t : BufferTable) (m : Memory) (a : Address) :
    t.store m a = m.write a t.fields.flatten := by
  simp [store, fields]

theorem BufferTable.load_store (t : BufferTable) (m : Memory) (a : Address) :
    load (t.store m a) a = t := by
  have hlen : t.fields.flatten.length ≤ UInt64.size := show 48 ≤ UInt64.size by decide
  have hword {n : UInt32} {i offset : Nat} (hi : i < 7)
      (hoffset : (t.fields.take i).flatten.length = offset)
      (hfield : t.fields[i] = LittleEndian.encode 4 n.toNat) :
      UInt32.ofNat ((t.store m a).number (a + UInt64.ofNat offset) 4) = n := by
    rw [store_eq, Memory.number_write_flatten m a hlen hi hoffset hfield,
      Nat.mod_eq_of_lt (show n.toNat < LittleEndian.bound 4 from n.toNat_lt), UInt32.ofNat_toNat]
  have hpointer {q : Address} {i offset : Nat} (hi : i < 7)
      (hoffset : (t.fields.take i).flatten.length = offset)
      (hfield : t.fields[i] = pointerBytes q) :
      (t.store m a).pointer (a + UInt64.ofNat offset) = q := by
    rw [store_eq]
    exact Memory.pointer_write_flatten m a hlen hi hoffset hfield
  have hfirst : (t.store m a).pointer a = t.spareBle := by
    have := @hpointer t.spareBle 0 0 (by decide) rfl rfl
    rwa [show a + UInt64.ofNat 0 = a from UInt64.add_zero a] at this
  cases t
  simp only [load, mk.injEq]
  exact ⟨hfirst, hpointer (i := 1) (by decide) rfl rfl, hpointer (i := 2) (by decide) rfl rfl,
    hword (i := 3) (by decide) rfl rfl, hpointer (i := 4) (by decide) rfl rfl,
    hpointer (i := 5) (by decide) rfl rfl, hword (i := 6) (by decide) rfl rfl⟩

theorem TracesTable.load_store (t : TracesTable) (m : Memory) (a : Address) :
    load (t.store m a) a = t := by
  have hfirst := Memory.pointer_write_first m a t.queue [] (by decide)
  rw [List.flatMap_cons, List.flatMap_nil, List.append_nil] at hfirst
  exact congrArg mk hfirst

/-! ### Tables are stored in their bytes only -/

theorem Memory.agreeOff_write_pointers (m : Memory) (a : Address) {ps : List Address} {n : Nat}
    (h : 8 * ps.length = n) (hn : n ≤ UInt64.size) :
    AgreeOff (Within a n) m (m.write a (ps.flatMap pointerBytes)) :=
  agreeOff_write m a (Nat.le_of_eq ((length_flatMap_pointerBytes ps).trans h)) hn

theorem BleTable.agreeOff_store (t : BleTable) (m : Memory) (a : Address) :
    Memory.AgreeOff (Memory.Within a 32) m (t.store m a) :=
  Memory.agreeOff_write_pointers m a rfl (by decide)

theorem SystemTable.agreeOff_store (t : SystemTable) (m : Memory) (a : Address) :
    Memory.AgreeOff (Memory.Within a 16) m (t.store m a) :=
  Memory.agreeOff_write_pointers m a rfl (by decide)

theorem BufferTable.agreeOff_store (t : BufferTable) (m : Memory) (a : Address) :
    Memory.AgreeOff (Memory.Within a 48) m (t.store m a) := by
  rw [store_eq]
  exact Memory.agreeOff_write m a (show 48 ≤ 48 from Nat.le_refl 48) (by decide)

theorem TracesTable.agreeOff_store (t : TracesTable) (m : Memory) (a : Address) :
    Memory.AgreeOff (Memory.Within a 8) m (t.store m a) :=
  Memory.agreeOff_write m a (Nat.le_of_eq (Memory.length_pointerBytes _)) (by decide)

/-! ### Tables are read from their bytes only -/

section Congr

variable {S : Address → Prop} {m m' : Memory} {a : Address} (h : Memory.AgreeOff S m m')
include h

theorem ReferenceTable.load_congr (hS : ∀ k, Memory.Within a 80 k → ¬ S k) :
    load m' a = load m a := by
  have hfield {x : Address} (hx : x.toNat + 8 ≤ 80) : m'.pointer (a + x) = m.pointer (a + x) :=
    h.pointer_eq fun k hk => hS k (hk.of_add hx)
  have hfirst : m'.pointer a = m.pointer a := h.pointer_eq fun k hk => hS k (hk.mono (by decide))
  rw [load, load, hfirst, hfield (by decide), hfield (by decide), hfield (by decide),
    hfield (by decide), hfield (by decide), hfield (by decide), hfield (by decide),
    hfield (by decide), hfield (by decide)]

theorem BleTable.load_congr (hS : ∀ k, Memory.Within a 32 k → ¬ S k) : load m' a = load m a := by
  have hfield {x : Address} (hx : x.toNat + 8 ≤ 32) : m'.pointer (a + x) = m.pointer (a + x) :=
    h.pointer_eq fun k hk => hS k (hk.of_add hx)
  have hfirst : m'.pointer a = m.pointer a := h.pointer_eq fun k hk => hS k (hk.mono (by decide))
  rw [load, load, hfirst, hfield (by decide), hfield (by decide), hfield (by decide)]

theorem SystemTable.load_congr (hS : ∀ k, Memory.Within a 16 k → ¬ S k) :
    load m' a = load m a := by
  have hfirst : m'.pointer a = m.pointer a := h.pointer_eq fun k hk => hS k (hk.mono (by decide))
  have hsecond : m'.pointer (a + 8) = m.pointer (a + 8) :=
    h.pointer_eq fun k hk => hS k (hk.of_add (by decide))
  rw [load, load, hfirst, hsecond]

theorem BufferTable.load_congr (hS : ∀ k, Memory.Within a 48 k → ¬ S k) :
    load m' a = load m a := by
  have hfield {x : Address} (hx : x.toNat + 8 ≤ 48) : m'.pointer (a + x) = m.pointer (a + x) :=
    h.pointer_eq fun k hk => hS k (hk.of_add hx)
  have hword {x : Address} (hx : x.toNat + 4 ≤ 48) : m'.number (a + x) 4 = m.number (a + x) 4 :=
    h.number_eq fun k hk => hS k (hk.of_add hx)
  have hfirst : m'.pointer a = m.pointer a := h.pointer_eq fun k hk => hS k (hk.mono (by decide))
  rw [load, load, hfirst, hfield (by decide), hfield (by decide), hword (by decide),
    hfield (by decide), hfield (by decide), hword (by decide)]

theorem TracesTable.load_congr (hS : ∀ k, Memory.Within a 8 k → ¬ S k) :
    load m' a = load m a := by
  rw [load, load, h.pointer_eq hS]

end Congr

/-! ### The tables of a placement -/

namespace Placement

variable (p : Placement)

/-- The table of the BLE endpoint. -/
def bleTable : BleTable where
  command := p.address .bleCommand
  commandStatus := p.address .commandStatus
  eventQueue := p.address (.queue .ble)
  aclData := p.address .aclData

/-- The table of the system endpoint. -/
def systemTable : SystemTable where
  command := p.address .systemCommand
  eventQueue := p.address (.queue .system)

/-- The table of the event buffers. -/
def bufferTable : BufferTable where
  spareBle := p.address (.spare .ble)
  spareSystem := p.address (.spare .system)
  pool := p.address .pool
  poolSize := UInt32.ofNat InterCore.poolSize
  freeQueue := p.address (.queue .free)
  tracesPool := Address.null
  tracesPoolSize := 0

/-- The table of the traces, which names a queue only if traces are switched on. -/
def tracesTable (traces : Bool) : TracesTable where
  queue := if traces then p.address (.queue .traces) else Address.null

/-- The bytes of the tables. -/
def TableByte (k : Address) : Prop :=
  Extent.Covers p ⟨.referenceTable, 0, 80⟩ k ∨ Extent.Covers p ⟨.control, 0, 248⟩ k

end Placement

/-- The peer finds every table of the placement. -/
structure Published (p : Placement) (traces : Bool) (m : Memory) : Prop where
  references : ReferenceTable.load m p.referenceTable = p.references
  ble : BleTable.load m (p.address (.table .ble)) = p.bleTable
  system : SystemTable.load m (p.address (.table .system)) = p.systemTable
  buffers : BufferTable.load m (p.address (.table .buffers)) = p.bufferTable
  traces : TracesTable.load m (p.address (.table .traces)) = p.tracesTable traces

theorem Placement.tableByte_of_references {p : Placement} {k : Address}
    (hk : Memory.Within p.referenceTable 80 k) : p.TableByte k := by
  rw [← UInt64.add_zero p.referenceTable] at hk
  exact Or.inl hk

/-- The bytes of a table object are bytes of the tables. -/
theorem Placement.Valid.tableByte_of {p : Placement} (hp : p.Valid) {t : Table} {k : Address}
    (hk : Memory.Within (p.address (.table t)) (Object.table t).size k) : p.TableByte k := by
  rw [Object.address_eq] at hk
  refine Or.inr (hp.covers_mono (Object.extent_fits _) (by decide) ?_ hk)
  cases t <;> decide

/-- **Stores elsewhere keep the tables.** -/
theorem Published.of_agreeOff {p : Placement} {traces : Bool} {S : Address → Prop}
    {m m' : Memory} (hpub : Published p traces m) (hp : p.Valid) (h : Memory.AgreeOff S m m')
    (hS : ∀ k, p.TableByte k → ¬ S k) : Published p traces m' where
  references := by
    rw [ReferenceTable.load_congr h fun k hk => hS k (Placement.tableByte_of_references hk),
      hpub.references]
  ble := by rw [BleTable.load_congr h fun k hk => hS k (hp.tableByte_of hk), hpub.ble]
  system := by rw [SystemTable.load_congr h fun k hk => hS k (hp.tableByte_of hk), hpub.system]
  buffers := by rw [BufferTable.load_congr h fun k hk => hS k (hp.tableByte_of hk), hpub.buffers]
  traces := by rw [TracesTable.load_congr h fun k hk => hS k (hp.tableByte_of hk), hpub.traces]

end InterCore
