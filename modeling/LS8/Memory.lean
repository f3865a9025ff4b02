/-
The memory: a row of byte cells, 256 of them in every machine that is built
here. A machine that is read back from text may bring another number of
cells, so an address is checked against the cells that are there, and an
operation that needs cells which are not there says so (`cutShort`) instead
of inventing their contents.

# What is checked, in which order

A program is first measured against the room that a full memory has behind
its start, whatever the number of cells; only then must the cells exist.
-/
import LS8.Text.Record
import LS8.Numeral

namespace LS8

/-- The byte cells of a machine. -/
structure Memory where
  cells : Array UInt8
  deriving DecidableEq, Repr

/-- Why memory refuses. -/
inductive MemoryError where
  /-- No cell has this address. -/
  | addressOutOfRange (address : Nat)
  /-- A program of `size` bytes does not fit the room that a full memory
  has. -/
  | programTooLarge (size available : Nat)
  /-- The cells end before the address `stop` of a stretch that is wanted
  as a whole. -/
  | cutShort (stop cells : Nat)
  deriving DecidableEq, Repr

/-- The error as a reader sees it. -/
def MemoryError.message : MemoryError → String
  | .addressOutOfRange address =>
      "memory address " ++ Numeral.decimal address ++ " out of range (0-255)"
  | .programTooLarge size available =>
      "program size " ++ Numeral.decimal size ++ " exceeds available space "
        ++ Numeral.decimal available
  | .cutShort stop cells =>
      "memory ends at " ++ Numeral.decimal cells ++ ", wanted up to " ++ Numeral.decimal stop

namespace Memory

/-- The number of addresses, and of cells in a full memory. -/
def capacity : Nat := 256

/-- There is a cell for every address, and no other. -/
def Full (mem : Memory) : Prop :=
  mem.cells.size = capacity

instance (mem : Memory) : Decidable mem.Full :=
  inferInstanceAs (Decidable (mem.cells.size = capacity))

/-- A full memory of zeros. -/
def blank : Memory :=
  ⟨Array.replicate capacity 0⟩

-- ========================================================= single cells

/-- The byte at `address`. -/
def read (mem : Memory) (address : Nat) : Except MemoryError UInt8 :=
  match mem.cells[address]? with
  | some value => .ok value
  | none => .error (.addressOutOfRange address)

/-- The memory with `value` at `address`. -/
def write (mem : Memory) (address : Nat) (value : UInt8) : Except MemoryError Memory :=
  if address < mem.cells.size then .ok ⟨mem.cells.setIfInBounds address value⟩
  else .error (.addressOutOfRange address)

/-- The byte at `address`, zero where there is no cell: for displays, which
never fail. -/
def peek (mem : Memory) (address : Nat) : UInt8 :=
  mem.cells.getD address 0

theorem peek_eq (mem : Memory) (address : Nat) :
    mem.peek address = mem.cells[address]?.getD 0 :=
  Array.getD_eq_getD_getElem? ..

/-- A byte is read at an address exactly if a cell there holds it. -/
theorem read_eq_ok_iff {mem : Memory} {address : Nat} {value : UInt8} :
    mem.read address = .ok value ↔ mem.cells[address]? = some value := by
  unfold read
  cases mem.cells[address]? <;> simp

/-- A write changes the one cell, and there is no cell more or less. -/
theorem getElem?_write {mem mem' : Memory} {address : Nat} {value : UInt8}
    (h : mem.write address value = .ok mem') (a : Nat) :
    mem'.cells[a]? = if a = address then some value else mem.cells[a]? := by
  unfold write at h
  split at h
  · next hlt =>
    cases h
    rw [Array.getElem?_setIfInBounds]
    grind
  · cases h

theorem size_write {mem mem' : Memory} {address : Nat} {value : UInt8}
    (h : mem.write address value = .ok mem') : mem'.cells.size = mem.cells.size := by
  unfold write at h
  split at h
  · cases h; simp
  · cases h

/-- In a full memory every address is read. -/
theorem Full.read_eq {mem : Memory} (h : mem.Full) {address : Nat} (hlt : address < capacity) :
    mem.read address = .ok (mem.peek address) := by
  have hlt' : address < mem.cells.size := by rwa [h]
  rw [read_eq_ok_iff, peek_eq, Array.getElem?_eq_getElem hlt']
  rfl

/-- And no other. -/
theorem Full.read_of_le {mem : Memory} (h : mem.Full) {address : Nat} (hle : capacity ≤ address) :
    mem.read address = .error (.addressOutOfRange address) := by
  have hnone : mem.cells[address]? = none := Array.getElem?_eq_none (by rwa [h])
  rw [read, hnone]

theorem peek_of_size_le {mem : Memory} {address : Nat} (h : mem.cells.size ≤ address) :
    mem.peek address = 0 := by
  rw [peek_eq, Array.getElem?_eq_none h]
  rfl

/-- A full memory is written at its addresses and at no other. -/
theorem Full.write_eq {mem : Memory} (h : mem.Full) (address : Nat) (value : UInt8) :
    mem.write address value =
      if address < capacity then .ok ⟨mem.cells.setIfInBounds address value⟩
      else .error (.addressOutOfRange address) := by
  rw [write, h]

theorem Full.exists_write {mem : Memory} (h : mem.Full) {address : Nat}
    (hlt : address < capacity) (value : UInt8) : ∃ mem', mem.write address value = .ok mem' :=
  ⟨_, (h.write_eq address value).trans (if_pos hlt)⟩

-- ============================================================ stretches

/-- As many cells as before, all zero. -/
def clear (mem : Memory) : Memory :=
  ⟨Array.replicate mem.cells.size 0⟩

/-- The bytes from `start` up to but not including `stop`, all of which must
be there. -/
def slice (mem : Memory) (start stop : Nat) : Except MemoryError (List UInt8) :=
  if stop ≤ mem.cells.size then .ok (mem.cells.extract start stop).toList
  else .error (.cutShort stop mem.cells.size)

/-- In a full memory every stretch of addresses is there. -/
theorem Full.slice_eq {mem : Memory} (h : mem.Full) {stop : Nat} (start : Nat)
    (hle : stop ≤ capacity) : mem.slice start stop = .ok (mem.cells.extract start stop).toList := by
  have hle' : stop ≤ mem.cells.size := by rwa [h]
  exact if_pos hle'

/-- The cells with `bytes` in place of those from `start` on. -/
def overwrite (cells : Array UInt8) (start : Nat) (bytes : List UInt8) : Array UInt8 :=
  cells.extract 0 start ++ bytes.toArray ++ cells.extract (start + bytes.length) cells.size

/-- The memory with `bytes` from address `start` on. -/
def load (mem : Memory) (start : Nat) (bytes : List UInt8) : Except MemoryError Memory :=
  if capacity - start < bytes.length then
    .error (.programTooLarge bytes.length (capacity - start))
  else if mem.cells.size < start + bytes.length then
    .error (.cutShort (start + bytes.length) mem.cells.size)
  else
    .ok ⟨overwrite mem.cells start bytes⟩

theorem size_overwrite {cells : Array UInt8} {start : Nat} {bytes : List UInt8}
    (h : start + bytes.length ≤ cells.size) :
    (overwrite cells start bytes).size = cells.size := by
  simp only [overwrite, Array.size_append, Array.size_extract, List.size_toArray]
  omega

/-- In a blank memory zeros are left behind the bytes. -/
theorem overwrite_blank (bytes : List UInt8) :
    overwrite blank.cells 0 bytes =
      ⟨bytes ++ List.replicate (capacity - bytes.length) 0⟩ := by
  have hfront : blank.cells.extract 0 0 = #[] := by simp
  have hback : blank.cells.extract (0 + bytes.length) blank.cells.size =
      (List.replicate (capacity - bytes.length) 0).toArray := by
    simp [blank]
  rw [overwrite, hfront, hback]
  simp

/-- The bytes stand at the addresses from `start` on, and every other cell is
as before. -/
theorem getElem?_overwrite {cells : Array UInt8} {start : Nat} {bytes : List UInt8}
    (h : start + bytes.length ≤ cells.size) (a : Nat) :
    (overwrite cells start bytes)[a]? =
      if start ≤ a ∧ a < start + bytes.length then bytes[a - start]? else cells[a]? := by
  have h1 : (cells.extract 0 start).size = start := by rw [Array.size_extract]; omega
  have h2 : (cells.extract 0 start ++ bytes.toArray).size = start + bytes.length := by
    rw [Array.size_append, h1, List.size_toArray]
  rw [overwrite, Array.getElem?_append, Array.getElem?_append, h1, h2]
  simp only [Array.getElem?_extract, List.getElem?_toArray]
  by_cases hlo : start ≤ a
  · by_cases hhi : a < start + bytes.length
    · have hnot : ¬ a < start := by omega
      simp [hhi, hlo, hnot]
    · have hge : start + bytes.length + (a - (start + bytes.length)) = a := by omega
      simp only [hhi, hlo, hge, and_false, if_false]
      split
      · rfl
      · exact (Array.getElem?_eq_none (by omega)).symm
  · have hlt : a < start + bytes.length := by omega
    have hmin : a < min start cells.size := by omega
    have hnot : a < start := by omega
    simp [hlo, hlt, hmin, hnot]

/-- A load succeeds exactly if a full memory has the room and the cells are
there. -/
theorem load_eq_ok_iff {mem mem' : Memory} {start : Nat} {bytes : List UInt8} :
    mem.load start bytes = .ok mem' ↔
      bytes.length ≤ capacity - start ∧ start + bytes.length ≤ mem.cells.size
        ∧ mem' = ⟨overwrite mem.cells start bytes⟩ := by
  unfold load
  split
  · simp; omega
  · split
    · simp; omega
    · simp only [Except.ok.injEq]
      constructor
      · rintro rfl
        exact ⟨by omega, by omega, rfl⟩
      · rintro ⟨-, -, rfl⟩
        rfl

/-- A full memory takes the bytes that end where it ends. Others are too
many for it, except that no bytes are never too many. -/
theorem Full.load_eq {mem : Memory} (h : mem.Full) (start : Nat) (bytes : List UInt8) :
    mem.load start bytes =
      if start + bytes.length ≤ capacity then .ok ⟨overwrite mem.cells start bytes⟩
      else if bytes = [] then .error (.cutShort start capacity)
      else .error (.programTooLarge bytes.length (capacity - start)) := by
  have hsize : mem.cells.size = capacity := h
  rw [load, hsize]
  by_cases hfits : start + bytes.length ≤ capacity
  · rw [if_neg (by omega), if_neg (by omega), if_pos hfits]
  · rw [if_neg hfits]
    cases bytes with
    | nil =>
        rw [List.length_nil, Nat.add_zero] at hfits ⊢
        rw [if_neg (by omega), if_pos (by omega), if_pos rfl]
    | cons b bytes =>
        rw [List.length_cons] at hfits ⊢
        rw [if_pos (by omega), if_neg (List.cons_ne_nil b bytes)]

/-- `count` cells from `start` on with their addresses, as far as there are
addresses. The address behind the last one is computed in 64-bit words. -/
def dump (mem : Memory) (start count : Nat) : Except MemoryError (List (Nat × UInt8)) :=
  let stop := min ((start + count) % UInt64.size) capacity
  if stop ≤ start then .ok []
  else (mem.slice start stop).map fun bytes => (bytes.zipIdx start).map Prod.swap

-- ============================================================== display

/-- How many cells are not zero. -/
def nonZeroCells (mem : Memory) : Nat :=
  (mem.cells.filter (· ≠ 0)).size

/-- The record form, for diagnostics. It names the number of addresses, not
of cells. -/
def describe (mem : Memory) : String :=
  Text.record "Memory"
    [("non_zero_cells", Numeral.decimal mem.nonZeroCells),
     ("total_cells", Numeral.decimal capacity)]

end Memory

end LS8
