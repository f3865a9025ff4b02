/-
Memory as a map from addresses to bytes.

Whatever is written, loaded and cleared, a memory that began blank is the map
which gives every address the byte that was put there last (`lastPut`). An
operation that does not fit is refused and puts nothing, and since a full
memory stays full, what fits is said without looking at the memory
(`Operation.Fits`). So there is one lemma for what a cell holds behind an
operation (`Full.peek_after`), one for what the operation adds to the map
(`lastPut_concat`), and the induction is from the end of the history, where
the last byte is put.

# Stretches at their limits

A dump is compared with the cells of a stretch, picked from all addresses
(`between`). The address behind the stretch is computed in 64-bit words, and
where it does not fit them nothing is listed. A load measures the bytes
against the room behind its start, and behind the last cell there is none. No
bytes need no room, so it is the empty load alone that such a start does not
refuse in time.
-/
import Mathlib.Data.List.Induction
import LS8.Memory

namespace LS8.Memory

variable {mem mem' : Memory} {start stop count a : Nat}

-- =============================================================== dumps

/-- The cells from `start` up to but not including `stop`, in the order of
their addresses. -/
def between (mem : Memory) (start stop : Nat) : List (Nat × UInt8) :=
  ((List.range capacity).filter fun a => start ≤ a ∧ a < stop).map fun a => (a, mem.peek a)

/-- The addresses of a stretch follow one another. -/
theorem filter_range_eq (n start stop : Nat) :
    ((List.range n).filter fun a => start ≤ a ∧ a < stop) =
      List.range' start (min stop n - start) := by
  induction n with
  | zero => simp
  | succ n ih =>
      rw [List.range_succ, List.filter_append, ih]
      by_cases hin : start ≤ n ∧ n < stop
      · have hlen : min stop (n + 1) - start = min stop n - start + 1 := by omega
        have hlast : start + 1 * (min stop n - start) = n := by omega
        rw [hlen, List.range'_concat, hlast]
        simp [hin]
      · have hlen : min stop (n + 1) - start = min stop n - start := by omega
        rw [hlen]
        simp [hin]

theorem between_eq_nil (hle : min stop capacity ≤ start) : mem.between start stop = [] := by
  rw [between, filter_range_eq, Nat.sub_eq_zero_of_le hle]
  rfl

theorem between_ne_nil (hstart : start < capacity) (hlt : start < stop) :
    mem.between start stop ≠ [] := by
  have hmem : start ∈ (List.range capacity).filter fun a => start ≤ a ∧ a < stop := by
    simpa using ⟨hstart, hlt⟩
  exact List.ne_nil_of_mem (List.mem_map_of_mem hmem)

/-- The bytes of a stretch, numbered from its start, are the cells there. -/
theorem rows_extract (hle : stop ≤ mem.cells.size) :
    (((mem.cells.extract start stop).toList.zipIdx start).map Prod.swap) =
      (List.range' start (stop - start)).map fun a => (a, mem.peek a) := by
  refine List.ext_getElem ?_ fun k hk hk' => ?_
  · simp only [List.length_map, List.length_zipIdx, Array.length_toList, Array.size_extract,
      List.length_range']
    omega
  · have hcell : start + k < mem.cells.size := by
      rw [List.length_map, List.length_range'] at hk'
      omega
    have hpeek : mem.peek (start + k) = mem.cells[start + k] := by
      rw [peek_eq, Array.getElem?_eq_getElem hcell, Option.getD_some]
    simp [hpeek]

/-- A dump of a full memory lists the cells up to the address it has
computed. -/
theorem Full.dump_eq (hfull : mem.Full) (start count : Nat) :
    mem.dump start count = .ok (mem.between start ((start + count) % UInt64.size)) := by
  unfold dump
  generalize (start + count) % UInt64.size = stop
  by_cases hle : min stop capacity ≤ start
  · rw [if_pos hle, between_eq_nil hle]
  · have hthere : min stop capacity ≤ mem.cells.size := hfull ▸ Nat.min_le_right _ _
    rw [if_neg hle, hfull.slice_eq start (Nat.min_le_right _ _), between, filter_range_eq]
    exact congrArg Except.ok (rows_extract hthere)

/-- Where the address behind a stretch fits 64 bits, the stretch is listed. -/
theorem Full.dump_of_lt (hfull : mem.Full) (hlt : start + count < UInt64.size) :
    mem.dump start count = .ok (mem.between start (start + count)) := by
  rw [hfull.dump_eq, Nat.mod_eq_of_lt hlt]

/-- Where it does not, what is left of it lies in front of the start, and
nothing is listed. -/
theorem Full.dump_of_le (hfull : mem.Full) (hcount : count < UInt64.size)
    (hstart : start < UInt64.size) (hle : UInt64.size ≤ start + count) :
    mem.dump start count = .ok [] := by
  have hsum : (start + count) % UInt64.size = start + count - UInt64.size := by
    rw [Nat.mod_eq_sub_mod hle, Nat.mod_eq_of_lt (by omega)]
  rw [hfull.dump_eq, hsum, between_eq_nil (by omega)]

-- ========================================================== operations

/-- What can be done with a memory. -/
inductive Operation where
  | write (address : Nat) (value : UInt8)
  | load (start : Nat) (bytes : List UInt8)
  | clear
  deriving DecidableEq, Repr

/-- The cells that the operation is about are there. -/
def Operation.Fits : Operation → Prop
  | write address _ => address < capacity
  | load start bytes => start + bytes.length ≤ capacity
  | clear => True

instance (op : Operation) : Decidable op.Fits :=
  match op with
  | .write address _ => inferInstanceAs (Decidable (address < capacity))
  | .load start bytes => inferInstanceAs (Decidable (start + bytes.length ≤ capacity))
  | .clear => inferInstanceAs (Decidable True)

/-- The byte that the operation puts at an address, if it puts one there. -/
def Operation.put? (op : Operation) (a : Nat) : Option UInt8 :=
  match op with
  | write address value => if a = address then some value else none
  | load start bytes => if start ≤ a then bytes[a - start]? else none
  | clear => some 0

/-- The memory that the operation leaves, unless it is refused. -/
def perform (mem : Memory) : Operation → Except MemoryError Memory
  | .write address value => mem.write address value
  | .load start bytes => mem.load start bytes
  | .clear => .ok mem.clear

/-- The memory behind an operation: what it leaves, or the memory as it was
if the operation is refused. -/
def after (mem : Memory) (op : Operation) : Memory :=
  match mem.perform op with
  | .ok mem' => mem'
  | .error _ => mem

/-- What a history of operations makes of a blank memory. -/
def ofHistory (history : List Operation) : Memory :=
  history.foldl after blank

/-- The byte that was put at an address last, by an operation that fits;
zero if none was. -/
def lastPut (history : List Operation) (a : Nat) : UInt8 :=
  ((history.filter (·.Fits)).filterMap (·.put? a)).getLast?.getD 0

variable {op : Operation}

theorem size_perform (h : mem.perform op = .ok mem') : mem'.cells.size = mem.cells.size := by
  cases op with
  | write address value => exact size_write h
  | load start bytes =>
      obtain ⟨-, hsize, rfl⟩ := load_eq_ok_iff.1 h
      exact size_overwrite hsize
  | clear =>
      obtain rfl := Except.ok.inj h
      exact Array.size_replicate

/-- An operation puts its bytes and leaves the other cells alone. -/
theorem getElem?_perform (h : mem.perform op = .ok mem') (ha : a < mem.cells.size) :
    mem'.cells[a]? = (op.put? a).or mem.cells[a]? := by
  cases op with
  | write address value =>
      rw [getElem?_write h, Operation.put?]
      split <;> rfl
  | load start bytes =>
      obtain ⟨-, hsize, rfl⟩ := load_eq_ok_iff.1 h
      rw [getElem?_overwrite hsize, Operation.put?]
      by_cases hlo : start ≤ a
      · by_cases hhi : a < start + bytes.length
        · have hin : a - start < bytes.length := by omega
          rw [if_pos ⟨hlo, hhi⟩, if_pos hlo, List.getElem?_eq_getElem hin, Option.some_or]
        · have hout : bytes.length ≤ a - start := by omega
          rw [if_neg fun hboth => hhi hboth.2, if_pos hlo, List.getElem?_eq_none hout,
            Option.none_or]
      · rw [if_neg fun hboth => hlo hboth.1, if_neg hlo, Option.none_or]
  | clear =>
      obtain rfl := Except.ok.inj h
      exact Array.getElem?_replicate.trans (if_pos ha)

/-- A full memory takes the operations that fit and refuses the others. -/
theorem Full.exists_perform_iff (hfull : mem.Full) :
    (∃ mem', mem.perform op = .ok mem') ↔ op.Fits := by
  cases op with
  | write address value =>
      rw [perform, hfull.write_eq, Operation.Fits]
      split <;> simp_all
  | load start bytes =>
      rw [perform, hfull.load_eq, Operation.Fits]
      split
      · simp_all
      · split <;> simp_all
  | clear => exact ⟨fun _ => trivial, fun _ => ⟨_, rfl⟩⟩

theorem Full.perform_eq (hfull : mem.Full) (hfits : op.Fits) :
    mem.perform op = .ok (mem.after op) := by
  obtain ⟨mem', h⟩ := hfull.exists_perform_iff.2 hfits
  rw [after, h]

theorem Full.after_of_not_fits (hfull : mem.Full) (hnot : ¬ op.Fits) : mem.after op = mem := by
  unfold after
  split
  · next mem' h => exact absurd (hfull.exists_perform_iff.1 ⟨mem', h⟩) hnot
  · rfl

theorem Full.after (hfull : mem.Full) (op : Operation) : (mem.after op).Full := by
  by_cases hfits : op.Fits
  · exact (size_perform (hfull.perform_eq hfits)).trans hfull
  · rwa [hfull.after_of_not_fits hfits]

/-- What is found behind an operation is what it has put, and else what was
there. -/
theorem Full.peek_after (hfull : mem.Full) (op : Operation) (ha : a < capacity) :
    (mem.after op).peek a = if op.Fits then (op.put? a).getD (mem.peek a) else mem.peek a := by
  split
  · next hfits =>
    have hcell := getElem?_perform (hfull.perform_eq hfits) (by rwa [hfull])
    rw [peek_eq, peek_eq, hcell, Option.getD_or]
  · next hnot => rw [hfull.after_of_not_fits hnot]

-- =========================================================== histories

theorem ofHistory_concat (history : List Operation) (op : Operation) :
    ofHistory (history ++ [op]) = (ofHistory history).after op := by
  rw [ofHistory, List.foldl_append]
  rfl

/-- One more operation puts its bytes over those that were there, if it
fits. -/
theorem lastPut_concat (history : List Operation) (op : Operation) (a : Nat) :
    lastPut (history ++ [op]) a =
      if op.Fits then (op.put? a).getD (lastPut history a) else lastPut history a := by
  rw [lastPut, List.filter_append, List.filterMap_append, List.getLast?_append]
  by_cases hfits : op.Fits
  · have hone : [op].filter (·.Fits) = [op] := List.filter_cons_of_pos (decide_eq_true hfits)
    rw [if_pos hfits, hone]
    cases hput : op.put? a with
    | none => simp [hput, lastPut]
    | some value => simp [hput]
  · have hnone : [op].filter (·.Fits) = [] := List.filter_cons_of_neg (by simpa using hfits)
    rw [if_neg hfits, hnone]
    rfl

theorem full_ofHistory (history : List Operation) : (ofHistory history).Full := by
  induction history using List.reverseRecOn with
  | nil => exact Array.size_replicate
  | append_singleton history op ih =>
      rw [ofHistory_concat]
      exact ih.after op

/-- Every address holds what was put there last. -/
theorem peek_ofHistory (history : List Operation) (ha : a < capacity) :
    (ofHistory history).peek a = lastPut history a := by
  induction history using List.reverseRecOn with
  | nil =>
      have hcell : blank.cells[a]? = some 0 := Array.getElem?_replicate.trans (if_pos ha)
      rw [ofHistory, List.foldl_nil, peek_eq, hcell]
      rfl
  | append_singleton history op ih =>
      rw [ofHistory_concat, (full_ofHistory history).peek_after op ha, lastPut_concat, ih]

theorem perform_ofHistory (history : List Operation) (op : Operation) (hfits : op.Fits) :
    (ofHistory history).perform op = .ok (ofHistory (history ++ [op])) := by
  rw [ofHistory_concat]
  exact (full_ofHistory history).perform_eq hfits

/-- After any history the memory is the map that gives each of the 256
addresses the byte put there last. Reading looks it up, and writing and
loading extend the history by what they put, if they fit, and else leave it
alone; a dump lists the map over a stretch of addresses. -/
theorem memory_maps_addresses_to_the_byte_put_last (history : List Operation) :
    (ofHistory history).cells.size = capacity
    ∧ (∀ a, (ofHistory history).read a =
        if a < capacity then .ok (lastPut history a) else .error (.addressOutOfRange a))
    ∧ (∀ op, (∃ mem', (ofHistory history).perform op = .ok mem') ↔ op.Fits)
    ∧ (∀ op, ¬ op.Fits → ofHistory (history ++ [op]) = ofHistory history)
    ∧ (∀ a value, (ofHistory history).write a value =
        if a < capacity then .ok (ofHistory (history ++ [.write a value]))
        else .error (.addressOutOfRange a))
    ∧ (∀ start bytes, start ≤ capacity → (ofHistory history).load start bytes =
        if start + bytes.length ≤ capacity then .ok (ofHistory (history ++ [.load start bytes]))
        else .error (.programTooLarge bytes.length (capacity - start)))
    ∧ (∀ start bytes mem', (ofHistory history).load start bytes = .ok mem' →
        ∀ a, mem'.cells[a]? =
          if start ≤ a ∧ a < start + bytes.length then bytes[a - start]?
          else (ofHistory history).cells[a]?)
    ∧ ∀ start count, start + count < UInt64.size → (ofHistory history).dump start count =
        .ok (((List.range capacity).filter fun a => start ≤ a ∧ a < start + count).map
          fun a => (a, lastPut history a)) := by
  have hfull := full_ofHistory history
  refine ⟨hfull, fun a => ?_, fun op => hfull.exists_perform_iff, fun op hnot => ?_,
    fun a value => ?_, fun start bytes hstart => ?_, fun start bytes mem' hload => ?_,
    fun start count hsum => ?_⟩
  · split
    · next ha => rw [hfull.read_eq ha, peek_ofHistory history ha]
    · next ha => exact hfull.read_of_le (Nat.le_of_not_lt ha)
  · rw [ofHistory_concat, hfull.after_of_not_fits hnot]
  · split
    · next ha => exact perform_ofHistory history (.write a value) ha
    · next ha => exact (hfull.write_eq a value).trans (if_neg ha)
  · split
    · next hfits => exact perform_ofHistory history (.load start bytes) hfits
    · next hnot =>
      have hne : bytes ≠ [] := by
        rintro rfl
        exact hnot hstart
      rw [hfull.load_eq, if_neg hnot, if_neg hne]
  · obtain ⟨-, hsize, rfl⟩ := load_eq_ok_iff.1 hload
    exact getElem?_overwrite hsize
  · rw [hfull.dump_of_lt hsum, between]
    refine congrArg Except.ok (List.map_congr_left fun a ha => ?_)
    rw [peek_ofHistory history (List.mem_range.1 (List.mem_filter.1 ha).1)]

/-- Two loads that overlap at the end of memory, and two operations behind
it that are refused. -/
def overlapping : List Operation :=
  [.load 250 [1, 2, 3, 4, 5, 6], .load 252 [7, 8], .load 255 [9, 9], .write 256 1]

/-- The refused operations have left nothing, and further ones are taken or
refused by their measure. -/
theorem overlapping_is_dumped :
    (¬ (Operation.write 256 2).Fits
      ∧ ofHistory (overlapping ++ [.write 256 2]) = ofHistory overlapping)
    ∧ (253 ≤ capacity
      ∧ (ofHistory overlapping).load 253 [3, 4, 5, 6] = .error (.programTooLarge 4 3))
    ∧ ((ofHistory overlapping).load 254 [3, 4] =
        .ok (ofHistory (overlapping ++ [.load 254 [3, 4]]))
      ∧ (ofHistory (overlapping ++ [.load 254 [3, 4]])).cells[255]? = some 4)
    ∧ 251 + 10 < UInt64.size
    ∧ (ofHistory overlapping).dump 251 10 =
        .ok [(251, 2), (252, 7), (253, 8), (254, 5), (255, 6)] := by
  obtain ⟨-, -, -, hskip, -, hload, hcells, hdump⟩ :=
    memory_maps_addresses_to_the_byte_put_last overlapping
  have hnot : ¬ (Operation.write 256 2).Fits := by decide
  have hok : (ofHistory overlapping).load 254 [3, 4] =
      .ok (ofHistory (overlapping ++ [.load 254 [3, 4]])) :=
    (hload 254 [3, 4] (by decide)).trans (if_pos (by decide))
  refine ⟨⟨hnot, hskip _ hnot⟩, ⟨by decide, ?_⟩, ⟨hok, ?_⟩, by decide, ?_⟩
  · exact (hload 253 [3, 4, 5, 6] (by decide)).trans (if_neg (by decide))
  · exact (hcells 254 [3, 4] _ hok 255).trans (if_pos (by decide))
  · exact (hdump 251 10 (by decide)).trans (by decide +kernel)

-- ============================================================== limits

/-- A load at any start and a dump of any stretch, of any full memory. A load
is what its measure says, unless it is an empty one that starts behind the
last address: that is let through, and its start is not there. A dump lists
the stretch, unless the address behind it does not fit 64 bits and the
stretch has addresses: then nothing is listed. -/
theorem bulk_operations_at_any_argument (hfull : mem.Full) (start count : UInt64)
    (bytes : List UInt8) :
    (mem.load start.toNat bytes =
        (if start.toNat + bytes.length ≤ capacity then
          .ok ⟨overwrite mem.cells start.toNat bytes⟩
        else .error (.programTooLarge bytes.length (capacity - start.toNat)))
      ↔ ¬ (bytes = [] ∧ capacity < start.toNat))
    ∧ (bytes = [] ∧ capacity < start.toNat →
        mem.load start.toNat bytes = .error (.cutShort start.toNat capacity))
    ∧ (start.toNat + bytes.length ≤ capacity →
        ∀ a, (overwrite mem.cells start.toNat bytes)[a]? =
          if start.toNat ≤ a ∧ a < start.toNat + bytes.length then bytes[a - start.toNat]?
          else mem.cells[a]?)
    ∧ (mem.dump start.toNat count.toNat =
        .ok (mem.between start.toNat (start.toNat + count.toNat))
      ↔ start.toNat + count.toNat < UInt64.size ∨ capacity ≤ start.toNat)
    ∧ (UInt64.size ≤ start.toNat + count.toNat → mem.dump start.toNat count.toNat = .ok []) := by
  have hstart : start.toNat < UInt64.size := start.toNat_lt_size
  have hcount : count.toNat < UInt64.size := count.toNat_lt_size
  generalize start.toNat = s at *
  generalize count.toNat = n at *
  have hempty : bytes = [] ∧ capacity < s → mem.load s bytes = .error (.cutShort s capacity) := by
    rintro ⟨rfl, hlt⟩
    rw [hfull.load_eq, List.length_nil, if_neg (by omega), if_pos rfl]
  have hover : UInt64.size ≤ s + n → mem.dump s n = .ok [] := hfull.dump_of_le hcount hstart
  refine ⟨⟨fun hload hbehind => ?_, fun hnot => ?_⟩, hempty,
    fun hfits => getElem?_overwrite (by rwa [hfull]), ⟨fun hdump => ?_, fun hreach => ?_⟩, hover⟩
  · rw [hempty hbehind] at hload
    split at hload <;> cases hload
  · rw [hfull.load_eq]
    split
    · rfl
    · next hlong =>
      have hne : bytes ≠ [] := by
        rintro rfl
        exact hnot ⟨rfl, Nat.lt_of_not_le hlong⟩
      rw [if_neg hne]
  · by_contra hnot
    rw [hover (by omega)] at hdump
    exact between_ne_nil (by omega) (by omega) (Except.ok.inj hdump).symm
  · rcases hreach with hlt | hge
    · exact hfull.dump_of_lt hlt
    · rw [hfull.dump_eq, between_eq_nil (by omega), between_eq_nil (by omega)]

/-- A load at the end puts its bytes there, an empty one behind the end asks
for a cell that is not there, and a stretch whose end does not fit 64 bits is
listed as empty. -/
theorem empty_load_behind_the_end :
    blank.Full
    ∧ ((254 : UInt64).toNat + [1, 2].length ≤ capacity
      ∧ (overwrite blank.cells 254 [1, 2])[255]? = some 2)
    ∧ ((([] : List UInt8) = [] ∧ capacity < (257 : UInt64).toNat)
      ∧ blank.load 257 [] = .error (.cutShort 257 capacity))
    ∧ UInt64.size ≤ (1 : UInt64).toNat + (18446744073709551615 : UInt64).toNat
    ∧ blank.dump 1 18446744073709551615 = .ok [] := by
  have hfull : blank.Full := Array.size_replicate
  have hfits : (254 : UInt64).toNat + [1, 2].length ≤ capacity := by decide
  have hbehind : ([] : List UInt8) = [] ∧ capacity < (257 : UInt64).toNat := by decide
  have hsum : UInt64.size ≤ (1 : UInt64).toNat + (18446744073709551615 : UInt64).toNat := by
    decide
  obtain ⟨-, -, hcells, -, -⟩ := bulk_operations_at_any_argument hfull 254 0 [1, 2]
  obtain ⟨-, hload, -, -, -⟩ := bulk_operations_at_any_argument hfull 257 0 []
  obtain ⟨-, -, -, -, hdump⟩ := bulk_operations_at_any_argument hfull 1 18446744073709551615 []
  exact ⟨hfull, ⟨hfits, (hcells hfits 255).trans (if_pos (by decide))⟩,
    ⟨hbehind, hload hbehind⟩, hsum, hdump hsum⟩

/-- The empty load is not refused for its size. -/
theorem empty_load_is_let_through :
    blank.Full ∧ blank.load 257 [] ≠ .error (.programTooLarge 0 0)
    ∧ (∀ mem, blank.load 257 [] ≠ .ok mem) := by
  have hload : blank.load 257 [] = .error (.cutShort 257 256) := by decide +kernel
  rw [hload]
  exact ⟨Array.size_replicate, nofun, nofun⟩

end LS8.Memory
