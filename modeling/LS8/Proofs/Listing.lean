/-
The listing: its rows cover memory without a gap, and the part that is shown
has the program counter in it.

What a row may show, and how many bytes it then covers, is said of the bytes
in memory and not of the sweep (`Shows`). Rows tile memory if each begins
where the one before it ends and the last one ends where addresses end
(`Tiles`), and the sweep tiles memory (`tiles_sweep`). The order of the
addresses follows from the tiling alone, and so does the row at the program
counter: a row in front of it never reaches behind it
(`Shows.add_span_le`), so one begins there (`Tiles.exists_address_eq`).

# The window

A window is cut out of the rows around the current one. Three subtractions
that stop at zero decide where it begins; `centred_start` says what they come
to: the current row is in the middle, or an end of the listing is in the way
and it stands as near to the middle as that end lets it.
-/
import LS8.Debugger.Listing
import LS8.Proofs.Faults

namespace LS8

namespace Listing

variable {mem : Memory} {pc a span : Nat} {row : Row} {rows : List Row} {i : Instruction}

-- ================================================= what stands in memory

/-- The bytes of `i` stand in memory from `address` on. -/
def Holds (mem : Memory) (address : Nat) (i : Instruction) : Prop :=
  i.encode <+: mem.cells.toList.drop address

theorem instructionAt?_eq_some_iff (hfull : mem.Full) {address : Nat} :
    instructionAt? mem address = some i ↔ Holds mem address i := by
  rw [Holds, ← Machine.decode_window_eq_ok_iff hfull, instructionAt?]
  cases Instruction.decode _ with
  | error e => exact ⟨nofun, nofun⟩
  | ok j => simp [Except.toOption]

/-- An instruction in memory ends where the addresses end at the latest. -/
theorem Holds.add_size_le (hfull : mem.Full) {address : Nat} (h : Holds mem address i) :
    address + i.size ≤ Memory.capacity := by
  have hroom := h.length_le
  rw [Instruction.length_encode, List.length_drop, Array.length_toList, hfull] at hroom
  have hsize := i.size_pos
  omega

/-- At most one instruction stands at an address. -/
theorem Holds.unique (hfull : mem.Full) {address : Nat} {j : Instruction}
    (hi : Holds mem address i) (hj : Holds mem address j) : i = j := by
  rw [← instructionAt?_eq_some_iff hfull] at hi hj
  exact Option.some.inj (hi.symm.trans hj)

-- ================================================================== rows

/-- An instruction at `address` would run over the program counter. -/
def Straddles (pc address : Nat) (i : Instruction) : Prop :=
  address < pc ∧ pc < address + i.size

/-- `Shows mem pc row span`: the row shows what stands in memory at its
address, and covers the `span` bytes from there on. -/
inductive Shows (mem : Memory) (pc : Nat) : Row → Nat → Prop where
  | whole {row : Row} {i : Instruction} (holds : Holds mem row.address i)
      (text : row.text = i.text) (clear : ¬ Straddles pc row.address i) : Shows mem pc row i.size
  | cut {row : Row} {i : Instruction} (holds : Holds mem row.address i)
      (text : row.text = i.text) (straddles : Straddles pc row.address i) :
      Shows mem pc row (pc - row.address)
  /-- A byte that begins no instruction, in eight binary digits. -/
  | data {row : Row} {byte : UInt8} {digits : List Char}
      (none : ∀ i, ¬ Holds mem row.address i) (cell : mem.cells[row.address]? = some byte)
      (text : row.text = "db " ++ String.ofList digits) (eight : digits.length = 8)
      (value : Numeral.byteOfBits? digits = some byte) : Shows mem pc row 1

theorem Shows.span_pos (h : Shows mem pc row span) : 0 < span := by
  cases h with
  | whole hholds htext hclear => exact Instruction.size_pos _
  | cut hholds htext hstraddles => exact Nat.sub_pos_of_lt hstraddles.1
  | data hnone hcell htext height hvalue => exact Nat.one_pos

theorem Shows.add_span_le_capacity (hfull : mem.Full) (h : Shows mem pc row span) :
    row.address + span ≤ Memory.capacity := by
  cases h with
  | whole hholds htext hclear => exact hholds.add_size_le hfull
  | cut hholds htext hstraddles =>
      have hroom := hholds.add_size_le hfull
      obtain ⟨hbefore, hover⟩ := hstraddles
      omega
  | data hnone hcell htext height hvalue =>
      obtain ⟨hlt, -⟩ := Array.getElem?_eq_some_iff.1 hcell
      rwa [hfull] at hlt

/-- A row in front of the program counter does not reach behind it. -/
theorem Shows.add_span_le (h : Shows mem pc row span) (hbefore : row.address < pc) :
    row.address + span ≤ pc := by
  cases h with
  | whole hholds htext hclear =>
      exact Nat.le_of_not_lt fun hover => hclear ⟨hbefore, hover⟩
  | cut hholds htext hstraddles => omega
  | data hnone hcell htext height hvalue => exact hbefore

/-- What the sweep puts into a row is what stands there. -/
theorem shows_textAt (hfull : mem.Full) (pc : Nat) (ha : a < Memory.capacity) (current : Bool) :
    Shows mem pc ⟨a, textAt mem a, current⟩ (rowSize mem pc a) := by
  cases hat : instructionAt? mem a with
  | some i =>
      have hholds : Holds mem a i := (instructionAt?_eq_some_iff hfull).1 hat
      have htext : textAt mem a = i.text := by simp only [textAt, hat]
      have hsize : rowSize mem pc a = if a < pc ∧ pc < a + i.size then pc - a else i.size := by
        simp only [rowSize, sizeAt, hat]
      rw [hsize]
      split
      next hstraddles => exact .cut hholds htext hstraddles
      next hclear => exact .whole hholds htext hclear
  | none =>
      have hnone : ∀ i, ¬ Holds mem a i := by
        intro i hi
        rw [← instructionAt?_eq_some_iff hfull, hat] at hi
        cases hi
      have htext : textAt mem a
          = "db " ++ String.ofList (Numeral.binary8 (mem.peek a)).toList := by
        simp only [textAt, hat, String.ofList_toList]
      have hsize : rowSize mem pc a = 1 := by
        simp only [rowSize, sizeAt, hat]
        rw [if_neg (by omega)]
      rw [hsize]
      exact .data hnone (Memory.read_eq_ok_iff.1 (hfull.read_eq ha)) htext
        (Numeral.length_binary8 _) (Numeral.byteOfBits?_binary8 _)

-- =============================================================== tilings

/-- The rows cover memory from an address to the end, each from where the
one before it has ended. -/
inductive Tiles (mem : Memory) (pc : Nat) : Nat → List Row → Prop where
  | done : Tiles mem pc Memory.capacity []
  | row {row : Row} {span : Nat} {rows : List Row} (shows : Shows mem pc row span)
      (rest : Tiles mem pc (row.address + span) rows) : Tiles mem pc row.address (row :: rows)

theorem sweep_of_lt (h : a < Memory.capacity) :
    sweep mem pc a =
      ⟨a, textAt mem a, decide (a = pc)⟩ :: sweep mem pc (a + rowSize mem pc a) := by
  rw [sweep, if_pos h]

theorem sweep_of_le (h : Memory.capacity ≤ a) : sweep mem pc a = [] := by
  rw [sweep, if_neg (Nat.not_lt.2 h)]

theorem tiles_sweep (hfull : mem.Full) (ha : a ≤ Memory.capacity) :
    Tiles mem pc a (sweep mem pc a) := by
  fun_induction sweep mem pc a with
  | case1 a hlt ih =>
      have hshows := shows_textAt hfull pc hlt (decide (a = pc))
      exact .row hshows (ih (hshows.add_span_le_capacity hfull))
  | case2 a hge =>
      obtain rfl : a = Memory.capacity := Nat.le_antisymm ha (Nat.le_of_not_lt hge)
      exact .done

/-- Where rows begin. -/
theorem Tiles.address_mem (h : Tiles mem pc a rows) (hfull : mem.Full) :
    ∀ row ∈ rows, a ≤ row.address ∧ row.address < Memory.capacity := by
  induction h with
  | done => exact fun row hrow => absurd hrow List.not_mem_nil
  | row hshows _ ih =>
      have hpos := hshows.span_pos
      have hroom := hshows.add_span_le_capacity hfull
      rw [List.forall_mem_cons]
      refine ⟨⟨Nat.le_refl _, by omega⟩, fun row hrow => ?_⟩
      obtain ⟨hfrom, hto⟩ := ih row hrow
      exact ⟨by omega, hto⟩

theorem Tiles.pairwise_address (h : Tiles mem pc a rows) (hfull : mem.Full) :
    (rows.map (·.address)).Pairwise (· < ·) := by
  induction h with
  | done => exact .nil
  | row hshows hrest ih =>
      refine .cons ?_ ih
      intro address haddress
      obtain ⟨row, hrow, rfl⟩ := List.mem_map.1 haddress
      have hpos := hshows.span_pos
      have hfrom := (hrest.address_mem hfull row hrow).1
      exact Nat.lt_of_lt_of_le (Nat.lt_add_of_pos_right hpos) hfrom

/-- Each row covers a byte at least. -/
theorem Tiles.length_add_le (h : Tiles mem pc a rows) : a + rows.length ≤ Memory.capacity := by
  induction h with
  | done => exact Nat.le_refl _
  | row hshows _ ih =>
      have hpos := hshows.span_pos
      rw [List.length_cons]
      omega

/-- A row begins at the program counter: no row in front of it reaches
behind it. -/
theorem Tiles.exists_address_eq (h : Tiles mem pc a rows) (ha : a ≤ pc)
    (hpc : pc < Memory.capacity) :
    ∃ (k : Nat) (current : Row), rows[k]? = some current ∧ current.address = pc := by
  induction h with
  | done => exact absurd ha (Nat.not_le.2 hpc)
  | @row row span rows hshows _ ih =>
      rcases Nat.eq_or_lt_of_le ha with hhere | hbefore
      · exact ⟨0, row, rfl, hhere⟩
      · obtain ⟨k, current, hk, hcurrent⟩ := ih (hshows.add_span_le hbefore)
        exact ⟨k + 1, current, hk, hcurrent⟩

/-- A row of the sweep shows the text of its address. -/
theorem text_of_mem_sweep : ∀ row ∈ sweep mem pc a, row.text = textAt mem row.address := by
  fun_induction sweep mem pc a with
  | case1 a hlt ih =>
      rw [List.forall_mem_cons]
      exact ⟨rfl, ih⟩
  | case2 a hge => exact fun row hrow => absurd hrow List.not_mem_nil

-- ======================================================= the current row

/-- The sweep marks the row at the program counter and no other. -/
theorem current_of_mem_sweep : ∀ row ∈ sweep mem pc a, row.current = decide (row.address = pc) := by
  fun_induction sweep mem pc a with
  | case1 a hlt ih =>
      rw [List.forall_mem_cons]
      exact ⟨rfl, ih⟩
  | case2 a hge => exact fun row hrow => absurd hrow List.not_mem_nil

/-- The row with number `k` is the current one, and the only one. -/
structure CurrentAt (rows : List Row) (pc k : Nat) (current : Row) : Prop where
  get : rows[k]? = some current
  address : current.address = pc
  marked : current.current = true
  only : ∀ (j : Nat) (row : Row), rows[j]? = some row → row.current = true → j = k

theorem exists_currentAt_sweep (hfull : mem.Full) (ha : a ≤ pc) (hpc : pc < Memory.capacity) :
    ∃ k current, CurrentAt (sweep mem pc a) pc k current := by
  have htiles : Tiles mem pc a (sweep mem pc a) :=
    tiles_sweep hfull (Nat.le_trans ha (Nat.le_of_lt hpc))
  obtain ⟨k, current, hk, hcurrent⟩ := htiles.exists_address_eq ha hpc
  have hmarked : current.current = true := by
    rw [current_of_mem_sweep current (List.mem_of_getElem? hk)]
    exact decide_eq_true hcurrent
  refine ⟨k, current, hk, hcurrent, hmarked, fun j row hj hrow => ?_⟩
  have haddress : row.address = pc := by
    rw [current_of_mem_sweep row (List.mem_of_getElem? hj)] at hrow
    exact of_decide_eq_true hrow
  -- addresses go up, so two rows with one address are one row
  have hnodup : ((sweep mem pc a).map (·.address)).Nodup :=
    (htiles.pairwise_address hfull).imp Nat.ne_of_lt
  have hlt : j < ((sweep mem pc a).map (·.address)).length := by
    rw [List.length_map]
    exact (List.getElem?_eq_some_iff.1 hj).1
  refine (List.getElem?_inj hlt hnodup).1 ?_
  rw [List.getElem?_map, List.getElem?_map, hj, hk, Option.map_some, Option.map_some, haddress,
    hcurrent]

/-- The search for the current row finds it. -/
theorem CurrentAt.findIdx?_eq {k : Nat} {current : Row} (h : CurrentAt rows pc k current) :
    rows.findIdx? (·.current) = some k := by
  obtain ⟨hlt, hget⟩ := List.getElem?_eq_some_iff.1 h.get
  rw [List.findIdx?_eq_some_iff_getElem]
  refine ⟨hlt, by rw [hget]; exact h.marked, fun j hj hmarked => ?_⟩
  have hjk := h.only j _ (List.getElem?_eq_getElem (Nat.lt_trans hj hlt)) hmarked
  omega

-- ============================================================ the window

/-- Of `total` rows those from `start` on are shown, up to `lines` of them,
and the row with number `k` is among these: in the middle, or in front of it
because the window begins with the first row, or behind it because the window
ends with the last. -/
structure Centred (total lines k start : Nat) : Prop where
  first : start ≤ k
  last : k < start + min lines total
  middle : k - start = lines / 2
    ∨ (k - start < lines / 2 ∧ start = 0)
    ∨ (lines / 2 < k - start ∧ start + min lines total = total)

theorem centred_start {total lines k : Nat} (hk : k < total) (hlines : 1 ≤ lines) :
    Centred total lines k (min (k - lines / 2) (total - lines)) := by
  constructor <;> omega

/-- The window begins where it does and has as many rows as are wanted, or
as there are. -/
theorem window_eq {lines k : Nat} (h : rows.findIdx? (·.current) = some k) :
    window rows lines =
      (rows.drop (min (k - lines / 2) (rows.length - lines))).take (min lines rows.length) := by
  unfold window
  rw [h, Option.getD_some]
  refine List.take_eq_take_iff.2 ?_
  rw [List.length_drop]
  omega

/-- A window of any height has the current row in it. -/
theorem CurrentAt.exists_window {lines k : Nat} {current : Row} (h : CurrentAt rows pc k current)
    (hlines : 1 ≤ lines) : ∃ j, CurrentAt (window rows lines) pc j current := by
  have hk : k < rows.length := (List.getElem?_eq_some_iff.1 h.get).1
  obtain ⟨hfirst, hlast, -⟩ := centred_start hk hlines
  rw [window_eq h.findIdx?_eq]
  generalize min (k - lines / 2) (rows.length - lines) = start at hfirst hlast
  refine ⟨k - start, ?_, h.address, h.marked, fun j row hj hmarked => ?_⟩
  · rw [List.getElem?_take_of_lt (by omega), List.getElem?_drop, Nat.add_sub_of_le hfirst]
    exact h.get
  · rw [List.getElem?_take, List.getElem?_drop] at hj
    split at hj
    · have hjk := h.only (start + j) row hj hmarked
      omega
    · cases hj

end Listing

namespace Debugger

open Listing

/-- The listing tiles memory, and shows where the program counter is.

In a full memory there are 256 rows at most. The first begins at address 0,
each of them where the one before it ends, and the last ends where addresses
end. One row is marked as current, and its address is the program counter.
What is shown are consecutive rows, as many as are wanted or as there are. If
one is wanted at all, the current row is among them, in the middle unless an
end of the listing is in the way. -/
theorem listing_tiles_memory (d : Debugger) (hfull : d.machine.mem.Full) :
    let pc := d.machine.pc.toNat
    let rows := d.machine.listing
    Tiles d.machine.mem pc 0 rows
    ∧ rows.length ≤ 256
    ∧ (rows.map (·.address)).Pairwise (· < ·)
    ∧ (∀ row ∈ rows, row.address < 256)
    ∧ ∃ k current, CurrentAt rows pc k current
      ∧ ∀ lines, ∃ start, start + min lines rows.length ≤ rows.length
        ∧ d.listing lines = (rows.drop start).take (min lines rows.length)
        ∧ (1 ≤ lines → Centred rows.length lines k start
            ∧ (d.listing lines)[k - start]? = some current) := by
  intro pc rows
  have hpc : pc < Memory.capacity := d.machine.pc.toNat_lt
  have htiles : Tiles d.machine.mem pc 0 rows := tiles_sweep hfull (Nat.zero_le _)
  have hlength := htiles.length_add_le
  rw [Nat.zero_add] at hlength
  obtain ⟨k, current, hcurrent⟩ := exists_currentAt_sweep hfull (Nat.zero_le pc) hpc
  refine ⟨htiles, hlength, htiles.pairwise_address hfull,
    fun row hrow => (htiles.address_mem hfull row hrow).2, k, current, hcurrent, fun lines => ?_⟩
  have hk : k < rows.length := (List.getElem?_eq_some_iff.1 hcurrent.get).1
  have hwindow : d.listing lines =
      (rows.drop (min (k - lines / 2) (rows.length - lines))).take (min lines rows.length) :=
    window_eq hcurrent.findIdx?_eq
  refine ⟨_, by omega, hwindow, fun hlines => ?_⟩
  have hcentred := centred_start hk hlines
  refine ⟨hcentred, ?_⟩
  obtain ⟨hfirst, hlast, -⟩ := hcentred
  rw [hwindow, List.getElem?_take_of_lt (by omega), List.getElem?_drop, Nat.add_sub_of_le hfirst]
  exact hcurrent.get

/-- An LDI whose first operand is the byte that the program counter is at,
and another one at the last address, where its operands are missing. -/
def straddling : Debugger where
  machine :=
    { Machine.fresh with
      regs := { Registers.fresh with pc := 1 }
      mem := ⟨⟨[Opcode.ldi, Opcode.jmp, 5] ++ List.replicate 252 0 ++ [Opcode.ldi]⟩⟩ }
  program := []

/-- The LDI is cut behind its first byte, and a window of one row is the row
behind it. -/
theorem straddling_is_cut :
    let mem := straddling.machine.mem
    mem.Full
    ∧ Tiles mem 1 0 straddling.machine.listing
    ∧ straddling.machine.listing = ⟨0, "LDI R84,5", false⟩ :: ⟨1, "JMP R5", true⟩ :: sweep mem 1 3
    ∧ straddling.listing 1 = [⟨1, "JMP R5", true⟩]
    ∧ Shows mem 1 ⟨255, "db 10000010", false⟩ 1 := by
  intro mem
  have hfull : mem.Full := by decide +kernel
  have hrows : straddling.machine.listing
      = ⟨0, textAt mem 0, false⟩ :: ⟨1, textAt mem 1, true⟩ :: sweep mem 1 3 := by
    have hcut : rowSize mem 1 0 = 1 := by decide +kernel
    have hwhole : rowSize mem 1 1 = 2 := by decide +kernel
    show sweep mem 1 0 = _
    rw [sweep_of_lt (by decide), hcut, sweep_of_lt (by decide), hwhole]
    rfl
  have hfirst : textAt mem 0 = "LDI R84,5" := by decide +kernel
  have hsecond : textAt mem 1 = "JMP R5" := by decide +kernel
  rw [hfirst, hsecond] at hrows
  obtain ⟨htiles, -, -, -, k, current, hcurrent, hwindow⟩ :=
    straddling.listing_tiles_memory hfull
  refine ⟨hfull, htiles, hrows, ?_, ?_⟩
  · obtain ⟨start, -, hshown, hone⟩ := hwindow 1
    obtain ⟨⟨hfirst, hlast, -⟩, hget⟩ := hone (Nat.le_refl 1)
    obtain rfl : 1 = k := hcurrent.only 1 ⟨1, "JMP R5", true⟩ (by rw [hrows]; rfl) rfl
    have hrow := hcurrent.get
    rw [hrows] at hrow
    cases hrow
    have hlength : (straddling.listing 1).length ≤ 1 := by
      rw [hshown, List.length_take]
      omega
    have hstart : 1 - start = 0 := by omega
    rw [hstart] at hget
    match hlisting : straddling.listing 1, hlength with
    | [row], _ =>
        rw [hlisting] at hget
        rw [Option.some.inj hget]
    | [], _ =>
        rw [hlisting] at hget
        cases hget
  · have htext : textAt mem 255 = "db 10000010" := by decide +kernel
    have hspan : rowSize mem 1 255 = 1 := by decide +kernel
    have hshows := shows_textAt hfull 1 (a := 255) (by decide) false
    rwa [htext, hspan] at hshows

end Debugger

end LS8
