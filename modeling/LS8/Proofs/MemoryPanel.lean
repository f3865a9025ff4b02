/-
Memory on the screen, wherever the view has been scrolled to.

A row of the box shows an address and the eight cells from there on, each in
three columns. So the characters and the styles of a cell are found by its
number alone (`piece_eq`), and what the box cuts off on the right takes
nothing away from what is left of it.

A history keeps what this needs: the view begins with a row that there is
(`memScroll_after_le`), and memory has a cell for each address, unless the
machine is changed directly into one that has not (`full_after`).

# Scrolling in words

The view is moved in exact integers and then brought back between the first
and the last row. In 64-bit words the sum of a word and a signed word is held
at the ends of their range (`addSigned`). It never comes to the upper end from
a row of the view, and being held at zero is what brings the view back to the
first row, so both ways lead to the same row.
-/
import LS8.Proofs.Debugging
import LS8.Proofs.Layout
import LS8.Proofs.MemoryMap

namespace LS8.Debugger

open Screen Machine

variable {d : Debugger} {program : List UInt8} {history : List Operation}

-- ============================================================= histories

/-- A machine with a full memory is left with one, whether or not it is
changed directly. -/
def Operation.KeepsFull : Operation → Prop
  | interfere change => ∀ m : Machine, m.mem.Full → (change m).mem.Full
  | _ => True

theorem full_bootOrFresh (program : List UInt8) : (bootOrFresh program).mem.Full := by
  unfold bootOrFresh
  split
  · next m hboot => exact full_boot hboot
  · exact Array.size_replicate

theorem full_perform {op : Operation} (hkeeps : op.KeepsFull) (hfull : d.machine.mem.Full) :
    (d.perform op).machine.mem.Full := by
  cases hreset : op.isReset with
  | true =>
      cases op with
      | reset => exact full_bootOrFresh d.program
      | _ => cases hreset
  | false =>
      cases hinterfere : op.isInterference with
      | true =>
          cases op with
          | interfere change => exact hkeeps d.machine hfull
          | _ => cases hinterfere
      | false =>
          -- every other operation comes to some number of step calls
          have hfollows : Follows d (d.machine, .unlimited d.output) :=
            ⟨rfl, Printer.takesAll_unlimited _, rfl⟩
          obtain ⟨n, -, -, hnext⟩ := perform_follows hreset hinterfere hfollows
          rw [hnext.machine]
          exact full_iterate_advance _ _ hfull n

theorem full_after (program : List UInt8) (hkeeps : ∀ op ∈ history, op.KeepsFull) :
    (after program history).machine.mem.Full := by
  induction history using List.reverseRecOn with
  | nil => exact full_bootOrFresh program
  | append_singleton history op ih =>
      rw [List.forall_mem_append, List.forall_mem_singleton] at hkeeps
      rw [after_concat]
      exact full_perform hkeeps.2 (ih hkeeps.1)

-- ============================================================= scrolling

/-- The view is moved by as many rows as there are on that side. -/
theorem memScroll_scroll (d : Debugger) (rows : Int) :
    ((d.scroll rows).memScroll : Int) = max 0 (min 31 (d.memScroll + rows)) := by
  have hlast : memoryRows - 1 = 31 := rfl
  show ((min (d.memScroll + rows).toNat (memoryRows - 1) : Nat) : Int) = _
  omega

/-- A signed word added to a word in words: where the sum does not fit one, it
is the nearer end of the range. -/
def addSigned (n : UInt64) (rows : Int64) : UInt64 :=
  let sum := n + rows.toUInt64
  if sum < n ↔ rows < 0 then sum
  else if sum < n then UInt64.ofNat (UInt64.size - 1)
  else 0

theorem toNat_toUInt64 (rows : Int64) :
    (rows.toUInt64.toNat : Int) =
      if rows.toInt < 0 then rows.toInt + UInt64.size else rows.toInt := by
  have hword : rows.toInt = rows.toBitVec.toInt := rfl
  have hlt := rows.toBitVec.isLt
  show (rows.toBitVec.toNat : Int) = _
  rw [hword, BitVec.toInt_eq_toNat_cond]
  simp only [UInt64.size]
  omega

theorem toNat_addSigned (n : UInt64) (rows : Int64) :
    (addSigned n rows).toNat = min (n.toNat + rows.toInt).toNat (UInt64.size - 1) := by
  have hsum : (n + rows.toUInt64).toNat = (n.toNat + rows.toUInt64.toNat) % UInt64.size :=
    UInt64.toNat_add ..
  have hword := toNat_toUInt64 rows
  have hn := n.toNat_lt_size
  have hlo := rows.le_toInt
  have hhi := rows.toInt_lt
  have hmax : (UInt64.ofNat (UInt64.size - 1)).toNat = UInt64.size - 1 := rfl
  have hzero : (0 : UInt64).toNat = 0 := rfl
  unfold addSigned
  simp only [UInt64.lt_iff_toNat_lt, Int64.lt_iff_toInt_lt, Int64.toInt_zero]
  simp only [UInt64.size] at *
  -- a sum that has wrapped around is the smaller one, unless what was added
  -- stands for a negative number
  split
  · omega
  · split
    · omega
    · omega

/-- From a row that there is, words lead to the same row as integers. -/
theorem memScroll_scroll_word (h : d.memScroll ≤ 31) (rows : Int64) :
    (d.scroll rows.toInt).memScroll =
      min (addSigned (UInt64.ofNat d.memScroll) rows).toNat 31 := by
  have hlast : memoryRows - 1 = 31 := rfl
  have hword : (UInt64.ofNat d.memScroll).toNat = d.memScroll :=
    UInt64.toNat_ofNat_of_lt' (Nat.lt_of_le_of_lt h (by decide))
  rw [toNat_addSigned, hword]
  show min (d.memScroll + rows.toInt).toNat (memoryRows - 1) = _
  rw [hlast, Nat.min_assoc]
  rfl

-- ================================================================= cells

/-- How a cell of memory looks: yellow and bold at the program counter alone,
magenta at the stack pointer, unless it is zero or the program counter is
there, and otherwise by whether it is zero. -/
structure Looks (regs : Registers) (address : Nat) (value : UInt8) (style : Style) : Prop where
  counter : style = bold .yellow ↔ address = regs.pc.toNat
  pointer : address = regs.sp.toNat → regs.sp ≠ 0 → regs.sp ≠ regs.pc → style = colored .magenta
  other : address ≠ regs.pc.toNat → (address = regs.sp.toNat → regs.sp = 0) →
    style = if value = 0 then colored .darkGray else colored .white

theorem looks_cellStyle (regs : Registers) (address : Nat) (value : UInt8) :
    Looks regs address value (cellStyle regs address value) := by
  unfold cellStyle
  by_cases hpc : address = regs.pc.toNat
  · rw [if_pos hpc]
    refine ⟨iff_of_true rfl hpc, fun hsp _ hne => ?_, fun hne => absurd hpc hne⟩
    exact absurd (UInt8.toNat_inj.1 (hsp.symm.trans hpc)) hne
  · rw [if_neg hpc]
    by_cases hsp : address = regs.sp.toNat ∧ regs.sp ≠ 0
    · rw [if_pos hsp]
      exact ⟨iff_of_false (by decide) hpc, fun _ _ _ => rfl,
        fun _ hzero => absurd (hzero hsp.1) hsp.2⟩
    · rw [if_neg hsp]
      have hvalue : (if value ≠ 0 then colored .white else colored .darkGray)
          = if value = 0 then colored .darkGray else colored .white := ite_not ..
      rw [hvalue]
      refine ⟨iff_of_false ?_ hpc, fun hat hne => absurd ⟨hat, hne⟩ hsp, fun _ _ => rfl⟩
      split
      · decide
      · decide

/-- Behind what is in front of them, equally long pieces are found by their
number. -/
theorem piece_eq {α β : Type} {front : List β} {f : α → List β} {i n : Nat}
    (hfront : front.length = i) (hlength : ∀ x, (f x).length = n) {l : List α} {k : Nat} {x : α}
    (h : l[k]? = some x) : ((front ++ l.flatMap f).drop (i + n * k)).take n = f x := by
  rw [← hfront, List.drop_length_add_append]
  induction l generalizing k with
  | nil => cases h
  | cons y l ih =>
      rw [List.flatMap_cons]
      cases k with
      | zero =>
          obtain rfl : y = x := Option.some.inj h
          rw [Nat.mul_zero, List.drop_zero, List.take_left' (hlength y)]
      | succ k =>
          -- the first piece takes `n` off what is dropped
          rw [Nat.mul_succ, Nat.add_comm, ← hlength y, List.drop_length_add_append, hlength y]
          exact ih h

-- ================================================================== rows

/-- How the address in front of a row of memory reads. -/
def addressChars (base : Nat) : List Char :=
  (Numeral.hex2 (UInt8.ofNat base)).toList ++ [':', ' ']

/-- How a cell of memory reads. -/
def cellChars (mem : Memory) (a : Nat) : List Char :=
  (Numeral.hex2 (mem.peek a)).toList ++ [' ']

/-- How a row of memory reads: the address, and the eight cells from there
on. -/
def memoryChars (mem : Memory) (base : Nat) : List Char :=
  addressChars base ++ (List.range' base 8).flatMap (cellChars mem)

theorem length_addressChars (base : Nat) : (addressChars base).length = 4 := by
  rw [addressChars, List.length_append, Numeral.length_hex2]
  rfl

theorem length_cellChars (mem : Memory) (a : Nat) : (cellChars mem a).length = 3 := by
  rw [cellChars, List.length_append, Numeral.length_hex2]
  rfl

theorem length_memoryChars (mem : Memory) (base : Nat) : (memoryChars mem base).length = 28 := by
  rw [memoryChars, List.length_append, length_addressChars, List.length_flatMap]
  simp only [length_cellChars]
  rfl

/-- The cells of a row of memory. -/
theorem dump_row {mem : Memory} (hfull : mem.Full) {row : Nat} (hrow : row < 32) :
    mem.dump (8 * row) rowCells =
      .ok ((List.range' (8 * row) 8).map fun a => (a, mem.peek a)) := by
  have hfits : 8 * row + rowCells < UInt64.size := by
    simp only [rowCells, UInt64.size]
    omega
  have hcount : min (8 * row + rowCells) Memory.capacity - 8 * row = 8 := by
    simp only [rowCells, Memory.capacity]
    omega
  rw [hfull.dump_of_lt hfits, Memory.between, Memory.filter_range_eq, hcount]

/-- The spans of a row of memory. -/
theorem spans_memoryLine {m : Machine} (hfull : m.mem.Full) {row : Nat} (hrow : row < 32) :
    (memoryLine m row).spans =
      { text := Numeral.hex2 (UInt8.ofNat (8 * row)) ++ ": " } ::
        (List.range' (8 * row) 8).map fun a =>
          { text := Numeral.hex2 (m.mem.peek a) ++ " "
            style := cellStyle m.regs a (m.mem.peek a) } := by
  have hbase : row * rowCells = 8 * row := Nat.mul_comm ..
  simp only [memoryLine, hbase, dump_row hfull hrow, Except.toOption, Option.getD_some,
    List.map_map, Function.comp_def]

theorem chars_memoryLine {m : Machine} (hfull : m.mem.Full) {row : Nat} (hrow : row < 32) :
    (memoryLine m row).chars = memoryChars m.mem (8 * row) := by
  have hcolon : ": ".toList = [':', ' '] := rfl
  have hblank : " ".toList = [' '] := rfl
  rw [Line.chars, spans_memoryLine hfull hrow, List.flatMap_cons, List.flatMap_map, memoryChars]
  simp only [String.toList_append, hcolon, hblank]
  rfl

/-- The cells of a row of memory as they look. -/
theorem cells_memoryLine {m : Machine} (hfull : m.mem.Full) {row : Nat} (hrow : row < 32) :
    (memoryLine m row).cells plain =
      (addressChars (8 * row)).map (⟨·, plain⟩)
        ++ (List.range' (8 * row) 8).flatMap fun a =>
          (cellChars m.mem a).map (⟨·, cellStyle m.regs a (m.mem.peek a)⟩) := by
  have hcolon : ": ".toList = [':', ' '] := rfl
  have hblank : " ".toList = [' '] := rfl
  have hstyle : (memoryLine m row).style = plain := rfl
  rw [Line.cells, spans_memoryLine hfull hrow, List.flatMap_cons, List.flatMap_map, hstyle]
  simp only [Screen.cells, plain_under, String.toList_append, hcolon, hblank, addressChars,
    cellChars]

/-- What the cells of a row on the screen say of the eight cells of memory
from `base` on, as far as `width` columns allow. -/
structure ShowsCells (m : Machine) (base width : Nat) (cells : Screen.Row) : Prop where
  address : (Numeral.hexByte? ((glyphs cells).take 2)).map UInt8.toNat = some base
  cell : ∀ k < 8, ∃ value, m.mem.cells[base + k]? = some value
    ∧ (4 + 3 * k + 2 ≤ width →
        Numeral.hexByte? (((glyphs cells).drop (4 + 3 * k)).take 2) = some value)
    ∧ ∀ cell ∈ (cells.drop (4 + 3 * k)).take 3, Looks m.regs (base + k) value cell.style

variable {m : Machine} {row width k : Nat}

theorem glyphs_memoryRow (hfull : m.mem.Full) (hrow : row < 32) :
    glyphs ((memoryLine m row).row plain width) = fitted width (memoryChars m.mem (8 * row)) := by
  rw [glyphs_row, chars_memoryLine hfull hrow]

theorem getElem?_row {base : Nat} (hk : k < 8) : (List.range' base 8)[k]? = some (base + k) := by
  rw [List.getElem?_range' hk, Nat.one_mul]

/-- The address is shown whole. -/
theorem address_memoryRow (hfull : m.mem.Full) (hrow : row < 32) (hwidth : 2 ≤ width) :
    Numeral.hexByte? ((glyphs ((memoryLine m row).row plain width)).take 2)
      = some (UInt8.ofNat (8 * row)) := by
  have hlength := length_memoryChars m.mem (8 * row)
  have hwindow : ((fitted width (memoryChars m.mem (8 * row))).drop 0).take 2
      = ((memoryChars m.mem (8 * row)).drop 0).take 2 := window_fitted (by omega) (by omega)
  have hfront : (memoryChars m.mem (8 * row)).take 2
      = (Numeral.hex2 (UInt8.ofNat (8 * row))).toList := by
    rw [memoryChars, addressChars, List.append_assoc, List.take_left' (Numeral.length_hex2 _)]
  rw [List.drop_zero, List.drop_zero] at hwindow
  rw [glyphs_memoryRow hfull hrow, hwindow, hfront, Numeral.hexByte?_hex2]

/-- A value is shown if there are columns for its two digits. -/
theorem value_memoryRow (hfull : m.mem.Full) (hrow : row < 32) (hk : k < 8)
    (hwidth : 4 + 3 * k + 2 ≤ width) :
    Numeral.hexByte? (((glyphs ((memoryLine m row).row plain width)).drop (4 + 3 * k)).take 2)
      = some (m.mem.peek (8 * row + k)) := by
  have hlength := length_memoryChars m.mem (8 * row)
  have hpiece : ((memoryChars m.mem (8 * row)).drop (4 + 3 * k)).take 3
      = cellChars m.mem (8 * row + k) :=
    piece_eq (length_addressChars _) (length_cellChars m.mem) (getElem?_row hk)
  have hdigits : ((memoryChars m.mem (8 * row)).drop (4 + 3 * k)).take 2
      = (Numeral.hex2 (m.mem.peek (8 * row + k))).toList := by
    have hfront := congrArg (List.take 2) hpiece
    rw [List.take_take, cellChars, List.take_left' (Numeral.length_hex2 _)] at hfront
    exact hfront
  rw [glyphs_memoryRow hfull hrow, window_fitted hwidth (by omega), hdigits,
    Numeral.hexByte?_hex2]

/-- What is shown of a cell of memory has its style. -/
theorem style_memoryRow (hfull : m.mem.Full) (hrow : row < 32) (hk : k < 8) :
    ∀ cell ∈ (((memoryLine m row).row plain width).drop (4 + 3 * k)).take 3,
      cell.style = cellStyle m.regs (8 * row + k) (m.mem.peek (8 * row + k)) := by
  intro cell hcell
  have hlength := length_memoryChars m.mem (8 * row)
  have hthere : 4 + 3 * k + 3 ≤ ((memoryLine m row).cells plain).length := by
    rw [← List.length_map (·.glyph), ← glyphs, glyphs_cells_line, chars_memoryLine hfull hrow]
    omega
  have hpiece : (((memoryLine m row).cells plain).drop (4 + 3 * k)).take 3
      = (cellChars m.mem (8 * row + k)).map
          (⟨·, cellStyle m.regs (8 * row + k) (m.mem.peek (8 * row + k))⟩) := by
    rw [cells_memoryLine hfull hrow]
    refine piece_eq ?_ (fun a => ?_) (getElem?_row hk)
    · rw [List.length_map, length_addressChars]
    · rw [List.length_map, length_cellChars]
  have hmem := mem_of_mem_window_fit hthere hcell
  rw [hpiece] at hmem
  obtain ⟨c, -, rfl⟩ := List.mem_map.1 hmem
  rfl

theorem showsCells_row (hfull : m.mem.Full) (hrow : row < 32) (hwidth : 2 ≤ width) :
    ShowsCells m (8 * row) width ((memoryLine m row).row plain width) := by
  constructor
  · rw [address_memoryRow hfull hrow hwidth, Option.map_some,
      UInt8.toNat_ofNat_of_lt' (by simp only [UInt8.size]; omega)]
  · intro k hk
    have hcell : m.mem.cells[8 * row + k]? = some (m.mem.peek (8 * row + k)) := by
      refine Memory.read_eq_ok_iff.1 (hfull.read_eq ?_)
      simp only [Memory.capacity]
      omega
    refine ⟨_, hcell, value_memoryRow hfull hrow hk, fun cell hmem => ?_⟩
    rw [style_memoryRow hfull hrow hk cell hmem]
    exact looks_cellStyle _ _ _

/-- A blank row shows no address. -/
theorem ShowsCells.ne_blankRow {base : Nat} {cells : Screen.Row}
    (h : ShowsCells m base width cells) : cells ≠ blankRow width := by
  rintro rfl
  have haddress := h.address
  have hblank : glyphs (blankRow width) = List.replicate width ' ' := List.map_replicate ..
  rw [hblank, List.take_replicate] at haddress
  have hnone : ∀ n ≤ 2, Numeral.hexByte? (List.replicate n ' ') = none := by decide
  rw [hnone _ (Nat.min_le_left 2 width)] at haddress
  cases haddress

-- =============================================================== the box

/-- How many rows of memory are shown in `lines` rows. -/
def filledRows (d : Debugger) (lines : Nat) : Nat :=
  min lines (32 - d.memScroll)

/-- What stands inside the box of memory. -/
def memoryContent (d : Debugger) (w h : Nat) : List Screen.Row :=
  region (d.screen w h) ⟨(w + 1) / 2 + 1, 1, w - (w + 1) / 2 - 2, h - 14⟩

variable {w h r : Nat} {cells : Screen.Row}

theorem take_rows (start count lines : Nat) :
    (List.range' start count).take lines = List.range' start (min lines count) := by
  refine List.ext_getElem (by simp) fun i _ _ => ?_
  rw [List.getElem_take, List.getElem_range', List.getElem_range']

theorem region_memoryPanel (d : Debugger) (hw : 4 ≤ w) (hh : 14 ≤ h) :
    region (d.screen w h) ⟨(w + 1) / 2, 0, w - (w + 1) / 2, h - 12⟩ =
      (d.memoryPanel (h - 12)).rows (w - (w + 1) / 2) (h - 12) :=
  region_screen hw hh _ (List.mem_append_right _ (List.mem_cons_self ..))

theorem memoryContent_eq (d : Debugger) (hw : 4 ≤ w) (hh : 14 ≤ h) :
    d.memoryContent w h =
      (List.range' d.memScroll (d.filledRows (h - 14))).map
          (fun row => (memoryLine d.machine row).row plain (w - (w + 1) / 2 - 2))
        ++ List.replicate (h - 14 - d.filledRows (h - 14)) (blankRow (w - (w + 1) / 2 - 2)) := by
  have hsub : h - 12 - 2 = h - 14 := Nat.sub_sub h 12 2
  have hlines : (d.memoryPanel (h - 12)).lines =
      (List.range' d.memScroll (d.filledRows (h - 14))).map (memoryLine d.machine) := by
    rw [memoryPanel, hsub, take_rows]
    rfl
  have hlength : (d.memoryPanel (h - 12)).lines.length ≤ h - 12 - 2 := by
    rw [hlines, List.length_map, List.length_range', hsub]
    exact Nat.min_le_left _ _
  have hinner := region_inner (d.region_memoryPanel hw hh) rfl hlength
  rw [hlines, List.length_map, List.length_range', List.map_map, hsub] at hinner
  exact hinner

theorem length_memoryContent (d : Debugger) (hw : 4 ≤ w) (hh : 14 ≤ h) :
    (d.memoryContent w h).length = h - 14 := by
  have hfilled : d.filledRows (h - 14) ≤ h - 14 := Nat.min_le_left _ _
  rw [d.memoryContent_eq hw hh, List.length_append, List.length_map, List.length_range',
    List.length_replicate]
  omega

/-- The filled rows are rows that there are. -/
theorem lt_of_mem_filled {lines row : Nat} (hscroll : d.memScroll ≤ 31)
    (h : row ∈ List.range' d.memScroll (d.filledRows lines)) : row < 32 := by
  have hfilled : d.filledRows lines ≤ 32 - d.memScroll := Nat.min_le_right _ _
  rw [List.mem_range'_1] at h
  omega

theorem map_glyphs_memoryContent (hfull : d.machine.mem.Full) (hscroll : d.memScroll ≤ 31)
    (hw : 4 ≤ w) (hh : 14 ≤ h) :
    (d.memoryContent w h).map glyphs =
      (List.range' d.memScroll (d.filledRows (h - 14))).map
          (fun row => fitted (w - (w + 1) / 2 - 2) (memoryChars d.machine.mem (8 * row)))
        ++ List.replicate (h - 14 - d.filledRows (h - 14)) (fitted (w - (w + 1) / 2 - 2) []) := by
  have hrows : ∀ row ∈ List.range' d.memScroll (d.filledRows (h - 14)),
      glyphs ((memoryLine d.machine row).row plain (w - (w + 1) / 2 - 2))
        = fitted (w - (w + 1) / 2 - 2) (memoryChars d.machine.mem (8 * row)) :=
    fun row hrow => glyphs_memoryRow hfull (lt_of_mem_filled hscroll hrow)
  rw [d.memoryContent_eq hw hh, List.map_append, List.map_map, List.map_replicate,
    glyphs_blankRow]
  exact congrArg (· ++ _) (List.map_congr_left hrows)

/-- A filled row shows the cells of the row of memory that many behind the
first one of the view, and the others are blank. -/
theorem memoryContent_cases (hfull : d.machine.mem.Full) (hscroll : d.memScroll ≤ 31)
    (hw : 40 ≤ w) (hh : 22 ≤ h) (hr : (d.memoryContent w h)[r]? = some cells) :
    (r < d.filledRows (h - 14)
        ∧ ShowsCells d.machine (8 * (d.memScroll + r)) (w - (w + 1) / 2 - 2) cells)
      ∨ (d.filledRows (h - 14) ≤ r ∧ cells = blankRow (w - (w + 1) / 2 - 2)) := by
  rw [d.memoryContent_eq (by omega) (by omega)] at hr
  rcases shown_cases hr with ⟨row, hrow, rfl⟩ | ⟨hnone, hblank⟩
  · obtain ⟨hlt, rfl⟩ := List.getElem?_eq_some_iff.1 hrow
    rw [List.length_range'] at hlt
    rw [List.getElem_range', Nat.one_mul]
    have hfilled : d.filledRows (h - 14) ≤ 32 - d.memScroll := Nat.min_le_right _ _
    exact Or.inl ⟨hlt, showsCells_row hfull (by omega) (by omega)⟩
  · rw [List.getElem?_eq_none_iff, List.length_range'] at hnone
    exact Or.inr ⟨hnone, hblank⟩

-- ============================================================ the theorem

/-- After any history, on every screen of at least 40 times 22 cells, the box
of memory shows the memory of the machine from the row of the view on. Only
direct changes of the machine have to leave memory full; every other operation
does.

Inside its border there is at least one filled row, and there are as many as
fit and as memory has left; blank rows stand below them. A filled row shows
the address of its first cell and, as far as its columns go, the values of the
eight cells from there on, cell by cell: the one at the program counter is
yellow and bold and no other one is, the one at the stack pointer is magenta
if the stack pointer is neither zero nor the program counter, and the others
are white, or dark gray where they are zero.

Scrolling moves the view by any number of rows, held between the first and the
last row of memory; reckoned in words it comes to the same. -/
theorem memory_panel_shows_memory (program : List UInt8) (history : List Operation)
    (hkeeps : ∀ op ∈ history, op.KeepsFull) {w h : Nat} (hw : 40 ≤ w) (hh : 22 ≤ h) :
    let d := after program history
    let width := w - (w + 1) / 2 - 2
    let filled := min (h - 14) (32 - d.memScroll)
    let content := region (d.screen w h) ⟨(w + 1) / 2 + 1, 1, width, h - 14⟩
    region (d.screen w h) ⟨(w + 1) / 2, 0, w - (w + 1) / 2, h - 12⟩ =
      (d.memoryPanel (h - 12)).rows (w - (w + 1) / 2) (h - 12)
    ∧ content.length = h - 14
    ∧ 1 ≤ filled
    ∧ content.map glyphs =
        (List.range' d.memScroll filled).map
            (fun row => fitted width (memoryChars d.machine.mem (8 * row)))
          ++ List.replicate (h - 14 - filled) (fitted width [])
    ∧ (∀ (r : Nat) (cells : Screen.Row), content[r]? = some cells →
        (cells ≠ blankRow width ↔ r < filled)
        ∧ (r < filled → ShowsCells d.machine (8 * (d.memScroll + r)) width cells))
    ∧ (∀ rows : Int, ((d.scroll rows).memScroll : Int) = max 0 (min 31 (d.memScroll + rows)))
    ∧ ∀ rows : Int64,
        (d.scroll rows.toInt).memScroll =
          min (addSigned (UInt64.ofNat d.memScroll) rows).toNat 31 := by
  intro d width filled content
  have hfull : d.machine.mem.Full := full_after program hkeeps
  have hscroll : d.memScroll ≤ 31 := memScroll_after_le program history
  refine ⟨d.region_memoryPanel (by omega) (by omega),
    d.length_memoryContent (by omega) (by omega), by omega,
    map_glyphs_memoryContent hfull hscroll (by omega) (by omega), fun r cells hr => ?_,
    d.memScroll_scroll, memScroll_scroll_word hscroll⟩
  rcases memoryContent_cases hfull hscroll hw hh hr with ⟨hlt, hshows⟩ | ⟨hge, rfl⟩
  · exact ⟨iff_of_true hshows.ne_blankRow hlt, fun _ => hshows⟩
  · exact ⟨iff_of_false (fun hne => hne rfl) (Nat.not_lt.2 hge),
      fun hlt => absurd hlt (Nat.not_lt.2 hge)⟩

/-- The view is moved as far down as words go and two rows up again, so that
it ends with the last row of memory: there the program counter and the stack
pointer are at cells beside each other. -/
theorem last_rows_are_shown :
    let history : List Operation :=
      [.interfere fun m => { m with regs := m.regs.setSp 250 }, .interfere fun m => m.jump 249,
        .scroll 9223372036854775807, .scroll (-2)]
    let d := after [] history
    let content : List Screen.Row := region (d.screen 40 22) ⟨21, 1, 18, 8⟩
    (∀ op ∈ history, op.KeepsFull) ∧ 40 ≤ 40 ∧ 22 ≤ 22 ∧ d.memScroll = 29
    ∧ ∃ cells : Screen.Row, content[2]? = some cells
      ∧ (Numeral.hexByte? ((glyphs cells).take 2)).map UInt8.toNat = some 248
      ∧ Numeral.hexByte? (((glyphs cells).drop 10).take 2) = some 0
      ∧ (∀ cell ∈ (cells.drop 7).take 3, cell.style = bold .yellow)
      ∧ ∀ cell ∈ (cells.drop 10).take 3, cell.style = colored .magenta := by
  intro history d content
  have hkeeps : ∀ op ∈ history, op.KeepsFull := by
    simp only [history, List.forall_mem_cons]
    exact ⟨fun _ hfull => hfull, fun _ hfull => hfull, trivial, trivial, nofun⟩
  have hscroll : d.memScroll = 29 := rfl
  have hmachine : ∀ program, (after program history).machine =
      { bootOrFresh program with
        regs := ((bootOrFresh program).regs.setSp 250).jump 249 } := fun _ => rfl
  have hboot : bootOrFresh [] =
      { fresh with mem := ⟨⟨List.replicate Memory.capacity 0⟩⟩ } := by
    rw [bootOrFresh, boot_eq_ok_iff.2 ⟨Nat.zero_le _, rfl⟩]
    rfl
  have hregs : d.machine.regs = (Registers.fresh.setSp 250).jump 249 := by
    rw [hmachine, hboot]
    rfl
  obtain ⟨-, hlength, -, -, hrows, -, -⟩ :=
    memory_panel_shows_memory [] history hkeeps (Nat.le_refl 40) (Nat.le_refl 22)
  have hthere : 2 < content.length := by
    rw [hlength]
    decide
  have hrow := List.getElem?_eq_getElem hthere
  have hshows := (hrows 2 _ hrow).2 (by decide)
  obtain ⟨_, -, -, hcounter⟩ := hshows.cell 1 (by decide)
  obtain ⟨value, hvalue, hread, hpointer⟩ := hshows.cell 2 (by decide)
  have hzero : d.machine.mem.cells[250]? = some 0 := by
    rw [hmachine, hboot]
    decide +kernel
  obtain rfl : value = 0 := Option.some.inj (hvalue.symm.trans hzero)
  refine ⟨hkeeps, Nat.le_refl 40, Nat.le_refl 22, hscroll, content[2], hrow, hshows.address,
    hread (by decide), fun cell hcell => ?_, fun cell hcell => ?_⟩
  · refine (hcounter cell hcell).counter.2 ?_
    rw [hregs]
    rfl
  · have hlooks := hpointer cell hcell
    rw [hregs] at hlooks
    exact hlooks.pointer rfl (by decide) (by decide)

end LS8.Debugger
