/-
The listing on the screen: the program counter is always to be seen.

What stands in the box of the listing is read off the screen by columns: two
marks in front, the address in three digits (`shownAddress?`), the text of the
row behind it. Nothing else in a row looks like a mark, because everything
behind the marks is ASCII, and the box is wide enough on every screen for the
marks and the address (`readsAs_row`). So the marks on the screen are those of
the rows that are shown, and the window of rows always has the current one in
it (`CurrentAt.exists_window`).

Rows that the listing does not need are blank, and blank rows read as none.
-/
import LS8.Proofs.Layout
import LS8.Proofs.Listing

namespace LS8

-- =============================================== texts without a mark

/-- All characters of the text are below 128. -/
def Text.Ascii (text : String) : Prop :=
  ∀ c ∈ text.toList, c.toNat ≤ 127

namespace Text

instance (text : String) : Decidable (Ascii text) :=
  List.decidableBAll _ text.toList

theorem Ascii.append {a b : String} (ha : Ascii a) (hb : Ascii b) : Ascii (a ++ b) := by
  intro c hc
  rw [String.toList_append, List.mem_append] at hc
  exact hc.elim (ha c) (hb c)

theorem toNat_le_of_isDigit {c : Char} (h : c.isDigit = true) : c.toNat ≤ 127 := by
  simp only [Char.isDigit, Bool.and_eq_true, decide_eq_true_eq] at h
  exact Nat.le_trans (UInt32.le_iff_toNat_le.1 h.2) (by decide)

theorem ascii_decimal (n : Nat) : Ascii (Numeral.decimal n) :=
  fun _ hc => toNat_le_of_isDigit (Numeral.isDigit_of_mem_decimal hc)

theorem ascii_decimal3 (n : Nat) : Ascii (Numeral.decimal3 n) :=
  fun _ hc => toNat_le_of_isDigit (Numeral.isDigit_of_mem_decimal3 hc)

theorem ascii_binary8 (byte : UInt8) : Ascii (Numeral.binary8 byte) := by
  intro c hc
  have hbit := Numeral.isBit_of_mem_binary8 hc
  simp only [Numeral.isBit, Bool.or_eq_true, beq_iff_eq] at hbit
  rcases hbit with rfl | rfl
  · decide
  · decide

theorem ascii_instruction (i : Instruction) : Ascii i.text := by
  have hregister : ∀ reg, Ascii (Instruction.registerText reg) := fun reg =>
    .append (by decide) (ascii_decimal _)
  cases i with
  | hlt => decide
  | ret => decide
  | jmp reg | jeq reg | jne reg | call reg | prn reg | push reg | pop reg =>
      exact .append (by decide) (hregister reg)
  | ldi reg value =>
      exact .append (.append (.append (by decide) (hregister reg)) (by decide)) (ascii_decimal _)
  | alu op a b =>
      have hop : Ascii op.mnemonic := by cases op <;> decide
      exact .append (.append (.append (.append hop (by decide)) (hregister a)) (by decide))
        (hregister b)

theorem ascii_textAt (mem : Memory) (address : Nat) : Ascii (Listing.textAt mem address) := by
  unfold Listing.textAt
  split
  · exact ascii_instruction _
  · exact .append (by decide) (ascii_binary8 _)

end Text

namespace Screen

/-- The number that stands where a row of the listing has its address. -/
def shownAddress? (row : Row) : Option Nat :=
  Numeral.ofDecimal? (((glyphs row).drop 4).take 3)

/-- Cut or filled up, a text has a character other than a blank where it had
it before the cut. -/
theorem mem_fitted_iff {width : Nat} {chars : List Char} {c : Char} (h : c ≠ ' ') :
    c ∈ fitted width chars ↔ c ∈ chars.take width := by
  rw [fitted, List.rightpad, List.mem_append]
  refine or_iff_left fun hc => ?_
  exact h (List.eq_of_mem_replicate hc)

theorem not_mem_blankRow {width : Nat} {c : Char} (h : c ≠ ' ') :
    c ∉ glyphs (blankRow width) := by
  rw [glyphs_blankRow, mem_fitted_iff h, List.take_nil]
  exact List.not_mem_nil

end Screen

namespace Debugger

open Screen Listing

variable {d : Debugger} {row : Listing.Row} {width : Nat}

-- =============================================================== a row

/-- How a row of the listing reads: a mark for a breakpoint and one for the
program counter, the address in three digits, and the text. -/
def rowChars (d : Debugger) (row : Listing.Row) : List Char :=
  (if ∃ a ∈ d.breakpoints, a.toNat = row.address then '●' else ' ') :: ' '
    :: (if row.current then '▶' else ' ') :: ' '
    :: ((Numeral.decimal3 row.address).toList ++ ':' :: ' ' :: row.text.toList)

theorem any_breakpoints_eq (d : Debugger) (address : Nat) :
    (d.breakpoints.any fun a => a.toNat == address)
      = decide (∃ a ∈ d.breakpoints, a.toNat = address) := by
  rw [Bool.eq_iff_iff]
  simp

theorem chars_listingLine (d : Debugger) (row : Listing.Row) :
    (d.listingLine row).chars = d.rowChars row := by
  unfold listingLine rowChars
  rw [any_breakpoints_eq]
  by_cases hbreak : ∃ a ∈ d.breakpoints, a.toNat = row.address
  · cases row.current
    · simp [Line.chars, String.toList_append, hbreak]
    · simp [Line.chars, String.toList_append, hbreak]
  · cases row.current
    · simp [Line.chars, String.toList_append, hbreak]
    · simp [Line.chars, String.toList_append, hbreak]

theorem style_listingLine (d : Debugger) (row : Listing.Row) :
    (d.listingLine row).style =
      if row.current then bold .yellow
      else if ∃ a ∈ d.breakpoints, a.toNat = row.address then colored .red
      else plain := by
  unfold listingLine
  simp only [any_breakpoints_eq, decide_eq_true_eq]

/-- Nothing behind the marks of a row is one. -/
theorem ascii_of_mem_drop_rowChars (htext : Text.Ascii row.text) :
    ∀ c ∈ (d.rowChars row).drop 4, c.toNat ≤ 127 := by
  intro c hc
  rcases List.mem_append.1 hc with hc | hc
  · exact Text.ascii_decimal3 _ c hc
  · rcases List.mem_cons.1 hc with rfl | hc
    · decide
    · rcases List.mem_cons.1 hc with rfl | hc
      · decide
      · exact htext c hc

/-- A character that is neither a blank nor ASCII is one of the two marks. -/
theorem mem_fitted_rowChars_iff (htext : Text.Ascii row.text) (hwidth : 3 ≤ width) {c : Char}
    (hblank : c ≠ ' ') (hc : 127 < c.toNat) :
    c ∈ fitted width (d.rowChars row) ↔
      (c = if ∃ a ∈ d.breakpoints, a.toNat = row.address then '●' else ' ')
        ∨ c = if row.current then '▶' else ' ' := by
  obtain ⟨n, rfl⟩ : ∃ n, width = n + 3 := ⟨width - 3, by omega⟩
  have hbehind : c ∉ (' ' :: (d.rowChars row).drop 4).take n := by
    intro hmem
    rcases List.mem_cons.1 (List.mem_of_mem_take hmem) with rfl | hmem
    · exact hblank rfl
    · have hascii := ascii_of_mem_drop_rowChars htext c hmem
      omega
  -- at least the two marks are left of the cut
  rw [mem_fitted_iff hblank]
  show c ∈ _ :: ' ' :: _ :: (' ' :: (d.rowChars row).drop 4).take n ↔ _
  rw [List.mem_cons, List.mem_cons, List.mem_cons]
  simp only [hblank, hbehind, or_false, false_or]

/-- What the cells of a row on the screen say of a row of the listing. -/
structure ReadsAs (d : Debugger) (row : Listing.Row) (cells : Screen.Row) : Prop where
  pointed : '▶' ∈ glyphs cells ↔ row.current = true
  marked : '●' ∈ glyphs cells ↔ ∃ a ∈ d.breakpoints, a.toNat = row.address
  address : shownAddress? cells = some row.address
  style : ∀ cell ∈ cells, cell.style = (d.listingLine row).style

/-- In seven columns the marks and the address are shown whole. -/
theorem readsAs_row (hwidth : 7 ≤ width) (haddress : row.address < 1000)
    (htext : Text.Ascii row.text) :
    ReadsAs d row ((d.listingLine row).row plain width) := by
  have hglyphs : glyphs ((d.listingLine row).row plain width) = fitted width (d.rowChars row) := by
    rw [glyphs_row, chars_listingLine]
  refine ⟨?_, ?_, ?_, style_of_mem_row (fun span hspan => ?_) width⟩
  · rw [hglyphs, mem_fitted_rowChars_iff htext (by omega) (by decide) (by decide)]
    have hdot : ('▶' = if ∃ a ∈ d.breakpoints, a.toNat = row.address then '●' else ' ') ↔ False := by
      split <;> decide
    cases row.current
    · simp [hdot]
    · simp
  · rw [hglyphs, mem_fitted_rowChars_iff htext (by omega) (by decide) (by decide)]
    have hpointer : ('●' = if row.current then '▶' else ' ') ↔ False := by
      split <;> decide
    by_cases hbreak : ∃ a ∈ d.breakpoints, a.toNat = row.address
    · simp [hbreak]
    · simp [hbreak, hpointer]
  · have hlength : (Numeral.decimal3 row.address).toList.length = 3 :=
      Numeral.length_decimal3 haddress
    have hdrop : (d.rowChars row).drop 4
        = (Numeral.decimal3 row.address).toList ++ ':' :: ' ' :: row.text.toList := rfl
    have hthere : 4 + 3 ≤ (d.rowChars row).length := by
      simp only [rowChars, List.length_cons, List.length_append]
      omega
    rw [shownAddress?, hglyphs, window_fitted hwidth hthere, hdrop, List.take_left' hlength,
      Numeral.ofDecimal?_decimal3]
  · rw [List.mem_singleton.1 hspan]

/-- A row of blanks says nothing. -/
theorem shownAddress?_blankRow (hwidth : 7 ≤ width) : shownAddress? (blankRow width) = none := by
  obtain ⟨n, rfl⟩ : ∃ n, width = 7 + n := ⟨width - 7, by omega⟩
  have htake : ((glyphs (blankRow (7 + n))).drop 4).take 3 = [' ', ' ', ' '] := by
    rw [glyphs, blankRow, ← List.replicate_append_replicate]
    rfl
  rw [shownAddress?, htake]
  rfl

-- ================================================================ rows

theorem length_listing_le (d : Debugger) (lines : Nat) : (d.listing lines).length ≤ lines :=
  List.length_take_le ..

/-- What is known of the rows that are shown. -/
theorem of_mem_listing (hfull : d.machine.mem.Full) {lines : Nat} (hrow : row ∈ d.listing lines) :
    row.address < Memory.capacity ∧ row.current = decide (row.address = d.machine.pc.toNat)
      ∧ Text.Ascii row.text := by
  have hsweep : row ∈ sweep d.machine.mem d.machine.pc.toNat 0 :=
    List.mem_of_mem_drop (List.mem_of_mem_take hrow)
  have htiles : Tiles d.machine.mem d.machine.pc.toNat 0 d.machine.listing :=
    tiles_sweep hfull (Nat.zero_le _)
  refine ⟨(htiles.address_mem hfull row hsweep).2, current_of_mem_sweep row hsweep, ?_⟩
  rw [text_of_mem_sweep row hsweep]
  exact Text.ascii_textAt _ _

/-- A window of any height shows the current row. -/
theorem exists_currentAt_listing (lines : Nat) (hfull : d.machine.mem.Full) (hlines : 1 ≤ lines) :
    ∃ k current, CurrentAt (d.listing lines) d.machine.pc.toNat k current := by
  obtain ⟨k, current, hcurrent⟩ :=
    exists_currentAt_sweep hfull (Nat.zero_le _) d.machine.pc.toNat_lt
  obtain ⟨j, hj⟩ := hcurrent.exists_window hlines
  exact ⟨j, current, hj⟩

/-- What stands inside the box of the listing. -/
def programContent (d : Debugger) (w h : Nat) : List Screen.Row :=
  region (d.screen w h) ⟨1, 1, (w + 1) / 2 - 2, h - 12⟩

variable {w h r : Nat} {cells : Screen.Row}

theorem programContent_eq (d : Debugger) (hw : 4 ≤ w) (hh : 14 ≤ h) :
    d.programContent w h =
      (d.listing (h - 12)).map (fun row => (d.listingLine row).row plain ((w + 1) / 2 - 2))
        ++ List.replicate (h - 12 - (d.listing (h - 12)).length)
          (blankRow ((w + 1) / 2 - 2)) := by
  have hsub : h - 10 - 2 = h - 12 := Nat.sub_sub h 10 2
  have hbox : region (d.screen w h) ⟨0, 0, (w + 1) / 2, h - 10⟩
      = (d.programPanel (h - 10)).rows ((w + 1) / 2) (h - 10) :=
    region_screen hw hh _ (List.mem_append_left _ (List.mem_cons_self ..))
  have hlines : (d.programPanel (h - 10)).lines = (d.listing (h - 12)).map d.listingLine := by
    rw [programPanel, hsub]
  have hlength : (d.programPanel (h - 10)).lines.length ≤ h - 10 - 2 := by
    rw [hlines, List.length_map, hsub]
    exact d.length_listing_le _
  have hinner := region_inner hbox rfl hlength
  rw [hlines, List.length_map, List.map_map, hsub] at hinner
  exact hinner

theorem length_programContent (d : Debugger) (hw : 4 ≤ w) (hh : 14 ≤ h) :
    (d.programContent w h).length = h - 12 := by
  have hlength := d.length_listing_le (h - 12)
  rw [d.programContent_eq hw hh, List.length_append, List.length_map, List.length_replicate]
  omega

theorem map_glyphs_programContent (d : Debugger) (hw : 4 ≤ w) (hh : 14 ≤ h) :
    (d.programContent w h).map glyphs =
      (d.listing (h - 12)).map (fun row => fitted ((w + 1) / 2 - 2) (d.rowChars row))
        ++ List.replicate (h - 12 - (d.listing (h - 12)).length)
          (fitted ((w + 1) / 2 - 2) []) := by
  rw [d.programContent_eq hw hh, List.map_append, List.map_map, List.map_replicate,
    glyphs_blankRow]
  simp only [Function.comp_def, glyphs_row, chars_listingLine]

/-- A row inside the box reads as the row of the listing that has its number,
or is blank because there is none. -/
theorem programContent_cases (hfull : d.machine.mem.Full) (hw : 40 ≤ w) (hh : 22 ≤ h)
    (hr : (d.programContent w h)[r]? = some cells) :
    (∃ row, (d.listing (h - 12))[r]? = some row ∧ ReadsAs d row cells)
      ∨ ((d.listing (h - 12))[r]? = none ∧ cells = blankRow ((w + 1) / 2 - 2)) := by
  rw [d.programContent_eq (by omega) (by omega)] at hr
  rcases shown_cases hr with ⟨row, hrow, rfl⟩ | hblank
  · obtain ⟨haddress, -, htext⟩ := of_mem_listing hfull (List.mem_of_getElem? hrow)
    have hlt : row.address < 1000 := Nat.lt_trans haddress (by decide)
    exact Or.inl ⟨row, hrow, readsAs_row (by omega) hlt htext⟩
  · exact Or.inr hblank

/-- The current row is there, and no other row is marked as one. -/
theorem exists_pointed (hfull : d.machine.mem.Full) (hw : 40 ≤ w) (hh : 22 ≤ h) :
    ∃ (k : Nat) (current : Screen.Row), (d.programContent w h)[k]? = some current
      ∧ shownAddress? current = some d.machine.pc.toNat
      ∧ (∀ cell ∈ current, cell.style = bold .yellow)
      ∧ ∀ (r : Nat) (cells : Screen.Row), (d.programContent w h)[r]? = some cells →
          ('▶' ∈ glyphs cells ↔ r = k) := by
  obtain ⟨k, current, hcurrent⟩ := exists_currentAt_listing (h - 12) hfull (by omega)
  have hk : k < (d.programContent w h).length := by
    have hlt := (List.getElem?_eq_some_iff.1 hcurrent.get).1
    have hlength := d.length_listing_le (h - 12)
    rw [d.length_programContent (by omega) (by omega)]
    omega
  have hshown := List.getElem?_eq_getElem hk
  rcases programContent_cases hfull hw hh hshown with ⟨row, hrow, hreads⟩ | ⟨hnone, -⟩
  · obtain rfl : row = current := Option.some.inj (hrow.symm.trans hcurrent.get)
    refine ⟨k, _, hshown, ?_, fun cell hcell => ?_, fun r cells hr => ?_⟩
    · rw [hreads.address, hcurrent.address]
    · rw [hreads.style cell hcell, style_listingLine, if_pos hcurrent.marked]
    · -- another row of the listing is not the current one, and a blank row has
      -- no mark
      rcases programContent_cases hfull hw hh hr with ⟨row', hrow', hreads'⟩ | ⟨hnone, rfl⟩
      · rw [hreads'.pointed]
        refine ⟨hcurrent.only r row' hrow', ?_⟩
        rintro rfl
        rw [Option.some.inj (hrow'.symm.trans hrow)]
        exact hcurrent.marked
      · refine iff_of_false (not_mem_blankRow (by decide)) ?_
        rintro rfl
        cases hnone.symm.trans hrow
  · cases hnone.symm.trans hcurrent.get

theorem marked_iff (hfull : d.machine.mem.Full) (hw : 40 ≤ w) (hh : 22 ≤ h)
    (hcells : cells ∈ d.programContent w h) :
    '●' ∈ glyphs cells ↔ ∃ a ∈ d.breakpoints, shownAddress? cells = some a.toNat := by
  obtain ⟨r, hr⟩ := List.mem_iff_getElem?.1 hcells
  rcases programContent_cases hfull hw hh hr with ⟨row, -, hreads⟩ | ⟨-, rfl⟩
  · rw [hreads.marked, hreads.address]
    simp only [Option.some.injEq, eq_comm]
  · rw [shownAddress?_blankRow (by omega)]
    refine iff_of_false (not_mem_blankRow (by decide)) ?_
    rintro ⟨a, -, ha⟩
    cases ha

theorem style_of_not_pointed (hfull : d.machine.mem.Full) (hw : 40 ≤ w) (hh : 22 ≤ h)
    (hcells : cells ∈ d.programContent w h) (hpointer : '▶' ∉ glyphs cells) :
    ∀ cell ∈ cells, cell.style = if '●' ∈ glyphs cells then colored .red else plain := by
  intro cell hcell
  obtain ⟨r, hr⟩ := List.mem_iff_getElem?.1 hcells
  rcases programContent_cases hfull hw hh hr with ⟨row, -, hreads⟩ | ⟨-, rfl⟩
  · rw [hreads.pointed] at hpointer
    rw [hreads.style cell hcell, style_listingLine, if_neg hpointer]
    simp only [hreads.marked]
  · rw [if_neg (not_mem_blankRow (by decide)), List.eq_of_mem_replicate hcell]

-- ============================================================ the theorem

/-- On every screen of at least 40 times 22 cells the box of the listing shows
where the program counter is.

Inside its border stand the rows of the listing, as many as fit, from top to
bottom, each cut at the width or filled up with blanks, and blank rows below
them. Exactly one of them has the mark of the program counter; the address in
it is that of the program counter, and all of its cells are yellow and bold.
A row has the mark of a breakpoint exactly if there is one at the address in
it. Apart from the current row, such a row is red, and the others look plain.
All six boxes stand whole in their places, and none reaches into another. -/
theorem program_panel_shows_where_the_machine_is (d : Debugger) (hfull : d.machine.mem.Full)
    {w h : Nat} (hw : 40 ≤ w) (hh : 22 ≤ h) :
    let width := (w + 1) / 2 - 2
    let rows := d.listing (h - 12)
    let content := region (d.screen w h) ⟨1, 1, width, h - 12⟩
    content.length = h - 12
    ∧ content.map glyphs =
        rows.map (fun row => fitted width (d.rowChars row))
          ++ List.replicate (h - 12 - rows.length) (fitted width [])
    ∧ (∃ k current, content[k]? = some current
        ∧ shownAddress? current = some d.machine.pc.toNat
        ∧ (∀ cell ∈ current, cell.style = bold .yellow)
        ∧ ∀ (r : Nat) (cells : Screen.Row), content[r]? = some cells →
            ('▶' ∈ glyphs cells ↔ r = k))
    ∧ (∀ cells ∈ content,
        '●' ∈ glyphs cells ↔ ∃ a ∈ d.breakpoints, shownAddress? cells = some a.toNat)
    ∧ (∀ cells ∈ content, '▶' ∉ glyphs cells →
        ∀ cell ∈ cells, cell.style = if '●' ∈ glyphs cells then colored .red else plain)
    ∧ (∀ box ∈ d.boxes w h,
        region (d.screen w h) box.2 = box.1.rows box.2.width box.2.height)
    ∧ (d.boxes w h).Pairwise fun a b => a.2.Apart b.2 := by
  intro width rows content
  exact ⟨d.length_programContent (by omega) (by omega),
    d.map_glyphs_programContent (by omega) (by omega), exists_pointed hfull hw hh,
    fun cells hcells => marked_iff hfull hw hh hcells,
    fun cells hcells hpointer => style_of_not_pointed hfull hw hh hcells hpointer,
    region_screen (by omega) (by omega), pairwise_apart_boxes d w h⟩

/-- The straddling instruction with breakpoints on it, on a screen with an odd
number of columns: the style of the current row goes before that of a
breakpoint. -/
theorem straddling_is_shown :
    let d := { straddling with breakpoints := [0, 1] }
    let content : List Screen.Row := region (d.screen 41 22) ⟨1, 1, 19, 10⟩
    d.machine.mem.Full ∧ 40 ≤ 41 ∧ 22 ≤ 22
    ∧ ∃ (k : Nat) (current : Screen.Row), content[k]? = some current
      ∧ '▶' ∈ glyphs current ∧ '●' ∈ glyphs current ∧ shownAddress? current = some 1
      ∧ ∀ cell ∈ current, cell.style = bold .yellow := by
  intro d content
  have hfull : d.machine.mem.Full := by decide +kernel
  have hwidth : 40 ≤ 41 := by decide
  obtain ⟨-, -, ⟨k, current, hk, haddress, hstyle, hpointer⟩, hmarks, -⟩ :=
    d.program_panel_shows_where_the_machine_is hfull hwidth (Nat.le_refl 22)
  refine ⟨hfull, hwidth, Nat.le_refl 22, k, current, hk, (hpointer k current hk).2 rfl, ?_,
    haddress, hstyle⟩
  exact (hmarks current (List.mem_of_getElem? hk)).2 ⟨1, by decide, haddress⟩

end Debugger

end LS8
