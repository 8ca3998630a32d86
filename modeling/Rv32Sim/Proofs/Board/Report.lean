/-
  Rv32Sim.Proofs.Board.Report

  A report shows the state that it is about. Up to the sent text its lines have widths that do
  not depend on the state, so they are told apart from the front, and each word is shown in
  full. The sent text is written as it is and may look like any part of a report; but behind it
  there are only two numbers and what is the same in all reports, so it is told apart from the
  back (`report_determines_state`).
-/
import Rv32Sim.Report
import Rv32Sim.Proofs.Text.Field
import Rv32Sim.Proofs.Board.SerialLine

namespace Rv32Sim

/-! ## Registers -/

namespace RegFile

variable {cell : Reg → Word → String}

/-- Rows are as wide as the cells in them. -/
theorem length_rows (hwidth : ∀ r v w, (cell r v).length = (cell r w).length)
    (regs other : RegFile) :
    (regs.rows cell).map String.length = (other.rows cell).map String.length := by
  rw [rows, rows, List.map_map, List.map_map]
  refine List.map_congr_left fun row _ => ?_
  rw [Function.comp_apply, Function.comp_apply, Text.length_join, Text.length_join, List.map_map,
    List.map_map]
  exact congrArg List.sum (List.map_congr_left fun column _ => hwidth ..)

/-- If cells of one width show their words, the rows show all registers. -/
theorem rows_inj (hwidth : ∀ r v w, (cell r v).length = (cell r w).length)
    (hinj : ∀ r v w, cell r v = cell r w → v = w) {regs other : RegFile}
    (h : regs.rows cell = other.rows cell) (r : Reg) : regs.get r = other.get r := by
  have hr : r.toNat < 32 := r.isLt
  -- four registers a row: the cell of `r` is in row `r / 4`, at place `r % 4`
  have hrow := List.map_inj_left.1 h (r.toNat / 4) (List.mem_range.2 (by omega))
  have hcells := Text.join_inj (by
    rw [List.map_map, List.map_map]
    exact List.map_congr_left fun column _ => hwidth ..) hrow
  have hcell := List.map_inj_left.1 hcells (r.toNat % 4) (List.mem_range.2 (by omega))
  have hback : BitVec.ofNat 5 (4 * (r.toNat / 4) + r.toNat % 4) = r := by
    rw [Nat.div_add_mod, BitVec.ofNat_toNat, BitVec.setWidth_eq]
  rw [hback] at hcell
  exact hinj r _ _ hcell

end RegFile

namespace Report

theorem length_cell (r : Reg) (v w : Word) : (cell r v).length = (cell r w).length := by
  simp only [cell, String.length_append, Word.length_hex]

theorem cell_inj (r : Reg) (v w : Word) (h : cell r v = cell r w) : v = w := by
  rw [cell, cell, String.append_left_inj, String.append_right_inj] at h
  exact Word.hex_inj h

theorem length_csrLine (bank other : CsrBank) (c : Csr) :
    (csrLine bank c).length = (csrLine other c).length := by
  simp only [csrLine, String.length_append, Word.length_hex]

theorem csrLine_inj {bank other : CsrBank} {c : Csr} (h : csrLine bank c = csrLine other c) :
    bank.get c = other.get c := by
  rw [csrLine, csrLine, String.append_right_inj] at h
  exact Word.hex_inj h

/-! ## The two parts of a report -/

/-- The lines whose widths are the same in all reports. -/
def stateLines (b : Board) : List String :=
  ["===== registers ====="] ++ b.hart.regs.rows cell ++
  ["pc        = " ++ b.hart.pc.hex, "===== csr ====="] ++
  Csr.all.map (csrLine b.hart.csrs) ++ ["===== uart ====="]

/-- The other lines: the sent text, and the counters behind it. -/
def tailLines (b : Board) : List String :=
  [b.hart.bus.uart.text, "===== counters =====",
    "cycles  = " ++ toString b.cycles.toNat, "instret = " ++ toString b.instret.toNat]

theorem lines_eq (b : Board) : lines b = stateLines b ++ tailLines b := by
  simp [lines, stateLines, tailLines]

theorem length_stateLines (b other : Board) :
    (stateLines b).map String.length = (stateLines other).map String.length := by
  have hrows := RegFile.length_rows length_cell b.hart.regs other.hart.regs
  have hcsrs : (Csr.all.map (csrLine b.hart.csrs)).map String.length =
      (Csr.all.map (csrLine other.hart.csrs)).map String.length := by
    rw [List.map_map, List.map_map]
    refine List.map_congr_left fun c _ => ?_
    rw [Function.comp_apply, Function.comp_apply]
    exact length_csrLine b.hart.csrs other.hart.csrs c
  simp only [stateLines, List.map_append, hrows, hcsrs, List.map_cons, List.map_nil,
    String.length_append, Word.length_hex]

/-- The text of lines, each with its line feed. -/
def text (ls : List String) : String := String.join (ls.map (· ++ "\n"))

theorem report_eq (b : Board) :
    b.report = text (stateLines b) ++ text (tailLines b) := by
  rw [Board.report, lines_eq, List.map_append, String.join_append]
  rfl

theorem eq_of_stateLines {b other : Board} (h : stateLines b = stateLines other) :
    (∀ r, b.hart.regs.get r = other.hart.regs.get r) ∧ b.hart.pc = other.hart.pc ∧
      ∀ c, b.hart.csrs.get c = other.hart.csrs.get c := by
  rw [stateLines, stateLines] at h
  -- the number of lines in each part is fixed, so the parts come off from the back
  obtain ⟨h, -⟩ := List.append_inj' h rfl
  obtain ⟨h, hcsrs⟩ := List.append_inj' h (by rw [List.length_map, List.length_map])
  obtain ⟨h, hpc⟩ := List.append_inj' h rfl
  have hrows := List.append_cancel_left h
  refine ⟨?_, ?_, ?_⟩
  · exact RegFile.rows_inj length_cell cell_inj hrows
  · have hline := (List.cons.inj hpc).1
    rw [String.append_right_inj] at hline
    exact Word.hex_inj hline
  · intro c
    have hall : c ∈ Csr.all := by cases c <;> decide
    exact csrLine_inj (List.map_inj_left.1 hcsrs c hall)

/-- The characters of the last lines. -/
theorem toList_text_tailLines (b : Board) :
    (text (tailLines b)).toList =
      (((b.hart.bus.uart.text.toList ++ "\n===== counters =====\ncycles  =".toList) ++
        ' ' :: b.cycles.toNat.repr.toList ++ "\ninstret =".toList) ++
        ' ' :: b.instret.toNat.repr.toList) ++ ['\n'] := by
  simp [text, tailLines, String.join_cons, Nat.toString_eq_repr]

theorem eq_of_tailLines {b other : Board} (h : text (tailLines b) = text (tailLines other)) :
    b.hart.bus.uart.text = other.hart.bus.uart.text ∧ b.cycles = other.cycles ∧
      b.instret = other.instret := by
  have hchars := congrArg String.toList h
  rw [toList_text_tailLines, toList_text_tailLines] at hchars
  -- from the back: the line feed, one counter, the name of its line, the other counter
  have hinstret := List.append_cancel_right hchars
  obtain ⟨hfront, hinstret⟩ := Text.repr_inj_of_append (by decide) hinstret
  have hcycles := List.append_cancel_right hfront
  obtain ⟨hfront, hcycles⟩ := Text.repr_inj_of_append (by decide) hcycles
  have htext := List.append_cancel_right hfront
  exact ⟨String.toList_injective htext, BitVec.eq_of_toNat_eq hcycles,
    BitVec.eq_of_toNat_eq hinstret⟩

end Report

/-- The text on the line shows the bytes that were sent. -/
theorem Uart.text_inj {uart other : Uart} (h : uart.text = other.text) : uart = other := by
  have hbytes : uart.sent.toList.map BitVec.toNat = other.sent.toList.map BitVec.toNat := by
    rw [← map_toNat_text, h, map_toNat_text]
  have hsent := List.map_injective_iff.2 (fun _ _ => BitVec.eq_of_toNat_eq) hbytes
  cases uart
  cases other
  exact congrArg Uart.mk (Array.toList_inj.1 hsent)

namespace Board

/-- **A report determines the state that it shows.** Boards with the same report have the same
    values in all registers, the same program counter, the same values in all control and
    status registers, the same text on the serial line, byte for byte, and the same counters,
    whatever was sent. -/
theorem report_determines_state {b other : Board} (h : b.report = other.report) :
    (∀ r, b.hart.regs.get r = other.hart.regs.get r) ∧ b.hart.pc = other.hart.pc ∧
      (∀ c, b.hart.csrs.get c = other.hart.csrs.get c) ∧
      b.hart.bus.uart.text = other.hart.bus.uart.text ∧ b.hart.bus.uart = other.hart.bus.uart ∧
      b.cycles = other.cycles ∧ b.instret = other.instret := by
  rw [Report.report_eq, Report.report_eq] at h
  have hwidth : ((Report.stateLines b).map (· ++ "\n")).map String.length =
      ((Report.stateLines other).map (· ++ "\n")).map String.length := by
    have hline (ls : List String) :
        (ls.map (· ++ "\n")).map String.length = (ls.map String.length).map (· + 1) := by
      rw [List.map_map, List.map_map]
      exact List.map_congr_left fun l _ => String.length_append l "\n"
    rw [hline, hline, Report.length_stateLines b other]
  obtain ⟨hstate, htail⟩ := Text.join_append_inj hwidth h
  have hlines := List.map_injective_iff.2 (fun _ _ => (String.append_left_inj "\n").1) hstate
  obtain ⟨hregs, hpc, hcsrs⟩ := Report.eq_of_stateLines hlines
  obtain ⟨htext, hcycles, hinstret⟩ := Report.eq_of_tailLines htail
  exact ⟨hregs, hpc, hcsrs, htext, Uart.text_inj htext, hcycles, hinstret⟩

/-- A board whose program sent what looks like the end of a report. -/
def forger : Board :=
  let b := new .empty .standard
  let sent := "\n===== counters =====\ncycles  = 7\ninstret = 7".toList.map fun c =>
    BitVec.ofNat 8 c.toNat
  { b with hart := { b.hart with bus := { b.hart.bus with uart := ⟨sent.toArray⟩ } } }

/-- Two boards with this text on the line, of which one has a later timer, have the same report;
    their counters are equal, and so is what they sent. -/
theorem report_determines_state_of_forger :
    forger.report = { forger with hart := forger.hart.tick }.report ∧
    forger ≠ { forger with hart := forger.hart.tick } ∧
    forger.hart.bus.uart = forger.hart.tick.bus.uart ∧ forger.cycles = 0 := by
  have hreport : forger.report = { forger with hart := forger.hart.tick }.report := rfl
  obtain ⟨-, -, -, -, huart, -, -⟩ := report_determines_state hreport
  exact ⟨hreport, by decide, huart, rfl⟩

end Board

end Rv32Sim
