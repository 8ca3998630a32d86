/-
  Rv32Sim.Report

  The state of a machine in readable form: registers, program counter, control
  and status registers, the text sent on the serial line, and the counters.
-/
import Rv32Sim.Board.Run
import Rv32Sim.Text.Field

namespace Rv32Sim

/-- Rows of the register file, four registers a row, each written by `cell`. -/
def RegFile.rows (regs : RegFile) (cell : Reg → Word → String) : List String :=
  (List.range 8).map fun row =>
    String.join <| (List.range 4).map fun column =>
      let r := BitVec.ofNat 5 (4 * row + column)
      cell r (regs.get r)

/-- The register file for inspection, with the numbers of the registers in two digits. -/
def RegFile.dump (regs : RegFile) : String :=
  let cell (r : Reg) (w : Word) : String :=
    let number := String.ofList ((toString r.toNat).toList.leftpad 2 '0')
    s!"x{number} ({Text.alignRight 5 r.name}): {w.hex}  "
  "reg_file \x7b\n" ++ String.join ((regs.rows cell).map fun row => "  " ++ row ++ "\n") ++ "\x7d"

namespace Report

/-- A register in a report. -/
def cell (r : Reg) (w : Word) : String :=
  "x" ++ Text.alignLeft 2 (toString r.toNat) ++ " " ++ Text.alignRight 5 r.name ++ " = " ++
    w.hex ++ "  "

/-- The line of a control and status register. -/
def csrLine (bank : CsrBank) (c : Csr) : String :=
  Text.alignLeft 9 c.name ++ " = " ++ (bank.get c).hex

/-- The lines of a report. The sent text may hold line feeds of its own. -/
def lines (b : Board) : List String :=
  ["===== registers ====="] ++ b.hart.regs.rows cell ++
  ["pc        = " ++ b.hart.pc.hex, "===== csr ====="] ++
  Csr.all.map (csrLine b.hart.csrs) ++
  ["===== uart =====", b.hart.bus.uart.text, "===== counters =====",
   "cycles  = " ++ toString b.cycles.toNat, "instret = " ++ toString b.instret.toNat]

end Report

/-- The report on a machine, each line with its line feed. -/
def Board.report (b : Board) : String :=
  String.join ((Report.lines b).map (· ++ "\n"))

end Rv32Sim
