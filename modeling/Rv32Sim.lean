import Rv32Sim.Main
import Rv32Sim.Proofs.Memory.Flat
import Rv32Sim.Proofs.Isa.Decode
import Rv32Sim.Proofs.Isa.Fields
import Rv32Sim.Proofs.Isa.Scan
import Rv32Sim.Proofs.Isa.RoundTrip
import Rv32Sim.Proofs.Isa.Overlap
import Rv32Sim.Proofs.Hart.Effect
import Rv32Sim.Proofs.Hart.Retire
import Rv32Sim.Proofs.Hart.Alu
import Rv32Sim.Proofs.Hart.Arithmetic
import Rv32Sim.Proofs.Hart.Jump
import Rv32Sim.Proofs.Hart.StoreLoad
import Rv32Sim.Proofs.Hart.Csr
import Rv32Sim.Proofs.Hart.Trap
import Rv32Sim.Proofs.Hart.Exception
import Rv32Sim.Proofs.Hart.Independence
import Rv32Sim.Proofs.Board.Delivery
import Rv32Sim.Proofs.Board.TrapReturn
import Rv32Sim.Proofs.Board.Runs
import Rv32Sim.Proofs.Board.Requests
import Rv32Sim.Proofs.Board.HostLines
import Rv32Sim.Proofs.Memory.Rom
import Rv32Sim.Proofs.Memory.Backing
import Rv32Sim.Proofs.Hart.Backing
import Rv32Sim.Proofs.Board.Backing
import Rv32Sim.Proofs.Hart.CsrQuery
import Rv32Sim.Proofs.Board.WellFormed
import Rv32Sim.Proofs.Board.Registers
import Rv32Sim.Proofs.Board.Counters
import Rv32Sim.Proofs.Board.Comparator
import Rv32Sim.Proofs.Board.Nesting
import Rv32Sim.Proofs.Board.SerialLine
import Rv32Sim.Proofs.Checked.Word
import Rv32Sim.Proofs.Checked.Memory
import Rv32Sim.Proofs.Checked.Decode
import Rv32Sim.Proofs.Checked.Hart
import Rv32Sim.Proofs.Checked.Board
import Rv32Sim.Proofs.Hart.CsrModify
import Rv32Sim.Proofs.Board.Fetch
import Rv32Sim.Proofs.Hart.NarrowStore
import Rv32Sim.Proofs.Image.Grammar
import Rv32Sim.Proofs.Image.Placement
import Rv32Sim.Proofs.Text.Spelling
import Rv32Sim.Proofs.Text.Field
import Rv32Sim.Proofs.Board.Report
