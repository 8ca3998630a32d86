/-
  Rv32Sim.Hart.Basic

  The hart: registers, program counter, control and status registers, the
  address space, and the interrupt lines that are up. The lines are kept apart
  from mip, which is plain storage for software. A hart starts out as the settings
  of the simulation say.
-/
import Rv32Sim.Memory.Bus
import Rv32Sim.Hart.RegFile
import Rv32Sim.Hart.Csr
import Rv32Sim.Hart.Trap

namespace Rv32Sim

/-! ## Settings -/

/-- The settings of a simulation. -/
structure Config where
  initialSp : Word
  maxCycles : Count
  trace : Bool
  resetPc : Word
  deriving DecidableEq, Repr

namespace Config

/-- The settings that hold where nothing else is asked for. -/
def standard : Config :=
  { initialSp := 0x8000, maxCycles := 150000, trace := false, resetPc := 0 }

/-- The written form of the settings. -/
def text (c : Config) : String :=
  s!"SimConfig \x7b initial_sp: {c.initialSp.toNat}, max_cycles: {c.maxCycles.toNat}, " ++
    s!"trace: {c.trace}, reset_pc: {c.resetPc.toNat} \x7d"

end Config

/-! ## The hart -/

/-- The state of the hart and of everything that it can address. -/
structure Hart where
  regs : RegFile
  pc : Word
  csrs : CsrBank
  bus : Bus
  /-- The interrupt lines that are up, laid out as in mie. -/
  pending : Word
  /-- Set on entry to a trap, cleared on return. -/
  inTrap : Bool
  deriving DecidableEq

namespace Hart

/-- The hart after a reset, with a program image in its address space. -/
def reset (rom : Rom) (config : Config) : Hart :=
  { regs := RegFile.zeros.set Reg.sp config.initialSp
    pc := config.resetPc
    csrs := .initial
    bus := .ofRom rom
    pending := 0
    inTrap := false }

/-- Bring interrupt lines up or down. -/
def setPending (h : Hart) (lines : Word) (level : Bool) : Hart :=
  { h with pending := if level then h.pending ||| lines else h.pending &&& ~~~lines }

/-- Set the timer line to the level that the timer gives it. -/
def syncTimerLine (h : Hart) : Hart :=
  h.setPending Interrupt.timer.line h.bus.timer.isPending

/-- Write to the register at a CSR address, as software does. -/
def writeCsr (h : Hart) (a : CsrAddress) (w : Word) : Hart :=
  { h with csrs := h.csrs.write a w }

/-- Write to the address space. -/
def writeMem (h : Hart) (a data : Word) (size : AccessSize) : Hart :=
  { h with bus := h.bus.write a data size }

/-! ## Traps -/

/-- Enter the trap handler. Exceptions and interrupts enter alike; an interrupt
    also takes its line down. -/
def enterTrap (h : Hart) (cause : Cause) (trapValue : Word) : Hart :=
  let csrs := ((h.csrs.set .mepc h.pc).set .mcause cause.value).set .mtval trapValue
  { h with
    csrs := csrs.set .mstatus h.csrs.mstatus.mstatusOnTrap
    pc := h.csrs.mtvec
    inTrap := true
    pending := h.pending &&& ~~~cause.line }

/-- Leave the trap handler. -/
def leaveTrap (h : Hart) : Hart :=
  { h with
    csrs := h.csrs.set .mstatus h.csrs.mstatus.mstatusOnReturn
    pc := h.csrs.mepc
    inTrap := false }

/-- Whether a line is up, enabled by itself and enabled globally. -/
def isEligible (h : Hart) (i : Interrupt) : Bool :=
  h.csrs.interruptsEnabled && (h.pending &&& h.csrs.mie).getLsbD i.code

/-- The eligible interrupt of the highest priority. -/
def eligible? (h : Hart) : Option Interrupt :=
  Interrupt.priority.find? h.isEligible

/-- Take the eligible interrupt of the highest priority, if there is one. -/
def takeInterrupt (h : Hart) : Hart × Option Interrupt :=
  match h.eligible? with
  | some i => (h.enterTrap (.interrupt i) 0, some i)
  | none => (h, none)

end Hart

end Rv32Sim
