/-
  Rv32Sim.CommandLine

  The arguments of the program. Options take one value, attached or as the next
  argument; switches take none; one free argument names the image. What an
  option was given is looked at only when the next known argument or the end of
  the line comes, so that an unknown argument in between is reported first.
-/
import Rv32Sim.Event
import Rv32Sim.Text.Numeral

namespace Rv32Sim

namespace CommandLine

/-! ## Results -/

/-- What the program is asked to do. -/
structure Options where
  path : String
  maxCycles : Count
  sp : Word
  pc : Word
  debug : Bool
  logLevel : Level
  deriving DecidableEq, Repr

/-- What is asked for where the arguments say nothing. -/
def Options.standard : Options :=
  { path := "firmware.hex"
    maxCycles := Config.standard.maxCycles
    sp := Config.standard.initialSp
    pc := Config.standard.resetPc
    debug := false
    logLevel := .info }

/-- The settings of the simulation. Debugging traces every instruction. -/
def Options.config (o : Options) : Config :=
  { initialSp := o.sp, maxCycles := o.maxCycles, trace := o.debug, resetPc := o.pc }

/-- Why arguments ask for no simulation. -/
inductive Refusal where
  | unknownArgument
  | invalidValue
  | unreadableValue
  | repeatedArgument
  | unneededValue
  | help
  | version
  deriving DecidableEq, Repr

/-! ## Known arguments -/

/-- The options, each with a value. -/
inductive Param where
  | maxCycles
  | sp
  | pc
  | logLevel
  deriving DecidableEq, Repr

/-- The switches. -/
inductive Switch where
  | debug
  | help
  | version
  deriving DecidableEq, Repr

/-- What a name after dashes stands for. -/
inductive Known where
  | param (p : Param)
  | switch (s : Switch)
  deriving DecidableEq, Repr

/-- The argument with a long name. -/
def Known.ofLong? : String → Option Known
  | "max-cycles" => some (.param .maxCycles)
  | "sp" => some (.param .sp)
  | "pc" => some (.param .pc)
  | "loglevel" => some (.param .logLevel)
  | "debug" => some (.switch .debug)
  | "help" => some (.switch .help)
  | "version" => some (.switch .version)
  | _ => none

/-- The argument with a short name. -/
def Known.ofShort? : Char → Option Known
  | 'm' => some (.param .maxCycles)
  | 'g' => some (.switch .debug)
  | 'h' => some (.switch .help)
  | 'V' => some (.switch .version)
  | _ => none

/-! ## Reading -/

/-- What was read so far. -/
structure Draft where
  path : Option String
  maxCycles : Option Count
  sp : Option Word
  pc : Option Word
  logLevel : Option Level
  debug : Bool
  deriving DecidableEq, Repr

namespace Draft

/-- Nothing read. -/
def empty : Draft := ⟨none, none, none, none, none, false⟩

/-- The options, with the standard ones in the places of those not given. -/
def options (d : Draft) : Options :=
  let std := Options.standard
  { path := d.path.getD std.path
    maxCycles := d.maxCycles.getD std.maxCycles
    sp := d.sp.getD std.sp
    pc := d.pc.getD std.pc
    debug := d.debug
    logLevel := d.logLevel.getD std.logLevel }

/-- Whether an option was given. -/
def has (d : Draft) : Param → Bool
  | .maxCycles => d.maxCycles.isSome
  | .sp => d.sp.isSome
  | .pc => d.pc.isSome
  | .logLevel => d.logLevel.isSome

/-- Read the value of an option. -/
def read (d : Draft) (p : Param) (value : String) : Except Refusal Draft :=
  match p with
  | .maxCycles =>
    match Count.ofNumeral value with
    | .ok n => .ok { d with maxCycles := some n }
    | .error _ => .error .unreadableValue
  | .sp =>
    match Word.ofNumeral value with
    | .ok w => .ok { d with sp := some w }
    | .error _ => .error .unreadableValue
  | .pc =>
    match Word.ofNumeral value with
    | .ok w => .ok { d with pc := some w }
    | .error _ => .error .unreadableValue
  | .logLevel =>
    match Level.ofName? value with
    | some l => .ok { d with logLevel := some l }
    | none => .error .invalidValue

/-- Take an option with its value; an option cannot be given twice. -/
def give (d : Draft) (p : Param) (value : String) : Except Refusal Draft :=
  if d.has p then .error .repeatedArgument else d.read p value

/-- Take a switch; it cannot be given twice. -/
def turnOn (d : Draft) : Switch → Except Refusal Draft
  | .debug => if d.debug then .error .repeatedArgument else .ok { d with debug := true }
  | .help => .error .help
  | .version => .error .version

end Draft

/-- An argument that was met but not yet taken. -/
inductive Pending where
  | none
  | param (p : Param) (value : Option String)
  | path (value : String)
  deriving DecidableEq, Repr

/-- The state of reading arguments. -/
structure State where
  draft : Draft
  pending : Pending
  /-- Whether a free argument was met. -/
  pathSeen : Bool
  /-- Whether all that follows are free arguments. -/
  freeOnly : Bool
  deriving DecidableEq, Repr

namespace State

/-- The state before the first argument. -/
def start : State := ⟨.empty, .none, false, false⟩

/-- Take the argument that is pending. -/
def settle (s : State) : Except Refusal State :=
  match s.pending with
  | .none => .ok s
  | .param _ none => .error .invalidValue
  | .param p (some value) =>
    (s.draft.give p value).map fun draft => { s with draft, pending := .none }
  | .path value =>
    if value.isEmpty then .error .invalidValue
    else .ok { s with draft := { s.draft with path := some value }, pending := .none }

/-- Meet an option whose value is attached to it. -/
def takeAttached (s : State) (p : Param) (value : String) : Except Refusal State :=
  s.settle.bind fun s => (s.draft.give p value).map fun draft => { s with draft }

/-- Meet an option whose value is to come. -/
def takeParam (s : State) (p : Param) : Except Refusal State :=
  s.settle.map fun s => { s with pending := .param p none }

/-- Meet a switch. -/
def takeSwitch (s : State) (w : Switch) : Except Refusal State :=
  s.settle.bind fun s => (s.draft.turnOn w).map fun draft => { s with draft }

/-- Meet a long name, perhaps with a value attached. -/
def takeLong (s : State) (name : String) (value : Option String) : Except Refusal State :=
  match Known.ofLong? name, value with
  | none, _ => .error .unknownArgument
  | some (.param p), some value => s.takeAttached p value
  | some (.param p), none => s.takeParam p
  | some (.switch _), some _ => .error .unneededValue
  | some (.switch w), none => s.takeSwitch w

/-- Meet short names written together. Behind an option, the rest is its value. -/
def takeShorts (s : State) : List Char → Except Refusal State
  | [] => .ok s
  | c :: cs =>
    match Known.ofShort? c with
    | none => .error .unknownArgument
    | some (.switch w) => (s.takeSwitch w).bind fun s => s.takeShorts cs
    | some (.param p) =>
      match cs with
      | [] => s.takeParam p
      | '=' :: value => s.takeAttached p (String.ofList value)
      | value => s.takeAttached p (String.ofList value)

/-- Meet a free argument: the path, once. -/
def takeFree (s : State) (arg : String) : Except Refusal State :=
  if s.pathSeen then .error .unknownArgument
  else s.settle.map fun s => { s with pending := .path arg, pathSeen := true }

/-- Meet an argument that begins with no dash: the value of the option before it,
    or a free argument. -/
def takePlain (s : State) (arg : String) : Except Refusal State :=
  match s.pending with
  | .param p none => .ok { s with pending := .param p (some arg) }
  | _ => s.takeFree arg

/-- Meet an argument. -/
def take (s : State) (arg : String) : Except Refusal State :=
  if s.freeOnly then s.takeFree arg
  else
    match arg.toList with
    | ['-', '-'] => .ok { s with freeOnly := true }
    | '-' :: '-' :: cs =>
      let name := String.ofList (cs.takeWhile (· != '='))
      match cs.dropWhile (· != '=') with
      | [] => s.takeLong name none
      | _ :: value => s.takeLong name (some (String.ofList value))
    | '-' :: c :: cs => s.takeShorts (c :: cs)
    | _ => s.takePlain arg

end State

/-- The options that arguments ask for. -/
def parse (args : List String) : Except Refusal Options :=
  (args.foldlM State.take State.start).bind fun s => s.settle.map fun s => s.draft.options

end CommandLine

end Rv32Sim
