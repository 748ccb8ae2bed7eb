/-
The options of the command line. Options come before the operands, each with one or two dashes.
A switch may be given a value after an equals sign, a setting takes its value there or from the
next argument. A repeated option overrides; definitions add up in order.
-/
import Dcpu16.Assembler
import Dcpu16.Text.Quoted

namespace Dcpu16.CommandLine

/-- An option that is on or off. -/
inductive Switch where
  | listing
  | tree
  | strict
  | verbose
deriving DecidableEq, Repr

/-- An option with a value. -/
inductive Setting where
  | define
  | output
deriving DecidableEq, Repr

/-- An option. -/
inductive Flag where
  | switch (s : Switch)
  | setting (s : Setting)
deriving DecidableEq, Repr

/-- The options by name. -/
def flags : List (Text × Flag) :=
  [(Text.ofString "D", .setting .define), (Text.ofString "l", .switch .listing),
    (Text.ofString "o", .setting .output), (Text.ofString "p", .switch .tree),
    (Text.ofString "strict", .switch .strict), (Text.ofString "v", .switch .verbose)]

/-- What was asked for. An empty output path stands for the one made from the input path. -/
structure Options where
  output : Text := []
  listing : Bool := false
  tree : Bool := false
  strict : Bool := false
  verbose : Bool := false
  definitions : List (Text × Text) := []
deriving DecidableEq, Repr

/-- Why the options are not used. -/
inductive OptionError where
  | help
  | malformed (argument : Text)
  | undefined (name : Text)
  | valueMissing (name : Text)
  | notBoolean (name value : Text)
  | notDefinition (name value : Text)
deriving DecidableEq, Repr

/-- The line of an error; asking for help is none. -/
def OptionError.message? : OptionError → Option Text
  | .help => none
  | .malformed argument => some (Text.ofString "bad flag syntax: " ++ argument)
  | .undefined name => some (Text.ofString "flag provided but not defined: -" ++ name)
  | .valueMissing name => some (Text.ofString "flag needs an argument: -" ++ name)
  | .notBoolean name value =>
    some (Text.ofString "invalid boolean value " ++ Text.quoted value ++ Text.ofString " for -" ++
      name ++ Text.ofString ": parse error")
  | .notDefinition name value =>
    some (Text.ofString "invalid value " ++ Text.quoted value ++ Text.ofString " for flag -" ++
      name ++ Text.ofString ": " ++ LineError.equateSyntax.message)

/-- What an argument is, in the place of an option. -/
inductive Argument where
  | operand
  | terminator
  | malformed
  | named (name : Text) (value : Option Text)
deriving DecidableEq, Repr

/-- The name and the value of an option without its dashes. -/
def Argument.ofBody : Text → Argument
  | [] => .malformed
  | 45 :: _ => .malformed
  | 61 :: _ => .malformed
  | b :: t =>
    match Text.cutAt? 61 t with
    | some (name, value) => .named (b :: name) (some value)
    | none => .named (b :: t) none

/-- Two dashes alone end the options; one dash alone is an operand. -/
def Argument.ofText : Text → Argument
  | [45, 45] => .terminator
  | 45 :: 45 :: t => .ofBody t
  | 45 :: b :: t => .ofBody (b :: t)
  | _ => .operand

/-- The value of a switch. -/
def boolean? (t : Text) : Option Bool :=
  if ["1", "t", "T", "TRUE", "true", "True"].any (Text.ofString · == t) then some true
  else if ["0", "f", "F", "FALSE", "false", "False"].any (Text.ofString · == t) then some false
  else none

/-- The name and the text of a definition. -/
def definition? (t : Text) : Option (Text × Text) :=
  match Text.cutAt? 61 t with
  | some (b :: name, text) => some (b :: name, text)
  | _ => none

/-- The names that ask for help. -/
def helpNames : List Text := [Text.ofString "help", Text.ofString "h"]

namespace Options

def switch (o : Options) (s : Switch) (on : Bool) : Options :=
  match s with
  | .listing => { o with listing := on }
  | .tree => { o with tree := on }
  | .strict => { o with strict := on }
  | .verbose => { o with verbose := on }

/-- Gives a setting, which was called `name`, its value. -/
def set (o : Options) (s : Setting) (name value : Text) : Except OptionError Options :=
  match s with
  | .output => .ok { o with output := value }
  | .define =>
    match definition? value with
    | some d => .ok { o with definitions := o.definitions ++ [d] }
    | none => .error (.notDefinition name value)

/-- Reads the options at the front of the arguments; the rest are the operands. -/
def read (o : Options) : List Text → Except OptionError (Options × List Text)
  | [] => .ok (o, [])
  | arg :: args =>
    match Argument.ofText arg with
    | .operand => .ok (o, arg :: args)
    | .terminator => .ok (o, args)
    | .malformed => .error (.malformed arg)
    | .named name value =>
      match flags.lookup name with
      | none => .error (if helpNames.contains name then .help else .undefined name)
      | some (.switch s) =>
        match value with
        | none => read (o.switch s true) args
        | some v =>
          match boolean? v with
          | some on => read (o.switch s on) args
          | none => .error (.notBoolean name v)
      | some (.setting s) =>
        match value, args with
        | some v, args =>
          match o.set s name v with
          | .ok o => read o args
          | .error e => .error e
        | none, v :: args =>
          match o.set s name v with
          | .ok o => read o args
          | .error e => .error e
        | none, [] => .error (.valueMissing name)

/-- A fresh assembler with the modes and definitions that were asked for. -/
def assembler (o : Options) : Assembler :=
  o.definitions.foldl (fun a d => a.predefine d.1 d.2) { strict := o.strict, verbose := o.verbose }

end Options

/-- How the program is used. -/
def usage : Text :=
  Text.ofString <|
    "Usage of dasm:\n" ++
    "  -D value\n" ++
    "    \tPredefine an equate, NAME=VALUE\n" ++
    "  -l\tPrint a listing of the generated image\n" ++
    "  -o string\n" ++
    "    \tOutput file (default: input with .bin extension)\n" ++
    "  -p\tPrint the syntax tree\n" ++
    "  -strict\n" ++
    "    \tReject labels that are defined twice\n" ++
    "  -v\tVerbose mode\n"

end Dcpu16.CommandLine
