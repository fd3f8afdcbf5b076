import ByteMachine.Command.Job

/-!
This module contains the logic to read the options of the assembler command from its arguments.

An option's value follows it as the next argument or, behind an equals sign, in the same one. Short
options may share an argument, and the last of them may have its value right behind it. All
arguments after two hyphens alone are inputs. No option and no input may be given twice. Arguments
are read in order, up to the first that is wrong or asks for nothing but a text.
-/

namespace ByteMachine
namespace Command

inductive Setting where
  | input (path : String)
  | emit (format : String)
  | name (name : String)
  | output (path : String)
  | verbose
  | help
  | version
  | malformed
deriving DecidableEq

inductive Reading where
  | settings (settings : List Setting)
  /-- An option whose value is the next argument. -/
  | awaiting (before : List Setting) (option : String → Setting)

namespace Reading

def cons (setting : Setting) : Reading → Reading
  | .settings found => .settings (setting :: found)
  | .awaiting before option => .awaiting (setting :: before) option

def valued (option : String → Setting) : Option (List Char) → Reading
  | some value => .settings [option (String.ofList value)]
  | none => .awaiting [] option

def flag (setting : Setting) (value : Option (List Char)) : Reading :=
  .settings [if value = none then setting else .malformed]

/--
An argument that begins with two hyphens, which are left out here.
-/
def long (text : List Char) : Reading :=
  let (key, value) := Text.cut '=' text
  match String.ofList key with
  | "emit" => valued .emit value
  | "name" => valued .name value
  | "output" => valued .output value
  | "verbose" => flag .verbose value
  | "help" => flag .help value
  | "version" => flag .version value
  | _ => .settings [.malformed]

/--
An argument that begins with one hyphen, which is left out here.
-/
def short : List Char → Reading
  | [] => .settings []
  | 'v' :: rest => (short rest).cons .verbose
  | 'h' :: rest => (short rest).cons .help
  | 'V' :: rest => (short rest).cons .version
  | ['o'] => .awaiting [] .output
  | 'o' :: '=' :: value => .settings [.output (String.ofList value)]
  | 'o' :: value => .settings [.output (String.ofList value)]
  | _ => .settings [.malformed]

def ofArgument (argument : String) : Reading :=
  match argument.toList with
  | '-' :: '-' :: text => long text
  | '-' :: c :: text => short (c :: text)
  | _ => .settings [.input argument]

end Reading

def isOption (argument : String) : Bool :=
  argument ≠ "-" && argument.toList.head? = some '-'

def settings : List String → List Setting
  | [] => []
  | argument :: rest =>
    if argument = "--" then
      rest.map .input
    else
      match Reading.ofArgument argument with
      | .settings found => found ++ settings rest
      | .awaiting before option =>
        match rest with
        | [] => before ++ [.malformed]
        | value :: rest =>
          before ++ if isOption value then [.malformed] else option value :: settings rest

namespace Report

def synopsis : String :=
  "[INPUT] [--emit array|state|url] [--name NAME] [-o FILE] [-v]"

def usage : Report where
  status := 2
  stderr := ["usage: " ++ synopsis]

def help : Report where
  status := 0
  stdout := synopsis ++ "\n"

def version : Report where
  status := 0
  stdout := "0.1.0\n"

end Report

def Format.ofName? : String → Option Format
  | "array" => some .array
  | "state" => some .state
  | "url" => some .url
  | _ => none

structure Given where
  input : Option String := none
  emit : Option Format := none
  name : Option String := none
  output : Option String := none
  verbose : Option Unit := none

namespace Given

def once (before : Option α) (value : Option α) : Except Report (Option α) :=
  match before, value with
  | none, some value => .ok (some value)
  | _, _ => .error .usage

def path? (path : String) : Option String :=
  if path = "" then none else some path

def set (g : Given) : Setting → Except Report Given
  | .input path => return { g with input := ← once g.input (path? path) }
  | .emit format => return { g with emit := ← once g.emit (Format.ofName? format) }
  | .name name => return { g with name := ← once g.name (some name) }
  | .output path => return { g with output := ← once g.output (path? path) }
  | .verbose => return { g with verbose := ← once g.verbose (some ()) }
  | .help => .error .help
  | .version => .error .version
  | .malformed => .error .usage

def options (g : Given) : Options where
  input := g.input
  emit := g.emit.getD .array
  name := g.name
  output := g.output
  verbose := g.verbose.isSome

end Given

def Options.parse (arguments : List String) : Except Report Options :=
  return (← (settings arguments).foldlM Given.set {}).options

end Command
end ByteMachine
