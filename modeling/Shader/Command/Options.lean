/-!
# Command lines

A command line is a command with its operands and options:

* `compile [options] file...` compiles serialized trees into one library,
* `layout [--json] member...` lays out a struct of builtin types,
* `help [command]` tells how to use the program; whatever follows it names a command.

An option is written `--option` or `-o`. The value of an option is the next argument or follows
after `=`; after a letter it may follow directly, and letters may be joined. After `--` everything
is an operand. An option without a value may be given only once, except for `-v`, which adds up.
-/

namespace Shader

namespace CommandLine

/-- Options without a value. -/
inductive Switch where
  | printIr
  | allErrors
  | jsonDiagnostics
  | json
  | verbose
  | help
  | version
  deriving DecidableEq, Repr

/-- Options with a value. -/
inductive Setting where
  | name
  | dependency
  deriving DecidableEq, Repr

inductive Opt where
  | switch (s : Switch)
  | setting (s : Setting)
  deriving DecidableEq, Repr

/-- What the arguments belong to. -/
inductive Context where
  /-- No command has been named yet. -/
  | top
  | compile
  | layout
  /-- Help is asked for; `named` says that the command has been named. -/
  | help (named : Bool)
  deriving DecidableEq, Repr

def commands : List String := ["compile", "layout", "help"]

/-- The options written with a word. -/
def words : Context → List (String × Opt)
  | .top => [("verbose", .switch .verbose), ("help", .switch .help), ("version", .switch .version)]
  | .compile =>
    [("name", .setting .name), ("dependency", .setting .dependency),
     ("print-ir", .switch .printIr), ("emit-multiple-errors", .switch .allErrors),
     ("json-diagnostics", .switch .jsonDiagnostics), ("verbose", .switch .verbose),
     ("help", .switch .help)]
  | .layout => [("json", .switch .json), ("verbose", .switch .verbose), ("help", .switch .help)]
  | .help _ => []

/-- The options written with a letter. -/
def letters : Context → List (Char × Opt)
  | .top => [('v', .switch .verbose), ('h', .switch .help), ('V', .switch .version)]
  | .compile =>
    [('n', .setting .name), ('d', .setting .dependency), ('v', .switch .verbose),
     ('h', .switch .help)]
  | .layout => [('v', .switch .verbose), ('h', .switch .help)]
  | .help _ => []

/-- Why reading stops before the end of the arguments. -/
inductive Stop where
  | misuse
  | help
  | version
  deriving DecidableEq, Repr

structure Reading where
  context : Context := .top
  switches : List Switch := []
  name : Option String := none
  dependencies : List String := []
  operands : List String := []
  /-- The option whose value comes next. -/
  pending : Option Setting := none
  operandsOnly : Bool := false
  deriving DecidableEq, Repr

namespace Reading

def switch (r : Reading) (s : Switch) : Except Stop Reading :=
  match s with
  | .help => .error .help
  | .version => .error .version
  | .verbose => .ok { r with switches := .verbose :: r.switches }
  | s => if s ∈ r.switches then .error .misuse else .ok { r with switches := s :: r.switches }

/-- Reads the value of an option. A path is never empty. -/
def setting (r : Reading) (s : Setting) (value : String) : Except Stop Reading :=
  match s with
  | .name =>
    if r.name.isSome then .error .misuse else .ok { r with name := some value, pending := none }
  | .dependency =>
    if value.isEmpty then .error .misuse
    else .ok { r with dependencies := r.dependencies ++ [value], pending := none }

/-- Reads an operand. The first one names the command. -/
def operand (r : Reading) (value : String) : Except Stop Reading :=
  match r.context with
  | .top =>
    if r.operandsOnly then .error .misuse
    else if value = "compile" then .ok { r with context := .compile }
    else if value = "layout" then .ok { r with context := .layout }
    else if value = "help" then .ok { r with context := .help false, operandsOnly := true }
    else .error .misuse
  | .compile =>
    if value.isEmpty then .error .misuse else .ok { r with operands := r.operands ++ [value] }
  | .layout => .ok { r with operands := r.operands ++ [value] }
  | .help named =>
    if named ∨ value ∉ commands then .error .misuse else .ok { r with context := .help true }

/-- Reads an option written with a word, with the value that stands after `=`. -/
def word (r : Reading) (chars : List Char) : Except Stop Reading :=
  let name := String.ofList (chars.takeWhile (· ≠ '='))
  let rest := chars.dropWhile (· ≠ '=')
  match (words r.context).lookup name, rest with
  | some (.switch s), [] => r.switch s
  | some (.setting s), [] => .ok { r with pending := some s }
  | some (.setting s), _ :: value => r.setting s (String.ofList value)
  | _, _ => .error .misuse

/-- Reads options written with joined letters. What follows the letter of an option with a value is
its value. -/
def joined (r : Reading) : List Char → Except Stop Reading
  | [] => .ok r
  | c :: cs =>
    match (letters r.context).lookup c, cs with
    | some (.switch s), cs => do (← r.switch s).joined cs
    | some (.setting s), [] => .ok { r with pending := some s }
    | some (.setting s), '=' :: value => r.setting s (String.ofList value)
    | some (.setting s), value => r.setting s (String.ofList value)
    | none, _ => .error .misuse

def argument (r : Reading) (value : String) : Except Stop Reading :=
  if r.operandsOnly then r.operand value
  else
    match r.pending, value.toList with
    | none, ['-', '-'] => .ok { r with operandsOnly := true }
    | none, '-' :: '-' :: chars => r.word chars
    | none, '-' :: c :: chars => r.joined (c :: chars)
    | none, _ => r.operand value
    | some _, '-' :: _ :: _ => .error .misuse
    | some s, _ => r.setting s value

end Reading

end CommandLine

structure CompileOptions where
  printIr : Bool := false
  allErrors : Bool := false
  jsonDiagnostics : Bool := false
  deriving DecidableEq, Repr

inductive Command where
  | compile (name : String) (files dependencies : List String) (options : CompileOptions)
  | layout (members : List String) (json : Bool)
  deriving DecidableEq, Repr

namespace CommandLine

def Reading.command (r : Reading) : Except Stop Command :=
  match r.pending, r.operands, r.context with
  | none, _ :: _, .compile =>
    .ok (.compile (r.name.getD "Fragment") r.operands r.dependencies
      { printIr := .printIr ∈ r.switches, allErrors := .allErrors ∈ r.switches,
        jsonDiagnostics := .jsonDiagnostics ∈ r.switches })
  | none, _ :: _, .layout => .ok (.layout r.operands (.json ∈ r.switches))
  | _, _, .help _ => .error .help
  | _, _, _ => .error .misuse

end CommandLine

def Command.ofArguments (arguments : List String) : Except CommandLine.Stop Command := do
  (← arguments.foldlM CommandLine.Reading.argument {}).command

end Shader
