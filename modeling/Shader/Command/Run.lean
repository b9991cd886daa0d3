import Shader.Command.Options
import Shader.Library.Listing
import Shader.Types.Packing
import Shader.Workspace

/-!
# Running commands

A command is run on the contents of the files it names and gives what goes to the two outputs and an
exit status: 0 if all went well, 1 if not, and 2 if the arguments make no command.
-/

namespace Shader

structure Output where
  out : String := ""
  err : String := ""
  deriving DecidableEq, Repr

structure Outcome where
  status : Nat
  output : Output
  deriving DecidableEq, Repr

/-- The contents of files, or why they cannot be read. -/
abbrev Files := String → Except String String

namespace Command

abbrev CommandM := ExceptT String (StateM Output)

def print (s : String) : CommandM Unit := modify fun o => { o with out := o.out ++ s }

def printLine (s : String) : CommandM Unit := print (s ++ "\n")

def printError (s : String) : CommandM Unit := modify fun o => { o with err := o.err ++ s ++ "\n" }

/-! ### Paths -/

/-- The name of the file at the end of a path. A path that ends in `.` or `..` has none. -/
def fileName? (path : String) : Option String :=
  let parts := path.splitOn "/"
  let named := parts.head?.toList ++ parts.tail.filter (· ≠ ".")
  match (named.filter (· ≠ "")).getLast? with
  | some "." => none
  | some ".." => none
  | last => last

/-- A file name without what follows its last point. A point at the start does not count. -/
def stem (name : String) : String :=
  let reversed := name.toList.reverse
  match reversed.dropWhile (· ≠ '.') with
  | '.' :: c :: rest => String.ofList (c :: rest).reverse
  | _ => name

/-! ### Compiling -/

def readSource (files : Files) (path : String) : CommandM Source :=
  match files path with
  | .ok text => return ⟨text, path⟩
  | .error reason => throw (CompileError.unreadable s!"{path}: {reason}").message

def printReport (options : CompileOptions) (r : Report) : CommandM Unit :=
  if options.jsonDiagnostics then
    printLine (Json.arr (r.diagnostics.map Diagnostic.toJson)).pretty
  else r.diagnostics.forM fun d => printError d.text

def compileLibrary (files : Files) (options : CompileOptions) (name : String) (paths : List String)
    (dependencies : List Library) (w : Workspace) : CommandM (Library × Workspace) := do
  let sources ← paths.mapM (readSource files)
  let p : Project := { name := name, sources := sources, report := { all := options.allErrors } }
  let (b, w) := w.build p dependencies name
  printReport options b.report
  match b.result with
  | .ok l => return (l, w)
  | .error e => throw e.message

/-- Compiles dependencies one after the other, each on top of those before it. -/
def compileDependencies (files : Files) (options : CompileOptions) :
    List String → List Library → Workspace → CommandM (List Library × Workspace)
  | [], done, w => return (done, w)
  | path :: paths, done, w => do
    let name := ((fileName? path).map stem).getD "Dependency"
    let (l, w) ← compileLibrary files options name [path] done w
    compileDependencies files options paths (done ++ [l]) w

def compileAll (files : Files) (name : String) (paths dependencies : List String)
    (options : CompileOptions) : CommandM Unit := do
  let w : Workspace := {}
  let core := w.libraries.map Prod.snd
  let (libraries, w) ← compileDependencies files options dependencies core w
  let (l, _) ← compileLibrary files options name paths libraries w
  if options.printIr then
    match l.listing l.types with
    | (.ok text, _) => print text
    | (.error e, _) => throw e.message
  printLine s!"Translated '{l.name}': {l.types.size} types, {l.routines.length} functions"

/-! ### Layouts -/

/-- A member as it is written: a name and a type divided by the first colon, or a type alone. -/
def readMember (index : Nat) (text : String) : String × String :=
  let chars := text.toList
  match chars.dropWhile (· ≠ ':') with
  | _ :: ty => (String.ofList (chars.takeWhile (· ≠ ':')), String.ofList ty)
  | [] => (s!"m{index}", text)

/-- Blanks that fill a text up to a width. -/
def fill (width : Nat) (s : String) : String :=
  String.ofList (List.replicate (width - s.length) ' ')

def memberLine (m : PackedMember) : String :=
  let offset := toString m.offset
  fill 6 offset ++ offset ++ "  " ++ m.name ++ fill 12 m.name ++ " " ++ m.typeName ++
    fill 16 m.typeName ++ s!" size={m.layout.size} align={m.layout.alignment}"

def layoutMembers (members : List String) (json : Bool) : CommandM Unit := do
  match packMembers (members.mapIdx readMember) with
  | .error e => throw e.message
  | .ok s =>
    if json then printLine s.toJson.pretty
    else
      s.members.forM fun m => printLine (memberLine m)
      printLine s!"size={s.layout.size} align={s.layout.alignment}"

/-! ### Commands -/

def paths : Command → List String
  | .compile _ files dependencies _ => dependencies ++ files
  | .layout _ _ => []

def perform (files : Files) : Command → CommandM Unit
  | .compile name paths dependencies options => compileAll files name paths dependencies options
  | .layout members json => layoutMembers members json

def run (files : Files) (c : Command) : Outcome :=
  match c.perform files {} with
  | (.ok _, output) => ⟨0, output⟩
  | (.error reason, output) => ⟨1, { output with err := output.err ++ s!"Error: {reason}\n" }⟩

def usage : String :=
  "Usage: fragc [-v] compile [-n NAME] [-d FILE]... [--print-ir] [--emit-multiple-errors] " ++
  "[--json-diagnostics] FILE...\n       fragc [-v] layout [--json] MEMBER...\n"

def runArguments (files : Files) (arguments : List String) : Outcome :=
  match Command.ofArguments arguments with
  | .ok c => c.run files
  | .error .version => ⟨0, { out := "fragc 0.1.0\n" }⟩
  | .error .help => ⟨0, { out := usage }⟩
  | .error .misuse => ⟨2, { err := usage }⟩

end Command

end Shader
