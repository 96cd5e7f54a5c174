import Scaffold.Command.Host
import Scaffold.Command.Session

/-!
# Running the command line

What each invocation reads, prints and writes. Dumps go before the subcommand,
and the dump of tokens before that of the program.
-/
namespace Scaffold

/-- The counts of a program on one line. -/
def summary (tokens : List Token) (p : Program) : String :=
  toString tokens.length ++ " tokens, " ++ toString p.includes.length ++ " includes, " ++
    toString p.functions.length ++ " functions, " ++ toString p.vars.length ++ " variables" ++
    if p.entryPoint?.isSome then ", entry point `main`" else ""

/-- A text that could be made, on lines of its own. -/
def serialized : Except String String → Except CommandError String
  | .ok text => .ok (text ++ "\n")
  | .error text => .error (.unserializable text)

namespace Host

def dumpTokens (host : Host) (json : Bool) (tokens : List Token) : Except CommandError String :=
  if json then serialized (host.tokensJson tokens) else .ok (Token.listing tokens)

def dumpProgram (host : Host) (json : Bool) (p : Program) : Except CommandError String :=
  serialized (if json then host.programJson p else .ok (host.programRecord p))

def message (host : Host) : CommandError → String
  | .fault f => String.ofList (Text.trimRight (host.report f).toList)
  | .unserializable text => "Error serializing output: " ++ text
  | .noSource => "Error: emit requires a file path or -c \"code\""
  | .noInput => "Error: no input file (try `skelc --help`)"

/-- What is seen of a result. -/
def outcome (host : Host) : Except CommandError String → Outcome
  | .ok text => { stdout := text }
  | .error e =>
    let message := host.message e
    { exitCode := e.exitCode, stderr := if message = "" then "" else message ++ "\n" }

end Host

namespace Session

/-- Delivers the skeleton of a source. -/
def translate (host : Host) (e : Emission) (source : String) : Session :=
  match host.compile source e.target e.style with
  | .error f => fail f
  | .ok c => deliver e.output? c.output

def emit (host : Host) (e : Emission) : Session :=
  match e.code?, e.file? with
  | some code, _ => translate host e code
  | none, some path => withSource path (translate host e)
  | none, none => done (.error .noSource)

def ofInvocation (host : Host) (i : Invocation) : Session :=
  match i.lexFile?, i.parseFile?, i.emit?, i.file? with
  | some path, _, _, _ => withSource path fun source => done (host.dumpTokens i.json (lex source))
  | none, some path, _, _ =>
    withSource path fun source => done (host.dumpProgram i.json (parse (lex source)))
  | none, none, some e, _ => emit host e
  | none, none, none, some path => withSource path fun source =>
    let tokens := lex source
    print (path ++ ": " ++ summary tokens (parse tokens) ++ "\n")
  | none, none, none, none => done (.error .noInput)

end Session

/-- Runs a command line on the files of a file system. -/
def Host.run {σ φ : Type} (host : Host) (fs : FileSystem σ φ) (args : List String) (s : σ) :
    Outcome × σ :=
  match host.arguments args with
  | .error o => (o, s)
  | .ok i =>
    let (result, t) := (Session.ofInvocation host i).play fs s
    (host.outcome result, t)

/-- Runs a command line on a folder. -/
def runCommand (args : List String) (folder : Folder) : Outcome × Folder :=
  Host.standard.run Folder.system args folder

end Scaffold
