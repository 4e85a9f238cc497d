import LosslessSyntax.Body.Lower
import LosslessSyntax.Body.Pretty
import LosslessSyntax.Parse

/-!
# CommandLine — the program as it is called

A call asks for the version, or for a report on a source: its tree, or its body.  A report goes to the
standard output, and the exit code says whether the source was free of errors; a source that cannot be
read is reported on the standard error.  A call that asks for nothing of the kind is a usage error.
-/

namespace LosslessSyntax.CommandLine

/-! ## What a call asks for -/

/-- Where a text comes from. -/
inductive Source
  | stdin
  | file (path : String)
  deriving DecidableEq, Repr

/-- What is reported on a text. -/
inductive Report
  /-- The tree and the errors. -/
  | tree
  /-- The body and the errors. -/
  | body
  deriving DecidableEq, Repr

/-- What a call asks for. -/
inductive Command
  | version
  | report (what : Report) (source : Source)
  deriving DecidableEq, Repr

/-- A call that asks for nothing the program does. -/
structure UsageError where

/-- The source that a path names: a lone hyphen is the standard input, also when slashes and single
dots follow, which lead nowhere else. -/
def Source.ofPath (path : String) : Source :=
  match path.splitOn "/" with
  | "-" :: more => if more.all fun part => part = "" || part = "." then .stdin else .file path
  | _ => .file path

/-- Whether an argument is an option rather than a path. -/
def isOption (arg : String) : Bool := arg.startsWith "-" && arg != "-"

/-- The one path among the arguments of a report.  There are no options, and behind two hyphens
everything is a path; a path is not empty. -/
def pathOf? : (escaped : Bool) → (found : Option String) → List String → Option String
  | _, found, [] => found
  | escaped, found, arg :: args =>
    if !escaped && arg == "--" then pathOf? true found args
    else if !escaped && isOption arg then none
    else if arg.isEmpty then none
    else if found.isSome then none
    else pathOf? escaped (some arg) args

/-- What the arguments of a call ask for.  The version may be asked for by the first of several
one-letter options in one argument. -/
def Command.ofArgs (args : List String) : Except UsageError Command :=
  match args with
  | [] => .error {}
  | arg :: args =>
    if arg == "--version" || arg.startsWith "-V" then .ok .version
    else
      let report (what : Report) : Except UsageError Command :=
        match pathOf? false none args with
        | some path => .ok (.report what (.ofPath path))
        | none => .error {}
      if arg == "parse" then report .tree
      else if arg == "lower" then report .body
      else .error {}

/-! ## What a call gets -/

/-- What a call leaves behind. -/
structure Outcome where
  exit : Nat
  stdout : String
  stderr : String
  deriving DecidableEq, Repr

/-- The answer to a question for the version. -/
def versionText : String := "tallow 0.1.0\n"

/-- Why a source cannot be read. -/
inductive ReadFailure
  | notFound
  | notDirectory
  | isDirectory
  | nameTooLong
  | notText
  | other (reason : String)
  deriving DecidableEq, Repr

/-- The wording of the reason why a source cannot be read. -/
def ReadFailure.message : ReadFailure → String
  | notFound => "No such file or directory (os error 2)"
  | notDirectory => "Not a directory (os error 20)"
  | isDirectory => "Is a directory (os error 21)"
  | nameTooLong => "File name too long (os error 36)"
  | notText => "stream did not contain valid UTF-8"
  | other reason => reason

/-- The report that a source cannot be read. -/
def Source.complaint (s : Source) (e : ReadFailure) : String :=
  let what :=
    match s with
    | stdin => "from stdin"
    | file path => s!"'{path}'"
  s!"Error: could not read {what}\n\nCaused by:\n    {e.message}\n"

/-- The text that bytes encode. -/
def decode (bytes : ByteArray) : Except ReadFailure String :=
  match String.fromUTF8? bytes with
  | some text => .ok text
  | none => .error .notText

/-- The report on a parse. -/
def Report.render : Report → Parse → String
  | tree, p => p.dump
  | body, p => (Body.ofFile p.root).pretty ++ Text.ofLines (p.errors.map SyntaxError.line)

/-- What a report on a text leaves behind. -/
def Report.outcome (what : Report) (text : String) : Outcome :=
  match Parse.ofText text with
  | .ok p => ⟨if p.errors.isEmpty then 0 else 1, what.render p, ""⟩
  | .error e => ⟨101, "", e.message?.getD ""⟩

/-- What a call leaves behind, given what its source holds. -/
def Command.outcome (read : Source → Except ReadFailure ByteArray) : Command → Outcome
  | version => ⟨0, versionText, ""⟩
  | report what source =>
    match (read source).bind decode with
    | .ok text => what.outcome text
    | .error e => ⟨1, "", source.complaint e⟩

/-- What a usage error leaves behind. -/
def usageOutcome : Outcome := ⟨2, "", ""⟩

/-- **What a call leaves behind**, given what the sources hold. -/
def run (args : List String) (read : Source → Except ReadFailure ByteArray) : Outcome :=
  match Command.ofArgs args with
  | .ok c => c.outcome read
  | .error _ => usageOutcome

end LosslessSyntax.CommandLine
