import LexicalRuns.Text.Blank
import LexicalRuns.Text.Quoted
import LexicalRuns.Text.Utf8

/-! Settings of the generator: defaults, then the environment, then arguments. -/
namespace LexicalRuns

structure Settings where
  unicodeData : String
  output : String
  dump : Bool
  verify : Bool
  deriving DecidableEq, Repr

/-- The variables that are looked at; one that is not set has no value. -/
structure Environment where
  unicodeData : Option String
  output : Option String
  verify : Option (List UInt8)
  deriving DecidableEq, Repr

inductive ArgumentFault where
  | missingPath (flag : String)
  | unknown (argument : String)
  deriving DecidableEq, Repr

def ArgumentFault.message : ArgumentFault → String
  | .missingPath flag => flag ++ " needs a path"
  | .unknown argument => "unknown argument " ++ Text.quote argument

namespace Settings

def defaultUnicodeData : String := "./UnicodeData.txt"

def defaultOutput : String := "tables/cprun.rs"

def asciiLower (text : List Char) : String := String.ofList (text.map Char.toLower)

def isOff (text : String) : Bool :=
  asciiLower (Text.trim text.toList) ∈ ["0", "false", "no", "off"]

/-- Verification is on unless it is switched off by a text. -/
def ofEnvironment (e : Environment) : Settings where
  unicodeData := e.unicodeData.getD defaultUnicodeData
  output := e.output.getD defaultOutput
  dump := false
  verify :=
    match e.verify.bind Text.decode? with
    | none => true
    | some text => !isOff text

/-- Applies arguments from left to right. The argument after a flag that needs a path is that
path, whatever it looks like. -/
def withArguments (s : Settings) : List String → Except ArgumentFault Settings
  | [] => .ok s
  | arg :: rest =>
    if arg = "-u" ∨ arg = "--unicode-data" then
      match rest with
      | [] => .error (.missingPath arg)
      | path :: rest => { s with unicodeData := path }.withArguments rest
    else if arg = "-o" ∨ arg = "--output" then
      match rest with
      | [] => .error (.missingPath arg)
      | path :: rest => { s with output := path }.withArguments rest
    else if arg = "-d" ∨ arg = "--dump" then { s with dump := true }.withArguments rest
    else if arg = "--no-verify" then { s with verify := false }.withArguments rest
    else .error (.unknown arg)

end Settings

end LexicalRuns
