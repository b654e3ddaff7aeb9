import PageTree.Tool.Run

/-!
# The command line

Reads the files that a command needs, runs it, prints what it prints and writes the file that it
has written.
-/

namespace PageTree

/-- A reason in words. -/
def Reason.text : Reason → String
  | .words text => text
  | .malformedJson => "the text is not in the expected form"
  | .inaccessible => "the file cannot be accessed"

/-- The text of a file, if it can be read, and whether there is one. -/
def inspect (path : String) : IO (Option String × Bool) := do
  try
    return (String.fromUTF8? (← IO.FS.readBinFile path), true)
  catch
    | .permissionDenied .. => return (none, true)
    | _ => return (none, false)

/-- Writes a file, and says whether that could be done. -/
def writeFile (writing : Writing) : IO Bool := do
  try
    IO.FS.writeFile writing.path writing.text
    return true
  catch _ =>
    return false

/-- Reports a failure. -/
def complain (fault : ToolFault) : IO UInt32 := do
  IO.eprintln ("Error: " ++ ": ".intercalate (fault.chain.map Reason.text))
  return 1

/-- Runs a command on the files of the system. -/
def Invocation.execute (invocation : Invocation) : IO UInt32 := do
  let found ← invocation.sources.mapM fun path => return (path, ← inspect path)
  let product := invocation.run {
    read := fun path => (found.lookup path).bind Prod.fst
    isFile := fun path => ((found.lookup path).map Prod.snd).getD false }
  IO.print product.printed
  match product.outcome with
  | .error fault => complain fault
  | .ok none => return 0
  | .ok (some writing) =>
    if ← writeFile writing then return 0 else complain (.unwritten writing.path)

/-- How the tool is called. -/
def usage : String := "\n".intercalate [
  "usage: pageir [--config FILE] COMMAND",
  "commands:",
  "  new [--title TITLE] [--out FILE]",
  "  apply DOCUMENT --ops FILE [--out FILE] [--strict]",
  "  validate DOCUMENT [--strict]",
  "  compile DOCUMENT [--adapter THEME] [--out FILE]",
  "  schema ops|document",
  "  init-client [--out FILE]"]

end PageTree

/-- Runs the tool on its arguments. -/
def main (arguments : List String) : IO UInt32 := do
  match PageTree.Invocation.ofArguments? arguments with
  | some invocation => invocation.execute
  | none =>
    IO.eprintln PageTree.usage
    return 2
