import ExprLang.Shell.CommandLine

/-! The program. -/

namespace ExprLang

/-- The settings in a file; none if it cannot be read. -/
def readSettings (file : Option String) : IO (Option Settings) := do
  match file with
  | none => pure (some {})
  | some name =>
    try
      let content ← IO.FS.readFile name
      pure (Settings.ofText? content)
    catch _ => pure none

/-- Answers the lines of the input until it ends or one of them ends it. -/
partial def converse (input output : IO.FS.Stream) (s : Session) : IO Unit := do
  let line ← input.getLine
  if !line.isEmpty then
    let reply := Dialogue.answer s line
    reply.lines.forM output.putStrLn
    output.flush
    match reply.fault with
    | some f => IO.eprintln ("Error: " ++ f.text)
    | none => pure ()
    if !reply.quits then converse input output reply.session

/-- Runs the program with the words of its command line, and gives its status. -/
def program (words : List String) : IO UInt32 := do
  match CommandLine.request words with
  | .tell lines =>
    lines.forM fun line => IO.println line
    pure 0
  | .refuse =>
    CommandLine.helpText.forM fun line => IO.eprintln line
    pure 2
  | .run file command =>
    match ← readSettings file, command with
    | none, _ =>
      IO.eprintln ("Error: " ++ Fault.unreadableConfig.text)
      pure 1
    | some settings, .repl =>
      Dialogue.greeting.forM fun line => IO.println line
      converse (← IO.getStdin) (← IO.getStdout) (.ofSettings settings)
      pure 0
    | some settings, command =>
      let output := command.perform settings []
      IO.print output.text
      pure output.status.toUInt32

end ExprLang

def main (args : List String) : IO UInt32 := ExprLang.program args
