import AppearanceSync.Command.Apply
import AppearanceSync.Pump

/-!
# The server as a program

The program reads commands, one a line, until its input ends.  After each line the server takes a
turn, and the frames of what it has to tell its one session are written to the standard output.
Lines that are no command are reported on the standard error output.

The settings come from the file that the variable `APPEARANCE_CONFIG_PATH` names.
-/

namespace AppearanceSync.Program

/-- The contents of the file that the environment names, if it names one and there is one. -/
def configFile : IO (Option (Option (List UInt8))) := do
  match ← IO.getEnv "APPEARANCE_CONFIG_PATH" with
  | none => return none
  | some path =>
    try
      let bytes ← IO.FS.readBinFile path
      return some (some bytes.toList)
    catch _ => return some none

def frames (messages : List Message) : ByteArray :=
  ⟨(Pump.serve (.empty none fun _ => UInt16.size) messages).sink.contents⟩

/-- Carries out one line and a turn; says what the session is sent. -/
def turn (server : Server) (session : SessionId) (line : Command.Line) :
    Server × List Message :=
  let (server, messages) := (server.applyLine line).update.receive session
  (server, messages.getD [])

/-- Carries out lines until there are no more. -/
partial def run (input output errors : IO.FS.Stream) (server : Server) (session : SessionId) :
    IO Unit := do
  let text ← input.getLine
  if text.isEmpty then return ()
  let line := Command.ofLine text
  if line = .invalid then
    errors.putStrLn s!"Invalid command: {String.ofList (Text.trim text.toList)}"
  let (server, messages) := turn server session line
  output.write (frames messages)
  output.flush
  run input output errors server session

end AppearanceSync.Program

open AppearanceSync in
def main : IO Unit := do
  let config := Config.ofEnvironment (← Program.configFile)
  let (server, session) := (Server.start config).connect
  Program.run (← IO.getStdin) (← IO.getStdout) (← IO.getStderr) server session
