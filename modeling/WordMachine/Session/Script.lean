import WordMachine.Session
import WordMachine.Text.Lines

/-!
# Scripts

A session fed with lines of text, one after the other. Each line is asked for with a prompt and
answered on a line of its own. Blank lines are passed over, and `quit` or `exit` ends the session
and leaves the rest of the script unread; so does nothing else, whatever the answer.
-/

namespace WordMachine

/-- What a line of a script is. -/
inductive ScriptLine where
  | blank
  /-- The end of the session. -/
  | leave
  | command (text : String)
  deriving DecidableEq, Repr

/-- Reads a line of a script, without the blanks around it. -/
def ScriptLine.ofText (line : List Char) : ScriptLine :=
  let text := String.ofList (Text.trim line)
  if text.isEmpty then .blank else if text = "quit" || text = "exit" then .leave else .command text

/-- What a session made of a script. -/
structure Transcript where
  printed : String
  /-- The lines that were not read. -/
  unread : List (List Char)
  deriving DecidableEq, Repr

namespace Session

/-- What is printed in front of every line that is read. -/
def prompt : String := "> "

/-- Goes through the lines of a script behind what is printed already. -/
def playOnto (printed : String) (session : Session) (budget : Nat) :
    List (List Char) → Option (Transcript × Session)
  | [] => some (⟨printed ++ prompt ++ "\n", []⟩, session)
  | line :: rest =>
    match ScriptLine.ofText line with
    | .blank => playOnto (printed ++ prompt) session budget rest
    | .leave => some (⟨printed ++ prompt, rest⟩, session)
    | .command text =>
      match session.dispatch budget text with
      | none => none
      | some (reply, after) => playOnto (printed ++ prompt ++ reply ++ "\n") after budget rest

/-- Goes through a script. -/
def play (session : Session) (budget : Nat) (script : String) : Option (Transcript × Session) :=
  playOnto "" session budget (Text.lines script.toList)

end Session

end WordMachine
