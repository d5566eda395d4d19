import Catio.Lib.Text

/-!
# Event streams

The lines of an event stream and the data of its events: the data lines up to an empty line are the
data of one event, with line feeds between them, and other fields and comments do not matter.
-/

namespace Sse

open Text

/-- The ends of lines. -/
inductive Eol where
  | lf
  | crlf
  | cr
  deriving DecidableEq

def Eol.text : Eol → Text
  | .lf => ['\n']
  | .crlf => ['\r', '\n']
  | .cr => ['\r']

/-- The value of a data field. -/
def dataOf (line : Text) : Option Text :=
  match splitOnce ':' line with
  | some (field, value) => if field = "data" then some ((stripPrefix " " value).getD value) else none
  | none => if line = "data" then some [] else none

/-- The data of the events whose lines these are, behind the data lines of an event. -/
def eventsFrom : List Text → List Text → List Text
  | _, [] => []
  | collected, line :: lines =>
      if line = [] then
        (if collected = [] then [] else [join "\n" collected]) ++ eventsFrom [] lines
      else eventsFrom (collected ++ (dataOf line).toList) lines

/-- The data of the events of a stream. -/
def events (lines : List Text) : List Text :=
  eventsFrom [] lines

/-- An event stream: its lines, and what ends each of them. -/
structure Stream where
  lines : List Text
  eol : Eol
  plain : ∀ line ∈ lines, '\n' ∉ line ∧ '\r' ∉ line

def Stream.text (s : Stream) : Text :=
  s.lines.flatMap (· ++ s.eol.text)

example : events ["event: message", "data: 1", "data:2", "", ": ping", "data", ""]
    = [("1\n2" : Text), ""] := by decide

end Sse
