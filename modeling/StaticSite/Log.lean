import StaticSite.Text.Bytes

/-!
# Log lines

A log line names its topic in brackets and says one thing about it.  A message of one line is cut
to the width of the terminal; a message of several lines is shown as it is.
-/

namespace StaticSite

/-- Something that is told while the program runs. -/
structure LogLine where
  topic : String
  message : String
  deriving DecidableEq, Repr

namespace LogLine

/-- Number of columns of a line. -/
def width : Nat := 120

def label (topic : String) : String :=
  "[" ++ topic ++ "]"

/-- Number of bytes of the label and of the blank after it. -/
def labelSize (topic : String) : Nat :=
  topic.utf8ByteSize + 3

/-- The number of a topic's colour in escape sequences. -/
def color (topic : String) : String :=
  match topic.toLower with
  | "serve" => "94"
  | "watch" => "92"
  | "error" => "91"
  | "warn" => "95"
  | _ => "93"

/-- The escape sequence for bold letters in the colour of a topic. -/
def style (topic : String) : String :=
  "\x1b[1;" ++ color topic ++ "m"

def reset : String := "\x1b[0m"

/-- The label in bold letters and in the colour of its topic.  Where the topic itself ends all
styles, the style is set again. -/
def coloredLabel (topic : String) : String :=
  style topic ++ (label topic).replace reset (reset ++ style topic) ++ reset

/-- The message, cut to what fits beside the label. -/
def shown (line : LogLine) : String :=
  if line.message.contains '\n' then line.message
  else Text.cut (width - labelSize line.topic) line.message

/-- The line without colours.  It starts with the sequence that clears what stood there. -/
def text (line : LogLine) : String :=
  "\x1b[K" ++ label line.topic ++ " " ++ line.shown ++ "\n"

end LogLine
end StaticSite
