/-!
Text for a terminal, which may hold control sequences besides what it shows,
and the plain text of it.  A sequence opens with the escape character; what
follows decides where it ends.
-/

namespace ChipEight.Terminal

def emphasised (s : String) : String :=
  "\x1b[1m" ++ s ++ "\x1b[0m"

/-- How far a control sequence has been read. -/
inductive Place
  /-- Between two sequences. -/
  | outside
  | escape
  | escapeIntermediate
  /-- Behind `[`, up to a letter. -/
  | control
  /-- Behind `P`, ahead of the parameters of a device control string. -/
  | deviceEntry
  | deviceParameter
  | deviceIntermediate
  /-- Inside a string for a device, up to the byte `9C`. -/
  | device
  /-- Behind `]`, inside a command for the system, up to a bell. -/
  | system
  deriving DecidableEq, Repr

/-- Blanks that a terminal acts on even inside a sequence. -/
def isBlankControl (c : Char) : Bool :=
  c = '\t' || c = '\n' || c = '\x0c' || c = '\r'

/-- Whether a character is text where no sequence is open. -/
def isText (c : Char) : Bool :=
  (' ' ≤ c && c != '\x7f') || isBlankControl c

def between (low high c : Char) : Bool :=
  low ≤ c && c ≤ high

namespace Place

def shows : Place → Char → Bool
  | .outside, c => isText c
  | .escape, c | .escapeIntermediate, c | .control, c => isBlankControl c
  | _, _ => false

def opened (c : Char) : Place :=
  if c = '[' then .control
  else if c = ']' then .system
  else if c = 'P' then .deviceEntry
  else if c = 'X' || c = '^' || c = '_' then .device
  else .outside

def next (p : Place) (c : Char) : Place :=
  if c = '\x1b' then .escape
  -- these two characters cancel any sequence
  else if c = '\x18' || c = '\x1a' then .outside
  else
    match p with
    | .outside => .outside
    | .escape =>
      if between ' ' '/' c then .escapeIntermediate
      else if between '0' '~' c then opened c
      else .escape
    | .escapeIntermediate => if between '0' '~' c then .outside else .escapeIntermediate
    | .control => if between '@' '~' c then .outside else .control
    | .deviceEntry =>
      if between ' ' '/' c then .deviceIntermediate
      else if between '0' '?' c then .deviceParameter
      else if between '@' '~' c then .device
      else .deviceEntry
    | .deviceParameter =>
      if between ' ' '/' c then .deviceIntermediate
      else if between '<' '~' c then .device
      else .deviceParameter
    | .deviceIntermediate => if between '0' '~' c then .device else .deviceIntermediate
    -- the byte counts even where it is only a part of a character
    | .device => if (String.utf8EncodeChar c).contains 0x9C then .outside else .device
    | .system => if c = '\x07' then .outside else .system

end Place

/-- The characters shown from a place on.  Behind a blank that is shown inside a
sequence all text is shown, until a control character takes the sequence up
again; a character beyond ASCII ends it. -/
def shownFrom : Place → Bool → List Char → List Char
  | _, _, [] => []
  | p, resting, c :: rest =>
    if (resting && isText c) || p.shows c then
      c :: shownFrom (if c.toNat < 128 then p else .outside) true rest
    else shownFrom (p.next c) false rest

def plain (s : String) : String :=
  String.ofList (shownFrom .outside false s.toList)

end ChipEight.Terminal
