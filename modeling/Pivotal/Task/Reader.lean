import Pivotal.Task.Value
import Pivotal.Text.Quoted

/-!
# Reading the parts of a document

A reader takes a part off the front of a text and returns what it read together with the text that
is left.  A document is a sequence of sections, a section a title word followed by pairs
`key : value , value …`.  Nothing marks the end of a list, a section or a document: each goes on as
long as another item can be read, and an item that cannot be read leaves the text where it stood.

Words are ASCII; values end at a comma, a semicolon, a space, a tab or a line end.
-/

namespace Pivotal.Task

/-- What a reader was looking for when it failed. -/
inductive Wanted where
  /-- A word, a colon or a comma. -/
  | mark
  /-- A value. -/
  | value
  /-- Another item that is not empty. -/
  | progress
  deriving DecidableEq, Repr

/-- Where a reader failed: the text it stood before, and what it was looking for. -/
structure Failure where
  rest : List Char
  wanted : Wanted
  deriving DecidableEq, Repr

namespace Failure

def code : Wanted → String
  | .mark => "Tag"
  | .value => "TakeWhile1"
  | .progress => "Many1"

def message (f : Failure) : String :=
  "Error(Error \x7b input: " ++ String.ofList (Text.quote f.rest) ++ ", code: " ++ code f.wanted ++
    " \x7d)"

end Failure

/-- Reads a part of a text and returns the text that is left. -/
abbrev Reader (α : Type) := List Char → Except Failure (α × List Char)

/-! ## Repetition -/

/-- Reads items as long as it can.  An item that takes nothing off the text is refused, since it
could be read again for ever. -/
def many {α : Type} (item : Reader α) (cs : List Char) : Except Failure (List α × List Char) :=
  match item cs with
  | .error _ => .ok ([], cs)
  | .ok (x, rest) =>
    if rest.length < cs.length then
      match many item rest with
      | .error f => .error f
      | .ok (xs, rest) => .ok (x :: xs, rest)
    else .error ⟨cs, .progress⟩
termination_by cs.length

/-- Reads one item and then as many as it can. -/
def many1 {α : Type} (item : Reader α) : Reader (List α) := fun cs =>
  match item cs with
  | .error f => .error f
  | .ok (x, rest) =>
    match many item rest with
    | .error f => .error f
    | .ok (xs, rest) => .ok (x :: xs, rest)

/-- Reads the first part for its place only, then the second. -/
def andThen {α β : Type} (first : Reader α) (second : Reader β) : Reader β := fun cs =>
  match first cs with
  | .error f => .error f
  | .ok (_, rest) => second rest

/-- Reads items with separators between them, none at all included.  A separator without an item
after it is left in the text. -/
def separated {α : Type} (separator : Reader Unit) (item : Reader α) : Reader (List α) := fun cs =>
  match item cs with
  | .error _ => .ok ([], cs)
  | .ok (x, rest) =>
    match many (andThen separator item) rest with
    | .error f => .error f
    | .ok (xs, rest) => .ok (x :: xs, rest)

/-! ## Spaces, marks, words and tokens -/

/-- A space or a tab. -/
def isSpace (c : Char) : Bool := c = ' ' || c = '\t'

/-- A space, a tab or a line end. -/
def isGap (c : Char) : Bool := isSpace c || c = '\r' || c = '\n'

def skipSpaces (cs : List Char) : List Char := cs.dropWhile isSpace

def skipGaps (cs : List Char) : List Char := cs.dropWhile isGap

/-- Reads a mark with spaces and tabs around it. -/
def readMark (m : Char) : Reader Unit := fun cs =>
  match skipSpaces cs with
  | [] => .error ⟨[], .mark⟩
  | c :: rest => if c = m then .ok ((), skipSpaces rest) else .error ⟨c :: rest, .mark⟩

def isWordStart (c : Char) : Bool := c.isAlpha || c = '_'

def isWordChar (c : Char) : Bool := c.isAlphanum || c = '_'

/-- Reads a word: letters, digits and underscores, not starting with a digit. -/
def readWord : Reader String
  | [] => .error ⟨[], .mark⟩
  | c :: cs =>
    if isWordStart c then
      .ok (String.ofList (c :: cs.takeWhile isWordChar), cs.dropWhile isWordChar)
    else .error ⟨c :: cs, .mark⟩

/-- A character that can stand in a token. -/
def isTokenChar (c : Char) : Bool := !(isGap c || c = ',' || c = ';')

/-- Reads a token as it is written. -/
def readToken : Reader String := fun cs =>
  if cs.takeWhile isTokenChar = [] then .error ⟨cs, .value⟩
  else .ok (String.ofList (cs.takeWhile isTokenChar), cs.dropWhile isTokenChar)

/-- Reads a token and classifies it. -/
def readValue : Reader Value := fun cs =>
  (readToken cs).map fun (token, rest) => (Value.classify token.toList, rest)

/-! ## Pairs, sections and documents -/

/-- Reads the title of a section; blanks at both ends of what follows are dropped. -/
def readTitle : Reader String := fun cs =>
  (readWord cs).map fun (title, rest) => (title, Text.trim rest)

/-- Reads a list of values separated by commas. -/
def readValues {V : Type} (value : Reader V) : Reader (List V) := fun cs =>
  separated (readMark ',') value (skipGaps cs)

/-- Reads a key with its values; blanks at both ends of what follows are dropped. -/
def readPair {V : Type} (value : Reader V) : Reader (String × List V) := fun cs =>
  match readWord cs with
  | .error f => .error f
  | .ok (key, rest) =>
    match readMark ':' rest with
    | .error f => .error f
    | .ok (_, rest) =>
      match readValues value rest with
      | .error f => .error f
      | .ok (values, rest) => .ok ((key, values), Text.trim rest)

/-- A title and its pairs, in the order in which they were written. -/
structure WrittenSection (V : Type) where
  title : String
  pairs : List (String × List V)

/-- Reads a title and at least one pair. -/
def readSection {V : Type} (value : Reader V) : Reader (WrittenSection V) := fun cs =>
  match readTitle (skipSpaces cs) with
  | .error f => .error f
  | .ok (title, rest) =>
    let item : Reader (String × List V) := fun cs =>
      (readPair value cs).map fun (pair, rest) => (pair, skipSpaces rest)
    match many1 item (skipGaps rest) with
    | .error f => .error f
    | .ok (pairs, rest) => .ok (⟨title, pairs⟩, rest)

/-- Reads at least one section. -/
def readSections {V : Type} (value : Reader V) : Reader (List (WrittenSection V)) :=
  many1 fun cs =>
    (readSection value (skipGaps cs)).map fun (sec, rest) => (sec, skipGaps rest)

end Pivotal.Task
