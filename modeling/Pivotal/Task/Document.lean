import Pivotal.Dict
import Pivotal.Task.Comment
import Pivotal.Task.Reader

/-!
# Documents

A document is a dictionary of sections, a section a dictionary of keys.  A section that is written
twice is merged, and a key that is written twice keeps its last values.  A key without an entry of
its own may still be expected by a template; it is then present without values.
-/

namespace Pivotal.Task

/-- Values by key; `none` for a key that a template expects and the text does not give. -/
abbrev Section (V : Type) := Dict (Option (List V))

/-- Sections by title. -/
abbrev Document (V : Type) := Dict (Section V)

namespace Document

variable {V : Type}

/-- The section of a title, empty if there is none. -/
def sectionOf (d : Document V) (title : String) : Section V := (d.get? title).getD ∅

/-- The values of a key of a section. -/
def values? (d : Document V) (title key : String) : Option (List V) :=
  ((d.get? title).bind (·.get? key)).join

/-- Merges a written section into a document. -/
def add (d : Document V) (s : WrittenSection V) : Document V :=
  d.put s.title ((d.sectionOf s.title).putAll (s.pairs.map fun p => (p.1, some p.2)))

def ofSections (sections : List (WrittenSection V)) : Document V := sections.foldl add ∅

/-- Reads the sections of a text without comments. -/
def read (value : Reader V) : Reader (Document V) := fun cs =>
  (readSections value cs).map fun (sections, rest) => (ofSections sections, rest)

end Document

/-- Why a text is not a document. -/
inductive DocumentFault where
  /-- The text does not start with a section. -/
  | unreadable (failure : Failure)
  /-- Text is left after the last section. -/
  | leftover (rest : List Char)
  deriving DecidableEq, Repr

def DocumentFault.message : DocumentFault → String
  | .unreadable f => "Parsing error: " ++ f.message
  | .leftover rest =>
    "Failed to parse entire document. Remaining: '" ++ String.ofList rest ++ "'"

namespace Document

variable {V : Type}

/-- Reads a whole text: comments are removed first, and nothing but blanks may be left. -/
def parse (value : Reader V) (text : List Char) : Except DocumentFault (Document V) :=
  match read value (filterComments text) with
  | .error f => .error (.unreadable f)
  | .ok (d, rest) => if Text.trim rest = [] then .ok d else .error (.leftover rest)

/-- The document of a text with its values classified. -/
def parseValues (text : String) : Except DocumentFault (Document Value) :=
  parse readValue text.toList

/-- The document of a text with its tokens as they are written. -/
def parseTokens (text : String) : Except DocumentFault (Document String) :=
  parse readToken text.toList

/-! ## Templates -/

/-- Adds the keys that are missing from a section, without values. -/
def expectKeys (s : Section V) (keys : List String) : Section V :=
  keys.foldl (fun s key => if (s.get? key).isSome then s else s.put key none) s

/-- Adds the sections and keys of a template that are missing, the keys without values. -/
def applyTemplate {W : Type} (d : Document V) (template : Document W) : Document V :=
  template.entries.foldl (fun d e => d.put e.1 (expectKeys (d.sectionOf e.1) e.2.keys)) d

/-- A section that expects these keys. -/
def templateSection (keys : List String) : Section V := expectKeys ∅ keys

end Document

end Pivotal.Task
