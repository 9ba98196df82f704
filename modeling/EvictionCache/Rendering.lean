/-!
# Renderings of a value

A value is shown in two forms: on one line, and over several lines with the parts of a record
indented by four spaces and each followed by a comma. A `Rendering` holds both forms, and the
combinators build the two side by side, so a record shows the same parts in either form.
-/
namespace EvictionCache

/-- The two forms in which a value is shown. -/
structure Rendering where
  /-- The whole value on one line. -/
  oneLine : String
  /-- The lines of the indented form. -/
  lines : List String

namespace Rendering

/-- The indented form as one text. -/
def indented (rendering : Rendering) : String := "\n".intercalate rendering.lines

/-- A value without parts reads the same in both forms. -/
def atom (text : String) : Rendering := ⟨text, [text]⟩

/-- A natural number in decimal digits. -/
def number (value : Nat) : Rendering := atom (toString value)

/-- An integer in decimal digits. -/
def integer (value : Int) : Rendering := atom (toString value)

/-- The last line of a part carries the comma that separates it from the next part. -/
def commaAfter : List String → List String
  | [] => []
  | [line] => [line ++ ","]
  | line :: rest => line :: commaAfter rest

/-- The lines of one part inside an indented form. -/
def nested (lines : List String) : List String :=
  (commaAfter lines).map ("    " ++ ·)

/-- A labelled part of a record. -/
def labelled (label : String) (value : Rendering) : Rendering where
  oneLine := label ++ ": " ++ value.oneLine
  lines :=
    match value.lines with
    | [] => [label ++ ": "]
    | line :: rest => (label ++ ": " ++ line) :: rest

/-- A named group of parts between an opening and a closing mark; without parts only the name
is shown. -/
def group (header opening closing : String) (gap : String) (parts : List Rendering) :
    Rendering :=
  if parts.isEmpty then atom header
  else
    { oneLine :=
        header ++ opening ++ gap ++ ", ".intercalate (parts.map oneLine) ++ gap ++ closing
      lines :=
        (header ++ opening) :: (parts.flatMap fun part => nested part.lines) ++ [closing] }

/-- A record: its name and its labelled fields between braces. -/
def record (name : String) (fields : List (String × Rendering)) : Rendering :=
  group name " \x7b" "\x7d" " " (fields.map fun field => labelled field.1 field.2)

/-- A constructor applied to unlabelled arguments. -/
def applied (name : String) (arguments : List Rendering) : Rendering :=
  group name "(" ")" "" arguments

/-- An optional value names its case. -/
def optional : Option Rendering → Rendering
  | none => atom "None"
  | some value => applied "Some" [value]

/-- The characters that stand for one character of a quoted text. -/
def quotedCharacter : Char → List Char
  | '"' => ['\\', '"']
  | '\\' => ['\\', '\\']
  | '\n' => ['\\', 'n']
  | '\t' => ['\\', 't']
  | '\r' => ['\\', 'r']
  | '\x00' => ['\\', '0']
  | character => [character]

/-- A text between double quotes, with quotes, backslashes, line breaks and tabs escaped. -/
def quoted (text : String) : Rendering :=
  atom (String.ofList ('"' :: text.toList.flatMap quotedCharacter ++ ['"']))

end Rendering

end EvictionCache
