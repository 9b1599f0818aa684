/-!
# Writing JSON

Trees of the JSON that is written, laid out over lines with two spaces a level. An
empty array stays on one line.
-/

namespace HeaderBinding
namespace Json

inductive Tree where
  | flag (value : Bool)
  | integer (value : Int)
  | text (value : String)
  | array (items : List Tree)
  | object (members : List (String × Tree))

/-- Two hexadecimal digits of a control character. -/
def controlDigits (c : Char) : List Char :=
  [Nat.digitChar (c.toNat / 16), Nat.digitChar (c.toNat % 16)]

def escapedChar (c : Char) : List Char :=
  match c with
  | '"' => ['\\', '"']
  | '\\' => ['\\', '\\']
  | '\x08' => ['\\', 'b']
  | '\x0c' => ['\\', 'f']
  | '\n' => ['\\', 'n']
  | '\r' => ['\\', 'r']
  | '\t' => ['\\', 't']
  | c => if c.toNat < 0x20 then ['\\', 'u', '0', '0'] ++ controlDigits c else [c]

def quote (s : String) : List Char :=
  '"' :: s.toList.flatMap escapedChar ++ ['"']

def newline (depth : Nat) : List Char :=
  '\n' :: List.replicate (2 * depth) ' '

/-- Encloses the entries of an array or an object, one on a line. -/
def enclose (opening closing : Char) (depth : Nat) (entries : List (List Char)) : List Char :=
  match entries with
  | [] => [opening, closing]
  | entries =>
      opening :: newline (depth + 1) ++ (',' :: newline (depth + 1)).intercalate entries ++
        newline depth ++ [closing]

namespace Tree

mutual

def layout (depth : Nat) : Tree → List Char
  | flag value => if value then ['t', 'r', 'u', 'e'] else ['f', 'a', 'l', 's', 'e']
  | integer value => (toString value).toList
  | text value => quote value
  | array items => enclose '[' ']' depth (layoutItems (depth + 1) items)
  | object members => enclose '{' '}' depth (layoutMembers (depth + 1) members)

def layoutItems (depth : Nat) : List Tree → List (List Char)
  | [] => []
  | item :: items => layout depth item :: layoutItems depth items

def layoutMembers (depth : Nat) : List (String × Tree) → List (List Char)
  | [] => []
  | (key, value) :: members =>
      (quote key ++ ':' :: ' ' :: layout depth value) :: layoutMembers depth members

end

def render (t : Tree) : String :=
  String.ofList (t.layout 0)

end Tree
end Json
end HeaderBinding
