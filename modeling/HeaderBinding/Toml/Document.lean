import HeaderBinding.Toml.Lexer
import HeaderBinding.Toml.Scalar
import HeaderBinding.Toml.Table

/-!
# TOML documents

A document is a list of statements, one a line: headers and values under keys. The
tokens are taken one by one. Arrays and inline tables that are open are kept on a
stack.
-/

namespace HeaderBinding
namespace Toml

inductive Statement where
  | header (path : List String)
  | element (path : List String)
  | value (path : List String) (v : Setting)

/-- What an unfinished value belongs to: a statement, an array with the items so
far, or an inline table with the members so far. -/
inductive Frame where
  | statement (path : List String)
  | array (items : List Setting)
  | table (members : Table) (path : List String)

/-- What a key under construction is for. -/
inductive KeyUse where
  | statement
  | header
  | element
  | member (members : Table)

/-- What may come next. Paths are kept in reverse. -/
inductive Expecting where
  | line
  | lineEnd
  | opening
  | elementEnd (path : List String)
  | keyPart (use : KeyUse) (path : List String)
  | keyEnd (use : KeyUse) (path : List String)
  | value
  | item (items : List Setting)
  | member (members : Table)
  | arraySeparator (items : List Setting)
  | tableSeparator (members : Table)
  | scalar (text : List Char)
  | scalarTime (date : List Char)

structure Pending where
  statements : List Statement
  frames : List Frame
  expecting : Expecting

namespace Pending

def start : Pending :=
  ⟨[], [], .line⟩

def expect (p : Pending) (e : Expecting) : Pending :=
  { p with expecting := e }

def emit (p : Pending) (s : Statement) : Pending :=
  { p with statements := s :: p.statements, expecting := .lineEnd }

/-!
# Keys
-/

def isKeyChar (c : Char) : Bool :=
  c.isAlphanum || c == '_' || c == '-'

/-- A part of a key, from the token that it is written as. -/
def keyPart? : Token → Option String
  | .bare text => if text.all isKeyChar then some (String.ofList text) else none
  | .quoted true text => some (String.ofList text)
  | _ => none

def takeKeyPart (p : Pending) (use : KeyUse) (path : List String) (token : Token) :
    Option Pending :=
  (keyPart? token).map fun part => p.expect (.keyEnd use (part :: path))

/-- Takes what ends a key or leads to its next part. -/
def takeKeyEnd (p : Pending) (use : KeyUse) (path : List String) (token : Token) :
    Option Pending :=
  match token, use with
  | .blank, _ => some p
  | .point, _ => some (p.expect (.keyPart use path))
  | .equals, .statement => some ⟨p.statements, [.statement path.reverse], .value⟩
  | .equals, .member members =>
      some ⟨p.statements, .table members path.reverse :: p.frames, .value⟩
  | .closeArray, .header => some (p.emit (.header path.reverse))
  | .closeArray, .element => some (p.expect (.elementEnd path))
  | _, _ => none

/-!
# Values
-/

/-- How deep arrays and inline tables may nest. -/
def nestingLimit : Nat :=
  80

/-- Hands a finished value to what it belongs to. -/
def complete (p : Pending) (v : Setting) : Option Pending :=
  match p.frames with
  | [] => none
  | .statement path :: frames => some ({ p with frames }.emit (.value path v))
  | .array items :: frames => some ⟨p.statements, frames, .arraySeparator (v :: items)⟩
  | .table members path :: frames =>
      (members.insert? v path true).map fun members =>
        ⟨p.statements, frames, .tableSeparator members⟩

/-- Opens an array or an inline table. The frame of the statement is not a level. -/
def deepen (p : Pending) (e : Expecting) : Option Pending :=
  if p.frames.length ≤ nestingLimit then some (p.expect e) else none

def takeValue (p : Pending) (token : Token) : Option Pending :=
  match token with
  | .quoted _ text => p.complete (.text (String.ofList text))
  | .bare text => some (p.expect (.scalar text))
  | .openArray => p.deepen (.item [])
  | .openTable => p.deepen (.member [])
  | _ => none

def isPadding (token : Token) : Bool :=
  token = .blank || token = .newline

/-- Takes a token, the scalar before it being finished. -/
def takeWhole (p : Pending) (token : Token) : Option Pending :=
  match p.expecting with
  | .line =>
      match token with
      | .blank => some p
      | .newline => some p
      | .openArray => some (p.expect .opening)
      | token => p.takeKeyPart .statement [] token
  | .lineEnd =>
      match token with
      | .blank => some p
      | .newline => some (p.expect .line)
      | _ => none
  | .opening =>
      match token with
      | .openArray => some (p.expect (.keyPart .element []))
      | .blank => some (p.expect (.keyPart .header []))
      | token => p.takeKeyPart .header [] token
  | .elementEnd path =>
      match token with
      | .closeArray => some (p.emit (.element path.reverse))
      | _ => none
  | .keyPart use path =>
      match token with
      | .blank => some p
      | token => p.takeKeyPart use path token
  | .keyEnd use path => p.takeKeyEnd use path token
  | .value => if token = .blank then some p else p.takeValue token
  | .item items =>
      if isPadding token then some p
      else if token = .closeArray then p.complete (.array items.reverse)
      else { p with frames := .array items :: p.frames }.takeValue token
  | .member members =>
      if isPadding token then some p
      else if token = .closeTable then p.complete (.table (settings members))
      else p.takeKeyPart (.member members) [] token
  | .arraySeparator items =>
      if isPadding token then some p
      else if token = .closeArray then p.complete (.array items.reverse)
      else if token = .comma then some (p.expect (.item items))
      else none
  | .tableSeparator members =>
      if isPadding token then some p
      else if token = .closeTable then p.complete (.table (settings members))
      else if token = .comma then some (p.expect (.member members))
      else none
  | .scalar _ => none
  | .scalarTime _ => none

def finishScalar (p : Pending) (text : List Char) : Option Pending :=
  (Scalar.setting? text).bind p.complete

def isDate (text : List Char) : Bool :=
  match Date.date? text with
  | some (_, []) => true
  | _ => false

/-- Takes a token. A scalar goes on over points, and a date over a blank when a time
follows. -/
def take (p : Pending) (token : Token) : Option Pending :=
  match p.expecting with
  | .scalar text =>
      match token with
      | .bare more => some (p.expect (.scalar (text ++ more)))
      | .point => some (p.expect (.scalar (text ++ ['.'])))
      | token =>
          if token = .blank ∧ isDate text then some (p.expect (.scalarTime text))
          else (p.finishScalar text).bind (·.takeWhole token)
  | .scalarTime date =>
      match token with
      | .bare time => some (p.expect (.scalar (date ++ ' ' :: time)))
      | token => (p.finishScalar date).bind (·.takeWhole token)
  | _ => p.takeWhole token

end Pending

/-!
# From statements to tables
-/

/-- A header with the values up to the next one. -/
structure Section where
  isElement : Bool
  path : List String
  values : List (List String × Setting)

/-- The values before the first header, and the sections. -/
def sections : List Statement → List (List String × Setting) × List Section
  | [] => ([], [])
  | .value path v :: ss =>
      let (values, rest) := sections ss
      ((path, v) :: values, rest)
  | .header path :: ss =>
      let (values, rest) := sections ss
      ([], ⟨false, path, values⟩ :: rest)
  | .element path :: ss =>
      let (values, rest) := sections ss
      ([], ⟨true, path, values⟩ :: rest)

def fill? (values : List (List String × Setting)) (t : Table) : Option Table :=
  values.foldlM (fun t entry => t.insert? entry.2 entry.1 true) t

def addSection? (t : Table) (s : Section) : Option Table :=
  match s.path.getLast? with
  | none => none
  | some key =>
      let place := if s.isElement then Table.append? else Table.open?
      t.descend? (fun t => t.alter? key (place (fill? s.values))) s.path.dropLast

def table? (statements : List Statement) : Option Table := do
  let (values, rest) := sections statements
  let root ← fill? values []
  rest.foldlM addSection? root

def statements? (tokens : List Token) : Option (List Statement) := do
  let p ← (tokens ++ [Token.newline]).foldlM Pending.take Pending.start
  match p.expecting with
  | .line => some p.statements.reverse
  | _ => none

/-- Reads a document. A byte order mark in front of it does not count. -/
def read? (text : String) : Option SettingTable := do
  let s :=
    match text.toList with
    | '\ufeff' :: s => s
    | s => s
  let t ← table? (← statements? (← lex? s))
  return settings t
end Toml
end HeaderBinding
