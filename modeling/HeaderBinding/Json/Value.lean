import HeaderBinding.Json.Lexer

/-!
# JSON values, as far as they can be read

Where a text breaks off, every array and object that is still open ends in the
fault. So a value can be read from left to right and the first fault met is the
first one of the text, and a value can be passed over by looking at its end only.
-/

namespace HeaderBinding
namespace Json

open Except (ok error)

inductive Value where
  | atom (scan : Scan Atom)
  | array (items : List Value) (ending : Option Fault)
  | object (members : List (Scan String × Value)) (ending : Option Fault)
  | absent (fault : Fault)

abbrev Member :=
  Scan String × Value

namespace Value

/-- What is wrong with passing over a value. -/
def passing : Value → Option Fault
  | atom scan => scan.passing
  | array _ ending => ending
  | object _ ending => ending
  | absent fault => some fault

/-- How a value is refused that is not of the kind that is wanted. A scalar is
read before its kind is known. -/
def mismatch : Value → Fault
  | atom scan =>
      match scan.content with
      | error fault => fault
      | ok _ => .misshapen
  | array _ _ => .misshapen
  | object _ _ => .misshapen
  | absent fault => fault

end Value

/-!
# Values from tokens

The open arrays and objects are kept on a stack, each with what it holds already,
in reverse. What follows a value depends on the innermost of them only.
-/

inductive Frame where
  | array (items : List Value)
  | object (members : List Member) (key : Scan String)

namespace Frame

/-- Adds the value that a frame waits for, and ends it there. -/
def close (frame : Frame) (v : Value) (ending : Option Fault) : Value :=
  match frame with
  | array items => .array (v :: items).reverse ending
  | object members key => .object ((key, v) :: members).reverse ending

end Frame

/-- A value, and what is wrong with the text behind it. -/
structure Document where
  value : Value
  trailing : Option Fault

/-- Ends every open frame in a fault. -/
def abandon (frames : List Frame) (v : Value) (fault : Fault) : Document :=
  ⟨frames.foldl (fun v frame => frame.close v (some fault)) v, none⟩

/-- What may come next: a value, the first item of an array or its end, the first
key of an object or its end, a further key, the colon behind a key, or what
follows a value. -/
inductive Expecting where
  | value
  | firstItem
  | firstKey
  | key (members : List Member)
  | colon (members : List Member) (key : Scan String)
  | separator (v : Value)

structure Pending where
  frames : List Frame
  expecting : Expecting

namespace Pending

/-- The document when the tokens end or do not fit here. -/
def stop (p : Pending) (fault : Fault) : Document :=
  match p.expecting with
  | .value => abandon p.frames (.absent fault) fault
  | .firstItem => abandon p.frames (.array [] (some fault)) fault
  | .firstKey => abandon p.frames (.object [] (some fault)) fault
  | .key members =>
      abandon (.object members (.broken fault) :: p.frames) (.absent fault) fault
  | .colon members key => abandon (.object members key :: p.frames) (.absent fault) fault
  | .separator v =>
      match p.frames with
      | [] => ⟨v, some fault⟩
      | frame :: frames => abandon frames (frame.close v (some fault)) fault

/-- The document when the tokens end here. Behind a whole value that is in order. -/
def finish (p : Pending) : Document :=
  match p with
  | ⟨[], .separator v⟩ => ⟨v, none⟩
  | p => p.stop .cutOff

def takeScalar (frames : List Frame) (scan : Scan Atom) : Document ⊕ Pending :=
  match scan.passing with
  | some fault => .inl (abandon frames (.atom scan) fault)
  | none => .inr ⟨frames, .separator (.atom scan)⟩

def takeKey (frames : List Frame) (members : List Member) (key : Scan String) :
    Document ⊕ Pending :=
  match key.passing with
  | some fault => .inl (abandon (.object members key :: frames) (.absent fault) fault)
  | none => .inr ⟨frames, .colon members key⟩

/-- Takes the first token of a value. -/
def takeValue (p : Pending) (frames : List Frame) : Token → Document ⊕ Pending
  | .atom scan => takeScalar frames scan
  | .text scan => takeScalar frames (scan.map .text)
  | .openArray => .inr ⟨frames, .firstItem⟩
  | .openObject => .inr ⟨frames, .firstKey⟩
  | _ => .inl (p.stop .malformed)

/-- Takes what stands behind a value. -/
def takeSeparator (p : Pending) (v : Value) : Token → Document ⊕ Pending
  | .closeArray =>
      match p.frames with
      | .array items :: frames => .inr ⟨frames, .separator (.array (v :: items).reverse none)⟩
      | _ => .inl (p.stop .malformed)
  | .closeObject =>
      match p.frames with
      | .object members key :: frames =>
          .inr ⟨frames, .separator (.object ((key, v) :: members).reverse none)⟩
      | _ => .inl (p.stop .malformed)
  | .comma =>
      match p.frames with
      | .array items :: frames => .inr ⟨.array (v :: items) :: frames, .value⟩
      | .object members key :: frames => .inr ⟨frames, .key ((key, v) :: members)⟩
      | [] => .inl (p.stop .malformed)
  | _ => .inl (p.stop .malformed)

def take (p : Pending) (token : Token) : Document ⊕ Pending :=
  match p.expecting, token with
  | .value, token => p.takeValue p.frames token
  | .firstItem, .closeArray => .inr ⟨p.frames, .separator (.array [] none)⟩
  | .firstItem, token => p.takeValue (.array [] :: p.frames) token
  | .firstKey, .closeObject => .inr ⟨p.frames, .separator (.object [] none)⟩
  | .firstKey, .text key => takeKey p.frames [] key
  | .firstKey, _ => .inl (p.stop .malformed)
  | .key members, .text key => takeKey p.frames members key
  | .key _, _ => .inl (p.stop .malformed)
  | .colon members key, .colon => .inr ⟨.object members key :: p.frames, .value⟩
  | .colon _ _, _ => .inl (p.stop .malformed)
  | .separator v, token => p.takeSeparator v token

def run (p : Pending) : List Token → Document
  | [] => p.finish
  | token :: tokens =>
      match p.take token with
      | .inl document => document
      | .inr p => p.run tokens

end Pending

/-- Reads a whole text. -/
def Document.ofText (text : List UInt8) : Document :=
  Pending.run ⟨[], .value⟩ (lex text)

end Json
end HeaderBinding
