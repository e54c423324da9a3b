/-
Reading JSON text.

Tokens drive a stack of open containers.  At each moment the reader expects one
kind of thing, and a token that is not it ends the reading: the text is then not
JSON.  Containers nest to a fixed depth.  `readAsWritten?` keeps the members of an
object in the order and number in which they are written; `read?` sorts them and
keeps the last of several members with one key.
-/
import SchemaBundle.Json.Lexer

namespace SchemaBundle

namespace Json

/-- A container that has been opened and not closed, its content reversed. -/
inductive Frame where
  /-- The items read so far. -/
  | array (items : List Json)
  /-- The members read so far, and the key whose value comes next. -/
  | object (members : List (String × Json)) (key : String)

/-- What may come next. -/
inductive Expectation where
  /-- A value. -/
  | value
  /-- A value, or the end of an array without items. -/
  | itemOrEnd
  /-- A key. -/
  | key
  /-- A key, or the end of an object without members. -/
  | keyOrEnd
  /-- The colon after a key. -/
  | colon
  /-- A comma, or the end of the container. -/
  | commaOrEnd
  /-- Nothing: the text holds this value. -/
  | nothing (value : Json)

/-- The reader between two tokens. -/
structure ReaderState where
  /-- The open containers, innermost first. -/
  frames : List Frame
  /-- What may come next. -/
  expecting : Expectation

/-- The deepest nesting of containers that is read. -/
def maxDepth : Nat :=
  127

/-- The state after a complete value. -/
def ReaderState.deliver (frames : List Frame) (value : Json) : ReaderState :=
  match frames with
  | [] => ⟨[], .nothing value⟩
  | .array items :: outer => ⟨.array (value :: items) :: outer, .commaOrEnd⟩
  | .object members key :: outer => ⟨.object ((key, value) :: members) key :: outer, .commaOrEnd⟩

/-- The state after a token that starts or is a value. -/
def ReaderState.startValue? (frames : List Frame) : Token → Option ReaderState
  | .scalar value => some (deliver frames value)
  | .openArray => if frames.length < maxDepth then some ⟨.array [] :: frames, .itemOrEnd⟩ else none
  | .openObject =>
    if frames.length < maxDepth then some ⟨.object [] "" :: frames, .keyOrEnd⟩ else none
  | _ => none

/-- The state after a token that closes the innermost container. -/
def ReaderState.close? (frames : List Frame) : Token → Option ReaderState
  | .closeArray =>
    match frames with
    | .array items :: outer => some (deliver outer (.array items.reverse))
    | _ => none
  | .closeObject =>
    match frames with
    | .object members _ :: outer => some (deliver outer (.object members.reverse))
    | _ => none
  | _ => none

/-- The state after a key. -/
def ReaderState.key? (frames : List Frame) : Token → Option ReaderState
  | .scalar (.string key) =>
    match frames with
    | .object members _ :: outer => some ⟨.object members key :: outer, .colon⟩
    | _ => none
  | _ => none

/-- The state after one more token. -/
def ReaderState.step? (state : ReaderState) (token : Token) : Option ReaderState :=
  match state.expecting with
  | .value => startValue? state.frames token
  | .itemOrEnd => (startValue? state.frames token).or (close? state.frames token)
  | .key => key? state.frames token
  | .keyOrEnd => (key? state.frames token).or (close? state.frames token)
  | .colon =>
    match token with
    | .colon => some { state with expecting := .value }
    | _ => none
  | .commaOrEnd =>
    match token, state.frames with
    | .comma, .array _ :: _ => some { state with expecting := .value }
    | .comma, .object _ _ :: _ => some { state with expecting := .key }
    | _, _ => close? state.frames token
  | .nothing _ => none

/-- The value of a text, the members of its objects as they are written. -/
def readAsWritten? (text : String) : Option Json := do
  let tokens ← tokens? text
  let final ← tokens.foldlM ReaderState.step? ⟨[], .value⟩
  match final.expecting with
  | .nothing value => some value
  | _ => none

/-- The value of a text. -/
def read? (text : String) : Option Json :=
  (readAsWritten? text).map sortKeys

end Json

end SchemaBundle
