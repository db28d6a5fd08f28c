import TimelockAuction.Json.Token

/-!
# Reading JSON

The tokens of a text are read with a stack of the arrays and objects that are still open, so values may
nest to any depth. A text is one value and nothing behind it.
-/

namespace TimelockAuction.Json

/-- An array or object that is still open, its finished parts last first. In an object the name of the
member being read comes along. -/
inductive Frame
  | array (items : List Json)
  | object (members : List (Text × Json)) (name : Text)

/-- What may come next, inside the open frames. -/
inductive State
  /-- A value. -/
  | value (stack : List Frame)
  /-- A value or the end of an array that has none. -/
  | firstItem (stack : List Frame)
  /-- A comma or the end of an array. -/
  | nextItem (items : List Json) (stack : List Frame)
  /-- A name or the end of an object that has none. -/
  | firstName (stack : List Frame)
  /-- A name. -/
  | nextName (members : List (Text × Json)) (stack : List Frame)
  /-- The colon behind a name. -/
  | colon (members : List (Text × Json)) (name : Text) (stack : List Frame)
  /-- A comma or the end of an object. -/
  | nextMember (members : List (Text × Json)) (stack : List Frame)
  /-- Nothing. -/
  | done (v : Json)

/-- Puts a finished value into the innermost open frame. -/
def State.complete (v : Json) : List Frame → State
  | [] => .done v
  | .array items :: stack => .nextItem (v :: items) stack
  | .object members name :: stack => .nextMember ((name, v) :: members) stack

/-- A value or the opening of one. -/
def State.start (stack : List Frame) : Token → Option State
  | .openArray => some (.firstItem stack)
  | .openObject => some (.firstName stack)
  | .scalar s => some (.complete (.scalar s) stack)
  | _ => none

def State.step : State → Token → Option State
  | value stack, t => State.start stack t
  | firstItem stack, .closeArray => some (.complete (.array []) stack)
  | firstItem stack, t => State.start (.array [] :: stack) t
  | nextItem items stack, .comma => some (.value (.array items :: stack))
  | nextItem items stack, .closeArray => some (.complete (.array items.reverse) stack)
  | firstName stack, .closeObject => some (.complete (.object []) stack)
  | firstName stack, .scalar (.text n) => some (.colon [] n stack)
  | nextName members stack, .scalar (.text n) => some (.colon members n stack)
  | colon members n stack, .colon => some (.value (.object members n :: stack))
  | nextMember members stack, .comma => some (.nextName members stack)
  | nextMember members stack, .closeObject => some (.complete (.object members.reverse) stack)
  | _, _ => none

/-- Reads tokens one after the other. -/
def State.run : State → List Token → Option State
  | state, [] => some state
  | state, t :: rest => do
    let next ← state.step t
    next.run rest

def ofTokens? (tokens : List Token) : Option Json :=
  match (State.value []).run tokens with
  | some (.done v) => some v
  | _ => none

def parse? (text : String) : Option Json := do
  let tokens ← cut .between text.toList
  ofTokens? tokens

end TimelockAuction.Json
