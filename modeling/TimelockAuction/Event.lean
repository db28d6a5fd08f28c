/-!
# Events

What a running round reports about itself: a level, a message and named values.
-/

namespace TimelockAuction

/-- How much attention an event asks for. -/
inductive EventLevel
  | debug
  | info
  | warn
deriving DecidableEq, Repr

def EventLevel.text : EventLevel → String
  | debug => "DEBUG"
  | info => "INFO"
  | warn => "WARN"

structure Event where
  level : EventLevel
  message : String
  fields : List (String × String)
deriving DecidableEq, Repr

/-- The line an event is written as: its level, its message, then each field as `name=value`. -/
def Event.text (event : Event) : String :=
  " ".intercalate (event.level.text :: event.message ::
    event.fields.map fun (name, value) => name ++ "=" ++ value)

end TimelockAuction
