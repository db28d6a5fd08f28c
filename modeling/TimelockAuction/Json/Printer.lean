import TimelockAuction.Json.Token

/-!
# Writing JSON

A value is written compactly, without blanks.
-/

namespace TimelockAuction.Json

mutual

def tokens : Json → List Token
  | .scalar s => [.scalar s]
  | .array items => .openArray :: itemTokens items ++ [.closeArray]
  | .object members => .openObject :: memberTokens members ++ [.closeObject]

/-- The tokens of the items of an array, with commas between them. -/
def itemTokens : List Json → List Token
  | [] => []
  | [v] => v.tokens
  | v :: rest => v.tokens ++ .comma :: itemTokens rest

/-- The tokens of the members of an object, with commas between them. -/
def memberTokens : List (Text × Json) → List Token
  | [] => []
  | [(name, v)] => .scalar (.text name) :: .colon :: v.tokens
  | (name, v) :: rest =>
    .scalar (.text name) :: .colon :: v.tokens ++ .comma :: memberTokens rest

end

def render (v : Json) : String :=
  String.ofList (v.tokens.flatMap Token.spelling)

end TimelockAuction.Json
