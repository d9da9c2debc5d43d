import CommandGraph.Json.Token

/-!
# JSON text as a tree

`Json.Raw` is a JSON text whose brackets have been matched and whose leaves are still as they are
written. A tree is built from the tokens one at a time: a `Context` holds the open arrays and
objects around the place that has been reached, and a `Progress` tells which token may come there.
Since each token is one step, a text may nest as deep as it likes.
-/

namespace CommandGraph

namespace Json

/-- A JSON text as a tree with its leaves as written. -/
inductive Raw where
  /-- The word for null. -/
  | null
  /-- A word for a truth value. -/
  | bool (b : Bool)
  /-- A numeral. -/
  | number (n : Numeral)
  /-- A string. -/
  | string (parts : List StringPart)
  /-- An array. -/
  | array (items : List Raw)
  /-- An object, with its members in the order in which they are written. -/
  | object (members : List (List StringPart × Raw))

namespace Raw

/-- The open arrays and objects around a value, innermost first. What is already complete in one of
them is listed last one first. -/
inductive Context where
  /-- Around the whole text there is nothing. -/
  | top
  /-- The value is the next item of an array. -/
  | item (done : List Raw) (outer : Context)
  /-- The value belongs to the key of an object's next member. -/
  | member (done : List (List StringPart × Raw)) (key : List StringPart) (outer : Context)

/-- How far a tree has been built. -/
inductive Progress where
  /-- A value has to come. -/
  | value (context : Context)
  /-- An array has just been opened. -/
  | arrayStart (outer : Context)
  /-- An object has just been opened. -/
  | objectStart (outer : Context)
  /-- After a comma in an object a key has to come. -/
  | key (done : List (List StringPart × Raw)) (outer : Context)
  /-- After a key a colon has to come. -/
  | colon (done : List (List StringPart × Raw)) (key : List StringPart) (outer : Context)
  /-- A value is complete. -/
  | complete (value : Raw) (context : Context)

namespace Progress

/-- The first token of a value. -/
def begin? (context : Context) : Token → Option Progress
  | .null => some (complete .null context)
  | .bool b => some (complete (.bool b) context)
  | .number n => some (complete (.number n) context)
  | .string parts => some (complete (.string parts) context)
  | .openArray => some (arrayStart context)
  | .openObject => some (objectStart context)
  | _ => none

/-- The token after a complete value: a comma, or the bracket that closes the container. -/
def continue? (value : Raw) : Context → Token → Option Progress
  | .item done outer, .comma => some (.value (.item (value :: done) outer))
  | .item done outer, .closeArray => some (complete (.array (value :: done).reverse) outer)
  | .member done k outer, .comma => some (key ((k, value) :: done) outer)
  | .member done k outer, .closeObject =>
    some (complete (.object ((k, value) :: done).reverse) outer)
  | _, _ => none

/-- Takes one more token, if it may come here. -/
def step? : Progress → Token → Option Progress
  | value context, t => begin? context t
  | arrayStart outer, .closeArray => some (complete (.array []) outer)
  | arrayStart outer, t => begin? (.item [] outer) t
  | objectStart outer, .closeObject => some (complete (.object []) outer)
  | objectStart outer, .string k => some (colon [] k outer)
  | objectStart _, _ => none
  | key done outer, .string k => some (colon done k outer)
  | key _ _, _ => none
  | colon done k outer, .colon => some (.value (.member done k outer))
  | colon _ _ _, _ => none
  | complete v context, t => continue? v context t

end Progress

/-- The tree of a list of tokens that is exactly one value. -/
def ofTokens? (tokens : List Token) : Option Raw :=
  match tokens.foldlM Progress.step? (.value .top) with
  | some (.complete value .top) => some value
  | _ => none

/-- The tree of a text that is exactly one value, blanks around it apart. -/
def parse? (s : String) : Option Raw :=
  (tokens? s).bind ofTokens?

end Raw

end Json

end CommandGraph
