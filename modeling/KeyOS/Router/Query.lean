import KeyOS.Lib.KeyValue

/-!
# Routes with queries

A route is a path and a query. The type of a route says which values are taken from the path and
which keys of the query are the fields that follow; a tuple of such types reads the path in turn, and
each of its parts sees the whole query. What a type does with the path, and how it reads the value of
a field, are given with it.

A missing key is told to the visitor of a part in the way in which the end of the query is.
-/

namespace Router

abbrev Text := List Char

/-! ## 1. Errors -/

inductive ParseError where
  | unexpectedChar (found : Char) (expected : List Char)
  | unexpectedStr (found : Text) (expected : List Text)
  | eof
  /-- What is wrong with a value -/
  | value (text : Text)
  deriving DecidableEq, Repr

/-- The messages of the generated visitors -/
inductive Message where
  | missingField (key : Text)
  | duplicateField (key : Text)
  | invalidLength (length : Nat) (expected : Nat)
  | invalidValue (found : Text)
  deriving DecidableEq, Repr

inductive Error where
  | message (text : Message)
  | parse (position : Nat) (error : ParseError)
  deriving DecidableEq, Repr

/-! ## 2. The path -/

/-- The text that is left, and the positions in it -/
structure Deserializer where
  input : Text
  position : Nat
  checkpoint : Nat

def Deserializer.new (input : Text) : Deserializer := { input, position := 0, checkpoint := 0 }

/-- An error where the last token began -/
def Deserializer.error (de : Deserializer) (error : ParseError) : Error :=
  .parse de.checkpoint error

/-- The length of a text in bytes -/
def len (text : Text) : Nat := (text.map fun c => c.utf8Size).sum

variable {P V : Type}

/-- A field of the query: how its value is read, where the error may name a position; the default of
its type; and, of a type that has one, the value without a key -/
structure QueryField (V : Type) where
  key : Text
  parse : Text → Except (Nat → Error) V
  default : V
  ofMissing : Option V

/-- What is generated for the type of a route -/
structure Part (P V : Type) where
  path : Deserializer → Except Error (P × Deserializer)
  /-- In the order of the template of the route -/
  query : List (QueryField V)
  required : Bool
  keys_nodup : (query.map (·.key)).Nodup

inductive RouteType (P V : Type) where
  | single (part : Part P V)
  | tuple (parts : List (Part P V))

def RouteType.parts : RouteType P V → List (Part P V)
  | .single part => [part]
  | .tuple parts => parts

/-- The elements of a tuple: each part of the path begins with a slash. -/
def composedPath (size : Nat) :
    Nat → List (Part P V) → Deserializer → Except Error (List P × Deserializer)
  | _, [], de => .ok ([], de)
  | i, part :: parts, de =>
    match de.input with
    | [] => .error (.message (.invalidLength i size))
    | c :: _ =>
      if c = '/' then do
        let (value, de) ← part.path de
        let (values, de) ← composedPath size (i + 1) parts de
        .ok (value :: values, de)
      else .error (de.error (.unexpectedChar c ['/']))

/-- The values of the path, and the rest of the route -/
def deserializePath (type : RouteType P V) (route : Text) : Except Error (List P × Text) :=
  match type with
  | .single part => do
    let (value, de) ← part.path (.new route)
    .ok ([value], de.input)
  | .tuple parts => do
    let (values, de) ← composedPath parts.length 0 parts (.new route)
    .ok (values, de.input)

/-! ## 3. The query -/

structure QueryEntry where
  value : Text
  position : Nat

abbrev Params := Text → Option QueryEntry

/-- The loop over the parts of a query, from a position. A key that is there already is replaced. -/
def insertParts : Nat → List Text → Params → Except Error Params
  | _, [], params => .ok params
  | pos, part :: parts, params =>
    match KeyValue.splitOnce '=' part with
    | some (key, value) =>
      insertParts (pos + len part + 1) parts
        (Function.update params key (some { value, position := pos + len key + 1 }))
    | none => .error (.parse pos (.unexpectedStr part [['=']]))

def readParams (query : Text) : Except Error Params :=
  if query = [] ∨ query = ['?'] then .ok fun _ => none
  else
    insertParts (if query.head? = some '?' then 1 else 0)
      ((query.dropWhile (· = '?')).splitOn '&') fun _ => none

def QueryField.parseAt (f : QueryField V) (entry : QueryEntry) : Except Error V :=
  match f.parse entry.value with
  | .ok v => .ok v
  | .error e => .error (e entry.position)

/-- What the visitor of a part has of each field -/
abbrev Slots (V : Type) := Text → Option V

/-- `visit_map` of the generated visitor over the entries of `MapDeserializer`, which go through the
fields that are declared -/
def visitMap (params : Params) : List (QueryField V) → Slots V → Except Error (Slots V)
  | [], slots => .ok slots
  | f :: fields, slots =>
    match params f.key with
    -- `next_key` returns `None`, and so it does at the end
    | none => .ok slots
    | some entry =>
      if (slots f.key).isSome then .error (.message (.duplicateField f.key))
      else do
        let v ← f.parseAt entry
        visitMap params fields (Function.update slots f.key (some v))

/-- A field once the map is at its end. In a type that is not marked as required every field is an
`Option`. -/
def Part.slot (part : Part P V) (slots : Slots V) (f : QueryField V) : Except Error (Option V) :=
  match slots f.key with
  | some v => .ok (some v)
  | none =>
    if part.required then
      match f.ofMissing with
      | some v => .ok (some v)
      | none => .error (.message (.missingField f.key))
    else .ok none

/-- The struct of the query of a part -/
def Part.deserializeStruct (part : Part P V) (params : Params) : Except Error (List (Option V)) := do
  let slots ← visitMap params part.query fun _ => none
  part.query.mapM (part.slot slots)

def deserializeQuery (type : RouteType P V) (query : Text) :
    Except Error (List (List (Option V))) := do
  let params ← readParams query
  type.parts.mapM fun part => part.deserializeStruct params

/-! ## 4. The route -/

/-- `unwrap_or_default` of each field of the query -/
def Part.fromParts (part : Part P V) (path : P) (query : List (Option V)) : P × List V :=
  (path, List.zipWith (fun f v => v.getD f.default) part.query query)

def fromParts (type : RouteType P V) (path : List P) (query : List (List (Option V))) :
    List (P × List V) :=
  List.zipWith (fun part pq => part.fromParts pq.1 pq.2) type.parts (path.zip query)

def Error.shift (start : Nat) : Error → Error
  | .parse position error => .parse (start + position) error
  | .message text => .message text

def deRoute (type : RouteType P V) (route : Text) : Except Error (List (P × List V)) := do
  let (path, rest) ← deserializePath type route
  let query ← (deserializeQuery type rest).mapError (Error.shift (len route - len rest))
  .ok (fromParts type path query)

end Router
