import IndentedSass.Fault
import IndentedSass.Path
import IndentedSass.Text.Quoted
import IndentedSass.Service.Sheet

/-!
# The pages of the service

How the service answers requests: whether it is alive, style sheets by name, and the place where
clients listen for changes. A path that is not clean is sent on to its clean form.
-/

namespace IndentedSass.Service.Http
open Ascii

/-- A request. -/
structure Request where
  method : Text
  url : Text

/-- An answer; headers by name. -/
structure Response where
  code : Nat
  headers : List (Text × Text)
  body : Text
  deriving DecidableEq, Repr

/-! ## Addresses -/

/-- The bytes that percent escapes stand for; `spaces` says that a plus is a space. Nothing when an
escape is malformed. `skip` bytes of an escape are still to pass. -/
def decodeFrom? (spaces : Bool) : (skip : Nat) → Text → Option Text
  | _, [] => some []
  | skip + 1, _ :: s => decodeFrom? spaces skip s
  | 0, c :: s =>
    if c == percent then
      match s with
      | high :: low :: _ => do
        let byte := (← hexValue? high) * 16 + (← hexValue? low)
        return byte.toUInt8 :: (← decodeFrom? spaces 2 s)
      | _ => none
    else (decodeFrom? spaces 0 s).map ((if spaces && c == plus then space else c) :: ·)

/-- The bytes that percent escapes stand for. -/
def decode? (spaces : Bool) (s : Text) : Option Text := decodeFrom? spaces 0 s

/-- A byte that stands for itself in the path of an address. -/
def isPathByte (c : UInt8) : Bool :=
  isWord c || [minus, dot, tilde, dollar, ampersand, plus, comma, slash, colon, semicolon, equal,
    atSign].contains c

/-- A path with percent escapes. -/
def encodePath (s : Text) : Text := s.flatMap fun c =>
  if isPathByte c then [c]
  else
    let digit (d : Nat) : UInt8 := if d < 10 then (0x30 + d).toUInt8 else (0x37 + d).toUInt8
    [percent, digit (c.toNat / 16), digit (c.toNat % 16)]

/-- An address: its path without escapes, and its query with them. A question mark at the very end
of the address makes an empty query that is written all the same. -/
structure Target where
  path : Text
  query : Text
  hasQuery : Bool

/-- Reads an address. -/
def Target.ofUrl (url : Text) : Target :=
  match Text.cut? "?" url with
  | none => ⟨(decode? false url).getD url, [], false⟩
  | some (path, query) =>
    ⟨(decode? false path).getD path, query, !query.isEmpty || path.length + 1 = url.length⟩

/-- The address with another path. -/
def Target.withPath (t : Target) (path : Text) : Text :=
  encodePath path ++ (if t.hasQuery then "?" ++ t.query else ([] : Text))

/-- The first value of a name in the query; pairs that are malformed do not count. -/
def Target.query? (t : Target) (name : Text) : Option Text :=
  (t.query.splitOn ampersand).findSome? fun pair =>
    if pair.isEmpty || pair.any (· == semicolon) then none
    else
      let (key, value) : Text × Text := (Text.cut? "=" pair).getD (pair, [])
      match decode? true key, decode? true value with
      | some key, some value => if key = name then some value else none
      | _, _ => none

/-- The clean form of a path; a slash at the end stays. -/
def cleanPath (path : Text) : Text :=
  let path := if Path.isAbs path then path else slash :: path
  let clean := Path.clean path
  if path.getLast? == some slash && clean != ("/" : Text) then clean ++ "/" else clean

/-! ## Answers -/

/-- A message as an answer. -/
def plain (code : Nat) (body : Text) : Response :=
  ⟨code, [("Content-Type", "text/plain; charset=utf-8")], body⟩

/-- The answer for a path that is not served. -/
def notFound : Response := plain 404 "404 page not found\n"

/-- The answer to a method that a path does not take. -/
def wrongMethod : Response := ⟨405, [], []⟩

/-- The answer for a fault: a located fault of the language is shown, and so is what is wrong with
the request. -/
def ofFault (fault : Fault) : Response :=
  if (fault.pos?.map fun pos => !pos.isNone).getD false then
    plain 422 (fault.publicText "cannot compile stylesheet")
  else if fault.isNotFound then plain 404 "stylesheet not found"
  else if fault.isInvalid then plain 400 fault.text
  else plain 500 "internal server error"

/-- The answer with a style sheet; a request for the headers gets no body. -/
def ofSheet (method : Text) (s : Sheet) : Response :=
  let style : List (Text × Text) := if s.style.isEmpty then [] else [("X-Sass-Style", s.style)]
  let headers : List (Text × Text) :=
    [("Content-Type", "text/css; charset=utf-8"),
      ("Content-Length", Text.ofNat s.css.length), ("Cache-Control", "no-cache")]
  ⟨200, headers ++ style, if method = ("HEAD" : Text) then [] else s.css⟩

/-! ## Routes -/

/-- The name of the style sheet that a path asks for. -/
def sheetName? (path : Text) : Option Text := do
  let rest ← Text.after? "/css/" path
  let name := Text.dropEnd ".css" rest
  if name.length = rest.length || name.isEmpty || name.any (· == newline) then none
  else return name

/-- Answers a request. `get` serves style sheets by name and style, and `isLive` says whether
clients may listen. -/
def respond {σ : Type} (get : Text → Text → σ → Except Fault Sheet × σ) (isLive : Bool)
    (r : Request) (state : σ) : Response × σ :=
  let t := Target.ofUrl r.url
  let clean := cleanPath t.path
  let isGet := r.method = ("GET" : Text)
  if clean != t.path then (⟨301, [("Location", t.withPath clean)], []⟩, state)
  else if t.path = ("/status" : Text) then (⟨200, [], "sassd is alive\n"⟩, state)
  else if isLive && t.path = ("/live" : Text) then
    (if isGet then plain 400 "Bad Request\n" else wrongMethod, state)
  else
    match sheetName? t.path with
    | none => (notFound, state)
    | some name =>
      if isGet || r.method = ("HEAD" : Text) then
        match get name ((t.query? "style").getD []) state with
        | (.ok s, state) => (ofSheet r.method s, state)
        | (.error fault, state) => (ofFault fault, state)
      else (wrongMethod, state)

end IndentedSass.Service.Http
