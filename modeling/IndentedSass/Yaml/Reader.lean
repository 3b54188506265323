import IndentedSass.Yaml.Scalar

/-!
# Reading YAML

Reads the first document of a text. A document is a tree of mappings and lists, written by
indentation or between brackets, over plain and quoted scalars. Comments and blank lines may stand
between any two parts.
-/

namespace IndentedSass.Yaml
open Ascii

/-- A text that is no document: what is wrong, and the lines, counted from zero, of the part that
was being read and of the place where it failed. Places where a scalar fails are counted from
one. -/
structure Malformed where
  message : Text
  inScalar : Bool
  part : Nat
  place : Nat

/-- The message, with a line unless it is the first. -/
def Malformed.text (m : Malformed) : Text :=
  let line := if m.part = 0 then m.place else m.part
  let shown := if m.inScalar then line + 1 else line
  if line = 0 then "yaml: " ++ m.message
  else "yaml: line " ++ Text.ofNat shown ++ ": " ++ m.message

/-- A place between two parts: the rest of the text, its line and column, and whether nothing but
blanks stands before it on its line. -/
structure Cursor where
  rest : Text
  line : Nat
  column : Nat
  isFresh : Bool

namespace Cursor

/-- The cursor behind the first bytes, so that `rest` is left. -/
def leave (c : Cursor) (rest : Text) : Cursor :=
  let passed : Text := c.rest.take (c.rest.length - rest.length)
  let lines := passed.countP (· == newline)
  let column := (passed.reverse.takeWhile (· != newline)).length
  ⟨rest, c.line + lines, if lines = 0 then c.column + column else column, false⟩

/-- Passes over blanks, comments and line breaks. Tabs are blanks only where `tabs` says so, and
between brackets. -/
def skipFrom (inFlow : Bool) :
    (tabs inComment isFresh : Bool) → (line column : Nat) → Text → Cursor
  | _, _, isFresh, line, column, [] => ⟨[], line, column, isFresh⟩
  | tabs, inComment, isFresh, line, column, c :: s =>
    if c == newline then skipFrom inFlow false false true (line + 1) 0 s
    else if inComment then skipFrom inFlow tabs true isFresh line (column + 1) s
    else if c == space || (c == tab && (tabs || inFlow)) then
      skipFrom inFlow tabs false isFresh line (column + 1) s
    else if c == hashSign then skipFrom inFlow tabs true isFresh line (column + 1) s
    else ⟨c :: s, line, column, isFresh⟩

/-- The next part. -/
def next (inFlow tabs : Bool) (c : Cursor) : Cursor :=
  skipFrom inFlow tabs false c.isFresh c.line c.column c.rest

/-- The next part behind `n` bytes. -/
def past (inFlow tabs : Bool) (n : Nat) (c : Cursor) : Cursor :=
  (c.leave (c.rest.drop n)).next inFlow tabs

/-- Whether the document ends here. -/
def atEnd (c : Cursor) : Bool :=
  c.rest.isEmpty || (c.isFresh && c.column = 0 && atDocumentMark c.rest)

/-- Whether an item of a list starts here. -/
def atItem (c : Cursor) : Bool :=
  match c.rest with
  | minus :: s => atGap s
  | _ => false

/-- Whether a value follows the key that ends here. -/
def atValue (inFlow : Bool) (c : Cursor) : Bool :=
  match c.rest with
  | colon :: s => inFlow || atGap s
  | _ => false

end Cursor

/-- A fault in the structure. -/
def refuse {α : Type} (message : Text) (part : Nat) (c : Cursor) : Except Malformed α :=
  .error ⟨message, false, part, c.line⟩

/-- A fault in a scalar or in the place of a mark. -/
def refuseMark {α : Type} (message : Text) (c : Cursor) : Except Malformed α :=
  .error ⟨message, true, c.line, c.line⟩

/-- The message of a quoted scalar that cannot be read. -/
def QuoteFault.message : QuoteFault → Text
  | .unclosed => "found unexpected end of stream"
  | .documentMark => "found unexpected document indicator"
  | .badEscape => "found unknown escape character"
  | .badDigits => "did not find expected hexdecimal number"
  | .badCharacter => "found invalid Unicode character escape code"

/-- A scalar at the cursor, and the cursor right behind it. -/
def scalar (inFlow : Bool) (indent : Int) (c : Cursor) : Except Malformed (Node × Cursor) :=
  match c.rest with
  | [] => .ok (.missing (c.line + 1), c)
  | mark :: s =>
    if isQuote mark then
      match quoted mark s with
      | .ok (text, rest) => .ok (.scalar (c.line + 1) true text, c.leave rest)
      | .error fault => refuseMark fault.message c
    else if startsPlain inFlow c.rest then
      let (text, rest) := plain inFlow indent c.rest
      .ok (.scalar (c.line + 1) false text, c.leave rest)
    else refuseMark "found character that cannot start any token" c

/-! ## Between brackets -/

mutual

/-- A node between brackets, and the part behind it. -/
def flowNode (fuel : Nat) (c : Cursor) : Except Malformed (Node × Cursor) :=
  match fuel with
  | 0 => refuse "did not find expected node content" c.line c
  | fuel + 1 =>
    match c.rest with
    | lbracket :: _ => flowList fuel c [] (c.past true true 1)
    | lbrace :: _ => flowMapping fuel c [] (c.past true true 1)
    | [] | comma :: _ | rbracket :: _ | rbrace :: _ =>
      refuse "did not find expected node content" c.line c
    | colon :: _ => .ok (.missing (c.line + 1), c)
    | _ => do
      let (node, c) ← scalar true 0 c
      return (node, c.next true true)
termination_by (fuel, 0)

/-- The value behind a key, if there is one. -/
def flowValue (fuel : Nat) (c : Cursor) : Except Malformed (Node × Cursor) :=
  let c := c.past true true 1
  match c.rest with
  | comma :: _ | rbracket :: _ | rbrace :: _ => .ok (.missing (c.line + 1), c)
  | _ => flowNode fuel c
termination_by (fuel, 1)

/-- The items of a list up to its closing bracket. -/
def flowList (fuel : Nat) (start : Cursor) (done : List Node) (c : Cursor) :
    Except Malformed (Node × Cursor) :=
  match fuel with
  | 0 => refuse "did not find expected ',' or ']'" start.line c
  | fuel + 1 =>
    match c.rest with
    | rbracket :: _ => .ok (.list (start.line + 1) done.reverse, c.past false true 1)
    | _ => do
      let (item, c') ← flowNode fuel c
      let c' := c'.next true true
      let (item, c') ←
        if c'.atValue true then do
          let (value, c') ← flowValue fuel c'
          pure (Node.mapping (c.line + 1) [(item, value)], c')
        else pure (item, c')
      let c' := c'.next true true
      match c'.rest with
      | comma :: _ => flowList fuel start (item :: done) (c'.past true true 1)
      | rbracket :: _ => flowList fuel start (item :: done) c'
      | _ => refuse "did not find expected ',' or ']'" start.line c'
termination_by (fuel, 2)

/-- The entries of a mapping up to its closing brace. -/
def flowMapping (fuel : Nat) (start : Cursor) (done : List (Node × Node)) (c : Cursor) :
    Except Malformed (Node × Cursor) :=
  match fuel with
  | 0 => refuse "did not find expected ',' or '\x7d'" start.line c
  | fuel + 1 =>
    match c.rest with
    | rbrace :: _ => .ok (.mapping (start.line + 1) done.reverse, c.past false true 1)
    | _ => do
      let (key, c') ← flowNode fuel c
      let c' := c'.next true true
      let (value, c') ←
        if c'.atValue true then flowValue fuel c'
        else pure (Node.missing (c'.line + 1), c')
      let c' := c'.next true true
      match c'.rest with
      | comma :: _ => flowMapping fuel start ((key, value) :: done) (c'.past true true 1)
      | rbrace :: _ => flowMapping fuel start ((key, value) :: done) c'
      | _ => refuse "did not find expected ',' or '\x7d'" start.line c'
termination_by (fuel, 2)

end

/-! ## By indentation -/

/-- The key of a mapping at the cursor; behind it stands the colon. -/
def blockKey (start : Cursor) (indent : Int) (c : Cursor) : Except Malformed (Node × Cursor) := do
  if c.atValue false then return (.missing (c.line + 1), c)
  if c.atItem then refuse "did not find expected key" start.line c
  let (key, behind) ← scalar false indent c
  let behind := { behind with rest := behind.rest.dropWhile isGap }
  if behind.atValue false && behind.line = c.line then return (key, behind)
  else .error ⟨"could not find expected ':'", true, c.line, behind.line⟩

mutual

/-- A node below a part that is indented by `indent`. A list may stand at the very indentation of
the key it belongs to, if `listToo` says so; keys and items may start here if `canNest` says so.
The answer comes with the part behind the node. -/
def blockNode (fuel : Nat) (indent : Int) (listToo canNest : Bool) (c : Cursor) :
    Except Malformed (Node × Cursor) :=
  match fuel with
  | 0 => refuse "did not find expected node content" c.line c
  | fuel + 1 =>
    let column : Int := c.column
    if c.atEnd ||
        (c.isFresh && (column < indent || (column = indent && !(listToo && c.atItem)))) then
      .ok (.missing (c.line + 1), c)
    else if c.atItem then
      if canNest then blockList fuel c (decide (column = indent)) [] c
      else refuseMark "block sequence entries are not allowed in this context" c
    else
      match c.rest with
      | lbracket :: _ | lbrace :: _ => do
        let (node, c') ← flowNode fuel c
        if c'.atValue false && !c'.isFresh then
          refuseMark "mapping values are not allowed in this context" c'
        else return (node, c')
      | _ =>
        if c.atValue false then
          if canNest then blockMapping fuel c [] c
          else refuseMark "mapping values are not allowed in this context" c
        else do
          let (node, c') ← scalar false indent c
          let behind := { c' with rest := c'.rest.dropWhile isGap }
          if behind.atValue false then
            if canNest && c'.line = c.line then blockMapping fuel c [] c
            else refuseMark "mapping values are not allowed in this context" behind
          else return (node, c'.next false true)
termination_by (fuel, 0)

/-- The entries of a mapping that starts at `start`. -/
def blockMapping (fuel : Nat) (start : Cursor) (done : List (Node × Node)) (c : Cursor) :
    Except Malformed (Node × Cursor) :=
  match fuel with
  | 0 => refuse "did not find expected key" start.line c
  | fuel + 1 => do
    let (key, behind) ← blockKey start start.column c
    let c' := behind.past false true 1
    let (value, c') ← blockNode fuel start.column true c'.isFresh c'
    let done := (key, value) :: done
    if c'.atEnd || (c'.isFresh && c'.column < start.column) then
      return (.mapping (start.line + 1) done.reverse, c')
    else if c'.isFresh && c'.column = start.column then blockMapping fuel start done c'
    else refuse "did not find expected key" start.line c'
termination_by (fuel, 1)

/-- The items of a list that starts at `start`; `inKey` says that it stands at the indentation of
the key it belongs to. -/
def blockList (fuel : Nat) (start : Cursor) (inKey : Bool) (done : List Node) (c : Cursor) :
    Except Malformed (Node × Cursor) :=
  match fuel with
  | 0 => refuse "did not find expected '-' indicator" start.line c
  | fuel + 1 => do
    let c' := c.past false false 1
    let (item, c') ← blockNode fuel start.column false true c'
    let done := item :: done
    let isNext := c'.isFresh && c'.column = start.column
    if c'.atEnd || (c'.isFresh && c'.column < start.column) || (isNext && inKey && !c'.atItem) then
      return (.list (start.line + 1) done.reverse, c')
    else if isNext && c'.atItem then blockList fuel start inKey done c'
    else refuse "did not find expected '-' indicator" start.line c'
termination_by (fuel, 1)

end

/-! ## Documents -/

/-- A text with line feeds only. -/
def unified (s : Text) : Text := Text.replace "\r" "\n" (Text.replace "\r\n" "\n" s)

/-- The first document of a text; nothing if the text is empty but for comments. -/
def read (s : Text) : Except Malformed (Option Node) := do
  let s := unified s
  if s.any fun c => (c < 0x20 && c != tab && c != newline) || c == 0x7f then
    throw ⟨"control characters are not allowed", false, 0, 0⟩
  let c := Cursor.next false false ⟨s, 0, 0, true⟩
  if c.rest.isEmpty then return none
  let c := if c.column = 0 && (Text.after? "---" c.rest).isSome && atGap (c.rest.drop 3) then
      c.past false true 3
    else c
  let (node, _) ← blockNode (2 * s.length + 4) (-1) false c.isFresh c
  return some node

end IndentedSass.Yaml
