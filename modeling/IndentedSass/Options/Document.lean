import IndentedSass.Options
import IndentedSass.Yaml.Reader

/-!
# Options from a document

The options of a compiler written as a YAML mapping. All that does not fit is reported at once:
keys that are no options, keys given twice, and values of a wrong kind. A value that is not written
leaves an option as it is.
-/

namespace IndentedSass.Options
open Yaml

/-- A value read from a node, if the node gives one, and the messages about what does not fit. -/
structure Fit (α : Type) where
  value? : Option α
  problems : List Text

namespace Fit

/-- A node that leaves things as they are. -/
def keep {α : Type} : Fit α := ⟨none, []⟩

/-- A node that gives a value. -/
def value {α : Type} (a : α) : Fit α := ⟨some a, []⟩

/-- A node with a problem. -/
def problem {α : Type} (message : Text) : Fit α := ⟨none, [message]⟩

/-- Another view of the value. -/
def map {α β : Type} (f : α → β) (fit : Fit α) : Fit β := ⟨fit.value?.map f, fit.problems⟩

end Fit

/-- A message about a line. -/
def onLine (line : Nat) (message : Text) : Text := "line " ++ Text.ofNat line ++ ": " ++ message

/-- The first bytes of a long value, or all of a short one, as messages show it. -/
def shownValue (s : Text) : Text :=
  if s.length > 10 then " `" ++ s.take 7 ++ "...`" else " `" ++ s ++ "`"

/-- The message for a node of the wrong kind. -/
def mismatch (type : Text) (node : Node) : Text :=
  let shown : Text := match node with
    | .scalar _ isQuoted s => (meaning isQuoted s).tag ++ shownValue s
    | .list .. => "!!seq"
    | .mapping .. => "!!map"
  onLine node.line ("cannot unmarshal " ++ shown ++ " into " ++ type)

/-- The messages for the keys that a mapping has twice. -/
def repeated : List (Node × Node) → List Text
  | [] => []
  | (key, _) :: rest =>
    let text : Text := match key with
      | .scalar _ _ s => s
      | _ => []
    ((rest.filter fun entry => key.sameKey entry.1).map fun entry =>
      onLine entry.1.line ("mapping key " ++ text.quoted ++ " already defined at line "
        ++ Text.ofNat key.line)) ++ repeated rest

/-- A node of the wrong kind; a mapping is also searched for keys that it has twice. -/
def wrong {α : Type} (type : Text) (node : Node) : Fit α :=
  match node with
  | .mapping _ entries =>
    match repeated entries with
    | [] => .problem (mismatch type node)
    | problems => ⟨none, problems⟩
  | _ => .problem (mismatch type node)

/-- A text; any scalar that is written is one. -/
def readText (type : Text) (node : Node) : Fit Text :=
  match node with
  | .scalar _ isQuoted s =>
    match meaning isQuoted s with
    | .null => .keep
    | _ => .value s
  | _ => wrong type node

/-- The words for truth values besides `true` and `false`. -/
def truthWords : List (Text × Bool) :=
  (["y", "Y", "yes", "Yes", "YES", "on", "On", "ON"].map fun s => (Text.ofString s, true)) ++
    ["n", "N", "no", "No", "NO", "off", "Off", "OFF"].map fun s => (Text.ofString s, false)

/-- A truth value. -/
def readBool (node : Node) : Fit Bool :=
  match node with
  | .scalar _ isQuoted s =>
    match meaning isQuoted s with
    | .null => .keep
    | .bool b => .value b
    | .text s =>
      match truthWords.lookup s with
      | some b => .value b
      | none => wrong "bool" node
    | _ => wrong "bool" node
  | _ => wrong "bool" node

/-- An integer; a fraction is dropped. -/
def readInt (node : Node) : Fit Int :=
  match node with
  | .scalar _ isQuoted s =>
    match meaning isQuoted s with
    | .null => .keep
    | .int n => if n < Nat.pow 2 63 then .value n else wrong "int" node
    | .float x => if x ≤ 9223372036854775807 then .value (Decimal.truncate x) else wrong "int" node
    | _ => wrong "int" node
  | _ => wrong "int" node

/-- A list of texts; items that are not written are left out. -/
def readTexts (node : Node) : Fit (List Text) :=
  match node with
  | .scalar _ isQuoted s =>
    match meaning isQuoted s with
    | .null => .value []
    | _ => wrong "[]string" node
  | .list _ items =>
    let fits := items.map (readText "string")
    ⟨some (fits.filterMap Fit.value?), fits.flatMap Fit.problems⟩
  | .mapping .. => wrong "[]string" node

/-- Lists of texts by name. -/
def readVendors (node : Node) : Fit (Bindings (List Text)) :=
  match node with
  | .scalar _ isQuoted s =>
    match meaning isQuoted s with
    | .null => .value []
    | _ => wrong "map[string][]string" node
  | .list .. => wrong "map[string][]string" node
  | .mapping _ entries =>
    match repeated entries with
    | [] =>
      let fits : List (Fit (Text × List Text)) := entries.map fun (key, value) =>
        match readText "string" key with
        | ⟨some name, problems⟩ =>
          let fit := readTexts value
          ⟨fit.value?.map fun list => (name, list), problems ++ fit.problems⟩
        | ⟨none, problems⟩ => ⟨none, problems⟩
      ⟨some (fits.filterMap Fit.value?), fits.flatMap Fit.problems⟩
    | problems => ⟨none, problems⟩

/-- Changes an option where a node gives a value. -/
def change {α : Type} (fit : Fit α) (set : α → Options) (o : Options) : Options × List Text :=
  ((fit.value?.map set).getD o, fit.problems)

/-- Takes one entry of the mapping into the options. -/
def take (o : Options) (key value : Node) : Options × List Text :=
  match readText "string" key with
  | ⟨none, problems⟩ => (o, problems)
  | ⟨some name, _⟩ =>
    if name = ("style" : Text) then
      change (readText "sass.Style" value) (fun x => { o with style := x }) o
    else if name = ("ugly" : Text) then change (readBool value) (fun x => { o with ugly := x }) o
    else if name = ("cache" : Text) then change (readBool value) (fun x => { o with cache := x }) o
    else if name = ("load_paths" : Text) then
      change (readTexts value) (fun x => { o with loadPaths := x }) o
    else if name = ("template_location" : Text) then
      change (readText "string" value) (fun x => { o with templateLocation := x }) o
    else if name = ("property_syntax" : Text) then
      change (readText "ast.PropertySyntax" value) (fun x => { o with propertySyntax := x }) o
    else if name = ("vendor_properties" : Text) then
      change (readVendors value) (fun x => { o with vendorProperties := x }) o
    else if name = ("css3_colours" : Text) then
      change (readBool value) (fun x => { o with css3Colours := x }) o
    else if name = ("line" : Text) then change (readInt value) (fun x => { o with line := x }) o
    else (o, [onLine key.line ("field " ++ name ++ " not found in type sass.Options")])

/-- The options of a document and the problems it has. -/
def ofNode (node : Node) : Options × List Text :=
  match node with
  | .scalar _ isQuoted s =>
    match meaning isQuoted s with
    | .null => ({}, [])
    | _ => ({}, [mismatch "sass.Options" node])
  | .list .. => ({}, [mismatch "sass.Options" node])
  | .mapping _ entries =>
    match repeated entries with
    | [] => entries.foldl (fun (o, problems) (key, value) =>
        let (o, more) := take o key value
        (o, problems ++ more)) ({}, [])
    | problems => ({}, problems)

/-- The options that a text writes down, or what is wrong with it. -/
def ofDocument (text : Text) : Except Text Options :=
  match Yaml.read text with
  | .error fault => .error fault.text
  | .ok none => .ok {}
  | .ok (some node) =>
    match ofNode node with
    | (o, []) => .ok o
    | (_, problems) => .error ("yaml: unmarshal errors:\n  " ++ Text.join "\n  " problems)

end IndentedSass.Options
