import IndentedSass.Fault
import IndentedSass.Text.Quoted

/-!
# Object storage

Style sheets are published into the buckets of an object storage, which takes objects under keys,
tells their sizes and signs links to them.
-/

namespace IndentedSass.Tool

/-- An object in a bucket. -/
structure Object where
  text : Text
  size : Nat
  contentType : Text
  deriving DecidableEq, Repr

/-- A storage with a state of its own. -/
structure Storage (σ : Type) where
  send : (bucket key : Text) → Object → σ → Except Fault Unit × σ
  size : (bucket key : Text) → σ → Except Fault Int
  link : (bucket key : Text) → σ → Except Fault Text

/-! ## In memory -/

/-- What goes wrong with a key of a storage in memory. -/
inductive Mishap where
  | send
  | stat
  | short
  | sign
  deriving DecidableEq, Repr

/-- A storage in memory: its objects by bucket and key, and what goes wrong with some keys. -/
structure Shelf where
  objects : List (Text × Object)
  mishaps : List (Text × Mishap)

namespace Shelf

/-- The name of an object. -/
def nameOf (bucket key : Text) : Text := bucket ++ "/" ++ key

/-- Takes an object. -/
def send (bucket key : Text) (o : Object) (s : Shelf) : Except Fault Unit × Shelf :=
  if s.mishaps.lookup key = some .send then (.error (.plain "send failed"), s)
  else
    let name := nameOf bucket key
    (.ok (), { s with objects := s.objects.filter (fun entry => entry.1 != name) ++ [(name, o)] })

/-- The size of an object. -/
def size (bucket key : Text) (s : Shelf) : Except Fault Int :=
  match s.mishaps.lookup key, s.objects.lookup (nameOf bucket key) with
  | some .stat, _ | _, none => .error .notFound
  | some .short, some o => .ok ((o.size : Int) - 1)
  | _, some o => .ok o.size

/-- A link to an object. -/
def link (bucket key : Text) (s : Shelf) : Except Fault Text :=
  if s.mishaps.lookup key = some .sign then .error (.plain "sign failed")
  else .ok ("https://storage/" ++ nameOf bucket key)

/-- The storage in memory. -/
def storage : Storage Shelf := ⟨send, size, link⟩

end Shelf

/-! ## Reaching a storage -/

/-- How to reach a storage. -/
structure StorageSetup where
  provider : Text
  endpoint : Text
  isSecure : Bool

/-- A byte that can stand in the name of a host. -/
def isHostByte (c : UInt8) : Bool :=
  let others : Text := "-_.~!$&'()*+,;=:[]<>\"%"
  Ascii.isWord c || 0x80 ≤ c || others.any (· == c)

/-- Why a storage cannot be reached: only one provider is known, and its endpoint has to be the name
of a host. -/
def StorageSetup.check (s : StorageSetup) : Except Fault Unit :=
  if s.provider != ("minio" : Text) then .error (.plain ("unknown provider: " ++ s.provider))
  else
    let url := (if s.isSecure then "https://" else "http://" : Text) ++ s.endpoint
    let host : Text := s.endpoint.takeWhile fun c => c != Ascii.slash && c != Ascii.question
    let refuse (reason : Text) : Except Fault Unit :=
      .error (.tagged "create minio client" (.plain ("parse " ++ url.quoted ++ ": " ++ reason)))
    if url.any fun c => c < Ascii.space || c == 0x7f then
      refuse "net/url: invalid control character in URL"
    else
      match host.find? fun c => !isHostByte c with
      | some c => refuse ("invalid character " ++ Text.quoted [c] ++ " in host name")
      | none => .ok ()

end IndentedSass.Tool
