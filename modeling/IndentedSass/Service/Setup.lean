import IndentedSass.Options.File
import IndentedSass.Settings

/-!
# Setting up the service

What the service reads from its settings: where to listen, how to compile, how much to remember,
and how to reach the store that it shares with other instances.
-/

namespace IndentedSass.Service
open Ascii

/-- The addresses to listen on. A host without a number behind it gets the one that is set, or
`standard`; what starts with a slash is the path of a socket. -/
def addresses (env : Settings) (names : Text) (standard : Int) : Except Fault (List Text) := do
  let hosts := env.list (names ++ "LISTEN_ADDRESS") ["localhost"]
  let number ← env.int (names ++ "PORT") standard
  return hosts.map fun host =>
    if Path.isAbs host || host.any (· == colon) then host else host ++ ":" ++ Text.ofInt number

/-- How to reach the shared store; times are in nanoseconds. -/
structure StoreSetup where
  addresses : List Text
  username : Text
  password : Text
  maxRetries : Int
  poolSize : Int
  database : Int
  dialTimeout : Int
  readTimeout : Int
  writeTimeout : Int
  deriving DecidableEq, Repr

/-- The nanoseconds of a second. -/
def second : Int := 1000000000

/-- How to reach the shared store, if its hosts are given. -/
def storeSetup (env : Settings) (names : Text) : Except Fault (Option StoreSetup) := do
  match env.list (names ++ "REDIS_HOST") [] with
  | [] => return none
  | addresses =>
    let username := env.text (names ++ "REDIS_USERNAME") []
    let password := env.text (names ++ "REDIS_PASSWORD") []
    let maxRetries ← env.int (names ++ "REDIS_MAX_RETRIES_PER_REQUEST") 3
    let poolSize ← env.int (names ++ "REDIS_POOL_SIZE") 0
    let database ← env.int (names ++ "REDIS_DB") 0
    let dialTimeout ← env.duration (names ++ "REDIS_TIMEOUT_DIAL") (5 * second)
    let readTimeout ← env.duration (names ++ "REDIS_TIMEOUT_READ") second
    let writeTimeout ← env.duration (names ++ "REDIS_TIMEOUT_WRITE") second
    return some { addresses, username, password, maxRetries, poolSize, database, dialTimeout,
                  readTimeout, writeTimeout }

/-- All that the service reads from its settings. -/
structure Setup where
  addresses : List Text
  options : Options
  /-- How many style sheets to keep. -/
  cacheSize : Int
  /-- How long style sheets stay in the shared store, in nanoseconds. -/
  storeTime : Int
  /-- The size of the largest style sheet that is shared. -/
  storeLimit : Int
  isLive : Bool
  store : Option StoreSetup

/-- The options of a file, if one is named. -/
def setupOptions (env : Settings) (m : Machine) : Except Fault Options :=
  match env.get? "SASSD_OPTIONS_FILE" with
  | none => .ok {}
  | some path => (Options.load path m).mapError (.tagged "load SASSD_OPTIONS_FILE")

/-- Reads the settings; single options go before those of the file. -/
def setup (env : Settings) (m : Machine) : Except Fault Setup := do
  let o ← setupOptions env m
  let options := { o with
    style := env.text "SASSD_STYLE" o.style
    templateLocation := env.text "SASSD_TEMPLATE_LOCATION" o.templateLocation
    loadPaths := env.list "SASSD_LOAD_PATHS" o.loadPaths
    css3Colours := o.css3Colours || env.flag "SASSD_CSS3_COLOURS" }
  let cacheSize ← env.int "SASSD_CACHE_SIZE" 1000
  let storeTime ← env.duration "SASSD_REDIS_TTL" 0
  let storeLimit ← env.bytes "SASSD_REDIS_MAX_ENTRY" 1048576
  let isLive := env.flag "SASSD_LIVE_RELOAD"
  let addresses ← addresses env "SASSD_" 3090
  let store ← storeSetup env "SASSD_"
  return { addresses, options, cacheSize, storeTime, storeLimit, isLive, store }

end IndentedSass.Service
