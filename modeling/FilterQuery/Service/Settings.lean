import FilterQuery.Condition.Parse
import FilterQuery.Naming
import FilterQuery.Query.Compile

set_option autoImplicit false

/-! # Settings of the service

Settings come from named variables of the surroundings. One that is not set has a default; one that
is set and cannot be read is an error, of which the first counts. -/

namespace FilterQuery

open FilterQuery.Text

structure Settings where
  host : String
  port : Nat
  logLevel : String
  schemaPath : String
  naming : Naming
  /-- The zones that filters may name. -/
  zones : Zone.Database
  zone : Zone
  limits : Limits
  maxHavingDepth : Nat

structure SettingsError where
  name : String
  expected : String
  value : String
  deriving DecidableEq, Repr

def SettingsError.message (e : SettingsError) : String :=
  s!"{e.name} must be {e.expected}, got '{e.value}'"

namespace Settings

/-- The value of a variable, if it is set. -/
abbrev Lookup := String → Option String

/-- The value of a variable; blanks around it do not count. -/
def read {α : Type} (lookup : Lookup) (name : String) (fallback : α) (expected : String)
    (reader : String → Option α) : Except SettingsError α :=
  match lookup name with
  | none => .ok fallback
  | some value =>
    match reader (trimmed value) with
    | some a => .ok a
    | none => .error ⟨name, expected, value⟩

/-- A port is a number of 16 bits. -/
def readPort (text : String) : Option Nat := readUnsigned UInt16.size text.toList

/-- A count is a number of 64 bits. -/
def readCount (text : String) : Option Nat := readUnsigned UInt64.size text.toList

def readNaming (text : String) : Option Naming := (Naming.parse text).toOption

/-- The settings that a lookup of the variables gives. -/
def ofLookup (lookup : Lookup) (zones : Zone.Database := Zone.known) :
    Except SettingsError Settings := do
  let limits : Limits := {}
  let options : CompileOptions := {}
  let port ← read lookup "PORT" 3030 "a valid port" readPort
  let naming ← read lookup "FIELD_NAMING" .snakeToCamel "'identity' or 'snake_to_camel'" readNaming
  let zone ← read lookup "DB_TIME_ZONE" options.zone "an IANA time zone" zones.find?
  let maxLength ← read lookup "MAX_FILTER_LENGTH" limits.maxLength "a byte count" readCount
  let maxDepth ← read lookup "MAX_FILTER_DEPTH" limits.maxDepth "a depth" readCount
  let maxHavingDepth ←
    read lookup "MAX_HAVING_DEPTH" options.maxHavingDepth "a depth" readCount
  return {
    host := (lookup "HOST").getD "0.0.0.0"
    port := port
    logLevel := (lookup "LOG_LEVEL").getD "info"
    schemaPath := (lookup "SCHEMA_PATH").getD "schema/company.json"
    naming := naming
    zones := zones
    zone := zone
    limits := ⟨maxLength, maxDepth⟩
    maxHavingDepth := maxHavingDepth }

/-- Where the service listens. -/
def address (s : Settings) : String := s!"{s.host}:{s.port}"

def compileOptions (s : Settings) : CompileOptions := ⟨s.zone, s.maxHavingDepth⟩

end Settings

end FilterQuery
