import InstallScript.Datum.Order
import InstallScript.Log

/-!
Settings of the engine and the command line, read from plain data. Every setting has a default, and
data may override any of them.
-/

namespace InstallScript

/-- The settings. -/
structure Config where
  /-- How often a loop may run its body. -/
  maxLoopIterations : Nat := 10000
  defaultDialect : String := "stateofdecay"
  /-- The least level of log records that are shown. -/
  logLevel : LogLevel := .warning
  deriving DecidableEq, Repr

/-- What is wrong with the data of settings. Values are held as messages show them. -/
inductive ConfigFault
  | rootKind (kind : String)
  | unknownKeys (keys : List String)
  | maxLoopIterations (shown : String)
  | defaultDialect
  | logLevel (shown : String)
  deriving DecidableEq, Repr

/-- The wording of a fault. -/
def ConfigFault.message : ConfigFault → String
  | rootKind kind => s!"configuration must be a mapping, got {kind}"
  | unknownKeys keys =>
    let list := ", ".intercalate keys
    s!"unknown configuration key(s): {list}"
  | maxLoopIterations shown => s!"max_loop_iterations must be a positive integer, got {shown}"
  | defaultDialect => "default_dialect must be a non-empty string"
  | logLevel shown =>
    let names := ", ".intercalate (LogLevel.all.map (·.name))
    s!"log_level must be one of {names}, got {shown}"

/-- Why data gives no settings. Besides a fault, there can be keys that are no texts. -/
inductive ConfigError
  | fault (fault : ConfigFault)
  | keys (fault : KeyFault)
  deriving DecidableEq, Repr

/-- The wording of an error in settings that come from the given source. -/
def ConfigError.message (source : String) : ConfigError → String
  | fault f => s!"{source}: {f.message}"
  | keys f => f.message

namespace Config

/-- The names of the settings. -/
def keys : List String := ["max_loop_iterations", "default_dialect", "log_level"]

/-- The capital form of a text as far as names of log levels go: of all characters whose capital
form is one of their letters, only the dotless i is outside ASCII. -/
def upperForLevel (s : String) : String :=
  String.ofList (s.toList.map fun c => if c = 'ı' then 'I' else c.toUpper)

/-- The limit of loops that a datum gives. -/
def limitOf : Datum → Except ConfigFault Nat
  | .number (.int n) =>
    if 1 ≤ n then .ok n.toNat else .error (.maxLoopIterations (toString n))
  | other => .error (.maxLoopIterations other.shown)

/-- The name of a dialect that a datum gives. -/
def dialectOf : Datum → Except ConfigFault String
  | .text s => if s = "" then .error .defaultDialect else .ok s
  | _ => .error .defaultDialect

/-- The level that a datum gives. -/
def levelOf (d : Datum) : Except ConfigFault LogLevel :=
  match LogLevel.ofName? (upperForLevel d.plain) with
  | some level => .ok level
  | none => .error (.logLevel d.shown)

/-- The value that a setting has: what the data give for it, or else the default. -/
def override {α : Type} (entries : List (Datum × Datum)) (key : String)
    (read : Datum → Except ConfigFault α) (default : α) : Except ConfigFault α :=
  match Datum.entry? entries key with
  | some given => read given
  | none => .ok default

/-- The text that a key is. -/
def textKey? : Datum → Option String
  | .text s => some s
  | _ => none

/-- Whether a key is the name of a setting. -/
def isSetting (key : Datum) : Bool := (textKey? key).any keys.contains

/-- What is wrong with keys that name no setting, of which there is at least one. Texts are listed in
order; as soon as one key is no text, all that is told is the kind of the least one, or that there is
no order. -/
def strangeKeys (first : Datum) (rest : List Datum) : ConfigError :=
  match (first :: rest).mapM textKey? with
  | some names => .fault (.unknownKeys (names.eraseDups.mergeSort (· ≤ ·)))
  | none =>
    match Datum.leastKey first rest with
    | .ok least => .keys (.notText least.qualifiedKind)
    | .error f => .keys f

/-- The settings that entries give whose keys are known. -/
def ofEntries (entries : List (Datum × Datum)) : Except ConfigFault Config := do
  let defaults : Config := {}
  let limit ← override entries "max_loop_iterations" limitOf defaults.maxLoopIterations
  let dialect ← override entries "default_dialect" dialectOf defaults.defaultDialect
  let level ← override entries "log_level" levelOf defaults.logLevel
  return ⟨limit, dialect, level⟩

/-- The settings that a datum gives. -/
def ofDatum? (d : Datum) : Except ConfigError Config :=
  match d with
  | .mapping entries =>
    match (entries.map (·.1)).filter fun key => !isSetting key with
    | [] => (ofEntries entries).mapError .fault
    | first :: rest => .error (strangeKeys first rest)
  | other => .error (.fault (.rootKind other.kindName))

end Config

end InstallScript
