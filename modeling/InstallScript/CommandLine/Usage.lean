/-!
Arguments of the command line. An argument is an option if it begins with a hyphen and is not the
value of the option before it; long options may be shortened as long as they stay unambiguous, and
short ones may be written together. After two hyphens nothing is an option.
-/

namespace InstallScript.CommandLine

/-- An option: its spellings, and whether it takes a value. -/
structure OptionSpec where
  key : String
  spellings : List String
  takesValue : Bool := false
  deriving DecidableEq, Repr

/-- Why arguments cannot be followed. -/
inductive UsageStop
  /-- Help is asked for. -/
  | help
  | misuse
  deriving DecidableEq, Repr

/-- The option that asks for help. -/
def helpOption : OptionSpec := { key := "help", spellings := ["-h", "--help"] }

/-- A text that is written in one with an option, and whether an equals sign parts the two. -/
structure Attachment where
  text : String
  parted : Bool
  deriving DecidableEq, Repr

/-- What an argument is on its own. -/
inductive ArgumentKind
  | value (text : String)
  /-- A spelling of an option and what is written in one with it. -/
  | option (spec : OptionSpec) (spelling : String) (attached : Option Attachment)
  | unknownOption
  /-- Several options could be meant. -/
  | ambiguous
  /-- Two hyphens. -/
  | divider
  deriving DecidableEq, Repr

/-- The option with a spelling. -/
def findOption? (specs : List OptionSpec) (spelling : String) : Option OptionSpec :=
  specs.find? fun spec => spec.spellings.contains spelling

/-- The text before the first equals sign, and the text after it if there is one. -/
def splitEquals (s : String) : String × Option Attachment :=
  let cs := s.toList
  match cs.dropWhile (· ≠ '=') with
  | [] => (s, none)
  | _ :: text => (String.ofList (cs.takeWhile (· ≠ '=')), some ⟨String.ofList text, true⟩)

/-- The options that a shortened or joined spelling may mean. -/
def candidates (specs : List OptionSpec) (s : String) :
    List (OptionSpec × String × Option Attachment) :=
  match s.toList with
  | '-' :: '-' :: _ =>
    let (stem, attached) := splitEquals s
    specs.flatMap fun spec =>
      (spec.spellings.filter fun spelling => stem.toList.isPrefixOf spelling.toList).map
        fun spelling => (spec, spelling, attached)
  | '-' :: c :: rest =>
    let short := String.ofList ['-', c]
    specs.flatMap fun spec => spec.spellings.filterMap fun spelling =>
      if spelling = short then some (spec, spelling, some ⟨String.ofList rest, false⟩)
      else if s.toList.isPrefixOf spelling.toList then some (spec, spelling, none)
      else none
  | _ => []

/-- A negative number such as `-1` or `-.5`. -/
def isNegativeNumber (s : String) : Bool :=
  match s.toList with
  | '-' :: rest =>
    match rest.dropWhile Char.isDigit with
    | [] => !rest.isEmpty
    | '.' :: digits => !digits.isEmpty && digits.all Char.isDigit
    | _ => false
  | _ => false

/-- What an argument is on its own. -/
def classify (specs : List OptionSpec) (s : String) : ArgumentKind :=
  match s.toList with
  | '-' :: _ :: _ =>
    match findOption? specs s with
    | some spec => .option spec s none
    | none =>
      let (stem, attached) := splitEquals s
      match attached, findOption? specs stem with
      | some text, some spec => .option spec stem (some text)
      | _, _ =>
        match candidates specs s with
        | [(spec, spelling, attached)] => .option spec spelling attached
        | _ :: _ :: _ => .ambiguous
        | [] =>
          if isNegativeNumber s || s.toList.contains ' ' then .value s else .unknownOption
  | _ => .value s

/-- What arguments are, one after another. After a divider all are values. -/
def classifyAll (specs : List OptionSpec) : List String → List ArgumentKind
  | [] => []
  | s :: rest =>
    if s = "--" then .divider :: rest.map .value
    else classify specs s :: classifyAll specs rest

/-- Whether an argument in front of a divider is ambiguous, which rules out all of them. -/
def hasAmbiguity (specs : List OptionSpec) (args : List String) : Bool :=
  (classifyAll specs args).contains .ambiguous

/-- The options and the values that have been found. -/
structure Parsed where
  options : List (String × String) := []
  values : List String := []
  /-- Something was given that has no place. -/
  surplus : Bool := false
  deriving DecidableEq, Repr

namespace Parsed

/-- The value that an option was last given. -/
def option? (p : Parsed) (key : String) : Option String :=
  p.options.reverse.lookup key

/-- Whether an option was given. -/
def hasOption (p : Parsed) (key : String) : Bool := (p.option? key).isSome

/-- Takes in an option. -/
def withOption (p : Parsed) (key value : String) : Parsed :=
  { p with options := p.options ++ [(key, value)] }

/-- Takes in a value; there is a place for one. -/
def withValue (p : Parsed) (value : String) : Parsed :=
  if p.values.isEmpty then { p with values := [value] } else { p with surplus := true }

end Parsed

/-- The options that one argument holds: those without values, and the last one with the text that is
its value. There is no last one if a letter means no option. -/
structure Chain where
  flags : List OptionSpec
  last : Option (OptionSpec × Option String)
  deriving DecidableEq, Repr

/-- Puts an option without a value in front. -/
def Chain.cons (flag : OptionSpec) (c : Chain) : Chain := { c with flags := flag :: c.flags }

/-- Options that are written together behind one hyphen: an option, whether an equals sign follows
it, and what follows then. -/
def joined (specs : List OptionSpec) (spec : OptionSpec) :
    Bool → List Char → Except UsageStop Chain
  | false, [] => .ok ⟨[], some (spec, none)⟩
  | true, [] => if spec.takesValue then .ok ⟨[], some (spec, some "")⟩ else .error .misuse
  | parted, c :: rest =>
    if spec.takesValue then .ok ⟨[], some (spec, some (String.ofList (c :: rest)))⟩
    else if parted || c = '-' then .error .misuse
    else
      match findOption? specs (String.ofList ['-', c]), rest with
      | none, _ => .ok ⟨[spec], none⟩
      | some next, '=' :: text => (joined specs next true text).map (Chain.cons spec)
      | some next, text => (joined specs next false text).map (Chain.cons spec)

/-- The options that one argument holds. No text may be attached to a long option that takes no
value. -/
def chain (specs : List OptionSpec) (spec : OptionSpec) (spelling : String) :
    Option Attachment → Except UsageStop Chain
  | none => .ok ⟨[], some (spec, none)⟩
  | some ⟨text, parted⟩ =>
    if spec.takesValue then .ok ⟨[], some (spec, some text)⟩
    else if spelling.toList.take 2 == ['-', '-'] || text = "" then .error .misuse
    else joined specs spec parted text.toList

/-- Takes in options, one after another. Asking for help ends everything. -/
def takeOptions : List (OptionSpec × String) → Parsed → Except UsageStop Parsed
  | [], p => .ok p
  | (spec, value) :: rest, p =>
    if spec = helpOption then .error .help else takeOptions rest (p.withOption spec.key value)

/-- Options without values. -/
def asFlags (specs : List OptionSpec) : List (OptionSpec × String) :=
  specs.map fun spec => (spec, "")

/-- Follows arguments one after another. A divider has its place directly before or behind the
value. -/
def follow (specs : List OptionSpec) : List ArgumentKind → Parsed → Except UsageStop Parsed
  | [], p => .ok p
  | .value s :: .divider :: rest, p =>
    if p.values.isEmpty then follow specs rest (p.withValue s) else .error .misuse
  | .value s :: rest, p => follow specs rest (p.withValue s)
  | .divider :: rest, p =>
    follow specs rest (if p.values.isEmpty && !rest.isEmpty then p else { p with surplus := true })
  | .unknownOption :: rest, p => follow specs rest { p with surplus := true }
  | .ambiguous :: _, _ => .error .misuse
  | .option spec spelling attached :: rest, p =>
    match chain specs spec spelling attached with
    | .error stop => .error stop
    | .ok ⟨flags, none⟩ =>
      match takeOptions (asFlags flags) p with
      | .error stop => .error stop
      | .ok p' => follow specs rest { p' with surplus := true }
    | .ok ⟨flags, some (last, some value)⟩ =>
      match takeOptions (asFlags flags ++ [(last, value)]) p with
      | .error stop => .error stop
      | .ok p' => follow specs rest p'
    | .ok ⟨flags, some (last, none)⟩ =>
      if last.takesValue then
        match rest with
        | .value s :: rest' =>
          match takeOptions (asFlags flags ++ [(last, s)]) p with
          | .error stop => .error stop
          | .ok p' => follow specs rest' p'
        | _ => .error .misuse
      else
        match takeOptions (asFlags (flags ++ [last])) p with
        | .error stop => .error stop
        | .ok p' => follow specs rest p'

/-- Follows arguments up to the first value, which names a command; what is behind it is left. None
of the options takes a value. -/
def followToCommand (specs : List OptionSpec) :
    List String → Parsed → Except UsageStop (Parsed × String × List String)
  | [], _ => .error .misuse
  | s :: rest, p =>
    if s = "--" then .error .misuse
    else
      match classify specs s with
      | .value name => .ok (p, name, rest)
      | .option spec spelling attached =>
        match chain specs spec spelling attached with
        | .error stop => .error stop
        | .ok ⟨flags, last⟩ =>
          let known := flags ++ (last.map (·.1)).toList
          match takeOptions (asFlags known) p with
          | .error stop => .error stop
          | .ok p' => followToCommand specs rest { p' with surplus := p'.surplus || last.isNone }
      | .unknownOption => followToCommand specs rest { p with surplus := true }
      | _ => .error .misuse

end InstallScript.CommandLine
