import InstallScript.Yaml.Node
import InstallScript.Yaml.Token

/-!
Reading YAML texts. The tokens of a text become the root node of its only document
(`Document.ofTokens`), and the root becomes data (`read`); a text without a document holds nothing.

Each function that reads a part takes fuel, which the number of tokens bounds.
-/

namespace InstallScript.Yaml

/-- What is left to read of a document, and what has been declared before. -/
structure Document where
  tokens : List Token
  /-- What the handles of tags stand for. -/
  handles : List (String × String) := []
  /-- The nodes that have names. A node that is not complete has a name already. -/
  anchors : List (String × Option Node) := []

namespace Document

/-- What reads a part of a document. -/
abbrev Part := StateT Document Reading

/-- Gives up. -/
def refuse {α : Type} : Part α := throw .illFormed

/-- The next token. -/
def peek : Part Token := do
  match (← get).tokens with
  | .fault f :: _ => throw f
  | t :: _ => return t
  | [] => refuse

/-- Goes on behind the next token. -/
def pass : Part Unit :=
  modify fun d => { d with tokens := d.tokens.drop 1 }

/-! ## Directives -/

/-- The handles of tags that are always there. -/
def standardHandles : List (String × String) := [("!", "!"), ("!!", Scalar.standardStem)]

/-- The directives in front of a document; whether one of them has told the version is given. -/
def passDirectives : Nat → Bool → Part Unit
  | 0, _ => refuse
  | fuel + 1, versioned => do
    match ← peek with
    | .version major =>
      if versioned || major ≠ 1 then refuse
      else
        pass
        passDirectives fuel true
    | .tagHandle handle stem =>
      if ((← get).handles.lookup handle).isSome then refuse
      else
        pass
        modify fun d => { d with handles := (handle, stem) :: d.handles }
        passDirectives fuel versioned
    | .otherDirective =>
      pass
      passDirectives fuel versioned
    | _ => modify fun d => { d with handles := d.handles ++ standardHandles }

/-! ## Anchors and tags -/

/-- A tag with what its handle stands for. -/
def fullTag (handle : Option String) (suffix : String) : Part String := do
  match handle with
  | none => return suffix
  | some handle =>
    match (← get).handles.lookup handle with
    | some stem => return stem ++ suffix
    | none => refuse

/-- The anchor and the tag that are next, in either order. -/
def properties : Part (Option String × Option String) := do
  match ← peek with
  | .anchor name =>
    pass
    match ← peek with
    | .tag handle suffix =>
      pass
      return (some name, some (← fullTag handle suffix))
    | _ => return (some name, none)
  | .tag handle suffix =>
    pass
    match ← peek with
    | .anchor name =>
      pass
      return (some name, some (← fullTag handle suffix))
    | _ => return (none, some (← fullTag handle suffix))
  | _ => return (none, none)

/-- Gives a name to a node that is to come. Each name is given once. -/
def declare (name : Option String) : Part Unit := do
  if let some name := name then
    if ((← get).anchors.lookup name).isSome then refuse
    else modify fun d => { d with anchors := (name, none) :: d.anchors }

/-- Completes a node that may have a name. -/
def complete (name : Option String) (node : Node) : Part Node := do
  if let some name := name then
    modify fun d => { d with anchors := (name, some node) :: d.anchors }
  return node

/-- The node that has a name. -/
def named (name : String) : Part Node := do
  match (← get).anchors.lookup name with
  | some (some node) => return node
  | _ => refuse

/-- The tag that leaves the meaning of a node to its form. -/
def openTag : String := "!"

/-- What a scalar with a tag or without stands for. -/
def scalarOf (tag : Option String) (text : String) (isPlain : Bool) : Scalar :=
  match tag with
  | none => if isPlain then .ofPlain text else .datum (.text text)
  | some tag => if tag = openTag then .ofPlain text else .ofTagged tag text

/-- Whether a collection with a tag or without is of the given kind. -/
def isTyped (kind : String) (tag : Option String) : Bool :=
  tag.all fun tag => tag = openTag || tag = Scalar.standardStem ++ kind

/-! ## Nodes -/

/-- Where a node stands. -/
inductive Place
  | flow
  | block
  /-- The value of a key in a block, where a list needs no indentation. -/
  | blockValue
  deriving DecidableEq

mutual

/-- A node. -/
def node (place : Place) : Nat → Part Node
  | 0 => refuse
  | fuel + 1 => do
    match ← peek with
    | .alias name =>
      pass
      named name
    | _ =>
      let (name, tag) ← properties
      let next ← peek
      match next with
      | .scalar text isPlain =>
        pass
        declare name
        complete name (.scalar (scalarOf tag text isPlain))
      | .flowListStart =>
        pass
        declare name
        complete name (.list (isTyped "seq" tag) (← flowItems true [] fuel))
      | .flowMappingStart =>
        pass
        declare name
        complete name (.ofEntries (isTyped "map" tag) (← flowEntries true [] fuel))
      | _ =>
        if next = .item && place = .blockValue then
          declare name
          complete name (.list (isTyped "seq" tag) (← looseItems [] fuel))
        else if next = .blockListStart && place ≠ .flow then
          pass
          declare name
          complete name (.list (isTyped "seq" tag) (← blockItems [] fuel))
        else if next = .blockMappingStart && place ≠ .flow then
          pass
          declare name
          complete name (.ofEntries (isTyped "map" tag) (← blockEntries [] fuel))
        else if name.isNone && tag.isNone then refuse
        else
          declare name
          complete name (.scalar (scalarOf tag "" true))
termination_by structural fuel => fuel

/-- A node, or the empty one if one of the given tokens is next. -/
def nodeUnless (stops : List Token) (place : Place) : Nat → Part Node
  | 0 => refuse
  | fuel + 1 => do
    if stops.contains (← peek) then return Node.empty
    else node place fuel
termination_by structural fuel => fuel

/-- The rest of a block list, after the items already read, last one first. -/
def blockItems (items : List Node) : Nat → Part (List Node)
  | 0 => refuse
  | fuel + 1 => do
    match ← peek with
    | .item =>
      pass
      let item ← nodeUnless [.item, .blockEnd] .block fuel
      blockItems (item :: items) fuel
    | .blockEnd =>
      pass
      return items.reverse
    | _ => refuse
termination_by structural fuel => fuel

/-- The rest of a list that stands in the column of the mapping around it. -/
def looseItems (items : List Node) : Nat → Part (List Node)
  | 0 => refuse
  | fuel + 1 => do
    match ← peek with
    | .item =>
      pass
      let item ← nodeUnless [.item, .key, .value, .blockEnd] .block fuel
      looseItems (item :: items) fuel
    | _ => return items.reverse
termination_by structural fuel => fuel

/-- The rest of a block mapping. -/
def blockEntries (entries : List (Node × Node)) : Nat → Part (List (Node × Node))
  | 0 => refuse
  | fuel + 1 => do
    match ← peek with
    | .key =>
      pass
      let key ← nodeUnless [.key, .value, .blockEnd] .blockValue fuel
      let value ← valueUnless [.key, .value, .blockEnd] .blockValue fuel
      blockEntries ((key, value) :: entries) fuel
    | .blockEnd =>
      pass
      return entries.reverse
    | _ => refuse
termination_by structural fuel => fuel

/-- The value of a key, which is empty without its mark, or if one of the given tokens is next. -/
def valueUnless (stops : List Token) (place : Place) : Nat → Part Node
  | 0 => refuse
  | fuel + 1 => do
    if (← peek) = .value then
      pass
      nodeUnless stops place fuel
    else return Node.empty
termination_by structural fuel => fuel

/-- The rest of a list in brackets. An entry of a mapping may be an item. -/
def flowItems (first : Bool) (items : List Node) : Nat → Part (List Node)
  | 0 => refuse
  | fuel + 1 => do
    if (← peek) = .flowListEnd then
      pass
      return items.reverse
    else
      if !first then
        if (← peek) = .comma then pass else refuse
      match ← peek with
      | .key =>
        pass
        let key ← nodeUnless [.value, .comma, .flowListEnd] .flow fuel
        let value ← valueUnless [.comma, .flowListEnd] .flow fuel
        flowItems false (.ofEntries true [(key, value)] :: items) fuel
      | .flowListEnd =>
        pass
        return items.reverse
      | _ =>
        let item ← node .flow fuel
        flowItems false (item :: items) fuel
termination_by structural fuel => fuel

/-- The rest of a mapping in braces. A key without a mark has no value. -/
def flowEntries (first : Bool) (entries : List (Node × Node)) : Nat → Part (List (Node × Node))
  | 0 => refuse
  | fuel + 1 => do
    if (← peek) = .flowMappingEnd then
      pass
      return entries.reverse
    else
      if !first then
        if (← peek) = .comma then pass else refuse
      match ← peek with
      | .key =>
        pass
        let key ← nodeUnless [.value, .comma, .flowMappingEnd] .flow fuel
        let value ← valueUnless [.comma, .flowMappingEnd] .flow fuel
        flowEntries false ((key, value) :: entries) fuel
      | .flowMappingEnd =>
        pass
        return entries.reverse
      | _ =>
        let key ← node .flow fuel
        flowEntries false ((key, Node.empty) :: entries) fuel
termination_by structural fuel => fuel

end

/-! ## Documents -/

/-- Goes on behind the marks of the end of a document. -/
def passEnds : Nat → Part Unit
  | 0 => return
  | fuel + 1 => do
    if (← peek) = .documentEnd then
      pass
      passEnds fuel

/-- Nothing more than marks of the end of a document may follow. -/
def ensureEnd (fuel : Nat) : Part Unit := do
  passEnds fuel
  if (← peek) ≠ .textEnd then
    modify fun d => { d with handles := [] }
    passDirectives fuel false
    refuse

/-- Whether a directive or the mark of the beginning of a document is next. -/
def startsExplicitly : Token → Bool
  | .version _ | .tagHandle _ _ | .otherDirective | .documentStart => true
  | _ => false

/-- The root of the only document, if there is one. A document that begins without a mark is not
empty. -/
def root (fuel : Nat) : Part (Option Node) := do
  let first ← peek
  if first = .textEnd then return none
  else if startsExplicitly first then
    passDirectives fuel false
    if (← peek) ≠ .documentStart then refuse
    else
      pass
      let next ← peek
      let found ←
        if startsExplicitly next || next = .documentEnd || next = .textEnd then pure Node.empty
        else node .block fuel
      ensureEnd fuel
      return some found
  else
    modify fun d => { d with handles := standardHandles }
    let found ← node .block fuel
    ensureEnd fuel
    return some found

/-- The root of the only document in tokens. -/
def ofTokens (tokens : List Token) : Reading (Option Node) :=
  (root (4 * tokens.length + 8) { tokens }).map (·.1)

end Document

/-- The data that a text holds; a text without a document holds nothing. -/
def read (cs : List Char) : Reading Datum :=
  if !cs.all isAllowed then .error .illFormed
  else do
    match ← Document.ofTokens (Token.ofText cs) with
    | some root => root.data
    | none => return .none

end InstallScript.Yaml
