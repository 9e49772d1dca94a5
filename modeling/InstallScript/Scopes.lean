import InstallScript.Value

/-!
The variables of a run: the global ones and, on top of them, one frame for each open block. A name
is looked up from the innermost frame outwards.
-/

namespace InstallScript

/-- Values by name, in the order in which the names were first bound. -/
abbrev Bindings := List (String × Value)

/-- Binds a name anew; a name that is bound keeps its place. -/
def Bindings.set : Bindings → String → Value → Bindings
  | [], name, value => [(name, value)]
  | (key, old) :: rest, name, value =>
    if key = name then (key, value) :: rest else (key, old) :: Bindings.set rest name value

@[simp] theorem Bindings.lookup_set_self (b : Bindings) (name : String) (value : Value) :
    (b.set name value).lookup name = some value := by
  induction b with
  | nil => rw [Bindings.set, List.lookup_cons_self]
  | cons entry rest ih =>
    obtain ⟨key, old⟩ := entry
    rw [Bindings.set]
    split
    · rename_i h
      rw [h, List.lookup_cons_self]
    · rename_i h
      rw [List.lookup_cons, beq_false_of_ne (Ne.symm h)]
      exact ih

theorem Bindings.lookup_set_of_ne (b : Bindings) {name other : String} (value : Value)
    (h : other ≠ name) : (b.set name value).lookup other = b.lookup other := by
  induction b with
  | nil => rw [Bindings.set, List.lookup_cons, beq_false_of_ne h]
  | cons entry rest ih =>
    obtain ⟨key, old⟩ := entry
    rw [Bindings.set]
    split
    · rename_i hk
      rw [hk, List.lookup_cons, List.lookup_cons, beq_false_of_ne h]
    · rw [List.lookup_cons, List.lookup_cons, ih]

/-- The variables of an open block. -/
structure Frame where
  name : String
  bindings : Bindings := []
  deriving DecidableEq, Repr

/-- Whether a frame binds a key. -/
def Frame.binds (f : Frame) (key : String) : Bool := (f.bindings.lookup key).isSome

/-- The variables of a run. The innermost frame comes first. -/
structure Scopes where
  caseSensitive : Bool := false
  globals : Bindings := []
  frames : List Frame := []
  deriving DecidableEq, Repr

namespace Scopes

/-- The form in which a name is kept. -/
def key (s : Scopes) (name : String) : String :=
  if s.caseSensitive then name else Text.fold name

/-- The value of a key in the nearest frame that binds it, or among the globals. -/
def lookupKey (globals : Bindings) : List Frame → String → Option Value
  | [], key => globals.lookup key
  | f :: rest, key =>
    match f.bindings.lookup key with
    | some value => some value
    | none => lookupKey globals rest key

/-- The value of a name. -/
def get? (s : Scopes) (name : String) : Option Value :=
  lookupKey s.globals s.frames (s.key name)

/-- Binds a name in the innermost frame. -/
def bind (s : Scopes) (name : String) (value : Value) : Scopes :=
  match s.frames with
  | [] => { s with globals := s.globals.set (s.key name) value }
  | f :: rest => { s with frames := { f with bindings := f.bindings.set (s.key name) value } :: rest }

/-- Changes a key in the nearest frame that binds it; nothing results if no frame does. -/
def updateFrames? (key : String) (value : Value) : List Frame → Option (List Frame)
  | [] => none
  | f :: rest =>
    if f.binds key then some ({ f with bindings := f.bindings.set key value } :: rest)
    else (updateFrames? key value rest).map (f :: ·)

/-- Changes the nearest binding of a name; nothing results if there is none. -/
def update? (s : Scopes) (name : String) (value : Value) : Option Scopes :=
  match updateFrames? (s.key name) value s.frames with
  | some frames => some { s with frames := frames }
  | none =>
    if (s.globals.lookup (s.key name)).isSome then
      some { s with globals := s.globals.set (s.key name) value }
    else none

/-- Opens a block. -/
def push (s : Scopes) (name : String) : Scopes :=
  { s with frames := { name } :: s.frames }

/-- Closes the innermost block. -/
def pop (s : Scopes) : Scopes :=
  { s with frames := s.frames.tail }

/-- The number of open blocks. -/
def depth (s : Scopes) : Nat := s.frames.length

/-- Closing a block gives back what was there before it was opened. -/
@[simp] theorem pop_push (s : Scopes) (name : String) : (s.push name).pop = s := rfl

@[simp] theorem depth_push (s : Scopes) (name : String) : (s.push name).depth = s.depth + 1 := rfl

@[simp] theorem depth_pop (s : Scopes) : s.pop.depth = s.depth - 1 := List.length_tail

/-- A new block hides nothing. -/
@[simp] theorem get?_push (s : Scopes) (name variableName : String) :
    (s.push name).get? variableName = s.get? variableName := rfl

@[simp] theorem key_bind (s : Scopes) (name other : String) (value : Value) :
    (s.bind name value).key other = s.key other := by
  obtain ⟨caseSensitive, globals, frames⟩ := s
  cases frames <;> rfl

/-- A bound name has the value that it was bound to. -/
@[simp] theorem get?_bind_self (s : Scopes) (name : String) (value : Value) :
    (s.bind name value).get? name = some value := by
  rw [get?, key_bind]
  obtain ⟨caseSensitive, globals, frames⟩ := s
  cases frames with
  | nil => exact Bindings.lookup_set_self globals _ value
  | cons f rest => simp only [bind, lookupKey, Bindings.lookup_set_self]

@[simp] theorem depth_bind (s : Scopes) (name : String) (value : Value) :
    (s.bind name value).depth = s.depth := by
  obtain ⟨caseSensitive, globals, frames⟩ := s
  cases frames <;> rfl

/-- The name of the innermost scope. -/
def currentName (s : Scopes) : String :=
  match s.frames with
  | [] => "global"
  | f :: _ => f.name

end Scopes

end InstallScript
