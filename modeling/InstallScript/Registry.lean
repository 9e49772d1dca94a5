import InstallScript.Dialect.Bundled

/-!
Registries of dialects, which are looked up by name, letter case aside.
-/

namespace InstallScript

/-- Things by name, of which no two have names that are the same letter case aside. -/
structure Registry (α : Type) where
  entries : List (String × α) := []

namespace Registry

variable {α : Type}

/-- Whether two names are the same letter case aside. -/
def sameName (a b : String) : Bool := Text.fold a = Text.fold b

/-- What is registered under a name, with the name as it was registered. -/
def get? (r : Registry α) (name : String) : Option (String × α) :=
  r.entries.find? fun entry => sameName entry.1 name

/-- Whether something is registered under a name. -/
def contains (r : Registry α) (name : String) : Bool := (r.get? name).isSome

/-- Registers something in the place of what has its name, or at the end. -/
def put (name : String) (a : α) : List (String × α) → List (String × α)
  | [] => [(name, a)]
  | entry :: rest =>
    if sameName entry.1 name then (name, a) :: rest else entry :: put name a rest

/-- Registers something. What has its name is replaced only if that is asked for; otherwise nothing
results. -/
def insert? (r : Registry α) (name : String) (a : α) (replace : Bool) : Option (Registry α) :=
  if r.contains name && !replace then none else some ⟨put name a r.entries⟩

/-- What is registered, in the order of the names. -/
def sorted (r : Registry α) : List (String × α) :=
  r.entries.mergeSort fun a b => a.1 ≤ b.1

/-- The names in order. -/
def names (r : Registry α) : List String := r.sorted.map (·.1)

/-- The message that nothing is registered under a name. -/
def unknownMessage (r : Registry α) (name : String) : String :=
  let known := ", ".intercalate r.names
  s!"unknown dialect '{name}' (known: {known})"

/-- The message that a name is taken. -/
def takenMessage (name : String) : String := s!"dialect '{name}' is already registered"

end Registry

/-- The dialects that come with the library. -/
def bundledRegistry : Registry Dialect :=
  ⟨Dialect.bundled.map fun d => (d.name, d)⟩

end InstallScript
