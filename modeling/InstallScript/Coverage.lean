import InstallScript.Catalog

/-!
Whether a host has a handler for each function of a catalog, and none besides.
-/

namespace InstallScript

/-- How the handlers of a host differ from a catalog. -/
structure Coverage where
  /-- Functions without a handler. -/
  missing : List String
  /-- Handlers without a function. -/
  extra : List String
  deriving DecidableEq, Repr

namespace Coverage

/-- Compares handlers with a catalog; letter case does not count. -/
def of (catalog : Catalog) (handlers : List String) : Coverage where
  missing := (catalog.names.filter fun name =>
    !(handlers.map Text.fold).contains (Text.fold name)).mergeSort (· ≤ ·)
  extra := (handlers.eraseDups.filter fun name => !catalog.contains name).mergeSort (· ≤ ·)

/-- Whether there is no difference. -/
def isExact (c : Coverage) : Bool := c.missing.isEmpty && c.extra.isEmpty

/-- The wording of a difference. -/
def message (c : Coverage) (host : String) : String :=
  let missing := ", ".intercalate c.missing
  let extra := ", ".intercalate c.extra
  let problems :=
    (if c.missing.isEmpty then [] else [s!"no handler for {missing}"]) ++
    (if c.extra.isEmpty then [] else [s!"handlers not in catalog: {extra}"])
  host ++ ": " ++ "; ".intercalate problems

end Coverage

end InstallScript
