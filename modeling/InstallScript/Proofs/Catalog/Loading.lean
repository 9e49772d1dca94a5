import InstallScript.Definition
import Mathlib.Data.List.Basic

/-!
What the data of a definition guarantees of its catalog: every default has been read from some datum
(`ofDatum?_defaultsRead`), and so is of a kind that its parameter accepts (`ofDatum?_defaults`). The
check is made once, where a default is read, and every later step only passes parameters on.
-/

namespace InstallScript

/-- Every default has been read as one of its parameter's kind. -/
def FunctionSpec.DefaultsRead (f : FunctionSpec) : Prop :=
  ∀ p ∈ f.params, ∀ v, p.default = some v →
    ∃ place d, Definition.defaultOf place p.kind d = .ok v

/-- Every default is of a kind that its parameter accepts. -/
def FunctionSpec.DefaultsAccepted (f : FunctionSpec) : Prop :=
  ∀ p ∈ f.params, ∀ v, p.default = some v → p.kind.accepts v.kind = true

namespace Definition

section

variable {α β : Type}

theorem bind_eq_ok {x : Reading α} {next : α → Reading β} {b : β} :
    (x >>= next) = .ok b ↔ ∃ a, x = .ok a ∧ next a = .ok b := by
  cases x with
  | error e => exact ⟨nofun, fun ⟨_, eq, _⟩ => nomatch eq⟩
  | ok a => exact ⟨fun eq => ⟨a, rfl, eq⟩, fun ⟨_, rfl, eq⟩ => eq⟩

theorem pure_eq_ok {a b : α} : (pure a : Reading α) = .ok b ↔ a = b :=
  ⟨fun eq => Except.ok.inj eq, congrArg Except.ok⟩

/-- What holds of whatever is read from one item holds of all that is read from several. -/
theorem forall_of_mapM {read : α → Reading β} {P : β → Prop}
    (each : ∀ a b, read a = .ok b → P b) {as : List α} {bs : List β}
    (all : as.mapM read = .ok bs) : ∀ b ∈ bs, P b := by
  induction as generalizing bs with
  | nil =>
    rw [List.mapM_nil, pure_eq_ok] at all
    subst all
    exact List.forall_mem_nil _
  | cons a as ih =>
    rw [List.mapM_cons, bind_eq_ok] at all
    obtain ⟨b, first, all⟩ := all
    obtain ⟨rest, others, all⟩ := bind_eq_ok.1 all
    obtain rfl := pure_eq_ok.1 all
    exact List.forall_mem_cons.2 ⟨each a b first, ih others⟩

end

theorem defaultOf_accepts {place : String} {kind : ParamKind} {d : Datum} {v : Value}
    (read : defaultOf place kind d = .ok v) : kind.accepts v.kind = true := by
  unfold defaultOf at read
  split at read
  · split at read
    · cases read
      assumption
    · cases read
  · cases read

theorem paramOf_default {function : String} {d : Datum} {p : ParamSpec}
    (read : paramOf function d = .ok p) :
    ∀ v, p.default = some v → ∃ place d', defaultOf place p.kind d' = .ok v := by
  intro v default
  unfold paramOf at read
  split at read
  · split at read
    · cases read
    · dsimp only at read
      split at read
      · cases read
      · obtain ⟨kind, -, read⟩ := bind_eq_ok.1 read
        split at read
        · cases read
          cases default
        · obtain ⟨value, checked, read⟩ := bind_eq_ok.1 read
          cases read
          cases default
          exact ⟨_, _, checked⟩
  · cases read

theorem paramsOf_default {function : String} {d : Option Datum} {params : List ParamSpec}
    (read : paramsOf function d = .ok params) :
    ∀ p ∈ params, ∀ v, p.default = some v → ∃ place d', defaultOf place p.kind d' = .ok v := by
  unfold paramsOf at read
  split at read
  · cases read
    exact List.forall_mem_nil _
  · split at read
    · obtain ⟨items, -, read⟩ := bind_eq_ok.1 read
      exact forall_of_mapM (fun _ _ => paramOf_default) read
    · cases read
      exact List.forall_mem_nil _

theorem functionOf_defaults {name : String} {d : Datum} {f : FunctionSpec}
    (read : functionOf name d = .ok f) : f.DefaultsRead := by
  unfold functionOf at read
  split at read
  · split at read
    · cases read
    · obtain ⟨params, readParams, read⟩ := bind_eq_ok.1 read
      split at read
      · cases read
      · obtain ⟨returns, -, read⟩ := bind_eq_ok.1 read
        obtain ⟨failure, -, read⟩ := bind_eq_ok.1 read
        cases read
        exact paramsOf_default readParams
  · cases read

theorem catalogOf_defaults {entries : List (Datum × Datum)} : ∀ {catalog larger : Catalog},
    (∀ f ∈ catalog.functions, f.DefaultsRead) → catalogOf catalog entries = .ok larger →
      ∀ f ∈ larger.functions, f.DefaultsRead := by
  induction entries with
  | nil =>
    intro catalog larger sound read
    cases read
    exact sound
  | cons entry rest ih =>
    obtain ⟨name, d⟩ := entry
    intro catalog larger sound read
    rw [catalogOf] at read
    obtain ⟨f, readFunction, read⟩ := bind_eq_ok.1 read
    split at read
    · rename_i added inserted
      refine ih ?_ read
      unfold Catalog.insert? at inserted
      split at inserted
      · cases inserted
      · cases inserted
        exact List.forall_mem_append.2
          ⟨sound, List.forall_mem_singleton.2 (functionOf_defaults readFunction)⟩
    · cases read

/-- A definition that can be read has only defaults that have been read as such. -/
theorem ofDatum?_defaultsRead {d : Datum} {definition : Definition}
    (read : ofDatum? d = .ok definition) :
    ∀ f ∈ definition.catalog.functions, f.DefaultsRead := by
  unfold ofDatum? at read
  split at read
  · obtain ⟨name, -, read⟩ := bind_eq_ok.1 read
    obtain ⟨version, -, read⟩ := bind_eq_ok.1 read
    obtain ⟨functions, -, read⟩ := bind_eq_ok.1 read
    obtain ⟨grammar, -, read⟩ := bind_eq_ok.1 read
    obtain ⟨entries, -, read⟩ := bind_eq_ok.1 read
    obtain ⟨catalog, readCatalog, read⟩ := bind_eq_ok.1 read
    obtain ⟨truthiness, -, read⟩ := bind_eq_ok.1 read
    cases read
    exact catalogOf_defaults (List.forall_mem_nil _) readCatalog
  · cases read

/-- A definition that can be read has only defaults that their parameters accept. -/
theorem ofDatum?_defaults {d : Datum} {definition : Definition}
    (read : ofDatum? d = .ok definition) :
    ∀ f ∈ definition.catalog.functions, f.DefaultsAccepted := by
  intro f declared p inside v default
  obtain ⟨place, datum, checked⟩ := ofDatum?_defaultsRead read f declared p inside v default
  exact defaultOf_accepts checked

end Definition

end InstallScript
