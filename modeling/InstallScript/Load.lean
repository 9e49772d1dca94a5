import InstallScript.Config
import InstallScript.Defect
import InstallScript.Definition
import InstallScript.FileTree
import InstallScript.Text.Lines
import InstallScript.Yaml.Read

/-!
Reading settings and definitions of dialects from YAML files.
-/

namespace InstallScript

/-- Why a file gives nothing. -/
inductive LoadError (ε : Type)
  | missing
  | illFormed
  | content (error : ε)
  /-- What is no error of the file's content as such. -/
  | defect (defect : Defect)
  deriving DecidableEq, Repr

/-- The error of a text that gives no data. -/
def LoadError.ofFault {ε : Type} : Yaml.Fault → LoadError ε
  | .illFormed => .illFormed
  | .noDigits base => .defect (.noDigits base)
  | .noCharacter n => .defect (.noCharacter n)
  | .calendar f => .defect (.calendar f)
  | .overflow o => .defect (.overflow o)

/-- The data in a YAML file. -/
def loadDatum {ε : Type} (files : FileTree) (p : Path) : Except (LoadError ε) Datum :=
  if p.text.toList.contains '\x00' then .error (.defect .nullInPath)
  else
    match files.read p with
    | .error e => .error (.defect (.file e))
    | .ok bytes =>
      match Text.decodeArriving bytes with
      | .error e | .ok (_, some e) => .error (.defect (.undecodable e))
      | .ok (cs, none) => (Yaml.read (Text.unifyLineEnds cs)).mapError .ofFault

/-- The message that a file is not well-formed. -/
def illFormedMessage (p : Path) : String := s!"{p.text}: invalid YAML"

/-- The settings in a file. Data that count as a no leave all settings as they are. -/
def Config.load (files : FileTree) (p : Path) : Except (LoadError ConfigError) Config :=
  match files.look p with
  | .error e => .error (.defect (.file e))
  | .ok none => .error .missing
  | .ok (some _) =>
    match loadDatum files p with
    | .error e => .error e
    | .ok d =>
      (Config.ofDatum? (if d.isTruthy then d else .mapping [])).mapError .content

/-- The definition in a file. -/
def Definition.load (files : FileTree) (p : Path) :
    Except (LoadError DefinitionError) Definition :=
  match loadDatum files p with
  | .error e => .error e
  | .ok d => (Definition.ofDatum? d).mapError .content

end InstallScript
