import InstallScript.FileTree

/-!
Copying files and whole directories. A file that is copied to a directory goes into it under its own
name. A directory is copied with all that is in it, into what may already be there; a part that
cannot be copied does not keep the others from being copied.
-/

namespace InstallScript

/-- Why a copy is incomplete. -/
inductive CopyError
  | file (error : FileError)
  /-- A file was to be copied to itself; source and target are held as they are shown. -/
  | same (source target : String)
  /-- The parts that were not copied: source, target and reason. -/
  | parts (failures : List (String × String × String))
  deriving DecidableEq, Repr

namespace CopyError

/-- The parts of a directory that were not copied, as they are shown. -/
def partsText (failures : List (String × String × String)) : String :=
  let shown := failures.map fun (source, target, reason) =>
    s!"({Text.quoted source}, {Text.quoted target}, {Text.quoted reason})"
  "[" ++ ", ".intercalate shown ++ "]"

/-- The full wording. -/
def message : CopyError → String
  | file e => e.message
  | same source target => s!"{source} and {target} are the same file"
  | parts failures => partsText failures

/-- The wording without numbers and paths, where there is one. -/
def reason : CopyError → String
  | file e => e.fault.message
  | other => other.message

end CopyError

/-- A path as messages show the path itself. -/
def Path.shown (p : Path) : String :=
  s!"PosixPath({Text.quoted p.text})"

namespace FileTree

/-- The path that a file is copied to. -/
def copyTarget (t : FileTree) (source target : Path) : Path :=
  if t.isDirectory target then target.join [source.name] else target

/-- The tree after a file has been copied. The texts of source and target are what is shown if they
are the same. -/
def copyFile (t : FileTree) (source target : Path) (sourceShown : String)
    (targetShown : Path → String) : Except CopyError FileTree :=
  let final := t.copyTarget source target
  match t.locate source, t.locate final with
  | .ok a, .ok b =>
    if a = b ∧ (t.get? a).isSome then .error (.same sourceShown (targetShown final))
    else
      match t.read source with
      | .error e => .error (.file e)
      | .ok content => (t.write final content).mapError .file
  | _, _ =>
    match t.read source with
    | .error e => .error (.file e)
    | .ok content => (t.write final content).mapError .file

/-- What has come of copying several parts. -/
structure CopyState where
  tree : FileTree
  failures : List (String × String × String) := []

/-- Takes in what has come of a part. -/
def CopyState.after (s : CopyState) (source target : Path) (tree : FileTree) :
    Option CopyError → CopyState
  | none => ⟨tree, s.failures⟩
  | some (.parts failures) => ⟨tree, s.failures ++ failures⟩
  | some e => ⟨tree, s.failures ++ [(source.text, target.text, e.message)]⟩

/-- Copies a directory, at most so many levels deep. -/
def copyLevels : Nat → FileTree → Path → Path → FileTree × Option CopyError
  | 0, t, _, _ => (t, none)
  | levels + 1, t, source, target =>
    match t.locate source with
    | .error fault => (t, some (.file ⟨fault, source.text⟩))
    | .ok place =>
      let names := t.children place
      match t.ensureDirectory target with
      | (t', some e) => (t', some (.file e))
      | (t', none) =>
        let s := names.foldl (fun s name =>
          let part := source.join [name]
          let image := target.join [name]
          if s.tree.isDirectory part then
            let (tree, e) := copyLevels levels s.tree part image
            s.after part image tree e
          else
            match s.tree.copyFile part image s!"<DirEntry {Text.quoted name}>"
                (fun p => Text.quoted p.text) with
            | .ok tree => s.after part image tree none
            | .error e => s.after part image s.tree (some e)) (⟨t', []⟩ : CopyState)
        (s.tree, if s.failures.isEmpty then none else some (.parts s.failures))

/-- Copies a directory with all that is in it. No path has more components than `pathLimit`
allows. -/
def copyDirectory (t : FileTree) (source target : Path) : FileTree × Option CopyError :=
  copyLevels pathLimit t source target

/-- Copies whatever a path leads to. -/
def copy (t : FileTree) (source target : Path) : FileTree × Option CopyError :=
  if t.isDirectory source then t.copyDirectory source target
  else
    let targetShown (final : Path) :=
      if final = target then target.shown else Text.quoted final.text
    match t.copyFile source target source.shown targetShown with
    | .ok t' => (t', none)
    | .error e => (t, some e)

end FileTree

end InstallScript
