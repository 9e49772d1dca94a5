import InstallScript.Proofs.Files.Confined

/-!
Operations on files as confined work. Making directories goes no further up than to the directory of
the game, which is there; a copy reads below the mod and writes below the root of writes, level by
level. Each operation is put together from accesses in the order in which it makes them.
-/

namespace InstallScript

open FileTree

namespace FileTree

/-! ## Looking, by what stands at a path -/

/-- What a look at a path gives. -/
def seen (p : Path) : Except FileFault (List String × Option FileEntry) →
    Except FileError (Option FileEntry)
  | .ok (_, entry) => .ok entry
  | .error .nameTooLong => .error ⟨.nameTooLong, p.text⟩
  | .error _ => .ok none

/-- What reading a file gives. -/
def readFrom (p : Path) : Except FileFault (List String × Option FileEntry) →
    Except FileError (List UInt8)
  | .error fault => .error ⟨fault, p.text⟩
  | .ok (_, none) => .error ⟨.notFound, p.text⟩
  | .ok (_, some .directory) => .error ⟨.isDirectory, p.text⟩
  | .ok (_, some (.file content)) => .ok content

/-- Whether there is a directory. -/
def standsDirectory : Except FileFault (List String × Option FileEntry) → Bool
  | .ok (_, some .directory) => true
  | _ => false

theorem look_eq_stat (t : FileTree) (p : Path) : t.look p = seen p (t.stat p) := by
  unfold look stat seen
  cases t.locate p with
  | ok place => rfl
  | error fault => cases fault <;> rfl

theorem read_eq_stat (t : FileTree) (p : Path) : t.read p = readFrom p (t.stat p) := by
  unfold read stat readFrom
  cases t.locate p with
  | error fault => rfl
  | ok place =>
    dsimp only [Except.map]
    cases t.get? place with
    | none => rfl
    | some entry => cases entry <;> rfl

theorem isDirectory_eq_stat (t : FileTree) (p : Path) :
    t.isDirectory p = standsDirectory (t.stat p) := by
  unfold isDirectory find? stat standsDirectory
  cases t.locate p with
  | error fault => rfl
  | ok place =>
    dsimp only [Except.map]
    cases t.get? place with
    | none => rfl
    | some entry => cases entry <;> rfl

/-- Two paths lead to the same place, at which something stands. -/
def sameFile : Except FileFault (List String × Option FileEntry) →
    Except FileFault (List String × Option FileEntry) → Bool
  | .ok (a, entry), .ok (b, _) => a = b && entry.isSome
  | _, _ => false

theorem sameFile_error (fault : FileFault)
    (found : Except FileFault (List String × Option FileEntry)) :
    sameFile (.error fault) found = false := by
  cases found <;> rfl

/-- A directory that is there need not be made. -/
theorem makeOrKeep_of_stands {t : FileTree} {p : Path} {place : List String}
    (stands : t.stat p = .ok (place, some .directory)) : t.makeOrKeep p = .ok t := by
  have isDirectory : t.isDirectory p = true := by rw [isDirectory_eq_stat, stands]; rfl
  obtain ⟨leads, rfl, entry⟩ := stat_eq_ok stands
  rw [makeOrKeep, makeDirectory, leads]
  dsimp only
  rw [← entry]
  exact if_pos isDirectory

/-- The end of the copy of a file: its content is written, unless there is none, or it is the same
file. -/
def writeCopy (t : FileTree) (final : Path) (shown : String) (shown' : Path → String) :
    Bool → Except FileError (List UInt8) → Option CopyError × FileTree
  | true, _ => (some (.same shown (shown' final)), t)
  | false, .error e => (some (.file e), t)
  | false, .ok content => t.outcome ((t.write final content).mapError .file)

theorem copyFile_eq_stat (source target : Path) (shown : String) (shown' : Path → String)
    (t : FileTree) : t.outcome (t.copyFile source target shown shown') =
      let final := if standsDirectory (t.stat target) then target.join [source.name] else target
      t.writeCopy final shown shown' (sameFile (t.stat source) (t.stat final))
        (readFrom source (t.stat source)) := by
  unfold copyFile copyTarget
  rw [isDirectory_eq_stat]
  dsimp only
  generalize (if standsDirectory (t.stat target) = true then target.join [source.name]
    else target) = final
  rw [read_eq_stat]
  cases leads : t.locate source with
  | error fault =>
    have unseen : t.stat source = .error fault := by rw [stat, leads]; rfl
    rw [unseen, sameFile_error]
    cases t.locate final <;> rfl
  | ok a =>
    have seen : t.stat source = .ok (a, t.get? a) := by rw [stat, leads]; rfl
    rw [seen]
    cases leads' : t.locate final with
    | error fault =>
      have unseen : t.stat final = .error fault := by rw [stat, leads']; rfl
      rw [unseen]
      cases readFrom source (.ok (a, t.get? a)) <;> rfl
    | ok b =>
      have seen' : t.stat final = .ok (b, t.get? b) := by rw [stat, leads']; rfl
      rw [seen']
      dsimp only [sameFile]
      by_cases same : a = b ∧ (t.get? a).isSome = true
      · rw [if_pos same, decide_eq_true same.1, same.2]
        rfl
      · rw [if_neg same]
        have same' : (decide (a = b) && (t.get? a).isSome) = false := by simpa using same
        rw [same']
        cases readFrom source (.ok (a, t.get? a)) <;> rfl

/-- What is left of a copy of several parts, in the order of `outcome`. -/
def CopyState.swap (s : CopyState) : List (String × String × String) × FileTree :=
  (s.failures, s.tree)

/-- The copy of one part of a directory. -/
def copyPart (levels : Nat) (source target : Path) (s : CopyState) (name : String) : CopyState :=
  let part := source.join [name]
  let image := target.join [name]
  if s.tree.isDirectory part then
    let (tree, e) := copyLevels levels s.tree part image
    s.after part image tree e
  else
    match s.tree.copyFile part image s!"<DirEntry {Text.quoted name}>"
        (fun p => Text.quoted p.text) with
    | .ok tree => s.after part image tree none
    | .error e => s.after part image s.tree (some e)

/-- Making a directory after what is above it, unless that went wrong. -/
def makeBelow (p : Path) : Option FileError → FileTree → Option FileError × FileTree
  | some e, t => (some e, t)
  | none, t => t.outcome (t.makeOrKeep p)

/-- Making what is above a directory and then the directory, if it was missed on the first try. -/
def retry (p : Path) (above : FileTree → Option FileError × FileTree) :
    Option FileError → FileTree → Option FileError × FileTree
  | none, t => (none, t)
  | some ⟨.notFound, _⟩, t => makeBelow p (above t).1 (above t).2
  | some e, t => (some e, t)

theorem ensureFrom_eq (root last : String) (up : List String) (t : FileTree) :
    (t.ensureFrom root (last :: up)).swap =
      let p : Path := ⟨root, (last :: up).reverse⟩
      let first := t.outcome (t.makeOrKeep p)
      retry p (fun t => (t.ensureFrom root up).swap) first.1 first.2 := by
  rw [ensureFrom]
  dsimp only
  cases t.makeOrKeep ⟨root, (last :: up).reverse⟩ with
  | ok t' => rfl
  | error e =>
    obtain ⟨fault, text⟩ := e
    cases fault with
    | notFound =>
      dsimp only [outcome, retry]
      rcases t.ensureFrom root up with ⟨t', _ | e⟩
      · dsimp only [Prod.swap, makeBelow]
        cases t'.makeOrKeep ⟨root, (last :: up).reverse⟩ <;> rfl
      · rfl
    | _ => rfl

/-- The result of making directories in the order of `outcome`. -/
def ensured (t : FileTree) (p : Path) : Option FileError × FileTree := (t.ensureDirectory p).swap

/-- The copy of the named parts of a directory, unless its image could not be made. -/
def copyNames (levels : Nat) (names : List String) (source target : Path) :
    Option FileError → FileTree → Option CopyError × FileTree
  | some e, t => (some (.file e), t)
  | none, t =>
    let s := (names.foldl (copyPart levels source target) ⟨t, []⟩).swap
    (if s.1.isEmpty then none else some (.parts s.1), s.2)

/-- The copy of a directory, if it is found. -/
def copyFound (levels : Nat) (source target : Path) :
    Except FileFault (List String × Option FileEntry) → FileTree → Option CopyError × FileTree
  | .error fault, t => (some (.file ⟨fault, source.text⟩), t)
  | .ok _, t => copyNames levels (t.names source) source target (t.ensured target).1
      (t.ensured target).2

theorem copyLevels_eq_stat (levels : Nat) (source target : Path) (t : FileTree) :
    (copyLevels (levels + 1) t source target).swap =
      copyFound levels source target (t.stat source) t := by
  rw [copyLevels, stat]
  cases leads : t.locate source with
  | error fault => rfl
  | ok place =>
    have names : t.names source = t.children place := by rw [FileTree.names, leads]
    dsimp only [Except.map, copyFound, ensured]
    rw [names]
    rcases t.ensureDirectory target with ⟨t', _ | e⟩ <;> rfl

/-- The result of a copy in the order of `outcome`. -/
def copied (t : FileTree) (source target : Path) : Option CopyError × FileTree :=
  (t.copy source target).swap

end FileTree

namespace Roots

variable {r : Roots} {p : Path}

theorem InSource.join (inSource : r.InSource p) {name : String} (clean : CleanPart name) :
    r.InSource (p.join [name]) := by
  obtain ⟨parts, clean', rfl⟩ := inSource
  exact ⟨parts ++ [name], clean'.append (.singleton clean), Path.join_join _ _ _⟩

theorem InTarget.join (inTarget : r.InTarget p) {name : String} (clean : CleanPart name) :
    r.InTarget (p.join [name]) := by
  obtain ⟨parts, clean', rfl⟩ := inTarget
  refine ⟨parts ++ [name], clean'.append (.singleton clean), ?_⟩
  rw [Path.join_join, List.append_assoc]

end Roots

namespace Confined

variable {r : Roots} {α : Type} {p : Path}

/-- Something about what stands at a path. -/
theorem ask {β : Type} (next : β → FileTree → α × FileTree)
    (allowed : r.InSource p ∨ r.InTarget p)
    (answer : Except FileFault (List String × Option FileEntry) → β)
    (goesOn : ∀ b, Confined r (next b)) : Confined r fun t => next (answer (t.stat p)) t :=
  look (fun found => next (answer found)) allowed fun _ => goesOn _

/-! ## Making directories -/

theorem makeOrKeep (inTarget : r.InTarget p) : Confined r fun t => t.outcome (t.makeOrKeep p) := by
  refine of_eq (fun t => ?_) (change inTarget .makeDirectory (fun e t =>
    match e with
    | none => (none, t)
    | some e => if standsDirectory (t.stat p) then (none, t) else (some e, t)) fun e => ?_)
  · unfold FileTree.makeOrKeep perform
    cases t.makeDirectory p with
    | ok t' => rfl
    | error e =>
      dsimp only [outcome]
      rw [isDirectory_eq_stat]
      cases standsDirectory (t.stat p) <;> rfl
  · cases e with
    | none => exact done none
    | some e =>
      refine ask (fun stands t => if stands then (none, t) else (some e, t)) (.inr inTarget)
        standsDirectory fun stands => ?_
      cases stands with
      | true => exact done none
      | false => exact done (some e)

theorem ensureFrom_given {root : String} {components : List String}
    (given : r.Given ⟨root, components.reverse⟩) :
    Confined r fun t => (t.ensureFrom root components).swap := by
  refine of_eq (fun t => ?_) (known (fun found t =>
    match found with
    | .ok (_, some .directory) => (none, t)
    | _ => (t.ensureFrom root components).swap) given fun _ => done none)
  split
  · rename_i place stands
    cases components with
    | nil =>
      have keeps : t.makeOrKeep ⟨root, []⟩ = .ok t := makeOrKeep_of_stands stands
      rw [ensureFrom, keeps]
      rfl
    | cons last up =>
      have keeps := makeOrKeep_of_stands stands
      rw [ensureFrom, keeps]
      rfl
  · rfl

theorem ensureFrom_cons {root last : String} {up : List String}
    (inTarget : r.InTarget ⟨root, (last :: up).reverse⟩)
    (above : Confined r fun t => (t.ensureFrom root up).swap) :
    Confined r fun t => (t.ensureFrom root (last :: up)).swap := by
  have below (e : Option FileError) :
      Confined r (makeBelow ⟨root, (last :: up).reverse⟩ e) := by
    cases e with
    | some e => exact done (some e)
    | none => exact makeOrKeep inTarget
  refine of_eq (ensureFrom_eq root last up) ((makeOrKeep inTarget).bind (g := retry
    ⟨root, (last :: up).reverse⟩ fun t => (t.ensureFrom root up).swap) fun e => ?_)
  cases e with
  | none => exact done none
  | some e =>
    obtain ⟨fault, text⟩ := e
    cases fault with
    | notFound => exact above.bind below
    | _ => exact done (some _)

theorem ensured_given (given : r.Given p) : Confined r fun t => t.ensured p := by
  refine ensureFrom_given ?_
  rwa [List.reverse_reverse]

theorem ensured_step {name : String} (inTarget : r.InTarget (p.join [name]))
    (above : Confined r fun t => t.ensured p) : Confined r fun t => t.ensured (p.join [name]) := by
  have components : (p.join [name]).components.reverse = name :: p.components.reverse := by
    rw [Path.join, List.reverse_append]
    rfl
  have path : (⟨p.root, (name :: p.components.reverse).reverse⟩ : Path) = p.join [name] := by
    rw [← components, List.reverse_reverse]
    rfl
  have steps : Confined r fun t => (t.ensureFrom p.root (name :: p.components.reverse)).swap :=
    ensureFrom_cons (path ▸ inTarget) above
  rwa [← components] at steps

theorem given_target : r.Given r.target := .inr ⟨rfl, List.prefix_rfl⟩

/-- Making a directory below the root of writes. -/
theorem ensured (inTarget : r.InTarget p) : Confined r fun t => t.ensured p := by
  obtain ⟨parts, clean, rfl⟩ := inTarget
  induction parts using List.reverseRecOn with
  | nil =>
    rw [List.append_nil]
    rcases List.eq_nil_or_concat' r.inner with empty | ⟨init, name, eq⟩
    · rw [empty, Path.join_nil]
      exact ensured_given given_target
    · have only : r.inner = [name] := by
        have single := r.single
        rw [eq, List.dropLast_concat] at single
        rw [eq, single, List.nil_append]
      have inTarget : r.InTarget (r.target.join [name]) :=
        ⟨[], .nil, by rw [List.append_nil, only]⟩
      rw [only]
      exact ensured_step inTarget (ensured_given given_target)
  | append_singleton parts name ih =>
    obtain ⟨above, last⟩ := CleanParts.append_iff.1 clean
    have inTarget : r.InTarget ((r.target.join (r.inner ++ parts)).join [name]) :=
      Roots.InTarget.join ⟨parts, above, rfl⟩ (last name (List.mem_singleton_self name))
    have steps := ensured_step inTarget (ih above)
    rwa [Path.join_join, List.append_assoc] at steps

/-- Making what a path below the root of writes is in. -/
theorem ensured_parent (inTarget : r.InTarget p) : Confined r fun t => t.ensured p.parent := by
  obtain ⟨parts, clean, rfl⟩ := inTarget
  rcases List.eq_nil_or_concat' parts with rfl | ⟨init, name, rfl⟩
  · refine ensured_given (.inr ⟨rfl, ?_⟩)
    rw [List.append_nil, Path.parent, Path.join]
    rcases List.eq_nil_or_concat' r.inner with empty | ⟨init, name, eq⟩
    · rw [empty, List.append_nil]
      exact List.dropLast_prefix _
    · have single := r.single
      rw [eq, List.dropLast_concat] at single
      rw [eq, single, List.nil_append, List.dropLast_concat]
  · rw [Path.parent_join _ (by simp), ← List.append_assoc, List.dropLast_concat]
    exact ensured ⟨init, (CleanParts.append_iff.1 clean).1, rfl⟩

/-! ## Copies -/

variable {source target : Path} {shown : String} {shown' : Path → String}

/-- The end of the copy of a file. -/
theorem writeCopy {final : Path} (inTarget : r.InTarget final) (same : Bool)
    (content : Except FileError (List UInt8)) :
    Confined r fun t => t.writeCopy final shown shown' same content := by
  cases same with
  | true => exact done (some _)
  | false =>
    cases content with
    | error e => exact done (some (CopyError.file e))
    | ok content =>
      refine of_eq (fun t => ?_) (change inTarget (.write content)
        (fun e t => (e.map CopyError.file, t)) fun e => done _)
      show t.outcome ((t.write final content).mapError CopyError.file) =
        ((t.outcome (t.write final content)).1.map CopyError.file,
          (t.outcome (t.write final content)).2)
      cases t.write final content <;> rfl

/-- Copying one file. -/
theorem copyFile (inSource : r.InSource source) (name : CleanPart source.name)
    (inTarget : r.InTarget target) :
    Confined r fun t => t.outcome (t.copyFile source target shown shown') := by
  have toFinal {final : Path} (inTarget' : r.InTarget final) : Confined r fun t =>
      t.writeCopy final shown shown' (sameFile (t.stat source) (t.stat final))
        (readFrom source (t.stat source)) := by
    refine look (fun found t => t.writeCopy final shown shown'
      (sameFile found (t.stat final)) (readFrom source found)) (.inl inSource) fun found => ?_
    exact ask (fun (same : Bool) t => t.writeCopy final shown shown' same (readFrom source found))
      (.inr inTarget') (sameFile found) fun same => writeCopy inTarget' same _
  refine of_eq (copyFile_eq_stat source target shown shown') (ask (fun (stands : Bool) t =>
    let final := if stands then target.join [source.name] else target
    t.writeCopy final shown shown' (sameFile (t.stat source) (t.stat final))
      (readFrom source (t.stat source))) (.inr inTarget) standsDirectory fun stands => ?_)
  cases stands with
  | true => exact toFinal (inTarget.join name)
  | false => exact toFinal inTarget

/-- One part after another, each of which is confined. -/
theorem copyParts {step : CopyState → String → CopyState}
    (each : ∀ failures name, CleanPart name → Confined r fun t => (step ⟨t, failures⟩ name).swap)
    {names : List String} (clean : CleanParts names) (failures : List (String × String × String)) :
    Confined r fun t => (names.foldl step ⟨t, failures⟩).swap := by
  induction names generalizing failures with
  | nil => exact done failures
  | cons name names ih =>
    obtain ⟨first, later⟩ := List.forall_mem_cons.1 clean
    exact (each failures name first).bind fun failures => ih later failures

/-- Noting how the copy of a part came out. -/
theorem noted (source target : Path) (failures : List (String × String × String))
    (e : Option CopyError) :
    Confined r fun t => ((⟨t, failures⟩ : CopyState).after source target t e).swap := by
  -- Which failures there are does not depend on the tree.
  have same (t : FileTree) : ((⟨t, failures⟩ : CopyState).after source target t e).swap =
      (((⟨⟨[]⟩, failures⟩ : CopyState).after source target ⟨[]⟩ e).failures, t) := by
    rcases e with _ | e
    · rfl
    · cases e <;> rfl
  exact of_eq same (done _)

/-- Copying one part of a directory, if copies one level down are confined. -/
theorem copyPart {levels : Nat} (deeper : ∀ {source target : Path}, r.InSource source →
      r.InTarget target → Confined r fun t => (FileTree.copyLevels levels t source target).swap)
    (inSource : r.InSource source) (inTarget : r.InTarget target)
    (failures : List (String × String × String)) (name : String) (clean : CleanPart name) :
    Confined r fun t => (FileTree.copyPart levels source target ⟨t, failures⟩ name).swap := by
  have inSource' := inSource.join clean
  have inTarget' := inTarget.join clean
  have last : (source.join [name]).name = name := by simp [Path.name, Path.join]
  refine of_eq (fun t => ?_) (ask (fun stands t =>
    let out := if stands then (FileTree.copyLevels levels t (source.join [name])
        (target.join [name])).swap
      else t.outcome (t.copyFile (source.join [name]) (target.join [name])
        s!"<DirEntry {Text.quoted name}>" fun p => Text.quoted p.text)
    ((⟨out.2, failures⟩ : CopyState).after (source.join [name]) (target.join [name]) out.2
      out.1).swap) (.inl inSource') standsDirectory fun stands => ?_)
  · unfold FileTree.copyPart
    dsimp only
    rw [isDirectory_eq_stat]
    cases standsDirectory (t.stat (source.join [name])) with
    | true =>
      rcases FileTree.copyLevels levels t (source.join [name]) (target.join [name]) with ⟨t', e⟩
      rcases e with _ | e
      · rfl
      · cases e <;> rfl
    | false =>
      cases copies : t.copyFile (source.join [name]) (target.join [name])
          s!"<DirEntry {Text.quoted name}>" fun p => Text.quoted p.text with
      | ok t' => rfl
      | error e => cases e <;> rfl
  · have noted' := noted (r := r) (source.join [name]) (target.join [name]) failures
    cases stands with
    | true => exact (deeper inSource' inTarget').bind noted'
    | false => exact (copyFile inSource' (last.symm ▸ clean) inTarget').bind noted'

/-- Copying a directory. -/
theorem copyLevels (levels : Nat) (inSource : r.InSource source) (inTarget : r.InTarget target) :
    Confined r fun t => (FileTree.copyLevels levels t source target).swap := by
  -- The parts of a directory are copied one level down.
  induction levels generalizing source target with
  | zero => exact done none
  | succ levels ih =>
    have parts {names : List String} (clean : CleanParts names) (e : Option FileError) :
        Confined r (copyNames levels names source target e) := by
      cases e with
      | some e => exact done (some (CopyError.file e))
      | none =>
        exact (copyParts (copyPart ih inSource inTarget) clean []).bind fun failures =>
          done (if failures.isEmpty then none else some (CopyError.parts failures))
    refine of_eq (copyLevels_eq_stat levels source target)
      (look (copyFound levels source target) (.inl inSource) fun found => ?_)
    cases found with
    | error fault => exact done (some (CopyError.file ⟨fault, source.text⟩))
    | ok found =>
      exact list (fun names t => copyNames levels names source target (t.ensured target).1
        (t.ensured target).2) inSource fun names clean => (ensured inTarget).bind (parts clean)

/-- Copying whatever there is. -/
theorem copied (inSource : r.InSource source) (inTarget : r.InTarget target) :
    Confined r fun t => t.copied source target := by
  obtain ⟨parts, clean, rfl⟩ := inSource
  have directory : Confined r fun t =>
      (t.copyDirectory (r.source.join parts) target).swap :=
    copyLevels pathLimit ⟨parts, clean, rfl⟩ inTarget
  have cases' (t : FileTree) : t.copied (r.source.join parts) target =
      if standsDirectory (t.stat (r.source.join parts)) then
        (t.copyDirectory (r.source.join parts) target).swap
      else t.outcome (t.copyFile (r.source.join parts) target (r.source.join parts).shown
        fun final => if final = target then target.shown else Text.quoted final.text) := by
    unfold FileTree.copied copy
    rw [isDirectory_eq_stat]
    cases standsDirectory (t.stat (r.source.join parts)) with
    | true => rfl
    | false =>
      rw [if_neg Bool.false_ne_true, if_neg Bool.false_ne_true]
      dsimp only
      cases t.copyFile (r.source.join parts) target (r.source.join parts).shown
        fun final => if final = target then target.shown else Text.quoted final.text <;> rfl
  rcases List.eq_nil_or_concat' parts with rfl | ⟨init, name, rfl⟩
  · -- The directory of the mod itself is no file.
    refine of_eq cases' (known (fun found t =>
      if standsDirectory found then (t.copyDirectory (r.source.join []) target).swap
      else t.outcome (t.copyFile (r.source.join []) target (r.source.join []).shown
        fun final => if final = target then target.shown else Text.quoted final.text))
      (.inl (Path.join_nil _)) fun _ => directory)
  · have last : (r.source.join (init ++ [name])).name = name := by simp [Path.name, Path.join]
    have clean' : CleanPart name := (CleanParts.append_iff.1 clean).2 name
      (List.mem_singleton_self name)
    refine of_eq cases' (ask (fun stands t =>
      if stands then (t.copyDirectory (r.source.join (init ++ [name])) target).swap
      else t.outcome (t.copyFile (r.source.join (init ++ [name])) target
        (r.source.join (init ++ [name])).shown
          fun final => if final = target then target.shown else Text.quoted final.text))
      (.inl ⟨_, clean, rfl⟩) standsDirectory fun stands => ?_)
    cases stands with
    | true => exact directory
    | false => exact copyFile ⟨_, clean, rfl⟩ (last.symm ▸ clean') inTarget

end Confined

end InstallScript
