import InstallScript.Proofs.Files.Changes

/-!
What stands below a place of a file tree. In a closed tree something stands below directories only,
so nothing is below a place at which nothing stands. Making a directory below one that is there
makes nothing but directories on the way to it (`FileTree.ensureDirectory_elsewhere`).

A tree is a table; in a listed one no place is named twice, so no name is listed twice in a
directory.
-/

namespace InstallScript

namespace FileTree

variable {t t' : FileTree}

/-! ## Closed trees -/

/-- Above whatever stands somewhere are directories. -/
theorem Closed.get?_above (closed : t.Closed) {place rest : List String} {entry : FileEntry}
    (below : rest ≠ []) (stands : t.get? (place ++ rest) = some entry) :
    t.get? place = some .directory := by
  induction rest using List.reverseRecOn generalizing entry with
  | nil => exact absurd rfl below
  | append_singleton rest last ih =>
    have directory := closed _ _ stands
    rw [← List.append_assoc, List.dropLast_concat] at directory
    by_cases empty : rest = []
    · rwa [empty, List.append_nil] at directory
    · exact ih empty directory

/-- Nothing stands below anything but a directory. -/
theorem Closed.nothing_below (closed : t.Closed) {place rest : List String} (below : rest ≠ [])
    (noDirectory : t.get? place ≠ some .directory) : t.get? (place ++ rest) = none := by
  cases stands : t.get? (place ++ rest) with
  | none => rfl
  | some entry => exact absurd (closed.get?_above below stands) noDirectory

/-- Where components lead nowhere, nothing stands at their place or below it. -/
theorem Closed.nothing_of_locateFrom (closed : t.Closed) {here components : List String}
    {fault : FileFault} (down : ".." ∉ components) (short : fault ≠ .nameTooLong)
    (fails : t.locateFrom here components = .error fault) (rest : List String) :
    t.get? (here ++ (components ++ rest)) = none := by
  induction components generalizing here with
  | nil => cases fails
  | cons component components ih =>
    obtain ⟨noDots, down⟩ := not_or.1 (mt List.mem_cons.2 down)
    have below : component :: components ++ rest ≠ [] := List.cons_ne_nil _ _
    rw [FileTree.locateFrom] at fails
    split at fails
    · rename_i missing
      exact closed.nothing_below below (by simp [missing])
    · rename_i isFile
      exact closed.nothing_below below (by simp [isFile])
    · rw [if_neg (Ne.symm noDots)] at fails
      split at fails
      · cases fails
        exact absurd rfl short
      · have nothing := ih down fails
        rwa [List.append_assoc] at nothing

/-! ## Paths below a directory -/

/-- Components after some that lead to a place are followed from there. -/
theorem locateFrom_append_eq {here first place : List String}
    (leads : t.locateFrom here first = .ok place) (second : List String) :
    t.locateFrom here (first ++ second) = t.locateFrom place second := by
  induction first generalizing here with
  | nil =>
    cases leads
    rfl
  | cons component first ih =>
    rw [locateFrom] at leads
    rw [List.cons_append, locateFrom]
    split at leads
    · cases leads
    · cases leads
    · split at leads
      · rename_i up
        rw [if_pos up]
        exact ih leads
      · rename_i down
        rw [if_neg down]
        split at leads
        · cases leads
        · rename_i short
          rw [if_neg short]
          exact ih leads

/-- A path below a directory is followed from there, unless it is too long. -/
theorem locate_join {base : Path} (stands : t.find? base = some .directory)
    (components : List String) : t.locate (base.join components) =
      if pathLimit ≤ (base.join components).text.utf8ByteSize then .error .nameTooLong
      else t.locateFrom base.place components := by
  obtain ⟨leads, -⟩ := find?_eq_some stands
  unfold locate at leads ⊢
  split at leads
  · cases leads
  · split
    · rfl
    · exact locateFrom_append_eq leads components

/-- A path below a directory that leads to nothing, though it is not too long: nothing stands at its
place or below it. -/
theorem Closed.nothing_of_find? (closed : t.Closed) {base : Path} {components : List String}
    (stands : t.find? base = some .directory) (down : ".." ∉ components)
    (short : t.locate (base.join components) ≠ .error .nameTooLong)
    (missing : t.find? (base.join components) = none) (rest : List String) :
    t.get? (base.place ++ (components ++ rest)) = none := by
  cases leads : t.locate (base.join components) with
  | ok place =>
    obtain rfl := place_of_locate leads
    rw [find?_of_locate leads, Path.place_join _ down] at missing
    rcases List.eq_nil_or_concat' rest with rfl | ⟨init, last, rfl⟩
    · rwa [List.append_nil]
    · rw [← List.append_assoc]
      exact closed.nothing_below (by simp) (by simp [missing])
  | error fault =>
    have other : fault ≠ .nameTooLong := by
      rintro rfl
      exact short leads
    rw [locate_join stands] at leads
    split at leads
    · cases leads
      exact absurd rfl other
    · exact closed.nothing_of_locateFrom down other leads rest

/-! ## Making directories -/

/-- Making one directory changes nothing at any other place. -/
theorem makeOrKeep_elsewhere {p : Path} (makes : t.makeOrKeep p = .ok t') {other : List String}
    (differs : other ≠ p.place) : t'.get? other = t.get? other := by
  unfold makeOrKeep at makes
  split at makes
  · rename_i made eq
    cases makes
    exact (makeDirectory_change eq).elsewhere differs
  · split at makes
    · cases makes
      rfl
    · cases makes

/-- What has been made, or is there, is a directory. -/
theorem find?_of_makeOrKeep {p : Path} (makes : t.makeOrKeep p = .ok t') :
    t'.find? p = some .directory := by
  unfold makeOrKeep at makes
  split at makes
  · rename_i made eq
    cases makes
    obtain ⟨leads, free, rfl⟩ := makeDirectory_eq_ok eq
    have keeps := (makeDirectory_change eq).keepsDirectories
    have below : p.place ≠ [] := ne_nil_of_get? (by rw [free]; simp)
    rw [find?_of_locate (keeps.locate leads), t.get?_put_self _ below]
  · split at makes
    · rename_i isDirectory
      cases makes
      exact eq_of_beq isDirectory
    · cases makes

theorem find?_of_ensureFrom {root : String} {components : List String}
    (makes : t.ensureFrom root components = (t', none)) :
    t'.find? ⟨root, components.reverse⟩ = some .directory := by
  cases components with
  | nil =>
    rw [ensureFrom] at makes
    split at makes
    · rename_i kept
      cases makes
      exact find?_of_makeOrKeep kept
    · cases makes
  | cons last up =>
    rw [ensureFrom] at makes
    split at makes
    · rename_i made
      cases makes
      exact find?_of_makeOrKeep made
    · split at makes
      · cases makes
      · split at makes
        · rename_i made
          cases makes
          exact find?_of_makeOrKeep made
        · cases makes
    · cases makes

/-- A directory that has been made with all that was missing above it is there. -/
theorem find?_of_ensureDirectory {p : Path} (makes : t.ensureDirectory p = (t', none)) :
    t'.find? p = some .directory := by
  have stands := find?_of_ensureFrom makes
  rwa [List.reverse_reverse] at stands

/-- A directory that is there is not made. -/
theorem ensureDirectory_of_find? {p : Path} (stands : t.find? p = some .directory) :
    t.ensureDirectory p = (t, none) := by
  obtain ⟨leads, directory⟩ := find?_eq_some stands
  have kept : t.makeOrKeep p = .ok t := by
    have found := stat_of_locate leads
    rw [directory] at found
    exact makeOrKeep_of_stands found
  obtain ⟨root, components⟩ := p
  rcases List.eq_nil_or_concat' components with rfl | ⟨init, last, rfl⟩
  · rw [ensureDirectory, List.reverse_nil, ensureFrom, kept]
  · rw [ensureDirectory, List.reverse_append, List.reverse_singleton, List.singleton_append,
      ensureFrom, List.reverse_cons, List.reverse_reverse, kept]

/-- Below a directory that is there, directories are made on the way to a place only. -/
theorem ensureDirectory_elsewhere {base : Path} (stands : t.find? base = some .directory)
    {components other : List String} (down : ".." ∉ components)
    (off : ¬ other <+: base.place ++ components) :
    (t.ensureDirectory (base.join components)).1.get? other = t.get? other := by
  induction components using List.reverseRecOn with
  | nil => rw [Path.join_nil, ensureDirectory_of_find? stands]
  | append_singleton components last ih =>
    have place : (base.join (components ++ [last])).place = base.place ++ (components ++ [last]) :=
      base.place_join down
    have above : (t.ensureFrom base.root (base.join components).components.reverse).1.get? other =
        t.get? other :=
      ih (fun member => down (List.mem_append_left _ member)) fun on =>
        off (on.trans ⟨[last], List.append_assoc ..⟩)
    have reversed : (base.join (components ++ [last])).components.reverse =
        last :: (base.join components).components.reverse := by
      simp [Path.join]
    have path : (⟨base.root, (last :: (base.join components).components.reverse).reverse⟩ : Path) =
        base.join (components ++ [last]) := by
      simp [Path.join]
    have differs : other ≠ (base.join (components ++ [last])).place := by
      rintro rfl
      exact off (place ▸ List.prefix_rfl)
    rw [ensureDirectory, reversed, Path.join, ensureFrom, path]
    split
    · rename_i t' made
      exact makeOrKeep_elsewhere made differs
    · split
      · rename_i t' e eq
        rwa [eq] at above
      · rename_i t' eq
        rw [eq] at above
        split
        · rename_i t'' made
          rw [makeOrKeep_elsewhere made differs, above]
        · exact above
    · rfl

theorem ensureDirectory_adds (t : FileTree) (p : Path) :
    t.AddsDirectories (t.ensureDirectory p).1 := (t.ensureDirectory_makes p).adds

/-- A path to a directory that is there, or to something in one. -/
def AtHand (t : FileTree) (p : Path) : Prop :=
  t.find? p = some .directory ∨
    ∃ base name, p = base.join [name] ∧ name ≠ ".." ∧ t.find? base = some .directory

/-- Above a directory, and where it stands itself, are directories. -/
theorem Closed.directory_of_prefix (closed : t.Closed) {place other : List String}
    (directory : t.get? place = some .directory) (on : other <+: place) :
    t.get? other = some .directory := by
  obtain ⟨rest, rfl⟩ := on
  by_cases empty : rest = []
  · rwa [empty, List.append_nil] at directory
  · exact closed.get?_above empty directory

/-- A directory that is to stand in one that is there is all that is made. -/
theorem AtHand.ensureDirectory_elsewhere (closed : t.Closed) {p : Path} (atHand : t.AtHand p)
    {other : List String} (differs : other ≠ p.place) :
    (t.ensureDirectory p).1.get? other = t.get? other := by
  rcases atHand with stands | ⟨base, name, rfl, noDots, stands⟩
  · rw [ensureDirectory_of_find? stands]
  · have down : ".." ∉ [name] := fun member => noDots (List.mem_singleton.1 member).symm
    rw [base.place_join down] at differs
    by_cases on : other <+: base.place ++ [name]
    · -- What is on the way to the place is a directory already, and stays one.
      have on' : other <+: base.place := by
        rcases List.prefix_concat_iff.1 on with same | on'
        · exact absurd same differs
        · exact on'
      obtain ⟨-, directory⟩ := find?_eq_some stands
      have directory' := closed.directory_of_prefix directory on'
      rw [directory']
      exact (t.ensureDirectory_adds _).keeps directory'
    · exact FileTree.ensureDirectory_elsewhere stands down on

/-! ## Listed trees -/

/-- No place is named twice in the table. -/
def Listed (t : FileTree) : Prop := (t.entries.map (·.1)).Nodup

theorem keys_putEntry (place : List String) (entry : FileEntry)
    (entries : List (List String × FileEntry)) :
    (putEntry place entry entries).map (·.1) =
      if place ∈ entries.map (·.1) then entries.map (·.1) else entries.map (·.1) ++ [place] := by
  induction entries with
  | nil => rfl
  | cons pair rest ih =>
    obtain ⟨key, old⟩ := pair
    rw [putEntry]
    by_cases same : key = place
    · simp [same]
    · rw [if_neg same, List.map_cons, ih]
      simp only [List.map_cons, List.mem_cons, Ne.symm same, false_or]
      split <;> rfl

theorem Listed.put (listed : t.Listed) (place : List String) (entry : FileEntry) :
    (t.put place entry).Listed := by
  unfold FileTree.put
  split
  · exact listed
  · unfold Listed
    rw [keys_putEntry]
    split
    · exact listed
    · rename_i new
      exact List.nodup_append.2 ⟨listed, List.nodup_singleton _, by
        intro key member other same
        rw [List.mem_singleton.1 same]
        rintro rfl
        exact new member⟩

theorem Change.listed {place : List String} (change : t.Change place t') (listed : t.Listed) :
    t'.Listed := by
  cases change with
  | made => exact listed.put _ _
  | written => exact listed.put _ _
  | removed => exact listed.sublist (List.filter_sublist.map _)

theorem Changes.listed (changes : t.Changes t') (listed : t.Listed) : t'.Listed := by
  induction changes with
  | refl => exact listed
  | tail _ last ih =>
    obtain ⟨place, change⟩ := last
    exact change.listed ih

/-- What stands in a directory is listed there. -/
theorem mem_children {place : List String} {name : String} {entry : FileEntry}
    (stands : t.get? (place ++ [name]) = some entry) : name ∈ t.children place := by
  have below : ¬ (place ++ [name]).isEmpty = true := by simp
  rw [get?, if_neg below] at stands
  have given := mem_of_lookup_some.2 (Option.isSome_iff_exists.2 ⟨entry, stands⟩)
  obtain ⟨⟨key, entry'⟩, member, rfl⟩ := List.mem_map.1 given
  refine List.mem_filterMap.2 ⟨_, member, ?_⟩
  dsimp only
  rw [if_pos List.dropLast_concat, List.getLast?_concat]

/-- No name is listed twice in a directory. -/
theorem Listed.children (listed : t.Listed) (place : List String) : (t.children place).Nodup := by
  have names : t.children place = (t.entries.map (·.1)).filterMap fun key =>
      if key.dropLast = place then key.getLast? else none := by
    rw [List.filterMap_map]
    rfl
  rw [names]
  refine List.Nodup.filterMap ?_ listed
  intro key key' name member member'
  rw [key_of_listed member, key_of_listed member']

end FileTree

end InstallScript
