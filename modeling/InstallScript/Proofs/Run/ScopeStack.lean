import InstallScript.Proofs.Run.Variables
import Mathlib.Logic.Function.Basic

/-!
Variables as a stack of maps. The frames and, below them, the globals are maps from keys to values
(`Scopes.maps`); a name is read from the nearest map that has its key, binding changes the top map,
updating the nearest one that has the key, and closing a block takes the top map away.

What is below a frame is changed while the frame is open by the updates that find nothing in the
frame and above it, and by nothing else (`Scopes.below_performAll`).
-/

namespace InstallScript

/-- What can be done to variables. -/
inductive ScopeOperation
  | bind (name : String) (value : Value)
  | update (name : String) (value : Value)
  | push (name : String)
  | pop

namespace Scopes

/-- One operation. An update that finds nothing changes nothing. -/
def perform (s : Scopes) : ScopeOperation → Scopes
  | .bind name value => s.bind name value
  | .update name value => (s.update? name value).getD s
  | .push name => s.push name
  | .pop => s.pop

/-- Operations one after another. -/
def performAll (s : Scopes) (operations : List ScopeOperation) : Scopes :=
  operations.foldl perform s

/-- All scopes: the frames, innermost first, and the global scope. -/
def all (s : Scopes) : List Frame := s.frames ++ [{ name := "global", bindings := s.globals }]

/-- The map of a scope. -/
def mapOf (f : Frame) (key : String) : Option Value := f.bindings.lookup key

/-- The maps of all scopes. -/
def maps (s : Scopes) : List (String → Option Value) := s.all.map mapOf

/-! ## Reading and binding -/

/-- A name has its value in the nearest scope that binds it. -/
theorem get?_eq (s : Scopes) (name : String) :
    s.get? name = s.all.findSome? fun f => mapOf f (s.key name) := by
  obtain ⟨caseSensitive, globals, frames⟩ := s
  unfold get? all
  generalize Scopes.key _ name = key
  dsimp only
  induction frames with
  | nil =>
    rw [lookupKey, List.nil_append, List.findSome?_singleton]
    rfl
  | cons f rest ih =>
    rw [lookupKey, List.cons_append, List.findSome?_cons, ih]
    unfold mapOf
    cases f.bindings.lookup key <;> rfl

theorem get?_isSome_iff (s : Scopes) (name : String) :
    (s.get? name).isSome ↔ ∃ f ∈ s.all, f.binds (s.key name) = true := by
  rw [get?_eq, List.isSome_findSome?, List.any_eq_true]
  rfl

theorem mapOf_set (f : Frame) (key : String) (value : Value) :
    mapOf { f with bindings := f.bindings.set key value } =
      Function.update (mapOf f) key (some value) := by
  funext k
  by_cases same : k = key
  · rw [same, Function.update_self]
    exact Bindings.lookup_set_self ..
  · rw [Function.update_of_ne same]
    exact Bindings.lookup_set_of_ne _ value same

/-- Binding changes the innermost scope. -/
theorem all_bind (s : Scopes) (name : String) (value : Value) :
    ∃ f outer, s.all = f :: outer ∧ (s.bind name value).all =
      { f with bindings := f.bindings.set (s.key name) value } :: outer := by
  obtain ⟨caseSensitive, globals, frames⟩ := s
  cases frames with
  | nil => exact ⟨_, [], rfl, rfl⟩
  | cons f rest => exact ⟨f, _, rfl, rfl⟩

/-! ## Updating -/

/-- An update changes the nearest scope that binds the name. -/
theorem Changed.all {s s' : Scopes} {key : String} {value : Value}
    (changed : s.Changed key value s') : ∃ inner f outer, s.all = inner ++ f :: outer ∧
      (∀ g ∈ inner, g.binds key = false) ∧ f.binds key = true ∧
      s'.all = inner ++ { f with bindings := f.bindings.set key value } :: outer := by
  cases changed with
  | @frame inner outer f frames nearest bound =>
    refine ⟨inner, f, _, ?_, nearest, bound, List.append_assoc ..⟩
    rw [Scopes.all, frames, List.append_assoc]
    rfl
  | globals free bound => exact ⟨s.frames, _, [], rfl, free, bound, rfl⟩

theorem free_of_update? {s : Scopes} {name : String} {value : Value}
    (none : s.update? name value = none) : ∀ f ∈ s.all, f.binds (s.key name) = false := by
  unfold update? at none
  split at none
  · cases none
  · rename_i free
    split at none
    · cases none
    · rename_i unbound
      refine List.forall_mem_append.2 ⟨updateFrames?_eq_none free, ?_⟩
      exact List.forall_mem_singleton.2 (Bool.eq_false_iff.2 unbound)

/-- A name can be updated if it has a value. -/
theorem update?_isSome (s : Scopes) (name : String) (value : Value) :
    (s.update? name value).isSome = (s.get? name).isSome := by
  rw [Bool.eq_iff_iff, get?_isSome_iff]
  cases updates : s.update? name value with
  | none =>
    refine iff_of_false nofun ?_
    rintro ⟨f, inside, bound⟩
    rw [free_of_update? updates f inside] at bound
    cases bound
  | some s' =>
    obtain ⟨inner, f, outer, all, -, bound, -⟩ := (changed_of_update? updates).all
    exact iff_of_true rfl ⟨f, all ▸ List.mem_append_right _ (List.mem_cons_self ..), bound⟩

/-! ## Maps -/

/-- A name has its value in the nearest map. -/
theorem get?_eq_maps (s : Scopes) (name : String) :
    s.get? name = s.maps.findSome? fun map => map (s.key name) := by
  rw [get?_eq, maps, List.findSome?_map]
  rfl

/-- Binding changes one key of the top map. -/
theorem maps_bind (s : Scopes) (name : String) (value : Value) :
    ∃ map outer, s.maps = map :: outer ∧
      (s.bind name value).maps = Function.update map (s.key name) (some value) :: outer := by
  obtain ⟨f, outer, all, changed⟩ := s.all_bind name value
  refine ⟨mapOf f, outer.map mapOf, ?_, ?_⟩
  · rw [maps, all, List.map_cons]
  · rw [maps, changed, List.map_cons, mapOf_set]

/-- An update changes one key of the nearest map that has it. -/
theorem maps_of_update? {s s' : Scopes} {name : String} {value : Value}
    (updates : s.update? name value = some s') :
    ∃ inner, ∃ map : String → Option Value, ∃ outer, s.maps = inner ++ map :: outer ∧
      (∀ m ∈ inner, m (s.key name) = none) ∧ (map (s.key name)).isSome = true ∧
      s'.maps = inner ++ Function.update map (s.key name) (some value) :: outer := by
  obtain ⟨inner, f, outer, all, nearest, bound, changed⟩ := (changed_of_update? updates).all
  refine ⟨inner.map mapOf, mapOf f, outer.map mapOf, ?_, ?_, bound, ?_⟩
  · rw [maps, all, List.map_append, List.map_cons]
  · rintro m inside
    obtain ⟨g, inside', rfl⟩ := List.mem_map.1 inside
    exact Option.isNone_iff_eq_none.1 (Option.isSome_eq_false_iff.1 (nearest g inside'))
  · rw [maps, changed, List.map_append, List.map_cons, mapOf_set]

theorem maps_push (s : Scopes) (name : String) : (s.push name).maps = (fun _ => none) :: s.maps :=
  rfl

theorem maps_pop {s : Scopes} (isOpen : 0 < s.depth) : s.pop.maps = s.maps.tail := by
  obtain ⟨caseSensitive, globals, frames⟩ := s
  cases frames with
  | nil => exact absurd isOpen (Nat.lt_irrefl 0)
  | cons f rest => rfl

/-! ## What is below a frame -/

/-- What is left when blocks are closed until as many are open as the floor says. -/
def below (floor : Nat) (s : Scopes) : Scopes := { s with frames := s.enclosing floor }

/-- An operation reaches below the floor: an update that finds nothing in the frames above it. -/
def reachesBelow (floor : Nat) (s : Scopes) : ScopeOperation → Bool
  | .update name _ => (s.frames.take (s.depth - floor)).all fun f => !f.binds (s.key name)
  | _ => false

/-- The updates among operations that reach below the floor. -/
def updatesBelow (floor : Nat) : Scopes → List ScopeOperation → List ScopeOperation
  | _, [] => []
  | s, operation :: rest =>
    let later := updatesBelow floor (s.perform operation) rest
    if s.reachesBelow floor operation then operation :: later else later

/-- An update that finds a binding in the inner frames leaves the outer ones. -/
theorem updateFrames?_inner {key : String} {inner : List Frame}
    (bound : ∃ f ∈ inner, f.binds key = true) (value : Value) (outer : List Frame) :
    ∃ inner', inner'.length = inner.length ∧
      updateFrames? key value (inner ++ outer) = some (inner' ++ outer) := by
  induction inner with
  | nil =>
    obtain ⟨f, inside, -⟩ := bound
    cases inside
  | cons f rest ih =>
    rw [List.cons_append, updateFrames?]
    by_cases here : f.binds key = true
    · rw [if_pos here]
      exact ⟨{ f with bindings := f.bindings.set key value } :: rest, rfl, rfl⟩
    · obtain ⟨g, inside, bound⟩ := bound
      have further : ∃ f ∈ rest, f.binds key = true := by
        rcases List.mem_cons.1 inside with rfl | inside
        · exact absurd bound here
        · exact ⟨g, inside, bound⟩
      obtain ⟨rest', length, updates⟩ := ih further
      rw [if_neg here, updates]
      exact ⟨f :: rest', congrArg (· + 1) length, rfl⟩

/-- An update that finds nothing in the inner frames goes on to the outer ones. -/
theorem updateFrames?_outer {key : String} {inner : List Frame}
    (free : ∀ f ∈ inner, f.binds key = false) (value : Value) (outer : List Frame) :
    updateFrames? key value (inner ++ outer) =
      (updateFrames? key value outer).map (inner ++ ·) := by
  induction inner with
  | nil => exact Option.map_id'.symm
  | cons f rest ih =>
    obtain ⟨here, further⟩ := List.forall_mem_cons.1 free
    rw [List.cons_append, updateFrames?, here, if_neg Bool.false_ne_true, ih further,
      Option.map_map]
    rfl

/-- An update that reaches below the floor is one of what is there. -/
theorem update?_below {s : Scopes} {floor : Nat} {name : String} {value : Value}
    (free : ∀ f ∈ s.frames.take (s.depth - floor), f.binds (s.key name) = false) :
    s.update? name value = ((s.below floor).update? name value).map fun t =>
      { t with frames := s.frames.take (s.depth - floor) ++ t.frames } := by
  have further := updateFrames?_outer free value (s.frames.drop (s.depth - floor))
  rw [List.take_append_drop] at further
  have key : (s.below floor).key name = s.key name := rfl
  have frames : (s.below floor).frames = s.frames.drop (s.depth - floor) := rfl
  have globals : (s.below floor).globals = s.globals := rfl
  unfold update?
  rw [further, key, frames, globals]
  cases updateFrames? (s.key name) value (s.frames.drop (s.depth - floor)) with
  | some outer => rfl
  | none =>
    dsimp only [Option.map_none]
    split
    · refine congrArg some (Scopes.mk.injEq .. ▸ ⟨rfl, rfl, ?_⟩)
      exact (List.take_append_drop _ _).symm
    · rfl

theorem depth_below {s : Scopes} {floor : Nat} (deep : floor ≤ s.depth) :
    (s.below floor).depth = floor := by
  show (s.frames.drop (s.depth - floor)).length = floor
  rw [List.length_drop]
  exact Nat.sub_sub_self deep

/-- Frames in front of those below the floor are taken away again. -/
theorem below_append {t : Scopes} (inner : List Frame) :
    ({ t with frames := inner ++ t.frames } : Scopes).below t.depth = t := by
  have length : (inner ++ t.frames).length - t.frames.length = inner.length := by
    rw [List.length_append, Nat.add_sub_cancel]
  show Scopes.mk _ _ (List.drop ((inner ++ t.frames).length - t.frames.length) _) = t
  rw [length, List.drop_left]

/-- What one operation does to the frames below. -/
theorem below_perform {s : Scopes} {floor : Nat} {operation : ScopeOperation}
    (inside : floor < s.depth) (stays : floor < (s.perform operation).depth) :
    (s.perform operation).below floor =
      if s.reachesBelow floor operation then (s.below floor).perform operation
      else s.below floor := by
  have above : s.depth - floor = s.depth - floor - 1 + 1 := by omega
  cases operation with
  | bind name value =>
    show (s.bind name value).below floor = s.below floor
    obtain ⟨caseSensitive, globals, frames⟩ := s
    cases frames with
    | nil => exact absurd inside (Nat.not_lt_zero _)
    | cons f rest =>
      refine congrArg (Scopes.mk caseSensitive globals) ?_
      unfold enclosing
      rw [depth_bind, above]
      rfl
  | push name =>
    show Scopes.mk _ _ (List.drop (s.depth + 1 - floor) (_ :: s.frames)) = s.below floor
    rw [Nat.succ_sub (Nat.le_of_lt inside), List.drop_succ_cons]
    rfl
  | pop =>
    have stays' : floor < s.depth - 1 := depth_pop s ▸ stays
    show Scopes.mk _ _ (List.drop (s.pop.depth - floor) s.frames.tail) = s.below floor
    rw [List.drop_tail, depth_pop, Nat.sub_right_comm, ← above]
    rfl
  | update name value =>
    have deep := depth_below (Nat.le_of_lt inside)
    show ((s.update? name value).getD s).below floor = if List.all _ _ = true then
      ((s.below floor).update? name value).getD (s.below floor) else _
    split
    · rename_i all
      have free : ∀ f ∈ s.frames.take (s.depth - floor), f.binds (s.key name) = false := by
        simpa using all
      rw [update?_below free]
      cases updates : (s.below floor).update? name value with
      | none => rfl
      | some t =>
        have depth : t.depth = floor := (changed_of_update? updates).depth.trans deep
        rw [Option.map_some, Option.getD_some, ← depth]
        exact below_append _
    · rename_i some'
      have bound : ∃ f ∈ s.frames.take (s.depth - floor), f.binds (s.key name) = true := by
        simpa using some'
      obtain ⟨inner, length, updates⟩ := updateFrames?_inner bound value
        (s.frames.drop (s.depth - floor))
      rw [List.take_append_drop] at updates
      unfold update?
      rw [updates, Option.getD_some]
      have back := below_append (t := s.below floor) inner
      rwa [deep] at back

/-- What is below a frame is changed while the frame is open by the updates that reach there, in
their order, and by nothing else. -/
theorem below_performAll {s : Scopes} {floor : Nat} {operations : List ScopeOperation}
    (stays : ∀ early, early <+: operations → floor < (s.performAll early).depth) :
    (s.performAll operations).below floor =
      (s.below floor).performAll (s.updatesBelow floor operations) := by
  induction operations generalizing s with
  | nil => rfl
  | cons operation rest ih =>
    have inside : floor < s.depth := stays [] (List.nil_prefix ..)
    have next : floor < (s.perform operation).depth := stays [operation] ⟨rest, rfl⟩
    have later := ih fun early before =>
      stays (operation :: early) (List.cons_prefix_cons.2 ⟨rfl, before⟩)
    rw [performAll, List.foldl_cons]
    refine later.trans ?_
    rw [below_perform inside next, updatesBelow]
    split <;> rfl

/-- A block that is opened and closed leaves what was there, after the updates that reached out of
the block. -/
theorem pop_performAll {s : Scopes} {name : String} {operations : List ScopeOperation}
    (stays : ∀ early, early <+: operations → s.depth < ((s.push name).performAll early).depth)
    (innermost : ((s.push name).performAll operations).depth = s.depth + 1) :
    ((s.push name).performAll operations).pop =
      s.performAll ((s.push name).updatesBelow s.depth operations) := by
  have below := below_performAll stays
  have opened : (s.push name).below s.depth = s := below_append [{ name }]
  rw [opened] at below
  rw [← below]
  refine congrArg (Scopes.mk _ _) ?_
  unfold enclosing
  rw [innermost, Nat.add_sub_cancel_left, List.drop_one]

end Scopes

end InstallScript
