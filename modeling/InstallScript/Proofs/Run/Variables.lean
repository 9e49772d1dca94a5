import Mathlib.Data.List.Forall2
import Mathlib.Logic.Relation
import InstallScript.Scopes

/-!
What a run may do to variables while it is inside a block (`Scopes.Step`): open frames, close those
that it has opened, bind names in them, and change the nearest binding of a name. So the frames
around the block keep their names, and change only where a name is changed that they bind and that
no frame further inside binds (`Scopes.keeps_enclosing`).
-/

namespace InstallScript

/-! ## Changes of bindings -/

/-- A change of a name that is bound keeps the names. -/
theorem Bindings.names_set {b : Bindings} {name : String} {value : Value}
    (bound : (b.lookup name).isSome = true) : (b.set name value).map Prod.fst = b.map Prod.fst := by
  induction b with
  | nil => cases bound
  | cons entry rest ih =>
    obtain ⟨key, old⟩ := entry
    rw [Bindings.set]
    split
    · rfl
    · rename_i other
      rw [List.lookup_cons, beq_false_of_ne (Ne.symm other)] at bound
      rw [List.map_cons, List.map_cons, ih bound]

/-- The same names, and the same values of all names that are not among those touched. -/
structure Bindings.Keeps (touched : String → Prop) (b b' : Bindings) : Prop where
  names : b'.map Prod.fst = b.map Prod.fst
  values : ∀ key, ¬ touched key → b'.lookup key = b.lookup key

theorem Bindings.Keeps.refl {touched : String → Prop} (b : Bindings) : b.Keeps touched b :=
  ⟨rfl, fun _ _ => rfl⟩

theorem Bindings.Keeps.trans {touched : String → Prop} {b b' b'' : Bindings}
    (first : b.Keeps touched b') (second : b'.Keeps touched b'') : b.Keeps touched b'' :=
  ⟨second.names.trans first.names,
    fun key free => (second.values key free).trans (first.values key free)⟩

theorem Bindings.keeps_set {touched : String → Prop} {b : Bindings} {name : String} {value : Value}
    (bound : (b.lookup name).isSome = true) (target : touched name) :
    b.Keeps touched (b.set name value) := by
  refine ⟨names_set bound, fun key free => lookup_set_of_ne b value ?_⟩
  rintro rfl
  exact free target

namespace Scopes

/-- The nearest binding of a key is changed: that in the innermost frame that binds it or, if no
frame does, that among the globals. -/
inductive Changed (s : Scopes) (key : String) (value : Value) : Scopes → Prop
  | frame {inner outer : List Frame} {f : Frame} (frames : s.frames = inner ++ f :: outer)
    (nearest : ∀ g ∈ inner, g.binds key = false) (bound : f.binds key = true) :
    Changed s key value
      { s with frames := inner ++ { f with bindings := f.bindings.set key value } :: outer }
  | globals (free : ∀ g ∈ s.frames, g.binds key = false)
    (bound : (s.globals.lookup key).isSome = true) :
    Changed s key value { s with globals := s.globals.set key value }

theorem updateFrames?_eq_some {key : String} {value : Value} {frames frames' : List Frame}
    (updates : updateFrames? key value frames = some frames') :
    ∃ inner f outer, frames = inner ++ f :: outer ∧ (∀ g ∈ inner, g.binds key = false) ∧
      f.binds key = true ∧
      frames' = inner ++ { f with bindings := f.bindings.set key value } :: outer := by
  induction frames generalizing frames' with
  | nil => cases updates
  | cons f rest ih =>
    rw [updateFrames?] at updates
    split at updates
    · rename_i bound
      cases updates
      exact ⟨[], f, rest, rfl, List.forall_mem_nil _, bound, rfl⟩
    · rename_i free
      obtain ⟨rest', further, rfl⟩ := Option.map_eq_some_iff.1 updates
      obtain ⟨inner, g, outer, rfl, nearest, bound, rfl⟩ := ih further
      refine ⟨f :: inner, g, outer, rfl, ?_, bound, rfl⟩
      exact List.forall_mem_cons.2 ⟨Bool.eq_false_iff.2 free, nearest⟩

theorem updateFrames?_eq_none {key : String} {value : Value} {frames : List Frame}
    (free : updateFrames? key value frames = none) : ∀ g ∈ frames, g.binds key = false := by
  induction frames with
  | nil => exact List.forall_mem_nil _
  | cons f rest ih =>
    rw [updateFrames?] at free
    split at free
    · cases free
    · rename_i notHere
      exact List.forall_mem_cons.2 ⟨Bool.eq_false_iff.2 notHere, ih (Option.map_eq_none_iff.1 free)⟩

/-- An update changes the nearest binding. -/
theorem changed_of_update? {s s' : Scopes} {name : String} {value : Value}
    (updates : s.update? name value = some s') : s.Changed (s.key name) value s' := by
  unfold update? at updates
  split at updates
  · rename_i frames changed
    obtain ⟨inner, f, outer, eq, nearest, bound, rfl⟩ := updateFrames?_eq_some changed
    cases updates
    exact .frame eq nearest bound
  · rename_i free
    split at updates
    · rename_i bound
      cases updates
      exact .globals (updateFrames?_eq_none free) bound
    · cases updates

theorem Changed.depth {s s' : Scopes} {key : String} {value : Value}
    (changed : s.Changed key value s') : s'.depth = s.depth := by
  cases changed with
  | frame frames => simp [Scopes.depth, frames]
  | globals => rfl

/-! ## Steps -/

/-- What may happen to variables inside a block around which there are as many frames as the floor
says. Of the names that are bound only targets are changed. -/
inductive Step (floor : Nat) (targets : String → Prop) (s : Scopes) : Scopes → Prop
  | opens (name : String) : Step floor targets s (s.push name)
  | closes (inside : floor < s.depth) : Step floor targets s s.pop
  | binds (inside : floor < s.depth) (name : String) (value : Value) :
    Step floor targets s (s.bind name value)
  | sets {name : String} {value : Value} {s' : Scopes} (target : targets name)
    (changed : s.Changed (s.key name) value s') : Step floor targets s s'

/-- What may happen to variables inside a block, in the course of time. -/
abbrev Reaches (floor : Nat) (targets : String → Prop) : Scopes → Scopes → Prop :=
  Relation.ReflTransGen (Step floor targets)

/-- The outermost frames, as many as the floor says. -/
def enclosing (s : Scopes) (floor : Nat) : List Frame :=
  s.frames.drop (s.depth - floor)

/-- Frames that have kept their names, one by one; only touched ones have other values. -/
abbrev FramesKeep (touched : String → Prop) : List Frame → List Frame → Prop :=
  List.Forall₂ fun f f' => f'.name = f.name ∧ f.bindings.Keeps touched f'.bindings

theorem FramesKeep.refl {touched : String → Prop} (frames : List Frame) :
    FramesKeep touched frames frames :=
  List.forall₂_same.2 fun _ _ => ⟨rfl, .refl _⟩

theorem FramesKeep.trans {touched : String → Prop} {frames frames' frames'' : List Frame}
    (first : FramesKeep touched frames frames') (second : FramesKeep touched frames' frames'') :
    FramesKeep touched frames frames'' := by
  induction first generalizing frames'' with
  | nil => exact second
  | cons keeps _ ih =>
    cases second with
    | cons keeps' others =>
      exact .cons ⟨keeps'.1.trans keeps.1, keeps.2.trans keeps'.2⟩ (ih others)

/-- The frames around a block and the globals have kept their names; only touched ones have other
values. -/
structure KeepsEnclosing (floor : Nat) (touched : String → Prop) (s s' : Scopes) : Prop where
  deep : floor ≤ s'.depth
  caseSensitive : s'.caseSensitive = s.caseSensitive
  globals : s.globals.Keeps touched s'.globals
  frames : FramesKeep touched (s.enclosing floor) (s'.enclosing floor)

theorem KeepsEnclosing.of_eq {floor : Nat} {touched : String → Prop} {s s' : Scopes}
    (deep : floor ≤ s'.depth) (caseSensitive : s'.caseSensitive = s.caseSensitive)
    (globals : s'.globals = s.globals) (frames : s'.enclosing floor = s.enclosing floor) :
    s.KeepsEnclosing floor touched s' :=
  ⟨deep, caseSensitive, globals ▸ .refl _, frames ▸ .refl _⟩

theorem KeepsEnclosing.trans {floor : Nat} {touched : String → Prop} {s s' s'' : Scopes}
    (first : s.KeepsEnclosing floor touched s') (second : s'.KeepsEnclosing floor touched s'') :
    s.KeepsEnclosing floor touched s'' :=
  ⟨second.deep, second.caseSensitive.trans first.caseSensitive,
    first.globals.trans second.globals, first.frames.trans second.frames⟩

theorem KeepsEnclosing.refl {floor : Nat} {touched : String → Prop} {s : Scopes}
    (deep : floor ≤ s.depth) : s.KeepsEnclosing floor touched s :=
  .of_eq deep rfl rfl rfl

/-- One step keeps the frames around the block. -/
theorem Step.keepsEnclosing {floor : Nat} {targets : String → Prop} {s s' : Scopes}
    (step : s.Step floor targets s') (deep : floor ≤ s.depth) :
    s.KeepsEnclosing floor (fun key => ∃ name, targets name ∧ s.key name = key) s' := by
  cases step with
  | opens name =>
    refine .of_eq (Nat.le_succ_of_le deep) rfl rfl ?_
    show List.drop (s.depth + 1 - floor) (⟨name, []⟩ :: s.frames) = _
    rw [Nat.succ_sub deep]
    rfl
  | closes inside =>
    have deeper : floor ≤ s.pop.depth := by
      rw [depth_pop]
      omega
    refine .of_eq deeper rfl rfl ?_
    show List.drop (s.pop.depth - floor) s.frames.tail = List.drop (s.depth - floor) s.frames
    rw [List.drop_tail, depth_pop]
    congr 1
    omega
  | binds inside name value =>
    obtain ⟨caseSensitive, globals, frames⟩ := s
    cases frames with
    | nil => exact absurd inside (Nat.not_lt_zero _)
    | cons f rest =>
      refine .of_eq deep rfl rfl ?_
      have some' : rest.length + 1 - floor = rest.length - floor + 1 :=
        Nat.succ_sub (Nat.lt_succ_iff.1 inside)
      show List.drop (rest.length + 1 - floor) _ = List.drop (rest.length + 1 - floor) _
      rw [some']
      rfl
  | @sets name value _ target changed =>
    have depth := changed.depth
    have deep' : floor ≤ s'.depth := depth ▸ deep
    have touched : ∃ name', targets name' ∧ s.key name' = s.key name := ⟨name, target, rfl⟩
    cases changed with
    | @frame inner outer f frames nearest bound =>
      refine ⟨deep', rfl, .refl _, ?_⟩
      have keeps : FramesKeep (fun key => ∃ name, targets name ∧ s.key name = key) s.frames
          (inner ++ { f with bindings := f.bindings.set (s.key name) value } :: outer) := by
        rw [frames]
        exact List.rel_append (FramesKeep.refl inner)
          (.cons ⟨rfl, Bindings.keeps_set bound touched⟩ (FramesKeep.refl outer))
      unfold enclosing
      rw [depth]
      exact List.forall₂_drop _ keeps
    | globals free bound =>
      exact ⟨deep', rfl, Bindings.keeps_set bound touched, FramesKeep.refl _⟩

/-- Inside a block the frames around it keep their names, and of their values only those of targets
may be changed. -/
theorem keeps_enclosing {floor : Nat} {targets : String → Prop} {s s' : Scopes}
    (reaches : s.Reaches floor targets s') (deep : floor ≤ s.depth) :
    s.KeepsEnclosing floor (fun key => ∃ name, targets name ∧ s.key name = key) s' := by
  induction reaches with
  | refl => exact .refl deep
  | @tail t t' _ step ih =>
    have same : t.key = s.key := by
      funext name
      unfold key
      rw [ih.caseSensitive]
    have next := step.keepsEnclosing ih.deep
    rw [same] at next
    exact ih.trans next

end Scopes

end InstallScript
