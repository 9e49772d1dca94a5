import InstallScript.Proofs.Run.ScopeStack

/-!
Scopes that know the scope around them. Each scope has a place in a store and the place of its
parent; the open blocks are a list of places (`LinkedScopes`). A name is looked for along the
parents. After the same operations this is the same as looking through a list of frames: the parents
of an open block are the blocks beneath it in their order and the global scope, with the same
bindings (`LinkedScopes.Mirrors`). So both behave as a stack of maps
(`LinkedScopes.behaves_as_stack`).
-/

namespace InstallScript

/-- A scope and the place of the one around it. -/
structure LinkedScope where
  frame : Frame
  parent : Option Nat

/-- Scopes at their places and the places of the open blocks, innermost first. The global scope is
at place 0. -/
structure LinkedScopes where
  caseSensitive : Bool
  cells : List LinkedScope
  opened : List Nat

namespace LinkedScopes

/-- Nothing but an empty global scope. -/
def initial (caseSensitive : Bool) : LinkedScopes where
  caseSensitive
  cells := [{ frame := { name := "global" }, parent := none }]
  opened := []

/-- The places of the open blocks and of the global scope. -/
def places (l : LinkedScopes) : List Nat := l.opened ++ [0]

/-- The place of the innermost scope. -/
def current (l : LinkedScopes) : Nat := l.opened.headD 0

/-- The form in which a name is kept. -/
def key (l : LinkedScopes) (name : String) : String :=
  if l.caseSensitive then name else Text.fold name

/-- The scope at a place, without its parent. -/
def frame? (l : LinkedScopes) (place : Nat) : Option Frame := l.cells[place]?.map (·.frame)

/-- The places from one outwards along the parents. A parent is older than its scope. -/
def chain (l : LinkedScopes) (place : Nat) : List Nat :=
  match l.cells[place]? with
  | none => []
  | some cell =>
    match cell.parent with
    | none => [place]
    | some outer => if outer < place then place :: l.chain outer else [place]
termination_by place

/-- The value of a name in the nearest scope that binds it. -/
def get? (l : LinkedScopes) (name : String) : Option Value :=
  (l.chain l.current).findSome? fun place =>
    (l.frame? place).bind fun f => Scopes.mapOf f (l.key name)

/-- Binds a key in the scope at a place. -/
def setAt (l : LinkedScopes) (place : Nat) (key : String) (value : Value) : LinkedScopes :=
  { l with
    cells := l.cells.modify place fun cell =>
      { cell with frame.bindings := cell.frame.bindings.set key value } }

/-- Binds a name in the innermost scope. -/
def bind (l : LinkedScopes) (name : String) (value : Value) : LinkedScopes :=
  l.setAt l.current (l.key name) value

/-- Changes the nearest binding of a name, and says whether there is one. -/
def update (l : LinkedScopes) (name : String) (value : Value) : Bool × LinkedScopes :=
  match (l.chain l.current).find? fun place => (l.frame? place).any (·.binds (l.key name)) with
  | some place => (true, l.setAt place (l.key name) value)
  | none => (false, l)

/-- Opens a block inside the innermost scope. -/
def push (l : LinkedScopes) (name : String) : LinkedScopes :=
  { l with
    cells := l.cells ++ [{ frame := { name }, parent := some l.current }]
    opened := l.cells.length :: l.opened }

/-- Closes the innermost block. -/
def pop (l : LinkedScopes) : LinkedScopes := { l with opened := l.opened.tail }

/-- One operation. -/
def perform (l : LinkedScopes) : ScopeOperation → LinkedScopes
  | .bind name value => l.bind name value
  | .update name value => (l.update name value).2
  | .push name => l.push name
  | .pop => l.pop

/-- Operations one after another. -/
def performAll (l : LinkedScopes) (operations : List ScopeOperation) : LinkedScopes :=
  operations.foldl perform l

/-! ## Two forms of the same scopes -/

/-- The open blocks and the global scope are those of `s`, and each one's parent is the next. -/
structure Mirrors (l : LinkedScopes) (s : Scopes) : Prop where
  caseSensitive : l.caseSensitive = s.caseSensitive
  descending : l.places.Pairwise (· > ·)
  parents : ∀ {inner p outer}, l.places = inner ++ p :: outer →
    l.cells[p]?.map (·.parent) = some outer.head?
  contents : l.places.map l.frame? = s.all.map some

theorem places_eq_cons (l : LinkedScopes) : l.places = l.current :: l.places.tail := by
  unfold places current
  cases l.opened <;> rfl

namespace Mirrors

variable {l : LinkedScopes} {s : Scopes}

theorem key (mirrors : l.Mirrors s) (name : String) : l.key name = s.key name := by
  unfold LinkedScopes.key Scopes.key
  rw [mirrors.caseSensitive]

/-- The parents of a scope are those beneath it, in order. -/
theorem chain (mirrors : l.Mirrors s) {inner outer : List Nat} {p : Nat}
    (split : l.places = inner ++ p :: outer) : l.chain p = p :: outer := by
  induction outer generalizing inner p with
  | nil =>
    obtain ⟨cell, found, parent⟩ := Option.map_eq_some_iff.1 (mirrors.parents split)
    rw [LinkedScopes.chain, found]
    dsimp only
    rw [parent]
    rfl
  | cons q rest ih =>
    obtain ⟨cell, found, parent⟩ := Option.map_eq_some_iff.1 (mirrors.parents split)
    have older : q < p := by
      have descending := mirrors.descending
      rw [split] at descending
      have beneath := (List.pairwise_append.1 descending).2.1
      exact List.rel_of_pairwise_cons beneath (List.mem_cons_self ..)
    have further : l.places = (inner ++ [p]) ++ q :: rest := by
      rw [split, List.append_assoc]
      rfl
    have next := ih further
    rw [LinkedScopes.chain, found]
    dsimp only
    rw [parent]
    dsimp only [List.head?_cons]
    rw [if_pos older, next]

theorem chain_current (mirrors : l.Mirrors s) : l.chain l.current = l.places := by
  have split : l.places = [] ++ l.current :: l.places.tail := l.places_eq_cons
  exact (mirrors.chain split).trans split.symm

/-- Both give the same value to a name. -/
theorem get? (mirrors : l.Mirrors s) (name : String) : l.get? name = s.get? name := by
  rw [LinkedScopes.get?, mirrors.chain_current, Scopes.get?_eq, mirrors.key]
  have same := congrArg (List.findSome? fun f : Option Frame =>
    f.bind fun f => Scopes.mapOf f (s.key name)) mirrors.contents
  rw [List.findSome?_map, List.findSome?_map] at same
  exact same

theorem frame?_setAt (place : Nat) (key : String) (value : Value) (q : Nat) :
    (l.setAt place key value).frame? q = (l.frame? q).map fun f =>
      if place = q then { f with bindings := f.bindings.set key value } else f := by
  unfold setAt frame?
  rw [List.getElem?_modify]
  cases l.cells[q]? with
  | none => rfl
  | some cell =>
    show some _ = some _
    split <;> rfl

/-- A change of one scope in both forms. -/
theorem setAt (mirrors : l.Mirrors s) {s' : Scopes} {inner outer : List Nat} {p : Nat}
    {inner' outer' : List Frame} {f : Frame} {key : String} {value : Value}
    (split : l.places = inner ++ p :: outer) (same : s'.caseSensitive = s.caseSensitive)
    (front : inner.map l.frame? = inner'.map some) (here : l.frame? p = some f)
    (back : outer.map l.frame? = outer'.map some)
    (changed : s'.all = inner' ++ { f with bindings := f.bindings.set key value } :: outer') :
    (l.setAt p key value).Mirrors s' := by
  have places : (l.setAt p key value).places = l.places := rfl
  have descending := mirrors.descending
  have distinct : p ∉ inner ∧ p ∉ outer := by
    rw [split] at descending
    obtain ⟨-, later, earlier⟩ := List.pairwise_append.1 descending
    refine ⟨fun before => ?_, fun after => ?_⟩
    · exact Nat.lt_irrefl p (earlier p before p (List.mem_cons_self ..))
    · exact Nat.lt_irrefl p (List.rel_of_pairwise_cons later after)
  have other {q : Nat} (ne : q ≠ p) : (l.setAt p key value).frame? q = l.frame? q := by
    rw [frame?_setAt]
    simp only [if_neg ne.symm]
    exact Option.map_id'
  refine ⟨mirrors.caseSensitive.trans same.symm, descending, fun {inner q outer} split => ?_, ?_⟩
  · rw [← mirrors.parents split]
    show Option.map _ ((l.cells.modify p _)[q]?) = _
    rw [List.getElem?_modify]
    cases l.cells[q]? with
    | none => rfl
    | some cell =>
      show some _ = some _
      split <;> rfl
  · have inner_same : inner.map (l.setAt p key value).frame? = inner.map l.frame? :=
      List.map_congr_left fun q inside => other fun eq => distinct.1 (eq ▸ inside)
    have outer_same : outer.map (l.setAt p key value).frame? = outer.map l.frame? :=
      List.map_congr_left fun q inside => other fun eq => distinct.2 (eq ▸ inside)
    rw [places, split, changed, List.map_append, List.map_append, List.map_cons, List.map_cons,
      inner_same, outer_same, front, back, frame?_setAt, here, Option.map_some, if_pos rfl]

/-- Where the scopes of `s` are. -/
theorem places_of_all (mirrors : l.Mirrors s) {inner outer : List Frame} {f : Frame}
    (all : s.all = inner ++ f :: outer) : ∃ before p after, l.places = before ++ p :: after ∧
      before.map l.frame? = inner.map some ∧ l.frame? p = some f ∧
      after.map l.frame? = outer.map some := by
  have contents := mirrors.contents
  rw [all, List.map_append, List.map_cons] at contents
  obtain ⟨before, rest, split, front, others⟩ := List.map_eq_append_iff.1 contents
  obtain ⟨p, after, rfl, here, back⟩ := List.map_eq_cons_iff.1 others
  exact ⟨before, p, after, split, front, here, back⟩

theorem bind (mirrors : l.Mirrors s) (name : String) (value : Value) :
    (l.bind name value).Mirrors (s.bind name value) := by
  obtain ⟨f, outer, all, changed⟩ := s.all_bind name value
  have same : (s.bind name value).caseSensitive = s.caseSensitive := by
    unfold Scopes.bind
    cases s.frames <;> rfl
  have innermost : s.all = [] ++ f :: outer := all
  obtain ⟨before, p, after, split, front, here, back⟩ := mirrors.places_of_all innermost
  obtain rfl : before = [] := List.map_eq_nil_iff.1 front
  have current : l.current = p := (List.cons.inj (l.places_eq_cons.symm.trans split)).1
  unfold LinkedScopes.bind
  rw [current, mirrors.key]
  exact mirrors.setAt split same front here back changed

theorem unbound_of_free {places : List Nat} {frames : List Frame} {key : String}
    (contents : places.map l.frame? = frames.map some)
    (free : ∀ f ∈ frames, f.binds key = false) :
    ∀ p ∈ places, (l.frame? p).any (·.binds key) = false := by
  intro p inside
  have member : l.frame? p ∈ frames.map some := contents ▸ List.mem_map_of_mem inside
  obtain ⟨f, inside', eq⟩ := List.mem_map.1 member
  rw [← eq]
  exact free f inside'

/-- Both find the same bindings to change. -/
theorem update (mirrors : l.Mirrors s) (name : String) (value : Value) :
    (l.update name value).1 = (s.update? name value).isSome ∧
      (l.update name value).2.Mirrors ((s.update? name value).getD s) := by
  unfold LinkedScopes.update
  rw [mirrors.chain_current, mirrors.key]
  cases updates : s.update? name value with
  | none =>
    have absent : l.places.find? (fun p => (l.frame? p).any (·.binds (s.key name))) = none := by
      have free := unbound_of_free mirrors.contents (Scopes.free_of_update? updates)
      exact List.find?_eq_none.2 fun p inside => Bool.eq_false_iff.1 (free p inside)
    rw [absent]
    exact ⟨rfl, mirrors⟩
  | some s' =>
    have changes := Scopes.changed_of_update? updates
    obtain ⟨inner, f, outer, all, nearest, bound, changed⟩ := changes.all
    have same : s'.caseSensitive = s.caseSensitive := by
      cases changes <;> rfl
    obtain ⟨before, p, after, split, front, here, back⟩ := mirrors.places_of_all all
    have found : l.places.find? (fun p => (l.frame? p).any (·.binds (s.key name))) = some p := by
      refine List.find?_eq_some_iff_append.2 ⟨?_, before, after, split, fun q inside => ?_⟩
      · rw [here]
        exact bound
      · rw [unbound_of_free front nearest q inside]
        rfl
    rw [found]
    exact ⟨rfl, mirrors.setAt split same front here back changed⟩

theorem push (mirrors : l.Mirrors s) (name : String) : (l.push name).Mirrors (s.push name) := by
  have places : (l.push name).places = l.cells.length :: l.places := rfl
  have older : ∀ p ∈ l.places, p < l.cells.length := by
    intro p inside
    have member : l.frame? p ∈ s.all.map some := mirrors.contents ▸ List.mem_map_of_mem inside
    obtain ⟨f, -, eq⟩ := List.mem_map.1 member
    obtain ⟨cell, found, -⟩ := Option.map_eq_some_iff.1 eq.symm
    exact (List.getElem?_eq_some_iff.1 found).1
  have newest : (l.push name).cells[l.cells.length]? =
      some { frame := { name }, parent := some l.current } := List.getElem?_concat_length
  have kept {p : Nat} (inside : p ∈ l.places) : (l.push name).cells[p]? = l.cells[p]? :=
    List.getElem?_append_left (older p inside)
  refine ⟨mirrors.caseSensitive, ?_, fun {inner p outer} split => ?_, ?_⟩
  · rw [places]
    exact List.pairwise_cons.2 ⟨older, mirrors.descending⟩
  · rw [places] at split
    cases inner with
    | nil =>
      obtain ⟨rfl, rfl⟩ := List.cons.inj split
      rw [newest, l.places_eq_cons]
      rfl
    | cons q inner =>
      obtain ⟨-, split⟩ := List.cons.inj split
      have inside : p ∈ l.places := split ▸ List.mem_append_right _ (List.mem_cons_self ..)
      rw [kept inside]
      exact mirrors.parents split
  · have same : l.places.map (l.push name).frame? = l.places.map l.frame? :=
      List.map_congr_left fun p inside => congrArg (Option.map _) (kept inside)
    have top : (l.push name).frame? l.cells.length = some { name } := by
      unfold frame?
      rw [newest]
      rfl
    rw [places, List.map_cons, same, mirrors.contents, top]
    rfl

theorem pop (mirrors : l.Mirrors s) : l.pop.Mirrors s.pop := by
  have lengths := congrArg List.length mirrors.contents
  obtain ⟨caseSensitive, cells, opened⟩ := l
  obtain ⟨_, globals, frames⟩ := s
  cases opened with
  | nil =>
    cases frames with
    | nil => exact mirrors
    | cons f rest =>
      rw [List.length_map, List.length_map] at lengths
      exact absurd (Nat.succ.inj lengths).symm (by simp)
  | cons p opened =>
    cases frames with
    | nil =>
      rw [List.length_map, List.length_map] at lengths
      exact absurd (Nat.succ.inj lengths) (by simp)
    | cons f rest =>
      refine ⟨mirrors.caseSensitive, (List.pairwise_cons.1 mirrors.descending).2,
        fun {inner q outer} split => ?_, (List.cons.inj mirrors.contents).2⟩
      have behind : p :: opened ++ [0] = (p :: inner) ++ q :: outer := congrArg (p :: ·) split
      exact mirrors.parents behind

theorem perform (mirrors : l.Mirrors s) (operation : ScopeOperation) :
    (l.perform operation).Mirrors (s.perform operation) := by
  cases operation with
  | bind name value => exact mirrors.bind name value
  | update name value => exact (mirrors.update name value).2
  | push name => exact mirrors.push name
  | pop => exact mirrors.pop

theorem performAll (mirrors : l.Mirrors s) (operations : List ScopeOperation) :
    (l.performAll operations).Mirrors (s.performAll operations) := by
  induction operations generalizing l s with
  | nil => exact mirrors
  | cons operation rest ih => exact ih (mirrors.perform operation)

theorem initial (caseSensitive : Bool) :
    (LinkedScopes.initial caseSensitive).Mirrors { caseSensitive } := by
  refine ⟨rfl, List.pairwise_singleton .., fun {inner p outer} split => ?_, rfl⟩
  cases inner with
  | nil =>
    obtain ⟨rfl, rfl⟩ := List.cons.inj split
    rfl
  | cons q inner => exact absurd (List.cons.inj split).2 (by simp)

end Mirrors

/-- An update that fails changes nothing. -/
theorem update_of_failed {l : LinkedScopes} {name : String} {value : Value}
    (failed : (l.update name value).1 = false) : (l.update name value).2 = l := by
  unfold update at failed ⊢
  split at failed
  · cases failed
  · rfl

theorem caseSensitive_performAll (l : LinkedScopes) (operations : List ScopeOperation) :
    (l.performAll operations).caseSensitive = l.caseSensitive := by
  induction operations generalizing l with
  | nil => rfl
  | cons operation rest ih =>
    refine (ih (l.perform operation)).trans ?_
    cases operation with
    | update name value =>
      show (l.update name value).2.caseSensitive = _
      unfold update
      split <;> rfl
    | _ => rfl

/-- After any operations, both forms behave as a stack of maps, whether or not case counts: the
parents of a scope are those beneath it, a name is read from the nearest map with its key, binding
changes that key of the top map, and updating that of the nearest map which has it, if there is one.
Closing a block gives back what was there before it was opened, changed by the updates that have
reached out of the block. -/
theorem behaves_as_stack (caseSensitive : Bool) (operations : List ScopeOperation)
    {l : LinkedScopes} {s : Scopes} (linked : l = (initial caseSensitive).performAll operations)
    (stacked : s = Scopes.performAll { caseSensitive } operations) :
    s.caseSensitive = caseSensitive ∧
    l.places.map l.frame? = s.all.map some ∧
    (∀ inner p outer, l.places = inner ++ p :: outer → l.chain p = p :: outer) ∧
    (∀ x, l.get? x = s.get? x ∧ s.get? x = s.maps.findSome? fun map => map (s.key x)) ∧
    (∀ x v, ∃ map outer, s.maps = map :: outer ∧
      (s.bind x v).maps = Function.update map (s.key x) (some v) :: outer) ∧
    (∀ x v, (l.update x v).1 = (s.get? x).isSome ∧ (s.update? x v).isSome = (s.get? x).isSome ∧
      ((l.update x v).1 = false → (l.update x v).2 = l ∧ s.perform (.update x v) = s) ∧
      ((l.update x v).1 = true → ∃ inner, ∃ map : String → Option Value, ∃ outer,
        s.maps = inner ++ map :: outer ∧ (∀ m ∈ inner, m (s.key x) = none) ∧
        (map (s.key x)).isSome = true ∧
        (s.perform (.update x v)).maps =
          inner ++ Function.update map (s.key x) (some v) :: outer)) ∧
    (∀ name, (s.push name).maps = (fun _ => none) :: s.maps) ∧
    (0 < s.depth → s.pop.maps = s.maps.tail) ∧
    (∀ name inside,
      (∀ early, early <+: inside → s.depth < ((s.push name).performAll early).depth) →
      ((s.push name).performAll inside).depth = s.depth + 1 →
      ((s.push name).performAll inside).pop =
        s.performAll ((s.push name).updatesBelow s.depth inside)) := by
  have mirrors : l.Mirrors s := by
    rw [linked, stacked]
    exact (Mirrors.initial caseSensitive).performAll operations
  have kept : l.caseSensitive = caseSensitive := by
    rw [linked, caseSensitive_performAll]
    rfl
  refine ⟨mirrors.caseSensitive.symm.trans kept, mirrors.contents,
    fun inner p outer split => mirrors.chain split,
    fun x => ⟨mirrors.get? x, s.get?_eq_maps x⟩, s.maps_bind, fun x v => ?update, s.maps_push,
    Scopes.maps_pop, fun name inside => Scopes.pop_performAll⟩
  case update =>
    have found := s.update?_isSome x v
    obtain ⟨same, -⟩ := mirrors.update x v
    refine ⟨same.trans found, found, fun failed => ?_, fun succeeded => ?_⟩
    · have absent : s.update? x v = none := Option.isNone_iff_eq_none.1
        (Option.isSome_eq_false_iff.1 (same.symm.trans failed))
      refine ⟨update_of_failed failed, ?_⟩
      show (s.update? x v).getD s = s
      rw [absent]
      rfl
    · obtain ⟨s', updates⟩ := Option.isSome_iff_exists.1 (same.symm.trans succeeded)
      show ∃ inner, ∃ map : String → Option Value, ∃ outer, _ ∧ _ ∧ _ ∧
        ((s.update? x v).getD s).maps = _
      rw [updates]
      exact Scopes.maps_of_update? updates

theorem behaves_as_stack_shadowed :
    let s := Scopes.performAll { caseSensitive := true } [.bind "x" (.ofInt 1)]
    let inside := [.update "x" (.ofInt 2), .bind "x" (.ofInt 3)]
    ((s.push "if").performAll inside).pop =
      s.performAll ((s.push "if").updatesBelow s.depth inside) ∧
    (s.push "if").updatesBelow s.depth inside = [.update "x" (.ofInt 2)] := by
  intro s inside
  obtain ⟨-, -, -, -, -, -, -, -, closes⟩ :=
    behaves_as_stack true [.bind "x" (.ofInt 1)] rfl (Eq.refl s)
  refine ⟨closes "if" inside (fun early before => ?_) rfl, rfl⟩
  rcases List.prefix_cons_iff.1 before with rfl | ⟨_, rfl, later⟩
  · exact Nat.one_pos
  · rcases List.prefix_cons_iff.1 later with rfl | ⟨_, rfl, last⟩
    · exact Nat.one_pos
    · rw [List.prefix_nil.1 last]
      exact Nat.one_pos

end LinkedScopes

end InstallScript
