import InstallScript.Catalog
import Mathlib.Data.List.Forall2
import Mathlib.Data.List.Nodup

/-!
What `FunctionSpec.bind` does with a call. The shape of the call decides which parameter every
argument is for (`matchArguments_eq_ok`), a mistake in the shape is always of one code, and then
each argument is tested by itself (`bind_of_matched`). If the names of the parameters differ, a call
that is bound gives every parameter one value that it accepts (`bind_fits`).
-/

namespace InstallScript

/-- The parameters of the arguments of a call, in the order of the arguments. -/
def Matched.params (m : Matched) : List ParamSpec := m.positional ++ m.named

namespace FunctionSpec

variable {f : FunctionSpec}

/-! ## The shape of a call -/

theorem param?_mem {name : String} {p : ParamSpec} (found : f.param? name = some p) :
    p ∈ f.params :=
  List.mem_of_find?_eq_some found

theorem matchKeywords_code {taken keywords : List String} {fault : Fault}
    (refused : f.matchKeywords taken keywords = .error fault) : fault.code = "E201" := by
  induction keywords generalizing taken with
  | nil => cases refused
  | cons keyword rest ih =>
    rw [matchKeywords] at refused
    split at refused
    · cases refused
      rfl
    · split at refused
      · cases refused
        rfl
      · cases others : f.matchKeywords (_ :: taken) rest with
        | error fault' =>
          rw [others] at refused
          cases refused
          exact ih others
        | ok ps =>
          rw [others] at refused
          cases refused

/-- The first keyword is matched with a parameter that is not taken, and takes it. -/
theorem matchKeywords_cons_eq_ok_iff {taken rest : List String} {keyword : String}
    {ps : List ParamSpec} : f.matchKeywords taken (keyword :: rest) = .ok ps ↔
      ∃ p qs, ps = p :: qs ∧ f.param? keyword = some p ∧ p.name ∉ taken ∧
        f.matchKeywords (p.name :: taken) rest = .ok qs := by
  rw [matchKeywords]
  cases found : f.param? keyword with
  | none =>
    constructor
    · intro matched
      cases matched
    · rintro ⟨p, qs, -, found', -⟩
      cases found'
  | some p =>
    dsimp only
    by_cases repeated : p.name ∈ taken
    · rw [if_pos (List.contains_iff_mem.2 repeated)]
      constructor
      · intro matched
        cases matched
      · rintro ⟨_, qs, -, ⟨⟩, fresh, -⟩
        exact absurd repeated fresh
    · rw [if_neg (mt List.contains_iff_mem.1 repeated)]
      cases others : f.matchKeywords (p.name :: taken) rest with
      | error fault =>
        constructor
        · intro matched
          cases matched
        · rintro ⟨_, qs, -, ⟨⟩, -, others'⟩
          cases others.symm.trans others'
      | ok qs =>
        constructor
        · intro matched
          cases matched
          exact ⟨p, qs, rfl, rfl, repeated, others⟩
        · rintro ⟨_, qs', rfl, ⟨⟩, -, others'⟩
          cases others.symm.trans others'
          rfl

theorem matchKeywords_eq_ok {taken keywords : List String} {ps : List ParamSpec}
    (matched : f.matchKeywords taken keywords = .ok ps) :
    ps.length = keywords.length ∧ ∀ p ∈ ps, p ∈ f.params := by
  induction keywords generalizing taken ps with
  | nil =>
    cases matched
    exact ⟨rfl, List.forall_mem_nil _⟩
  | cons keyword rest ih =>
    obtain ⟨p, qs, rfl, found, -, others⟩ := matchKeywords_cons_eq_ok_iff.1 matched
    obtain ⟨length, members⟩ := ih others
    exact ⟨congrArg Nat.succ length, List.forall_mem_cons.2 ⟨param?_mem found, members⟩⟩

theorem matchArguments_code {count : Nat} {keywords : List String} {fault : Fault}
    (refused : f.matchArguments count keywords = .error fault) : fault.code = "E201" := by
  unfold matchArguments at refused
  split at refused
  · cases refused
    rfl
  · dsimp only at refused
    split at refused
    · rename_i fault' refusedKeyword
      cases refused
      exact matchKeywords_code refusedKeyword
    · split at refused
      · cases refused
      · cases refused
        rfl

/-- The shape of a call that fits: every argument has its parameter, and every parameter that has to
be given is among these. -/
structure Shaped (f : FunctionSpec) (count : Nat) (keywords : List String) (m : Matched) :
    Prop where
  positional : m.positional.length = count
  named : m.named.length = keywords.length
  declared : ∀ p ∈ m.params, p ∈ f.params
  complete : ∀ p ∈ f.params, p.required = true → p.name ∈ m.params.map (·.name)

theorem Shaped.length {count : Nat} {keywords : List String} {m : Matched}
    (shaped : Shaped f count keywords m) : m.params.length = count + keywords.length := by
  rw [Matched.params, List.length_append, shaped.positional, shaped.named]

theorem matchArguments_eq_ok {count : Nat} {keywords : List String} {m : Matched}
    (matched : f.matchArguments count keywords = .ok m) : Shaped f count keywords m := by
  unfold matchArguments at matched
  split at matched
  · cases matched
  · rename_i few
    dsimp only at matched
    split at matched
    · cases matched
    · rename_i named matchedNames
      obtain ⟨length, declared⟩ := matchKeywords_eq_ok matchedNames
      split at matched
      · rename_i none
        cases matched
        refine ⟨?_, length, ?_, ?_⟩
        · rw [List.length_take, Nat.min_eq_left (Nat.not_lt.1 few)]
        · intro p member
          rcases List.mem_append.1 member with taken | given
          · exact List.mem_of_mem_take taken
          · exact declared p given
        · intro p member required
          have present := List.filter_eq_nil_iff.1 (List.isEmpty_iff.1 none) p member
          rw [required, Bool.true_and, Bool.not_eq_true', Bool.not_eq_false, List.contains_iff_mem]
            at present
          exact present
      · cases matched

/-! ## The kinds of the arguments -/

/-- Every argument is of a kind that its parameter accepts. -/
def Accepted (pairs : List (ParamSpec × Value)) : Prop :=
  ∀ pair ∈ pairs, pair.1.kind.accepts pair.2.kind = true

theorem kindFault?_eq_none {pairs : List (ParamSpec × Value)} :
    f.kindFault? pairs = none ↔ Accepted pairs := by
  unfold kindFault?
  rw [List.findSome?_eq_none_iff]
  refine forall₂_congr fun pair _ => ?_
  dsimp only
  split
  · rename_i accepts
    exact ⟨fun _ => accepts, fun _ => rfl⟩
  · rename_i refuses
    exact ⟨nofun, fun accepts => absurd accepts refuses⟩

theorem kindFault?_eq_some {pairs : List (ParamSpec × Value)} {fault : Fault}
    (refused : f.kindFault? pairs = some fault) :
    ∃ p v, (p, v) ∈ pairs ∧ p.kind.accepts v.kind = false ∧
      fault = .argumentKind f.name p.name p.kind.name v.describe := by
  obtain ⟨⟨p, v⟩, member, refused⟩ := List.exists_of_findSome?_eq_some refused
  dsimp only at refused
  split at refused
  · cases refused
  · rename_i refuses
    cases refused
    exact ⟨p, v, member, Bool.eq_false_iff.2 refuses, rfl⟩

/-- What is wrong with a call that does not fit is its shape or the kind of an argument. -/
theorem bind_code {args : List Value} {kwargs : List (String × Value)} {fault : Fault}
    (refused : f.bind args kwargs = .error fault) : fault.code = "E201" ∨ fault.code = "E202" := by
  unfold bind at refused
  split at refused
  · rename_i fault' shape
    cases refused
    exact .inl (matchArguments_code shape)
  · dsimp only at refused
    split at refused
    · rename_i fault' kind
      cases refused
      obtain ⟨p, v, -, -, rfl⟩ := kindFault?_eq_some kind
      exact .inr rfl
    · cases refused

/-- What binding gives, once the shape of the call fits. -/
theorem bind_of_matched {args : List Value} {kwargs : List (String × Value)} {m : Matched}
    (matched : f.matchArguments args.length (kwargs.map (·.1)) = .ok m) :
    f.bind args kwargs =
      let pairs := m.params.zip (args ++ kwargs.map (·.2))
      match f.kindFault? pairs with
      | some fault => .error fault
      | none => .ok (dedupe (f.params.map fun p => (p.name, valueOf pairs p))) := by
  have shaped := matchArguments_eq_ok matched
  unfold bind
  rw [Matched.params, List.zip_append shaped.positional]
  split
  · rename_i fault failed
    cases failed.symm.trans matched
  · rename_i m' matched'
    obtain rfl : m' = m := Except.ok.inj (matched'.symm.trans matched)
    rfl

theorem bind_isOk_iff {args : List Value} {kwargs : List (String × Value)} :
    (f.bind args kwargs).isOk = true ↔
      ∃ m, f.matchArguments args.length (kwargs.map (·.1)) = .ok m ∧
        Accepted (m.params.zip (args ++ kwargs.map (·.2))) := by
  cases matched : f.matchArguments args.length (kwargs.map (·.1)) with
  | error fault =>
    unfold bind
    rw [matched]
    exact ⟨nofun, fun ⟨_, eq, _⟩ => nomatch eq⟩
  | ok m =>
    rw [bind_of_matched matched]
    dsimp only
    cases tested : f.kindFault? (m.params.zip (args ++ kwargs.map (·.2))) with
    | none => exact ⟨fun _ => ⟨m, rfl, kindFault?_eq_none.1 tested⟩, fun _ => rfl⟩
    | some fault =>
      refine ⟨nofun, fun ⟨m', eq, accepted⟩ => ?_⟩
      cases eq
      rw [kindFault?_eq_none.2 accepted] at tested
      cases tested

/-! ## The arguments that are bound -/

/-- One value for each parameter, under its name, of a kind that it accepts. -/
def Fits (f : FunctionSpec) (arguments : Arguments) : Prop :=
  List.Forall₂ (fun p entry => entry.1 = p.name ∧ p.kind.accepts entry.2.kind = true) f.params
    arguments

theorem dedupe_of_nodup {arguments : Arguments} (distinct : (arguments.map (·.1)).Nodup) :
    dedupe arguments = arguments := by
  induction arguments with
  | nil => rfl
  | cons entry rest ih =>
    obtain ⟨name, value⟩ := entry
    obtain ⟨fresh, distinct⟩ := List.nodup_cons.1 distinct
    have absent : ∀ entry ∈ rest, entry.1 ≠ name := by
      intro entry member same
      exact fresh (List.mem_map.2 ⟨entry, member, same⟩)
    have notLater : rest.reverse.lookup name = none := by
      rw [List.lookup_eq_none_iff]
      intro entry member
      exact bne_iff_ne.2 (absent entry (List.mem_reverse.1 member)).symm
    rw [dedupe, ih distinct, notLater, List.filter_eq_self.2 fun entry member =>
      decide_eq_true (absent entry member)]
    rfl

/-- The value of a parameter is one that is given for its name, or its default. -/
theorem valueOf_cases (pairs : List (ParamSpec × Value)) (p : ParamSpec) :
    (∃ pair ∈ pairs, pair.1.name = p.name ∧ valueOf pairs p = pair.2) ∨
      ((∀ pair ∈ pairs, pair.1.name ≠ p.name) ∧ valueOf pairs p = p.default.getD .void) := by
  unfold valueOf
  split
  · rename_i pair found
    have member := List.mem_reverse.1 (List.mem_of_find?_eq_some found)
    have same := List.find?_some found
    exact .inl ⟨pair, member, of_decide_eq_true same, rfl⟩
  · rename_i none
    refine .inr ⟨fun pair member same => ?_, rfl⟩
    exact List.find?_eq_none.1 none pair (List.mem_reverse.2 member) (decide_eq_true same)

/-- Parameters with distinct names are bound each to its own value. -/
theorem arguments_of_bind (distinct : (f.params.map (·.name)).Nodup) {args : List Value}
    {kwargs : List (String × Value)} {arguments : Arguments}
    (bound : f.bind args kwargs = .ok arguments) :
    ∃ m, f.matchArguments args.length (kwargs.map (·.1)) = .ok m ∧
      Accepted (m.params.zip (args ++ kwargs.map (·.2))) ∧
      arguments =
        f.params.map fun p => (p.name, valueOf (m.params.zip (args ++ kwargs.map (·.2))) p) := by
  have isOk : (f.bind args kwargs).isOk = true := by
    rw [bound]
    rfl
  obtain ⟨m, matched, accepted⟩ := bind_isOk_iff.1 isOk
  refine ⟨m, matched, accepted, ?_⟩
  rw [bind_of_matched matched] at bound
  dsimp only at bound
  rw [kindFault?_eq_none.2 accepted] at bound
  generalize m.params.zip (args ++ kwargs.map (·.2)) = pairs at bound
  have entries : (f.params.map fun p => (p.name, valueOf pairs p)).map (·.1) =
      f.params.map (·.name) := by
    rw [List.map_map]
    rfl
  rw [dedupe_of_nodup (entries ▸ distinct)] at bound
  exact (Except.ok.inj bound).symm

/-- Parameters with distinct names, each with a default that it accepts if it has one, get values
that they accept. -/
theorem bind_fits (distinct : (f.params.map (·.name)).Nodup)
    (defaults : ∀ p ∈ f.params, ∀ v, p.default = some v → p.kind.accepts v.kind = true)
    {args : List Value} {kwargs : List (String × Value)} {arguments : Arguments}
    (bound : f.bind args kwargs = .ok arguments) : f.Fits arguments := by
  obtain ⟨m, matched, accepted, rfl⟩ := arguments_of_bind distinct bound
  have shaped := matchArguments_eq_ok matched
  generalize pairsEq : m.params.zip (args ++ kwargs.map (·.2)) = pairs at accepted
  rw [Fits, List.forall₂_map_right_iff, List.forall₂_same]
  intro p member
  refine ⟨rfl, ?_⟩
  rcases valueOf_cases pairs p with ⟨pair, given, same, eq⟩ | ⟨absent, eq⟩
  · have declared : pair.1 ∈ f.params := by
      rw [← pairsEq] at given
      exact shaped.declared _ (List.of_mem_zip given).1
    obtain rfl : pair.1 = p := List.inj_on_of_nodup_map distinct declared member same
    rw [eq]
    exact accepted pair given
  · rw [eq]
    cases default : p.default with
    | some v => exact defaults p member v default
    | none =>
      have required : p.required = true := by
        rw [ParamSpec.required, default]
        rfl
      obtain ⟨q, inMatched, sameName⟩ := List.mem_map.1 (shaped.complete p member required)
      have lengths : m.params.length = (args ++ kwargs.map (·.2)).length := by
        rw [shaped.length, List.length_append, List.length_map, List.length_map]
      rw [← List.map_fst_zip (Nat.le_of_eq lengths), pairsEq] at inMatched
      obtain ⟨pair, paired, rfl⟩ := List.mem_map.1 inMatched
      exact absurd sameName (absent pair paired)

end FunctionSpec

end InstallScript
