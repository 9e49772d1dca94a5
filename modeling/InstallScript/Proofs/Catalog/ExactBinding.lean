import InstallScript.Proofs.Catalog.Binding
import Mathlib.Data.List.TakeDrop
import Mathlib.Data.Option.Basic
import Mathlib.Data.Prod.Basic

/-!
Exactly which calls `FunctionSpec.bind` accepts, and what it makes of them. If the names of the
parameters differ in more than letter case, a keyword is for one parameter at most
(`param?_eq_some_iff`), so the shape of a call can be told without going through its arguments in
order (`callable_iff`), and each argument is for one parameter (`mem_pairs_iff`). A call is then
bound if and only if its shape fits and every value is accepted, whatever the order of its keywords
(`bind_exact`). Whatever the names of the parameters are, the letter case of a keyword makes no
difference (`bind_fold`).
-/

namespace InstallScript

/-- A keyword is for a parameter if their names are the same letter case aside. -/
def ParamSpec.Answers (p : ParamSpec) (keyword : String) : Prop :=
  Text.fold p.name = Text.fold keyword

namespace FunctionSpec

/-- A call with so many positional arguments and these keywords has a shape that fits: the
positional arguments have parameters, each keyword is for a parameter of its own behind those, and
what is left has a default. -/
structure Callable (f : FunctionSpec) (count : Nat) (keywords : List String) : Prop where
  few : count ≤ f.params.length
  known : ∀ keyword ∈ keywords, ∃ p ∈ f.params.drop count, p.Answers keyword
  once : (keywords.map Text.fold).Nodup
  covered : ∀ p ∈ f.params.drop count, p.required = true → ∃ keyword ∈ keywords, p.Answers keyword

/-- A call gives a value for a parameter, by its place or by a keyword. -/
inductive Gives (f : FunctionSpec) (args : List Value) (kwargs : List (String × Value)) :
    ParamSpec → Value → Prop
  | positional {i : Nat} {p : ParamSpec} {v : Value} (param : f.params[i]? = some p)
      (given : args[i]? = some v) : Gives f args kwargs p v
  | keyword {name : String} {p : ParamSpec} {v : Value} (param : p ∈ f.params)
      (answers : p.Answers name) (given : (name, v) ∈ kwargs) : Gives f args kwargs p v

/-- Every value that a call gives is of a kind that its parameter accepts. -/
def Accepts (f : FunctionSpec) (args : List Value) (kwargs : List (String × Value)) : Prop :=
  ∀ p v, f.Gives args kwargs p v → p.kind.accepts v.kind = true

/-- What a call is bound to: the declared parameters in their order, each with the positional
argument of its place, with the value of its keyword or else with its default. -/
structure Binds (f : FunctionSpec) (args : List Value) (kwargs : List (String × Value))
    (arguments : Arguments) : Prop where
  order : arguments.map (·.1) = f.params.map (·.name)
  positional {i : Nat} {p : ParamSpec} {v : Value} (param : f.params[i]? = some p)
    (given : args[i]? = some v) : arguments[i]? = some (p.name, v)
  keyword {i : Nat} {p : ParamSpec} {name : String} {v : Value} (param : f.params[i]? = some p)
    (answers : p.Answers name) (given : (name, v) ∈ kwargs) : arguments[i]? = some (p.name, v)
  default {i : Nat} {p : ParamSpec} (param : f.params[i]? = some p) (behind : args.length ≤ i)
    (unnamed : ∀ entry ∈ kwargs, ¬ p.Answers entry.1) :
    ∃ v, p.default = some v ∧ arguments[i]? = some (p.name, v)

variable {f : FunctionSpec} {args : List Value} {kwargs kwargs' : List (String × Value)}

/-! ## The order of the keywords -/

theorem Callable.perm {count : Nat} {keywords keywords' : List String}
    (callable : f.Callable count keywords) (same : keywords.Perm keywords') :
    f.Callable count keywords' where
  few := callable.few
  known keyword member := callable.known keyword (same.mem_iff.2 member)
  once := (same.map _).nodup_iff.1 callable.once
  covered p member required :=
    have ⟨keyword, named, answers⟩ := callable.covered p member required
    ⟨keyword, same.mem_iff.1 named, answers⟩

theorem Gives.perm {p : ParamSpec} {v : Value} (gives : f.Gives args kwargs p v)
    (same : kwargs.Perm kwargs') : f.Gives args kwargs' p v := by
  cases gives with
  | positional param given => exact .positional param given
  | keyword param answers given => exact .keyword param answers (same.mem_iff.1 given)

theorem Accepts.perm (accepts : f.Accepts args kwargs) (same : kwargs.Perm kwargs') :
    f.Accepts args kwargs' :=
  fun p v gives => accepts p v (gives.perm same.symm)

theorem Binds.perm {arguments : Arguments} (binds : f.Binds args kwargs arguments)
    (same : kwargs.Perm kwargs') : f.Binds args kwargs' arguments where
  order := binds.order
  positional := binds.positional
  keyword param answers given := binds.keyword param answers (same.mem_iff.2 given)
  default param behind unnamed :=
    binds.default param behind fun entry member => unnamed entry (same.mem_iff.1 member)

/-- A call is bound to one thing only: of every parameter it is said what its value is. -/
theorem Binds.unique {arguments arguments' : Arguments} (binds : f.Binds args kwargs arguments)
    (binds' : f.Binds args kwargs arguments') : arguments = arguments' := by
  have lengths (bound : Arguments) (order : bound.map (·.1) = f.params.map (·.name)) :
      bound.length = f.params.length := by
    rw [← List.length_map, order, List.length_map]
  apply List.ext_getElem?
  intro i
  cases param : f.params[i]? with
  | none =>
    have behind := List.getElem?_eq_none_iff.1 param
    rw [List.getElem?_eq_none (lengths _ binds.order ▸ behind),
      List.getElem?_eq_none (lengths _ binds'.order ▸ behind)]
  | some p =>
    cases place : args[i]? with
    | some v => rw [binds.positional param place, binds'.positional param place]
    | none =>
      by_cases named : ∃ entry ∈ kwargs, p.Answers entry.1
      · obtain ⟨⟨name, v⟩, given, answers⟩ := named
        rw [binds.keyword param answers given, binds'.keyword param answers given]
      · have behind := List.getElem?_eq_none_iff.1 place
        have unnamed := fun entry member answers => named ⟨entry, member, answers⟩
        obtain ⟨v, default, eq⟩ := binds.default param behind unnamed
        obtain ⟨v', default', eq'⟩ := binds'.default param behind unnamed
        obtain rfl : v = v' := Option.some.inj (default.symm.trans default')
        rw [eq, eq']

/-! ## The shape of a call -/

/-- Keywords are matched with parameters one by one, each with one that is not taken yet. -/
theorem matchKeywords_eq_ok_iff {taken keywords : List String} {ps : List ParamSpec} :
    f.matchKeywords taken keywords = .ok ps ↔
      keywords.map f.param? = ps.map some ∧ (ps.map (·.name)).Nodup ∧ ∀ p ∈ ps, p.name ∉ taken := by
  induction keywords generalizing taken ps with
  | nil =>
    rw [matchKeywords, Except.ok.injEq]
    constructor
    · rintro rfl
      exact ⟨rfl, List.nodup_nil, List.forall_mem_nil _⟩
    · rintro ⟨answer, -⟩
      exact (List.map_eq_nil_iff.1 answer.symm).symm
  | cons keyword rest ih =>
    rw [matchKeywords_cons_eq_ok_iff, List.map_cons]
    constructor
    · rintro ⟨p, qs, rfl, found, new, others⟩
      obtain ⟨answer, distinct, fresh⟩ := ih.1 others
      refine ⟨?_, List.nodup_cons.2 ⟨fun member => ?_, distinct⟩,
        List.forall_mem_cons.2 ⟨new, fun q member given => ?_⟩⟩
      · rw [found, answer, List.map_cons]
      · obtain ⟨q, later, same⟩ := List.mem_map.1 member
        exact fresh q later (same ▸ List.mem_cons_self)
      · exact fresh q member (List.mem_cons_of_mem _ given)
    · rintro ⟨answer, distinct, fresh⟩
      cases ps with
      | nil => cases answer
      | cons p qs =>
        obtain ⟨found, later⟩ := List.cons.inj answer
        obtain ⟨first, distinct⟩ := List.nodup_cons.1 distinct
        refine ⟨p, qs, rfl, found, fresh p List.mem_cons_self, ih.2 ⟨later, distinct, ?_⟩⟩
        intro q member given
        rcases List.mem_cons.1 given with same | given
        · exact first (List.mem_map.2 ⟨q, member, same⟩)
        · exact fresh q (List.mem_cons_of_mem _ member) given

/-- A call fits if its positional arguments have parameters, its keywords can be matched with
parameters behind them, and every parameter that has to be given is among these. -/
theorem matchArguments_eq_ok_iff {count : Nat} {keywords : List String} {m : Matched} :
    f.matchArguments count keywords = .ok m ↔
      count ≤ f.params.length ∧ m.positional = f.params.take count ∧
        f.matchKeywords ((f.params.take count).map (·.name)) keywords = .ok m.named ∧
        ∀ p ∈ f.params, p.required = true → p.name ∈ m.params.map (·.name) := by
  rcases m with ⟨positional, named⟩
  unfold matchArguments
  by_cases few : count ≤ f.params.length
  · rw [if_neg (Nat.not_lt.2 few)]
    dsimp only
    cases matched : f.matchKeywords ((f.params.take count).map (·.name)) keywords with
    | error fault => exact ⟨nofun, fun ⟨_, _, eq, _⟩ => nomatch eq⟩
    | ok ps =>
      have complete_iff :
          (f.params.filter fun p => p.required &&
              !((f.params.take count ++ ps).map (·.name)).contains p.name).isEmpty = true ↔
            ∀ p ∈ f.params, p.required = true →
              p.name ∈ (f.params.take count ++ ps).map (·.name) := by
        rw [List.isEmpty_iff, List.filter_eq_nil_iff]
        refine forall₂_congr fun p _ => ?_
        rw [Bool.and_eq_true, Bool.not_eq_true', not_and, Bool.not_eq_false,
          List.contains_iff_mem]
      dsimp only
      constructor
      · intro eq
        split at eq
        · rename_i complete
          cases eq
          exact ⟨few, rfl, rfl, complete_iff.1 complete⟩
        · cases eq
      · rintro ⟨-, rfl, eq, complete⟩
        cases eq
        rw [if_pos (complete_iff.2 complete)]
  · rw [if_pos (Nat.lt_of_not_le few)]
    exact ⟨nofun, fun ⟨given, _⟩ => absurd given few⟩

/-! ## Letter case of keywords -/

/-- Keywords that are the same letter case aside are matched alike. -/
theorem matchArguments_fold (f : FunctionSpec) (count : Nat) {keywords keywords' : List String}
    (folds : keywords.map Text.fold = keywords'.map Text.fold) :
    f.matchArguments count keywords = f.matchArguments count keywords' ∨
      ∃ fault fault', f.matchArguments count keywords = .error fault ∧
        f.matchArguments count keywords' = .error fault' ∧ fault.code = fault'.code := by
  have answer : keywords.map f.param? = keywords'.map f.param? := by
    have found := congrArg
      (List.map fun key => f.params.find? fun p => Text.fold p.name = key) folds
    rwa [List.map_map, List.map_map] at found
  have same (m : Matched) :
      f.matchArguments count keywords = .ok m ↔ f.matchArguments count keywords' = .ok m := by
    rw [matchArguments_eq_ok_iff, matchArguments_eq_ok_iff, matchKeywords_eq_ok_iff,
      matchKeywords_eq_ok_iff, answer]
  cases matched : f.matchArguments count keywords with
  | ok m => exact .inl ((same m).1 matched).symm
  | error fault =>
    cases matched' : f.matchArguments count keywords' with
    | ok m => cases matched.symm.trans ((same m).2 matched')
    | error fault' =>
      refine .inr ⟨fault, fault', rfl, rfl, ?_⟩
      rw [matchArguments_code matched, matchArguments_code matched']

/-- So are the calls that they belong to bound. -/
theorem bind_fold {args vs : List Value} {keywords keywords' : List String}
    (folds : keywords.map Text.fold = keywords'.map Text.fold)
    (lengths : keywords.length = vs.length) :
    f.bind args (keywords.zip vs) = f.bind args (keywords'.zip vs) ∨
      ∃ fault fault', f.bind args (keywords.zip vs) = .error fault ∧
        f.bind args (keywords'.zip vs) = .error fault' ∧ fault.code = fault'.code := by
  have lengths' : keywords'.length = vs.length := by
    rw [← lengths, ← List.length_map (f := Text.fold), ← folds, List.length_map]
  unfold bind
  rw [List.map_fst_zip (Nat.le_of_eq lengths), List.map_fst_zip (Nat.le_of_eq lengths'),
    List.map_snd_zip (Nat.le_of_eq lengths.symm), List.map_snd_zip (Nat.le_of_eq lengths'.symm)]
  rcases f.matchArguments_fold args.length folds with
    same | ⟨fault, fault', refused, refused', codes⟩
  · rw [same]
    exact .inl rfl
  · rw [refused, refused']
    exact .inr ⟨fault, fault', rfl, rfl, codes⟩

/-! ## Distinct names -/

theorem answers_of_param? {keyword : String} {p : ParamSpec} (found : f.param? keyword = some p) :
    p.Answers keyword := by
  rw [param?] at found
  have same := List.find?_some found
  rw [decide_eq_true_iff] at same
  exact same

/-- Where keywords are answered by parameters, each of these has a keyword. -/
theorem exists_keyword {keywords : List String} {ps : List ParamSpec}
    (answer : keywords.map f.param? = ps.map some) {p : ParamSpec} (member : p ∈ ps) :
    ∃ keyword ∈ keywords, f.param? keyword = some p :=
  List.mem_map.1 (answer ▸ List.mem_map_of_mem member)

theorem exists_param {keywords : List String} {ps : List ParamSpec}
    (answer : keywords.map f.param? = ps.map some) {keyword : String}
    (written : keyword ∈ keywords) : ∃ p ∈ ps, f.param? keyword = some p := by
  have given : f.param? keyword ∈ ps.map some := answer ▸ List.mem_map_of_mem written
  obtain ⟨p, member, found⟩ := List.mem_map.1 given
  exact ⟨p, member, found.symm⟩

theorem exists_params {keywords : List String}
    (found : ∀ keyword ∈ keywords, ∃ p, f.param? keyword = some p) :
    ∃ ps : List ParamSpec, keywords.map f.param? = ps.map some := by
  induction keywords with
  | nil => exact ⟨[], rfl⟩
  | cons keyword rest ih =>
    obtain ⟨⟨p, first⟩, others⟩ := List.forall_mem_cons.1 found
    obtain ⟨ps, later⟩ := ih others
    exact ⟨p :: ps, congrArg₂ List.cons first later⟩

section Distinct

variable (distinct : (f.params.map fun p => Text.fold p.name).Nodup)

include distinct

/-- Parameters whose names differ in more than letter case have different names. -/
theorem eq_of_name_eq {p q : ParamSpec} (declared : p ∈ f.params) (declared' : q ∈ f.params)
    (same : p.name = q.name) : p = q :=
  List.inj_on_of_nodup_map distinct declared declared' (congrArg Text.fold same)

theorem nodup_names : (f.params.map (·.name)).Nodup :=
  distinct.of_map.map_on fun _ declared _ declared' => eq_of_name_eq distinct declared declared'

theorem eq_of_answers {p q : ParamSpec} {keyword : String} (declared : p ∈ f.params)
    (declared' : q ∈ f.params) (answers : p.Answers keyword) (answers' : q.Answers keyword) :
    p = q :=
  List.inj_on_of_nodup_map distinct declared declared' (answers.trans answers'.symm)

theorem param?_eq_some_iff {keyword : String} {p : ParamSpec} :
    f.param? keyword = some p ↔ p ∈ f.params ∧ p.Answers keyword := by
  constructor
  · intro found
    exact ⟨param?_mem found, answers_of_param? found⟩
  · rintro ⟨declared, answers⟩
    cases found : f.param? keyword with
    | none =>
      rw [param?, List.find?_eq_none] at found
      have refused := found p declared
      rw [decide_eq_true_iff] at refused
      exact absurd answers refused
    | some q =>
      rw [eq_of_answers distinct (param?_mem found) declared (answers_of_param? found) answers]

/-- A parameter is either for a positional argument or behind all of these. -/
theorem mem_drop_iff {p : ParamSpec} (declared : p ∈ f.params) (count : Nat) :
    p ∈ f.params.drop count ↔ p.name ∉ (f.params.take count).map (·.name) := by
  have disjoint := List.disjoint_take_drop distinct.of_map (Nat.le_refl count)
  constructor
  · intro behind taken
    obtain ⟨q, before, same⟩ := List.mem_map.1 taken
    obtain rfl := eq_of_name_eq distinct (List.mem_of_mem_take before) declared same
    exact disjoint before behind
  · intro free
    rw [← List.take_append_drop count f.params, List.mem_append] at declared
    exact declared.resolve_left fun before => free (List.mem_map_of_mem before)

/-- The parameters of keywords have different names if and only if the keywords differ in more than
letter case. -/
theorem nodup_names_iff {keywords : List String} {ps : List ParamSpec}
    (answer : keywords.map f.param? = ps.map some) :
    (ps.map (·.name)).Nodup ↔ (keywords.map Text.fold).Nodup := by
  have declared : ∀ p ∈ ps, p ∈ f.params := by
    intro p member
    obtain ⟨keyword, -, found⟩ := exists_keyword answer member
    exact param?_mem found
  have answered : ∀ keyword ∈ keywords,
      (f.param? keyword).map (Text.fold ·.name) = some (Text.fold keyword) := by
    intro keyword written
    obtain ⟨p, -, found⟩ := exists_param answer written
    rw [found]
    exact congrArg some (answers_of_param? found)
  have folds : keywords.map Text.fold = ps.map fun p => Text.fold p.name := by
    apply List.map_injective_iff.2 (Option.some_injective String)
    rw [List.map_map, List.map_map]
    calc keywords.map (some ∘ Text.fold)
      _ = keywords.map (Option.map (Text.fold ·.name) ∘ f.param?) :=
        (List.map_congr_left answered).symm
      _ = (keywords.map f.param?).map (Option.map (Text.fold ·.name)) := List.map_map.symm
      _ = (ps.map some).map (Option.map (Text.fold ·.name)) := by rw [answer]
      _ = ps.map (some ∘ fun p => Text.fold p.name) := List.map_map
  rw [folds]
  constructor
  · intro nodup
    exact nodup.of_map.map_on fun p member q member' =>
      List.inj_on_of_nodup_map distinct (declared p member) (declared q member')
  · intro nodup
    exact nodup.of_map.map_on fun p member q member' =>
      eq_of_name_eq distinct (declared p member) (declared q member')

/-- Whether the shape of a call fits, said without an order of its arguments. -/
theorem callable_iff {count : Nat} {keywords : List String} :
    (∃ m, f.matchArguments count keywords = .ok m) ↔ f.Callable count keywords := by
  constructor
  · rintro ⟨m, matched⟩
    obtain ⟨few, positional, named, complete⟩ := matchArguments_eq_ok_iff.1 matched
    obtain ⟨answer, nodup, fresh⟩ := matchKeywords_eq_ok_iff.1 named
    refine ⟨few, fun keyword written => ?_, ?_, fun p behind required => ?_⟩
    · obtain ⟨p, given, found⟩ := exists_param answer written
      exact ⟨p, (mem_drop_iff distinct (param?_mem found) count).2 (fresh p given),
        answers_of_param? found⟩
    · rw [← nodup_names_iff distinct answer]
      exact nodup
    · have declared := List.mem_of_mem_drop behind
      have given := complete p declared required
      rw [Matched.params, positional, List.map_append, List.mem_append] at given
      have named := given.resolve_left ((mem_drop_iff distinct declared count).1 behind)
      obtain ⟨q, member, same⟩ := List.mem_map.1 named
      obtain ⟨keyword, written, found⟩ := exists_keyword answer member
      obtain rfl := eq_of_name_eq distinct (param?_mem found) declared same
      exact ⟨keyword, written, answers_of_param? found⟩
  · rintro ⟨few, known, once, covered⟩
    obtain ⟨ps, answer⟩ : ∃ ps : List ParamSpec, keywords.map f.param? = ps.map some := by
      apply exists_params
      intro keyword written
      obtain ⟨p, behind, answers⟩ := known keyword written
      exact ⟨p, (param?_eq_some_iff distinct).2 ⟨List.mem_of_mem_drop behind, answers⟩⟩
    have behind : ∀ p ∈ ps, p ∈ f.params.drop count := by
      intro p member
      obtain ⟨keyword, written, found⟩ := exists_keyword answer member
      obtain ⟨q, behind, answers⟩ := known keyword written
      obtain rfl := eq_of_answers distinct (param?_mem found) (List.mem_of_mem_drop behind)
        (answers_of_param? found) answers
      exact behind
    refine ⟨⟨f.params.take count, ps⟩, matchArguments_eq_ok_iff.2 ⟨few, rfl,
      matchKeywords_eq_ok_iff.2 ⟨answer, (nodup_names_iff distinct answer).2 once, ?_⟩, ?_⟩⟩
    · intro p member
      have free := behind p member
      exact (mem_drop_iff distinct (List.mem_of_mem_drop free) count).1 free
    · intro p declared required
      rw [Matched.params, List.map_append, List.mem_append]
      by_cases taken : p.name ∈ (f.params.take count).map (·.name)
      · exact .inl taken
      · obtain ⟨keyword, written, answers⟩ :=
          covered p ((mem_drop_iff distinct declared count).2 taken) required
        have found := (param?_eq_some_iff distinct).2 ⟨declared, answers⟩
        have given : some p ∈ ps.map some := answer ▸ List.mem_map.2 ⟨keyword, written, found⟩
        have member : p ∈ ps := (List.mem_map_of_injective (Option.some_injective _)).1 given
        exact .inr (List.mem_map_of_mem member)

/-! ## The values of a call -/

/-- What is paired by a call that fits is what the call gives. -/
theorem mem_pairs_iff {m : Matched}
    (matched : f.matchArguments args.length (kwargs.map (·.1)) = .ok m) {p : ParamSpec}
    {v : Value} : (p, v) ∈ m.params.zip (args ++ kwargs.map (·.2)) ↔ f.Gives args kwargs p v := by
  have shaped := matchArguments_eq_ok matched
  obtain ⟨-, positional, named, -⟩ := matchArguments_eq_ok_iff.1 matched
  obtain ⟨answer, -, -⟩ := matchKeywords_eq_ok_iff.1 named
  have placed : (p, v) ∈ m.positional.zip args ↔
      ∃ i : Nat, f.params[i]? = some p ∧ args[i]? = some v := by
    rw [List.mem_iff_getElem?]
    refine exists_congr fun i => ?_
    rw [List.getElem?_zip_eq_some, positional]
    refine and_congr_left fun given => ?_
    obtain ⟨within, -⟩ := List.getElem?_eq_some_iff.1 given
    rw [List.getElem?_take_of_lt within]
  have keyed : (p, v) ∈ m.named.zip (kwargs.map (·.2)) ↔
      ∃ name, (name, v) ∈ kwargs ∧ f.param? name = some p := by
    rw [List.map_map] at answer
    have zipped : (m.named.zip (kwargs.map (·.2))).map (Prod.map some id) =
        kwargs.map fun entry => (f.param? entry.1, entry.2) := by
      rw [← List.zip_map_left, ← answer, List.zip_map']
      rfl
    have injective := Function.Injective.prodMap (Option.some_injective ParamSpec)
      (Function.injective_id (α := Value))
    rw [← List.mem_map_of_injective injective, zipped, List.mem_map]
    constructor
    · rintro ⟨⟨name, u⟩, given, eq⟩
      obtain ⟨found, rfl⟩ := Prod.mk.inj eq
      exact ⟨name, given, found⟩
    · rintro ⟨name, given, found⟩
      exact ⟨(name, v), given, Prod.ext found rfl⟩
  rw [Matched.params, List.zip_append shaped.positional, List.mem_append, placed, keyed]
  constructor
  · rintro (⟨i, param, given⟩ | ⟨name, given, found⟩)
    · exact .positional param given
    · exact .keyword (param?_mem found) (answers_of_param? found) given
  · intro gives
    cases gives with
    | positional param given => exact .inl ⟨_, param, given⟩
    | keyword param answers given =>
      exact .inr ⟨_, given, (param?_eq_some_iff distinct).2 ⟨param, answers⟩⟩

theorem accepted_iff {m : Matched}
    (matched : f.matchArguments args.length (kwargs.map (·.1)) = .ok m) :
    Accepted (m.params.zip (args ++ kwargs.map (·.2))) ↔ f.Accepts args kwargs := by
  constructor
  · intro accepted p v gives
    exact accepted (p, v) ((mem_pairs_iff distinct matched).2 gives)
  · rintro accepts ⟨p, v⟩ member
    exact accepts p v ((mem_pairs_iff distinct matched).1 member)

theorem bind_isOk_iff_callable :
    (f.bind args kwargs).isOk = true ↔
      f.Callable args.length (kwargs.map (·.1)) ∧ f.Accepts args kwargs := by
  rw [bind_isOk_iff, ← callable_iff distinct]
  constructor
  · rintro ⟨m, matched, accepted⟩
    exact ⟨⟨m, matched⟩, (accepted_iff distinct matched).1 accepted⟩
  · rintro ⟨⟨m, matched⟩, accepts⟩
    exact ⟨m, matched, (accepted_iff distinct matched).2 accepts⟩

/-- A call that fits gives one value at most for a parameter. -/
theorem Gives.unique {m : Matched}
    (matched : f.matchArguments args.length (kwargs.map (·.1)) = .ok m) {p : ParamSpec}
    {v u : Value} (gives : f.Gives args kwargs p v) (gives' : f.Gives args kwargs p u) : v = u := by
  have shaped := matchArguments_eq_ok matched
  obtain ⟨-, positional, named, -⟩ := matchArguments_eq_ok_iff.1 matched
  obtain ⟨-, nodup, fresh⟩ := matchKeywords_eq_ok_iff.1 named
  have names : (m.params.map (·.name)).Nodup := by
    rw [Matched.params, List.map_append, positional, List.nodup_append']
    refine ⟨(List.take_sublist _ _).map _ |>.nodup (nodup_names distinct), nodup, ?_⟩
    intro name taken given
    obtain ⟨q, member, rfl⟩ := List.mem_map.1 given
    exact fresh q member taken
  have lengths : m.params.length = (args ++ kwargs.map (·.2)).length := by
    rw [shaped.length, List.length_append, List.length_map, List.length_map]
  have first : ((m.params.zip (args ++ kwargs.map (·.2))).map (·.1)).Nodup := by
    rw [List.map_fst_zip (Nat.le_of_eq lengths)]
    exact names.of_map
  have eq := List.inj_on_of_nodup_map first ((mem_pairs_iff distinct matched).2 gives)
    ((mem_pairs_iff distinct matched).2 gives') rfl
  exact (Prod.mk.inj eq).2

theorem valueOf_of_gives {m : Matched}
    (matched : f.matchArguments args.length (kwargs.map (·.1)) = .ok m) {p : ParamSpec} {v : Value}
    (declared : p ∈ f.params) (gives : f.Gives args kwargs p v) :
    valueOf (m.params.zip (args ++ kwargs.map (·.2))) p = v := by
  have shaped := matchArguments_eq_ok matched
  rcases valueOf_cases (m.params.zip (args ++ kwargs.map (·.2))) p with
    ⟨⟨q, u⟩, given, same, eq⟩ | ⟨absent, -⟩
  · obtain rfl := eq_of_name_eq distinct (shaped.declared q (List.of_mem_zip given).1) declared same
    rw [eq]
    exact Gives.unique distinct matched ((mem_pairs_iff distinct matched).1 given) gives
  · exact absurd rfl (absent (p, v) ((mem_pairs_iff distinct matched).2 gives))

theorem valueOf_of_not_gives {m : Matched}
    (matched : f.matchArguments args.length (kwargs.map (·.1)) = .ok m) {p : ParamSpec} {v : Value}
    (declared : p ∈ f.params) (default : p.default = some v)
    (none : ∀ u, ¬ f.Gives args kwargs p u) :
    valueOf (m.params.zip (args ++ kwargs.map (·.2))) p = v := by
  have shaped := matchArguments_eq_ok matched
  rcases valueOf_cases (m.params.zip (args ++ kwargs.map (·.2))) p with
    ⟨⟨q, u⟩, given, same, -⟩ | ⟨-, eq⟩
  · obtain rfl := eq_of_name_eq distinct (shaped.declared q (List.of_mem_zip given).1) declared same
    exact absurd ((mem_pairs_iff distinct matched).1 given) (none u)
  · rw [eq, default]
    rfl

theorem binds_of_bind {arguments : Arguments} (bound : f.bind args kwargs = .ok arguments) :
    f.Binds args kwargs arguments := by
  obtain ⟨m, matched, -, rfl⟩ := arguments_of_bind (nodup_names distinct) bound
  have callable := (callable_iff distinct).1 ⟨m, matched⟩
  generalize pairsEq : m.params.zip (args ++ kwargs.map (·.2)) = pairs
  have entry {i : Nat} {p : ParamSpec} {v : Value} (param : f.params[i]? = some p)
      (value : valueOf pairs p = v) :
      (f.params.map fun p => (p.name, valueOf pairs p))[i]? = some (p.name, v) := by
    rw [List.getElem?_map, param, Option.map_some, value]
  subst pairsEq
  refine ⟨?_, fun param given => ?_, fun param answers given => ?_, fun param behind unnamed => ?_⟩
  · rw [List.map_map]
    rfl
  · have declared := List.mem_of_getElem? param
    exact entry param (valueOf_of_gives distinct matched declared (.positional param given))
  · have declared := List.mem_of_getElem? param
    exact entry param (valueOf_of_gives distinct matched declared (.keyword declared answers given))
  · rename_i i p
    have declared := List.mem_of_getElem? param
    have left : p ∈ f.params.drop args.length := by
      rw [List.mem_iff_getElem?]
      refine ⟨i - args.length, ?_⟩
      rw [List.getElem?_drop, Nat.add_sub_cancel' behind, param]
    obtain ⟨v, default⟩ : ∃ v, p.default = some v := by
      rw [← Option.isSome_iff_exists, ← Option.not_isNone, Bool.not_eq_true']
      apply Bool.eq_false_iff.2
      intro required
      obtain ⟨keyword, written, answers⟩ := callable.covered p left required
      obtain ⟨entry, given, rfl⟩ := List.mem_map.1 written
      exact unnamed entry given answers
    refine ⟨v, default, entry param (valueOf_of_not_gives distinct matched declared default ?_)⟩
    intro u gives
    cases gives with
    | positional param' given =>
      rename_i j
      have within := (List.getElem?_eq_some_iff.1 param).1
      obtain rfl : i = j :=
        (List.getElem?_inj within distinct.of_map).1 (param.trans param'.symm)
      rw [List.getElem?_eq_none behind] at given
      cases given
    | keyword _ answers given => exact unnamed _ given answers

/-- The result of a call is the one that its arguments say, and there is one if and only if the
shape of the call fits and every value is accepted. -/
theorem bind_eq_ok_iff {arguments : Arguments} :
    f.bind args kwargs = .ok arguments ↔
      f.Callable args.length (kwargs.map (·.1)) ∧ f.Accepts args kwargs ∧
        f.Binds args kwargs arguments := by
  constructor
  · intro bound
    have isOk : (f.bind args kwargs).isOk = true := by
      rw [bound]
      rfl
    obtain ⟨callable, accepts⟩ := (bind_isOk_iff_callable distinct).1 isOk
    exact ⟨callable, accepts, binds_of_bind distinct bound⟩
  · rintro ⟨callable, accepts, binds⟩
    have isOk := (bind_isOk_iff_callable distinct).2 ⟨callable, accepts⟩
    cases bound : f.bind args kwargs with
    | error fault =>
      rw [bound] at isOk
      cases isOk
    | ok arguments' => rw [(binds_of_bind distinct bound).unique binds]

end Distinct

/-- Binding is exact. If the names of the parameters differ in more than letter case, a call is
bound if and only if its shape fits and every value is accepted. It is then bound to the declared
parameters in their order, each with the value that the call gives for it or else with its default.
A mistake in the shape counts before one in a kind, and the order of the keywords matters neither
for success nor for the result. -/
theorem bind_exact (distinct : (f.params.map fun p => Text.fold p.name).Nodup) (args : List Value)
    (kwargs : List (String × Value)) :
    ((f.bind args kwargs).isOk = true ↔
        f.Callable args.length (kwargs.map (·.1)) ∧ f.Accepts args kwargs) ∧
      (∀ arguments, f.bind args kwargs = .ok arguments → f.Binds args kwargs arguments) ∧
      (¬ f.Callable args.length (kwargs.map (·.1)) →
        ∃ fault, f.bind args kwargs = .error fault ∧ fault.code = "E201") ∧
      (f.Callable args.length (kwargs.map (·.1)) → ¬ f.Accepts args kwargs →
        ∃ fault, f.bind args kwargs = .error fault ∧ fault.code = "E202") ∧
      ∀ kwargs', kwargs.Perm kwargs' → ∀ arguments,
        f.bind args kwargs' = .ok arguments ↔ f.bind args kwargs = .ok arguments := by
  refine ⟨bind_isOk_iff_callable distinct, fun _ => binds_of_bind distinct, fun misshapen => ?_,
    fun callable refused => ?_, fun kwargs' same arguments => ?_⟩
  · cases matched : f.matchArguments args.length (kwargs.map (·.1)) with
    | error fault =>
      refine ⟨fault, ?_, matchArguments_code matched⟩
      rw [bind, matched]
    | ok m => exact absurd ((callable_iff distinct).1 ⟨m, matched⟩) misshapen
  · obtain ⟨m, matched⟩ := (callable_iff distinct).2 callable
    rw [bind_of_matched matched]
    dsimp only
    cases tested : f.kindFault? (m.params.zip (args ++ kwargs.map (·.2))) with
    | none =>
      exact absurd ((accepted_iff distinct matched).1 (kindFault?_eq_none.1 tested)) refused
    | some fault =>
      obtain ⟨p, v, -, -, rfl⟩ := kindFault?_eq_some tested
      exact ⟨_, rfl, rfl⟩
  · rw [bind_eq_ok_iff distinct, bind_eq_ok_iff distinct]
    constructor
    · rintro ⟨callable, accepts, binds⟩
      exact ⟨callable.perm (same.symm.map _), accepts.perm same.symm, binds.perm same.symm⟩
    · rintro ⟨callable, accepts, binds⟩
      exact ⟨callable.perm (same.map _), accepts.perm same, binds.perm same⟩

/-- Shows a text, in one size if no other is given. -/
def showText : FunctionSpec :=
  { name := "show", params := [⟨"text", .string, none⟩, ⟨"size", .number, some (.ofInt 1)⟩] }

theorem showText_bound :
    (showText.params.map fun p => Text.fold p.name).Nodup ∧
      showText.Callable 0 ["SIZE", "Text"] ∧
      showText.Binds [] [("SIZE", .ofInt 2), ("Text", .string "ready")]
        [("text", .string "ready"), ("size", .ofInt 2)] := by
  have distinct : (showText.params.map fun p => Text.fold p.name).Nodup := by decide +kernel
  have shown := bind_exact distinct [] [("SIZE", .ofInt 2), ("Text", .string "ready")]
  exact ⟨distinct, (shown.1.1 (by decide +kernel)).1, shown.2.1 _ (by decide +kernel)⟩

end FunctionSpec

end InstallScript
