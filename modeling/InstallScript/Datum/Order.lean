import InstallScript.Datum

/-!
Plain data as the keys of a mapping: when two keys are one, and the least of several keys. Only data
of kindred kinds can be compared; truth values count as numbers.
-/

namespace InstallScript

/-- What is wrong with keys that should be texts. -/
inductive KeyFault
  /-- The least key is of another kind. -/
  | notText (kind : String)
  /-- There is no order between data of two kinds. -/
  | unordered (left right : String)
  | dayWithMoment
  /-- Only one of two moments tells universal time. -/
  | mixedClocks
  deriving DecidableEq, Repr

/-- The wording of a fault. -/
def KeyFault.message : KeyFault → String
  | notText kind => s!"sequence item 0: expected str instance, {kind} found"
  | unordered left right => s!"'<' not supported between instances of '{left}' and '{right}'"
  | dayWithMoment => "can't compare datetime.datetime to datetime.date"
  | mixedClocks => "can't compare offset-naive and offset-aware datetimes"

namespace Datum

/-- The number that a datum counts as. -/
def asNumber? : Datum → Option Number
  | .bool b => some (.int (if b then 1 else 0))
  | .number n => some n
  | _ => Option.none

/-- Whether two keys are one. There is one key that is no number, and lists and mappings are no
keys. -/
def sameKey (x y : Datum) : Bool :=
  match x, y with
  | .none, .none => true
  | .text a, .text b => a = b
  | .date a, .date b => a = b
  | .moment a, .moment b => a.comparable b && a.instant == b.instant
  | .number (.float .nan), .number (.float .nan) => true
  | _, _ =>
    match x.asNumber?, y.asNumber? with
    | some a, some b => a.same b
    | _, _ => false

/-- Whether one key is less than another. -/
def keyLess (x y : Datum) : Except KeyFault Bool :=
  match x.asNumber?, y.asNumber?, x, y with
  | some a, some b, _, _ => .ok (a.less b)
  | _, _, .text a, .text b => .ok (a < b)
  | _, _, .date a, .date b => .ok (a.dayNumber < b.dayNumber)
  | _, _, .moment a, .moment b =>
    if a.comparable b then .ok (a.instant < b.instant) else .error .mixedClocks
  | _, _, .date _, .moment _ | _, _, .moment _, .date _ => .error .dayWithMoment
  | _, _, _, _ => .error (.unordered x.qualifiedKind y.qualifiedKind)

/-- The least of a key and more keys. -/
def leastKey (least : Datum) : List Datum → Except KeyFault Datum
  | [] => .ok least
  | key :: rest => do
    if ← keyLess key least then leastKey key rest else leastKey least rest

/-- A key stays the least if all others are texts that are not less. -/
theorem leastKey_text (s : String) (others : List String) (h : ∀ t ∈ others, ¬ t < s) :
    leastKey (.text s) (others.map .text) = .ok (.text s) := by
  induction others with
  | nil => rfl
  | cons t rest ih =>
    have head : ¬ t < s := h t (by simp)
    have tail := ih fun u member => h u (by simp [member])
    simp [leastKey, keyLess, asNumber?, head, tail, bind, Except.bind]

end Datum

end InstallScript
