import InstallScript.Proofs.Syntax.Lexeme

/-!
Comments. The text of a comment has no blanks around it, and if it has several lines, the comments
that are opened in it are closed in it. Such a text is found again in what is written for it:
between marks if it has several lines, and up to the end of the line otherwise.
-/

namespace InstallScript

/-! ## Texts without blanks around them -/

theorem dropWhile_of_head {p : Char → Bool} {cs : List Char}
    (ends : ∀ c, cs.head? = some c → p c = false) : cs.dropWhile p = cs := by
  cases cs with
  | nil => rfl
  | cons c cs => rw [List.dropWhile_cons_of_neg (by simp [ends c rfl])]

theorem head_dropWhile {p : Char → Bool} (cs : List Char) :
    ∀ c, (cs.dropWhile p).head? = some c → p c = false := by
  induction cs with
  | nil => nofun
  | cons d cs ih =>
    intro c head
    cases holds : p d with
    | true => exact ih c (List.dropWhile_cons_of_pos holds ▸ head)
    | false =>
      rw [List.dropWhile_cons_of_neg (by simp [holds])] at head
      cases head
      exact holds

namespace Text

/-- No character of a class begins or ends the text. -/
structure Trimmed (p : Char → Bool) (cs : List Char) : Prop where
  head : ∀ c, cs.head? = some c → p c = false
  last : ∀ c, cs.getLast? = some c → p c = false

theorem trim_of_trimmed {p : Char → Bool} {before cs after : List Char}
    (blank : ∀ c ∈ before, p c = true) (trimmed : Trimmed p cs) (blank' : ∀ c ∈ after, p c = true) :
    trim p (before ++ (cs ++ after)) = cs := by
  unfold trim
  rw [List.dropWhile_append_of_pos blank]
  rcases List.eq_nil_or_concat cs with rfl | ⟨init, final, rfl⟩
  · rw [List.nil_append, ← List.append_nil after, List.dropWhile_append_of_pos blank']
    rfl
  · have front : ((init.concat final) ++ after).dropWhile p = (init.concat final) ++ after := by
      refine dropWhile_of_head fun c head => trimmed.head c ?_
      rw [List.concat_eq_append] at head ⊢
      cases init <;> exact head
    have back : after.reverse ++ (init.concat final).reverse =
        ((init.concat final) ++ after).reverse :=
      (List.reverse_append).symm
    rw [front, ← back,
      List.dropWhile_append_of_pos fun c member => blank' c (List.mem_reverse.1 member),
      dropWhile_of_head, List.reverse_reverse]
    intro c head
    exact trimmed.last c (by rw [← List.head?_reverse]; exact head)

theorem trim_split (p : Char → Bool) (cs : List Char) : ∃ before after,
    cs = before ++ (trim p cs ++ after) ∧ (∀ c ∈ before, p c = true) ∧ ∀ c ∈ after, p c = true := by
  refine ⟨cs.takeWhile p, ((cs.dropWhile p).reverse.takeWhile p).reverse, ?_, ?_, ?_⟩
  · unfold trim
    rw [← List.reverse_append, List.takeWhile_append_dropWhile, List.reverse_reverse,
      List.takeWhile_append_dropWhile]
  · exact List.all_eq_true.1 List.all_takeWhile
  · exact fun c member => List.all_eq_true.1 List.all_takeWhile c (List.mem_reverse.1 member)

theorem trim_trimmed (p : Char → Bool) (cs : List Char) : Trimmed p (trim p cs) := by
  constructor
  · intro c head
    have split := List.takeWhile_append_dropWhile (p := p) (l := (cs.dropWhile p).reverse)
    have whole : trim p cs ++ ((cs.dropWhile p).reverse.takeWhile p).reverse = cs.dropWhile p := by
      rw [trim, ← List.reverse_append, split, List.reverse_reverse]
    refine head_dropWhile cs c ?_
    rw [← whole, List.head?_append, head]
    rfl
  · intro c last
    rw [trim, List.getLast?_reverse] at last
    exact head_dropWhile _ c last

theorem strip_strip (cs : List Char) : strip (strip cs) = strip cs := by
  have trimmed := @trim_of_trimmed isBlank [] (strip cs) [] nofun (trim_trimmed isBlank cs) nofun
  rwa [List.append_nil] at trimmed

end Text

/-! ## Open comments -/

/-- How many comments are open at the end of a text, if as many are open at its beginning as given
and not all of them are closed before its end. -/
def commentDepth? : Nat → List Char → Option Nat
  | 0, _ => none
  | depth + 1, '/' :: '*' :: rest => commentDepth? (depth + 2) rest
  | depth + 1, '*' :: '/' :: rest => commentDepth? depth rest
  | depth + 1, _ :: rest => commentDepth? (depth + 1) rest
  | depth + 1, [] => some (depth + 1)

/-- A mark that opens or closes a comment. -/
def isMark (c d : Char) : Bool := (c = '/' && d = '*') || (c = '*' && d = '/')

theorem commentDepth?_plain {depth : Nat} {c : Char} {rest : List Char}
    (noMark : ∀ d, rest.head? = some d → isMark c d = false) :
    commentDepth? (depth + 1) (c :: rest) = commentDepth? (depth + 1) rest := by
  rw [commentDepth?]
  · rintro more rfl rfl
    cases noMark '*' rfl
  · rintro more rfl rfl
    cases noMark '/' rfl

theorem commentLength?_plain {depth : Nat} {c : Char} {rest : List Char}
    (noMark : ∀ d, rest.head? = some d → isMark c d = false) :
    commentLength? (depth + 1) (c :: rest) = (commentLength? (depth + 1) rest).map (· + 1) := by
  rw [commentLength?]
  · rintro more rfl rfl
    cases noMark '*' rfl
  · rintro more rfl rfl
    cases noMark '/' rfl

/-- A mark that opens or closes a comment stands at the head of a text, or it does not. -/
theorem mark_cases (c : Char) (rest : List Char) :
    (∃ more, c = '/' ∧ rest = '*' :: more) ∨ (∃ more, c = '*' ∧ rest = '/' :: more) ∨
      ∀ d, rest.head? = some d → isMark c d = false := by
  cases rest with
  | nil => exact .inr (.inr nofun)
  | cons d rest =>
    by_cases opening : c = '/' ∧ d = '*'
    · exact .inl ⟨rest, opening.1, by rw [opening.2]⟩
    by_cases closing : c = '*' ∧ d = '/'
    · exact .inr (.inl ⟨rest, closing.1, by rw [closing.2]⟩)
    refine .inr (.inr fun e head => ?_)
    cases head
    rw [isMark, Bool.or_eq_false_iff, Bool.and_eq_false_iff, Bool.and_eq_false_iff,
      decide_eq_false_iff_not, decide_eq_false_iff_not, decide_eq_false_iff_not,
      decide_eq_false_iff_not]
    exact ⟨Decidable.not_and_iff_not_or_not.1 opening, Decidable.not_and_iff_not_or_not.1 closing⟩

/-- The end of the comments that are open is a mark that closes the last one of them. -/
theorem commentLength?_split : ∀ {depth : Nat} {cs : List Char} {length : Nat},
    commentLength? (depth + 1) cs = some length →
      ∃ body rest, cs = body ++ '*' :: '/' :: rest ∧ length = body.length + 2 ∧
        commentDepth? (depth + 1) body = some 1
  | depth, [], _, found => by
    rw [commentLength?] at found
    cases found
  | depth, c :: cs, length, found => by
    rcases mark_cases c cs with ⟨more, rfl, rfl⟩ | ⟨more, rfl, rfl⟩ | noMark
    · rw [commentLength?, Option.map_eq_some_iff] at found
      obtain ⟨inner, found, rfl⟩ := found
      obtain ⟨body, rest, rfl, rfl, ends⟩ := commentLength?_split found
      exact ⟨'/' :: '*' :: body, rest, rfl, rfl, ends⟩
    · rw [commentLength?, Option.map_eq_some_iff] at found
      obtain ⟨inner, found, rfl⟩ := found
      cases depth with
      | zero =>
        rw [commentLength?] at found
        cases found
        exact ⟨[], more, rfl, rfl, rfl⟩
      | succ depth =>
        obtain ⟨body, rest, rfl, rfl, ends⟩ := commentLength?_split found
        exact ⟨'*' :: '/' :: body, rest, rfl, rfl, ends⟩
    · rw [commentLength?_plain noMark, Option.map_eq_some_iff] at found
      obtain ⟨inner, found, rfl⟩ := found
      obtain ⟨body, rest, rfl, rfl, ends⟩ := commentLength?_split found
      refine ⟨c :: body, rest, rfl, rfl, ?_⟩
      rw [commentDepth?_plain, ends]
      intro d head
      refine noMark d ?_
      rw [List.head?_append, head]
      rfl
termination_by _ cs => cs.length

/-- A text in which comments are closed again, with a blank and a closing mark behind it. -/
theorem commentLength?_of_depth : ∀ {depth : Nat} {body : List Char} (rest : List Char),
    commentDepth? (depth + 1) body = some 1 →
      commentLength? (depth + 1) (body ++ ' ' :: '*' :: '/' :: rest) = some (body.length + 3)
  | depth, [], rest, ends => by
    rw [commentDepth?] at ends
    cases ends
    simp [commentLength?]
  | depth, c :: body, rest, ends => by
    rcases mark_cases c body with ⟨more, rfl, rfl⟩ | ⟨more, rfl, rfl⟩ | noMark
    · rw [commentDepth?] at ends
      dsimp only [List.cons_append]
      rw [commentLength?, commentLength?_of_depth rest ends]
      rfl
    · rw [commentDepth?] at ends
      cases depth with
      | zero =>
        rw [commentDepth?] at ends
        cases ends
      | succ depth =>
        dsimp only [List.cons_append]
        rw [commentLength?, commentLength?_of_depth rest ends]
        rfl
    · rw [commentDepth?_plain noMark] at ends
      rw [List.cons_append, commentLength?_plain, commentLength?_of_depth rest ends]
      · rfl
      · intro d head
        cases body with
        | nil =>
          cases head
          cases c
          simp [isMark]
        | cons e body => exact noMark d head
termination_by _ body => body.length

theorem isMark_blank {c d : Char} (blank : Text.isBlank d = true) : isMark c d = false := by
  have star : d ≠ '*' := by
    rintro rfl
    cases blank
  have slash : d ≠ '/' := by
    rintro rfl
    cases blank
  simp [isMark, star, slash]

theorem blank_isMark {c d : Char} (blank : Text.isBlank c = true) : isMark c d = false := by
  have star : c ≠ '*' := by
    rintro rfl
    cases blank
  have slash : c ≠ '/' := by
    rintro rfl
    cases blank
  simp [isMark, star, slash]

theorem commentDepth?_before {depth : Nat} {before : List Char} (body : List Char)
    (blank : ∀ c ∈ before, Text.isBlank c = true) :
    commentDepth? (depth + 1) (before ++ body) = commentDepth? (depth + 1) body := by
  induction before with
  | nil => rfl
  | cons c before ih =>
    have first : Text.isBlank c = true := blank c List.mem_cons_self
    rw [List.cons_append, commentDepth?_plain fun d _ => blank_isMark first]
    exact ih fun c' member => blank c' (List.mem_cons_of_mem _ member)

theorem commentDepth?_after : ∀ {depth : Nat} (body : List Char) {after : List Char},
    (∀ c ∈ after, Text.isBlank c = true) →
      commentDepth? (depth + 1) (body ++ after) = commentDepth? (depth + 1) body
  | depth, [], after, blank => by
    have only := @commentDepth?_before depth after [] blank
    rwa [List.append_nil] at only
  | depth, c :: body, after, blank => by
    rcases mark_cases c body with ⟨more, rfl, rfl⟩ | ⟨more, rfl, rfl⟩ | noMark
    · dsimp only [List.cons_append]
      rw [commentDepth?, commentDepth?, commentDepth?_after more blank]
    · dsimp only [List.cons_append]
      rw [commentDepth?, commentDepth?]
      cases depth with
      | zero => rw [commentDepth?, commentDepth?]
      | succ depth => exact commentDepth?_after more blank
    · rw [commentDepth?_plain noMark, List.cons_append, commentDepth?_plain,
        commentDepth?_after body blank]
      intro d head
      cases body with
      | nil =>
        refine isMark_blank (blank d ?_)
        exact List.mem_of_mem_head? head
      | cons e body => exact noMark d head
termination_by _ body => body.length

/-- Blanks around a text neither open nor close a comment. -/
theorem commentDepth?_strip (depth : Nat) (cs : List Char) :
    commentDepth? (depth + 1) (Text.strip cs) = commentDepth? (depth + 1) cs := by
  obtain ⟨before, after, split, blank, blank'⟩ := Text.trim_split Text.isBlank cs
  conv_rhs => rw [split]
  rw [commentDepth?_before _ blank, commentDepth?_after _ blank']
  rfl

/-! ## Comments that are found -/

/-- The text of a comment. -/
structure IsComment (text : String) : Prop where
  stripped : Text.strip text.toList = text.toList
  closed : '\n' ∈ text.toList → commentDepth? 1 text.toList = some 1

theorem mem_strip {c : Char} {cs : List Char} (member : c ∈ Text.strip cs) : c ∈ cs := by
  obtain ⟨before, after, split, -, -⟩ := Text.trim_split Text.isBlank cs
  rw [split]
  exact List.mem_append_right _ (List.mem_append_left _ member)

theorem isComment_of_line {body : List Char} (oneLine : '\n' ∉ body) :
    IsComment (String.ofList (Text.strip body)) := by
  constructor
  · rw [String.toList_ofList, Text.strip_strip]
  · rw [String.toList_ofList]
    exact fun member => absurd (mem_strip member) oneLine

theorem isComment_of_closed {body : List Char} (closed : commentDepth? 1 body = some 1) :
    IsComment (String.ofList (Text.strip body)) := by
  constructor
  · rw [String.toList_ofList, Text.strip_strip]
  · rw [String.toList_ofList, commentDepth?_strip]
    exact fun _ => closed

theorem scanLineComment_value {rest : List Char} {kind : TokenKind} {value : TokenValue}
    {length : Nat} (found : scanLineComment rest = .token kind value length) :
    kind = .comment ∧ ∃ text, value = .text text ∧ IsComment text := by
  unfold scanLineComment at found
  cases found
  refine ⟨rfl, _, rfl, isComment_of_line fun member => ?_⟩
  have notEnd := List.all_eq_true.1 List.all_takeWhile _ member
  simp at notEnd

theorem scanBlockComment_value {rest : List Char} {kind : TokenKind} {value : TokenValue}
    {length : Nat} (found : scanBlockComment rest = .token kind value length) :
    kind = .comment ∧ ∃ text, value = .text text ∧ IsComment text := by
  unfold scanBlockComment at found
  split at found
  · rename_i inner ends
    cases found
    obtain ⟨body, more, rfl, rfl, closed⟩ := commentLength?_split ends
    refine ⟨rfl, _, rfl, isComment_of_closed ?_⟩
    rwa [Nat.add_sub_cancel, List.take_left]
  · cases found

/-- A comment is found again up to the end of its line. -/
theorem Reads.comment {g : Grammar} {text : String} (isComment : IsComment text)
    (kept : g.retainComments = true) (rest : List Char) :
    Reads g ((commentText text).toList ++ '\n' :: rest) [.of .comment (.text text)]
      ('\n' :: rest) := by
  obtain ⟨stripped, closed⟩ := isComment
  have space : Text.isBlank ' ' = true := rfl
  have trimmed := Text.trim_trimmed Text.isBlank text.toList
  have stripped' : Text.trim Text.isBlank text.toList = text.toList := stripped
  rw [stripped'] at trimmed
  unfold commentText
  by_cases several : '\n' ∈ text.toList
  · rw [if_pos (by simpa using several)]
    have written : ("/* " ++ text ++ " */").toList ++ '\n' :: rest =
        '/' :: (('*' :: ' ' :: (text.toList ++ [' ', '*', '/'])) ++ '\n' :: rest) := by
      simp [String.toList_append]
    rw [written]
    refine .token rfl ?_ (fun _ => kept) .refl
    have opened : scan g '/' (('*' :: ' ' :: (text.toList ++ [' ', '*', '/'])) ++ '\n' :: rest) =
        scanBlockComment ([' '] ++ (text.toList ++ ' ' :: '*' :: '/' :: '\n' :: rest)) := by
      simp [scan]
    have inner : commentDepth? 1 ([' '] ++ text.toList) = some 1 := by
      rw [commentDepth?_before _ (by simp [space]), closed several]
    have ends : commentLength? 1 ([' '] ++ (text.toList ++ ' ' :: '*' :: '/' :: '\n' :: rest)) =
        some (([' '] ++ text.toList).length + 3) := by
      rw [← List.append_assoc]
      exact commentLength?_of_depth _ inner
    have body : ([' '] ++ (text.toList ++ ' ' :: '*' :: '/' :: '\n' :: rest)).take
        (([' '] ++ text.toList).length + 3 - 2) = [' '] ++ (text.toList ++ [' ']) := by
      have split : [' '] ++ (text.toList ++ ' ' :: '*' :: '/' :: '\n' :: rest) =
          ([' '] ++ (text.toList ++ [' '])) ++ '*' :: '/' :: '\n' :: rest := by simp
      rw [split]
      exact List.take_left' (by simp)
    rw [opened, scanBlockComment, ends]
    dsimp only
    rw [body, Text.strip, Text.trim_of_trimmed (by simp [space]) trimmed (by simp [space]),
      String.ofList_toList]
    simp
  · rw [if_neg (by simpa using several)]
    have written : ("# " ++ text).toList ++ '\n' :: rest =
        '#' :: ((' ' :: text.toList) ++ '\n' :: rest) := by
      simp [String.toList_append]
    rw [written]
    refine .token rfl ?_ (fun _ => kept) .refl
    have line : ((' ' :: text.toList) ++ '\n' :: rest).takeWhile (· ≠ '\n') =
        ' ' :: text.toList := by
      refine takeWhile_append_of_head ?_ ?_
      · intro c member
        rcases List.mem_cons.1 member with rfl | inText
        · rfl
        · exact decide_eq_true fun eq => several (eq ▸ inText)
      · rintro c ⟨⟩
        rfl
    have marked : scan g '#' ((' ' :: text.toList) ++ '\n' :: rest) =
        scanLineComment ((' ' :: text.toList) ++ '\n' :: rest) := rfl
    have body : Text.strip (' ' :: text.toList) = text.toList := by
      have trim := @Text.trim_of_trimmed Text.isBlank [' '] text.toList []
        (by simp [space]) trimmed nofun
      rwa [List.append_nil] at trim
    rw [marked, scanLineComment, line, body, String.ofList_toList]

end InstallScript
