import InstallScript.Proofs.Syntax.Written

/-!
The tokens of a printed script. Every statement begins on a line of its own, and nothing but the end
of the line ends it; with white space for the indentation, the lines of a statement that can be
written are read as its tokens (`Stmt.reads`), and a printed script as those of its statements.
-/

namespace InstallScript

/-! ## Tokens of statements -/

/-- The word of an assignment. -/
def AssignMode.marks : AssignMode → List Mark
  | bind => []
  | update => [.word .setWord]

/-- The tokens of the step of a counted loop. -/
def stepMarks : Option Expr → List Mark
  | none => []
  | some e => .word .stepWord :: e.marks

/-- The word in front of a guarded part of a choice. -/
def branchWord (isFirst : Bool) : TokenKind :=
  if isFirst then .ifWord else .elseifWord

mutual

/-- The tokens of a statement. -/
def Stmt.marks : Stmt → List Mark
  | .assign _ mode name value =>
    mode.marks ++ .of .identifier (.text name) :: .word .assign :: value.marks
  | .call c => c.marks
  | .choice _ branches none => branchMarks true branches ++ [.word .endifWord]
  | .choice _ branches (some last) =>
    branchMarks true branches ++ .word .elseWord :: (last.marks ++ [.word .endifWord])
  | .whileLoop _ condition body =>
    .word .whileWord :: (condition.marks ++ .word .doWord :: (body.marks ++ [.word .endwhileWord]))
  | .forLoop _ counter first last step body =>
    .word .forWord :: .of .identifier (.text counter) :: .word .assign ::
      (first.marks ++ .word .toWord :: (last.marks ++ (stepMarks step ++ .word .doWord ::
        (body.marks ++ [.word .endforWord]))))
  | .block body => .word .beginWord :: (body.marks ++ [.word .endWord])
  | .ret _ => [.word .returnWord]
  | .comment _ text => [.of .comment (.text text)]

/-- The tokens of the guarded parts of a choice. -/
def branchMarks (isFirst : Bool) : List Branch → List Mark
  | [] => []
  | .mk _ condition body :: rest =>
    .word (branchWord isFirst) ::
      (condition.marks ++ .word .thenWord :: (body.marks ++ branchMarks false rest))

/-- The tokens of a block. -/
def Block.marks : Block → List Mark
  | .mk _ statements => stmtMarks statements

/-- The tokens of several statements. -/
def stmtMarks : List Stmt → List Mark
  | [] => []
  | s :: rest => s.marks ++ stmtMarks rest

end

/-- A step of a counted loop that can be written. -/
def stepWritable (g : Grammar) : Option Expr → Prop
  | none => True
  | some e => e.Writable g

section

variable (g : Grammar)

mutual

/-- A statement that can be written in a version of the language. -/
def Stmt.Writable : Stmt → Prop
  | .assign _ _ name value => IsName g name ∧ value.Writable g
  | .call c => c.Writable g
  | .choice _ branches none => branches ≠ [] ∧ branchesWritable branches
  | .choice _ branches (some last) => branches ≠ [] ∧ branchesWritable branches ∧ last.Writable
  | .whileLoop _ condition body =>
    g.loops = true ∧ g.HasLoopWords ∧ condition.Writable g ∧ body.Writable
  | .forLoop _ counter first last step body =>
    g.loops = true ∧ g.HasLoopWords ∧ IsName g counter ∧ first.Writable g ∧ last.Writable g ∧
      stepWritable g step ∧ body.Writable
  | .block body => body.Writable
  | .ret _ => True
  | .comment _ text => g.retainComments = true ∧ IsComment text

/-- Guarded parts of a choice that can be written. -/
def branchesWritable : List Branch → Prop
  | [] => True
  | .mk _ condition body :: rest => condition.Writable g ∧ body.Writable ∧ branchesWritable rest

/-- A block that can be written. -/
def Block.Writable : Block → Prop
  | .mk _ statements => stmtsWritable statements

/-- Statements that can be written. -/
def stmtsWritable : List Stmt → Prop
  | [] => True
  | s :: rest => s.Writable ∧ stmtsWritable rest

end

end

/-! ## Lines -/

/-- Lines, each with its end. -/
def linesText (ls : List String) : List Char :=
  ls.flatMap fun l => l.toList ++ ['\n']

@[simp] theorem linesText_cons (l : String) (ls : List String) :
    linesText (l :: ls) = l.toList ++ '\n' :: linesText ls := by
  simp [linesText]

@[simp] theorem linesText_append (ls ls' : List String) :
    linesText (ls ++ ls') = linesText ls ++ linesText ls' :=
  List.flatMap_append

theorem toList_intercalate_lines (l : String) (ls : List String) :
    ("\n".intercalate (l :: ls) ++ "\n").toList = linesText (l :: ls) := by
  induction ls generalizing l with
  | nil => simp [String.toList_append, linesText]
  | cons l' ls ih =>
    rw [linesText_cons, ← ih, String.intercalate_cons_cons]
    simp [String.toList_append]

section

variable {g : Grammar} {indent : String}

theorem reads_indentation (blank : ∀ c ∈ indent.toList, isGap c = true) (depth : Nat)
    {cs rest : List Char} {ms : List Mark} (more : Reads g cs ms rest) :
    Reads g ((repeatText depth indent).toList ++ cs) ms rest := by
  refine more.gaps _ fun c member => ?_
  unfold repeatText at member
  rw [String.toList_join] at member
  obtain ⟨copy, isCopy, inCopy⟩ := List.mem_flatMap.1 member
  rw [List.eq_of_mem_replicate isCopy] at inCopy
  exact blank c inCopy

/-- A line is read as what it spells. -/
theorem reads_line (blank : ∀ c ∈ indent.toList, isGap c = true) (depth : Nat) {text : String}
    {ms ns : List Mark} {ls : List String} {cs rest : List Char} (spells : Spells g text ms)
    (more : Reads g (linesText ls ++ cs) ns rest) :
    Reads g (linesText (indentedLine indent depth text :: ls) ++ cs) (ms ++ ns) rest := by
  rw [linesText_cons, List.append_assoc, List.cons_append, indentedLine, String.toList_append,
    List.append_assoc]
  exact reads_indentation blank depth ((spells _ (.line _)).trans (.gap rfl more))

/-- The last line of a statement. -/
theorem reads_last_line (blank : ∀ c ∈ indent.toList, isGap c = true) (depth : Nat) {text : String}
    {ms : List Mark} (spells : Spells g text ms) (rest : List Char) :
    Reads g (linesText [indentedLine indent depth text] ++ rest) ms rest := by
  have line : Reads g (linesText [indentedLine indent depth text] ++ rest) (ms ++ []) rest :=
    reads_line blank depth spells .refl
  rwa [List.append_nil] at line

theorem reads_lines_append {ls ls' : List String} {ms ns : List Mark} {cs rest : List Char}
    (first : ∀ rest, Reads g (linesText ls ++ rest) ms rest)
    (second : Reads g (linesText ls' ++ cs) ns rest) :
    Reads g (linesText (ls ++ ls') ++ cs) (ms ++ ns) rest := by
  rw [linesText_append, List.append_assoc]
  exact (first _).trans second

theorem reads_sign (cs : List Char) : Reads g ('=' :: ' ' :: cs) [.word .assign] (' ' :: cs) :=
  .assign nofun

theorem spells_target (standard : g.Standard) {name : String} {value : Expr}
    (isName : IsName g name) (writable : value.Writable g) :
    Spells g (name ++ " = " ++ value.text)
      (.of .identifier (.text name) :: .word .assign :: value.marks) := by
  intro rest apart
  simp only [String.toList_append, List.append_assoc]
  refine (spells_name isName _ (.space _)).trans (Reads.space ?_)
  exact (reads_sign _).trans (Expr.spells standard writable rest apart).space

theorem spells_assignment (standard : g.Standard) (mode : AssignMode) {name : String} {value : Expr}
    (isName : IsName g name) (writable : value.Writable g) :
    Spells g ((match mode with | .update => "set " | .bind => "") ++ name ++ " = " ++ value.text)
      (mode.marks ++ .of .identifier (.text name) :: .word .assign :: value.marks) := by
  intro rest apart
  have target := spells_target standard isName writable rest apart
  simp only [String.toList_append, List.append_assoc] at target ⊢
  cases mode with
  | bind => exact target
  | update =>
    have word : Spells g "set" [.word .setWord] := spells_core standard
    exact (word _ (.space _)).trans target.space

theorem spells_guard (standard : g.Standard) (isFirst : Bool) {condition : Expr}
    (writable : condition.Writable g) :
    Spells g ((if isFirst then "if " else "elseif ") ++ condition.text ++ " then")
      (.word (branchWord isFirst) :: (condition.marks ++ [.word .thenWord])) := by
  intro rest apart
  have thenWord : Spells g "then" [.word .thenWord] := spells_core standard
  have test := (Expr.spells standard writable _ (.space _)).trans (thenWord rest apart).space
  simp only [String.toList_append, List.append_assoc]
  cases isFirst with
  | true =>
    have word : Spells g "if" [.word .ifWord] := spells_core standard
    exact (word _ (.space _)).trans test.space
  | false =>
    have word : Spells g "elseif" [.word .elseifWord] := spells_core standard
    exact (word _ (.space _)).trans test.space

theorem spells_while (standard : g.Standard) (loopWords : g.HasLoopWords) {condition : Expr}
    (writable : condition.Writable g) :
    Spells g ("while " ++ condition.text ++ " do")
      (.word .whileWord :: (condition.marks ++ [.word .doWord])) := by
  intro rest apart
  have doWord : Spells g "do" [.word .doWord] := spells_loop loopWords
  have word : Spells g "while" [.word .whileWord] := spells_loop loopWords
  have test := (Expr.spells standard writable _ (.space _)).trans (doWord rest apart).space
  simp only [String.toList_append, List.append_assoc]
  exact (word _ (.space _)).trans test.space

/-- The step of a counted loop as text. -/
def stepText : Option Expr → String
  | some e => " step " ++ e.text
  | none => ""

theorem reads_step (standard : g.Standard) (loopWords : g.HasLoopWords) {step : Option Expr}
    (writable : stepWritable g step) {cs rest : List Char} {ns : List Mark}
    (more : Reads g (' ' :: cs) ns rest) :
    Apart ((stepText step).toList ++ ' ' :: cs) ∧
      Reads g ((stepText step).toList ++ ' ' :: cs)
        (stepMarks step ++ ns) rest := by
  cases step with
  | none => exact ⟨.space cs, more⟩
  | some e =>
    have word : Spells g "step" [.word .stepWord] := spells_loop loopWords
    have value := (Expr.spells standard writable _ (.space cs)).trans more
    simp only [stepText, String.toList_append, List.append_assoc]
    exact ⟨.space _, Reads.space ((word _ (.space _)).trans value.space)⟩

theorem spells_for (standard : g.Standard) (loopWords : g.HasLoopWords) {counter : String}
    {first last : Expr} {step : Option Expr} (isName : IsName g counter) (from' : first.Writable g)
    (upTo : last.Writable g) (by' : stepWritable g step) :
    Spells g ("for " ++ counter ++ " = " ++ first.text ++ " to " ++ last.text ++
        stepText step ++ " do")
      (.word .forWord :: .of .identifier (.text counter) :: .word .assign ::
        (first.marks ++ .word .toWord :: (last.marks ++ (stepMarks step ++ [.word .doWord])))) := by
  intro rest apart
  have forWord : Spells g "for" [.word .forWord] := spells_loop loopWords
  have toWord : Spells g "to" [.word .toWord] := spells_loop loopWords
  have doWord : Spells g "do" [.word .doWord] := spells_loop loopWords
  obtain ⟨stepApart, ending⟩ := reads_step standard loopWords by' (doWord rest apart).space
  simp only [String.toList_append, List.append_assoc]
  refine (forWord _ (.space _)).trans (Reads.space ?_)
  refine (spells_name isName _ (.space _)).trans (Reads.space ?_)
  refine (reads_sign _).trans (Reads.space ?_)
  refine (Expr.spells standard from' _ (.space _)).trans (Reads.space ?_)
  refine (toWord _ (.space _)).trans (Reads.space ?_)
  exact (Expr.spells standard upTo _ stepApart).trans ending

/-! ## Statements -/

mutual

/-- The lines of a statement are read as its tokens. -/
theorem Stmt.reads (standard : g.Standard) (blank : ∀ c ∈ indent.toList, isGap c = true) :
    ∀ (s : Stmt) (depth : Nat), s.Writable g → ∀ rest : List Char,
      Reads g (linesText (s.lines indent depth) ++ rest) s.marks rest
  | .assign _ mode name value, depth, ⟨isName, writable⟩, rest => by
    have line := reads_last_line blank depth (spells_assignment standard mode isName writable) rest
    cases mode <;> exact line
  | .call c, depth, writable, rest => by
    rw [Stmt.lines, Stmt.marks]
    exact reads_last_line blank depth (Call.spells standard writable) rest
  | .choice _ branches none, depth, ⟨_, branchesOk⟩, rest => by
    have closing : Spells g "endif" [.word .endifWord] := spells_core standard
    rw [Stmt.lines, Stmt.marks]
    exact reads_lines_append (branches_read standard blank branches depth true branchesOk)
      (reads_last_line blank depth closing rest)
  | .choice _ branches (some last), depth, ⟨_, branchesOk, lastOk⟩, rest => by
    have closing : Spells g "endif" [.word .endifWord] := spells_core standard
    have elseWord : Spells g "else" [.word .elseWord] := spells_core standard
    rw [Stmt.lines, Stmt.marks]
    exact reads_lines_append (branches_read standard blank branches depth true branchesOk)
      (reads_line blank depth elseWord (reads_lines_append
        (Block.reads standard blank last (depth + 1) lastOk)
        (reads_last_line blank depth closing rest)))
  | .whileLoop _ condition body, depth, ⟨_, loopWords, test, inner⟩, rest => by
    have closing : Spells g "endwhile" [.word .endwhileWord] := spells_loop loopWords
    have whole := reads_line blank depth (spells_while standard loopWords test)
      (reads_lines_append (Block.reads standard blank body (depth + 1) inner)
        (reads_last_line blank depth closing rest))
    rw [Stmt.lines, Stmt.marks]
    simpa only [List.cons_append, List.append_assoc, List.nil_append] using whole
  | .forLoop _ counter first last step body, depth,
      ⟨_, loopWords, isName, start, stop, increment, inner⟩, rest => by
    have closing : Spells g "endfor" [.word .endforWord] := spells_loop loopWords
    have whole := reads_line blank depth (spells_for standard loopWords isName start stop increment)
      (reads_lines_append (Block.reads standard blank body (depth + 1) inner)
        (reads_last_line blank depth closing rest))
    simp only [List.cons_append, List.append_assoc, List.nil_append] at whole
    cases step <;> exact whole
  | .block body, depth, inner, rest => by
    have opening : Spells g "begin" [.word .beginWord] := spells_core standard
    have closing : Spells g "end" [.word .endWord] := spells_core standard
    rw [Stmt.lines, Stmt.marks]
    exact reads_line blank depth opening (reads_lines_append
      (Block.reads standard blank body (depth + 1) inner)
      (reads_last_line blank depth closing rest))
  | .ret _, depth, _, rest => by
    have word : Spells g "return" [.word .returnWord] := spells_core standard
    rw [Stmt.lines, Stmt.marks]
    exact reads_last_line blank depth word rest
  | .comment _ text, depth, ⟨kept, isComment⟩, rest => by
    have found := Reads.comment isComment kept rest
    rw [Stmt.lines, Stmt.marks, linesText_cons, List.append_assoc, indentedLine,
      String.toList_append, List.append_assoc]
    exact reads_indentation blank depth (found.trans (.gap rfl .refl))

theorem branches_read (standard : g.Standard) (blank : ∀ c ∈ indent.toList, isGap c = true) :
    ∀ (bs : List Branch) (depth : Nat) (isFirst : Bool), branchesWritable g bs → ∀ rest : List Char,
      Reads g (linesText (branchLines indent depth isFirst bs) ++ rest)
        (branchMarks isFirst bs) rest
  | [], _, _, _, _ => .refl
  | .mk _ condition body :: bs, depth, isFirst, ⟨test, inner, others⟩, rest => by
    have whole := reads_line blank depth (spells_guard standard isFirst test)
      (reads_lines_append (Block.reads standard blank body (depth + 1) inner)
        (branches_read standard blank bs depth false others rest))
    rw [branchLines, branchMarks]
    simpa only [List.cons_append, List.append_assoc, List.nil_append] using whole

theorem Block.reads (standard : g.Standard) (blank : ∀ c ∈ indent.toList, isGap c = true) :
    ∀ (b : Block) (depth : Nat), b.Writable g → ∀ rest : List Char,
      Reads g (linesText (b.lines indent depth) ++ rest) b.marks rest
  | .mk _ statements, depth, writable, rest =>
    stmts_read standard blank statements depth writable rest

theorem stmts_read (standard : g.Standard) (blank : ∀ c ∈ indent.toList, isGap c = true) :
    ∀ (ss : List Stmt) (depth : Nat), stmtsWritable g ss → ∀ rest : List Char,
      Reads g (linesText (stmtLines indent depth ss) ++ rest) (stmtMarks ss) rest
  | [], _, _, _ => .refl
  | s :: ss, depth, ⟨first, others⟩, rest => by
    rw [stmtLines, linesText_append, List.append_assoc, stmtMarks]
    exact (Stmt.reads standard blank s depth first _).trans
      (stmts_read standard blank ss depth others rest)

end

/-- A script in canonical form is read to its end. -/
theorem Block.format_reads (standard : g.Standard) (blank : ∀ c ∈ indent.toList, isGap c = true)
    {b : Block} (writable : b.Writable g) : Reads g (b.format indent).toList b.marks [] := by
  have whole := Block.reads standard blank b 0 writable []
  rw [List.append_nil] at whole
  unfold Block.format
  cases eq : b.lines indent 0 with
  | nil =>
    rw [eq] at whole
    exact .gap rfl whole
  | cons l ls =>
    rw [eq] at whole
    rwa [toList_intercalate_lines]

end

end InstallScript
