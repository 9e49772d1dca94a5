import InstallScript.CommandLine.Terminal
import InstallScript.Proofs.Files.Outcomes

/-!
Answers that are typed at a terminal. A question is put until a line replies to it or the input
ends, so whatever is typed, it is answered in a way that it accepts or the run is cancelled, with one
exception: a choice, and a line of digits of which one is no decimal digit (`terminal_answers_fit`).
-/

namespace InstallScript.CommandLine.Terminal

/-- A reply that a question takes: its cancellation, or an answer that it accepts. -/
def Fits (p : Prompt) (reply : Reply) : Prop :=
  reply = .abort ∨ ∃ data v, reply = .answer data ∧ p.accept (.answer data) = .ok v

/-! ## One line -/

theorem confirmation?_fits {p : Prompt} (kind : p.kind = .confirm) {line : String} {reply : Reply}
    (replies : confirmation? line = some reply) : Fits p reply := by
  have yesOrNo (b : Bool) : Fits p (.answer (.bool b)) := by
    refine .inr ⟨_, .bool b, rfl, ?_⟩
    simp only [Prompt.accept, kind]
  unfold confirmation? at replies
  dsimp only at replies
  split at replies
  · cases replies
    exact yesOrNo true
  · split at replies
    · cases replies
      exact yesOrNo false
    · split at replies
      · cases replies
        exact .inl rfl
      · cases replies

theorem choiceOf_fits {p : Prompt} (kind : p.kind = .choice) {line : String} {reply : Reply}
    (replies : choiceOf p.choices line = .ok (some reply)) : Fits p reply := by
  unfold choiceOf at replies
  dsimp only at replies
  split at replies
  · cases replies
    exact .inl rfl
  · split at replies
    · split at replies
      · cases replies
      · rename_i n _
        split at replies
        · cases replies
        · obtain ⟨choice, found, rfl⟩ := Option.map_eq_some_iff.1 (Except.ok.inj replies)
          have member : choice ∈ p.choices := List.mem_of_getElem? found
          refine .inr ⟨_, .string choice, rfl, ?_⟩
          simp only [Prompt.accept, kind]
          exact if_pos (List.contains_iff_mem.2 member)
    · cases replies

theorem reply?_fits {p : Prompt} {line : String} {reply : Reply}
    (replies : reply? p line = .ok (some reply)) : Fits p reply := by
  unfold reply? at replies
  cases kind : p.kind with
  | confirm =>
    rw [kind] at replies
    exact confirmation?_fits kind (Except.ok.inj replies)
  | choice =>
    rw [kind] at replies
    exact choiceOf_fits kind replies
  | text =>
    rw [kind] at replies
    cases replies
    refine .inr ⟨_, .string line, rfl, ?_⟩
    simp only [Prompt.accept, kind]

/-- How a question is answered from the lines that are typed: what comes of it, and the lines that
are left. Lines that reply nothing are passed over. -/
inductive Answers (p : Prompt) : List String → Except Defect Reply → List String → Prop
  | ended : Answers p [] (.ok .abort) []
  | passed {line : String} {rest left : List String} {answer : Except Defect Reply}
    (silent : reply? p line = .ok none) (later : Answers p rest answer left) :
    Answers p (line :: rest) answer left
  | replied {line : String} {rest : List String} {reply : Reply}
    (replies : reply? p line = .ok (some reply)) : Answers p (line :: rest) (.ok reply) rest
  | broken {line : String} {rest : List String} {d : Defect} (breaks : reply? p line = .error d) :
    Answers p (line :: rest) (.error d) rest

namespace Answers

variable {p : Prompt} {lines left : List String} {answer : Except Defect Reply}

theorem fits (answers : Answers p lines answer left) {reply : Reply} (ok : answer = .ok reply) :
    Fits p reply := by
  induction answers with
  | ended =>
    cases ok
    exact .inl rfl
  | passed _ _ ih => exact ih ok
  | replied replies =>
    cases ok
    exact reply?_fits replies
  | broken => cases ok

/-- What is left of the lines is what stands behind those that were read, of which all but the last
one reply nothing. -/
theorem split (answers : Answers p lines answer left) :
    ∃ read, lines = read ++ left ∧ ∀ line ∈ read.dropLast, reply? p line = .ok none := by
  induction answers with
  | ended => exact ⟨[], rfl, List.forall_mem_nil _⟩
  | @passed line rest left _ silent later ih =>
    obtain ⟨read, eq, silent'⟩ := ih
    refine ⟨line :: read, congrArg (line :: ·) eq, ?_⟩
    cases read with
    | nil => exact List.forall_mem_nil _
    | cons next read => exact List.forall_mem_cons.2 ⟨silent, silent'⟩
  | @replied line rest => exact ⟨[line], rfl, List.forall_mem_nil _⟩
  | @broken line rest => exact ⟨[line], rfl, List.forall_mem_nil _⟩

end Answers

end InstallScript.CommandLine.Terminal
