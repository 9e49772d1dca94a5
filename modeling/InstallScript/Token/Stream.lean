import InstallScript.Token.Scan

/-!
The tokens of a script text. A stream is the tokens up to its end: either the text is finished, and
the last token says so, or something is wrong with the text. A reader hands a stream out once, token
by token.
-/

namespace InstallScript

/-- How a stream of tokens ends. -/
inductive StreamEnd
  /-- The text is used up. -/
  | finished
  /-- Reading stopped at a fault, at the given place. -/
  | failed (error : ScriptError) (stop : Location)
  deriving DecidableEq, Repr

/-- Tokens and what comes after them. -/
structure TokenStream where
  tokens : List Token
  ending : StreamEnd
  deriving DecidableEq, Repr

/-- A script text with its name, if it has one. -/
structure Source where
  text : List Char
  file : Option String := none

namespace Source

/-- A text without a name. -/
def ofString (s : String) : Source := ⟨s.toList, none⟩

/-- The lines of a text. -/
def lines (source : Source) : List String :=
  (Text.linesAfter [] source.text).map String.ofList

end Source

namespace TokenStream

/-- The stream with one more token in front. -/
def cons (t : Token) (s : TokenStream) : TokenStream := ⟨t :: s.tokens, s.ending⟩

/-- The token behind the last character. -/
def endToken (file : Option String) (place : Location) : Token :=
  ⟨.endOfInput, .nothing, "", ⟨place, place, file⟩⟩

/-- The tokens of a text that begins at a given place. Every step uses up a character, so the number
of steps left, which begins at one more than the number of characters, does not run out. -/
def tokensFrom (g : Grammar) (file : Option String) (lines : List String) :
    Nat → Location → List Char → TokenStream
  | 0, place, _ => ⟨[endToken file place], .finished⟩
  | steps + 1, place, cs =>
    let start := place.after (cs.takeWhile isGap)
    match cs.dropWhile isGap with
    | [] => ⟨[endToken file start], .finished⟩
    | c :: rest =>
      match scan g c rest with
      | .fault fault lead length =>
        let stop := start.after ((c :: rest).take length)
        let span : Span := ⟨start.after ((c :: rest).take lead), stop, file⟩
        ⟨[], .failed (ScriptError.withLine ⟨fault, some span, none⟩ lines) stop⟩
      | .token kind value length =>
        let lexeme := (c :: rest).take length
        let stop := start.after lexeme
        let others := tokensFrom g file lines steps stop ((c :: rest).drop length)
        if kind = .comment ∧ g.retainComments = false then others
        else cons ⟨kind, value, String.ofList lexeme, ⟨start, stop, file⟩⟩ others

/-- The tokens of a script text. -/
def ofSource (g : Grammar) (source : Source) : TokenStream :=
  tokensFrom g source.file source.lines (source.text.length + 1) {} source.text

/-- All tokens, or the error that the stream ends with. -/
def toList (s : TokenStream) : Except ScriptError (List Token) :=
  match s.ending with
  | .finished => .ok s.tokens
  | .failed error _ => .error error

end TokenStream

/-! ## Reading once -/

/-- The tokens of a text, handed out once. -/
structure TokenReader where
  stream : TokenStream
  opened : Bool := false
  place : Location := {}
  deriving DecidableEq, Repr

/-- What one step of reading gives. -/
inductive Delivery
  | token (t : Token)
  | failure (error : ScriptError)
  | exhausted
  deriving DecidableEq, Repr

namespace TokenReader

/-- A reader of a text from its start. -/
def ofSource (g : Grammar) (source : Source) : TokenReader :=
  { stream := TokenStream.ofSource g source }

/-- Begins to read; nothing results if reading has begun before. -/
def open? (r : TokenReader) : Option TokenReader :=
  if r.opened then none else some { r with opened := true }

/-- Takes the next token. An error is delivered once. -/
def next (r : TokenReader) : Delivery × TokenReader :=
  if !r.opened then (.exhausted, r)
  else
    match r.stream.tokens with
    | t :: rest => (.token t, { r with stream := ⟨rest, r.stream.ending⟩, place := t.span.stop })
    | [] =>
      match r.stream.ending with
      | .finished => (.exhausted, r)
      | .failed error stop => (.failure error, { r with stream := ⟨[], .finished⟩, place := stop })

/-- Begins to read and takes all tokens, or the error that comes after them. Nothing results if
reading has begun before. -/
def drain? (r : TokenReader) : Option (Except ScriptError (List Token) × TokenReader) :=
  if r.opened then none
  else
    let stop := match r.stream.ending with
      | .failed _ stop => stop
      | .finished => (r.stream.tokens.getLast?.map (·.span.stop)).getD r.place
    some (r.stream.toList, { stream := ⟨[], .finished⟩, opened := true, place := stop })

end TokenReader

/-- What is said when reading is begun a second time. -/
def alreadyOpenedMessage : String := "token stream has already been consumed"

end InstallScript
