import LittleTiny.Source
import LittleTiny.Text.Blank
import LittleTiny.Text.Escape
import LittleTiny.Token

/-!
# Scanning

An automaton that reads located characters one by one. Between tokens it skips blanks and comments;
inside a token it keeps what has been read of it (`Lexeme`) and the positions of the first and the
last character taken. `next` runs it up to the next item, a token or an error, and returns it, if
there is one, with the characters left; after an error these start behind the next newline, so that
a line gives one error at most. `items` is the whole sequence, and `scan` answers the tokens, or the
errors if there are any.
-/

namespace LittleTiny

/-- Why no token can be read. -/
inductive ScanError where
  | badCharacter (c : Char)
  | expectedEqual
  | unterminatedString
  | malformedNumber
deriving DecidableEq, Repr

namespace ScanError

/-- The message of an error. -/
def message : ScanError → String
  | badCharacter c => "Bad character " ++ Text.quoteChar c ++ " in input stream"
  | expectedEqual => "Expected " ++ Text.quoteChar '='
  | unterminatedString => "Unterminated string literal"
  | malformedNumber => "Malformed numeric literal"

end ScanError

namespace Scan

/-! ## Character classes -/

/-- A decimal digit; only those of ASCII count. -/
def isDigit (c : Char) : Bool := '0' ≤ c && c ≤ '9'

/-- A letter; only those of ASCII count. -/
def isLetter (c : Char) : Bool := ('a' ≤ c && c ≤ 'z') || ('A' ≤ c && c ≤ 'Z')

/-- The operators of one character that begin no longer one. -/
def single? : Char → Option Operator
  | '+' => some .plus
  | '*' => some .times
  | '/' => some .divide
  | '=' => some .equal
  | '(' => some .openParen
  | ')' => some .closeParen
  | ';' => some .semicolon
  | ',' => some .comma
  | _ => none

/-! ## Tokens in the making -/

/-- What has been read of a token; characters stand last first. A `pair` becomes `long` with an
equals sign and `short`, if there is such an operator, without. -/
inductive Lexeme where
  | dash
  | pair (long : Operator) (short : Option Operator)
  | number (digits : List Char) (dot : Bool)
  | word (letters : List Char)
  | text (content : List Char)
deriving DecidableEq, Repr

/-- What a character does between tokens. -/
inductive Opening where
  | skip
  | enter (lexeme : Lexeme)
  | complete (token : Token)
  | refuse (error : ScanError)
deriving DecidableEq, Repr

/-- What a character outside of tokens and comments begins. -/
def opening (c : Char) : Opening :=
  if Text.isBlank c then .skip
  else if c = '"' then .enter (.text [])
  else if c = '-' then .enter .dash
  else if c = ':' then .enter (.pair .assign none)
  else if c = '!' then .enter (.pair .notEqual none)
  else if c = '<' then .enter (.pair .lessEqual (some .less))
  else if c = '>' then .enter (.pair .greaterEqual (some .greater))
  else if isLetter c then .enter (.word [c])
  else if isDigit c then .enter (.number [c] false)
  else if c = '.' then .enter (.number [c] true)
  else match single? c with
    | some op => .complete (.operator op)
    | none => .refuse (.badCharacter c)

namespace Lexeme

/-- The keyword or identifier of a finished word. -/
def ofWord (word : String) : Token :=
  match Keyword.ofText? word with
  | some k => .keyword k
  | none => .identifier word

/-- The token when nothing more belongs to it. -/
def finish : Lexeme → Except ScanError Token
  | dash => .ok (.operator .minus)
  | pair _ (some short) => .ok (.operator short)
  | pair _ none => .error .expectedEqual
  | number digits dot =>
    if digits = ['.'] then .error .malformedNumber
    else if dot then .ok (.floatLiteral (String.ofList digits.reverse))
    else .ok (.intLiteral (String.ofList digits.reverse))
  | word letters => .ok (ofWord (String.ofList letters.reverse))
  | text _ => .error .unterminatedString

/-- What a character does inside a token: `complete` takes it, `stop` leaves it. -/
inductive Step where
  | grow (lexeme : Lexeme)
  | comment
  | complete (token : Token)
  | stop (result : Except ScanError Token)

/-- What the next character does to an unfinished token. -/
def step : Lexeme → Char → Step
  | dash, c => if c = '-' then .comment else .stop dash.finish
  | pair long short, c =>
    if c = '=' then .complete (.operator long) else .stop (pair long short).finish
  | number digits dot, c =>
    if isDigit c then .grow (number (c :: digits) dot)
    else if c = '.' then
      if dot then .stop (.error .malformedNumber) else .grow (number (c :: digits) true)
    else .stop (number digits dot).finish
  | word letters, c =>
    if isLetter c || isDigit c then .grow (word (c :: letters)) else .stop (word letters).finish
  | text content, c =>
    if c = '"' then .complete (.stringLiteral (String.ofList content.reverse))
    else if c = '\n' then .stop (text content).finish
    else .grow (text (c :: content))

end Lexeme

/-! ## The automaton -/

/-- A token, or the reason why there is none, each with its location. -/
abbrev Item := Except (Located ScanError) (Located Token)

/-- Where the automaton stands. -/
inductive State where
  | between
  | comment
  | inside (lexeme : Lexeme) (first last : Position)
deriving DecidableEq, Repr

/-- What the automaton does at a character: it goes on behind it, or it ends a token with it
(`take`) or before it (`leave`), or it fails at it. -/
inductive Move where
  | goOn (next : State)
  | take (token : Located Token)
  | leave (token : Located Token)
  | fail (error : ScanError)

/-- The move at a character between tokens that stands at `p`. -/
def Opening.move (p : Position) : Opening → Move
  | skip => .goOn .between
  | enter lexeme => .goOn (.inside lexeme p p)
  | complete token => .take ⟨token, .point p⟩
  | refuse e => .fail e

/-- The move at a character at `p`, in a token that goes from `first` to `last` so far. -/
def Lexeme.Step.move (first last p : Position) : Lexeme.Step → Move
  | grow more => .goOn (.inside more first p)
  | comment => .goOn .comment
  | complete token => .take ⟨token, ⟨first, p⟩⟩
  | stop (.ok token) => .leave ⟨token, ⟨first, last⟩⟩
  | stop (.error e) => .fail e

namespace State

/-- What a character at a position does in a state. -/
def move (c : Char) (p : Position) : State → Move
  | between => (opening c).move p
  | comment => .goOn (if c = '\n' then between else comment)
  | inside lexeme first last => (lexeme.step c).move first last p

/-- The item that the end of the stream brings out, an error at the last character taken. -/
def close : State → Option Item
  | between => none
  | comment => none
  | inside lexeme first last =>
    match lexeme.finish with
    | .ok token => some (.ok ⟨token, ⟨first, last⟩⟩)
    | .error e => some (.error ⟨e, .point last⟩)

end State

/-- The characters behind the next newline. -/
def afterLine : List (Char × Position) → List (Char × Position)
  | [] => []
  | (c, _) :: rest => if c = '\n' then rest else afterLine rest

/-- The next item from a given state, if there is one, and the characters left. -/
def resume (s : State) : List (Char × Position) → Option Item × List (Char × Position)
  | [] => (s.close, [])
  | (c, p) :: rest =>
    match s.move c p with
    | .goOn next => resume next rest
    | .take token => (some (.ok token), rest)
    | .leave token => (some (.ok token), (c, p) :: rest)
    | .fail e => (some (.error ⟨e, .point p⟩), afterLine ((c, p) :: rest))

/-- The next item of a stream, if there is one, and the characters left. -/
def next (cs : List (Char × Position)) : Option Item × List (Char × Position) :=
  resume .between cs

theorem length_afterLine_le (cs : List (Char × Position)) : (afterLine cs).length ≤ cs.length := by
  induction cs with
  | nil => simp [afterLine]
  | cons x rest ih =>
    simp only [afterLine, List.length_cons]
    split <;> omega

theorem length_afterLine_cons_lt (x : Char × Position) (cs : List (Char × Position)) :
    (afterLine (x :: cs)).length < (x :: cs).length := by
  have := length_afterLine_le cs
  simp only [afterLine, List.length_cons]
  split <;> omega

theorem State.move_between_ne_leave (c : Char) (p : Position) (token : Located Token) :
    State.between.move c p ≠ .leave token := by
  simp only [State.move]
  cases opening c <;> simp [Opening.move]

theorem length_resume_le (s : State) (cs : List (Char × Position)) :
    (resume s cs).2.length ≤ cs.length := by
  induction cs generalizing s with
  | nil => simp [resume]
  | cons x cs ih =>
    have hlt := length_afterLine_cons_lt x cs
    simp only [resume]
    split
    · exact Nat.le_succ_of_le (ih _)
    all_goals simp_all [Nat.le_of_lt]

/-- Each item takes a character at least. -/
theorem length_next_lt {cs rest : List (Char × Position)} {item : Item}
    (h : next cs = (some item, rest)) : rest.length < cs.length := by
  obtain rfl : (next cs).2 = rest := by rw [h]
  cases cs with
  | nil => simp [next, resume, State.close] at h
  | cons x cs =>
    have hlt := length_afterLine_cons_lt x cs
    simp only [next, resume]
    split
    · exact Nat.lt_succ_of_le (length_resume_le _ _)
    · simp
    · next hm => exact absurd hm (State.move_between_ne_leave _ _ _)
    · exact hlt

/-- All items of a stream, going on after errors. -/
def items (cs : List (Char × Position)) : List Item :=
  match h : next cs with
  | (none, _) => []
  | (some item, rest) =>
    have := length_next_lt h
    item :: items rest
termination_by cs.length

/-- The token, if the item is one. -/
def Item.token? : Item → Option (Located Token)
  | .ok token => some token
  | .error _ => none

/-- The error, if the item is one. -/
def Item.error? : Item → Option (Located ScanError)
  | .ok _ => none
  | .error e => some e

/-- The tokens of a sequence without errors, or else its errors. -/
def collect (is : List Item) : Except (List (Located ScanError)) (List (Located Token)) :=
  match is.filterMap Item.error? with
  | [] => .ok (is.filterMap Item.token?)
  | errors => .error errors

/-- The tokens of a stream, or its errors when it has any. -/
def scan (cs : List (Char × Position)) : Except (List (Located ScanError)) (List (Located Token)) :=
  collect (items cs)

end Scan

end LittleTiny
