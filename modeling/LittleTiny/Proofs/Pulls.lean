import LittleTiny.Proofs.LineByLine

/-!
# Pulling items one by one

A `Scanner` is asked for one item at a time. In between it keeps the characters unread, whether it
still has to get behind the line of an error, and two positions, of the first character of a token
and of the last character taken, which a new scanner has at `1:0`. It leaves the line of an error
when it is asked again, not when it finds the error, and so may answer an error without taking a
character. What it has before it then is the stream behind that line (`Scanner.pending`), which is
what `next` returns; measured in these characters, every item takes one at least. So the items of
the stream come out one by one and then nothing any more, and all characters have been taken by
then (`Drains`).
-/

namespace LittleTiny

open Lexemes

namespace Scan

/-! ## Scanners -/

/-- What a scanner is in the middle of. A complete token comes out before the next character is
looked at. -/
inductive Mode where
  | between
  | recovering
  | comment
  | inside (lexeme : Lexeme)
  | complete (token : Token)

/-- What a character does: the scanner takes it, or stops before it. -/
inductive Mode.Effect where
  | goOn (next : Mode)
  | stop (result : Except ScanError Token)

/-- What a character that begins something does. -/
def Opening.effect : Opening → Mode.Effect
  | skip => .goOn .between
  | enter lexeme => .goOn (.inside lexeme)
  | complete token => .goOn (.complete token)
  | refuse e => .stop (.error e)

/-- What a character inside a token does. -/
def Lexeme.Step.effect : Lexeme.Step → Mode.Effect
  | grow lexeme => .goOn (.inside lexeme)
  | comment => .goOn .comment
  | complete token => .goOn (.complete token)
  | stop result => .stop result

namespace Mode

/-- What a character does in a mode. -/
def effect (c : Char) : Mode → Effect
  | between => (opening c).effect
  | recovering => .goOn (if c = '\n' then between else recovering)
  | comment => .goOn (if c = '\n' then between else comment)
  | inside lexeme => (lexeme.step c).effect
  | complete token => .stop (.ok token)

/-- The start of the token to come: between tokens it moves along with the characters. -/
def startAt (p start : Position) : Mode → Position
  | between => p
  | _ => start

/-- What comes out at the end of the stream, if anything does. -/
def atEnd : Mode → Option (Except ScanError Token)
  | between => none
  | recovering => none
  | comment => none
  | inside lexeme => some lexeme.finish
  | complete token => some (.ok token)

end Mode

/-- What is kept from one item to the next. -/
structure Scanner where
  unread : Chars
  recovering : Bool := false
  start : Position := {}
  last : Position := {}

namespace Scanner

/-- Takes characters up to a result, or to the end. -/
def lex (mode : Mode) (start last : Position) : Chars → Option (Except ScanError Token) × Scanner
  | [] => (mode.atEnd, { unread := [], start := start, last := last })
  | (c, p) :: rest =>
    match mode.effect c with
    | .goOn next => lex next (mode.startAt p start) p rest
    | .stop result =>
      (some result, { unread := (c, p) :: rest, start := mode.startAt p start, last := last })

/-- A token goes from the start to the last character taken. An error is at the next character, and
at the end of the stream at the last one. -/
def deliver : Option (Except ScanError Token) × Scanner → Option Item × Scanner
  | (none, s) => (none, s)
  | (some (.ok token), s) => (some (.ok ⟨token, ⟨s.start, s.last⟩⟩), s)
  | (some (.error e), s) =>
    (some (.error ⟨e, .point (ahead s.last s.unread)⟩), { s with recovering := true })

/-- The next item, if there is one. -/
def pull (s : Scanner) : Option Item × Scanner :=
  deliver (lex (if s.recovering then .recovering else .between) s.start s.last s.unread)

/-- The characters behind the line that is still to be left, if there is one. -/
def pending (s : Scanner) : Chars := if s.recovering then afterLine s.unread else s.unread

theorem length_pending_le (s : Scanner) : s.pending.length ≤ s.unread.length := by
  unfold pending
  split
  · exact length_afterLine_le s.unread
  · exact Nat.le_refl _

/-! ## Scanners against the automaton -/

/-- The scanner has come to the same item as the automaton, with the same characters before it. -/
def Tracks (r : Option Item × Scanner) (q : Option Item × Chars) : Prop :=
  r.1 = q.1 ∧ r.2.pending = q.2

/-- The scanner is where the automaton is. Only inside a token it matters which positions it
holds. -/
inductive Stands (start last : Position) : Mode → State → Prop
  | between : Stands start last .between .between
  | comment : Stands start last .comment .comment
  | inside (lexeme : Lexeme) : Stands start last (.inside lexeme) (.inside lexeme start last)

theorem tracks_complete (token : Token) (start last : Position) (cs : Chars) :
    Tracks (deliver (lex (.complete token) start last cs))
      (some (.ok ⟨token, ⟨start, last⟩⟩), cs) := by
  cases cs with
  | nil => exact ⟨rfl, rfl⟩
  | cons x rest => exact ⟨rfl, rfl⟩

theorem tracks_lex {mode : Mode} {s : State} {start last : Position}
    (h : Stands start last mode s) (cs : Chars) :
    Tracks (deliver (lex mode start last cs)) (resume s cs) := by
  induction cs generalizing mode s start last with
  | nil =>
    cases h with
    | between => exact ⟨rfl, rfl⟩
    | comment => exact ⟨rfl, rfl⟩
    | inside lexeme =>
      rw [lex, resume, Mode.atEnd, State.close]
      cases lexeme.finish with
      | ok token => exact ⟨rfl, rfl⟩
      | error e => exact ⟨rfl, rfl⟩
  | cons x rest ih =>
    obtain ⟨c, p⟩ := x
    cases h with
    | between =>
      -- The start has just been set to `p`, whatever it was.
      rw [lex, resume, Mode.effect, State.move]
      cases opening c with
      | skip => exact ih .between
      | enter lexeme => exact ih (.inside lexeme)
      | complete token => exact tracks_complete token p p rest
      | refuse e => exact ⟨rfl, rfl⟩
    | comment =>
      rw [lex, resume, Mode.effect, State.move]
      by_cases hc : c = '\n'
      · rw [if_pos hc, if_pos hc]
        exact ih .between
      · rw [if_neg hc, if_neg hc]
        exact ih .comment
    | inside lexeme =>
      rw [lex, resume, Mode.effect, State.move]
      cases lexeme.step c with
      | grow more => exact ih (.inside more)
      | comment => exact ih .comment
      | complete token => exact tracks_complete token start p rest
      | stop result =>
        cases result with
        | ok token => exact ⟨rfl, rfl⟩
        | error e => exact ⟨rfl, rfl⟩

/-- Behind an error the line is left first. -/
theorem tracks_recovering (start last : Position) (cs : Chars) :
    Tracks (deliver (lex .recovering start last cs)) (next (afterLine cs)) := by
  induction cs generalizing last with
  | nil => exact ⟨rfl, rfl⟩
  | cons x rest ih =>
    obtain ⟨c, p⟩ := x
    rw [lex, Mode.effect, afterLine]
    by_cases hc : c = '\n'
    · rw [if_pos hc, if_pos hc]
      exact tracks_lex .between rest
    · rw [if_neg hc, if_neg hc]
      exact ih p

theorem tracks_pull (s : Scanner) : Tracks s.pull (next s.pending) := by
  obtain ⟨unread, recovering, start, last⟩ := s
  cases recovering with
  | false => exact tracks_lex .between unread
  | true => exact tracks_recovering start last unread

theorem unread_lex_of_none {mode : Mode} {start last : Position} {cs : Chars}
    (h : (lex mode start last cs).1 = none) : (lex mode start last cs).2.unread = [] := by
  induction cs generalizing mode start last with
  | nil => rfl
  | cons x rest ih =>
    obtain ⟨c, p⟩ := x
    rw [lex] at h ⊢
    cases heffect : mode.effect c with
    | goOn next =>
      rw [heffect] at h
      exact ih h
    | stop result =>
      rw [heffect] at h
      cases h

theorem unread_pull_of_none {s : Scanner} (h : s.pull.1 = none) : s.pull.2.unread = [] := by
  have hlex := @unread_lex_of_none (if s.recovering then .recovering else .between) s.start s.last
    s.unread
  unfold pull at h ⊢
  revert h hlex
  generalize lex _ s.start s.last s.unread = r
  obtain ⟨_ | (_ | _), s'⟩ := r
  · exact fun _ hlex => hlex rfl
  · exact nofun
  · exact nofun

end Scanner

/-! ## Call after call -/

section

variable {σ : Type} (pull : σ → Option Item × σ)

/-- What is left after `k` calls. -/
def after : Nat → σ → σ
  | 0, s => s
  | k + 1, s => after k (pull s).2

/-- What call number `k` answers, counted from 0. -/
def answer (k : Nat) (s : σ) : Option Item := (pull (after pull k s)).1

/-- One call after another answers the items `is`, no more than there are characters, and then
nothing, however often it is repeated. By then there is nothing left unread. -/
structure Drains (unread : σ → Chars) (s : σ) (is : List Item) : Prop where
  length_le : is.length ≤ (unread s).length
  item : ∀ k (h : k < is.length), answer pull k s = some is[k]
  nothing : ∀ k, is.length ≤ k → answer pull k s = none
  unread_eq : ∀ k, answer pull k s = none → unread (after pull (k + 1) s) = []

end

variable {σ : Type} {pull : σ → Option Item × σ} {pending unread : σ → Chars}

theorem after_succ (k : Nat) (s : σ) : after pull (k + 1) s = (pull (after pull k s)).2 := by
  induction k generalizing s with
  | zero => rfl
  | succ k ih => exact ih (pull s).2

theorem resume_of_none {s : State} {cs : Chars} (h : (resume s cs).1 = none) :
    (resume s cs).2 = [] := by
  induction cs generalizing s with
  | nil => rfl
  | cons x rest ih =>
    obtain ⟨c, p⟩ := x
    rw [resume] at h ⊢
    cases hmove : s.move c p with
    | goOn next =>
      rw [hmove] at h
      exact ih h
    | take token =>
      rw [hmove] at h
      cases h
    | leave token =>
      rw [hmove] at h
      cases h
    | fail e =>
      rw [hmove] at h
      cases h

/-- Each item leaves fewer characters. -/
theorem items_induction {P : Chars → Prop} (nothing : ∀ cs, (next cs).1 = none → P cs)
    (item : ∀ cs item, (next cs).1 = some item → P (next cs).2 → P cs) (cs : Chars) : P cs := by
  induction hn : cs.length using Nat.strongRecOn generalizing cs with
  | ind n ih =>
    subst hn
    cases hitem : (next cs).1 with
    | none => exact nothing cs hitem
    | some i =>
      have hlt : (next cs).2.length < cs.length := length_next_lt (Prod.ext hitem rfl)
      exact item cs i hitem (ih _ hlt _ rfl)

theorem length_items_le (cs : Chars) : (items cs).length ≤ cs.length := by
  induction cs using items_induction with
  | nothing cs hitem =>
    rw [items_of_none hitem]
    exact Nat.zero_le _
  | item cs item hitem ih =>
    rw [items_of_some hitem]
    exact Nat.lt_of_le_of_lt ih (length_next_lt (Prod.ext hitem rfl))

/-- Whatever goes along with `next` answers the items of what is pending. -/
theorem answer_eq_getElem?
    (htracks : ∀ s, (pull s).1 = (next (pending s)).1 ∧ pending (pull s).2 = (next (pending s)).2)
    (k : Nat) (s : σ) : answer pull k s = (items (pending s))[k]? := by
  induction k generalizing s with
  | zero =>
    refine (htracks s).1.trans ?_
    cases hitem : (next (pending s)).1 with
    | none => rw [items_of_none hitem, List.getElem?_nil]
    | some item => rw [items_of_some hitem, List.getElem?_cons_zero]
  | succ k ih =>
    have hrest : answer pull (k + 1) s = (items (next (pending s)).2)[k]? := by
      rw [← (htracks s).2]
      exact ih (pull s).2
    rw [hrest]
    cases hitem : (next (pending s)).1 with
    | none =>
      -- Nothing came out, so nothing is left and nothing will come out later.
      have hnil : (next (pending s)).2 = [] := resume_of_none hitem
      rw [hnil, items_nil, items_of_none hitem, List.getElem?_nil, List.getElem?_nil]
    | some item => rw [items_of_some hitem, List.getElem?_cons_succ]

theorem Drains.of_tracks
    (htracks : ∀ s, (pull s).1 = (next (pending s)).1 ∧ pending (pull s).2 = (next (pending s)).2)
    (hpending : ∀ s, (pending s).length ≤ (unread s).length)
    (hunread : ∀ s, (pull s).1 = none → unread (pull s).2 = []) (s : σ) :
    Drains pull unread s (items (pending s)) where
  length_le := Nat.le_trans (length_items_le (pending s)) (hpending s)
  item k h := by rw [answer_eq_getElem? htracks, List.getElem?_eq_getElem h]
  nothing k h := by rw [answer_eq_getElem? htracks, List.getElem?_eq_none h]
  unread_eq k h := by
    rw [after_succ]
    exact hunread _ h

/-- However far a scanner has come, it answers the items of what is pending. -/
theorem Scanner.drains (s : Scanner) : Drains Scanner.pull Scanner.unread s (items s.pending) :=
  .of_tracks tracks_pull length_pending_le (fun _ => unread_pull_of_none) s

/-- The automaton started again and again, and the scanner pulled again and again, answer at most as
many items as the stream has characters, then nothing for ever, and nothing only when every
character has been taken. -/
theorem drains_stream (cs : Chars) :
    Drains next id cs (items cs) ∧
      Drains Scanner.pull Scanner.unread { unread := cs } (items cs) := by
  have htracks : ∀ cs : Chars, (next cs).1 = (next (id cs)).1 ∧ id (next cs).2 = (next (id cs)).2 :=
    fun _ => ⟨rfl, rfl⟩
  exact ⟨.of_tracks htracks (fun _ => Nat.le_refl _) (fun _ => resume_of_none) cs,
    Scanner.drains { unread := cs }⟩

end Scan

end LittleTiny
