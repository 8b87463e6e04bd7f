import LittleTiny.Proofs.Pulls

/-!
# Positions are carried through

The automaton never looks at a position: it holds those of two characters and hands them on. So
other positions in a stream mean other positions of its items and nothing else, whatever order they
are in (`items_transport`). Among the changes that can be made are those of a position that the
stream does not have, with which no item changes. So every item is at positions of the stream, and
those that a new scanner holds before it takes a character are never seen.
-/

namespace LittleTiny

open Lexemes

/-! ## Other positions -/

/-- The location with both its ends moved. -/
def Location.transport (f : Position → Position) (l : Location) : Location := ⟨f l.first, f l.last⟩

/-- The value at the moved location. -/
def Located.transport {α : Type} (f : Position → Position) (x : Located α) : Located α :=
  ⟨x.value, x.location.transport f⟩

namespace Scan

/-- The item at the moved location. -/
def Item.transport (f : Position → Position) : Item → Item
  | .ok token => .ok (token.transport f)
  | .error e => .error (e.transport f)

/-- Where an item stands. -/
def Item.location : Item → Location
  | .ok token => token.location
  | .error e => e.location

theorem Item.location_transport (f : Position → Position) (item : Item) :
    location (transport f item) = (location item).transport f := by
  cases item with
  | ok token => rfl
  | error e => rfl

/-- The same characters at other positions. -/
def transport (f : Position → Position) (cs : Chars) : Chars := cs.map fun x => (x.1, f x.2)

/-- The state with its positions moved. -/
def State.transport (f : Position → Position) : State → State
  | between => between
  | comment => comment
  | inside lexeme first last => inside lexeme (f first) (f last)

/-- The move with its positions moved. -/
def Move.transport (f : Position → Position) : Move → Move
  | goOn next => goOn (next.transport f)
  | take token => take (token.transport f)
  | leave token => leave (token.transport f)
  | fail e => fail e

variable (f : Position → Position)

/-! ## The automaton -/

theorem State.move_transport (s : State) (c : Char) (p : Position) :
    (s.transport f).move c (f p) = (s.move c p).transport f := by
  cases s with
  | between =>
    rw [State.transport, State.move, State.move]
    cases opening c <;> rfl
  | comment =>
    rw [State.transport, State.move, State.move]
    split <;> rfl
  | inside lexeme first last =>
    rw [State.transport, State.move, State.move]
    cases lexeme.step c with
    | grow more => rfl
    | comment => rfl
    | complete token => rfl
    | stop result => cases result <;> rfl

theorem State.close_transport (s : State) :
    (s.transport f).close = s.close.map (Item.transport f) := by
  cases s with
  | between => rfl
  | comment => rfl
  | inside lexeme first last =>
    rw [State.transport, State.close, State.close]
    cases lexeme.finish <;> rfl

theorem afterLine_transport (cs : Chars) :
    afterLine (transport f cs) = transport f (afterLine cs) := by
  induction cs with
  | nil => rfl
  | cons x rest ih =>
    rw [transport, List.map_cons, afterLine, afterLine]
    split
    · rfl
    · exact ih

theorem resume_transport (s : State) (cs : Chars) :
    resume (s.transport f) (transport f cs) =
      ((resume s cs).1.map (Item.transport f), transport f (resume s cs).2) := by
  induction cs generalizing s with
  | nil => exact Prod.ext (s.close_transport f) rfl
  | cons x rest ih =>
    obtain ⟨c, p⟩ := x
    have hcons : transport f ((c, p) :: rest) = (c, f p) :: transport f rest := rfl
    rw [hcons, resume, resume, State.move_transport]
    cases s.move c p with
    | goOn next => exact ih next
    | take token => rfl
    | leave token => rfl
    | fail e =>
      rw [Move.transport, ← hcons, afterLine_transport]
      rfl

theorem items_transport (cs : Chars) :
    items (transport f cs) = (items cs).map (Item.transport f) := by
  have hnext : ∀ cs, next (transport f cs) =
      ((next cs).1.map (Item.transport f), transport f (next cs).2) := resume_transport f .between
  induction cs using items_induction with
  | nothing cs hitem =>
    have hnothing : (next (transport f cs)).1 = none := by
      rw [hnext, hitem]
      rfl
    rw [items_of_none hitem, items_of_none hnothing, List.map_nil]
  | item cs item hitem ih =>
    have hfirst : (next (transport f cs)).1 = some (Item.transport f item) := by
      rw [hnext, hitem]
      rfl
    rw [items_of_some hitem, items_of_some hfirst, hnext, ih, List.map_cons]

/-- The tokens, or the errors, among items at other positions. -/
theorem filterMap_transport {α : Type} {view : Item → Option (Located α)}
    (hview : ∀ item, view (Item.transport f item) = (view item).map (Located.transport f))
    (is : List Item) :
    (is.map (Item.transport f)).filterMap view = (is.filterMap view).map (Located.transport f) := by
  rw [List.filterMap_map, List.map_filterMap]
  exact List.filterMap_congr fun item _ => hview item

theorem scan_transport (cs : Chars) :
    scan (transport f cs) =
      ((scan cs).map (List.map (Located.transport f))).mapError
        (List.map (Located.transport f)) := by
  have herror : ∀ item, Item.error? (Item.transport f item) =
      (Item.error? item).map (Located.transport f) := fun item => by cases item <;> rfl
  have htoken : ∀ item, Item.token? (Item.transport f item) =
      (Item.token? item).map (Located.transport f) := fun item => by cases item <;> rfl
  rw [scan, scan, items_transport, collect, collect, filterMap_transport f herror,
    filterMap_transport f htoken]
  cases (items cs).filterMap Item.error? with
  | nil => rfl
  | cons e errors => rfl

/-! ## Where items stand -/

/-- What stays wherever a list of positions stays is in the list: any other position can be moved
alone. -/
theorem mem_of_forall_fixed {ps : List Position} {p : Position}
    (h : ∀ f : Position → Position, (∀ q ∈ ps, f q = q) → f p = p) : p ∈ ps := by
  by_contra hp
  have hother : ∀ q ∈ ps, q ≠ p := by
    rintro q hq rfl
    exact hp hq
  have hfixed := h (Function.update id p ⟨p.line + 1, p.column⟩) fun q hq =>
    Function.update_of_ne (hother q hq) _ _
  rw [Function.update_self] at hfixed
  have hline : p.line + 1 = p.line := congrArg Position.line hfixed
  simp at hline

variable {f}

theorem transport_eq_self {cs : Chars} (h : ∀ q ∈ cs.map Prod.snd, f q = q) :
    transport f cs = cs := by
  have hsame : cs.map (fun x => (x.1, f x.2)) = cs.map id :=
    List.map_inj_left.2 fun x hx => Prod.ext rfl (h x.2 (List.mem_map_of_mem hx))
  rw [transport, hsame, List.map_id]

theorem location_transport_eq_self {cs : Chars} (h : ∀ q ∈ cs.map Prod.snd, f q = q) {item : Item}
    (hitem : item ∈ items cs) : (Item.location item).transport f = Item.location item := by
  have hitems := items_transport f cs
  rw [transport_eq_self h] at hitems
  have hsame : (items cs).map (Item.transport f) = (items cs).map id := by
    rw [List.map_id, ← hitems]
  rw [← Item.location_transport, List.map_inj_left.1 hsame item hitem, id]

theorem location_mem {cs : Chars} {item : Item} (hitem : item ∈ items cs) :
    (Item.location item).first ∈ cs.map Prod.snd ∧ (Item.location item).last ∈ cs.map Prod.snd :=
  ⟨mem_of_forall_fixed fun _ h => congrArg Location.first (location_transport_eq_self h hitem),
    mem_of_forall_fixed fun _ h => congrArg Location.last (location_transport_eq_self h hitem)⟩

/-- At other positions, in whatever order, the characters of a stream give the same tokens and
errors, each at the positions that its own have become. A scanner answers them whatever positions it
held before. No token and no error, not even one at the end of the stream, is at a position that the
stream does not have. -/
theorem positions_carried (f : Position → Position) (cs : Chars) :
    items (transport f cs) = (items cs).map (Item.transport f) ∧
      scan (transport f cs) =
        ((scan cs).map (List.map (Located.transport f))).mapError
          (List.map (Located.transport f)) ∧
      (∀ start last k,
        answer Scanner.pull k { unread := transport f cs, start := start, last := last } =
          (answer Scanner.pull k { unread := cs }).map (Item.transport f)) ∧
      ∀ item ∈ items cs, (Item.location item).first ∈ cs.map Prod.snd ∧
        (Item.location item).last ∈ cs.map Prod.snd := by
  refine ⟨items_transport f cs, scan_transport f cs, fun start last k => ?_,
    fun item => location_mem⟩
  have hanswer := answer_eq_getElem? Scanner.tracks_pull k
  rw [hanswer, hanswer]
  exact (congrArg (·[k]?) (items_transport f cs)).trans List.getElem?_map

/-- A dash, and behind it an open text whose characters stand before it, both at one position. -/
def backwards : Chars := [('-', ⟨9, 9⟩), ('"', ⟨2, 1⟩), ('x', ⟨2, 1⟩)]

theorem positions_carried_backwards :
    items backwards =
        [.ok ⟨.operator .minus, .point ⟨9, 9⟩⟩, .error ⟨.unterminatedString, .point ⟨2, 1⟩⟩] ∧
      items (transport (fun p => ⟨p.line + 1, p.line⟩) backwards) =
        [.ok ⟨.operator .minus, .point ⟨10, 9⟩⟩, .error ⟨.unterminatedString, .point ⟨3, 2⟩⟩] ∧
      answer Scanner.pull 1 { unread := backwards } =
        some (.error ⟨.unterminatedString, .point ⟨2, 1⟩⟩) ∧
      (⟨2, 1⟩ : Position) ∈ backwards.map Prod.snd := by
  have hdash : items backwards =
      .ok ⟨.operator .minus, .point ⟨9, 9⟩⟩ :: items [('"', ⟨2, 1⟩), ('x', ⟨2, 1⟩)] :=
    items_of_some rfl
  have htext : items [('"', ⟨2, 1⟩), ('x', ⟨2, 1⟩)] =
      .error ⟨.unterminatedString, .point ⟨2, 1⟩⟩ :: items [] :=
    items_of_some rfl
  have hitems : items backwards =
      [.ok ⟨.operator .minus, .point ⟨9, 9⟩⟩, .error ⟨.unterminatedString, .point ⟨2, 1⟩⟩] := by
    rw [hdash, htext, items_nil]
  obtain ⟨htransport, -, -, hmem⟩ := positions_carried (fun p => ⟨p.line + 1, p.line⟩) backwards
  rw [hitems] at htransport hmem
  exact ⟨hitems, htransport, rfl, (hmem _ (List.mem_cons_of_mem _ List.mem_cons_self)).1⟩

end Scan

end LittleTiny
