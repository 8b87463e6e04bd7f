import LittleTiny.Proofs.Alignment.Program
import LittleTiny.Proofs.Outline.Listing
import LittleTiny.Proofs.Printing

/-!
# Layout does not matter

Tokens that differ in their locations only are read in the same way, and what is read in the same
way has the same code and the same listings. So sources that have the same tokens in them compile to
the same output, however they are laid out.
-/

namespace LittleTiny

open Reading

/-- The locations of the tokens that stand at one place in two lists. -/
def Corresponding (ts ts' : List (Located Token)) (l l' : Location) : Prop :=
  ∃ (i : Nat) (t t' : Located Token),
    ts[i]? = some t ∧ ts'[i]? = some t' ∧ t.location = l ∧ t'.location = l'

theorem forall₂_corresponding {ts ts' : List (Located Token)}
    (h : ts.map Located.value = ts'.map Located.value) :
    List.Forall₂ (Located.Alike (Corresponding ts ts')) ts ts' := by
  have hlength : ts.length = ts'.length := by simpa using congrArg List.length h
  refine List.forall₂_iff_get.2 ⟨hlength, fun i hi hi' => ⟨?_, i, _, _, ?_, ?_, rfl, rfl⟩⟩
  · have hvalue : (ts.map Located.value)[i]? = (ts'.map Located.value)[i]? := by rw [h]
    simpa [hi, hi'] using hvalue
  · simp [hi]
  · simp [hi']

namespace Program

/-- Tokens that differ in their locations are read as the same tree, or are the same error at
corresponding tokens. -/
theorem parse_alike {ts ts' : List (Located Token)}
    (h : ts.map Located.value = ts'.map Located.value) :
    (∃ e e', parse ts = .error e ∧ parse ts' = .error e' ∧ e.value = e'.value ∧
      (ts = [] ∧ e = e' ∨ Corresponding ts ts' e.location e'.location)) ∨
    ∃ p p', parse ts = .ok p ∧ parse ts' = .ok p' ∧
      p.outline Scope.erase = p'.outline Scope.erase := by
  by_cases hne : ts = []
  · -- The end comes before the first token, and there is nothing to correspond.
    subst hne
    obtain rfl : ts' = [] := by simpa using h.symm
    exact .inl ⟨_, _, rfl, rfl, rfl, .inl ⟨rfl, rfl⟩⟩
  · have hparallel : Parallel (Corresponding ts ts') (Same (outline Scope.erase))
        (parseWhole { ahead := ts }) (parseWhole { ahead := ts' }) :=
      parallel_parseWhole hne (forall₂_corresponding h) rfl
    rw [parse, parse]
    generalize parseWhole { ahead := ts } = r at hparallel ⊢
    generalize parseWhole { ahead := ts' } = r' at hparallel ⊢
    cases hparallel with
    | ok hstep => exact .inr ⟨_, _, rfl, rfl, hstep.1⟩
    | error herror => exact .inl ⟨_, _, rfl, rfl, herror.1, .inr herror.2⟩

/-- Trees with the same outline have the same error, or the same code. -/
theorem lower_alike {p p' : Program} (h : p.outline Scope.erase = p'.outline Scope.erase) :
    (∃ e e', p.lower = .error e ∧ p'.lower = .error e' ∧ e.value = e'.value) ∨
    ∃ c c', p.lower = .ok c ∧ p'.lower = .ok c' ∧
      c.map Instruction.erase = c'.map Instruction.erase :=
  lower_cases <| calc
    _ = (p.outline Scope.erase).lower := (p.lower_outline fun n => n).symm
    _ = (p'.outline Scope.erase).lower := by rw [h]
    _ = _ := p'.lower_outline fun n => n

end Program

namespace Compilation

theorem listing_eq {a b : Compilation}
    (hprogram : a.program.outline Scope.erase = b.program.outline Scope.erase)
    (hcode : a.code.map Instruction.erase = b.code.map Instruction.erase) (selected : Listings) :
    a.listing selected = b.listing selected := by
  have htree : a.program.treeText = b.program.treeText := by
    rw [← Program.treeText_outline, hprogram, Program.treeText_outline]
  have hlines : a.codeListing = b.codeListing := by
    let line : String → String := fun text => ";" ++ text ++ "\n"
    have hmap := congrArg (fun c => (Code.executable c).map fun i => line i.text) hcode
    simp only [Code.map_text_erase line] at hmap
    exact congrArg String.join hmap
  have htarget : Tiny.emit a.code = Tiny.emit b.code := by
    rw [← Tiny.emit_erase, hcode, Tiny.emit_erase]
  simp only [listing, htree, hlines, htarget]

end Compilation

/-- Failures with the same error behind the scanner. -/
def Failure.SameError : Failure → Failure → Prop
  | syntactic _ e, syntactic _ e' => e.value = e'.value
  | semantic _ _ e, semantic _ _ e' => e.value = e'.value
  | _, _ => False

/-- The sources compile to the same listings, or fail with the same error. -/
def SameOutcome (source source' : Source) : Prop :=
  (∃ f f', compile source = .error f ∧ compile source' = .error f' ∧ f.SameError f') ∨
  ∃ c c', compile source = .ok c ∧ compile source' = .ok c' ∧
    ∀ selected, c.listing selected = c'.listing selected

/-- Sources with the same tokens have the same outcome. -/
theorem sameOutcome_of_scan {source source' : Source} {ts ts' : List (Located Token)}
    (hscan : Scan.scan source.chars = .ok ts) (hscan' : Scan.scan source'.chars = .ok ts')
    (h : ts.map Located.value = ts'.map Located.value) : SameOutcome source source' := by
  simp only [SameOutcome, compile, hscan, hscan']
  rcases Program.parse_alike h with ⟨e, e', hp, hp', he, -⟩ | ⟨p, p', hp, hp', hprogram⟩
  · simp only [hp, hp']
    exact .inl ⟨_, _, rfl, rfl, he⟩
  · simp only [hp, hp']
    rcases Program.lower_alike hprogram with ⟨e, e', hl, hl', he⟩ | ⟨c, c', hl, hl', hcode⟩
    · simp only [hl, hl']
      exact .inl ⟨_, _, rfl, rfl, he⟩
    · simp only [hl, hl']
      exact .inr ⟨_, _, rfl, rfl, Compilation.listing_eq hprogram hcode⟩

/-- Layout does not matter: not to the reader, not to the code, not to the listings, and not to
sources that have the same tokens in them, in particular if these are spaced differently. -/
theorem compile_ignores_layout :
    (∀ ts ts' : List (Located Token), ts.map Located.value = ts'.map Located.value →
      (∃ e e', Program.parse ts = .error e ∧ Program.parse ts' = .error e' ∧ e.value = e'.value ∧
        (ts = [] ∧ e = e' ∨ Corresponding ts ts' e.location e'.location)) ∨
      ∃ p p', Program.parse ts = .ok p ∧ Program.parse ts' = .ok p' ∧
        p.outline Scope.erase = p'.outline Scope.erase ∧
        ((∃ e e', p.lower = .error e ∧ p'.lower = .error e' ∧ e.value = e'.value) ∨
          ∃ c c', p.lower = .ok c ∧ p'.lower = .ok c' ∧
            c.map Instruction.erase = c'.map Instruction.erase ∧
            ∀ selected, (Compilation.mk ts p c).listing selected =
              (Compilation.mk ts' p' c').listing selected)) ∧
    (∀ (source source' : Source) (ts ts' : List (Located Token)),
      Scan.scan source.chars = .ok ts → Scan.scan source'.chars = .ok ts' →
      ts.map Located.value = ts'.map Located.value → SameOutcome source source') ∧
    ∀ (name name' text text' : String) (tokens : List Token), (∀ t ∈ tokens, t.Spelled) →
      Spaced tokens text.toList → Spaced tokens text'.toList →
      SameOutcome (Source.ofText name text) (Source.ofText name' text') := by
  refine ⟨?_, ?_, ?_⟩
  · intro ts ts' h
    rcases Program.parse_alike h with herror | ⟨p, p', hp, hp', hprogram⟩
    · exact .inl herror
    · refine .inr ⟨p, p', hp, hp', hprogram, ?_⟩
      rcases Program.lower_alike hprogram with herror | ⟨c, c', hc, hc', hcode⟩
      · exact .inl herror
      · exact .inr ⟨c, c', hc, hc', hcode, Compilation.listing_eq hprogram hcode⟩
  · intro source source' ts ts' hscan hscan' h
    exact sameOutcome_of_scan hscan hscan' h
  · intro name name' text text' tokens ht h h'
    obtain ⟨ts, hscan, hvalues⟩ := Scan.scan_of_spaced name ht h
    obtain ⟨ts', hscan', hvalues'⟩ := Scan.scan_of_spaced name' ht h'
    exact sameOutcome_of_scan hscan hscan' (hvalues.trans hvalues'.symm)

/-- A program on one line, and the same with line breaks and a comment. -/
theorem compile_ignores_layout_comment :
    SameOutcome (Source.ofText "line" "PROGRAM p BEGIN FUNCTION VOID main ( ) BEGIN END END")
      (Source.ofText "lines"
        "PROGRAM p BEGIN\n--\"\nFUNCTION VOID main\x0d\n( )\n BEGIN END\tEND\n") := by
  let tokens : List Token := [.keyword .program, .identifier "p", .keyword .begin_,
    .keyword .function, .keyword .void, .identifier "main", .operator .openParen,
    .operator .closeParen, .keyword .begin_, .keyword .end_, .keyword .end_]
  have hblank : ∀ (t : Token) (c : Char) {ts : List Token} {rest : List Char}, Text.isBlank c →
      Spaced ts rest → Spaced (t :: ts) (t.text.toList ++ c :: rest) :=
    fun t c _ _ hc h => .token t (startsBlank_cons hc) (.blank c hc h)
  have hline : Spaced tokens "PROGRAM p BEGIN FUNCTION VOID main ( ) BEGIN END END".toList := by
    refine hblank (.keyword .program) ' ' rfl (hblank (.identifier "p") ' ' rfl ?_)
    refine hblank (.keyword .begin_) ' ' rfl (hblank (.keyword .function) ' ' rfl ?_)
    refine hblank (.keyword .void) ' ' rfl (hblank (.identifier "main") ' ' rfl ?_)
    refine hblank (.operator .openParen) ' ' rfl (hblank (.operator .closeParen) ' ' rfl ?_)
    refine hblank (.keyword .begin_) ' ' rfl (hblank (.keyword .end_) ' ' rfl ?_)
    exact .token (.keyword .end_) (by simp [StartsBlank]) .nil
  have hlines : Spaced tokens
      "PROGRAM p BEGIN\n--\"\nFUNCTION VOID main\x0d\n( )\n BEGIN END\tEND\n".toList := by
    refine hblank (.keyword .program) ' ' rfl (hblank (.identifier "p") ' ' rfl ?_)
    refine hblank (.keyword .begin_) '\n' rfl (.comment ['"'] (by decide) ?_)
    refine hblank (.keyword .function) ' ' rfl (hblank (.keyword .void) ' ' rfl ?_)
    refine hblank (.identifier "main") '\x0d' rfl (.blank '\n' rfl ?_)
    refine hblank (.operator .openParen) ' ' rfl (hblank (.operator .closeParen) '\n' rfl ?_)
    refine .blank ' ' rfl (hblank (.keyword .begin_) ' ' rfl (hblank (.keyword .end_) '\t' rfl ?_))
    exact hblank (.keyword .end_) '\n' rfl .nil
  exact compile_ignores_layout.2.2 _ _ _ _ tokens (by decide) hline hlines

end LittleTiny
