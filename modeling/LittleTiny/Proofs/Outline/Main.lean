import LittleTiny.Proofs.Evaluation
import LittleTiny.Proofs.Outline.Listing
import LittleTiny.Proofs.Outline.Rescope

/-!
# Only the main function counts

The code of a program is that of its global declarations and of its first function named `main`. The
functions before `main` count in one way only: the scopes of `main` have the numbers behind theirs.
-/

namespace LittleTiny

/-- The numbers other than 0 are greater by `k`. -/
def shift (k n : Nat) : Nat := if n = 0 then 0 else n + k

theorem shift_succ (k n : Nat) : shift k (n + 1) = n + 1 + k := by
  simp [shift]

theorem Instruction.renumber_shift_zero : Instruction.renumber (shift 0) = Instruction.erase := by
  have hshift : shift 0 = fun n => n := by
    funext n
    by_cases h : n = 0 <;> simp [shift, h]
  rw [hshift]
  rfl

/-- The number of scopes that the functions before the first `main` open. -/
def Function.scopesBeforeMain (fs : List Function) : Nat :=
  ((fs.takeWhile fun f => f.name.value != "main").flatMap fun f => f.body.scopes).length

/-- The scopes of `main` are numbered behind those of the functions before. -/
theorem Function.find?_rescopeAll (outer : Scope) : ∀ (fs : List Function) (n : Nat),
    (rescopeAll outer n fs).find? (fun f => f.name.value == "main") =
      (fs.find? fun f => f.name.value == "main").map fun f =>
        f.rescope outer (n + scopesBeforeMain fs)
  | [], n => rfl
  | f :: fs, n => by
    have hname : (f.rescope outer n).name.value = f.name.value := rfl
    by_cases hmain : f.name.value = "main"
    · simp [rescopeAll, scopesBeforeMain, hname, hmain]
    · have hcount : n + scopesBeforeMain (f :: fs) =
          n + f.body.scopes.length + scopesBeforeMain fs := by
        simp [scopesBeforeMain, hmain, Nat.add_assoc]
      rw [hcount]
      simp [rescopeAll, hname, hmain, Function.find?_rescopeAll outer fs]

theorem Declaration.globalScope_eq {ds ds' : List Declaration} (h : ds.map erase = ds'.map erase) :
    globalScope ds = globalScope ds' := by
  have hflat : ∀ ds : List Declaration,
      (ds.flatMap fun d => d.erase.declared 0) = (ds.map erase).flatMap (declared 0) := by
    intro ds
    rw [List.flatMap_map]
  rw [globalScope, globalScope, hflat, hflat, h]

namespace Program

/-- The number of scopes that the functions before `main` open. -/
def scopesBeforeMain (p : Program) : Nat := Function.scopesBeforeMain p.functions

/-- The code depends on nothing but the global scope and `main`. -/
theorem lower_congr {p q : Program} {f : Function} (hscope : p.scope = q.scope)
    (hp : p.main? = some f) (hq : q.main? = some f) : p.lower = q.lower := by
  rw [lower, lower, lowerMain, lowerMain, hp, hq, hscope]

section

variable {tokens : List (Located Token)} {p : Program} {f : Function}
  (hp : parse tokens = .ok p)

include hp

/-- A program that has been read, its scopes other than the outermost one being renumbered. -/
theorem outline_shift (k : Nat) :
    p.outline (Scope.renumber (shift k)) = p.rescope.outline (Scope.renumber (shift k)) := by
  have hrenumber : Scope.renumber (shift k) ∘ Scope.erase = Scope.renumber (shift k) :=
    funext fun s => s.renumber_erase (shift k)
  rw [← outline_of_parse hp, outline_outline, hrenumber]

theorem scope_shift (k : Nat) :
    (p.outline (Scope.renumber (shift k))).scope = Declaration.globalScope p.globals := by
  rw [outline_shift hp]
  exact Declaration.renumber_globalScope rfl p.globals

theorem main?_shift (hf : p.main? = some f) (k : Nat) :
    (p.outline (Scope.renumber (shift k))).main? =
      some (f.rescope (Declaration.globalScope p.globals) (p.scopesBeforeMain + k)) := by
  have hmain : p.rescope.main? =
      some (f.rescope (Declaration.globalScope p.globals) p.scopesBeforeMain) := by
    have hfind := Function.find?_rescopeAll (Declaration.globalScope p.globals) p.functions 0
    rw [main?] at hf
    rw [hf, Nat.zero_add] at hfind
    exact hfind
  rw [outline_shift hp, main?_outline, hmain, Option.map_some,
    Function.renumber_rescope (shift_succ k), Declaration.renumber_globalScope rfl]

end

/-- Shifted by what the other program has more, the scopes of both have the same numbers. -/
theorem lower_shift_eq {tokens tokens' : List (Located Token)} {p p' : Program} {f f' : Function}
    (hp : parse tokens = .ok p) (hp' : parse tokens' = .ok p')
    (hglobals : p.globals.map Declaration.erase = p'.globals.map Declaration.erase)
    (hf : p.main? = some f) (hf' : p'.main? = some f')
    (hmain : f.outline Scope.forget = f'.outline Scope.forget) :
    (p.lower.map (List.map (Instruction.renumber
      (shift (p'.scopesBeforeMain - p.scopesBeforeMain))))).mapError Located.erase =
    (p'.lower.map (List.map (Instruction.renumber
      (shift (p.scopesBeforeMain - p'.scopesBeforeMain))))).mapError Located.erase := by
  have hscope := Declaration.globalScope_eq hglobals
  have hfunction : ∀ n, f'.rescope (Declaration.globalScope p'.globals) n =
      f.rescope (Declaration.globalScope p.globals) n := by
    intro n
    rw [← f'.rescope_outline Scope.forget, ← hmain, Function.rescope_outline, hscope]
  -- One of the two differences is 0, so that both sides are the greater of the two numbers.
  have hnumber : p'.scopesBeforeMain + (p.scopesBeforeMain - p'.scopesBeforeMain) =
      p.scopesBeforeMain + (p'.scopesBeforeMain - p.scopesBeforeMain) := by
    omega
  rw [← lower_outline, ← lower_outline]
  refine lower_congr ?_ (main?_shift hp hf _) ?_
  · rw [scope_shift hp, scope_shift hp', hscope]
  · rw [main?_shift hp' hf', hfunction, hnumber]

/-- Functions other than `main` do not matter to the code, but for the number of scopes that those
before it open: by the difference of these, the numbers of the scopes other than the outermost one
are shifted. -/
theorem lower_ignores_other_functions {tokens tokens' : List (Located Token)} {p p' : Program}
    {f f' : Function} (hp : parse tokens = .ok p) (hp' : parse tokens' = .ok p')
    (hglobals : p.globals.map Declaration.erase = p'.globals.map Declaration.erase)
    (hf : p.HasMain f) (hf' : p'.HasMain f')
    (hmain : f.outline Scope.forget = f'.outline Scope.forget) :
    (∃ e e', p.lower = .error e ∧ p'.lower = .error e' ∧ e.value = e'.value) ∨
    ∃ c c', p.lower = .ok c ∧ p'.lower = .ok c' ∧
      (p.scopesBeforeMain = p'.scopesBeforeMain → Code.text c = Code.text c' ∧
        Tiny.text (Tiny.emit c) = Tiny.text (Tiny.emit c')) ∧
      (p.scopesBeforeMain ≤ p'.scopesBeforeMain →
        c.map (Instruction.renumber (shift (p'.scopesBeforeMain - p.scopesBeforeMain))) =
          c'.map Instruction.erase) ∧
      (p'.scopesBeforeMain ≤ p.scopesBeforeMain →
        c.map Instruction.erase =
          c'.map (Instruction.renumber (shift (p.scopesBeforeMain - p'.scopesBeforeMain)))) := by
  rw [← main?_eq_some_iff] at hf hf'
  rcases lower_cases (lower_shift_eq hp hp' hglobals hf hf' hmain) with
    herror | ⟨c, c', hc, hc', hcode⟩
  · exact .inl herror
  · refine .inr ⟨c, c', hc, hc', ?_, ?_, ?_⟩
    · intro h
      rw [h, Nat.sub_self, Instruction.renumber_shift_zero] at hcode
      rw [← Code.text_erase, ← Tiny.emit_erase, hcode, Code.text_erase, Tiny.emit_erase]
      exact ⟨rfl, rfl⟩
    · intro h
      rw [hcode, Nat.sub_eq_zero_of_le h, Instruction.renumber_shift_zero]
    · intro h
      rw [← hcode, Nat.sub_eq_zero_of_le h, Instruction.renumber_shift_zero]

/-- `main` reads a variable of its own, alone and behind a function that opens a scope. -/
theorem lower_ignores_other_functions_before :
    ∃ (tokens tokens' : List (Located Token)) (p p' : Program), parse tokens = .ok p ∧
      parse tokens' = .ok p' ∧ p.scopesBeforeMain = 0 ∧ p'.scopesBeforeMain = 1 ∧
      ∃ c c', p.lower = .ok c ∧ p'.lower = .ok c' ∧
        c.map (Instruction.renumber (shift 1)) = c'.map Instruction.erase := by
  let names : Grammar.Separated (Located String) := ⟨⟨"a", {}⟩, []⟩
  let other : Grammar.Func := ⟨{}, ⟨.void, {}⟩, ⟨"f", {}⟩, {}, .none, {}, {}, ⟨[], []⟩, {}⟩
  let main : Grammar.Func := ⟨{}, ⟨.void, {}⟩, ⟨"main", {}⟩, {}, .none, {}, {},
    ⟨[.numbers ⟨.int, {}⟩ names {}], [.read {} {} names {} {}]⟩, {}⟩
  let d : Grammar.Prog := ⟨{}, ⟨"p", {}⟩, {}, [], [main], {}⟩
  let d' : Grammar.Prog := ⟨{}, ⟨"p", {}⟩, {}, [], [other, main], {}⟩
  have hd : parse d.tokens = .ok d.tree := parse_eq_ok_iff.2 ⟨d, rfl, by decide, rfl⟩
  have hd' : parse d'.tokens = .ok d'.tree := parse_eq_ok_iff.2 ⟨d', rfl, by decide, rfl⟩
  refine ⟨d.tokens, d'.tokens, d.tree, d'.tree, hd, hd', rfl, rfl, ?_⟩
  rcases lower_ignores_other_functions hd hd' rfl (main?_eq_some_iff.1 rfl)
    (main?_eq_some_iff.1 rfl) rfl with
    ⟨e, e', he, -⟩ | ⟨c, c', hc, hc', -, hle, -⟩
  · have hok : d.tree.lower.isOk = true := rfl
    rw [he] at hok
    cases hok
  · exact ⟨c, c', hc, hc', hle (by decide)⟩

end Program

end LittleTiny
