import LittleTiny.Proofs.Grammar.Declaration
import LittleTiny.Scope.Store
import Mathlib.Data.List.Induction

/-!
# Runs on a store of scopes

A run declares names in the scopes of a store and opens new scopes inside of old ones, in any order.
After every run the list of a scope has the declarations that succeeded on it, and its map agrees
with the list: it finds these first, and beside them what its outer scope found when it was opened,
whatever has been declared outside since then (`ScopeStore.after_faithful`). All of this follows
from what a single act can do to a store (`ScopeStore.Effect`).
-/

namespace LittleTiny

namespace ScopeStore

/-! ## Acts and runs -/

/-- What can be done to a store: to declare a name in the scope at `k`, or to open a scope inside of
it. -/
inductive Act where
  | declare (k : Nat) (name : Located String) (type : VarType) (value : Option String)
  | nest (k id : Nat)
deriving DecidableEq, Repr

/-- The store after an act, whether it succeeds or fails. -/
def act (store : ScopeStore) : Act → ScopeStore
  | .declare k name type value =>
    match (declare k name type value).run store with
    | .ok _ changed => changed
    | .error _ changed => changed
  | .nest k id => store.nest k id

/-- The store after a run. -/
def after (acts : List Act) : ScopeStore := acts.foldl act initial

/-- What an act adds to the scope at `k`: a variable, if it is a declaration there that succeeds. -/
def gained (store : ScopeStore) (k : Nat) : Act → List Variable
  | .declare i name type value =>
    match store[k]?, (declare i name type value).run store with
    | some scope, .ok _ _ => if i = k then [⟨name, type, value, scope.id⟩] else []
    | _, _ => []
  | .nest _ _ => []

/-- The declarations of a run from `store` on that succeed on the scope at `k`, in their order. -/
def succeededFrom (store : ScopeStore) (k : Nat) : List Act → List Variable
  | [] => []
  | a :: acts => store.gained k a ++ (store.act a).succeededFrom k acts

/-- The declarations of a whole run that succeed on the scope at `k`. -/
def succeeded (k : Nat) (acts : List Act) : List Variable := initial.succeededFrom k acts

variable {store : ScopeStore} {acts : List Act} {a : Act} {k : Nat} {scope : Scope}

theorem after_snoc (acts : List Act) (a : Act) : after (acts ++ [a]) = (after acts).act a := by
  rw [after, List.foldl_append]
  rfl

theorem succeededFrom_snoc (store : ScopeStore) (k : Nat) (acts : List Act) (a : Act) :
    store.succeededFrom k (acts ++ [a]) =
      store.succeededFrom k acts ++ (acts.foldl act store).gained k a := by
  induction acts generalizing store with
  | nil => exact List.append_nil _
  | cons b acts ih =>
    rw [List.cons_append, succeededFrom, ih, succeededFrom, List.append_assoc]
    rfl

theorem succeeded_snoc (k : Nat) (acts : List Act) (a : Act) :
    succeeded k (acts ++ [a]) = succeeded k acts ++ (after acts).gained k a :=
  succeededFrom_snoc initial k acts a

/-! ## One act -/

section Declare

variable {name : Located String} {type : VarType} {value : Option String}

/-- A declaration is refused if the scope has the name, and then the store is as it was. -/
theorem declare_of_mem (hk : store[k]? = some scope) (h : name.value ∈ scope.names) :
    (declare k name type value).run store = .error ⟨⟨name.value⟩, name.location⟩ store := by
  have hsame : store.set k scope = store := by
    obtain ⟨hlt, rfl⟩ := List.getElem?_eq_some_iff.1 hk
    exact List.set_getElem_self hlt
  have hrun : (Scope.declare name type value).run scope =
      .error ⟨⟨name.value⟩, name.location⟩ scope := by
    rw [Scope.run_declare, if_pos (Scope.declares_iff.2 h)]
  show declare k name type value store = _
  simp only [declare, hk, hrun, hsame]

theorem declare_of_notMem (hk : store[k]? = some scope) (h : name.value ∉ scope.names) :
    (declare k name type value).run store =
      .ok () (store.set k (scope.enter ⟨name, type, value, scope.id⟩)) := by
  have hrun : (Scope.declare name type value).run scope =
      .ok () (scope.enter ⟨name, type, value, scope.id⟩) := by
    rw [Scope.run_declare, if_neg (mt Scope.declares_iff.1 h)]
  show declare k name type value store = _
  simp only [declare, hk, hrun]

/-- The only error is that the scope has the name already. It points at the new one, and leaves the
store as it was. -/
theorem declare_eq_error_iff (hk : store[k]? = some scope) {e : Located Redeclared}
    {changed : ScopeStore} :
    (declare k name type value).run store = .error e changed ↔
      name.value ∈ scope.names ∧ e = ⟨⟨name.value⟩, name.location⟩ ∧ changed = store := by
  by_cases h : name.value ∈ scope.names
  · rw [declare_of_mem hk h, EStateM.Result.error.injEq]
    exact ⟨fun he => ⟨h, he.1.symm, he.2.symm⟩, fun he => ⟨he.2.1.symm, he.2.2.symm⟩⟩
  · rw [declare_of_notMem hk h]
    simp [h]

/-- A declaration that succeeds adds to its own scope, if there is one, and to no other. -/
theorem gained_of_ok {changed : ScopeStore}
    (h : (declare k name type value).run store = .ok () changed) (j : Nat) :
    store.gained j (.declare k name type value) =
      if k = j then store[k]?.toList.map fun scope => ⟨name, type, value, scope.id⟩ else [] := by
  by_cases hkj : k = j
  · subst hkj
    cases hk : store[k]? <;> simp [gained, hk, h]
  · cases hj : store[j]? <;> simp [gained, hj, h, hkj]

end Declare

/-- What an act can do to a store: nothing, or it adds a variable to one scope, or it adds a scope
at the end. -/
inductive Effect (store : ScopeStore) : Act → ScopeStore → Prop
  | nothing {a : Act} (h : ∀ j, store.gained j a = []) : Effect store a store
  | added {k : Nat} {scope : Scope} {name : Located String} {type : VarType}
      {value : Option String} (hk : store[k]? = some scope) (h : name.value ∉ scope.names)
      (hgained : ∀ j, store.gained j (.declare k name type value) =
        if k = j then [⟨name, type, value, scope.id⟩] else []) :
      Effect store (.declare k name type value)
        (store.set k (scope.enter ⟨name, type, value, scope.id⟩))
  | opened {k id : Nat} {outer : Scope} (hk : store[k]? = some outer) :
      Effect store (.nest k id) (store ++ [outer.nested id])

theorem effect_act (store : ScopeStore) (a : Act) : store.Effect a (store.act a) := by
  cases a with
  | declare k name type value =>
    cases hk : store[k]? with
    | none =>
      have hsame : (declare k name type value).run store = .ok () store := by
        simp only [declare, EStateM.run, hk]
      have hstore : store.act (.declare k name type value) = store := by simp only [act, hsame]
      rw [hstore]
      exact .nothing fun j => by simp [gained_of_ok hsame, hk]
    | some scope =>
      by_cases hmem : name.value ∈ scope.names
      · have herror := @declare_of_mem store k scope name type value hk hmem
        have hstore : store.act (.declare k name type value) = store := by simp only [act, herror]
        rw [hstore]
        exact .nothing fun j => by simp [gained, herror]
      · have hok := @declare_of_notMem store k scope name type value hk hmem
        have hstore : store.act (.declare k name type value) =
            store.set k (scope.enter ⟨name, type, value, scope.id⟩) := by simp only [act, hok]
        rw [hstore]
        exact .added hk hmem fun j => by simp [gained_of_ok hok, hk]
  | nest k id =>
    cases hk : store[k]? with
    | none =>
      have hstore : store.act (.nest k id) = store := by simp only [act, nest, hk]
      rw [hstore]
      exact .nothing fun j => rfl
    | some outer =>
      have hstore : store.act (.nest k id) = store ++ [outer.nested id] := by
        simp only [act, nest, hk]
      rw [hstore]
      exact .opened hk

namespace Effect

variable {changed : ScopeStore}

/-- A scope is changed by nothing but a declaration on it. -/
theorem getElem?_of_ne (h : store.Effect a changed) (hk : store[k]? = some scope)
    (ha : ∀ name type value, a ≠ .declare k name type value) : changed[k]? = some scope := by
  cases h with
  | nothing h => exact hk
  | added hi h hgained =>
    rw [List.getElem?_set_ne, hk]
    rintro rfl
    exact ha _ _ _ rfl
  | opened hi => rw [List.getElem?_append_left (List.getElem?_eq_some_iff.1 hk).1, hk]

theorem length_le (h : store.Effect a changed) : store.length ≤ changed.length := by
  cases h <;> simp

end Effect

theorem gained_of_length_le (h : store.length ≤ k) (a : Act) : store.gained k a = [] := by
  cases a with
  | declare i name type value => simp [gained, List.getElem?_eq_none h]
  | nest i id => rfl

/-! ## Whole runs -/

/-- How a scope came to be at its place: it is the global one, or it was opened inside a scope that
found then what it finds beside its own variables. -/
inductive Origin (acts : List Act) : Nat → Scope → Prop
  | global {scope : Scope} (hid : scope.id = 0) (h : scope.Over fun _ => none) :
      Origin acts 0 scope
  | nested {before later : List Act} {i id : Nat} {outer scope : Scope}
      (hacts : acts = before ++ .nest i id :: later) (hi : (after before)[i]? = some outer)
      (hid : scope.id = id) (h : scope.Over outer.lookup?) :
      Origin acts (after before).length scope

theorem Origin.snoc (h : Origin acts k scope) (a : Act) (vs : List Variable) :
    Origin (acts ++ [a]) k (scope.add vs) := by
  cases h with
  | global hid h => exact .global ((scope.id_add vs).trans hid) (h.add vs)
  | nested hacts hi hid h =>
    rw [hacts, List.append_assoc, List.cons_append]
    exact .nested rfl hi ((scope.id_add vs).trans hid) (h.add vs)

/-- What a scope of the store after a run holds, and where it comes from. -/
structure Traced (acts : List Act) (k : Nat) (scope : Scope) : Prop where
  nodup : scope.names.Nodup
  declared : scope.declared = succeeded k acts
  origin : Origin acts k scope

theorem succeeded_of_length_le (acts : List Act) (h : (after acts).length ≤ k) :
    succeeded k acts = [] := by
  induction acts using List.reverseRecOn with
  | nil => rfl
  | append_singleton acts a ih =>
    have hle : (after acts).length ≤ k := by
      rw [after_snoc] at h
      exact Nat.le_trans (effect_act _ a).length_le h
    rw [succeeded_snoc, ih hle, gained_of_length_le hle]
    rfl

theorem Traced.snoc (h : Traced acts k scope) (hgained : (after acts).gained k a = []) :
    Traced (acts ++ [a]) k scope := by
  refine ⟨h.nodup, ?_, ?_⟩
  · rw [succeeded_snoc, hgained, List.append_nil, h.declared]
  · have horigin := h.origin.snoc a []
    rwa [Scope.add_nil] at horigin

/-- An act keeps what is known about the scopes of a store. -/
theorem traced_act (h : ∀ k scope, (after acts)[k]? = some scope → Traced acts k scope)
    (hk : ((after acts).act a)[k]? = some scope) : Traced (acts ++ [a]) k scope := by
  have heffect := effect_act (after acts) a
  generalize (after acts).act a = changed at heffect hk
  cases heffect with
  | nothing hgained => exact (h k scope hk).snoc (hgained k)
  | @added i target name type value hi hnew hgained =>
    by_cases hik : i = k
    · subst hik
      rw [List.getElem?_set_self (List.getElem?_eq_some_iff.1 hi).1, Option.some.injEq] at hk
      subst hk
      have htarget := h i target hi
      refine ⟨?_, ?_, htarget.origin.snoc _ [⟨name, type, value, target.id⟩]⟩
      · have hnames := target.names_add [⟨name, type, value, target.id⟩]
        rw [List.map_singleton, ← List.concat_eq_append] at hnames
        exact hnames ▸ htarget.nodup.concat hnew
      · rw [succeeded_snoc, hgained, if_pos rfl, ← htarget.declared]
        rfl
    · rw [List.getElem?_set_ne hik] at hk
      exact (h k scope hk).snoc (by rw [hgained, if_neg hik])
  | @opened i id outer hi =>
    rcases Nat.lt_or_ge k (after acts).length with hlt | hge
    · rw [List.getElem?_append_left hlt] at hk
      exact (h k scope hk).snoc rfl
    · rw [List.getElem?_append_right hge, List.getElem?_singleton] at hk
      split at hk
      · -- The scope is new, and nothing has been declared on it.
        obtain rfl : k = (after acts).length := by omega
        cases hk
        refine ⟨List.nodup_nil, ?_, .nested rfl hi rfl (outer.over_nested id)⟩
        rw [succeeded_snoc, succeeded_of_length_le acts (Nat.le_refl _)]
        rfl
      · cases hk

theorem traced_after (acts : List Act) :
    ∀ k scope, (after acts)[k]? = some scope → Traced acts k scope := by
  induction acts using List.reverseRecOn with
  | nil =>
    intro k scope hk
    obtain ⟨rfl, rfl⟩ : k = 0 ∧ Scope.global = scope := by
      simpa [after, initial, List.getElem?_singleton] using hk
    exact ⟨List.nodup_nil, rfl, .global rfl Scope.over_global⟩
  | append_singleton acts a ih =>
    intro k scope hk
    rw [after_snoc] at hk
    exact traced_act ih hk

/-- What the scopes of a store are like after a run, and what acts do to them next. -/
structure Faithful (acts : List Act) : Prop where
  declared : ∀ k scope, (after acts)[k]? = some scope →
    scope.names.Nodup ∧ scope.declared = succeeded k acts
  lookup : ∀ k scope, (after acts)[k]? = some scope →
    (k = 0 ∧ scope.id = 0 ∧ ∀ name, scope.lookup? name = scope.own? name) ∨
      ∃ before i id later outer, acts = before ++ .nest i id :: later ∧
        k = (after before).length ∧ (after before)[i]? = some outer ∧ scope.id = id ∧
        ∀ name, scope.lookup? name = (scope.own? name).or (outer.lookup? name)
  refused : ∀ k scope name type value, (after acts)[k]? = some scope →
    ((∃ e changed, (declare k name type value).run (after acts) = .error e changed) ↔
        name.value ∈ scope.names) ∧
      ∀ e changed, (declare k name type value).run (after acts) = .error e changed →
        e = ⟨⟨name.value⟩, name.location⟩ ∧ changed = after acts ∧
          after (acts ++ [.declare k name type value]) = after acts
  apart : ∀ a k scope, (after acts)[k]? = some scope →
    (∀ name type value, a ≠ .declare k name type value) →
    (after (acts ++ [a]))[k]? = some scope

/-- After any run, a scope holds the declarations that succeeded on it, with names of their own; it
finds its own variables, and else what its outer scope found when it was opened. A declaration is
refused exactly if the scope has the name, and then it changes nothing; no act changes another
scope than the one it declares on. -/
theorem after_faithful (acts : List Act) : Faithful acts := by
  refine ⟨?declared, ?lookup, ?refused, ?apart⟩
  case declared =>
    intro k scope hk
    have htraced := traced_after acts k scope hk
    exact ⟨htraced.nodup, htraced.declared⟩
  case lookup =>
    intro k scope hk
    cases (traced_after acts k scope hk).origin with
    | global hid h =>
      refine .inl ⟨rfl, hid, fun name => ?_⟩
      rw [h name, Option.or_none]
    | @nested before later i id outer scope hacts hi hid h =>
      exact .inr ⟨before, i, id, later, outer, hacts, rfl, hi, hid, h⟩
  case refused =>
    intro k scope name type value hk
    refine ⟨⟨?_, fun h => ⟨_, _, declare_of_mem hk h⟩⟩, fun e changed he => ?_⟩
    · rintro ⟨e, changed, he⟩
      exact ((declare_eq_error_iff hk).1 he).1
    · obtain ⟨-, hlocation, hsame⟩ := (declare_eq_error_iff hk).1 he
      have hafter : (after acts).act (.declare k name type value) = changed := by
        simp only [act, he]
      rw [after_snoc, hafter]
      exact ⟨hlocation, hsame, hsame⟩
  case apart =>
    intro a k scope hk ha
    rw [after_snoc]
    exact (effect_act _ a).getElem?_of_ne hk ha

/-- Declares `x`, opens a scope inside, declares `y` outside of it and `x` in it, and `x` again. -/
def lateDeclaration : List Act :=
  [.declare 0 ⟨"x", {}⟩ (.number .int) none, .nest 0 7,
    .declare 0 ⟨"y", {}⟩ .string (some "late"), .declare 1 ⟨"x", {}⟩ (.number .float) none,
    .declare 1 ⟨"x", .point ⟨2, 3⟩⟩ .string none]

theorem after_faithful_lateDeclaration :
    (after lateDeclaration).map Scope.names = [["x", "y"], ["x"]] ∧
      (after lateDeclaration).map (fun s => (s.lookup? "x").map Variable.mangled) =
        [some "var0x", some "var7x"] ∧
      (after lateDeclaration).map (fun s => (s.lookup? "y").map Variable.mangled) =
        [some "var0y", none] ∧
      Faithful lateDeclaration :=
  ⟨by decide, by decide, by decide, after_faithful lateDeclaration⟩

end ScopeStore

end LittleTiny
