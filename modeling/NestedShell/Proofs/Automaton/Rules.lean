/-
  Which rule an automaton uses, and what it does.

  An automaton is built by calls that add rules, and what is added later replaces what was added
  before for the same case.  So one can list what the calls add for a case, and the rule that is
  used is the last one of the list.

  * an `Addition` is a call that adds rules, `addAll` makes several calls;
  * `ruleFor?` is the rule that some calls leave for a symbol in a state: the last one that was
    added for it, else the last one for any symbol in the state, else the last one for everything
    else, if it does something;
  * `rule?_addAll`: an automaton that is built by these calls uses this rule;
  * `Processed`: what becomes of a symbol by a rule; `processed`: so it does.
-/
import NestedShell.Automaton

namespace NestedShell

/-- A rule that neither acts nor moves. -/
def Rule.isIdle {α q γ : Type} (rule : Rule α q γ) : Bool :=
  rule.act.isNone && rule.target.isNone

namespace Automaton

/-- A call that adds rules. -/
inductive Addition (α q γ : Type) where
  /-- for one symbol in one state -/
  | on (c : α) (s : q) (rule : Rule α q γ)
  /-- for several symbols in one state -/
  | onEach (cs : List α) (s : q) (rule : Rule α q γ)
  /-- for the symbols that have no rule of their own in a state -/
  | onAny (s : q) (rule : Rule α q γ)
  /-- for everything else, or for nothing else when the rule is idle -/
  | otherwise (rule : Rule α q γ)

variable {α q γ : Type} [DecidableEq α] [DecidableEq q]

/-- Does what an addition says. -/
def add (a : Automaton α q γ) : Addition α q γ → Automaton α q γ
  | .on c s rule => a.on c s rule
  | .onEach cs s rule => a.onEach cs s rule
  | .onAny s rule => a.onAny s rule
  | .otherwise rule => a.otherwise rule

/-- Does several additions, one after the other. -/
def addAll (a : Automaton α q γ) (xs : List (Addition α q γ)) : Automaton α q γ := xs.foldl add a

/-! ## What calls add -/

namespace Addition

/-- What is added for one symbol in a state. -/
def forSymbol (s : q) (c : α) : Addition α q γ → List (Rule α q γ)
  | on c' s' rule => if s = s' ∧ c = c' then [rule] else []
  | onEach cs s' rule => if s = s' ∧ c ∈ cs then [rule] else []
  | onAny .. | otherwise _ => []

omit [DecidableEq α] in
/-- What is added for any symbol in a state. -/
def forAny (s : q) : Addition α q γ → List (Rule α q γ)
  | onAny s' rule => if s = s' then [rule] else []
  | on .. | onEach .. | otherwise _ => []

omit [DecidableEq α] [DecidableEq q] in
/-- What is added for everything else. -/
def forRest : Addition α q γ → List (Rule α q γ)
  | otherwise rule => [rule]
  | on .. | onEach .. | onAny .. => []

end Addition

/-- The rule that some calls leave for a symbol in a state. -/
def ruleFor? (xs : List (Addition α q γ)) (s : q) (c : α) : Option (Rule α q γ) :=
  (xs.flatMap (·.forSymbol s c)).getLast?.or
    ((xs.flatMap (·.forAny s)).getLast?.or
      ((xs.flatMap (·.forRest)).getLast?.filter fun rule => !rule.isIdle))

/-! ## Later rules replace earlier ones -/

theorem exact_onEach (a : Automaton α q γ) (cs : List α) (s : q) (rule : Rule α q γ) (s' : q)
    (c : α) :
    (a.onEach cs s rule).exact s' c = if s' = s ∧ c ∈ cs then some rule else a.exact s' c := by
  induction cs generalizing a with
  | nil => simp [onEach]
  | cons c' cs ih =>
    rw [onEach, List.foldl_cons, ← onEach, ih]
    simp only [on, List.mem_cons]
    by_cases hs : s' = s <;> by_cases hc : c ∈ cs <;> simp [hs, hc]

theorem exact_add (a : Automaton α q γ) (x : Addition α q γ) (s : q) (c : α) :
    (a.add x).exact s c = (x.forSymbol s c).getLast?.or (a.exact s c) := by
  cases x with
  | on c' s' rule =>
    simp only [add, on, Addition.forSymbol]
    split <;> rfl
  | onEach cs s' rule =>
    simp only [add, exact_onEach, Addition.forSymbol]
    split <;> rfl
  | onAny | otherwise => rfl

theorem any_add (a : Automaton α q γ) (x : Addition α q γ) (s : q) :
    (a.add x).any s = (x.forAny s).getLast?.or (a.any s) := by
  cases x with
  | onEach cs s' rule =>
    have hany : (a.onEach cs s' rule).any = a.any := by
      induction cs generalizing a with
      | nil => rfl
      | cons c cs ih => exact ih (a.on c s' rule)
    simp only [add, hany, Addition.forAny]
    rfl
  | onAny s' rule =>
    simp only [add, onAny, Addition.forAny]
    split <;> rfl
  | on | otherwise => rfl

/-- The rule for everything else is the last one that was set, or none if that one is idle. -/
theorem fallback_add (a : Automaton α q γ) (x : Addition α q γ) :
    (a.add x).fallback =
      x.forRest.getLast?.elim a.fallback fun rule => if rule.isIdle then none else some rule := by
  cases x with
  | onEach cs s rule =>
    induction cs generalizing a with
    | nil => rfl
    | cons c cs ih => exact ih (a.on c s rule)
  | otherwise rule => simp [add, otherwise, Addition.forRest, Rule.isIdle]
  | on | onAny => rfl

/-- **The rule for one symbol** in a state is the last one that was added for it. -/
theorem exact_addAll (a : Automaton α q γ) (xs : List (Addition α q γ)) (s : q) (c : α) :
    (a.addAll xs).exact s c = (xs.flatMap (·.forSymbol s c)).getLast?.or (a.exact s c) := by
  induction xs generalizing a with
  | nil => rfl
  | cons x xs ih =>
    rw [addAll, List.foldl_cons, ← addAll, ih, exact_add, List.flatMap_cons, List.getLast?_append,
      Option.or_assoc]

/-- **The rule for any symbol** in a state is the last one that was added for that. -/
theorem any_addAll (a : Automaton α q γ) (xs : List (Addition α q γ)) (s : q) :
    (a.addAll xs).any s = (xs.flatMap (·.forAny s)).getLast?.or (a.any s) := by
  induction xs generalizing a with
  | nil => rfl
  | cons x xs ih =>
    rw [addAll, List.foldl_cons, ← addAll, ih, any_add, List.flatMap_cons, List.getLast?_append,
      Option.or_assoc]

theorem fallback_addAll (a : Automaton α q γ) (xs : List (Addition α q γ)) :
    (a.addAll xs).fallback =
      (xs.flatMap (·.forRest)).getLast?.elim a.fallback fun rule =>
        if rule.isIdle then none else some rule := by
  induction xs generalizing a with
  | nil => rfl
  | cons x xs ih =>
    rw [addAll, List.foldl_cons, ← addAll, ih, fallback_add, List.flatMap_cons,
      List.getLast?_append]
    cases (xs.flatMap (·.forRest)).getLast? <;> rfl

/-- **The rule that is used** is the one that the calls leave. -/
theorem rule?_addAll (initial : q) (xs : List (Addition α q γ)) (s : q) (c : α) :
    ((ofInitial initial).addAll xs).rule? s c = ruleFor? xs s c := by
  rw [rule?, exact_addAll, any_addAll, fallback_addAll, ruleFor?]
  simp only [ofInitial, Option.or_none]
  congr 2
  cases (xs.flatMap (·.forRest)).getLast? with
  | none => rfl
  | some rule => cases hidle : rule.isIdle <;> simp [Option.filter, hidle]

/-! ## One symbol -/

omit [DecidableEq α] [DecidableEq q] in
/-- What becomes of a symbol when a rule is used for it, or when there is none. -/
inductive Processed (vars : Lookup) (c : α) (r : Run α q γ) :
    Option (Rule α q γ) → Except (Stop α q) Unit × Run α q γ → Prop where
  /-- nothing changes -/
  | undefined : Processed vars c r none (.error (.undefined c r.state r.bench.pushed), r)
  | moved {rule : Rule α q γ} (hact : rule.act = none) :
    Processed vars c r (some rule) (.ok (), { r with state := rule.target.getD r.state })
  | acted {rule : Rule α q γ} {act : Action α γ} {bench : Bench α γ} (hact : rule.act = some act)
      (hrun : act vars c r.bench = (.ok (), bench)) :
    Processed vars c r (some rule) (.ok (), ⟨rule.target.getD r.state, bench⟩)
  /-- the state does not change -/
  | refused {rule : Rule α q γ} {act : Action α γ} {bench : Bench α γ} {fault : Fault}
      (hact : rule.act = some act) (hrun : act vars c r.bench = (.error fault, bench)) :
    Processed vars c r (some rule) (.error (.refused fault), { r with bench })

omit [DecidableEq α] [DecidableEq q] in
/-- **A symbol is processed** by the rule that is found for it. -/
theorem processed (a : Automaton α q γ) (vars : Lookup) (c : α) (r : Run α q γ) :
    Processed vars c r (a.rule? r.state c) (a.step vars c r) := by
  rw [step]
  cases a.rule? r.state c with
  | none => exact .undefined
  | some rule =>
    dsimp only
    cases hact : rule.act with
    | none => exact .moved hact
    | some act =>
      rcases hrun : act vars c r.bench with ⟨fault | _, bench⟩
      · simp only [hrun]
        exact .refused hact hrun
      · simp only [hrun]
        exact .acted hact hrun

end Automaton

end NestedShell
