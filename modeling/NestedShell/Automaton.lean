/-
  Automata with actions.  An automaton gives every pair of a state and a symbol at most one rule;
  a rule may act on a scratch record, and may move to another state.  Actions can push symbols
  back, which are then read again before the next symbol of the input.

  * `Automaton.rule?` finds the rule: one for the exact symbol, else one for any symbol in the
    state, else the fallback;
  * `Automaton.step` reads one symbol, `settle` reads what was pushed back, `feed` reads a text;
  * `Automaton.on`, `onEach` and `otherwise` add rules, a later rule replacing an earlier one.
-/
import NestedShell.Environment
import NestedShell.Fault
import NestedShell.Text.Escaped

namespace NestedShell

/-- What actions work on. -/
structure Bench (α γ : Type) where
  scratch : γ
  /-- the symbols that are to be read again, the latest one first -/
  pushed : List α := []
deriving DecidableEq, Repr

/-- What a rule does with the symbol that it reads. -/
abbrev Action (α γ : Type) := Lookup → α → Bench α γ → Except Fault Unit × Bench α γ

/-- The action that always succeeds and only changes the scratch record. -/
def Action.change {α γ : Type} (f : Lookup → α → γ → γ) : Action α γ :=
  fun vars c b => (.ok (), { b with scratch := f vars c b.scratch })

/-- A rule: what to do, and where to go.  Without a target the state stays. -/
structure Rule (α q γ : Type) where
  act : Option (Action α γ) := none
  target : Option q := none

/-- An automaton over symbols `α`, states `q` and scratch records `γ`. -/
structure Automaton (α q γ : Type) where
  initial : q
  /-- the rules for one symbol in one state -/
  exact : q → α → Option (Rule α q γ)
  /-- the rules for the other symbols in one state -/
  any : q → Option (Rule α q γ)
  /-- the rule for everything else -/
  fallback : Option (Rule α q γ) := none

/-- An automaton at work: the state that it is in, and what its actions work on. -/
structure Run (α q γ : Type) where
  state : q
  bench : Bench α γ
deriving DecidableEq, Repr

/-- Why a run stops. -/
inductive Stop (α q : Type) where
  /-- there is no rule for the symbol; the stack is what was pushed back at that time -/
  | undefined (symbol : α) (state : q) (stack : List α)
  /-- the action failed -/
  | refused (fault : Fault)
  /-- symbols were pushed back again and again -/
  | unsettled

/-- A stop, told as a fault; the stack is written from its bottom. -/
def Stop.fault {α q : Type} (showSymbol : α → String) (showState : q → String) :
    Stop α q → Fault
  | .undefined c s stack =>
    ⟨.undefinedTransition (showSymbol c) (showState s)
      (Text.bracketed (stack.reverse.map showSymbol)), none⟩
  | .refused fault => fault
  | .unsettled => ⟨.reported .grammar "symbols are pushed back without end" none, none⟩

namespace Automaton

variable {α q γ : Type}

/-- The automaton without rules. -/
def ofInitial (initial : q) : Automaton α q γ where
  initial
  exact _ _ := none
  any _ := none

/-- The run that has read nothing yet. -/
def start (a : Automaton α q γ) (scratch : γ) : Run α q γ := ⟨a.initial, ⟨scratch, []⟩⟩

/-- Whether a run is back in the initial state. -/
def isIdle [DecidableEq q] (a : Automaton α q γ) (r : Run α q γ) : Bool :=
  r.state = a.initial

/-- Back to the initial state, with nothing to read again. -/
def reset (a : Automaton α q γ) (r : Run α q γ) : Run α q γ :=
  ⟨a.initial, { r.bench with pushed := [] }⟩

/-! ## Rules -/

/-- Adds a rule for one symbol in one state. -/
def on [DecidableEq α] [DecidableEq q] (a : Automaton α q γ) (c : α) (s : q) (rule : Rule α q γ) :
    Automaton α q γ :=
  { a with exact := fun s' c' => if s' = s ∧ c' = c then some rule else a.exact s' c' }

/-- Adds the same rule for several symbols in one state. -/
def onEach [DecidableEq α] [DecidableEq q] (a : Automaton α q γ) (cs : List α) (s : q)
    (rule : Rule α q γ) : Automaton α q γ :=
  cs.foldl (fun a c => a.on c s rule) a

/-- Adds a rule for the symbols that have no rule of their own in a state. -/
def onAny [DecidableEq q] (a : Automaton α q γ) (s : q) (rule : Rule α q γ) : Automaton α q γ :=
  { a with any := fun s' => if s' = s then some rule else a.any s' }

/-- Sets the rule for everything else; a rule that neither acts nor moves removes it. -/
def otherwise (a : Automaton α q γ) (rule : Rule α q γ) : Automaton α q γ :=
  { a with fallback := if rule.act.isNone ∧ rule.target.isNone then none else some rule }

/-- The rule for a symbol in a state: one for the symbol comes before one for any symbol of the
    state, and that one before the fallback. -/
def rule? (a : Automaton α q γ) (s : q) (c : α) : Option (Rule α q γ) :=
  (a.exact s c).or ((a.any s).or a.fallback)

/-! ## Runs -/

/-- Reads one symbol.  When there is no rule nothing changes; when the action fails the state does
    not change. -/
def step (a : Automaton α q γ) (vars : Lookup) (c : α) (r : Run α q γ) :
    Except (Stop α q) Unit × Run α q γ :=
  match a.rule? r.state c with
  | none => (.error (.undefined c r.state r.bench.pushed), r)
  | some rule =>
    match rule.act with
    | none => (.ok (), { r with state := rule.target.getD r.state })
    | some act =>
      match act vars c r.bench with
      | (.ok (), bench) => (.ok (), ⟨rule.target.getD r.state, bench⟩)
      | (.error fault, bench) => (.error (.refused fault), { r with bench })

/-- Reads the symbols that were pushed back, the latest one first, until there are none.  A run that
    would have to read more than `budget` of them is stopped. -/
def settle (a : Automaton α q γ) (vars : Lookup) : Nat → Run α q γ →
    Except (Stop α q) Unit × Run α q γ
  | 0, r =>
    match r.bench.pushed with
    | [] => (.ok (), r)
    | _ :: _ => (.error .unsettled, r)
  | budget + 1, r =>
    match r.bench.pushed with
    | [] => (.ok (), r)
    | c :: cs =>
      match a.step vars c { r with bench := { r.bench with pushed := cs } } with
      | (.ok (), r') => settle a vars budget r'
      | (.error stop, r') => (.error stop, r')

/-- Reads one symbol and what it pushes back. -/
def advance (a : Automaton α q γ) (vars : Lookup) (budget : Nat) (c : α) (r : Run α q γ) :
    Except (Stop α q) Unit × Run α q γ :=
  match a.step vars c r with
  | (.ok (), r') => a.settle vars budget r'
  | (.error stop, r') => (.error stop, r')

/-- Reads symbols until one of them stops the run.  Each may have `budget` symbols read again. -/
def feed (a : Automaton α q γ) (vars : Lookup) (budget : Nat) : List α → Run α q γ →
    Except (Stop α q) Unit × Run α q γ
  | [], r => (.ok (), r)
  | c :: cs, r =>
    match a.advance vars budget c r with
    | (.ok (), r') => feed a vars budget cs r'
    | (.error stop, r') => (.error stop, r')

/-! ## Basic laws -/

/-- A run that settles has nothing left to read again. -/
theorem pushed_settle {a : Automaton α q γ} {vars : Lookup} {budget : Nat} {r r' : Run α q γ}
    (h : a.settle vars budget r = (.ok (), r')) : r'.bench.pushed = [] := by
  induction budget generalizing r with
  | zero =>
    unfold settle at h
    split at h
    · cases h; assumption
    · cases h
  | succ budget ih =>
    unfold settle at h
    split at h
    · cases h; assumption
    · split at h
      · exact ih h
      · cases h

end Automaton

end NestedShell
