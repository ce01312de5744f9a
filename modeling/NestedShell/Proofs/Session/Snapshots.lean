/-
  Snapshots against the level that they are taken of.

  A snapshot holds copies: the words of scopes, the names of variables and of aliases.  It agrees
  with the level if the words of its scopes are in order, as the ones of sorted word lists are.
  Only scopes that are installed from outside could be others; handlers cannot reach them.

  * `Level.scope?` is the scope of a name; `Level.ScopesOrdered`: the words of all of them are in
    order;
  * `Level.SnapshotAgrees`: a snapshot tells the same as the level; `snapshotAgrees`: it does if the
    scopes are in order;
  * `Stack.ScopesOrdered`: so at every level; `Level.kept_scopesOrdered`: the engine keeps that;
  * `Session.Scoped`: a session that is reached with scopes of word lists only;
    `Scoped.scopesOrdered`, and `scoped_snapshotAgrees`: its snapshots agree with its levels.
-/
import NestedShell.Proofs.Completion.WordList
import NestedShell.Proofs.Session.EveryLevel

namespace NestedShell

variable {σ ω : Type}

/-! ## Levels -/

namespace Level

/-- The scope of a name. -/
def scope? (l : Level σ) (name : String) : Option WordList := l.scopes[name]?

theorem scope?_addScope (l : Level σ) (name : String) (scope : WordList) (other : String) :
    (l.addScope name scope).scope? other = if name = other then some scope else l.scope? other := by
  simp [scope?, addScope, Std.TreeMap.getElem?_insert]

theorem scope?_removeScope (l : Level σ) (name other : String) :
    (l.removeScope name).scope? other = if name = other then none else l.scope? other := by
  simp [scope?, removeScope, Std.TreeMap.getElem?_erase]

/-- The words of every scope are in order. -/
def ScopesOrdered (l : Level σ) : Prop :=
  ∀ name scope, l.scope? name = some scope → Ordered scope.words

theorem ScopesOrdered.addScope {l : Level σ} (h : l.ScopesOrdered) (name : String)
    (words : List String) : (l.addScope name (.ofList words)).ScopesOrdered := by
  intro other scope hscope
  rw [scope?_addScope] at hscope
  split at hscope
  · obtain rfl := Option.some.inj hscope
    exact WordList.ordered_sortedOnce words
  · exact h other scope hscope

theorem ScopesOrdered.removeScope {l : Level σ} (h : l.ScopesOrdered) (name : String) :
    (l.removeScope name).ScopesOrdered := by
  intro other scope hscope
  rw [scope?_removeScope] at hscope
  split at hscope
  · cases hscope
  · exact h other scope hscope

/-- A new level completes with sorted word lists. -/
theorem scopesOrdered_new [CommandSet σ ω] (commands : σ) (env : Environment)
    (aliases : AliasTable) (depth : Nat) :
    (Level.new commands env aliases depth).ScopesOrdered := by
  have hbare : ({ commands, env, aliases, depth } : Level σ).ScopesOrdered := by
    intro name scope hscope
    simp [scope?] at hscope
  exact (hbare.addScope _ _).addScope _ _

/-- A snapshot tells the same as a level. -/
structure SnapshotAgrees (l : Level σ) (s : Snapshot) : Prop where
  commands_ordered : Ordered s.commands
  /-- the words of the scope of commands, and the aliases -/
  mem_commands : ∀ word, word ∈ s.commands ↔
    (∃ scope, l.scope? commandScope = some scope ∧ word ∈ scope.words) ∨
      (l.aliases.get? word).isSome = true
  vars_ordered : Ordered s.vars
  mem_vars : ∀ name, name ∈ s.vars ↔ (l.env.get? name).isSome = true
  /-- the candidates of the scope for the same start, and none if there is no scope -/
  argumentsFor_eq : ∀ name, name ≠ commandScope → ∀ start,
    s.argumentsFor name start = (l.scope? name).elim [] (·.candidates start)
  argumentsFor_ordered : ∀ name start, Ordered (s.argumentsFor name start)

theorem getD_arguments_snapshot (l : Level σ) (name : String) :
    l.snapshot.arguments.getD name [] =
      if commandScope = name then [] else (l.scope? name).elim [] (·.words) := by
  rw [Std.TreeMap.getD_eq_getD_getElem?, snapshot, Std.TreeMap.getElem?_map,
    Std.TreeMap.getElem?_erase, scope?]
  simp only [Std.LawfulEqCmp.compare_eq_iff_eq]
  split
  · rfl
  · cases l.scopes[name]? with
    | none => rfl
    | some scope => exact scope.candidates_empty

/-- **A snapshot agrees with its level**, if the scopes are in order. -/
theorem snapshotAgrees {l : Level σ} (h : l.ScopesOrdered) : l.SnapshotAgrees l.snapshot where
  commands_ordered := WordList.ordered_sortedOnce _
  mem_commands word := by
    have hscope : word ∈ (l.scope? commandScope).elim [] (·.candidates "") ↔
        ∃ scope, l.scope? commandScope = some scope ∧ word ∈ scope.words := by
      cases l.scope? commandScope with
      | none => simp
      | some scope => simp [scope.candidates_empty]
    rw [snapshot, WordList.mem_sortedOnce, List.mem_append, AliasTable.mem_names, ← hscope, scope?]
  vars_ordered := ordered_keys _
  mem_vars name := Environment.mem_names
  argumentsFor_eq name hname start := by
    rw [Snapshot.argumentsFor, getD_arguments_snapshot, if_neg hname.symm]
    cases l.scope? name <;> rfl
  argumentsFor_ordered name start := by
    refine Ordered.filter ?_ _
    rw [getD_arguments_snapshot]
    split
    · exact .nil
    · cases hscope : l.scope? name with
      | none => exact .nil
      | some scope => exact h name scope hscope

end Level

/-! ## Stacks -/

/-- At every level the words of the scopes are in order. -/
def Stack.ScopesOrdered (stack : Stack σ) : Prop := ∀ level ∈ stack.levels, level.ScopesOrdered

/-- The engine does not reach the scopes, whatever handlers and hooks do. -/
theorem Level.kept_scopesOrdered [CommandSet σ ω] :
    Level.Kept fun level : Level σ => level.ScopesOrdered where
  inherited _ _ _ _ := scopesOrdered_new _ _ _ _
  fresh _ _ _ := scopesOrdered_new _ _ _ _
  others h _ _ := h
  handled h _ _ _ := h

/-! ## Sessions -/

/-- A change of a level from outside: a sorted word list completes under a name, or nothing does any
    more, or the command set, the variables and the aliases are others. -/
inductive Level.Change (σ : Type) where
  | addScope (name : String) (words : List String)
  | removeScope (name : String)
  | assign (commands : σ) (env : Environment) (aliases : AliasTable)

/-- Changes a level from outside. -/
def Level.change (l : Level σ) : Change σ → Level σ
  | .addScope name words => l.addScope name (.ofList words)
  | .removeScope name => l.removeScope name
  | .assign commands env aliases => { l with commands, env, aliases }

theorem Level.ScopesOrdered.change {l : Level σ} (h : l.ScopesOrdered) (c : Change σ) :
    (l.change c).ScopesOrdered := by
  cases c with
  | addScope name words => exact h.addScope name words
  | removeScope name => exact h.removeScope name
  | assign commands env aliases => exact h

/-- An act that leaves the scopes of the active level alone. -/
def Act.KeepsScopes : Act σ ω → Prop
  | .edit .. => False
  | _ => True

namespace Session

variable [CommandSet σ ω]

/-- The active level is changed. -/
def changeLevel (s : Session σ ω) (c : Level.Change σ) : Session σ ω :=
  { s with shell.stack := s.shell.stack.onTop (·.change c) }

/-- The sessions that can be reached when the scopes are those of new levels, and sorted word lists
    that are installed and removed. -/
inductive Scoped : Session σ ω → Prop where
  | start (console : Console) (world : ω) : Scoped { shell := { console, world } }
  | act {s : Session σ ω} (h : Scoped s) {a : Act σ ω} (ha : a.KeepsScopes) : Scoped (s.act a)
  | change {s : Session σ ω} (h : Scoped s) (c : Level.Change σ) : Scoped (s.changeLevel c)

theorem closedUnderInput_scoped :
    ClosedUnderInput fun s t : Session σ ω => s.Scoped → t.Scoped where
  refl _ h := h
  trans hst htu h := htu (hst h)
  queue _ text h := h.act (a := .queue text) trivial
  read _ text pos c h := h.act (a := .read text pos c) trivial
  close _ continuing interactive h := h.act (a := .close continuing interactive) trivial
  onConsole s f h := h.act (a := .outside (f s.shell.console) _ _ _) trivial

/-- A new session. -/
theorem scoped_new (root : σ) (env : Environment) (aliases : AliasTable) (console : Console)
    (world : ω) : (Session.new root env aliases console world).Scoped := by
  have hroot := (Scoped.start (σ := σ) console world).act (a := .pushRoot root env aliases) trivial
  exact hroot.change (.assign root (((Shell.startEnv env (CommandSet.prompt root) true).setDefault
    primaryPrompt defaultPrimary).setDefault secondaryPrompt defaultSecondary) aliases)

/-- **At every level that is reached** the words of the scopes are in order. -/
theorem Scoped.scopesOrdered {s : Session σ ω} (h : s.Scoped) : s.shell.stack.ScopesOrdered := by
  induction h with
  | start => exact fun _ hlevel => absurd hlevel List.not_mem_nil
  | @act s _ a ha ih =>
    refine all_act Level.kept_scopesOrdered ih ?_
    cases a with
    | pushRoot => exact fun _ _ => Level.scopesOrdered_new _ _ _ _
    | edit => exact absurd ha id
    | _ => trivial
  | change _ c ih => exact Stack.All.onTop ih fun _ _ hlevel => hlevel.change c

/-- **Every snapshot agrees with the live level**, after any statements, pushes and pops, and any
    changes of the variables, the aliases and the word lists. -/
theorem scoped_snapshotAgrees {s : Session σ ω} (h : s.Scoped) :
    ∀ level ∈ s.shell.stack.levels, level.SnapshotAgrees level.snapshot :=
  fun level hlevel => Level.snapshotAgrees (h.scopesOrdered level hlevel)

/-- A word list that stays below while a nested level, whose commands are not completed any more, is
    active. -/
theorem nesting_snapshotAgrees :
    let s := ((nesting.changeLevel (.addScope "out" ["2", "10", "2"])).feed "in\n").2.changeLevel
      (.removeScope Level.commandScope)
    s.Scoped ∧
      (s.shell.stack.levels.map fun level => level.snapshot.argumentsFor "out" "") =
        [[], ["10", "2"]] ∧
      (s.shell.stack.top?.map fun level => level.snapshot.commands) = some [] ∧
      ∀ level ∈ s.shell.stack.levels, level.SnapshotAgrees level.snapshot := by
  intro s
  have hnesting : nesting.Scoped := scoped_new ..
  have hadded := hnesting.change (.addScope "out" ["2", "10", "2"])
  have hfed := closedUnderInput_scoped.feed _ "in\n" hadded
  have hs : s.Scoped := hfed.change (.removeScope Level.commandScope)
  exact ⟨hs, by decide +kernel, by decide +kernel, scoped_snapshotAgrees hs⟩

end Session

end NestedShell
