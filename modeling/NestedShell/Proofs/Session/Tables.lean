/-
  The alias tables of levels.

  A level inherits the table of the one below, and changes it by the ways to change a table.  So
  whatever is typed, every level has a table in which every alias has a name and a first word, and
  a statement that starts with a word still starts with one when its aliases are expanded.

  * `AliasTable.Sturdy`: no alias of a table can break an expansion; `Supplied.sturdy`: so it is for
    the tables that can be got;
  * `CommandSet.KeepsTables`: the handlers of a command set change tables only in the ways that
    there are, as those of the playground do;
  * `Session.Stocked`: a session to which only such tables are brought from outside;
    `Stocked.supplied`: then every level has such a table;
  * `Session.Expandable` and `stocked_expandable` put this together.
-/
import NestedShell.Proofs.AliasTable.Edits
import NestedShell.Proofs.Session.EveryLevel

namespace NestedShell

variable {σ ω α : Type}

/-! ## Tables -/

/-- No alias of a table can break an expansion. -/
structure AliasTable.Sturdy (t : AliasTable) : Prop where
  entry : ∀ name words, t.get? name = some words →
    name ≠ "" ∧ ∃ head rest, words = head :: rest ∧ head ≠ ""
  /-- every replacement has a first word to read -/
  reads : ∀ argv, t.expand? argv = some (t.expand argv)
  head : ∀ first args words, first ≠ "" → t.expand (first :: args) = .ok words →
    ∃ head rest, words = head :: rest ∧ head ≠ ""

/-- **A table that can be got** cannot break an expansion. -/
theorem AliasTable.Supplied.sturdy {t : AliasTable} (h : t.Supplied) : t.Sturdy where
  entry _ _ hget := ⟨(h.reached.entry hget).1, h.reached.exists_words hget⟩
  reads argv := expand?_eq h.reached argv
  head _ _ _ hfirst hwords := exists_head_expandFrom h.reached hfirst hwords

/-! ## Command sets -/

/-- A handler that changes its table only in the ways that there are. -/
def Handler.KeepsTables (h : Handler σ ω α) : Prop :=
  ∀ d, d.aliases.Supplied → (h.run.run d).2.aliases.Supplied

theorem Handler.KeepsAliases.keepsTables {h : Handler σ ω α} (hh : h.KeepsAliases) :
    h.KeepsTables := by
  intro d hd
  rw [hh d]
  exact hd

/-- The handlers of a command set change tables only in the ways that there are. -/
structure CommandSet.KeepsTables (σ : Type) {ω : Type} [CommandSet σ ω] : Prop where
  run : ∀ inv, Handler.KeepsTables (CommandSet.run inv : Handler σ ω (Outcome σ))
  unknown : ∀ inv, Handler.KeepsTables (CommandSet.unknown inv : Handler σ ω (Outcome σ))

namespace Playground

open Handler

theorem keepsAliases_sleep (inv : Invocation) :
    KeepsAliases (sleep inv : Handler σ World (Outcome Playground)) := by
  simp only [sleep]
  cases Number.nanoseconds? _ with
  | none => exact keepsAliases_fail _
  | some time =>
    refine keepsAliases_get.bind fun d => ?_
    split
    · exact keepsAliases_pure _
    · refine KeepsAliases.bind ?_ fun _ => keepsAliases_pure _
      exact keepsAliases_modify fun _ => rfl

theorem keepsAliases_perform (p : Playground) (inv : Invocation) :
    KeepsAliases (p.perform inv : Handler σ World (Outcome Playground)) := by
  simp only [perform]
  split
  · exact keepsAliases_pure _
  · exact (keepsAliases_lift _).bind fun _ =>
      (keepsAliases_onConsole _).bind fun _ => keepsAliases_pure _
  · exact keepsAliases_sleep inv
  · exact keepsAliases_fail _
  · exact (keepsAliases_onConsole _).bind fun _ => keepsAliases_pure _
  · exact keepsAliases_fail _

/-- The playground does not change aliases. -/
theorem keepsTables : CommandSet.KeepsTables Playground where
  run inv := (keepsAliases_get.bind fun d => keepsAliases_perform d.commands inv).keepsTables
  unknown inv := (keepsAliases_reportUnknown inv).keepsTables

end Playground

/-! ## Levels -/

/-- The tables that an act brings from outside can be got. -/
def Act.KeepsTables : Act σ ω → Prop
  | .pushRoot _ _ aliases | .edit _ _ aliases _ => aliases.Supplied
  | _ => True

variable [CommandSet σ ω]

/-- The engine keeps the tables, if the handlers of the command sets do. -/
theorem Level.kept_supplied (hσ : CommandSet.KeepsTables σ) :
    Level.Kept fun level : Level σ => level.aliases.Supplied where
  inherited h _ _ _ := h
  fresh _ _ _ := .empty .stop
  others h _ _ := h
  handled {level} h s route inv := by
    cases route with
    | level => exact hσ.run inv (s.desk level) h
    | builtin => exact h.change (.builtin inv (s.desk level) rfl)
    | unknown => exact hσ.unknown inv (s.desk level) h

namespace Session

/-- The sessions that are reached when only tables that can be got are brought from outside. -/
inductive Stocked : Session σ ω → Prop where
  | start (console : Console) (world : ω) : Stocked { shell := { console, world } }
  | act {s : Session σ ω} (h : Stocked s) {a : Act σ ω} (ha : a.KeepsTables) : Stocked (s.act a)

theorem closedUnderInput_stocked :
    ClosedUnderInput fun s t : Session σ ω => s.Stocked → t.Stocked where
  refl _ h := h
  trans hst htu h := htu (hst h)
  queue _ text h := h.act (a := .queue text) trivial
  read _ text pos c h := h.act (a := .read text pos c) trivial
  close _ continuing interactive h := h.act (a := .close continuing interactive) trivial
  onConsole s f h := h.act (a := .outside (f s.shell.console) _ _ _) trivial

/-- A new session. -/
theorem stocked_new (root : σ) (env : Environment) {aliases : AliasTable}
    (h : aliases.Supplied) (console : Console) (world : ω) :
    (Session.new root env aliases console world).Stocked := by
  have hroot := (Stocked.start (σ := σ) console world).act (a := .pushRoot root env aliases) h
  exact hroot.act (a := .edit _ _ _ _) h

/-- **At every level that is reached** the table can be got. -/
theorem Stocked.supplied (hσ : CommandSet.KeepsTables σ) {s : Session σ ω} (h : s.Stocked) :
    s.shell.stack.All fun level => level.aliases.Supplied := by
  induction h with
  | start => exact fun _ hlevel => absurd hlevel List.not_mem_nil
  | @act s _ a ha ih =>
    refine all_act (Level.kept_supplied hσ) ih ?_
    cases a with
    | pushRoot => exact fun _ _ => ha
    | edit => exact fun _ _ => ha
    | _ => trivial

/-- No alias of a session can break what is done for a statement. -/
structure Expandable (s : Session σ ω) : Prop where
  /-- at every level the table can be got, by definitions and removals of any kind -/
  levels : ∀ level ∈ s.shell.stack.levels, level.aliases.Supplied
  tables : ∀ t : AliasTable, t.Supplied → t.Sturdy
  /-- a definition that fails changes nothing -/
  failed : ∀ (t t' : AliasTable) (fault : Fault), t.Route (.error fault) t' → t' = t
  /-- the handler of a statement is that of its first word, which there is -/
  calls : ∀ (argv : Words) (c : Call σ ω), s.shell.call? argv = some c →
    ∃ head rest, c.inv.args.argv = head :: rest ∧ head ≠ "" ∧ c.inv.name = head

/-- **No alias table that is reached can break an expansion**, whatever is defined and removed by
    commands, lines of a startup file, and calls of the operations, and however levels are nested. -/
theorem stocked_expandable (hσ : CommandSet.KeepsTables σ) {s : Session σ ω} (h : s.Stocked) :
    s.Expandable where
  levels := h.supplied hσ
  tables _ ht := ht.sturdy
  failed _ _ _ hroute := hroute.edits.eq_of_error
  calls argv c hcall := by
    obtain ⟨-, level, htop, hrouted⟩ := Shell.routed_of_call hcall
    obtain ⟨first, args, rfl, hfirst⟩ : ∃ first args, argv = first :: args ∧ first ≠ "" := by
      have hnoop : Dispatch.isNoop argv = false := by
        by_contra hnoop
        rw [Bool.not_eq_false] at hnoop
        simp [Shell.call?, htop, Dispatch.plan, hnoop] at hcall
      cases argv with
      | nil => cases hnoop
      | cons first args =>
        exact ⟨first, args, rfl, by simpa using (Bool.or_eq_false_iff.1 hnoop).1⟩
    obtain ⟨head, rest, hwords, hhead⟩ :=
      ((h.supplied hσ).top htop).sturdy.head first args _ hfirst hrouted.words
    exact ⟨head, rest, hwords, hhead, by rw [Invocation.name, Usage.Arguments.name, hwords]; rfl⟩

/-- A startup file with an alias, and with another one without words; the first one starts a level,
    which inherits it. -/
theorem playground_expandable :
    let aliases := (Settings.read "alias go=nest\nalias x=\n" .plain).1.aliases
    let s := ((Session.new Playground.root .empty aliases (.new .plain {} {} {}) {}).feed "go\n").2
    s.Stocked ∧ s.shell.stack.levels.map (·.aliases.names) = [["go"], ["go"]] ∧ s.Expandable := by
  intro aliases s
  have haliases : aliases.Supplied := AliasTable.supplied_read _ _
  have hnew := stocked_new Playground.root .empty haliases (.new .plain {} {} {}) {}
  have hs : s.Stocked := closedUnderInput_stocked.feed _ _ hnew
  exact ⟨hs, by decide +kernel, stocked_expandable Playground.keepsTables hs⟩

end Session

end NestedShell
