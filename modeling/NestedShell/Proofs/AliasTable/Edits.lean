/-
  What can change an alias table.

  A table is changed by its own operations, by the builtins, and by the lines of a startup file.
  Each of them checks a definition before it changes anything; so it defines or removes one alias or
  sets the policy, or it changes nothing.

  * `AliasTable.Edits`: what a change comes to, and whether it fails; `Builtin.edits_run` and
    `Settings.edits_applyLine`: what a builtin and a line come to;
  * `AliasTable.Route` are the ways to change a table, and `AliasTable.Supplied` the tables that are
    got in these ways; `Supplied.reached`: all of them are got by definitions and removals;
  * `AliasTable.expand?` is the expansion that looks up the first word of every replacement, and has
    no result where there is none; `expand?_eq`: that does not happen;
  * `exists_head_expandFrom`: the expansion leaves a first word.
-/
import NestedShell.Proofs.AliasTable.Described
import NestedShell.StartupFile

namespace NestedShell

/-! ## Edits -/

namespace AliasTable

/-- What a change of a table comes to. -/
inductive Edits (t : AliasTable) : Except Fault Unit → AliasTable → Prop where
  /-- nothing is changed -/
  | kept (verdict : Except Fault Unit) : Edits t verdict t
  | defined {t' : AliasTable} {name : String} {words : List String}
      (hset : t.set name words = .ok t') : Edits t (.ok ()) t'
  | erased (name : String) : Edits t (.ok ()) (t.erase name)
  | governed (policy : CyclePolicy) : Edits t (.ok ()) { t with policy }

/-- A change that fails changes nothing. -/
theorem Edits.eq_of_error {t t' : AliasTable} {fault : Fault} (h : t.Edits (.error fault) t') :
    t' = t := by
  cases h
  rfl

/-- The policy makes no difference to the definitions. -/
theorem Reached.withPolicy {t : AliasTable} (h : t.Reached) (policy : CyclePolicy) :
    Reached { t with policy } := by
  induction h with
  | empty => exact .empty policy
  | @set t t' name words _ hset ih =>
    obtain ⟨hname, hwords⟩ := of_set_eq_ok hset
    rw [set_eq_ok hname hwords] at hset
    cases hset
    exact .set ih (set_eq_ok hname hwords _)
  | erase _ name ih => exact .erase ih name

theorem Edits.reached {t t' : AliasTable} {verdict : Except Fault Unit} (h : t.Edits verdict t')
    (ht : t.Reached) : t'.Reached := by
  cases h with
  | kept => exact ht
  | defined hset => exact .set ht hset
  | erased name => exact .erase ht name
  | governed policy => exact ht.withPolicy policy

end AliasTable

/-! ## The builtins -/

namespace Handler

variable {σ ω α β : Type}

/-- A handler that leaves the aliases as they are. -/
def KeepsAliases (h : Handler σ ω α) : Prop := ∀ d, (h.run.run d).2.aliases = d.aliases

/-- A handler that changes the aliases at most by one edit, and by none if it fails. -/
def EditsAliases (h : Handler σ ω α) : Prop :=
  ∀ d : Desk σ ω, d.aliases.Edits ((h.run.run d).1.map fun _ => ()) (h.run.run d).2.aliases

theorem KeepsAliases.edits {h : Handler σ ω α} (hh : KeepsAliases h) : EditsAliases h := by
  intro d
  rw [hh d]
  exact .kept _

theorem keepsAliases_pure (a : α) : KeepsAliases (pure a : Handler σ ω α) := fun _ => rfl

theorem keepsAliases_fail (fault : Fault) : KeepsAliases (fail fault : Handler σ ω α) :=
  fun _ => rfl

theorem keepsAliases_lift (x : Except Fault α) : KeepsAliases (liftM x : Handler σ ω α) := by
  cases x <;> exact fun _ => rfl

theorem keepsAliases_get : KeepsAliases (get : Handler σ ω (Desk σ ω)) := fun _ => rfl

theorem keepsAliases_modify {f : Desk σ ω → Desk σ ω} (hf : ∀ d, (f d).aliases = d.aliases) :
    KeepsAliases (modify f : Handler σ ω Unit) := hf

theorem KeepsAliases.bind {h : Handler σ ω α} {f : α → Handler σ ω β} (hh : KeepsAliases h)
    (hf : ∀ a, KeepsAliases (f a)) : KeepsAliases (h >>= f) := by
  intro d
  have hd := hh d
  rw [ExceptT.run_bind, StateT.run_bind]
  rcases hrun : h.run.run d with ⟨fault | a, d'⟩
  · rw [hrun] at hd
    exact hd
  · rw [hrun] at hd
    exact (hf a d').trans hd

/-- What comes after a look at the desk. -/
theorem run_get_bind (f : Desk σ ω → Handler σ ω β) (d : Desk σ ω) :
    (get >>= f).run.run d = (f d).run.run d := rfl

/-- What comes after a computation that succeeds. -/
theorem run_lift_bind (a : α) (f : α → Handler σ ω β) (d : Desk σ ω) :
    (liftM (Except.ok a : Except Fault α) >>= f).run.run d = (f a).run.run d := rfl

theorem keepsAliases_onConsole (f : Console → Console) :
    KeepsAliases (onConsole f : Handler σ ω Unit) := keepsAliases_modify fun _ => rfl

theorem keepsAliases_printf (template : String) :
    KeepsAliases (printf template : Handler σ ω Unit) := keepsAliases_modify fun _ => rfl

theorem keepsAliases_printDoc (doc : String) :
    KeepsAliases (printDoc doc : Handler σ ω Unit) := keepsAliases_modify fun _ => rfl

theorem keepsAliases_onEnv (f : Environment → Environment) :
    KeepsAliases (onEnv f : Handler σ ω Unit) := keepsAliases_modify fun _ => rfl

theorem keepsAliases_reportUnknown (inv : Invocation) :
    KeepsAliases (reportUnknown inv : Handler σ ω (Outcome σ)) := by
  simp only [reportUnknown]
  cases inv.suggestion? <;>
    exact (keepsAliases_onConsole _).bind fun _ => keepsAliases_pure _

end Handler

namespace Builtin

open Handler

variable {σ ω : Type}

theorem keepsAliases_explain (inv : Invocation) (names : List String) :
    KeepsAliases (explain inv names : Handler σ ω Bool) := by
  induction names with
  | nil => exact keepsAliases_pure _
  | cons name names ih =>
    rw [explain]
    cases inv.find? name with
    | some info => exact (keepsAliases_printDoc _).bind fun _ => ih
    | none =>
      exact (keepsAliases_onConsole _).bind fun _ => ih.bind fun _ => keepsAliases_pure _

theorem keepsAliases_showHelp (inv : Invocation) :
    KeepsAliases (showHelp inv : Handler σ ω (Outcome σ)) := by
  simp only [showHelp]
  split
  · exact (keepsAliases_onConsole _).bind fun _ => keepsAliases_pure _
  · exact (keepsAliases_explain inv _).bind fun _ => keepsAliases_pure _

theorem keepsAliases_printAll (lines : List String) :
    KeepsAliases (printAll lines : Handler σ ω Unit) := by
  induction lines with
  | nil => exact keepsAliases_pure _
  | cons line lines ih =>
    rw [printAll]
    exact (keepsAliases_onConsole _).bind fun _ => ih

theorem keepsAliases_showVariable (name : String) :
    KeepsAliases (showVariable name : Handler σ ω (Outcome σ)) := by
  simp only [showVariable]
  refine keepsAliases_get.bind fun d => ?_
  cases d.env.get? name with
  | some value => exact (keepsAliases_onConsole _).bind fun _ => keepsAliases_pure _
  | none => exact keepsAliases_pure _

theorem keepsAliases_editVariables (inv : Invocation) :
    KeepsAliases (editVariables inv : Handler σ ω (Outcome σ)) := by
  simp only [editVariables]
  cases inv.args.get? "<name>" with
  | none =>
    exact keepsAliases_get.bind fun _ =>
      (keepsAliases_printAll _).bind fun _ => keepsAliases_pure _
  | some name =>
    dsimp only
    split
    · exact keepsAliases_showVariable name
    · exact (keepsAliases_onEnv _).bind fun _ => keepsAliases_pure _

theorem keepsAliases_printVariables (inv : Invocation) :
    KeepsAliases (printVariables inv : Handler σ ω (Outcome σ)) := by
  simp only [printVariables]
  cases inv.args.get? "<name>" with
  | some name => exact keepsAliases_showVariable name
  | none =>
    exact keepsAliases_get.bind fun _ =>
      (keepsAliases_printAll _).bind fun _ => keepsAliases_pure _

/-- A definition that fails, when its value is split or when it is checked, changes nothing. -/
theorem edits_editAliases (inv : Invocation) :
    EditsAliases (editAliases inv : Handler σ ω (Outcome σ)) := by
  intro d
  simp only [editAliases]
  rw [run_get_bind]
  split
  · exact ((keepsAliases_printAll _).bind fun _ => keepsAliases_pure _).edits d
  · rcases definition? (inv.args.list "<definition>") with fault | _ | ⟨name, words⟩
    · exact .kept _
    · rw [run_lift_bind]
      dsimp only
      split
      · cases d.aliases.describe? _ <;>
          exact ((keepsAliases_onConsole _).bind fun _ => keepsAliases_pure _).edits d
      · exact (keepsAliases_fail _).edits d
    · rw [run_lift_bind]
      dsimp only
      rcases hset : d.aliases.set name words with fault | aliases
      · exact .kept _
      · exact .defined hset

theorem edits_removeAlias (inv : Invocation) :
    EditsAliases (removeAlias inv : Handler σ ω (Outcome σ)) := by
  intro d
  simp only [removeAlias]
  rw [run_get_bind]
  split
  · exact .erased _
  · exact ((keepsAliases_onConsole _).bind fun _ => keepsAliases_pure _).edits d

/-- **A builtin** changes the aliases at most by one edit, and by none if it fails. -/
theorem edits_run (inv : Invocation) : EditsAliases (run inv : Handler σ ω (Outcome σ)) := by
  simp only [run]
  split
  · exact (keepsAliases_showHelp inv).edits
  · exact edits_editAliases inv
  · exact edits_removeAlias inv
  · exact (keepsAliases_pure _).edits
  · exact (keepsAliases_editVariables inv).edits
  · exact ((keepsAliases_onEnv _).bind fun _ => keepsAliases_pure _).edits
  · exact (keepsAliases_printVariables inv).edits
  · exact ((keepsAliases_printf _).bind fun _ => keepsAliases_pure _).edits
  · exact (keepsAliases_fail _).edits

end Builtin

/-! ## The lines of a startup file -/

namespace Settings

theorem edits_defineAlias (s : Settings) (definition : String) :
    s.aliases.Edits (s.defineAlias definition).1 (s.defineAlias definition).2.aliases := by
  rw [defineAlias]
  rcases Text.cutAt '=' definition with _ | ⟨name, value⟩
  · exact .kept _
  · dsimp only
    split
    · exact .kept _
    · rcases Statement.words? (unquote (Text.trim value)) with fault | words
      · exact .kept _
      · dsimp only
        rcases hset : s.aliases.set (Text.trim name) words with fault | aliases
        · exact .kept _
        · exact .defined hset

theorem edits_assign (s : Settings) (key value : String) :
    s.aliases.Edits (s.assign key value).1 (s.assign key value).2.aliases := by
  rw [assign]
  cases Text.strip? colorKey key with
  | some slot => cases h : setColor s.theme slot value <;> simp only [h] <;> exact .kept _
  | none =>
    dsimp only
    split
    · cases h : CyclePolicy.ofName? value with
      | error fault => exact .kept _
      | ok policy => exact .governed policy
    · split <;> exact .kept _

/-- **A line** changes the aliases at most by one edit, and by none if it is rejected. -/
theorem edits_applyLine (s : Settings) (line : String) :
    s.aliases.Edits (s.applyLine line).1 (s.applyLine line).2.aliases := by
  rw [applyLine]
  split
  · exact .kept _
  · rw [applyDirective]
    cases Text.strip? "alias " (Text.trim line) with
    | some definition => exact s.edits_defineAlias definition
    | none =>
      rcases Text.cutAt '=' ((Text.strip? "export " (Text.trim line)).getD (Text.trim line)) with
        _ | ⟨key, value⟩
      · exact .kept _
      · dsimp only
        exact s.edits_assign _ _

end Settings

/-! ## Tables that can be got -/

namespace AliasTable

/-- The ways to change a table, and whether they fail. -/
inductive Route (t : AliasTable) : Except Fault Unit → AliasTable → Prop where
  | set {t' : AliasTable} {name : String} {words : List String}
      (hset : t.set name words = .ok t') : Route t (.ok ()) t'
  | erase (name : String) : Route t (.ok ()) (t.erase name)
  | policy (policy : CyclePolicy) : Route t (.ok ()) { t with policy }
  /-- a builtin is called at a level with this table -/
  | builtin {σ ω : Type} (inv : Invocation) (d : Desk σ ω) (hdesk : d.aliases = t) :
      Route t (((Builtin.run inv).run.run d).1.map fun _ => ())
        ((Builtin.run inv).run.run d).2.aliases
  /-- a line is applied to settings with this table -/
  | line (s : Settings) (line : String) (hsettings : s.aliases = t) :
      Route t (s.applyLine line).1 (s.applyLine line).2.aliases

/-- **Every way to change a table** comes down to an edit. -/
theorem Route.edits {t t' : AliasTable} {verdict : Except Fault Unit} (h : t.Route verdict t') :
    t.Edits verdict t' := by
  cases h with
  | set hset => exact .defined hset
  | erase name => exact .erased name
  | policy policy => exact .governed policy
  | builtin inv d hdesk =>
    subst hdesk
    exact Builtin.edits_run inv d
  | line s line hsettings =>
    subst hsettings
    exact s.edits_applyLine line

/-- The tables that are got from an empty one in these ways. -/
inductive Supplied : AliasTable → Prop where
  | empty (policy : CyclePolicy) : Supplied { policy }
  | change {t t' : AliasTable} {verdict : Except Fault Unit} (h : Supplied t)
      (hroute : t.Route verdict t') : Supplied t'

/-- **All of them** are got by definitions and removals. -/
theorem Supplied.reached {t : AliasTable} (h : t.Supplied) : t.Reached := by
  induction h with
  | empty policy => exact .empty policy
  | change _ hroute ih => exact hroute.edits.reached ih

theorem supplied_applyLines {s : Settings} (h : s.aliases.Supplied) (number : Nat)
    (lines : List String) : (Settings.applyLines number s lines).1.aliases.Supplied := by
  induction lines generalizing number s with
  | nil => exact h
  | cons line lines ih =>
    have hrest := ih (h.change (.line s line rfl)) (number + 1)
    rw [Settings.applyLines]
    generalize s.applyLine line = result at hrest ⊢
    rcases result with ⟨_ | _, s'⟩ <;> exact hrest

/-- **A startup file** is a way to get a table. -/
theorem supplied_read (content : String) (theme : Theme) :
    (Settings.read content theme).1.aliases.Supplied :=
  supplied_applyLines (.empty .stop) 1 (Text.lines content)

/-! ## Expansions -/

/-- Replaces the first word of a statement.  There is no result if the replacement of a name has no
    first word to read. -/
def expandFrom? (t : AliasTable) : Nat → List String → List String →
    Option (Except Fault (List String))
  | 0, _, argv => some (.ok argv)
  | rounds + 1, seen, argv =>
    match argv with
    | [] => some (.ok [])
    | name :: args =>
      match t.get? name with
      | none => some (.ok (name :: args))
      | some words =>
        words[0]?.bind fun head =>
          if head ∈ seen then
            if t.policy = .reject ∧ head ≠ name then some (.error ⟨.aliasLoop seen.reverse, none⟩)
            else some (.ok (name :: args))
          else t.expandFrom? rounds (head :: seen) (words ++ args)

/-- The expansion of a statement, with the bound of `expand`. -/
def expand? (t : AliasTable) (argv : List String) : Option (Except Fault (List String)) :=
  t.expandFrom? (t.entries.size + 1) [] argv

theorem Reached.exists_words {t : AliasTable} (h : t.Reached) {name : String} {words : List String}
    (hget : t.get? name = some words) : ∃ head rest, words = head :: rest ∧ head ≠ "" := by
  have hhead := (h.entry hget).2
  cases words with
  | nil => exact absurd rfl hhead
  | cons head rest => exact ⟨head, rest, rfl, hhead⟩

theorem expandFrom?_eq {t : AliasTable} (h : t.Reached) (rounds : Nat) (seen argv : List String) :
    t.expandFrom? rounds seen argv = some (t.expandFrom rounds seen argv) := by
  induction rounds generalizing seen argv with
  | zero => rfl
  | succ rounds ih =>
    rcases argv with _ | ⟨name, args⟩
    · rfl
    · rw [expandFrom?, expandFrom]
      cases hget : t.get? name with
      | none => rfl
      | some words =>
        obtain ⟨head, rest, rfl, -⟩ := h.exists_words hget
        simp only [List.getElem?_cons_zero, Option.bind_some, List.headD_cons, ih]
        by_cases hseen : head ∈ seen
        · simp only [hseen, if_true]
          exact (apply_ite some _ _ _).symm
        · simp only [hseen, if_false]

/-- **Every replacement has a first word** when the expansion reads it. -/
theorem expand?_eq {t : AliasTable} (h : t.Reached) (argv : List String) :
    t.expand? argv = some (t.expand argv) :=
  expandFrom?_eq h _ _ _

/-- A table that cannot be got: there is nothing to read. -/
example : (({ entries := (∅ : Std.TreeMap _ _).insert "x" [] } : AliasTable).expand? ["x"]).isNone =
    true := by
  decide +kernel

/-- **The expansion leaves a first word** that is not empty, if there was one. -/
theorem exists_head_expandFrom {t : AliasTable} (h : t.Reached) {rounds : Nat}
    {seen args words : List String} {first : String} (hfirst : first ≠ "")
    (hwords : t.expandFrom rounds seen (first :: args) = .ok words) :
    ∃ head rest, words = head :: rest ∧ head ≠ "" := by
  induction rounds generalizing seen first args with
  | zero =>
    cases hwords
    exact ⟨first, args, rfl, hfirst⟩
  | succ rounds ih =>
    rw [expandFrom] at hwords
    cases hget : t.get? first with
    | none =>
      simp only [hget] at hwords
      cases hwords
      exact ⟨first, args, rfl, hfirst⟩
    | some replacement =>
      obtain ⟨head, rest, rfl, hhead⟩ := h.exists_words hget
      simp only [hget] at hwords
      split at hwords
      · split at hwords
        · cases hwords
        · cases hwords
          exact ⟨first, args, rfl, hfirst⟩
      · exact ih hhead hwords

end AliasTable

end NestedShell
