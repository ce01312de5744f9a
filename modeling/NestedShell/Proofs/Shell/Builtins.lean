/-
  What the commands that every level has do, whatever runs at the level.

  These handlers work on the variables, the aliases and the console; they neither look at the command
  set of their level or at the world, nor change them, and they enter no level.

  * `Desk.Alike`: two desks that may differ in the command set and the world, of any kinds;
  * `Handler.Alike`: two handlers that do the same on such desks, with answers that are related;
    programs that are put together from such handlers are such handlers;
  * `Builtin.alike_run`: the handlers of the commands that every level has are.
-/
import NestedShell.Builtins

namespace NestedShell

variable {σ τ ω χ : Type}

/-! ## Desks and handlers that are alike -/

/-- The desks differ at most in the command set and the world. -/
structure Desk.Alike (d : Desk σ ω) (d' : Desk τ χ) : Prop where
  env : d'.env = d.env
  aliases : d'.aliases = d.aliases
  console : d'.console = d.console
  interrupted : d'.interrupted = d.interrupted

/-- A desk has the command set and the world of another one. -/
structure Desk.Keeps (d e : Desk σ ω) : Prop where
  commands : e.commands = d.commands
  world : e.world = d.world

theorem Desk.Keeps.trans {d e e' : Desk σ ω} (h : d.Keeps e) (h' : e.Keeps e') : d.Keeps e' :=
  ⟨h'.commands.trans h.commands, h'.world.trans h.world⟩

/-- The same outcome, which enters no level. -/
inductive Outcome.Alike : Outcome σ → Outcome τ → Prop where
  | stay (result : Option Value) : Alike (.stay result) (.stay result)
  | leave (value : Option Value) : Alike (.leave value) (.leave value)

/-- Related answers, or the same fault. -/
inductive Answers {α β : Type} (r : α → β → Prop) : Except Fault α → Except Fault β → Prop where
  | ok {a : α} {b : β} (h : r a b) : Answers r (.ok a) (.ok b)
  | error (fault : Fault) : Answers r (.error fault) (.error fault)

namespace Handler

/-- What two handlers do on desks that are alike. -/
structure AlikeAt {α β : Type} (r : α → β → Prop) (d : Desk σ ω) (d' : Desk τ χ)
    (p : Except Fault α × Desk σ ω) (p' : Except Fault β × Desk τ χ) : Prop where
  answers : Answers r p.1 p'.1
  alike : p.2.Alike p'.2
  keeps : d.Keeps p.2
  keeps' : d'.Keeps p'.2

/-- Two handlers do the same on desks that are alike, and leave the command set and the world as
    they are. -/
def Alike {α β : Type} (r : α → β → Prop) (h : Handler σ ω α) (h' : Handler τ χ β) : Prop :=
  ∀ d d', d.Alike d' → AlikeAt r d d' (h.run.run d) (h'.run.run d')

section
variable {α β γ δ : Type} {r : α → β → Prop} {q : γ → δ → Prop}

theorem alike_pure {a : α} {b : β} (h : r a b) :
    Alike r (pure a : Handler σ ω α) (pure b : Handler τ χ β) :=
  fun _ _ hd => ⟨.ok h, hd, ⟨rfl, rfl⟩, ⟨rfl, rfl⟩⟩

theorem alike_fail (fault : Fault) :
    Alike r (fail fault : Handler σ ω α) (fail fault : Handler τ χ β) :=
  fun _ _ hd => ⟨.error fault, hd, ⟨rfl, rfl⟩, ⟨rfl, rfl⟩⟩

theorem alike_lift (x : Except Fault α) :
    Alike Eq (liftM x : Handler σ ω α) (liftM x : Handler τ χ α) := by
  intro d d' hd
  cases x with
  | ok a => exact ⟨.ok rfl, hd, ⟨rfl, rfl⟩, ⟨rfl, rfl⟩⟩
  | error fault => exact ⟨.error fault, hd, ⟨rfl, rfl⟩, ⟨rfl, rfl⟩⟩

theorem alike_get :
    Alike Desk.Alike (get : Handler σ ω (Desk σ ω)) (get : Handler τ χ (Desk τ χ)) :=
  fun _ _ hd => ⟨.ok hd, hd, ⟨rfl, rfl⟩, ⟨rfl, rfl⟩⟩

theorem alike_modify {f : Desk σ ω → Desk σ ω} {f' : Desk τ χ → Desk τ χ}
    (h : ∀ d d', d.Alike d' → (f d).Alike (f' d')) (hf : ∀ d, Desk.Keeps d (f d))
    (hf' : ∀ d, Desk.Keeps d (f' d)) :
    Alike Eq (modify f : Handler σ ω Unit) (modify f' : Handler τ χ Unit) :=
  fun d d' hd => ⟨.ok rfl, h d d' hd, hf d, hf' d'⟩

/-- **One handler after another.** -/
theorem Alike.bind {h : Handler σ ω α} {h' : Handler τ χ β} {f : α → Handler σ ω γ}
    {f' : β → Handler τ χ δ} (hh : Alike r h h') (hf : ∀ a b, r a b → Alike q (f a) (f' b)) :
    Alike q (h >>= f) (h' >>= f') := by
  intro d d' hd
  obtain ⟨hanswers, halike, hkeeps, hkeeps'⟩ := hh d d' hd
  rcases hrun : h.run.run d with ⟨answer, e⟩
  rcases hrun' : h'.run.run d' with ⟨answer', e'⟩
  rw [hrun] at hanswers halike hkeeps
  rw [hrun'] at hanswers halike hkeeps'
  simp only [ExceptT.run_bind, StateT.run_bind, hrun, hrun']
  cases hanswers with
  | error fault => exact ⟨.error fault, halike, hkeeps, hkeeps'⟩
  | @ok a b hab =>
    obtain ⟨hanswers, halike, hkept, hkept'⟩ := hf a b hab e e' halike
    exact ⟨hanswers, halike, hkeeps.trans hkept, hkeeps'.trans hkept'⟩

end

/-! ## Small handlers -/

theorem alike_onConsole (f : Console → Console) :
    Alike Eq (onConsole f : Handler σ ω Unit) (onConsole f : Handler τ χ Unit) :=
  alike_modify (fun _ _ hd => ⟨hd.env, hd.aliases, congrArg f hd.console, hd.interrupted⟩)
    (fun _ => ⟨rfl, rfl⟩) (fun _ => ⟨rfl, rfl⟩)

theorem alike_onEnv (f : Environment → Environment) :
    Alike Eq (onEnv f : Handler σ ω Unit) (onEnv f : Handler τ χ Unit) :=
  alike_modify (fun _ _ hd => ⟨congrArg f hd.env, hd.aliases, hd.console, hd.interrupted⟩)
    (fun _ => ⟨rfl, rfl⟩) (fun _ => ⟨rfl, rfl⟩)

theorem alike_printf (template : String) :
    Alike Eq (printf template : Handler σ ω Unit) (printf template : Handler τ χ Unit) :=
  alike_modify
    (fun _ _ hd => ⟨hd.env, hd.aliases, by rw [hd.console, hd.env], hd.interrupted⟩)
    (fun _ => ⟨rfl, rfl⟩) (fun _ => ⟨rfl, rfl⟩)

theorem alike_printDoc (doc : String) :
    Alike Eq (printDoc doc : Handler σ ω Unit) (printDoc doc : Handler τ χ Unit) :=
  alike_modify
    (fun _ _ hd => ⟨hd.env, hd.aliases, by rw [hd.console, hd.env], hd.interrupted⟩)
    (fun _ => ⟨rfl, rfl⟩) (fun _ => ⟨rfl, rfl⟩)

theorem alike_setAliases (f : AliasTable → AliasTable) :
    Alike Eq (modify fun d => { d with aliases := f d.aliases } : Handler σ ω Unit)
      (modify fun d => { d with aliases := f d.aliases } : Handler τ χ Unit) :=
  alike_modify (fun _ _ hd => ⟨hd.env, congrArg f hd.aliases, hd.console, hd.interrupted⟩)
    (fun _ => ⟨rfl, rfl⟩) (fun _ => ⟨rfl, rfl⟩)

end Handler

/-! ## The commands that every level has -/

namespace Builtin

open Handler

/-- A handler that does the same at every level. -/
abbrev Everywhere (h : ∀ {σ ω : Type}, Handler σ ω (Outcome σ)) (σ τ ω χ : Type) : Prop :=
  Alike Outcome.Alike (h : Handler σ ω (Outcome σ)) (h : Handler τ χ (Outcome τ))

theorem alike_done : Everywhere (pure .done) σ τ ω χ := alike_pure (.stay none)

theorem alike_ofStatus (status : Int64) : Everywhere (pure (.ofStatus status)) σ τ ω χ :=
  alike_pure (.stay _)

theorem alike_explain (inv : Invocation) (names : List String) :
    Alike Eq (explain inv names : Handler σ ω Bool) (explain inv names : Handler τ χ Bool) := by
  induction names with
  | nil => exact alike_pure rfl
  | cons name names ih =>
    rw [explain, explain]
    cases inv.find? name with
    | some info => exact (alike_printDoc _).bind fun _ _ _ => ih
    | none => exact (alike_onConsole _).bind fun _ _ _ => ih.bind fun _ _ _ => alike_pure rfl

theorem alike_showHelp (inv : Invocation) : Everywhere (showHelp inv) σ τ ω χ := by
  simp only [showHelp]
  split
  · exact (alike_onConsole _).bind fun _ _ _ => alike_done
  · refine (alike_explain inv _).bind fun failed _ hfailed => ?_
    subst hfailed
    exact alike_ofStatus _

theorem alike_printAll (lines : List String) :
    Alike Eq (printAll lines : Handler σ ω Unit) (printAll lines : Handler τ χ Unit) := by
  induction lines with
  | nil => exact alike_pure rfl
  | cons line lines ih =>
    rw [printAll, printAll]
    exact (alike_onConsole _).bind fun _ _ _ => ih

theorem alike_editAliases (inv : Invocation) : Everywhere (editAliases inv) σ τ ω χ := by
  simp only [Everywhere, editAliases]
  refine alike_get.bind fun d d' hd => ?_
  rw [hd.aliases]
  split
  · exact (alike_printAll _).bind fun _ _ _ => alike_done
  · refine (alike_lift _).bind fun definition _ heq => ?_
    subst heq
    cases definition with
    | some p =>
      refine (alike_lift _).bind fun aliases _ heq => ?_
      subst heq
      exact (alike_setAliases fun _ => aliases).bind fun _ _ _ => alike_done
    | none =>
      dsimp only
      split
      · cases d.aliases.describe? _ with
        | some line => exact (alike_onConsole _).bind fun _ _ _ => alike_done
        | none => exact (alike_onConsole _).bind fun _ _ _ => alike_ofStatus _
      · exact alike_fail _

theorem alike_removeAlias (inv : Invocation) : Everywhere (removeAlias inv) σ τ ω χ := by
  simp only [Everywhere, removeAlias]
  refine alike_get.bind fun d d' hd => ?_
  rw [hd.aliases]
  split
  · exact (alike_setAliases fun _ => _).bind fun _ _ _ => alike_done
  · exact (alike_onConsole _).bind fun _ _ _ => alike_ofStatus _

theorem alike_showVariable (name : String) : Everywhere (showVariable name) σ τ ω χ := by
  simp only [Everywhere, showVariable]
  refine alike_get.bind fun d d' hd => ?_
  rw [hd.env]
  cases d.env.get? name with
  | some value => exact (alike_onConsole _).bind fun _ _ _ => alike_done
  | none => exact alike_ofStatus _

theorem alike_editVariables (inv : Invocation) : Everywhere (editVariables inv) σ τ ω χ := by
  simp only [Everywhere, editVariables]
  cases inv.args.get? "<name>" with
  | none =>
    refine alike_get.bind fun d d' hd => ?_
    rw [hd.env]
    exact (alike_printAll _).bind fun _ _ _ => alike_done
  | some name =>
    dsimp only
    split
    · exact alike_showVariable name
    · exact (alike_onEnv _).bind fun _ _ _ => alike_done

theorem alike_printVariables (inv : Invocation) : Everywhere (printVariables inv) σ τ ω χ := by
  simp only [Everywhere, printVariables]
  cases inv.args.get? "<name>" with
  | some name => exact alike_showVariable name
  | none =>
    refine alike_get.bind fun d d' hd => ?_
    rw [hd.env]
    exact (alike_printAll _).bind fun _ _ _ => alike_done

/-- **The commands that every level has** do the same at every level. -/
theorem alike_run (inv : Invocation) : Everywhere (run inv) σ τ ω χ := by
  simp only [Everywhere, run]
  split
  · exact alike_showHelp inv
  · exact alike_editAliases inv
  · exact alike_removeAlias inv
  · exact alike_pure (.leave _)
  · exact alike_editVariables inv
  · exact (alike_onEnv _).bind fun _ _ _ => alike_done
  · exact alike_printVariables inv
  · exact (alike_printf _).bind fun _ _ _ => alike_done
  · exact alike_fail _

end Builtin

end NestedShell
