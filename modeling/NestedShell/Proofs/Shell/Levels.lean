/-
  What a statement does to the levels.

  A handler works on the active level.  A level is entered or left only after the handler has
  answered, so a statement changes what the active level holds, and then adds one level or removes
  one.

  * `OnlyTop`: two lists of levels differ at most in what the active one holds;
  * `Level.Inherits`: what a new level gets from the one below, `levels_push`: a pushed level does;
  * `Level.resumed`: what a level becomes when the one above is left, `pop_nested`: by a pop;
  * `Shell.reply?` is the answer of the handler that a statement calls, `Shell.Dispatched` and
    `dispatched` tell what dispatching comes down to;
  * `Shell.departure?` is the value with which a statement leaves the active level; when there is
    none, `dispatch_noneLeft`: no level is left;
  * `Dispatch.Counts`, `dispatch_counts`: what is reported is the new number of levels.
-/
import NestedShell.Dispatch

namespace NestedShell

variable {σ ω : Type}

/-! ## The active level -/

/-- The levels are the same, except for what the active one holds. -/
def OnlyTop (ls ls' : List (Level σ)) : Prop :=
  ∃ f : Level σ → Level σ, (∀ l, (f l).depth = l.depth) ∧ ls' = ls.modifyHead f

namespace OnlyTop

theorem refl (ls : List (Level σ)) : OnlyTop ls ls :=
  ⟨id, fun _ => rfl, List.modifyHead_id.symm ▸ rfl⟩

theorem trans {ls ls' ls'' : List (Level σ)} (h : OnlyTop ls ls') (h' : OnlyTop ls' ls'') :
    OnlyTop ls ls'' := by
  obtain ⟨f, hf, rfl⟩ := h
  obtain ⟨g, hg, rfl⟩ := h'
  refine ⟨g ∘ f, fun l => ?_, ?_⟩
  · rw [Function.comp_apply, hg, hf]
  · rw [List.modifyHead_modifyHead]

theorem length_eq {ls ls' : List (Level σ)} (h : OnlyTop ls ls') : ls'.length = ls.length := by
  obtain ⟨f, -, rfl⟩ := h
  exact List.length_modifyHead

theorem eq_cons {l : Level σ} {below ls' : List (Level σ)} (h : OnlyTop (l :: below) ls') :
    ∃ l' : Level σ, l'.depth = l.depth ∧ ls' = l' :: below := by
  obtain ⟨f, hf, rfl⟩ := h
  exact ⟨f l, hf l, rfl⟩

theorem onTop (stack : Stack σ) {f : Level σ → Level σ} (hf : ∀ l, (f l).depth = l.depth) :
    OnlyTop stack.levels (stack.onTop f).levels :=
  ⟨f, hf, rfl⟩

end OnlyTop

/-- No level is left: at most one is entered, on top of what has become of the active one. -/
inductive NoneLeft (ls : List (Level σ)) : List (Level σ) → Prop where
  | changed {ls' : List (Level σ)} (h : OnlyTop ls ls') : NoneLeft ls ls'
  | entered {ls' : List (Level σ)} (h : OnlyTop ls ls') {child : Level σ}
      (hdepth : child.depth = ls'.length + 1) : NoneLeft ls (child :: ls')

theorem NoneLeft.of_onlyTop {ls ls' ls'' : List (Level σ)} (h : OnlyTop ls ls')
    (hleft : NoneLeft ls' ls'') : NoneLeft ls ls'' := by
  cases hleft with
  | changed htop => exact .changed (h.trans htop)
  | entered htop hdepth => exact .entered (h.trans htop) hdepth

theorem Stack.exists_levels {stack : Stack σ} {level : Level σ} (h : stack.top? = some level) :
    ∃ below, stack.levels = level :: below :=
  List.head?_eq_some_iff.1 h

/-! ## Entering -/

/-- What a level that runs a command set gets from the level below. -/
structure Level.Inherits [CommandSet σ ω] (child parent : Level σ) (set : σ) : Prop where
  commands : child.commands = set
  aliases : child.aliases = parent.aliases
  /-- one more than the integer that the parent has there, or than zero when it has none, as far as
      64 bits allow -/
  number : child.env.get? "SHLVL" = some (Number.showInteger (min
    (((parent.env.get? "SHLVL").bind fun text => Number.int64? (Text.trim text)).elim 0 Int64.toInt
      + 1) 9223372036854775807))
  /-- the prompt of the command set replaces the one that is there -/
  prompt : child.env.get? "PS1" = (CommandSet.prompt set).or (parent.env.get? "PS1")
  others : ∀ name, name ≠ "SHLVL" → name ≠ "PS1" → child.env.get? name = parent.env.get? name

namespace Shell

/-- The number of a new level saturates. -/
theorem toInt_nextLevel (env : Environment) :
    (nextLevel env).toInt = min (env.shellLevel.toInt + 1) 9223372036854775807 := by
  have hmax : Int64.maxValue.toInt = 9223372036854775807 := Int64.toInt_maxValue
  have hlt := Int64.toInt_lt env.shellLevel
  have hle := Int64.le_toInt env.shellLevel
  rw [nextLevel]
  split
  · rename_i h
    rw [h]
    omega
  · rename_i h
    have hne : env.shellLevel.toInt ≠ Int64.maxValue.toInt := fun heq => h (Int64.toInt_inj.1 heq)
    rw [Int64.toInt_add, Int64.toInt_one, Int.bmod_eq_of_le (by omega) (by omega)]
    omega

/-- The number of a new level as it is written, told by the text that is there. -/
theorem showInt64_nextLevel (env : Environment) :
    Number.showInt64 (nextLevel env) = Number.showInteger (min
      (((env.get? "SHLVL").bind fun text => Number.int64? (Text.trim text)).elim 0 Int64.toInt + 1)
      9223372036854775807) := by
  rw [Number.showInt64, toInt_nextLevel, Environment.shellLevel, Environment.int?, levelVariable]
  cases (env.get? "SHLVL").bind fun text => Number.int64? (Text.trim text) <;> rfl

example : ["three", " 3 ", "9223372036854775807"].map
    (fun text => Number.showInt64 (nextLevel (Environment.empty.set "SHLVL" text))) =
      ["1", "4", "9223372036854775807"] := by decide +kernel

/-- What a level above another one starts with. -/
theorem get?_startEnv (env : Environment) (prompt : Option String) (name : String) :
    (startEnv env prompt false).get? name =
      if name = "PS1" then prompt.or (env.get? "PS1")
      else if name = "SHLVL" then some (Number.showInt64 (nextLevel env))
      else env.get? name := by
  simp only [startEnv, levelVariable, primaryPrompt]
  by_cases hprompt : name = "PS1"
  · subst hprompt
    cases prompt <;> simp [Environment.get?_set]
  · rw [if_neg hprompt]
    cases prompt <;> simp [Environment.get?_set, Ne.symm hprompt, eq_comm]

variable [CommandSet σ ω]

/-- **A pushed level** inherits from the active one, which stays as it is. -/
theorem levels_push {s : Shell σ ω} {parent : Level σ} {below : List (Level σ)}
    (h : s.stack.levels = parent :: below) (commands : σ) :
    ∃ child : Level σ, (s.push commands).stack.levels = child :: parent :: below ∧
      child.depth = s.nextDepth ∧ child.Inherits parent commands := by
  have htop : s.stack.top? = some parent := by rw [Stack.top?, h, List.head?_cons]
  have hget (name : String) := get?_startEnv parent.env (CommandSet.prompt commands) name
  refine ⟨Level.new commands (startEnv parent.env (CommandSet.prompt commands) false)
    parent.aliases s.nextDepth, ?_, rfl, ⟨rfl, rfl, ?_, ?_, fun name hnumber hprompt => ?_⟩⟩
  · rw [push, htop, ← h]
    rfl
  · rw [← showInt64_nextLevel]
    exact hget "SHLVL"
  · exact hget "PS1"
  · exact (hget name).trans (by rw [if_neg hprompt, if_neg hnumber])

theorem noneLeft_push (s : Shell σ ω) (commands : σ) :
    NoneLeft s.stack.levels (s.push commands).stack.levels := by
  rw [push]
  split <;> exact .entered (.refl _) rfl

end Shell

/-! ## Leaving -/

/-- What becomes of a level when the one above hands over a value: the command set is resumed. -/
def Level.resumed [CommandSet σ ω] (l : Level σ) (value : Option Value) (console : Console)
    (world : ω) : Level σ :=
  match value with
  | none => l
  | some value =>
    let (commands, env, _, _) := CommandSet.resume value l.commands l.env console world
    { l with commands, env }

namespace Shell

variable [CommandSet σ ω]

/-- **Leaving a level** resumes the one below. -/
theorem pop_nested {s : Shell σ ω} {level parent : Level σ} {below : List (Level σ)}
    (h : s.stack.levels = level :: parent :: below) (value : Option Value) :
    ∃ u : Shell σ ω, s.pop value = (.resumed (below.length + 1), u) ∧
      u.stack.levels =
        parent.resumed value s.console (CommandSet.finalize level.commands s.world) :: below := by
  rw [pop, h]
  cases value <;> exact ⟨_, rfl, rfl⟩

theorem pop_last {s : Shell σ ω} {level : Level σ} (h : s.stack.levels = [level])
    (value : Option Value) :
    ∃ u : Shell σ ω, s.pop value = (.exhausted, u) ∧ u.stack.levels = [] := by
  rw [pop, h]
  exact ⟨_, rfl, rfl⟩

theorem pop_nil {s : Shell σ ω} (h : s.stack.levels = []) (value : Option Value) :
    s.pop value = (.exhausted, s) := by
  rw [pop, h]

/-- The depth that a pop reports is the number of levels that are left. -/
theorem pop_reports {s : Shell σ ω} {value : Option Value} {depth : Nat}
    (h : (s.pop value).1 = .resumed depth) : depth = (s.pop value).2.stack.depth := by
  rcases hlevels : s.stack.levels with _ | ⟨level, _ | ⟨parent, below⟩⟩
  · rw [pop_nil hlevels] at h
    cases h
  · obtain ⟨u, hpop, -⟩ := pop_last hlevels value
    rw [hpop] at h
    cases h
  · obtain ⟨u, hpop, hrest⟩ := pop_nested hlevels value
    rw [hpop] at h ⊢
    cases h
    exact (congrArg List.length hrest).symm

/-! ## Statements -/

open Dispatch

omit [CommandSet σ ω] in
theorem onlyTop_setVariable (s : Shell σ ω) (name value : String) :
    OnlyTop s.stack.levels (s.setVariable name value).stack.levels :=
  .onTop s.stack fun _ => rfl

theorem onlyTop_reportFault (s : Shell σ ω) (fault : Fault) :
    OnlyTop s.stack.levels (s.reportFault fault).stack.levels := by
  cases htop : s.stack.top? with
  | none =>
    simp only [reportFault, htop]
    exact .refl _
  | some level =>
    simp only [reportFault, htop]
    refine .trans ?_ (onlyTop_setVariable _ _ _)
    exact .onTop s.stack fun _ => rfl

theorem onlyTop_stay (s : Shell σ ω) (value : Option Value) :
    OnlyTop s.stack.levels (s.conclude (.stay value)).2.stack.levels := by
  cases value with
  | none => exact s.onlyTop_setVariable _ _
  | some value => exact (s.onlyTop_setVariable _ _).trans (onlyTop_setVariable _ _ _)

/-- The answer of the handler that a statement calls, and the shell as the handler leaves it. -/
def reply? (s : Shell σ ω) (argv : Words) : Option (Except Fault (Outcome σ) × Shell σ ω) :=
  match s.stack.top? with
  | none => none
  | some level =>
    match plan (CommandSet.commands level.commands) level.aliases argv with
    | (.call route inv, notes) =>
      let (answer, d) := (handlerOf route inv).run.run ((s.noteAll notes).desk level)
      some (answer, (s.noteAll notes).putBack d)
    | _ => none

/-- What dispatching a statement comes down to. -/
inductive Dispatched (s : Shell σ ω) (argv : Words) : Dispatch × Shell σ ω → Prop where
  /-- there is no level -/
  | nowhere (hlevels : s.stack.levels = []) (hreply : s.reply? argv = none) :
    Dispatched s argv (.ended, s)
  /-- no handler is called -/
  | withheld {result : Dispatch} {t : Shell σ ω} (hresult : result = .skipped ∨ result = .failed)
      (htop : OnlyTop s.stack.levels t.stack.levels) (hreply : s.reply? argv = none) :
    Dispatched s argv (result, t)
  /-- the handler fails -/
  | failed {fault : Fault} {t : Shell σ ω} (htop : OnlyTop s.stack.levels t.stack.levels)
      (hreply : s.reply? argv = some (.error fault, t)) :
    Dispatched s argv (.failed, t.reportFault fault)
  /-- the handler answers -/
  | answered {outcome : Outcome σ} {t : Shell σ ω} (hlevels : s.stack.levels ≠ [])
      (htop : OnlyTop s.stack.levels t.stack.levels)
      (hreply : s.reply? argv = some (.ok outcome, t)) :
    Dispatched s argv (t.conclude outcome)

/-- **Dispatching a statement.** -/
theorem dispatched (s : Shell σ ω) (argv : Words) : Dispatched s argv (s.dispatch argv) := by
  cases htop : s.stack.top? with
  | none =>
    have hreply : s.reply? argv = none := by rw [reply?, htop]
    rw [dispatch, htop]
    exact .nowhere (List.head?_eq_none_iff.1 htop) hreply
  | some level =>
    have hlevels : s.stack.levels ≠ [] := by
      obtain ⟨below, h⟩ := Stack.exists_levels htop
      simp [h]
    rcases hplan : plan (CommandSet.commands level.commands) level.aliases argv with
      ⟨_ | fault | ⟨route, inv⟩, notes⟩
    · have hreply : s.reply? argv = none := by simp only [reply?, htop, hplan]
      simp only [dispatch, htop, hplan, carryOut]
      exact .withheld (.inl rfl) (.refl _) hreply
    · have hreply : s.reply? argv = none := by simp only [reply?, htop, hplan]
      simp only [dispatch, htop, hplan, carryOut]
      exact .withheld (.inr rfl) (.onTop _ fun _ => rfl) hreply
    · rcases hrun : (handlerOf route inv).run.run ((s.noteAll notes).desk level) with
        ⟨fault | outcome, d⟩
      · have hreply : s.reply? argv = some (.error fault, (s.noteAll notes).putBack d) := by
          simp only [reply?, htop, hplan, hrun]
        simp only [dispatch, htop, hplan, carryOut, hrun]
        exact .failed (.onTop _ fun _ => rfl) hreply
      · have hreply : s.reply? argv = some (.ok outcome, (s.noteAll notes).putBack d) := by
          simp only [reply?, htop, hplan, hrun]
        simp only [dispatch, htop, hplan, carryOut, hrun]
        exact .answered hlevels (.onTop _ fun _ => rfl) hreply

theorem dispatch_of_reply {s t : Shell σ ω} {argv : Words} {outcome : Outcome σ}
    (h : s.reply? argv = some (.ok outcome, t)) :
    s.stack.levels ≠ [] ∧ OnlyTop s.stack.levels t.stack.levels ∧
      s.dispatch argv = t.conclude outcome := by
  have hdispatched := s.dispatched argv
  generalize s.dispatch argv = result at hdispatched ⊢
  cases hdispatched with
  | nowhere _ hreply | withheld _ _ hreply | failed _ hreply => simp [h] at hreply
  | answered hlevels htop hreply =>
    simp only [h, Option.some.injEq, Prod.mk.injEq, Except.ok.injEq] at hreply
    obtain ⟨rfl, rfl⟩ := hreply
    exact ⟨hlevels, htop, rfl⟩

theorem dispatch_of_fault {s t : Shell σ ω} {argv : Words} {fault : Fault}
    (h : s.reply? argv = some (.error fault, t)) :
    (s.dispatch argv).2 = t.reportFault fault := by
  have hdispatched := s.dispatched argv
  generalize s.dispatch argv = result at hdispatched ⊢
  cases hdispatched with
  | nowhere _ hreply | withheld _ _ hreply | answered _ _ hreply => simp [h] at hreply
  | failed _ hreply =>
    simp only [h, Option.some.injEq, Prod.mk.injEq, Except.error.injEq] at hreply
    obtain ⟨rfl, rfl⟩ := hreply
    rfl

/-- The value with which a statement leaves the active level, and the shell at that time. -/
def departure? (s : Shell σ ω) (argv : Words) : Option (Option Value × Shell σ ω) :=
  match s.reply? argv with
  | some (.ok (.leave value), t) => some (value, t)
  | _ => none

theorem dispatch_of_departure {s t : Shell σ ω} {argv : Words} {value : Option Value}
    (h : s.departure? argv = some (value, t)) :
    OnlyTop s.stack.levels t.stack.levels ∧ (s.dispatch argv).2 = (t.pop value).2 := by
  have hreply : s.reply? argv = some (.ok (.leave value), t) := by
    rw [departure?] at h
    split at h
    · cases h
      assumption
    · cases h
  obtain ⟨-, htop, hdispatch⟩ := dispatch_of_reply hreply
  refine ⟨htop, ?_⟩
  rw [hdispatch, conclude]
  rcases t.pop value with ⟨_ | _, _⟩ <;> rfl

/-- **A statement that does not ask for it** leaves no level. -/
theorem dispatch_noneLeft {s : Shell σ ω} {argv : Words} (h : s.departure? argv = none) :
    NoneLeft s.stack.levels (s.dispatch argv).2.stack.levels := by
  have hdispatched := s.dispatched argv
  generalize s.dispatch argv = result at hdispatched ⊢
  cases hdispatched with
  | nowhere => exact .changed (.refl _)
  | withheld _ htop => exact .changed htop
  | @failed fault t htop => exact .changed (htop.trans (t.onlyTop_reportFault fault))
  | @answered outcome t hlevels htop hreply =>
    cases outcome with
    | stay value => exact .changed (htop.trans (t.onlyTop_stay value))
    | enter commands => exact .of_onlyTop htop (t.noneLeft_push commands)
    | leave value => simp [departure?, hreply] at h
    | abort => exact .changed htop

end Shell

/-! ## Reports -/

/-- What is reported of a statement agrees with the number of levels before and after it. -/
def Dispatch.Counts (before after : Nat) : Dispatch → Prop
  | entered depth => depth = after ∧ after = before + 1
  | exited depth => depth = after ∧ before = after + 1 ∧ 0 < after
  | ended => after = 0
  | skipped | completed | failed | aborted => after = before

namespace Shell

variable [CommandSet σ ω]

theorem depth_push (s : Shell σ ω) (commands : σ) :
    (s.push commands).stack.depth = s.nextDepth := by
  rw [push]
  split <;> rfl

/-- **What a dispatch reports** is the new number of levels. -/
theorem dispatch_counts (s : Shell σ ω) (argv : Words) :
    (s.dispatch argv).1.Counts s.stack.depth (s.dispatch argv).2.stack.depth := by
  have hdispatched := s.dispatched argv
  generalize s.dispatch argv = result at hdispatched ⊢
  cases hdispatched with
  | nowhere hlevels => simp [Dispatch.Counts, Stack.depth, hlevels]
  | withheld hkind htop => rcases hkind with rfl | rfl <;> exact htop.length_eq
  | @failed fault t htop => exact (htop.trans (t.onlyTop_reportFault fault)).length_eq
  | @answered outcome t hlevels htop =>
    have hdepth : t.stack.depth = s.stack.depth := htop.length_eq
    rw [← hdepth]
    cases outcome with
    | stay value => cases value <;> exact (t.onlyTop_stay _).length_eq
    | abort => exact rfl
    | enter commands => exact ⟨(t.depth_push commands).symm, t.depth_push commands⟩
    | leave value =>
      rcases ht : t.stack.levels with _ | ⟨level, _ | ⟨parent, below⟩⟩
      · have hlength := htop.length_eq
        rw [ht] at hlength
        exact absurd (List.length_eq_zero_iff.1 hlength.symm) hlevels
      · obtain ⟨u, hpop, hrest⟩ := pop_last ht value
        rw [conclude, hpop]
        exact congrArg List.length hrest
      · obtain ⟨u, hpop, hrest⟩ := pop_nested ht value
        have hdepth : u.stack.depth = below.length + 1 := congrArg List.length hrest
        have hbefore : t.stack.depth = below.length + 1 + 1 := congrArg List.length ht
        rw [conclude, hpop]
        refine ⟨hdepth.symm, ?_, ?_⟩
        · rw [hbefore, hdepth]
        · rw [hdepth]
          exact Nat.succ_pos _

end Shell

end NestedShell
