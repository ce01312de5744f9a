/-
  The end of the input, and leaving every level by `exit`.

  At the end of its input a session leaves its levels one after the other, as if `exit` were typed
  in each of them.  The two ways to leave a level do the same, but `exit` is a statement, and after
  a statement the status of the level below is remembered.  So the status that remains at the end
  of the input is that of the last statement, and after `exit` it is that of the lowest level that
  has a numeric one.

  * `Level.KeepsExit`: `exit` is the builtin; `Shell.dispatch_exit`: then it leaves the level;
  * `Session.afterLines`: some turns with a line source; `runOver_lines`: a run starts with them;
  * `Session.Alike`: two sessions that only differ in what is noted beside the output;
  * `feed_exit`: what the line `exit` does; `leftAlike`: all levels are left in step in both ways;
  * `EndsLikeExit` and `reached_endsLikeExit` put this together for whole runs.
-/
import NestedShell.Proofs.Session.Lines
import NestedShell.Proofs.Session.Ready
import NestedShell.Proofs.Session.Teardown

namespace NestedShell

variable {σ ω : Type}

/-! ## The command that leaves a level -/

/-- In a level `exit` is the builtin: no command of the level and no alias has that name. -/
structure Level.KeepsExit [CommandSet σ ω] (l : Level σ) : Prop where
  noCommand : ∀ info ∈ CommandSet.commands l.commands, info.name ≠ "exit"
  noAlias : l.aliases.get? "exit" = none

instance [CommandSet σ ω] (l : Level σ) : Decidable l.KeepsExit :=
  decidable_of_iff (_ ∧ _) ⟨fun h => ⟨h.1, h.2⟩, fun h => ⟨h.noCommand, h.noAlias⟩⟩

namespace Dispatch

/-- The usage of the builtin reads `exit` alone as a call without a value. -/
theorem bindArguments_exit :
    ∃ args, bindArguments (builtins.find? (·.name == "exit")) ["exit"] = (.ok args, []) ∧
      args.name = "exit" ∧ args.get? "<value>" = none := by
  have hbound : Prod.map (fun args => args.toOption.map fun a => (a.name, a.get? "<value>")) id
      (bindArguments (builtins.find? (·.name == "exit")) ["exit"]) = (some ("exit", none), []) := by
    decide +kernel
  rcases hbind : bindArguments (builtins.find? (·.name == "exit")) ["exit"] with
    ⟨fault | args, notes⟩
  · simp [hbind, Except.toOption] at hbound
  · obtain ⟨⟨hname, hvalue⟩, rfl⟩ : (args.name = "exit" ∧ args.get? "<value>" = none) ∧
        notes = [] := by
      simpa [hbind, Except.toOption] using hbound
    exact ⟨args, rfl, hname, hvalue⟩

/-- Without a command and an alias of that name, `exit` is the builtin, without a value. -/
theorem plan_exit {own : List CommandInfo} {aliases : AliasTable}
    (hown : ∀ info ∈ own, info.name ≠ "exit") (halias : aliases.get? "exit" = none) :
    ∃ inv : Invocation, plan own aliases ["exit"] = (.call .builtin inv, []) ∧
      inv.name = "exit" ∧ inv.args.get? "<value>" = none := by
  have hnone : own.any (·.name == "exit") = false :=
    List.any_eq_false.2 fun info hinfo => by simpa using hown info hinfo
  have hexpand : aliases.expand ["exit"] = .ok ["exit"] := by
    rw [AliasTable.expand, AliasTable.expandFrom]
    simp only [halias]
  have hcatalog : (catalog own).find? (·.name == "exit") =
      builtins.find? (·.name == "exit") := by
    have hsame : (fun info : CommandInfo => decide ((!own.any (·.name == info.name)) = true ∧
        (info.name == "exit") = true)) = (·.name == "exit") := by
      funext info
      by_cases h : info.name = "exit" <;> simp [h, hnone]
    have hown : own.find? (·.name == "exit") = none :=
      List.find?_eq_none.2 fun info hinfo => by simpa using hown info hinfo
    rw [catalog, List.find?_append, hown, Option.none_or, List.find?_filter, hsame]
  have hroute : route own "exit" = .builtin := by
    rw [route, hnone]
    rfl
  obtain ⟨args, hbind, hname, hvalue⟩ := bindArguments_exit
  refine ⟨⟨args, catalog own⟩, ?_, hname, hvalue⟩
  have hnoop : isNoop ["exit"] = false := by decide
  simp only [plan, planExpanded, hnoop, hexpand, List.headD_cons, hcatalog, hbind, hroute,
    Bool.false_eq_true, if_false]

end Dispatch

namespace Shell

theorem putBack_desk {s : Shell σ ω} {level : Level σ} (htop : s.stack.top? = some level) :
    s.putBack (s.desk level) = s := by
  obtain ⟨below, hlevels⟩ := Stack.exists_levels htop
  obtain ⟨⟨levels, exitValue⟩, console, interrupted, world⟩ := s
  obtain rfl : levels = level :: below := hlevels
  rfl

variable [CommandSet σ ω]

/-- **The builtin `exit`** leaves the level, and does nothing else. -/
theorem dispatch_exit {s : Shell σ ω} {level : Level σ} (htop : s.stack.top? = some level)
    (h : level.KeepsExit) : s.dispatch ["exit"] = s.conclude (.leave none) := by
  obtain ⟨inv, hplan, hname, hvalue⟩ := Dispatch.plan_exit h.noCommand h.noAlias
  have hrun (d : Desk σ ω) : (Builtin.run inv).run.run d = (.ok (.leave none), d) := by
    simp only [Builtin.run, hname, Builtin.leaveLevel, hvalue]
    rfl
  simp only [dispatch, htop, hplan, carryOut, handlerOf]
  rw [show s.noteAll [] = s from rfl, hrun]
  simp only [putBack_desk htop]

/-- Nothing that happens when a level is left without a value is told by the log. -/
theorem quiet_pop (s : Shell σ ω) : (s.pop none).2.quiet = (s.quiet.pop none).2 := by
  obtain ⟨⟨levels, exitValue⟩, console, interrupted, world⟩ := s
  rcases levels with _ | ⟨level, _ | ⟨parent, below⟩⟩ <;> rfl

theorem exitValue_pop {s : Shell σ ω} {level : Level σ} (h : s.stack.levels = [level]) :
    (s.pop none).2.stack.exitValue = none := by
  rw [pop, h]

theorem levels_pop (s : Shell σ ω) : (s.pop none).2.stack.levels = s.stack.levels.tail := by
  obtain ⟨⟨levels, exitValue⟩, console, interrupted, world⟩ := s
  rcases levels with _ | ⟨level, _ | ⟨parent, below⟩⟩ <;> rfl

end Shell

namespace Session

/-! ## Turns with lines -/

section
variable [CommandSet σ ω]

/-- A turn with a line source that answers with a line. -/
def afterLine (s : Session σ ω) (line : String) : Session σ ω :=
  match s.request? with
  | none => s
  | some (_, t) => (t.feed (line.push '\n')).2

/-- The session after some lines were fed to it. -/
def afterLines (s : Session σ ω) (lines : List String) : Session σ ω := lines.foldl afterLine s

theorem leads_afterLines (s : Session σ ω) (lines : List String) :
    s.Leads (s.afterLines lines) := by
  induction lines generalizing s with
  | nil => exact .refl s
  | cons line lines ih =>
    refine .trans ?_ (ih (s.afterLine line))
    rw [afterLine]
    split
    · exact .refl s
    · rename_i request t hrequest
      exact .trans (closedUnderInput_leads.request hrequest) (t.leads_feed _)

/-- A run is over when no level is left. -/
theorem runOver_of_request? {s : Session σ ω} (h : s.request? = none) (interactive : Bool)
    (answers : List LineAnswer) : runOver interactive answers s = ⟨.ok (), s, []⟩ := by
  cases answers with
  | nil =>
    rw [runOver]
    cases s.shell.stack.depth with
    | zero => rfl
    | succ levels => simp only [closeLevels, h]
  | cons answer answers => simp only [runOver, h]

/-- **A run over lines** makes the same requests as long as the lines are the same. -/
theorem runOver_lines (s : Session σ ω) (interactive : Bool) (lines : List String) :
    ∃ asked, ∀ answers, runOver interactive (lines.map .line ++ answers) s =
      let rest := runOver interactive answers (s.afterLines lines)
      { rest with requests := asked ++ rest.requests } := by
  induction lines generalizing s with
  | nil => exact ⟨[], fun answers => rfl⟩
  | cons line lines ih =>
    cases hrequest : s.request? with
    | none =>
      have hstill : s.afterLines (line :: lines) = s := by
        have hline (line : String) : s.afterLine line = s := by rw [afterLine, hrequest]
        have hlines (lines : List String) : s.afterLines lines = s := by
          induction lines with
          | nil => rfl
          | cons line lines ih => rw [afterLines, List.foldl_cons, hline, ← afterLines, ih]
        exact hlines _
      refine ⟨[], fun answers => ?_⟩
      rw [hstill, runOver_of_request? hrequest, runOver_of_request? hrequest]
      rfl
    | some turn =>
      obtain ⟨request, t⟩ := turn
      obtain ⟨asked, hrun⟩ := ih (t.feed (line.push '\n')).2
      refine ⟨request :: asked, fun answers => ?_⟩
      have hafter : s.afterLines (line :: lines) =
          (t.feed (line.push '\n')).2.afterLines lines := by
        rw [afterLines, List.foldl_cons, afterLine, hrequest, ← afterLines]
      simp only [List.map_cons, List.cons_append, runOver, hrequest, answer, hrun, hafter]

end

/-! ## Leaving in two ways -/

/-- Two sessions that only differ in what is noted beside the output, and in the status that is
    remembered. -/
structure Alike (s t : Session σ ω) : Prop where
  shell : s.shell.quiet = t.shell.quiet
  reader : s.reader = t.reader

/-- The status that is remembered when a level is active again. -/
def keepStatus (status : Int64) (level : Level σ) : Int64 :=
  (level.env.int? statusVariable).getD status

theorem Alike.stack {s t : Session σ ω} (h : Alike s t) : s.shell.stack = t.shell.stack :=
  congrArg (·.stack) h.shell

/-- The request of a session that is ready for a fresh statement. -/
theorem request?_ready {s : Session σ ω} {level : Level σ} (htop : s.shell.stack.top? = some level)
    (hr : s.reader.Ready) :
    let template := (level.env.get? primaryPrompt).getD ""
    s.request? =
      some (⟨false, (s.shell.console.prompt level.env.lookup template).1, level.snapshot⟩,
        s.onConsole fun console => (console.prompt level.env.lookup template).2) := by
  intro template
  simp only [request?, htop, hr.complete, reduceCtorEq, decide_false, if_false]
  rfl

/-- **Alike sessions** that are ready make the same request, and are alike after that. -/
theorem Alike.request? {s t : Session σ ω} (h : Alike s t) {level : Level σ}
    (htop : s.shell.stack.top? = some level) (hr : s.reader.Ready) :
    ∃ request f, request.continuing = false ∧ s.request? = some (request, s.onConsole f) ∧
      t.request? = some (request, t.onConsole f) ∧ Alike (s.onConsole f) (t.onConsole f) := by
  have hs := request?_ready htop hr
  have ht := request?_ready (h.stack ▸ htop) (h.reader ▸ hr)
  obtain ⟨⟨stack, console, interrupted, world⟩, reader, trace, lastStatus⟩ := s
  obtain ⟨⟨stack', console', interrupted', world'⟩, reader', trace', lastStatus'⟩ := t
  obtain ⟨hshell, hreader⟩ := h
  obtain ⟨out, err, formatter, prompter, theme, log⟩ := console
  obtain ⟨out', err', formatter', prompter', theme', log'⟩ := console'
  simp only [Shell.quiet, Shell.mk.injEq, Console.mk.injEq, true_and, and_true] at hshell
  obtain ⟨rfl, ⟨rfl, rfl, rfl, rfl, rfl⟩, rfl⟩ := hshell
  exact ⟨_, _, rfl, hs, ht, ⟨rfl, hreader⟩⟩

theorem lastStatus_rememberStatus (s : Session σ ω) :
    s.rememberStatus.lastStatus =
      s.shell.stack.top?.elim s.lastStatus (keepStatus s.lastStatus) := by
  rw [rememberStatus]
  cases s.shell.stack.top? with
  | none => rfl
  | some level =>
    simp only [Option.bind_some, Option.elim_some, keepStatus]
    cases level.env.int? statusVariable <;> rfl

theorem shell_rememberStatus (s : Session σ ω) : s.rememberStatus.shell = s.shell := by
  rw [rememberStatus]
  split <;> rfl

theorem reader_rememberStatus (s : Session σ ω) : s.rememberStatus.reader = s.reader := by
  rw [rememberStatus]
  split <;> rfl

/-- There is nothing to drop when the reader is a new one. -/
theorem abandon_rememberStatus (s : Session σ ω) (h : s.reader = {}) :
    s.rememberStatus.abandon = s.rememberStatus := by
  obtain ⟨shell, reader, trace, lastStatus⟩ := s
  obtain rfl : reader = {} := h
  rw [rememberStatus]
  split <;> rfl

/-- How levels are left in two ways, at the end of the input and by `exit`. -/
structure LeftAlike (levels : List (Level σ)) (s t : Session σ ω) (ended exited : RunReport σ ω) :
    Prop where
  results : ended.result = .ok () ∧ exited.result = .ok ()
  alike : Alike ended.session exited.session
  requests : ended.requests = exited.requests
  left : ended.session.shell.stack.levels = []
  noValue : levels ≠ [] → ended.session.shell.stack.exitValue = none
  lastStatus : ended.session.lastStatus = s.lastStatus
  kept : exited.session.lastStatus = levels.tail.foldl keepStatus t.lastStatus

/-- The status of a session without levels. -/
theorem exitStatus_of_left {s : Session σ ω} (h : s.shell.stack.levels = []) :
    s.exitStatus = (s.shell.stack.exitValue.map Value.status).getD s.lastStatus := by
  rw [exitStatus, Stack.top?, h]
  rfl

namespace LeftAlike

variable {levels : List (Level σ)} {s t : Session σ ω} {ended exited : RunReport σ ω}
  (h : LeftAlike levels s t ended exited)
include h

theorem ended_status : ended.session.exitStatus =
    (ended.session.shell.stack.exitValue.map Value.status).getD s.lastStatus := by
  rw [exitStatus_of_left h.left, h.lastStatus]

theorem exited_status : exited.session.exitStatus =
    (ended.session.shell.stack.exitValue.map Value.status).getD
      (levels.tail.foldl keepStatus t.lastStatus) := by
  rw [exitStatus_of_left (h.alike.stack ▸ h.left), h.kept, ← h.alike.stack]

end LeftAlike

variable [CommandSet σ ω]

/-- **The line `exit`** in a session that is ready leaves the level, and then the status of the
    level below is remembered. -/
theorem feed_exit {s : Session σ ω} (ht : s.reader.Tidy) (hr : s.reader.Ready) {level : Level σ}
    (htop : s.shell.stack.top? = some level) (h : level.KeepsExit) :
    (s.feed ("exit".push '\n')).2 =
      ({ s with shell := ((s.prepare ["exit"]).pop none).2, reader := {} } :
        Session σ ω).rememberStatus := by
  have hnext (vars : Lookup) : Reader.nextOf vars (Text.offsets 0 ("exit".push '\n').toList) {} =
      (.ok (some ["exit"]), {}) := by rfl
  have htop' : (s.prepare ["exit"]).stack.top? = some level := htop
  have hread := readChars_eq_readStatement (s := { s with reader := {} }) htop rfl
    ("exit".push '\n') (Text.offsets 0 ("exit".push '\n').toList)
  have hperform : ({ s with reader := {} } : Session σ ω).perform ["exit"] =
      (((s.prepare ["exit"]).conclude (.leave none)).1,
        ({ s with shell := ((s.prepare ["exit"]).pop none).2, reader := {} } :
          Session σ ω).rememberStatus) := by
    have hpop : ((s.prepare ["exit"]).conclude (.leave none)).2 =
        ((s.prepare ["exit"]).pop none).2 := by
      rw [Shell.conclude]
      rcases (s.prepare ["exit"]).pop none with ⟨_ | _, _⟩ <;> rfl
    rw [perform, show ({ s with reader := {} } : Session σ ω).prepare ["exit"] =
      s.prepare ["exit"] from rfl, Shell.dispatch_exit htop' h, ← hpop]
  rw [feed_of_not_isFinished (isFinished_of_top htop), readPiece_ready ht hr, hread,
    readStatement, hnext]
  simp only [hperform]
  cases ((s.prepare ["exit"]).conclude (.leave none)).1.halt? with
  | none => rfl
  | some halt => exact abandon_rememberStatus _ rfl

/-- **One level** is left in the same way by both, but only `exit` remembers the status of the one
    below. -/
theorem Alike.leave {s t : Session σ ω} (h : Alike s t) (ht : s.reader.Tidy)
    (hr : s.reader.Ready) {level : Level σ} {below : List (Level σ)}
    (hlevels : s.shell.stack.levels = level :: below) (hexit : level.KeepsExit) :
    Alike (s.closeLevel false false) (t.feed ("exit".push '\n')).2 ∧
      (s.closeLevel false false).shell.stack.levels = below ∧
      (t.feed ("exit".push '\n')).2.lastStatus =
        below.head?.elim t.lastStatus (keepStatus t.lastStatus) := by
  have htop : t.shell.stack.top? = some level := by
    rw [← h.stack, Stack.top?, hlevels, List.head?_cons]
  have hshell : (s.shell.pop none).2.quiet = ((t.prepare ["exit"]).pop none).2.quiet := by
    rw [Shell.quiet_pop, Shell.quiet_pop, h.shell, quiet_prepare]
  have hbelow : (s.shell.pop none).2.stack.levels = below := by
    rw [Shell.levels_pop, hlevels, List.tail_cons]
  have hbelow' : ((t.prepare ["exit"]).pop none).2.stack.levels = below :=
    (congrArg (·.stack.levels) hshell).symm.trans hbelow
  rw [feed_exit (h.reader ▸ ht) (h.reader ▸ hr) htop hexit]
  refine ⟨⟨?_, ?_⟩, hbelow, ?_⟩
  · rw [shell_rememberStatus]
    exact hshell
  · rw [reader_rememberStatus]
    rfl
  · rw [lastStatus_rememberStatus, Stack.top?, hbelow']

/-- **All levels** are left in the same way, whichever of the two it is. -/
theorem leftAlike {levels : List (Level σ)} {s t : Session σ ω} (h : Alike s t)
    (ht : s.reader.Tidy) (hr : s.reader.Ready) (hlevels : s.shell.stack.levels = levels)
    (hexit : ∀ level ∈ levels, level.KeepsExit) :
    LeftAlike levels s t (closeLevels false levels.length s)
      (runOver false (List.replicate levels.length (.line "exit")) t) := by
  induction levels generalizing s t with
  | nil =>
    have hdepth : t.shell.stack.depth = 0 := by
      rw [Stack.depth, ← h.stack, hlevels, List.length_nil]
    rw [List.length_nil, List.replicate_zero, runOver, hdepth]
    exact ⟨⟨rfl, rfl⟩, h, rfl, hlevels, fun hne => absurd rfl hne, rfl, rfl⟩
  | cons level below ih =>
    have htop : s.shell.stack.top? = some level := by rw [Stack.top?, hlevels, List.head?_cons]
    obtain ⟨request, f, hcontinuing, hs, ht', hasked⟩ := h.request? htop hr
    obtain ⟨hleft, hbelow, hkept⟩ := hasked.leave ht hr hlevels (hexit level List.mem_cons_self)
    have hrest := ih hleft Reader.tidy_fresh Reader.ready_fresh hbelow
      fun l hl => hexit l (List.mem_cons_of_mem _ hl)
    rw [List.length_cons, List.replicate_succ, closeLevels, runOver, hs, ht']
    simp only [hcontinuing, answer]
    exact {
      results := hrest.results
      alike := hrest.alike
      requests := congrArg (request :: ·) hrest.requests
      left := hrest.left
      noValue := fun _ => by
        cases below with
        | nil => exact Shell.exitValue_pop hlevels
        | cons l rest => exact hrest.noValue (List.cons_ne_nil _ _)
      lastStatus := hrest.lastStatus
      kept := by
        rw [hrest.kept, hkept]
        cases below <;> rfl }

/-! ## Whole runs -/

/-- The run over lines, up to the end of the input. -/
def runToEnd (s : Session σ ω) (lines : List String) : RunReport σ ω :=
  s.run { answers := lines.map .line }

/-- The run over lines, and then one line `exit` for every level that is left. -/
def runToExit (s : Session σ ω) (lines : List String) : RunReport σ ω :=
  let exits := List.replicate (s.afterLines lines).shell.stack.depth "exit"
  s.run { answers := (lines ++ exits).map .line }

/-- Two runs over the same lines, and how they leave the levels that are there after the lines. -/
theorem exists_leftAlike {s : Session σ ω} {lines : List String}
    (ht : (s.afterLines lines).reader.Tidy) (hr : (s.afterLines lines).reader.Ready)
    (hexit : ∀ level ∈ (s.afterLines lines).levels, level.KeepsExit) :
    ∃ asked ended exited,
      LeftAlike (s.afterLines lines).levels (s.afterLines lines) (s.afterLines lines) ended exited ∧
        s.runToEnd lines = { ended with requests := asked ++ ended.requests } ∧
        s.runToExit lines = { exited with requests := asked ++ exited.requests } := by
  obtain ⟨asked, hrun⟩ := s.runOver_lines false lines
  refine ⟨asked, _, _, leftAlike ⟨rfl, rfl⟩ ht hr rfl hexit, ?_, ?_⟩
  · have hrun := hrun []
    rw [List.append_nil] at hrun
    exact hrun
  · rw [runToExit, run, List.map_append, List.map_replicate]
    exact hrun _

/-- A morphism of command sets goes along with turns. -/
theorem afterLines_map {τ χ : Type} [CommandSet τ χ] {f : σ → τ} {g : ω → χ}
    (m : CommandSet.Morphism f g) (s : Session σ ω) (lines : List String) :
    (s.map f g).afterLines lines = (s.afterLines lines).map f g := by
  induction lines generalizing s with
  | nil => rfl
  | cons line lines ih =>
    have hline : (s.map f g).afterLine line = (s.afterLine line).map f g := by
      rw [afterLine, afterLine, request?_map]
      cases s.request? with
      | none => rfl
      | some turn => exact congrArg Prod.snd (turn.2.feed_map m _)
    rw [afterLines, List.foldl_cons, hline]
    exact ih _

/-- Under watch, both runs record the same. -/
theorem roll_runToExit {w : Session (Watched σ) (Watch ω)} {lines : List String}
    (ht : (w.afterLines lines).reader.Tidy) (hr : (w.afterLines lines).reader.Ready)
    (hexit : ∀ level ∈ (w.afterLines lines).levels, level.KeepsExit) :
    (w.runToEnd lines).session.roll = (w.runToExit lines).session.roll := by
  obtain ⟨asked, ended, exited, hleft, hended, hexited⟩ := exists_leftAlike ht hr hexit
  have hroll := congrArg Shell.roll hleft.alike.shell
  rw [hended, hexited]
  exact hroll

/-- The status that is remembered after the active level and all others are left by `exit`. -/
def keptStatus (s : Session σ ω) : Int64 :=
  s.shell.stack.levels.tail.foldl keepStatus s.lastStatus

/-- What the end of the input and `exit` in every level have in common, and what not. -/
structure EndsLikeExit (s : Session σ ω) (lines : List String) : Prop where
  /-- Both runs come to an end, with no level left. -/
  results : (s.runToEnd lines).result = .ok () ∧ (s.runToExit lines).result = .ok ()
  finished : (s.runToEnd lines).session.isFinished = true ∧
    (s.runToExit lines).session.isFinished = true
  /-- What is written is the same, and so is the world. -/
  shell : (s.runToEnd lines).session.shell.quiet = (s.runToExit lines).session.shell.quiet
  /-- The same lines are asked for, with the same prompts. -/
  requests : (s.runToEnd lines).requests = (s.runToExit lines).requests
  /-- Command sets are told the same, in the same order, that levels are left or resumed. -/
  hooks : ∀ w : Session (Watched σ) (Watch ω), w.unwatched = s →
    (w.runToEnd lines).session.roll = (w.runToExit lines).session.roll
  /-- The status is that of the last statement, or what `exit` makes of it. -/
  status : (s.afterLines lines).isFinished = false →
    (s.runToEnd lines).session.exitStatus = (s.afterLines lines).lastStatus ∧
      (s.runToExit lines).session.exitStatus = (s.afterLines lines).keptStatus
  sameStatus : (s.runToEnd lines).session.exitStatus = (s.runToExit lines).session.exitStatus ↔
    (s.afterLines lines).keptStatus = (s.afterLines lines).lastStatus

/-- **The end of the input is like `exit` in every level**, after complete statements: levels are
    left in the same way, with the same output.  Only the status that remains may be another one:
    the end of the input keeps that of the last statement, `exit` remembers that of every level
    that it comes back to. -/
theorem reached_endsLikeExit {s : Session σ ω} (hs : s.Reached) {lines : List String}
    (hready : (s.afterLines lines).reader.Ready)
    (hexit : ∀ level ∈ (s.afterLines lines).levels, level.KeepsExit) : s.EndsLikeExit lines := by
  have htidy := (hs.leads (s.leads_afterLines lines)).tidy
  obtain ⟨asked, ended, exited, hleft, hended, hexited⟩ := exists_leftAlike htidy hready hexit
  exact {
    results := by
      rw [hended, hexited]
      exact hleft.results
    finished := by
      rw [hended, hexited]
      exact ⟨List.isEmpty_iff.2 hleft.left,
        List.isEmpty_iff.2 (hleft.alike.stack ▸ hleft.left)⟩
    shell := by
      rw [hended, hexited]
      exact hleft.alike.shell
    requests := by
      rw [hended, hexited]
      exact congrArg (asked ++ ·) hleft.requests
    hooks := by
      rintro w rfl
      rw [unwatched, afterLines_map unwatch] at htidy hready hexit
      exact roll_runToExit htidy hready fun level hlevel =>
        have hkeeps := hexit _ (List.mem_map_of_mem hlevel)
        ⟨hkeeps.noCommand, hkeeps.noAlias⟩
    status := fun hthere => by
      have hlevels : (s.afterLines lines).shell.stack.levels ≠ [] :=
        List.isEmpty_eq_false_iff.1 hthere
      rw [hended, hexited]
      rw [hleft.ended_status, hleft.exited_status, hleft.noValue hlevels]
      exact ⟨rfl, rfl⟩
    sameStatus := by
      rw [hended, hexited]
      simp only [hleft.ended_status, hleft.exited_status]
      rw [← keptStatus]
      by_cases hlevels : (s.afterLines lines).shell.stack.levels = []
      · have hkept : (s.afterLines lines).keptStatus = (s.afterLines lines).lastStatus := by
          rw [keptStatus, hlevels]
          rfl
        simp only [hkept]
      · rw [hleft.noValue hlevels]
        exact eq_comm }

/-- A nested level is left in both ways. -/
theorem nesting_endsLikeExit :
    (nesting.afterLines ["in"]).reader.Ready ∧
      (∀ level ∈ (nesting.afterLines ["in"]).levels, level.KeepsExit) ∧
      nesting.EndsLikeExit ["in"] := by
  have hready : (nesting.afterLines ["in"]).reader.Ready :=
    ⟨by decide +kernel, by decide +kernel, by decide +kernel⟩
  have hexit : ∀ level ∈ (nesting.afterLines ["in"]).levels, level.KeepsExit := by decide +kernel
  exact ⟨hready, hexit, reached_endsLikeExit reached_nesting hready hexit⟩

/-- **Not the same status**: in the nested level a command fails, in the one below none did. -/
theorem status_failed_nested :
    let deeds : Vocabulary :=
      { commands := [(⟨"work", ""⟩, .nothing), (⟨"in", ""⟩, .enter "deeds"),
          (⟨"fail", ""⟩, .fail "failed" none)] }
    let start : Session Scripted World :=
      .new (.vocabulary "deeds" [("deeds", deeds)]) .empty {} (.new .plain {} {} {}) {}
    let lines := ["work", "in", "fail"]
    start.Reached ∧ (start.afterLines lines).reader.Ready ∧
      (∀ level ∈ (start.afterLines lines).levels, level.KeepsExit) ∧
      (start.runToEnd lines).session.exitStatus = 1 ∧
      (start.runToExit lines).session.exitStatus = 0 := by
  intro deeds start lines
  refine ⟨reached_new .., ⟨?_, ?_, ?_⟩, ?_, ?_, ?_⟩
  all_goals decide +kernel

end Session

end NestedShell
