/-
  Which handler a statement calls, and with what.

  The commands of a level and the builtins are looked through three times: for who handles a
  statement, for the usage that binds its arguments, and for the catalog that the handler is given.
  The three agree, also where a level has a command of the name of a builtin, or two of one name.

  * `Builtin.handlers` are the handlers of the builtins by name, `Handles` says which handler a name
    stands for at a level;
  * `Dispatch.infoOf?` is the entry of a name, `find?_catalog`: the one that the catalog has for it;
  * `Binds`: what the entry of a command makes of the words of a statement;
  * `Catalogs`: a catalog has the commands of a level, and the builtins that it does not override;
  * `Planned` and `planned` tell the ways in which a statement is planned;
  * a `Call` is a call of a handler, `Shell.call?` the one of a statement, and `Shell.settle` goes
    on after its answer; `dispatch_of_none` and `dispatch_of_call` tell what a statement does
    without a handler and with one;
  * `Call.Routed` and `routed_of_call` put this together.
-/
import NestedShell.Scripted
import NestedShell.Proofs.Shell.Levels
import NestedShell.Proofs.Usage.Captures

namespace NestedShell

variable {σ ω : Type}

/-! ## Who handles a command -/

namespace Builtin

/-- The handlers of the builtins. -/
def handlers (σ ω : Type) : List (String × (Invocation → Handler σ ω (Outcome σ))) :=
  [("help", showHelp), ("alias", editAliases), ("unalias", removeAlias), ("exit", leaveLevel),
    ("set", editVariables), ("unset", removeVariables), ("printenv", printVariables),
    ("echo", printWords)]

/-- Every builtin has a handler, and there are no others. -/
theorem names_handlers (σ ω : Type) :
    (handlers σ ω).map Prod.fst = builtins.map CommandInfo.name := rfl

theorem run_of_mem {inv : Invocation} {handler : Invocation → Handler σ ω (Outcome σ)}
    (h : (inv.name, handler) ∈ handlers σ ω) : run inv = handler inv := by
  simp only [handlers, List.mem_cons, List.not_mem_nil, or_false, Prod.mk.injEq] at h
  rcases h with ⟨hname, rfl⟩ | ⟨hname, rfl⟩ | ⟨hname, rfl⟩ | ⟨hname, rfl⟩ | ⟨hname, rfl⟩ |
    ⟨hname, rfl⟩ | ⟨hname, rfl⟩ | ⟨hname, rfl⟩
  all_goals simp only [run, hname]

/-- **Every builtin is handled** by its own handler. -/
theorem exists_handler {inv : Invocation} (h : ∃ info ∈ builtins, info.name = inv.name) :
    ∃ handler, (inv.name, handler) ∈ handlers σ ω ∧ run inv = handler inv := by
  have hname : inv.name ∈ (handlers σ ω).map Prod.fst := by
    rw [names_handlers]
    exact List.mem_map.2 h
  obtain ⟨⟨_, handler⟩, hmem, rfl⟩ := List.mem_map.1 hname
  exact ⟨handler, hmem, run_of_mem hmem⟩

end Builtin

/-- The handler that the name of a call stands for, at a level with certain commands. -/
inductive Handles [CommandSet σ ω] (own : List CommandInfo) (inv : Invocation) :
    Handler σ ω (Outcome σ) → Prop where
  /-- the level has a command of the name -/
  | level (hown : ∃ info ∈ own, info.name = inv.name) : Handles own inv (CommandSet.run inv)
  /-- it has none, but there is a builtin -/
  | builtin (hown : ∀ info ∈ own, info.name ≠ inv.name)
      {handler : Invocation → Handler σ ω (Outcome σ)}
      (hbuiltin : (inv.name, handler) ∈ Builtin.handlers σ ω) : Handles own inv (handler inv)
  /-- no command of the name is known -/
  | unknown (hown : ∀ info ∈ own, info.name ≠ inv.name)
      (hbuiltin : ∀ info ∈ builtins, info.name ≠ inv.name) :
    Handles own inv (CommandSet.unknown inv)

theorem any_name_iff {infos : List CommandInfo} {name : String} :
    infos.any (·.name == name) = true ↔ ∃ info ∈ infos, info.name = name := by
  simp [List.any_eq_true]

theorem handles_handlerOf [CommandSet σ ω] (own : List CommandInfo) (inv : Invocation) :
    Handles own inv (Shell.handlerOf (Dispatch.route own inv.name) inv :
      Handler σ ω (Outcome σ)) := by
  rw [Dispatch.route]
  split
  · rename_i hown
    exact .level (any_name_iff.1 hown)
  · rename_i hown
    have hown : ∀ info ∈ own, info.name ≠ inv.name := fun info hinfo hname =>
      hown (any_name_iff.2 ⟨info, hinfo, hname⟩)
    split
    · rename_i hbuiltin
      obtain ⟨handler, hmem, hrun⟩ := Builtin.exists_handler (σ := σ) (ω := ω)
        (any_name_iff.1 hbuiltin)
      rw [Shell.handlerOf, hrun]
      exact .builtin hown hmem
    · rename_i hbuiltin
      exact .unknown hown fun info hinfo hname =>
        hbuiltin (any_name_iff.2 ⟨info, hinfo, hname⟩)

/-! ## The entry of a command -/

namespace Dispatch

/-- The entry of a name: the first one of the level, else that of a builtin. -/
def infoOf? (own : List CommandInfo) (name : String) : Option CommandInfo :=
  (own.find? (·.name = name)).or (builtins.find? (·.name = name))

/-- **The entry that a catalog has** for a name. -/
theorem find?_catalog (own : List CommandInfo) (name : String) :
    (catalog own).find? (·.name == name) = infoOf? own name := by
  rw [catalog, List.find?_append, List.find?_filter, infoOf?]
  simp only [beq_eq_decide]
  cases hown : own.find? (·.name = name) with
  | some info => rfl
  | none =>
    have hnone : ∀ mine ∈ own, mine.name ≠ name := by simpa using hown
    rw [Option.none_or, Option.none_or]
    congr 1
    funext info
    -- a builtin of this name is overridden by none
    by_cases hname : info.name = name
    · simpa [hname] using hnone
    · simp [hname]

end Dispatch

/-! ## The arguments of a command -/

/-- The arguments that the words of a statement are bound to, by the entry of its command.  If its
    help text describes a usage, the words are matched against it; otherwise, and when there is no
    entry, they stay as they are. -/
inductive Binds (info? : Option CommandInfo) (words : Words) : Usage.Arguments → Prop where
  | usage {info : CommandInfo} {u : Usage} {args : Usage.Arguments} {positional : List String}
      {captures : List Usage.Capture} (hinfo : info? = some info) (hhelp : u.DescribedBy info.help)
      (happly : u.apply words = .ok args) (hbound : u.Bound args positional captures) :
    Binds info? words args
  | bare (hhelp : ∀ info, info? = some info → ∀ u : Usage, ¬u.DescribedBy info.help) :
    Binds info? words (.bare words)

namespace Dispatch

variable {own : List CommandInfo} {aliases : AliasTable} {argv : Words}

theorem argv_of_binds {info? : Option CommandInfo} {words : Words} {args : Usage.Arguments}
    (h : Binds info? words args) : args.argv = words := by
  cases h with
  | usage _ hhelp happly _ =>
    exact (Usage.exists_bound (Usage.classified (Usage.ofHelp?_eq_ok_iff.2 hhelp)) happly).1
  | bare => rfl

theorem binds_of_bindArguments {info? : Option CommandInfo} {words : Words}
    {args : Usage.Arguments} {notes : List LogEntry}
    (h : bindArguments info? words = (.ok args, notes)) : Binds info? words args := by
  cases info? with
  | none =>
    cases h
    exact .bare nofun
  | some info =>
    rcases hhelp : Usage.ofHelp? info.help with fault | _ | u
    · simp only [bindArguments, hhelp, Prod.mk.injEq, Except.ok.injEq] at h
      obtain ⟨rfl, -⟩ := h
      refine .bare fun _ heq u hu => ?_
      cases heq
      rw [Usage.ofHelp?_eq_ok_iff.2 hu] at hhelp
      cases hhelp
    · simp only [bindArguments, hhelp, Prod.mk.injEq, Except.ok.injEq] at h
      obtain ⟨rfl, -⟩ := h
      refine .bare fun _ heq u hu => ?_
      cases heq
      rw [Usage.ofHelp?_eq_ok_iff.2 hu] at hhelp
      cases hhelp
    · simp only [bindArguments, hhelp, Prod.mk.injEq] at h
      obtain ⟨-, positional, captures, hbound⟩ :=
        Usage.exists_bound (Usage.classified hhelp) h.1
      exact .usage rfl (Usage.ofHelp?_eq_ok_iff.1 hhelp) h.1 hbound

/-- Arguments can only be refused by a usage. -/
theorem usage_of_bindArguments {info? : Option CommandInfo} {words : Words} {fault : Fault}
    {notes : List LogEntry} (h : bindArguments info? words = (.error fault, notes)) :
    notes = [] ∧ ∃ info u, info? = some info ∧ Usage.DescribedBy u info.help ∧
      u.apply words = .error fault := by
  cases info? with
  | none => cases h
  | some info =>
    rcases hhelp : Usage.ofHelp? info.help with fault' | _ | u
    · simp [bindArguments, hhelp] at h
    · simp [bindArguments, hhelp] at h
    · simp only [bindArguments, hhelp, Prod.mk.injEq] at h
      exact ⟨h.2.symm, info, u, rfl, Usage.ofHelp?_eq_ok_iff.1 hhelp, h.1⟩

/-! ## Plans -/

/-- Why a statement is not run, at a level with certain commands and aliases. -/
inductive Refuses (own : List CommandInfo) (aliases : AliasTable) (argv : Words) : Fault → Prop where
  /-- its aliases cannot be expanded -/
  | alias {fault : Fault} (hexpand : aliases.expand argv = .error fault) :
    Refuses own aliases argv fault
  /-- the usage of its command does not allow its words -/
  | usage {words : Words} {info : CommandInfo} {u : Usage} {fault : Fault}
      (hexpand : aliases.expand argv = .ok words)
      (hinfo : infoOf? own (words.headD "") = some info) (hhelp : u.DescribedBy info.help)
      (happly : u.apply words = .error fault) : Refuses own aliases argv fault

/-- A statement does nothing, as it stands or when its aliases are expanded. -/
def Skips (aliases : AliasTable) (argv : Words) : Prop :=
  isNoop argv = true ∨ ∃ words, aliases.expand argv = .ok words ∧ isNoop words = true

/-- The ways in which a statement is planned. -/
inductive Planned (own : List CommandInfo) (aliases : AliasTable) (argv : Words) :
    Plan × List LogEntry → Prop where
  | skip (hskips : Skips aliases argv) : Planned own aliases argv (.skip, [])
  | refuse {fault : Fault} (hrefuses : Refuses own aliases argv fault) :
    Planned own aliases argv (.refuse fault, [])
  | call {args : Usage.Arguments} {notes : List LogEntry}
      (hexpand : aliases.expand argv = .ok args.argv)
      (hbinds : Binds (infoOf? own args.name) args.argv args) :
    Planned own aliases argv (.call (route own args.name) ⟨args, catalog own⟩, notes)

/-- **How a statement is planned.** -/
theorem planned (own : List CommandInfo) (aliases : AliasTable) (argv : Words) :
    Planned own aliases argv (plan own aliases argv) := by
  rw [plan]
  split
  · rename_i hnoop
    exact .skip (.inl hnoop)
  · cases hexpand : aliases.expand argv with
    | error fault => exact .refuse (.alias hexpand)
    | ok words =>
      dsimp only
      rw [planExpanded]
      split
      · rename_i hnoop
        exact .skip (.inr ⟨words, hexpand, hnoop⟩)
      · simp only [find?_catalog]
        rcases hbind : bindArguments (infoOf? own (words.headD "")) words with ⟨fault | args, notes⟩
        · obtain ⟨rfl, info, u, hinfo, hhelp, happly⟩ := usage_of_bindArguments hbind
          exact .refuse (.usage hexpand hinfo hhelp happly)
        · have hbinds := binds_of_bindArguments hbind
          obtain rfl := argv_of_binds hbinds
          exact .call hexpand hbinds

end Dispatch

/-! ## Catalogs -/

/-- A catalog for a level: its own commands, and the builtins that none of them has the name of,
    each of those once. -/
structure Catalogs (own catalog : List CommandInfo) : Prop where
  builtins : ∃ more, catalog = own ++ more ∧ more.Sublist builtins ∧
    (more.map CommandInfo.name).Nodup ∧
    ∀ info, info ∈ more ↔ info ∈ NestedShell.builtins ∧ ∀ mine ∈ own, mine.name ≠ info.name

theorem nodup_names_builtins : (builtins.map CommandInfo.name).Nodup := by decide

theorem catalogs_catalog (own : List CommandInfo) : Catalogs own (Dispatch.catalog own) := by
  have hsublist : (builtins.filter fun info => !own.any (·.name == info.name)).Sublist builtins :=
    List.filter_sublist
  refine ⟨_, rfl, hsublist, nodup_names_builtins.sublist (hsublist.map _), fun info => ?_⟩
  simp

/-! ## Calls -/

/-- A call of a handler: who it is, what it is called with, and the desk that it works on. -/
structure Call (σ ω : Type) where
  route : Route
  inv : Invocation
  desk : Desk σ ω

namespace Call

variable [CommandSet σ ω]

/-- The handler that is called. -/
def handler (c : Call σ ω) : Handler σ ω (Outcome σ) := Shell.handlerOf c.route c.inv

/-- The answer of the handler, and a shell as the handler leaves it. -/
def reply (c : Call σ ω) (s : Shell σ ω) : Except Fault (Outcome σ) × Shell σ ω :=
  let (answer, d) := c.handler.run.run c.desk
  (answer, s.putBack d)

/-- How a level calls a handler for a statement. -/
structure Routed (c : Call σ ω) (s : Shell σ ω) (level : Level σ) (argv : Words) : Prop where
  words : level.aliases.expand argv = .ok c.inv.args.argv
  handler : Handles (CommandSet.commands level.commands) c.inv c.handler
  args : Binds (Dispatch.infoOf? (CommandSet.commands level.commands) c.inv.name) c.inv.args.argv
    c.inv.args
  catalog : Catalogs (CommandSet.commands level.commands) c.inv.catalog
  /-- something may have been noted before -/
  desk : ∃ notes, c.desk = (s.noteAll notes).desk level

end Call

namespace Shell

variable [CommandSet σ ω]

/-- The call of the handler that a statement reaches. -/
def call? (s : Shell σ ω) (argv : Words) : Option (Call σ ω) :=
  match s.stack.top? with
  | none => none
  | some level =>
    match Dispatch.plan (CommandSet.commands level.commands) level.aliases argv with
    | (.call route inv, notes) => some ⟨route, inv, (s.noteAll notes).desk level⟩
    | _ => none

/-- Goes on after the answer of a handler. -/
def settle (t : Shell σ ω) : Except Fault (Outcome σ) → Dispatch × Shell σ ω
  | .ok outcome => t.conclude outcome
  | .error fault => (.failed, t.reportFault fault)

theorem reply?_eq (s : Shell σ ω) (argv : Words) :
    s.reply? argv = (s.call? argv).map fun c => c.reply s := by
  rw [reply?, call?]
  cases s.stack.top? with
  | none => rfl
  | some level =>
    rcases hplan : Dispatch.plan (CommandSet.commands level.commands) level.aliases argv with
      ⟨_ | fault | ⟨route, inv⟩, notes⟩
    all_goals simp only [hplan]; rfl

/-- What a statement does that reaches no handler. -/
inductive Uncalled (s : Shell σ ω) (argv : Words) : Dispatch × Shell σ ω → Prop where
  | nowhere (htop : s.stack.top? = none) : Uncalled s argv (.ended, s)
  | skipped {level : Level σ} (htop : s.stack.top? = some level)
      (hskips : Dispatch.Skips level.aliases argv) : Uncalled s argv (.skipped, s)
  | refused {level : Level σ} {fault : Fault} (htop : s.stack.top? = some level)
      (hrefuses : Dispatch.Refuses (CommandSet.commands level.commands) level.aliases argv fault) :
    Uncalled s argv (.failed, s.refuse fault)

/-- **A statement that reaches no handler** is skipped or refused, if there is a level. -/
theorem dispatch_of_none {s : Shell σ ω} {argv : Words} (h : s.call? argv = none) :
    s.Uncalled argv (s.dispatch argv) := by
  rw [call?] at h
  rw [dispatch]
  cases htop : s.stack.top? with
  | none => exact .nowhere htop
  | some level =>
    simp only [htop] at h
    dsimp only
    have hplanned := Dispatch.planned (CommandSet.commands level.commands) level.aliases argv
    generalize Dispatch.plan (CommandSet.commands level.commands) level.aliases argv = p
      at h hplanned
    cases hplanned with
    | skip hskips => exact .skipped htop hskips
    | refuse hrefuses => exact .refused htop hrefuses
    | call => cases h

/-- **A statement that reaches a handler** does what the handler answers. -/
theorem dispatch_of_call {s : Shell σ ω} {argv : Words} {c : Call σ ω}
    (h : s.call? argv = some c) :
    s.dispatch argv = (c.reply s).2.settle (c.reply s).1 := by
  rw [call?] at h
  split at h
  · cases h
  · rename_i level htop
    rcases hplan : Dispatch.plan (CommandSet.commands level.commands) level.aliases argv with
      ⟨_ | fault | ⟨route, inv⟩, notes⟩
    · simp [hplan] at h
    · simp [hplan] at h
    · simp only [hplan, Option.some.injEq] at h
      subst h
      simp only [dispatch, htop, hplan, carryOut, Call.reply, Call.handler]
      rcases (handlerOf route inv).run.run ((s.noteAll notes).desk level) with
        ⟨fault | outcome, d⟩ <;> rfl

/-- **Every handler gets arguments that are bound by its own usage.**  The handler that a statement
    reaches is that of the level, of a builtin, or for unknown commands, by the name that its
    aliases lead to.  The entry of that name binds its arguments; and its catalog has the commands
    of the level and the builtins that these do not override. -/
theorem routed_of_call {s : Shell σ ω} {argv : Words} {c : Call σ ω}
    (h : s.call? argv = some c) :
    s.dispatch argv = (c.reply s).2.settle (c.reply s).1 ∧
      ∃ level, s.stack.top? = some level ∧ c.Routed s level argv := by
  refine ⟨dispatch_of_call h, ?_⟩
  rw [call?] at h
  split at h
  · cases h
  · rename_i level htop
    refine ⟨level, htop, ?_⟩
    have hplanned := Dispatch.planned (CommandSet.commands level.commands) level.aliases argv
    generalize Dispatch.plan (CommandSet.commands level.commands) level.aliases argv = p
      at h hplanned
    cases hplanned with
    | skip | refuse => cases h
    | @call args notes hexpand hbinds =>
      cases h
      exact ⟨hexpand, handles_handlerOf _ _, hbinds, catalogs_catalog _, notes, rfl⟩

/-- A level with two commands of one name, which is that of a builtin. -/
def overriding : Shell Scripted World :=
  let vocabulary : Vocabulary :=
    { commands := [(⟨"echo", "Usage: echo <word>"⟩, .nothing), (⟨"echo", "Usage: echo"⟩, .abort)] }
  let aliases : AliasTable := { entries := (∅ : Std.TreeMap _ _).insert "say" ["echo"] }
  Shell.pushRoot { console := .new .plain {} {} {}, world := {} }
    (.vocabulary "overriding" [("overriding", vocabulary)]) .empty aliases

/-- The level handles the command, and the first of the two entries binds the argument. -/
theorem routed_overriding :
    ∃ c, overriding.call? ["say", "hi"] = some c ∧
      (∃ level, overriding.stack.top? = some level ∧ c.Routed overriding level ["say", "hi"]) ∧
      c.route = .level ∧ c.inv.args.get? "<word>" = some "hi" ∧ c.inv.catalog.length = 9 := by
  have hcall : (overriding.call? ["say", "hi"]).map
      (fun c => (c.route, c.inv.args.get? "<word>", c.inv.catalog.length)) =
        some (.level, some "hi", 9) := by
    decide +kernel
  obtain ⟨c, hc, hvalues⟩ := Option.map_eq_some_iff.1 hcall
  simp only [Prod.mk.injEq] at hvalues
  exact ⟨c, hc, (routed_of_call hc).2, hvalues⟩

end Shell

end NestedShell
