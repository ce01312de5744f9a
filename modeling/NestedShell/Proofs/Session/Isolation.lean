/-
  The levels below the active one are isolated.

  Whatever happens to a session, an act changes what the active level holds, and it enters or leaves
  at most one level.  So a level that is covered by another one is the same until the level above it
  is left, and then it is resumed.

  * `Numbered`: every level holds its place in the stack as its depth;
  * `Session.departure?` is the value with which an act leaves the active level; `act_noneLeft` and
    `act_of_departure` tell what an act does to the levels;
  * `covered_after`: what is covered stays, `resumed_act`: until it is resumed;
  * `Session.Isolated` and `reached_isolated` put this together for the sessions that are reached.
-/
import Mathlib.Tactic.SplitIfs
import NestedShell.Proofs.Shell.Levels
import NestedShell.Proofs.Session.Acts

namespace NestedShell

variable {σ ω : Type}

/-! ## Places -/

/-- Every level holds its place, counted from the bottom, as its depth. -/
def Numbered (ls : List (Level σ)) : Prop :=
  ∀ (i : Nat) (level : Level σ), ls.reverse[i]? = some level → level.depth = i + 1

theorem numbered_nil : Numbered ([] : List (Level σ)) := by
  intro i level h
  simp at h

theorem numbered_cons {l : Level σ} {below : List (Level σ)} :
    Numbered (l :: below) ↔ l.depth = below.length + 1 ∧ Numbered below := by
  have hplace (i : Nat) : (l :: below).reverse[i]? =
      if i < below.length then below.reverse[i]?
      else if i = below.length then some l else none := by
    rw [List.reverse_cons, List.getElem?_append, List.length_reverse, List.getElem?_singleton]
    split
    · rfl
    · rename_i hi
      have hiff : i - below.length = 0 ↔ i = below.length := by omega
      simp only [hiff]
  constructor
  · intro h
    refine ⟨h below.length l ?_, ?_⟩
    · rw [hplace, if_neg (Nat.lt_irrefl _), if_pos rfl]
    · intro i level hi
      refine h i level ?_
      have hlt : i < below.length := by
        have hsome := (List.getElem?_eq_some_iff.1 hi).1
        rwa [List.length_reverse] at hsome
      rw [hplace, if_pos hlt, hi]
  · rintro ⟨hl, h⟩ i level hi
    rw [hplace] at hi
    split_ifs at hi with hlt heq
    · exact h i level hi
    · cases hi
      rw [hl, heq]

theorem Numbered.onlyTop {ls ls' : List (Level σ)} (h : Numbered ls) (htop : OnlyTop ls ls') :
    Numbered ls' := by
  cases ls with
  | nil =>
    rw [List.length_eq_zero_iff.1 htop.length_eq]
    exact numbered_nil
  | cons l below =>
    obtain ⟨l', hdepth, rfl⟩ := htop.eq_cons
    obtain ⟨hl, hbelow⟩ := numbered_cons.1 h
    exact numbered_cons.2 ⟨hdepth.trans hl, hbelow⟩

theorem Numbered.noneLeft {ls ls' : List (Level σ)} (h : Numbered ls) (hleft : NoneLeft ls ls') :
    Numbered ls' := by
  cases hleft with
  | changed htop => exact h.onlyTop htop
  | entered htop hdepth => exact numbered_cons.2 ⟨hdepth, h.onlyTop htop⟩

variable [CommandSet σ ω]

theorem Level.resumed_depth (l : Level σ) (value : Option Value) (console : Console) (world : ω) :
    (l.resumed value console world).depth = l.depth := by
  cases value <;> rfl

theorem Numbered.pop {s : Shell σ ω} (h : Numbered s.stack.levels) (value : Option Value) :
    Numbered (s.pop value).2.stack.levels := by
  rcases hlevels : s.stack.levels with _ | ⟨level, _ | ⟨parent, below⟩⟩
  · rw [Shell.pop_nil hlevels]
    exact h
  · obtain ⟨u, hpop, hrest⟩ := Shell.pop_last hlevels value
    rw [hpop, hrest]
    exact numbered_nil
  · obtain ⟨u, hpop, hrest⟩ := Shell.pop_nested hlevels value
    rw [hlevels] at h
    obtain ⟨-, hparent⟩ := numbered_cons.1 h
    obtain ⟨hdepth, hbelow⟩ := numbered_cons.1 hparent
    rw [hpop, hrest]
    exact numbered_cons.2 ⟨(parent.resumed_depth ..).trans hdepth, hbelow⟩

namespace Session

/-! ## What an act does -/

/-- The levels of a session, the active one first. -/
abbrev levels (s : Session σ ω) : List (Level σ) := s.shell.stack.levels

/-- The value with which an act leaves the active level, and the shell at that time. -/
def departure? (s : Session σ ω) : Act σ ω → Option (Option Value × Shell σ ω)
  | .read _ pos c =>
    match s.shell.stack.top? with
    | none => none
    | some level =>
      match s.reader.step level.env.lookup pos c with
      | (.ok (some argv), _) => (s.prepare argv).departure? argv
      | _ => none
  | .statement argv => s.shell.departure? argv
  | .close continuing interactive => some (none, (s.endInput continuing interactive).shell)
  | .pop value => some (value, s.shell)
  | _ => none

omit [CommandSet σ ω] in
theorem endInput_stack (s : Session σ ω) (continuing interactive : Bool) :
    (s.endInput continuing interactive).shell.stack = s.shell.stack := by
  cases continuing <;> cases interactive <;> rfl

/-- **An act that does not ask for it** leaves no level. -/
theorem act_noneLeft {s : Session σ ω} {a : Act σ ω} (h : s.departure? a = none) :
    NoneLeft s.levels (s.act a).levels := by
  cases a with
  | read text pos c =>
    have hread := s.charRead text pos c
    rw [act]
    generalize s.readChar text pos c = result at hread ⊢
    cases hread with
    | nowhere => exact .changed (.refl _)
    | unfinished => exact .changed (.refl _)
    | refused => exact .changed (.onTop s.shell.stack fun _ => rfl)
    | halted htop hstep | performed htop hstep =>
      simp only [departure?, htop, hstep] at h
      simp only [levels, abandon, perform_shell]
      exact Shell.dispatch_noneLeft h
  | statement argv => exact Shell.dispatch_noneLeft h
  | close | pop => simp [departure?] at h
  | pushRoot => exact .entered (.refl _) rfl
  | push commands => exact s.shell.noneLeft_push commands
  | edit => exact .changed (.onTop s.shell.stack fun _ => rfl)
  | queue | drop | outside => exact .changed (.refl _)

/-- **An act that leaves the active level** pops it. -/
theorem stack_of_departure {s : Session σ ω} {a : Act σ ω} {value : Option Value} {t : Shell σ ω}
    (h : s.departure? a = some (value, t)) :
    OnlyTop s.levels t.stack.levels ∧ (s.act a).shell.stack = (t.pop value).2.stack := by
  cases a with
  | read text pos c =>
    have hread := s.charRead text pos c
    rw [act]
    generalize s.readChar text pos c = result at hread ⊢
    cases hread with
    | nowhere htop => simp [departure?, htop] at h
    | refused htop hstep | unfinished htop hstep => simp [departure?, htop, hstep] at h
    | halted htop hstep | performed htop hstep =>
      simp only [departure?, htop, hstep] at h
      simp only [abandon, perform_shell]
      obtain ⟨hlevels, hdispatch⟩ := Shell.dispatch_of_departure h
      exact ⟨hlevels, congrArg (·.stack) hdispatch⟩
  | statement argv =>
    obtain ⟨hlevels, hdispatch⟩ := Shell.dispatch_of_departure h
    exact ⟨hlevels, congrArg (·.stack) hdispatch⟩
  | close continuing interactive =>
    cases h
    refine ⟨?_, rfl⟩
    rw [endInput_stack]
    exact .refl _
  | pop =>
    cases h
    exact ⟨.refl _, rfl⟩
  | queue | drop | pushRoot | push | edit | outside => cases h

theorem act_of_departure {s : Session σ ω} {a : Act σ ω} {value : Option Value} {t : Shell σ ω}
    (h : s.departure? a = some (value, t)) :
    OnlyTop s.levels t.stack.levels ∧ (s.act a).levels = (t.pop value).2.stack.levels := by
  obtain ⟨htop, hstack⟩ := stack_of_departure h
  exact ⟨htop, congrArg Stack.levels hstack⟩

theorem numbered_act {s : Session σ ω} (h : Numbered s.levels) (a : Act σ ω) :
    Numbered (s.act a).levels := by
  cases hdeparture : s.departure? a with
  | none => exact h.noneLeft (act_noneLeft hdeparture)
  | some departure =>
    obtain ⟨htop, hact⟩ := act_of_departure hdeparture
    rw [hact]
    exact (h.onlyTop htop).pop _

theorem Reached.numbered {s : Session σ ω} (h : s.Reached) : Numbered s.levels := by
  induction h with
  | start => exact numbered_nil
  | act _ a ih => exact numbered_act ih a

/-! ## Covered levels -/

/-- Some levels are covered: they are there, below others. -/
def Covered (base ls : List (Level σ)) : Prop := ∃ upper, upper ≠ [] ∧ ls = upper ++ base

omit [CommandSet σ ω] in
theorem Covered.length_lt {base ls : List (Level σ)} (h : Covered base ls) :
    base.length < ls.length := by
  obtain ⟨upper, hne, rfl⟩ := h
  have hpos := List.length_pos_iff.2 hne
  rw [List.length_append]
  omega

omit [CommandSet σ ω] in
theorem Covered.onlyTop {base ls ls' : List (Level σ)} (h : Covered base ls)
    (htop : OnlyTop ls ls') : Covered base ls' := by
  obtain ⟨upper, hne, rfl⟩ := h
  obtain ⟨l, upper, rfl⟩ := List.exists_cons_of_ne_nil hne
  obtain ⟨l', -, rfl⟩ := htop.eq_cons
  exact ⟨l' :: upper, List.cons_ne_nil _ _, rfl⟩

omit [CommandSet σ ω] in
theorem Covered.noneLeft {base ls ls' : List (Level σ)} (h : Covered base ls)
    (hleft : NoneLeft ls ls') : Covered base ls' := by
  cases hleft with
  | changed htop => exact h.onlyTop htop
  | @entered ls' htop child hdepth =>
    obtain ⟨upper, -, rfl⟩ := h.onlyTop htop
    exact ⟨child :: upper, List.cons_ne_nil _ _, rfl⟩

/-- An act leaves covered levels covered, unless it leaves the only level above them. -/
theorem covered_act {s : Session σ ω} {base : List (Level σ)} (h : Covered base s.levels)
    (a : Act σ ω) :
    Covered base (s.act a).levels ∨
      ∃ value t top, s.departure? a = some (value, t) ∧ t.stack.levels = top :: base ∧
        (s.act a).levels = (t.pop value).2.stack.levels := by
  cases hdeparture : s.departure? a with
  | none => exact .inl (h.noneLeft (act_noneLeft hdeparture))
  | some departure =>
    obtain ⟨value, t⟩ := departure
    obtain ⟨htop, hact⟩ := act_of_departure hdeparture
    obtain ⟨upper, hne, hlevels⟩ := h.onlyTop htop
    obtain ⟨top, upper, rfl⟩ := List.exists_cons_of_ne_nil hne
    cases upper with
    | nil => exact .inr ⟨value, t, top, rfl, hlevels, hact⟩
    | cons parent upper =>
      obtain ⟨u, hpop, hrest⟩ := Shell.pop_nested hlevels value
      rw [hact, hpop, hrest]
      exact .inl ⟨_ :: upper, List.cons_ne_nil _ _, rfl⟩

/-- **Covered levels** stay as they are as long as there are more levels. -/
theorem covered_after {s : Session σ ω} {base : List (Level σ)} {acts : List (Act σ ω)}
    (h : Covered base s.levels)
    (hmore : ∀ pre, pre <+: acts → base.length < (s.after pre).levels.length) :
    Covered base (s.after acts).levels := by
  induction acts generalizing s with
  | nil => exact h
  | cons a acts ih =>
    have hone : base.length < (s.act a).levels.length := hmore [a] ⟨acts, rfl⟩
    have hrest : ∀ pre, pre <+: acts → base.length < ((s.act a).after pre).levels.length := by
      intro pre hpre
      exact hmore (a :: pre) (List.cons_prefix_cons.2 ⟨rfl, hpre⟩)
    refine ih ?_ hrest
    rcases covered_act h a with hcovered | ⟨value, t, top, -, hlevels, hact⟩
    · exact hcovered
    · rw [hact] at hone
      cases base with
      | nil =>
        obtain ⟨u, hpop, hrest⟩ := Shell.pop_last hlevels value
        rw [hpop, hrest] at hone
        exact absurd hone (Nat.lt_irrefl _)
      | cons parent below =>
        obtain ⟨u, hpop, hrest⟩ := Shell.pop_nested hlevels value
        rw [hpop, hrest] at hone
        exact absurd hone (Nat.lt_irrefl _)

/-- **A covered level that is active again** has been resumed with the value of the level above
    it. -/
theorem resumed_act {s : Session σ ω} {parent : Level σ} {below : List (Level σ)} {a : Act σ ω}
    (h : Covered (parent :: below) s.levels) (hback : (s.act a).levels.length ≤ below.length + 1) :
    ∃ value t top, s.departure? a = some (value, t) ∧ t.stack.levels = top :: parent :: below ∧
      (s.act a).levels =
        parent.resumed value t.console (CommandSet.finalize top.commands t.world) :: below := by
  rcases covered_act h a with hcovered | ⟨value, t, top, hdeparture, hlevels, hact⟩
  · exact absurd hcovered.length_lt (Nat.not_lt.2 hback)
  · obtain ⟨u, hpop, hrest⟩ := Shell.pop_nested hlevels value
    rw [hpop, hrest] at hact
    exact ⟨value, t, top, hdeparture, hlevels, hact⟩

/-- What nesting promises in a session. -/
structure Isolated (s : Session σ ω) : Prop where
  /-- The depth of a level is its place. -/
  numbered : Numbered s.levels
  /-- The depth that is reported is the new number of levels. -/
  push_reports : ∀ commands, s.shell.nextDepth = (s.shell.push commands).stack.depth
  pushRoot_reports : ∀ commands env aliases,
    s.shell.nextDepth = (s.shell.pushRoot commands env aliases).stack.depth
  pop_reports : ∀ value depth, (s.shell.pop value).1 = .resumed depth →
    depth = (s.shell.pop value).2.stack.depth
  dispatch_reports : ∀ argv, (s.shell.dispatch argv).1.Counts s.shell.stack.depth
    (s.shell.dispatch argv).2.stack.depth
  /-- A level that a statement enters inherits from the one that was active. -/
  inherits : ∀ argv commands t, s.shell.reply? argv = some (.ok (.enter commands), t) →
    ∃ child parent below u, t.stack.levels = parent :: below ∧
      s.shell.dispatch argv = (.entered (below.length + 2), u) ∧
      u.stack.levels = child :: parent :: below ∧ child.Inherits parent commands
  /-- Whatever happens, covered levels are the same as long as there are more levels. -/
  kept : ∀ base acts, Covered base s.levels →
    (∀ pre, pre <+: acts → base.length < (s.after pre).levels.length) →
    Covered base (s.after acts).levels
  /-- The act that makes a level active again resumes it and changes nothing below. -/
  resumed : ∀ parent below acts a, Covered (parent :: below) s.levels →
    (∀ pre, pre <+: acts → below.length + 1 < (s.after pre).levels.length) →
    ((s.after acts).act a).levels.length ≤ below.length + 1 →
    ∃ value t top, (s.after acts).departure? a = some (value, t) ∧
      t.stack.levels = top :: parent :: below ∧
      ((s.after acts).act a).levels =
        parent.resumed value t.console (CommandSet.finalize top.commands t.world) :: below
  /-- Feeding the session and running it is a sequence of acts. -/
  feeds : ∀ text, s.Leads (s.feed text).2
  runs : ∀ source, s.Leads (s.run source).session

/-- **Levels are isolated**, whatever the command sets do. -/
theorem reached_isolated {s : Session σ ω} (h : s.Reached) : s.Isolated where
  numbered := h.numbered
  push_reports commands := (s.shell.depth_push commands).symm
  pushRoot_reports _ _ _ := rfl
  pop_reports _ _ := Shell.pop_reports
  dispatch_reports := s.shell.dispatch_counts
  inherits argv commands t hreply := by
    obtain ⟨hlevels, htop, hdispatch⟩ := Shell.dispatch_of_reply hreply
    obtain ⟨level, rest, hs⟩ := List.exists_cons_of_ne_nil hlevels
    rw [hs] at htop
    obtain ⟨parent, -, ht⟩ := htop.eq_cons
    obtain ⟨child, hpush, -, hinherits⟩ := Shell.levels_push ht commands
    have hdepth : t.nextDepth = rest.length + 2 := by
      rw [Shell.nextDepth, Stack.depth, ht, List.length_cons]
    refine ⟨child, parent, rest, t.push commands, ht, ?_, hpush, hinherits⟩
    rw [hdispatch, Shell.conclude, hdepth]
  kept _ _ := covered_after
  resumed _ _ _ _ hcovered hmore hback := resumed_act (covered_after hcovered hmore) hback
  feeds := s.leads_feed
  runs := s.leads_run

/-- The third level enters the fourth one, and is covered by it until it is left after a failure. -/
theorem nesting_isolated :
    let third : Session Scripted World :=
      .new (.vocabulary "nesting" [("nesting", nestingVocabulary)]) (.ofList [("SHLVL", " 2 ")]) {}
        (.new .plain {} {} {}) {}
    let s := third.after [.statement ["in"]]
    (third.Isolated ∧ third.levels.map (·.env.get? "SHLVL") = [some "3"]) ∧
      (s.Isolated ∧ s.levels.map (·.env.get? "SHLVL") = [some "4", some "3"]) ∧
      (∃ parent, Covered [parent] s.levels) ∧
      (∀ pre, pre <+: [.statement ["fail"]] → 1 < (s.after pre).levels.length) ∧
      ((s.after [.statement ["fail"]]).act (.statement ["out"])).levels.length = 1 := by
  intro third s
  have hthird : third.Reached := reached_new ..
  have htwo : s.levels.length = 2 := by decide +kernel
  refine ⟨⟨reached_isolated hthird, by decide +kernel⟩,
    ⟨reached_isolated (hthird.after _), by decide +kernel⟩, ?_, ?_, by decide +kernel⟩
  · rcases hlevels : s.levels with _ | ⟨level, _ | ⟨parent, _ | ⟨_, _⟩⟩⟩ <;>
      simp [hlevels] at htwo
    exact ⟨parent, [level], List.cons_ne_nil _ _, rfl⟩
  · intro pre hpre
    rcases List.prefix_cons_iff.1 hpre with rfl | ⟨pre, rfl, hnil⟩
    · rw [after, List.foldl_nil, htwo]
      exact Nat.lt_succ_self 1
    · rw [List.prefix_nil.1 hnil]
      decide +kernel

end Session

end NestedShell
