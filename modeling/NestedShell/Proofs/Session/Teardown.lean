/-
  What happens to levels, over whole runs.

  A watched session records when levels are entered, and when the command set of a level is told that
  the level is left or resumed with a value.  The record is well nested: what has happened tells
  which levels are there, and the command set of every other level has been told once.

  * `Nests`: a record of well nested levels, and the levels that are open in it; `Nests.once`: every
    level is entered once, and told once that it is left unless it is open;
  * `Session.watchAct`, `watchAfter`: acts of a watched session; `watchAct_step`: what one of them
    records;
  * `Session.TornDown` and `watched_tornDown` put this together: whatever the command sets do, and
    whether the session is fed, run or acted upon from outside.
-/
import NestedShell.Proofs.Session.Watch

namespace NestedShell

variable {σ ω : Type}

/-! ## Records of nested levels -/

/-- What has happened to levels, the latest first, and the levels that are open after it, the active
    one first.  A level is numbered by its place in the record. -/
inductive Nests : List LevelEvent → List Nat → Prop where
  | nil : Nests [] []
  /-- a new level is active -/
  | start {es : List LevelEvent} {ns : List Nat} (h : Nests es ns) :
    Nests (.start es.length :: es) (es.length :: ns)
  /-- the active level is left -/
  | finish {n : Nat} {es : List LevelEvent} {ns : List Nat} (h : Nests es (n :: ns)) :
    Nests (.finish n :: es) ns
  /-- the active level is left, and then its value goes to the one directly below -/
  | resume {n m : Nat} {es : List LevelEvent} {ns : List Nat} (h : Nests es (n :: m :: ns))
    (value : Value) : Nests (.resume m value :: .finish n :: es) (m :: ns)

theorem Nests.step {departure : Option (Option Value)} {r r' : Roll}
    (h : Nests r.events r.numbers) (hstep : r.Step departure r') :
    Nests r'.events r'.numbers := by
  cases hstep with
  | stay | nowhere => exact h
  | enter ns es => exact h.start
  | last | back => exact h.finish
  | handOver value => exact h.resume value

namespace Nests

variable {es : List LevelEvent} {ns : List Nat}

/-- A level is entered at most once, before the record gets longer than its number. -/
theorem count_start_le (h : Nests es ns) (n : Nat) :
    es.count (.start n) ≤ if n < es.length then 1 else 0 := by
  induction h with
  | nil => exact Nat.zero_le _
  | @start es ns _ ih =>
    -- no level has the new number yet, as it is the length of the record
    simp only [List.count_cons, List.length_cons, beq_iff_eq, LevelEvent.start.injEq]
    split_ifs at ih ⊢ <;> omega
  | finish _ ih | resume _ _ ih =>
    simp only [List.count_cons, List.length_cons, beq_iff_eq, reduceCtorEq, if_false]
    split_ifs at ih ⊢ <;> omega

/-- A level that was entered was left, or is open. -/
theorem count_start (h : Nests es ns) (n : Nat) :
    es.count (.start n) = es.count (.finish n) + ns.count n := by
  induction h with
  | nil => rfl
  | start _ ih | finish _ ih | resume _ _ ih =>
    simp only [List.count_cons, beq_iff_eq, LevelEvent.start.injEq, LevelEvent.finish.injEq,
      reduceCtorEq, if_false] at ih ⊢
    omega

/-- **Every level is entered once**, and told once that it is left unless it is open. -/
theorem once (h : Nests es ns) {n : Nat} (hn : .start n ∈ es) :
    es.count (.start n) = 1 ∧ es.count (.finish n) = if n ∈ ns then 0 else 1 := by
  have hpos := List.count_pos_iff.2 hn
  have hle : es.count (.start n) ≤ 1 := Nat.le_trans (h.count_start_le n) (by split <;> decide)
  have hcount := h.count_start n
  have hopen : 0 < ns.count n ↔ n ∈ ns := List.count_pos_iff
  split_ifs with hmem
  · have := hopen.2 hmem
    omega
  · have := mt hopen.1 hmem
    omega

end Nests

namespace Session

/-! ## Acts of a watched session -/

/-- A session that is not watched any more. -/
def unwatched (w : Session (Watched σ) (Watch ω)) : Session σ ω :=
  w.map Watched.inner Watch.world

/-- The levels of a watched session, and what has happened to levels. -/
def roll (w : Session (Watched σ) (Watch ω)) : Roll := w.shell.roll

/-- The level that an act enters from outside is recorded before. -/
def announce (w : Session (Watched σ) (Watch ω)) : Act σ ω → Session (Watched σ) (Watch ω)
  | .pushRoot .. | .push _ =>
    { w with shell.world.events := .start w.shell.world.next :: w.shell.world.events }
  | _ => w

end Session

/-- An act upon a watched session.  A level that is entered from outside gets a number as well, and a
    change from outside leaves the numbers and the record alone. -/
def Act.watched (w : Session (Watched σ) (Watch ω)) : Act σ ω → Act (Watched σ) (Watch ω)
  | queue text => queue text
  | read text pos c => read text pos c
  | drop => drop
  | close continuing interactive => close continuing interactive
  | statement argv => statement argv
  | pushRoot commands env aliases => pushRoot ⟨w.shell.world.next, commands⟩ env aliases
  | push commands => push ⟨w.shell.world.next, commands⟩
  | pop value => pop value
  | edit commands env aliases scopes =>
    edit ⟨w.roll.numbers.headD 0, commands⟩ env aliases scopes
  | outside console interrupted world trace =>
    outside console interrupted ⟨world, w.roll.events⟩ trace

namespace Session

variable [CommandSet σ ω]

/-- Does an act while it is watched. -/
def watchAct (w : Session (Watched σ) (Watch ω)) (a : Act σ ω) : Session (Watched σ) (Watch ω) :=
  (w.announce a).act (a.watched w)

/-- Does acts while they are watched. -/
def watchAfter (w : Session (Watched σ) (Watch ω)) (acts : List (Act σ ω)) :
    Session (Watched σ) (Watch ω) :=
  acts.foldl watchAct w

omit [CommandSet σ ω] in
theorem act_unwatched (w : Session (Watched σ) (Watch ω)) (a : Act σ ω) :
    (a.watched w).map Watched.inner Watch.world = a := by
  cases a <;> rfl

omit [CommandSet σ ω] in
theorem unwatched_announce (w : Session (Watched σ) (Watch ω)) (a : Act σ ω) :
    (w.announce a).unwatched = w.unwatched := by
  cases a <;> rfl

/-- An act under watch does what it does unwatched. -/
theorem unwatched_watchAct (w : Session (Watched σ) (Watch ω)) (a : Act σ ω) :
    (w.watchAct a).unwatched = w.unwatched.act a := by
  rw [watchAct, unwatched, ← act_map unwatch, act_unwatched]
  exact congrArg (act · a) (unwatched_announce w a)

theorem unwatched_watchAfter (w : Session (Watched σ) (Watch ω)) (acts : List (Act σ ω)) :
    (w.watchAfter acts).unwatched = w.unwatched.after acts := by
  induction acts generalizing w with
  | nil => rfl
  | cons a acts ih =>
    have htail := ih (w.watchAct a)
    rwa [unwatched_watchAct] at htail

/-- The active level is left with the value with which it is left unwatched. -/
theorem departure?_watched (w : Session (Watched σ) (Watch ω)) (a : Act σ ω) :
    (w.unwatched.departure? a).map Prod.fst =
      ((w.announce a).departure? (a.watched w)).map Prod.fst := by
  have hdeparture := (w.announce a).departure?_map unwatch (a.watched w)
  rw [act_unwatched, show (w.announce a).map Watched.inner Watch.world = w.unwatched from
    unwatched_announce w a] at hdeparture
  rw [hdeparture, Option.map_map]
  rfl

omit [CommandSet σ ω] in
theorem roll_endInput (w : Session (Watched σ) (Watch ω)) (continuing interactive : Bool) :
    (w.endInput continuing interactive).roll = w.roll := by
  cases continuing <;> cases interactive <;> rfl

theorem readChar_step (w : Session (Watched σ) (Watch ω)) (text : String) (pos : Nat) (c : Char) :
    Roll.Step ((w.departure? (.read text pos c)).map Prod.fst) w.roll
      (w.readChar text pos c).2.roll := by
  have hread := w.charRead text pos c
  generalize w.readChar text pos c = result at hread ⊢
  cases hread with
  | nowhere htop =>
    simp only [departure?, htop]
    exact .stay _
  | unfinished htop hstep =>
    simp only [departure?, htop, hstep]
    exact .stay _
  | @refused level fault reader htop hstep =>
    simp only [departure?, htop, hstep]
    have hroll : ({ w with reader }.refuseInput text fault).roll = w.roll :=
      congrArg (Roll.mk · _) (Shell.numbers_onTop w.shell.stack fun _ _ => rfl)
    rw [hroll]
    exact .stay _
  | halted htop hstep | performed htop hstep =>
    simp only [departure?, htop, hstep, roll, abandon, perform_shell]
    exact (w.prepare _).dispatch_step _

/-- **What an act records.** -/
theorem watchAct_step (w : Session (Watched σ) (Watch ω)) (a : Act σ ω) :
    Roll.Step ((w.unwatched.departure? a).map Prod.fst) w.roll (w.watchAct a).roll := by
  rw [departure?_watched]
  cases a with
  | queue | drop | outside => exact .stay _
  | read text pos c => exact w.readChar_step text pos c
  | close continuing interactive =>
    have hpop := (w.endInput continuing interactive).shell.pop_step none
    rwa [show (w.endInput continuing interactive).shell.roll = w.roll from
      w.roll_endInput continuing interactive] at hpop
  | statement argv => exact w.shell.dispatch_step argv
  | pushRoot commands env aliases => exact .enter _ _
  | push commands =>
    have hroll : (w.watchAct (.push commands)).roll =
        ⟨w.shell.world.next :: w.roll.numbers, .start w.shell.world.next :: w.roll.events⟩ :=
      Shell.roll_push ..
    rw [hroll]
    exact .enter _ _
  | pop value => exact w.shell.pop_step value
  | edit commands env aliases scopes =>
    have hroll : (w.watchAct (.edit commands env aliases scopes)).roll = w.roll := by
      -- the active level is given the number that it has
      refine congrArg (Roll.mk · _) (Shell.numbers_onTop w.shell.stack fun l hl => ?_)
      obtain ⟨below, hlevels⟩ := Stack.exists_levels hl
      simp only [roll, Shell.roll, hlevels, List.map_cons, List.headD_cons]
    rw [hroll]
    exact .stay _

theorem nests_watchAfter {w : Session (Watched σ) (Watch ω)}
    (h : Nests w.roll.events w.roll.numbers) (acts : List (Act σ ω)) :
    Nests (w.watchAfter acts).roll.events (w.watchAfter acts).roll.numbers := by
  induction acts generalizing w with
  | nil => exact h
  | cons a acts ih => exact ih (h.step (w.watchAct_step a))

/-! ## Feeding and running under watch -/

/-- Acts under watch lead from one session to another. -/
def LeadsWatched (w w' : Session (Watched σ) (Watch ω)) : Prop :=
  ∃ acts : List (Act σ ω), w' = w.watchAfter acts

theorem closedUnderInput_leadsWatched :
    ClosedUnderInput (LeadsWatched (σ := σ) (ω := ω)) where
  refl w := ⟨[], rfl⟩
  trans := by
    rintro w _ _ ⟨acts, rfl⟩ ⟨acts', rfl⟩
    refine ⟨acts ++ acts', ?_⟩
    rw [watchAfter, watchAfter, watchAfter, List.foldl_append]
  queue w text := ⟨[.queue text], rfl⟩
  read w text pos c := ⟨[.read text pos c], rfl⟩
  close w continuing interactive := ⟨[.close continuing interactive], rfl⟩
  onConsole w f := ⟨[.outside (f w.shell.console) w.shell.interrupted w.shell.world.world w.trace],
    rfl⟩

/-! ## Every level is torn down once -/

/-- What is promised of the hooks of levels, in a watched session. -/
structure TornDown (w : Session (Watched σ) (Watch ω)) : Prop where
  /-- Levels are left in the reverse order of entering them, and only the level directly below is
      resumed, after that.  The levels that were entered and not left are the ones that are there. -/
  nests : Nests w.roll.events w.roll.numbers
  /-- A level that was entered was entered once.  Its command set was told once that the level is
      left, and not at all as long as the level is there. -/
  once : ∀ n, .start n ∈ w.roll.events → w.roll.events.count (.start n) = 1 ∧
    w.roll.events.count (.finish n) = if n ∈ w.roll.numbers then 0 else 1
  /-- In the end every command set was told. -/
  finished : w.isFinished = true → ∀ n, .start n ∈ w.roll.events →
    w.roll.events.count (.finish n) = 1
  /-- What is recorded when is told by the value with which an act leaves the active level. -/
  steps : ∀ a, Roll.Step ((w.unwatched.departure? a).map Prod.fst) w.roll (w.watchAct a).roll
  /-- Feeding the session and running it is a sequence of acts, and does what it does unwatched. -/
  feeds : ∀ text, w.LeadsWatched (w.feed text).2 ∧
    (w.feed text).2.unwatched = (w.unwatched.feed text).2
  runs : ∀ source, w.LeadsWatched (w.run source).session ∧
    (w.run source).session.unwatched = (w.unwatched.run source).session

/-- **Levels are torn down once, in nesting order**, whatever the command sets do and whatever
    happens to the session; and watching this changes nothing. -/
theorem watched_tornDown (console : Console) (world : ω) (acts : List (Act σ ω)) :
    let w : Session (Watched σ) (Watch ω) :=
      watchAfter { shell := { console, world := { world } } } acts
    w.unwatched = after { shell := { console, world } } acts ∧ w.TornDown := by
  intro w
  have hnests : Nests w.roll.events w.roll.numbers :=
    nests_watchAfter (w := { shell := { console, world := { world } } }) .nil acts
  refine ⟨unwatched_watchAfter _ acts, ?_⟩
  exact {
    nests := hnests
    once := fun _ => hnests.once
    finished := fun hfinished n hn => by
      have hnone : w.roll.numbers = [] := by
        rw [roll, Shell.roll, List.isEmpty_iff.1 hfinished, List.map_nil]
      rw [(hnests.once hn).2, hnone, if_neg List.not_mem_nil]
    steps := w.watchAct_step
    feeds := fun text =>
      ⟨closedUnderInput_leadsWatched.feed w text, congrArg Prod.snd (w.feed_map unwatch text).symm⟩
    runs := fun source =>
      ⟨closedUnderInput_leadsWatched.run w source,
        congrArg RunReport.session (w.run_map unwatch source).symm⟩ }

/-- A level is entered and left with a value, and then the one below is left. -/
example :
    let start : Session (Watched Scripted) (Watch World) :=
      { shell := { console := .new .plain {} {} {}, world := { world := {} } } }
    let root : Scripted := .vocabulary "nesting" [("nesting", nestingVocabulary)]
    (start.watchAfter [.pushRoot root .empty {}, .statement ["in"], .statement ["out"],
      .pop none]).roll.events =
      [.finish 0, .resume 0 (.int 3), .finish 1, .start 1, .start 0] := by
  decide +kernel

end Session

end NestedShell
