/-
  Sessions of other command sets.

  A morphism of command sets carries every session to one that reads the same input in the same way,
  so that it goes through the same statements and the same turns with a line source.

  * `Session.map`, `Act.map`: sessions and acts with other command sets and another world;
  * `act_map`: an act does the same, `departure?_map`: and leaves the active level with the same
    value;
  * `feed_map`, `run_map`: so does feeding a session, and running it.
-/
import NestedShell.Proofs.Session.Isolation
import NestedShell.Proofs.Shell.Morphism

namespace NestedShell

variable {σ τ ω χ : Type}

/-! ## Other command sets, another world -/

/-- A session with other command sets and another world. -/
def Session.map (f : σ → τ) (g : ω → χ) (s : Session σ ω) : Session τ χ where
  shell := s.shell.map f g
  reader := s.reader
  trace := s.trace
  lastStatus := s.lastStatus

/-- The same act, for other command sets and another world. -/
def Act.map (f : σ → τ) (g : ω → χ) : Act σ ω → Act τ χ
  | queue text => queue text
  | read text pos c => read text pos c
  | drop => drop
  | close continuing interactive => close continuing interactive
  | statement argv => statement argv
  | pushRoot commands env aliases => pushRoot (f commands) env aliases
  | push commands => push (f commands)
  | pop value => pop value
  | edit commands env aliases scopes => edit (f commands) env aliases scopes
  | outside console interrupted world trace => outside console interrupted (g world) trace

/-- What a run leaves behind, with other command sets and another world. -/
def Session.RunReport.map (f : σ → τ) (g : ω → χ) (r : RunReport σ ω) : RunReport τ χ where
  result := r.result
  session := r.session.map f g
  requests := r.requests

namespace Session

section
variable (f : σ → τ) (g : ω → χ) (s : Session σ ω)

theorem top?_map : (s.map f g).shell.stack.top? = s.shell.stack.top?.map (Level.map f) :=
  s.shell.top?_map f g

theorem reader_map : (s.map f g).reader = s.reader := rfl

theorem rememberStatus_map : (s.map f g).rememberStatus = s.rememberStatus.map f g := by
  rw [rememberStatus, rememberStatus, top?_map]
  cases s.shell.stack.top? with
  | none => rfl
  | some level =>
    simp only [Option.map_some, Option.bind_some, Level.env_map]
    cases level.env.int? statusVariable <;> rfl

theorem prepare_map (argv : Words) : (s.map f g).prepare argv = (s.prepare argv).map f g := by
  simp only [prepare, map, Shell.map, Stack.depth_map]

theorem refuseInput_map (text : String) (fault : Fault) :
    (s.map f g).refuseInput text fault = (s.refuseInput text fault).map f g := by
  simp only [refuseInput, map, Shell.map]
  rw [Stack.onTop_map]
  exact fun _ => rfl

theorem endInput_map (continuing interactive : Bool) :
    (s.map f g).endInput continuing interactive = (s.endInput continuing interactive).map f g := by
  cases continuing <;> cases interactive <;> rfl

theorem request?_map :
    (s.map f g).request? = s.request?.map (Prod.map id (Session.map f g)) := by
  rw [request?, request?, top?_map]
  cases s.shell.stack.top? <;> rfl

end

variable [CommandSet σ ω] [CommandSet τ χ] {f : σ → τ} {g : ω → χ}
  (m : CommandSet.Morphism f g) (s : Session σ ω)
include m

/-! ## Acts -/

theorem perform_map (argv : Words) :
    (s.map f g).perform argv = (s.perform argv).map id (Session.map f g) := by
  rw [perform, perform, prepare_map, Shell.dispatch_map m]
  rcases (s.prepare argv).dispatch argv with ⟨result, shell⟩
  exact congrArg (Prod.mk result) (rememberStatus_map f g { s with shell })

theorem readChar_map (text : String) (pos : Nat) (c : Char) :
    (s.map f g).readChar text pos c = (s.readChar text pos c).map id (Session.map f g) := by
  rw [readChar, readChar, top?_map]
  cases s.shell.stack.top? with
  | none => rfl
  | some level =>
    simp only [Option.map_some, Level.env_map, reader_map]
    rcases s.reader.step level.env.lookup pos c with ⟨fault | _ | argv, reader⟩
    · exact congrArg (Prod.mk _) (refuseInput_map f g { s with reader } text fault)
    · rfl
    · have hperform := perform_map m { s with reader } argv
      rw [show ({ s with reader } : Session σ ω).map f g = { s.map f g with reader } from rfl]
        at hperform
      simp only [hperform]
      rcases ({ s with reader } : Session σ ω).perform argv with ⟨result, t⟩
      simp only [Prod.map_apply, id_eq]
      cases result.halt? <;> rfl

theorem closeLevel_map (continuing interactive : Bool) :
    (s.map f g).closeLevel continuing interactive =
      (s.closeLevel continuing interactive).map f g := by
  rw [closeLevel, closeLevel, endInput_map]
  exact congrArg (fun u => { (s.endInput continuing interactive).map f g with shell := u.2 })
    ((s.endInput continuing interactive).shell.pop_map m none)

/-- **An act** does the same. -/
theorem act_map (a : Act σ ω) : (s.map f g).act (a.map f g) = (s.act a).map f g := by
  cases a with
  | queue | drop | outside => rfl
  | read text pos c => exact congrArg Prod.snd (s.readChar_map m text pos c)
  | close continuing interactive => exact s.closeLevel_map m continuing interactive
  | statement argv =>
    exact congrArg (fun u => { s.map f g with shell := u.2 }) (s.shell.dispatch_map m argv)
  | pushRoot commands env aliases =>
    exact congrArg (fun u => { s.map f g with shell := u })
      (s.shell.enter_map m commands env aliases true)
  | push commands =>
    exact congrArg (fun u => { s.map f g with shell := u }) (s.shell.push_map m commands)
  | pop value =>
    exact congrArg (fun u => { s.map f g with shell := u.2 }) (s.shell.pop_map m value)
  | edit commands env aliases scopes =>
    simp only [act, Act.map, map, Shell.map]
    rw [Stack.onTop_map]
    exact fun _ => rfl

/-- The active level is left with the same value. -/
theorem departure?_map (a : Act σ ω) :
    (s.map f g).departure? (a.map f g) = (s.departure? a).map (Prod.map id (Shell.map f g)) := by
  cases a with
  | read text pos c =>
    simp only [departure?, Act.map, top?_map]
    cases s.shell.stack.top? with
    | none => rfl
    | some level =>
      simp only [Option.map_some, Level.env_map, reader_map]
      rcases s.reader.step level.env.lookup pos c with ⟨fault | _ | argv, reader⟩
      · rfl
      · rfl
      · simp only [prepare_map, Shell.departure?_map m]
  | statement argv => exact s.shell.departure?_map m argv
  | close continuing interactive =>
    simp only [departure?, Act.map, endInput_map]
    rfl
  | queue | drop | pushRoot | push | pop | edit | outside => rfl

/-! ## Input -/

theorem readChars_map (text : String) (pending : List (Nat × Char)) :
    readChars text pending (s.map f g) = (readChars text pending s).map id (Session.map f g) := by
  induction pending generalizing s with
  | nil => rfl
  | cons p rest ih =>
    obtain ⟨pos, c⟩ := p
    rw [readChars, readChars, readChar_map m]
    rcases s.readChar text pos c with ⟨_ | halt, t⟩
    · exact ih t
    · rfl

/-- **Feeding a session** does the same. -/
theorem feed_map (text : String) :
    (s.map f g).feed text = (s.feed text).map id (Session.map f g) := by
  have hfinished : (s.map f g).isFinished = s.isFinished := by
    simp [isFinished, Stack.isEmpty, map, Shell.map, Stack.map]
  have hpiece : (s.map f g).readPiece text = (s.readPiece text).map id (Session.map f g) :=
    readChars_map m (s.queue text).2 text (s.queue text).1
  rw [feed, feed, hfinished, hpiece]
  split
  · rfl
  · rcases s.readPiece text with ⟨_ | halt, t⟩ <;> rfl

/-! ## Turns with a line source -/

theorem closeLevels_map (interactive : Bool) (levels : Nat) :
    closeLevels interactive levels (s.map f g) = (closeLevels interactive levels s).map f g := by
  induction levels generalizing s with
  | zero => rfl
  | succ levels ih =>
    rw [closeLevels, closeLevels, request?_map]
    cases s.request? with
    | none => rfl
    | some turn =>
      obtain ⟨request, t⟩ := turn
      simp only [Option.map_some, Prod.map_apply, id_eq, closeLevel_map m, ih]
      rfl

theorem answer_map (request : LineRequest) (interactive : Bool) (a : LineAnswer) :
    (s.map f g).answer request interactive a =
      (s.answer request interactive a).map (Session.map f g) := by
  cases a with
  | line text => exact congrArg (fun u => Except.ok u.2) (s.feed_map m _)
  | endOfInput => exact congrArg Except.ok (s.closeLevel_map m _ _)
  | failed message => rfl

theorem runOver_map (interactive : Bool) (answers : List LineAnswer) :
    runOver interactive answers (s.map f g) = (runOver interactive answers s).map f g := by
  induction answers generalizing s with
  | nil =>
    rw [runOver, runOver, show (s.map f g).shell.stack.depth = s.shell.stack.depth from
      s.shell.stack.depth_map f]
    exact s.closeLevels_map m interactive _
  | cons a answers ih =>
    rw [runOver, runOver, request?_map]
    cases s.request? with
    | none => rfl
    | some turn =>
      obtain ⟨request, t⟩ := turn
      simp only [Option.map_some, Prod.map_apply, id_eq, answer_map m]
      cases t.answer request interactive a with
      | error fault => rfl
      | ok u =>
        simp only [Except.map, ih]
        rfl

/-- **Running a session** does the same. -/
theorem run_map (source : LineSource) : (s.map f g).run source = (s.run source).map f g :=
  s.runOver_map m source.interactive source.answers

end Session

end NestedShell
