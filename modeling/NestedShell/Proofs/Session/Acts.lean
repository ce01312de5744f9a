/-
  What can happen to a session, one act at a time.

  A session takes a piece of input and reads its characters, which dispatches the statements that
  end in it; it meets the end of its input.  From outside, statements are dispatched, levels are
  entered and left, the active level is changed, and so are the console and the world.

  * an `Act` is one of these, `Session.act` does it, `Session.after` does several;
  * `Session.Reached`: a session that is got by acts from one without levels;
  * `Session.Leads`: acts lead from one session to another;
  * `ClosedUnderInput`: what holds over every step of feeding or running a session, and so over the
    whole; `leads_feed`, `leads_run`: both are sequences of acts;
  * `Reached.reader`: what holds of the reader between two acts; `Reached.settled`: it has nothing
    to read again.
-/
import NestedShell.Scripted
import NestedShell.Session
import NestedShell.Proofs.Statement.Reading

namespace NestedShell

/-- What can happen to a session. -/
inductive Act (σ ω : Type) where
  /-- a piece of input is taken -/
  | queue (text : String)
  /-- a character of it is read, and the statement that it ends is dispatched -/
  | read (text : String) (pos : Nat) (c : Char)
  /-- the rest of it, and what is left open, is dropped -/
  | drop
  /-- the input ends -/
  | close (continuing interactive : Bool)
  /-- a statement is dispatched that was not read -/
  | statement (argv : Words)
  /-- levels are entered and left from outside -/
  | pushRoot (commands : σ) (env : Environment) (aliases : AliasTable)
  | push (commands : σ)
  | pop (value : Option Value)
  /-- what the active level holds is changed from outside -/
  | edit (commands : σ) (env : Environment) (aliases : AliasTable)
      (scopes : Std.TreeMap String WordList)
  /-- what is outside of the levels is changed -/
  | outside (console : Console) (interrupted : Bool) (world : ω) (trace : Bool)

namespace Session

variable {σ ω : Type} [CommandSet σ ω]

/-- Does an act. -/
def act (s : Session σ ω) : Act σ ω → Session σ ω
  | .queue text => (s.queue text).2
  | .read text pos c => (s.readChar text pos c).2
  | .drop => s.abandon
  | .close continuing interactive => s.closeLevel continuing interactive
  | .statement argv => { s with shell := (s.shell.dispatch argv).2 }
  | .pushRoot commands env aliases => { s with shell := s.shell.pushRoot commands env aliases }
  | .push commands => { s with shell := s.shell.push commands }
  | .pop value => { s with shell := (s.shell.pop value).2 }
  | .edit commands env aliases scopes =>
    { s with shell.stack := s.shell.stack.onTop fun level =>
      { level with commands, env, aliases, scopes } }
  | .outside console interrupted world trace =>
    { s with shell := { s.shell with console, interrupted, world }, trace }

/-- Does acts, one after the other. -/
def after (s : Session σ ω) (acts : List (Act σ ω)) : Session σ ω := acts.foldl act s

/-- The sessions that can be reached. -/
inductive Reached : Session σ ω → Prop where
  | start (console : Console) (world : ω) : Reached { shell := { console, world } }
  | act {s : Session σ ω} (h : Reached s) (a : Act σ ω) : Reached (s.act a)

/-- Acts lead from one session to another. -/
def Leads (s t : Session σ ω) : Prop := ∃ acts : List (Act σ ω), t = s.after acts

theorem Leads.refl (s : Session σ ω) : s.Leads s := ⟨[], rfl⟩

theorem Leads.act (s : Session σ ω) (a : Act σ ω) : s.Leads (s.act a) := ⟨[a], rfl⟩

theorem Leads.trans {s t u : Session σ ω} (h : s.Leads t) (h' : t.Leads u) : s.Leads u := by
  obtain ⟨acts, rfl⟩ := h
  obtain ⟨acts', rfl⟩ := h'
  refine ⟨acts ++ acts', ?_⟩
  rw [after, after, after, List.foldl_append]

theorem Reached.after {s : Session σ ω} (h : s.Reached) (acts : List (Act σ ω)) :
    (s.after acts).Reached := by
  induction acts generalizing s with
  | nil => exact h
  | cons a acts ih => exact ih (h.act a)

theorem Reached.leads {s t : Session σ ω} (h : s.Reached) (hst : s.Leads t) : t.Reached := by
  obtain ⟨acts, rfl⟩ := hst
  exact h.after acts

/-! ## Sessions act -/

theorem reached_new (root : σ) (env : Environment) (aliases : AliasTable) (console : Console)
    (world : ω) : (Session.new root env aliases console world).Reached := by
  have hroot := (Reached.start (σ := σ) console world).act (.pushRoot root env aliases)
  exact hroot.act (.edit _ _ _ _)

/-- A relation between sessions that holds from before a piece of input to after it, whatever is
    read: it composes, and holds for the steps that feeding and running a session are made of. -/
structure ClosedUnderInput (R : Session σ ω → Session σ ω → Prop) : Prop where
  refl : ∀ s, R s s
  trans : ∀ {s t u}, R s t → R t u → R s u
  queue : ∀ s text, R s (s.queue text).2
  read : ∀ s text pos c, R s (s.readChar text pos c).2
  close : ∀ s continuing interactive, R s (s.closeLevel continuing interactive)
  onConsole : ∀ s f, R s (s.onConsole f)

namespace ClosedUnderInput

variable {R : Session σ ω → Session σ ω → Prop} (hR : ClosedUnderInput R)
include hR

theorem readChars (text : String) (pending : List (Nat × Char)) (s : Session σ ω) :
    R s (Session.readChars text pending s).2 := by
  induction pending generalizing s with
  | nil => exact hR.refl s
  | cons p rest ih =>
    obtain ⟨pos, c⟩ := p
    have hst := hR.read s text pos c
    rw [Session.readChars]
    rcases hread : s.readChar text pos c with ⟨_ | halt, t⟩
    · rw [hread] at hst
      exact hR.trans hst (ih t)
    · rwa [hread] at hst

/-- **Feeding a session.** -/
theorem feed (s : Session σ ω) (text : String) : R s (s.feed text).2 := by
  have hpiece : R s (s.readPiece text).2 :=
    hR.trans (hR.queue s text) (hR.readChars text _ _)
  rw [Session.feed]
  split
  · exact hR.refl s
  · exact hpiece

theorem request {s t : Session σ ω} {request : LineRequest}
    (h : s.request? = some (request, t)) : R s t := by
  rw [request?] at h
  split at h
  · cases h
  · cases h
    exact hR.onConsole s fun _ => _

theorem answer {s t : Session σ ω} {request : LineRequest} {interactive : Bool}
    {answer : LineAnswer} (h : s.answer request interactive answer = .ok t) : R s t := by
  cases answer with
  | line text =>
    cases h
    exact hR.feed s _
  | endOfInput =>
    cases h
    exact hR.close s _ _
  | failed message => cases h

theorem closeLevels (interactive : Bool) (levels : Nat) (s : Session σ ω) :
    R s (Session.closeLevels interactive levels s).session := by
  induction levels generalizing s with
  | zero => exact hR.refl s
  | succ levels ih =>
    rw [Session.closeLevels]
    split
    · exact hR.refl s
    · rename_i request t hrequest
      have hclose := hR.close t request.continuing interactive
      exact hR.trans (hR.request hrequest) (hR.trans hclose (ih _))

/-- **Running a session.** -/
theorem run (s : Session σ ω) (source : LineSource) : R s (s.run source).session := by
  rw [Session.run]
  induction source.answers generalizing s with
  | nil => exact hR.closeLevels _ _ s
  | cons answer answers ih =>
    rw [runOver]
    split
    · exact hR.refl s
    · rename_i request t hrequest
      have hst := hR.request hrequest
      split
      · exact hst
      · rename_i u hanswer
        exact hR.trans hst (hR.trans (hR.answer hanswer) (ih u))

end ClosedUnderInput

theorem closedUnderInput_leads : ClosedUnderInput (Leads (σ := σ) (ω := ω)) where
  refl := .refl
  trans := .trans
  queue s text := .act s (.queue text)
  read s text pos c := .act s (.read text pos c)
  close s continuing interactive := .act s (.close continuing interactive)
  onConsole s f := .act s (.outside (f s.shell.console) _ _ _)

/-- **Feeding a session** is a sequence of acts. -/
theorem leads_feed (s : Session σ ω) (text : String) : s.Leads (s.feed text).2 :=
  closedUnderInput_leads.feed s text

/-- **Running a session** is a sequence of acts. -/
theorem leads_run (s : Session σ ω) (source : LineSource) : s.Leads (s.run source).session :=
  closedUnderInput_leads.run s source

/-! ## One character -/

@[simp]
theorem perform_reader (s : Session σ ω) (argv : Words) :
    (s.perform argv).2.reader = s.reader := by
  simp only [perform, rememberStatus]
  split <;> rfl

@[simp]
theorem perform_shell (s : Session σ ω) (argv : Words) :
    (s.perform argv).2.shell = ((s.prepare argv).dispatch argv).2 := by
  simp only [perform, rememberStatus]
  split <;> rfl

theorem perform_fst (s : Session σ ω) (argv : Words) :
    (s.perform argv).1 = ((s.prepare argv).dispatch argv).1 := rfl

/-- What reading a character comes down to. -/
inductive CharRead (s : Session σ ω) (text : String) (pos : Nat) (c : Char) :
    Option Halt × Session σ ω → Prop where
  /-- there is no level -/
  | nowhere (htop : s.shell.stack.top? = none) : CharRead s text pos c (some .ended, s.abandon)
  /-- a lexical fault -/
  | refused {level : Level σ} {fault : Fault} {reader : Reader}
      (htop : s.shell.stack.top? = some level)
      (hstep : s.reader.step level.env.lookup pos c = (.error fault, reader)) :
    CharRead s text pos c (some .refused, { s with reader }.refuseInput text fault)
  /-- no statement ends -/
  | unfinished {level : Level σ} {reader : Reader} (htop : s.shell.stack.top? = some level)
      (hstep : s.reader.step level.env.lookup pos c = (.ok none, reader)) :
    CharRead s text pos c (none, { s with reader })
  /-- the rest of the input is dropped after a statement -/
  | halted {level : Level σ} {argv : Words} {reader : Reader} {halt : Halt}
      (htop : s.shell.stack.top? = some level)
      (hstep : s.reader.step level.env.lookup pos c = (.ok (some argv), reader))
      (hhalt : ((s.prepare argv).dispatch argv).1.halt? = some halt) :
    CharRead s text pos c (some halt, ({ s with reader }.perform argv).2.abandon)
  /-- a statement is dispatched -/
  | performed {level : Level σ} {argv : Words} {reader : Reader}
      (htop : s.shell.stack.top? = some level)
      (hstep : s.reader.step level.env.lookup pos c = (.ok (some argv), reader))
      (hhalt : ((s.prepare argv).dispatch argv).1.halt? = none) :
    CharRead s text pos c (none, ({ s with reader }.perform argv).2)

/-- **Reading a character.** -/
theorem charRead (s : Session σ ω) (text : String) (pos : Nat) (c : Char) :
    CharRead s text pos c (s.readChar text pos c) := by
  cases htop : s.shell.stack.top? with
  | none =>
    simp only [readChar, htop]
    exact .nowhere htop
  | some level =>
    rcases hstep : s.reader.step level.env.lookup pos c with ⟨fault | _ | argv, reader⟩
    · simp only [readChar, htop, hstep]
      exact .refused htop hstep
    · simp only [readChar, htop, hstep]
      exact .unfinished htop hstep
    · have hfst : ({ s with reader } : Session σ ω).prepare argv = s.prepare argv := rfl
      cases hhalt : ((s.prepare argv).dispatch argv).1.halt? with
      | none =>
        simp only [readChar, htop, hstep, perform_fst, hfst, hhalt]
        exact .performed htop hstep hhalt
      | some halt =>
        simp only [readChar, htop, hstep, perform_fst, hfst, hhalt]
        exact .halted htop hstep hhalt

/-! ## The reader between two acts -/

/-- What every step of a reader keeps, and a fresh one has, is kept by reading a character. -/
theorem readChar_keeps {P : Reader → Prop} (hfresh : P {}) {s : Session σ ω} {pos : Nat} {c : Char}
    (hstep : ∀ vars, P (s.reader.step vars pos c).2) (text : String) :
    P (s.readChar text pos c).2.reader := by
  have hread := s.charRead text pos c
  generalize s.readChar text pos c = result at hread ⊢
  cases hread with
  | nowhere | halted => exact hfresh
  | @refused level fault reader _ hread | @unfinished level reader _ hread =>
    have hkept := hstep level.env.lookup
    rwa [hread] at hkept
  | @performed level argv reader _ hread =>
    have hkept := hstep level.env.lookup
    rw [perform_reader]
    rwa [hread] at hkept

theorem settled_readChar {s : Session σ ω} (h : s.reader.Settled) (text : String) (pos : Nat)
    (c : Char) : (s.readChar text pos c).2.reader.Settled :=
  readChar_keeps (P := Reader.Settled) rfl (fun vars => h.step vars pos c) text

/-- **Between two acts the reader has a property** that a fresh one has, and that queuing a piece of
    input and every step keep. -/
theorem Reached.reader {P : Reader → Prop} (hfresh : P {})
    (hqueue : ∀ {r : Reader}, P r → ∀ text, P { r.push text with pending := [] })
    (hstep : ∀ {r : Reader}, P r → ∀ vars pos c, P (r.step vars pos c).2) {s : Session σ ω}
    (h : s.Reached) : P s.reader := by
  induction h with
  | start => exact hfresh
  | act h a ih =>
    cases a with
    | queue text => exact hqueue ih text
    | read text pos c => exact readChar_keeps hfresh (fun vars => hstep ih vars pos c) text
    | drop | close => exact hfresh
    | statement | pushRoot | push | pop | edit | outside => exact ih

/-- **Between two acts the reader is settled.** -/
theorem Reached.settled {s : Session σ ω} (h : s.Reached) : s.reader.Settled :=
  h.reader (P := Reader.Settled) rfl (fun hr => hr.push) fun hr => hr.step

/-! ## An example -/

/-- Commands that start a level of the same commands, fail, and leave the level. -/
def nestingVocabulary : Vocabulary where
  commands := [(⟨"in", ""⟩, .enter "nesting"), (⟨"fail", ""⟩, .fail "failed" none),
    (⟨"out", ""⟩, .leave (some (.int 3)))]

/-- A session at its first level, in which such levels can be entered. -/
def nesting : Session Scripted World :=
  .new (.vocabulary "nesting" [("nesting", nestingVocabulary)]) .empty {} (.new .plain {} {} {}) {}

theorem reached_nesting : nesting.Reached := reached_new ..

end Session

end NestedShell
