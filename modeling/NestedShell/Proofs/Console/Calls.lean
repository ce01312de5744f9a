/-
  Programs that use a console only by its operations.

  Such a program calls one operation after the other; which one is next may depend on the answers so
  far, and on nothing else that the console holds.  So it cannot tell whether the sinks take what is
  written: a write that fails has the same answer, and is noted in the log.

  * a `ConsoleCall` is a call of an operation, a `ConsoleProgram` a tree of calls by their answers;
  * `Console.Through`: a function of the console that is such a program;
  * `Console.Matches`: two consoles that are equal up to some sinks and to what is noted about them;
    `ConsoleCall.run_matches`: a call gives the same answer on both, and they still match;
    `Through.matches`: so does a program.
-/
import NestedShell.Console

namespace NestedShell

open Template (Expansion)

/-! ## Calls and programs -/

/-- A call of an operation of the console. -/
inductive ConsoleCall where
  | theme
  | write (text : String)
  | print (text : String)
  | format (vars : Lookup) (template : String)
  | printf (vars : Lookup) (template : String)
  | error (text : String)
  | warning (text : String)
  | printDoc (vars : Lookup) (doc : String)
  | prompt (vars : Lookup) (template : String)
  | register (code : Char) (expansion : Expansion)
  | unregister (code : Char)

namespace ConsoleCall

/-- What a call is answered with. -/
def Answer : ConsoleCall → Type
  | theme => Theme
  | format _ _ | prompt _ _ => String
  | register _ _ => Except Fault Unit
  | unregister _ => Bool
  | write _ | print _ | printf _ _ | error _ | warning _ | printDoc _ _ => Unit

/-- Does a call: its answer, and the console afterwards. -/
def run : (c : ConsoleCall) → Console → c.Answer × Console
  | theme, k => (k.theme, k)
  | write text, k => ((), k.write text)
  | print text, k => ((), k.print text)
  | format vars template, k => k.format vars template
  | printf vars template, k => ((), k.printf vars template)
  | error text, k => ((), k.error text)
  | warning text, k => ((), k.warning text)
  | printDoc vars doc, k => ((), k.printDoc vars doc)
  | prompt vars template, k => k.prompt vars template
  | register code expansion, k => k.register code expansion
  | unregister code, k => k.unregister code

end ConsoleCall

/-- Calls of a console, one after the other, and a result. -/
inductive ConsoleProgram (α : Type) where
  | done (result : α)
  | call (c : ConsoleCall) (next : c.Answer → ConsoleProgram α)

namespace ConsoleProgram

variable {α β : Type}

/-- Runs a program: its result, and the console afterwards. -/
def run : ConsoleProgram α → Console → α × Console
  | done result, k => (result, k)
  | call c next, k => (next (c.run k).1).run (c.run k).2

/-- Goes on with the result of a program. -/
def bind : ConsoleProgram α → (α → ConsoleProgram β) → ConsoleProgram β
  | done result, f => f result
  | call c next, f => call c fun answer => (next answer).bind f

theorem run_bind (p : ConsoleProgram α) (f : α → ConsoleProgram β) (k : Console) :
    (p.bind f).run k = (f (p.run k).1).run (p.run k).2 := by
  induction p generalizing k with
  | done result => rfl
  | call c next ih => exact ih _ _

end ConsoleProgram

namespace Console

variable {α β : Type}

/-- A function of the console that is a program of calls. -/
def Through (f : Console → α × Console) : Prop := ∃ p : ConsoleProgram α, ∀ k, f k = p.run k

theorem through_pure (a : α) : Through fun k => (a, k) := ⟨.done a, fun _ => rfl⟩

theorem through_call (c : ConsoleCall) : Through c.run := ⟨.call c .done, fun _ => rfl⟩

/-- One program after another. -/
theorem Through.bind {f : Console → α × Console} {g : α → Console → β × Console} (hf : Through f)
    (hg : ∀ a, Through (g a)) : Through fun k => g (f k).1 (f k).2 := by
  obtain ⟨p, hp⟩ := hf
  obtain ⟨q, hq⟩ := Classical.skolem.1 hg
  refine ⟨p.bind q, fun k => ?_⟩
  simp only [ConsoleProgram.run_bind, hp, hq]

theorem Through.map {f : Console → α × Console} (hf : Through f) (g : α → β) :
    Through fun k => (g (f k).1, (f k).2) :=
  hf.bind fun a => through_pure (g a)

end Console

/-! ## Consoles that match -/

/-- Whether an entry tells that something could not be written to one of some streams. -/
def LogEntry.isLoss (broken : OutputStream → Bool) : LogEntry → Bool
  | writeFailed stream _ => broken stream
  | _ => false

/-- Two consoles that are equal up to some sinks, and to what is noted about these. -/
structure Console.Matches (broken : OutputStream → Bool) (k k' : Console) : Prop where
  out : broken .out = false → k.out = k'.out
  err : broken .err = false → k.err = k'.err
  formatter : k.formatter = k'.formatter
  prompter : k.prompter = k'.prompter
  theme : k.theme = k'.theme
  log : k.log.filter (!·.isLoss broken) = k'.log.filter (!·.isLoss broken)

namespace Console.Matches

variable {broken : OutputStream → Bool} {k k' k'' : Console}

theorem refl (broken : OutputStream → Bool) (k : Console) : k.Matches broken k :=
  ⟨fun _ => rfl, fun _ => rfl, rfl, rfl, rfl, rfl⟩

theorem symm (h : k.Matches broken k') : k'.Matches broken k :=
  ⟨fun hb => (h.out hb).symm, fun hb => (h.err hb).symm, h.formatter.symm, h.prompter.symm,
    h.theme.symm, h.log.symm⟩

theorem trans (h : k.Matches broken k') (h' : k'.Matches broken k'') : k.Matches broken k'' :=
  ⟨fun hb => (h.out hb).trans (h'.out hb), fun hb => (h.err hb).trans (h'.err hb),
    h.formatter.trans h'.formatter, h.prompter.trans h'.prompter, h.theme.trans h'.theme,
    h.log.trans h'.log⟩

theorem note (h : k.Matches broken k') (entry : LogEntry) :
    (k.note entry).Matches broken (k'.note entry) :=
  { h with log := by simp only [Console.note, List.filter_append, h.log] }

/-- A loss does not count. -/
theorem noteLoss {stream : OutputStream} (hbroken : broken stream = true) (message : String)
    (k : Console) : (k.note (.writeFailed stream message)).Matches broken k :=
  { refl broken k with
    log := by
      have hloss : (LogEntry.writeFailed stream message).isLoss broken = true := hbroken
      simp [Console.note, hloss] }

/-! ## Writing -/

/-- What is written to the output stream does not count when its sink does not. -/
theorem write_self (hbroken : broken .out = true) (k : Console) (text : String) :
    (k.write text).Matches broken k := by
  rw [Console.write]
  cases k.out.write text with
  | ok out => exact { refl broken k with out := fun hb => absurd (hb.symm.trans hbroken) nofun }
  | error message => exact noteLoss hbroken message k

theorem writeError_self (hbroken : broken .err = true) (k : Console) (text : String) :
    (k.writeError text).Matches broken k := by
  rw [Console.writeError]
  cases k.err.write text with
  | ok err => exact { refl broken k with err := fun hb => absurd (hb.symm.trans hbroken) nofun }
  | error message => exact noteLoss hbroken message k

variable (h : k.Matches broken k')
include h

/-- **Writing** to the output stream: its sink is the same, or does not count. -/
theorem write (text : String) : (k.write text).Matches broken (k'.write text) := by
  cases hbroken : broken .out with
  | true => exact ((write_self hbroken k text).trans h).trans (write_self hbroken k' text).symm
  | false =>
    rw [Console.write, Console.write, ← h.out hbroken]
    cases k.out.write text with
    | ok out => exact { h with out := fun _ => rfl }
    | error message => exact h.note _

/-- **Writing** to the error stream. -/
theorem writeError (text : String) : (k.writeError text).Matches broken (k'.writeError text) := by
  cases hbroken : broken .err with
  | true =>
    exact ((writeError_self hbroken k text).trans h).trans (writeError_self hbroken k' text).symm
  | false =>
    rw [Console.writeError, Console.writeError, ← h.err hbroken]
    cases k.err.write text with
    | ok err => exact { h with err := fun _ => rfl }
    | error message => exact h.note _

/-! ## Templates -/

/-- **Expanding** gives the same text, since the expanders are the same. -/
theorem format (vars : Lookup) (template : String) :
    (k.format vars template).1 = (k'.format vars template).1 ∧
      (k.format vars template).2.Matches broken (k'.format vars template).2 := by
  rw [Console.format, Console.format, ← h.formatter, ← h.prompter]
  exact ⟨rfl, { h with
    formatter := rfl
    prompter := rfl
    log := by simp only [List.filter_append, h.log] }⟩

theorem prompt (vars : Lookup) (template : String) :
    (k.prompt vars template).1 = (k'.prompt vars template).1 ∧
      (k.prompt vars template).2.Matches broken (k'.prompt vars template).2 := by
  rw [Console.prompt, Console.prompt, ← h.formatter, ← h.prompter]
  exact ⟨rfl, { h with
    formatter := rfl
    prompter := rfl
    log := by simp only [List.filter_append, h.log] }⟩

theorem printf (vars : Lookup) (template : String) :
    (k.printf vars template).Matches broken (k'.printf vars template) := by
  obtain ⟨htext, hnext⟩ := h.format vars template
  simp only [Console.printf, ← htext]
  exact hnext.write _

theorem error (text : String) : (k.error text).Matches broken (k'.error text) := by
  obtain ⟨hline, hnext⟩ := h.format noVariables ("%r" ++ Template.escape text ++ "%N\n")
  simp only [Console.error, ← hline]
  exact hnext.writeError _

theorem warning (text : String) : (k.warning text).Matches broken (k'.warning text) := by
  obtain ⟨hline, hnext⟩ := h.format noVariables ("%Y" ++ Template.escape text ++ "%N\n")
  simp only [Console.warning, ← hline]
  exact hnext.writeError _

theorem printDoc (vars : Lookup) (doc : String) :
    (k.printDoc vars doc).Matches broken (k'.printDoc vars doc) := by
  simp only [Console.printDoc]
  obtain ⟨hbody, hnext⟩ := h.format vars
    (Text.dedent ((Text.cutAt '\n' (trimNewlines doc)).getD (trimNewlines doc, "")).2)
  rw [← hbody, ← hnext.theme]
  exact hnext.write _

/-! ## Codes -/

theorem register (code : Char) (expansion : Expansion) :
    (k.register code expansion).1 = (k'.register code expansion).1 ∧
      (k.register code expansion).2.Matches broken (k'.register code expansion).2 := by
  rw [Console.register, Console.register, ← h.formatter, ← h.prompter]
  cases k.formatter.register code expansion with
  | error fault => exact ⟨rfl, h⟩
  | ok formatter =>
    dsimp only
    cases k.prompter.register code expansion with
    | error fault => exact ⟨rfl, { h with formatter := rfl, prompter := rfl }⟩
    | ok prompter => exact ⟨rfl, { h with formatter := rfl, prompter := rfl }⟩

theorem unregister (code : Char) :
    (k.unregister code).1 = (k'.unregister code).1 ∧
      (k.unregister code).2.Matches broken (k'.unregister code).2 := by
  rw [Console.unregister, Console.unregister, ← h.formatter, ← h.prompter]
  exact ⟨rfl, { h with formatter := rfl, prompter := rfl }⟩

end Console.Matches

/-! ## Programs on consoles that match -/

section
variable {broken : OutputStream → Bool} {k k' : Console} (h : k.Matches broken k')
include h

/-- **A call** has the same answer, and the consoles still match. -/
theorem ConsoleCall.run_matches (c : ConsoleCall) :
    (c.run k).1 = (c.run k').1 ∧ (c.run k).2.Matches broken (c.run k').2 := by
  cases c with
  | theme => exact ⟨h.theme, h⟩
  | write text => exact ⟨rfl, h.write text⟩
  | print text => exact ⟨rfl, h.write _⟩
  | format vars template => exact h.format vars template
  | printf vars template => exact ⟨rfl, h.printf vars template⟩
  | error text => exact ⟨rfl, h.error text⟩
  | warning text => exact ⟨rfl, h.warning text⟩
  | printDoc vars doc => exact ⟨rfl, h.printDoc vars doc⟩
  | prompt vars template => exact h.prompt vars template
  | register code expansion => exact h.register code expansion
  | unregister code => exact h.unregister code

variable {α : Type}

/-- **A program** has the same result, by induction on its calls. -/
theorem ConsoleProgram.run_matches (p : ConsoleProgram α) :
    (p.run k).1 = (p.run k').1 ∧ (p.run k).2.Matches broken (p.run k').2 := by
  induction p generalizing k k' with
  | done result => exact ⟨rfl, h⟩
  | call c next ih =>
    obtain ⟨hanswer, hnext⟩ := c.run_matches h
    rw [run, run, ← hanswer]
    exact ih _ hnext

theorem Console.Through.matches {f : Console → α × Console} (hf : Through f) :
    (f k).1 = (f k').1 ∧ (f k).2.Matches broken (f k').2 := by
  obtain ⟨p, hp⟩ := hf
  rw [hp, hp]
  exact p.run_matches h

end

end NestedShell
