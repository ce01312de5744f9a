/-
  The codes of a console, over any number of calls.

  A console has two expanders, one for output and one for prompts.  They are changed one after the
  other, but they never come apart: a code that one of them takes, the other one takes as well.  So
  there is one table of codes, of which the colours alone are written in two ways.  The colours are
  reserved, and this is why errors and warnings are written verbatim, in the colours of the theme.

  * `Console.after` is a console after some calls, `after_keeps` the induction on them;
  * `Console.Paired`: the expanders of a console have the colours of a theme, the same other codes,
    and the same counts; `ConsoleCall.run_paired`: a call keeps them so, `paired_after`: so do any
    calls;
  * `Paired.register_eq` and `Paired.unregister_eq`: what adding and removing a code comes to;
  * `Console.OneTable` and `oneTable_after` put this together;
  * `Paired.format_line`: what is expanded for an error or a warning;
  * `Console.Verbatim` and `verbatim_after`: what is written then.
-/
import NestedShell.Proofs.Console.Calls
import NestedShell.Proofs.Template.Literal

namespace NestedShell

open Template (Expander Expansion Host isReserved themeCodes)

namespace Console

/-- A console after some calls. -/
def after (k : Console) (calls : List ConsoleCall) : Console :=
  calls.foldl (fun k c => (c.run k).2) k

/-- **What every call keeps**, any calls keep. -/
theorem after_keeps {P : Console → Prop} (h : ∀ k (c : ConsoleCall), P k → P (c.run k).2)
    {k : Console} (hk : P k) (calls : List ConsoleCall) : P (k.after calls) := by
  induction calls generalizing k with
  | nil => exact hk
  | cons c calls ih => exact ih (h k c hk)

/-! ## Two expanders -/

/-- The expanders of a console, one for output and one for a line editor, with the colours of its
    theme.  Every other code stands for the same in both, and the lazy texts were produced for both
    together. -/
structure Paired (theme : Theme) (k : Console) : Prop where
  themed : k.theme = theme
  formatter : k.formatter.Colored theme .plain
  prompter : k.prompter.Colored theme .editor
  same : ∀ code : Char, themeCodes.lookup code = none →
    k.formatter.codes[code]? = k.prompter.codes[code]?
  produced : k.formatter.produced = k.prompter.produced

namespace Paired

variable {theme : Theme} {k k' : Console}

theorem new (theme : Theme) (host : Host) (out err : Sink) :
    (Console.new theme host out err).Paired theme where
  themed := rfl
  formatter := Expander.colored_new theme host .plain
  prompter := Expander.colored_new theme host .editor
  same code hcode := by
    have hplain := Template.getElem?_reservedTable theme host .plain code
    have heditor := Template.getElem?_reservedTable theme host .editor code
    rw [hcode, Option.map_none, Option.none_or] at hplain heditor
    exact hplain.trans heditor.symm
  produced := rfl

variable (h : k.Paired theme)
include h

/-- Both expanders know the same codes. -/
theorem isRegistered (code : Char) :
    k.formatter.isRegistered code = k.prompter.isRegistered code := by
  rw [Expander.isRegistered_eq, Expander.isRegistered_eq]
  cases hcode : themeCodes.lookup code with
  | none => rw [h.same code hcode]
  | some slot =>
    rw [h.formatter.codes code slot hcode, h.prompter.codes code slot hcode, Option.isSome_some,
      Option.isSome_some]

/-- What is written does not matter. -/
theorem of_eq (htheme : k'.theme = k.theme) (hformatter : k'.formatter = k.formatter)
    (hprompter : k'.prompter = k.prompter) : k'.Paired theme where
  themed := htheme.trans h.themed
  formatter := hformatter ▸ h.formatter
  prompter := hprompter ▸ h.prompter
  same code hcode := by rw [hformatter, hprompter]; exact h.same code hcode
  produced := by rw [hformatter, hprompter]; exact h.produced

theorem write (text : String) : (k.write text).Paired theme := by
  rw [Console.write]
  cases k.out.write text with
  | ok out => exact h.of_eq rfl rfl rfl
  | error message => exact h.of_eq rfl rfl rfl

theorem writeError (text : String) : (k.writeError text).Paired theme := by
  rw [Console.writeError]
  cases k.err.write text with
  | ok err => exact h.of_eq rfl rfl rfl
  | error message => exact h.of_eq rfl rfl rfl

/-! ### Templates -/

theorem format (vars : Lookup) (template : String) : (k.format vars template).2.Paired theme where
  themed := h.themed
  formatter := h.formatter.call (.expand vars template)
  prompter := ⟨h.prompter.codes, h.prompter.flavor, h.prompter.coherent⟩
  same code hcode :=
    (congrArg (·[code]?) (k.formatter.later_expand vars template).codes).trans (h.same code hcode)
  produced := rfl

theorem prompt (vars : Lookup) (template : String) : (k.prompt vars template).2.Paired theme where
  themed := h.themed
  formatter := ⟨h.formatter.codes, h.formatter.flavor, h.formatter.coherent⟩
  prompter := h.prompter.call (.expand vars template)
  same code hcode :=
    (h.same code hcode).trans
      (congrArg (·[code]?) (k.prompter.later_expand vars template).codes).symm
  produced := rfl

/-! ### Codes -/

/-- Both expanders are called to do the same. -/
theorem both {c : Template.Call}
    (hproduced : (k.formatter.call c).produced = (k.prompter.call c).produced) :
    { k with formatter := k.formatter.call c, prompter := k.prompter.call c }.Paired theme where
  themed := h.themed
  formatter := h.formatter.call c
  prompter := h.prompter.call c
  same code hcode := by
    rw [Expander.codes_call, Expander.codes_call, h.same code hcode]
  produced := hproduced

/-- **Adding a code**: it is refused by both expanders or by none. -/
theorem register_eq (code : Char) (expansion : Expansion) :
    k.register code expansion =
      if k.formatter.isRegistered code then (.error ⟨.codeTaken code, none⟩, k)
      else (.ok (), { k with
        formatter := { k.formatter with codes := k.formatter.codes.insert code expansion }
        prompter := { k.prompter with codes := k.prompter.codes.insert code expansion } }) := by
  have hsame := h.isRegistered code
  cases hfree : k.formatter.isRegistered code with
  | true => rw [Console.register, Expander.register_of_taken hfree]; rfl
  | false =>
    rw [Console.register, Expander.register, Expander.register, ← hsame, hfree]
    rfl

/-- **Removing a code**: both expanders have it, or none. -/
theorem unregister_eq (code : Char) :
    k.unregister code = (k.formatter.isRegistered code && !isReserved code,
      { k with
        formatter := (k.formatter.unregister code).2
        prompter := (k.prompter.unregister code).2 }) := by
  have hsame := h.isRegistered code
  rw [Console.unregister, Expander.unregister, Expander.unregister, ← hsame]
  cases isReserved code with
  | true => simp
  | false => simp

theorem register (code : Char) (expansion : Expansion) :
    (k.register code expansion).2.Paired theme := by
  rw [h.register_eq]
  split
  · exact h
  · rename_i hfree
    have hcall (e : Expander) (he : e.isRegistered code = k.formatter.isRegistered code) :
        e.call (.register code expansion) = { e with codes := e.codes.insert code expansion } := by
      rw [Expander.call, Expander.register, he, if_neg hfree]
    have hboth := h.both (c := .register code expansion)
    rw [hcall _ rfl, hcall _ (h.isRegistered code).symm] at hboth
    exact hboth h.produced

theorem unregister (code : Char) : (k.unregister code).2.Paired theme := by
  rw [h.unregister_eq]
  refine h.both (c := .unregister code) ?_
  rw [Expander.call, Expander.call, Expander.unregister, Expander.unregister]
  split
  · exact h.produced
  · exact congrArg (·.erase code) h.produced

end Paired

end Console

/-! ## Any calls -/

open Console in
/-- **A call** keeps the expanders of a console paired. -/
theorem ConsoleCall.run_paired {theme : Theme} {k : Console} (h : k.Paired theme)
    (c : ConsoleCall) : (c.run k).2.Paired theme := by
  cases c with
  | theme => exact h
  | write text => exact h.write text
  | print text => exact h.write _
  | format vars template => exact h.format vars template
  | printf vars template => exact (h.format vars template).write _
  | error text => exact (h.format _ _).writeError _
  | warning text => exact (h.format _ _).writeError _
  | printDoc vars doc => exact (h.format vars _).write _
  | prompt vars template => exact h.prompt vars template
  | register code expansion => exact h.register code expansion
  | unregister code => exact h.unregister code

namespace Console

theorem paired_after (theme : Theme) (host : Host) (out err : Sink) (calls : List ConsoleCall) :
    ((Console.new theme host out err).after calls).Paired theme :=
  after_keeps (P := Paired theme) (fun _ c h => c.run_paired h) (.new theme host out err) calls

/-! ## One table of codes -/

/-- What a code stands for in the output, and in prompts. -/
def meanings (k : Console) (code : Char) : Option Expansion × Option Expansion :=
  (k.formatter.codes[code]?, k.prompter.codes[code]?)

/-- A console that has one table of codes.  Its expanders know the same codes, and only differ in how
    colours are written; a code is added to both of them or to none, and removed from both. -/
structure OneTable (k : Console) : Prop where
  same : ∀ code, k.formatter.isRegistered code = k.prompter.isRegistered code
  alike : ∀ code, themeCodes.lookup code = none →
    k.formatter.codes[code]? = k.prompter.codes[code]?
  register : ∀ code expansion, (k.register code expansion).1 =
    if k.formatter.isRegistered code then .error ⟨.codeTaken code, none⟩ else .ok ()
  refused : ∀ code expansion fault, (k.register code expansion).1 = .error fault →
    (k.register code expansion).2 = k
  added : ∀ code expansion, (k.register code expansion).1 = .ok () →
    ∀ other, (k.register code expansion).2.meanings other =
      if code = other then (some expansion, some expansion) else k.meanings other
  unregister : ∀ code,
    (k.unregister code).1 = (k.formatter.isRegistered code && !isReserved code)
  removed : ∀ code, (k.unregister code).1 = true →
    ∀ other, (k.unregister code).2.meanings other =
      if code = other then (none, none) else k.meanings other
  kept : ∀ code, (k.unregister code).1 = false →
    ∀ other, (k.unregister code).2.meanings other = k.meanings other

namespace Paired

variable {theme : Theme} {k : Console} (h : k.Paired theme)
include h

/-- What removing a code does to the meaning of a code. -/
theorem meanings_unregister (code other : Char) :
    (k.unregister code).2.meanings other =
      if code = other ∧ isReserved other = false then (none, none) else k.meanings other := by
  have hformatter : (k.formatter.unregister code).2.codes[other]? = _ :=
    k.formatter.codes_call (.unregister code) other
  have hprompter : (k.prompter.unregister code).2.codes[other]? = _ :=
    k.prompter.codes_call (.unregister code) other
  rw [h.unregister_eq, meanings, hformatter, hprompter, Template.Expander.meaningAfter,
    Template.Expander.meaningAfter, meanings]
  split <;> rfl

theorem oneTable : k.OneTable where
  same := h.isRegistered
  alike := h.same
  register code expansion := by
    rw [h.register_eq]
    split <;> rfl
  refused code expansion fault hrefused := by
    rw [h.register_eq] at hrefused ⊢
    split at hrefused
    · rename_i htaken
      rw [if_pos htaken]
    · cases hrefused
  added code expansion hadded other := by
    rw [h.register_eq] at hadded ⊢
    split at hadded
    · cases hadded
    · rename_i hfree
      rw [if_neg hfree]
      simp only [meanings, Std.TreeMap.getElem?_insert, Std.LawfulEqCmp.compare_eq_iff_eq]
      split <;> rfl
  unregister code := by rw [h.unregister_eq]
  removed code hremoved other := by
    rw [h.unregister_eq, Bool.and_eq_true, Bool.not_eq_true'] at hremoved
    rw [h.meanings_unregister]
    by_cases heq : code = other
    · rw [if_pos ⟨heq, heq ▸ hremoved.2⟩, if_pos heq]
    · rw [if_neg (mt And.left heq), if_neg heq]
  kept code hkept other := by
    rw [h.unregister_eq, Bool.and_eq_false_iff, Bool.not_eq_false'] at hkept
    rw [h.meanings_unregister]
    split
    · rename_i hgone
      obtain ⟨rfl, hfree⟩ := hgone
      -- a code that is not reserved was not there
      have hunknown : k.formatter.isRegistered code = false :=
        hkept.resolve_right fun hreserved => absurd (hreserved.symm.trans hfree) nofun
      have hunknown' := (h.isRegistered code).symm.trans hunknown
      rw [Expander.isRegistered_eq, Option.isSome_eq_false_iff, Option.isNone_iff_eq_none]
        at hunknown hunknown'
      rw [meanings, hunknown, hunknown']
    · rfl

end Paired

/-- **Output and prompts have one table of codes**, whatever was added, removed, written, expanded
    or asked for before. -/
theorem oneTable_after (theme : Theme) (host : Host) (out err : Sink) (calls : List ConsoleCall) :
    ((Console.new theme host out err).after calls).OneTable :=
  (paired_after theme host out err calls).oneTable

/-! ## Errors and warnings -/

/-- The line for a text in a colour of a theme. -/
def coloredLine (theme : Theme) (slot : Slot) (text : String) : String :=
  theme.sequence slot ++ text ++ theme.sequence .normal ++ "\n"

/-- A console that writes errors and warnings as they are, in the colours of a theme, and nothing
    but that.  A text with doubled percent signs is expanded to the text. -/
structure Verbatim (theme : Theme) (k : Console) : Prop where
  error : ∀ text, k.err.failure = none →
    k.error text = { k with err.written := k.err.written ++ coloredLine theme .red text }
  warning : ∀ text, k.err.failure = none →
    k.warning text = { k with err.written := k.err.written ++ coloredLine theme .brightYellow text }
  broken : ∀ text message, k.err.failure = some message →
    k.error text = k.note (.writeFailed .err message) ∧
      k.warning text = k.note (.writeFailed .err message)
  quiet : ∀ text, (k.error text).out = k.out ∧ (k.warning text).out = k.out
  formatter : ∀ vars text,
    k.formatter.expand vars (Template.escape text) = ⟨text, k.formatter, []⟩
  prompter : ∀ vars text,
    k.prompter.expand vars (Template.escape text) = ⟨text, k.prompter, []⟩

/-- The text of an error is put between the code of a colour and the one of ordinary text, its
    percent signs doubled: **what comes out** is the line in this colour, and the console is as
    before. -/
theorem Paired.format_line {theme : Theme} {k : Console} (h : k.Paired theme) {code : Char}
    {slot : Slot} (hcode : themeCodes.lookup code = some slot) (text : String) :
    k.format noVariables (Template.ask code ++ Template.escape text ++ "%N\n") =
      (coloredLine theme slot text, k) := by
  have hcolor := Expander.writes_ask (h.formatter.prints hcode) noVariables
  have htext := Expander.writes_escape k.formatter noVariables text
  have hnormal : themeCodes.lookup 'N' = some .normal := rfl
  have hnewline : '%' ∉ "\n".toList := by decide
  have hend := (Expander.writes_ask (h.formatter.prints hnormal) noVariables).append
    (Expander.writes_plain hnewline)
  have hexpand := ((hcolor.append htext).append hend).expand
  rw [show Template.ask 'N' ++ "\n" = "%N\n" by decide, ← String.append_assoc] at hexpand
  rw [Console.format, hexpand, coloredLine, h.produced, List.append_nil]

/-- Writing a line to the error stream; a line is not empty, so a broken stream refuses it. -/
theorem writeError_line (k : Console) (theme : Theme) (slot : Slot) (text : String) :
    k.writeError (coloredLine theme slot text) =
      match k.err.failure with
      | none => { k with err.written := k.err.written ++ coloredLine theme slot text }
      | some message => k.note (.writeFailed .err message) := by
  have hne : coloredLine theme slot text ≠ "" := by
    intro hempty
    simpa [coloredLine] using congrArg String.toList hempty
  cases hfailure : k.err.failure with
  | none => simp only [writeError, Sink.write, hfailure]
  | some message => simp only [writeError, Sink.write, hfailure, if_neg hne]

theorem Paired.verbatim {theme : Theme} {k : Console} (h : k.Paired theme) :
    k.Verbatim theme := by
  have herror (text : String) : k.error text = k.writeError (coloredLine theme .red text) := by
    have hcode : themeCodes.lookup 'r' = some .red := rfl
    rw [error, show "%r" = Template.ask 'r' from rfl, h.format_line hcode]
  have hwarning (text : String) :
      k.warning text = k.writeError (coloredLine theme .brightYellow text) := by
    have hcode : themeCodes.lookup 'Y' = some .brightYellow := rfl
    rw [warning, show "%Y" = Template.ask 'Y' from rfl, h.format_line hcode]
  constructor
  case error => exact fun text hworks => by rw [herror, writeError_line, hworks]
  case warning => exact fun text hworks => by rw [hwarning, writeError_line, hworks]
  case broken =>
    intro text message hbroken
    rw [herror, hwarning, writeError_line, writeError_line, hbroken]
    exact ⟨rfl, rfl⟩
  case quiet =>
    intro text
    rw [herror, hwarning, writeError_line, writeError_line]
    cases k.err.failure <;> exact ⟨rfl, rfl⟩
  case formatter => exact fun vars text => (Expander.writes_escape _ vars text).expand
  case prompter => exact fun vars text => (Expander.writes_escape _ vars text).expand

/-- **Errors and warnings are written verbatim**, whatever was added, removed, written, expanded or
    asked for before. -/
theorem verbatim_after (theme : Theme) (host : Host) (out err : Sink) (calls : List ConsoleCall) :
    ((Console.new theme host out err).after calls).Verbatim theme :=
  (paired_after theme host out err calls).verbatim

end Console

end NestedShell
