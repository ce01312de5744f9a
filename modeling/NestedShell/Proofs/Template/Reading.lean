/-
  Reading templates, without an automaton.

  The automaton that reads templates pushes nothing back and has a rule for every character in every
  mode.  Here reading a character is a function of the mode and the canvas, and reading a text a
  fold over its characters.

  * `read` reads a character; `step_eq_read`: so does the automaton;
  * `scan` reads a text, `readTemplate_eq_scan`: so does expanding it;
  * `scan_keeps`: what producing the text of a code keeps, reading keeps;
  * `expand_of_scan`: a template after which nothing is left open.
-/
import Mathlib.Tactic.SplitIfs
import NestedShell.Template.Expander

namespace NestedShell.Template

/-! ## One character -/

/-- Reads a character. -/
def read (vars : Lookup) : Mode → Char → Canvas → Mode × Canvas
  | .ground, c, k => if c = '%' then (.percent, k) else (.ground, k.writeChar c)
  | .percent, c, k =>
    if c = '%' then (.ground, k.writeChar c)
    else if c = '{' then (.name, k.openName)
    else if c = '[' then (.color, k.openColor)
    else (.ground, k.writeCode vars c)
  | .name, c, k => if c = '}' then (.ground, k.writeVariable vars) else (.name, k.addNameChar c)
  | .color, c, k =>
    if c = 'F' then (.foreground, k)
    else if c = 'B' then (.background, k)
    else if c = ']' then (.ground, k)
    else if c.isDigit then (.foreground, k.addDigit c)
    else (.ground, k.noteMalformed c)
  | .foreground, c, k =>
    if c = ']' then (.ground, k.writeColor 38)
    else if c.isDigit then (.foreground, k.addDigit c)
    else (.ground, k.noteMalformed c)
  | .background, c, k =>
    if c = ']' then (.ground, k.writeColor 48)
    else if c.isDigit then (.background, k.addDigit c)
    else (.ground, k.noteMalformed c)

/-- **The automaton reads a character** as `read` does, whatever the mode is. -/
theorem step_eq_read (vars : Lookup) (m : Mode) (c : Char) (k : Canvas) (pushed : List Char) :
    machine.step vars c ⟨m, ⟨k, pushed⟩⟩ =
      (.ok (), ⟨(read vars m c k).1, ⟨(read vars m c k).2, pushed⟩⟩) := by
  cases m <;>
  · simp only [Automaton.step, Automaton.rule?, machine, exactRule, anyRule, read]
    split_ifs <;> rfl

/-- A character changes the expander only by producing the text of a code. -/
theorem expander_read (vars : Lookup) (m : Mode) (c : Char) (k : Canvas) :
    (read vars m c k).2.expander = k.expander ∨
      (read vars m c k).2.expander = (k.expander.textOf vars c).2 := by
  cases m with
  | ground | name =>
    simp only [read]
    split_ifs <;> exact .inl rfl
  | percent =>
    simp only [read]
    split_ifs
    · exact .inl rfl
    · exact .inl rfl
    · exact .inl rfl
    · exact .inr rfl
  | color =>
    simp only [read]
    split_ifs <;> exact .inl rfl
  | foreground | background =>
    simp only [read, Canvas.writeColor]
    split_ifs <;> exact .inl rfl

/-! ## A text -/

/-- Reads a text. -/
def scan (vars : Lookup) (cs : List Char) (m : Mode) (k : Canvas) : Mode × Canvas :=
  cs.foldl (fun r c => read vars r.1 c r.2) (m, k)

section
variable (vars : Lookup) (cs : List Char) (m : Mode) (k : Canvas)

@[simp]
theorem scan_nil : scan vars [] m k = (m, k) := rfl

theorem scan_cons (c : Char) :
    scan vars (c :: cs) m k = scan vars cs (read vars m c k).1 (read vars m c k).2 := rfl

theorem scan_append (ds : List Char) :
    scan vars (cs ++ ds) m k = scan vars ds (scan vars cs m k).1 (scan vars cs m k).2 :=
  List.foldl_append

/-- **Reading a template** scans its characters. -/
theorem readTemplate_eq_scan (escape pushed : List Char) :
    (readTemplate vars cs escape ⟨m, ⟨k, pushed⟩⟩).2 =
      ⟨(scan vars cs m k).1, ⟨(scan vars cs m k).2, pushed⟩⟩ := by
  induction cs generalizing m k escape with
  | nil => rfl
  | cons c cs ih =>
    rw [readTemplate, step_eq_read]
    exact ih ..

variable {vars cs m k}

/-- **What producing the text of a code keeps**, reading keeps. -/
theorem scan_keeps {P : Expander → Prop} (h : ∀ e c, P e → P (Expander.textOf e vars c).2)
    (hk : P k.expander) : P (scan vars cs m k).2.expander := by
  induction cs generalizing m k with
  | nil => exact hk
  | cons c cs ih =>
    rw [scan_cons]
    refine ih ?_
    rcases expander_read vars m c k with hread | hread
    · rwa [hread]
    · rw [hread]
      exact h _ c hk

end

/-! ## Expansion -/

theorem expander_expand (e : Expander) (vars : Lookup) (template : String) :
    (e.expand vars template).expander = (scan vars template.toList .ground e.canvas).2.left := by
  have hread := readTemplate_eq_scan vars template.toList .ground e.canvas [] []
  rw [Expander.expand]
  exact congrArg (fun r : Run Char Mode Canvas => r.bench.scratch.left) hread

/-- **A template after which nothing is left open** is expanded to what is on the canvas. -/
theorem expand_of_scan {e : Expander} {vars : Lookup} {template : String} {k : Canvas}
    (h : scan vars template.toList .ground e.canvas = (.ground, k)) :
    e.expand vars template = ⟨k.out, k.left, k.log⟩ := by
  have hread := readTemplate_eq_scan vars template.toList .ground e.canvas [] []
  rw [h] at hread
  rw [Expander.expand]
  rcases hrun : readTemplate vars template.toList [] (machine.start e.canvas) with
    ⟨escape, r⟩
  obtain rfl : r = ⟨.ground, ⟨k, []⟩⟩ := by
    rw [← hread]
    exact (congrArg Prod.snd hrun).symm
  rfl

end NestedShell.Template
