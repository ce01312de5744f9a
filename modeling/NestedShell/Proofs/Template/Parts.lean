/-
  Templates in parts.

  What is read next depends on the mode, the codes and the buffers, but not on what was written
  before.  So a template can be cut wherever no escape is open, and what is expanded first leaves
  the expander for what is expanded next.  When an escape is open at the end, the template is
  expanded up to the percent sign of that escape, and the rest of it is kept as it stands.

  * `Canvas.behind` puts a canvas behind an earlier one; `read_behind`, `readTemplate_behind`:
    reading does not notice the earlier one;
  * `Expander.modeAfter` is the mode that a template leads to; `expand_append`: a template behind
    one that leaves nothing open;
  * `Expander.Cut` cuts off the escape that is not finished; `Expander.exists_cut` and `Cut.unique`:
    there is one way to do so; `Cut.expand`: what is cut off is kept as it stands;
  * `mem_log_expand` and `isSome_rule?`: no template breaks off;
  * `Expander.InParts` and `inParts` put this together.
-/
import Mathlib.Data.List.Induction
import NestedShell.Proofs.Template.Reading

namespace NestedShell.Template

/-! ## What was written before -/

/-- The expander with other leftovers in its buffers. -/
def Expander.withBuffers (e : Expander) (name digits : String) : Expander := { e with name, digits }

/-- The text of a code has nothing to do with the buffers. -/
theorem Expander.textOf_withBuffers (e : Expander) (name digits : String) (vars : Lookup)
    (code : Char) :
    (e.withBuffers name digits).textOf vars code =
      ((e.textOf vars code).1, (e.textOf vars code).2.withBuffers name digits) := by
  simp only [textOf, withBuffers]
  cases e.memo[code]? with
  | some text => rfl
  | none =>
    cases e.codes[code]? with
    | none => rfl
    | some expansion => cases expansion <;> rfl

namespace Canvas

/-- What stands on a canvas, behind what stands on an earlier one. -/
def behind (earlier k : Canvas) : Canvas :=
  { k with
    out := earlier.out ++ k.out
    log := earlier.log ++ k.log
    expander := k.expander.withBuffers earlier.expander.name earlier.expander.digits }

variable (earlier k : Canvas) (c : Char)

theorem behind_write (text : String) :
    (earlier.behind k).write text = earlier.behind (k.write text) := by
  simp only [behind, write, String.append_assoc]

theorem behind_writeChar : (earlier.behind k).writeChar c = earlier.behind (k.writeChar c) := by
  have hwrite (k : Canvas) : k.writeChar c = k.write (String.singleton c) := by
    rw [writeChar, write, String.append_singleton]
  rw [hwrite, hwrite, behind_write]

theorem behind_writeVariable (vars : Lookup) :
    (earlier.behind k).writeVariable vars = earlier.behind (k.writeVariable vars) := by
  simp only [behind, writeVariable, String.append_assoc]

theorem behind_writeCode (vars : Lookup) :
    (earlier.behind k).writeCode vars c = earlier.behind (k.writeCode vars c) := by
  simp only [behind, writeCode, Expander.textOf_withBuffers, String.append_assoc]

theorem behind_noteMalformed :
    (earlier.behind k).noteMalformed c = earlier.behind (k.noteMalformed c) := by
  simp only [behind, noteMalformed, List.append_assoc]

theorem behind_writeColor (layer : Nat) :
    (earlier.behind k).writeColor layer = earlier.behind (k.writeColor layer) := by
  have hdigits : (earlier.behind k).digits = k.digits := rfl
  rw [writeColor, writeColor, hdigits]
  split
  · rfl
  · exact behind_write earlier k _

end Canvas

/-- **Reading a character** does not notice what was written before. -/
theorem read_behind (vars : Lookup) (m : Mode) (c : Char) (earlier k : Canvas) :
    read vars m c (earlier.behind k) =
      ((read vars m c k).1, earlier.behind (read vars m c k).2) := by
  cases m with
  | ground =>
    simp only [read, Canvas.behind_writeChar]
    split_ifs <;> rfl
  | percent =>
    simp only [read, Canvas.behind_writeChar, Canvas.behind_writeCode]
    split_ifs <;> rfl
  | name =>
    simp only [read, Canvas.behind_writeVariable]
    split_ifs <;> rfl
  | color =>
    simp only [read, Canvas.behind_noteMalformed]
    split_ifs <;> rfl
  | foreground | background =>
    simp only [read, Canvas.behind_writeColor, Canvas.behind_noteMalformed]
    split_ifs <;> rfl

/-- **Reading a template** does not notice what was written before. -/
theorem readTemplate_behind (vars : Lookup) (cs escape pushed : List Char) (m : Mode)
    (earlier k : Canvas) :
    let p := readTemplate vars cs escape ⟨m, ⟨k, pushed⟩⟩
    readTemplate vars cs escape ⟨m, ⟨earlier.behind k, pushed⟩⟩ =
      (p.1, ⟨p.2.state, ⟨earlier.behind p.2.bench.scratch, p.2.bench.pushed⟩⟩) := by
  induction cs generalizing m k escape with
  | nil => rfl
  | cons c cs ih =>
    simp only [readTemplate, step_eq_read, read_behind]
    exact ih ..

/-! ## A template behind another one -/

/-- The mode that a template leads to. -/
def Expander.modeAfter (e : Expander) (vars : Lookup) (template : String) : Mode :=
  (readTemplate vars template.toList [] (machine.start e.canvas)).2.state

theorem Expander.modeAfter_eq (e : Expander) (vars : Lookup) (template : String) :
    e.modeAfter vars template = (scan vars template.toList .ground e.canvas).1 :=
  congrArg Run.state (readTemplate_eq_scan vars template.toList .ground e.canvas [] [])

/-- What reading a template comes to. -/
def finish (p : List Char × Run Char Mode Canvas) : Expanded where
  text := if machine.isIdle p.2 then p.2.bench.scratch.out
    else p.2.bench.scratch.out ++ String.ofList p.1
  expander := p.2.bench.scratch.left
  log := p.2.bench.scratch.log

theorem expand_eq_finish (e : Expander) (vars : Lookup) (template : String) :
    e.expand vars template =
      finish (readTemplate vars template.toList [] (machine.start e.canvas)) := rfl

section
variable (escape pushed : List Char) {m : Mode} (k : Canvas)

theorem isIdle_eq_false (h : m ≠ .ground) :
    machine.isIdle (⟨m, ⟨k, pushed⟩⟩ : Run Char Mode Canvas) = false :=
  decide_eq_false h

theorem finish_ground : finish (escape, ⟨.ground, ⟨k, pushed⟩⟩) = ⟨k.out, k.left, k.log⟩ := rfl

theorem finish_open (h : m ≠ .ground) :
    finish (escape, ⟨m, ⟨k, pushed⟩⟩) = ⟨k.out ++ String.ofList escape, k.left, k.log⟩ := by
  simp only [finish, isIdle_eq_false pushed k h, Bool.false_eq_true, if_false]

end

/-- What was written before stays in front. -/
theorem finish_behind (escape pushed : List Char) (m : Mode) (earlier k : Canvas) :
    let x := finish (escape, ⟨m, ⟨k, pushed⟩⟩)
    finish (escape, ⟨m, ⟨earlier.behind k, pushed⟩⟩) =
      ⟨earlier.out ++ x.text, x.expander, earlier.log ++ x.log⟩ := by
  by_cases hm : m = .ground
  · subst hm
    rfl
  · rw [finish_open _ _ _ hm, finish_open _ _ _ hm]
    simp only [Canvas.behind, String.append_assoc]
    rfl

section
variable (vars : Lookup) (cs : List Char) (m : Mode) (k : Canvas)

/-- A text is read on from where another one leaves off. -/
theorem readTemplate_append (ds escape pushed : List Char) : ∃ escape',
    readTemplate vars (cs ++ ds) escape ⟨m, ⟨k, pushed⟩⟩ =
      readTemplate vars ds escape' ⟨(scan vars cs m k).1, ⟨(scan vars cs m k).2, pushed⟩⟩ := by
  induction cs generalizing m k escape with
  | nil => exact ⟨escape, rfl⟩
  | cons c cs ih =>
    simp only [List.cons_append, readTemplate, step_eq_read, scan_cons]
    exact ih ..

/-- Where no escape is open, it does not matter where the last one began. -/
theorem finish_readTemplate (escape escape' pushed : List Char) :
    finish (readTemplate vars cs escape ⟨.ground, ⟨k, pushed⟩⟩) =
      finish (readTemplate vars cs escape' ⟨.ground, ⟨k, pushed⟩⟩) := by
  cases cs <;> rfl

end

/-- What is behind a template that leaves nothing open is read on the canvas that it leaves. -/
theorem exists_canvas {e : Expander} {vars : Lookup} {first : String}
    (h : e.modeAfter vars first = .ground) :
    ∃ k, scan vars first.toList .ground e.canvas = (.ground, k) ∧
      e.expand vars first = ⟨k.out, k.left, k.log⟩ ∧
      ∀ second, e.expand vars (first ++ second) =
        finish (readTemplate vars second.toList [] ⟨.ground, ⟨k, []⟩⟩) := by
  rw [Expander.modeAfter_eq] at h
  rcases hscan : scan vars first.toList .ground e.canvas with ⟨m, k⟩
  obtain rfl : m = .ground := by rw [← h, hscan]
  refine ⟨k, rfl, expand_of_scan hscan, fun second => ?_⟩
  obtain ⟨escape, hread⟩ :=
    readTemplate_append vars first.toList .ground e.canvas second.toList [] []
  rw [hscan] at hread
  rw [expand_eq_finish, String.toList_append]
  exact (congrArg finish hread).trans (finish_readTemplate ..)

/-- What is left on a canvas is what the next template is expanded on, behind it. -/
theorem behind_left (k : Canvas) : k.behind k.left.canvas = k := by
  simp only [Canvas.behind, Expander.canvas, Canvas.left, Expander.withBuffers, String.append_empty,
    List.append_nil]

/-- **A template behind one that leaves nothing open** is expanded after it. -/
theorem expand_append {e : Expander} {vars : Lookup} {first : String}
    (h : e.modeAfter vars first = .ground) (second : String) :
    let x := e.expand vars first
    let y := x.expander.expand vars second
    e.expand vars (first ++ second) = ⟨x.text ++ y.text, y.expander, x.log ++ y.log⟩ := by
  obtain ⟨k, -, hfirst, hboth⟩ := exists_canvas h
  have hbehind := readTemplate_behind vars second.toList [] [] .ground k k.left.canvas
  rw [behind_left] at hbehind
  rw [hfirst, hboth, hbehind]
  exact finish_behind ..

/-! ## Escapes that are left open -/

section
variable {vars : Lookup} {m : Mode} {c : Char} {k : Canvas}

/-- Only a percent sign begins an escape. -/
theorem eq_percent (h : (read vars .ground c k).1 ≠ .ground) : c = '%' := by
  by_contra hc
  simp [read, hc] at h

/-- Inside an escape only the buffers change. -/
theorem read_open (h : (read vars m c k).1 ≠ .ground) :
    ∃ name digits, (read vars m c k).2 = { k with name, digits } := by
  cases m <;>
  · simp only [read] at h ⊢
    split_ifs at h ⊢
    all_goals first
      | exact ⟨_, _, rfl⟩
      | exact absurd rfl h

/-- No part of a text leaves nothing open. -/
def NeverGround (vars : Lookup) (cs : List Char) (m : Mode) (k : Canvas) : Prop :=
  ∀ part, part <+: cs → part ≠ [] → (scan vars part m k).1 ≠ .ground

theorem neverGround_nil (vars : Lookup) (m : Mode) (k : Canvas) : NeverGround vars [] m k :=
  fun _ hpart hne => absurd (List.prefix_nil.1 hpart) hne

theorem NeverGround.read {cs : List Char} (h : NeverGround vars (c :: cs) m k) :
    (Template.read vars m c k).1 ≠ .ground :=
  h [c] (List.cons_prefix_cons.2 ⟨rfl, List.nil_prefix⟩) (List.cons_ne_nil c [])

theorem NeverGround.tail {cs : List Char} (h : NeverGround vars (c :: cs) m k) :
    NeverGround vars cs (Template.read vars m c k).1 (Template.read vars m c k).2 := by
  intro part hpart _
  exact h (c :: part) (List.cons_prefix_cons.2 ⟨rfl, hpart⟩) (List.cons_ne_nil c part)

/-- An escape that is open stays open, and is kept from its start on. -/
theorem readTemplate_open {cs : List Char} (hm : m ≠ .ground) (h : NeverGround vars cs m k)
    (escape pushed : List Char) : ∃ m' name digits, m' ≠ .ground ∧
      readTemplate vars cs escape ⟨m, ⟨k, pushed⟩⟩ =
        (escape, ⟨m', ⟨{ k with name, digits }, pushed⟩⟩) := by
  induction cs generalizing m k with
  | nil => exact ⟨m, k.name, k.digits, hm, rfl⟩
  | cons c cs ih =>
    obtain ⟨name, digits, hread⟩ := read_open h.read
    obtain ⟨m', name', digits', hm', hrest⟩ := ih h.read h.tail
    have hbusy := isIdle_eq_false pushed k hm
    refine ⟨m', name', digits', hm', ?_⟩
    rw [hread] at hrest
    simp only [readTemplate, step_eq_read, hbusy, hread, Bool.false_eq_true, if_false]
    exact hrest

/-- A text that begins where nothing is open is empty, or left open from its first character on. -/
theorem readTemplate_leftOpen {cs : List Char} (h : NeverGround vars cs .ground k)
    (escape pushed : List Char) : ∃ name digits,
      finish (readTemplate vars cs escape ⟨.ground, ⟨k, pushed⟩⟩) =
        ⟨k.out ++ String.ofList cs, k.left.withBuffers name digits, k.log⟩ := by
  cases cs with
  | nil =>
    refine ⟨k.name, k.digits, ?_⟩
    rw [readTemplate, finish_ground, String.ofList_nil, String.append_empty]
    rfl
  | cons c cs =>
    obtain rfl := eq_percent h.read
    have htail : NeverGround vars cs .percent k := h.tail
    obtain ⟨m, name, digits, hm, hread⟩ :=
      readTemplate_open (by decide) htail ('%' :: cs) pushed
    refine ⟨name, digits, ?_⟩
    have hstep : readTemplate vars ('%' :: cs) escape ⟨.ground, ⟨k, pushed⟩⟩ =
        readTemplate vars cs ('%' :: cs) ⟨.percent, ⟨k, pushed⟩⟩ := by
      simp only [readTemplate, step_eq_read]
      rfl
    rw [hstep, hread, finish_open _ _ _ hm]
    rfl

/-- A text is cut behind the last place where nothing is open. -/
theorem exists_cut (vars : Lookup) (cs : List Char) (k : Canvas) : ∃ front back,
    cs = front ++ back ∧ (scan vars front .ground k).1 = .ground ∧
      NeverGround vars back .ground (scan vars front .ground k).2 := by
  -- from the end, since any character can be the one after which nothing is open
  induction cs using List.reverseRecOn with
  | nil => exact ⟨[], [], rfl, rfl, neverGround_nil vars .ground _⟩
  | append_singleton cs c ih =>
    obtain ⟨front, back, rfl, hfront, hback⟩ := ih
    by_cases hground : (scan vars (front ++ back ++ [c]) .ground k).1 = .ground
    · exact ⟨front ++ back ++ [c], [], by simp, hground, neverGround_nil vars .ground _⟩
    · refine ⟨front, back ++ [c], by simp, hfront, fun part hpart hne => ?_⟩
      rcases List.prefix_concat_iff.1 hpart with rfl | hpart
      · rw [List.append_assoc, scan_append, hfront] at hground
        exact hground
      · exact hback part hpart hne

end

/-! ## Cutting a template -/

/-- A template is cut where the last escape begins, if that one is not finished; otherwise nothing
    is cut off. -/
structure Expander.Cut (e : Expander) (vars : Lookup) (template front escape : String) : Prop where
  parts : template = front ++ escape
  settled : e.modeAfter vars front = .ground
  percent : escape = "" ∨ ∃ rest, escape = "%" ++ rest
  /-- no part of the escape leaves nothing open -/
  unfinished : ∀ part rest, escape = part ++ rest → part ≠ "" →
    e.modeAfter vars (front ++ part) ≠ .ground

namespace Expander

section
variable {e : Expander} {vars : Lookup} {template front escape : String}

theorem modeAfter_append (h : e.modeAfter vars front = .ground) (part : String) :
    e.modeAfter vars (front ++ part) =
      (scan vars part.toList .ground (scan vars front.toList .ground e.canvas).2).1 := by
  rw [modeAfter_eq] at h
  rw [modeAfter_eq, String.toList_append, scan_append, h]

theorem neverGround_iff (h : e.modeAfter vars front = .ground) :
    NeverGround vars escape.toList .ground (scan vars front.toList .ground e.canvas).2 ↔
      ∀ part rest, escape = part ++ rest → part ≠ "" →
        e.modeAfter vars (front ++ part) ≠ .ground := by
  constructor
  · rintro hnever part rest rfl hne
    rw [modeAfter_append h]
    refine hnever part.toList ?_ fun hnil => hne (String.toList_eq_nil_iff.1 hnil)
    rw [String.toList_append]
    exact List.prefix_append ..
  · rintro hparts part ⟨rest, hrest⟩ hne
    have hescape : escape = String.ofList part ++ String.ofList rest :=
      String.toList_injective (by simp [hrest])
    have hpart := hparts _ _ hescape (by simpa using hne)
    rwa [modeAfter_append h, String.toList_ofList] at hpart

/-- **Every template can be cut.** -/
theorem exists_cut (e : Expander) (vars : Lookup) (template : String) :
    ∃ front escape, e.Cut vars template front escape := by
  obtain ⟨front, back, hparts, hfront, hback⟩ :=
    Template.exists_cut vars template.toList e.canvas
  have hsettled : e.modeAfter vars (String.ofList front) = .ground := by
    rwa [modeAfter_eq, String.toList_ofList]
  refine ⟨String.ofList front, String.ofList back, ?_, hsettled, ?_, ?_⟩
  · exact String.toList_injective (by simpa using hparts)
  · cases back with
    | nil => exact .inl rfl
    | cons c rest =>
      obtain rfl := eq_percent hback.read
      exact .inr ⟨String.ofList rest, String.toList_injective (by simp)⟩
  · refine (neverGround_iff hsettled).1 ?_
    simpa only [String.toList_ofList] using hback

/-- Nothing more can be cut off. -/
theorem Cut.eq_empty {part rest : String} (h : e.Cut vars template front (part ++ rest))
    (hground : e.modeAfter vars (front ++ part) = .ground) : part = "" := by
  by_contra hne
  exact h.unfinished part rest rfl hne hground

/-- **A template is cut in one way only.** -/
theorem Cut.unique {front' escape' : String} (h : e.Cut vars template front escape)
    (h' : e.Cut vars template front' escape') : front' = front ∧ escape' = escape := by
  have hparts : front'.toList ++ escape'.toList = front.toList ++ escape.toList := by
    rw [← String.toList_append, ← String.toList_append, ← h.parts, ← h'.parts]
  rcases List.append_eq_append_iff.1 hparts with ⟨mid, hfront, hescape⟩ | ⟨mid, hfront, hescape⟩
  · obtain rfl : front = front' ++ String.ofList mid := String.toList_injective (by simp [hfront])
    obtain rfl : escape' = String.ofList mid ++ escape :=
      String.toList_injective (by simp [hescape])
    simp [h'.eq_empty h.settled]
  · obtain rfl : front' = front ++ String.ofList mid := String.toList_injective (by simp [hfront])
    obtain rfl : escape = String.ofList mid ++ escape' :=
      String.toList_injective (by simp [hescape])
    simp [h.eq_empty h'.settled]

/-- **What is cut off is kept** as it stands. -/
theorem Cut.expand (h : e.Cut vars template front escape) :
    let x := e.expand vars front
    ∃ name digits, e.expand vars template =
      ⟨x.text ++ escape, x.expander.withBuffers name digits, x.log⟩ := by
  obtain ⟨rfl, hsettled, -, hunfinished⟩ := h
  have hnever := (neverGround_iff hsettled).2 hunfinished
  obtain ⟨k, hscan, hfront, hboth⟩ := exists_canvas hsettled
  rw [hscan] at hnever
  obtain ⟨name, digits, hopen⟩ := readTemplate_leftOpen hnever [] []
  refine ⟨name, digits, ?_⟩
  rw [hfront, hboth, hopen, String.ofList_toList]

end

end Expander

/-! ## What is noted -/

section
variable {vars : Lookup} {m : Mode} {k : Canvas} {entry : LogEntry}

/-- A character is noted at most as one that does not fit. -/
theorem log_read (vars : Lookup) (m : Mode) (c : Char) (k : Canvas) :
    (read vars m c k).2.log = k.log ∨
      (read vars m c k).2.log = k.log ++ [.malformedEscape c] := by
  cases m with
  | ground | percent | name =>
    simp only [read]
    split_ifs <;> exact .inl rfl
  | color =>
    simp only [read]
    split_ifs
    all_goals first
      | exact .inl rfl
      | exact .inr rfl
  | foreground | background =>
    simp only [read, Canvas.writeColor]
    split_ifs
    all_goals first
      | exact .inl rfl
      | exact .inr rfl

theorem mem_log_scan {cs : List Char} (h : entry ∈ (scan vars cs m k).2.log) :
    entry ∈ k.log ∨ ∃ c ∈ cs, entry = .malformedEscape c := by
  induction cs generalizing m k with
  | nil => exact .inl h
  | cons c cs ih =>
    rw [scan_cons] at h
    rcases ih h with hentry | ⟨d, hd, rfl⟩
    · rcases log_read vars m c k with hlog | hlog
      · exact .inl (hlog ▸ hentry)
      · rw [hlog, List.mem_append, List.mem_singleton] at hentry
        exact hentry.imp_right fun h => ⟨c, List.mem_cons_self, h⟩
    · exact .inr ⟨d, List.mem_cons_of_mem c hd, rfl⟩

/-- **All that is noted** are characters of the template that do not fit into a colour. -/
theorem mem_log_expand {e : Expander} {template : String}
    (h : entry ∈ (e.expand vars template).log) :
    ∃ c ∈ template.toList, entry = .malformedEscape c := by
  have hlog : (e.expand vars template).log =
      (scan vars template.toList .ground e.canvas).2.log :=
    congrArg (·.bench.scratch.log)
      (readTemplate_eq_scan vars template.toList .ground e.canvas [] [])
  rw [hlog] at h
  exact (mem_log_scan h).resolve_left List.not_mem_nil

end

/-- **There is a rule** for every character in every mode. -/
theorem isSome_rule? (m : Mode) (c : Char) : (machine.rule? m c).isSome = true := by
  have hfallback : machine.fallback.isSome = true := rfl
  rw [Automaton.rule?, Option.isSome_or, Option.isSome_or, hfallback, Bool.or_true, Bool.or_true]

/-! ## Templates in parts -/

/-- An expander takes templates in parts. -/
structure Expander.InParts (e : Expander) (vars : Lookup) : Prop where
  /-- there is a rule for whatever comes next -/
  rule : ∀ front c, (machine.rule? (e.modeAfter vars front) c).isSome = true
  /-- no template breaks off -/
  unbroken : ∀ template fault, .brokenTemplate fault ∉ (e.expand vars template).log
  /-- what is behind a template that leaves nothing open is expanded next -/
  append : ∀ first second, e.modeAfter vars first = .ground →
    let x := e.expand vars first
    let y := x.expander.expand vars second
    e.expand vars (first ++ second) = ⟨x.text ++ y.text, y.expander, x.log ++ y.log⟩
  /-- an escape that is not finished is cut off -/
  cut : ∀ template, ∃! parts : String × String, e.Cut vars template parts.1 parts.2
  /-- what is cut off is kept as it stands -/
  keep : ∀ {template front escape}, e.Cut vars template front escape →
    let x := e.expand vars front
    ∃ name digits, e.expand vars template =
      ⟨x.text ++ escape, x.expander.withBuffers name digits, x.log⟩

/-- **Templates are taken in parts**, whatever was expanded before. -/
theorem Expander.inParts (e : Expander) (vars : Lookup) : e.InParts vars where
  rule front c := isSome_rule? (e.modeAfter vars front) c
  unbroken template fault h := by
    obtain ⟨c, -, hc⟩ := mem_log_expand h
    cases hc
  append first second h := expand_append h second
  cut template := by
    obtain ⟨front, escape, hcut⟩ := e.exists_cut vars template
    refine ⟨(front, escape), hcut, fun parts hparts => ?_⟩
    obtain ⟨hfront, hescape⟩ := hcut.unique hparts
    exact Prod.ext hfront hescape
  keep h := h.expand

/-- A colour that is dropped, and one that is not finished. -/
example : (Expander.expand { flavor := .plain, codes := ∅ } (fun _ => none) "a%[Fx]b%[F1").text =
    "a]b%[F1" := by decide

end NestedShell.Template
