/-
  What the word under the cursor may be replaced by.

  The word under the cursor is the longest run without blanks and semicolons that ends there.  The
  words that it may become are those of one source: variables behind a dollar sign, commands at the
  start of a statement, and else the arguments of the command that the statement starts with.

  * a `Cursor` is a line cut at the start of that word and at the cursor; `exists_cursor`;
  * a `Source` is where words come from, and how they are written; `Source.Expected` tells which one
    belongs to a word, `Source.Expected.unique` that it is the only one;
  * `Completes`: a completion starts at the start of the word, and the replacements are the words of
    a source that go on with what was typed; `complete_completes`: it does so at every cursor.
-/
import NestedShell.Completion.LineAssistant
import NestedShell.Proofs.Text.Cut
import NestedShell.Proofs.Text.Offset
import NestedShell.Proofs.Text.Runs

namespace NestedShell.LineAssistant

/-! ## The word under the cursor -/

/-- A line, cut at the start of the word under the cursor and at the cursor.  The word is the
    longest run without blanks and semicolons that ends there. -/
structure Cursor (line : String) (pos : Nat) where
  front : String
  typed : String
  rest : String
  line_eq : line = front ++ typed ++ rest
  pos_eq : pos = (front ++ typed).utf8ByteSize
  finalRun : Text.FinalRun (!isSeparator ·) (front ++ typed) front typed

/-- Every position at a boundary of a line is a cursor. -/
theorem exists_cursor {line : String} {pos : Nat}
    (hpos : Text.isBoundary pos line.toList = true) : Nonempty (Cursor line pos) := by
  obtain ⟨us, vs, hline, rfl⟩ := Text.isBoundary_iff.1 hpos
  obtain ⟨front, typed, hrun⟩ : ∃ front typed,
      Text.FinalRun (!isSeparator ·) (String.ofList us) front typed :=
    ⟨_, _, Text.exists_finalRun ..⟩
  have hus : String.ofList us = front ++ typed := hrun.eq_append
  have hpos : Text.byteLength us = (front ++ typed).utf8ByteSize := by
    rw [← hus, ← Text.byteLength_toList, String.toList_ofList]
  have hline : line = front ++ typed ++ String.ofList vs := by
    rw [← hus, ← String.ofList_append, ← hline, String.ofList_toList]
  exact ⟨front, typed, String.ofList vs, hline, hpos, hus ▸ hrun⟩

/-- What the line is cut into at a cursor. -/
theorem tokenBefore_eq {line : String} {pos : Nat} (cursor : Cursor line pos) :
    tokenBefore line pos = (cursor.front.toList, cursor.typed.toList) := by
  obtain ⟨front, typed, rest, rfl, rfl, hrun⟩ := cursor
  have hbefore : Text.takeBytes (front ++ typed).utf8ByteSize (front ++ typed ++ rest).toList =
      (front ++ typed).toList := by
    rw [← Text.byteLength_toList, String.toList_append (t := rest), Text.takeBytes_append]
  have htyped : ((front ++ typed).toList.reverse.takeWhile (!isSeparator ·)).reverse =
      typed.toList := hrun.rtakeWhile_eq
  rw [tokenBefore, hbefore, htyped]
  simp

/-! ## Sources of words -/

/-- Where the words come from that may be offered. -/
inductive Source where
  | references (braces : Bool)
  | commands
  | arguments (command : String)

namespace Source

/-- The words of a source. -/
def words (s : Snapshot) : Source → List String
  | references _ => s.vars
  | commands => s.commands
  | arguments command => s.arguments.getD command []

/-- What is written in front of a word. -/
def opening : Source → String
  | references true => "$\x7b"
  | references false => "$"
  | commands | arguments _ => ""

/-- What is written behind a word. -/
def closing : Source → String
  | references true => "\x7d"
  | references false | commands | arguments _ => ""

/-- A word as it is written at the place of completion. -/
def write (source : Source) (word : String) : String := source.opening ++ word ++ source.closing

/-- The source of the words that something typed may become, behind the text `front`. -/
inductive Expected (front typed : String) : Source → Prop
  | braced : Text.startsWith "$\x7b" typed = true → Expected front typed (references true)
  | bare : Text.startsWith "$" typed = true → Text.startsWith "$\x7b" typed = false →
      Expected front typed (references false)
  /-- only blanks stand in front, back to a semicolon or the start of the line -/
  | command {before last : String} : Text.startsWith "$" typed = false →
      Text.FinalRun (· != ';') front before last → (∀ c ∈ last.toList, Text.isBlank c = true) →
      Expected front typed commands
  /-- another word is the first one behind the last semicolon -/
  | argument {before last command : String} : Text.startsWith "$" typed = false →
      Text.FinalRun (· != ';') front before last → Text.IsFirstWord command last →
      Expected front typed (arguments command)

theorem startsWith_dollar {typed : String} (h : Text.startsWith "$\x7b" typed = true) :
    Text.startsWith "$" typed = true := by
  obtain ⟨part, rfl⟩ := Text.startsWith_iff.1 h
  exact Text.startsWith_iff.2 ⟨"\x7b" ++ part, by rw [← String.append_assoc]; rfl⟩

/-- There is **one source** for what is typed. -/
theorem Expected.unique {front typed : String} {source other : Source}
    (h : source.Expected front typed) (h' : other.Expected front typed) : source = other := by
  cases h with
  | braced hbrace =>
    cases h' with
    | braced _ => rfl
    | bare _ hbare => simp [hbare] at hbrace
    | command hword | argument hword => simp [startsWith_dollar hbrace] at hword
  | bare hdollar hbare =>
    cases h' with
    | braced hbrace => simp [hbare] at hbrace
    | bare _ _ => rfl
    | command hword | argument hword => simp [hdollar] at hword
  | command hword hlast hblank =>
    cases h' with
    | braced hbrace => simp [startsWith_dollar hbrace] at hword
    | bare hdollar _ => simp [hdollar] at hword
    | command _ _ _ => rfl
    | argument _ hlast' hfirst =>
      obtain ⟨-, rfl⟩ := hlast.unique hlast'
      simpa [Text.words_eq_nil hblank] using hfirst.head?_words
  | argument hword hlast hfirst =>
    cases h' with
    | braced hbrace => simp [startsWith_dollar hbrace] at hword
    | bare hdollar _ => simp [hdollar] at hword
    | command _ hlast' hblank =>
      obtain ⟨-, rfl⟩ := hlast.unique hlast'
      simpa [Text.words_eq_nil hblank] using hfirst.head?_words
    | argument _ hlast' hfirst' =>
      obtain ⟨-, rfl⟩ := hlast.unique hlast'
      exact congrArg arguments (Option.some.inj (hfirst.head?_words.symm.trans hfirst'.head?_words))

end Source

/-! ## Candidates -/

section
variable {front before last : String} (h : Text.FinalRun (· != ';') front before last)
include h

/-- A command is expected where only blanks stand behind the last semicolon. -/
theorem expectsCommand_iff :
    expectsCommand front.toList = true ↔ ∀ c ∈ last.toList, Text.isBlank c = true := by
  obtain ⟨rfl, hlast, hbefore⟩ := h
  constructor
  · intro hexpects
    obtain ⟨word, gap, hgap⟩ : ∃ word gap, Text.FinalRun Text.isBlank last word gap :=
      ⟨_, _, Text.exists_finalRun ..⟩
    obtain ⟨rfl, hall, hword⟩ := hgap
    rcases List.eq_nil_or_concat word.toList with hnil | ⟨cs, c, hchars⟩
    · rwa [String.toList_append, hnil]
    · -- the last character that is not blank stands behind the last semicolon
      have hfront : Text.FinalRun Text.isBlank (before ++ (word ++ gap)) (before ++ word) gap := by
        refine ⟨(String.append_assoc ..).symm, hall, fun d hd => hword d ?_⟩
        simpa [hchars] using hd
      have hc : c ≠ ';' := by simpa using hlast c (by simp [hchars])
      rw [expectsCommand, hfront.dropEndWhile_eq, String.toList_append, hchars] at hexpects
      simp [hc] at hexpects
  · intro hblank
    have hfront : Text.FinalRun Text.isBlank (before ++ last) before last := by
      refine ⟨rfl, hblank, fun c hc => ?_⟩
      obtain rfl : c = ';' := by simpa using hbefore c hc
      decide
    rw [expectsCommand, hfront.dropEndWhile_eq]
    split
    · rfl
    · rename_i c hc
      simpa using hbefore c hc

theorem commandBefore?_eq : commandBefore? front.toList = (Text.words last).head? := by
  rw [commandBefore?, String.ofList_toList, h.afterLast_eq]

end

/-- The candidates for a word without a dollar sign are the words of **the source that is
    expected** there. -/
theorem exists_candidatesAfter (a : LineAssistant) (front : String) {typed : String}
    (htyped : Text.startsWith "$" typed = false) :
    ∃ source : Source, source.Expected front typed ∧ source.opening = "" ∧ source.closing = "" ∧
      a.candidatesAfter front.toList = source.words a.snapshot := by
  obtain ⟨before, last, hlast⟩ : ∃ before last, Text.FinalRun (· != ';') front before last :=
    ⟨_, _, Text.exists_finalRun ..⟩
  by_cases hblank : ∀ c ∈ last.toList, Text.isBlank c = true
  · refine ⟨.commands, .command htyped hlast hblank, rfl, rfl, ?_⟩
    rw [candidatesAfter, if_pos ((expectsCommand_iff hlast).2 hblank), Source.words]
  · obtain ⟨command, hcommand⟩ := Text.exists_isFirstWord hblank
    refine ⟨.arguments command, .argument htyped hlast hcommand, rfl, rfl, ?_⟩
    have hall (word : String) : Text.startsWith "" word = true := rfl
    rw [candidatesAfter, if_neg (mt (expectsCommand_iff hlast).1 hblank), commandBefore?_eq hlast,
      hcommand.head?_words, Source.words]
    exact List.filter_eq_self.2 fun word _ => hall word

/-! ## Completions -/

/-- What is offered at a cursor: the words of one source that go on with what is typed. -/
structure Completes (a : LineAssistant) {line : String} {pos : Nat} (cursor : Cursor line pos)
    (source : Source) (completion : Completion) : Prop where
  start_eq : completion.start = cursor.front.utf8ByteSize
  start_le : completion.start ≤ pos
  expected : source.Expected cursor.front cursor.typed
  /-- the words that start with what is typed behind the opening, in their order -/
  replacements_eq : ∃ part, cursor.typed = source.opening ++ part ∧
    completion.replacements =
      ((source.words a.snapshot).filter (Text.startsWith part)).map source.write
  extends_typed : ∀ r ∈ completion.replacements, Text.startsWith cursor.typed r = true

/-- The words of a source that start with what is typed. -/
theorem completes_of_eq {a : LineAssistant} {line : String} {pos : Nat} {cursor : Cursor line pos}
    {source : Source} {part : String} (hexpected : source.Expected cursor.front cursor.typed)
    (htyped : cursor.typed = source.opening ++ part)
    (hcomplete : (a.complete line pos).replacements =
      offers part (source.words a.snapshot) source.opening source.closing) :
    a.Completes cursor source (a.complete line pos) := by
  have hstart : (a.complete line pos).start = cursor.front.utf8ByteSize := by
    rw [complete, tokenBefore_eq cursor, ← Text.byteLength_toList]
  refine ⟨hstart, ?_, hexpected, ⟨part, htyped, hcomplete⟩, ?_⟩
  · have hpos : cursor.front.utf8ByteSize + cursor.typed.utf8ByteSize = pos := by
      rw [← String.utf8ByteSize_append, ← cursor.pos_eq]
    omega
  · intro r hr
    rw [hcomplete, offers] at hr
    obtain ⟨word, hword, rfl⟩ := List.mem_map.1 hr
    obtain ⟨more, rfl⟩ := Text.startsWith_iff.1 (List.mem_filter.1 hword).2
    refine Text.startsWith_iff.2 ⟨more ++ source.closing, ?_⟩
    rw [htyped]
    simp only [String.append_assoc]

/-- What is offered at a cursor comes from the source that is expected there. -/
theorem exists_completes (a : LineAssistant) {line : String} {pos : Nat}
    (cursor : Cursor line pos) :
    ∃ source : Source, a.Completes cursor source (a.complete line pos) := by
  have hcut := tokenBefore_eq cursor
  by_cases hbrace : Text.startsWith "$\x7b" cursor.typed = true
  · obtain ⟨part, hpart⟩ := Text.startsWith_iff.1 hbrace
    refine ⟨.references true, completes_of_eq (.braced hbrace) hpart ?_⟩
    simp only [complete, hcut, String.ofList_toList, Text.strip?_eq_some_iff.2 hpart]
    rfl
  · have hnone : Text.strip? "$\x7b" cursor.typed = none := if_neg hbrace
    by_cases hdollar : Text.startsWith "$" cursor.typed = true
    · obtain ⟨part, hpart⟩ := Text.startsWith_iff.1 hdollar
      refine ⟨.references false,
        completes_of_eq (.bare hdollar (Bool.not_eq_true _ ▸ hbrace)) hpart ?_⟩
      simp only [complete, hcut, String.ofList_toList, hnone, Text.strip?_eq_some_iff.2 hpart]
      rfl
    · have hword : Text.strip? "$" cursor.typed = none := if_neg hdollar
      obtain ⟨source, hexpected, hopening, hclosing, hcandidates⟩ :=
        a.exists_candidatesAfter cursor.front (Bool.not_eq_true _ ▸ hdollar)
      have htyped : cursor.typed = source.opening ++ cursor.typed := by
        rw [hopening, String.empty_append]
      refine ⟨source, completes_of_eq hexpected htyped ?_⟩
      simp only [complete, hcut, String.ofList_toList, hnone, hword, hcandidates, hopening,
        hclosing]

/-- **A completion extends what was typed**, for every snapshot, line and cursor: it starts where
    the longest run without blanks and semicolons that ends at the cursor starts, and offers the
    words of one source that go on with it. -/
theorem complete_completes (a : LineAssistant) {line : String} {pos : Nat}
    (hpos : Text.isBoundary pos line.toList = true) :
    ∃ (cursor : Cursor line pos) (source : Source),
      a.Completes cursor source (a.complete line pos) ∧
        ∀ other : Source, other.Expected cursor.front cursor.typed → other = source := by
  obtain ⟨cursor⟩ := exists_cursor hpos
  obtain ⟨source, hcompletes⟩ := a.exists_completes cursor
  exact ⟨cursor, source, hcompletes, fun other h => h.unique hcompletes.expected⟩

/-- Behind characters of several bytes and a semicolon: the word of the second statement is a
    command, and the word behind it completes its arguments. -/
theorem complete_second_statement :
    let a : LineAssistant := { snapshot.arguments := .ofList [("help", ["echo", "exit", "été"])] }
    let line := "été;\u3000help é; x"
    Text.isBoundary 16 line.toList = true ∧
      (a.complete line 16).start = 14 ∧ (a.complete line 16).replacements = ["été"] ∧
      ∃ (cursor : Cursor line 16) (source : Source),
        a.Completes cursor source (a.complete line 16) ∧
          ∀ other : Source, other.Expected cursor.front cursor.typed → other = source := by
  intro a line
  have hpos : Text.isBoundary 16 line.toList = true := by decide +kernel
  exact ⟨hpos, by decide +kernel, by decide +kernel, a.complete_completes hpos⟩

end NestedShell.LineAssistant
