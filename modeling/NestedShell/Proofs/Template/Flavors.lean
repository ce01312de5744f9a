/-
  The two flavours of a template.

  What a template is expanded to for a line editor and for the output is put together from the same
  pieces: texts, which are written as they are, and colour sequences, which only the line editor gets
  between marks.  Every mark that is written comes in such a pair, also when the template is
  malformed or ends inside an escape.

  * a `Piece` is a text or a colour sequence, `Piece.From` says where it may come from;
  * `Expander.Colored`: an expander with the colours of a theme; `colored_after`: so it is after any
    calls;
  * `Canvas.Twins`: two canvases on which the same pieces were written; `Twins.read`: reading a
    character keeps them so, `Twins.readTemplate`: reading a template does;
  * `Twins.expand`: both expansions are made of the same pieces;
  * `Bracketed`: a text in which marks enclose colour sequences, and nothing else;
  * `expand_flavors` puts this together.
-/
import NestedShell.Proofs.Template.Calls

namespace NestedShell.Template

/-! ## The colours of a theme -/

theorem lookup_map_snd {α β : Type} (f : α → β) (entries : List (Char × α)) (code : Char) :
    (entries.map fun (c, a) => (c, f a)).lookup code = (entries.lookup code).map f := by
  induction entries with
  | nil => rfl
  | cons entry entries ih =>
    rw [List.map_cons, List.lookup_cons, List.lookup_cons, ih]
    cases code == entry.1 <;> rfl

/-- A table of entries that are inserted one by one, no code twice. -/
theorem getElem?_foldl_insert {entries : List (Char × Expansion)}
    (h : (entries.map (·.1)).Nodup) (table : CodeTable) (code : Char) :
    (entries.foldl (fun t e => t.insert e.1 e.2) table)[code]? =
      (entries.lookup code).or table[code]? := by
  induction entries generalizing table with
  | nil => rfl
  | cons entry entries ih =>
    obtain ⟨hentry, hentries⟩ := List.nodup_cons.1 h
    rw [List.foldl_cons, ih hentries, List.lookup_cons, Std.TreeMap.getElem?_insert]
    by_cases heq : entry.1 = code
    · subst heq
      have hnone : entries.lookup entry.1 = none := by
        rw [List.lookup_eq_none_iff]
        intro p hp
        have hne : entry.1 ≠ p.1 := fun heq => hentry (List.mem_map.2 ⟨p, hp, heq.symm⟩)
        simpa using hne
      simp [hnone]
    · have hother : (code == entry.1) = false := by simpa using Ne.symm heq
      simp [heq, hother]

/-- What the codes stand for from the start: the sequences of a theme, and what is told by the
    host. -/
theorem getElem?_reservedTable (theme : Theme) (host : Host) (flavor : Flavor) (code : Char) :
    (reservedTable theme host flavor)[code]? =
      ((themeCodes.lookup code).map fun slot => .literal (flavor.wrap (theme.sequence slot))).or
        ((hostCodes host).lookup code) := by
  have hnodup : ((reservedCodes theme host flavor).map (·.1)).Nodup := by
    rw [map_fst_reservedCodes]
    decide
  have hcolors := lookup_map_snd
    (fun slot => Expansion.literal (flavor.wrap (theme.sequence slot))) themeCodes code
  rw [reservedTable, getElem?_foldl_insert hnodup, reservedCodes, List.lookup_append, ← hcolors,
    show (∅ : CodeTable)[code]? = none from Std.TreeMap.getElem?_emptyc, Option.or_none]

/-- The text that an expansion produces, a lazy one for the first time. -/
def Expansion.text (vars : Lookup) : Expansion → String
  | literal text => text
  | lazy produce => produce 0
  | live produce => produce vars

namespace Expander

/-- An expander of a flavour, with the colours of a theme. -/
structure Colored (theme : Theme) (flavor : Flavor) (e : Expander) : Prop where
  codes : ∀ code slot, themeCodes.lookup code = some slot →
    e.codes[code]? = some (.literal (flavor.wrap (theme.sequence slot)))
  flavor : e.flavor = flavor
  coherent : e.Coherent

theorem flavor_call (e : Expander) (c : Call) : (e.call c).flavor = e.flavor := by
  cases c with
  | register code expansion =>
    rw [call, register]
    split <;> rename_i hok
    · split at hok <;> cases hok
      rfl
    · rfl
  | unregister code =>
    rw [call, unregister]
    split <;> rfl
  | expand vars template => exact (later_expand e vars template).flavor

/-- The codes of colours are reserved. -/
theorem isReserved_of_lookup {code : Char} {slot : Slot} (h : themeCodes.lookup code = some slot) :
    isReserved code = true := by
  have hmeaning := getElem?_reservedTable .plain {} .plain code
  rw [h, Option.map_some, Option.some_or] at hmeaning
  rw [← contains_reservedTable .plain {} .plain, ← Std.TreeMap.isSome_getElem?_eq_contains,
    hmeaning]
  rfl

theorem colored_new (theme : Theme) (host : Host) (flavor : Flavor) :
    (Expander.new theme host flavor).Colored theme flavor where
  codes code slot hcode := by
    have hmeaning := getElem?_reservedTable theme host flavor code
    rw [hcode, Option.map_some, Option.some_or] at hmeaning
    exact hmeaning
  flavor := rfl
  coherent := coherent_new theme host flavor

/-- A call leaves the colours, since their codes are reserved. -/
theorem Colored.call {theme : Theme} {flavor : Flavor} {e : Expander} (h : e.Colored theme flavor)
    (c : Call) : (e.call c).Colored theme flavor where
  codes code slot hcode := by
    have hkept : (e.after [c]).codes[code]? = _ :=
      kept_after (h.codes code slot hcode) (.inl (isReserved_of_lookup hcode))
    exact hkept
  flavor := (flavor_call e c).trans h.flavor
  coherent := h.coherent.call c

/-- **After any calls** an expander has the colours that it was made with. -/
theorem colored_after (theme : Theme) (host : Host) (flavor : Flavor) (calls : List Call) :
    ((Expander.new theme host flavor).after calls).Colored theme flavor :=
  after_keeps (fun _ c h => h.call c) (colored_new theme host flavor) calls

/-- What a code stands for after some calls. -/
theorem codes_after (e : Expander) (calls : List Call) (code : Char) :
    (e.after calls).codes[code]? = calls.foldl (meaningAfter code) e.codes[code]? := by
  induction calls generalizing e with
  | nil => rfl
  | cons c calls ih => exact (ih (e.call c)).trans (by rw [codes_call, List.foldl_cons])

/-- The value of a code of a theme. -/
theorem Colored.valueOf {theme : Theme} {flavor : Flavor} {e : Expander}
    (h : e.Colored theme flavor) {code : Char} {slot : Slot}
    (hcode : themeCodes.lookup code = some slot) (vars : Lookup) :
    e.valueOf vars code = flavor.wrap (theme.sequence slot) := by
  rw [Expander.valueOf, h.codes code slot hcode]

/-- The value of a code is told by what it stands for, as long as what is remembered is sound. -/
theorem Sound.valueOf {e : Expander} (h : e.Sound) (vars : Lookup) (code : Char) :
    e.valueOf vars code = (e.codes[code]?.map (·.text vars)).getD code.toString := by
  rw [Expander.valueOf]
  cases hcode : e.codes[code]? with
  | none => rfl
  | some expansion =>
    cases expansion with
    | literal text => rfl
    | live produce => rfl
    | lazy produce =>
      cases hmemo : e.memo[code]? with
      | none => rw [h.count_eq_zero hmemo]; rfl
      | some text =>
        obtain ⟨produce', hlazy, rfl⟩ := h.memo code text hmemo
        obtain rfl : produce = produce' := by simpa [hcode] using hlazy
        rfl

/-- Two expanders, one for a line editor and one for output, with the colours of a theme and the
    same text for every other code. -/
structure Twins (theme : Theme) (vars : Lookup) (e p : Expander) : Prop where
  editor : e.Colored theme .editor
  plain : p.Colored theme .plain
  same : ∀ code, themeCodes.lookup code = none → e.valueOf vars code = p.valueOf vars code

end Expander

/-! ## Pieces -/

/-- A piece of an expansion: a text, or a colour sequence. -/
inductive Piece where
  | text (s : String)
  | color (sequence : String)

/-- How a piece is written in a flavour. -/
def Piece.chars (flavor : Flavor) : Piece → List Char
  | text s => s.toList
  | color sequence => (flavor.wrap sequence).toList

/-- The sequences of a theme, and those of the indexed colours. -/
inductive IsColor (theme : Theme) : String → Prop where
  | slot (slot : Slot) : IsColor theme (theme.sequence slot)
  | indexed {layer : Nat} {digits : String} (hlayer : layer = 38 ∨ layer = 48)
      (hne : digits ≠ "") (hdigits : digits.toList.all Char.isDigit) :
      IsColor theme s!"\x1b[{layer};5;{digits}m"

/-- Where the pieces of an expansion come from: characters of the template, the value of a variable,
    the text of a code that is registered, or a colour. -/
inductive Piece.From (theme : Theme) (vars : Lookup) (e : Expander) (template : List Char) :
    Piece → Prop where
  | typed {s : String} (h : s.toList ⊆ template) : From theme vars e template (.text s)
  | value {name s : String} (h : vars name = some s) : From theme vars e template (.text s)
  | code {c : Char} (hcode : themeCodes.lookup c = none) (h : e.isRegistered c = true) :
    From theme vars e template (.text (e.valueOf vars c))
  | color {sequence : String} (h : IsColor theme sequence) (hne : sequence ≠ "") :
    From theme vars e template (.color sequence)

/-- Two canvases on which the same pieces were written in both flavours, and the buffers that the
    mode reads from. -/
structure Canvas.Twins (theme : Theme) (vars : Lookup) (e p : Expander) (template : List Char)
    (m : Mode) (pieces : List Piece) (k k' : Canvas) : Prop where
  out : k.out.toList = pieces.flatMap (·.chars .editor)
  out' : k'.out.toList = pieces.flatMap (·.chars .plain)
  origin : ∀ piece ∈ pieces, piece.From theme vars e template
  later : e.Later k.expander
  later' : p.Later k'.expander
  name : m = .name → k.name = k'.name ∧ k.name.toList ⊆ template
  digits : m = .color ∨ m = .foreground ∨ m = .background →
    k.digits = k'.digits ∧ k.digits.toList.all Char.isDigit

namespace Canvas.Twins

variable {theme : Theme} {vars : Lookup} {e p : Expander} {template : List Char} {m : Mode}
  {pieces : List Piece} {k k' : Canvas} (h : k.Twins theme vars e p template m pieces k')
include h

/-- Outside of escapes nothing is read from the buffers. -/
theorem ground : k.Twins theme vars e p template .ground pieces k' :=
  ⟨h.out, h.out', h.origin, h.later, h.later', by simp, by simp⟩

/-- A piece is written, and no escape is open after it. -/
theorem add {piece : Piece} (hpiece : piece.From theme vars e template) {k₁ k₁' : Canvas}
    (hout : k₁.out.toList = k.out.toList ++ piece.chars .editor)
    (hout' : k₁'.out.toList = k'.out.toList ++ piece.chars .plain)
    (hlater : k.expander.Later k₁.expander) (hlater' : k'.expander.Later k₁'.expander) :
    k₁.Twins theme vars e p template .ground (pieces ++ [piece]) k₁' where
  out := by rw [hout, h.out, List.flatMap_append, List.flatMap_singleton]
  out' := by rw [hout', h.out', List.flatMap_append, List.flatMap_singleton]
  origin := by
    intro q hq
    rcases List.mem_append.1 hq with hq | hq
    · exact h.origin q hq
    · exact List.mem_singleton.1 hq ▸ hpiece
  later := h.later.trans hlater
  later' := h.later'.trans hlater'
  name := by simp
  digits := by simp

/-- A text is written on both. -/
theorem write {s : String} (hs : Piece.From theme vars e template (.text s)) {k₁ k₁' : Canvas}
    (hk₁ : k₁.out = k.out ++ s ∧ k₁.expander = k.expander)
    (hk₁' : k₁'.out = k'.out ++ s ∧ k₁'.expander = k'.expander) :
    k₁.Twins theme vars e p template .ground (pieces ++ [.text s]) k₁' :=
  h.add hs (by rw [hk₁.1, String.toList_append]; rfl) (by rw [hk₁'.1, String.toList_append]; rfl)
    (hk₁.2 ▸ .refl _) (hk₁'.2 ▸ .refl _)

/-- A character of the template is written. -/
theorem writeChar {c : Char} (hc : c ∈ template) : ∃ pieces',
    (k.writeChar c).Twins theme vars e p template .ground pieces' (k'.writeChar c) :=
  ⟨_, h.write (.typed (s := String.singleton c) (by simpa using hc))
    ⟨String.append_singleton.symm, rfl⟩ ⟨String.append_singleton.symm, rfl⟩⟩

/-- The value of a variable is written, or its name. -/
theorem writeVariable (hbuffer : k.name = k'.name ∧ k.name.toList ⊆ template) : ∃ pieces',
    (k.writeVariable vars).Twins theme vars e p template .ground pieces'
      (k'.writeVariable vars) := by
  obtain ⟨hname, htyped⟩ := hbuffer
  have hpiece : Piece.From theme vars e template (.text ((vars k.name).getD k.name)) := by
    cases hvalue : vars k.name with
    | some value => exact .value hvalue
    | none => exact .typed htyped
  exact ⟨_, h.write hpiece ⟨rfl, rfl⟩ ⟨by rw [Canvas.writeVariable, hname], rfl⟩⟩

/-- The colour of the digits is written; without digits there is none. -/
theorem writeColor (he : Expander.Twins theme vars e p)
    (hbuffer : k.digits = k'.digits ∧ k.digits.toList.all Char.isDigit) {layer : Nat}
    (hlayer : layer = 38 ∨ layer = 48) : ∃ pieces',
    (k.writeColor layer).Twins theme vars e p template .ground pieces' (k'.writeColor layer) := by
  obtain ⟨hdigits, hdecimal⟩ := hbuffer
  rw [Canvas.writeColor, Canvas.writeColor, ← hdigits]
  split
  · exact ⟨pieces, h.ground⟩
  · rename_i hne
    refine ⟨_, h.add (.color (.indexed hlayer hne hdecimal) ?_) ?_ ?_ (.refl _) (.refl _)⟩
    · intro hempty
      simpa using congrArg String.toList hempty
    · rw [h.later.flavor, he.editor.flavor]
      exact String.toList_append
    · rw [h.later'.flavor, he.plain.flavor]
      exact String.toList_append

/-- A digit is added to the buffers. -/
theorem addDigit (hbuffer : k.digits = k'.digits ∧ k.digits.toList.all Char.isDigit) {m' : Mode}
    (hm' : m' ≠ .name) {c : Char} (hc : c.isDigit = true) :
    (k.addDigit c).Twins theme vars e p template m' pieces (k'.addDigit c) := by
  refine ⟨h.out, h.out', h.origin, h.later, h.later', fun hname => absurd hname hm', fun _ => ?_⟩
  refine ⟨congrArg (·.push c) hbuffer.1, ?_⟩
  rw [Canvas.addDigit, String.toList_push, List.all_append, hbuffer.2]
  simpa using hc

theorem noteMalformed (c : Char) :
    (k.noteMalformed c).Twins theme vars e p template .ground pieces (k'.noteMalformed c) :=
  ⟨h.out, h.out', h.origin, h.later, h.later', by simp, by simp⟩

/-- The text of a code is written. -/
theorem writeCode (he : Expander.Twins theme vars e p) {c : Char} (hc : c ∈ template) :
    ∃ pieces', (k.writeCode vars c).Twins theme vars e p template .ground pieces'
      (k'.writeCode vars c) := by
  have hgives := k.expander.gives_textOf vars c
  have hgives' := k'.expander.gives_textOf vars c
  have hout : (k.writeCode vars c).out.toList = k.out.toList ++ (e.valueOf vars c).toList := by
    rw [← h.later.value vars c, ← hgives.text (h.later.coherent he.editor.coherent)]
    exact String.toList_append
  have hout' : (k'.writeCode vars c).out.toList = k'.out.toList ++ (p.valueOf vars c).toList := by
    rw [← h.later'.value vars c, ← hgives'.text (h.later'.coherent he.plain.coherent)]
    exact String.toList_append
  have hadd {piece : Piece} (hpiece : piece.From theme vars e template)
      (heditor : (e.valueOf vars c).toList = piece.chars .editor)
      (hplain : (p.valueOf vars c).toList = piece.chars .plain) : ∃ pieces',
      (k.writeCode vars c).Twins theme vars e p template .ground pieces' (k'.writeCode vars c) :=
    ⟨_, h.add hpiece (heditor ▸ hout) (hplain ▸ hout') hgives.later hgives'.later⟩
  cases hcode : themeCodes.lookup c with
  | some slot =>
    have heditor := he.editor.valueOf hcode vars
    have hplain := he.plain.valueOf hcode vars
    by_cases hempty : theme.sequence slot = ""
    · rw [hempty] at heditor hplain
      exact hadd (.typed (s := "") (by simp)) (congrArg _ heditor) (congrArg _ hplain)
    · exact hadd (.color (.slot slot) hempty) (congrArg _ heditor) (congrArg _ hplain)
  | none =>
    have hsame := congrArg String.toList (he.same c hcode).symm
    cases hregistered : e.isRegistered c with
    | true => exact hadd (.code hcode hregistered) rfl hsame
    | false =>
      have hnone : e.codes[c]? = none := by
        rw [Expander.isRegistered_eq] at hregistered
        exact Option.isNone_iff_eq_none.1 (Option.isSome_eq_false_iff.1 hregistered)
      have hvalue : e.valueOf vars c = String.singleton c := by
        rw [Expander.valueOf, hnone]
        rfl
      rw [hvalue] at hsame
      exact hadd (.typed (s := String.singleton c) (by simpa using hc)) (congrArg _ hvalue) hsame

/-- **Reading a character** of the template. -/
theorem read (he : Expander.Twins theme vars e p) {c : Char} (hc : c ∈ template) :
    (read vars m c k).1 = (read vars m c k').1 ∧ ∃ pieces',
      (read vars m c k).2.Twins theme vars e p template (read vars m c k).1 pieces'
        (read vars m c k').2 := by
  cases m with
  | ground =>
    simp only [Template.read]
    split_ifs
    · exact ⟨rfl, pieces, h.out, h.out', h.origin, h.later, h.later', by simp, by simp⟩
    · exact ⟨rfl, h.writeChar hc⟩
  | percent =>
    simp only [Template.read]
    split_ifs
    · exact ⟨rfl, h.writeChar hc⟩
    -- the buffers are emptied here
    · exact ⟨rfl, pieces, h.out, h.out', h.origin, h.later, h.later',
        fun _ => ⟨rfl, List.nil_subset _⟩, by simp⟩
    · exact ⟨rfl, pieces, h.out, h.out', h.origin, h.later, h.later', by simp, fun _ => ⟨rfl, rfl⟩⟩
    · exact ⟨rfl, h.writeCode he hc⟩
  | name =>
    obtain ⟨hname, htyped⟩ := h.name rfl
    simp only [Template.read]
    split_ifs
    · exact ⟨rfl, h.writeVariable ⟨hname, htyped⟩⟩
    · refine ⟨rfl, pieces, h.out, h.out', h.origin, h.later, h.later', fun _ => ?_, by simp⟩
      refine ⟨congrArg (·.push c) hname, ?_⟩
      rw [Canvas.addNameChar, String.toList_push]
      exact List.append_subset.2 ⟨htyped, by simpa using hc⟩
  | color =>
    have hbuffer := h.digits (.inl rfl)
    simp only [Template.read]
    split_ifs with _ _ _ hdigit
    · exact ⟨rfl, pieces, h.out, h.out', h.origin, h.later, h.later', by simp, fun _ => hbuffer⟩
    · exact ⟨rfl, pieces, h.out, h.out', h.origin, h.later, h.later', by simp, fun _ => hbuffer⟩
    · exact ⟨rfl, pieces, h.ground⟩
    · exact ⟨rfl, pieces, h.addDigit hbuffer (by simp) hdigit⟩
    · exact ⟨rfl, pieces, h.noteMalformed c⟩
  | foreground =>
    have hbuffer := h.digits (.inr (.inl rfl))
    simp only [Template.read]
    split_ifs with _ hdigit
    · exact ⟨rfl, h.writeColor he hbuffer (.inl rfl)⟩
    · exact ⟨rfl, pieces, h.addDigit hbuffer (by simp) hdigit⟩
    · exact ⟨rfl, pieces, h.noteMalformed c⟩
  | background =>
    have hbuffer := h.digits (.inr (.inr rfl))
    simp only [Template.read]
    split_ifs with _ hdigit
    · exact ⟨rfl, h.writeColor he hbuffer (.inr rfl)⟩
    · exact ⟨rfl, pieces, h.addDigit hbuffer (by simp) hdigit⟩
    · exact ⟨rfl, pieces, h.noteMalformed c⟩

/-- **Reading a template**: the same pieces were written, and the same escape is left open, if
    any. -/
theorem readTemplate (he : Expander.Twins theme vars e p) {cs escape : List Char}
    (hcs : cs ⊆ template) (hescape : escape ⊆ template) :
    let r := readTemplate vars cs escape ⟨m, ⟨k, []⟩⟩
    let r' := readTemplate vars cs escape ⟨m, ⟨k', []⟩⟩
    r.1 = r'.1 ∧ r.1 ⊆ template ∧ r.2.state = r'.2.state ∧ ∃ pieces',
      r.2.bench.scratch.Twins theme vars e p template r.2.state pieces' r'.2.bench.scratch := by
  induction cs generalizing m k k' escape pieces with
  | nil => exact ⟨rfl, hescape, rfl, pieces, h⟩
  | cons c cs ih =>
    obtain ⟨hc, hrest⟩ := List.cons_subset.1 hcs
    obtain ⟨hmode, pieces', hnext⟩ := h.read he hc
    have hopen : (if machine.isIdle (⟨m, ⟨k, []⟩⟩ : Run Char Mode Canvas) then c :: cs
        else escape) ⊆ template := by
      split
      · exact hcs
      · exact hescape
    simp only [Template.readTemplate, step_eq_read, ← hmode]
    exact ih hnext hrest hopen

end Canvas.Twins

namespace Expander

/-- **Both flavours** of an expansion are made of the same pieces. -/
theorem Twins.expand {theme : Theme} {vars : Lookup} {e p : Expander}
    (h : e.Twins theme vars p) (template : String) : ∃ pieces : List Piece,
      (∀ piece ∈ pieces, piece.From theme vars e template.toList) ∧
      (e.expand vars template).text.toList = pieces.flatMap (·.chars .editor) ∧
      (p.expand vars template).text.toList = pieces.flatMap (·.chars .plain) := by
  have hstart : e.canvas.Twins theme vars e p template.toList .ground [] p.canvas :=
    ⟨rfl, rfl, by simp, .refl e, .refl p, by simp, by simp⟩
  have hread := hstart.readTemplate h (List.Subset.refl _) (List.nil_subset _)
  have hinitial : machine.initial = .ground := rfl
  simp only [Expander.expand, Automaton.start, hinitial]
  generalize readTemplate vars template.toList [] ⟨.ground, ⟨e.canvas, []⟩⟩ = r at hread ⊢
  generalize readTemplate vars template.toList [] ⟨.ground, ⟨p.canvas, []⟩⟩ = r' at hread ⊢
  obtain ⟨hescape, htyped, hmode, pieces, hend⟩ := hread
  have hidle : machine.isIdle r.2 = machine.isIdle r'.2 :=
    congrArg (fun m => decide (m = machine.initial)) hmode
  rw [← hidle, ← hescape]
  split
  · exact ⟨pieces, hend.origin, hend.out, hend.out'⟩
  · -- the escape that is left open is a piece of the template
    have hpiece : Piece.From theme vars e template.toList (.text (String.ofList r.1)) :=
      .typed (by simpa using htyped)
    have hlast : ({ r.2.bench.scratch with
        out := r.2.bench.scratch.out ++ String.ofList r.1 } : Canvas).Twins theme vars e p
        template.toList .ground (pieces ++ [.text (String.ofList r.1)])
        { r'.2.bench.scratch with out := r'.2.bench.scratch.out ++ String.ofList r.1 } :=
      hend.write hpiece ⟨rfl, rfl⟩ ⟨rfl, rfl⟩
    exact ⟨_, hlast.origin, hlast.out, hlast.out'⟩

end Expander

/-! ## Marks -/

/-- Whether a character is one of the two marks. -/
def isMark (c : Char) : Bool := c = startMark || c = endMark

@[simp] theorem isMark_startMark : isMark startMark = true := by decide

@[simp] theorem isMark_endMark : isMark endMark = true := by decide

/-- A text without the marks in it. -/
def unmarked (s : String) : List Char := s.toList.filter (!isMark ·)

/-- Neither mark stands in a text. -/
def MarkFree (s : String) : Prop := ∀ c ∈ s.toList, isMark c = false

instance (s : String) : Decidable (MarkFree s) :=
  List.decidableBAll (isMark · = false) s.toList

/-- A text in which marks stand around the colour sequences, one of them between two marks, and
    nowhere else. -/
inductive Bracketed (theme : Theme) : List Char → Prop where
  | text {s : String} (h : MarkFree s) : Bracketed theme s.toList
  | color {s sequence : String} {rest : List Char} (h : MarkFree s)
      (hcolor : IsColor theme sequence) (hne : sequence ≠ "") (hsequence : MarkFree sequence)
      (hrest : Bracketed theme rest) :
      Bracketed theme (s.toList ++ startMark :: sequence.toList ++ endMark :: rest)

theorem MarkFree.append {s t : String} (hs : MarkFree s) (ht : MarkFree t) : MarkFree (s ++ t) := by
  intro c hc
  rw [String.toList_append, List.mem_append] at hc
  exact hc.elim (hs c) (ht c)

theorem MarkFree.filter_eq_nil {s : String} (h : MarkFree s) : s.toList.filter isMark = [] :=
  List.filter_eq_nil_iff.2 fun c hc => by rw [h c hc]; decide

namespace Bracketed

variable {theme : Theme} {cs : List Char}

theorem append {s : String} (hs : MarkFree s) (h : Bracketed theme cs) :
    Bracketed theme (s.toList ++ cs) := by
  cases h with
  | text ht => exact String.toList_append ▸ .text (hs.append ht)
  | color ht hcolor hne hsequence hrest =>
    simpa [String.toList_append] using Bracketed.color (hs.append ht) hcolor hne hsequence hrest

/-- **The marks alternate**: as many starts as ends, a start first and an end last. -/
theorem marks (h : Bracketed theme cs) :
    ∃ n, cs.filter isMark = (List.replicate n [startMark, endMark]).flatten := by
  induction h with
  | text h => exact ⟨0, h.filter_eq_nil⟩
  | color h hcolor hne hsequence hrest ih =>
    obtain ⟨n, hn⟩ := ih
    refine ⟨n + 1, ?_⟩
    simp [h.filter_eq_nil, hsequence.filter_eq_nil, hn, List.replicate_succ]

end Bracketed

/-- Neither mark stands in a template, in the values of the variables, in the texts of the codes,
    and in the sequences of the theme. -/
structure Expander.Clean (theme : Theme) (vars : Lookup) (template : String) (e : Expander) :
    Prop where
  template : MarkFree template
  values : ∀ name value, vars name = some value → MarkFree value
  codes : ∀ code expansion, themeCodes.lookup code = none → e.codes[code]? = some expansion →
    MarkFree (expansion.text vars)
  theme : ∀ slot, MarkFree (theme.sequence slot)

/-- What a piece is when there are no marks in what it is made of. -/
def Piece.Clean (theme : Theme) : Piece → Prop
  | text s => MarkFree s
  | color sequence => IsColor theme sequence ∧ sequence ≠ "" ∧ MarkFree sequence

theorem IsColor.markFree {theme : Theme} (htheme : ∀ slot, MarkFree (theme.sequence slot))
    {sequence : String} (h : IsColor theme sequence) : MarkFree sequence := by
  cases h with
  | slot slot => exact htheme slot
  | @indexed layer digits hlayer hne hdigits =>
    have hdecimal : MarkFree digits := fun c hc => by
      have hdigit := List.all_eq_true.1 hdigits c hc
      rw [← Bool.not_eq_true]
      intro hmark
      obtain rfl | rfl : c = startMark ∨ c = endMark := by simpa [isMark] using hmark
      all_goals exact absurd hdigit (by decide)
    have hstart : MarkFree s!"\x1b[{layer};5;" := by
      rcases hlayer with rfl | rfl <;> decide
    exact (hstart.append hdecimal).append (by decide)

theorem Piece.From.clean {theme : Theme} {vars : Lookup} {e : Expander} {template : String}
    (hclean : e.Clean theme vars template) (hs : e.Sound) {piece : Piece}
    (h : piece.From theme vars e template.toList) : piece.Clean theme := by
  cases h with
  | typed h => exact fun c hc => hclean.template c (h hc)
  | value h => exact hclean.values _ _ h
  | color h hne => exact ⟨h, hne, h.markFree hclean.theme⟩
  | @code c hcode h =>
    rw [Expander.isRegistered_eq] at h
    obtain ⟨expansion, hexpansion⟩ := Option.isSome_iff_exists.1 h
    have htext := hclean.codes c expansion hcode hexpansion
    rwa [Piece.Clean, hs.valueOf, hexpansion]

theorem bracketed_of_clean {theme : Theme} {pieces : List Piece}
    (h : ∀ piece ∈ pieces, piece.Clean theme) :
    Bracketed theme (pieces.flatMap (·.chars .editor)) := by
  induction pieces with
  | nil => exact .text (s := "") (by simp [MarkFree])
  | cons piece pieces ih =>
    obtain ⟨hpiece, hpieces⟩ := List.forall_mem_cons.1 h
    have hrest := ih hpieces
    cases piece with
    | text s => exact hrest.append hpiece
    | color sequence =>
      obtain ⟨hcolor, hne, hsequence⟩ := hpiece
      have hbracketed := Bracketed.color (s := "") (by simp [MarkFree]) hcolor hne hsequence hrest
      simpa [Piece.chars, Flavor.wrap, hne] using hbracketed

/-- A piece is the same in both flavours, up to the marks. -/
theorem Piece.filter_chars (piece : Piece) :
    (piece.chars .editor).filter (!isMark ·) = (piece.chars .plain).filter (!isMark ·) := by
  cases piece with
  | text s => rfl
  | color sequence =>
    by_cases hempty : sequence = ""
    · simp [chars, Flavor.wrap, hempty]
    · simp [chars, Flavor.wrap, hempty]

/-- **The two flavours differ only by marks.**  Whatever the template is and whatever was called, an
    expander for a line editor and one for output, with the same theme and the same texts for all
    other codes, expand a template to the same text up to the marks.  When no mark comes from
    elsewhere, the marks alternate in what the line editor gets, and between two of them stands one
    colour sequence. -/
theorem expand_flavors (theme : Theme) (host host' : Host) (calls calls' : List Call)
    (vars : Lookup) (template : String) :
    let e := (Expander.new theme host .editor).after calls
    let p := (Expander.new theme host' .plain).after calls'
    (∀ code, themeCodes.lookup code = none →
      e.codes[code]?.map (·.text vars) = p.codes[code]?.map (·.text vars)) →
    unmarked (e.expand vars template).text = unmarked (p.expand vars template).text ∧
      (e.Clean theme vars template →
        Bracketed theme (e.expand vars template).text.toList ∧
          ∃ n, (e.expand vars template).text.toList.filter isMark =
            (List.replicate n [startMark, endMark]).flatten) := by
  intro e p hsame
  have hsound : e.Sound := Expander.sound_after (Expander.sound_new ..) calls
  have hsound' : p.Sound := Expander.sound_after (Expander.sound_new ..) calls'
  have htwins : e.Twins theme vars p :=
    ⟨Expander.colored_after .., Expander.colored_after .., fun code hcode => by
      rw [hsound.valueOf, hsound'.valueOf, hsame code hcode]⟩
  obtain ⟨pieces, hfrom, heditor, hplain⟩ := htwins.expand template
  constructor
  · rw [unmarked, unmarked, heditor, hplain, List.filter_flatMap, List.filter_flatMap]
    simp only [Piece.filter_chars]
  · intro hclean
    have hbracketed := bracketed_of_clean fun piece hpiece =>
      (hfrom piece hpiece).clean hclean hsound
    rw [heditor]
    exact ⟨hbracketed, hbracketed.marks⟩

/-- A template with two colours and a broken one, and with an escape that is left open.  One
    expander remembers the text of a code that it has produced before, for the other one it is a
    literal. -/
theorem expand_flavors_dangling :
    let vars : Lookup := fun name => if name = "A" then some "alpha" else none
    let e := (Expander.new .ansi {} .editor).after
      [.register 'v' (.lazy fun _ => "1.0"), .expand vars "%v"]
    let p := (Expander.new .ansi {} .plain).after [.register 'v' (.literal "1.0")]
    let template := "%g%v%[Fx%[F12]%\x7bA\x7d%z%[B3"
    unmarked (e.expand vars template).text = unmarked (p.expand vars template).text ∧
      Bracketed .ansi (e.expand vars template).text.toList ∧
      (e.expand vars template).text =
        "\x01\x1b[32m\x021.0\x01\x1b[38;5;12m\x02alphaz%[B3" ∧
      (p.expand vars template).text = "\x1b[32m1.0\x1b[38;5;12malphaz%[B3" := by
  intro vars e p template
  have hcodes (code : Char) (hcode : themeCodes.lookup code = none) :
      e.codes[code]? =
          (if code = 'v' then some (.lazy fun _ => "1.0") else (hostCodes {}).lookup code) ∧
        p.codes[code]? =
          (if code = 'v' then some (.literal "1.0") else (hostCodes {}).lookup code) := by
    have hstart (flavor : Flavor) :
        (Expander.new .ansi {} flavor).codes[code]? = (hostCodes {}).lookup code := by
      refine (getElem?_reservedTable .ansi {} flavor code).trans ?_
      rw [hcode, Option.map_none, Option.none_or]
    have hv : (hostCodes {}).lookup 'v' = none := rfl
    rw [Expander.codes_after, Expander.codes_after, hstart, hstart]
    by_cases heq : code = 'v'
    · subst heq
      simp [Expander.meaningAfter, hv]
    · simp [Expander.meaningAfter, heq, Ne.symm heq]
  have hsame (code : Char) (hcode : themeCodes.lookup code = none) :
      e.codes[code]?.map (·.text vars) = p.codes[code]?.map (·.text vars) := by
    rw [(hcodes code hcode).1, (hcodes code hcode).2]
    split <;> rfl
  have hhost : ∀ entry ∈ hostCodes {}, MarkFree (entry.2.text vars) := by decide
  have hclean : e.Clean .ansi vars template := by
    refine ⟨by decide, fun name value hvalue => ?_, fun code expansion hcode h => ?_,
      fun slot => ?_⟩
    · obtain ⟨-, rfl⟩ : name = "A" ∧ "alpha" = value := by
        simpa [vars] using hvalue
      decide
    · rw [(hcodes code hcode).1] at h
      split at h
      · cases h
        decide
      · obtain ⟨_, _, hmem, -⟩ := List.lookup_eq_some_iff.1 h
        exact hhost (code, expansion) (by simp [hmem])
    · cases slot <;> decide
  obtain ⟨hunmarked, hbracketed⟩ := expand_flavors .ansi {} {} _ _ vars template hsame
  exact ⟨hunmarked, (hbracketed hclean).1, by decide +kernel, by decide +kernel⟩

end NestedShell.Template
