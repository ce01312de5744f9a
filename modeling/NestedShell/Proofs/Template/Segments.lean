/-
  Templates as lists of segments, and what they mean.

  A segment is a piece of plain text or a complete escape.  The names, the digits and the lazy texts
  of one segment do not show in the next ones, and no meaning is expanded again: what a segment
  means is told by the expander as it is found.

  * a `Segment` is one of them, `Segment.written` is its text, `Segment.meaning` what it means;
    `Segment.meaning_color`: a colour is wrapped as the flavour of the expander says;
  * `scan_plain`, `scan_name`, `scan_digits`, `scan_color`: runs of characters in one mode;
  * `Canvas.Wrote`: a text was written on a canvas, and the expander is a later one;
  * `scan_segment`: reading a segment writes its meaning; `expand_segments`: a template of segments
    means what its segments mean.
-/
import NestedShell.Proofs.Template.Memory

namespace NestedShell.Template

/-! ## Segments -/

/-- How an indexed colour is written. -/
inductive Tint where
  /-- `%[F12]` -/
  | foreground
  /-- `%[12]` -/
  | short
  /-- `%[B12]` -/
  | background
deriving DecidableEq, Repr

/-- The letter in front of the digits, if there is one. -/
def Tint.letter : Tint → List Char
  | foreground => ['F']
  | short => []
  | background => ['B']

/-- The layer that is coloured: the text or the background. -/
def Tint.layer : Tint → Nat
  | foreground | short => 38
  | background => 48

/-- A piece of plain text, or a complete escape. -/
inductive Segment where
  /-- text without a percent sign -/
  | text (s : String) (plain : '%' ∉ s.toList)
  /-- `%%` -/
  | percent
  /-- `%{NAME}` -/
  | value (name : String) (plain : '}' ∉ name.toList)
  /-- `%[F12]`, `%[12]` or `%[B12]`, possibly without digits -/
  | color (tint : Tint) (digits : String) (decimal : digits.toList.all Char.isDigit)
  /-- `%c` -/
  | code (c : Char) (single : c ∉ ['%', '{', '['])

/-- How a segment is written. -/
def Segment.written : Segment → List Char
  | text s _ => s.toList
  | percent => ['%', '%']
  | value name _ => '%' :: '{' :: name.toList ++ ['}']
  | color tint digits _ => '%' :: '[' :: tint.letter ++ digits.toList ++ [']']
  | code c _ => ['%', c]

/-- What a segment means to an expander.  For a line editor an indexed colour stands between
    markers, one character in front of it and one behind. -/
def Segment.meaning (e : Expander) (vars : Lookup) : Segment → String
  | text s _ => s
  | percent => "%"
  | value name _ => (vars name).getD name
  | color tint digits _ =>
    if digits = "" then ""
    else match e.flavor with
      | .editor => s!"\x01\x1b[{tint.layer};5;{digits}m\x02"
      | .plain => s!"\x1b[{tint.layer};5;{digits}m"
  | code c _ => e.valueOf vars c

/-- An indexed colour is wrapped as the flavour says. -/
theorem Segment.meaning_color (e : Expander) (vars : Lookup) (tint : Tint) (digits : String)
    (decimal : digits.toList.all Char.isDigit) :
    Segment.meaning e vars (.color tint digits decimal) =
      if digits = "" then "" else e.flavor.wrap s!"\x1b[{tint.layer};5;{digits}m" := by
  have hne : s!"\x1b[{tint.layer};5;{digits}m" ≠ "" := fun h => by
    simpa [String.length_append] using congrArg String.length h
  rw [meaning, Flavor.wrap_of_ne hne]
  cases e.flavor with
  | plain => rfl
  | editor =>
    have hstart : "\x01\x1b[" = "\x01" ++ "\x1b[" := by decide
    have hend : "m\x02" = "m" ++ "\x02" := by decide
    refine congrArg (ite (digits = "") "") ?_
    calc s!"\x01\x1b[{tint.layer};5;{digits}m\x02"
        = ("\x01" ++ "\x1b[") ++ toString tint.layer ++ ";5;" ++ digits ++ ("m" ++ "\x02") := by
          rw [← hstart, ← hend]
          rfl
      _ = "\x01" ++ s!"\x1b[{tint.layer};5;{digits}m" ++ "\x02" := by
          simp only [String.append_assoc]
          rfl

/-- A later expander gives a segment the same meaning. -/
theorem Segment.meaning_later {e e' : Expander} (h : e.Later e') (vars : Lookup)
    (segment : Segment) : segment.meaning e' vars = segment.meaning e vars := by
  cases segment with
  | text | percent | value => rfl
  | color => simp only [meaning, h.flavor]
  | code c => exact h.value vars c

/-- The codes that a segment expands. -/
def Segment.used : Segment → List Char
  | code c _ => [c]
  | _ => []

/-- The template that segments make. -/
def template (segments : List Segment) : String :=
  String.ofList (segments.flatMap Segment.written)

/-! ## Runs of characters -/

/-- A character that was pushed can as well be read with what follows. -/
theorem push_append_ofList (s : String) (c : Char) (cs : List Char) :
    s.push c ++ String.ofList cs = s ++ String.ofList (c :: cs) := by
  simp [← String.toList_inj]

section
variable (vars : Lookup) {cs : List Char}

theorem scan_plain (h : '%' ∉ cs) (k : Canvas) :
    scan vars cs .ground k = (.ground, k.write (String.ofList cs)) := by
  induction cs generalizing k with
  | nil => simp [Canvas.write]
  | cons c cs ih =>
    obtain ⟨hc, hcs⟩ := not_or.1 (mt List.mem_cons.2 h)
    rw [scan_cons, read, if_neg (Ne.symm hc), ih hcs]
    simp only [Canvas.write, Canvas.writeChar, push_append_ofList]

theorem scan_name (h : '}' ∉ cs) (k : Canvas) :
    scan vars cs .name k = (.name, { k with name := k.name ++ String.ofList cs }) := by
  induction cs generalizing k with
  | nil => simp
  | cons c cs ih =>
    obtain ⟨hc, hcs⟩ := not_or.1 (mt List.mem_cons.2 h)
    rw [scan_cons, read, if_neg (Ne.symm hc), ih hcs]
    simp only [Canvas.addNameChar, push_append_ofList]

theorem scan_digits (h : ∀ c ∈ cs, c.isDigit = true) {m : Mode}
    (hm : m = .foreground ∨ m = .background) (k : Canvas) :
    scan vars cs m k = (m, { k with digits := k.digits ++ String.ofList cs }) := by
  induction cs generalizing k with
  | nil => simp
  | cons c cs ih =>
    obtain ⟨hc, hcs⟩ := List.forall_mem_cons.1 h
    have hread : read vars m c k = (m, k.addDigit c) := by
      have hclose : c ≠ ']' := by rintro rfl; cases hc
      rcases hm with rfl | rfl <;> simp [read, hclose, hc]
    rw [scan_cons, hread, ih hcs]
    simp only [Canvas.addDigit, push_append_ofList]

/-- A colour is read, after its bracket was opened. -/
theorem scan_color (tint : Tint) (h : ∀ c ∈ cs, c.isDigit = true) {k : Canvas}
    (hk : k.digits = "") :
    scan vars (tint.letter ++ cs ++ [']']) .color k =
      (.ground, { k with digits := String.ofList cs }.writeColor tint.layer) := by
  cases tint with
  | foreground =>
    have hread : read vars .color 'F' k = (.foreground, k) := rfl
    rw [Tint.letter, List.singleton_append, List.cons_append, scan_cons, hread, scan_append,
      scan_digits vars h (.inl rfl), hk, String.empty_append]
    rfl
  | background =>
    have hread : read vars .color 'B' k = (.background, k) := rfl
    rw [Tint.letter, List.singleton_append, List.cons_append, scan_cons, hread, scan_append,
      scan_digits vars h (.inr rfl), hk, String.empty_append]
    rfl
  | short =>
    cases cs with
    | nil =>
      rw [String.ofList_nil, ← hk]
      exact (congrArg (Prod.mk _) (if_pos hk)).symm
    | cons c cs =>
      obtain ⟨hc, hcs⟩ := List.forall_mem_cons.1 h
      have hread : read vars .color c k = (.foreground, k.addDigit c) := by
        have hF : c ≠ 'F' := by rintro rfl; cases hc
        have hB : c ≠ 'B' := by rintro rfl; cases hc
        have hclose : c ≠ ']' := by rintro rfl; cases hc
        simp [read, hF, hB, hclose, hc]
      rw [Tint.letter, List.nil_append, List.cons_append, scan_cons, hread, scan_append,
        scan_digits vars hcs (.inl rfl), Canvas.addDigit, push_append_ofList, hk,
        String.empty_append]
      rfl

end

/-! ## Writing -/

/-- A text was written on a canvas, and these codes were expanded for it.  Nothing was noted, and
    the lazy texts of the codes are remembered. -/
structure Canvas.Wrote (k : Canvas) (text : String) (used : List Char) (k' : Canvas) : Prop where
  out : k'.out = k.out ++ text
  log : k'.log = k.log
  later : k.expander.Later k'.expander
  memo : ∀ code ∈ used, ∀ produce, k.expander.codes[code]? = some (.lazy produce) →
    ∀ vars, k'.expander.memo[code]? = some (k.expander.valueOf vars code)

theorem Canvas.Wrote.trans {k k' k'' : Canvas} {s t : String} {used used' : List Char}
    (h : k.Wrote s used k') (h' : k'.Wrote t used' k'') :
    k.Wrote (s ++ t) (used ++ used') k'' where
  out := by rw [h'.out, h.out, String.append_assoc]
  log := h'.log.trans h.log
  later := h.later.trans h'.later
  memo code hcode produce hlazy vars := by
    rcases List.mem_append.1 hcode with hcode | hcode
    · exact h'.later.kept code _ (h.memo code hcode produce hlazy vars)
    · rw [h'.memo code hcode produce (by rwa [h.later.codes]) vars, h.later.value]

/-- What leaves the expander alone expands no code. -/
theorem Canvas.Wrote.of_expander {k k' : Canvas} {s : String} (hout : k'.out = k.out ++ s)
    (hlog : k'.log = k.log) (hexpander : k'.expander = k.expander) : k.Wrote s [] k' :=
  ⟨hout, hlog, hexpander ▸ .refl _, by simp⟩

/-- The colour is written, if it has digits. -/
theorem wrote_writeColor (k : Canvas) (layer : Nat) (digits : String) :
    k.Wrote
      (if digits = "" then "" else k.expander.flavor.wrap s!"\x1b[{layer};5;{digits}m") []
      ({ k with digits := digits }.writeColor layer) := by
  rw [Canvas.writeColor]
  split
  · exact .of_expander String.append_empty.symm rfl rfl
  · exact .of_expander rfl rfl rfl

section
variable {k : Canvas} (hk : k.expander.Coherent)
include hk

/-- The value of a code is written. -/
theorem wrote_writeCode (vars : Lookup) (code : Char) :
    k.Wrote (k.expander.valueOf vars code) [code] (k.writeCode vars code) := by
  have h := k.expander.gives_textOf vars code
  refine ⟨congrArg (k.out ++ ·) (h.text hk), rfl, h.later, fun c hc produce hlazy vars' => ?_⟩
  obtain rfl := List.mem_singleton.1 hc
  refine (h.memo produce hlazy).trans (congrArg some ((h.text hk).trans ?_))
  simp only [Expander.valueOf, hlazy]

/-! ## Segments are read one by one -/

/-- **Reading a segment** writes its meaning, whatever was read before. -/
theorem scan_segment (vars : Lookup) (segment : Segment) :
    ∃ k', scan vars segment.written .ground k = (.ground, k') ∧
      k.Wrote (segment.meaning k.expander vars) segment.used k' := by
  cases segment with
  | text s plain =>
    refine ⟨_, scan_plain vars plain k, .of_expander ?_ rfl rfl⟩
    rw [Canvas.write, String.ofList_toList]
    rfl
  | percent => exact ⟨_, rfl, .of_expander String.append_singleton.symm rfl rfl⟩
  | value name plain =>
    refine ⟨{ k with name := name }.writeVariable vars, ?_, .of_expander rfl rfl rfl⟩
    have hread : scan vars ['%', '{'] .ground k = (.name, k.openName) := rfl
    rw [show Segment.written (.value name plain) = ['%', '{'] ++ (name.toList ++ ['}']) from rfl,
      scan_append, hread, scan_append, scan_name vars plain, Canvas.openName, String.empty_append,
      String.ofList_toList]
    rfl
  | color tint digits decimal =>
    rw [Segment.meaning_color]
    refine ⟨_, ?_, wrote_writeColor k tint.layer digits⟩
    have hread : scan vars ['%', '['] .ground k = (.color, k.openColor) := rfl
    rw [show Segment.written (.color tint digits decimal) =
        ['%', '['] ++ (tint.letter ++ digits.toList ++ [']']) from rfl,
      scan_append, hread, scan_color vars tint (List.all_eq_true.1 decimal) rfl, String.ofList_toList]
    rfl
  | code c single =>
    refine ⟨_, ?_, wrote_writeCode hk vars c⟩
    simp only [List.mem_cons, List.not_mem_nil, or_false, not_or] at single
    rw [Segment.written, scan_cons, scan_cons, read, if_pos rfl, read, if_neg single.1,
      if_neg single.2.1, if_neg single.2.2]
    rfl

/-- **Reading segments** writes their meanings in order. -/
theorem scan_segments (vars : Lookup) (segments : List Segment) :
    ∃ k', scan vars (segments.flatMap Segment.written) .ground k = (.ground, k') ∧
      k.Wrote (String.join (segments.map (·.meaning k.expander vars)))
        (segments.flatMap Segment.used) k' := by
  induction segments generalizing k with
  | nil => exact ⟨k, rfl, .of_expander String.append_empty.symm rfl rfl⟩
  | cons segment segments ih =>
    obtain ⟨k₁, hscan, hwrote⟩ := scan_segment hk vars segment
    obtain ⟨k₂, hscans, hwrotes⟩ := ih (hwrote.later.coherent hk)
    simp only [Segment.meaning_later hwrote.later] at hwrotes
    refine ⟨k₂, ?_, ?_⟩
    · rw [List.flatMap_cons, scan_append, hscan]
      exact hscans
    · rw [List.map_cons, String.join_cons, List.flatMap_cons]
      exact hwrote.trans hwrotes

end

/-! ## Expanding them -/

/-- What the expansion of segments is: their meanings in order, and nothing to note.  The expander
    is a later one, which remembers the lazy texts of the codes that were expanded. -/
structure Expands (e : Expander) (vars : Lookup) (segments : List Segment) (x : Expanded) :
    Prop where
  text : x.text = String.join (segments.map (·.meaning e vars))
  log : x.log = []
  later : e.Later x.expander
  memo : ∀ code ∈ segments.flatMap Segment.used, ∀ produce,
    e.codes[code]? = some (.lazy produce) →
    x.expander.memo[code]? = some (e.valueOf vars code)
  coherent : x.expander.Coherent

/-- **A template of segments means what its segments mean**, one after the other, in every expander
    that can be reached. -/
theorem expand_segments {e : Expander} (h : e.Reached) (vars : Lookup) (segments : List Segment) :
    Expands e vars segments (e.expand vars (template segments)) := by
  obtain ⟨k, hscan, hwrote⟩ := scan_segments (k := e.canvas) h.coherent vars segments
  rw [expand_of_scan (by rw [template, String.toList_ofList]; exact hscan)]
  refine ⟨?_, hwrote.log, hwrote.later.left, fun code hcode produce hlazy => ?_,
    hwrote.later.left.coherent h.coherent⟩
  · exact hwrote.out.trans String.empty_append
  · exact hwrote.memo code hcode produce hlazy vars

/-- The expander that numbers the texts of a code as they are produced: all of them are the first.
    For a line editor each colour stands between its markers. -/
theorem expand_numbered :
    let fresh (flavor : Flavor) := Expander.new .plain {} flavor
    let e (flavor : Flavor) : Expander :=
      { fresh flavor with codes := (fresh flavor).codes.insert 'k' (.lazy toString) }
    let segments : List Segment :=
      [.code 'k' (by decide), .percent, .code 'k' (by decide), .color .short "7" rfl,
        .value "k" (by decide), .color .background "" rfl, .color .background "12" rfl,
        .code 'z' (by decide)]
    (∀ flavor, (e flavor).Reached) ∧ template segments = "%k%%%k%[7]%\x7bk\x7d%[B]%[B12]%z" ∧
      ((e .plain).expand (fun _ => none) (template segments)).text =
        "0%0\x1b[38;5;7mk\x1b[48;5;12mz" ∧
      ((e .editor).expand (fun _ => none) (template segments)).text =
        "0%0\x01\x1b[38;5;7m\x02k\x01\x1b[48;5;12m\x02z" := by
  intro fresh e segments
  have hreached (flavor : Flavor) : (e flavor).Reached := by
    have hregister : (fresh flavor).register 'k' (.lazy toString) = .ok (e flavor) := by
      cases flavor <;> rfl
    exact .register (.new .plain {} flavor) hregister
  refine ⟨hreached, by rfl, ?_, ?_⟩
  · exact (expand_segments (hreached .plain) (fun _ => none) segments).text.trans
      (by decide +kernel)
  · exact (expand_segments (hreached .editor) (fun _ => none) segments).text.trans
      (by decide +kernel)

end NestedShell.Template
