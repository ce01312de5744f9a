/-
  Texts that come out of a template as they are.

  There are two ways to put a text into what a template is expanded to: typed with its percent signs
  doubled, or added under a code and asked for by it.  Neither is expanded again, and neither
  changes the expander.  The second way needs a code that can be asked for: `%%`, `%{` and `%[` have
  a meaning of their own, so that what is added under these characters is never found.

  * `Expander.Writes`: a template that writes a text and does nothing else; `Writes.append` puts
    such templates together, `Writes.expand` expands them;
  * `writes_escape`: a text with doubled percent signs writes the text;
  * `Expander.Prints`: a code that stands for a literal text and can be asked for; `writes_ask`:
    asking for it writes the text;
  * `Colored.prints`: so do the codes of colours, in the output;
  * `Expander.effective_after`: a literal text that was added is found until its code is removed.
-/
import NestedShell.Proofs.Template.Flavors
import NestedShell.Proofs.Template.Segments

namespace NestedShell.Template

/-! ## Templates that write a text -/

/-- A template that writes a text, wherever it stands, and leaves the expander as it is. -/
def Expander.Writes (e : Expander) (vars : Lookup) (template text : String) : Prop :=
  ∀ k : Canvas, k.expander = e → scan vars template.toList .ground k = (.ground, k.write text)

namespace Expander

variable {e : Expander} {vars : Lookup}

theorem Writes.append {first second text text' : String} (h : e.Writes vars first text)
    (h' : e.Writes vars second text') : e.Writes vars (first ++ second) (text ++ text') := by
  intro k hk
  rw [String.toList_append, scan_append, h k hk, h' (k.write text) hk]
  simp only [Canvas.write, String.append_assoc]

theorem Writes.expand {template text : String} (h : e.Writes vars template text) :
    e.expand vars template = ⟨text, e, []⟩ := by
  rw [expand_of_scan (h e.canvas rfl)]
  exact congrArg (Expanded.mk · e []) String.empty_append

theorem writes_plain {text : String} (h : '%' ∉ text.toList) : e.Writes vars text text := by
  intro k _
  rw [scan_plain vars h, String.ofList_toList]

/-- **A text with doubled percent signs** writes the text. -/
theorem writes_escape (e : Expander) (vars : Lookup) (text : String) :
    e.Writes vars (escape text) text := by
  have hscan (cs : List Char) (k : Canvas) :
      scan vars (cs.flatMap fun d => if d = '%' then "%%".toList else [d]) .ground k =
        (.ground, k.write (String.ofList cs)) := by
    induction cs generalizing k with
    | nil => simp [Canvas.write]
    | cons c cs ih =>
      have hread : scan vars (if c = '%' then "%%".toList else [c]) .ground k =
          (.ground, k.writeChar c) := by
        split
        · rename_i hc
          rw [hc]
          rfl
        · rename_i hc
          rw [scan_cons, read, if_neg hc, scan_nil]
      rw [List.flatMap_cons, scan_append, hread, ih]
      simp only [Canvas.write, Canvas.writeChar, push_append_ofList]
  intro k _
  rw [escape, Text.replaceChar, String.toList_ofList, hscan, String.ofList_toList]

end Expander

/-! ## Codes of literal texts -/

/-- The characters that have a meaning of their own after a percent sign. -/
def escapeMarks : List Char := ['%', '{', '[']

/-- The template that asks for a code. -/
def ask (code : Char) : String := String.ofList ['%', code]

/-- The codes of colours can be asked for. -/
theorem not_mem_escapeMarks_of_lookup {code : Char} {slot : Slot}
    (h : themeCodes.lookup code = some slot) : code ∉ escapeMarks := by
  intro hmark
  simp only [escapeMarks, List.mem_cons, List.not_mem_nil, or_false] at hmark
  rcases hmark with rfl | rfl | rfl <;> cases h

namespace Expander

variable {e : Expander} {code : Char} {text : String}

/-- A code that stands for a literal text, and can be asked for. -/
structure Prints (e : Expander) (code : Char) (text : String) : Prop where
  single : code ∉ escapeMarks
  literal : e.codes[code]? = some (.literal text)
  coherent : e.Coherent

/-- Nothing is remembered of a literal text. -/
theorem Prints.textOf (h : e.Prints code text) (vars : Lookup) :
    e.textOf vars code = (text, e) := by
  have hmemo : e.memo[code]? = none := by
    cases hmemo : e.memo[code]? with
    | none => rfl
    | some known =>
      obtain ⟨produce, n, hlazy, -⟩ := h.coherent code known hmemo
      rw [h.literal] at hlazy
      cases hlazy
  rw [Expander.textOf, hmemo, h.literal]

/-- **Asking for a literal text** writes it. -/
theorem writes_ask (h : e.Prints code text) (vars : Lookup) : e.Writes vars (ask code) text := by
  intro k hk
  have hsingle := h.single
  simp only [escapeMarks, List.mem_cons, List.not_mem_nil, or_false, not_or] at hsingle
  rw [ask, String.toList_ofList, scan_cons, scan_cons, scan_nil, read, if_pos rfl, read,
    if_neg hsingle.1, if_neg hsingle.2.1, if_neg hsingle.2.2, Canvas.writeCode, hk, h.textOf, ← hk]
  rfl

/-- The codes of colours stand for the sequences of the theme. -/
theorem Colored.prints {theme : Theme} {e : Expander} (h : e.Colored theme .plain)
    {code : Char} {slot : Slot} (hcode : themeCodes.lookup code = some slot) :
    e.Prints code (theme.sequence slot) where
  single := not_mem_escapeMarks_of_lookup hcode
  literal := by
    have hwrap : Flavor.plain.wrap (theme.sequence slot) = theme.sequence slot := by
      rw [Flavor.wrap]
      split
      · rename_i hempty
        exact hempty.symm
      · rfl
    rw [h.codes code slot hcode, hwrap]
  coherent := h.coherent

/-- What stands after a percent sign with a meaning of its own does not depend on the codes. -/
theorem text_expand_mark (h : code ∈ escapeMarks) (e e' : Expander) (vars : Lookup) :
    (e.expand vars (ask code)).text = (e'.expand vars (ask code)).text := by
  simp only [escapeMarks, List.mem_cons, List.not_mem_nil, or_false] at h
  rcases h with rfl | rfl | rfl <;> rfl

/-! ## Adding a literal text -/

/-- **A literal text that was added is found** by its code as long as the code is not removed,
    whatever else is added, removed or expanded.  Only the characters with a meaning of their own
    keep that meaning, although they can be added. -/
theorem effective_after {e e' : Expander} (h : e.Reached) {code : Char} {text : String}
    (hregister : e.register code (.literal text) = .ok e') {calls : List Call}
    (hkept : .unregister code ∉ calls) (vars : Lookup) :
    let later := e'.after calls
    (code ∉ escapeMarks → later.expand vars (ask code) = ⟨text, later, []⟩) ∧
      (code ∈ escapeMarks →
        (later.expand vars (ask code)).text = (e.expand vars (ask code)).text) := by
  intro later
  refine ⟨fun hsingle => ?_, fun hmark => text_expand_mark hmark later e vars⟩
  have hadded : e'.codes[code]? = some (.literal text) := by
    rw [(codes_of_register hregister).2, if_pos rfl]
  have hcoherent : later.Coherent :=
    after_keeps (fun _ c he => he.call c) (h.coherent.register hregister) calls
  have hprints : later.Prints code text := ⟨hsingle, kept_after hadded (.inr hkept), hcoherent⟩
  exact (writes_ask hprints vars).expand

/-- A text that would mean something in a template, and calls that expand it, refuse another text
    for its code, and add and remove other codes. -/
theorem effective_hostile :
    let e := Expander.new .ansi {} .editor
    let calls : List Call :=
      [.register 'j' (.lazy toString), .expand noVariables "%k%j%\x7bk",
        .register 'k' (.literal "other"), .unregister 'j', .register '{' (.literal "brace")]
    ∃ e', e.register 'k' (.literal "100%r\x7b") = .ok e' ∧ .unregister 'k' ∉ calls ∧
      ((e'.after calls).expand noVariables "%k").text = "100%r\x7b" := by
  intro e calls
  have hregister : e.register 'k' (.literal "100%r\x7b") =
      .ok { e with codes := e.codes.insert 'k' (.literal "100%r\x7b") } := rfl
  have hkept : Call.unregister 'k' ∉ calls := by simp [calls]
  refine ⟨_, hregister, hkept, ?_⟩
  have hfound := effective_after (.new .ansi {} .editor) hregister hkept noVariables
  exact congrArg Expanded.text (hfound.1 (by decide))

/-- What is added under the percent sign is not found. -/
theorem percent_ineffective :
    ¬ ∀ (e e' : Expander) (code : Char) (text : String) (calls : List Call), e.Reached →
      e.register code (.literal text) = .ok e' → .unregister code ∉ calls →
      ∀ vars, ((e'.after calls).expand vars (ask code)).text = text := by
  intro h
  have hfound := h (.new .plain {} .plain) _ '%' "P" [] (.new .plain {} .plain) rfl
    List.not_mem_nil noVariables
  have htext : ((Expander.new .plain {} .plain).expand noVariables (ask '%')).text = "%" := rfl
  rw [after, List.foldl_nil, text_expand_mark (by decide) _ (.new .plain {} .plain), htext]
    at hfound
  exact absurd hfound (by decide)

end Expander

end NestedShell.Template
