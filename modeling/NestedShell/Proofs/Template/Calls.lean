/-
  Codes and memory, over any number of calls.

  An expander is called to add a code, to remove one, or to expand a template.  Whatever was called
  before, a template means what the codes and the memory tell: the buffers for names and digits are
  emptied before they are used, and what is remembered of a code goes when the code goes.

  * a `Call` is one of these calls, `Expander.call` makes it, `Expander.after` makes several;
  * `codes_call`: what a call does to the meaning of a code, `kept_after` and `changed_after`: a
    meaning only changes by removing the code and adding it again;
  * `Expander.Sound`: a lazy text that is remembered was produced once, and no other was produced;
    `sound_after`: so it is after any calls;
  * `Expander.Agree`: two expanders with the same codes and the same memory; `Agree.expand`: they
    expand every template alike, whatever is left in their buffers;
  * `Expander.Coded` and `coded_after` put this together.
-/
import Mathlib.Data.List.Induction
import NestedShell.Proofs.Template.Memory

namespace NestedShell.Template

/-- A call of an expander. -/
inductive Call where
  | register (code : Char) (expansion : Expansion)
  | unregister (code : Char)
  | expand (vars : Lookup) (template : String)

/-! ## The codes that exist from the start -/

theorem contains_foldl_insert (entries : List (Char × Expansion)) (table : CodeTable)
    (code : Char) :
    (entries.foldl (fun t e => t.insert e.1 e.2) table).contains code =
      (table.contains code || (entries.map (·.1)).contains code) := by
  induction entries generalizing table with
  | nil => simp
  | cons entry entries ih =>
    rw [List.foldl_cons, ih, Std.TreeMap.contains_insert, List.map_cons, List.contains_cons]
    by_cases h : entry.1 = code
    · simp [h]
    · have hbefore : (compare entry.1 code == .eq) = false := by simpa using h
      have hafter : (code == entry.1) = false := by simpa using Ne.symm h
      rw [hbefore, hafter, Bool.false_or, Bool.false_or]

/-- The codes that exist from the start are the reserved ones. -/
theorem contains_reservedTable (theme : Theme) (host : Host) (flavor : Flavor) (code : Char) :
    (reservedTable theme host flavor).contains code = isReserved code := by
  rw [reservedTable, contains_foldl_insert, map_fst_reservedCodes, isReserved]
  simp

namespace Expander

/-- The expander after a call; a code that is refused changes nothing. -/
def call (e : Expander) : Call → Expander
  | .register code expansion =>
    match e.register code expansion with
    | .ok e' => e'
    | .error _ => e
  | .unregister code => (e.unregister code).2
  | .expand vars template => (e.expand vars template).expander

/-- The expander after some calls. -/
def after (e : Expander) (calls : List Call) : Expander := calls.foldl call e

/-! ## What codes mean -/

theorem isRegistered_eq (e : Expander) (code : Char) :
    e.isRegistered code = e.codes[code]?.isSome :=
  Std.TreeMap.isSome_getElem?_eq_contains.symm

/-- A code that has a meaning is refused. -/
theorem register_of_taken {e : Expander} {code : Char} (h : e.isRegistered code = true)
    (expansion : Expansion) : e.register code expansion = .error ⟨.codeTaken code, none⟩ := by
  rw [register, if_pos h]

theorem register_of_free {e : Expander} {code : Char} (h : e.codes[code]? = none)
    (expansion : Expansion) :
    e.register code expansion = .ok { e with codes := e.codes.insert code expansion } := by
  have hfree : ¬e.isRegistered code = true := by rw [isRegistered_eq, h]; decide
  rw [register, if_neg hfree]

/-- A code that is added had no meaning, and has the given one afterwards. -/
theorem codes_of_register {e e' : Expander} {code : Char} {expansion : Expansion}
    (h : e.register code expansion = .ok e') :
    e.isRegistered code = false ∧ ∀ other : Char,
      e'.codes[other]? = if code = other then some expansion else e.codes[other]? := by
  rw [register] at h
  split at h
  · cases h
  · rename_i hfree
    cases h
    refine ⟨by simpa using hfree, fun other => ?_⟩
    simp [Std.TreeMap.getElem?_insert]

/-- What a call makes of the meaning of a code. -/
def meaningAfter (code : Char) (meaning : Option Expansion) : Call → Option Expansion
  | .register other expansion =>
    if other = code then meaning.or (some expansion) else meaning
  | .unregister other =>
    if other = code ∧ isReserved code = false then none else meaning
  | .expand _ _ => meaning

/-- **What a call does to the meaning of a code.** -/
theorem codes_call (e : Expander) (c : Call) (code : Char) :
    (e.call c).codes[code]? = meaningAfter code e.codes[code]? c := by
  cases c with
  | register other expansion =>
    rw [meaningAfter]
    cases hother : e.codes[other]? with
    | some meaning =>
      have htaken : e.isRegistered other = true := by rw [isRegistered_eq, hother]; rfl
      simp only [call, register_of_taken htaken]
      by_cases heq : other = code
      · rw [if_pos heq, ← heq, hother, Option.some_or]
      · rw [if_neg heq]
    | none =>
      simp only [call, register_of_free hother, Std.TreeMap.getElem?_insert]
      by_cases heq : other = code
      · subst heq
        simp [hother]
      · simp [heq]
  | unregister other =>
    rw [call, meaningAfter, unregister]
    by_cases heq : other = code
    · subst heq
      cases isReserved other <;> simp
    · cases isReserved other <;> simp [heq, Std.TreeMap.getElem?_erase]
  | expand vars template => exact congrArg (·[code]?) (later_expand e vars template).codes

theorem after_concat (e : Expander) (calls : List Call) (c : Call) :
    e.after (calls ++ [c]) = (e.after calls).call c := by
  rw [after, List.foldl_append]
  rfl

/-- **What every call keeps**, any calls keep. -/
theorem after_keeps {P : Expander → Prop} (h : ∀ e c, P e → P (call e c)) {e : Expander} (he : P e)
    (calls : List Call) : P (e.after calls) := by
  induction calls generalizing e with
  | nil => exact he
  | cons c calls ih => exact ih (h e c he)

theorem Coherent.call {e : Expander} (h : e.Coherent) (c : Call) : (e.call c).Coherent := by
  cases c with
  | register code expansion =>
    rw [Expander.call]
    cases hregister : e.register code expansion with
    | ok e' => exact h.register hregister
    | error fault => exact h
  | unregister code => exact h.unregister code
  | expand vars template => exact (later_expand e vars template).coherent h

/-- **A code keeps its meaning** as long as it is not removed, and for ever if it is reserved. -/
theorem kept_after {e : Expander} {code : Char} {meaning : Expansion} {calls : List Call}
    (hcode : e.codes[code]? = some meaning)
    (h : isReserved code = true ∨ .unregister code ∉ calls) :
    (e.after calls).codes[code]? = some meaning := by
  induction calls generalizing e with
  | nil => exact hcode
  | cons c calls ih =>
    refine ih ?_ (h.imp id (mt (List.mem_cons_of_mem c)))
    rw [codes_call, hcode]
    cases c with
    | register other expansion => simp [meaningAfter]
    | unregister other =>
      rcases h with h | h
      · simp [meaningAfter, h]
      · have hne : other ≠ code := by rintro rfl; exact h List.mem_cons_self
        simp [meaningAfter, hne]
    | expand vars template => rfl

/-- A meaning is there from the start, or the code was added with it when it had none. -/
theorem origin_after {e : Expander} {code : Char} {meaning : Expansion} {calls : List Call}
    (h : (e.after calls).codes[code]? = some meaning) :
    e.codes[code]? = some meaning ∨ ∃ before later,
      calls = before ++ .register code meaning :: later ∧
        (e.after before).codes[code]? = none := by
  induction calls using List.reverseRecOn with
  | nil => exact .inl h
  | append_singleton calls c ih =>
    rw [after_concat, codes_call] at h
    have hstill (hbefore : (e.after calls).codes[code]? = some meaning) :
        e.codes[code]? = some meaning ∨ ∃ before later,
          calls ++ [c] = before ++ .register code meaning :: later ∧
            (e.after before).codes[code]? = none := by
      refine (ih hbefore).imp_right ?_
      rintro ⟨before, later, rfl, hnone⟩
      exact ⟨before, later ++ [c], by simp, hnone⟩
    cases c with
    | expand vars template => exact hstill h
    | unregister other =>
      rw [meaningAfter] at h
      split at h
      · cases h
      · exact hstill h
    | register other expansion =>
      rw [meaningAfter] at h
      split at h
      · rename_i heq
        subst heq
        cases hbefore : (e.after calls).codes[other]? with
        | none =>
          rw [hbefore, Option.none_or] at h
          cases h
          exact .inr ⟨calls, [], rfl, hbefore⟩
        | some first =>
          rw [hbefore, Option.some_or] at h
          exact hstill (hbefore.trans h)
      · exact hstill h

/-- **A meaning only changes** by removing the code and then adding it again. -/
theorem changed_after {e : Expander} {code : Char} {meaning other : Expansion}
    {calls : List Call} (hcode : e.codes[code]? = some meaning)
    (h : (e.after calls).codes[code]? = some other) :
    other = meaning ∨ ∃ before between later,
      calls = before ++ .unregister code :: between ++ .register code other :: later := by
  rcases origin_after h with hsame | ⟨before, later, rfl, hnone⟩
  · exact .inl (Option.some.inj (hsame.symm.trans hcode))
  · have hmem : Call.unregister code ∈ before := by
      by_contra hnot
      exact absurd (hnone.symm.trans (kept_after hcode (.inr hnot))) nofun
    obtain ⟨before, between, rfl⟩ := List.append_of_mem hmem
    exact .inr ⟨before, between, later, by simp⟩

/-! ## What is remembered -/

/-- What is remembered of a code is the first text that its lazy expansion produced, and no text is
    produced that is not remembered. -/
structure Sound (e : Expander) : Prop where
  memo : ∀ (code : Char) (text : String), e.memo[code]? = some text →
    ∃ produce, e.codes[code]? = some (.lazy produce) ∧ text = produce 0
  counted : ∀ code, e.produced.getD code 0 = e.remembered code

theorem sound_new (theme : Theme) (host : Host) (flavor : Flavor) :
    (Expander.new theme host flavor).Sound := by
  constructor
  · intro code text h
    simp [Expander.new] at h
  · intro code
    simp [Expander.new, remembered]

namespace Sound

variable {e : Expander} (h : e.Sound)
include h

/-- Nothing is remembered of a code that is not lazy. -/
theorem memo_eq_none {code : Char}
    (hcode : ∀ produce, e.codes[code]? ≠ some (.lazy produce)) : e.memo[code]? = none := by
  cases hmemo : e.memo[code]? with
  | none => rfl
  | some text =>
    obtain ⟨produce, hlazy, -⟩ := h.memo code text hmemo
    exact absurd hlazy (hcode produce)

/-- A lazy text that is not remembered was not produced. -/
theorem count_eq_zero {code : Char} (hmemo : e.memo[code]? = none) :
    e.produced.getD code 0 = 0 := by
  rw [h.counted, remembered, hmemo]
  rfl

/-- Producing a text keeps the counts. -/
theorem counted_later {e' : Expander} (hlater : e.Later e') (code : Char) :
    e'.produced.getD code 0 = e'.remembered code := by
  have hcount := h.counted code
  have honce := hlater.once code
  omega

theorem textOf (vars : Lookup) (code : Char) : (e.textOf vars code).2.Sound := by
  refine ⟨fun other text hother => ?_, h.counted_later (e.gives_textOf vars code).later⟩
  have hlater := (e.gives_textOf vars code).later
  rw [hlater.codes]
  rw [Expander.textOf] at hother
  cases hmemo : e.memo[code]? with
  | some known =>
    rw [hmemo] at hother
    exact h.memo other text hother
  | none =>
    rw [hmemo] at hother
    cases hcode : e.codes[code]? with
    | none =>
      rw [hcode] at hother
      exact h.memo other text hother
    | some expansion =>
      rw [hcode] at hother
      cases expansion with
      | literal known => exact h.memo other text hother
      | live produce => exact h.memo other text hother
      | lazy produce =>
        simp only [h.count_eq_zero hmemo, Std.TreeMap.getElem?_insert] at hother
        by_cases heq : code = other
        · subst heq
          refine ⟨produce, hcode, ?_⟩
          simpa using hother.symm
        · exact h.memo other text (by simpa [heq] using hother)

theorem expand (vars : Lookup) (template : String) : (e.expand vars template).expander.Sound := by
  rw [expander_expand]
  have hscan : (scan vars template.toList .ground e.canvas).2.expander.Sound :=
    scan_keeps (P := Sound) (fun _ c he => he.textOf vars c) h
  exact ⟨hscan.memo, hscan.counted⟩

/-- A code that is added has no text yet. -/
theorem register {code : Char} {expansion : Expansion} {e' : Expander}
    (hregister : e.register code expansion = .ok e') :
    e'.Sound ∧ e'.produced.getD code 0 = 0 := by
  cases hcode : e.codes[code]? with
  | some meaning =>
    have htaken : e.isRegistered code = true := by rw [isRegistered_eq, hcode]; rfl
    rw [register_of_taken htaken] at hregister
    cases hregister
  | none =>
    rw [register_of_free hcode] at hregister
    cases hregister
    have hnone : e.memo[code]? = none := h.memo_eq_none fun produce hlazy => by
      rw [hcode] at hlazy
      cases hlazy
    refine ⟨⟨fun other text hother => ?_, h.counted⟩, h.count_eq_zero hnone⟩
    obtain ⟨produce, hlazy, htext⟩ := h.memo other text hother
    have hne : code ≠ other := by
      rintro rfl
      rw [hcode] at hlazy
      cases hlazy
    refine ⟨produce, ?_, htext⟩
    simpa [Std.TreeMap.getElem?_insert, hne] using hlazy

theorem unregister (code : Char) : (e.unregister code).2.Sound := by
  rw [Expander.unregister]
  split
  · exact h
  · constructor
    · intro other text hother
      by_cases heq : code = other
      · simp [heq] at hother
      · simp only [Std.TreeMap.getElem?_erase] at hother ⊢
        simpa [heq] using h.memo other text (by simpa [heq] using hother)
    · intro other
      by_cases heq : code = other
      · simp [heq, remembered]
      · have hother := h.counted other
        simpa [remembered, Std.TreeMap.getElem?_erase, Std.TreeMap.getD_erase, heq] using hother

theorem call (c : Call) : (e.call c).Sound := by
  cases c with
  | register code expansion =>
    rw [Expander.call]
    cases hregister : e.register code expansion with
    | ok e' => exact (h.register hregister).1
    | error fault => exact h
  | unregister code => exact h.unregister code
  | expand vars template => exact h.expand vars template

end Sound

/-- **After any calls** what is remembered is sound. -/
theorem sound_after {e : Expander} (h : e.Sound) (calls : List Call) : (e.after calls).Sound :=
  after_keeps (fun _ c he => he.call c) h calls

/-- As long as a code is not removed, the texts that were produced of it are still counted. -/
theorem count_le_after (e : Expander) {code : Char} {calls : List Call}
    (h : isReserved code = true ∨ .unregister code ∉ calls) :
    e.produced.getD code 0 ≤ (e.after calls).produced.getD code 0 := by
  induction calls generalizing e with
  | nil => exact Nat.le_refl _
  | cons c calls ih =>
    refine Nat.le_trans ?_ (ih (e.call c) (h.imp_right (mt (List.mem_cons_of_mem c))))
    cases c with
    | register other expansion =>
      rw [call, register]
      split
      · rename_i hok
        split at hok <;> cases hok
        exact Nat.le_refl _
      · exact Nat.le_refl _
    | unregister other =>
      rw [call, unregister]
      split
      · exact Nat.le_refl _
      · rename_i hnot
        have hne : other ≠ code := by
          rintro rfl
          exact h.elim hnot fun hmem => hmem List.mem_cons_self
        simp [Std.TreeMap.getD_erase, hne]
    | expand vars template =>
      have hlater := later_expand e vars template
      have honce := hlater.once code
      have hkept : e.remembered code ≤ (e.expand vars template).expander.remembered code := by
        rw [remembered, remembered]
        cases hmemo : e.memo[code]? with
        | none => exact Nat.zero_le _
        | some text => simp only [hlater.kept code text hmemo, Nat.le_refl]
      rw [call]
      omega

/-! ## Expanders that agree -/

/-- Two expanders with the same codes and the same memory. -/
structure Agree (e e' : Expander) : Prop where
  flavor : e.flavor = e'.flavor
  codes : ∀ code : Char, e.codes[code]? = e'.codes[code]?
  memo : ∀ code : Char, e.memo[code]? = e'.memo[code]?

/-- **A code gives the same text** in expanders that agree, and they still agree. -/
theorem Agree.textOf {e e' : Expander} (h : e.Agree e') (hs : e.Sound) (hs' : e'.Sound)
    (vars : Lookup) (code : Char) :
    (e.textOf vars code).1 = (e'.textOf vars code).1 ∧
      (e.textOf vars code).2.Agree (e'.textOf vars code).2 := by
  rw [Expander.textOf, Expander.textOf, ← h.memo, ← h.codes]
  cases hmemo : e.memo[code]? with
  | some text => exact ⟨rfl, h⟩
  | none =>
    cases hcode : e.codes[code]? with
    | none => exact ⟨rfl, h⟩
    | some expansion =>
      cases expansion with
      | literal text => exact ⟨rfl, h⟩
      | live produce => exact ⟨rfl, h⟩
      | lazy produce =>
        -- neither of them has produced the text yet, so both produce the first one
        have hcount := hs.count_eq_zero hmemo
        have hcount' := hs'.count_eq_zero ((h.memo code).symm.trans hmemo)
        simp only [hcount, hcount']
        refine ⟨trivial, h.flavor, h.codes, fun other => ?_⟩
        simp only [Std.TreeMap.getElem?_insert, h.memo other]

end Expander

/-- Two canvases in a mode that lead to the same: the same was written on them, their expanders
    agree, and so do the buffers that the mode reads from. -/
structure Canvas.Agree (m : Mode) (k k' : Canvas) : Prop where
  out : k.out = k'.out
  log : k.log = k'.log
  expander : k.expander.Agree k'.expander
  sound : k.expander.Sound ∧ k'.expander.Sound
  name : m = .name → k.name = k'.name
  digits : m = .color ∨ m = .foreground ∨ m = .background → k.digits = k'.digits

namespace Canvas.Agree

/-- Outside of escapes nothing is read from the buffers. -/
theorem ground {k k' : Canvas} (out : k.out = k'.out) (log : k.log = k'.log)
    (expander : k.expander.Agree k'.expander)
    (sound : k.expander.Sound ∧ k'.expander.Sound) : k.Agree .ground k' :=
  ⟨out, log, expander, sound, by simp, by simp⟩

/-- The colour of the digits is written on canvases that agree. -/
theorem writeColor {m : Mode} {k k' : Canvas} (h : k.Agree m k') (hdigits : k.digits = k'.digits)
    (layer : Nat) : (k.writeColor layer).Agree .ground (k'.writeColor layer) := by
  obtain ⟨hout, hlog, hexpander, hsound, -, -⟩ := h
  rw [Canvas.writeColor, Canvas.writeColor, ← hdigits, ← hexpander.flavor]
  split
  · exact .ground hout hlog hexpander hsound
  · exact .ground (congrArg (· ++ _) hout) hlog hexpander hsound

/-- A character that does not fit is noted on both. -/
theorem noteMalformed {m : Mode} {k k' : Canvas} (h : k.Agree m k') (c : Char) :
    (k.noteMalformed c).Agree .ground (k'.noteMalformed c) :=
  .ground h.out (congrArg (· ++ _) h.log) h.expander h.sound

/-- A digit is added to buffers that agree. -/
theorem addDigit {m : Mode} {k k' : Canvas} (h : k.Agree m k') (hdigits : k.digits = k'.digits)
    (m' : Mode) (hm' : m' ≠ .name) (c : Char) : (k.addDigit c).Agree m' (k'.addDigit c) :=
  ⟨h.out, h.log, h.expander, h.sound, fun hname => absurd hname hm',
    fun _ => congrArg (·.push c) hdigits⟩

/-- **Reading a character** on canvases that agree. -/
theorem read {m : Mode} {k k' : Canvas} (h : k.Agree m k') (vars : Lookup) (c : Char) :
    (read vars m c k).1 = (read vars m c k').1 ∧
      (read vars m c k).2.Agree (read vars m c k).1 (read vars m c k').2 := by
  have hall := h
  obtain ⟨hout, hlog, hexpander, hsound, hname, hdigits⟩ := hall
  cases m with
  | ground =>
    simp only [Template.read]
    split_ifs
    · exact ⟨rfl, hout, hlog, hexpander, hsound, by simp, by simp⟩
    · exact ⟨rfl, .ground (congrArg (·.push c) hout) hlog hexpander hsound⟩
  | percent =>
    simp only [Template.read]
    split_ifs
    · exact ⟨rfl, .ground (congrArg (·.push c) hout) hlog hexpander hsound⟩
    -- the buffers are emptied here
    · exact ⟨rfl, hout, hlog, hexpander, hsound, fun _ => rfl, by simp⟩
    · exact ⟨rfl, hout, hlog, hexpander, hsound, by simp, fun _ => rfl⟩
    · obtain ⟨htext, hlater⟩ := hexpander.textOf hsound.1 hsound.2 vars c
      refine ⟨rfl, .ground ?_ hlog hlater ⟨hsound.1.textOf vars c, hsound.2.textOf vars c⟩⟩
      simp only [writeCode, hout, htext]
  | name =>
    simp only [Template.read]
    split_ifs
    · refine ⟨rfl, .ground ?_ hlog hexpander hsound⟩
      simp only [writeVariable, hout, hname rfl]
    · exact ⟨rfl, hout, hlog, hexpander, hsound, fun _ => congrArg (·.push c) (hname rfl), by simp⟩
  | color =>
    have hbuffer := hdigits (.inl rfl)
    simp only [Template.read]
    split_ifs
    · exact ⟨rfl, hout, hlog, hexpander, hsound, by simp, fun _ => hbuffer⟩
    · exact ⟨rfl, hout, hlog, hexpander, hsound, by simp, fun _ => hbuffer⟩
    · exact ⟨rfl, .ground hout hlog hexpander hsound⟩
    · exact ⟨rfl, h.addDigit hbuffer .foreground (by simp) c⟩
    · exact ⟨rfl, h.noteMalformed c⟩
  | foreground =>
    have hbuffer := hdigits (.inr (.inl rfl))
    simp only [Template.read]
    split_ifs
    · exact ⟨rfl, h.writeColor hbuffer 38⟩
    · exact ⟨rfl, h.addDigit hbuffer .foreground (by simp) c⟩
    · exact ⟨rfl, h.noteMalformed c⟩
  | background =>
    have hbuffer := hdigits (.inr (.inr rfl))
    simp only [Template.read]
    split_ifs
    · exact ⟨rfl, h.writeColor hbuffer 48⟩
    · exact ⟨rfl, h.addDigit hbuffer .background (by simp) c⟩
    · exact ⟨rfl, h.noteMalformed c⟩

/-- **Reading a template** on canvases that agree: the same escape is left open, if any. -/
theorem readTemplate {m : Mode} {k k' : Canvas} (h : k.Agree m k') (vars : Lookup)
    (cs escape : List Char) :
    let p := readTemplate vars cs escape ⟨m, ⟨k, []⟩⟩
    let p' := readTemplate vars cs escape ⟨m, ⟨k', []⟩⟩
    p.1 = p'.1 ∧ p.2.state = p'.2.state ∧
      p.2.bench.scratch.Agree p.2.state p'.2.bench.scratch := by
  induction cs generalizing m k k' escape with
  | nil => exact ⟨rfl, rfl, h⟩
  | cons c cs ih =>
    obtain ⟨hmode, hnext⟩ := h.read vars c
    simp only [Template.readTemplate, step_eq_read, ← hmode]
    exact ih hnext _

end Canvas.Agree

namespace Expander

/-- **Expanders that agree** expand every template alike and agree after that, whatever earlier
    templates have left in their buffers. -/
theorem Agree.expand {e e' : Expander} (h : e.Agree e') (hs : e.Sound) (hs' : e'.Sound)
    (vars : Lookup) (template : String) :
    (e.expand vars template).text = (e'.expand vars template).text ∧
      (e.expand vars template).log = (e'.expand vars template).log ∧
      (e.expand vars template).expander.Agree (e'.expand vars template).expander := by
  have hstart : e.canvas.Agree .ground e'.canvas := .ground rfl rfl h ⟨hs, hs'⟩
  have hread := hstart.readTemplate vars template.toList []
  have hinitial : machine.initial = .ground := rfl
  simp only [Expander.expand, Automaton.start, hinitial]
  generalize readTemplate vars template.toList [] ⟨.ground, ⟨e.canvas, []⟩⟩ = p at hread ⊢
  generalize readTemplate vars template.toList [] ⟨.ground, ⟨e'.canvas, []⟩⟩ = p' at hread ⊢
  obtain ⟨hescape, hmode, hend⟩ := hread
  have hidle : machine.isIdle p.2 = machine.isIdle p'.2 :=
    congrArg (fun m => decide (m = machine.initial)) hmode
  refine ⟨?_, hend.log, ⟨hend.expander.flavor, hend.expander.codes, hend.expander.memo⟩⟩
  rw [hidle, hescape, hend.out]

/-! ## Whatever was called -/

/-- An expander that has been called any number of times. -/
def Called (e : Expander) : Prop :=
  ∃ theme host flavor calls, e = (Expander.new theme host flavor).after calls

theorem Called.sound {e : Expander} (h : e.Called) : e.Sound := by
  obtain ⟨theme, host, flavor, calls, rfl⟩ := h
  exact sound_after (sound_new theme host flavor) calls

/-- What is promised of an expander whose reserved codes are those of a table. -/
structure Coded (table : CodeTable) (e : Expander) : Prop where
  /-- A reserved code has its original meaning. -/
  reserved : ∀ code, isReserved code = true →
    ∃ meaning, table[code]? = some meaning ∧ e.codes[code]? = some meaning
  /-- A code that has a meaning is refused, and then nothing changes. -/
  taken : ∀ code expansion, e.isRegistered code = true →
    e.register code expansion = .error ⟨.codeTaken code, none⟩ ∧
      e.call (.register code expansion) = e
  /-- A code keeps its meaning as long as it is not removed; a reserved one cannot be. -/
  kept : ∀ code meaning calls, e.codes[code]? = some meaning →
    isReserved code = true ∨ .unregister code ∉ calls →
    (e.after calls).codes[code]? = some meaning
  /-- A meaning changes only by removing the code and then adding it again. -/
  changed : ∀ code meaning other calls, e.codes[code]? = some meaning →
    (e.after calls).codes[code]? = some other → other = meaning ∨ ∃ before between later,
      calls = before ++ .unregister code :: between ++ .register code other :: later
  /-- What is remembered is the text that the lazy expansion of the code produced first. -/
  memo : ∀ (code : Char) (text : String), e.memo[code]? = some text →
    ∃ produce, e.codes[code]? = some (.lazy produce) ∧ text = produce 0
  /-- The count of the texts that were produced of a code starts when the code is added. -/
  uncounted : ∀ code expansion e', e.register code expansion = .ok e' →
    e'.produced.getD code 0 = 0
  /-- As long as the code is not removed the count goes up to one at most. -/
  once : ∀ code calls, isReserved code = true ∨ .unregister code ∉ calls →
    e.produced.getD code 0 ≤ (e.after calls).produced.getD code 0 ∧
      (e.after calls).produced.getD code 0 ≤ 1
  /-- What a template is expanded to is told by the codes and what is remembered. -/
  expands : ∀ other vars template, other.Called → e.Agree other →
    (e.expand vars template).text = (other.expand vars template).text ∧
      (e.expand vars template).log = (other.expand vars template).log ∧
      (e.expand vars template).expander.Agree (other.expand vars template).expander

/-- **After any calls** an expander keeps these promises. -/
theorem coded_after (theme : Theme) (host : Host) (flavor : Flavor) (calls : List Call) :
    Coded (reservedTable theme host flavor) ((Expander.new theme host flavor).after calls) := by
  have hcalled : ((Expander.new theme host flavor).after calls).Called := ⟨_, _, _, _, rfl⟩
  have hsound := hcalled.sound
  exact {
    reserved := fun code hcode => by
      have hmem : (reservedTable theme host flavor).contains code = true := by
        rw [contains_reservedTable, hcode]
      rw [← Std.TreeMap.isSome_getElem?_eq_contains] at hmem
      obtain ⟨meaning, hmeaning⟩ := Option.isSome_iff_exists.1 hmem
      exact ⟨meaning, hmeaning, kept_after hmeaning (.inl hcode)⟩
    taken := fun code expansion htaken => by
      have hrefused := register_of_taken htaken expansion
      exact ⟨hrefused, by rw [call, hrefused]⟩
    kept := fun code meaning calls => kept_after
    changed := fun code meaning other calls => changed_after
    memo := hsound.memo
    uncounted := fun code expansion e' hregister => (hsound.register hregister).2
    once := fun code calls h => by
      refine ⟨count_le_after _ h, ?_⟩
      rw [(sound_after hsound calls).counted, remembered]
      split <;> decide
    expands := fun other vars template hother hagree =>
      hagree.expand hsound hother.sound vars template }

end Expander

end NestedShell.Template
