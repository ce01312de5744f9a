/-
  What an expander remembers.

  A lazy text is produced when its code is first expanded, and remembered as long as the code is
  registered.  So the text that a code stands for is told by the expander as it is found, and
  expanding templates does not change it.

  * `Expander.valueOf` is the text that a code stands for;
  * `Expander.Later`: an expander after some expansions, with the same values, and with nothing
    forgotten or produced twice; `gives_textOf`: after the text of a code was asked for, `later_scan`
    and `later_expand`: after templates;
  * `Expander.Reached`: an expander that is got by adding and removing codes and by expanding
    templates; `Reached.coherent`: it remembers lazy texts only, and only ones that were produced.
-/
import NestedShell.Proofs.Template.Reading

namespace NestedShell.Template

namespace Expander

/-- The text that a code stands for: its own, or the code itself when it has none.  A lazy text that
    is remembered is not produced again. -/
def valueOf (e : Expander) (vars : Lookup) (code : Char) : String :=
  match e.codes[code]? with
  | none => code.toString
  | some (.literal text) => text
  | some (.lazy produce) => e.memo[code]?.getD (produce (e.produced.getD code 0))
  | some (.live produce) => produce vars

/-- What is remembered of a code is a text that its lazy expansion produced. -/
def Coherent (e : Expander) : Prop :=
  ∀ (code : Char) (text : String), e.memo[code]? = some text →
    ∃ produce n, e.codes[code]? = some (.lazy produce) ∧ text = produce n

/-- How many texts of a code are remembered: one or none. -/
def remembered (e : Expander) (code : Char) : Nat := if e.memo[code]?.isSome then 1 else 0

/-! ## Later expanders -/

/-- An expander after some expansions: nothing has another value, nothing is forgotten, and of a
    code no more texts were produced than are remembered now and were not before. -/
structure Later (e e' : Expander) : Prop where
  codes : e'.codes = e.codes
  flavor : e'.flavor = e.flavor
  value : ∀ vars code, e'.valueOf vars code = e.valueOf vars code
  kept : ∀ (code : Char) (text : String), e.memo[code]? = some text → e'.memo[code]? = some text
  once : ∀ code,
    e'.produced.getD code 0 + e.remembered code = e.produced.getD code 0 + e'.remembered code
  coherent : e.Coherent → e'.Coherent

namespace Later

variable {e e' e'' : Expander}

theorem refl (e : Expander) : e.Later e :=
  ⟨rfl, rfl, fun _ _ => rfl, fun _ _ => id, fun _ => rfl, id⟩

theorem trans (h : e.Later e') (h' : e'.Later e'') : e.Later e'' where
  codes := h'.codes.trans h.codes
  flavor := h'.flavor.trans h.flavor
  value vars code := (h'.value vars code).trans (h.value vars code)
  kept code text hmemo := h'.kept code text (h.kept code text hmemo)
  once code := by
    have := h.once code
    have := h'.once code
    omega
  coherent := h'.coherent ∘ h.coherent

end Later

/-- Producing a lazy text and remembering it. -/
theorem later_produce {e : Expander} {code : Char} {produce : Nat → String}
    (hcode : e.codes[code]? = some (.lazy produce)) (hmemo : e.memo[code]? = none) :
    e.Later { e with
      memo := e.memo.insert code (produce (e.produced.getD code 0))
      produced := e.produced.insert code (e.produced.getD code 0 + 1) } where
  codes := rfl
  flavor := rfl
  value vars other := by
    by_cases hne : code = other
    · subst hne
      simp [valueOf, hcode, hmemo]
    · simp [valueOf, Std.TreeMap.getElem?_insert, Std.TreeMap.getD_insert, hne]
  kept other text hother := by
    have hne : code ≠ other := by rintro rfl; simp [hmemo] at hother
    simpa [Std.TreeMap.getElem?_insert, hne] using hother
  once other := by
    by_cases hne : code = other
    · subst hne
      simp [remembered, hmemo]
    · simp [remembered, Std.TreeMap.getElem?_insert, Std.TreeMap.getD_insert, hne]
  coherent h other text hother := by
    by_cases hne : code = other
    · subst hne
      exact ⟨produce, _, hcode, by simpa using hother.symm⟩
    · exact h other text (by simpa [Std.TreeMap.getElem?_insert, hne] using hother)

/-- What an expander gives for a code. -/
structure Gives (e : Expander) (vars : Lookup) (code : Char) (p : String × Expander) : Prop where
  text : e.Coherent → p.1 = e.valueOf vars code
  later : e.Later p.2
  /-- A lazy text is remembered. -/
  memo : ∀ produce, e.codes[code]? = some (.lazy produce) → p.2.memo[code]? = some p.1

/-- **The text of a code** is its value. -/
theorem gives_textOf (e : Expander) (vars : Lookup) (code : Char) :
    e.Gives vars code (e.textOf vars code) := by
  rw [textOf]
  cases hmemo : e.memo[code]? with
  | some text =>
    refine ⟨fun h => ?_, .refl e, fun _ _ => hmemo⟩
    obtain ⟨produce, n, hcode, -⟩ := h code text hmemo
    simp [valueOf, hcode, hmemo]
  | none =>
    cases hcode : e.codes[code]? with
    | none => exact ⟨fun _ => by rw [valueOf, hcode], .refl e, by simp [hcode]⟩
    | some expansion =>
      cases expansion with
      | literal text | live produce =>
        exact ⟨fun _ => by rw [valueOf, hcode], .refl e, by simp [hcode]⟩
      | lazy produce =>
        refine ⟨fun _ => ?_, later_produce hcode hmemo, fun _ _ => ?_⟩
        · simp [valueOf, hcode, hmemo]
        · exact Std.TreeMap.getElem?_insert_self

/-- **After a template**, finished or not, the expander is a later one. -/
theorem later_scan (vars : Lookup) (cs : List Char) (m : Mode) (k : Canvas) :
    k.expander.Later (scan vars cs m k).2.expander :=
  scan_keeps (P := k.expander.Later) (fun e c h => h.trans (e.gives_textOf vars c).later)
    (.refl k.expander)

/-- What is left in the buffers is no part of what is remembered. -/
theorem Later.left {e : Expander} {k : Canvas} (h : e.Later k.expander) : e.Later k.left :=
  ⟨h.codes, h.flavor, h.value, h.kept, h.once, h.coherent⟩

theorem later_expand (e : Expander) (vars : Lookup) (template : String) :
    e.Later (e.expand vars template).expander := by
  rw [expander_expand]
  exact (later_scan vars _ _ e.canvas).left

/-! ## Expanders that can be reached -/

/-- The expanders that can be reached.  The texts of codes may be produced elsewhere as well, which
    the next production can notice. -/
inductive Reached : Expander → Prop where
  | new (theme : Theme) (host : Host) (flavor : Flavor) : Reached (.new theme host flavor)
  | register {e e' : Expander} {code : Char} {expansion : Expansion} (h : Reached e)
      (hregister : e.register code expansion = .ok e') : Reached e'
  | unregister {e : Expander} (h : Reached e) (code : Char) : Reached (e.unregister code).2
  | expand {e : Expander} (h : Reached e) (vars : Lookup) (template : String) :
    Reached (e.expand vars template).expander
  | elsewhere {e : Expander} (h : Reached e) (produced : Std.TreeMap Char Nat) :
    Reached { e with produced }

theorem coherent_new (theme : Theme) (host : Host) (flavor : Flavor) :
    (Expander.new theme host flavor).Coherent := by
  intro code text h
  simp [Expander.new] at h

theorem Coherent.register {e e' : Expander} (h : e.Coherent) {code : Char} {expansion : Expansion}
    (hregister : e.register code expansion = .ok e') : e'.Coherent := by
  rw [Expander.register] at hregister
  split at hregister
  · cases hregister
  · rename_i hfree
    cases hregister
    intro other text hmemo
    obtain ⟨produce, n, hcode, htext⟩ := h other text hmemo
    have hne : code ≠ other := by
      rintro rfl
      simp [isRegistered, ← Std.TreeMap.isSome_getElem?_eq_contains, hcode] at hfree
    refine ⟨produce, n, ?_, htext⟩
    simpa [Std.TreeMap.getElem?_insert, hne] using hcode

theorem Coherent.unregister {e : Expander} (h : e.Coherent) (code : Char) :
    (e.unregister code).2.Coherent := by
  rw [Expander.unregister]
  split
  · exact h
  · intro other text hmemo
    by_cases hne : code = other
    · simp [hne] at hmemo
    · simp only [Std.TreeMap.getElem?_erase] at hmemo ⊢
      simpa [hne] using h other text (by simpa [hne] using hmemo)

/-- **Every expander that can be reached is coherent.** -/
theorem Reached.coherent {e : Expander} (h : e.Reached) : e.Coherent := by
  induction h with
  | new theme host flavor => exact coherent_new theme host flavor
  | register _ hregister ih => exact ih.register hregister
  | unregister _ code ih => exact ih.unregister code
  | expand _ vars template ih => exact (later_expand _ vars template).coherent ih
  | elsewhere _ _ ih => exact ih

end Expander

end NestedShell.Template
