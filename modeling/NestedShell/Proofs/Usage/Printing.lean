/-
  Printing patterns, and reading printed patterns back.

  The value of an option is not part of a pattern, so printing takes one for every option.

  * `Pattern.Shaped` is the shape of the patterns that usage lines make, with the words in them;
  * `Pattern.print` are the tokens of a pattern;
  * `shaped_of_derives`: what the grammar derives from the tokens of a line has the shape;
  * `parseLine_spec`: a line is read iff its tokens are derived from the grammar, any other is a
    grammar fault; what is read has the shape; and what is printed is read back.
-/
import NestedShell.Proofs.Text.Cut
import NestedShell.Proofs.Usage.Spelling

namespace NestedShell.Usage

/-! ## Elements -/

/-- The word of an option with a value. -/
def assigned (key value : String) : String := key ++ String.singleton '=' ++ value

/-- An option with a value, whatever the value is. -/
theorem elementOfWord_assigned {key : String} (hdashes : Text.startsWith "--" key = true)
    (heq : '=' ∉ key.toList) (value : String) :
    elementOfWord (assigned key value) = .valued key := by
  obtain ⟨name, rfl⟩ := Text.startsWith_iff.1 hdashes
  have hstart : Text.startsWith "--" (assigned ("--" ++ name) value) = true :=
    Text.startsWith_iff.2 ⟨name ++ String.singleton '=' ++ value, by
      simp only [assigned, String.append_assoc]⟩
  have hangle : Text.startsWith "<" (assigned ("--" ++ name) value) = false := by
    simp [Text.startsWith, assigned, List.isPrefixOf]
  have hsize : 2 < (assigned ("--" ++ name) value).utf8ByteSize := by
    have hdashes : "--".utf8ByteSize = 2 := by decide
    have hsign : (String.singleton '=').utf8ByteSize = 1 := by decide
    simp only [assigned, String.utf8ByteSize_append]
    omega
  rw [elementOfWord, if_neg (by simp [hangle]), if_pos ⟨hstart, hsize⟩, assigned,
    Text.cutAt_append heq]

/-- The dashes in front of an assignment belong to the option. -/
theorem startsWith_of_assigned {key value : String}
    (h : Text.startsWith "--" (assigned key value) = true) :
    Text.startsWith "--" key = true := by
  have htext : (assigned key value).toList = key.toList ++ '=' :: value.toList := by
    simp [assigned]
  have hdashes : "--".toList = ['-', '-'] := rfl
  rw [Text.startsWith, List.isPrefixOf_iff_prefix, hdashes] at h ⊢
  rw [htext] at h
  generalize key.toList = cs at h ⊢
  rcases cs with _ | ⟨c, _ | ⟨d, cs⟩⟩
  · simp at h
  · simp at h
  · simpa using h

/-- What a word stands for: itself, in one of three classes, or an option with a value. -/
theorem elementOfWord_cases (w : String) :
    elementOfWord w = .argument w ∨ elementOfWord w = .flag w ∨ elementOfWord w = .literal w ∨
      ∃ key value, elementOfWord w = .valued key ∧ w = assigned key value ∧
        Text.startsWith "--" key = true ∧ '=' ∉ key.toList := by
  unfold elementOfWord
  split
  · exact .inl rfl
  split
  · rename_i hdashes
    split
    · rename_i key value hcut
      obtain ⟨rfl, heq⟩ := Text.eq_of_cutAt hcut
      exact .inr (.inr (.inr ⟨key, value, rfl, rfl, startsWith_of_assigned hdashes.1, heq⟩))
    · exact .inr (.inl rfl)
  split
  · exact .inr (.inl rfl)
  · exact .inr (.inr (.inl rfl))

/-! ## The shape of patterns -/

namespace Pattern
variable (value : String → String)

/-- The patterns that usage lines make.  Their words are written as one word of a line, and stand
    for the element that they are in; an option is written with the value that `value` gives. -/
inductive Shaped : Category → Pattern → Prop
  | literal {w : String} (hw : IsWord w) (h : elementOfWord w = .literal w) :
      Shaped .atom (.literal w)
  | argument {w : String} (hw : IsWord w) (h : elementOfWord w = .argument w) :
      Shaped .atom (.argument w)
  | flag {w : String} (hw : IsWord w) (h : elementOfWord w = .flag w) : Shaped .atom (.flag w)
  | valued {key : String} (hw : IsWord (assigned key (value key)))
      (h : elementOfWord (assigned key (value key)) = .valued key) : Shaped .atom (.valued key)
  | optional {p : Pattern} (inner : Shaped .alternatives p) : Shaped .atom (.optional p)
  | group {p : Pattern} (inner : Shaped .alternatives p) : Shaped .atom (.group p)
  | once {p : Pattern} (h : Shaped .atom p) : Shaped .item p
  | oneOrMore {p : Pattern} (h : Shaped .atom p) : Shaped .item (.oneOrMore p)
  | empty : Shaped .sequence .empty
  | seq {p q : Pattern} (first : Shaped .item p) (rest : Shaped .sequence q) :
      Shaped .sequence (.seq p q)
  | branch {p : Pattern} (h : Shaped .sequence p) : Shaped .alternatives p
  | alt {p q : Pattern} (first : Shaped .sequence p) (rest : Shaped .alternatives q) :
      Shaped .alternatives (.alt p q)

/-- The tokens of a pattern. -/
def print : Pattern → List Token
  | .literal w | .argument w | .flag w => [.word w]
  | .valued key => [.word (assigned key (value key))]
  | .empty => []
  | .seq p q => p.print ++ q.print
  | .alt p q => p.print ++ .bar :: q.print
  | .optional p => .opening .square :: (p.print ++ [.closing .square])
  | .group p => .opening .round :: (p.print ++ [.closing .round])
  | .oneOrMore p => p.print ++ [.dots]

variable {value}

theorem derives_of_elementOfWord {w : String} {p : Pattern} (h : elementOfWord w = p) :
    Derives .atom [.word w] p := by
  subst h
  exact .word w

/-- The tokens of a pattern derive it. -/
theorem Shaped.derives {c : Category} {p : Pattern} (h : Shaped value c p) :
    Derives c (p.print value) p := by
  induction h with
  | literal _ h | argument _ h | flag _ h | valued _ h => exact derives_of_elementOfWord h
  | optional _ ih => exact .bracket .square ih
  | group _ ih => exact .bracket .round ih
  | once _ ih => exact .once ih
  | oneOrMore _ ih => exact .repeated ih
  | empty => exact .empty
  | seq _ _ ihfirst ihrest => exact .cons ihfirst ihrest
  | branch _ ih => exact .branch ih
  | alt _ _ ihfirst ihrest => exact .bar ihfirst ihrest

/-- The tokens of a pattern can be written on a line. -/
theorem Shaped.plain {c : Category} {p : Pattern} (h : Shaped value c p) :
    ∀ t ∈ p.print value, t.Plain := by
  induction h with
  | literal hw | argument hw | flag hw | valued hw => simpa [print, Token.Plain] using hw
  | optional _ ih | group _ ih =>
    refine List.forall_mem_cons.2 ⟨trivial, List.forall_mem_append.2 ⟨ih, ?_⟩⟩
    exact List.forall_mem_singleton.2 trivial
  | oneOrMore _ ih => exact List.forall_mem_append.2 ⟨ih, List.forall_mem_singleton.2 trivial⟩
  | once _ ih | branch _ ih => exact ih
  | empty => simp [print]
  | seq _ _ ihfirst ihrest => exact List.forall_mem_append.2 ⟨ihfirst, ihrest⟩
  | alt _ _ ihfirst ihrest =>
    exact List.forall_mem_append.2 ⟨ihfirst, List.forall_mem_cons.2 ⟨trivial, ihrest⟩⟩

end Pattern

@[simp] theorem toList_assigned (key value : String) :
    (assigned key value).toList = key.toList ++ '=' :: value.toList := by
  simp [assigned]

/-- No repetition mark reaches over an equals sign. -/
theorem noDots_assigned {key value : List Char} (hkey : ¬ ['.', '.', '.'] <:+: key)
    (hvalue : ¬ ['.', '.', '.'] <:+: value) : ¬ ['.', '.', '.'] <:+: key ++ '=' :: value := by
  rw [List.infix_append_iff, List.infix_cons_iff]
  rintro (h | (h | h) | ⟨left, right, hdots, hleft, hright⟩)
  · exact hkey h
  · simp at h
  · exact hvalue h
  · cases right with
    | nil => exact hkey (by simpa [hdots] using hleft.isInfix)
    | cons d right =>
      obtain ⟨rfl, -⟩ := List.cons_prefix_cons.1 hright
      have : '=' ∈ ['.', '.', '.'] := by simp [hdots]
      simp at this

/-- An option can be written with another value. -/
theorem IsWord.assigned {key v v' : String} (h : IsWord (assigned key v)) (hv' : IsWord v') :
    IsWord (assigned key v') := by
  have hkey : ∀ c ∈ key.toList, c ∈ (Usage.assigned key v).toList := fun c hc => by simp [hc]
  have hdots : ¬ ['.', '.', '.'] <:+: key.toList := by
    intro hinfix
    apply h.noDots
    rw [toList_assigned]
    exact hinfix.trans (List.prefix_append _ _).isInfix
  refine ⟨fun hempty => ?_, ?_, ?_, ?_⟩
  · simpa using congrArg String.toList hempty
  · rw [toList_assigned]
    refine List.forall_mem_append.2 ⟨fun c hc => h.notBlank c (hkey c hc), ?_⟩
    exact List.forall_mem_cons.2 ⟨by decide, hv'.notBlank⟩
  · rw [toList_assigned]
    refine List.forall_mem_append.2 ⟨fun c hc => h.noMark c (hkey c hc), ?_⟩
    exact List.forall_mem_cons.2 ⟨by decide, hv'.noMark⟩
  · rw [toList_assigned]
    exact noDots_assigned hdots hv'.noDots

/-- The element that a word stands for has the shape. -/
theorem shaped_elementOfWord {value : String → String} (hvalue : ∀ key, IsWord (value key))
    {w : String} (hw : IsWord w) : (elementOfWord w).Shaped value .atom := by
  rcases elementOfWord_cases w with h | h | h | ⟨key, v, h, rfl, hdashes, heq⟩
  · rw [h]
    exact .argument hw h
  · rw [h]
    exact .flag hw h
  · rw [h]
    exact .literal hw h
  · rw [h]
    exact .valued (hw.assigned (hvalue key)) (elementOfWord_assigned hdashes heq (value key))

/-- **The shape of what is derived** from tokens that can be written on a line. -/
theorem shaped_of_derives {value : String → String} (hvalue : ∀ key, IsWord (value key))
    {c : Category} {ts : List Token} {p : Pattern} (h : Derives c ts p) (hts : ∀ t ∈ ts, t.Plain) :
    p.Shaped value c := by
  induction h with
  | word w => exact shaped_elementOfWord hvalue (hts _ (List.mem_singleton_self _))
  | @bracket b ts p _ ih =>
    have hinner := ih fun t ht => hts t (by simp [ht])
    cases b with
    | square => exact .optional hinner
    | round => exact .group hinner
  | once _ ih => exact .once (ih hts)
  | repeated _ ih => exact .oneOrMore (ih fun t ht => hts t (by simp [ht]))
  | empty => exact .empty
  | cons _ _ ihfirst ihrest =>
    obtain ⟨hfirst, hrest⟩ := List.forall_mem_append.1 hts
    exact .seq (ihfirst hfirst) (ihrest hrest)
  | branch _ ih => exact .branch (ih hts)
  | bar _ _ ihfirst ihrest =>
    obtain ⟨hfirst, hrest⟩ := List.forall_mem_append.1 hts
    exact .alt (ihfirst hfirst) (ihrest (List.forall_mem_cons.1 hrest).2)

/-! ## Lines -/

/-- Every reason why tokens are no usage line makes a grammar fault. -/
theorem LineFault.kind_cause (line : String) (fault : LineFault) :
    (fault.cause line).kind = .grammar := by
  cases fault <;> rfl

theorem parseLine_eq_ok_iff (line : String) (p : Pattern) :
    parseLine line = .ok p ↔
      ∃ name ts, tokens line = name :: ts ∧ Derives .alternatives ts p := by
  rw [parseLine]
  cases tokens line with
  | nil => simp
  | cons name ts =>
    have hread : (parseTokens {} [] ts).mapError
        (fun fault => (⟨fault.cause line, none⟩ : Fault)) = .ok p ↔ Derives .alternatives ts p := by
      rw [← parseTokens_eq_ok_iff]
      cases parseTokens {} [] ts <;> simp [Except.mapError]
    simp [hread]

theorem kind_of_parseLine_eq_error {line : String} {fault : Fault}
    (h : parseLine line = .error fault) : fault.kind = .grammar := by
  rw [parseLine] at h
  split at h
  · cases h
    rfl
  · rename_i ts _
    cases hread : parseTokens {} [] ts with
    | ok p => simp [hread, Except.mapError] at h
    | error lineFault =>
      obtain rfl : (⟨lineFault.cause line, none⟩ : Fault) = fault := by
        simpa [hread, Except.mapError] using h
      exact lineFault.kind_cause line

/-- **Usage lines.**  A line is read iff its tokens, after the first one, are derived from the
    grammar, with that pattern; any other line is a grammar fault.  What is read has the shape of
    patterns, and every pattern of that shape is read back when it is printed after the name of a
    command, with any blanks between the tokens. -/
theorem parseLine_spec :
    (∀ line p, parseLine line = .ok p ↔
      ∃ name ts, tokens line = name :: ts ∧ Derives .alternatives ts p) ∧
    (∀ line, (∃ fault, parseLine line = .error fault ∧ fault.kind = .grammar) ↔
      ¬ ∃ p name ts, tokens line = name :: ts ∧ Derives .alternatives ts p) ∧
    (∀ value : String → String, (∀ key, IsWord (value key)) →
      ∀ line p, parseLine line = .ok p → p.Shaped value .alternatives) ∧
    (∀ (value : String → String) (p : Pattern), p.Shaped value .alternatives →
      ∀ name, IsWord name → ∀ rest : List (Text.Gap × Token), rest.map (·.2) = p.print value →
        parseLine (spelled name rest) = .ok p) := by
  refine ⟨parseLine_eq_ok_iff, fun line => ?_, ?_, ?_⟩
  · simp only [← parseLine_eq_ok_iff]
    cases hline : parseLine line with
    | ok p => simp
    | error fault => simpa using kind_of_parseLine_eq_error hline
  · intro value hvalue line p h
    obtain ⟨name, ts, htokens, hderived⟩ := (parseLine_eq_ok_iff line p).1 h
    refine shaped_of_derives hvalue hderived fun t ht => plain_of_mem_tokens line t ?_
    rw [htokens]
    exact List.mem_cons_of_mem _ ht
  · intro value p hp name hname rest hrest
    have hplain : ∀ g ∈ rest, g.2.Plain := fun g hg =>
      hp.plain g.2 (hrest ▸ List.mem_map.2 ⟨g, hg, rfl⟩)
    refine (parseLine_eq_ok_iff _ p).2 ⟨.word name, p.print value, ?_, hp.derives⟩
    rw [tokens_spelled hname rest hplain, hrest]

/-- The line `copy [ --into=x | -f ] <from> ...`. -/
theorem parseLine_copy :
    let p : Pattern := .seq (.optional (.alt (.seq (.valued "--into") .empty)
      (.seq (.flag "-f") .empty))) (.seq (.oneOrMore (.argument "<from>")) .empty)
    p.Shaped (fun _ => "x") .alternatives ∧ IsWord "copy" ∧
      parseLine (spelled "copy" ((p.print fun _ => "x").map fun t => (Text.Gap.space, t))) =
        .ok p ∧
      spelled "copy" ((p.print fun _ => "x").map fun t => (Text.Gap.space, t)) =
        "copy [ --into=x | -f ] <from> ..." := by
  have hshaped : Pattern.Shaped (fun _ => "x") .alternatives (.seq (.optional (.alt
      (.seq (.valued "--into") .empty) (.seq (.flag "-f") .empty)))
      (.seq (.oneOrMore (.argument "<from>")) .empty)) := by
    refine .branch (.seq (.once (.optional (.alt (.seq (.once ?_) .empty)
      (.branch (.seq (.once ?_) .empty))))) (.seq (.oneOrMore ?_) .empty))
    · exact .valued (by decide +kernel) (by decide +kernel)
    · exact .flag (by decide +kernel) (by decide +kernel)
    · exact .argument (by decide +kernel) (by decide +kernel)
  have hname : IsWord "copy" := by decide +kernel
  exact ⟨hshaped, hname, parseLine_spec.2.2.2 _ _ hshaped _ hname _ rfl, by decide +kernel⟩

end NestedShell.Usage
