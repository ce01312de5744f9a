/-
  Tokens written on a usage line, and read back.

  * `IsWord` are the texts that stand on a usage line as one word;
  * `spelled` is a line with certain tokens, and with a gap of blanks in front of each;
  * `tokens_spelled`: the tokens of such a line are the ones that were written;
  * `plain_of_mem_tokens`: the words among the tokens of any line are words of that kind.
-/
import Mathlib.Data.List.Infix
import NestedShell.Proofs.Text.Runs
import NestedShell.Proofs.Usage.Derivation

namespace NestedShell

namespace Usage

/-! ## Words and tokens on a line -/

/-- A text that stands on a usage line as one word. -/
structure IsWord (w : String) : Prop where
  ne_empty : w ≠ ""
  notBlank : ∀ c ∈ w.toList, Text.isBlank c = false
  noMark : ∀ c ∈ w.toList, Token.ofChar? c = none
  noDots : ¬ ['.', '.', '.'] <:+: w.toList

instance : DecidablePred IsWord := fun w =>
  decidable_of_iff (w ≠ "" ∧ w.toList.all (!Text.isBlank ·) = true ∧
      w.toList.all (fun c => (Token.ofChar? c).isNone) = true ∧ ¬ ['.', '.', '.'] <:+: w.toList)
    ⟨fun ⟨hne, hblank, hmark, hdots⟩ =>
        ⟨hne, Text.notBlank_of_all hblank, by simpa using hmark, hdots⟩,
      fun ⟨hne, hblank, hmark, hdots⟩ =>
        ⟨hne, by simpa using hblank, by simpa using hmark, hdots⟩⟩

/-- The text that opens a bracket. -/
def Bracket.opener : Bracket → String
  | square => "["
  | round => "("

/-- How a token is written. -/
def Token.text : Token → String
  | opening b => b.opener
  | closing b => b.closer
  | bar => "|"
  | dots => "..."
  | word w => w

/-- A token whose text is one word, if it has a text of its own. -/
def Token.Plain : Token → Prop
  | word w => IsWord w
  | _ => True

theorem Token.Plain.text_ne_nil {t : Token} (ht : t.Plain) : t.text.toList ≠ [] := by
  cases t with
  | opening b => cases b <;> decide
  | closing b => cases b <;> decide
  | bar | dots => decide
  | word w => exact fun h => ht.ne_empty (String.toList_eq_nil_iff.1 h)

theorem Token.Plain.text_notBlank {t : Token} (ht : t.Plain) :
    ∀ c ∈ t.text.toList, Text.isBlank c = false := by
  cases t with
  | opening b => exact Text.notBlank_of_all (by cases b <;> decide)
  | closing b => exact Text.notBlank_of_all (by cases b <;> decide)
  | bar | dots => exact Text.notBlank_of_all (by decide)
  | word w => exact ht.notBlank

/-- One character is looked at where no repetition mark starts. -/
theorem tokensOfChars_cons (current : List Char) {c : Char} {cs : List Char}
    (h : ¬ ['.', '.', '.'] <+: c :: cs) :
    tokensOfChars current (c :: cs) =
      match Token.ofChar? c with
      | some t => flushWord current (t :: tokensOfChars [] cs)
      | none => tokensOfChars (c :: current) cs := by
  rw [tokensOfChars.eq_def]
  split
  · rename_i rest hcs
    exact absurd (hcs ▸ List.prefix_append ['.', '.', '.'] rest) h
  · rename_i hcs
    obtain ⟨rfl, rfl⟩ := List.cons.inj hcs
    rfl
  · rename_i hcs
    exact absurd hcs (List.cons_ne_nil _ _)

/-- Characters of a word go to the current word. -/
theorem tokensOfChars_word (current : List Char) {cs : List Char}
    (hmark : ∀ c ∈ cs, Token.ofChar? c = none) (hdots : ¬ ['.', '.', '.'] <:+: cs) :
    tokensOfChars current cs = flushWord (cs.reverse ++ current) [] := by
  induction cs generalizing current with
  | nil => rfl
  | cons c cs ih =>
    obtain ⟨hc, hmark⟩ := List.forall_mem_cons.1 hmark
    have hhead : ¬ ['.', '.', '.'] <+: c :: cs := fun h => hdots h.isInfix
    have htail : ¬ ['.', '.', '.'] <:+: cs := fun h =>
      hdots (h.trans (List.suffix_cons c cs).isInfix)
    rw [tokensOfChars_cons current hhead, hc, List.reverse_cons, List.append_assoc,
      List.singleton_append]
    exact ih (c :: current) hmark htail

/-- The text of a token is read as that token. -/
theorem tokensOfChars_text {t : Token} (ht : t.Plain) : tokensOfChars [] t.text.toList = [t] := by
  cases t with
  | opening b => cases b <;> rfl
  | closing b => cases b <;> rfl
  | bar | dots => rfl
  | word w =>
    have hne : w.toList ≠ [] := Token.Plain.text_ne_nil ht
    rw [Token.text, tokensOfChars_word [] ht.noMark ht.noDots, flushWord, List.append_nil,
      if_neg (by simpa using hne), List.reverse_reverse, String.ofList_toList]

/-- A line that starts with a word, and goes on with tokens and a gap in front of each. -/
def spelled (name : String) (rest : List (Text.Gap × Token)) : String :=
  String.ofList (name.toList ++ rest.flatMap fun g => g.1.chars ++ g.2.text.toList)

theorem runs_spelled {w : List Char} (hne : w ≠ []) (hw : ∀ c ∈ w, Text.isBlank c = false)
    (rest : List (Text.Gap × Token)) (hrest : ∀ g ∈ rest, g.2.Plain) :
    Text.runs (w ++ rest.flatMap fun g => g.1.chars ++ g.2.text.toList) =
      w :: rest.map fun g => g.2.text.toList := by
  induction rest generalizing w with
  | nil =>
    rw [List.flatMap_nil, List.append_nil]
    exact Text.runs_word hne hw
  | cons g rest ih =>
    obtain ⟨hg, hrest⟩ := List.forall_mem_cons.1 hrest
    rw [List.flatMap_cons, List.append_assoc, Text.runs_word_gap hne hw,
      ih hg.text_ne_nil hg.text_notBlank hrest, List.map_cons]

theorem tokens_ofList (cs : List Char) :
    tokens (String.ofList cs) = (Text.runs cs).flatMap (tokensOfChars []) := by
  simp only [tokens, Text.words_ofList, List.flatMap_map, String.toList_ofList]

/-- Written tokens, each a run of its own, are read as these tokens. -/
theorem flatMap_tokensOfChars {ts : List Token} (hts : ∀ t ∈ ts, t.Plain) :
    (ts.map fun t => t.text.toList).flatMap (tokensOfChars []) = ts := by
  induction ts with
  | nil => rfl
  | cons t ts ih =>
    obtain ⟨ht, hts⟩ := List.forall_mem_cons.1 hts
    rw [List.map_cons, List.flatMap_cons, tokensOfChars_text ht, ih hts, List.singleton_append]

/-- **The tokens of a written line** are the ones that were written. -/
theorem tokens_spelled {name : String} (hname : IsWord name) (rest : List (Text.Gap × Token))
    (hrest : ∀ g ∈ rest, g.2.Plain) :
    tokens (spelled name rest) = .word name :: rest.map (·.2) := by
  have hplain : Token.Plain (.word name) := hname
  have hall : ∀ t ∈ Token.word name :: rest.map (·.2), t.Plain := by
    refine List.forall_mem_cons.2 ⟨hplain, fun t ht => ?_⟩
    obtain ⟨g, hg, rfl⟩ := List.mem_map.1 ht
    exact hrest g hg
  have hruns := runs_spelled hplain.text_ne_nil hplain.text_notBlank rest hrest
  rw [← flatMap_tokensOfChars hall, spelled, tokens_ofList, List.map_cons, List.map_map]
  exact congrArg (List.flatMap (tokensOfChars [])) hruns

/-- The current word and what is left, where no repetition mark starts in the current word. -/
def NoDots (current cs : List Char) : Prop :=
  ∀ part, part ≠ [] → part <:+ current.reverse → ¬ ['.', '.', '.'] <+: part ++ cs

theorem NoDots.push {current cs : List Char} {c : Char} (h : NoDots current (c :: cs))
    (hc : ¬ ['.', '.', '.'] <+: c :: cs) : NoDots (c :: current) cs := by
  intro part hne hpart hdots
  rw [List.reverse_cons] at hpart
  rcases List.suffix_concat_iff.1 hpart with rfl | ⟨part', rfl, hpart'⟩
  · exact hne rfl
  · rw [List.append_assoc, List.singleton_append] at hdots
    by_cases hfirst : part' = []
    · subst hfirst
      exact hc hdots
    · exact h part' hfirst hpart' hdots

theorem NoDots.isWord {current cs : List Char} (h : NoDots current cs) (hne : current ≠ [])
    (hblank : ∀ c ∈ current, Text.isBlank c = false)
    (hmark : ∀ c ∈ current, Token.ofChar? c = none) :
    IsWord (String.ofList current.reverse) where
  ne_empty := by simpa [String.ofList_eq_empty_iff] using hne
  notBlank := by simpa using hblank
  noMark := by simpa using hmark
  noDots := by
    rw [String.toList_ofList]
    rintro ⟨before, after, hsplit⟩
    have hpart : ['.', '.', '.'] ++ after <:+ current.reverse := ⟨before, by simpa using hsplit⟩
    exact h _ (by simp) hpart ((List.prefix_append _ after).trans (List.prefix_append _ cs))

/-- A word that ends here is a plain token. -/
theorem NoDots.plain_of_mem_flushWord {current cs : List Char} (h : NoDots current cs)
    (hblank : ∀ c ∈ current, Text.isBlank c = false)
    (hmark : ∀ c ∈ current, Token.ofChar? c = none) {rest : List Token}
    (hrest : ∀ t ∈ rest, t.Plain) : ∀ t ∈ flushWord current rest, t.Plain := by
  rw [flushWord]
  split
  · exact hrest
  · rename_i hne
    exact List.forall_mem_cons.2 ⟨h.isWord hne hblank hmark, hrest⟩

theorem NoDots.nil (cs : List Char) : NoDots [] cs := by
  rintro part hne hpart
  exact absurd (List.suffix_nil.1 hpart) hne

theorem plain_of_ofChar? {c : Char} {t : Token} (h : Token.ofChar? c = some t) : t.Plain := by
  unfold Token.ofChar? at h
  repeat' split at h
  all_goals first | cases h; trivial | cases h

/-- The tokens of a text without blanks are plain. -/
theorem plain_of_mem_tokensOfChars {current cs : List Char}
    (hblank : ∀ c ∈ current, Text.isBlank c = false) (hcs : ∀ c ∈ cs, Text.isBlank c = false)
    (hmark : ∀ c ∈ current, Token.ofChar? c = none) (hdots : NoDots current cs) :
    ∀ t ∈ tokensOfChars current cs, t.Plain := by
  fun_induction tokensOfChars current cs with
  | case1 current rest ih =>
    have hrest : ∀ c ∈ rest, Text.isBlank c = false := fun c hc => hcs c (by simp [hc])
    have := ih (by simp) hrest (by simp) (.nil rest)
    exact hdots.plain_of_mem_flushWord hblank hmark (List.forall_mem_cons.2 ⟨trivial, this⟩)
  | case2 current c rest hprefix t ht ih =>
    have hrest : ∀ c ∈ rest, Text.isBlank c = false := fun d hd => hcs d (by simp [hd])
    have := ih (by simp) hrest (by simp) (.nil rest)
    exact hdots.plain_of_mem_flushWord hblank hmark
      (List.forall_mem_cons.2 ⟨plain_of_ofChar? ht, this⟩)
  | case3 current c rest hprefix hc ih =>
    obtain ⟨hblankc, hrest⟩ := List.forall_mem_cons.1 hcs
    refine ih (List.forall_mem_cons.2 ⟨hblankc, hblank⟩) hrest
      (List.forall_mem_cons.2 ⟨hc, hmark⟩) (hdots.push ?_)
    rintro ⟨after, hafter⟩
    obtain ⟨hfirst, hrest'⟩ := List.cons.inj hafter
    exact hprefix after hfirst.symm hrest'.symm
  | case4 current => exact hdots.plain_of_mem_flushWord hblank hmark (by simp)

/-- The tokens of a line are plain. -/
theorem plain_of_mem_tokens (line : String) : ∀ t ∈ tokens line, t.Plain := by
  intro t ht
  obtain ⟨w, hw, ht⟩ := List.mem_flatMap.1 ht
  obtain ⟨cs, hcs, rfl⟩ := List.mem_map.1 hw
  rw [String.toList_ofList] at ht
  exact plain_of_mem_tokensOfChars (by simp)
    (Text.not_sep_of_mem_pieces (List.mem_filter.1 hcs).1) (by simp) (.nil cs) t ht

end Usage
end NestedShell
