/-
  Where and how options are written.

  Options may stand anywhere in front of `--`, in several forms.  What a command line is bound to
  depends on the options for each name and on the order of the other words, not on how the two are
  mixed.

  * `Usage.Settled`: words that are read completely, and do not end the options;
  * `Alike`: captures that bind every name to the same; captures for different names may be swapped;
  * `Usage.Takes.sameOutcome_move`: options may be moved past words that come to alike captures;
  * `Usage.Rearranged`: command lines that differ in the place or the form of one option;
  * `rearranged_sameOutcome`: such command lines are bound to the same, or are both refused; and
    everything behind `--` is left as it is.
-/
import Mathlib.Logic.Relation
import NestedShell.Proofs.Usage.Split

namespace NestedShell.Usage

/-! ## Captures that bind the same -/

/-- Captures that bind every name to the same, whatever it was bound to. -/
def Alike (captures captures' : List Capture) : Prop :=
  ∀ (key : String) (binding : Option Binding),
    (captures.filter (·.name = key)).foldl (fun binding c => c.update binding) binding =
      (captures'.filter (·.name = key)).foldl (fun binding c => c.update binding) binding

namespace Alike
variable {cs cs' cs'' ds ds' : List Capture}

theorem refl (cs : List Capture) : Alike cs cs := fun _ _ => rfl

theorem trans (h : Alike cs cs') (h' : Alike cs' cs'') : Alike cs cs'' :=
  fun key binding => (h key binding).trans (h' key binding)

theorem append (h : Alike cs cs') (h' : Alike ds ds') : Alike (cs ++ ds) (cs' ++ ds') := by
  intro key binding
  rw [List.filter_append, List.filter_append, List.foldl_append, List.foldl_append, h, h']

/-- Captures for different names may be swapped. -/
theorem swap {c d : Capture} (h : c = d ∨ c.name ≠ d.name) : Alike [c, d] [d, c] := by
  rcases h with rfl | hne
  · exact refl _
  · intro key binding
    by_cases hc : c.name = key
    · have hd : d.name ≠ key := hc ▸ hne.symm
      simp [hc, hd]
    · by_cases hd : d.name = key <;> simp [hc, hd]

/-- A capture may be moved past others. -/
theorem singleton_comm {c : Capture} (h : ∀ d ∈ ds, c = d ∨ c.name ≠ d.name) :
    Alike ([c] ++ ds) (ds ++ [c]) := by
  induction ds with
  | nil => exact refl _
  | cons d ds ih =>
    obtain ⟨hd, hds⟩ := List.forall_mem_cons.1 h
    exact ((swap hd).append (refl ds)).trans ((refl [d]).append (ih hds))

/-- Captures may be moved past others. -/
theorem comm (h : ∀ c ∈ cs, ∀ d ∈ ds, c = d ∨ c.name ≠ d.name) :
    Alike (cs ++ ds) (ds ++ cs) := by
  induction cs with
  | nil =>
    rw [List.nil_append, List.append_nil]
    exact refl ds
  | cons c cs ih =>
    obtain ⟨hc, hcs⟩ := List.forall_mem_cons.1 h
    have hfirst := (refl [c]).append (ih hcs)
    have hsecond := (singleton_comm hc).append (refl cs)
    rw [List.append_assoc, List.append_assoc] at hsecond
    exact hfirst.trans hsecond

end Alike

/-- Alike captures leave every name with the same binding. -/
theorem Alike.getElem?_bindCaptures_eq {cs cs' : List Capture} (h : Alike cs cs') (b : Bindings)
    (key : String) : (bindCaptures b cs)[key]? = (bindCaptures b cs')[key]? := by
  rw [getElem?_bindCaptures, getElem?_bindCaptures, h]

/-! ## Outcomes -/

/-- Two command lines are bound to the same, or get the same fault. -/
inductive SameOutcome : Except Fault Arguments → Except Fault Arguments → Prop
  | bound {args args' : Arguments} (h : ∀ key, args.value? key = args'.value? key) :
      SameOutcome (.ok args) (.ok args')
  | refused (fault : Fault) : SameOutcome (.error fault) (.error fault)

namespace SameOutcome
variable {r r' r'' : Except Fault Arguments}

theorem refl (r : Except Fault Arguments) : SameOutcome r r := by
  cases r with
  | ok args => exact .bound fun _ => rfl
  | error fault => exact .refused fault

theorem symm (h : SameOutcome r r') : SameOutcome r' r := by
  cases h with
  | bound h => exact .bound fun key => (h key).symm
  | refused fault => exact .refused fault

theorem trans (h : SameOutcome r r') (h' : SameOutcome r' r'') : SameOutcome r r'' := by
  cases h with
  | bound h =>
    cases h' with
    | bound h' => exact .bound fun key => (h key).trans (h' key)
  | refused => exact h'

end SameOutcome

variable {u : Usage}

/-- Words in front that come to the same words and to alike options make no difference. -/
theorem Takes.sameOutcome {words words' positional : List String} {cs cs' : List Capture}
    (h : u.Takes words positional cs) (h' : u.Takes words' positional cs') (halike : Alike cs cs')
    (command : String) (rest : List String) :
    SameOutcome (u.apply (command :: (words ++ rest))) (u.apply (command :: (words' ++ rest))) := by
  rw [apply_eq_bindSplit, apply_eq_bindSplit, List.tail_cons, List.tail_cons, h rest, h' rest]
  cases u.split? rest with
  | none => exact .refl _
  | some s =>
    simp only [Option.map_some, Split.after]
    cases u.pattern.match? (positional ++ s.1) with
    | none => exact .refl _
    | some captures =>
      have hall := (halike.append (.refl s.2)).append (.refl captures)
      exact .bound (hall.getElem?_bindCaptures_eq _)

/-- **Options may be moved** past words whose options are for other names, or the same. -/
theorem Takes.sameOutcome_move {front options words positional positional' : List String}
    {cs ds es : List Capture} (hfront : u.Takes front positional cs)
    (hoptions : u.Takes options [] ds) (hwords : u.Takes words positional' es)
    (hother : ∀ d ∈ ds, ∀ e ∈ es, d = e ∨ d.name ≠ e.name) (command : String)
    (rest : List String) :
    SameOutcome (u.apply (command :: (front ++ (options ++ words) ++ rest)))
      (u.apply (command :: (front ++ (words ++ options) ++ rest))) := by
  have hbefore := hfront.append (hoptions.append hwords)
  have hafter := hfront.append (hwords.append hoptions)
  rw [List.append_nil] at hafter
  exact hbefore.sameOutcome hafter ((Alike.refl cs).append (.comm hother)) command rest

/-! ## The forms of options -/

/-- The options of a usage can be told apart: none of them is the mark that ends the options, and
    none is declared both with and without a value. -/
structure Unambiguous (u : Usage) : Prop where
  end_flag : "--" ∉ u.pattern.flags
  end_valued : "--" ∉ u.pattern.valuedOptions
  distinct : ∀ name ∈ u.pattern.flags, name ∉ u.pattern.valuedOptions

/-- A word that is no option, nor the first word of one. -/
structure IsPositional (u : Usage) (word : String) : Prop where
  ends_no_options : word ≠ "--"
  flag : word ∉ u.pattern.flags
  assignment : u.assignment? word = none
  valued : word ∉ u.pattern.valuedOptions
  cluster : u.isCluster word = false

/-- Positional words are left. -/
theorem takes_of_forall_isPositional {words : List String}
    (h : ∀ word ∈ words, u.IsPositional word) : u.Takes words words [] := by
  induction words with
  | nil => exact .nil
  | cons word words ih =>
    obtain ⟨hword, hwords⟩ := List.forall_mem_cons.1 h
    have hfirst := takes_positional hword.ends_no_options hword.flag hword.assignment
      hword.valued hword.cluster
    exact hfirst.append (ih hwords)

/-! ### Words with one dash -/

section
variable {word : String} (h : Text.startsWith "--" word = false)
include h

theorem ne_end : word ≠ "--" := by
  rintro rfl
  cases h

theorem elementOfWord_ne_flag (hsize : word.utf8ByteSize ≠ 2) :
    elementOfWord word ≠ .flag word := by
  rw [elementOfWord]
  split
  · simp
  · simp [h, hsize]

variable (hp : u.pattern.Classified)
include hp

theorem not_mem_valuedOptions : word ∉ u.pattern.valuedOptions := by
  intro hmem
  rw [(hp.valued word hmem).1] at h
  cases h

theorem assignment_of_not_startsWith : u.assignment? word = none := by
  rw [Option.eq_none_iff_forall_ne_some]
  rintro ⟨key, value⟩ hassignment
  obtain ⟨rfl, hkey⟩ := assigned_of_assignment hassignment
  have hdashes := (hp.valued key hkey).1
  rw [assigned, Text.startsWith_append (Text.startsWith_append hdashes _)] at h
  cases h

end

/-- Letters behind one dash. -/
def joined (letters : List Char) : String := String.ofList ('-' :: letters)

@[simp] theorem toList_joined (letters : List Char) : (joined letters).toList = '-' :: letters :=
  String.toList_ofList

theorem startsWith_joined {c : Char} (hc : c ≠ '-') (letters : List Char) :
    Text.startsWith "-" (joined (c :: letters)) = true ∧
      Text.startsWith "--" (joined (c :: letters)) = false := by
  simp [Text.startsWith, List.isPrefixOf, hc.symm]

theorem size_joined (c d : Char) (letters : List Char) :
    2 < (joined (c :: d :: letters)).utf8ByteSize := by
  have htext : joined (c :: d :: letters) =
      "-" ++ String.singleton c ++ String.singleton d ++ String.ofList letters :=
    String.toList_injective (by simp)
  have hdash : "-".utf8ByteSize = 1 := by decide
  have hc := c.utf8Size_pos
  have hd := d.utf8Size_pos
  rw [htext]
  simp only [String.utf8ByteSize_append, String.utf8ByteSize_singleton]
  omega

/-! ### Forms -/

/-- An option and its value as one word. -/
theorem takes_assigned (hp : u.pattern.Classified) {key : String}
    (hkey : key ∈ u.pattern.valuedOptions) (value : String) :
    u.Takes [assigned key value] [] [.value key value] := by
  obtain ⟨hdashes, heq⟩ := hp.valued key hkey
  have hend : assigned key value ≠ "--" := by
    intro h
    have hmem : '=' ∈ (assigned key value).toList := by simp
    rw [h] at hmem
    exact absurd hmem (by decide)
  have hflag : assigned key value ∉ u.pattern.flags := by
    intro h
    have hclass := hp.flag _ h
    rw [elementOfWord_assigned hdashes heq] at hclass
    cases hclass
  refine takes_assignment hend hflag ?_
  rw [assignment?, assigned, Text.cutAt_append heq]
  simpa using hkey

section
variable (hp : u.pattern.Classified) (hu : u.Unambiguous)
include hu

theorem takes_declared {flag : String} (hflag : flag ∈ u.pattern.flags) :
    u.Takes [flag] [] [.word flag] :=
  takes_flag (fun h => hu.end_flag (h ▸ hflag)) hflag

/-- Several flags of one letter, each as one word. -/
theorem takes_letters {letters : List Char} (h : ∀ c ∈ letters, dashed c ∈ u.pattern.flags) :
    u.Takes (letters.map dashed) [] (letters.map fun c => .word (dashed c)) := by
  induction letters with
  | nil => exact .nil
  | cons c letters ih =>
    obtain ⟨hc, hletters⟩ := List.forall_mem_cons.1 h
    exact (takes_declared hu hc).append (ih hletters)

include hp

/-- An option and its value as two words. -/
theorem takes_separate {key : String} (hkey : key ∈ u.pattern.valuedOptions) (value : String) :
    u.Takes [key, value] [] [.value key value] := by
  obtain ⟨-, hsign⟩ := hp.valued key hkey
  have hend : key ≠ "--" := fun h => hu.end_valued (h ▸ hkey)
  have hflag : key ∉ u.pattern.flags := fun h => hu.distinct key h hkey
  have hassignment : u.assignment? key = none := by
    rw [Option.eq_none_iff_forall_ne_some]
    rintro ⟨key', value'⟩ hassignment
    obtain ⟨rfl, -⟩ := assigned_of_assignment hassignment
    simp at hsign
  exact takes_key hend hflag hassignment hkey value

/-- Several flags of one letter in one word. -/
theorem takes_joined {letters : List Char} (hlength : 2 ≤ letters.length)
    (h : ∀ c ∈ letters, dashed c ∈ u.pattern.flags) :
    u.Takes [joined letters] [] (letters.map fun c => .word (dashed c)) := by
  obtain ⟨c, d, letters, rfl⟩ : ∃ c d rest, letters = c :: d :: rest := by
    match letters, hlength with
    | c :: d :: rest, _ => exact ⟨c, d, rest, rfl⟩
  have hc : c ≠ '-' := by
    rintro rfl
    exact hu.end_flag (h _ List.mem_cons_self)
  obtain ⟨hdash, hdashes⟩ := startsWith_joined hc (d :: letters)
  have hsize := size_joined c d letters
  have hflag : joined (c :: d :: letters) ∉ u.pattern.flags := fun hmem =>
    elementOfWord_ne_flag hdashes (by omega) (hp.flag _ hmem)
  have hcluster : u.isCluster (joined (c :: d :: letters)) = true := by
    simpa [isCluster, hsize, hdash, hdashes, dashed] using h
  have htakes := takes_cluster (ne_end hdashes) hflag (assignment_of_not_startsWith hdashes hp)
    (not_mem_valuedOptions hdashes hp) hcluster
  rwa [toList_joined, List.tail_cons] at htakes

end

/-! ## Places on a command line -/

theorem isOption_of_takes {words positional : List String} {cs : List Capture}
    (h : u.Takes words positional cs) : ∀ c ∈ cs, u.IsOption c := by
  have hsplit : u.split? (words ++ []) = some (positional, cs) := by
    rw [h, split?, Option.map_some, Split.after, List.append_nil, List.append_nil]
  exact isOption_of_split? hsplit

/-- Words in front of a place between the options: they are read completely, so that no key waits
    for its value, and none of them ends the options. -/
inductive Settled (u : Usage) : List String → Prop
  | nil : Settled u []
  | word {word : String} {words : List String} (hend : word ≠ "--")
      (hkey : word ∉ u.pattern.valuedOptions) (h : Settled u words) : Settled u (word :: words)
  | option {key value : String} {words : List String} (hkey : key ∈ u.pattern.valuedOptions)
      (h : Settled u words) : Settled u (key :: value :: words)

/-- Settled words are taken as they are, whatever follows. -/
theorem Settled.exists_takes (hp : u.pattern.Classified) (hu : u.Unambiguous)
    {words : List String} (h : u.Settled words) :
    ∃ positional options, u.Takes words positional options := by
  induction h with
  | nil => exact ⟨_, _, .nil⟩
  | @word word words hend hkey _ ih =>
    obtain ⟨positional, options, hwords⟩ := ih
    suffices hword : ∃ ps cs, u.Takes [word] ps cs by
      obtain ⟨ps, cs, hword⟩ := hword
      exact ⟨_, _, hword.append hwords⟩
    by_cases hflag : word ∈ u.pattern.flags
    · exact ⟨_, _, takes_declared hu hflag⟩
    cases hassignment : u.assignment? word with
    | some kv => exact ⟨_, _, takes_assignment hend hflag hassignment⟩
    | none =>
      cases hcluster : u.isCluster word with
      | true => exact ⟨_, _, takes_cluster hend hflag hassignment hkey hcluster⟩
      | false => exact ⟨_, _, takes_positional hend hflag hassignment hkey hcluster⟩
  | option hkey _ ih =>
    obtain ⟨positional, options, hwords⟩ := ih
    exact ⟨_, _, (takes_separate hp hu hkey _).append hwords⟩

theorem Settled.of_word {word : String} {words : List String} (h : u.Settled (word :: words))
    (hkey : word ∉ u.pattern.valuedOptions) : u.Settled words := by
  cases h with
  | word _ _ h => exact h
  | option hkey' _ => exact absurd hkey' hkey

theorem Settled.of_option {key value : String} {words : List String}
    (h : u.Settled (key :: value :: words)) (hkey : key ∈ u.pattern.valuedOptions) :
    u.Settled words := by
  cases h with
  | word _ hkey' _ => exact absurd hkey hkey'
  | option _ h => exact h

/-- What follows settled words is settled if it is so together with them. -/
theorem Settled.of_append {words more : List String} (h : u.Settled words)
    (hmore : u.Settled (words ++ more)) : u.Settled more := by
  induction h with
  | nil => exact hmore
  | word hend hkey _ ih => exact ih (hmore.of_word hkey)
  | option hkey _ ih => exact ih (hmore.of_option hkey)

/-! ## Rearranged command lines -/

/-- Command lines, after the name of the command, that differ in the place or in the form of one
    option.  All of it happens between the options, in front of a mark that ends them. -/
inductive Rearranged (u : Usage) : List String → List String → Prop
  /-- a flag stands in another place that settled words are in front of -/
  | flag {flag : String} {front rest front' rest' : List String}
      (hflag : flag ∈ u.pattern.flags) (hfront : u.Settled front) (hfront' : u.Settled front')
      (h : front ++ rest = front' ++ rest') :
      Rearranged u (front ++ flag :: rest) (front' ++ flag :: rest')
  /-- flags of one letter are joined to one word -/
  | joined {letters : List Char} {front rest : List String} (hfront : u.Settled front)
      (hlength : 2 ≤ letters.length) (hletters : ∀ c ∈ letters, dashed c ∈ u.pattern.flags) :
      Rearranged u (front ++ joined letters :: rest) (front ++ letters.map dashed ++ rest)
  /-- the value of an option is in the word of its key -/
  | assigned {key value : String} {front rest : List String} (hfront : u.Settled front)
      (hkey : key ∈ u.pattern.valuedOptions) :
      Rearranged u (front ++ assigned key value :: rest) (front ++ key :: value :: rest)
  /-- an option with its value is moved past words that belong to no option -/
  | valued {key value : String} {option front words rest : List String}
      (hfront : u.Settled front) (hkey : key ∈ u.pattern.valuedOptions)
      (hoption : option = [assigned key value] ∨ option = [key, value])
      (hwords : ∀ word ∈ words, u.IsPositional word) :
      Rearranged u (front ++ option ++ words ++ rest) (front ++ words ++ option ++ rest)

section
variable (hp : u.pattern.Classified) (hu : u.Unambiguous)
include hp hu

/-- A flag that is moved to the right. -/
theorem sameOutcome_flag {flag : String} (hflag : flag ∈ u.pattern.flags)
    {front words : List String} (hfront : u.Settled front) (hwords : u.Settled (front ++ words))
    (command : String) (rest : List String) :
    SameOutcome (u.apply (command :: (front ++ flag :: (words ++ rest))))
      (u.apply (command :: (front ++ words ++ flag :: rest))) := by
  obtain ⟨positional, cs, htakes⟩ := hfront.exists_takes hp hu
  obtain ⟨positional', ds, htakes'⟩ := (hfront.of_append hwords).exists_takes hp hu
  have hdifferent : ∀ d ∈ ds, Capture.word flag = d ∨ flag ≠ d.name := by
    intro d hd
    have hoption := isOption_of_takes htakes' d hd
    cases d with
    | word name =>
      rcases eq_or_ne flag name with rfl | hne
      · exact .inl rfl
      · exact .inr hne
    | value key text =>
      refine .inr fun heq => hu.distinct flag hflag ?_
      rw [heq]
      exact hoption
  have hmove := htakes.sameOutcome_move (takes_declared hu hflag) htakes'
    (List.forall_mem_singleton.2 hdifferent) command rest
  simpa using hmove

/-- Every single difference leaves the outcome. -/
theorem Rearranged.sameOutcome {words words' : List String} (h : u.Rearranged words words')
    (command : String) :
    SameOutcome (u.apply (command :: words)) (u.apply (command :: words')) := by
  cases h with
  | @flag flag front rest front' rest' hflag hfront hfront' h =>
    -- one of the two places is behind the other one
    rcases List.append_eq_append_iff.1 h with ⟨words, rfl, rfl⟩ | ⟨words, rfl, rfl⟩
    · exact sameOutcome_flag hp hu hflag hfront hfront' command rest'
    · exact (sameOutcome_flag hp hu hflag hfront' hfront command rest).symm
  | @joined letters front rest hfront hlength hletters =>
    obtain ⟨positional, cs, htakes⟩ := hfront.exists_takes hp hu
    have hjoined := htakes.append (takes_joined hp hu hlength hletters)
    have hapart := htakes.append (takes_letters hu hletters)
    simpa using hjoined.sameOutcome hapart (.refl _) command rest
  | @assigned key value front rest hfront hkey =>
    obtain ⟨positional, cs, htakes⟩ := hfront.exists_takes hp hu
    have hassigned := htakes.append (takes_assigned hp hkey value)
    have hseparate := htakes.append (takes_separate hp hu hkey value)
    simpa using hassigned.sameOutcome hseparate (.refl _) command rest
  | @valued key value option front words rest hfront hkey hoption hwords =>
    obtain ⟨positional, cs, htakes⟩ := hfront.exists_takes hp hu
    have hvalue : u.Takes option [] [.value key value] := by
      rcases hoption with rfl | rfl
      exacts [takes_assigned hp hkey value, takes_separate hp hu hkey value]
    have hmove := htakes.sameOutcome_move hvalue (takes_of_forall_isPositional hwords)
      (by simp) command rest
    simpa using hmove

/-- **Behind the mark that ends the options** every word is left as it is. -/
theorem Settled.splitOptions_end {front : List String} (h : u.Settled front)
    (rest : List String) (b : Bindings) :
    ∃ positional b', u.splitOptions front b = .ok (positional, b') ∧
      u.splitOptions (front ++ "--" :: rest) b = .ok (positional ++ rest, b') := by
  obtain ⟨positional, options, htakes⟩ := h.exists_takes hp hu
  have hfront : u.split? front = some (positional, options) := by
    simpa [split?, Split.after] using htakes []
  have hend : u.split? (front ++ "--" :: rest) = some (positional ++ rest, options) := by
    rw [htakes, split?_end, Option.map_some, Split.after, List.append_nil]
  refine ⟨positional, bindCaptures b options, ?_, ?_⟩
  · rw [splitOptions_eq_bindSplit, hfront, bindSplit]
  · rw [splitOptions_eq_bindSplit, hend, bindSplit]

end

/-- **Where and how options are written does not matter**, in front of a mark that ends them.
    Command lines that differ in the places and forms of options only are bound to the same, or get
    the same fault, and all words behind the mark are left, in order.

    The place of a flag must not be behind a key that waits for its value, even if no word follows:
    the flag would become the value. -/
theorem rearranged_sameOutcome {help : String} {u : Usage}
    (hhelp : ofHelp? help = .ok (some u)) (hu : u.Unambiguous) :
    (∀ words words' : List String, Relation.EqvGen u.Rearranged words words' →
      ∀ command, SameOutcome (u.apply (command :: words)) (u.apply (command :: words'))) ∧
    ∀ (front rest : List String) (b : Bindings), u.Settled front →
      ∃ positional b', u.splitOptions front b = .ok (positional, b') ∧
        u.splitOptions (front ++ "--" :: rest) b = .ok (positional ++ rest, b') := by
  have hp := classified hhelp
  refine ⟨fun words words' h command => ?_, fun _ rest b h => h.splitOptions_end hp hu rest b⟩
  induction h with
  | rel _ _ h => exact h.sameOutcome hp hu command
  | refl _ => exact .refl _
  | symm _ _ _ ih => exact ih.symm
  | trans _ _ _ _ _ ih ih' => exact ih.trans ih'

/-- The usage of a command with flags and an option that takes a value. -/
def waitUsage : Usage where
  forms := ["wait [-f] [-g] [--timeout=<secs>] [<job>]"]
  pattern := .seq (.optional (.seq (.flag "-f") .empty))
    (.seq (.optional (.seq (.flag "-g") .empty))
      (.seq (.optional (.seq (.valued "--timeout") .empty))
        (.seq (.optional (.seq (.argument "<job>") .empty)) .empty)))

theorem ofHelp_wait :
    ofHelp? "Usage: wait [-f] [-g] [--timeout=<secs>] [<job>]" = .ok (some waitUsage) := (rfl)

theorem unambiguous_wait : waitUsage.Unambiguous := ⟨by decide, by decide, by decide⟩

/-- Both flags and the option are moved and written in their other form. -/
theorem rearranged_wait :
    Relation.EqvGen waitUsage.Rearranged ["-fg", "--timeout=5", "j1"]
      ["-g", "j1", "--timeout", "5", "-f"] ∧
    SameOutcome (waitUsage.apply ["wait", "-fg", "--timeout=5", "j1"])
      (waitUsage.apply ["wait", "-g", "j1", "--timeout", "5", "-f"]) ∧
    ∃ positional b', waitUsage.splitOptions ["-fg", "j1"] ∅ = .ok (positional, b') ∧
      waitUsage.splitOptions ["-fg", "j1", "--", "-f"] ∅ = .ok (positional ++ ["-f"], b') := by
  have hjob : ∀ word ∈ ["j1"], waitUsage.IsPositional word :=
    List.forall_mem_singleton.2 ⟨by decide, by decide, by decide, by decide, by decide +kernel⟩
  have hflags : waitUsage.Settled ["-f", "-g"] := .word (by decide) (by decide)
    (.word (by decide) (by decide) .nil)
  have hothers : waitUsage.Settled ["-g", "j1", "--timeout", "5"] := .word (by decide) (by decide)
    (.word (by decide) (by decide) (.option (by decide) .nil))
  have hjoined : waitUsage.Rearranged ["-fg", "--timeout=5", "j1"]
      ["-f", "-g", "--timeout=5", "j1"] := by
    have hletters : ∀ c ∈ ['f', 'g'], dashed c ∈ waitUsage.pattern.flags :=
      List.forall_mem_cons.2 ⟨by decide, List.forall_mem_singleton.2 (by decide)⟩
    exact .joined .nil (by decide) hletters
  have hassigned : waitUsage.Rearranged ["-f", "-g", "--timeout=5", "j1"]
      ["-f", "-g", "--timeout", "5", "j1"] := by
    have hword : "--timeout=5" = assigned "--timeout" "5" := by decide +kernel
    rw [hword]
    exact .assigned hflags (by decide)
  have hvalued : waitUsage.Rearranged ["-f", "-g", "--timeout", "5", "j1"]
      ["-f", "-g", "j1", "--timeout", "5"] := by
    have h : waitUsage.Rearranged (["-f", "-g"] ++ ["--timeout", "5"] ++ ["j1"] ++ [])
        (["-f", "-g"] ++ ["j1"] ++ ["--timeout", "5"] ++ []) :=
      .valued hflags (by decide) (.inr rfl) hjob
    exact h
  have hflag : waitUsage.Rearranged ["-f", "-g", "j1", "--timeout", "5"]
      ["-g", "j1", "--timeout", "5", "-f"] := .flag (by decide) .nil hothers rfl
  have hmoved : Relation.EqvGen waitUsage.Rearranged ["-fg", "--timeout=5", "j1"]
      ["-g", "j1", "--timeout", "5", "-f"] :=
    .trans _ _ _ (.rel _ _ hjoined) (.trans _ _ _ (.rel _ _ hassigned)
      (.trans _ _ _ (.rel _ _ hvalued) (.rel _ _ hflag)))
  have hsettled : waitUsage.Settled ["-fg", "j1"] := .word (by decide) (by decide)
    (.word (by decide) (by decide) .nil)
  obtain ⟨hsame, hend⟩ := rearranged_sameOutcome ofHelp_wait unambiguous_wait
  exact ⟨hmoved, hsame _ _ hmoved "wait", hend _ ["-f"] ∅ hsettled⟩

/-- A place, given by the words on both sides of it, between a key and its value. -/
def BetweenKeyAndValue (u : Usage) (front rest : List String) : Prop :=
  ∃ before key value behind, u.Settled before ∧ key ∈ u.pattern.valuedOptions ∧
    front = before ++ [key] ∧ rest = value :: behind

/-- It does not do to keep flags out of the places between a key and its value: behind a key at
    the end of the line, a flag becomes the value that was missing. -/
theorem flag_becomes_value :
    ¬ ∀ (help : String) (u : Usage), ofHelp? help = .ok (some u) → u.Unambiguous →
      ∀ (flag : String) (front rest front' rest' : List String), flag ∈ u.pattern.flags →
        u.Settled front → "--" ∉ front ++ rest → front ++ rest = front' ++ rest' →
        ¬ u.BetweenKeyAndValue front' rest' → ∀ command : String,
          SameOutcome (u.apply (command :: (front ++ flag :: rest)))
            (u.apply (command :: (front' ++ flag :: rest'))) := by
  intro h
  have hplace : ¬ waitUsage.BetweenKeyAndValue ["--timeout"] [] := by
    rintro ⟨_, _, _, _, -, -, -, hrest⟩
    cases hrest
  have hsame := h _ _ ofHelp_wait unambiguous_wait "-f" [] ["--timeout"] ["--timeout"] []
    (by decide) .nil (by decide) rfl hplace "wait"
  have hrefused : waitUsage.split? ["-f", "--timeout"] = none := by decide +kernel
  have hbound : waitUsage.split? ["--timeout", "-f"] = some ([], [.value "--timeout" "-f"]) := by
    decide +kernel
  have hmatch : waitUsage.pattern.match? [] = some [] := by decide +kernel
  simp only [List.nil_append, List.singleton_append, apply_eq_bindSplit, List.tail_cons, hrefused,
    hbound, hmatch] at hsame
  cases hsame

end NestedShell.Usage
