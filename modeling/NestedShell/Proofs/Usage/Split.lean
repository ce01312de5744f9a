/-
  Command lines, split into words and options.

  Taking out the options binds them on the way.  Here they are listed first, as captures like those
  of the pattern, and bound afterwards: then each of the two can be looked at alone.

  * `Capture.update` is what a capture does to the binding of its name, and `getElem?_bindCaptures`
    what many do: only those for a name matter to it;
  * `Usage.split?` lists the words that are left and the options; `splitOptions_eq_bindSplit`:
    taking out the options binds those of the list.
-/
import NestedShell.Proofs.Usage.Names

namespace NestedShell.Usage

/-- The flag of a letter. -/
def dashed (c : Char) : String := String.ofList ['-', c]

/-! ## What is bound to a name -/

namespace Capture

/-- The name that a capture is for. -/
def name : Capture → String
  | .word w => w
  | .value name _ => name

/-- What the name of a capture is bound to after it. -/
def update : Capture → Option Binding → Option Binding
  | .word _, _ => some (.flag true)
  | .value _ text, some (.list words) => some (.list (words ++ [text]))
  | .value _ text, _ => some (.text (some text))

end Capture

@[simp] theorem bindCaptures_nil (b : Bindings) : bindCaptures b [] = b := rfl

/-- Flags of one letter are bound one after the other. -/
theorem bindCaptures_dashed (b : Bindings) (letters : List Char) :
    bindCaptures b (letters.map fun c => .word (dashed c)) =
      letters.foldl (fun b c => b.insert (dashed c) (.flag true)) b :=
  List.foldl_map

theorem bindCaptures_append (b : Bindings) (captures more : List Capture) :
    bindCaptures b (captures ++ more) = bindCaptures (bindCaptures b captures) more :=
  List.foldl_append

/-- A capture changes the binding of its name only. -/
theorem getElem?_bindCaptures_singleton (b : Bindings) (c : Capture) (key : String) :
    (bindCaptures b [c])[key]? = if c.name = key then c.update b[key]? else b[key]? := by
  cases c with
  | word w =>
    change (b.insert w (.flag true))[key]? = if w = key then _ else _
    by_cases hname : w = key <;> simp [hname, Std.TreeMap.getElem?_insert, Capture.update]
  | value name text =>
    change (b.bind name text)[key]? = if name = key then _ else _
    rw [Bindings.bind]
    by_cases hname : name = key
    · subst hname
      cases b[name]? with
      | none => simp [Capture.update]
      | some binding => cases binding <;> simp [Capture.update]
    · cases b[name]? with
      | none => simp [hname, Std.TreeMap.getElem?_insert]
      | some binding => cases binding <;> simp [hname, Std.TreeMap.getElem?_insert]

/-- **What captures bind to a name** is decided by those for that name, in order. -/
theorem getElem?_bindCaptures (b : Bindings) (captures : List Capture) (key : String) :
    (bindCaptures b captures)[key]? =
      (captures.filter (·.name = key)).foldl (fun binding c => c.update binding) b[key]? := by
  induction captures generalizing b with
  | nil => rfl
  | cons c captures ih =>
    rw [← List.singleton_append, bindCaptures_append, ih, getElem?_bindCaptures_singleton]
    by_cases hname : c.name = key <;> simp [hname]

/-- Names without captures keep their bindings. -/
theorem getElem?_bindCaptures_of_forall {captures : List Capture} {key : String}
    (h : ∀ c ∈ captures, c.name ≠ key) (b : Bindings) :
    (bindCaptures b captures)[key]? = b[key]? := by
  rw [getElem?_bindCaptures, List.filter_eq_nil_iff.2 (by simpa using h), List.foldl_nil]

/-- Words are added to those of a repeated argument. -/
theorem foldl_update_list (name : String) (texts words : List String) :
    (texts.map (Capture.value name)).foldl (fun binding c => c.update binding)
      (some (.list words)) = some (.list (words ++ texts)) := by
  induction texts generalizing words with
  | nil => simp
  | cons text texts ih =>
    rw [List.map_cons, List.foldl_cons, Capture.update, ih, List.append_assoc,
      List.singleton_append]

/-! ## Splitting -/

/-- The words that are left when the options are taken out, and the options: a flag is captured as
    a word, an option with a value as a value. -/
abbrev Split := List String × List Capture

/-- A split with words and options in front. -/
def Split.after (positional : List String) (options : List Capture) (s : Split) : Split :=
  (positional ++ s.1, options ++ s.2)

variable (u : Usage)

/-- Splits a command line.  There is no answer when the last word is an option that lacks its
    value. -/
def split? : List String → Option Split
  | [] => some ([], [])
  | word :: rest =>
    if word = "--" then some (rest, [])
    else if u.pattern.flags.contains word then (split? rest).map (.after [] [.word word])
    else match u.assignment? word with
    | some (key, value) => (split? rest).map (.after [] [.value key value])
    | none =>
      if u.pattern.valuedOptions.contains word then
        match rest with
        | [] => none
        | value :: rest => (split? rest).map (.after [] [.value word value])
      else if u.isCluster word then
        (split? rest).map (.after [] (word.toList.tail.map fun c => .word (dashed c)))
      else (split? rest).map (.after [word] [])

/-! ### One element -/

/-- What some words in front of others come to: words that are left, and options. -/
def Takes (words positional : List String) (options : List Capture) : Prop :=
  ∀ rest, u.split? (words ++ rest) = (u.split? rest).map (.after positional options)

variable {u}

theorem Takes.nil : u.Takes [] [] [] := by
  intro rest
  cases h : u.split? rest <;> simp [h, Split.after]

theorem Takes.append {words words' positional positional' : List String}
    {options options' : List Capture} (h : u.Takes words positional options)
    (h' : u.Takes words' positional' options') :
    u.Takes (words ++ words') (positional ++ positional') (options ++ options') := by
  intro rest
  rw [List.append_assoc, h, h', Option.map_map]
  congr 1
  funext s
  simp [Split.after]

theorem split?_end (u : Usage) (rest : List String) :
    u.split? ("--" :: rest) = some (rest, []) := by
  rw [split?.eq_def]
  rfl

section
variable {word : String} (hend : word ≠ "--")
include hend

theorem takes_flag (hflag : word ∈ u.pattern.flags) : u.Takes [word] [] [.word word] := by
  intro rest
  rw [List.singleton_append, split?.eq_def]
  simp [hend, hflag]

variable (hflag : word ∉ u.pattern.flags)
include hflag

theorem takes_assignment {key value : String} (h : u.assignment? word = some (key, value)) :
    u.Takes [word] [] [.value key value] := by
  intro rest
  rw [List.singleton_append, split?.eq_def]
  simp [hend, hflag, h]

variable (hassignment : u.assignment? word = none)
include hassignment

theorem split?_key (h : word ∈ u.pattern.valuedOptions) : u.split? [word] = none := by
  rw [split?.eq_def]
  simp [hend, hflag, hassignment, h]

theorem takes_key (h : word ∈ u.pattern.valuedOptions) (value : String) :
    u.Takes [word, value] [] [.value word value] := by
  intro rest
  rw [List.cons_append, split?.eq_def]
  simp [hend, hflag, hassignment, h]

variable (hvalued : word ∉ u.pattern.valuedOptions)
include hvalued

theorem takes_cluster (h : u.isCluster word = true) :
    u.Takes [word] [] (word.toList.tail.map fun c => .word (dashed c)) := by
  intro rest
  rw [List.singleton_append, split?.eq_def]
  simp [hend, hflag, hassignment, hvalued, h]

theorem takes_positional (h : u.isCluster word = false) : u.Takes [word] [word] [] := by
  intro rest
  rw [List.singleton_append, split?.eq_def]
  simp [hend, hflag, hassignment, hvalued, h]

end

/-! ### Declared options -/

/-- Whether a capture is that of an option that the usage declares. -/
def IsOption (u : Usage) : Capture → Prop
  | .word name => name ∈ u.pattern.flags
  | .value key _ => key ∈ u.pattern.valuedOptions

theorem assigned_of_assignment {word key value : String}
    (h : u.assignment? word = some (key, value)) :
    word = assigned key value ∧ key ∈ u.pattern.valuedOptions := by
  obtain ⟨hcut, hkey⟩ := Option.filter_eq_some_iff.1 h
  exact ⟨(Text.eq_of_cutAt hcut).1, by simpa using hkey⟩

theorem flag_of_isCluster {word : String} (h : u.isCluster word = true) :
    ∀ c ∈ word.toList.tail, dashed c ∈ u.pattern.flags := by
  simp only [isCluster, Bool.and_eq_true, List.all_eq_true] at h
  exact fun c hc => by simpa [dashed] using h.2 c hc

/-- What holds of the options in front and of the others holds of all. -/
theorem Split.forall_after {P : Capture → Prop} {positional : List String}
    {options : List Capture} (hoptions : ∀ c ∈ options, P c) {split : Option Split}
    (ih : ∀ {s}, split = some s → ∀ c ∈ s.2, P c) {s : Split}
    (h : split.map (.after positional options) = some s) : ∀ c ∈ s.2, P c := by
  obtain ⟨s', hs', rfl⟩ := Option.map_eq_some_iff.1 h
  exact List.forall_mem_append.2 ⟨hoptions, ih hs'⟩

/-- What is taken out of a command line are declared options. -/
theorem isOption_of_split? {words : List String} {s : Split} (h : u.split? words = some s) :
    ∀ c ∈ s.2, u.IsOption c := by
  fun_induction split? u words generalizing s with
  | case1 | case2 =>
    cases h
    exact nofun
  | case3 word rest hend hflag ih =>
    have hword : u.IsOption (.word word) := by simpa [IsOption] using hflag
    exact Split.forall_after (List.forall_mem_singleton.2 hword) ih h
  | case4 word rest hend hflag key value hkey ih =>
    have hvalue : u.IsOption (.value key value) := (assigned_of_assignment hkey).2
    exact Split.forall_after (List.forall_mem_singleton.2 hvalue) ih h
  | case5 => cases h
  | case6 word hend hflag hkey hvalued value rest ih =>
    have hvalue : u.IsOption (.value word value) := by simpa [IsOption] using hvalued
    exact Split.forall_after (List.forall_mem_singleton.2 hvalue) ih h
  | case7 word rest hend hflag hkey hvalued hcluster ih =>
    refine Split.forall_after (fun c hc => ?_) ih h
    obtain ⟨letter, hletter, rfl⟩ := List.mem_map.1 hc
    exact flag_of_isCluster hcluster letter hletter
  | case8 word rest hend hflag hkey hvalued hcluster ih =>
    exact Split.forall_after nofun ih h

/-! ### Binding the options -/

/-- Binds the options of a split.  Without one, the command line does not match. -/
def bindSplit (u : Usage) (b : Bindings) : Option Split → Except Fault (List String × Bindings)
  | some s => .ok (s.1, bindCaptures b s.2)
  | none => .error u.mismatch

/-- Options in front may be bound first. -/
theorem Takes.bindSplit_eq {words : List String} {options : List Capture}
    (h : u.Takes words [] options) (rest : List String) (b : Bindings) :
    u.bindSplit b (u.split? (words ++ rest)) =
      u.bindSplit (bindCaptures b options) (u.split? rest) := by
  rw [h rest]
  cases u.split? rest with
  | none => rfl
  | some s => simp only [Option.map_some, Split.after, bindSplit, bindCaptures_append,
      List.nil_append]

/-- **Taking out the options** binds those that a command line is split into. -/
theorem splitOptions_eq_bindSplit (u : Usage) (words : List String) (b : Bindings) :
    u.splitOptions words b = u.bindSplit b (u.split? words) := by
  fun_induction splitOptions u words b with
  | case1 b => rfl
  | case2 rest b => rw [split?_end, bindSplit, bindCaptures_nil]
  | case3 word rest b hend hflag ih =>
    have htakes := takes_flag hend (by simpa using hflag)
    exact ih.trans (htakes.bindSplit_eq rest b).symm
  | case4 word rest b hend hflag key value hkey ih =>
    have htakes := takes_assignment hend (by simpa using hflag) hkey
    exact ih.trans (htakes.bindSplit_eq rest b).symm
  | case5 word b hend hflag hkey hvalued =>
    rw [split?_key hend (by simpa using hflag) hkey (by simpa using hvalued), bindSplit]
  | case6 word b hend hflag hkey hvalued value rest ih =>
    have htakes := takes_key hend (by simpa using hflag) hkey (by simpa using hvalued) value
    exact ih.trans (htakes.bindSplit_eq rest b).symm
  | case7 word rest b hend hflag hkey hvalued hcluster ih =>
    have htakes := takes_cluster hend (by simpa using hflag) hkey (by simpa using hvalued) hcluster
    refine ih.trans (Eq.trans ?_ (htakes.bindSplit_eq rest b).symm)
    rw [bindCaptures_dashed]
    rfl
  | case8 word rest b hend hflag hkey hvalued hcluster positional b' hrest ih =>
    have htakes := takes_positional hend (by simpa using hflag) hkey (by simpa using hvalued)
      (by simpa using hcluster) rest
    rw [hrest] at ih
    change _ = u.bindSplit b (u.split? ([word] ++ rest))
    rw [htakes]
    cases hsplit : u.split? rest with
    | none => simp [hsplit, bindSplit] at ih
    | some s =>
      obtain ⟨rfl, rfl⟩ : positional = s.1 ∧ b' = bindCaptures b s.2 := by
        simpa [hsplit, bindSplit] using ih
      rfl
  | case9 word rest b hend hflag hkey hvalued hcluster fault hrest ih =>
    have htakes := takes_positional hend (by simpa using hflag) hkey (by simpa using hvalued)
      (by simpa using hcluster) rest
    rw [hrest] at ih
    change _ = u.bindSplit b (u.split? ([word] ++ rest))
    rw [htakes]
    cases hsplit : u.split? rest with
    | none => simpa [hsplit, bindSplit] using ih
    | some s => simp [hsplit, bindSplit] at ih

/-- What a command line is bound to, or why it is not. -/
theorem apply_eq_bindSplit (u : Usage) (argv : List String) :
    u.apply argv =
      match u.split? argv.tail with
      | some s =>
        match u.pattern.match? s.1 with
        | some captures => .ok ⟨argv, bindCaptures u.pattern.defaults (s.2 ++ captures)⟩
        | none => .error u.mismatch
      | none => .error u.mismatch := by
  rw [apply, splitOptions_eq_bindSplit]
  cases u.split? argv.tail with
  | none => rfl
  | some s =>
    cases hmatch : u.pattern.match? s.1 <;> simp [bindSplit, hmatch, bindCaptures_append]

/-- A command line that splits and matches is bound. -/
theorem apply_of_match? {u : Usage} {command : String} {line words : List String}
    {options captures : List Capture} (hsplit : u.split? line = some (words, options))
    (hmatch : u.pattern.match? words = some captures) :
    u.apply (command :: line) =
      .ok ⟨command :: line, bindCaptures u.pattern.defaults (options ++ captures)⟩ := by
  simp only [apply_eq_bindSplit, List.tail_cons, hsplit, hmatch]

end NestedShell.Usage
