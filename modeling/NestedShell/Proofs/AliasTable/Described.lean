/-
  Aliases as they are listed.

  The listing of an alias is a definition of it: its words are quoted one by one, so that the value
  reads back, and the value is quoted as a whole, so that it is one word of a statement.  Typed
  behind `alias` it defines the same alias again, at whichever level.

  * `AliasTable.Reached`: a table that is got by defining and removing aliases; `Reached.entry`: its
    entries have a name and a first word;
  * `statements?_definition`: the listing behind `alias` is a statement of two words;
  * `bindArguments_alias`: the usage of the builtin takes the second one as a definition;
  * `definition?_line`: which is read as the name and the words;
  * `Redefines` and `AliasTable.described_reads_back` put this together.
-/
import NestedShell.Dispatch
import NestedShell.Proofs.Statement.Written
import NestedShell.Proofs.Text.Cut
import NestedShell.Proofs.Usage.Words

namespace NestedShell

open Statement (quote needsQuotes)

/-! ## Tables -/

namespace AliasTable

/-- The alias tables that are got from an empty one by defining and removing aliases. -/
inductive Reached : AliasTable → Prop where
  | empty (policy : CyclePolicy) : Reached { policy }
  | set {t t' : AliasTable} {name : String} {words : List String} (h : Reached t)
      (hset : t.set name words = .ok t') : Reached t'
  | erase {t : AliasTable} (h : Reached t) (name : String) : Reached (t.erase name)

theorem set_eq_ok {name : String} {words : List String} (hname : name ≠ "")
    (hwords : words.headD "" ≠ "") (t : AliasTable) :
    t.set name words = .ok { t with entries := t.entries.insert name words } := by
  rw [set, if_neg hname, if_neg hwords]

/-- What can be defined has a name and a first word. -/
theorem of_set_eq_ok {t t' : AliasTable} {name : String} {words : List String}
    (h : t.set name words = .ok t') : name ≠ "" ∧ words.headD "" ≠ "" := by
  rw [set] at h
  split at h
  · cases h
  · rename_i hname
    split at h
    · cases h
    · rename_i hwords
      exact ⟨hname, hwords⟩

/-- **Every entry** has a name and a first word. -/
theorem Reached.entry {t : AliasTable} (h : t.Reached) {name : String} {words : List String}
    (hget : t.get? name = some words) : name ≠ "" ∧ words.headD "" ≠ "" := by
  induction h with
  | empty policy => simp [get?] at hget
  | set h hset ih =>
    rw [get?_of_set hset] at hget
    split at hget
    · rename_i heq
      cases hget
      exact heq ▸ of_set_eq_ok hset
    · exact ih hget
  | erase h other ih =>
    rw [get?_erase] at hget
    split at hget
    · cases hget
    · exact ih hget

end AliasTable

/-! ## The statement -/

namespace Statement

/-- A word as `quote` writes it, behind some characters that are read as they are: both together
    are one word. -/
theorem statements?_definition {name : String} (hname : ∀ c ∈ name.toList, needsQuotes c = false)
    (value : String) (vars : Lookup) :
    statements? ("alias " ++ (name ++ "=" ++ quote value)) vars =
      .ok [["alias", name ++ "=" ++ value]] := by
  have hbare : ∀ c ∈ (name ++ "=").toList, Copied vars (.text .bare) c [c] := by
    intro c hc
    refine .bare ?_
    rcases List.mem_append.1 (String.toList_append ▸ hc) with hc | hc
    · exact not_mem_special (by rw [hname c hc]; decide)
    · obtain rfl := List.mem_singleton.1 hc
      decide
  have hcommand : scan vars "alias ".toList (.text .bare) {} =
      .ok ([], .text .bare, draftOf ["alias"]) := by rfl
  have hprefix := scan_plain vars hbare ["alias"]
  obtain ⟨d, hd, hquote⟩ :=
    scan_quote vars value (d := { draftOf ["alias"] with word := name ++ "=" }) rfl
  have hend : scan vars [Terminator.newline.char] (.text .bare) d =
      .ok ([["alias", name ++ "=" ++ value]], .text .bare, {}) :=
    scan_terminator vars .newline hd
  have hscan := scan_append_ok (scan_append_ok hcommand (scan_append_ok hprefix hquote)) hend
  refine statements?_eq_ok (d := {}) ?_ rfl
  simpa [Terminator.char] using hscan

end Statement

/-! ## The builtin -/

namespace Dispatch

theorem pattern_alias : ((builtins.find? (·.name == "alias")).bind fun info =>
    ((Usage.ofHelp? info.help).toOption.bind id).map (·.pattern)) =
      some (.anyNumber "<definition>") := by decide +kernel

/-- The usage of `alias` is any number of definitions. -/
theorem exists_usage_alias : ∃ info usage, builtins.find? (·.name == "alias") = some info ∧
    Usage.ofHelp? info.help = .ok (some usage) ∧
    usage.pattern = .anyNumber "<definition>" := by
  obtain ⟨info, hinfo, h⟩ := Option.bind_eq_some_iff.1 pattern_alias
  obtain ⟨usage, husage, hpattern⟩ := Option.map_eq_some_iff.1 h
  obtain ⟨read, hread, rfl⟩ := Option.bind_eq_some_iff.1 husage
  refine ⟨info, usage, hinfo, ?_, hpattern⟩
  cases hhelp : Usage.ofHelp? info.help with
  | error fault => simp [hhelp, Except.toOption] at hread
  | ok found => simpa [hhelp, Except.toOption] using hread

/-- The usage of `alias` takes every word but the end of the options as a definition. -/
theorem bindArguments_alias {words : List String} (hwords : "--" ∉ words) :
    ∃ args, bindArguments (builtins.find? (·.name == "alias")) ("alias" :: words) = (.ok args, []) ∧
      args.name = "alias" ∧ args.list "<definition>" = words := by
  obtain ⟨info, usage, hinfo, husage, hpattern⟩ := exists_usage_alias
  obtain ⟨args, happly, hargs⟩ := Usage.apply_anyNumber hpattern "alias" hwords
  refine ⟨args, ?_, hargs⟩
  rw [hinfo, bindArguments]
  simp only [husage, happly]

end Dispatch

/-- A program that succeeds goes on from the desk that it leaves. -/
theorem Handler.run_bind_ok {σ ω α β : Type} {h : Handler σ ω α} {d d' : Desk σ ω} {a : α}
    (hrun : h.run.run d = (.ok a, d')) (f : α → Handler σ ω β) :
    (h >>= f).run.run d = (f a).run.run d' := by
  rw [ExceptT.run_bind, StateT.run_bind, hrun]
  rfl

namespace Builtin

/-- A word is a definition: what stands before its first `=` is the name, and the quoted words
    behind it are the words. -/
theorem definition?_line {name : String} (hequals : '=' ∉ name.toList)
    (hblank : ∀ c ∈ name.toList, Text.isBlank c = false) (words : List String) :
    definition? [name ++ "=" ++ " ".intercalate (words.map quote)] = .ok (some (name, words)) := by
  have hcut := Text.cutAt_append hequals (" ".intercalate (words.map quote))
  rw [definition?, definitionParts?, show "=" = String.singleton '=' from rfl, hcut]
  simp only [Statement.words?_quoted, Except.map, Text.trim_eq_self hblank, List.append_nil]

/-- **A definition** is all that the builtin does with one. -/
theorem run_definition {σ ω : Type} (inv : Invocation) {word name : String} {words : List String}
    (hname : inv.name = "alias") (hlist : inv.args.list "<definition>" = [word])
    (hword : definition? [word] = .ok (some (name, words))) {d : Desk σ ω} {aliases : AliasTable}
    (hset : d.aliases.set name words = .ok aliases) :
    (run inv).run.run d = (.ok .done, { d with aliases }) := by
  have hdefinition : (liftM (definition? [word]) : Handler σ ω _).run.run d =
      (.ok (some (name, words)), d) := by rw [hword]; rfl
  have hnew : (liftM (d.aliases.set name words) : Handler σ ω _).run.run d = (.ok aliases, d) := by
    rw [hset]; rfl
  rw [run, hname]
  change (editAliases inv).run.run d = _
  rw [editAliases, hlist]
  refine (Handler.run_bind_ok rfl _).trans ?_
  rw [if_neg (List.cons_ne_nil _ _)]
  refine (Handler.run_bind_ok hdefinition _).trans ?_
  exact (Handler.run_bind_ok hnew _).trans rfl

end Builtin

/-! ## Reading back -/

/-- What is typed behind `alias` defines some words under a name.  Whatever the variables are, it is
    read as one more word; the usage of the builtin takes that word; and at every level the builtin
    succeeds and changes this alias, and nothing else. -/
def Redefines (line name : String) (words : List String) : Prop :=
  ∃ word args,
    (∀ vars, Statement.statements? ("alias " ++ line) vars = .ok [["alias", word]]) ∧
    Dispatch.bindArguments (builtins.find? (·.name == "alias")) ["alias", word] = (.ok args, []) ∧
    ∀ {σ ω : Type} (catalog : List CommandInfo) (d : Desk σ ω), ∃ aliases,
      (Builtin.run ⟨args, catalog⟩).run.run d = (.ok .done, { d with aliases }) ∧
      ∀ other, aliases.get? other = if name = other then some words else d.aliases.get? other

/-- **What is listed can be typed back**, for an alias whose name can stand unquoted in front of
    a `=`: it defines the same words again. -/
theorem AliasTable.described_reads_back {t : AliasTable} (ht : t.Reached) {name : String}
    {words : List String} (hget : t.get? name = some words) (hequals : '=' ∉ name.toList)
    (hname : ∀ c ∈ name.toList, needsQuotes c = false) :
    ∃ line, t.describe? name = some line ∧ Redefines line name words := by
  obtain ⟨hempty, hhead⟩ := ht.entry hget
  have hblank : ∀ c ∈ name.toList, Text.isBlank c = false := fun c hc =>
    (Bool.or_eq_false_iff.1 (hname c hc)).1
  -- the word of the definition does not end the options, since it has a `=`
  have hend : "--" ∉ [name ++ "=" ++ " ".intercalate (words.map quote)] := by
    intro h
    have hmem : '=' ∈ "--".toList := by
      rw [List.mem_singleton.1 h]
      simp
    exact absurd hmem (by decide)
  obtain ⟨args, hbind, hcommand, hlist⟩ := Dispatch.bindArguments_alias hend
  refine ⟨_, by rw [describe?, hget, Option.map_some], _, args,
    Statement.statements?_definition hname _, hbind, fun catalog d => ?_⟩
  have hset := set_eq_ok hempty hhead d.aliases
  exact ⟨_, Builtin.run_definition ⟨args, catalog⟩ hcommand hlist
    (Builtin.definition?_line hequals hblank words) hset, get?_of_set hset⟩

/-- An alias with an empty word, quotes, a newline, a variable and a `=`. -/
theorem AliasTable.described_reads_back_quotes :
    ∃ t line, ({} : AliasTable).set "-l" ["ls", "", "it's \"here\"", "a\nb", "$HOME=#;"] = .ok t ∧
      t.describe? "-l" = some line ∧
      Redefines line "-l" ["ls", "", "it's \"here\"", "a\nb", "$HOME=#;"] := by
  have hset := set_eq_ok (show "-l" ≠ "" by decide)
    (show ["ls", "", "it's \"here\"", "a\nb", "$HOME=#;"].headD "" ≠ "" by decide) {}
  have hget := get?_of_set hset "-l"
  rw [if_pos rfl] at hget
  have hname : ∀ c ∈ "-l".toList, needsQuotes c = false := by
    intro c hc
    obtain rfl | rfl : c = '-' ∨ c = 'l' := by simpa using hc
    all_goals decide
  obtain ⟨line, hline, hback⟩ :=
    described_reads_back (.set (.empty .stop) hset) hget (by decide) hname
  exact ⟨_, line, hset, hline, hback⟩

end NestedShell
