/-
  What the lines of a startup file do to the settings.

  A line passes all its checks before it changes anything, and no check looks at the settings.  So
  every line can be read apart from them, as a directive, as a line to skip, or with a fault, and a
  directive gives one entry of the settings a value.

  * an `Entry` is a place in the settings, `Settings.get` is its value;
  * a `Directive` gives a value to an entry; `get_apply`: the value of an entry is the one that the
    directive gives it, or the one that it had;
  * `directive?` reads a line; `applyLine_eq`: to apply a line is to do what was read;
  * `applyLines_eq`: lines leave what their directives leave, and a note for every rejected one;
  * `get_applyAll`: the last value that is given to an entry is the one that stays.
-/
import NestedShell.StartupFile

namespace NestedShell.Settings

/-! ## Entries -/

/-- A place in the settings. -/
inductive Entry where
  | aliased (name : String)
  | cycles
  | env (name : String)
  | color (slot : Slot)

/-- What an entry holds; an alias or a variable may have no value. -/
def Entry.Value : Entry → Type
  | aliased _ => Option (List String)
  | cycles => CyclePolicy
  | env _ => Option String
  | color _ => String

/-- What an entry of the settings holds. -/
def get (s : Settings) : (e : Entry) → e.Value
  | .aliased name => s.aliases.get? name
  | .cycles => s.aliases.policy
  | .env name => s.env.get? name
  | .color slot => s.theme.color slot

/-! ## Directives -/

/-- What a line says. -/
inductive Directive where
  | aliased (name : String) (words : List String)
  | cycles (policy : CyclePolicy)
  | env (name value : String)
  | color (slot : Slot) (value : String)

namespace Directive

/-- Does what a line says. -/
def apply : Directive → Settings → Settings
  | aliased name words, s => { s with aliases.entries := s.aliases.entries.insert name words }
  | cycles policy, s => { s with aliases.policy := policy }
  | env name value, s => { s with env := s.env.set name value }
  | color slot value, s => { s with theme := s.theme.set slot value }

/-- The value that a directive gives to an entry, if it is about this entry. -/
def value? : Directive → (e : Entry) → Option e.Value
  | aliased name words, .aliased other => if name = other then some (some words) else none
  | cycles policy, .cycles => some policy
  | env name value, .env other => if name = other then some (some value) else none
  | color slot value, .color other => if slot = other then some value else none
  | _, _ => none

/-- **A directive** gives its value to its entry, and leaves all others. -/
theorem get_apply (d : Directive) (s : Settings) (e : Entry) :
    (d.apply s).get e = (d.value? e).getD (s.get e) := by
  cases d with
  | aliased name words =>
    cases e with
    | aliased other =>
      simp only [get, apply, value?, AliasTable.get?, Std.TreeMap.getElem?_insert,
        Std.LawfulEqCmp.compare_eq_iff_eq]
      split <;> rfl
    | _ => rfl
  | cycles policy => cases e <;> rfl
  | env name value =>
    cases e with
    | env other =>
      simp only [get, apply, value?, Environment.get?_set]
      split <;> rfl
    | _ => rfl
  | color slot value =>
    cases e with
    | color other =>
      simp only [get, apply, value?, Theme.color_set, eq_comm]
      split <;> rfl
    | _ => rfl

end Directive

/-- Does what several lines say, one after the other. -/
def applyAll (s : Settings) (ds : List Directive) : Settings := ds.foldl (fun s d => d.apply s) s

/-- **The last value** that is given to an entry stays. -/
theorem get_applyAll (s : Settings) (ds : List Directive) (e : Entry) :
    (s.applyAll ds).get e = ((ds.filterMap (·.value? e)).getLast?).getD (s.get e) := by
  induction ds generalizing s with
  | nil => rfl
  | cons d ds ih =>
    rw [applyAll, List.foldl_cons, ← applyAll, ih, d.get_apply, List.filterMap_cons]
    cases d.value? e with
    | none => rfl
    | some value =>
      rw [List.getLast?_cons]
      cases (ds.filterMap (·.value? e)).getLast? <;> rfl

/-! ## Reading lines -/

/-- What the definition of an alias says. -/
def aliasDirective? (definition : String) : Except Fault Directive :=
  match Text.cutAt '=' definition with
  | none => .error ⟨.aliasWithoutValue, none⟩
  | some (name, value) =>
    let name := Text.trim name
    if name = "" ∨ name.toList.any Text.isBlank = true then
      .error ⟨.invalidAliasName name, none⟩
    else
      match Statement.words? (unquote (Text.trim value)) with
      | .error fault => .error fault
      | .ok words =>
        if words.headD "" = "" then .error ⟨.emptyReplacement name, none⟩
        else .ok (.aliased name words)

/-- What the assignment of a value says. -/
def assignmentDirective? (key value : String) : Except Fault Directive :=
  match Text.strip? colorKey key with
  | some name =>
    match Slot.ofName? name with
    | some slot => .ok (.color slot value)
    | none => .error ⟨.unknownColorKey name (Slot.all.map Slot.name), none⟩
  | none =>
    if key = "alias_cycles" then (CyclePolicy.ofName? value).map .cycles
    else if isVariableName key then .ok (.env key value)
    else .error ⟨.invalidVariableName key, none⟩

/-- What a line says, nothing if it is skipped. -/
def directive? (line : String) : Except Fault (Option Directive) :=
  let line := Text.trim line
  if line = "" ∨ Text.startsWith "#" line then .ok none
  else
    match Text.strip? "alias " line with
    | some definition => (aliasDirective? definition).map some
    | none =>
      match Text.cutAt '=' ((Text.strip? "export " line).getD line) with
      | none => .error ⟨.unrecognizedDirective, none⟩
      | some (key, value) =>
        (assignmentDirective? (Text.trim key) (unquote (Text.trim value))).map some

/-- Does what was read, and nothing when there is a fault. -/
def follow (s : Settings) : Except Fault (Option Directive) → Except Fault Unit × Settings
  | .error fault => (.error fault, s)
  | .ok none => (.ok (), s)
  | .ok (some d) => (.ok (), d.apply s)

theorem defineAlias_eq (s : Settings) (definition : String) :
    s.defineAlias definition = s.follow ((aliasDirective? definition).map some) := by
  rw [defineAlias, aliasDirective?]
  cases Text.cutAt '=' definition with
  | none => rfl
  | some parts =>
    obtain ⟨name, value⟩ := parts
    dsimp only
    split
    · rfl
    · rename_i hname
      cases Statement.words? (unquote (Text.trim value)) with
      | error fault => rfl
      | ok words =>
        have hne : ¬Text.trim name = "" := fun h => hname (.inl h)
        by_cases hwords : words.headD "" = ""
        · simp only [AliasTable.set, if_neg hne, if_pos hwords]
          rfl
        · simp only [AliasTable.set, if_neg hne, if_neg hwords]
          rfl

theorem assign_eq (s : Settings) (key value : String) :
    s.assign key value = s.follow ((assignmentDirective? key value).map some) := by
  rw [assign, assignmentDirective?]
  cases Text.strip? colorKey key with
  | some name =>
    dsimp only
    rw [setColor]
    cases Slot.ofName? name <;> rfl
  | none =>
    dsimp only
    split
    · cases CyclePolicy.ofName? value <;> rfl
    · split <;> rfl

/-- **To apply a line** is to do what was read of it, so it does not depend on the settings whether
    the line is rejected, and a rejected one does nothing. -/
theorem applyLine_eq (s : Settings) (line : String) :
    s.applyLine line = s.follow (directive? line) := by
  rw [applyLine, directive?]
  split
  · rfl
  · rw [applyDirective]
    cases Text.strip? "alias " (Text.trim line) with
    | some definition => exact s.defineAlias_eq definition
    | none =>
      dsimp only
      cases Text.cutAt '=' ((Text.strip? "export " (Text.trim line)).getD (Text.trim line)) with
      | none => rfl
      | some parts => exact s.assign_eq _ _

/-! ## Reading several lines -/

/-- The directive of a line, if it has one. -/
def assignment? (line : String) : Option Directive :=
  match directive? line with
  | .ok d => d
  | .error _ => none

/-- The fault of a line that is rejected. -/
def fault? (line : String) : Option Fault :=
  match directive? line with
  | .ok _ => none
  | .error fault => some fault

/-- The notes on lines that are rejected, the first line having the given number. -/
def rejections (number : Nat) (lines : List String) : List LogEntry :=
  (lines.zipIdx number).filterMap fun (line, number) => (fault? line).map (.rejectedLine number)

/-- **Lines** leave what their directives leave, and a note for every line that is rejected. -/
theorem applyLines_eq (number : Nat) (s : Settings) (lines : List String) :
    applyLines number s lines =
      (s.applyAll (lines.filterMap assignment?), rejections number lines) := by
  induction lines generalizing number s with
  | nil => rfl
  | cons line lines ih =>
    rcases hread : directive? line with fault | (_ | d)
    all_goals
      simp only [applyLines, applyLine_eq, hread, follow, ih, rejections, List.zipIdx_cons,
        List.filterMap_cons, assignment?, fault?]
      rfl

end NestedShell.Settings
