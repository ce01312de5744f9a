/-
  Startup files as texts.

  What a startup file says is told by its directives in their order.  A rejected line has none, so
  it may as well be taken out of the file; and two files, one under the other, say what the first
  one says and then what the second one says.

  * `directives` are the directives of a content; `read_eq`: a content is read as its directives;
  * `directives_append`: a content under another one;
  * `withoutRejected`: a content without the lines that are rejected; `directives_withoutRejected`
    and `rejections_withoutRejected`: it has the same directives, and nothing is noted about it;
  * `lastValue`: the last value that a content gives to an entry;
  * `ReadByLines` and `read_byLines` put this together.
-/
import NestedShell.Proofs.StartupFile.Directives
import NestedShell.Proofs.Text.Lines

namespace NestedShell.Settings

/-! ## Lines as texts -/

/-- A line is read without the blanks around it. -/
theorem directive?_congr {line line' : String} (h : Text.trim line = Text.trim line') :
    directive? line = directive? line' := by
  rw [directive?, directive?, h]

theorem assignment?_chopReturn (p : List Char) :
    assignment? (String.ofList (Text.chopReturn p)) = assignment? (String.ofList p) := by
  rw [assignment?, assignment?, directive?_congr (Text.trim_chopReturn p)]

theorem fault?_chopReturn (p : List Char) :
    fault? (String.ofList (Text.chopReturn p)) = fault? (String.ofList p) := by
  rw [fault?, fault?, directive?_congr (Text.trim_chopReturn p)]

/-! ## Contents -/

/-- The directives of a content. -/
def directives (content : String) : List Directive := (Text.lines content).filterMap assignment?

/-- **A content is read as its directives**, and the lines that are rejected are noted. -/
theorem read_eq (content : String) (theme : Theme) :
    read content theme =
      (({ theme } : Settings).applyAll (directives content), rejections 1 (Text.lines content)) :=
  applyLines_eq 1 { theme } (Text.lines content)

/-- The directives stand between newlines. -/
theorem directives_eq (content : String) :
    directives content =
      (Text.pieces (· == '\n') content.toList).filterMap fun p => assignment? (String.ofList p) :=
  Text.filterMap_lines rfl assignment?_chopReturn content

/-- **A content under another one** has its directives after the ones of that one. -/
theorem directives_append (above below : String) :
    directives (above ++ "\n" ++ below) = directives above ++ directives below := by
  have hchars : (above ++ "\n" ++ below).toList = above.toList ++ '\n' :: below.toList := by simp
  rw [directives_eq, directives_eq, directives_eq, hchars, Text.pieces_append_sep rfl,
    List.filterMap_append]

theorem applyAll_append (s : Settings) (ds ds' : List Directive) :
    s.applyAll (ds ++ ds') = (s.applyAll ds).applyAll ds' :=
  List.foldl_append

/-! ## Without rejected lines -/

/-- The texts between newlines that are not rejected as lines. -/
def acceptedPieces (content : String) : List (List Char) :=
  (Text.pieces (· == '\n') content.toList).filter fun p => (fault? (String.ofList p)).isNone

/-- A content without the lines that are rejected. -/
def withoutRejected (content : String) : String :=
  String.ofList (['\n'].intercalate (acceptedPieces content))

/-- A function that gives nothing for an empty line sees the accepted pieces of the content. -/
theorem filterMap_pieces_withoutRejected {α : Type} {f : List Char → Option α}
    (hempty : f [] = none) (content : String) :
    (Text.pieces (· == '\n') (withoutRejected content).toList).filterMap f =
      (acceptedPieces content).filterMap f := by
  rw [withoutRejected, String.toList_ofList]
  by_cases hnil : acceptedPieces content = []
  · rw [hnil]
    simp [Text.pieces, hempty]
  · rw [Text.pieces_intercalate rfl hnil fun p hp =>
      Text.not_sep_of_mem_pieces (List.mem_filter.1 hp).1]

/-- **A content without its rejected lines** has the same directives, since a rejected line has
    none. -/
theorem directives_withoutRejected (content : String) :
    directives (withoutRejected content) = directives content := by
  have hnone (line : String) :
      (if (fault? line).isNone then assignment? line else none) = assignment? line := by
    rw [fault?, assignment?]
    cases directive? line <;> rfl
  rw [directives_eq, filterMap_pieces_withoutRejected rfl, directives_eq, acceptedPieces,
    List.filterMap_filter]
  simp only [hnone]

/-- None of its lines is rejected. -/
theorem rejections_withoutRejected (number : Nat) (content : String) :
    rejections number (Text.lines (withoutRejected content)) = [] := by
  have hfaults : (Text.lines (withoutRejected content)).filterMap fault? = [] := by
    rw [Text.filterMap_lines rfl fault?_chopReturn, filterMap_pieces_withoutRejected rfl,
      List.filterMap_eq_nil_iff]
    intro p hp
    simpa using (List.mem_filter.1 hp).2
  rw [List.filterMap_eq_nil_iff] at hfaults
  rw [rejections, List.filterMap_eq_nil_iff]
  rintro ⟨line, place⟩ hline
  exact congrArg (Option.map _) (hfaults line (List.fst_mem_of_mem_zipIdx hline))

/-! ## Line by line -/

/-- The last value that a content gives to an entry. -/
def lastValue (content : String) (e : Entry) : Option e.Value :=
  ((directives content).filterMap (·.value? e)).getLast?

/-- Startup files on top of a theme are read line by line. -/
structure ReadByLines (theme : Theme) : Prop where
  /-- a line that is rejected has no effect -/
  rejected : ∀ (s : Settings) (line : String) (fault : Fault),
    (s.applyLine line).1 = .error fault → (s.applyLine line).2 = s
  /-- which lines are rejected does not depend on the settings -/
  verdict : ∀ (s : Settings) (line : String),
    (s.applyLine line).1 = (fault? line).elim (.ok ()) .error
  /-- any other line does what its directive says, if it has one -/
  effect : ∀ (s : Settings) (line : String),
    (s.applyLine line).2 = s.applyAll (assignment? line).toList
  /-- every rejected line is noted -/
  notes : ∀ content, (read content theme).2 = rejections 1 (Text.lines content)
  /-- rejected lines may be left out -/
  without : ∀ content, read (withoutRejected content) theme = ((read content theme).1, [])
  /-- a content under another one is applied to what that one says -/
  appended : ∀ (above below : String) (number : Nat),
    (read (above ++ "\n" ++ below) theme).1 =
      (applyLines number (read above theme).1 (Text.lines below)).1
  /-- its last assignments to entries replace the values that these have, and leave the others -/
  replaced : ∀ (above below : String) (e : Entry),
    (read (above ++ "\n" ++ below) theme).1.get e =
      (lastValue below e).getD ((read above theme).1.get e)

/-- **Startup files are read line by line**: rejected lines have no effect, and later lines replace
    what earlier ones say about the same entry. -/
theorem read_byLines (theme : Theme) : ReadByLines theme where
  rejected s line fault hrejected := by
    rw [applyLine_eq] at hrejected ⊢
    rcases hread : directive? line with fault' | (_ | d) <;> rw [hread] at hrejected
    · rfl
    · cases hrejected
    · cases hrejected
  verdict s line := by
    rw [applyLine_eq, fault?]
    rcases directive? line with fault | (_ | d) <;> rfl
  effect s line := by
    rw [applyLine_eq, assignment?]
    rcases directive? line with fault | (_ | d) <;> rfl
  notes content := by rw [read_eq]
  without content := by
    rw [read_eq, read_eq, directives_withoutRejected, rejections_withoutRejected]
  appended above below number := by
    rw [read_eq, read_eq, directives_append, applyAll_append, applyLines_eq, directives, directives]
  replaced above below e := by
    rw [read_eq, read_eq, directives_append, applyAll_append, get_applyAll, lastValue]

end NestedShell.Settings
