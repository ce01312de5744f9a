/-
  Words in order.

  The keys of a table are in order and each of them once; so are the words that are sorted through
  one, and those of them that start with a text.

  * `Ordered`: words in strictly ascending order; `ordered_keys`: the keys of a table are;
  * `WordList.mem_sortedOnce`, `WordList.ordered_sortedOnce`: sorted words are the same words, in
    order;
  * `WordList.candidates_empty`: all words are candidates when nothing is typed.
-/
import NestedShell.Completion.WordList

namespace NestedShell

/-- Words in strictly ascending order, so that none is there twice. -/
def Ordered (words : List String) : Prop := words.Pairwise (· < ·)

theorem Ordered.filter {words : List String} (h : Ordered words) (p : String → Bool) :
    Ordered (words.filter p) :=
  List.Pairwise.filter p h

theorem ordered_keys {β : Type} (t : Std.TreeMap String β) : Ordered t.keys :=
  t.ordered_keys.imp compareOfLessAndEq_eq_lt.1

namespace WordList

/-- **Sorted words** are in order. -/
theorem ordered_sortedOnce (words : List String) : Ordered (sortedOnce words) := ordered_keys _

theorem mem_foldl_insert {words : List String} {t : Std.TreeMap String Unit} {word : String} :
    word ∈ words.foldl (fun t w => t.insert w ()) t ↔ word ∈ t ∨ word ∈ words := by
  induction words generalizing t with
  | nil => simp
  | cons w words ih =>
    rw [List.foldl_cons, ih, Std.TreeMap.mem_insert, Std.LawfulEqCmp.compare_eq_iff_eq,
      List.mem_cons]
    constructor
    · rintro ((rfl | h) | h)
      · exact .inr (.inl rfl)
      · exact .inl h
      · exact .inr (.inr h)
    · rintro (h | rfl | h)
      · exact .inl (.inr h)
      · exact .inl (.inl rfl)
      · exact .inr h

/-- **Sorted words** are the same words. -/
theorem mem_sortedOnce {words : List String} {word : String} :
    word ∈ sortedOnce words ↔ word ∈ words := by
  rw [sortedOnce, Std.TreeMap.mem_keys, mem_foldl_insert]
  simp

/-- Every word starts with nothing. -/
theorem candidates_empty (l : WordList) : l.candidates "" = l.words :=
  List.filter_eq_self.2 fun _ _ => rfl

end WordList

end NestedShell
