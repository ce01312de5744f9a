/-
  The grammar of usage lines, and what the reader of tokens accepts.

  ```
  alternatives = sequence ("|" sequence)*      item = atom ["..."]
  sequence     = item*                         atom = "[" alternatives "]"
                                                    | "(" alternatives ")" | word
  ```

  * `Derives` says which tokens a category of the grammar derives, and the pattern that they make;
  * `Derives.accepted`: the reader gets through derived tokens wherever they stand, and keeps
    their pattern;
  * `Frame.Reads`, `OuterReads` say what the frames of the reader hold: the tokens read so far;
  * `parseTokens_eq_ok_iff`: tokens are read into a pattern iff they are derived with it.
-/
import Mathlib.Tactic.Common
import NestedShell.Usage.Line

namespace NestedShell.Usage

/-! ## The grammar -/

/-- The categories of the grammar of usage lines. -/
inductive Category where
  | atom | item | sequence | alternatives
deriving DecidableEq, Repr

/-- The tokens that a category derives, with the pattern that they make. -/
inductive Derives : Category → List Token → Pattern → Prop
  | word (w : String) : Derives .atom [.word w] (elementOfWord w)
  | bracket (b : Bracket) {ts : List Token} {p : Pattern} (inner : Derives .alternatives ts p) :
      Derives .atom (.opening b :: (ts ++ [.closing b])) (b.wrap p)
  | once {ts : List Token} {p : Pattern} (h : Derives .atom ts p) : Derives .item ts p
  | repeated {ts : List Token} {p : Pattern} (h : Derives .atom ts p) :
      Derives .item (ts ++ [.dots]) (.oneOrMore p)
  | empty : Derives .sequence [] .empty
  | cons {ts us : List Token} {p q : Pattern} (first : Derives .item ts p)
      (rest : Derives .sequence us q) : Derives .sequence (ts ++ us) (.seq p q)
  | branch {ts : List Token} {p : Pattern} (h : Derives .sequence ts p) :
      Derives .alternatives ts p
  | bar {ts us : List Token} {p q : Pattern} (first : Derives .sequence ts p)
      (rest : Derives .alternatives us q) : Derives .alternatives (ts ++ .bar :: us) (.alt p q)

namespace Pattern

/-- A list of alternatives that goes on starts with its first one. -/
theorem altAll_cons (p : Pattern) {ps : List Pattern} (h : ps ≠ []) :
    altAll (p :: ps) = alt p (altAll ps) := by
  cases ps with
  | nil => exact absurd rfl h
  | cons q qs => rfl

/-- The last alternative may be one that stands for two. -/
theorem altAll_append_alt (ps : List Pattern) (p q : Pattern) :
    altAll (ps ++ [p, q]) = altAll (ps ++ [alt p q]) := by
  induction ps with
  | nil => rfl
  | cons r ps ih =>
    rw [List.cons_append, List.cons_append, altAll_cons r (by simp), altAll_cons r (by simp), ih]

end Pattern

/-! ## Derived tokens are read -/

/-- What the reader has made of derived tokens: a frame that was `f` in front of them is `f'`
    after them. -/
def Derives.Kept (f f' : Frame) (p : Pattern) : Category → Prop
  | .atom => f' = f.add p
  | .item => f'.branches = f.branches ∧ f'.items = p :: f.items
  | .sequence => ∃ ps, p = .seqAll ps ∧ f'.branches = f.branches ∧ f'.items = ps.reverse ++ f.items
  | .alternatives => f.items = [] →
      ∃ ps, ps ≠ [] ∧ p = .altAll ps ∧ f'.pattern = .altAll (f.branches.reverse ++ ps)

/-- **Derived tokens are read**, wherever they stand: the reader gets behind them, and the frame
    that it is in has kept their pattern. -/
theorem Derives.accepted {c : Category} {ts : List Token} {p : Pattern} (h : Derives c ts p)
    (f : Frame) (outer : List (Bracket × Frame)) (rest : List Token) :
    ∃ f', Kept f f' p c ∧ parseTokens f outer (ts ++ rest) = parseTokens f' outer rest := by
  induction h generalizing f outer rest with
  | word w => exact ⟨f.add (elementOfWord w), rfl, by simp [parseTokens]⟩
  | @bracket b ts p _ ih =>
    obtain ⟨inside, hkept, hread⟩ := ih {} ((b, f) :: outer) (.closing b :: rest)
    obtain ⟨ps, -, hp, hpattern⟩ := hkept rfl
    refine ⟨f.add (b.wrap p), rfl, ?_⟩
    have hinside : inside.pattern = p := by rw [hpattern, hp]; rfl
    calc parseTokens f outer (.opening b :: (ts ++ [.closing b]) ++ rest)
        = parseTokens {} ((b, f) :: outer) (ts ++ .closing b :: rest) := by simp [parseTokens]
      _ = parseTokens inside ((b, f) :: outer) (.closing b :: rest) := hread
      _ = parseTokens (f.add (b.wrap p)) outer rest := by simp [parseTokens, hinside]
  | @once ts p _ ih =>
    obtain ⟨f', rfl, hread⟩ := ih f outer rest
    exact ⟨f.add p, ⟨rfl, rfl⟩, hread⟩
  | @repeated ts p _ ih =>
    obtain ⟨f', rfl, hread⟩ := ih f outer (.dots :: rest)
    refine ⟨{ f with items := .oneOrMore p :: f.items, repeatable := false }, ⟨rfl, rfl⟩, ?_⟩
    rw [List.append_assoc, List.singleton_append, hread]
    simp [parseTokens, Frame.add, Frame.repeatLast?]
  | empty => exact ⟨f, ⟨[], rfl, rfl, rfl⟩, rfl⟩
  | @cons ts us p q _ _ ihfirst ihrest =>
    obtain ⟨g, ⟨hbranches, hitems⟩, hfirst⟩ := ihfirst f outer (us ++ rest)
    obtain ⟨f', ⟨ps, hq, hbranches', hitems'⟩, hrest⟩ := ihrest g outer rest
    refine ⟨f', ⟨p :: ps, by rw [hq]; rfl, hbranches'.trans hbranches, ?_⟩, ?_⟩
    · rw [hitems', hitems, List.reverse_cons, List.append_assoc, List.singleton_append]
    · rw [List.append_assoc, hfirst, hrest]
  | @branch ts p _ ih =>
    obtain ⟨f', ⟨ps, hp, hbranches, hitems⟩, hread⟩ := ih f outer rest
    refine ⟨f', fun hnone => ⟨[p], by simp, rfl, ?_⟩, hread⟩
    rw [Frame.pattern, Frame.sequence, hbranches, hitems, hnone, List.append_nil,
      List.reverse_reverse, hp]
  | @bar ts us p q _ _ ihfirst ihrest =>
    obtain ⟨g, ⟨ps, hp, hbranches, hitems⟩, hfirst⟩ := ihfirst f outer (.bar :: (us ++ rest))
    obtain ⟨f', hkept, hrest⟩ := ihrest g.branch outer rest
    refine ⟨f', fun hnone => ?_, ?_⟩
    · obtain ⟨qs, hne, hq, hpattern⟩ := hkept rfl
      have hsequence : g.sequence = p := by
        rw [Frame.sequence, hitems, hnone, List.append_nil, List.reverse_reverse, hp]
      refine ⟨p :: qs, by simp, by rw [hq, Pattern.altAll_cons p hne], ?_⟩
      rw [hpattern, Frame.branch, hsequence, hbranches, List.reverse_cons, List.append_assoc,
        List.singleton_append]
    · rw [List.append_assoc, List.cons_append, hfirst, ← hrest]
      simp [parseTokens]

/-! ## What has been read is derived -/

/-- The tokens of the elements after the last `|`, the latest one first; the flag tells whether
    the last token was an element. -/
inductive ItemsRead : Bool → List Token → List Pattern → Prop
  | nil : ItemsRead false [] []
  | element {r : Bool} {ts us : List Token} {ps : List Pattern} {p : Pattern}
      (before : ItemsRead r ts ps) (h : Derives .atom us p) : ItemsRead true (ts ++ us) (p :: ps)
  | repeated {r : Bool} {ts us : List Token} {ps : List Pattern} {p : Pattern}
      (before : ItemsRead r ts ps) (h : Derives .atom us p) :
      ItemsRead false (ts ++ us ++ [.dots]) (.oneOrMore p :: ps)

/-- The tokens of the alternatives before the last `|`, the latest one first. -/
inductive BranchesRead : List Token → List Pattern → Prop
  | nil : BranchesRead [] []
  | snoc {ts us : List Token} {bs : List Pattern} {p : Pattern} (before : BranchesRead ts bs)
      (h : Derives .sequence us p) : BranchesRead (ts ++ us ++ [.bar]) (p :: bs)

/-- The elements read, in front of a sequence, make a sequence. -/
theorem ItemsRead.derives {r : Bool} {ts : List Token} {ps : List Pattern}
    (h : ItemsRead r ts ps) {us : List Token} {q : Pattern} (hrest : Derives .sequence us q) :
    Derives .sequence (ts ++ us) (ps.reverse.foldr .seq q) := by
  induction h generalizing us q with
  | nil => exact hrest
  | element _ h ih =>
    rw [List.reverse_cons, List.foldr_append, List.append_assoc]
    exact ih (.cons (.once h) hrest)
  | repeated _ h ih =>
    rw [List.reverse_cons, List.foldr_append, List.append_assoc, List.append_assoc,
      ← List.append_assoc _ [Token.dots]]
    exact ih (.cons (.repeated h) hrest)

theorem ItemsRead.sequence {r : Bool} {ts : List Token} {ps : List Pattern}
    (h : ItemsRead r ts ps) : Derives .sequence ts (.seqAll ps.reverse) := by
  have hall := h.derives .empty
  rwa [List.append_nil] at hall

/-- The alternatives read, in front of some more, make alternatives. -/
theorem BranchesRead.derives {ts : List Token} {bs : List Pattern} (h : BranchesRead ts bs)
    {us : List Token} {q : Pattern} (hrest : Derives .alternatives us q) :
    Derives .alternatives (ts ++ us) (.altAll (bs.reverse ++ [q])) := by
  induction h generalizing us q with
  | nil => exact hrest
  | @snoc ts vs bs p _ h ih =>
    have hbranches : (p :: bs).reverse ++ [q] = bs.reverse ++ [p, q] := by simp
    rw [hbranches, Pattern.altAll_append_alt, List.append_assoc, List.append_assoc,
      List.singleton_append]
    exact ih (.bar h hrest)

/-- A frame holds what certain tokens say. -/
def Frame.Reads (f : Frame) (ts : List Token) : Prop :=
  ∃ before after, ts = before ++ after ∧ BranchesRead before f.branches ∧
    ItemsRead f.repeatable after f.items

namespace Frame.Reads
variable {f : Frame} {ts : List Token}

theorem fresh : Frame.Reads {} [] := ⟨[], [], rfl, .nil, .nil⟩

theorem derives (h : f.Reads ts) : Derives .alternatives ts f.pattern := by
  obtain ⟨before, after, rfl, hbefore, hafter⟩ := h
  exact hbefore.derives (.branch hafter.sequence)

theorem add (h : f.Reads ts) {us : List Token} {p : Pattern} (hp : Derives .atom us p) :
    (f.add p).Reads (ts ++ us) := by
  obtain ⟨before, after, rfl, hbefore, hafter⟩ := h
  exact ⟨before, after ++ us, by simp, hbefore, hafter.element hp⟩

theorem branch (h : f.Reads ts) : f.branch.Reads (ts ++ [.bar]) := by
  obtain ⟨before, after, rfl, hbefore, hafter⟩ := h
  exact ⟨before ++ after ++ [.bar], [], by simp, hbefore.snoc hafter.sequence, .nil⟩

theorem repeatLast {f' : Frame} (h : f.Reads ts) (hf : f.repeatLast? = some f') :
    f'.Reads (ts ++ [.dots]) := by
  obtain ⟨before, after, rfl, hbefore, hafter⟩ := h
  rcases f with ⟨bs, ps, r⟩
  cases hafter with
  | nil => exact absurd hf (by simp [Frame.repeatLast?])
  | @element r ts us qs p hitems hp =>
    obtain rfl : { branches := bs, items := .oneOrMore p :: qs, repeatable := false } = f' := by
      simpa [Frame.repeatLast?] using hf
    exact ⟨before, ts ++ us ++ [.dots], by simp, hbefore, hitems.repeated hp⟩
  | repeated => exact absurd hf (by simp [Frame.repeatLast?])

end Frame.Reads

/-- The frames around the current one hold what the tokens in front of it say. -/
inductive OuterReads : List (Bracket × Frame) → List Token → Prop
  | nil : OuterReads [] []
  | cons {b : Bracket} {g : Frame} {outer : List (Bracket × Frame)} {ts us : List Token}
      (around : OuterReads outer ts) (h : g.Reads us) :
      OuterReads ((b, g) :: outer) (ts ++ us ++ [.opening b])

/-- What is read to the end is derived, together with what was read before. -/
theorem OuterReads.derives {f : Frame} {outer : List (Bracket × Frame)} {ts : List Token}
    {p : Pattern} {before inside : List Token} (houter : OuterReads outer before)
    (hf : f.Reads inside) (h : parseTokens f outer ts = .ok p) :
    Derives .alternatives (before ++ inside ++ ts) p := by
  -- one case for every token; the frames of the step hold one token more
  induction ts generalizing f outer before inside with
  | nil =>
    cases houter with
    | nil =>
      obtain rfl : f.pattern = p := by simpa [parseTokens] using h
      simpa using hf.derives
    | cons => simp [parseTokens] at h
  | cons t ts ih =>
    cases t with
    | opening b =>
      have := ih (houter.cons (b := b) hf) Frame.Reads.fresh (by simpa [parseTokens] using h)
      simpa using this
    | closing b' =>
      cases houter with
      | nil => simp [parseTokens] at h
      | @cons b g outer vs us houter hg =>
        simp only [parseTokens] at h
        split at h
        · rename_i heq
          subst heq
          have := ih houter (hg.add (.bracket b' hf.derives)) h
          simpa using this
        · simp at h
    | bar =>
      have := ih houter hf.branch (by simpa [parseTokens] using h)
      simpa using this
    | dots =>
      simp only [parseTokens] at h
      split at h
      · rename_i f' hf'
        have := ih houter (hf.repeatLast hf') h
        simpa using this
      · simp at h
    | word w =>
      have := ih houter (hf.add (.word w)) (by simpa [parseTokens] using h)
      simpa using this

/-- **The language of usage lines.**  Tokens are read into a pattern iff they are derived from
    the grammar with that pattern. -/
theorem parseTokens_eq_ok_iff (ts : List Token) (p : Pattern) :
    parseTokens {} [] ts = .ok p ↔ Derives .alternatives ts p := by
  constructor
  · intro h
    have := OuterReads.nil.derives Frame.Reads.fresh h
    simpa using this
  · intro h
    obtain ⟨f, hkept, hread⟩ := h.accepted {} [] []
    obtain ⟨ps, -, rfl, hpattern⟩ := hkept rfl
    rw [List.append_nil] at hread
    rw [hread, parseTokens, hpattern]
    rfl

/-- Tokens are derived with one pattern at most. -/
theorem Derives.unique {ts : List Token} {p q : Pattern} (hp : Derives .alternatives ts p)
    (hq : Derives .alternatives ts q) : p = q := by
  rw [← parseTokens_eq_ok_iff] at hp hq
  exact Except.ok.inj (hp.symm.trans hq)

/-- An empty alternative is derived, and a repetition mark alone is not. -/
example : parseTokens {} [] [.opening .round, .bar, .closing .round] =
    .ok (.seq (.group (.alt .empty .empty)) .empty) ∧
    parseTokens {} [] [.word "a", .dots, .dots] = .error .strayRepetition := by decide

end NestedShell.Usage
