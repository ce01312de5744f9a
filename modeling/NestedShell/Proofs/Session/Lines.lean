/-
  Lines, fed one by one or all at once.

  A session dispatches every statement as soon as it ends, so it does not matter in how many pieces
  its input arrives, as long as they are whole lines.  Only the flag of a joined line is reset
  between two pieces, and nothing depends on it after the last newline.

  * `Session.feedEach` feeds texts one after the other;
  * `Session.Undisturbed`: a text is read without a lexical fault, and no statement gives up;
  * `Session.plain` forgets the flag, `readChars_plain`: sessions that only differ in it read the
    same characters in the same way;
  * `feed_feed`: two texts are fed as one, `feedEach_eq_feed`: and so are any number of lines;
  * `readChars_eq_readStatement`: reading goes from statement to statement, each with the variables
    of the level that is active when it is reached.
-/
import NestedShell.Proofs.Shell.Levels
import NestedShell.Proofs.Session.Acts
import NestedShell.Proofs.Statement.Joined

namespace NestedShell.Session

variable {σ ω : Type} [CommandSet σ ω]

/-- Feeds texts, one after the other; the flow is that of the last one. -/
def feedEach (s : Session σ ω) (first : String) (more : List String) : Flow × Session σ ω :=
  more.foldl (fun r text => r.2.feed text) (s.feed first)

/-- A text is read without a lexical fault, and no statement in it gives up: reading halts only
    when no level is left. -/
def Undisturbed (s : Session σ ω) (text : String) : Prop :=
  ∀ halt, (s.readPiece text).1 = some halt → halt = .ended

/-- The same for texts that are fed one after the other. -/
def UndisturbedEach : Session σ ω → List String → Prop
  | _, [] => True
  | s, text :: texts => s.Undisturbed text ∧ (s.feed text).2.UndisturbedEach texts

/-! ## The flag of a joined line -/

/-- The session without the flag. -/
def plain (s : Session σ ω) : Session σ ω := { s with reader := s.reader.plain }

omit [CommandSet σ ω] in
/-- Sessions that only differ in the flag have different readers only. -/
theorem exists_reader {s s' : Session σ ω} (h : s.plain = s'.plain) :
    ∃ r, s' = { s with reader := r } ∧ s.reader.plain = r.plain := by
  obtain ⟨shell, r, trace, lastStatus⟩ := s
  obtain ⟨shell', r', trace', lastStatus'⟩ := s'
  simp only [plain, mk.injEq] at h
  obtain ⟨rfl, hr, rfl, rfl⟩ := h
  exact ⟨r', rfl, hr⟩

/-- What a statement does does not depend on the reader. -/
theorem perform_withReader (s : Session σ ω) (r : Reader) (argv : Words) :
    ({ s with reader := r } : Session σ ω).perform argv =
      ((s.perform argv).1, { (s.perform argv).2 with reader := r }) := by
  simp only [perform, prepare, rememberStatus]
  cases Option.bind _ _ <;> rfl

/-- Two ways to read some characters, of which this is the last one, that lead to the same. -/
structure SameRead (last : Option Char) (p p' : Option Halt × Session σ ω) : Prop where
  halt : p.1 = p'.1
  plain : p.1 ≠ some .refused → p.2.plain = p'.2.plain
  status : last = some '\n' → p.1 = none → p.2.reader.status = p'.2.reader.status

/-- **Sessions that only differ in the flag** read a character in the same way. -/
theorem readChar_plain {s s' : Session σ ω} (hs : s.reader.Settled) (h : s.plain = s'.plain)
    (text text' : String) (pos pos' : Nat) (c : Char) :
    SameRead (some c) (s.readChar text pos c) (s'.readChar text' pos' c) := by
  obtain ⟨r, rfl, hr⟩ := exists_reader h
  cases htop : s.shell.stack.top? with
  | none =>
    simp only [readChar, htop]
    exact ⟨rfl, fun _ => rfl, fun _ h => by cases h⟩
  | some level =>
    cases Reader.sameStep hs hr level.env.lookup pos pos' c with
    | refused hstep hstep' =>
      simp only [readChar, htop, hstep, hstep']
      exact ⟨rfl, fun h => absurd rfl h, fun _ h => by cases h⟩
    | @read argv t t' hstep hstep' heq hstatus =>
      cases argv with
      | none =>
        simp only [readChar, htop, hstep, hstep']
        refine ⟨rfl, ?_, fun hc _ => hstatus (Option.some.inj hc)⟩
        intro _
        simp only [Session.plain, heq]
      | some argv =>
        simp only [readChar, htop, hstep, hstep', perform_withReader]
        cases (s.perform argv).1.halt? with
        | some halt => exact ⟨rfl, fun _ => rfl, fun _ h => by cases h⟩
        | none =>
          refine ⟨rfl, ?_, fun hc _ => hstatus (Option.some.inj hc)⟩
          intro _
          simp only [Session.plain, heq]

/-- **Sessions that only differ in the flag** read the same characters in the same way, wherever
    these stand. -/
theorem readChars_plain {s s' : Session σ ω} (hs : s.reader.Settled) (h : s.plain = s'.plain)
    (text text' : String) {ps ps' : List (Nat × Char)} (hps : ps.map (·.2) = ps'.map (·.2)) :
    SameRead (ps.map (·.2)).getLast? (readChars text ps s) (readChars text' ps' s') := by
  induction ps generalizing s s' ps' with
  | nil =>
    obtain rfl := List.map_eq_nil_iff.1 hps.symm
    exact ⟨rfl, fun _ => h, fun hlast => by cases hlast⟩
  | cons p ps ih =>
    obtain ⟨pos, c⟩ := p
    obtain ⟨⟨pos', c'⟩, ps', rfl, hc, hrest⟩ := List.map_eq_cons_iff.1 hps.symm
    obtain rfl : c' = c := hc
    have hread := readChar_plain hs h text text' pos pos' c'
    have hsettled := settled_readChar hs text pos c'
    rw [readChars, readChars]
    rcases hp : s.readChar text pos c' with ⟨halt, t⟩
    rcases hp' : s'.readChar text' pos' c' with ⟨halt', t'⟩
    rw [hp, hp'] at hread
    rw [hp] at hsettled
    obtain rfl : halt = halt' := hread.halt
    cases halt with
    | some halt => exact ⟨rfl, hread.plain, fun _ h => by cases h⟩
    | none =>
      have hplain : t.plain = t'.plain := hread.plain (by simp)
      have hsame := ih hsettled hplain hrest.symm
      refine ⟨hsame.halt, hsame.plain, ?_⟩
      intro hlast hnone
      cases ps with
      | nil =>
        obtain rfl := List.map_eq_nil_iff.1 hrest
        exact hread.status hlast rfl
      | cons q ps => exact hsame.status hlast hnone

/-! ## Where reading halts -/

theorem readChars_append (text : String) (ps qs : List (Nat × Char)) (s : Session σ ω) :
    readChars text (ps ++ qs) s =
      match readChars text ps s with
      | (none, t) => readChars text qs t
      | (some halt, t) => (some halt, t) := by
  induction ps generalizing s with
  | nil => rfl
  | cons p ps ih =>
    obtain ⟨pos, c⟩ := p
    rw [List.cons_append, readChars, readChars]
    rcases s.readChar text pos c with ⟨_ | halt, t⟩
    · exact ih t
    · rfl

omit [CommandSet σ ω] in
theorem isFinished_iff (s : Session σ ω) : s.isFinished = true ↔ s.shell.stack.depth = 0 := by
  rw [isFinished, Stack.isEmpty, Stack.depth, List.isEmpty_iff, List.length_eq_zero_iff]

/-- What the number of levels is when a statement ends the session, and when it does not halt it. -/
theorem depth_of_halt? {result : Dispatch} {before after : Nat} (h : result.Counts before after) :
    (result.halt? = some .ended → after = 0) ∧
      (result.halt? = none → 0 < before → 0 < after) := by
  cases result <;> simp [Dispatch.halt?, Dispatch.Counts] at h ⊢ <;> omega

/-- Reading halts because no level is left when there is none, and goes on when there is one. -/
structure TellsEnd (p : Option Halt × Session σ ω) : Prop where
  ended : p.1 = some .ended → p.2.isFinished = true
  goesOn : p.1 = none → p.2.isFinished = false

theorem tellsEnd_readChar {s : Session σ ω} (hs : s.isFinished = false) (text : String) (pos : Nat)
    (c : Char) : TellsEnd (s.readChar text pos c) := by
  have hpos : 0 < s.shell.stack.depth := by
    rw [Nat.pos_iff_ne_zero, ne_eq, ← isFinished_iff, hs]
    exact Bool.false_ne_true
  have hread := s.charRead text pos c
  generalize s.readChar text pos c = p at hread ⊢
  cases hread with
  | nowhere htop => exact ⟨fun _ => List.isEmpty_iff.2 (List.head?_eq_none_iff.1 htop), nofun⟩
  | refused => exact ⟨nofun, nofun⟩
  | unfinished => exact ⟨nofun, fun _ => hs⟩
  | @halted level argv reader halt _ _ hhalt =>
    obtain ⟨hzero, -⟩ := depth_of_halt? ((s.prepare argv).dispatch_counts argv)
    refine ⟨?_, nofun⟩
    intro hended
    rw [isFinished_iff, abandon, perform_shell]
    exact hzero (hhalt.trans hended)
  | @performed level argv reader _ _ hhalt =>
    obtain ⟨-, hmore⟩ := depth_of_halt? ((s.prepare argv).dispatch_counts argv)
    refine ⟨nofun, ?_⟩
    intro _
    rw [← Bool.not_eq_true, isFinished_iff, perform_shell]
    exact Nat.ne_of_gt (hmore hhalt hpos)

theorem tellsEnd_readChars {s : Session σ ω} (hs : s.isFinished = false) (text : String)
    (ps : List (Nat × Char)) : TellsEnd (readChars text ps s) := by
  induction ps generalizing s with
  | nil => exact ⟨nofun, fun _ => hs⟩
  | cons p ps ih =>
    obtain ⟨pos, c⟩ := p
    have htells := tellsEnd_readChar hs text pos c
    rw [readChars]
    rcases hread : s.readChar text pos c with ⟨_ | halt, t⟩
    · rw [hread] at htells
      exact ih (htells.goesOn rfl)
    · rwa [hread] at htells

/-! ## Whole lines -/

open Reader (IsLines BetweenLines)

theorem betweenLines_readChar {s : Session σ ω} (hs : s.reader.Settled)
    (h : s.reader.BetweenLines) (text : String) (pos : Nat) (c : Char) :
    (s.readChar text pos c).2.reader.BetweenLines :=
  readChar_keeps (P := BetweenLines) ⟨rfl, rfl⟩ (fun vars => h.step hs vars pos c) text

/-- Reading leaves the reader settled and between two lines. -/
theorem betweenLines_readChars {s : Session σ ω} (hs : s.reader.Settled)
    (h : s.reader.BetweenLines) (text : String) (ps : List (Nat × Char)) :
    (readChars text ps s).2.reader.Settled ∧ (readChars text ps s).2.reader.BetweenLines := by
  induction ps generalizing s with
  | nil => exact ⟨hs, h⟩
  | cons p ps ih =>
    obtain ⟨pos, c⟩ := p
    have hsettled := settled_readChar hs text pos c
    have hbetween := betweenLines_readChar hs h text pos c
    rw [readChars]
    generalize s.readChar text pos c = p at hsettled hbetween ⊢
    rcases p with ⟨_ | halt, t⟩
    · exact ih hsettled hbetween
    · exact ⟨hsettled, hbetween⟩

omit [CommandSet σ ω] in
theorem queue_plain {s s' : Session σ ω} (h : s.plain = s'.plain) {text : String}
    (hne : text ≠ "") : s.queue text = s'.queue text := by
  obtain ⟨r, rfl, hr⟩ := exists_reader h
  simp only [queue, Reader.push_plain hr hne]

omit [CommandSet σ ω] in
/-- Queuing lines after other lines. -/
theorem queue_append (s : Session σ ω) {u v : String} (hu : IsLines u) (hv : IsLines v) :
    ∃ ps, ps.map (·.2) = v.toList ∧ s.queue (u ++ v) = ((s.queue u).1 ++ ps, (s.queue u).2) := by
  refine ⟨Text.offsets (Text.byteLength u.toList) v.toList, Reader.map_snd_offsets _ _, ?_⟩
  have hended : Text.endsWith '\n' (u ++ v) = (s.reader.push u).endedLine := by
    rw [Reader.push, if_neg hu.ne_empty]
    exact (hv.append : IsLines (u ++ v)).trans hu.symm
  simp only [queue, Reader.push_append _ hu.ne_empty, hended]

omit [CommandSet σ ω] in
/-- Queuing lines between two lines. -/
theorem queue_betweenLines {s : Session σ ω} (h : s.reader.BetweenLines) {v : String}
    (hv : IsLines v) :
    (s.queue v).1.map (·.2) = v.toList ∧ (s.queue v).2.plain = s.plain := by
  simp only [queue, h.push hv.ne_empty]
  refine ⟨Reader.map_snd_offsets _ _, ?_⟩
  have hended : Text.endsWith '\n' v = s.reader.endedLine :=
    (hv : Text.endsWith '\n' v = true).trans h.endedLine.symm
  simp only [Session.plain, Reader.plain, hended, ← h.pending]
  rfl

omit [CommandSet σ ω] in
theorem settled_queue {s : Session σ ω} (h : s.reader.Settled) (text : String) :
    (s.queue text).2.reader.Settled :=
  h.push text

omit [CommandSet σ ω] in
theorem betweenLines_queue (s : Session σ ω) {u : String} (hu : IsLines u) :
    (s.queue u).2.reader.BetweenLines := by
  refine ⟨rfl, ?_⟩
  simp only [queue, Reader.push, if_neg hu.ne_empty]
  exact hu

/-- **A text is read in two pieces as in one**: either the first piece halts it, or the second one
    is read from where the first one leaves off. -/
theorem readPiece_append {s : Session σ ω} (hs : s.reader.Settled) {u v : String} (hu : IsLines u)
    (hv : IsLines v) :
    ((s.readPiece u).1 ≠ none ∧
        SameRead (some '\n') (s.readPiece u) (s.readPiece (u ++ v))) ∨
      ((s.readPiece u).1 = none ∧
        SameRead (some '\n') ((s.readPiece u).2.readPiece v) (s.readPiece (u ++ v))) := by
  obtain ⟨ps, hps, hqueue⟩ := s.queue_append hu hv
  have hsettled := settled_queue hs u
  have hbetween := s.betweenLines_queue hu
  rw [readPiece, readPiece, hqueue]
  generalize s.queue u = q at hsettled hbetween ⊢
  obtain ⟨pending, q⟩ := q
  have hfirst := readChars_plain hsettled rfl u (u ++ v) (rfl : pending.map (·.2) = _)
  have hread := betweenLines_readChars hsettled hbetween u pending
  simp only [readChars_append]
  rcases h₁ : readChars u pending q with ⟨halt₁, t₁⟩
  rcases h₂ : readChars (u ++ v) pending q with ⟨halt₂, t₂⟩
  rw [h₁, h₂] at hfirst
  rw [h₁] at hread
  obtain rfl : halt₁ = halt₂ := hfirst.halt
  cases halt₁ with
  | some halt => exact .inl ⟨Option.some_ne_none halt, hfirst.halt, hfirst.plain, fun _ => nofun⟩
  | none =>
    obtain ⟨hchars, hplain⟩ := queue_betweenLines hread.2 hv
    have hrest := readChars_plain (settled_queue hread.1 v)
      (hplain.trans (hfirst.plain nofun)) v (u ++ v) (hchars.trans hps.symm)
    rw [hchars, hv.getLast?_eq] at hrest
    exact .inr ⟨rfl, hrest⟩

/-! ## Feeding -/

/-- Two ways to feed a session that lead to the same. -/
structure SameFeed (p p' : Flow × Session σ ω) : Prop where
  flow : p.1 = p'.1
  plain : p.2.plain = p'.2.plain

omit [CommandSet σ ω] in
theorem isFinished_plain {s s' : Session σ ω} (h : s.plain = s'.plain) :
    s.isFinished = s'.isFinished :=
  (congrArg isFinished h :)

theorem feed_of_isFinished {s : Session σ ω} (h : s.isFinished = true) (text : String) :
    s.feed text = (.ended, s) := by
  rw [feed, if_pos h]

theorem feed_of_not_isFinished {s : Session σ ω} (h : s.isFinished = false) (text : String) :
    s.feed text = ((s.readPiece text).2.flowAfter (s.readPiece text).1, (s.readPiece text).2) := by
  rw [feed, h]
  rfl

theorem feed_plain {s s' : Session σ ω} (h : s.plain = s'.plain) {text : String}
    (hne : text ≠ "") : SameFeed (s.feed text) (s'.feed text) := by
  have hboth := isFinished_plain h
  cases hfinished : s.isFinished with
  | true =>
    rw [feed_of_isFinished hfinished, feed_of_isFinished (hboth.symm.trans hfinished)]
    exact ⟨rfl, h⟩
  | false =>
    rw [feed_of_not_isFinished hfinished, feed_of_not_isFinished (hboth.symm.trans hfinished),
      readPiece, readPiece, queue_plain h hne]
    exact ⟨rfl, rfl⟩

theorem tellsEnd_readPiece {s : Session σ ω} (h : s.isFinished = false) (text : String) :
    TellsEnd (s.readPiece text) :=
  tellsEnd_readChars (s := (s.queue text).2) h text _

omit [CommandSet σ ω] in
theorem SameRead.flow {p p' : Option Halt × Session σ ω} (h : SameRead (some '\n') p p') :
    p.2.flowAfter p.1 = p'.2.flowAfter p'.1 := by
  rw [← h.halt]
  cases hhalt : p.1 with
  | some halt => rfl
  | none => rw [flowAfter, flowAfter, h.status rfl hhalt]

/-- A session without levels is not disturbed by anything. -/
theorem undisturbed_of_isFinished {s : Session σ ω} (h : s.isFinished = true) (text : String) :
    s.Undisturbed text := by
  intro halt hhalt
  have htop : (s.queue text).2.shell.stack.top? = none := by
    rw [Stack.top?, List.head?_eq_none_iff]
    exact List.isEmpty_iff.1 h
  rw [readPiece] at hhalt
  rcases hq : s.queue text with ⟨_ | ⟨⟨pos, c⟩, ps⟩, q⟩
  · rw [hq] at hhalt
    cases hhalt
  · rw [hq] at hhalt htop
    simp only [readChars, readChar, htop, Option.some.injEq] at hhalt
    exact hhalt.symm

theorem undisturbed_append {s : Session σ ω} (hs : s.reader.Settled) {u v : String}
    (hu : IsLines u) (hv : IsLines v) :
    s.Undisturbed (u ++ v) ↔ s.Undisturbed u ∧ (s.feed u).2.Undisturbed v := by
  cases hfinished : s.isFinished with
  | true =>
    rw [feed_of_isFinished hfinished]
    have hall := undisturbed_of_isFinished hfinished
    exact iff_of_true (hall _) ⟨hall _, hall _⟩
  | false =>
    rw [feed_of_not_isFinished hfinished]
    rcases readPiece_append hs hu hv with ⟨hhalts, hsame⟩ | ⟨hnone, hsame⟩
    · constructor
      · intro h
        have hfirst : s.Undisturbed u := fun halt hhalt => h halt (hsame.halt.symm.trans hhalt)
        obtain ⟨halt, hhalt⟩ := Option.ne_none_iff_exists'.1 hhalts
        have hended := (tellsEnd_readPiece hfinished u).ended (hfirst halt hhalt ▸ hhalt)
        exact ⟨hfirst, undisturbed_of_isFinished hended v⟩
      · rintro ⟨hfirst, -⟩ halt hhalt
        exact hfirst halt (hsame.halt.trans hhalt)
    · constructor
      · intro h
        refine ⟨?_, fun halt hhalt => h halt (hsame.halt.symm.trans hhalt)⟩
        intro halt hhalt
        rw [hnone] at hhalt
        cases hhalt
      · rintro ⟨-, hsecond⟩ halt hhalt
        exact hsecond halt (hsame.halt.trans hhalt)

/-- **Two texts are fed as one.** -/
theorem feed_feed {s : Session σ ω} (hs : s.reader.Settled) {u v : String} (hu : IsLines u)
    (hv : IsLines v) (h : s.Undisturbed (u ++ v)) :
    SameFeed ((s.feed u).2.feed v) (s.feed (u ++ v)) := by
  cases hfinished : s.isFinished with
  | true =>
    rw [feed_of_isFinished hfinished, feed_of_isFinished hfinished, feed_of_isFinished hfinished]
    exact ⟨rfl, rfl⟩
  | false =>
    have htells := tellsEnd_readPiece hfinished u
    rw [feed_of_not_isFinished hfinished, feed_of_not_isFinished hfinished]
    rcases readPiece_append hs hu hv with ⟨hhalts, hsame⟩ | ⟨hnone, hsame⟩
    · obtain ⟨halt, hhalt⟩ := Option.ne_none_iff_exists'.1 hhalts
      obtain rfl := h halt (hsame.halt.symm.trans hhalt)
      rw [feed_of_isFinished (htells.ended hhalt)]
      refine ⟨?_, hsame.plain ?_⟩
      · rw [← hsame.flow, hhalt]
        rfl
      · rw [hhalt]
        nofun
    · rw [feed_of_not_isFinished (htells.goesOn hnone)]
      refine ⟨hsame.flow, hsame.plain ?_⟩
      intro hrefused
      cases h _ (hsame.halt.symm.trans hrefused)

/-! ## Any number of lines -/

theorem undisturbed_plain {s s' : Session σ ω} (h : s.plain = s'.plain) {text : String}
    (hne : text ≠ "") : s.Undisturbed text ↔ s'.Undisturbed text := by
  rw [Undisturbed, Undisturbed, readPiece, readPiece, queue_plain h hne]

theorem undisturbedEach_plain {s s' : Session σ ω} (h : s.plain = s'.plain) {texts : List String}
    (htexts : ∀ text ∈ texts, text ≠ "") :
    s.UndisturbedEach texts ↔ s'.UndisturbedEach texts := by
  induction texts generalizing s s' with
  | nil => exact Iff.rfl
  | cons text texts ih =>
    obtain ⟨hne, hrest⟩ := List.forall_mem_cons.1 htexts
    exact and_congr (undisturbed_plain h hne) (ih (feed_plain h hne).plain hrest)

/-- Feeding on from sessions that only differ in the flag. -/
theorem SameFeed.more {p p' : Flow × Session σ ω} (h : SameFeed p p') {texts : List String}
    (htexts : ∀ text ∈ texts, text ≠ "") :
    SameFeed (texts.foldl (fun r text => r.2.feed text) p)
      (texts.foldl (fun r text => r.2.feed text) p') := by
  induction texts generalizing p p' with
  | nil => exact h
  | cons text texts ih =>
    obtain ⟨hne, hrest⟩ := List.forall_mem_cons.1 htexts
    exact ih (feed_plain h.plain hne) hrest

theorem join_cons_cons (u v : String) (texts : List String) :
    String.join (u :: v :: texts) = String.join ((u ++ v) :: texts) := by
  simp [String.join]

theorem join_singleton (u : String) : String.join [u] = u := by
  simp [String.join]

/-- Lines are undisturbed one by one when they are undisturbed all at once. -/
theorem undisturbed_join {s : Session σ ω} (hs : s.reader.Settled) {first : String}
    {more : List String} (hfirst : IsLines first) (hmore : ∀ text ∈ more, IsLines text) :
    s.UndisturbedEach (first :: more) ↔ s.Undisturbed (String.join (first :: more)) := by
  induction more generalizing first with
  | nil =>
    rw [join_singleton]
    exact and_iff_left trivial
  | cons v more ih =>
    obtain ⟨hv, hmore⟩ := List.forall_mem_cons.1 hmore
    rw [join_cons_cons, ← ih hv.append hmore, UndisturbedEach, UndisturbedEach, UndisturbedEach,
      undisturbed_append hs hfirst hv, and_assoc]
    refine and_congr_right ?_
    intro hu
    refine and_congr_right ?_
    intro hrest
    have huv := (undisturbed_append hs hfirst hv).2 ⟨hu, hrest⟩
    exact undisturbedEach_plain (feed_feed hs hfirst hv huv).plain
      fun text htext => (hmore text htext).ne_empty

theorem feedEach_join {s : Session σ ω} (hs : s.reader.Settled) {first : String}
    {more : List String} (hfirst : IsLines first) (hmore : ∀ text ∈ more, IsLines text)
    (h : s.Undisturbed (String.join (first :: more))) :
    SameFeed (s.feedEach first more) (s.feed (String.join (first :: more))) := by
  induction more generalizing first with
  | nil =>
    rw [join_singleton]
    exact ⟨rfl, rfl⟩
  | cons v more ih =>
    obtain ⟨hv, hmore⟩ := List.forall_mem_cons.1 hmore
    rw [join_cons_cons] at h ⊢
    have huv : s.Undisturbed (first ++ v) := ((undisturbed_join hs hv.append hmore).2 h).1
    have hmerged := (feed_feed hs hfirst hv huv).more fun text htext => (hmore text htext).ne_empty
    have hrest := ih hv.append hmore h
    exact ⟨hmerged.flow.trans hrest.flow, hmerged.plain.trans hrest.plain⟩

/-! ## Statement by statement -/

theorem pending_step (r : Reader) (h : r.pending = []) (vars : Lookup) (pos : Nat) (c : Char) :
    (r.step vars pos c).2.pending = [] := by
  rw [Reader.step]
  split
  · exact h
  · rfl

/-- Reads up to the end of a statement with the variables of a level, dispatches the statement, and
    reads on. -/
def readStatement (level : Level σ) (text : String) (ps : List (Nat × Char)) (s : Session σ ω) :
    Option Halt × Session σ ω :=
  match Reader.nextOf level.env.lookup ps s.reader with
  | (.error fault, reader) => (some .refused, { s with reader }.refuseInput text fault)
  | (.ok none, reader) => (none, { s with reader })
  | (.ok (some argv), reader) =>
    let (result, t) := { s with reader := { reader with pending := [] } }.perform argv
    match result.halt? with
    | some halt => (some halt, t.abandon)
    | none => readChars text reader.pending t

/-- **Every statement** is read with the variables of the level that is active when it is reached,
    and dispatched before the next one is read. -/
theorem readChars_eq_readStatement {s : Session σ ω} {level : Level σ}
    (htop : s.shell.stack.top? = some level) (hpending : s.reader.pending = []) (text : String)
    (ps : List (Nat × Char)) : readChars text ps s = s.readStatement level text ps := by
  rw [readStatement]
  induction ps generalizing s with
  | nil =>
    rw [readChars, Reader.nextOf, ← hpending]
  | cons p ps ih =>
    obtain ⟨pos, c⟩ := p
    have hstill := pending_step s.reader hpending level.env.lookup pos c
    rw [readChars, Reader.nextOf]
    rcases hstep : s.reader.step level.env.lookup pos c with ⟨fault | _ | argv, reader⟩
    · simp only [readChar, htop, hstep]
    · rw [hstep] at hstill
      simp only [readChar, htop, hstep]
      exact ih htop hstill
    · rw [hstep] at hstill
      obtain ⟨run, pending, endedLine⟩ := reader
      obtain rfl : pending = [] := hstill
      simp only [readChar, htop, hstep]
      cases (({ s with reader := ⟨run, [], endedLine⟩ } : Session σ ω).perform argv).1.halt? <;> rfl

/-! ## Lines -/

/-- **Lines are fed one by one as they are all at once**, as long as there is no lexical fault and
    no statement gives up: the levels, the console and all else in the shell are the same
    afterwards.  In particular, every statement is read with the variables of the level that is
    active when it is reached. -/
theorem feedEach_eq_feed {s : Session σ ω} (hs : s.Reached) (first : String) (more : List String)
    (h : s.UndisturbedEach ((first :: more).map (·.push '\n')) ∨
      s.Undisturbed (String.join ((first :: more).map (·.push '\n')))) :
    let each := s.feedEach (first.push '\n') (more.map (·.push '\n'))
    let once := s.feed (String.join ((first :: more).map (·.push '\n')))
    each.1 = once.1 ∧ each.2.shell = once.2.shell ∧ each.2.exitStatus = once.2.exitStatus ∧
      each.2.isFinished = once.2.isFinished ∧
      ∀ (t : Session σ ω) (level : Level σ) (text : String) (ps : List (Nat × Char)),
        t.shell.stack.top? = some level → t.reader.pending = [] →
          readChars text ps t = t.readStatement level text ps := by
  intro each once
  have hmore : ∀ text ∈ more.map (·.push '\n'), IsLines text := by
    intro text htext
    obtain ⟨line, -, rfl⟩ := List.mem_map.1 htext
    exact Reader.isLines_push line
  have hfirst := Reader.isLines_push first
  have hundisturbed := h.elim (undisturbed_join hs.settled hfirst hmore).1 id
  have hsame : SameFeed each once := feedEach_join hs.settled hfirst hmore hundisturbed
  have hshell : each.2.shell = once.2.shell := (congrArg shell hsame.plain :)
  have hstatus : each.2.exitStatus = once.2.exitStatus := (congrArg exitStatus hsame.plain :)
  exact ⟨hsame.flow, hshell, hstatus, isFinished_plain hsame.plain,
    fun _ _ text ps htop hpending => readChars_eq_readStatement htop hpending text ps⟩

/-- A level is entered, a quotation spans two lines, and the level is left again. -/
theorem nesting_feedEach :
    let lines := ["in", "fail 'a", "b'; in", "out"]
    nesting.Undisturbed (String.join (lines.map (·.push '\n'))) ∧
      (nesting.feedEach ("in".push '\n') (lines.tail.map (·.push '\n'))).2.shell =
        (nesting.feed (String.join (lines.map (·.push '\n')))).2.shell := by
  intro lines
  have hundisturbed : nesting.Undisturbed (String.join (lines.map (·.push '\n'))) := by
    have hhalt : (nesting.readPiece (String.join (lines.map (·.push '\n')))).1 = none := by
      decide +kernel
    intro halt h
    rw [hhalt] at h
    cases h
  exact ⟨hundisturbed, (feedEach_eq_feed reached_nesting "in" lines.tail (.inr hundisturbed)).2.1⟩

end NestedShell.Session
