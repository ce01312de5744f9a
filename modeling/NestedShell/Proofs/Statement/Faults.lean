/-
  Where faults come from, and that they pass.

  In every mode there is a rule for every character, and a character is pushed back at most once, so
  reading never gets stuck.  All that is refused is the closing brace of `${}` and a newline inside
  `${..}`.  The fault tells the place of that character in the piece of input that it came with,
  and leaves a new reader behind.

  * `PushesBack`: how a step pushes its character back; `TakesAll`: a run that never gets stuck;
    `takesAll`: every settled run is one;
  * `Stands`: a reader has read a text; `nextOf_went`, `drainOf_went`: reading on from there ends
    after more of the text, or at a character that is refused;
  * a `Use` is what can be done with a reader; a `Traced` reader comes with the pieces that were
    queued since it was a new one, `Traced.after`: it has been used several times;
  * `exists_piece`: a character of the input stands in one of the pieces, and `FaultAt`: so does a
    fault;
  * `Unwedged` and `unwedged_after` put this together.
-/
import NestedShell.Proofs.Statement.Interleaving
import NestedShell.Proofs.Statement.Modes

namespace NestedShell.Statement

/-! ## Characters that are read again -/

/-- How a step pushes its character back. -/
inductive PushesBack (vars : Lookup) (c : Char) :
    Except (Stop Char Mode) Unit × Run Char Mode Draft → Prop where
  /-- not at all -/
  | never {result : Except (Stop Char Mode) Unit} {m : Mode} {d : Draft} :
    PushesBack vars c (result, ⟨m, ⟨d, []⟩⟩)
  /-- once: when it is read again, nothing is pushed back -/
  | once {m m' : Mode} {d d' : Draft}
      (again : machine.step vars c ⟨m, ⟨d, []⟩⟩ = (.ok (), ⟨m', ⟨d', []⟩⟩)) :
    PushesBack vars c (.ok (), ⟨m, ⟨d, [c]⟩⟩)

/-- **A character is pushed back at most once.** -/
theorem pushesBack_step (vars : Lookup) (m : Mode) (c : Char) (d : Draft) :
    PushesBack vars c (machine.step vars c ⟨m, ⟨d, []⟩⟩) := by
  have hend (m : Mode) (p : Place) (h : machine.rule? m c = some ⟨some endName, some (.text p)⟩) :
      machine.step vars c ⟨m, ⟨d, []⟩⟩ = (.ok (), ⟨.text p, ⟨d.substitute vars, [c]⟩⟩) := by
    rw [Automaton.step, h]
    rfl
  have hrule := machine_rule? m c
  cases m with
  | text p =>
    rw [step_text]
    exact .never
  | escape p =>
    simp only [Automaton.step, hrule, exactRule, anyRule]
    split_ifs <;> exact .never
  | literal p =>
    cases p <;>
    · simp only [Automaton.step, hrule, exactRule, anyRule]
      split_ifs <;> exact .never
  | dollar p =>
    simp only [exactRule, anyRule] at hrule
    split_ifs at hrule
    · simp only [Automaton.step, hrule]
      exact .never
    · simp only [Automaton.step, hrule]
      exact .never
    · rw [hend _ p hrule]
      exact .once (step_text ..)
  | name p =>
    simp only [exactRule, anyRule] at hrule
    split_ifs at hrule
    · simp only [Automaton.step, hrule]
      exact .never
    · rw [hend _ p hrule]
      exact .once (step_text ..)
  | braced p =>
    simp only [Automaton.step, hrule, exactRule, anyRule]
    split_ifs
    · simp only [Option.getD_some, endBraced]
      split_ifs <;> exact .never
    · exact .never
    · exact .never

/-- **Reading what is pushed back ends**: it makes no difference how often it may be tried. -/
theorem advance_budget (vars : Lookup) (budget : Nat) (m : Mode) (c : Char) (d : Draft) :
    machine.advance vars (budget + 1) c ⟨m, ⟨d, []⟩⟩ = machine.advance vars 1 c ⟨m, ⟨d, []⟩⟩ := by
  have hpushes := pushesBack_step vars m c d
  rw [Automaton.advance, Automaton.advance]
  generalize machine.step vars c ⟨m, ⟨d, []⟩⟩ = p at hpushes ⊢
  cases hpushes with
  | @never result =>
    cases result with
    | error stop => rfl
    | ok => simp only [settle_nil]
  | once hagain => simp only [Automaton.settle, hagain, settle_nil]

/-- A run that does not get stuck, whatever character comes next. -/
structure TakesAll (run : Run Char Mode Draft) : Prop where
  settled : run.bench.pushed = []
  rule : ∀ c, (machine.rule? run.state c).isSome = true
  pushesBack : ∀ vars c, PushesBack vars c (machine.step vars c run)
  budget : ∀ vars budget c,
    machine.advance vars (budget + 1) c run = machine.advance vars 1 c run
  stop : ∀ vars c stop run', machine.advance vars 1 c run = (.error stop, run') →
    ∃ fault, stop = .refused fault

/-- **A settled run does not get stuck.** -/
theorem takesAll {run : Run Char Mode Draft} (h : run.bench.pushed = []) : TakesAll run := by
  obtain ⟨m, d, pushed⟩ := run
  obtain rfl : pushed = [] := h
  refine ⟨rfl, ?_, ?_, ?_, ?_⟩
  · intro c
    rw [machine_rule?]
    rfl
  · exact fun vars c => pushesBack_step vars m c d
  · exact fun vars budget c => advance_budget vars budget m c d
  · intro vars c stop run' hstop
    rw [advance_eq_read] at hstop
    split at hstop
    · cases hstop
    · cases hstop
      exact ⟨_, rfl⟩

end NestedShell.Statement

namespace NestedShell.Reader

open NestedShell.Statement

/-! ## A reader that has read a text -/

/-- The reader stands where a text leads. -/
structure Stands (r : Reader) (text : List Char) : Prop where
  settled : r.Settled
  mode : r.run.state = modeOf text
  named : Named text r.draft.name (modeOf text)

theorem stands_fresh : ({} : Reader).Stands [] := ⟨rfl, rfl, trivial⟩

theorem Stands.push {r : Reader} {cs : List Char} (h : r.Stands cs) (text : String) :
    (r.push text).Stands cs := by
  rw [Reader.push]
  split <;> exact ⟨h.settled, h.mode, h.named⟩

/-- What becomes of a reader that stands after a text and reads on: some of the characters that
    come next are read, up to one that is refused, if one is. -/
inductive Went {α : Type} (text : List Char) (ps : List (Nat × Char)) :
    Except Fault α × Reader → Prop where
  | read {done : List (Nat × Char)} {a : α} {r : Reader} (hps : ps = done ++ r.pending)
      (stands : r.Stands (text ++ done.map (·.2))) : Went text ps (.ok a, r)
  | refused {done rest : List (Nat × Char)} {pos : Nat} {c : Char} {cause : Cause}
      (hps : ps = done ++ (pos, c) :: rest) (refused : Refused (text ++ done.map (·.2)) c cause) :
    Went text ps (.error ⟨cause, some pos⟩, {})

theorem went_nil {α : Type} {r : Reader} {text : List Char} (h : r.Stands text) (a : α) :
    Went text [] (.ok a, { r with pending := [] }) := by
  refine .read (List.nil_append _).symm ?_
  rw [List.map_nil, List.append_nil]
  exact ⟨h.settled, h.mode, h.named⟩

theorem went_refused {α : Type} {text : List Char} {c : Char} {cause : Cause}
    (h : Refused text c cause) (pos : Nat) (ps : List (Nat × Char)) :
    Went (α := α) text ((pos, c) :: ps) (.error ⟨cause, some pos⟩, {}) := by
  refine .refused (List.nil_append _).symm ?_
  rwa [List.map_nil, List.append_nil]

/-- Going on after one more character. -/
theorem Went.cons {α : Type} {text : List Char} {pos : Nat} {c : Char} {ps : List (Nat × Char)}
    {result : Except Fault α × Reader} (h : Went (text ++ [c]) ps result) :
    Went text ((pos, c) :: ps) result := by
  cases h with
  | @read done a r hps hstands =>
    rw [List.append_assoc] at hstands
    have hps : (pos, c) :: ps = (pos, c) :: done ++ r.pending := congrArg _ hps
    exact .read hps hstands
  | @refused done rest pos' c' cause hps hrefused =>
    rw [List.append_assoc] at hrefused
    have hps : (pos, c) :: ps = (pos, c) :: done ++ (pos', c') :: rest := congrArg _ hps
    exact .refused hps hrefused

/-- **A character** is read, or refused. -/
theorem stands_step {r : Reader} {text : List Char} (h : r.Stands text) (vars : Lookup) (pos : Nat)
    (c : Char) :
    (∃ statement r', r.step vars pos c = (.ok statement, r') ∧ r'.Stands (text ++ [c])) ∨
      ∃ cause, r.step vars pos c = (.error ⟨cause, some pos⟩, {}) ∧ Refused text c cause := by
  rw [step_eq_read h.settled, h.mode]
  rcases hread : read vars (modeOf text) c r.draft with cause | ⟨m, d⟩
  · exact .inr ⟨cause, rfl, refused_read h.named hread⟩
  · obtain rfl := mode_read hread
    have hnamed : Named (text ++ [c]) d.name ((modeOf text).next c) := named_read h.named hread
    rw [← modeOf_concat] at hnamed
    exact .inl ⟨_, _, rfl, rfl, (modeOf_concat text c).symm, hnamed⟩

/-- **Reading on to the end of a statement.** -/
theorem nextOf_went {r : Reader} {text : List Char} (h : r.Stands text) (vars : Lookup)
    (ps : List (Nat × Char)) : Went text ps (nextOf vars ps r) := by
  induction ps generalizing r text with
  | nil => exact went_nil h none
  | cons p ps ih =>
    obtain ⟨pos, c⟩ := p
    rw [nextOf]
    obtain ⟨_ | statement, r', hread, hstands⟩ | ⟨cause, hread, hcause⟩ := stands_step h vars pos c
    · rw [hread]
      exact (ih hstands).cons
    · rw [hread]
      exact .read (List.singleton_append).symm ⟨hstands.settled, hstands.mode, hstands.named⟩
    · rw [hread]
      exact went_refused hcause pos ps

/-- **Reading on to the end of the input.** -/
theorem drainOf_went {r : Reader} {text : List Char} (h : r.Stands text) (vars : Lookup)
    (ps : List (Nat × Char)) : Went text ps (drainOf vars ps r) := by
  induction ps generalizing r text with
  | nil => exact went_nil h []
  | cons p ps ih =>
    obtain ⟨pos, c⟩ := p
    rw [drainOf]
    obtain ⟨_ | statement, r', hread, hstands⟩ | ⟨cause, hread, hcause⟩ := stands_step h vars pos c
    · rw [hread]
      exact (ih hstands).cons
    · have hrest : Went text ((pos, c) :: ps) (drainOf vars ps r') := (ih hstands).cons
      rw [hread]
      dsimp only
      generalize drainOf vars ps r' = result at hrest ⊢
      cases hrest with
      | read hps hstands => exact .read hps hstands
      | refused hps hrefused => exact .refused hps hrefused
    · rw [hread]
      exact went_refused hcause pos ps

end NestedShell.Reader

namespace NestedShell.Statement

/-! ## The pieces that the input came with -/

/-- A piece of input, with the spaces that set it off. -/
structure Piece where
  gap : List Char
  text : String
  spaces : ∀ c ∈ gap, c = ' '

namespace Piece

/-- The characters of a piece. -/
def chars (piece : Piece) : List Char := piece.gap ++ piece.text.toList

/-- The characters of a piece, as they are queued. -/
def queued (piece : Piece) : List (Nat × Char) :=
  piece.gap.map (0, ·) ++ Text.offsets 0 piece.text.toList

theorem map_snd_gap (piece : Piece) : (piece.gap.map ((0, ·) : Char → Nat × Char)).map (·.2) =
    piece.gap := by
  rw [List.map_map]
  exact List.map_id _

theorem map_snd_queued (piece : Piece) : piece.queued.map (·.2) = piece.chars := by
  rw [queued, List.map_append, piece.map_snd_gap, Reader.map_snd_offsets, chars]

end Piece

/-- Two ways to cut a list, one of them before an element: the element is in one of the parts. -/
theorem cut_cases {α : Type} {xs ys us vs : List α} {a : α} (h : xs ++ ys = us ++ a :: vs) :
    (∃ ws, xs = us ++ a :: ws) ∨ ∃ ws, us = xs ++ ws ∧ ys = ws ++ a :: vs := by
  obtain ⟨ws, hus, hys⟩ | ⟨_ | ⟨b, ws⟩, hxs, hvs⟩ := List.append_eq_append_iff.1 h
  · exact .inr ⟨ws, hus, hys⟩
  · exact .inr ⟨[], by simpa using hxs.symm, hvs.symm⟩
  · obtain ⟨rfl, -⟩ := List.cons.inj hvs
    exact .inl ⟨ws, hxs⟩

/-- The offset of a character is the length of what stands before it. -/
theorem exists_offset {start : Nat} {cs : List Char} {done rest : List (Nat × Char)} {pos : Nat}
    {c : Char} (h : Text.offsets start cs = done ++ (pos, c) :: rest) :
    ∃ before behind, cs = before ++ c :: behind ∧ pos = start + Text.byteLength before ∧
      done.map (·.2) = before := by
  induction cs generalizing start done with
  | nil => cases done <;> cases h
  | cons c' cs ih =>
    cases done with
    | nil =>
      obtain ⟨⟨rfl, rfl⟩, -⟩ : (start = pos ∧ c' = c) ∧ _ := by simpa [Text.offsets] using h
      exact ⟨[], cs, rfl, rfl, rfl⟩
    | cons p done =>
      obtain ⟨rfl, htail⟩ := List.cons.inj h
      obtain ⟨before, behind, rfl, rfl, hdone⟩ := ih htail
      refine ⟨c' :: before, behind, rfl, ?_, congrArg (c' :: ·) hdone⟩
      rw [Text.byteLength, Nat.add_assoc]

theorem exists_place {piece : Piece} {done rest : List (Nat × Char)} {pos : Nat} {c : Char}
    (hc : c ≠ ' ') (h : piece.queued = done ++ (pos, c) :: rest) :
    ∃ before behind, piece.text.toList = before ++ c :: behind ∧ pos = Text.byteLength before ∧
      done.map (·.2) = piece.gap ++ before := by
  obtain ⟨ws, hgap⟩ | ⟨ws, rfl, htext⟩ := cut_cases h
  · have hmem : (pos, c) ∈ piece.gap.map (0, ·) := by simp [hgap]
    obtain ⟨c', hc', heq⟩ := List.mem_map.1 hmem
    cases heq
    exact absurd (piece.spaces c hc') hc
  · obtain ⟨before, behind, hchars, hpos, hws⟩ := exists_offset htext
    refine ⟨before, behind, hchars, by simpa using hpos, ?_⟩
    rw [List.map_append, piece.map_snd_gap, hws]

/-- **A character of the input** stands in one of the pieces. -/
theorem exists_piece {pieces : List Piece} {done rest : List (Nat × Char)} {pos : Nat} {c : Char}
    (hc : c ≠ ' ') (h : pieces.flatMap Piece.queued = done ++ (pos, c) :: rest) :
    ∃ earlier piece later before behind, pieces = earlier ++ piece :: later ∧
      piece.text.toList = before ++ c :: behind ∧ pos = Text.byteLength before ∧
      done.map (·.2) = earlier.flatMap Piece.chars ++ (piece.gap ++ before) := by
  induction pieces generalizing done with
  | nil => cases done <;> cases h
  | cons piece pieces ih =>
    rw [List.flatMap_cons] at h
    obtain ⟨ws, hhere⟩ | ⟨ws, rfl, hthere⟩ := cut_cases h
    · obtain ⟨before, behind, htext, hpos, hdone⟩ := exists_place hc hhere
      exact ⟨[], piece, pieces, before, behind, rfl, htext, hpos, hdone⟩
    · obtain ⟨earlier, piece', later, before, behind, rfl, htext, hpos, hws⟩ := ih hthere
      refine ⟨piece :: earlier, piece', later, before, behind, rfl, htext, hpos, ?_⟩
      rw [List.map_append, piece.map_snd_queued, hws, List.flatMap_cons, List.append_assoc]

/-- A fault about a character that is refused, with its place in the piece that it came with. -/
inductive FaultAt (pieces : List Piece) : Fault → Prop where
  | mk {earlier later : List Piece} {piece : Piece} {before behind : List Char} {c : Char}
      {cause : Cause} (hpieces : pieces = earlier ++ piece :: later)
      (htext : piece.text.toList = before ++ c :: behind)
      (refused : Refused (earlier.flatMap Piece.chars ++ (piece.gap ++ before)) c cause) :
    FaultAt pieces ⟨cause, some (Text.byteLength before)⟩

theorem FaultAt.kind {pieces : List Piece} {fault : Fault} (h : FaultAt pieces fault) :
    fault.kind = .lexical := by
  obtain ⟨-, -, hrefused⟩ := h
  exact hrefused.kind

theorem Refused.ne_space {text : List Char} {c : Char} {cause : Cause} (h : Refused text c cause) :
    c ≠ ' ' := by
  cases h <;> decide

/-! ## Using a reader -/

theorem spaces_gap (r : Reader) : ∀ c ∈ r.gap, c = ' ' := by
  intro c hc
  rw [Reader.gap] at hc
  split at hc
  · exact List.mem_singleton.1 hc
  · cases hc

/-- What can be done with a reader, with any texts and any values of variables. -/
inductive Use where
  | push (text : String)
  | next (vars : Lookup)
  | feed (vars : Lookup) (text : String)
  | abandon

/-- A reader, with the pieces that were queued since it was a new one. -/
structure Traced where
  reader : Reader := {}
  pieces : List Piece := []

namespace Traced

/-- Queues a piece of input, and notes it as one. -/
def push (t : Traced) (text : String) : Traced where
  reader := t.reader.push text
  pieces :=
    if text = "" then t.pieces
    else t.pieces ++ [⟨t.reader.gap, text, spaces_gap t.reader⟩]

/-- After a fault, the reader starts anew. -/
def goOn {α : Type} (t : Traced) : Except Fault α × Reader → Traced
  | (.ok _, reader) => { t with reader }
  | (.error _, reader) => { reader }

/-- Does a call to the reader. -/
def use (t : Traced) : Use → Traced
  | .push text => t.push text
  | .next vars => t.goOn (t.reader.next vars)
  | .feed vars text => (t.push text).goOn (t.reader.feed vars text)
  | .abandon => { reader := t.reader.abandon }

/-- What calls make of a fresh reader. -/
def after (uses : List Use) : Traced := uses.foldl use {}

/-- The reader stands after a part of its input, and the rest of it is pending. -/
structure Within (t : Traced) (done : List (Nat × Char)) : Prop where
  input : t.pieces.flatMap Piece.queued = done ++ t.reader.pending
  stands : t.reader.Stands (done.map (·.2))

variable {t : Traced} {done : List (Nat × Char)}

theorem within_fresh : ({} : Traced).Within [] := ⟨rfl, Reader.stands_fresh⟩

theorem Within.push (h : t.Within done) (text : String) : (t.push text).Within done := by
  refine ⟨?_, h.stands.push text⟩
  by_cases hne : text = ""
  · simp only [Traced.push, hne, if_true, Reader.push]
    exact h.input
  · simp only [Traced.push, hne, if_false, Reader.push, List.flatMap_append, h.input,
      List.flatMap_singleton, Piece.queued, Reader.gap, apply_ite (List.map _), List.map_cons,
      List.map_nil, List.append_assoc]

/-- What a call that reads on returns, and what it leaves: a fault is that of a character that is
    refused, and leaves a new reader. -/
theorem Within.went {α : Type} (h : t.Within done) {result : Except Fault α × Reader}
    (hwent : Reader.Went (done.map (·.2)) t.reader.pending result) :
    (∃ done', (t.goOn result).Within done') ∧
      ∀ fault reader, result = (.error fault, reader) → FaultAt t.pieces fault ∧ reader = {} := by
  cases hwent with
  | @read more a reader hps hstands =>
    have hinput := h.input
    rw [hps, ← List.append_assoc] at hinput
    rw [← List.map_append] at hstands
    exact ⟨⟨done ++ more, hinput, hstands⟩, fun fault reader hfault => by cases hfault⟩
  | @refused more rest pos c cause hps hrefused =>
    refine ⟨⟨[], within_fresh⟩, fun fault reader hfault => ?_⟩
    cases hfault
    have hinput := h.input
    rw [hps, ← List.append_assoc] at hinput
    obtain ⟨earlier, piece, later, before, behind, hpieces, htext, rfl, hdone⟩ :=
      exists_piece hrefused.ne_space hinput
    rw [← List.map_append, hdone] at hrefused
    exact ⟨.mk hpieces htext hrefused, rfl⟩

theorem Within.next (h : t.Within done) (vars : Lookup) :
    Reader.Went (done.map (·.2)) t.reader.pending (t.reader.next vars) :=
  Reader.nextOf_went h.stands vars t.reader.pending

theorem Within.feed (h : t.Within done) (vars : Lookup) (text : String) :
    Reader.Went (done.map (·.2)) (t.push text).reader.pending (t.reader.feed vars text) := by
  have hdrain := Reader.drainOf_went (h.push text).stands vars (t.push text).reader.pending
  simp only [Reader.feed, Traced.push] at hdrain ⊢
  generalize Reader.drainOf vars _ _ = result at hdrain ⊢
  cases hdrain with
  | read hps hstands => exact .read hps hstands
  | refused hps hrefused => exact .refused hps hrefused

/-- **Every use** leaves the reader within its input. -/
theorem Within.use (h : t.Within done) (u : Use) : ∃ done', (t.use u).Within done' := by
  cases u with
  | push text => exact ⟨done, h.push text⟩
  | next vars => exact (h.went (h.next vars)).1
  | feed vars text => exact ((h.push text).went (h.feed vars text)).1
  | abandon => exact ⟨[], within_fresh⟩

theorem within_after (uses : List Use) : ∃ done, (after uses).Within done := by
  have hfrom (t : Traced) (done : List (Nat × Char)) (h : t.Within done) :
      ∃ done', (uses.foldl Traced.use t).Within done' := by
    induction uses generalizing t done with
    | nil => exact ⟨done, h⟩
    | cons u uses ih =>
      obtain ⟨done', h'⟩ := h.use u
      exact ih _ done' h'
  exact hfrom {} [] within_fresh

/-- A reader does not get stuck, and its faults pass. -/
structure Unwedged (t : Traced) : Prop where
  /-- nothing is left to be read again -/
  settled : t.reader.run.bench.pushed = []
  /-- before every character that is pending, the automaton does not get stuck -/
  takesAll : ∀ (vars : Lookup) (n : Nat), TakesAll
    ((t.reader.pending.take n).foldl (fun r p => (r.step vars p.1 p.2).2) t.reader).run
  /-- what is refused by the two ways to read is refused at a place in a piece of input, and leaves
      a new reader -/
  next : ∀ vars fault reader, t.reader.next vars = (.error fault, reader) →
    fault.kind = .lexical ∧ FaultAt t.pieces fault ∧ reader = {}
  feed : ∀ vars text fault reader, t.reader.feed vars text = (.error fault, reader) →
    fault.kind = .lexical ∧ FaultAt (t.push text).pieces fault ∧ reader = {}
  abandon : t.reader.abandon = {}

theorem settled_foldl_step (vars : Lookup) (ps : List (Nat × Char)) {r : Reader}
    (h : r.Settled) : (ps.foldl (fun r p => (r.step vars p.1 p.2).2) r).Settled := by
  induction ps generalizing r with
  | nil => exact h
  | cons p ps ih => exact ih (h.step vars p.1 p.2)

/-- **Malformed input never wedges a reader**, however it is used. -/
theorem unwedged_after (uses : List Use) : (after uses).Unwedged := by
  obtain ⟨done, h⟩ := within_after uses
  exact {
    settled := h.stands.settled
    takesAll := fun vars n => takesAll (settled_foldl_step vars _ h.stands.settled)
    next := fun vars fault reader hfault => by
      obtain ⟨hat, hnew⟩ := (h.went (h.next vars)).2 fault reader hfault
      exact ⟨hat.kind, hat, hnew⟩
    feed := fun vars text fault reader hfault => by
      obtain ⟨hat, hnew⟩ := ((h.push text).went (h.feed vars text)).2 fault reader hfault
      exact ⟨hat.kind, hat, hnew⟩
    abandon := rfl }

/-- The offset counts the bytes of the piece that the brace came with. -/
example :
    let t := after [.push "ab\n", .next noVariables, .push "é ${}"]
    (t.reader.next noVariables).1 = .error ⟨.emptySubstitution, some 5⟩ := by
  rfl

end Traced

end NestedShell.Statement
