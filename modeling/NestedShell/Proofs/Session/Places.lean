/-
  Where the lexical faults of a session are.

  Feeding a session always uses up its input: what is not read is dropped.  So what is queued for
  the next piece is that piece, set off by a space at most, and a character that is refused stands
  in it.

  * `Reader.Drained`: a reader has read its input, as a text; `Reached.drained`: between two acts
    all of it has been read;
  * `Session.Refuses`: feeding a text ends at a character that is refused; `exists_refuses`: if it
    halts for a fault, it does; `Refuses.placed`: the fault tells the place of that character;
  * `Session.Pinpoints` and `reached_pinpoints` put this together with what is shown of the text.
-/
import NestedShell.Proofs.Fault.Window
import NestedShell.Proofs.Session.Acts
import NestedShell.Proofs.Session.Lines
import NestedShell.Proofs.Statement.Faults

namespace NestedShell

/-! ## Readers without input -/

/-- The reader has read all of its input, as a text. -/
structure Reader.Drained (r : Reader) : Prop where
  pending : r.pending = []
  stands : ∃ cs, r.Stands cs

theorem Reader.drained_fresh : ({} : Reader).Drained := ⟨rfl, [], stands_fresh⟩

theorem Reader.Drained.step {r : Reader} (h : r.Drained) (vars : Lookup) (pos : Nat) (c : Char) :
    (r.step vars pos c).2.Drained := by
  obtain ⟨cs, hcs⟩ := h.stands
  obtain ⟨statement, r', hread, hstands⟩ | ⟨cause, hread, -⟩ := stands_step hcs vars pos c
  · rw [hread]
    refine ⟨?_, _, hstands⟩
    rw [step_eq_read hcs.settled] at hread
    split at hread <;> cases hread
    exact h.pending
  · rw [hread]
    exact drained_fresh

theorem Reader.Drained.queue {r : Reader} (h : r.Drained) (text : String) :
    ({ r.push text with pending := [] } : Reader).Drained := by
  obtain ⟨cs, hcs⟩ := h.stands
  have hpush := hcs.push text
  exact ⟨rfl, cs, hpush.settled, hpush.mode, hpush.named⟩

namespace Session

variable {σ ω : Type} [CommandSet σ ω]

/-- **Between two acts** all of the input has been read. -/
theorem Reached.drained {s : Session σ ω} (h : s.Reached) : s.reader.Drained :=
  h.reader Reader.drained_fresh (fun hr => hr.queue) fun hr => hr.step

/-! ## Characters that are refused -/

/-- Feeding a session a text ends at a character that is refused, with a fault. -/
inductive Refuses (s : Session σ ω) (text : String) (fault : Fault) : Session σ ω → Prop where
  | mk {done rest : List (Nat × Char)} {pos : Nat} {c : Char} {t : Session σ ω} {level : Level σ}
      {reader : Reader} (hlive : s.isFinished = false)
      (hqueue : (s.queue text).1 = done ++ (pos, c) :: rest)
      (hdone : readChars text done (s.queue text).2 = (none, t))
      (htop : t.shell.stack.top? = some level)
      (hstep : t.reader.step level.env.lookup pos c = (.error fault, reader)) :
    Refuses s text fault ({ t with reader }.refuseInput text fault)

/-- No statement is refused by being dispatched. -/
theorem halt?_ne_refused (result : Dispatch) : result.halt? ≠ some .refused := by
  cases result <;> simp [Dispatch.halt?]

/-- Where reading halts for a fault, a character is refused. -/
theorem exists_refused {s u : Session σ ω} {text : String} {ps : List (Nat × Char)}
    (h : readChars text ps s = (some .refused, u)) :
    ∃ done pos c rest t level fault reader, ps = done ++ (pos, c) :: rest ∧
      readChars text done s = (none, t) ∧ t.shell.stack.top? = some level ∧
      t.reader.step level.env.lookup pos c = (.error fault, reader) ∧
      u = { t with reader }.refuseInput text fault := by
  induction ps generalizing s with
  | nil => cases h
  | cons p ps ih =>
    obtain ⟨pos, c⟩ := p
    have hread := s.charRead text pos c
    rw [readChars] at h
    rcases hchar : s.readChar text pos c with ⟨_ | halt, t⟩
    · rw [hchar] at h
      obtain ⟨done, pos', c', rest, t', level, fault, reader, rfl, hdone, hlater⟩ := ih h
      refine ⟨(pos, c) :: done, pos', c', rest, t', level, fault, reader, rfl, ?_, hlater⟩
      rw [readChars, hchar]
      exact hdone
    · rw [hchar] at h hread
      cases h
      cases hread with
      | refused htop hstep => exact ⟨[], pos, c, ps, s, _, _, _, rfl, rfl, htop, hstep, rfl⟩
      | halted _ _ hhalt => exact absurd hhalt (halt?_ne_refused _)

/-- **Where a text halts for a fault**, a character of it is refused. -/
theorem exists_refuses {s : Session σ ω} {text : String} (hlive : s.isFinished = false)
    (h : (s.readPiece text).1 = some .refused) :
    ∃ fault, s.Refuses text fault (s.feed text).2 := by
  rcases hpiece : s.readPiece text with ⟨halt, u⟩
  rw [hpiece] at h
  obtain rfl : halt = some .refused := h
  rw [feed_of_not_isFinished hlive, hpiece]
  rw [readPiece] at hpiece
  obtain ⟨done, pos, c, rest, t, level, fault, reader, hqueue, hdone, htop, hstep, rfl⟩ :=
    exists_refused hpiece
  exact ⟨fault, .mk hlive hqueue hdone htop hstep⟩

/-- The session is ready for the next statement. -/
theorem Refuses.feed_eq {s u : Session σ ω} {text : String} {fault : Fault}
    (h : s.Refuses text fault u) : s.feed text = (.ready, u) := by
  cases h with
  | @mk done rest pos c t level reader hlive hqueue hdone htop hstep =>
    have hpiece : s.readPiece text =
        (some .refused, { t with reader }.refuseInput text fault) := by
      rw [readPiece]
      simp only [hqueue, readChars_append, hdone, readChars, readChar, htop, hstep]
    rw [feed_of_not_isFinished hlive, hpiece]
    rfl

omit [CommandSet σ ω] in
/-- What is queued when all of the input has been read: the text, set off by a space at most. -/
theorem queue_drained {s : Session σ ω} (h : s.reader.Drained) {text : String} (hne : text ≠ "") :
    (s.queue text).1 =
      (⟨s.reader.gap, text, Statement.spaces_gap s.reader⟩ : Statement.Piece).queued := by
  simp only [queue, Reader.push, if_neg hne, h.pending, Statement.Piece.queued, Reader.gap,
    apply_ite (List.map _), List.map_cons, List.map_nil, List.nil_append]

/-- **The fault is a lexical one**, about a character of the text, and it tells where that stands. -/
theorem Refuses.placed {s u : Session σ ω} (hs : s.Reached) {text : String} {fault : Fault}
    (h : s.Refuses text fault u) :
    fault.kind = .lexical ∧ ∃ before c behind, text.toList = before ++ c :: behind ∧
      fault.position = some (Text.byteLength before) := by
  cases h with
  | @mk done rest pos c t level reader hlive hqueue hdone htop hstep =>
    have ht : t.Reached := by
      have hleads := closedUnderInput_leads.readChars text done (s.queue text).2
      rw [hdone] at hleads
      exact (hs.act (.queue text)).leads hleads
    obtain ⟨cs, hcs⟩ := ht.drained.stands
    obtain ⟨statement, r, hread, -⟩ | ⟨cause, hread, hrefused⟩ :=
      Reader.stands_step hcs level.env.lookup pos c
    · rw [hstep] at hread
      cases hread
    · rw [hstep] at hread
      cases hread
      have hne : text ≠ "" := by
        rintro rfl
        have hnone : (s.queue "").1 = [] := hs.drained.pending
        rw [hnone] at hqueue
        cases done <;> cases hqueue
      rw [queue_drained hs.drained hne] at hqueue
      -- the space in front of the text is never refused
      obtain ⟨before, behind, htext, rfl, -⟩ := Statement.exists_place hrefused.ne_space hqueue
      exact ⟨hrefused.kind, before, c, behind, htext, rfl⟩

/-! ## Sessions -/

/-- The lexical faults of a session are told with their places, which are shown. -/
structure Pinpoints (s : Session σ ω) : Prop where
  /-- every place in any text can be shown -/
  framed : ∀ (input : String) (pos : Nat), pos < input.utf8ByteSize →
    Text.isBoundary pos input.toList = true → Fault.Framed input pos
  /-- a text that halts for a fault has a character that is refused -/
  refused : ∀ text, s.isFinished = false → (s.readPiece text).1 = some .refused →
    ∃ fault, s.Refuses text fault (s.feed text).2
  /-- its place is one in the text -/
  placed : ∀ text fault u, s.Refuses text fault u → s.feed text = (.ready, u) ∧
    fault.kind = .lexical ∧ ∃ pos, fault.position = some pos ∧ pos < text.utf8ByteSize ∧
      Text.isBoundary pos text.toList = true
  /-- nothing is left of the text -/
  drained : ∀ text, (s.feed text).2.reader.pending = []

/-- **Every lexical fault is shown where it is**: feeding a session reports it with a place in the
    text that it is fed, and every such place lies in a window that can be cut out. -/
theorem reached_pinpoints {s : Session σ ω} (hs : s.Reached) : s.Pinpoints where
  framed _ _ hpos hboundary := Fault.framed hpos hboundary
  refused _ hlive h := exists_refuses hlive h
  placed text fault u h := by
    obtain ⟨hkind, before, c, behind, htext, hposition⟩ := h.placed hs
    refine ⟨h.feed_eq, hkind, _, hposition, ?_, ?_⟩
    · have hchar := c.utf8Size_pos
      rw [← Text.byteLength_toList, htext, Text.byteLength_append, Text.byteLength]
      omega
    · rw [htext]
      exact Text.isBoundary_byteLength _ _
  drained text := (hs.leads (s.leads_feed text)).drained.pending

/-- A quotation is left open by one text, and the next one, which is set off by a space, has
    characters of up to four bytes in front of the one that is refused. -/
theorem nesting_pinpoints :
    let s := (nesting.feed "in \"a").2
    let text := "été 😀 $\x7b\x7d\""
    s.Reached ∧ (s.queue text).1.head? = some (0, ' ') ∧ (s.readPiece text).1 = some .refused ∧
      Text.isBoundary 13 text.toList = true ∧ Fault.window 13 text = (0, 15) ∧ s.Pinpoints := by
  intro s text
  have hs : s.Reached := reached_nesting.leads (nesting.leads_feed _)
  exact ⟨hs, by decide +kernel, by decide +kernel, by decide +kernel, by decide +kernel,
    reached_pinpoints hs⟩

end Session

end NestedShell
