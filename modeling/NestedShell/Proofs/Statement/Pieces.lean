/-
  Texts in pieces.

  A text may be fed in any pieces, broken anywhere: inside a quotation, an escape or the name of a
  variable.  Between two pieces stands nothing when the first one ends with a newline, or with a
  backslash that waits for its character; otherwise it is as if a space stood there.

  * `scan_alike`: the flag of a joined line does not matter for how a text is read;
  * `Reader.feedEach` feeds pieces one after the other, `Reader.joined` is the text that they make;
  * `Reader.Follows`: a reader stands where a scan of what it has been fed with leads;
  * `pieceFed`, `feedEach_follows`: it still does after a piece, and so after all of them;
  * `feedEach_joined`: feeding pieces is feeding the text that they make.
-/
import NestedShell.Proofs.Statement.Joined

namespace NestedShell.Statement

/-! ## Scans that differ in the flag -/

/-- Two ways to scan that lead to the same, but for the flag and for the place of a fault; `last` is
    the last character. -/
inductive SameScan (last : Option Char) :
    Except (Cause × Nat) (List Words × Mode × Draft) →
      Except (Cause × Nat) (List Words × Mode × Draft) → Prop where
  | refused {cause : Cause} {n n' : Nat} : SameScan last (.error (cause, n)) (.error (cause, n'))
  | read {statements : List Words} {m : Mode} {d d' : Draft} (draft : d.plain = d'.plain)
      (flag : last = some '\n' → m = .text .bare → d.joined = d'.joined) :
    SameScan last (.ok (statements, m, d)) (.ok (statements, m, d'))

/-- **A text is read in the same way** with and without the flag. -/
theorem scan_alike {d d' : Draft} (h : d.plain = d'.plain) (vars : Lookup) (cs : List Char)
    (m : Mode) : SameScan cs.getLast? (scan vars cs m d) (scan vars cs m d') := by
  induction cs generalizing m d d' with
  | nil => exact .read h nofun
  | cons c cs ih =>
    rcases read_alike h vars m c with ⟨cause, hd, hd'⟩ | ⟨m₁, d₁, d₁', hd, hd', heq⟩
    · simp only [scan, hd, hd']
      exact .refused
    · have hstatement : d₁.statement = d₁'.statement := (congrArg Draft.statement heq :)
      have hplain : ({ d₁ with statement := none } : Draft).plain =
          ({ d₁' with statement := none } : Draft).plain :=
        (congrArg (fun e : Draft => { e with statement := none }) heq :)
      have hrest := ih hplain m₁
      simp only [scan, hd, hd', hstatement]
      cases cs with
      | nil =>
        refine .read hplain ?_
        rintro hlast rfl
        cases hlast
        exact (joined_read hd hd' :)
      | cons c' cs =>
        rw [List.getLast?_cons_cons]
        generalize scan vars (c' :: cs) m₁ { d₁ with statement := none } = p at hrest ⊢
        generalize scan vars (c' :: cs) m₁ { d₁' with statement := none } = p' at hrest ⊢
        cases hrest with
        | refused => exact .refused
        | read hdraft hflag => exact .read hdraft hflag

/-- A fault in a text comes before whatever follows the text. -/
theorem scan_append_error {vars : Lookup} {xs : List Char} {m : Mode} {d : Draft}
    {e : Cause × Nat} (h : scan vars xs m d = .error e) (ys : List Char) :
    scan vars (xs ++ ys) m d = .error e := by
  induction xs generalizing m d e with
  | nil => cases h
  | cons c xs ih =>
    rw [scan] at h
    rw [List.cons_append, scan]
    rcases hread : read vars m c d with cause | ⟨m₁, d₁⟩
    · simpa only [hread] using h
    · simp only [hread] at h ⊢
      rcases hscan : scan vars xs m₁ { d₁ with statement := none } with e₁ | result
      · simpa only [hscan, ih hscan] using h
      · simp [hscan] at h

/-- Between two characters, the draft holds no statement. -/
theorem statement_scan {vars : Lookup} {cs : List Char} {m m' : Mode} {d d' : Draft}
    {statements : List Words} (hd : d.statement = none)
    (h : scan vars cs m d = .ok (statements, m', d')) : d'.statement = none := by
  induction cs generalizing m d statements with
  | nil =>
    cases h
    exact hd
  | cons c cs ih =>
    rw [scan] at h
    rcases hread : read vars m c d with cause | ⟨m₁, d₁⟩
    · simp [hread] at h
    · simp only [hread] at h
      rcases hscan : scan vars cs m₁ { d₁ with statement := none } with e | ⟨more, m₂, d₂⟩
      · simp [hscan] at h
      · simp only [hscan, Except.ok.injEq, Prod.mk.injEq] at h
        obtain ⟨-, rfl, rfl⟩ := h
        exact ih rfl hscan

theorem SameScan.trans {last : Option Char}
    {p p' p'' : Except (Cause × Nat) (List Words × Mode × Draft)} (h : SameScan last p p')
    (h' : SameScan last p' p'') : SameScan last p p'' := by
  cases h with
  | refused =>
    cases h'
    exact .refused
  | read hdraft hflag =>
    cases h' with
    | read hdraft' hflag' =>
      exact .read (hdraft.trans hdraft') fun hlast hm => (hflag hlast hm).trans (hflag' hlast hm)

/-- A space changes nothing where no word has begun. -/
theorem scan_space {vars : Lookup} {d : Draft} (hword : d.word = "") (hd : d.statement = none)
    (cs : List Char) :
    SameScan cs.getLast? (scan vars cs (.text .bare) d) (scan vars (' ' :: cs) (.text .bare) d) := by
  obtain ⟨word, name, args, statement, flag⟩ := d
  obtain rfl : word = "" := hword
  obtain rfl : statement = none := hd
  have hread : read vars (.text .bare) ' ' { name, args, joined := flag } =
      .ok (.text .bare, { name, args, joined := flag }) := by
    simp [read, readText, Draft.breakWord]
  rw [scan]
  simp only [hread]
  rcases scan vars cs (.text .bare) { name, args, joined := flag } with ⟨cause, n⟩ | ⟨ss, m, d⟩
  · exact .refused
  · exact .read rfl fun _ _ => rfl

end NestedShell.Statement

namespace NestedShell.Reader

open NestedShell.Statement

/-! ## Pieces -/

/-- Feeds pieces, one after the other, up to the first fault, and collects the statements. -/
def feedEach (vars : Lookup) : List String → Reader → Except Fault (List Words) × Reader
  | [], r => (.ok [], r)
  | piece :: pieces, r =>
    match r.feed vars piece with
    | (.error fault, r') => (.error fault, r')
    | (.ok (statements, _), r') =>
      match feedEach vars pieces r' with
      | (.error fault, r'') => (.error fault, r'')
      | (.ok more, r'') => (.ok (statements ++ more), r'')

/-- What stands between a piece, after which the reader is `r`, and the next one. -/
def gapAfter (piece : String) (r : Reader) : String :=
  if Text.endsWith '\n' piece || r.awaitsEscaped then "" else " "

/-- The text that pieces make, when a reader is fed with them. -/
def joined (vars : Lookup) : List String → Reader → String
  | [], _ => ""
  | [piece], _ => piece
  | piece :: next :: pieces, r =>
    let r' := (r.feed vars piece).2
    piece ++ gapAfter piece r' ++ joined vars (next :: pieces) r'

/-- Feeding pieces, and feeding a text, lead to the same: either a fault with the same cause, or the
    same statements and the same words under construction.  The status is the same after a line. -/
inductive SameReading (line : Prop) :
    Except Fault (List Words) × Reader → Except Fault (List Words × Status) × Reader → Prop where
  | refused {fault fault' : Fault} {r r' : Reader} (cause : fault.cause = fault'.cause) :
    SameReading line (.error fault, r) (.error fault', r')
  | read {statements : List Words} {r r' : Reader} (mode : r.run.state = r'.run.state)
      (words : r.partialWords = r'.partialWords) (word : r.draft.word = r'.draft.word)
      (status : line → r.status = r'.status) :
    SameReading line (.ok statements, r) (.ok (statements, r'.status), r')

/-! ## Where a reader stands -/

/-- A reader that has read its input stands where a scan leads, but for the flag. -/
structure Follows (r : Reader) (m : Mode) (d : Draft) : Prop where
  settled : r.Settled
  pending : r.pending = []
  mode : r.run.state = m
  draft : r.draft.plain = d.plain
  statement : d.statement = none

/-- What stands between the input that was read and the next piece, if no piece is set off where
    it makes no difference. -/
def separator (r : Reader) : List Char :=
  if r.endedLine || r.awaitsEscaped then [] else [' ']

/-- **What is queued for a piece** is read like the piece after a separator. -/
theorem scan_queued {r : Reader} {m : Mode} {d : Draft} (h : r.Follows m d) {text : String}
    (hne : text ≠ "") (vars : Lookup) :
    SameScan text.toList.getLast?
      (scan vars ((r.queued text).map (·.2)) r.run.state { r.draft with joined := false })
      (scan vars (r.separator ++ text.toList) m d) := by
  have hplain : ({ r.draft with joined := false } : Draft).plain = d.plain := h.draft
  have hchars : text.toList ≠ [] := by simpa using hne
  obtain ⟨c, cs, hcs⟩ := List.exists_cons_of_ne_nil hchars
  rw [h.mode, queued, separator, List.map_append, map_snd_offsets]
  by_cases hjoin : r.endedLine || r.awaitsEscaped
  · have hgap : (!r.endedLine && !r.isClear && !r.awaitsEscaped) = false := by
      revert hjoin
      cases r.endedLine <;> cases r.awaitsEscaped <;> simp
    rw [if_pos hjoin, hgap]
    exact scan_alike hplain vars _ m
  · rw [Bool.not_eq_true, Bool.or_eq_false_iff] at hjoin
    simp only [hjoin, Bool.not_false, Bool.true_and, Bool.and_true, Bool.or_false,
      Bool.false_eq_true, if_false]
    cases hclear : r.isClear with
    | true =>
      -- the reader sets nothing off here, but a space would change nothing either
      simp only [isClear, Bool.and_eq_true, decide_eq_true_eq] at hclear
      have hmode : m = .text .bare := by
        have hidle := hclear.1.1
        simpa [Automaton.isIdle, machine, h.mode] using hidle
      have hword : d.word = "" := by
        have hdraft : r.draft.word = d.word := (congrArg Draft.word h.draft :)
        rw [← hdraft]
        exact hclear.1.2
      subst hmode
      exact (scan_alike hplain vars _ _).trans (scan_space hword h.statement _)
    | false =>
      have hsame := scan_alike hplain vars (' ' :: text.toList) m
      rw [hcs, List.getLast?_cons_cons, ← hcs] at hsame
      exact hsame

/-- What feeding a piece comes down to, when the reader follows a scan. -/
inductive PieceFed (vars : Lookup) (r : Reader) (m : Mode) (d : Draft) (piece : String) :
    Except Fault (List Words × Status) × Reader → Prop where
  | refused {cause : Cause} {n : Nat} {pos : Option Nat} {r' : Reader}
      (hscan : scan vars (r.separator ++ piece.toList) m d = .error (cause, n)) :
    PieceFed vars r m d piece (.error ⟨cause, pos⟩, r')
  | read {statements : List Words} {m' : Mode} {d' : Draft} {r' : Reader}
      (hscan : scan vars (r.separator ++ piece.toList) m d = .ok (statements, m', d'))
      (follows : r'.Follows m' d') (ended : r'.endedLine = Text.endsWith '\n' piece)
      (flag : piece.toList.getLast? = some '\n' → m' = .text .bare →
        r'.draft.joined = d'.joined) :
    PieceFed vars r m d piece (.ok (statements, r'.status), r')

/-- **A piece that is fed** is read like the piece after a separator. -/
theorem pieceFed {r : Reader} {m : Mode} {d : Draft} (h : r.Follows m d) {piece : String}
    (hne : piece ≠ "") (vars : Lookup) : PieceFed vars r m d piece (r.feed vars piece) := by
  have hsame := scan_queued h hne vars
  rw [feed_eq_scan h.settled h.pending hne]
  generalize scan vars ((r.queued piece).map (·.2)) r.run.state _ = p at hsame ⊢
  generalize hscan : scan vars (r.separator ++ piece.toList) m d = p' at hsame
  cases hsame with
  | refused => exact .refused hscan
  | @read statements m' d₁ d₁' hdraft hflag =>
    exact .read hscan ⟨rfl, rfl, rfl, hdraft, statement_scan h.statement hscan⟩ rfl hflag

/-- What feeding leads to agrees with what a scan leads to; `last` is the last character. -/
inductive Tracks (last : Option Char) : Except Fault (List Words) × Reader →
    Except (Cause × Nat) (List Words × Mode × Draft) → Prop where
  | refused {cause : Cause} {pos : Option Nat} {n : Nat} {r : Reader} :
    Tracks last (.error ⟨cause, pos⟩, r) (.error (cause, n))
  | read {statements : List Words} {r : Reader} {m : Mode} {d : Draft} (follows : r.Follows m d)
      (flag : last = some '\n' → m = .text .bare → r.draft.joined = d.joined) :
    Tracks last (.ok statements, r) (.ok (statements, m, d))

/-- The gap after a piece is the separator of the reader that has read it. -/
theorem toList_gapAfter {piece : String} {r : Reader}
    (h : r.endedLine = Text.endsWith '\n' piece) : (gapAfter piece r).toList = r.separator := by
  rw [gapAfter, separator, h, apply_ite String.toList]
  rfl

/-- **Pieces that are fed** are read like the text that they make. -/
theorem feedEach_follows (vars : Lookup) {piece : String} {pieces : List String}
    (hne : ∀ p ∈ piece :: pieces, p ≠ "") {r : Reader} {m : Mode} {d : Draft}
    (h : r.Follows m d) :
    Tracks ((piece :: pieces).getLastD "").toList.getLast? (feedEach vars (piece :: pieces) r)
      (scan vars (r.separator ++ (joined vars (piece :: pieces) r).toList) m d) := by
  induction pieces generalizing piece r m d with
  | nil =>
    have hfed := pieceFed h (hne piece (List.mem_cons_self ..)) vars
    rw [joined, feedEach]
    generalize r.feed vars piece = p at hfed ⊢
    cases hfed with
    | refused hscan =>
      rw [hscan]
      exact .refused
    | read hscan hfollows _ hflag =>
      rw [hscan]
      simp only [feedEach, List.append_nil]
      exact .read hfollows hflag
  | cons next pieces ih =>
    obtain ⟨hpiece, hpieces⟩ := List.forall_mem_cons.1 hne
    have hfed := pieceFed h hpiece vars
    rw [joined, feedEach, List.getLastD_cons, List.getLastD_cons]
    simp only [String.toList_append]
    generalize r.feed vars piece = p at hfed ⊢
    cases hfed with
    | refused hscan =>
      rw [List.append_assoc, ← List.append_assoc, scan_append_error hscan]
      exact .refused
    | @read statements m' d' r' hscan hfollows hended hflag =>
      have hrest := ih hpieces hfollows
      rw [List.append_assoc, ← List.append_assoc, scan_append hscan, toList_gapAfter hended]
      rw [List.getLastD_cons] at hrest
      dsimp only
      generalize feedEach vars (next :: pieces) r' = q at hrest ⊢
      generalize scan vars (r'.separator ++ _) m' d' = q' at hrest ⊢
      cases hrest with
      | refused => exact .refused
      | read hfollows hflag => exact .read hfollows hflag

theorem joined_ne_empty (vars : Lookup) {piece : String} (hne : piece ≠ "")
    (pieces : List String) (r : Reader) : joined vars (piece :: pieces) r ≠ "" := by
  cases pieces with
  | nil => exact hne
  | cons next pieces =>
    intro h
    rw [joined, String.append_eq_empty_iff, String.append_eq_empty_iff] at h
    exact hne h.1.1

/-- The status of a reader that follows a scan is the one that the scan leads to, after a line. -/
theorem Follows.status_eq {r : Reader} {m : Mode} {d : Draft} (h : r.Follows m d)
    (flag : m = .text .bare → r.draft.joined = d.joined) (r' : Reader) :
    r.status = (r'.withState m d).status := by
  have hidle : machine.isIdle r.run = decide (m = .text .bare) := by
    simp only [Automaton.isIdle, machine, h.mode]
  rw [status_withState, status, hidle]
  by_cases hm : m = .text .bare
  · simp [hm, flag hm]
  · simp [hm]

/-- **Feeding a text in pieces is feeding it at once**, wherever it is broken. -/
theorem feedEach_joined (vars : Lookup) (pieces : List String) (hne : ∀ p ∈ pieces, p ≠ "") :
    SameReading (Text.endsWith '\n' (pieces.getLastD "") = true) (feedEach vars pieces {})
      (feed vars (joined vars pieces {}) {}) := by
  cases pieces with
  | nil => exact .read rfl rfl rfl fun _ => rfl
  | cons piece pieces =>
    have hfresh : ({} : Reader).Follows (.text .bare) {} := ⟨rfl, rfl, rfl, rfl, rfl⟩
    have htracks := feedEach_follows vars hne hfresh
    rw [feed_fresh (joined_ne_empty vars (hne piece (List.mem_cons_self ..)) pieces {})]
    rw [show ({} : Reader).separator = [] from rfl, List.nil_append] at htracks
    generalize feedEach vars (piece :: pieces) {} = p at htracks ⊢
    generalize scan vars (joined vars (piece :: pieces) {}).toList (.text .bare) {} = p' at htracks ⊢
    cases htracks with
    | refused => exact .refused rfl
    | @read statements r m d hfollows hflag =>
      refine .read hfollows.mode ?_ ?_ ?_
      · exact (congrArg Draft.args hfollows.draft :)
      · exact (congrArg Draft.word hfollows.draft :)
      · intro hline
        refine hfollows.status_eq (hflag ?_) _
        simpa [Text.endsWith] using hline

/-- A text that is broken inside a quotation, after a backslash, and after a dollar sign. -/
theorem broken_feedEach :
    let pieces := ["echo \"open", "tail\\", "\"$", "X\"\n"]
    let once := feed noVariables "echo \"open tail\\\"$ X\"\n" {}
    (∀ p ∈ pieces, p ≠ "") ∧ once.1 = .ok ([["echo", "open tail\" X"]], .complete) ∧
      SameReading (Text.endsWith '\n' (pieces.getLastD "") = true)
        (feedEach noVariables pieces {}) once := by
  intro pieces once
  have hne : ∀ p ∈ pieces, p ≠ "" := by decide
  have htext : joined noVariables pieces {} = "echo \"open tail\\\"$ X\"\n" := by decide +kernel
  have hsame := feedEach_joined noVariables pieces hne
  rw [htext] at hsame
  exact ⟨hne, by rfl, hsame⟩

end NestedShell.Reader
