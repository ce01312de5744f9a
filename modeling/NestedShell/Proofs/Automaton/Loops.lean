/-
  What an automaton does with a text, without a bound on what is pushed back.

  `Automaton.feed` is told how many symbols it may read again.  What it comes to when nothing stops
  it is said by relations, which hold of a text just when reading again what is pushed back ends.

  * `Settles`, `Feeds`: reading what was pushed back, and reading a text;
  * `Drains`: the same, symbol by symbol: what is read next is the latest symbol that was pushed
    back, and a symbol of the text only when there is none;
  * `exists_budget`, `feeds_feed`: `feed` with enough to spend, and with any amount that was enough;
  * `Obeys`: what is true of every automaton that is built by adding rules; `obeys_addAll`: so it is.
-/
import NestedShell.Proofs.Automaton.Rules

namespace NestedShell

/-- The same run with other symbols to read again. -/
def Run.withPushed {α q γ : Type} (r : Run α q γ) (cs : List α) : Run α q γ :=
  { r with bench := { r.bench with pushed := cs } }

namespace Automaton

variable {α q γ : Type}

/-- What a run comes to: whether it stops early, and where it is then. -/
abbrev Ending (α q γ : Type) : Type := Except (Stop α q) Unit × Run α q γ

variable (a : Automaton α q γ) (vars : Lookup)

/-! ## Without a bound -/

/-- Reading again what was pushed back. -/
inductive Settles : Run α q γ → Ending α q γ → Prop where
  | done {r : Run α q γ} (hempty : r.bench.pushed = []) : Settles r (.ok (), r)
  | again {r r' : Run α q γ} {c : α} {cs : List α} {e : Ending α q γ}
      (hpushed : r.bench.pushed = c :: cs) (hstep : a.step vars c (r.withPushed cs) = (.ok (), r'))
      (hrest : Settles r' e) : Settles r e
  | stopped {r r' : Run α q γ} {c : α} {cs : List α} {stop : Stop α q}
      (hpushed : r.bench.pushed = c :: cs)
      (hstep : a.step vars c (r.withPushed cs) = (.error stop, r')) : Settles r (.error stop, r')

/-- Reading a text. -/
inductive Feeds : List α → Run α q γ → Ending α q γ → Prop where
  | done {r : Run α q γ} : Feeds [] r (.ok (), r)
  | next {c : α} {cs : List α} {r r₁ r₂ : Run α q γ} {e : Ending α q γ}
      (hstep : a.step vars c r = (.ok (), r₁)) (hsettle : Settles a vars r₁ (.ok (), r₂))
      (hrest : Feeds cs r₂ e) : Feeds (c :: cs) r e
  /-- a symbol that was pushed back stops the run -/
  | stoppedAgain {c : α} {cs : List α} {r r₁ r₂ : Run α q γ} {stop : Stop α q}
      (hstep : a.step vars c r = (.ok (), r₁)) (hsettle : Settles a vars r₁ (.error stop, r₂)) :
      Feeds (c :: cs) r (.error stop, r₂)
  | stopped {c : α} {cs : List α} {r r' : Run α q γ} {stop : Stop α q}
      (hstep : a.step vars c r = (.error stop, r')) : Feeds (c :: cs) r (.error stop, r')

/-- Reading what was pushed back and a text, one symbol after the other. -/
inductive Drains : Run α q γ → List α → Ending α q γ → Prop where
  | done {r : Run α q γ} (hempty : r.bench.pushed = []) : Drains r [] (.ok (), r)
  /-- the latest symbol that was pushed back comes first -/
  | again {r r' : Run α q γ} {c : α} {cs us : List α} {e : Ending α q γ}
      (hpushed : r.bench.pushed = c :: cs) (hstep : a.step vars c (r.withPushed cs) = (.ok (), r'))
      (hrest : Drains r' us e) : Drains r us e
  | stoppedAgain {r r' : Run α q γ} {c : α} {cs us : List α} {stop : Stop α q}
      (hpushed : r.bench.pushed = c :: cs)
      (hstep : a.step vars c (r.withPushed cs) = (.error stop, r')) :
      Drains r us (.error stop, r')
  /-- the text goes on when nothing is pushed back -/
  | next {r r' : Run α q γ} {c : α} {us : List α} {e : Ending α q γ}
      (hempty : r.bench.pushed = []) (hstep : a.step vars c r = (.ok (), r'))
      (hrest : Drains r' us e) : Drains r (c :: us) e
  | stopped {r r' : Run α q γ} {c : α} {us : List α} {stop : Stop α q}
      (hempty : r.bench.pushed = []) (hstep : a.step vars c r = (.error stop, r')) :
      Drains r (c :: us) (.error stop, r')

variable {a} {vars}

/-! ## With a bound -/

/-- A step reads one symbol, so there is nothing to run out of. -/
theorem step_ne_unsettled (c : α) (r : Run α q γ) :
    (a.step vars c r).1 ≠ .error .unsettled := by
  have h := a.processed vars c r
  generalize a.rule? r.state c = rule, a.step vars c r = e at h
  cases h <;> simp

theorem settle_of_empty {r : Run α q γ} (hempty : r.bench.pushed = []) (budget : Nat) :
    a.settle vars budget r = (.ok (), r) := by
  cases budget <;> simp [settle, hempty]

theorem settle_succ {r : Run α q γ} {c : α} {cs : List α} (hpushed : r.bench.pushed = c :: cs)
    (budget : Nat) :
    a.settle vars (budget + 1) r =
      match a.step vars c (r.withPushed cs) with
      | (.ok (), r') => a.settle vars budget r'
      | (.error stop, r') => (.error stop, r') := by
  rw [settle]
  simp only [hpushed]
  rfl

theorem Settles.ne_unsettled {r : Run α q γ} {e : Ending α q γ} (h : a.Settles vars r e) :
    e.1 ≠ .error .unsettled := by
  induction h with
  | done => simp
  | again _ _ _ ih => exact ih
  | stopped _ hstep =>
    intro hstop
    exact step_ne_unsettled _ _ (by rw [hstep]; exact hstop)

theorem Settles.exists_budget {r : Run α q γ} {e : Ending α q γ} (h : a.Settles vars r e) :
    ∃ budget, ∀ n ≥ budget, a.settle vars n r = e := by
  induction h with
  | done hempty => exact ⟨0, fun n _ => settle_of_empty hempty n⟩
  | again hpushed hstep _ ih =>
    obtain ⟨budget, ih⟩ := ih
    refine ⟨budget + 1, fun n hn => ?_⟩
    obtain ⟨m, rfl⟩ := Nat.exists_eq_add_of_le' hn
    rw [← Nat.add_assoc, settle_succ hpushed, hstep]
    exact ih _ (by omega)
  | stopped hpushed hstep =>
    refine ⟨1, fun n hn => ?_⟩
    obtain ⟨m, rfl⟩ := Nat.exists_eq_add_of_le' hn
    rw [settle_succ hpushed, hstep]

theorem settles_settle {budget : Nat} {r : Run α q γ}
    (h : (a.settle vars budget r).1 ≠ .error .unsettled) :
    a.Settles vars r (a.settle vars budget r) := by
  induction budget generalizing r with
  | zero =>
    cases hpushed : r.bench.pushed with
    | nil =>
      rw [settle_of_empty hpushed]
      exact .done hpushed
    | cons c cs => exact absurd (by simp only [settle, hpushed]) h
  | succ budget ih =>
    cases hpushed : r.bench.pushed with
    | nil =>
      rw [settle_of_empty hpushed]
      exact .done hpushed
    | cons c cs =>
      rw [settle_succ hpushed] at h ⊢
      rcases hstep : a.step vars c (r.withPushed cs) with ⟨stop | _, r'⟩
      · exact .stopped hpushed hstep
      · rw [hstep] at h
        exact .again hpushed hstep (ih h)

theorem Feeds.ne_unsettled {cs : List α} {r : Run α q γ} {e : Ending α q γ}
    (h : a.Feeds vars cs r e) : e.1 ≠ .error .unsettled := by
  induction h with
  | done => simp
  | next _ _ _ ih => exact ih
  | stoppedAgain _ hsettle => exact hsettle.ne_unsettled
  | stopped hstep =>
    intro hstop
    exact step_ne_unsettled _ _ (by rw [hstep]; exact hstop)

/-- **A text that can be read** without a bound is read so with any bound that is large enough. -/
theorem Feeds.exists_budget {cs : List α} {r : Run α q γ} {e : Ending α q γ}
    (h : a.Feeds vars cs r e) : ∃ budget, ∀ n ≥ budget, a.feed vars n cs r = e := by
  induction h with
  | done => exact ⟨0, fun _ _ => rfl⟩
  | next hstep hsettle _ ih =>
    obtain ⟨budget₁, hsettle⟩ := hsettle.exists_budget
    obtain ⟨budget₂, ih⟩ := ih
    refine ⟨max budget₁ budget₂, fun n hn => ?_⟩
    rw [feed, advance, hstep]
    dsimp only
    rw [hsettle n (by omega)]
    exact ih n (by omega)
  | stoppedAgain hstep hsettle =>
    obtain ⟨budget, hsettle⟩ := hsettle.exists_budget
    refine ⟨budget, fun n hn => ?_⟩
    rw [feed, advance, hstep]
    dsimp only
    rw [hsettle n hn]
  | stopped hstep => exact ⟨0, fun n _ => by rw [feed, advance, hstep]⟩

/-- **A bound that was enough** makes no difference. -/
theorem feeds_feed {budget : Nat} {cs : List α} {r : Run α q γ}
    (h : (a.feed vars budget cs r).1 ≠ .error .unsettled) :
    a.Feeds vars cs r (a.feed vars budget cs r) := by
  induction cs generalizing r with
  | nil => exact .done
  | cons c cs ih =>
    rw [feed, advance] at h ⊢
    rcases hstep : a.step vars c r with ⟨stop | _, r₁⟩
    · exact .stopped hstep
    · rw [hstep] at h
      dsimp only at h ⊢
      rcases hsettle : a.settle vars budget r₁ with ⟨stop | _, r₂⟩
      · rw [hsettle] at h
        have hsettles : a.Settles vars r₁ (a.settle vars budget r₁) :=
          settles_settle (by rw [hsettle]; exact h)
        exact .stoppedAgain hstep (hsettle ▸ hsettles)
      · rw [hsettle] at h
        have hsettles : a.Settles vars r₁ (a.settle vars budget r₁) :=
          settles_settle (by rw [hsettle]; simp)
        exact .next hstep (hsettle ▸ hsettles) (ih h)

/-! ## Texts one after the other -/

/-- **Two texts** are read as one: the second one goes on from where the first one ends. -/
theorem feeds_append {u v : List α} {r : Run α q γ} {e : Ending α q γ} :
    a.Feeds vars (u ++ v) r e ↔
      (∃ r', a.Feeds vars u r (.ok (), r') ∧ a.Feeds vars v r' e) ∨
        e.1 ≠ .ok () ∧ a.Feeds vars u r e := by
  induction u generalizing r with
  | nil =>
    constructor
    · exact fun h => .inl ⟨r, .done, h⟩
    · rintro (⟨r', hu, hv⟩ | ⟨he, hu⟩)
      · cases hu
        exact hv
      · cases hu
        exact absurd rfl he
  | cons c u ih =>
    constructor
    · intro h
      cases h with
      | next hstep hsettle hrest =>
        rcases ih.1 hrest with ⟨r', hu, hv⟩ | ⟨he, hu⟩
        · exact .inl ⟨r', .next hstep hsettle hu, hv⟩
        · exact .inr ⟨he, .next hstep hsettle hu⟩
      | stoppedAgain hstep hsettle => exact .inr ⟨by simp, .stoppedAgain hstep hsettle⟩
      | stopped hstep => exact .inr ⟨by simp, .stopped hstep⟩
    · rintro (⟨r', hu, hv⟩ | ⟨he, hu⟩)
      · cases hu with
        | next hstep hsettle hrest => exact .next hstep hsettle (ih.2 (.inl ⟨r', hrest, hv⟩))
      · cases hu with
        | next hstep hsettle hrest => exact .next hstep hsettle (ih.2 (.inr ⟨he, hrest⟩))
        | stoppedAgain hstep hsettle => exact .stoppedAgain hstep hsettle
        | stopped hstep => exact .stopped hstep

/-! ## What is left -/

theorem Settles.pushed_eq {r r' : Run α q γ} (h : a.Settles vars r (.ok (), r')) :
    r'.bench.pushed = [] := by
  obtain ⟨budget, hbudget⟩ := h.exists_budget
  exact pushed_settle (hbudget budget (Nat.le_refl _))

/-- **Nothing is left** to read again after a text, unless the text is empty: then nothing is
    read. -/
theorem Feeds.pushed_eq {cs : List α} {r r' : Run α q γ} (h : a.Feeds vars cs r (.ok (), r'))
    (hstart : cs ≠ [] ∨ r.bench.pushed = []) : r'.bench.pushed = [] := by
  induction cs generalizing r with
  | nil =>
    cases h
    simpa using hstart
  | cons c cs ih =>
    cases h with
    | next _ hsettle hrest => exact ih hrest (.inr hsettle.pushed_eq)

/-! ## The order of the symbols -/

theorem Settles.drains {r r' : Run α q γ} {us : List α} {e : Ending α q γ}
    (h : a.Settles vars r (.ok (), r')) (hrest : a.Drains vars r' us e) : a.Drains vars r us e := by
  -- the ending is an index that the induction needs as a variable
  generalize hout : ((.ok (), r') : Ending α q γ) = out at h
  induction h with
  | done => cases hout; exact hrest
  | again hpushed hstep _ ih => exact .again hpushed hstep (ih hout)
  | stopped => cases hout

theorem Settles.drains_of_error {r r' : Run α q γ} {us : List α} {stop : Stop α q}
    (h : a.Settles vars r (.error stop, r')) : a.Drains vars r us (.error stop, r') := by
  generalize hout : ((.error stop, r') : Ending α q γ) = out at h
  induction h with
  | done => cases hout
  | again hpushed hstep _ ih => exact .again hpushed hstep (ih hout)
  | stopped hpushed hstep => cases hout; exact .stoppedAgain hpushed hstep

/-- What was pushed back is read first, all of it. -/
theorem drains_iff {r : Run α q γ} {us : List α} {e : Ending α q γ} :
    a.Drains vars r us e ↔
      (∃ r', a.Settles vars r (.ok (), r') ∧ a.Feeds vars us r' e) ∨
        e.1 ≠ .ok () ∧ a.Settles vars r e := by
  constructor
  · intro h
    induction h with
    | done hempty => exact .inl ⟨_, .done hempty, .done⟩
    | again hpushed hstep _ ih =>
      rcases ih with ⟨r', hsettle, hfeed⟩ | ⟨he, hsettle⟩
      · exact .inl ⟨r', .again hpushed hstep hsettle, hfeed⟩
      · exact .inr ⟨he, .again hpushed hstep hsettle⟩
    | stoppedAgain hpushed hstep => exact .inr ⟨by simp, .stopped hpushed hstep⟩
    | next hempty hstep _ ih =>
      refine .inl ⟨_, .done hempty, ?_⟩
      rcases ih with ⟨r', hsettle, hfeed⟩ | ⟨he, hsettle⟩
      · exact .next hstep hsettle hfeed
      · rename_i e _
        rcases e with ⟨stop | _, r'⟩
        · exact .stoppedAgain hstep hsettle
        · exact absurd rfl he
    | stopped hempty hstep => exact .inl ⟨_, .done hempty, .stopped hstep⟩
  · rintro (⟨r', hsettle, hfeed⟩ | ⟨he, hsettle⟩)
    · refine hsettle.drains ?_
      have hempty := hsettle.pushed_eq
      clear hsettle
      induction hfeed with
      | done => exact .done hempty
      | next hstep hsettle _ ih => exact .next hempty hstep (hsettle.drains (ih hsettle.pushed_eq))
      | stoppedAgain hstep hsettle => exact .next hempty hstep hsettle.drains_of_error
      | stopped hstep => exact .stopped hempty hstep
    · rcases e with ⟨stop | _, r'⟩
      · exact hsettle.drains_of_error
      · exact absurd rfl he

/-- **The order.**  A symbol of a text is read, and then what is pushed back, the latest symbol
    first; the next symbol of the text is read when there is nothing left of that. -/
theorem feeds_cons {c : α} {cs : List α} {r : Run α q γ} {e : Ending α q γ} :
    a.Feeds vars (c :: cs) r e ↔
      (∃ r', a.step vars c r = (.ok (), r') ∧ a.Drains vars r' cs e) ∨
        e.1 ≠ .ok () ∧ a.step vars c r = e := by
  constructor
  · intro h
    cases h with
    | next hstep hsettle hrest => exact .inl ⟨_, hstep, drains_iff.2 (.inl ⟨_, hsettle, hrest⟩)⟩
    | stoppedAgain hstep hsettle => exact .inl ⟨_, hstep, hsettle.drains_of_error⟩
    | stopped hstep => exact .inr ⟨by simp, hstep⟩
  · rcases e with ⟨stop | _, r₂⟩
    · rintro (⟨r', hstep, hdrain⟩ | ⟨-, hstep⟩)
      · rcases drains_iff.1 hdrain with ⟨_, hsettle, hfeed⟩ | ⟨-, hsettle⟩
        · exact .next hstep hsettle hfeed
        · exact .stoppedAgain hstep hsettle
      · exact .stopped hstep
    · rintro (⟨r', hstep, hdrain⟩ | ⟨he, -⟩)
      · rcases drains_iff.1 hdrain with ⟨_, hsettle, hfeed⟩ | ⟨he, -⟩
        · exact .next hstep hsettle hfeed
        · exact absurd rfl he
      · exact absurd rfl he

/-! ## Every automaton -/

variable [DecidableEq α] [DecidableEq q]

/-- What is true of an automaton when its rules come from some calls. -/
structure Obeys (a : Automaton α q γ) (xs : List (Addition α q γ)) : Prop where
  /-- a symbol is processed by the rule that the calls leave for it -/
  processed : ∀ (vars : Lookup) (c : α) (r : Run α q γ),
    Processed vars c r (ruleFor? xs r.state c) (a.step vars c r)
  /-- without a rule there is a fault of grammar, and nothing changes -/
  undefined : ∀ (vars : Lookup) (c : α) (r : Run α q γ), ruleFor? xs r.state c = none →
    ∃ stop, a.step vars c r = (.error stop, r) ∧
      ∀ showSymbol showState, (stop.fault showSymbol showState).kind = .grammar
  /-- what a text comes to is what it comes to with any bound that is large enough -/
  bounded : ∀ (vars : Lookup) (cs : List α) (r : Run α q γ) (e : Ending α q γ),
    a.Feeds vars cs r e → e.1 ≠ .error .unsettled ∧ ∃ budget, ∀ n ≥ budget, a.feed vars n cs r = e
  enough : ∀ (vars : Lookup) (budget : Nat) (cs : List α) (r : Run α q γ),
    (a.feed vars budget cs r).1 ≠ .error .unsettled →
      a.Feeds vars cs r (a.feed vars budget cs r)
  append : ∀ (vars : Lookup) (u v : List α) (r : Run α q γ) (e : Ending α q γ),
    a.Feeds vars (u ++ v) r e ↔
      (∃ r', a.Feeds vars u r (.ok (), r') ∧ a.Feeds vars v r' e) ∨
        e.1 ≠ .ok () ∧ a.Feeds vars u r e
  /-- nothing is left to read again, if there was nothing before, -/
  settled : ∀ (vars : Lookup) (cs : List α) (r r' : Run α q γ), r.bench.pushed = [] →
    a.Feeds vars cs r (.ok (), r') → r'.bench.pushed = []
  /-- and after a text with a symbol, whatever there was before -/
  resettled : ∀ (vars : Lookup) (c : α) (cs : List α) (r r' : Run α q γ),
    a.Feeds vars (c :: cs) r (.ok (), r') → r'.bench.pushed = []
  order : ∀ (vars : Lookup) (c : α) (cs : List α) (r : Run α q γ) (e : Ending α q γ),
    a.Feeds vars (c :: cs) r e ↔
      (∃ r', a.step vars c r = (.ok (), r') ∧ a.Drains vars r' cs e) ∨
        e.1 ≠ .ok () ∧ a.step vars c r = e

/-- **Every automaton** that is built by adding rules finds the rule that was added last, changes
    nothing when there is none, and reads texts one after the other like one text. -/
theorem obeys_addAll (initial : q) (xs : List (Addition α q γ)) :
    Obeys ((ofInitial initial).addAll xs) xs where
  processed vars c r := by
    rw [← rule?_addAll initial]
    exact processed _ vars c r
  undefined vars c r hrule := by
    refine ⟨.undefined c r.state r.bench.pushed, ?_, fun _ _ => rfl⟩
    rw [step, rule?_addAll, hrule]
  bounded _ _ _ _ h := ⟨h.ne_unsettled, h.exists_budget⟩
  enough _ _ _ _ h := feeds_feed h
  append _ _ _ _ _ := feeds_append
  settled _ _ _ _ hstart h := h.pushed_eq (.inr hstart)
  resettled _ _ _ _ _ h := h.pushed_eq (.inl (List.cons_ne_nil _ _))
  order _ _ _ _ _ := feeds_cons

/-- A symbol that comes after a dash is pushed back, and read again in the initial state. -/
example :
    let push : Action Char (List Char) := fun _ c b => (.ok (), ⟨b.scratch ++ ['|'], c :: b.pushed⟩)
    let a := (ofInitial 0).addAll
      [.on '-' 0 ⟨none, some 1⟩, .onAny 1 ⟨some push, some 0⟩,
        .onAny 0 ⟨some (.change fun _ c text => text ++ [c]), none⟩]
    a.feed (fun _ => none) 1 ['a', '-', 'b'] (a.start []) =
      (.ok (), ⟨0, ⟨['a', '|', 'b'], []⟩⟩) := by rfl

end Automaton

end NestedShell
