/-
  What the expansion of an alias comes to.

  A name leads to the first word of its replacement, that one to the first word of its own, and so
  on.  The expansion follows this walk until a name is no alias, or until the next name is one that
  the walk has led to before.  The names that it has replaced on the way are different ones, so
  there are no more of them than aliases, and it ends.

  * `AliasTable.walk?` is the walk from a name, `Stops` says where the expansion stops on it,
    `walked` are the names that it has replaced by then;
  * `Expands` is the expansion as a loop that nothing bounds; `Expands.expandFrom_eq`: the bounded
    one comes to the same;
  * `unrolled` are the words that are left when names have been replaced;
  * `returnsElsewhere_iff`: the walk returns to an earlier name exactly if it runs into a cycle of
    several aliases;
  * `Unrolls` and `exists_unrolls` put this together.
-/
import Mathlib.Data.List.Perm.Subperm
import Mathlib.Data.Nat.Find
import Mathlib.Order.Bounds.Defs
import NestedShell.Proofs.AliasTable.Described

namespace NestedShell.AliasTable

/-! ## The walk -/

/-- The first word of the replacement, if the name is an alias. -/
def head? (t : AliasTable) (name : String) : Option String := (t.get? name).map (·.headD "")

/-- The name that a name leads to in a number of steps, as long as there is an alias. -/
def walk? (t : AliasTable) (name : String) : Nat → Option String
  | 0 => some name
  | n + 1 => (t.walk? name n).bind t.head?

variable {t : AliasTable} {x y z : String}

theorem walk?_add (t : AliasTable) (x : String) (m n : Nat) :
    t.walk? x (m + n) = (t.walk? x m).bind (t.walk? · n) := by
  induction n with
  | zero => simp [walk?]
  | succ n ih => rw [← Nat.add_assoc, walk?, ih, Option.bind_assoc]; rfl

theorem walk?_add_eq {m : Nat} (h : t.walk? x m = some y) (n : Nat) :
    t.walk? x (m + n) = t.walk? y n := by
  rw [walk?_add, h, Option.bind_some]

/-- A name that leads to itself leads nowhere else. -/
theorem walk?_eq_self (h : t.walk? x 1 = some x) (n : Nat) : t.walk? x n = some x := by
  induction n with
  | zero => rfl
  | succ n ih => rw [walk?_add_eq ih, h]

/-- The walk stops at a name that is no alias. -/
def Ends (t : AliasTable) (x : String) (k : Nat) : Prop :=
  ∃ y, t.walk? x k = some y ∧ t.get? y = none

/-- The name after `k` more steps is one that the walk has led to before. -/
def Returns (t : AliasTable) (x : String) (k : Nat) : Prop :=
  ∃ y, t.walk? x (k + 1) = some y ∧ ∃ i, 1 ≤ i ∧ i ≤ k ∧ t.walk? x i = some y

/-- Where the expansion stops. -/
def Stops (t : AliasTable) (x : String) (k : Nat) : Prop := t.Ends x k ∨ t.Returns x k

/-- The expansion does not stop before `k` steps. -/
def Goes (t : AliasTable) (x : String) (k : Nat) : Prop := ∀ j < k, ¬t.Stops x j

/-- The names that are replaced in a number of steps, the latest one first. -/
def walked (t : AliasTable) (x : String) : Nat → List String
  | 0 => []
  | k + 1 => (t.walk? x k).toList ++ t.walked x k

/-- The first words of their replacements, the latest one first. -/
def heads (t : AliasTable) (x : String) : Nat → List String
  | 0 => []
  | k + 1 => (t.walk? x (k + 1)).toList ++ t.heads x k

theorem mem_walked {k : Nat} : y ∈ t.walked x k ↔ ∃ i < k, t.walk? x i = some y := by
  induction k with
  | zero => simp [walked]
  | succ k ih =>
    simp only [walked, List.mem_append, Option.mem_toList, ih]
    constructor
    · rintro (h | ⟨i, hi, h⟩)
      exacts [⟨k, k.lt_succ_self, h⟩, ⟨i, Nat.lt_succ_of_lt hi, h⟩]
    · rintro ⟨i, hi, h⟩
      rcases Nat.lt_succ_iff_lt_or_eq.1 hi with hi | rfl
      exacts [.inr ⟨i, hi, h⟩, .inl h]

theorem mem_heads {k : Nat} : y ∈ t.heads x k ↔ ∃ i, 1 ≤ i ∧ i ≤ k ∧ t.walk? x i = some y := by
  induction k with
  | zero =>
    simp only [heads, List.not_mem_nil, false_iff]
    rintro ⟨i, h1, h0, -⟩
    omega
  | succ k ih =>
    simp only [heads, List.mem_append, Option.mem_toList, ih]
    constructor
    · rintro (h | ⟨i, h1, hi, h⟩)
      exacts [⟨k + 1, by omega, le_rfl, h⟩, ⟨i, h1, by omega, h⟩]
    · rintro ⟨i, h1, hi, h⟩
      rcases Nat.le_succ_iff.1 hi with hi | rfl
      exacts [.inr ⟨i, h1, hi, h⟩, .inl h]

/-! ## Names that are replaced -/

theorem Goes.mono {j k : Nat} (h : t.Goes x k) (hj : j ≤ k) : t.Goes x j :=
  fun i hi => h i (Nat.lt_of_lt_of_le hi hj)

/-- As long as the expansion does not stop there is a next name. -/
theorem Goes.exists_name {k : Nat} (h : t.Goes x k) : ∃ y, t.walk? x k = some y := by
  induction k with
  | zero => exact ⟨x, rfl⟩
  | succ k ih =>
    obtain ⟨y, hy⟩ := ih (h.mono k.le_succ)
    cases hget : t.get? y with
    | none => exact absurd (.inl ⟨y, hy, hget⟩) (h k k.lt_succ_self)
    | some words => exact ⟨words.headD "", by rw [walk?, hy, Option.bind_some, head?, hget]; rfl⟩

/-- The name that is replaced, with its replacement: it leads to a name that is new. -/
theorem Goes.exists_words {k : Nat} (h : t.Goes x (k + 1)) :
    ∃ y words, t.walk? x k = some y ∧ t.get? y = some words ∧
      t.walk? x (k + 1) = some (words.headD "") ∧ words.headD "" ∉ t.heads x k := by
  obtain ⟨y, hy⟩ := (h.mono k.le_succ).exists_name
  obtain ⟨z, hz⟩ := h.exists_name
  obtain ⟨words, hwords, rfl⟩ : ∃ words, t.get? y = some words ∧ words.headD "" = z := by
    rw [walk?, hy, Option.bind_some, head?, Option.map_eq_some_iff] at hz
    exact hz
  exact ⟨y, words, hy, hwords, hz,
    fun hmem => h k k.lt_succ_self (.inr ⟨_, hz, mem_heads.1 hmem⟩)⟩

/-- **No name is replaced twice**: what it leads to would come twice as well. -/
theorem Goes.nodup_walked {k : Nat} (h : t.Goes x k) : (t.walked x k).Nodup := by
  induction k with
  | zero => exact List.nodup_nil
  | succ k ih =>
    obtain ⟨y, words, hy, hwords, hnext, hnew⟩ := h.exists_words
    rw [walked, hy]
    refine List.nodup_cons.2 ⟨fun hmem => hnew ?_, ih (h.mono k.le_succ)⟩
    obtain ⟨i, hi, hsame⟩ := mem_walked.1 hmem
    refine mem_heads.2 ⟨i + 1, by omega, hi, ?_⟩
    rw [← hnext, walk?, walk?, hsame, hy]

theorem Goes.length_walked {k : Nat} (h : t.Goes x k) : (t.walked x k).length = k := by
  induction k with
  | zero => rfl
  | succ k ih =>
    obtain ⟨y, hy⟩ := (h.mono k.le_succ).exists_name
    rw [walked, hy, Option.toList_some, List.singleton_append, List.length_cons,
      ih (h.mono k.le_succ)]

/-- **Every name that is replaced is an alias**, so there are no more of them than aliases. -/
theorem Goes.le_size {k : Nat} (h : t.Goes x k) : k ≤ t.entries.size := by
  have hsub : t.walked x k ⊆ t.names := by
    intro y hy
    obtain ⟨i, hi, hname⟩ := mem_walked.1 hy
    obtain ⟨y', words, hy', hwords, -⟩ := (h.mono hi).exists_words
    obtain rfl : y' = y := Option.some.inj (hy'.symm.trans hname)
    rw [mem_names, hwords, Option.isSome_some]
  have hle := (h.nodup_walked.subperm hsub).length_le
  rwa [h.length_walked, names, Std.TreeMap.length_keys] at hle

/-- **The expansion stops.** -/
theorem exists_isLeast_stops (t : AliasTable) (x : String) : ∃ k, IsLeast {k | t.Stops x k} k := by
  classical
  have hstops : ∃ k, t.Stops x k := by
    by_contra hnone
    have hgoes : t.Goes x (t.entries.size + 1) := fun j _ hj => hnone ⟨j, hj⟩
    exact absurd hgoes.le_size (by omega)
  exact ⟨Nat.find hstops, Nat.find_spec hstops, fun j hj => Nat.find_min' hstops hj⟩

theorem goes_of_isLeast {k : Nat} (h : IsLeast {k | t.Stops x k} k) : t.Goes x k :=
  fun _ hj hstops => absurd (h.2 hstops) (by omega)

/-! ## The loop -/

/-- The expansion of a statement, as a loop that nothing bounds: after the first words of the
    replacements so far and with the words at hand, it replaces some names and ends with a result. -/
inductive Expands (t : AliasTable) :
    List String → List String → List String → Except Fault (List String) → Prop where
  | empty {seen : List String} : Expands t seen [] [] (.ok [])
  | noAlias {seen args : List String} {name : String} (hname : t.get? name = none) :
      Expands t seen (name :: args) [] (.ok (name :: args))
  | stopped {seen args words : List String} {name : String} (hname : t.get? name = some words)
      (hseen : words.headD "" ∈ seen) (hpolicy : ¬(t.policy = .reject ∧ words.headD "" ≠ name)) :
      Expands t seen (name :: args) [] (.ok (name :: args))
  | rejected {seen args words : List String} {name : String} (hname : t.get? name = some words)
      (hseen : words.headD "" ∈ seen) (hpolicy : t.policy = .reject ∧ words.headD "" ≠ name) :
      Expands t seen (name :: args) [] (.error ⟨.aliasLoop seen.reverse, none⟩)
  | replaced {seen args words names : List String} {name : String}
      {result : Except Fault (List String)} (hname : t.get? name = some words)
      (hnew : words.headD "" ∉ seen)
      (rest : Expands t (words.headD "" :: seen) (words ++ args) names result) :
      Expands t seen (name :: args) (name :: names) result

/-- **The bound does not matter** when there are more rounds than names that are replaced. -/
theorem Expands.expandFrom_eq {seen argv names : List String} {result : Except Fault (List String)}
    (h : t.Expands seen argv names result) {rounds : Nat} (hrounds : names.length ≤ rounds) :
    t.expandFrom (rounds + 1) seen argv = result := by
  induction h generalizing rounds with
  | empty => rfl
  | noAlias hname => simp only [expandFrom, hname]
  | stopped hname hseen hpolicy =>
    simp only [expandFrom, hname, hseen, if_true]
    exact if_neg hpolicy
  | rejected hname hseen hpolicy =>
    simp only [expandFrom, hname, hseen, if_true]
    exact if_pos hpolicy
  | replaced hname hnew _ ih =>
    obtain ⟨rounds, rfl⟩ := Nat.exists_eq_add_one_of_ne_zero (Nat.ne_zero_of_lt hrounds)
    simp only [expandFrom, hname, hnew, if_false]
    exact ih (by simpa using hrounds)

/-! ## The words that are left -/

/-- The words of an alias. -/
def replacement (t : AliasTable) (name : String) : List String := (t.get? name).getD []

/-- The words of a statement when names have been replaced, the latest one first: the whole
    replacement of the latest one, those of the others without their first words, and the words
    that stood behind the first one. -/
def unrolled (t : AliasTable) (argv : List String) : List String → List String
  | [] => argv
  | name :: names =>
    t.replacement name ++ (names.flatMap fun name => (t.replacement name).tail) ++ argv.tail

/-- The words behind the name that the walk has led to are those that the earlier names left. -/
theorem unrolled_walked (ht : t.Reached) {k : Nat} (h : t.Goes x k) (args : List String)
    (hy : t.walk? x k = some y) :
    t.unrolled (x :: args) (t.walked x k) =
      y :: (((t.walked x k).flatMap fun name => (t.replacement name).tail) ++ args) := by
  cases k with
  | zero =>
    cases hy
    rfl
  | succ k =>
    obtain ⟨z, words, hz, hwords, hnext, -⟩ := h.exists_words
    obtain rfl : words.headD "" = y := Option.some.inj (hnext.symm.trans hy)
    cases words with
    | nil => exact absurd rfl (ht.entry hwords).2
    | cons word words =>
      simp only [walked, hz, unrolled, replacement, hwords, Option.toList_some, Option.getD_some,
        List.singleton_append, List.flatMap_cons, List.tail_cons, List.headD_cons]
      simp

/-- **The loop replaces the names of the walk**, as long as it does not stop. -/
theorem Goes.expands (ht : t.Reached) {k : Nat} (h : t.Goes x k) {args names : List String}
    {result : Except Fault (List String)}
    (hrest : t.Expands (t.heads x k) (t.unrolled (x :: args) (t.walked x k)) names result) :
    t.Expands [] (x :: args) ((t.walked x k).reverse ++ names) result := by
  induction k generalizing names with
  | zero => exact hrest
  | succ k ih =>
    obtain ⟨y, words, hy, hwords, hnext, hnew⟩ := h.exists_words
    have hgoes := h.mono k.le_succ
    have hhere := unrolled_walked ht hgoes args hy
    have hthere : t.unrolled (x :: args) (t.walked x (k + 1)) =
        words ++ (((t.walked x k).flatMap fun name => (t.replacement name).tail) ++ args) := by
      simp only [walked, hy, Option.toList_some, List.singleton_append, unrolled, replacement,
        hwords, Option.getD_some, List.tail_cons, List.append_assoc]
    rw [heads, hnext, hthere] at hrest
    have hreplaced : t.Expands _ _ (y :: names) result := .replaced hwords hnew hrest
    rw [← hhere] at hreplaced
    have hstep := ih hgoes hreplaced
    rwa [walked, hy, Option.toList_some, List.singleton_append, List.reverse_cons,
      List.append_assoc, List.singleton_append]

/-! ## Cycles -/

/-- The walk returns to an earlier name, and not to the one that it comes from. -/
def ReturnsElsewhere (t : AliasTable) (x : String) (k : Nat) : Prop :=
  t.Returns x k ∧ t.walk? x (k + 1) ≠ t.walk? x k

/-- The walk runs into a cycle of two or more aliases: it leads to a name that leads back to itself
    in several steps, and not in fewer. -/
def RunsIntoCycle (t : AliasTable) (x : String) : Prop :=
  ∃ i y n, t.walk? x i = some y ∧ 2 ≤ n ∧ t.walk? y n = some y ∧
    ∀ m, 0 < m → m < n → t.walk? y m ≠ some y

/-- A name that leads back to itself does so again and again. -/
theorem walk?_mul_eq {n : Nat} (h : t.walk? y n = some y) (q : Nat) :
    t.walk? y (n * q) = some y := by
  induction q with
  | zero => rfl
  | succ q ih => rw [Nat.mul_succ, walk?_add_eq ih, h]

/-- The names that the walk leads to before it stops are different ones. -/
theorem Goes.walk?_ne {i j k : Nat} (h : t.Goes x k) (hi : 1 ≤ i) (hij : i < j) (hj : j ≤ k)
    (hy : t.walk? x i = some y) : t.walk? x j ≠ some y := by
  intro hsame
  obtain ⟨j, rfl⟩ := Nat.exists_eq_add_one_of_ne_zero (Nat.ne_zero_of_lt hij)
  exact h j (by omega) (.inr ⟨y, hsame, i, hi, by omega, hy⟩)

/-- Where the walk has stopped and did not return, it leads nowhere. -/
theorem Ends.walk?_eq_none {k : Nat} (h : t.Ends x k) {m : Nat} (hm : k < m) :
    t.walk? x m = none := by
  obtain ⟨y, hy, hget⟩ := h
  obtain ⟨d, rfl⟩ : ∃ d, m = k + (1 + d) := ⟨m - k - 1, by omega⟩
  have hnone : t.walk? y 1 = none := by simp [walk?, head?, hget]
  rw [walk?_add_eq hy, walk?_add, hnone, Option.bind_none]

/-- **The walk returns to an earlier name** exactly if it runs into a cycle of several aliases. -/
theorem returnsElsewhere_iff {k : Nat} (h : IsLeast {k | t.Stops x k} k) :
    t.ReturnsElsewhere x k ↔ t.RunsIntoCycle x := by
  have hgoes := goes_of_isLeast h
  constructor
  · rintro ⟨⟨y, hback, i, hi, hik, hy⟩, helsewhere⟩
    have hlt : i < k := Nat.lt_of_le_of_ne hik fun heq => helsewhere (by rw [hback, ← heq, hy])
    refine ⟨i, y, k + 1 - i, hy, by omega, ?_, fun m hm hmn => ?_⟩
    · rw [← walk?_add_eq hy, ← hback]
      congr 1
      omega
    · rw [← walk?_add_eq hy]
      exact hgoes.walk?_ne hi (by omega) (by omega) hy
  · rintro ⟨i, y, n, hy, hn, hcycle, hfirst⟩
    have hagain (q : Nat) : t.walk? x (i + n * q) = some y := by
      rw [walk?_add_eq hy, walk?_mul_eq hcycle]
    have hfar : k < i + n * (k + 1) := by
      have := Nat.le_mul_of_pos_left (k + 1) (show 0 < n by omega)
      omega
    rcases h.1 with hends | hreturns
    · exact absurd (hends.walk?_eq_none hfar) (by simp [hagain])
    · refine ⟨hreturns, fun hself => ?_⟩
      -- a name that leads to itself is the only one from there on
      obtain ⟨z, hback, -⟩ := hreturns
      have hz : t.walk? x k = some z := hself.symm.trans hback
      have hone : t.walk? z 1 = some z := by rw [← walk?_add_eq hz, hback]
      obtain rfl : z = y := by
        have hsame := hagain (k + 1)
        rw [show i + n * (k + 1) = k + (i + n * (k + 1) - k) by omega, walk?_add_eq hz,
          walk?_eq_self hone] at hsame
        exact Option.some.inj hsame
      exact hfirst 1 (by omega) (by omega) hone

/-! ## The closed form -/

/-- **Where the loop stops** it fails if the walk returns elsewhere and that is to be rejected. -/
theorem exists_expands (ht : t.Reached) {k : Nat} (h : IsLeast {k | t.Stops x k} k)
    (args : List String) :
    ∃ result, t.Expands [] (x :: args) (t.walked x k).reverse result ∧
      (t.policy = .reject ∧ t.ReturnsElsewhere x k →
        result = .error ⟨.aliasLoop (t.heads x k).reverse, none⟩) ∧
      (¬(t.policy = .reject ∧ t.ReturnsElsewhere x k) →
        result = .ok (t.unrolled (x :: args) (t.walked x k))) := by
  have hgoes := goes_of_isLeast h
  obtain ⟨y, hy⟩ := hgoes.exists_name
  have hhere := unrolled_walked ht hgoes args hy
  have hrun {result : Except Fault (List String)}
      (hlast : t.Expands (t.heads x k) (t.unrolled (x :: args) (t.walked x k)) [] result) :
      t.Expands [] (x :: args) (t.walked x k).reverse result := by
    have hall := hgoes.expands ht hlast
    rwa [List.append_nil] at hall
  rw [hhere] at hrun ⊢
  cases hget : t.get? y with
  | none =>
    refine ⟨_, hrun (.noAlias hget), ?_, fun _ => rfl⟩
    rintro ⟨-, ⟨z, hz, -⟩, -⟩
    rw [walk?, hy, Option.bind_some, head?, hget] at hz
    cases hz
  | some words =>
    have hnext : t.walk? x (k + 1) = some (words.headD "") := by
      rw [walk?, hy, Option.bind_some, head?, hget]
      rfl
    have hreturns : t.Returns x k := by
      refine h.1.resolve_left ?_
      rintro ⟨y', hy', hnone⟩
      obtain rfl : y = y' := Option.some.inj (hy.symm.trans hy')
      rw [hget] at hnone
      cases hnone
    have hseen : words.headD "" ∈ t.heads x k := by
      obtain ⟨z, hz, hearlier⟩ := hreturns
      obtain rfl : words.headD "" = z := Option.some.inj (hnext.symm.trans hz)
      exact mem_heads.2 hearlier
    have helsewhere : t.ReturnsElsewhere x k ↔ words.headD "" ≠ y := by
      rw [ReturnsElsewhere, and_iff_right hreturns, hnext, hy, ne_eq, Option.some.injEq]
    rw [helsewhere]
    by_cases hpolicy : t.policy = .reject ∧ words.headD "" ≠ y
    · exact ⟨_, hrun (.rejected hget hseen hpolicy), fun _ => rfl, fun hnot => absurd hpolicy hnot⟩
    · exact ⟨_, hrun (.stopped hget hseen hpolicy), fun h => absurd h hpolicy, fun _ => rfl⟩

/-- What the expansion of a statement comes to when its walk stops after `k` steps. -/
structure Unrolls (t : AliasTable) (x : String) (args : List String) (k : Nat) : Prop where
  least : IsLeast {k | t.Stops x k} k
  /-- the loop ends when it has replaced the names of the walk up to there -/
  expands : t.Expands [] (x :: args) (t.walked x k).reverse (t.expand (x :: args))
  once : (t.walked x k).Nodup
  /-- what is left are the words of the last name, and the rest of the words before -/
  words : ∀ argv, t.expand (x :: args) = .ok argv → argv = t.unrolled (x :: args) (t.walked x k)
  stop : t.policy = .stop → ∃ argv, t.expand (x :: args) = .ok argv
  reject : t.policy = .reject →
    ((∃ fault, t.expand (x :: args) = .error fault) ↔ t.ReturnsElsewhere x k)
  kind : ∀ fault, t.expand (x :: args) = .error fault → fault.kind = .aliasing
  /-- which is so when the walk runs into a cycle of several aliases -/
  cycle : t.ReturnsElsewhere x k ↔ t.RunsIntoCycle x

/-- **The expansion of an alias.**  The walk from the first word of a statement stops, and so the
    expansion ends; it fails exactly if cycles are to be rejected and the walk runs into one of
    several aliases, and otherwise its words are those of the names that it has replaced. -/
theorem exists_unrolls (ht : t.Reached) (x : String) (args : List String) :
    ∃ k, t.Unrolls x args k := by
  obtain ⟨k, hk⟩ := t.exists_isLeast_stops x
  have hgoes := goes_of_isLeast hk
  obtain ⟨result, hexpands, hrejected, hok⟩ := exists_expands ht hk args
  have hresult : t.expand (x :: args) = result :=
    hexpands.expandFrom_eq (by rw [List.length_reverse, hgoes.length_walked]; exact hgoes.le_size)
  rw [← hresult] at hexpands hrejected hok
  by_cases hfails : t.policy = .reject ∧ t.ReturnsElsewhere x k
  · have herror := hrejected hfails
    exact ⟨k, {
      least := hk
      expands := hexpands
      once := hgoes.nodup_walked
      words := fun argv hargv => by simp [herror] at hargv
      stop := fun hstop => absurd (hstop.symm.trans hfails.1) (by decide)
      reject := fun _ => iff_of_true ⟨_, herror⟩ hfails.2
      kind := fun fault hfault => by
        obtain rfl := Except.error.inj (herror.symm.trans hfault)
        rfl
      cycle := returnsElsewhere_iff hk }⟩
  · have hwords := hok hfails
    have hnoFault (fault : Fault) : t.expand (x :: args) ≠ .error fault := by simp [hwords]
    exact ⟨k, {
      least := hk
      expands := hexpands
      once := hgoes.nodup_walked
      words := fun argv hargv => (Except.ok.inj (hwords.symm.trans hargv)).symm
      stop := fun _ => ⟨_, hwords⟩
      reject := fun hpolicy => iff_of_false (fun ⟨fault, hfault⟩ => hnoFault fault hfault)
        fun helsewhere => hfails ⟨hpolicy, helsewhere⟩
      kind := fun fault hfault => absurd hfault (hnoFault fault)
      cycle := returnsElsewhere_iff hk }⟩

/-- A chain of aliases that ends in an alias of itself, and two aliases of each other. -/
def tangled : AliasTable where
  entries := (((((∅ : Std.TreeMap String (List String)).insert "ls" ["ls", "-l"]).insert "ll"
    ["ls", "-a"]).insert "l" ["ll", "-h"]).insert "a" ["b", "x"]).insert "b" ["a", "y"]
  policy := .reject

theorem reached_tangled : tangled.Reached := by
  have hset {t : AliasTable} (ht : t.Reached) {name : String} {words : List String}
      (hname : name ≠ "") (hwords : words.headD "" ≠ "") :
      ({ t with entries := t.entries.insert name words } : AliasTable).Reached :=
    .set ht (set_eq_ok hname hwords t)
  exact hset (hset (hset (hset (hset (.empty .reject) (by decide) (by decide)) (by decide)
    (by decide)) (by decide) (by decide)) (by decide) (by decide)) (by decide) (by decide)

/-- The chain is followed to the alias of itself; the two aliases of each other are rejected. -/
theorem unrolls_tangled :
    tangled.Reached ∧
    ((∃ k, tangled.Unrolls "l" ["dir"] k) ∧
      tangled.expand ["l", "dir"] = .ok ["ls", "-a", "-h", "dir"]) ∧
    (∃ k, tangled.Unrolls "a" [] k) ∧
      tangled.expand ["a"] = .error ⟨.aliasLoop ["b", "a"], none⟩ :=
  ⟨reached_tangled, ⟨exists_unrolls reached_tangled "l" ["dir"], by decide +kernel⟩,
    exists_unrolls reached_tangled "a" [], by decide +kernel⟩

end NestedShell.AliasTable
