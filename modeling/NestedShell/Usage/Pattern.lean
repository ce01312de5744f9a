/-
  Patterns of command lines, and matching words against them.

  A pattern describes the words after a command's name, in order.  Options may stand anywhere on a
  command line, so an option in a pattern matches no word: it only declares a name.

  * `Pattern` is the syntax;
  * an `Attempt` notes what is captured on a trail, and takes it back when it fails;
  * `Pattern.walk` matches depth first: an optional part is taken before it is skipped, a repeated
    part as often as possible first, alternatives from left to right;
  * `Pattern.match?` are the words captured by the first match of all words;
  * `Pattern.flags` and `Pattern.valuedOptions` are the options that a pattern declares.
-/

namespace NestedShell.Usage

/-- What the words after the name of a command may be. -/
inductive Pattern where
  /-- this word -/
  | literal (word : String)
  /-- any word, bound to a name -/
  | argument (name : String)
  /-- declares an option without a value -/
  | flag (name : String)
  /-- declares an option with a value -/
  | valued (name : String)
  | empty
  | seq (first second : Pattern)
  | alt (first second : Pattern)
  | optional (inner : Pattern)
  | group (inner : Pattern)
  /-- a pattern once or several times -/
  | oneOrMore (inner : Pattern)
deriving DecidableEq, Repr

/-- A word that was matched. -/
inductive Capture where
  | word (word : String)
  /-- a word that is bound to a name -/
  | value (name text : String)
deriving DecidableEq, Repr

namespace Pattern

/-- Patterns one after the other. -/
def seqAll (ps : List Pattern) : Pattern := ps.foldr seq empty

/-- One of several patterns. -/
def altAll : List Pattern → Pattern
  | [] => empty
  | [p] => p
  | p :: ps => alt p (altAll ps)

/-! ## Attempts -/

/-- The captures so far, the latest one first. -/
abbrev Trail := List Capture

/-- Something that may add to the trail, and answers whether it succeeds. -/
abbrev Attempt := Trail → Bool × Trail

/-- What follows a match: an attempt with the words that are left. -/
abbrev Continuation := List String → Attempt

namespace Attempt

/-- The attempt that fails at once. -/
def fail (trail : Trail) : Bool × Trail := (false, trail)

/-- Attempts something else when the first attempt fails. -/
def orElse (first second : Attempt) (trail : Trail) : Bool × Trail :=
  match first trail with
  | (true, trail') => (true, trail')
  | (false, trail') => second trail'

/-- Notes a capture for an attempt, and when that fails, cuts the trail to the length that it had. -/
def noting (c : Capture) (rest : Attempt) (trail : Trail) : Bool × Trail :=
  match rest (c :: trail) with
  | (true, trail') => (true, trail')
  | (false, trail') => (false, trail'.drop (trail'.length - trail.length))

end Attempt

/-! ## Matching -/

/-- A part that matches once or several times.  After each time it is tried again as long as that
    consumed a word, which bounds the number of times. -/
def rounds (once : Continuation → Continuation) (k : Continuation) (words : List String) :
    Attempt :=
  once (fun rest => Attempt.orElse
    (if _h : rest.length < words.length then rounds once k rest else Attempt.fail) (k rest)) words
termination_by words.length

/-- Matches a first part of the words, in every way that `k` may accept. -/
def walk : Pattern → Continuation → Continuation
  | literal word, k => fun words =>
    match words with
    | [] => Attempt.fail
    | w :: rest => if w = word then Attempt.noting (.word word) (k rest) else Attempt.fail
  | argument name, k => fun words =>
    match words with
    | [] => Attempt.fail
    | w :: rest => Attempt.noting (.value name w) (k rest)
  | flag _, k | valued _, k | empty, k => k
  | seq p q, k => walk p (walk q k)
  | alt p q, k => fun words => Attempt.orElse (walk p k words) (walk q k words)
  | optional p, k => fun words => Attempt.orElse (walk p k words) (k words)
  | group p, k => walk p k
  | oneOrMore p, k => rounds (walk p) k

/-- The captures, in order, of the first match of all words. -/
def match? (p : Pattern) (words : List String) : Option (List Capture) :=
  match p.walk (fun rest trail => (rest = [], trail)) words [] with
  | (true, trail) => some trail.reverse
  | (false, _) => none

/-! ## Declared options -/

/-- The declared options without a value. -/
def flags : Pattern → List String
  | flag name => [name]
  | literal _ | argument _ | valued _ | empty => []
  | seq p q | alt p q => p.flags ++ q.flags
  | optional p | group p | oneOrMore p => p.flags

/-- The declared options with a value. -/
def valuedOptions : Pattern → List String
  | valued name => [name]
  | literal _ | argument _ | flag _ | empty => []
  | seq p q | alt p q => p.valuedOptions ++ q.valuedOptions
  | optional p | group p | oneOrMore p => p.valuedOptions

end Pattern

end NestedShell.Usage
