import Highlighter.Event
import Highlighter.Pattern
import Highlighter.Text.Quoted

/-!
A formatting rule replaces the matches of a pattern.  It works on two texts of the same length in
bytes: the result, which is the text with all markup so far, and the remainder, where everything
that a rule has already replaced is blank.  Matches are searched for in the remainder and replaced
in the result, so that no rule matches inside the markup of another.
-/
namespace Highlighter

/-- What becomes of a matched text. -/
abbrev Handler := Text → Text

structure Buffers where
  result : Text
  remainder : Text
  deriving DecidableEq, Repr

/-- Both texts before any rule has worked on them. -/
def Buffers.ofInput (input : Text) : Buffers := ⟨input.trim, input.trim⟩

inductive Rule where
  /-- Replaces every match of the pattern. -/
  | regex (pattern : Pattern) (handler : Handler)
  /-- Replaces the result as a whole. -/
  | wholeText (handler : Handler)

/-- Why a scan ended. -/
inductive Ending where
  /-- There was no further match. -/
  | noMatch
  /-- The next search would have begun beyond the end. -/
  | pastEnd
  /-- A search gave up. -/
  | gaveUp
  /-- The scan made all the searches that it was allowed. -/
  | cutOff
  deriving DecidableEq, Repr

/-- What a scan makes of the texts that lie ahead of it. -/
structure Scan where
  result : Text
  remainder : Text
  events : List Event
  ending : Ending
  deriving DecidableEq, Repr

namespace Scan

/-- The scan with `result` and `remainder` before its own texts. -/
def behind (result remainder : Text) (s : Scan) : Scan :=
  { s with result := result ++ s.result, remainder := remainder ++ s.remainder }

/-- The scan with `events` before its own. -/
def since (events : List Event) (s : Scan) : Scan := { s with events := events ++ s.events }

end Scan

/-- What a scan passes over when it leaves a match as it is, and what then lies ahead: the match, or
one character after an empty match. -/
def Match.passed? (m : Match) : Option (Text × Text) :=
  match m.matched, m.rest with
  | [], [] => none
  | [], c :: rest => some ([c], rest)
  | matched, rest => some (matched, rest)

/-- What is done about a match. -/
inductive Treatment where
  /-- The match is left as it is. -/
  | leave (events : List Event)
  /-- The match is replaced; `kept` stands between the last replacement and this one, and `tail`
  after it. -/
  | replace (kept replacement tail : Text)

/-- What is done about a match that begins at the byte `start` of the remainder.  The match is
replaced where both its edges are edges of characters in `pending`, which begins `gap` bytes before
the place of the search.  To replace nothing by nothing is to leave it. -/
def Match.treat (m : Match) (source : Text) (handler : Handler) (start gap : Nat) (pending : Text) :
    Treatment :=
  match pending.sliceAt? (gap + m.skipped.byteLength) m.matched.byteLength with
  | none => .leave [.skippedMatch source start (start + m.matched.byteLength)]
  | some (kept, slice, tail) =>
    let replacement := handler slice
    if m.matched = [] ∧ replacement = [] then .leave [] else .replace kept replacement tail

namespace Rule

/-- Scans on from a place in the remainder.  `position` is its offset in bytes, `left` stands before
it (nearest character first) and `right` after it.  The part of the result that no handler has seen
is `pending`; it begins `gap` bytes before the place.  At most `searches` searches are made.

After a replacement the place is the end of what was put in, which is blank in the remainder; after
a match that is left as it is, it is the end of what is passed over. -/
def scan (pattern : Pattern) (handler : Handler) :
    (searches position : Nat) → (left right : Text) → (gap : Nat) → (pending : Text) → Scan
  | 0, _, _, right, _, pending => ⟨pending, right, [], .cutOff⟩
  | searches + 1, position, left, right, gap, pending =>
    match pattern.search left right with
    | .nowhere => ⟨pending, right, [], .noMatch⟩
    | .gaveUp => ⟨pending, right, [.stoppedScanning pattern.source position], .gaveUp⟩
    | .found m =>
      let start := position + m.skipped.byteLength
      match m.treat pattern.source handler start gap pending with
      | .leave events =>
        match m.passed? with
        -- An empty match at the end: the next search would begin behind it.
        | none => ⟨pending, right, events, .pastEnd⟩
        | some (passed, rest) =>
          ((scan pattern handler searches (start + passed.byteLength)
            (passed.reverseAux (m.skipped.reverseAux left)) rest
            (gap + m.skipped.byteLength + passed.byteLength) pending).behind
              [] (m.skipped ++ passed)).since events
      | .replace kept replacement tail =>
        (scan pattern handler searches (start + replacement.byteLength)
          (replacement.shadow ++ m.skipped.reverseAux left) m.rest 0 tail).behind
            (kept ++ replacement) (m.skipped ++ replacement.shadow)

/-- The searches that a scan may make.  Without an empty match that is replaced by something, every
search takes up at least one character of the remainder.  Such a match can be followed by another
one in its place only as long as the pattern sees something else than blanks before it. -/
def searchBound (pattern : Pattern) (b : Buffers) : Nat :=
  (b.remainder.length + 1) * (pattern.regex.reach + 2)

/-- The scan over the whole of both texts. -/
def scanAll (pattern : Pattern) (handler : Handler) (b : Buffers) : Scan :=
  scan pattern handler (searchBound pattern b) 0 [] b.remainder 0 b.result

/-- Both texts after the rule. -/
def apply : Rule → Buffers → Buffers
  | regex pattern handler, b =>
    let s := scanAll pattern handler b
    ⟨s.result, s.remainder⟩
  | wholeText handler, b => ⟨handler b.result, handler b.result⟩

/-- What there is to say about applying the rule. -/
def events : Rule → Buffers → List Event
  | regex pattern handler, b => (scanAll pattern handler b).events
  | wholeText _, _ => []

def isWholeText : Rule → Bool
  | regex .. => false
  | wholeText _ => true

/-- The pattern as it was written. -/
def patternText : Rule → Text
  | regex pattern _ => pattern.source
  | wholeText _ => "<whole string>"

/-- The rule as it is shown to a developer. -/
def describe (r : Rule) : Text :=
  "Rule \x7b pattern: " ++ r.patternText.quoted ++ " \x7d"

end Rule

end Highlighter
