import Highlighter.Text

/-!
What is worth a line in a log.
-/
namespace Highlighter

inductive Level where
  | error
  | warn
  | info
  | debug
  | trace
  deriving DecidableEq, Repr

namespace Level

def name : Level → Text
  | error => "ERROR"
  | warn => "WARN"
  | info => "INFO"
  | debug => "DEBUG"
  | trace => "TRACE"

/-- How much is said: a level lets all levels through that are no higher. -/
def verbosity : Level → Nat
  | error => 1
  | warn => 2
  | info => 3
  | debug => 4
  | trace => 5

end Level

inductive Event where
  /-- An edge of a match lies inside a character of the result. -/
  | skippedMatch (pattern : Text) (start stop : Nat)
  /-- A search gave up at a byte of the remainder. -/
  | stoppedScanning (pattern : Text) (position : Nat)
  | noFormatter (name : Text)
  | loadedSamples (count : Nat)
  | loadedConfig (path : Text)
  /-- A colour is set for something that is no category. -/
  | unknownColor (key : Text)
  | usingConfig (path : Text)
  | unknownLanguage (name : Text)
  deriving DecidableEq, Repr

namespace Event

def level : Event → Level
  | skippedMatch .. => .trace
  | stoppedScanning .. | unknownColor _ | unknownLanguage _ => .warn
  | noFormatter _ | loadedSamples _ | loadedConfig _ | usingConfig _ => .debug

/-- The part of the program that speaks. -/
def target : Event → Text
  | skippedMatch .. | stoppedScanning .. => "lavendeux_syntax::rule"
  | noFormatter _ => "lavendeux_syntax::registry"
  | loadedSamples _ => "lavendeux_syntax::sample"
  | loadedConfig _ | unknownColor _ => "lavendeux_syntax::config"
  | usingConfig _ | unknownLanguage _ => "lavendeux_syntax"

def message : Event → Text
  | skippedMatch pattern start stop =>
    "Skipping match " ++ Text.ofNat start ++ ".." ++ Text.ofNat stop ++ " of `" ++ pattern ++ "`"
  | stoppedScanning pattern position =>
    "Rule `" ++ pattern ++ "` stopped scanning at byte " ++ Text.ofNat position ++
      ": Error executing regex: Max limit for backtracking count exceeded"
  | noFormatter name => "No formatter for '" ++ name ++ "', using lavendeux"
  | loadedSamples count => "Loaded " ++ Text.ofNat count ++ " samples"
  | loadedConfig path => "Loaded config from " ++ path
  | unknownColor key => "Unknown category in [colors]: " ++ key
  | usingConfig path => "Using config file " ++ path
  | unknownLanguage name => "Unknown language '" ++ name ++ "', formatting as lavendeux"

end Event

end Highlighter
