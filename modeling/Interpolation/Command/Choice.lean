import Interpolation.Text.Utf8

/-!
# What can be chosen on the command line

Switches, which take no value, settings, which take one, and the two requests for information. Each
has a long name, most have a short one, and no two share either.
-/

namespace Interpolation.Command

inductive Switch where
  | noEnvironment
  | keepMissing
  | noEscapes
  | list
  | verbose
  | quiet
  deriving DecidableEq, Repr

inductive Setting where
  | input
  | output
  | assignment
  deriving DecidableEq, Repr

inductive Choice where
  | switch (s : Switch)
  | setting (s : Setting)
  | help
  | version
  deriving DecidableEq, Repr

namespace Choice

def all : List Choice :=
  [.setting .input, .setting .output, .setting .assignment, .switch .noEnvironment,
    .switch .keepMissing, .switch .noEscapes, .switch .list, .switch .verbose, .switch .quiet,
    .help, .version]

def longName : Choice → Text
  | .setting .input => "input".toList
  | .setting .output => "output".toList
  | .setting .assignment => "variable".toList
  | .switch .noEnvironment => "no-env".toList
  | .switch .keepMissing => "keep-missing".toList
  | .switch .noEscapes => "no-escapes".toList
  | .switch .list => "list".toList
  | .switch .verbose => "verbose".toList
  | .switch .quiet => "quiet".toList
  | .help => "help".toList
  | .version => "version".toList

def shortName? : Choice → Option Char
  | .setting .input => some 'i'
  | .setting .output => some 'o'
  | .setting .assignment => some 'D'
  | .switch .noEnvironment => none
  | .switch .keepMissing => some 'k'
  | .switch .noEscapes => none
  | .switch .list => some 'l'
  | .switch .verbose => some 'v'
  | .switch .quiet => some 'q'
  | .help => some 'h'
  | .version => some 'V'

def ofLongName? (name : Text) : Option Choice :=
  all.find? fun choice => choice.longName = name

def ofShortName? (c : Char) : Option Choice :=
  all.find? fun choice => choice.shortName? = some c

theorem ofLongName?_longName (choice : Choice) : ofLongName? choice.longName = some choice := by
  cases choice with
  | switch s => cases s <;> decide
  | setting s => cases s <;> decide
  | help => decide
  | version => decide

theorem ofShortName?_of_shortName? {choice : Choice} {c : Char} (h : choice.shortName? = some c) :
    ofShortName? c = some choice := by
  cases choice with
  | switch s => cases s <;> cases h <;> decide
  | setting s => cases s <;> cases h <;> decide
  | help => cases h; decide
  | version => cases h; decide

def valueName : Choice → Text
  | .setting .input | .setting .output => " <FILE>".toList
  | .setting .assignment => " <KEY=VALUE>".toList
  | _ => []

def describe (choice : Choice) : Text :=
  "--".toList ++ choice.longName ++ choice.valueName

end Choice

end Interpolation.Command
