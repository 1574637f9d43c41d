import Addons.Command.Arguments
import Addons.Text

/-!
# Log filters

A log filter is a list of directives. A directive is a level, or a target with perhaps a span in
brackets and a level after an equals sign. Only whether a filter can be read matters here.
-/

namespace Addons.Command.LogFilter

/-- A level by name, or by number from 0 to 5; empty text is a level too. -/
def isLevel (cs : List Char) : Bool :=
  let s := String.ofList (cs.map Char.toLower)
  ["", "off", "error", "warn", "info", "debug", "trace"].contains s
    || (number? (String.ofList cs)).any fun n => n ≤ 5

/-- Characters a directive may begin with, a bracket apart. -/
def mayStart (c : Char) : Bool :=
  c = '-' || c = ':' || c = '_' || c.isAlphanum || 0x80 ≤ c.toNat

/-- After a span: nothing, or a level. Blanks around the directive spoil a level. -/
def afterSpan (blanks : Bool) : List Char → Bool
  | [] => true
  | '=' :: level => !blanks && isLevel level
  | _ => false

def afterFields (blanks : Bool) : List Char → Bool
  | ']' :: rest => afterSpan blanks rest
  | _ => false

/-- Among the fields of a span, which may not be empty. -/
def inFields (blanks empty : Bool) : List Char → Bool
  | [] => false
  | '\x7d' :: rest => !empty && afterFields blanks rest
  | _ :: rest => inFields blanks false rest

def inSpan (blanks : Bool) : List Char → Bool
  | [] => false
  | ']' :: rest => afterSpan blanks rest
  | '\x7b' :: rest => inFields blanks true rest
  | _ :: rest => inSpan blanks rest

def inTarget (blanks : Bool) : List Char → Bool
  | [] => true
  | '=' :: level => !blanks && isLevel level
  | '[' :: rest => inSpan blanks rest
  | _ :: rest => inTarget blanks rest

def isDirective (cs : List Char) : Bool :=
  let trimmed := Text.trimEnd (Text.trimStart cs)
  let blanks := trimmed != cs
  match trimmed with
  | [] => false
  | '[' :: rest => inSpan blanks rest
  | c :: rest => mayStart c && inTarget blanks rest

/-- Whether a filter can be read; the empty one lets nothing through. -/
def isValid (filter : String) : Bool :=
  filter.isEmpty || (Text.splitAll ',' filter.toList).all isDirective

end Addons.Command.LogFilter
