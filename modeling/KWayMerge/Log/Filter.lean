import KWayMerge.Log.Rule

/-!
# Which records are written

A filter is a list of rules separated by commas. Of the rules for a record the one with the
longest target decides, of one target those for a field before the others, and of two that are
otherwise alike the later. Texts that are no rules are ignored, and without any rule records of
level `info` and above are written. A torn rule leaves no filter.
-/

namespace KWayMerge

/-- The rules that decide which records are written. -/
structure LogFilter where
  rules : List LogRule
deriving DecidableEq, Repr

namespace LogFilter

/-- The filter when no rule is given. -/
def default : LogFilter := ⟨[⟨"", some .info, .every⟩]⟩

/-- The rules among texts, unless one of them is torn. -/
def rulesOf : List String → Except RuleFault (List LogRule)
  | [] => .ok []
  | text :: rest => do
      match LogRule.ofText text.toList with
      | .ok rule => return rule :: (← rulesOf rest)
      | .error .senseless => rulesOf rest
      | .error .torn => throw .torn

def ofRules : List LogRule → LogFilter
  | [] => default
  | rules => ⟨rules⟩

/-- A filter by its text, if there is one. -/
def ofText : Option String → Except RuleFault LogFilter
  | none => .ok default
  | some text => (rulesOf (text.splitOn ",")).map ofRules

/-- The rule that decides about a record. -/
def deciding? (f : LogFilter) (record : LogRecord) : Option LogRule :=
  (f.rules.filter fun rule => rule.covers record).foldl
    (fun best rule =>
      match best with
      | none => some rule
      | some b => if b.givesWayTo rule then some rule else some b)
    none

def admits (f : LogFilter) (record : LogRecord) : Bool :=
  match f.deciding? record with
  | none => false
  | some rule => rule.admits record.level

end LogFilter
end KWayMerge
