/-!
# Special forms

The forms that the evaluator treats by rules of their own instead of as calls. A list is one of
them when its head is the symbol that names it, whatever that symbol may be bound to.

## Main definitions

* `SpecialForm`: the special forms
* `SpecialForm.keyword`: the symbol that names one
* `SpecialForm.ofKeyword?`: the special form a symbol names
* `SpecialForm.requirement`: the parts it cannot do without
* `TemplateMark`: the marks with a meaning inside a quasiquoted template
-/

namespace SmallLisp

/-- The forms with evaluation rules of their own. -/
inductive SpecialForm where
  | quote
  | quasiquote
  | sequence
  | conditional
  | function
  | define
  | defineExpander
  | expand
  | bindings
  deriving DecidableEq, Repr

namespace SpecialForm

/-- The symbol that names a special form. -/
def keyword : SpecialForm → String
  | quote => "quote"
  | quasiquote => "quasiquote"
  | sequence => "do"
  | conditional => "if"
  | function => "fn*"
  | define => "def!"
  | defineExpander => "defmacro!"
  | expand => "macroexpand"
  | bindings => "let*"

/-- The special forms. -/
def all : List SpecialForm :=
  [quote, quasiquote, sequence, conditional, function, define, defineExpander, expand, bindings]

/-- The special form that a symbol names. -/
def ofKeyword? (name : String) : Option SpecialForm := all.find? fun form => form.keyword == name

/-- What a special form with too few parts is told. -/
def requirement : SpecialForm → String
  | quote | quasiquote | expand => "expected 1 argument, got 0"
  | sequence => "expected at least 1 form"
  | conditional => "expected a condition and a branch"
  | function => "expected a parameter list and a body"
  | define => "expected a name and a value"
  | defineExpander => "expected a name and a function"
  | bindings => "expected bindings and a body"

theorem mem_all (form : SpecialForm) : form ∈ all := by cases form <;> decide

theorem ofKeyword?_keyword (form : SpecialForm) : ofKeyword? form.keyword = some form := by
  cases form <;> decide

theorem keyword_of_ofKeyword? {name : String} {form : SpecialForm}
    (named : ofKeyword? name = some form) : form.keyword = name := by
  simpa using List.find?_some named

end SpecialForm

/-- The marks with a meaning inside a quasiquoted template: a place for the value of a form,
and a place for the items of the value of a form. -/
inductive TemplateMark where
  | unquote
  | spliceUnquote
  deriving DecidableEq, Repr

namespace TemplateMark

/-- The symbol that names a mark. -/
def keyword : TemplateMark → String
  | unquote => "unquote"
  | spliceUnquote => "splice-unquote"

/-- What a mark without a form is told. -/
def requirement : TemplateMark → String
  | unquote | spliceUnquote => "expected 1 argument, got 0"

end TemplateMark

end SmallLisp
