import SmallLisp.Form

/-!
# Templates

A quasiquoted template is rewritten into the calls that build the form it describes: what is
not a sequence is quoted, and a sequence is built item by item from its tail. An item that is
spliced contributes all items of a value. The marks are recognised at the head of a list or
vector, and since a tail is treated as a sequence of its own, also at the head of a tail.

## Main definitions

* `Template.expand`: the form that builds what a template describes
* `Template.expandItems`: the same for the tail of a sequence
-/

namespace SmallLisp.Template

/-- The form behind a mark. -/
def operand (mark : TemplateMark) : List Value → Except Error Value
  | form :: _ => .ok form
  | [] => .error (.missingForm mark)

/-- The items behind the mark of an item that is to be spliced. -/
def splice? (item : Value) : Option (List Value) :=
  match item.items? with
  | some (head :: operands) =>
    if head.isSymbol TemplateMark.spliceUnquote.keyword then some operands else none
  | _ => none

mutual

/-- The form that builds what a template describes. -/
def expand : Value → Except Error Value
  | .seq kind [] => .ok (Form.call "quote" [.seq kind []])
  | .seq _ (item :: rest) => expandItems (item :: rest)
  | other => .ok (Form.call "quote" [other])

/-- The form that builds what a sequence with these items describes. -/
def expandItems : List Value → Except Error Value
  | [] => .ok (Form.call "quote" [.list []])
  | item :: rest =>
    if item.isSymbol TemplateMark.unquote.keyword then operand .unquote rest
    else
      match splice? item with
      | some operands => do
        let spliced ← operand .spliceUnquote operands
        return Form.call "concat" [spliced, ← expandItems rest]
      | none => do
        let built ← expand item
        return Form.call "cons" [built, ← expandItems rest]

end

end SmallLisp.Template
