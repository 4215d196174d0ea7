import SmallLisp.Number.Text
import SmallLisp.Text.Quoted
import SmallLisp.Value

/-!
# The text of a value

A value is written readably, with strings quoted, or plainly, with strings as they are. An
atom is written with its contents, which may lead back to the atom; met again inside its own
contents it is abbreviated. The cells on the way from the top are remembered, and each of them
is entered at most once on that way, so the number of cells bounds the descent.

## Main definitions

* `Value.renderWith`: the text of a value, given the text of the cells in it
* `Value.renderCell`: the text of a cell, given the cells it lies in
* `Value.render`: the text of a value, given the contents of the cells
-/

namespace SmallLisp

namespace SeqKind

/-- The mark that opens a sequence. -/
def opening : SeqKind → String
  | list => "("
  | vector => "["

/-- The mark that closes a sequence. -/
def closing : SeqKind → String
  | list => ")"
  | vector => "]"

end SeqKind

/-- How strings are written: quoted, or as they are. -/
inductive Style where
  | readable
  | plain
  deriving DecidableEq, Repr

/-- The text of a string in a style. -/
def Style.text : Style → String → String
  | readable, text => Quoted.encode text
  | plain, text => text

namespace Value

mutual

/-- The text of a value, given the text of the cells in it. -/
def renderWith (cellText : CellId → String) (style : Style) : Value → String
  | .nil => "nil"
  | .bool true => "true"
  | .bool false => "false"
  | .number x => Number.render x
  | .string text => style.text text
  | .symbol name => name
  | .keyword name => ":" ++ name
  | .seq kind items =>
    kind.opening ++ " ".intercalate (renderItems cellText style items) ++ kind.closing
  | .map entries => "\x7b" ++ " ".intercalate (renderEntries cellText style entries) ++ "\x7d"
  | .atom cell => cellText cell
  | .native f => "#<native " ++ f.name ++ ">"
  | .procedure .function _ _ _ _ => "#<function>"
  | .procedure .expander _ _ _ _ => "#<macro>"

/-- The texts of a run of values. -/
def renderItems (cellText : CellId → String) (style : Style) : List Value → List String
  | [] => []
  | item :: rest => renderWith cellText style item :: renderItems cellText style rest

/-- The texts of keys and values, alternating. -/
def renderEntries (cellText : CellId → String) (style : Style) :
    List (Value × Value) → List String
  | [] => []
  | (key, value) :: rest =>
    renderWith cellText style key :: renderWith cellText style value ::
      renderEntries cellText style rest

end

/-- What stands for an atom inside its own contents. -/
def cycleText : String := "(atom ...)"

/-- The text of a cell that lies inside the cells `enclosing`, to a depth of `depth` more
cells. -/
def renderCell (contents : CellId → Value) (style : Style) :
    Nat → List CellId → CellId → String
  | 0, _, _ => cycleText
  | depth + 1, enclosing, cell =>
    if cell ∈ enclosing then cycleText
    else
      "(atom " ++
        renderWith (renderCell contents style depth (cell :: enclosing)) style (contents cell) ++
        ")"

/-- The text of a value, given the contents of the cells, to a depth of `depth` cells. -/
def render (contents : CellId → Value) (depth : Nat) (style : Style) (value : Value) : String :=
  renderWith (renderCell contents style depth []) style value

end Value

end SmallLisp
