/-!
# The prelude

Definitions written in the language itself, which a program finds in place beside the native
functions: negation, loading a file, and the two expanders for branching on several conditions
and for the first true value of several.

Loading a file reads its text as the items of one `do` form. A line break goes in front of the
closing parenthesis, so that a comment at the end of the file does not swallow it.

## Main definitions

* `Prelude.definitions`: the sources, in the order in which they are evaluated
-/

namespace SmallLisp.Prelude

/-- `(not a)`: true for `nil` and `false`. -/
def negation : String := "(def! not (fn* (a) (if a false true)))"

/-- `(load-file f)`: evaluates the forms of a file at top level. -/
def fileLoading : String :=
  "(def! load-file (fn* (f) (eval (read-string (str \"(do \" (slurp f) \"\n)\")))))"

/-- `(cond t1 e1 t2 e2 …)`: the value behind the first true condition. -/
def firstBranch : String :=
  "(defmacro! cond (fn* (& xs) (if (> (count xs) 0) (list 'if (first xs) " ++
    "(if (> (count xs) 1) (nth xs 1) (throw \"odd number of forms to cond\")) " ++
    "(cons 'cond (rest (rest xs)))))))"

/-- `(or e1 e2 …)`: the first true value, or the last. -/
def firstTruth : String :=
  "(defmacro! or (fn* (& xs) (if (empty? xs) nil (if (= 1 (count xs)) (first xs) " ++
    "`(let* (or__value ~(first xs)) " ++
    "(if or__value or__value (or ~@(rest xs))))))))"

/-- The sources, in the order in which they are evaluated. -/
def definitions : List String := [negation, fileLoading, firstBranch, firstTruth]

end SmallLisp.Prelude
