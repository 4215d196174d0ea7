import SmallLisp.Proofs.Evaluation.Outcome

/-!
# The rules of evaluation

What a form evaluates to, said by rules that know neither fuel nor tasks that take each other's
place. A work is something that is done from beginning to end: a form that is evaluated or
expanded, a function that is called, a row of such works, the forms of a body, the entries of a
map, the bindings of a scope. A rule says how one work ends, given how the works that it
consists of end. A form in tail position is a work like any other.

A work that stops early leaves the store as it was when it stopped. There is no rule for a work
that does not end.

## Main definitions

* `Work`: something that is done from beginning to end
* `Ends`: the rules
-/

namespace SmallLisp

/-- The number of parts a special form cannot do without. -/
def SpecialForm.leastParts : SpecialForm → Nat
  | quote | quasiquote | sequence | expand => 1
  | conditional | function | define | defineExpander | bindings => 2

theorem SpecialForm.leastParts_le_two (special : SpecialForm) : special.leastParts ≤ 2 := by
  cases special <;> decide

/-- A special form written out. -/
abbrev SpecialForm.form (special : SpecialForm) (parts : List Value) : Value :=
  .list (.symbol special.keyword :: parts)

/-- Whether a form stands for itself, so that evaluating it does nothing. -/
def Value.IsConstant : Value → Prop
  | .symbol _ | .vector _ | .map _ | .list (_ :: _) => False
  | _ => True

/-- Something that is done from beginning to end. -/
inductive Work where
  | task (task : Task)
  /-- A row of tasks. Its value is the list of their values. -/
  | each (tasks : List Task)
  /-- The forms of a body. Its value is that of the last. -/
  | body (forms : List Value) (env : Env)
  /-- The entries of a map, of which some have been made. Its value is the map. -/
  | entries (made rest : Entries) (env : Env)
  /-- Names and forms that are bound in a scope. Its value is `nil`. -/
  | bindings (items : List Value) (scope : Env)

namespace Work

/-- A form to evaluate. -/
@[match_pattern] abbrev evaluate (form : Value) (env : Env) : Work := .task (.evaluate form env)

/-- A form to expand. -/
@[match_pattern] abbrev expand (form : Value) (env : Env) : Work := .task (.expand form env)

/-- A function to call. -/
@[match_pattern] abbrev call (callee : Value) (arguments : List Value) (env : Env) : Work :=
  .task (.call callee arguments env)

end Work

/-- How a work ends that is begun in a store. -/
inductive Ends : Work → Store → Ending Value → Prop
  -- A list whose head names an expander is replaced by its expansion, before anything else.
  | expander {name id parameters body scope arguments env s expansion t ending}
      (bound : s.lookup? env name = some (.procedure .expander id parameters body scope))
      (expands : Ends (.call (.procedure .expander id parameters body scope) arguments env) s
        (.ok expansion t))
      (evaluates : Ends (.evaluate expansion env) t ending) :
      Ends (.evaluate (.list (.symbol name :: arguments)) env) s ending
  | expander_stops {name id parameters body scope arguments env s halt t}
      (bound : s.lookup? env name = some (.procedure .expander id parameters body scope))
      (stops : Ends (.call (.procedure .expander id parameters body scope) arguments env) s
        (.error halt t)) :
      Ends (.evaluate (.list (.symbol name :: arguments)) env) s (.error halt t)
  -- Forms that are no lists.
  | constant {form env s} (isConstant : form.IsConstant) :
      Ends (.evaluate form env) s (.ok form s)
  | symbol {name env s value} (bound : s.lookup? env name = some value) :
      Ends (.evaluate (.symbol name) env) s (.ok value s)
  | unbound {name env s} (free : s.lookup? env name = none) :
      Ends (.evaluate (.symbol name) env) s (.error (.failure (.unbound name)) s)
  | vector {forms env s values t}
      (items : Ends (.each (forms.map (.evaluate · env))) s (.ok (.list values) t)) :
      Ends (.evaluate (.vector forms) env) s (.ok (.vector values) t)
  | vector_stops {forms env s halt t}
      (stops : Ends (.each (forms.map (.evaluate · env))) s (.error halt t)) :
      Ends (.evaluate (.vector forms) env) s (.error halt t)
  | map {entries env s ending} (makes : Ends (.entries [] entries env) s ending) :
      Ends (.evaluate (.map entries) env) s ending
  -- Special forms, which are known by the symbol at their head.
  | missingPart {special parts env s} (plain : expansion? s env (special.form parts) = none)
      (tooFew : parts.length < special.leastParts) :
      Ends (.evaluate (special.form parts) env) s (.error (.failure (.missingPart special)) s)
  | quote {form more env s}
      (plain : expansion? s env (SpecialForm.quote.form (form :: more)) = none) :
      Ends (.evaluate (SpecialForm.quote.form (form :: more)) env) s (.ok form s)
  | quasiquote {template more env s form ending}
      (plain : expansion? s env (SpecialForm.quasiquote.form (template :: more)) = none)
      (expands : Template.expand template = .ok form)
      (evaluates : Ends (.evaluate form env) s ending) :
      Ends (.evaluate (SpecialForm.quasiquote.form (template :: more)) env) s ending
  | quasiquote_fails {template more env s error}
      (plain : expansion? s env (SpecialForm.quasiquote.form (template :: more)) = none)
      (fails : Template.expand template = .error error) :
      Ends (.evaluate (SpecialForm.quasiquote.form (template :: more)) env) s
        (.error (.failure error) s)
  | sequence {form more env s ending}
      (plain : expansion? s env (SpecialForm.sequence.form (form :: more)) = none)
      (evaluates : Ends (.body (form :: more) env) s ending) :
      Ends (.evaluate (SpecialForm.sequence.form (form :: more)) env) s ending
  | conditional {condition consequent more env s value t ending}
      (plain : expansion? s env
        (SpecialForm.conditional.form (condition :: consequent :: more)) = none)
      (decides : Ends (.evaluate condition env) s (.ok value t))
      (evaluates : Ends
        (.evaluate (if value.countsAsTrue then consequent else more.headD .nil) env) t ending) :
      Ends (.evaluate (SpecialForm.conditional.form (condition :: consequent :: more)) env) s
        ending
  | conditional_stops {condition consequent more env s halt t}
      (plain : expansion? s env
        (SpecialForm.conditional.form (condition :: consequent :: more)) = none)
      (stops : Ends (.evaluate condition env) s (.error halt t)) :
      Ends (.evaluate (SpecialForm.conditional.form (condition :: consequent :: more)) env) s
        (.error halt t)
  | function {parameters body more env s items}
      (plain : expansion? s env (SpecialForm.function.form (parameters :: body :: more)) = none)
      (isSeq : parameters.items? = some items)
      (named : ∀ item ∈ items, item.symbol?.isSome) :
      Ends (.evaluate (SpecialForm.function.form (parameters :: body :: more)) env) s
        (.ok (.procedure .function s.procedures items body env) s.numbered)
  | function_notSeq {parameters body more env s}
      (plain : expansion? s env (SpecialForm.function.form (parameters :: body :: more)) = none)
      (notSeq : parameters.items? = none) :
      Ends (.evaluate (SpecialForm.function.form (parameters :: body :: more)) env) s
        (.error (.failure (.binder (.parameterList parameters.type))) s)
  | function_notSymbol {parameters body more env s named item rest}
      (plain : expansion? s env (SpecialForm.function.form (parameters :: body :: more)) = none)
      (isSeq : parameters.items? = some (named ++ item :: rest))
      (before : ∀ item ∈ named, item.symbol?.isSome) (notSymbol : item.symbol? = none) :
      Ends (.evaluate (SpecialForm.function.form (parameters :: body :: more)) env) s
        (.error (.failure (.binder (.parameter item.type))) s)
  | define {name form more env s value t}
      (plain : expansion? s env (SpecialForm.define.form (.symbol name :: form :: more)) = none)
      (evaluates : Ends (.evaluate form env) s (.ok value t)) :
      Ends (.evaluate (SpecialForm.define.form (.symbol name :: form :: more)) env) s
        (.ok value (t.defined env.frame name value))
  | define_stops {name form more env s halt t}
      (plain : expansion? s env (SpecialForm.define.form (.symbol name :: form :: more)) = none)
      (stops : Ends (.evaluate form env) s (.error halt t)) :
      Ends (.evaluate (SpecialForm.define.form (.symbol name :: form :: more)) env) s
        (.error halt t)
  | define_notSymbol {name form more env s}
      (plain : expansion? s env (SpecialForm.define.form (name :: form :: more)) = none)
      (notSymbol : name.symbol? = none) :
      Ends (.evaluate (SpecialForm.define.form (name :: form :: more)) env) s
        (.error (.failure (.wrongType .symbol name.type)) s)
  | defineExpander {name form more env s kind id parameters body scope t}
      (plain : expansion? s env
        (SpecialForm.defineExpander.form (.symbol name :: form :: more)) = none)
      (evaluates : Ends (.evaluate form env) s (.ok (.procedure kind id parameters body scope) t)) :
      Ends (.evaluate (SpecialForm.defineExpander.form (.symbol name :: form :: more)) env) s
        (.ok (.procedure .expander id parameters body scope)
          (t.defined env.frame name (.procedure .expander id parameters body scope)))
  | defineExpander_notProcedure {name form more env s value t}
      (plain : expansion? s env
        (SpecialForm.defineExpander.form (.symbol name :: form :: more)) = none)
      (evaluates : Ends (.evaluate form env) s (.ok value t))
      (notProcedure : value.procedure? = none) :
      Ends (.evaluate (SpecialForm.defineExpander.form (.symbol name :: form :: more)) env) s
        (.error (.failure (.wrongType .function value.type)) t)
  | defineExpander_stops {name form more env s halt t}
      (plain : expansion? s env
        (SpecialForm.defineExpander.form (.symbol name :: form :: more)) = none)
      (stops : Ends (.evaluate form env) s (.error halt t)) :
      Ends (.evaluate (SpecialForm.defineExpander.form (.symbol name :: form :: more)) env) s
        (.error halt t)
  | defineExpander_notSymbol {name form more env s}
      (plain : expansion? s env (SpecialForm.defineExpander.form (name :: form :: more)) = none)
      (notSymbol : name.symbol? = none) :
      Ends (.evaluate (SpecialForm.defineExpander.form (name :: form :: more)) env) s
        (.error (.failure (.wrongType .symbol name.type)) s)
  | expand {form more env s ending}
      (plain : expansion? s env (SpecialForm.expand.form (form :: more)) = none)
      (expands : Ends (.expand form env) s ending) :
      Ends (.evaluate (SpecialForm.expand.form (form :: more)) env) s ending
  | bindings {bindings body more env s items value t ending}
      (plain : expansion? s env (SpecialForm.bindings.form (bindings :: body :: more)) = none)
      (isSeq : bindings.items? = some items) (paired : items.length % 2 = 0)
      (binds : Ends (.bindings items (env.nest s.frames.size)) (s.opened []) (.ok value t))
      (evaluates : Ends (.evaluate body (env.nest s.frames.size)) t ending) :
      Ends (.evaluate (SpecialForm.bindings.form (bindings :: body :: more)) env) s ending
  | bindings_stops {bindings body more env s items halt t}
      (plain : expansion? s env (SpecialForm.bindings.form (bindings :: body :: more)) = none)
      (isSeq : bindings.items? = some items) (paired : items.length % 2 = 0)
      (stops : Ends (.bindings items (env.nest s.frames.size)) (s.opened []) (.error halt t)) :
      Ends (.evaluate (SpecialForm.bindings.form (bindings :: body :: more)) env) s (.error halt t)
  | bindings_notSeq {bindings body more env s}
      (plain : expansion? s env (SpecialForm.bindings.form (bindings :: body :: more)) = none)
      (notSeq : bindings.items? = none) :
      Ends (.evaluate (SpecialForm.bindings.form (bindings :: body :: more)) env) s
        (.error (.failure (.binder (.bindingList bindings.type))) s)
  | bindings_odd {bindings body more env s items}
      (plain : expansion? s env (SpecialForm.bindings.form (bindings :: body :: more)) = none)
      (isSeq : bindings.items? = some items) (odd : items.length % 2 = 1) :
      Ends (.evaluate (SpecialForm.bindings.form (bindings :: body :: more)) env) s
        (.error (.failure (.binder .oddBindings)) s)
  -- All other lists are calls: the items are evaluated, the head first, and then the value of
  -- the head is called.
  | application {head arguments env s callee values t ending}
      (plain : expansion? s env (.list (head :: arguments)) = none)
      (ordinary : ∀ special : SpecialForm, head ≠ .symbol special.keyword)
      (items : Ends (.each ((head :: arguments).map (.evaluate · env))) s
        (.ok (.list (callee :: values)) t))
      (calls : Ends (.call callee values env) t ending) :
      Ends (.evaluate (.list (head :: arguments)) env) s ending
  | application_stops {head arguments env s halt t}
      (plain : expansion? s env (.list (head :: arguments)) = none)
      (ordinary : ∀ special : SpecialForm, head ≠ .symbol special.keyword)
      (stops : Ends (.each ((head :: arguments).map (.evaluate · env))) s (.error halt t)) :
      Ends (.evaluate (.list (head :: arguments)) env) s (.error halt t)
  -- Expanding a form goes on as long as there is an expander at its head.
  | expandOn {name id parameters body scope arguments env s expansion t ending}
      (bound : s.lookup? env name = some (.procedure .expander id parameters body scope))
      (expands : Ends (.call (.procedure .expander id parameters body scope) arguments env) s
        (.ok expansion t))
      (goesOn : Ends (.expand expansion env) t ending) :
      Ends (.expand (.list (.symbol name :: arguments)) env) s ending
  | expandOn_stops {name id parameters body scope arguments env s halt t}
      (bound : s.lookup? env name = some (.procedure .expander id parameters body scope))
      (stops : Ends (.call (.procedure .expander id parameters body scope) arguments env) s
        (.error halt t)) :
      Ends (.expand (.list (.symbol name :: arguments)) env) s (.error halt t)
  | expanded {form env s} (plain : expansion? s env form = none) :
      Ends (.expand form env) s (.ok form s)
  -- Calls of native functions.
  | wrongCount {f arguments env s} (refused : f.arity.admits arguments.length = false) :
      Ends (.call (.native f) arguments env) s
        (.error (.failure (.wrongCount f arguments.length)) s)
  | operation {operation arguments env s value}
      (admitted : (Native.operation operation).arity.admits arguments.length)
      (computes : operation.run arguments = .ok value) :
      Ends (.call (.native (.operation operation)) arguments env) s (.ok value s)
  | operation_fails {operation arguments env s error}
      (admitted : (Native.operation operation).arity.admits arguments.length)
      (fails : operation.run arguments = .error error) :
      Ends (.call (.native (.operation operation)) arguments env) s (.error (.failure error) s)
  | effect {effect arguments env s}
      (admitted : (Native.effect effect).arity.admits arguments.length) :
      Ends (.call (.native (.effect effect)) arguments env) s (effect.run arguments s)
  | swap {cell callee more env s value t}
      (calls : Ends (.call callee (s.contents cell :: more) env) s (.ok value t)) :
      Ends (.call (.native (.control .swap)) (.atom cell :: callee :: more) env) s
        (.ok value (t.written cell value))
  | swap_stops {cell callee more env s halt t}
      (stops : Ends (.call callee (s.contents cell :: more) env) s (.error halt t)) :
      Ends (.call (.native (.control .swap)) (.atom cell :: callee :: more) env) s
        (.error halt t)
  | swap_notAtom {value callee more env s} (notAtom : value.cell? = none) :
      Ends (.call (.native (.control .swap)) (value :: callee :: more) env) s
        (.error (.failure (.wrongType .atom value.type)) s)
  | apply {callee leading last items env s ending} (spread : last.items? = some items)
      (calls : Ends (.call callee (leading ++ items) env) s ending) :
      Ends (.call (.native (.control .apply)) (callee :: (leading ++ [last])) env) s ending
  | apply_notSeq {callee leading last env s} (notSeq : last.items? = none) :
      Ends (.call (.native (.control .apply)) (callee :: (leading ++ [last])) env) s
        (.error (.failure (.wrongType .sequence last.type)) s)
  | mapping {callee sequence items env s ending} (isSeq : sequence.items? = some items)
      (calls : Ends (.each (items.map fun item => .call callee [item] env)) s ending) :
      Ends (.call (.native (.control .map)) [callee, sequence] env) s ending
  | mapping_notSeq {callee sequence env s} (notSeq : sequence.items? = none) :
      Ends (.call (.native (.control .map)) [callee, sequence] env) s
        (.error (.failure (.wrongType .sequence sequence.type)) s)
  | eval {form env s ending} (evaluates : Ends (.evaluate form env.root) s ending) :
      Ends (.call (.native (.control .eval)) [form] env) s ending
  -- Calls of procedures of either sort, and of what cannot be called.
  | procedure {kind id parameters body scope arguments env s bindings ending}
      (binds : Binder.bind parameters arguments = .ok bindings)
      (evaluates : Ends (.evaluate body (scope.nest s.frames.size)) (s.opened bindings) ending) :
      Ends (.call (.procedure kind id parameters body scope) arguments env) s ending
  | procedure_fails {kind id parameters body scope arguments env s error}
      (fails : Binder.bind parameters arguments = .error error) :
      Ends (.call (.procedure kind id parameters body scope) arguments env) s
        (.error (.failure error) s)
  | notFunction {value arguments env s} (notNative : value.native? = none)
      (notProcedure : value.procedure? = none) :
      Ends (.call value arguments env) s
        (.error (.failure (.notFunction (s.readableText value))) s)
  -- Rows of tasks.
  | each_nil {s} : Ends (.each []) s (.ok (.list []) s)
  | each_cons {task rest s value t values u} (first : Ends (.task task) s (.ok value t))
      (others : Ends (.each rest) t (.ok (.list values) u)) :
      Ends (.each (task :: rest)) s (.ok (.list (value :: values)) u)
  | each_first_stops {task rest s halt t} (stops : Ends (.task task) s (.error halt t)) :
      Ends (.each (task :: rest)) s (.error halt t)
  | each_rest_stops {task rest s value t halt u} (first : Ends (.task task) s (.ok value t))
      (stops : Ends (.each rest) t (.error halt u)) :
      Ends (.each (task :: rest)) s (.error halt u)
  -- Bodies.
  | body_last {form env s ending} (evaluates : Ends (.evaluate form env) s ending) :
      Ends (.body [form] env) s ending
  | body_next {form next more env s value t ending}
      (first : Ends (.evaluate form env) s (.ok value t))
      (others : Ends (.body (next :: more) env) t ending) :
      Ends (.body (form :: next :: more) env) s ending
  | body_stops {form next more env s halt t}
      (stops : Ends (.evaluate form env) s (.error halt t)) :
      Ends (.body (form :: next :: more) env) s (.error halt t)
  -- Entries of maps.
  | entries_nil {made env s} : Ends (.entries made [] env) s (.ok (.map made) s)
  | entries_cons {made key form rest env s value t ending}
      (first : Ends (.evaluate form env) s (.ok value t))
      (others : Ends (.entries (Entries.insert made key value) rest env) t ending) :
      Ends (.entries made ((key, form) :: rest) env) s ending
  | entries_stops {made key form rest env s halt t}
      (stops : Ends (.evaluate form env) s (.error halt t)) :
      Ends (.entries made ((key, form) :: rest) env) s (.error halt t)
  -- Bindings.
  | bindings_nil {scope s} : Ends (.bindings [] scope) s (.ok .nil s)
  | bindings_cons {name form rest scope s value t ending}
      (first : Ends (.evaluate form scope) s (.ok value t))
      (others : Ends (.bindings rest scope) (t.defined scope.frame name value) ending) :
      Ends (.bindings (.symbol name :: form :: rest) scope) s ending
  | bindings_form_stops {name form rest scope s halt t}
      (stops : Ends (.evaluate form scope) s (.error halt t)) :
      Ends (.bindings (.symbol name :: form :: rest) scope) s (.error halt t)
  | bindings_notSymbol {name form rest scope s} (notSymbol : name.symbol? = none) :
      Ends (.bindings (name :: form :: rest) scope) s
        (.error (.failure (.binder (.bindingName name.type))) s)

end SmallLisp
