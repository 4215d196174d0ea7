import SmallLisp.Error
import SmallLisp.Token

/-!
# Tokens taken by a cursor

A cursor stands in front of one of the tokens, or at the end of them. A computation looks at the
token there and moves the cursor past it; where it fails, the cursor stays behind. When it asks for
something that is not there, or would move the cursor beyond the end, it gives up. What it comes to
is told by the tokens in front of the cursor: these are what a computation is begun with, and what
it leaves.

## Main definitions

* `Reads`: a computation that moves a cursor among tokens
* `Positional.peek`, `Positional.advance`, `Positional.current`: taking tokens at the cursor
* `Positional.IsAt`: the cursor stands in front of the tokens that remain
* `Positional.ComesTo`: what a computation comes to, and the tokens that it leaves

## Main results

* `Positional.ComesTo.bind_ok`, `Positional.ComesTo.bind_error`: one computation after another
-/

namespace SmallLisp

/-- A computation that moves a cursor among tokens. It comes to a value or an error, and leaves the
cursor somewhere; or it gives up, and comes to nothing. -/
abbrev Reads : Type → Type := ExceptT Error (StateT Nat Option)

namespace Reads

variable {α : Type}

/-- Begins with a cursor. -/
def begin (reads : Reads α) (cursor : Nat) : Option (Except Error α × Nat) := reads.run.run cursor

/-- A computation that leaves the cursor where it is. -/
def of (outcome : Except Error α) : Reads α := ExceptT.mk (pure outcome)

/-- Gives up where there is no answer. -/
def ask (answer : Option α) : Reads α := ExceptT.lift (StateT.lift answer)

/-- Asks for something that is not there. -/
def giveUp : Reads α := ask none

@[simp] theorem ask_some (answer : α) : ask (some answer) = pure answer := rfl

end Reads

namespace Positional

variable {α β : Type} (tokens : List Token)

/-- The token at the cursor. There is none at the end. -/
def peek : Reads (Option Token) := return tokens[← get]?

/-- Whether the cursor is at the end. -/
def isAtEnd : Reads Bool := return decide (tokens.length ≤ (← get))

/-- Moves the cursor past one token, and not beyond the end. -/
def movePast : Reads Unit := do
  let cursor ← get
  if cursor + 1 ≤ tokens.length then set (cursor + 1) else Reads.giveUp

/-- The token at the cursor, which is moved past it. There is none at the end. -/
def advance : Reads (Option Token) := do
  match ← peek tokens with
  | some token =>
    movePast tokens
    return some token
  | none => return none

/-- The token at a cursor that is not at the end. -/
def current : Reads Token := do Reads.ask tokens[← get]?

/-- The cursor stands in front of the tokens that remain. -/
def IsAt (cursor : Nat) (rest : List Token) : Prop :=
  cursor ≤ tokens.length ∧ tokens.drop cursor = rest

/-- Begun in front of some tokens, a computation comes to an outcome and leaves some tokens. -/
def ComesTo (reads : Reads α) (rest : List Token) (outcome : Except Error α) (left : List Token) :
    Prop :=
  ∀ cursor, IsAt tokens cursor rest →
    ∃ cursor', reads.begin cursor = some (outcome, cursor') ∧ IsAt tokens cursor' left

variable {tokens : List Token}

namespace IsAt

variable {cursor : Nat} {token : Token} {rest : List Token}

theorem getElem?_eq (isAt : IsAt tokens cursor rest) : tokens[cursor]? = rest.head? := by
  rw [← isAt.2, List.head?_drop]

theorem length_eq (isAt : IsAt tokens cursor rest) : tokens.length = cursor + rest.length := by
  have bound := isAt.1
  rw [← isAt.2, List.length_drop]
  omega

theorem length_le (isAt : IsAt tokens cursor rest) : rest.length ≤ tokens.length := by
  have length_eq := isAt.length_eq
  omega

theorem succ (isAt : IsAt tokens cursor (token :: rest)) : IsAt tokens (cursor + 1) rest := by
  have length_eq := isAt.length_eq
  rw [List.length_cons] at length_eq
  refine ⟨by omega, ?_⟩
  rw [← List.tail_drop, isAt.2, List.tail_cons]

end IsAt

theorem isAt_zero (tokens : List Token) : IsAt tokens 0 tokens := ⟨Nat.zero_le _, rfl⟩

namespace ComesTo

variable {token : Token} {rest middle left : List Token} {first : Reads α} {second : α → Reads β}
  {outcome : Except Error β} {value : α} {error : Error}

theorem pure (value : α) (rest : List Token) :
    ComesTo tokens (Pure.pure value) rest (.ok value) rest :=
  fun cursor isAt => ⟨cursor, rfl, isAt⟩

theorem throw (error : Error) (rest : List Token) :
    ComesTo tokens (MonadExcept.throw error : Reads α) rest (.error error) rest :=
  fun cursor isAt => ⟨cursor, rfl, isAt⟩

theorem of (outcome : Except Error α) (rest : List Token) :
    ComesTo tokens (Reads.of outcome) rest outcome rest :=
  fun cursor isAt => ⟨cursor, rfl, isAt⟩

/-- The second computation begins with the tokens that the first one leaves. -/
theorem bind_ok (comes : ComesTo tokens first rest (.ok value) middle)
    (goesOn : ComesTo tokens (second value) middle outcome left) :
    ComesTo tokens (first >>= second) rest outcome left := by
  intro cursor isAt
  obtain ⟨cursor', begins, isAt'⟩ := comes cursor isAt
  obtain ⟨cursor'', goesOn, isAt''⟩ := goesOn cursor' isAt'
  refine ⟨cursor'', ?_, isAt''⟩
  -- The second computation is begun where the first has left the cursor.
  have continues : (first >>= second).begin cursor = (second value).begin cursor' := by
    simp only [Reads.begin, ExceptT.run_bind, StateT.run_bind] at begins ⊢
    rw [begins]
    rfl
  exact continues.trans goesOn

/-- Nothing comes after a computation that fails. -/
theorem bind_error (comes : ComesTo tokens first rest (.error error) left) :
    ComesTo tokens (first >>= second) rest (.error error) left := by
  intro cursor isAt
  obtain ⟨cursor', begins, isAt'⟩ := comes cursor isAt
  refine ⟨cursor', ?_, isAt'⟩
  simp only [Reads.begin, ExceptT.run_bind, StateT.run_bind] at begins ⊢
  rw [begins]
  rfl

theorem peek (rest : List Token) :
    ComesTo tokens (peek tokens) rest (.ok rest.head?) rest := by
  intro cursor isAt
  refine ⟨cursor, ?_, isAt⟩
  rw [← isAt.getElem?_eq]
  rfl

theorem isAtEnd (rest : List Token) :
    ComesTo tokens (isAtEnd tokens) rest (.ok rest.isEmpty) rest := by
  intro cursor isAt
  refine ⟨cursor, ?_, isAt⟩
  have begins : (Positional.isAtEnd tokens).begin cursor =
      some (.ok (decide (tokens.length ≤ cursor)), cursor) := rfl
  rw [begins, isAt.length_eq]
  cases rest <;> simp

theorem movePast (token : Token) (rest : List Token) :
    ComesTo tokens (movePast tokens) (token :: rest) (.ok ()) rest := by
  intro cursor isAt
  refine ⟨cursor + 1, ?_, isAt.succ⟩
  have begins : (Positional.movePast tokens).begin cursor =
      (if cursor + 1 ≤ tokens.length then set (cursor + 1) else Reads.giveUp : Reads Unit).begin
        cursor := rfl
  rw [begins, if_pos isAt.succ.1]
  rfl

theorem advance (token : Token) (rest : List Token) :
    ComesTo tokens (advance tokens) (token :: rest) (.ok (some token)) rest :=
  (peek (token :: rest)).bind_ok ((movePast token rest).bind_ok (pure (some token) rest))

theorem current (token : Token) (rest : List Token) :
    ComesTo tokens (current tokens) (token :: rest) (.ok token) (token :: rest) := by
  intro cursor isAt
  refine ⟨cursor, ?_, isAt⟩
  have begins : (Positional.current tokens).begin cursor =
      (Reads.ask tokens[cursor]?).begin cursor := rfl
  rw [begins, isAt.getElem?_eq]
  rfl

end ComesTo

end Positional

end SmallLisp
