import WordMachine.Registers

/-!
# The stack

An unbounded stack of words. The view is the list of its words, bottom first, as `toList` gives
it: `push` appends to it and `pop` takes its last word (`toList_push`, `pop_push`).

A push takes any word; only a stack built from a list is checked for literals.
-/

namespace WordMachine

/-- A stack of words, the top first. -/
structure Stack where
  words : List Word
  deriving DecidableEq, Repr

namespace Stack

/-- The stack without words. -/
def empty : Stack := ⟨[]⟩

/-- The stack with the given words, bottom first, unless one of them is no literal. -/
def ofList (words : List Word) : Except Fault Stack :=
  match words.find? (fun word => !word.isLiteral) with
  | some word => .error (.notALiteral word)
  | none => .ok ⟨words.reverse⟩

/-- The words of the stack, bottom first. -/
def toList (stack : Stack) : List Word := stack.words.reverse

/-- The number of words on the stack. -/
def size (stack : Stack) : Nat := stack.words.length

/-- The stack has no words. -/
def isEmpty (stack : Stack) : Bool := stack.words.isEmpty

/-- Puts a word on top. -/
def push (stack : Stack) (word : Word) : Stack := ⟨word :: stack.words⟩

/-- The word on top. -/
def top? (stack : Stack) : Option Word := stack.words.head?

/-- The stack below its top word. -/
def below (stack : Stack) : Stack := ⟨stack.words.tail⟩

/-- Takes the word on top. -/
def pop (stack : Stack) : Except Fault (Word × Stack) :=
  match stack.words with
  | [] => .error .stackUnderflow
  | word :: rest => .ok (word, ⟨rest⟩)

@[simp] theorem toList_push (stack : Stack) (word : Word) :
    (stack.push word).toList = stack.toList ++ [word] := by
  simp [push, toList]

@[simp] theorem pop_push (stack : Stack) (word : Word) : (stack.push word).pop = .ok (word, stack) :=
  rfl

@[simp] theorem size_push (stack : Stack) (word : Word) : (stack.push word).size = stack.size + 1 :=
  rfl

@[simp] theorem below_push (stack : Stack) (word : Word) : (stack.push word).below = stack := rfl

@[simp] theorem top?_push (stack : Stack) (word : Word) : (stack.push word).top? = some word := rfl

/-- Only the empty stack underflows. -/
theorem pop_eq_error_iff {stack : Stack} {fault : Fault} :
    stack.pop = .error fault ↔ stack.isEmpty = true ∧ fault = .stackUnderflow := by
  obtain ⟨words⟩ := stack
  cases words <;> simp [pop, isEmpty, eq_comm]

/-- A stack built from a list has the list as its view, and the list holds literals only. -/
theorem ofList_eq_ok_iff {words : List Word} {stack : Stack} :
    ofList words = .ok stack ↔ stack.toList = words ∧ ∀ word ∈ words, word.isLiteral = true := by
  obtain ⟨top⟩ := stack
  simp only [ofList, toList]
  split
  · next word h =>
    simp only [reduceCtorEq, false_iff, not_and]
    intro _ all
    have hword := all word (List.mem_of_find?_eq_some h)
    have := List.find?_some h
    simp_all
  · next h =>
    rw [List.find?_eq_none] at h
    simp only [Bool.not_eq_true', Bool.not_eq_false] at h
    constructor
    · intro heq
      obtain rfl := congrArg Stack.words (Except.ok.inj heq)
      exact ⟨by simp, h⟩
    · rintro ⟨rfl, _⟩
      simp

end Stack

end WordMachine
