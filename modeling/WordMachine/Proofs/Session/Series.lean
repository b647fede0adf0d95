import WordMachine.Session

/-!
# Series

Lines of text and commands, given to a session one after the other (`inTurn`). What is true of a
series follows from what is true of one item: `inTurn_comm` says so for a change of the session
that shows in what an item comes to and in nothing else.
-/

namespace WordMachine.Session

variable {α β : Type} {carry : Session → α → Option (β × Session)}

/-- Carries out items one after the other, each in the session that the one in front of it left
behind, and gives what they came to. There is no answer if one of them gives none. -/
def inTurn (carry : Session → α → Option (β × Session)) :
    List α → Session → Option (List β × Session)
  | [], session => some ([], session)
  | item :: items, session =>
    match carry session item with
    | none => none
    | some (outcome, middle) =>
      (inTurn carry items middle).map fun (outcomes, after) => (outcome :: outcomes, after)

/-- Dispatches lines of text one after the other. -/
def dispatchAll (session : Session) (budget : Nat) (lines : List String) :
    Option (List String × Session) :=
  inTurn (fun session line => session.dispatch budget line) lines session

/-- Carries out commands one after the other. -/
def executeAll (session : Session) (budget : Nat) (commands : List Command) :
    Option (List (Except SessionError Response) × Session) :=
  inTurn (fun session command => session.execute budget command) commands session

/-- A change of the session goes through a series, changing what its items come to, if it goes
through each item. -/
theorem inTurn_comm {change : Session → Session} {report : β → β}
    (hcomm : ∀ session item, carry (change session) item =
      (carry session item).map (Prod.map report change))
    (items : List α) (session : Session) :
    inTurn carry items (change session) =
      (inTurn carry items session).map (Prod.map (List.map report) change) := by
  induction items generalizing session with
  | nil => rfl
  | cons item items ih =>
    rw [inTurn, inTurn, hcomm]
    cases carry session item with
    | none => rfl
    | some carried =>
      simp only [Option.map_some, Prod.map_snd, ih, Option.map_map]
      rfl

end WordMachine.Session
