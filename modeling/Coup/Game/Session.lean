import Coup.Game.Controller

/-!
# A session: the game thread, the main queue and the user

`queueForGame` runs the submitted work items one at a time; each of them is a
call of `runGame`.  The loop is left by `break` at a user turn and entered
again by the work item that the pressed button submits.  An event is one
iteration of the loop, one of the steps around it, the delivery of a block
that `runGame` sent to the main queue, or an action of the user.

An iteration is one event, with the answers that the user gives in it: to the
challenge round, and to the dialogs of an exchange, each answered once while
the loop waits for it.  An answer that comes before the loop waits is lost in
the source; `Handshake` is about that.
-/

namespace Coup

open Coup.Support

/-! ## The move buttons -/

/-- The players that `coupBtnPressed` offers. -/
def coupSheet (s : State) : List PlayerRef :=
  s.vc.AIs.filter fun i => !s.world.isPlayerRevealed i

/-- The players that `stealBtnPressed` offers. -/
def stealSheet (s : State) : List PlayerRef :=
  s.vc.AIs.filter fun i =>
    !(s.world.isPlayerRevealed i && decide (2 ≤ (s.world.player i).coins))

/-- The players that `assassinateBtnPressed` offers. -/
def assassinateSheet (s : State) : List PlayerRef :=
  s.vc.AIs.filter fun i => !s.world.isPlayerRevealed i

def targetMoveSelected (s : State)
    (areWeStealing areWeKilling areWeCoup : Bool) : State :=
  { s with
    vc.steal := areWeStealing
    vc.assassinate := areWeKilling
    vc.coup := areWeCoup }

/-- The assignments of a button handler: the move is set with the current seat
as its caller. -/
def submitMove (s : State) (name : MoveName) (target : Option PlayerRef) :
    Except Fault State := do
  let caller ← orFault .trap s.world.players[s.vc.turnInd]?
  pure { s with
    vc.didPlayerMove := true
    vc.playerMove := ⟨name, caller, target.getD caller⟩
    vc.buttons := disableAllButtons }

/-- The `didSet` of `target`. -/
def targetDidSet (s : State) (target : PlayerRef) : Except Fault State :=
  if s.vc.steal then submitMove s .steal (some target)
  else if s.vc.coup then submitMove s .coup (some target)
  else submitMove s .assassinate (some target)

/-- A press that submits a move: a plain button, or a button with a target
sheet and the row selected there. -/
inductive Press
  | income
  | foreignAid
  | tax
  | exchange
  | coup (target : PlayerRef)
  | steal (target : PlayerRef)
  | assassinate (target : PlayerRef)
  deriving DecidableEq, Repr

def guardPress (enabled : Bool) (k : Except Fault State) : Except Fault State :=
  if enabled then k else .error .refused

def coupBtnPressed (s : State) (target : PlayerRef) : Except Fault State :=
  guardPress (s.vc.buttons.coup &&
      !decide ((s.world.player s.vc.user).coins < 7) &&
      decide (target ∈ coupSheet s)) <|
    targetDidSet (targetMoveSelected s false false true) target

def stealBtnPressed (s : State) (target : PlayerRef) : Except Fault State :=
  guardPress (s.vc.buttons.steal && s.vc.isStealPossible &&
      decide (target ∈ stealSheet s)) <|
    targetDidSet (targetMoveSelected s true false false) target

def assassinateBtnPressed (s : State) (target : PlayerRef) :
    Except Fault State :=
  guardPress (s.vc.buttons.assassinate &&
      !decide ((s.world.player s.vc.user).coins < 3) &&
      decide (target ∈ assassinateSheet s)) <|
    targetDidSet (targetMoveSelected s false true false) target

def taxBtnPressed (s : State) : Except Fault State :=
  guardPress s.vc.buttons.tax <| submitMove s .tax none

def incomeBtnPressed (s : State) : Except Fault State :=
  guardPress s.vc.buttons.income <| submitMove s .income none

def foreignBtnPressed (s : State) : Except Fault State :=
  guardPress s.vc.buttons.foreignAid <| submitMove s .foreignAid none

def exchangeBtnPressed (s : State) : Except Fault State :=
  guardPress s.vc.buttons.exchange <| submitMove s .exchange none

def pressButton (s : State) : Press → Except Fault State
  | .income => incomeBtnPressed s
  | .foreignAid => foreignBtnPressed s
  | .tax => taxBtnPressed s
  | .exchange => exchangeBtnPressed s
  | .coup target => coupBtnPressed s target
  | .steal target => stealBtnPressed s target
  | .assassinate target => assassinateBtnPressed s target

/-! ## The session -/

/-- Where the thread of `queueForGame` stands: between work items, at the head
of the loop, or in the sleep before `break`. -/
inductive Thread
  | idle
  | looping
  | leaving
  deriving DecidableEq, Repr

structure Session where
  game : State
  thread : Thread
  /-- Work items that were submitted and have not started. -/
  pending : ℕ
  /-- Blocks calling `enableButtons` that the main queue has not run. -/
  blocks : ℕ

inductive Event
  /-- The next work item starts. -/
  | start
  /-- One iteration of `while gameOn`. -/
  | iterate (i : TurnInput)
  /-- The loop condition fails and `runGame` returns. -/
  | finish
  /-- The sleep before `break` ends and `runGame` returns. -/
  | wake
  /-- The main queue runs `enableButtons`. -/
  | deliver
  | press (p : Press)
  /-- The End Game button: `prepare(for:)` ends the loop. -/
  | endGame

def stepSession (y : Session) : Event → Except Fault Session
  | .start =>
      if y.thread = .idle ∧ 0 < y.pending then
        .ok { y with thread := .looping, pending := y.pending - 1 }
      else .error .refused
  | .iterate i =>
      if y.thread = .looping ∧ y.game.vc.gameOn = true then do
        let (s, exit) ← iterate y.game i
        match exit with
        | .next => pure { y with game := s }
        | .broke =>
            pure { y with
              game := s, thread := .leaving, blocks := y.blocks + 1 }
      else .error .refused
  | .finish =>
      if y.thread = .looping ∧ y.game.vc.gameOn = false then
        .ok { y with thread := .idle }
      else .error .refused
  | .wake =>
      if y.thread = .leaving then .ok { y with thread := .idle }
      else .error .refused
  | .deliver =>
      if 0 < y.blocks then
        .ok { y with game := enableButtons y.game, blocks := y.blocks - 1 }
      else .error .refused
  | .press p => do
      let s ← pressButton y.game p
      pure { y with game := s, pending := y.pending + 1 }
  | .endGame => .ok { y with game.vc.gameOn := false }

/-- The session that `viewDidLoad` leaves: the first work item is submitted. -/
def openSession (w : World) (base : CardRef) (shuffling dealing : List ℕ) :
    Except Fault Session := do
  let s ← viewDidLoad w base shuffling dealing
  pure { game := s, thread := .idle, pending := 1, blocks := 0 }

/-- An iteration in which the user answers with `answer`, every AI draws
`rand` when it is asked, and an exchange keeps the hand. -/
def scriptedTurn (answer : Answer) (rand : UnitDraw) (pick : ℕ)
    (seats shuffle : List ℕ) : TurnInput :=
  { ai := ⟨.literal, pick, seats⟩
    round := ⟨answer, fun _ => rand⟩
    newCard := 0
    exchange := ⟨0, 0, .keep, .keep, shuffle⟩
    reshuffle := shuffle }

def scripted (answer : Answer) (rand : UnitDraw) (pick : ℕ)
    (seats shuffle : List ℕ) : Event :=
  .iterate (scriptedTurn answer rand pick seats shuffle)

/-- An iteration that nobody challenges. -/
def unchallenged : Event := scripted .allow .greatest 1 [] []

/-- The user is asked, presses a button, and the loop is entered again. -/
def userPresses (q : Press) : List Event :=
  [unchallenged, .deliver, .press q, .wake, .start]

end Coup
