import Coup.Backend.AI
import Coup.Backend.Deck

/-!
# The game controller

`State` is the heap with the globals together with the fields of one
`GameViewController`.  The functions are the ones `runGame` is made of, each
taking the random draws and the answers of the user that it consumes.  The
user interface calls (labels, highlights, sounds, sleeps) are left out.
-/

namespace Coup

open Coup.Support

/-- The `isEnabled` flags of the nine buttons. -/
structure Buttons where
  coup : Bool
  tax : Bool
  steal : Bool
  assassinate : Bool
  foreignAid : Bool
  income : Bool
  exchange : Bool
  challenge : Bool
  allow : Bool
  deriving DecidableEq, Repr

/-- The values of `status`. -/
inductive Status
  | youLost
  | youLose
  | youWon
  deriving DecidableEq, Repr

structure GameViewController where
  cardDeck : CardDeck
  twoCards : Option (CardRef × CardRef)
  user : PlayerRef
  AIs : List PlayerRef
  playerMove : Move
  didPlayerMove : Bool
  turnInd : ℕ
  didPlayerChallengeOrAllow : Bool
  challengeTurnInd : ℕ
  challengeMove : Move
  steal : Bool
  assassinate : Bool
  coup : Bool
  isStealPossible : Bool
  buttons : Buttons
  status : Status
  gameOn : Bool

structure State where
  world : World
  vc : GameViewController

/-! ## Buttons -/

def disableAllButtons : Buttons :=
  { coup := false, tax := false, steal := false, assassinate := false
    foreignAid := false, income := false, exchange := false
    challenge := false, allow := false }

def enableChallengeButtons : Buttons :=
  { coup := false, tax := false, steal := false, assassinate := false
    foreignAid := false, income := false, exchange := false
    challenge := true, allow := true }

def enableButtons (s : State) : State :=
  let someoneToRob := s.vc.AIs.any fun i =>
    !s.world.isPlayerRevealed i && decide (2 ≤ (s.world.player i).coins)
  let steal := s.vc.buttons.steal || someoneToRob
  { s with
    vc.isStealPossible := steal && (s.vc.isStealPossible || someoneToRob)
    vc.buttons :=
      { coup := true, tax := true, steal, assassinate := true
        foreignAid := true, income := true, exchange := true
        challenge := false, allow := false } }

/-! ## Losing a card -/

/-- The position that `revealCard` turns up, if one is left. -/
def World.firstHidden (w : World) (p : PlayerRef) : Option Slot :=
  if !(w.held p .first).revealed then some .first
  else if !(w.held p .second).revealed then some .second
  else none

/-- `revealCard`; the last logged move only selects the text of the label. -/
def World.revealCard (w : World) (p : PlayerRef) : Except Fault World := do
  let _mostRecentMove ← orFault .trap w.moveLog.getLast?
  match w.firstHidden p with
  | some i => pure (w.setRevealed (w.slot p i) true)
  | none => pure w

/-! ## Exchange -/

/-- What the user does in an exchange dialog. -/
inductive ExchangeAnswer
  | keep
  | first
  | second
  deriving DecidableEq, Repr

structure ExchangeInput where
  draw1 : ℕ
  draw2 : ℕ
  answer1 : ExchangeAnswer
  answer2 : ExchangeAnswer
  shuffle : List ℕ

/-- The fields that `prepare(for:)` gives an `ExchangeViewController`. -/
structure Dialog where
  twoCards : CardRef × CardRef
  caseNum : ℕ
  deriving DecidableEq, Repr

def applyExchange (s : State) (chosenCard : CardRef) (caseNum : ℕ) :
    Except Fault State := do
  let two ← orFault .trap s.vc.twoCards
  let user := s.vc.user
  match caseNum with
  | 0 => pure { s with
      vc.twoCards := some (s.world.slot user .first, two.2)
      world := s.world.setSlot user .first chosenCard }
  | 1 => pure { s with
      vc.twoCards := some (two.1, s.world.slot user .first)
      world := s.world.setSlot user .first chosenCard }
  | 2 => pure { s with
      vc.twoCards := some (s.world.slot user .second, two.2)
      world := s.world.setSlot user .second chosenCard }
  | 3 => pure { s with
      vc.twoCards := some (two.1, s.world.slot user .second)
      world := s.world.setSlot user .second chosenCard }
  | _ => pure s

/-- `recognizeLongPressedGesture1`. -/
def recognizeLongPressedGesture1 (s : State) (d : Dialog) :
    Except Fault State :=
  if d.caseNum = 0 then applyExchange s d.twoCards.1 0
  else if d.caseNum = 2 then applyExchange s d.twoCards.1 2
  else .ok s

/-- `recognizeLongPressedGesture2`. -/
def recognizeLongPressedGesture2 (s : State) (d : Dialog) :
    Except Fault State :=
  if d.caseNum = 0 then applyExchange s d.twoCards.2 1
  else if d.caseNum = 2 then applyExchange s d.twoCards.2 3
  else .ok s

def answerDialog (s : State) (d : Dialog) : ExchangeAnswer → Except Fault State
  | .keep => .ok s
  | .first => recognizeLongPressedGesture1 s d
  | .second => recognizeLongPressedGesture2 s d

/-- An answer applies one of the two cards of the dialog, or nothing. -/
theorem answerDialog_cases (s : State) (d : Dialog) (a : ExchangeAnswer) :
    answerDialog s d a = .ok s ∨
      ∃ c n, (c = d.twoCards.1 ∨ c = d.twoCards.2) ∧
        answerDialog s d a = applyExchange s c n := by
  have hpress (c : CardRef) (n₁ n₂ : ℕ)
      (hc : c = d.twoCards.1 ∨ c = d.twoCards.2) (r : Except Fault State)
      (hr : r = if d.caseNum = 0 then applyExchange s c n₁
        else if d.caseNum = 2 then applyExchange s c n₂ else .ok s) :
      r = .ok s ∨ ∃ c n, (c = d.twoCards.1 ∨ c = d.twoCards.2) ∧
        r = applyExchange s c n := by
    subst hr
    split
    next => exact .inr ⟨c, n₁, hc, rfl⟩
    next =>
      split
      next => exact .inr ⟨c, n₂, hc, rfl⟩
      next => exact .inl rfl
  cases a with
  | keep => exact .inl rfl
  | first => exact hpress d.twoCards.1 0 2 (.inl rfl) _ rfl
  | second => exact hpress d.twoCards.2 1 3 (.inr rfl) _ rfl

/-- One dialog of the exchange case: offered for an unrevealed card and
answered while it is open. -/
def offerExchange (s : State) (i : Slot) (caseNum : ℕ)
    (answer : ExchangeAnswer) : Except Fault State :=
  if (s.world.held s.vc.user i).revealed = false then do
    let twoCards ← orFault .trap s.vc.twoCards
    answerDialog s ⟨twoCards, caseNum⟩ answer
  else .ok s

/-- The swap of an AI for its first card. -/
def swapFirst (s : State) (caller : PlayerRef) : Except Fault State :=
  if (s.world.held caller .first).revealed = false then do
    let two ← orFault .trap s.vc.twoCards
    let temp := s.world.slot caller .first
    pure { s with
      vc.twoCards := some (temp, two.2)
      world := s.world.setSlot caller .first two.1 }
  else .ok s

/-- The swap of an AI for its second card. -/
def swapSecond (s : State) (caller : PlayerRef) : Except Fault State :=
  if (s.world.held caller .second).revealed = false then do
    let two ← orFault .trap s.vc.twoCards
    let temp := s.world.slot caller .second
    pure { s with
      vc.twoCards := some (two.1, temp)
      world := s.world.setSlot caller .second two.2 }
  else .ok s

/-- The middle of the exchange case: the user answers dialogs, an AI swaps. -/
def exchangeCards (s : State) (caller : PlayerRef) (i : ExchangeInput) :
    Except Fault State :=
  if (s.world.player caller).name = s.world.username then do
    let s ← offerExchange s .first 0 i.answer1
    offerExchange s .second 2 i.answer2
  else do
    let s ← swapFirst s caller
    swapSecond s caller

def exchange (s : State) (caller : PlayerRef) (i : ExchangeInput) :
    Except Fault State := do
  let (two, cardDeck) ← give2Cards s.vc.cardDeck i.draw1 i.draw2
  let s : State :=
    { s with vc.cardDeck := cardDeck, vc.twoCards := some two }
  let s ← exchangeCards s caller i
  let two ← orFault .trap s.vc.twoCards
  let cardDeck ← get2CardsBackNShuffle s.vc.cardDeck two i.shuffle
  pure { s with vc.cardDeck := cardDeck }

/-! ## The effect of a move -/

def actOnMove (s : State) (move : Move) (i : ExchangeInput) :
    Except Fault State :=
  match move.name with
  | .income => .ok { s with world := s.world.addCoins move.caller 1 }
  | .foreignAid => .ok { s with world := s.world.addCoins move.caller 2 }
  | .coup => do
      let w ← (s.world.addCoins move.caller (-7)).revealCard move.target
      pure { s with world := w }
  | .exchange => exchange s move.caller i
  | .assassinate => do
      let w ← (s.world.addCoins move.caller (-3)).revealCard move.target
      pure { s with world := w }
  | .steal =>
      .ok { s with
        world := (s.world.addCoins move.target (-2)).addCoins move.caller 2 }
  | .tax => .ok { s with world := s.world.addCoins move.caller 3 }
  | _ => .ok s

/-! ## The challenge round -/

/-- The two buttons of a challenge round. -/
inductive Answer
  | allow
  | challenge
  deriving DecidableEq, Repr

def Answer.name : Answer → MoveName
  | .allow => .allow
  | .challenge => .challenge

/-- The common body of `allowBtnPressed` and `challengeBtnPressed`. -/
def answerBtnPressed (s : State) (answer : Answer) : Except Fault State := do
  let caller ← orFault .trap s.world.players[s.vc.challengeTurnInd]?
  let target ← orFault .trap s.world.players[s.vc.turnInd]?
  pure { s with
    vc.didPlayerChallengeOrAllow := true
    vc.challengeMove := ⟨answer.name, caller, target⟩
    vc.buttons := disableAllButtons }

def allowBtnPressed (s : State) : Except Fault State :=
  answerBtnPressed s .allow

def challengeBtnPressed (s : State) : Except Fault State :=
  answerBtnPressed s .challenge

def tapAnswer (s : State) : Answer → Except Fault State
  | .allow => allowBtnPressed s
  | .challenge => challengeBtnPressed s

/-- The button the user taps when asked, and the draw of each seat's AI. -/
structure RoundInput where
  answer : Answer
  rand : ℕ → UnitDraw

/-- The head of the loop body of `anyChallenges`: the player to ask, if the
seat is neither the caller's nor eliminated. -/
def slotHead (s : State) (move : Move) :
    Except Fault (State × Option PlayerRef) := do
  let player ← orFault .trap s.world.players[s.vc.challengeTurnInd]?
  if (s.world.player player).name = (s.world.player move.caller).name ∨
      s.world.isPlayerRevealed player then
    pure ({ s with
      vc.didPlayerChallengeOrAllow := false
      vc.challengeTurnInd := s.vc.challengeTurnInd + 1 }, none)
  else pure ({ s with vc.didPlayerChallengeOrAllow := false }, some player)

/-- Ask one player: the user taps a button while the loop waits, an AI
computes its answer. -/
def slotAsk (s : State) (move : Move) (player : PlayerRef) (curMove : Move)
    (i : RoundInput) : Except Fault (State × Move) :=
  if (s.world.player player).name = s.world.username then do
    let s ← tapAnswer s i.answer
    pure (s, curMove)
  else do
    let (curMove, w) ← getChallengeOrAllow s.world player move.caller
      (i.rand s.vc.challengeTurnInd)
    pure ({ s with world := w }, curMove)

/-- Whether the loop of `anyChallenges` returns or goes on. -/
inductive SlotResult
  | answered (objection : Move)
  | next (curMove : Move)
  deriving DecidableEq, Repr

/-- The tail of the loop body of `anyChallenges`. -/
def slotUse (s : State) (curMove : Move) :
    Except Fault (State × SlotResult) :=
  let next : State :=
    { s with vc.challengeTurnInd := s.vc.challengeTurnInd + 1 }
  if s.vc.didPlayerChallengeOrAllow then
    if s.vc.challengeMove.name = .challenge then
      .ok (s, .answered s.vc.challengeMove)
    else .ok (next, .next s.vc.challengeMove)
  else if curMove.name = .challenge then .ok (s, .answered curMove)
  else do
    let caller ← orFault .trap s.world.players[s.vc.challengeTurnInd]?
    let target ← orFault .trap s.world.players[s.vc.turnInd]?
    pure (next, .next ⟨.allow, caller, target⟩)

/-- One iteration of the loop of `anyChallenges`. -/
def slotStep (s : State) (move curMove : Move) (i : RoundInput) :
    Except Fault (State × SlotResult) := do
  let (s, player) ← slotHead s move
  match player with
  | none => pure (s, .next curMove)
  | some player => do
      let (s, curMove) ← slotAsk s move player curMove i
      slotUse s curMove

/-- The loop of `anyChallenges`.  Each iteration that goes on raises
`challengeTurnInd`, so the number of players bounds the iterations. -/
def anyChallengesLoop (move : Move) (i : RoundInput) :
    ℕ → State → Move → Except Fault (State × Move)
  | 0, s, curMove => .ok (s, curMove)
  | bound + 1, s, curMove =>
      if s.vc.challengeTurnInd < s.world.players.length then do
        let (s, result) ← slotStep s move curMove i
        match result with
        | .answered objection => pure (s, objection)
        | .next curMove => anyChallengesLoop move i bound s curMove
      else .ok (s, curMove)

def anyChallenges (s : State) (move : Move) (i : RoundInput) :
    Except Fault (State × Move) :=
  anyChallengesLoop move i s.world.players.length
    { s with vc.challengeTurnInd := 0 } .init

/-! ## A turn of `runGame` -/

/-- Everything random or chosen that one iteration of `runGame` consumes. -/
structure TurnInput where
  ai : AIInput
  round : RoundInput
  newCard : ℕ
  exchange : ExchangeInput
  reshuffle : List ℕ

/-- The position named by the result of `checkhaveCard`. -/
def slotOf (theCard : ℤ) : Option Slot :=
  if theCard = 0 then some .first
  else if theCard = 1 then some .second
  else none

/-- `cards.0.revealed = true` or `cards.1.revealed = true`. -/
def showCard (w : World) (player : PlayerRef) (theCard : ℤ) : World :=
  match slotOf theCard with
  | some i => w.setRevealed (w.slot player i) true
  | none => w

/-- The swap of the shown card against the new one, which leaves the shown
card in the variable `newCard`. -/
def replaceCard (w : World) (player : PlayerRef) (theCard : ℤ)
    (newCard : CardRef) : World × CardRef :=
  match slotOf theCard with
  | some i => (w.setSlot player i newCard, w.slot player i)
  | none => (w, newCard)

/-- The won challenge up to the move: the challenger turns up a card, a new
card is drawn and the claimed card is shown. -/
def showClaim (s : State) (currentPlayer challenger : PlayerRef)
    (theCard : ℤ) (draw : ℕ) : Except Fault (State × CardRef) := do
  let w ← s.world.revealCard challenger
  let (newCard, cardDeck) ← giveACard s.vc.cardDeck draw
  pure ({ s with
    world := showCard w currentPlayer theCard
    vc.cardDeck := cardDeck }, newCard)

/-- The won challenge after the move: the shown card goes back to the deck. -/
def replaceClaim (s : State) (currentPlayer : PlayerRef) (theCard : ℤ)
    (newCard : CardRef) (draws : List ℕ) : Except Fault State := do
  let (w, newCard) := replaceCard s.world currentPlayer theCard newCard
  let (w, cardDeck) ← get1CardBackNShuffle w s.vc.cardDeck newCard draws
  pure { s with world := w, vc.cardDeck := cardDeck }

def winChallenge (s : State) (currentPlayer : PlayerRef)
    (curMove objection : Move) (i : TurnInput) : Except Fault State := do
  let theCard := s.world.checkhaveCard currentPlayer curMove.name
  let (s, newCard) ←
    showClaim s currentPlayer objection.caller theCard i.newCard
  let s ← actOnMove s curMove i.exchange
  replaceClaim s currentPlayer theCard newCard i.reshuffle

/-- What `runGame` does with the objection that `anyChallenges` returned. -/
def resolve (s : State) (currentPlayer : PlayerRef)
    (curMove objection : Move) (i : TurnInput) : Except Fault State :=
  if objection.name = .challenge then
    if s.world.checkhaveCard currentPlayer curMove.name ≠ -1 then
      winChallenge s currentPlayer curMove objection i
    else do
      let w ← s.world.revealCard objection.target
      pure { s with world := w }
  else if objection.name = .allow then actOnMove s curMove i.exchange
  else .ok s

/-- "cannot challenge income or coup". -/
def challengeable (name : MoveName) : Bool :=
  decide (name ≠ .income ∧ name ≠ .coup)

/-- `moveLog.append(curMove)`. -/
def logMove (s : State) (move : Move) : State :=
  { s with world.moveLog := s.world.moveLog ++ [move] }

/-- The rest of the turn once `curMove` is logged. -/
def playMove (s : State) (currentPlayer : PlayerRef) (curMove : Move)
    (i : TurnInput) : Except Fault State :=
  if challengeable curMove.name then do
    let (s, objection) ← anyChallenges s curMove i.round
    resolve s currentPlayer curMove objection i
  else actOnMove s curMove i.exchange

/-- The loop of `isGameOver`. -/
def countFalse (s : State) : ℕ :=
  s.world.players.countP s.world.isPlayerRevealed

def isGameOver (s : State) : Except Fault State :=
  if countFalse s + 1 = s.world.players.length ∨
      s.world.isPlayerRevealed s.vc.user then do
    let player0 ← orFault .trap s.world.players[0]?
    pure { s with
      vc.gameOn := false
      vc.status :=
        if s.world.isPlayerRevealed player0 then .youLose else .youWon }
  else .ok s

def incrementInd (s : State) : State :=
  { s with
    vc.turnInd :=
      if s.world.players.length ≤ s.vc.turnInd + 1 then 0
      else s.vc.turnInd + 1 }

/-- What the head of an iteration of `runGame` decides. -/
inductive Selection
  | skip
  | prompt
  | move (curMove : Move)
  deriving DecidableEq, Repr

/-- The choice of a move: the user is prompted or has pressed a button, an AI
computes a move. -/
def takeMove (s : State) (currentPlayer : PlayerRef) (i : AIInput) :
    Except Fault (State × Selection) :=
  if (s.world.player currentPlayer).name = s.world.username then
    if s.vc.didPlayerMove = false then .ok (s, .prompt)
    else .ok ({ s with vc.didPlayerMove := false }, .move s.vc.playerMove)
  else do
    let (curMove, w) ← getPlayerMove s.world currentPlayer i
    pure ({ s with world := w }, .move curMove)

/-- The head of an iteration of `runGame`, up to the choice of the move. -/
def selectMove (s : State) (i : AIInput) :
    Except Fault (State × PlayerRef × Selection) := do
  let currentPlayer ← orFault .trap s.world.players[s.vc.turnInd]?
  if s.world.isPlayerRevealed currentPlayer then
    pure (s, currentPlayer, .skip)
  else do
    let (s, selection) ← takeMove s currentPlayer i
    pure (s, currentPlayer, selection)

/-- The end of a turn: `isGameOver` and `incrementInd`. -/
def endTurn (s : State) : Except Fault State := do
  let s ← isGameOver s
  pure (incrementInd s)

/-- Whether the loop goes on after an iteration or is left by `break`. -/
inductive Exit
  | next
  | broke
  deriving DecidableEq, Repr

/-- One iteration of `while gameOn` in `runGame`. -/
def iterate (s : State) (i : TurnInput) : Except Fault (State × Exit) := do
  let (s, currentPlayer, selection) ← selectMove s i.ai
  match selection with
  | .skip => pure (incrementInd s, .next)
  | .prompt => pure (s, .broke)
  | .move curMove => do
      let s ← playMove (logMove s curMove) currentPlayer curMove i
      let s ← endTurn s
      pure (s, .next)

/-! ## Setting up a game -/

/-- `viewDidLoad`: make and deal a new deck, remember the user and the AIs. -/
def viewDidLoad (w : World) (base : CardRef) (shuffling dealing : List ℕ) :
    Except Fault State := do
  let cardDeck ← makeDeck base shuffling
  let (w, cardDeck) ←
    assign2Cards (w.createCards base) cardDeck w.players dealing
  let user ← orFault .trap w.players[0]?
  pure
    { world := w
      vc :=
        { cardDeck, twoCards := none, user, AIs := w.players.tail
          playerMove := .init, didPlayerMove := false, turnInd := 0
          didPlayerChallengeOrAllow := false, challengeTurnInd := 0
          challengeMove := .init, steal := false, assassinate := false
          coup := false, isStealPossible := false
          buttons := disableAllButtons, status := .youLost, gameOn := true } }

end Coup
