import Coup.Game.Iteration

/-!
# The loop, step by step

`stepSession` runs an iteration of `runGame` as one event, with the user's
answer given when it is needed.  Here the game thread runs up to its next look
at what it shares with the main thread, and the main thread acts in between:
it runs the blocks that change buttons, in the order in which they were sent,
and handles one tap or press at a time.  The blocks that change the rest of the
screen are in `Display`.

Three things are coarser than that.  The steps from `free`, `objected` and
`shown` run through the sleeps of `actOnMove` and of `revealCard`: the one after
the coins have changed, the one between the block that turns over a picture and
`revealed = true`, and the one before a claimed card is shown.  A whole exchange
is a part of such a step: its two cards are drawn, each dialog is answered once
while `switchSegue` is waited for, and the two cards that are left go back.  And
`incrementInd`, with its two assignments to `turnInd`, is one step.
-/

namespace Coup

open Coup.Support

/-- The local variables of `runGame` once a move is chosen. -/
structure Turn where
  currentPlayer : PlayerRef
  curMove : Move
  deriving DecidableEq, Repr

/-- Where the game thread stands, with its local variables. -/
inductive Place
  /-- Between two work items. -/
  | idle
  /-- At `while gameOn`. -/
  | head
  /-- In the sleep before the move is chosen. -/
  | picked (currentPlayer : PlayerRef)
  /-- In the sleep before `break`. -/
  | leaving
  /-- In the sleep before `moveLog.append`. -/
  | chosen (t : Turn)
  /-- At `while challengeTurnInd < players.count`. -/
  | slot (t : Turn) (curMove : Move)
  /-- At `let player = players[challengeTurnInd]`. -/
  | look (t : Turn) (curMove : Move)
  /-- In the sleep before `player` is asked. -/
  | ask (t : Turn) (curMove : Move) (player : PlayerRef)
  /-- At `while (!didPlayerChallengeOrAllow)`, for the user. -/
  | test (t : Turn) (curMove : Move) (player : PlayerRef)
  /-- Between this test and the block it sends. -/
  | send (t : Turn) (curMove : Move) (player : PlayerRef)
  /-- At `if (didPlayerChallengeOrAllow)`. -/
  | use (t : Turn) (curMove : Move) (player : PlayerRef)
  /-- `anyChallenges` has returned; the next step runs through `revealCard` or
  `actOnMove`. -/
  | objected (t : Turn) (objection : Move)
  /-- A move that cannot be challenged is logged; the next step runs through
  `actOnMove`. -/
  | free (t : Turn)
  /-- The claimed card is shown, the move not yet executed; the next step runs
  through `actOnMove`. -/
  | shown (t : Turn) (theCard : ℤ) (newCard : CardRef)
  /-- The move is executed, the shown card not yet replaced. -/
  | acted (t : Turn) (theCard : ℤ) (newCard : CardRef)
  /-- At `isGameOver`. -/
  | ending
  /-- At `incrementInd`. -/
  | next
  deriving DecidableEq, Repr

/-- The blocks in the main queue that change buttons. -/
inductive Block
  | enableButtons
  | enableChallengeButtons
  deriving DecidableEq, Repr

structure Loop where
  game : State
  place : Place
  /-- Work items that were submitted and have not started. -/
  pending : ℕ
  /-- The main queue, with the oldest block first. -/
  queue : List Block

/-! ## The game thread -/

/-- The body of `runGame` up to the choice of the seat. -/
def atHead (y : Loop) : Except Fault Loop :=
  if y.game.vc.gameOn = true then do
    let currentPlayer ←
      orFault .trap y.game.world.players[y.game.vc.turnInd]?
    if y.game.world.isPlayerRevealed currentPlayer then
      pure { y with game := incrementInd y.game }
    else pure { y with place := .picked currentPlayer }
  else .ok { y with place := .idle }

def atPicked (y : Loop) (currentPlayer : PlayerRef) (i : TurnInput) :
    Except Fault Loop := do
  let (s, selection) ← takeMove y.game currentPlayer i.ai
  match selection with
  | .move curMove =>
      pure { y with game := s, place := .chosen ⟨currentPlayer, curMove⟩ }
  | .prompt | .skip =>
      pure { y with
        game := s, place := .leaving, queue := y.queue ++ [.enableButtons] }

/-- Log the move, and enter `anyChallenges` if it can be challenged. -/
def atChosen (y : Loop) (t : Turn) : Loop :=
  let s := logMove y.game t.curMove
  if challengeable t.curMove.name then
    { y with
      game := { s with vc.challengeTurnInd := 0 }, place := .slot t .init }
  else { y with game := s, place := .free t }

def atSlot (y : Loop) (t : Turn) (curMove : Move) : Loop :=
  if y.game.vc.challengeTurnInd < y.game.world.players.length then
    { y with place := .look t curMove }
  else { y with place := .objected t curMove }

def atLook (y : Loop) (t : Turn) (curMove : Move) : Except Fault Loop := do
  let (s, player) ← slotHead y.game t.curMove
  match player with
  | none => pure { y with game := s, place := .slot t curMove }
  | some player => pure { y with game := s, place := .ask t curMove player }

/-- The user is waited for, an AI computes its answer. -/
def atAsk (y : Loop) (t : Turn) (curMove : Move) (player : PlayerRef)
    (i : TurnInput) : Except Fault Loop :=
  if (y.game.world.player player).name = y.game.world.username then
    .ok { y with place := .test t curMove player }
  else do
    let (curMove, w) ← getChallengeOrAllow y.game.world player t.curMove.caller
      (i.round.rand y.game.vc.challengeTurnInd)
    pure { y with
      game := { y.game with world := w }, place := .use t curMove player }

def atTest (y : Loop) (t : Turn) (curMove : Move) (player : PlayerRef) :
    Loop :=
  if y.game.vc.didPlayerChallengeOrAllow then
    { y with place := .use t curMove player }
  else { y with place := .send t curMove player }

def atUse (y : Loop) (t : Turn) (curMove : Move) : Except Fault Loop := do
  let (s, result) ← slotUse y.game curMove
  match result with
  | .answered objection =>
      pure { y with game := s, place := .objected t objection }
  | .next curMove => pure { y with game := s, place := .slot t curMove }

/-- The branches on `objection.name`, up to the shown card. -/
def atObjected (y : Loop) (t : Turn) (objection : Move) (i : TurnInput) :
    Except Fault Loop :=
  let theCard := y.game.world.checkhaveCard t.currentPlayer t.curMove.name
  if objection.name = .challenge then
    if theCard ≠ -1 then do
      let (s, newCard) ← showClaim y.game t.currentPlayer objection.caller
        theCard i.newCard
      pure { y with game := s, place := .shown t theCard newCard }
    else do
      let w ← y.game.world.revealCard objection.target
      pure { y with game := { y.game with world := w }, place := .ending }
  else if objection.name = .allow then do
    let s ← actOnMove y.game t.curMove i.exchange
    pure { y with game := s, place := .ending }
  else .ok { y with place := .ending }

/-- One step of the game thread.  Those that execute the move or turn up a card
run through the sleeps on the way. -/
def stepThread (y : Loop) (i : TurnInput) : Except Fault Loop :=
  match y.place with
  | .idle =>
      if 0 < y.pending then
        .ok { y with place := .head, pending := y.pending - 1 }
      else .error .refused
  | .head => atHead y
  | .picked currentPlayer => atPicked y currentPlayer i
  | .leaving => .ok { y with place := .idle }
  | .chosen t => .ok (atChosen y t)
  | .slot t curMove => .ok (atSlot y t curMove)
  | .look t curMove => atLook y t curMove
  | .ask t curMove player => atAsk y t curMove player i
  | .test t curMove player => .ok (atTest y t curMove player)
  | .send t curMove player =>
      .ok { y with
        place := .test t curMove player
        queue := y.queue ++ [.enableChallengeButtons] }
  | .use t curMove _ => atUse y t curMove
  | .objected t objection => atObjected y t objection i
  | .free t => do
      let s ← actOnMove y.game t.curMove i.exchange
      pure { y with game := s, place := .ending }
  | .shown t theCard newCard => do
      let s ← actOnMove y.game t.curMove i.exchange
      pure { y with game := s, place := .acted t theCard newCard }
  | .acted t theCard newCard => do
      let s ← replaceClaim y.game t.currentPlayer theCard newCard i.reshuffle
      pure { y with game := s, place := .ending }
  | .ending => do
      let s ← isGameOver y.game
      pure { y with game := s, place := .next }
  | .next => .ok { y with game := incrementInd y.game, place := .head }

/-! ## The main thread -/

/-- What a block does when the main queue runs it. -/
def runBlock (s : State) : Block → State
  | .enableButtons => enableButtons s
  | .enableChallengeButtons => { s with vc.buttons := enableChallengeButtons }

/-- Whether the button of an answer is enabled. -/
def Answer.enabled (b : Buttons) : Answer → Bool
  | .allow => b.allow
  | .challenge => b.challenge

inductive LoopEvent
  /-- A step of the game thread, with the draws and choices it may need. -/
  | thread (i : TurnInput)
  /-- The main queue runs its oldest block. -/
  | deliver
  | tap (a : Answer)
  | press (p : Press)
  /-- The End Game button: `prepare(for:)` ends the loop. -/
  | endGame

/-- An event is a step of the game thread or one of the main thread. -/
theorem LoopEvent.thread_or_main (e : LoopEvent) :
    (∃ i, e = .thread i) ∨ ∀ i, e ≠ .thread i := by
  cases e with
  | thread i => exact .inl ⟨i, rfl⟩
  | deliver | tap | press | endGame => exact .inr fun _ h => by cases h

def stepLoop (y : Loop) : LoopEvent → Except Fault Loop
  | .thread i => stepThread y i
  | .deliver =>
      match y.queue with
      | [] => .error .refused
      | block :: queue => .ok { y with game := runBlock y.game block, queue }
  | .tap a =>
      if a.enabled y.game.vc.buttons = true then do
        let s ← tapAnswer y.game a
        pure { y with game := s }
      else .error .refused
  | .press p => do
      let s ← pressButton y.game p
      pure { y with game := s, pending := y.pending + 1 }
  | .endGame => .ok { y with game.vc.gameOn := false }

/-- The loop that `viewDidLoad` leaves: the first work item is submitted. -/
def openLoop (w : World) (base : CardRef) (shuffling dealing : List ℕ) :
    Except Fault Loop := do
  let s ← viewDidLoad w base shuffling dealing
  pure { game := s, place := .idle, pending := 1, queue := [] }

/-- A step of the thread in which an AI that is asked draws `rand`. -/
def scriptedStep (rand : UnitDraw) (pick : ℕ) : LoopEvent :=
  .thread (scriptedTurn .allow rand pick [] [])

/-! ## What a step can do -/

/-- The moves of the game thread. -/
inductive LoopMove (y : Loop) (i : TurnInput) : Loop → Prop
  | start (hplace : y.place = .idle) :
      LoopMove y i { y with place := .head, pending := y.pending - 1 }
  | skip (p : PlayerRef) (hplace : y.place = .head)
      (hon : y.game.vc.gameOn = true)
      (hseat : y.game.world.players[y.game.vc.turnInd]? = some p)
      (hout : y.game.world.isPlayerRevealed p = true) :
      LoopMove y i { y with game := incrementInd y.game }
  | pick (p : PlayerRef) (hplace : y.place = .head)
      (hon : y.game.vc.gameOn = true)
      (hseat : y.game.world.players[y.game.vc.turnInd]? = some p)
      (hin : y.game.world.isPlayerRevealed p = false) :
      LoopMove y i { y with place := .picked p }
  | quit (hplace : y.place = .head) (hoff : y.game.vc.gameOn = false) :
      LoopMove y i { y with place := .idle }
  | prompt (p : PlayerRef) (hplace : y.place = .picked p)
      (hname : (y.game.world.player p).name = y.game.world.username)
      (hwait : y.game.vc.didPlayerMove = false) :
      LoopMove y i
        { y with place := .leaving, queue := y.queue ++ [.enableButtons] }
  | choose (p : PlayerRef) (m : Move) (s : State)
      (hplace : y.place = .picked p) (hchosen : Chooses y.game i.ai p m s) :
      LoopMove y i { y with game := s, place := .chosen ⟨p, m⟩ }
  | wake (hplace : y.place = .leaving) :
      LoopMove y i { y with place := .idle }
  | claim (t : Turn) (hplace : y.place = .chosen t)
      (hopen : challengeable t.curMove.name = true) :
      LoopMove y i { y with
        game := { logMove y.game t.curMove with vc.challengeTurnInd := 0 }
        place := .slot t .init }
  | log (t : Turn) (hplace : y.place = .chosen t)
      (hfree : challengeable t.curMove.name = false) :
      LoopMove y i
        { y with game := logMove y.game t.curMove, place := .free t }
  | seat (t : Turn) (curMove : Move) (hplace : y.place = .slot t curMove)
      (hlt : y.game.vc.challengeTurnInd < y.game.world.players.length) :
      LoopMove y i { y with place := .look t curMove }
  | round (t : Turn) (curMove : Move) (hplace : y.place = .slot t curMove)
      (hge : y.game.world.players.length ≤ y.game.vc.challengeTurnInd) :
      LoopMove y i { y with place := .objected t curMove }
  | pass (t : Turn) (curMove : Move) (p : PlayerRef)
      (hplace : y.place = .look t curMove)
      (hseat : y.game.world.players[y.game.vc.challengeTurnInd]? = some p)
      (hskip : ¬ Eligible y.game t.curMove p) :
      LoopMove y i { y with
        game := { y.game with
          vc.didPlayerChallengeOrAllow := false
          vc.challengeTurnInd := y.game.vc.challengeTurnInd + 1 }
        place := .slot t curMove }
  | ask (t : Turn) (curMove : Move) (p : PlayerRef)
      (hplace : y.place = .look t curMove)
      (hseat : y.game.world.players[y.game.vc.challengeTurnInd]? = some p)
      (hask : Eligible y.game t.curMove p) :
      LoopMove y i { y with
        game := { y.game with vc.didPlayerChallengeOrAllow := false }
        place := .ask t curMove p }
  | wait (t : Turn) (curMove : Move) (p : PlayerRef)
      (hplace : y.place = .ask t curMove p)
      (hname : (y.game.world.player p).name = y.game.world.username) :
      LoopMove y i { y with place := .test t curMove p }
  | answer (t : Turn) (curMove o : Move) (p : PlayerRef) (w : World)
      (hplace : y.place = .ask t curMove p)
      (hname : (y.game.world.player p).name ≠ y.game.world.username)
      (hanswer : getChallengeOrAllow y.game.world p t.curMove.caller
        (i.round.rand y.game.vc.challengeTurnInd) = .ok (o, w)) :
      LoopMove y i
        { y with game := { y.game with world := w }, place := .use t o p }
  | notice (t : Turn) (curMove : Move) (p : PlayerRef)
      (hplace : y.place = .test t curMove p)
      (hon : y.game.vc.didPlayerChallengeOrAllow = true) :
      LoopMove y i { y with place := .use t curMove p }
  | retry (t : Turn) (curMove : Move) (p : PlayerRef)
      (hplace : y.place = .test t curMove p)
      (hoff : y.game.vc.didPlayerChallengeOrAllow = false) :
      LoopMove y i { y with place := .send t curMove p }
  | send (t : Turn) (curMove : Move) (p : PlayerRef)
      (hplace : y.place = .send t curMove p) :
      LoopMove y i { y with
        place := .test t curMove p
        queue := y.queue ++ [.enableChallengeButtons] }
  | object (t : Turn) (curMove o : Move) (p : PlayerRef)
      (hplace : y.place = .use t curMove p) (hname : o.name = .challenge)
      (hanswer : y.game.vc.didPlayerChallengeOrAllow = true →
        o = y.game.vc.challengeMove)
      (hown : y.game.vc.didPlayerChallengeOrAllow = false → o = curMove) :
      LoopMove y i { y with place := .objected t o }
  | allow (t : Turn) (curMove o : Move) (p : PlayerRef)
      (hplace : y.place = .use t curMove p) (hname : o.name ≠ .challenge)
      (hanswer : y.game.vc.didPlayerChallengeOrAllow = true →
        o = y.game.vc.challengeMove)
      (hseats : y.game.vc.didPlayerChallengeOrAllow = false →
        curMove.name ≠ .challenge ∧
          y.game.vc.challengeTurnInd < y.game.world.players.length ∧
          y.game.vc.turnInd < y.game.world.players.length) :
      LoopMove y i { y with
        game := { y.game with
          vc.challengeTurnInd := y.game.vc.challengeTurnInd + 1 }
        place := .slot t o }
  | expose (t : Turn) (o : Move) (s : State) (newCard : CardRef)
      (hplace : y.place = .objected t o) (hname : o.name = .challenge)
      (hshow : showClaim y.game t.currentPlayer o.caller
        (y.game.world.checkhaveCard t.currentPlayer t.curMove.name) i.newCard =
          .ok (s, newCard)) :
      LoopMove y i { y with
        game := s
        place := .shown t
          (y.game.world.checkhaveCard t.currentPlayer t.curMove.name) newCard }
  | fail (t : Turn) (o : Move) (w : World) (hplace : y.place = .objected t o)
      (hname : o.name = .challenge)
      (hreveal : y.game.world.revealCard o.target = .ok w) :
      LoopMove y i
        { y with game := { y.game with world := w }, place := .ending }
  | drop (t : Turn) (o : Move) (hplace : y.place = .objected t o) :
      LoopMove y i { y with place := .ending }
  | act (t : Turn) (s : State) (place : Place)
      (hplace : (∃ o, y.place = .objected t o ∧ o.name = .allow) ∧
          place = .ending ∨
        y.place = .free t ∧ place = .ending ∨
        ∃ theCard newCard, y.place = .shown t theCard newCard ∧
          place = .acted t theCard newCard)
      (hact : actOnMove y.game t.curMove i.exchange = .ok s) :
      LoopMove y i { y with game := s, place := place }
  | replace (t : Turn) (theCard : ℤ) (newCard : CardRef) (s : State)
      (hplace : y.place = .acted t theCard newCard)
      (hreplace : replaceClaim y.game t.currentPlayer theCard newCard
        i.reshuffle = .ok s) :
      LoopMove y i { y with game := s, place := .ending }
  | judge (s : State) (hplace : y.place = .ending)
      (hjudge : isGameOver y.game = .ok s) :
      LoopMove y i { y with game := s, place := .next }
  | turn (hplace : y.place = .next) :
      LoopMove y i { y with game := incrementInd y.game, place := .head }

section Move

variable {y y' : Loop} {i : TurnInput} {t : Turn} {curMove : Move}
  {p : PlayerRef}

theorem atHead_spec (hplace : y.place = .head) (h : atHead y = .ok y') :
    LoopMove y i y' := by
  unfold atHead at h
  split at h
  next hon =>
    rw [bind_eq_ok] at h
    obtain ⟨p, hseat, h⟩ := h
    rw [orFault_eq_ok] at hseat
    split at h
    next hout => cases h; exact .skip p hplace hon hseat hout
    next hin =>
      cases h
      exact .pick p hplace hon hseat (Bool.eq_false_of_not_eq_true hin)
  next hoff => cases h; exact .quit hplace (Bool.eq_false_of_not_eq_true hoff)

theorem atPicked_spec (hplace : y.place = .picked p)
    (h : atPicked y p i = .ok y') : LoopMove y i y' := by
  rw [atPicked, bind_eq_ok] at h
  obtain ⟨⟨s, selection⟩, htake, h⟩ := h
  rcases takeMove_cases htake with ⟨rfl, hname, hwait, rfl⟩ | ⟨m, rfl, hm⟩
  · cases h
    exact .prompt p hplace hname hwait
  · cases h
    exact .choose p m s hplace hm

theorem atChosen_spec (hplace : y.place = .chosen t) :
    LoopMove y i (atChosen y t) := by
  unfold atChosen
  split
  next hopen => exact .claim t hplace hopen
  next hfree => exact .log t hplace (Bool.eq_false_of_not_eq_true hfree)

theorem atSlot_spec (hplace : y.place = .slot t curMove) :
    LoopMove y i (atSlot y t curMove) := by
  unfold atSlot
  split
  next hlt => exact .seat t curMove hplace hlt
  next hge => exact .round t curMove hplace (Nat.le_of_not_lt hge)

theorem atLook_spec (hplace : y.place = .look t curMove)
    (h : atLook y t curMove = .ok y') : LoopMove y i y' := by
  rw [atLook, bind_eq_ok] at h
  obtain ⟨⟨s, asked⟩, hhead, h⟩ := h
  obtain ⟨p, hseat, ⟨rfl, hskip, rfl⟩ | ⟨rfl, hask, rfl⟩⟩ :=
    slotHead_spec hhead
  · cases h
    exact .pass t curMove p hplace hseat hskip
  · cases h
    exact .ask t curMove p hplace hseat hask

theorem atAsk_spec (hplace : y.place = .ask t curMove p)
    (h : atAsk y t curMove p i = .ok y') : LoopMove y i y' := by
  unfold atAsk at h
  split at h
  next hname => cases h; exact .wait t curMove p hplace hname
  next hname =>
    rw [bind_eq_ok] at h
    obtain ⟨⟨o, w⟩, hanswer, h⟩ := h
    cases h
    exact .answer t curMove o p w hplace hname hanswer

theorem atTest_spec (hplace : y.place = .test t curMove p) :
    LoopMove y i (atTest y t curMove p) := by
  unfold atTest
  split
  next hon => exact .notice t curMove p hplace hon
  next hoff =>
    exact .retry t curMove p hplace (Bool.eq_false_of_not_eq_true hoff)

theorem atUse_spec (hplace : y.place = .use t curMove p)
    (h : atUse y t curMove = .ok y') : LoopMove y i y' := by
  rw [atUse, bind_eq_ok] at h
  obtain ⟨⟨s, result⟩, huse, h⟩ := h
  unfold slotUse at huse
  split at huse
  next hon =>
    split at huse
    next hname =>
      cases huse
      cases h
      exact .object t curMove _ p hplace hname (fun _ => rfl)
        fun hoff => absurd (hon.symm.trans hoff) (by decide)
    next hname =>
      cases huse
      cases h
      exact .allow t curMove _ p hplace hname (fun _ => rfl)
        fun hoff => absurd (hon.symm.trans hoff) (by decide)
  next hoff =>
    split at huse
    next hname =>
      cases huse
      cases h
      exact .object t _ _ p hplace hname (fun hon => absurd hon hoff)
        fun _ => rfl
    next hcur =>
      rw [bind_eq_ok] at huse
      obtain ⟨caller, hcaller, huse⟩ := huse
      rw [bind_eq_ok] at huse
      obtain ⟨target, htarget, huse⟩ := huse
      cases huse
      cases h
      refine .allow t curMove _ p hplace (by simp)
        (fun hon => absurd hon hoff) fun _ => ?_
      exact ⟨hcur, (List.getElem?_eq_some_iff.mp (orFault_eq_ok.mp hcaller)).1,
        (List.getElem?_eq_some_iff.mp (orFault_eq_ok.mp htarget)).1⟩

theorem atObjected_spec {o : Move} (hplace : y.place = .objected t o)
    (h : atObjected y t o i = .ok y') : LoopMove y i y' := by
  unfold atObjected at h
  simp only at h
  split at h
  next hname =>
    split at h
    next =>
      rw [bind_eq_ok] at h
      obtain ⟨⟨s, newCard⟩, hshow, h⟩ := h
      cases h
      exact .expose t o s newCard hplace hname hshow
    next =>
      rw [bind_eq_ok] at h
      obtain ⟨w, hreveal, h⟩ := h
      cases h
      exact .fail t o w hplace hname hreveal
  next =>
    split at h
    next hallow =>
      rw [bind_eq_ok] at h
      obtain ⟨s, hact, h⟩ := h
      cases h
      exact .act t s .ending (Or.inl ⟨⟨o, hplace, hallow⟩, rfl⟩) hact
    next => cases h; exact .drop t o hplace

/-- Every step of the game thread is one of its moves. -/
theorem stepThread_spec (h : stepThread y i = .ok y') : LoopMove y i y' := by
  unfold stepThread at h
  cases hplace : y.place <;> simp only [hplace] at h
  case idle =>
    split at h <;> cases h
    exact .start hplace
  case head => exact atHead_spec hplace h
  case picked => exact atPicked_spec hplace h
  case leaving => cases h; exact .wake hplace
  case chosen => cases h; exact atChosen_spec hplace
  case slot => cases h; exact atSlot_spec hplace
  case look => exact atLook_spec hplace h
  case ask => exact atAsk_spec hplace h
  case test => cases h; exact atTest_spec hplace
  case send t curMove p => cases h; exact .send t curMove p hplace
  case use => exact atUse_spec hplace h
  case objected => exact atObjected_spec hplace h
  case free t =>
    rw [bind_eq_ok] at h
    obtain ⟨s, hact, h⟩ := h
    cases h
    exact .act t s .ending (Or.inr (Or.inl ⟨hplace, rfl⟩)) hact
  case shown t theCard newCard =>
    rw [bind_eq_ok] at h
    obtain ⟨s, hact, h⟩ := h
    cases h
    exact .act t s _ (Or.inr (Or.inr ⟨theCard, newCard, hplace, rfl⟩)) hact
  case acted t theCard newCard =>
    rw [bind_eq_ok] at h
    obtain ⟨s, hreplace, h⟩ := h
    cases h
    exact .replace t theCard newCard s hplace hreplace
  case ending =>
    rw [bind_eq_ok] at h
    obtain ⟨s, hjudge, h⟩ := h
    cases h
    exact .judge s hplace hjudge
  case next => cases h; exact .turn hplace

end Move

end Coup
