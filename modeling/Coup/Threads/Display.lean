import Coup.Game.CardCount
import Coup.Game.TurnOrder
import Coup.Threads.Loop
import Mathlib.Data.List.GetD

/-!
# The table on the screen

The game thread does not touch the views.  It sends blocks to the main queue
that copy the user's area and the rows of the AIs from the players, paint whose
turn it is and who is asked, and turn over the pictures of the user's cards.
The blocks read the players and the indexes when they run, not when they are
sent.

`Loop` has the blocks that change buttons; here the other blocks wait in a
queue of their own, so they may overtake each other, which allows more orders
than the one main queue does.
-/

namespace Coup

open Coup.Support

/-! ## The views -/

/-- The background colours of the user's area and of the rows. -/
inductive CellColor
  | clear
  | lightGray
  /-- `#D2B4DEFF`, in light mode. -/
  | lightPurple
  /-- `#7D3C98FF`, in dark mode. -/
  | darkPurple
  deriving DecidableEq, Repr

/-- The picture of one of the user's cards: the back, or the photo of a
role. -/
inductive CardImage
  | back
  | photo (role : Role)
  deriving DecidableEq, Repr

/-- What a row of the table view shows of an AI. -/
structure GameLogTableViewCell where
  aiNameLabel : String
  moneyLabel : String
  identity1Label : String
  identity2Label : String
  backgroundColor : CellColor
  deriving DecidableEq, Repr

/-- The views of `GameViewController` that show the table, with the colours
and the pictures that it keeps for them. -/
structure GameScreen where
  userNameLabel : String
  userCoinLabel : String
  userCard1Label : String
  userCard2Label : String
  card1ImageView : CardImage
  card2ImageView : CardImage
  currentUserCard1 : CardImage
  currentUserCard2 : CardImage
  userStack : CellColor
  userCellColor : CellColor
  AICellColors : List CellColor
  rows : List GameLogTableViewCell
  deriving DecidableEq, Repr

/-- The views before `viewDidLoad`. -/
def GameScreen.init : GameScreen :=
  { userNameLabel := "", userCoinLabel := ""
    userCard1Label := "", userCard2Label := ""
    card1ImageView := .back, card2ImageView := .back
    currentUserCard1 := .back, currentUserCard2 := .back
    userStack := .clear, userCellColor := .clear
    AICellColors := [], rows := [] }

/-- `"$ \(coins)"`. -/
def coinText (coins : ℤ) : String := "$ " ++ toString coins

/-- What a row shows of a card. -/
def identityText (card : Card) : String :=
  if card.revealed then card.name else "Hidden"

/-- What `tableView(_:cellForRowAt:)` puts into the row of an AI. -/
def World.cell (w : World) (p : PlayerRef) (color : CellColor) :
    GameLogTableViewCell :=
  { aiNameLabel := (w.player p).name
    moneyLabel := coinText (w.player p).coins
    identity1Label := identityText (w.held p .first)
    identity2Label := identityText (w.held p .second)
    backgroundColor := color }

namespace GameScreen

variable (x : GameScreen) (s : State)

/-- `tableView(_:cellForRowAt:)`. -/
def cellForRowAt (row : ℕ) : Except Fault GameLogTableViewCell := do
  let ai ← orFault .trap s.vc.AIs[row]?
  let color ← orFault .trap x.AICellColors[row]?
  pure (s.world.cell ai color)

/-- The rows that the table view asks for. -/
def cellsForRows : List ℕ → Except Fault (List GameLogTableViewCell)
  | [] => .ok []
  | row :: rows => do
      let cell ← x.cellForRowAt s row
      let cells ← cellsForRows rows
      pure (cell :: cells)

/-- `tableView.reloadData()`; `tableView(_:numberOfRowsInSection:)` is the
number of AIs. -/
def reloadData : Except Fault GameScreen := do
  let rows ← x.cellsForRows s (List.range s.vc.AIs.length)
  pure { x with rows }

/-- `addAIColors`, whose range `1...AIs.count` needs an AI. -/
def addAIColors : Except Fault GameScreen :=
  if s.vc.AIs.length < 1 then .error .trap
  else .ok { x with
    AICellColors :=
      x.AICellColors ++ List.replicate s.vc.AIs.length .clear }

/-- What `setupUser` shows of the user. -/
def showUser (w : World) (user : PlayerRef) : GameScreen :=
  { x with
    userNameLabel := (w.player user).name
    userCoinLabel := coinText (w.player user).coins
    userCard1Label := (w.held user .first).name
    card1ImageView := x.currentUserCard1
    userCard2Label := (w.held user .second).name
    card2ImageView := x.currentUserCard2 }

/-- `setupUser`, which reads the user from the global `players` again. -/
def setupUser : Except Fault (State × GameScreen) := do
  let user ← orFault .trap s.world.players[0]?
  pure ({ s with vc.user := user }, x.showUser s.world user)

def highlightUser (color : CellColor) : GameScreen :=
  { x with userCellColor := color, userStack := color }

def highlightAI (index : ℕ) (color : CellColor) : Except Fault GameScreen :=
  if index < x.AICellColors.length then
    { x with AICellColors := x.AICellColors.set index color }.reloadData s
  else .error .trap

/-- The two branches of `highlightPlayerInGray` and
`highlightPlayerInYellow`. -/
def highlightPlayer (index : ℕ) (color : CellColor) : Except Fault GameScreen :=
  if index = 0 then .ok (x.highlightUser color)
  else x.highlightAI s (index - 1) color

def highlightPlayerInGray (index : ℕ) : Except Fault GameScreen :=
  x.highlightPlayer s index .lightGray

/-- The colour that `highlightPlayerInYellow` takes, a purple. -/
def purple (lightMode : Bool) : CellColor :=
  if lightMode then .lightPurple else .darkPurple

def highlightPlayerInYellow (lightMode : Bool) (index : ℕ) :
    Except Fault GameScreen :=
  x.highlightPlayer s index (purple lightMode)

/-- `dismissHighlights`, whose range `1...AICellColors.count` needs a
colour. -/
def dismissHighlights : Except Fault GameScreen :=
  if x.AICellColors.length < 1 then .error .trap
  else ({ x with
    userCellColor := .clear, userStack := .clear
    AICellColors :=
      List.replicate x.AICellColors.length .clear }).reloadData s

/-- The block of `revealFirstCard` or of `revealSecondCard`. -/
def turnOver : Slot → GameScreen
  | .first => { x with
      currentUserCard1 := .photo (s.world.held s.vc.user .first).role
      card1ImageView := .photo (s.world.held s.vc.user .first).role }
  | .second => { x with
      currentUserCard2 := .photo (s.world.held s.vc.user .second).role
      card2ImageView := .photo (s.world.held s.vc.user .second).role }

end GameScreen

/-! ## The main queue -/

/-- The blocks that change these views. -/
inductive ScreenBlock
  /-- `dismissHighlights()`, `highlightPlayerInGray(index: turnInd)`. -/
  | showTurn
  /-- `highlightPlayerInYellow(index: challengeTurnInd)`. -/
  | showAsked
  | dismissHighlights
  /-- The first block of `revealCard`: if the player is the user, it sends the
  block that turns over the picture. -/
  | tellReveal (p : PlayerRef) (i : Slot)
  | turnOver (i : Slot)
  | setupUser
  /-- `setupUser()`, `tableView.reloadData()`. -/
  | refresh
  deriving DecidableEq, Repr

/-- The blocks that `revealCard` sends. -/
def revealBlocks (w : World) (p : PlayerRef) : List ScreenBlock :=
  (w.firstHidden p).toList.map (.tellReveal p) ++ [.refresh]

/-- The blocks that `actOnMove` sends. -/
def actBlocks (w : World) (m : Move) : List ScreenBlock :=
  match m.name with
  | .coup | .assassinate => revealBlocks w m.target
  | .exchange =>
      if (w.player m.caller).name = w.username then [.setupUser] else []
  | _ => []

/-- The blocks that the game thread sends on its step from one place to the
other. -/
def Loop.sends (y : Loop) (place' : Place) : List ScreenBlock :=
  match y.place with
  | .head =>
      match place' with
      | .picked _ => [.showTurn]
      | _ => []
  | .look _ _ =>
      match place' with
      | .ask _ _ _ => [.showAsked]
      | _ => []
  | .use _ _ _ =>
      match place' with
      | .slot _ _ => [.dismissHighlights]
      | _ => []
  | .objected t objection =>
      if objection.name = .challenge then
        if y.game.world.checkhaveCard t.currentPlayer t.curMove.name ≠ -1 then
          revealBlocks y.game.world objection.caller
        else revealBlocks y.game.world objection.target
      else if objection.name = .allow then
        actBlocks y.game.world t.curMove ++ [.refresh]
      else []
  | .free t => actBlocks y.game.world t.curMove ++ [.refresh]
  | .shown t _ _ => actBlocks y.game.world t.curMove ++ [.refresh]
  | .acted _ _ _ => [.refresh]
  | _ => []

structure Display where
  loop : Loop
  screen : GameScreen
  /-- The blocks that wait in the main queue, with the oldest first. -/
  blocks : List ScreenBlock
  /-- The heap in the sleep of the last step of the thread: when a claim was
  challenged, the loser's card is turned up and the claimed card is not. -/
  unshown : World
  /-- `SettingsViewController.isLightModeEnabled()`, which no screen of a game
  changes. -/
  lightMode : Bool

/-- The heap when the thread sleeps before it shows a claimed card. -/
def Loop.unshown (y : Loop) : World :=
  match y.place with
  | .objected _ objection =>
      (y.game.world.revealCard objection.caller).toOption.getD y.game.world
  | _ => y.game.world

/-- A claimed card is shown. -/
def Place.showing : Place → Bool
  | .shown _ _ _ => true
  | _ => false

/-- What the main thread reads, which may have run early, in the sleep before
the claimed card was shown. -/
def Display.seen (d : Display) (early : Bool) : State :=
  if early && d.loop.place.showing then
    { d.loop.game with world := d.unshown }
  else d.loop.game

/-- What a block does when the main queue runs it. -/
def Display.runBlock (d : Display) (s : State) :
    ScreenBlock → Except Fault Display
  | .showTurn => do
      let x ← d.screen.dismissHighlights s
      let x ← x.highlightPlayerInGray s s.vc.turnInd
      pure { d with screen := x }
  | .showAsked => do
      let x ← d.screen.highlightPlayerInYellow s d.lightMode
        s.vc.challengeTurnInd
      pure { d with screen := x }
  | .dismissHighlights => do
      let x ← d.screen.dismissHighlights s
      pure { d with screen := x }
  | .tellReveal p i =>
      if (s.world.player p).name = s.world.username then
        .ok { d with blocks := d.blocks ++ [.turnOver i] }
      else .ok d
  | .turnOver i => .ok { d with screen := d.screen.turnOver s i }
  | .setupUser => do
      let (s, x) ← d.screen.setupUser s
      pure { d with loop.game.vc.user := s.vc.user, screen := x }
  | .refresh => do
      let (s, x) ← d.screen.setupUser s
      let x ← x.reloadData s
      pure { d with loop.game.vc.user := s.vc.user, screen := x }

inductive DisplayEvent
  /-- An event of the loop; the game thread sends its blocks. -/
  | loop (e : LoopEvent)
  /-- The main queue runs its oldest block. -/
  | runBlock (early : Bool)
  /-- A row scrolls into view and is filled again. -/
  | willDisplay (early : Bool) (row : ℕ)

/-- What the game thread sends; the handlers of the main thread send none of
these blocks. -/
def LoopEvent.sends (y y' : Loop) : LoopEvent → List ScreenBlock
  | .thread _ => y.sends y'.place
  | _ => []

theorem LoopEvent.sends_main {y y' : Loop} {e : LoopEvent}
    (hmain : ∀ i, e ≠ .thread i) : e.sends y y' = [] := by
  cases e with
  | thread i => exact absurd rfl (hmain i)
  | deliver | tap | press | endGame => rfl

def stepDisplay (d : Display) : DisplayEvent → Except Fault Display
  | .loop e => do
      let y ← stepLoop d.loop e
      pure { d with
        loop := y
        blocks := d.blocks ++ e.sends d.loop y
        unshown := match e with
          | .thread _ => d.loop.unshown
          | _ => d.unshown }
  | .runBlock early =>
      match d.blocks with
      | [] => .error .refused
      | block :: blocks => { d with blocks }.runBlock (d.seen early) block
  | .willDisplay early row =>
      if row < d.screen.rows.length then do
        let cell ← d.screen.cellForRowAt (d.seen early) row
        pure { d with screen.rows := d.screen.rows.set row cell }
      else .error .refused

/-- The screen that `viewDidLoad` and the first layout leave: `setupAIs` makes
the colours, `setupUser` fills the user's area, and the table view its
rows. -/
def openDisplay (w : World) (base : CardRef) (shuffling dealing : List ℕ)
    (lightMode : Bool) : Except Fault Display := do
  let y ← openLoop w base shuffling dealing
  let x ← GameScreen.init.addAIColors y.game
  let (s, x) ← x.setupUser y.game
  let x ← x.reloadData s
  pure
    { loop := { y with game := s }, screen := x, blocks := []
      unshown := s.world, lightMode }

/-! ## Indexes -/

/-- The user sits in front of the AIs, and both indexes belong to the table;
after a challenge round the second one is behind the last seat. -/
structure InRange (s : State) : Prop where
  players : s.world.players = s.vc.user :: s.vc.AIs
  opponents : s.vc.AIs ≠ []
  turnInd : s.vc.turnInd < s.world.players.length
  challengeTurnInd : s.vc.challengeTurnInd ≤ s.world.players.length

section InRange

variable {s s' : State}

theorem InRange.length (h : InRange s) :
    s.world.players.length = s.vc.AIs.length + 1 := by
  rw [h.players, List.length_cons]

theorem InRange.congr (h : InRange s)
    (hplayers : s'.world.players = s.world.players)
    (huser : s'.vc.user = s.vc.user) (hAIs : s'.vc.AIs = s.vc.AIs)
    (hturn : s'.vc.turnInd = s.vc.turnInd)
    (hslot : s'.vc.challengeTurnInd = s.vc.challengeTurnInd) :
    InRange s' := by
  constructor
  case players => rw [hplayers, huser, hAIs, h.players]
  case opponents => rw [hAIs]; exact h.opponents
  case turnInd => rw [hplayers, hturn]; exact h.turnInd
  case challengeTurnInd => rw [hplayers, hslot]; exact h.challengeTurnInd

theorem InRange.incrementInd (h : InRange s) : InRange (incrementInd s) := by
  refine ⟨h.players, h.opponents, ?_, h.challengeTurnInd⟩
  rw [incrementInd_turnInd h.turnInd]
  exact Nat.mod_lt _ (Nat.zero_lt_of_lt h.turnInd)

end InRange

/-! ## What the views show -/

/-- The rows that the table view shows for these colours. -/
def State.cells (s : State) (colors : List CellColor) :
    List GameLogTableViewCell :=
  List.zipWith s.world.cell s.vc.AIs colors

/-- The screen shows the table: the user's name, coins and cards, and in the
rows the AIs with their coins and the cards that are face up. -/
structure Current (s : State) (x : GameScreen) : Prop where
  userNameLabel : x.userNameLabel = (s.world.player s.vc.user).name
  userCoinLabel : x.userCoinLabel = coinText (s.world.player s.vc.user).coins
  userCard1Label : x.userCard1Label = (s.world.held s.vc.user .first).name
  userCard2Label : x.userCard2Label = (s.world.held s.vc.user .second).name
  rows : x.rows = s.cells x.AICellColors

/-- The screen shows the same of both states. -/
structure SameFaces (s s' : State) : Prop where
  user : s'.vc.user = s.vc.user
  AIs : s'.vc.AIs = s.vc.AIs
  name : ∀ p, (s'.world.player p).name = (s.world.player p).name
  coins : ∀ p, (s'.world.player p).coins = (s.world.player p).coins
  held : ∀ p i, s'.world.held p i = s.world.held p i

section Current

variable {s s' : State} {x : GameScreen}

theorem SameFaces.refl (s : State) : SameFaces s s :=
  ⟨rfl, rfl, fun _ => rfl, fun _ => rfl, fun _ _ => rfl⟩

theorem SameFaces.setAI (s : State) (p : PlayerRef) (ai : AI) :
    SameFaces s { s with world := s.world.setAI p ai } := by
  refine ⟨rfl, rfl, fun q => ?_, fun q => ?_, fun q i => ?_⟩ <;> simp

theorem Current.congr (h : Current s x) (hsame : SameFaces s s') :
    Current s' x := by
  have hcell : s'.world.cell = s.world.cell := by
    funext p color
    simp only [World.cell, hsame.name, hsame.coins, hsame.held]
  constructor
  · rw [hsame.user, hsame.name, h.userNameLabel]
  · rw [hsame.user, hsame.coins, h.userCoinLabel]
  · rw [hsame.user, hsame.held, h.userCard1Label]
  · rw [hsame.user, hsame.held, h.userCard2Label]
  · rw [h.rows, State.cells, State.cells, hsame.AIs, hcell]

end Current

/-! ## What the blocks do -/

namespace GameScreen

variable {x : GameScreen} {s : State}

theorem cellForRowAt_eq (hlength : x.AICellColors.length = s.vc.AIs.length)
    {row : ℕ} (hrow : row < s.vc.AIs.length) :
    x.cellForRowAt s row = .ok (s.world.cell (s.vc.AIs.getD row noPlayer)
      (x.AICellColors.getD row .clear)) := by
  have hrow' : row < x.AICellColors.length := hlength ▸ hrow
  rw [cellForRowAt, List.getElem?_eq_getElem hrow, orFault, bind_ok,
    List.getElem?_eq_getElem hrow', orFault, bind_ok,
    List.getD_eq_getElem _ _ hrow, List.getD_eq_getElem _ _ hrow']
  rfl

theorem cellsForRows_eq (hlength : x.AICellColors.length = s.vc.AIs.length)
    {rows : List ℕ} (hrows : ∀ row ∈ rows, row < s.vc.AIs.length) :
    x.cellsForRows s rows = .ok (rows.map fun row =>
      s.world.cell (s.vc.AIs.getD row noPlayer)
        (x.AICellColors.getD row .clear)) := by
  induction rows with
  | nil => rfl
  | cons row rows ih =>
      rw [cellsForRows, cellForRowAt_eq hlength (hrows row List.mem_cons_self),
        bind_ok, ih fun r hr => hrows r (List.mem_cons_of_mem row hr), bind_ok]
      rfl

theorem reloadData_eq (hlength : x.AICellColors.length = s.vc.AIs.length) :
    x.reloadData s = .ok { x with rows := s.cells x.AICellColors } := by
  have hrows : ∀ row ∈ List.range s.vc.AIs.length, row < s.vc.AIs.length :=
    fun row hrow => List.mem_range.mp hrow
  rw [reloadData, cellsForRows_eq hlength hrows, bind_ok]
  congr 2
  apply List.ext_getElem
  · simp [State.cells, hlength]
  · intro row hrow hrow'
    simp only [State.cells, List.length_zipWith, lt_min_iff] at hrow'
    rw [List.getElem_map, List.getElem_range,
      List.getD_eq_getElem _ _ hrow'.1, List.getD_eq_getElem _ _ hrow'.2]
    simp [State.cells]

theorem setupUser_eq (h : InRange s) :
    x.setupUser s = .ok (s, x.showUser s.world s.vc.user) := by
  rw [setupUser, h.players, List.getElem?_cons_zero, orFault, bind_ok]
  rfl

/-- The colour that the screen shows at a seat. -/
def color (x : GameScreen) (k : ℕ) : CellColor :=
  (x.userStack :: x.rows.map fun cell => cell.backgroundColor).getD k .clear

/-- The rows show the colours that the controller keeps for them. -/
structure Painted (s : State) (x : GameScreen) : Prop where
  length : x.AICellColors.length = s.vc.AIs.length
  userStack : x.userStack = x.userCellColor
  rows : (x.rows.map fun cell => cell.backgroundColor) = x.AICellColors

/-- A new coat of paint: the seats get these colours, and what the screen
shows of the players does not get worse. -/
structure Repaints (s : State) (x x' : GameScreen) (color : ℕ → CellColor) :
    Prop where
  painted : Painted s x'
  current : Current s x → Current s x'
  color : ∀ k, x'.color k = color k

theorem map_cells {colors : List CellColor}
    (hlength : colors.length = s.vc.AIs.length) :
    ((s.cells colors).map fun cell => cell.backgroundColor) = colors := by
  apply List.ext_getElem
  · simp [State.cells, hlength]
  · intro row hrow hrow'
    simp [State.cells, World.cell]

/-- Whatever the colours, the rows are filled with what they show now. -/
theorem repaints {colors : List CellColor} (color : CellColor)
    (hlength : colors.length = s.vc.AIs.length) :
    Repaints s x { x with
      userCellColor := color, userStack := color
      AICellColors := colors, rows := s.cells colors }
      fun k => (color :: colors).getD k .clear where
  painted := ⟨hlength, rfl, map_cells hlength⟩
  current h := ⟨h.userNameLabel, h.userCoinLabel, h.userCard1Label,
    h.userCard2Label, rfl⟩
  color k := by
    rw [GameScreen.color, map_cells hlength]

theorem Painted.dismissHighlights (h : Painted s x) (hsome : s.vc.AIs ≠ []) :
    ∃ x', x.dismissHighlights s = .ok x' ∧
      Repaints s x x' fun _ => .clear := by
  have hpos := List.length_pos_iff.mpr hsome
  have hlength := h.length
  have hclear : (List.replicate x.AICellColors.length
      CellColor.clear).length = s.vc.AIs.length := by
    rw [List.length_replicate, hlength]
  refine ⟨_, ?_, (repaints .clear hclear).painted,
    (repaints .clear hclear).current, fun k => ?_⟩
  · rw [GameScreen.dismissHighlights, if_neg (by omega),
      reloadData_eq hclear]
  · rw [(repaints .clear hclear).color]
    cases k with
    | zero => rfl
    | succ k =>
        rw [List.getD_cons_succ, List.getD_eq_getElem?_getD,
          List.getElem?_getD_replicate_default_eq]

theorem Painted.highlightPlayer (h : Painted s x) {index : ℕ}
    (hindex : index ≤ s.vc.AIs.length) (color : CellColor) :
    ∃ x', x.highlightPlayer s index color = .ok x' ∧
      Repaints s x x' fun k => if k = index then color else x.color k := by
  cases index with
  | zero =>
      refine ⟨x.highlightUser color, rfl, ⟨h.length, rfl, h.rows⟩,
        fun hcur => ⟨hcur.userNameLabel, hcur.userCoinLabel,
          hcur.userCard1Label, hcur.userCard2Label, hcur.rows⟩, ?_⟩
      intro k
      cases k <;> rfl
  | succ j =>
      have hj : j < x.AICellColors.length := by
        rw [h.length]
        exact hindex
      have hset : (x.AICellColors.set j color).length = s.vc.AIs.length := by
        rw [List.length_set, h.length]
      have hpaint := repaints (x := x) x.userCellColor hset
      refine ⟨_, ?_, { hpaint with color := fun k => ?_ }⟩
      · rw [GameScreen.highlightPlayer, if_neg (Nat.succ_ne_zero j),
          Nat.add_sub_cancel, highlightAI, if_pos hj, reloadData_eq hset,
          ← h.userStack]
      · rw [hpaint.color, GameScreen.color, h.rows, h.userStack]
        cases k with
        | zero => rfl
        | succ k =>
            rw [List.getD_cons_succ, List.getD_cons_succ,
              List.getD_eq_getElem?_getD, List.getElem?_set,
              List.getD_eq_getElem?_getD]
            by_cases hk : k = j
            · rw [hk, if_pos rfl, if_pos rfl, if_pos hj]
              rfl
            · rw [if_neg (Ne.symm hk), if_neg (by omega)]

/-- Behind the last seat there is no row to paint. -/
theorem Painted.highlightPlayer_trap (h : Painted s x) {index : ℕ}
    (hindex : s.vc.AIs.length < index) (color : CellColor) :
    x.highlightPlayer s index color = .error .trap := by
  rw [GameScreen.highlightPlayer, if_neg (by omega), highlightAI, h.length,
    if_neg (by omega)]

end GameScreen

/-- The colours that a block leaves at the seats. -/
def State.tint (s : State) (lightMode : Bool) (color : ℕ → CellColor) :
    ScreenBlock → ℕ → CellColor
  | .showTurn, k => if k = s.vc.turnInd then .lightGray else .clear
  | .showAsked, k =>
      if k = s.vc.challengeTurnInd then GameScreen.purple lightMode
      else color k
  | .dismissHighlights, _ => .clear
  | _, k => color k

/-- The block that looks for a row behind the last seat. -/
def Late (s : State) (block : ScreenBlock) : Prop :=
  block = .showAsked ∧ s.vc.challengeTurnInd = s.world.players.length

section RunBlock

open GameScreen

variable {d : Display} {s : State}

theorem repaints_refl {x : GameScreen} (h : Painted s x) :
    Repaints s x x x.color :=
  ⟨h, id, fun _ => rfl⟩

/-- A block changes the screen, and at most sends the block that turns over a
picture. -/
theorem runBlock_spec (hrange : InRange s) (hpainted : Painted s d.screen)
    (huser : s.vc.user = d.loop.game.vc.user) {block : ScreenBlock}
    (hlate : ¬ Late s block) :
    ∃ x' more, d.runBlock s block =
        .ok { d with screen := x', blocks := d.blocks ++ more } ∧
      (∀ b ∈ more, ∃ i, b = .turnOver i) ∧
      Repaints s d.screen x' (s.tint d.lightMode d.screen.color block) ∧
      (block = .refresh → Current s x') := by
  have hlength := hrange.length
  have hturn := hrange.turnInd
  have hslot := hrange.challengeTurnInd
  cases block with
  | showTurn =>
      obtain ⟨x₁, hx₁, hclear⟩ := hpainted.dismissHighlights hrange.opponents
      have hseat : s.vc.turnInd ≤ s.vc.AIs.length := by omega
      obtain ⟨x₂, hx₂, hgray⟩ :=
        hclear.painted.highlightPlayer hseat .lightGray
      refine ⟨x₂, [], ?_, by simp, ⟨hgray.painted,
        fun h => hgray.current (hclear.current h), fun k => ?_⟩, by simp⟩
      · rw [Display.runBlock, hx₁, bind_ok, highlightPlayerInGray, hx₂,
          bind_ok, List.append_nil]
        rfl
      · rw [hgray.color, hclear.color]
        rfl
  | showAsked =>
      have hne : s.vc.challengeTurnInd ≠ s.world.players.length :=
        fun h => hlate ⟨rfl, h⟩
      have hseat : s.vc.challengeTurnInd ≤ s.vc.AIs.length := by omega
      obtain ⟨x, hx, hpurple⟩ :=
        hpainted.highlightPlayer hseat (purple d.lightMode)
      refine ⟨x, [], ?_, by simp, hpurple, by simp⟩
      rw [Display.runBlock, highlightPlayerInYellow, hx, bind_ok,
        List.append_nil]
      rfl
  | dismissHighlights =>
      obtain ⟨x, hx, hclear⟩ := hpainted.dismissHighlights hrange.opponents
      refine ⟨x, [], ?_, by simp, hclear, by simp⟩
      rw [Display.runBlock, hx, bind_ok, List.append_nil]
      rfl
  | tellReveal p i =>
      have hkeep := repaints_refl hpainted
      rw [Display.runBlock]
      split
      · exact ⟨d.screen, [.turnOver i], rfl, by simp, hkeep, by simp⟩
      · exact ⟨d.screen, [], by rw [List.append_nil], by simp, hkeep,
          by simp⟩
  | turnOver i =>
      refine ⟨d.screen.turnOver s i, [], ?_, by simp, ?_, by simp⟩
      · rw [Display.runBlock, List.append_nil]
      · cases i <;> exact ⟨⟨hpainted.length, hpainted.userStack,
          hpainted.rows⟩, fun h => ⟨h.userNameLabel, h.userCoinLabel,
          h.userCard1Label, h.userCard2Label, h.rows⟩, fun _ => rfl⟩
  | setupUser =>
      refine ⟨d.screen.showUser s.world s.vc.user, [], ?_, by simp,
        ⟨⟨hpainted.length, hpainted.userStack, hpainted.rows⟩,
          fun h => ⟨rfl, rfl, rfl, rfl, h.rows⟩, fun _ => rfl⟩, by simp⟩
      rw [Display.runBlock, setupUser_eq hrange, bind_ok, List.append_nil]
      simp only [huser]
      rfl
  | refresh =>
      have hshown : (d.screen.showUser s.world
          s.vc.user).AICellColors.length = s.vc.AIs.length :=
        hpainted.length
      refine ⟨{ d.screen.showUser s.world s.vc.user with
        rows := s.cells d.screen.AICellColors }, [], ?_, by simp,
        ⟨⟨hpainted.length, hpainted.userStack, map_cells hpainted.length⟩,
          fun _ => ⟨rfl, rfl, rfl, rfl, rfl⟩, fun k => ?_⟩,
        fun _ => ⟨rfl, rfl, rfl, rfl, rfl⟩⟩
      · rw [Display.runBlock, setupUser_eq hrange, bind_ok,
          List.append_nil]
        simp only [reloadData_eq hshown, bind_ok]
        simp only [huser]
        rfl
      · show (d.screen.userStack :: (s.cells
          d.screen.AICellColors).map _).getD k .clear = d.screen.color k
        rw [map_cells hpainted.length, ← hpainted.rows]
        rfl

theorem runBlock_late (hrange : InRange s) (hpainted : Painted s d.screen)
    {block : ScreenBlock} (hlate : Late s block) :
    d.runBlock s block = .error .trap := by
  obtain ⟨rfl, hend⟩ := hlate
  have hlength := hrange.length
  rw [Display.runBlock, highlightPlayerInYellow,
    hpainted.highlightPlayer_trap (by omega)]
  rfl

end RunBlock

end Coup
