import Coup.Support.Run
import Coup.Backend.Player
import Mathlib.Algebra.Order.Field.Rat
import Mathlib.Data.List.Basic

/-!
# The AI

`AI` reads the table through the objects in `players`.  A `Seat` is what it
finds in one player object: the name, the two card objects and the coins.  The
methods take the AI's own seat and the list of all seats, the order in which
the dictionary `moveRateDic` happens to be iterated, and the random draws.
-/

namespace Coup

open Coup.Support

/-- The fields of a player object that the AI can read. -/
structure Seat where
  name : String
  card1 : Card
  card2 : Card
  coins : ℤ

def World.seat (w : World) (p : PlayerRef) : Seat :=
  ⟨(w.player p).name, w.held p .first, w.held p .second, (w.player p).coins⟩

def World.table (w : World) : List Seat :=
  w.players.map w.seat

/-- The keys of `moveRateDic`. -/
def rateKeys : List MoveName :=
  [.income, .foreignAid, .tax, .steal, .assassinate, .exchange]

/-- An order in which the dictionary may be iterated. -/
structure DictOrder where
  keys : List MoveName
  perm : keys.Perm rateKeys

/-- A value of `Double.random(in: 0.01...1.00)`. -/
structure UnitDraw where
  value : ℚ
  lower : 1 / 100 ≤ value
  upper : value ≤ 1

/-- The keys in the order in which the dictionary literal lists them. -/
def DictOrder.literal : DictOrder := ⟨rateKeys, .refl _⟩

/-- The smallest draw, at which every AI challenges. -/
def UnitDraw.least : UnitDraw :=
  ⟨1 / 100, by decide +kernel, by decide +kernel⟩

/-- The largest draw, at which an AI challenges only if its rate is `1`. -/
def UnitDraw.greatest : UnitDraw :=
  ⟨1, by decide +kernel, by decide +kernel⟩

/-- The initialiser of `AI`. -/
def AI.init : AI :=
  ⟨fun _ => 5, 1 / 4⟩

/-! ## Move rates -/

/-- The body of the loop that rewards copies revealed by others. -/
def raiseShown (m : MoveName) (self : Seat) (rate : ℤ) (player : Seat) : ℤ :=
  if player.name = self.name then rate
  else
    let rate :=
      if player.card1.revealed && player.card1.can m then rate + 10 else rate
    if player.card2.revealed && player.card2.can m then rate + 10 else rate

/-- The body of the loop that runs when an own copy is revealed.  The state is
the stored rate and the variable `newRate`. -/
def cutShown (m : MoveName) (self : Seat) (rates : ℤ × ℤ) (player : Seat) :
    ℤ × ℤ :=
  if player.name = self.name then rates
  else
    let rates :=
      if player.card1.revealed && player.card1.can m then
        (rates.1.tdiv 2, rates.1.tdiv 2) else rates
    if player.card2.revealed && player.card2.can m then
      (rates.1 - 100, rates.1 - 100) else rates

/-- The body of the loop for a move the AI does not have. -/
def lowerShown (m : MoveName) (rate : ℤ) (player : Seat) : ℤ :=
  let rate :=
    if player.card1.revealed && player.card1.can m then rate - 2 else rate
  if player.card2.revealed && player.card2.can m then rate - 2 else rate

/-- One of the five role blocks of `changeMoveRate`.  The blocks for
assassinate and steal first store `5`, which is `start`; the others begin with
the rate stored earlier. -/
def roleBlock (m : MoveName) (start : Option ℤ) (self : Seat)
    (players : List Seat) (rate : ℤ) : ℤ :=
  if self.card1.can m || self.card2.can m then
    let rate := start.getD rate
    let rate :=
      if self.card1.can m && self.card2.can m then rate + 20 else rate + 10
    let rate := players.foldl (raiseShown m self) rate
    if (self.card1.revealed && self.card1.can m) ||
        (self.card2.revealed && self.card2.can m) then
      (players.foldl (cutShown m self) (rate, rate.tdiv 2)).2
    else rate
  else players.foldl (lowerShown m) (rate - 1)

def updateRate (dic : MoveName → ℤ) (m : MoveName) (rate : ℤ) :
    MoveName → ℤ :=
  Function.update dic m rate

/-- The part of `changeMoveRate` before the adjustments by coins. -/
def roleBlocks (self : Seat) (players : List Seat) (dic : MoveName → ℤ) :
    MoveName → ℤ :=
  let block m start dic :=
    updateRate dic m (roleBlock m start self players (dic m))
  block .foreignAid none <| block .steal (some 5) <| block .tax none <|
    block .exchange none <| block .assassinate (some 5) dic

/-- The adjustments by the AI's own coins. -/
def adjustByCoins (self : Seat) (dic : MoveName → ℤ) : MoveName → ℤ :=
  let shift (n : ℤ) m dic := updateRate dic m (dic m + n)
  if self.coins < 3 then
    updateRate (shift 10 .foreignAid <| shift 10 .tax <| shift 10 .income dic)
      .assassinate 0
  else
    shift (-10) .foreignAid <| shift (-10) .tax <| shift (-10) .income dic

/-- Players other than the AI that have fewer than two coins. -/
def poorOthers (self : Seat) (players : List Seat) : ℕ :=
  players.countP fun player =>
    !decide (player.name = self.name) && decide (player.coins < 2)

def adjustSteal (self : Seat) (players : List Seat) (dic : MoveName → ℤ) :
    MoveName → ℤ :=
  if (poorOthers self players : ℤ) = (players.length : ℤ) - 1 then
    updateRate dic .steal 0
  else dic

def clampRate (m : MoveName) (dic : MoveName → ℤ) : MoveName → ℤ :=
  if dic m < 0 then updateRate dic m 0 else dic

/-- "All actions cannot decrease to below 0". -/
def clampRates (dic : MoveName → ℤ) : MoveName → ℤ :=
  clampRate .exchange <| clampRate .assassinate <| clampRate .steal <|
    clampRate .tax <| clampRate .foreignAid <| clampRate .income dic

def changeMoveRate (self : Seat) (players : List Seat)
    (dic : MoveName → ℤ) : MoveName → ℤ :=
  clampRates <| adjustSteal self players <| adjustByCoins self <|
    roleBlocks self players dic

/-! ## Choosing a move -/

/-- The state of the second loop of `getAIMoveName`. -/
structure Pick where
  aiMoveName : MoveName
  lowerbound : ℤ
  upperbound : ℤ

def pickStep (dic : MoveName → ℤ) (rand : ℤ) (s : Pick) (key : MoveName) :
    Pick :=
  let upperbound := s.upperbound + dic key
  { aiMoveName :=
      if s.lowerbound < rand ∧ rand ≤ upperbound then key else s.aiMoveName
    lowerbound := s.lowerbound + dic key
    upperbound }

/-- The first loop of `getAIMoveName`. -/
def rateTotal (dic : MoveName → ℤ) (order : DictOrder) : ℤ :=
  order.keys.foldl (fun total key => total + dic key) 0

/-- `getAIMoveName` after `changeMoveRate`; `draw` selects the value of
`Int.random(in: 0...total)`. -/
def pickMoveName (self : Seat) (dic : MoveName → ℤ) (order : DictOrder)
    (draw : ℕ) : Except Fault MoveName :=
  if rateTotal dic order < 0 then .error .trap
  else
    let rand := (draw : ℤ) % (rateTotal dic order + 1)
    let pick := order.keys.foldl (pickStep dic rand) ⟨.income, 0, 0⟩
    .ok (if self.coins ≥ 7 then .coup else pick.aiMoveName)

/-- The random draws and the dictionary order that one turn of an AI uses. -/
structure AIInput where
  order : DictOrder
  pick : ℕ
  seats : List ℕ

/-- The `while true` loops of `getPlayerMove`: draw a seat until it is not the
AI itself, by name, and acceptable. -/
def findTarget (w : World) (self : PlayerRef) (accept : PlayerRef → Bool) :
    List ℕ → Except Fault PlayerRef
  | [] => .error .spinning
  | draw :: draws => do
      let rand ← randomSeat w draw
      let target ← orFault .trap w.players[rand]?
      if (w.player target).name = (w.player self).name then
        findTarget w self accept draws
      else if accept target then
        pure target
      else findTarget w self accept draws
where
  /-- `Int.random(in: 0...players.count-1)`. -/
  randomSeat (w : World) (draw : ℕ) : Except Fault ℕ :=
    if w.players.length = 0 then .error .trap
    else .ok (draw % w.players.length)

/-- The condition on a target in the loop for steal. -/
def canBeRobbed (w : World) (target : PlayerRef) : Bool :=
  !w.isPlayerRevealed target && decide (2 ≤ (w.player target).coins)

/-- The condition on a target in the loop for coup and assassinate. -/
def canBeHit (w : World) (target : PlayerRef) : Bool :=
  !w.isPlayerRevealed target

/-- `getPlayerMove` of `AI`, after `getAIMoveName` has returned. -/
def chooseTarget (w : World) (self : PlayerRef) (moveName : MoveName)
    (seats : List ℕ) : Except Fault Move :=
  match moveName with
  | .income | .foreignAid | .tax | .exchange =>
      .ok ⟨moveName, self, self⟩
  | .steal => do
      let target ← findTarget w self (canBeRobbed w) seats
      pure ⟨moveName, self, target⟩
  | .coup | .assassinate => do
      let target ← findTarget w self (canBeHit w) seats
      pure ⟨moveName, self, target⟩
  | _ => .ok ⟨moveName, self, noPlayer⟩

/-- `getPlayerMove`, dispatched on the class of the player: `Player` itself
returns `Move()`. -/
def getPlayerMove (w : World) (self : PlayerRef) (i : AIInput) :
    Except Fault (Move × World) :=
  match (w.player self).ai with
  | none => .ok (.init, w)
  | some ai => do
      let dic := changeMoveRate (w.seat self) w.table ai.moveRateDic
      let moveName ← pickMoveName (w.seat self) dic i.order i.pick
      let move ← chooseTarget w self moveName i.seats
      pure (move, w.setAI self { ai with moveRateDic := dic })

/-! ## Answering a move -/

/-- The body of the loop over the other players in `adjustChallengeRate`. -/
def countShown (m : MoveName) (self : Seat) (count : ℕ) (player : Seat) : ℕ :=
  if player.name = self.name then count
  else
    let count :=
      if player.card1.revealed && player.card1.can m then count + 1 else count
    if player.card2.revealed && player.card2.can m then count + 1 else count

/-- One of the four counters of `adjustChallengeRate`, which stays zero unless
the last logged move has that name. -/
def copiesSeen (m last : MoveName) (self : Seat) (players : List Seat) : ℕ :=
  if last = m then
    if self.card1.can m || self.card2.can m then
      let count := if self.card1.can m && self.card2.can m then 2 else 1
      players.foldl (countShown m self) count
    else 0
  else 0

def adjustChallengeRate (self : Seat) (players : List Seat)
    (last : MoveName) (challengeRate : ℚ) : ℚ :=
  let assassinateCount := copiesSeen .assassinate last self players
  let exchangeCount := copiesSeen .exchange last self players
  let taxCount := copiesSeen .tax last self players
  let stealCount := copiesSeen .steal last self players
  if assassinateCount ≤ 1 ∨ exchangeCount ≤ 1 ∨ taxCount ≤ 1 ∨
      stealCount ≤ 1 then 30 / 100
  else if assassinateCount = 2 ∨ exchangeCount = 2 ∨ taxCount = 2 ∨
      stealCount = 2 then 45 / 100
  else if 3 ≤ assassinateCount ∨ 3 ≤ exchangeCount ∨ 3 ≤ taxCount ∨
      3 ≤ stealCount then 1
  else challengeRate

/-- `getChallengeOrAllow`, dispatched on the class of the player: `Player`
itself returns `Move()`. -/
def getChallengeOrAllow (w : World) (self target : PlayerRef)
    (rand : UnitDraw) : Except Fault (Move × World) :=
  match (w.player self).ai with
  | none => .ok (.init, w)
  | some ai => do
      let last ← orFault .trap w.moveLog.getLast?
      let challengeRate :=
        adjustChallengeRate (w.seat self) w.table last.name ai.challengeRate
      let name :=
        if rand.value ≤ challengeRate then MoveName.challenge else .allow
      pure (⟨name, self, target⟩, w.setAI self { ai with challengeRate })

end Coup
