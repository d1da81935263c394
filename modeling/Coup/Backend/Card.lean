import Mathlib.Data.Rat.Defs

/-!
# Cards, moves and the shared objects of the game

`Card`, `Player` and `Move` are classes in the program, so two variables can
hold the same object.  References are natural numbers here and `World` is the
heap they point into, together with the two globals `players` and `moveLog`
and the name that `LoginViewController.getUsername` returns.
-/

namespace Coup

/-- The five subclasses of `Card`. -/
inductive Role
  | assassin
  | ambassador
  | captain
  | contessa
  | duke
  deriving DecidableEq, Repr

/-- The names a `Move` can carry; `unnamed` is the empty name of `Move()`. -/
inductive MoveName
  | unnamed
  | income
  | foreignAid
  | coup
  | exchange
  | assassinate
  | steal
  | tax
  | allow
  | challenge
  deriving DecidableEq, Repr

/-- The ability flags that the initialiser of a subclass of `Card` sets. -/
structure Abilities where
  tax : Bool
  assassinate : Bool
  exchange : Bool
  steal : Bool
  foreignAid : Bool
  coup : Bool
  deriving DecidableEq, Repr

def Role.abilities : Role → Abilities
  | .assassin =>
      { tax := false, assassinate := true, exchange := false
        steal := false, foreignAid := false, coup := true }
  | .ambassador =>
      { tax := false, assassinate := false, exchange := true
        steal := false, foreignAid := false, coup := true }
  | .captain =>
      { tax := false, assassinate := false, exchange := false
        steal := true, foreignAid := false, coup := true }
  | .contessa =>
      { tax := false, assassinate := false, exchange := false
        steal := false, foreignAid := true, coup := true }
  | .duke =>
      { tax := true, assassinate := false, exchange := false
        steal := false, foreignAid := false, coup := true }

/-- A card object: its subclass, which fixes every other field, and the one
field that changes during a game. -/
structure Card where
  role : Role
  revealed : Bool
  deriving DecidableEq, Repr

/-- The flag of a card that is named like the move; no card has a flag for the
remaining names. -/
def Card.can (card : Card) : MoveName → Bool
  | .tax => card.role.abilities.tax
  | .assassinate => card.role.abilities.assassinate
  | .exchange => card.role.abilities.exchange
  | .steal => card.role.abilities.steal
  | .foreignAid => card.role.abilities.foreignAid
  | .coup => card.role.abilities.coup
  | _ => false

abbrev CardRef := ℕ

abbrev PlayerRef := ℕ

/-- The two positions `cards.0` and `cards.1` of a hand. -/
inductive Slot
  | first
  | second
  deriving DecidableEq, Repr

/-- The fields that the subclass `AI` adds to `Player`. -/
structure AI where
  moveRateDic : MoveName → ℤ
  challengeRate : ℚ

/-- A player object; `ai` is present exactly for the instances of `AI`. -/
structure Player where
  name : String
  cards : CardRef × CardRef
  coins : ℤ
  ai : Option AI

structure Move where
  name : MoveName
  caller : PlayerRef
  target : PlayerRef
  deriving DecidableEq, Repr

/-- Stands for the two nameless `Player()` objects of `Move()`, which nothing
reads. -/
def noPlayer : PlayerRef := 0

/-- The initialiser `Move()`. -/
def Move.init : Move := ⟨.unnamed, noPlayer, noPlayer⟩

/-- Why the program does not get past a step. -/
inductive Fault
  /-- A Swift runtime trap: an index or a random range that is empty or out of
  bounds, a forced cast or a forced unwrapping that fails. -/
  | trap
  /-- The draws supplied ran out while a loop was still looking for a good one. -/
  | spinning
  /-- The event is not possible in this state. -/
  | refused
  deriving DecidableEq, Repr

/-- The heap of card and player objects, and the globals. -/
structure World where
  card : CardRef → Card
  player : PlayerRef → Player
  players : List PlayerRef
  moveLog : List Move
  username : String

namespace World

def slot (w : World) (p : PlayerRef) : Slot → CardRef
  | .first => (w.player p).cards.1
  | .second => (w.player p).cards.2

/-- The card object in a position of a hand. -/
def held (w : World) (p : PlayerRef) (i : Slot) : Card :=
  w.card (w.slot p i)

/-- Assign to a field of a player object. -/
def setPlayer (w : World) (p : PlayerRef) (f : Player → Player) : World :=
  { w with player := Function.update w.player p (f (w.player p)) }

def setSlot (w : World) (p : PlayerRef) (i : Slot) (c : CardRef) : World :=
  w.setPlayer p fun player =>
    match i with
    | .first => { player with cards := (c, player.cards.2) }
    | .second => { player with cards := (player.cards.1, c) }

/-- `coins += n`. -/
def addCoins (w : World) (p : PlayerRef) (n : ℤ) : World :=
  w.setPlayer p fun player => { player with coins := player.coins + n }

def setAI (w : World) (p : PlayerRef) (ai : AI) : World :=
  w.setPlayer p fun player => { player with ai := some ai }

def setRevealed (w : World) (c : CardRef) (revealed : Bool) : World :=
  { w with card := Function.update w.card c { w.card c with revealed } }

end World

end Coup
