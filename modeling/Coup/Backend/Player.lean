import Coup.Backend.Card

/-!
# Players

The methods of `Player` that read or change a hand, and how the assignments of
`Coup.Backend.Card` act on what a hand shows.
-/

namespace Coup

namespace World

/-- `isPlayerRevealed`. -/
def isPlayerRevealed (w : World) (p : PlayerRef) : Bool :=
  (w.held p .first).revealed && (w.held p .second).revealed

/-- `checkhaveCard`: the six cases of its `switch` are one, with the flag named
like the move; every other name leaves `-1`. -/
def checkhaveCard (w : World) (p : PlayerRef) (moveName : MoveName) : ℤ :=
  if (!(w.held p .first).revealed && (w.held p .first).can moveName) ||
      (!(w.held p .second).revealed && (w.held p .second).can moveName) then
    if (w.held p .first).can moveName then 0 else 1
  else -1

/-! ## Assignments and what they leave alone -/

variable (w : World) (p q : PlayerRef) (i j : Slot) (c d : CardRef) (n : ℤ)

@[simp] theorem setPlayer_card (f : Player → Player) :
    (w.setPlayer p f).card = w.card := rfl

@[simp] theorem setPlayer_players (f : Player → Player) :
    (w.setPlayer p f).players = w.players := rfl

@[simp] theorem setPlayer_moveLog (f : Player → Player) :
    (w.setPlayer p f).moveLog = w.moveLog := rfl

@[simp] theorem setPlayer_username (f : Player → Player) :
    (w.setPlayer p f).username = w.username := rfl

theorem setPlayer_player (f : Player → Player) :
    (w.setPlayer p f).player q = if q = p then f (w.player p) else w.player q := by
  simp [setPlayer, Function.update_apply]

@[simp] theorem setSlot_card : (w.setSlot p i c).card = w.card := rfl

@[simp] theorem setSlot_players : (w.setSlot p i c).players = w.players := rfl

@[simp] theorem setSlot_moveLog : (w.setSlot p i c).moveLog = w.moveLog := rfl

@[simp] theorem setSlot_username :
    (w.setSlot p i c).username = w.username := rfl

theorem setSlot_slot :
    (w.setSlot p i c).slot q j = if q = p ∧ j = i then c else w.slot q j := by
  by_cases h : q = p
  · subst h
    cases i <;> cases j <;> simp [slot, setSlot, setPlayer_player]
  · cases j <;> simp [slot, setSlot, setPlayer_player, h]

@[simp] theorem setSlot_name :
    ((w.setSlot p i c).player q).name = (w.player q).name := by
  by_cases h : q = p <;> cases i <;> simp [setSlot, setPlayer_player, h]

@[simp] theorem setSlot_coins :
    ((w.setSlot p i c).player q).coins = (w.player q).coins := by
  by_cases h : q = p <;> cases i <;> simp [setSlot, setPlayer_player, h]

@[simp] theorem setSlot_ai :
    ((w.setSlot p i c).player q).ai = (w.player q).ai := by
  by_cases h : q = p <;> cases i <;> simp [setSlot, setPlayer_player, h]

@[simp] theorem addCoins_card : (w.addCoins p n).card = w.card := rfl

@[simp] theorem addCoins_players : (w.addCoins p n).players = w.players := rfl

@[simp] theorem addCoins_moveLog : (w.addCoins p n).moveLog = w.moveLog := rfl

@[simp] theorem addCoins_username :
    (w.addCoins p n).username = w.username := rfl

@[simp] theorem addCoins_slot : (w.addCoins p n).slot q j = w.slot q j := by
  by_cases h : q = p <;> cases j <;>
    simp [slot, addCoins, setPlayer_player, h]

@[simp] theorem addCoins_held : (w.addCoins p n).held q j = w.held q j := by
  simp [held]

@[simp] theorem addCoins_name :
    ((w.addCoins p n).player q).name = (w.player q).name := by
  by_cases h : q = p <;> simp [addCoins, setPlayer_player, h]

@[simp] theorem addCoins_ai :
    ((w.addCoins p n).player q).ai = (w.player q).ai := by
  by_cases h : q = p <;> simp [addCoins, setPlayer_player, h]

theorem addCoins_coins :
    ((w.addCoins p n).player q).coins =
      (w.player q).coins + if q = p then n else 0 := by
  by_cases h : q = p <;> simp [addCoins, setPlayer_player, h]

@[simp] theorem setAI_card (ai : AI) : (w.setAI p ai).card = w.card := rfl

@[simp] theorem setAI_players (ai : AI) :
    (w.setAI p ai).players = w.players := rfl

@[simp] theorem setAI_moveLog (ai : AI) :
    (w.setAI p ai).moveLog = w.moveLog := rfl

@[simp] theorem setAI_username (ai : AI) :
    (w.setAI p ai).username = w.username := rfl

@[simp] theorem setAI_slot (ai : AI) :
    (w.setAI p ai).slot q j = w.slot q j := by
  by_cases h : q = p <;> cases j <;> simp [slot, setAI, setPlayer_player, h]

@[simp] theorem setAI_held (ai : AI) :
    (w.setAI p ai).held q j = w.held q j := by
  simp [held]

@[simp] theorem setAI_name (ai : AI) :
    ((w.setAI p ai).player q).name = (w.player q).name := by
  by_cases h : q = p <;> simp [setAI, setPlayer_player, h]

@[simp] theorem setAI_coins (ai : AI) :
    ((w.setAI p ai).player q).coins = (w.player q).coins := by
  by_cases h : q = p <;> simp [setAI, setPlayer_player, h]

theorem setAI_ai (ai : AI) :
    ((w.setAI p ai).player q).ai = if q = p then some ai else (w.player q).ai := by
  by_cases h : q = p <;> simp [setAI, setPlayer_player, h]

variable (r : Bool)

@[simp] theorem setRevealed_player : (w.setRevealed c r).player = w.player := rfl

@[simp] theorem setRevealed_players :
    (w.setRevealed c r).players = w.players := rfl

@[simp] theorem setRevealed_moveLog :
    (w.setRevealed c r).moveLog = w.moveLog := rfl

@[simp] theorem setRevealed_username :
    (w.setRevealed c r).username = w.username := rfl

@[simp] theorem setRevealed_slot :
    (w.setRevealed c r).slot q j = w.slot q j := rfl

theorem setRevealed_revealed :
    ((w.setRevealed c r).card d).revealed =
      if d = c then r else (w.card d).revealed := by
  by_cases h : d = c <;> simp [setRevealed, h]

@[simp] theorem setRevealed_role :
    ((w.setRevealed c r).card d).role = (w.card d).role := by
  by_cases h : d = c <;> simp [setRevealed, h]

end World

/-! ## The card that answers a challenge -/

theorem World.checkhaveCard_cases (w : World) (p : PlayerRef) (m : MoveName) :
    w.checkhaveCard p m = -1 ∨ w.checkhaveCard p m = 0 ∨
      w.checkhaveCard p m = 1 := by
  unfold World.checkhaveCard
  split
  · split <;> simp
  · simp

/-- A player can answer a challenge exactly when one of their unrevealed cards
has the ability. -/
theorem World.checkhaveCard_ne_neg_one_iff (w : World) (p : PlayerRef)
    (m : MoveName) :
    w.checkhaveCard p m ≠ -1 ↔
      ∃ i, (w.held p i).revealed = false ∧ (w.held p i).can m = true := by
  unfold World.checkhaveCard
  constructor
  · intro h
    split at h
    next hhas =>
      simp only [Bool.or_eq_true, Bool.and_eq_true, Bool.not_eq_true'] at hhas
      rcases hhas with hfirst | hsecond
      · exact ⟨.first, hfirst⟩
      · exact ⟨.second, hsecond⟩
    next => exact absurd rfl h
  · rintro ⟨i, hi⟩
    have hhas : ((!(w.held p .first).revealed && (w.held p .first).can m) ||
        (!(w.held p .second).revealed && (w.held p .second).can m)) = true := by
      cases i <;> simp [hi]
    rw [if_pos hhas]
    split <;> simp

theorem World.isPlayerRevealed_eq_false_iff (w : World) (p : PlayerRef) :
    w.isPlayerRevealed p = false ↔ ∃ i, (w.held p i).revealed = false := by
  rw [World.isPlayerRevealed, Bool.and_eq_false_iff]
  constructor
  · rintro (h | h)
    · exact ⟨.first, h⟩
    · exact ⟨.second, h⟩
  · rintro ⟨i, hi⟩
    cases i
    · exact Or.inl hi
    · exact Or.inr hi

end Coup
