import Coup.Backend.Rates
import Mathlib.Logic.Equiv.Basic

/-!
# Renaming abilities

The five role blocks differ in the ability they look at and in the rate they
begin with: the blocks for assassinate and steal, whose rates the later
adjustments force to zero, store `5` first.  Renaming two abilities into each
other therefore renames the rates, as long as the begin of the two blocks does
not matter.
-/

namespace Coup

/-! ## The renaming -/

/-- The role with the ability. -/
def MoveName.role : MoveName → Role
  | .assassinate => .assassin
  | .exchange => .ambassador
  | .tax => .duke
  | .steal => .captain
  | _ => .contessa

/-- Exchange two abilities on a card. -/
def Card.rename (a b : MoveName) (card : Card) : Card :=
  { card with role := Equiv.swap a.role b.role card.role }

/-- Exchange two abilities on the cards of a hand. -/
def Seat.rename (a b : MoveName) (s : Seat) : Seat :=
  { s with card1 := s.card1.rename a b, card2 := s.card2.rename a b }

variable {a b m k : MoveName}

theorem role_inj (ha : a ∈ roleMoves) (hb : b ∈ roleMoves)
    (h : a.role = b.role) : a = b := by
  cases a <;> cases b <;> simp [roleMoves, MoveName.role] at ha hb h ⊢

theorem Card.can_iff (hm : m ∈ roleMoves) (card : Card) :
    card.can m = decide (card.role = m.role) := by
  obtain ⟨role, revealed⟩ := card
  simp only [roleMoves, List.mem_cons, List.not_mem_nil, or_false] at hm
  rcases hm with rfl | rfl | rfl | rfl | rfl <;> cases role <;> rfl

theorem swap_mem_roleMoves (ha : a ∈ roleMoves) (hb : b ∈ roleMoves) :
    Equiv.swap a b m ∈ roleMoves ↔ m ∈ roleMoves := by
  rw [Equiv.swap_apply_def]
  split
  next h => simp [h, ha, hb]
  next =>
    split
    next h => simp [h, ha, hb]
    next => rfl

theorem role_swap (ha : a ∈ roleMoves) (hb : b ∈ roleMoves)
    (hm : m ∈ roleMoves) :
    (Equiv.swap a b m).role = Equiv.swap a.role b.role m.role := by
  by_cases hma : m = a
  · rw [hma, Equiv.swap_apply_left, Equiv.swap_apply_left]
  · by_cases hmb : m = b
    · rw [hmb, Equiv.swap_apply_right, Equiv.swap_apply_right]
    · rw [Equiv.swap_apply_of_ne_of_ne hma hmb, Equiv.swap_apply_of_ne_of_ne
        (fun h => hma (role_inj hm ha h)) (fun h => hmb (role_inj hm hb h))]

/-- A renamed card has the renamed ability. -/
theorem Card.can_rename (ha : a ∈ roleMoves) (hb : b ∈ roleMoves)
    (hm : m ∈ roleMoves) (card : Card) :
    (card.rename a b).can (Equiv.swap a b m) = card.can m := by
  rw [Card.can_iff ((swap_mem_roleMoves ha hb).mpr hm), Card.can_iff hm,
    role_swap ha hb hm]
  exact decide_eq_decide.mpr (Equiv.swap a.role b.role).injective.eq_iff

/-! ## The blocks -/

/-- The rate that a block starts with only matters to an AI that has the
ability. -/
theorem roleBlock_start {start start' : Option ℤ} {self : Seat} {rate : ℤ}
    (h : self.copies m ≠ 0 → start.getD rate = start'.getD rate)
    (players : List Seat) :
    roleBlock m start self players rate = roleBlock m start' self players rate := by
  unfold roleBlock
  split
  next hhas =>
    have hcopies : self.copies m ≠ 0 := by
      rcases Bool.or_eq_true _ _ ▸ hhas with h1 | h2
      · simp [Seat.copies, h1]
      · simp [Seat.copies, h2]
    simp only [h hcopies]
  next => rfl

theorem roleBlock_rename (ha : a ∈ roleMoves) (hb : b ∈ roleMoves)
    (hm : m ∈ roleMoves) (start : Option ℤ) (self : Seat) (players : List Seat)
    (rate : ℤ) :
    roleBlock (Equiv.swap a b m) start (self.rename a b)
        (players.map (Seat.rename a b)) rate =
      roleBlock m start self players rate := by
  have hcan := Card.can_rename ha hb hm
  have hraise : (fun rate player => raiseShown (Equiv.swap a b m)
      (self.rename a b) rate (Seat.rename a b player)) = raiseShown m self := by
    funext rate player
    simp only [raiseShown, Seat.rename, hcan]
    rfl
  have hcut : (fun rates player => cutShown (Equiv.swap a b m)
      (self.rename a b) rates (Seat.rename a b player)) = cutShown m self := by
    funext rates player
    simp only [cutShown, Seat.rename, hcan]
    rfl
  have hlower : (fun rate player => lowerShown (Equiv.swap a b m) rate
      (Seat.rename a b player)) = lowerShown m := by
    funext rate player
    simp only [lowerShown, Seat.rename, hcan]
    rfl
  simp only [roleBlock, List.foldl_map, hraise, hcut, hlower]
  simp only [Seat.rename, hcan]
  rfl

/-- A rate of `5` is the one that two of the blocks begin with. -/
theorem startRate_getD_five (m : MoveName) : (startRate m).getD 5 = 5 := by
  cases m <;> rfl

theorem startRate_swap (h : startRate a = startRate b) (m : MoveName) :
    startRate (Equiv.swap a b m) = startRate m := by
  rw [Equiv.swap_apply_def]
  split
  next hm => rw [hm, h]
  next =>
    split
    next hm => rw [hm, h]
    next => rfl

/-- Renaming two abilities renames the rates, if both blocks begin alike, or
else if the AI begins at `5` with the ones it has. -/
theorem roleBlocks_rename (ha : a ∈ roleMoves) (hb : b ∈ roleMoves)
    {self : Seat} {dic : MoveName → ℤ}
    (hstart : startRate a = startRate b ∨
      ∀ m, m = a ∨ m = b → self.copies m ≠ 0 → dic m = 5)
    (players : List Seat) (k : MoveName) :
    roleBlocks (self.rename a b) (players.map (Seat.rename a b))
        (fun k => dic (Equiv.swap a b k)) (Equiv.swap a b k) =
      roleBlocks self players dic k := by
  rw [roleBlocks_apply, roleBlocks_apply]
  simp only [swap_mem_roleMoves ha hb, Equiv.swap_apply_self]
  split
  next hk =>
    rw [roleBlock_rename ha hb hk]
    refine roleBlock_start (fun hcopies => ?_) players
    rcases hstart with hsame | hfive
    · rw [startRate_swap hsame]
    · by_cases hmoved : k = a ∨ k = b
      · rw [hfive k hmoved hcopies, startRate_getD_five, startRate_getD_five]
      · rw [not_or] at hmoved
        rw [Equiv.swap_apply_of_ne_of_ne hmoved.1 hmoved.2]
  next => rfl

/-- An AI with a Duke and an Ambassador rates tax as it rates exchange once the
two are renamed. -/
theorem roleBlocks_rename_taxExchange :
    let self : Seat :=
      ⟨"Charlie Puth", ⟨.duke, false⟩, ⟨.ambassador, true⟩, 2⟩
    let dic : MoveName → ℤ := fun m => if m = .tax then 8 else 3
    roleBlocks (self.rename .tax .exchange) [self.rename .tax .exchange]
        (fun k => dic (Equiv.swap .tax .exchange k))
        (Equiv.swap .tax .exchange .tax) =
      roleBlocks self [self] dic .tax := by
  intro self dic
  have htax : MoveName.tax ∈ roleMoves := by decide
  have hexchange : MoveName.exchange ∈ roleMoves := by decide
  exact roleBlocks_rename htax hexchange (Or.inl rfl) [self] .tax

/-- An AI with a Duke and a stored rate of `8` rates tax `18`; with an Assassin
in its place it forgets the stored rate and rates assassinate `15`. -/
theorem assassinate_starts_over :
    ¬ ∀ a ∈ roleMoves, ∀ b ∈ roleMoves, ∀ self players dic k,
      roleBlocks (self.rename a b) (players.map (Seat.rename a b))
          (fun k => dic (Equiv.swap a b k)) (Equiv.swap a b k) =
        roleBlocks self players dic k := by
  intro h
  have hrates := h .tax (by decide) .assassinate (by decide)
    ⟨"Charlie Puth", ⟨.duke, false⟩, ⟨.contessa, false⟩, 2⟩
    [⟨"Charlie Puth", ⟨.duke, false⟩, ⟨.contessa, false⟩, 2⟩]
    (fun m => if m = .tax then 8 else 3) .tax
  revert hrates
  decide

end Coup
