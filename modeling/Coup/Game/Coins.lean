import Coup.Game.Outcome

/-!
# Coins stay nonnegative

`actOnMove` checks nothing, so the payer's coins are guaranteed where a move is
chosen.  The AI looks for a victim with two coins, the alerts guard coup and
assassination, but the sheet of `stealBtnPressed` also lists active AIs that
have less.  As long as the user does not pick one of these, nobody's coins
become negative.  The alerts look at the coins of the user also in the seat of
an AI that has the user's name, so there a coup or an assassination may cost
more than the seat has.
-/

namespace Coup

open Coup.Support

/-- A steal that the user submits is aimed at a player with two coins, and a
coup or an assassination is submitted in the user's own seat. -/
structure PicksTheRich (y : Session) (e : Event) : Prop where
  steal : ∀ target, e = .press (.steal target) →
    2 ≤ (y.game.world.player target).coins
  seat : ∀ target, e = .press (.coup target) ∨ e = .press (.assassinate target) →
    y.game.world.players[y.game.vc.turnInd]? = some y.game.vc.user

/-- The player that a press of Steal is aimed at. -/
def Event.robs : Event → Option PlayerRef
  | .press (.steal target) => some target
  | _ => none

/-- A press of Coup or Assassinate. -/
def Event.hits : Event → Bool
  | .press (.coup _) | .press (.assassinate _) => true
  | _ => false

theorem picksTheRich_iff {y : Session} {e : Event} :
    PicksTheRich y e ↔
      (∀ target ∈ e.robs, 2 ≤ (y.game.world.player target).coins) ∧
        (e.hits = true →
          y.game.world.players[y.game.vc.turnInd]? = some y.game.vc.user) := by
  constructor
  · intro h
    refine ⟨fun target hrobs => h.steal target ?_, fun hhits => ?_⟩
    · unfold Event.robs at hrobs
      split at hrobs <;> cases hrobs
      rfl
    · unfold Event.hits at hhits
      split at hhits
      next => exact h.seat _ (.inl rfl)
      next => exact h.seat _ (.inr rfl)
      next => cases hhits
  · rintro ⟨hsteal, hseat⟩
    constructor
    · rintro target rfl
      exact hsteal target rfl
    · rintro target (rfl | rfl) <;> exact hseat rfl

instance (y : Session) (e : Event) : Decidable (PicksTheRich y e) :=
  decidable_of_iff _ picksTheRich_iff.symm

/-- The payer of a move has the coins that are taken. -/
structure Affords (w : World) (m : Move) : Prop where
  coup : m.name = .coup → 7 ≤ (w.player m.caller).coins
  assassinate : m.name = .assassinate → 3 ≤ (w.player m.caller).coins
  steal : RobsTheRich w m

/-- The state in which the turn calls `actOnMove`: without a challenge round,
after the round allowed the move, or once the challenged card is shown. -/
inductive ActsIn (s₁ : State) (p : PlayerRef) (m : Move) (i : TurnInput)
    (s : State) : Prop
  | free (hfree : challengeable m.name = false) (hs : s = logMove s₁ m)
  | allowed (o : Move) (hopen : challengeable m.name = true)
      (hround : anyChallenges (logMove s₁ m) m i.round = .ok (s, o))
      (hname : o.name = .allow)
  | won (s₃ : State) (o : Move) (newCard : CardRef)
      (hopen : challengeable m.name = true)
      (hround : anyChallenges (logMove s₁ m) m i.round = .ok (s₃, o))
      (hname : o.name = .challenge)
      (hclaim : s₃.world.checkhaveCard p m.name ≠ -1)
      (hshow : showClaim s₃ p o.caller (s₃.world.checkhaveCard p m.name)
        i.newCard = .ok (s, newCard))

/-- Nobody has negative coins, and a pending move can be paid. -/
structure Solvent (s : State) : Prop where
  coins : ∀ p ∈ s.world.players, 0 ≤ (s.world.player p).coins
  pending : s.vc.didPlayerMove = true → Affords s.world s.vc.playerMove

section Step

variable {created : List CardRef} {w : World} {user : PlayerRef}
  {AIs : List PlayerRef} {s s₁ s₂ s' sa : State} {i : TurnInput}
  {p : PlayerRef} {m : Move} {y y' : Session} {e : Event}

/-- A chosen move can be paid. -/
theorem TakesTurn.affords (hin : InPlay created w user AIs s)
    (hsolvent : Solvent s) (h : TakesTurn s i p m s₁ s₂ s') :
    Affords s.world m := by
  cases h.chosen.2.2 with
  | user hname hpressed hm hstate =>
      rw [hm]
      exact hsolvent.pending hpressed
  | ai w' hname hget hstate =>
      obtain ⟨hlegal, hrob, -⟩ :=
        getPlayerMove_spec h.seated (hin.ai_isSome h.seated hname) hget
      exact ⟨hlegal.caller ▸ hlegal.coup, hlegal.caller ▸ hlegal.assassinate,
        hrob⟩

/-- Turning cards up and drawing a card changes no coins. -/
theorem showClaim_coins {q : PlayerRef} {theCard : ℤ} {draw : ℕ}
    {newCard : CardRef}
    (h : showClaim s p q theCard draw = .ok (s', newCard)) (r : PlayerRef) :
    (s'.world.player r).coins = (s.world.player r).coins := by
  rw [showClaim, bind_eq_ok] at h
  obtain ⟨w', hreveal, h⟩ := h
  rw [bind_eq_ok] at h
  obtain ⟨⟨c, deck⟩, -, h⟩ := h
  cases h
  have hcoins : (w'.player r).coins = (s.world.player r).coins := by
    obtain rfl | ⟨j, -, rfl⟩ := World.revealCard_eq hreveal <;> rfl
  simp only [showCard]
  split
  · rw [World.setRevealed_player]
    exact hcoins
  · exact hcoins

/-- Between the choice of a move and its effect no coins change hands. -/
theorem TakesTurn.coins_actsIn (hin : InPlay created w user AIs s)
    (h : TakesTurn s i p m s₁ s₂ s') (hacts : ActsIn s₁ p m i sa)
    (r : PlayerRef) :
    (sa.world.player r).coins = (s.world.player r).coins := by
  have hlogged : ((logMove s₁ m).world.player r).coins =
      (s.world.player r).coins := (h.quiet hin).coins r
  cases hacts with
  | free hfree hs =>
      rw [hs]
      exact hlogged
  | allowed o hopen hround hname =>
      exact ((anyChallenges_spec hround).1.coins r).trans hlogged
  | won s₃ o newCard hopen hround hname hclaim hshow =>
      exact (showClaim_coins hshow r).trans
        (((anyChallenges_spec hround).1.coins r).trans hlogged)

theorem coinEffect_nonneg (hcaller : m.caller = p)
    (haffords : Affords s.world m) {q : PlayerRef}
    (hq : 0 ≤ (s.world.player q).coins) :
    0 ≤ (s.world.player q).coins + coinEffect m.name p m.target q := by
  have hcoup := haffords.coup
  have hassassinate := haffords.assassinate
  have hsteal := haffords.steal
  rw [hcaller] at hcoup hassassinate
  unfold RobsTheRich at hsteal
  cases hname : m.name with
  | steal =>
      have hpay := hsteal hname
      simp only [coinEffect]
      by_cases htarget : q = m.target
      · rw [← htarget] at hpay
        rw [if_pos htarget]
        split <;> omega
      · rw [if_neg htarget]
        split <;> omega
  | coup =>
      have hpay := hcoup hname
      simp only [coinEffect]
      split
      next hqp =>
        rw [hqp]
        omega
      next => omega
  | assassinate =>
      have hpay := hassassinate hname
      simp only [coinEffect]
      split
      next hqp =>
        rw [hqp]
        omega
      next => omega
  | income | foreignAid | tax =>
      simp only [coinEffect]
      split <;> omega
  | unnamed | exchange | allow | challenge => simpa [coinEffect] using hq

/-- The effect of the move is all that happens to anybody's coins. -/
theorem Outcome.coins (hplayers : s'.world.players = s.world.players)
    (h : Outcome created s s₁ i p m s') {q : PlayerRef}
    (hq : q ∈ s.world.players) :
    (s'.world.player q).coins = (s.world.player q).coins ∨
      (s'.world.player q).coins =
        (s.world.player q).coins + coinEffect m.name p m.target q := by
  have hq' : q ∈ s'.world.players := hplayers ▸ hq
  cases h with
  | accepted _ hshows =>
      rw [hshows.coins hq', Board.act_coins]
      exact Or.inr rfl
  | won c j _ _ _ _ _ hshows =>
      rw [hshows.coins hq', Board.winChallenge_coins]
      exact Or.inr rfl
  | lost _ _ _ hshows =>
      rw [hshows.coins hq', Board.lose_coins]
      exact Or.inl rfl
  | dropped _ hshows => exact Or.inl (hshows.coins hq')

theorem TakesTurn.solvent (hin : InPlay created w user AIs s)
    (hmove : s.vc.didPlayerMove = true → Pressed s)
    (hsolvent : Solvent s) (h : TakesTurn s i p m s₁ s₂ s') : Solvent s' := by
  obtain ⟨hpasses, -⟩ := h.spec hin hmove
  have hplayers := hpasses.table.players
  constructor
  · intro q hq
    rw [hplayers] at hq
    rcases (h.outcome hin hmove).coins hplayers hq with hsame | heffect
    · rw [hsame]
      exact hsolvent.coins q hq
    · rw [heffect]
      exact coinEffect_nonneg (h.ready hin hmove).caller
        (h.affords hin hsolvent) (hsolvent.coins q hq)
  · intro hpressed
    rw [hpasses.didPlayerMove] at hpressed
    cases hpressed

theorem Solvent.congr (h : Solvent s) (hworld : s'.world = s.world)
    (hflag : s'.vc.didPlayerMove = s.vc.didPlayerMove)
    (hmove : s'.vc.playerMove = s.vc.playerMove) : Solvent s' where
  coins := hworld ▸ h.coins
  pending := by
    rw [hworld, hflag, hmove]
    exact h.pending

/-- A press submits a move that can be paid. -/
theorem Press.affords {q : Press} (hoffered : q.Offered s)
    (hcaller : s.world.players[s.vc.turnInd]? = some p)
    (hsteal : ∀ target, q = .steal target → 2 ≤ (s.world.player target).coins)
    (hseat : ∀ target, q = .coup target ∨ q = .assassinate target →
      s.world.players[s.vc.turnInd]? = some s.vc.user) :
    Affords s.world (q.move p) := by
  have huser : ∀ target, q = .coup target ∨ q = .assassinate target →
      p = s.vc.user := fun target htarget =>
    Option.some.inj (hcaller.symm.trans (hseat target htarget))
  cases q with
  | income | foreignAid | tax | exchange =>
      exact ⟨fun h => (by cases h), fun h => (by cases h), fun h => by cases h⟩
  | coup target =>
      obtain rfl := huser target (Or.inl rfl)
      exact ⟨fun _ => hoffered.1, fun h => (by cases h), fun h => by cases h⟩
  | steal target =>
      exact ⟨fun h => (by cases h), fun h => (by cases h),
        fun _ => hsteal target rfl⟩
  | assassinate target =>
      obtain rfl := huser target (Or.inr rfl)
      exact ⟨fun h => (by cases h), fun _ => hoffered.1, fun h => by cases h⟩

/-- Every step keeps the game solvent, if the user picks targets with two
coins. -/
theorem Solvent.step (hrunning : Running created w user AIs y)
    (h : Solvent y.game) (hstep : stepSession y e = .ok y')
    (hpicks : PicksTheRich y e) : Solvent y'.game := by
  cases stepSession_spec hstep with
  | turn i p m s₁ s₂ s _ _ hturn =>
      exact hturn.solvent hrunning.inPlay hrunning.phase.pressed h
  | skip | deliver | endGame => exact h.congr rfl rfl rfl
  | start | prompt | finish | wake => exact h
  | press q caller s _ hoffered hcaller hsubmits =>
      have hmove : s.vc.playerMove = q.move caller := by rw [hsubmits.vc]
      refine ⟨hsubmits.world ▸ h.coins, fun _ => ?_⟩
      rw [hsubmits.world, hmove]
      refine Press.affords hoffered hcaller ?_ ?_
      · rintro target rfl
        exact hpicks.steal target rfl
      · rintro target (rfl | rfl)
        · exact hpicks.seat target (Or.inl rfl)
        · exact hpicks.seat target (Or.inr rfl)

end Step

/-- As long as the user steals from players with two coins and hits from the
own seat, no coins become negative, and whenever a turn calls `actOnMove` the
payer has the coins that are taken. -/
theorem coins_nonneg {w : World} {user : PlayerRef} {AIs : List PlayerRef}
    {base : CardRef} {shuffling dealing : List ℕ} {y₀ y : Session}
    {es : List Event} (hlobby : Lobby w user AIs)
    (hopen : openSession w base shuffling dealing = .ok y₀)
    (hrun : run stepSession y₀ es = .ok y)
    (hpicks : EachStep stepSession (fun y e _ => PicksTheRich y e) y₀ es) :
    (∀ p ∈ y.game.world.players, 0 ≤ (y.game.world.player p).coins) ∧
      ∀ i p m s₁ s₂ s' s, TakesTurn y.game i p m s₁ s₂ s' →
        ActsIn s₁ p m i s → Affords s.world m := by
  obtain ⟨hstart, -, hdealt, hnone, -⟩ := openSession_spec hlobby hopen
  have hinvariant : Running (createdCards base) (w.createCards base) user AIs y ∧
      Solvent y.game := by
    refine run_invariant_of_eachStep
      (I := fun y => Running (createdCards base) (w.createCards base) user AIs
        y ∧ Solvent y.game) ?_ hrun hpicks ⟨hstart, ?_⟩
    · rintro y e y' ⟨hrunning, hsolvent⟩ hstep hpick
      exact ⟨hrunning.step hstep, hsolvent.step hrunning hstep hpick⟩
    · refine ⟨fun p hp => ?_, fun hpressed => ?_⟩
      · rw [(hdealt p hp).2]
        exact zero_le_two
      · rw [hnone] at hpressed
        cases hpressed
  obtain ⟨hrunning, hsolvent⟩ := hinvariant
  refine ⟨hsolvent.coins, fun i p m s₁ s₂ s' s hturn hacts => ?_⟩
  have hafford := hturn.affords hrunning.inPlay hsolvent
  have hcoins := hturn.coins_actsIn hrunning.inPlay hacts
  refine ⟨?_, ?_, ?_⟩
  · rw [hcoins]
    exact hafford.coup
  · rw [hcoins]
    exact hafford.assassinate
  · intro hsteal
    rw [hcoins]
    exact hafford.steal hsteal

/-- The user steals the two coins of Charlie Puth, who then takes one. -/
def userSteals : List Event :=
  .start :: userPresses (.steal 1) ++ [unchallenged, unchallenged]

theorem coins_nonneg_userSteals :
    ∃ y₀ y, openSession (lobbyOf "user" ["Charlie Puth", "Ed Sheeran"] []) 0
        (List.range 15) [4, 8] = .ok y₀ ∧
      run stepSession y₀ userSteals = .ok y ∧
      (y.game.world.player 0).coins = 4 ∧
      ∀ p ∈ y.game.world.players, 0 ≤ (y.game.world.player p).coins := by
  have hcheck : checkFrom stepSession
      (fun y e _ => decide (PicksTheRich y e))
      (fun y => decide ((y.game.world.player 0).coins = 4))
      (openSession (lobbyOf "user" ["Charlie Puth", "Ed Sheeran"] []) 0
        (List.range 15) [4, 8]) userSteals = true := by
    decide +kernel
  obtain ⟨y₀, y, hopen, hrun, heach, hend⟩ := exists_of_checkFrom hcheck
  have hpicks : EachStep stepSession (fun y e _ => PicksTheRich y e) y₀
      userSteals :=
    heach.imp fun _ _ _ _ _ _ _ h => of_decide_eq_true h
  exact ⟨y₀, y, hopen, hrun, of_decide_eq_true hend, (coins_nonneg
    (lobbyOf_two "user" "Charlie Puth" "Ed Sheeran") hopen hrun hpicks).1⟩

/-- Three players: one AI robs the other, which then takes income. -/
def robbed : List Event :=
  [.start, scripted .allow .greatest 1 [] [], .deliver, .wake, .press .income,
    .start, scripted .allow .greatest 1 [] [],
    scripted .allow .greatest 46 [2] [], scripted .allow .greatest 1 [] [],
    scripted .allow .greatest 1 [] [], .deliver]

/-- The robbed AI has one coin left and is still on the sheet, so the user can
steal from it and leave it with a debt. -/
theorem coins_negative :
    ∃ user AIs y₀ y,
      Lobby (lobbyOf "user" ["Charlie Puth", "Ed Sheeran"] []) user AIs ∧
      DistinctNames (lobbyOf "user" ["Charlie Puth", "Ed Sheeran"] []) ∧
      openSession (lobbyOf "user" ["Charlie Puth", "Ed Sheeran"] []) 0
        (List.range 15) [4, 8] = .ok y₀ ∧
      run stepSession y₀ (robbed ++ [.press (.steal 2), .wake, .start,
        scripted .allow .greatest 1 [] []]) = .ok y ∧
      2 ∈ y.game.world.players ∧ (y.game.world.player 2).coins = -1 := by
  have hlast : lastStep stepSession
      (openSession (lobbyOf "user" ["Charlie Puth", "Ed Sheeran"] []) 0
        (List.range 15) [4, 8])
      (robbed ++ [.press (.steal 2), .wake, .start,
        scripted .allow .greatest 1 [] []]) .endGame
      (fun y _ => decide (2 ∈ y.game.world.players ∧
        (y.game.world.player 2).coins = -1)) = true := by
    decide +kernel
  obtain ⟨y₀, y, -, hopen, hrun, -, hP⟩ := exists_of_lastStep hlast
  exact ⟨0, _, y₀, y,
    lobbyOf_two "user" "Charlie Puth" "Ed Sheeran",
    lobbyOf_distinctNames [] (by decide), hopen, hrun, of_decide_eq_true hP⟩

end Coup
