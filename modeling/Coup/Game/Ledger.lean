import Coup.Game.Record

/-!
# The ledger of a game

The coins of a player are the two of the opening and the effects of the turns
on record, and together the players have what the bank paid out.  An AI coups
as soon as it has seven coins, so it never has more than nine.
-/

namespace Coup

open Coup.Support

/-- The record is a ledger: every player's coins are the opening two and the
effects of the turns so far, and all coins together are the opening ones and
what the bank paid out and took in these turns. -/
theorem coin_ledger {w : World} {user : PlayerRef} {AIs : List PlayerRef}
    {base : CardRef} {shuffling dealing : List ℕ} {y₀ y : Session}
    {es : List Event} (hlobby : Lobby w user AIs)
    (hopen : openSession w base shuffling dealing = .ok y₀)
    (hrun : run stepSession y₀ es = .ok y) :
    (∀ q ∈ y.game.world.players, (y.game.world.player q).coins =
      2 + ((record stepSession rulings y₀ es).map fun r => r.coins q).sum) ∧
    ∑ q ∈ y.game.world.players.toFinset, (y.game.world.player q).coins =
      2 * y.game.world.players.length +
        ((record stepSession rulings y₀ es).map Ruling.minted).sum := by
  have hin := (Running.of_run hlobby hopen hrun).inPlay
  have hrecorded := Recorded.of_run hlobby hopen hrun
  constructor
  · intro q hq
    rw [hrecorded.coins q hq, Board.replay_coins]
    rfl
  · have htable : ∀ q ∈ y.game.world.players.toFinset,
        (y.game.world.player q).coins =
          (Board.opening.replay (record stepSession rulings y₀ es)).coins q :=
      fun q hq => hrecorded.coins q (List.mem_toFinset.mp hq)
    have htwo : ∀ q ∈ y.game.world.players.toFinset,
        (Board.opening : Board PlayerRef).coins q = 2 := fun _ _ => rfl
    rw [Finset.sum_congr rfl htable, Board.sum_replay_coins _ hrecorded.seated,
      Finset.sum_congr rfl htwo, Finset.sum_const,
      List.toFinset_card_of_nodup hin.nodup, nsmul_eq_mul, mul_comm]

/-- The user is robbed of two coins and takes one. -/
theorem coin_ledger_robbedUser :
    ∃ y₀ y, openSession (lobbyOf "user" ["Charlie Puth", "Ed Sheeran"] []) 0
        (List.range 15) [1, 0, 0, 0, 3] = .ok y₀ ∧
      run stepSession y₀ robbedUser = .ok y ∧
      (y.game.world.player 0).coins = 1 ∧
      (y.game.world.player 0).coins =
        2 + ((record stepSession rulings y₀ robbedUser).map
          fun r => r.coins 0).sum := by
  have hlast : lastStep stepSession
      (openSession (lobbyOf "user" ["Charlie Puth", "Ed Sheeran"] []) 0
        (List.range 15) [1, 0, 0, 0, 3]) robbedUser .endGame
      (fun y _ => decide ((y.game.world.player 0).coins = 1 ∧
        0 ∈ y.game.world.players)) = true := by
    decide +kernel
  obtain ⟨y₀, y, -, hopen, hrun, -, hP⟩ := exists_of_lastStep hlast
  obtain ⟨hone, hseated⟩ := of_decide_eq_true hP
  exact ⟨y₀, y, hopen, hrun, hone, (coin_ledger
    (lobbyOf_two "user" "Charlie Puth" "Ed Sheeran") hopen hrun).1 0 hseated⟩

/-! ## The coins of an AI -/

section Rich

variable {created : List CardRef} {w : World} {user : PlayerRef}
  {AIs : List PlayerRef} {s s₁ s₂ s' : State} {i : TurnInput}
  {p q : PlayerRef} {m : Move} {y y' : Session} {e : Event}

theorem coinEffect_le_three (name : MoveName) (caller target : PlayerRef) :
    coinEffect name caller target q ≤ 3 := by
  cases name <;> simp [coinEffect] <;> split_ifs <;> simp

/-- Nobody gains from the move of somebody else. -/
theorem coinEffect_nonpos {caller : PlayerRef} (h : q ≠ caller)
    (name : MoveName) (target : PlayerRef) :
    coinEffect name caller target q ≤ 0 := by
  cases name with
  | steal =>
      rw [coinEffect, if_neg h]
      split <;> decide
  | unnamed | income | foreignAid | coup | exchange | assassinate | tax
  | allow | challenge => simp [coinEffect, h]

/-- A turn leaves an AI with at most nine coins. -/
theorem TakesTurn.coins_le (hin : InPlay created w user AIs s)
    (hmove : s.vc.didPlayerMove = true → Pressed s)
    (h : TakesTurn s i p m s₁ s₂ s') (hq : q ∈ s.world.players)
    (hname : (s.world.player q).name ≠ s.world.username)
    (hle : (s.world.player q).coins ≤ 9) :
    (s'.world.player q).coins ≤ 9 := by
  have hplayers := (h.spec hin hmove).1.table.players
  have hcoins := (h.settle hin hmove).coins (hplayers ▸ hq)
  rw [Board.settle_coins] at hcoins
  have hstart : s.world.board.coins q = (s.world.player q).coins := rfl
  rw [hcoins, hstart, Ruling.coins]
  split
  next =>
    by_cases hqp : q = p
    · subst hqp
      cases h.chosen.2.2 with
      | user hsame => exact absurd hsame hname
      | ai w' _ hget _ =>
          have hrich := (getPlayerMove_target hq (hin.ai_isSome hq hname)
            hget).2
          by_cases hseven : 7 ≤ (s.world.player q).coins
          · simp only [turnRuling, hrich hseven, coinEffect, if_true]
            omega
          · have hthree := coinEffect_le_three (q := q) m.name q m.target
            simp only [turnRuling]
            omega
    · have hless := coinEffect_nonpos hqp m.name m.target
      simp only [turnRuling]
      omega
  next => omega

end Rich

/-- In every state that a game reaches, an AI has at most nine coins. -/
theorem ai_coins_le {w : World} {user : PlayerRef} {AIs : List PlayerRef}
    {base : CardRef} {shuffling dealing : List ℕ} {y₀ y : Session}
    {es : List Event} {q : PlayerRef} (hlobby : Lobby w user AIs)
    (hopen : openSession w base shuffling dealing = .ok y₀)
    (hrun : run stepSession y₀ es = .ok y) (hq : q ∈ AIs)
    (hname : (w.player q).name ≠ w.username) :
    (y.game.world.player q).coins ≤ 9 := by
  obtain ⟨hstart, -, hdealt, -⟩ := openSession_spec hlobby hopen
  have hboth : Running (createdCards base) (w.createCards base) user AIs y ∧
      (y.game.world.player q).coins ≤ 9 := by
    refine run_invariant (I := fun y =>
      Running (createdCards base) (w.createCards base) user AIs y ∧
        (y.game.world.player q).coins ≤ 9) ?_ hrun ⟨hstart, ?_⟩
    · rintro y e y' ⟨hrunning, hle⟩ hstep
      refine ⟨hrunning.step hstep, ?_⟩
      have hin := hrunning.inPlay
      rcases stepSession_cases hstep with
        hworld | ⟨i, p, m, s₁, s₂, -, hturn⟩
      · rw [hworld]
        exact hle
      · apply hturn.coins_le hin hrunning.phase.pressed _ _ hle
        · exact (hin.mem_AIs hq).1
        · rw [hin.table.name, hin.table.username]
          exact hname
    · rw [(hdealt q (hstart.inPlay.mem_AIs hq).1).2]
      decide
  exact hboth.2

/-- Ed Sheeran has robbed the user. -/
theorem ai_coins_le_robbedUser :
    ∃ y₀ y, openSession (lobbyOf "user" ["Charlie Puth", "Ed Sheeran"] []) 0
        (List.range 15) [1, 0, 0, 0, 3] = .ok y₀ ∧
      run stepSession y₀ robbedUser = .ok y ∧
      (y.game.world.player 2).coins = 4 ∧
      (y.game.world.player 2).coins ≤ 9 := by
  have hlast : lastStep stepSession
      (openSession (lobbyOf "user" ["Charlie Puth", "Ed Sheeran"] []) 0
        (List.range 15) [1, 0, 0, 0, 3]) robbedUser .endGame
      (fun y _ => decide ((y.game.world.player 2).coins = 4)) = true := by
    decide +kernel
  obtain ⟨y₀, y, -, hopen, hrun, -, hP⟩ := exists_of_lastStep hlast
  exact ⟨y₀, y, hopen, hrun, of_decide_eq_true hP, ai_coins_le
    (lobbyOf_two "user" "Charlie Puth" "Ed Sheeran") hopen hrun
    (by decide) (by decide)⟩

end Coup
