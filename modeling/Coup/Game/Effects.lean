import Coup.Game.Outcome

/-!
# A turn follows the rules

The rules of the game say who pays, who is paid and who loses an influence.
`TakesEffect` states this for a move that goes through, also after a won
challenge, and `LosesCard` for a move whose caller was caught.  A turn follows
the rules unless an assassin survives its own assassination, and nobody aims at
themselves as long as no two players share a name.
-/

namespace Coup

open Coup.Support

/-- How many influences the player `q` is due to lose: one for a lost challenge
and one for a coup or an assassination. -/
def causes (m : Move) (challenger : Option PlayerRef) (q : PlayerRef) : ℕ :=
  (if some q = challenger then 1 else 0) +
    if m.name.hits = true ∧ q = m.target then 1 else 0

/-- The move of `p` goes through, after it was challenged by `challenger` or
not at all. -/
structure TakesEffect (w w' : World) (p : PlayerRef) (m : Move)
    (challenger : Option PlayerRef) : Prop where
  coins : ∀ q ∈ w.players, (w'.player q).coins =
    (w.player q).coins + coinEffect m.name p m.target q
  losses : ∀ q ∈ w.players, q ≠ p ∨ causes m challenger q ≠ 0 →
    w'.board.influence q = w.board.influence q - causes m challenger q
  caller : causes m challenger p = 0 →
    w.board.influence p ≤ w'.board.influence p

/-- One unrevealed card of `p` is turned up, and no other card, hand, coin or
deck card changes. -/
structure LosesCard (s s' : State) (p : PlayerRef) : Prop where
  card : ∃ j, (s.world.held p j).revealed = false ∧
    s'.world.card = Function.update s.world.card (s.world.slot p j)
      { s.world.held p j with revealed := true }
  slot : ∀ q i, s'.world.slot q i = s.world.slot q i
  coins : ∀ q, (s'.world.player q).coins = (s.world.player q).coins
  cardDeck : s'.vc.cardDeck = s.vc.cardDeck

/-- What the rules say about the turn of `p` with the move `m`, which is logged
in `s₁` and ends in `s'`. -/
structure FollowsRules (s s₁ : State) (i : RoundInput) (p : PlayerRef)
    (m : Move) (s' : State) : Prop where
  accepted : Accepted (logMove s₁ m) m i →
    TakesEffect s.world s'.world p m none
  won : ∀ c, ChallengedBy (logMove s₁ m) m i c → Holds s.world p m.name →
    TakesEffect s.world s'.world p m (some c)
  caught : ∀ c, ChallengedBy (logMove s₁ m) m i c → ¬ Holds s.world p m.name →
    LosesCard s s' p

/-- Somebody challenges an assassin that aims at itself and wins the challenge
with its last card. -/
structure Survives (s s₁ : State) (i : RoundInput) (p : PlayerRef)
    (m : Move) : Prop where
  name : m.name = .assassinate
  target : m.target = p
  challenged : ∃ c, ChallengedBy (logMove s₁ m) m i c
  holds : Holds s.world p m.name
  last : s.world.board.influence p = 1

/-- A player with a hidden card turns up exactly one. -/
theorem World.revealCard_of_active {w w' : World} {p : PlayerRef}
    (hactive : w.isPlayerRevealed p = false)
    (h : w.revealCard p = .ok w') :
    ∃ j, (w.held p j).revealed = false ∧
      w' = w.setRevealed (w.slot p j) true := by
  rw [World.revealCard, bind_eq_ok] at h
  obtain ⟨last, -, h⟩ := h
  unfold World.firstHidden at h
  by_cases hfirst : (w.held p .first).revealed = false
  · simp only [hfirst, Bool.not_false, if_true] at h
    cases h
    exact ⟨.first, hfirst, rfl⟩
  · rw [Bool.not_eq_false] at hfirst
    have hsecond : (w.held p .second).revealed = false := by
      simpa [World.isPlayerRevealed, hfirst] using hactive
    simp only [hfirst, hsecond, Bool.not_true, Bool.not_false, if_true,
      Bool.false_eq_true, if_false] at h
    cases h
    exact ⟨.second, hsecond, rfl⟩

section Turn

variable {created : List CardRef} {w : World} {user : PlayerRef}
  {AIs : List PlayerRef} {s s₁ s₂ s' : State} {i : TurnInput}
  {p c : PlayerRef} {m : Move}

theorem Shows.coins_eq {b : Board PlayerRef} (h : Shows created s' [] b)
    (hplayers : s'.world.players = s.world.players)
    (hb : ∀ q, b.coins q = (s.world.player q).coins +
      coinEffect m.name p m.target q) :
    ∀ q ∈ s.world.players, (s'.world.player q).coins =
      (s.world.player q).coins + coinEffect m.name p m.target q := by
  intro q hq
  rw [h.coins (hplayers ▸ hq), hb]

theorem Outcome.takesEffect_accepted
    (hplayers : s'.world.players = s.world.players)
    (hp : p ∈ s.world.players) (h : Outcome created s s₁ i p m s')
    (haccepted : Accepted (logMove s₁ m) m i.round) :
    TakesEffect s.world s'.world p m none := by
  cases h with
  | accepted _ hshows =>
      have hinfluence : ∀ q ∈ s.world.players, s'.world.board.influence q =
          s.world.board.influence q - causes m none q := fun q hq => by
        rw [hshows.influence (hplayers ▸ hq), Board.act_influence]
        simp [causes]
      refine ⟨hshows.coins_eq hplayers fun q => Board.act_coins _,
        fun q hq _ => hinfluence q hq, fun hnone => ?_⟩
      rw [hinfluence p hp, hnone]
      exact le_rfl
  | won c j hby _ _ _ _ _ => exact absurd haccepted hby.not_accepted
  | lost c hby _ _ => exact absurd haccepted hby.not_accepted
  | dropped hdropped _ => exact absurd haccepted hdropped.not_accepted

/-- Of the moves that can be challenged only an assassination hits. -/
theorem MoveName.hits_iff_of_challengeable {name : MoveName}
    (h : challengeable name = true) : name.hits = true ↔ name = .assassinate := by
  cases name <;> simp [MoveName.hits]
  cases h

/-- What a won challenge costs the players other than its winner. -/
theorem Shows.influence_won {b : Board PlayerRef} {j : Slot} {q : PlayerRef}
    (h : Shows created s' []
      (b.winChallenge p c j m.name p m.target)) (hq : q ∈ s'.world.players)
    (hne : q ≠ p) :
    s'.world.board.influence q = b.influence q - causes m (some c) q := by
  rw [h.influence hq, Board.winChallenge_influence_of_ne b hne, causes,
    Nat.sub_sub]
  simp

/-- A winner who is not hit loses nothing. -/
theorem Shows.takesEffect_of_not_hit {j : Slot}
    (hplayers : s'.world.players = s.world.players)
    (hp : p ∈ s.world.players) (hne : c ≠ p)
    (hhit : m.name.hits = true → m.target ≠ p)
    (h : Shows created s' []
      (s.world.board.winChallenge p c j m.name p m.target)) :
    TakesEffect s.world s'.world p m (some c) where
  coins := h.coins_eq hplayers fun _ => Board.winChallenge_coins _
  losses q hq hlosing := by
    have hnone : causes m (some c) p = 0 := by
      simp only [causes, Option.some.injEq, hne.symm, if_false, zero_add,
        ite_eq_right_iff, one_ne_zero, imp_false, not_and]
      exact fun hhits heq => hhit hhits heq.symm
    refine h.influence_won (hplayers ▸ hq) ?_
    rintro rfl
    exact hlosing.elim (fun hself => hself rfl) fun hsome => hsome hnone
  caller _ := by
    rw [h.influence (hplayers ▸ hp),
      Board.winChallenge_influence_self _ hne hhit]
    exact Nat.le_add_right _ _

/-- A winner who is hit is left with the card that replaces the shown one, so
one influence too many if it was the last. -/
theorem Shows.takesEffect_of_hit_iff {j : Slot}
    (hplayers : s'.world.players = s.world.players)
    (hp : p ∈ s.world.players) (hne : c ≠ p) (hhits : m.name.hits = true)
    (htarget : m.target = p) (hpos : 0 < s.world.board.influence p)
    (h : Shows created s' []
      (s.world.board.winChallenge p c j m.name p m.target)) :
    TakesEffect s.world s'.world p m (some c) ↔
      s.world.board.influence p ≠ 1 := by
  have hcauses : causes m (some c) p = 1 := by
    simp [causes, hne.symm, hhits, htarget]
  have hself : s'.world.board.influence p = 1 := by
    rw [h.influence (hplayers ▸ hp), htarget]
    exact Board.winChallenge_influence_self_hit _ hhits
  have hle := s.world.board.influence_le_two p
  constructor
  · intro htakes
    have hlosses := htakes.losses p hp (Or.inr (by omega))
    omega
  · intro hlast
    refine ⟨h.coins_eq hplayers fun _ => Board.winChallenge_coins _,
      fun q hq _ => ?_, fun hnone => by omega⟩
    by_cases hqp : q = p
    · rw [hqp]
      omega
    · exact h.influence_won (hplayers ▸ hq) hqp

/-- A won challenge takes effect, unless the winner survives its own
assassination. -/
theorem Outcome.takesEffect_won_iff
    (hplayers : s'.world.players = s.world.players)
    (hp : p ∈ s.world.players) (h : Outcome created s s₁ i p m s')
    (hby : ChallengedBy (logMove s₁ m) m i.round c)
    (hholds : Holds s.world p m.name) :
    TakesEffect s.world s'.world p m (some c) ↔
      ¬ Survives s s₁ i.round p m := by
  cases h with
  | accepted haccepted _ => exact absurd haccepted hby.not_accepted
  | won c' j hby' _ hne _ _ hshows =>
      obtain rfl := hby.unique hby'
      have hhits := MoveName.hits_iff_of_challengeable hby.1
      by_cases hhit : m.name.hits = true ∧ m.target = p
      · rw [hshows.takesEffect_of_hit_iff hplayers hp hne hhit.1 hhit.2
          hholds.influence_pos, not_iff_not]
        constructor
        · intro hlast
          exact ⟨hhits.mp hhit.1, hhit.2, ⟨c, hby⟩, hholds, hlast⟩
        · exact Survives.last
      · refine iff_of_true (hshows.takesEffect_of_not_hit hplayers hp hne
          (not_and.mp hhit)) fun hsurvives => hhit ?_
        exact ⟨hhits.mpr hsurvives.name, hsurvives.target⟩
  | lost _ _ hnone _ => exact absurd hholds hnone
  | dropped hdropped _ => exact absurd hdropped hby.not_unanswered

/-- The caller is caught: the code turns up one card of theirs and does nothing
else. -/
theorem TakesTurn.losesCard (hin : InPlay created w user AIs s)
    (hmove : s.vc.didPlayerMove = true → Pressed s)
    (h : TakesTurn s i p m s₁ s₂ s')
    (hby : ChallengedBy (logMove s₁ m) m i.round c)
    (hnone : ¬ Holds s.world p m.name) : LosesCard s s' p := by
  obtain ⟨hopen, s₃, o, hround, hname, -⟩ := hby
  have hready := h.ready hin hmove
  have hq := h.quiet hin
  obtain ⟨hquiet, hchallenges⟩ := anyChallenges_spec hround
  have hheld : ∀ q j, s₃.world.held q j = s.world.held q j := fun q j =>
    (hquiet.held q j).trans (hq.held q j)
  have hslot : ∀ q j, s₃.world.slot q j = s.world.slot q j := fun q j =>
    (hquiet.slot q j).trans (hq.slot q j)
  have hcard : s₃.world.card = s.world.card := hquiet.card.trans hq.card
  have hplayed := h.played
  have hlost : s₃.world.checkhaveCard p m.name = -1 := by
    by_contra hhas
    obtain ⟨j, hj⟩ := (s₃.world.checkhaveCard_ne_neg_one_iff p m.name).mp hhas
    rw [hheld] at hj
    exact hnone ⟨j, hj⟩
  rw [playMove, if_pos hopen, hround, bind_ok] at hplayed
  obtain ⟨w', hreveal, rfl⟩ := resolve_lost hname hlost hplayed
  rw [(hchallenges hname).target_eq hready] at hreveal
  have hactive : s₃.world.isPlayerRevealed p = false :=
    ((hquiet.isPlayerRevealed p).trans (hq.isPlayerRevealed p)).trans h.active
  obtain ⟨j, hdown, rfl⟩ := World.revealCard_of_active hactive hreveal
  obtain ⟨hworld, hvc, -⟩ := endTurn_spec h.ended
  constructor
  · refine ⟨j, hheld p j ▸ hdown, ?_⟩
    rw [hworld, World.setRevealed, hcard, hslot]
    rfl
  · intro q j'
    rw [hworld, World.setRevealed_slot, hslot]
  · intro q
    rw [hworld]
    exact (hquiet.coins q).trans (hq.coins q)
  · rw [hvc]
    exact hquiet.cardDeck.trans hq.cardDeck

end Turn

/-- In every state that a game reaches, a turn does what the rules say about
coins and losses, unless an assassin survives its own assassination. -/
theorem turn_follows_rules_iff {w : World} {user : PlayerRef}
    {AIs : List PlayerRef} {base : CardRef} {shuffling dealing : List ℕ}
    {y₀ y : Session} {es : List Event} {i : TurnInput} {p : PlayerRef}
    {m : Move} {s₁ s₂ s' : State} (hlobby : Lobby w user AIs)
    (hopen : openSession w base shuffling dealing = .ok y₀)
    (hrun : run stepSession y₀ es = .ok y)
    (hturn : TakesTurn y.game i p m s₁ s₂ s') :
    FollowsRules y.game s₁ i.round p m s' ↔
      ¬ Survives y.game s₁ i.round p m := by
  have hrunning := Running.of_run hlobby hopen hrun
  have hin := hrunning.inPlay
  have hpressed := hrunning.phase.pressed
  have houtcome := hturn.outcome hin hpressed
  obtain ⟨hpasses, -⟩ := hturn.spec hin hpressed
  have hplayers := hpasses.table.players
  constructor
  · intro hrules hsurvives
    obtain ⟨c, hby⟩ := hsurvives.challenged
    exact (houtcome.takesEffect_won_iff hplayers hturn.seated hby
      hsurvives.holds).mp (hrules.won c hby hsurvives.holds) hsurvives
  · intro hno
    refine ⟨?_, ?_, ?_⟩
    · exact houtcome.takesEffect_accepted hplayers hturn.seated
    · intro c hby hholds
      exact (houtcome.takesEffect_won_iff hplayers hturn.seated hby
        hholds).mpr hno
    · intro c
      exact hturn.losesCard hin hpressed

/-- In every state that a game between players of different names reaches, a
turn does what the rules say about coins and losses. -/
theorem turn_follows_rules {w : World} {user : PlayerRef}
    {AIs : List PlayerRef} {base : CardRef} {shuffling dealing : List ℕ}
    {y₀ y : Session} {es : List Event} {i : TurnInput} {p : PlayerRef}
    {m : Move} {s₁ s₂ s' : State} (hlobby : Lobby w user AIs)
    (hnames : DistinctNames w)
    (hopen : openSession w base shuffling dealing = .ok y₀)
    (hrun : run stepSession y₀ es = .ok y)
    (hturn : TakesTurn y.game i p m s₁ s₂ s') :
    FollowsRules y.game s₁ i.round p m s' := by
  rw [turn_follows_rules_iff hlobby hopen hrun hturn]
  intro hsurvives
  have hrunning := Running.of_run hlobby hopen hrun
  have hlegal := hturn.legal hrunning.inPlay hnames hrunning.phase.pressed
  refine hlegal.target_ne ?_ hsurvives.target
  rw [hsurvives.name]
  rfl

theorem turn_follows_rules_taxTurn :
    ∃ y₀ y i p m s₁ s₂ s',
      openSession (lobbyOf "user" ["Charlie Puth"] []) 0 (List.range 15) [4, 8]
        = .ok y₀ ∧
      run stepSession y₀ taxTurn = .ok y ∧
      TakesTurn y.game i p m s₁ s₂ s' ∧
      FollowsRules y.game s₁ i.round p m s' := by
  have hlast : lastStep stepSession
      (openSession (lobbyOf "user" ["Charlie Puth"] []) 0 (List.range 15)
        [4, 8]) taxTurn (scripted .allow .least 1 [] (List.range 11))
      (fun y y' => decide (y'.game.world.moveLog.length ≠
        y.game.world.moveLog.length)) = true := by
    decide +kernel
  obtain ⟨y₀, y, y', hopen, hrun, hstep, hP⟩ := exists_of_lastStep hlast
  rcases stepSession_cases hstep with hworld | ⟨i, p, m, s₁, s₂, -, hturn⟩
  · exact absurd (by rw [hworld]) (of_decide_eq_true hP)
  · exact ⟨y₀, y, i, p, m, s₁, s₂, y'.game, hopen, hrun, hturn,
      turn_follows_rules (lobbyOf_one "user" "Charlie Puth")
        (lobbyOf_distinctNames [] (by decide)) hopen hrun hturn⟩

/-- A user with the name of the first AI also plays this AI: it claims tax
and loses a card to a challenge, takes income, and aims its last card, an
Assassin, at itself. -/
def lastAssassin : List Event :=
  .start :: userPresses .income ++ [unchallenged] ++ userPresses .tax ++
    [scripted .allow .least 1 [] [], unchallenged] ++ userPresses .income ++
    [unchallenged] ++ userPresses .income ++ [unchallenged, unchallenged] ++
    userPresses .income ++ [unchallenged] ++ userPresses (.assassinate 1)

/-- Between players of the same name a turn may break the rules: Ed Sheeran
challenges the assassin and loses a card, and the assassin keeps its only
influence. -/
theorem assassin_survives :
    ∃ user AIs y₀ y i s₁ s₂ s',
      Lobby (lobbyOf "Charlie Puth" ["Charlie Puth", "Ed Sheeran"] []) user
        AIs ∧
      openSession (lobbyOf "Charlie Puth" ["Charlie Puth", "Ed Sheeran"] []) 0
        (List.range 15) [4, 8, 9, 0] = .ok y₀ ∧
      run stepSession y₀ lastAssassin = .ok y ∧
      TakesTurn y.game i 1 ⟨.assassinate, 1, 1⟩ s₁ s₂ s' ∧
      y.game.world.board.influence 1 = 1 ∧ s'.world.board.influence 1 = 1 ∧
      ¬ FollowsRules y.game s₁ i.round 1 ⟨.assassinate, 1, 1⟩ s' := by
  have hlast : lastStep stepSession
      (openSession (lobbyOf "Charlie Puth" ["Charlie Puth", "Ed Sheeran"] []) 0
        (List.range 15) [4, 8, 9, 0]) lastAssassin
      (scripted .allow .least 1 [] (List.range 15))
      (fun y y' => decide (
        (y.game.world.players[y.game.vc.turnInd]? = some 1 ∧
          (y.game.world.player 1).name = y.game.world.username ∧
          y.game.vc.playerMove = ⟨.assassinate, 1, 1⟩ ∧
          1 ∈ y.game.world.players ∧
          (y.game.world.held 1 .second).revealed = false ∧
          (y.game.world.held 1 .second).can .assassinate = true) ∧
        ((anyChallenges (logMove { y.game with vc.didPlayerMove := false }
            ⟨.assassinate, 1, 1⟩) ⟨.assassinate, 1, 1⟩
            ⟨.allow, fun _ => .least⟩).toOption.map Prod.snd =
          some ⟨.challenge, 2, 1⟩) ∧
        y.game.world.board.influence 1 = 1 ∧
        y'.game.world.board.influence 1 = 1 ∧
        y'.game.world.moveLog.length ≠ y.game.world.moveLog.length)) = true := by
    decide +kernel
  obtain ⟨y₀, y, y', hopen, hrun, hstep, hP⟩ := exists_of_lastStep hlast
  obtain ⟨⟨hseat, hname, hmove, hseated, hdown, hcan⟩, hround, hbefore, hafter,
    hlog⟩ := of_decide_eq_true hP
  rcases stepSession_cases hstep with hworld | ⟨i, p, m, s₁, s₂, hi, hturn⟩
  · exact absurd (by rw [hworld]) hlog
  cases hi
  obtain ⟨hcurrent, -, hchosen⟩ := hturn.chosen
  obtain rfl : 1 = p := Option.some.inj (hseat.symm.trans hcurrent)
  cases hchosen with
  | ai w hother _ _ => exact absurd hname hother
  | user _ _ hm hstate =>
      rw [hmove] at hm
      subst hm hstate
      refine ⟨0, _, y₀, y, _, _, s₂, y'.game,
        lobbyOf_two "Charlie Puth" "Charlie Puth" "Ed Sheeran", hopen, hrun,
        hturn, hbefore, hafter, ?_⟩
      intro hrules
      obtain ⟨⟨s₃, o⟩, hasked, ho⟩ := Option.map_eq_some_iff.mp hround
      have hby : ChallengedBy (logMove { y.game with vc.didPlayerMove := false }
          ⟨.assassinate, 1, 1⟩) ⟨.assassinate, 1, 1⟩
          ⟨.allow, fun _ => .least⟩ 2 := by
        refine ⟨rfl, s₃, o, toOption_eq_some.mp hasked, ?_, ?_⟩
        · exact congrArg Move.name ho
        · exact congrArg Move.caller ho
      have htakes := hrules.won 2 hby ⟨.second, hdown, hcan⟩
      have hlosses := htakes.losses 1 hseated (Or.inr (by decide))
      rw [hbefore, hafter] at hlosses
      cases hlosses

end Coup
