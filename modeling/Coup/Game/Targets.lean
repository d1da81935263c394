import Coup.Backend.Steal
import Coup.Game.Coins
import Coup.Game.Verdict

/-!
# Targets

An AI draws seats until it finds one it accepts; the user picks a row of a
target sheet.  This module says whom the loops of `getPlayerMove` accept, when
they can end, and when the sheets offer the same players.
-/

namespace Coup

open Coup.Support

/-! ## Whom the loops accept -/

/-- A player whom the loops of `getPlayerMove` can end on. -/
structure Victim (w : World) (p : PlayerRef) (name : MoveName)
    (q : PlayerRef) : Prop where
  seated : q ∈ w.players
  other : (w.player q).name ≠ (w.player p).name
  active : w.isPlayerRevealed q = false
  pays : name = .steal → 2 ≤ (w.player q).coins

/-- Some draws of seats end the loop on the player. -/
def Accepts (w : World) (p : PlayerRef) (name : MoveName) (q : PlayerRef) :
    Prop :=
  ∃ seats, chooseTarget w p name seats = .ok ⟨name, p, q⟩

section Loops

variable {w : World} {p q : PlayerRef} {accept : PlayerRef → Bool}
  {name : MoveName}

theorem findTarget_of_accept {k : ℕ} (hk : w.players[k]? = some q)
    (hother : (w.player q).name ≠ (w.player p).name)
    (haccept : accept q = true) : findTarget w p accept [k] = .ok q := by
  have hlt : k < w.players.length := (List.getElem?_eq_some_iff.mp hk).1
  rw [findTarget, findTarget.randomSeat, if_neg (by omega), bind_ok,
    Nat.mod_eq_of_lt hlt, hk, orFault, bind_ok, if_neg hother, if_pos haccept]
  rfl

/-- Without an acceptable seat the loop draws for ever. -/
theorem findTarget_spins (hplayers : w.players ≠ [])
    (hnone : ∀ q ∈ w.players, (w.player q).name ≠ (w.player p).name →
      accept q = false) (draws : List ℕ) :
    findTarget w p accept draws = .error .spinning := by
  have hpos := List.length_pos_iff.mpr hplayers
  induction draws with
  | nil => rfl
  | cons draw draws ih =>
      have hlt := Nat.mod_lt draw hpos
      rw [findTarget, findTarget.randomSeat, if_neg (by omega), bind_ok,
        List.getElem?_eq_getElem hlt, orFault, bind_ok, ih]
      split
      · rfl
      next hother =>
        rw [hnone _ (List.getElem_mem hlt) hother]
        rfl

theorem findTarget_succeeds_iff :
    (∃ draws, findTarget w p accept draws = .ok q) ↔
      q ∈ w.players ∧ (w.player q).name ≠ (w.player p).name ∧
        accept q = true := by
  constructor
  · rintro ⟨draws, h⟩
    exact findTarget_spec h
  · rintro ⟨hmem, hother, haccept⟩
    obtain ⟨k, hk⟩ := List.mem_iff_getElem?.mp hmem
    exact ⟨[k], findTarget_of_accept hk hother haccept⟩

/-- The loops accept exactly the victims. -/
theorem accepts_iff (haimed : name.aimed = true) :
    Accepts w p name q ↔ Victim w p name q := by
  have hfind : Accepts w p name q ↔
      ∃ draws, findTarget w p (targetTest w name) draws = .ok q := by
    apply exists_congr
    intro seats
    rw [chooseTarget_of_aimed haimed, bind_eq_ok]
    constructor
    · rintro ⟨target, hfound, hm⟩
      cases hm
      exact hfound
    · intro hfound
      exact ⟨q, hfound, rfl⟩
  rw [hfind, findTarget_succeeds_iff, targetTest_iff]
  constructor
  · rintro ⟨hseated, hother, hactive, hpays⟩
    exact ⟨hseated, hother, hactive, hpays⟩
  · intro h
    exact ⟨h.seated, h.other, h.active, h.pays⟩

/-- Without a victim no stream of draws ends the loop. -/
theorem chooseTarget_spins (hplayers : w.players ≠ [])
    (haimed : name.aimed = true) (hnone : ∀ q, ¬ Victim w p name q)
    (seats : List ℕ) : chooseTarget w p name seats = .error .spinning := by
  rw [chooseTarget_of_aimed haimed, findTarget_spins hplayers ?_ seats]
  · rfl
  · intro q hq hother
    by_contra hyes
    obtain ⟨hactive, hpays⟩ :=
      targetTest_iff.mp (Bool.eq_true_of_not_eq_false hyes)
    exact hnone q ⟨hq, hother, hactive, hpays⟩

end Loops

/-! ## Legal moves -/

/-- An AI that is still in the game sits in the current seat. -/
structure AITurn (s : State) (p : PlayerRef) : Prop where
  current : s.world.players[s.vc.turnInd]? = some p
  active : s.world.isPlayerRevealed p = false
  isAI : p ∈ s.vc.AIs

instance aiTurnDecidable (s : State) (p : PlayerRef) :
    Decidable (AITurn s p) :=
  decidable_of_iff (s.world.players[s.vc.turnInd]? = some p ∧
      s.world.isPlayerRevealed p = false ∧ p ∈ s.vc.AIs)
    ⟨fun h => ⟨h.1, h.2.1, h.2.2⟩, fun h => ⟨h.current, h.active, h.isAI⟩⟩

/-- A move that an AI may make: it can be paid, its target is one of the others
that are still in the game, and a rich AI coups. -/
structure Allowed (w : World) (p : PlayerRef) (m : Move) : Prop where
  playable : m.name.playable = true
  caller : m.caller = p
  coup : m.name = .coup → 7 ≤ (w.player p).coins
  assassinate : m.name = .assassinate → 3 ≤ (w.player p).coins
  aimed : m.name.aimed = true → m.target ∈ w.players ∧ m.target ≠ p ∧
    w.isPlayerRevealed m.target = false ∧
      (m.name = .steal → 2 ≤ (w.player m.target).coins)
  plain : m.name.aimed = false → m.target = p
  rich : 7 ≤ (w.player p).coins → m.name = .coup

/-- The target of an aimed move of an AI is in the game, and a rich AI
coups. -/
theorem getPlayerMove_target {w w' : World} {p : PlayerRef} {i : AIInput}
    {m : Move} (hp : p ∈ w.players) (hsome : (w.player p).ai.isSome)
    (h : getPlayerMove w p i = .ok (m, w')) :
    (m.name.aimed = true → w.isPlayerRevealed m.target = false) ∧
      (7 ≤ (w.player p).coins → m.name = .coup) := by
  obtain ⟨ai, name, -, hname, hm, -⟩ := getPlayerMove_cases hsome h
  obtain ⟨rfl, -, -, -, hother, -⟩ :=
    chooseTarget_spec hp (pickMoveName_playable hname) hm
  refine ⟨fun haimed => (hother haimed).2, fun hrich => ?_⟩
  rcases pickMoveName_spec hname with ⟨hcoup, -⟩ | ⟨hpoor, -⟩
  · exact hcoup
  · exact absurd hrich (not_le.mpr hpoor)

/-- Whatever rates an AI has come to store, and whatever it draws, it submits an
allowed move. -/
theorem ai_move_allowed {s : State} {p : PlayerRef} {ai : AI} {i : AIInput}
    {m : Move} {w' : World} (hturn : AITurn s p)
    (h : getPlayerMove (s.world.setAI p ai) p i = .ok (m, w')) :
    Allowed s.world p m := by
  have hp : p ∈ (s.world.setAI p ai).players :=
    List.mem_of_getElem? hturn.current
  have hsome : ((s.world.setAI p ai).player p).ai.isSome := by
    simp [World.setAI_ai]
  obtain ⟨hlegal, hrob, -⟩ := getPlayerMove_spec hp hsome h
  obtain ⟨hactive, hrich⟩ := getPlayerMove_target hp hsome h
  refine ⟨hlegal.playable, hlegal.caller, ?_, ?_, ?_, hlegal.plain, ?_⟩
  · simpa using hlegal.coup
  · simpa using hlegal.assassinate
  · intro haimed
    refine ⟨hlegal.target, hlegal.target_ne haimed, ?_, ?_⟩
    · simpa [World.isPlayerRevealed] using hactive haimed
    · simpa [RobsTheRich] using hrob
  · simpa using hrich

/-- The user shows an Ambassador to Charlie Puth, who then is caught without a
Duke and is eliminated with two coins. -/
def caughtTax : List Event :=
  .start :: userPresses .exchange ++
    [scripted .allow .least 1 [] (List.range 15),
      scripted .challenge .greatest 50 [] []]

theorem ai_move_allowed_caughtTax :
    ∃ y₀ y m w', openSession
        (lobbyOf "user" ["Charlie Puth", "Ed Sheeran"] []) 0 (List.range 15)
        [1, 0, 0, 0, 3] = .ok y₀ ∧
      run stepSession y₀ caughtTax = .ok y ∧
      getPlayerMove (y.game.world.setAI 2 .init) 2 ⟨.literal, 60, [0]⟩ =
        .ok (m, w') ∧ m.name = .steal ∧ Allowed y.game.world 2 m := by
  have hlast : lastStep stepSession
      (openSession (lobbyOf "user" ["Charlie Puth", "Ed Sheeran"] []) 0
        (List.range 15) [1, 0, 0, 0, 3]) caughtTax .endGame
      (fun y _ => decide (
        AITurn y.game 2 ∧
        (getPlayerMove (y.game.world.setAI 2 .init) 2
          ⟨.literal, 60, [0]⟩).toOption.map Prod.fst =
            some ⟨.steal, 2, 0⟩)) = true := by
    decide +kernel
  obtain ⟨y₀, y, -, hopen, hrun, -, hP⟩ := exists_of_lastStep hlast
  obtain ⟨hturn, hmove⟩ := of_decide_eq_true hP
  obtain ⟨⟨m, w'⟩, hm, hsteal⟩ := Option.map_eq_some_iff.mp hmove
  rw [toOption_eq_some] at hm
  exact ⟨y₀, y, m, w', hopen, hrun, hm, congrArg Move.name hsteal,
    ai_move_allowed hturn hm⟩

/-! ## When the search can end -/

/-- There is somebody at whom the move can be aimed. -/
def HasVictim (w : World) (p : PlayerRef) (name : MoveName) : Prop :=
  name.aimed = true → ∃ q ∈ w.players, q ≠ p ∧
    w.isPlayerRevealed q = false ∧ (name = .steal → 2 ≤ (w.player q).coins)

/-- Whatever move an AI with these rates picks, it can find a target. -/
def SearchEnds (w : World) (p : PlayerRef) (ai : AI) : Prop :=
  ∀ order draw name,
    pickMoveName (w.seat p)
        (changeMoveRate (w.seat p) w.table ai.moveRateDic) order draw =
      .ok name →
    HasVictim w p name ∧ ∃ seats m, chooseTarget w p name seats = .ok m

/-- An AI that does not have to coup rates a steal, although the only others
that can pay are eliminated. -/
structure OnlyDeadCanPay (w : World) (p : PlayerRef) (ai : AI) : Prop where
  poor : (w.player p).coins < 7
  rates : RatesSteal (w.seat p) w.table (ai.moveRateDic .steal)
  broke : ∀ q ∈ w.players, q ≠ p → w.isPlayerRevealed q = false →
    (w.player q).coins < 2
  dead : ∃ q ∈ w.players, q ≠ p ∧ 2 ≤ (w.player q).coins

section Search

variable {w : World} {user : PlayerRef} {AIs : List PlayerRef}
  {base : CardRef} {s : State} {p q : PlayerRef}
  {name : MoveName}

theorem handsOf_countP (w : World) (m : MoveName) (seats : List PlayerRef) :
    (w.handsOf seats).countP (fun c => (w.card c).can m) =
      ((seats.map w.seat).map (Seat.copies m)).sum := by
  induction seats with
  | nil => rfl
  | cons p seats ih =>
      rw [World.handsOf_cons, List.countP_cons, List.countP_cons, ih]
      simp only [List.map_cons, List.sum_cons, Seat.copies, World.seat,
        World.held]
      omega

/-- The hands hold at most the three Captains that were made. -/
theorem captains_le
    (hin : InPlay (createdCards base) (w.createCards base) user AIs s) :
    (s.world.table.map (Seat.copies .steal)).sum ≤ 3 := by
  obtain ⟨cards, -, htable⟩ := hin.shows
  have hcaptain : ∀ c, (s.world.card c).can .steal =
      decide (((w.createCards base).card c).role = .captain) := by
    intro c
    rw [← hin.table.role, Card.can]
    cases (s.world.card c).role <;> rfl
  have hcount := htable.partition.countP_eq fun c =>
    decide (((w.createCards base).card c).role = .captain)
  rw [createdCards_countP, List.countP_append, List.countP_append] at hcount
  have hhands : s.world.handCards.countP
      (fun c => (s.world.card c).can .steal) =
        (s.world.table.map (Seat.copies .steal)).sum :=
    handsOf_countP s.world .steal s.world.players
  simp only [hcaptain] at hhands
  omega

/-- Nobody else has the name of an AI, unless it is the user's. -/
theorem name_eq_iff {created : List CardRef}
    (hin : InPlay created w user AIs s) (hnames : DistinctAINames w AIs)
    (hp : p ∈ AIs) (hname : (s.world.player p).name ≠ s.world.username)
    (hq : q ∈ s.world.players) :
    (s.world.player q).name = (s.world.player p).name ↔ q = p := by
  constructor
  · intro h
    rw [hin.players, List.mem_cons] at hq
    rcases hq with rfl | hq
    · rw [← h, hin.table.name, hin.table.username] at hname
      exact absurd hin.lobby.userName hname
    · rw [hin.table.name, hin.table.name] at h
      exact List.inj_on_of_nodup_map hnames hq hp h
  · rintro rfl
    rfl

theorem poorOthers_seat {created : List CardRef}
    (hin : InPlay created w user AIs s) (hnames : DistinctAINames w AIs)
    (hp : p ∈ AIs) (hname : (s.world.player p).name ≠ s.world.username) :
    (poorOthers (s.world.seat p) s.world.table : ℤ) =
        (s.world.table.length : ℤ) - 1 ↔
      ∀ q ∈ s.world.players, q ≠ p → (s.world.player q).coins < 2 := by
  have hseated := (hin.mem_AIs hp).1
  have hone : (s.world.table.map Seat.name).count (s.world.seat p).name = 1 := by
    rw [World.table, List.map_map, List.count_eq_countP, List.countP_map,
      ← List.count_eq_one_of_mem hin.nodup hseated, List.count_eq_countP]
    apply List.countP_congr
    intro q hq
    simpa [World.seat] using name_eq_iff hin hnames hp hname hq
  rw [poorOthers_eq_iff hone, World.table, List.forall_mem_map]
  apply forall₂_congr
  intro q hq
  rw [show (s.world.seat q).name ≠ (s.world.seat p).name ↔ q ≠ p from
    not_congr (name_eq_iff hin hnames hp hname hq)]
  rfl

/-- The rate of a steal is positive exactly if somebody else has two coins and
the role block leaves something. -/
theorem changeMoveRate_steal_pos
    (hin : InPlay (createdCards base) (w.createCards base) user AIs s)
    (hnames : DistinctAINames (w.createCards base) AIs) (hp : p ∈ AIs)
    (hname : (s.world.player p).name ≠ s.world.username)
    (dic : MoveName → ℤ) :
    0 < changeMoveRate (s.world.seat p) s.world.table dic .steal ↔
      (∃ q ∈ s.world.players, q ≠ p ∧ 2 ≤ (s.world.player q).coins) ∧
        RatesSteal (s.world.seat p) s.world.table (dic .steal) := by
  have hseat : s.world.seat p ∈ s.world.table :=
    List.mem_map_of_mem (hin.mem_AIs hp).1
  have hthree : (s.world.seat p).shownCopies .steal ≠ 0 →
      shownByOthers .steal (s.world.seat p) s.world.table ≤ 2 := by
    intro hshown
    have hcaptains := captains_le hin
    have hown := shownByOthers_add_copies_le (m := .steal) hseat
    have hle := shownCopies_le_copies (m := .steal) (s.world.seat p)
    omega
  rw [← roleBlock_steal_pos hthree, changeMoveRate_steal]
  have hpoor := poorOthers_seat hin hnames hp hname
  split
  next hnone =>
    have hall := hpoor.mp hnone
    refine iff_of_false (lt_irrefl 0) ?_
    rintro ⟨⟨q, hq, hqp, hrich⟩, -⟩
    have hlow := hall q hq hqp
    omega
  next hsome =>
    have hrich : ∃ q ∈ s.world.players, q ≠ p ∧
        2 ≤ (s.world.player q).coins := by
      by_contra hnone
      refine hsome (hpoor.mpr fun q hq hqp => not_le.mp fun hrich => ?_)
      exact hnone ⟨q, hq, hqp, hrich⟩
    rw [and_iff_right hrich, lt_max_iff, or_iff_left (lt_irrefl 0)]

/-- A search for somebody who can be found comes to an end. -/
theorem Victim.search (haimed : name.aimed = true)
    (h : Victim w p name q) : ∃ seats m, chooseTarget w p name seats = .ok m := by
  obtain ⟨seats, hseats⟩ := (accepts_iff haimed).mpr h
  exact ⟨seats, _, hseats⟩

/-- The user is a victim of every AI that coups or assassinates. -/
theorem user_victim {created : List CardRef}
    (hin : InPlay created w user AIs s)
    (hname : (s.world.player p).name ≠ s.world.username)
    (hactive : s.world.isPlayerRevealed user = false) (hne : name ≠ .steal) :
    Victim s.world p name user where
  seated := hin.user_seated
  other := by
    rw [hin.table.name user, hin.lobby.userName, ← hin.table.username]
    exact hname.symm
  active := hactive
  pays hsteal := absurd hsteal hne

theorem search_of_victim (hplayable : name.playable = true)
    (h : name.aimed = true → ∃ q, Victim w p name q) :
    HasVictim w p name ∧ ∃ seats m, chooseTarget w p name seats = .ok m := by
  cases haimed : name.aimed with
  | false =>
      refine ⟨fun hyes => absurd (haimed.symm.trans hyes) (by decide), ?_⟩
      exact ⟨[], _, chooseTarget_of_plain hplayable haimed []⟩
  | true =>
      obtain ⟨q, hq⟩ := h haimed
      refine ⟨fun _ => ⟨q, hq.seated, ?_, hq.active, hq.pays⟩,
        hq.search haimed⟩
      rintro rfl
      exact hq.other rfl

end Search

/-- In a game that is not over, the target search of an AI can end for every
move the AI can pick, unless it would rate a steal and only eliminated players
could pay. -/
theorem target_search_ends_iff {w : World} {user : PlayerRef}
    {AIs : List PlayerRef} {base : CardRef} {shuffling dealing : List ℕ}
    {y₀ y : Session} {es : List Event} {p : PlayerRef}
    (hlobby : Lobby w user AIs) (hnames : DistinctAINames w AIs)
    (hopen : openSession w base shuffling dealing = .ok y₀)
    (hrun : run stepSession y₀ es = .ok y) (hgoing : ¬ GameOver y.game)
    (hturn : AITurn y.game p)
    (hname : (y.game.world.player p).name ≠ y.game.world.username) (ai : AI) :
    SearchEnds y.game.world p ai ↔ ¬ OnlyDeadCanPay y.game.world p ai := by
  have hin := (Running.of_run hlobby hopen hrun).inPlay
  have hnames' : DistinctAINames (w.createCards base) AIs := hnames
  have hp : p ∈ AIs := hin.AIs ▸ hturn.isAI
  have hsteal := changeMoveRate_steal_pos hin hnames' hp hname ai.moveRateDic
  constructor
  · rintro hends ⟨hpoor, hrates, hbroke, hdead⟩
    have hseat : (y.game.world.seat p).coins < 7 := hpoor
    obtain ⟨draw, hpick⟩ := exists_pickMoveName .literal hseat
      (fun k hk => changeMoveRate_nonneg _ _ _ hk) (by decide)
      (hsteal.mpr ⟨hdead, hrates⟩)
    obtain ⟨q, hq, hqp, hactive, hpays⟩ :=
      (hends .literal draw .steal hpick).1 rfl
    have hrich := hpays rfl
    have hlow := hbroke q hq hqp hactive
    omega
  · intro hnot order draw name hpick
    apply search_of_victim (pickMoveName_playable hpick)
    intro haimed
    obtain ⟨huser, -⟩ := not_not.mp (mt (gameOver_iff hin).mpr hgoing)
    by_cases hrob : name = .steal
    · subst hrob
      rcases pickMoveName_spec hpick with ⟨hcoup, -⟩ | ⟨hpoor, -, hpick⟩
      · cases hcoup
      · have hpos := hpick.resolve_left (by decide)
        obtain ⟨hdead, hrates⟩ := hsteal.mp hpos
        by_contra hnone
        refine hnot ⟨hpoor, hrates, fun q hq hqp hactive => ?_, hdead⟩
        by_contra hrich
        refine hnone ⟨q, hq, ?_, hactive, fun _ => not_lt.mp hrich⟩
        exact mt (name_eq_iff hin hnames' hp hname hq).mp hqp
    · exact ⟨user, user_victim hin hname huser hrob⟩

theorem target_search_ends_iff_caughtTax :
    ∃ y₀ y, openSession (lobbyOf "user" ["Charlie Puth", "Ed Sheeran"] []) 0
        (List.range 15) [1, 0, 0, 0, 3] = .ok y₀ ∧
      run stepSession y₀ caughtTax = .ok y ∧
      SearchEnds y.game.world 2 .init := by
  have hlast : lastStep stepSession
      (openSession (lobbyOf "user" ["Charlie Puth", "Ed Sheeran"] []) 0
        (List.range 15) [1, 0, 0, 0, 3]) caughtTax .endGame
      (fun y _ => decide (
        ¬ GameOver y.game ∧
        AITurn y.game 2 ∧
        (y.game.world.player 2).name ≠ y.game.world.username ∧
        0 ∈ y.game.world.players ∧ y.game.world.isPlayerRevealed 0 = false ∧
        2 ≤ (y.game.world.player 0).coins)) = true := by
    decide +kernel
  obtain ⟨y₀, y, -, hopen, hrun, -, hP⟩ := exists_of_lastStep hlast
  obtain ⟨hgoing, hturn, hname, hmem, hdown, hrich⟩ := of_decide_eq_true hP
  refine ⟨y₀, y, hopen, hrun, (target_search_ends_iff
    (lobbyOf_two "user" "Charlie Puth" "Ed Sheeran")
    (lobbyOf_distinctAINames [] (by decide)) hopen hrun hgoing hturn hname
    .init).mpr ?_⟩
  intro honly
  have hlow := honly.broke 0 hmem (by decide) hdown
  omega

/-- Ed Sheeran then robs the user, who takes income, and it is the turn of Ed
Sheeran again. -/
def robbedUser : List Event :=
  caughtTax ++ scripted .allow .greatest 60 [0] [] :: userPresses .income ++
    [unchallenged, unchallenged]

/-- Only the eliminated Charlie Puth has two coins, so Ed Sheeran, who picks a
steal, draws seats for ever. -/
theorem steal_search_spins :
    ∃ user AIs y₀ y ai,
      Lobby (lobbyOf "user" ["Charlie Puth", "Ed Sheeran"] []) user AIs ∧
      DistinctNames (lobbyOf "user" ["Charlie Puth", "Ed Sheeran"] []) ∧
      openSession (lobbyOf "user" ["Charlie Puth", "Ed Sheeran"] []) 0
        (List.range 15) [1, 0, 0, 0, 3] = .ok y₀ ∧
      run stepSession y₀ robbedUser = .ok y ∧ ¬ GameOver y.game ∧
      AITurn y.game 2 ∧
      (y.game.world.player 2).name ≠ y.game.world.username ∧
      (y.game.world.player 2).ai = some ai ∧
      pickMoveName (y.game.world.seat 2)
        (changeMoveRate (y.game.world.seat 2) y.game.world.table
          ai.moveRateDic) .literal 40 = .ok .steal ∧
      ¬ HasVictim y.game.world 2 .steal ∧
      ∀ seats, chooseTarget y.game.world 2 .steal seats =
        .error .spinning := by
  have hlast : lastStep stepSession
      (openSession (lobbyOf "user" ["Charlie Puth", "Ed Sheeran"] []) 0
        (List.range 15) [1, 0, 0, 0, 3]) robbedUser .endGame
      (fun y _ => decide (
        ¬ GameOver y.game ∧
        AITurn y.game 2 ∧
        (y.game.world.player 2).name ≠ y.game.world.username ∧
        ((y.game.world.player 2).ai.bind fun ai =>
          (pickMoveName (y.game.world.seat 2)
            (changeMoveRate (y.game.world.seat 2) y.game.world.table
              ai.moveRateDic) .literal 40).toOption) = some .steal ∧
        y.game.world.players ≠ [] ∧
        ∀ q ∈ y.game.world.players, q ≠ 2 →
          y.game.world.isPlayerRevealed q = false →
            (y.game.world.player q).coins < 2)) = true := by
    decide +kernel
  obtain ⟨y₀, y, -, hopen, hrun, -, hP⟩ := exists_of_lastStep hlast
  obtain ⟨hgoing, hturn, hname, hpick, hsome, hbroke⟩ := of_decide_eq_true hP
  obtain ⟨ai, hai, hpick⟩ := Option.bind_eq_some_iff.mp hpick
  refine ⟨0, _, y₀, y, ai, lobbyOf_two "user" "Charlie Puth" "Ed Sheeran",
    lobbyOf_distinctNames [] (by decide), hopen, hrun, hgoing, hturn, hname,
    hai, toOption_eq_some.mp hpick, ?_, ?_⟩
  · intro hvictim
    obtain ⟨q, hq, hne, hdown, hpays⟩ := hvictim rfl
    have hlow := hbroke q hq hne hdown
    have hrich := hpays rfl
    omega
  · apply chooseTarget_spins hsome rfl
    intro q hq
    have hlow := hbroke q hq.seated ?_ hq.active
    · have hrich := hq.pays rfl
      omega
    · rintro rfl
      exact hq.other rfl

/-! ## The target sheets -/

/-- The players that the sheet of a move offers. -/
def sheetOf (s : State) : MoveName → List PlayerRef
  | .coup => coupSheet s
  | .steal => stealSheet s
  | .assassinate => assassinateSheet s
  | _ => []

/-- What makes the button of a move open its sheet. -/
def Usable (s : State) : MoveName → Prop
  | .coup => 7 ≤ (s.world.player s.vc.user).coins
  | .steal => s.vc.isStealPossible = true
  | .assassinate => 3 ≤ (s.world.player s.vc.user).coins
  | _ => False

/-- The sheet offers exactly the players on whom the loop of an AI in the seat
of the user could end. -/
def SameTargets (s : State) (name : MoveName) : Prop :=
  ∀ q, q ∈ sheetOf s name ↔ Accepts s.world s.vc.user name q

theorem mem_sheetOf {s : State} {name : MoveName} {q : PlayerRef}
    (haimed : name.aimed = true) :
    q ∈ sheetOf s name ↔ q ∈ s.vc.AIs ∧
      (s.world.isPlayerRevealed q = false ∨
        name = .steal ∧ (s.world.player q).coins < 2) := by
  rcases aimed_cases haimed with rfl | rfl | rfl
  · simp [sheetOf, coupSheet]
  · simp [sheetOf, assassinateSheet]
  · simp [sheetOf, stealSheet]

/-- In every state of a game the sheet offers what the loop accepts exactly if
no AI in the game has the name of the user and, for a steal, every AI can
pay. -/
theorem same_targets_iff {w : World} {user : PlayerRef}
    {AIs : List PlayerRef} {base : CardRef} {shuffling dealing : List ℕ}
    {y₀ y : Session} {es : List Event} {name : MoveName}
    (hlobby : Lobby w user AIs)
    (hopen : openSession w base shuffling dealing = .ok y₀)
    (hrun : run stepSession y₀ es = .ok y) (haimed : name.aimed = true) :
    SameTargets y.game name ↔
      (∀ q ∈ AIs, y.game.world.isPlayerRevealed q = false →
        (y.game.world.player q).name ≠ y.game.world.username) ∧
      (name = .steal → ∀ q ∈ AIs, 2 ≤ (y.game.world.player q).coins) := by
  have hin := (Running.of_run hlobby hopen hrun).inPlay
  have husername : (y.game.world.player y.game.vc.user).name =
      y.game.world.username := by
    rw [hin.user, hin.table.name, hin.table.username]
    exact hlobby.userName
  have hvictim : ∀ q, Accepts y.game.world y.game.vc.user name q ↔
      q ∈ AIs ∧ (y.game.world.player q).name ≠ y.game.world.username ∧
        y.game.world.isPlayerRevealed q = false ∧
          (name = .steal → 2 ≤ (y.game.world.player q).coins) := by
    intro q
    rw [accepts_iff haimed]
    constructor
    · rintro ⟨hseated, hother, hactive, hpays⟩
      rw [husername] at hother
      refine ⟨?_, hother, hactive, hpays⟩
      rw [hin.players, List.mem_cons] at hseated
      apply hseated.resolve_left
      rintro rfl
      rw [← hin.user] at hother
      exact hother husername
    · rintro ⟨hq, hother, hactive, hpays⟩
      exact ⟨(hin.mem_AIs hq).1, husername.symm ▸ hother, hactive, hpays⟩
  constructor
  · intro hsame
    have hall : ∀ q ∈ AIs, y.game.world.isPlayerRevealed q = false ∨
        name = .steal ∧ (y.game.world.player q).coins < 2 →
        (y.game.world.player q).name ≠ y.game.world.username ∧
        y.game.world.isPlayerRevealed q = false ∧
        (name = .steal → 2 ≤ (y.game.world.player q).coins) := by
      intro q hq hoffered
      refine ((hvictim q).mp ((hsame q).mp ?_)).2
      exact (mem_sheetOf haimed).mpr ⟨hin.AIs ▸ hq, hoffered⟩
    refine ⟨fun q hq hactive => (hall q hq (Or.inl hactive)).1,
      fun hsteal q hq => ?_⟩
    by_contra hpoor
    exact hpoor ((hall q hq (Or.inr ⟨hsteal, not_le.mp hpoor⟩)).2.2 hsteal)
  · rintro ⟨hother, hpay⟩ q
    rw [mem_sheetOf haimed, hvictim, hin.AIs]
    apply and_congr_right
    intro hq
    constructor
    · rintro (hactive | ⟨hsteal, hpoor⟩)
      · exact ⟨hother q hq hactive, hactive, fun hsteal => hpay hsteal q hq⟩
      · exact absurd (hpay hsteal q hq) (not_le.mpr hpoor)
    · rintro ⟨-, hactive, -⟩
      exact Or.inl hactive

theorem same_targets_iff_caughtTax :
    ∃ y₀ y, openSession (lobbyOf "user" ["Charlie Puth", "Ed Sheeran"] []) 0
        (List.range 15) [1, 0, 0, 0, 3] = .ok y₀ ∧
      run stepSession y₀ caughtTax = .ok y ∧
      SameTargets y.game .steal := by
  have hlast : lastStep stepSession
      (openSession (lobbyOf "user" ["Charlie Puth", "Ed Sheeran"] []) 0
        (List.range 15) [1, 0, 0, 0, 3]) caughtTax .endGame
      (fun y _ => decide (∀ q ∈ ([1, 2] : List PlayerRef),
        (y.game.world.player q).name ≠ y.game.world.username ∧
          2 ≤ (y.game.world.player q).coins)) = true := by
    decide +kernel
  obtain ⟨y₀, y, -, hopen, hrun, -, hP⟩ := exists_of_lastStep hlast
  have hAIs := of_decide_eq_true hP
  exact ⟨y₀, y, hopen, hrun, (same_targets_iff
    (lobbyOf_two "user" "Charlie Puth" "Ed Sheeran") hopen hrun rfl).mpr
    ⟨fun q hq _ => (hAIs q hq).1, fun _ q hq => (hAIs q hq).2⟩⟩

/-- The robbed Ed Sheeran has one coin and is offered to the user, but the loop
for a steal would never end on that seat. -/
theorem poor_target_offered :
    ∃ user AIs y₀ y,
      Lobby (lobbyOf "user" ["Charlie Puth", "Ed Sheeran"] []) user AIs ∧
      DistinctNames (lobbyOf "user" ["Charlie Puth", "Ed Sheeran"] []) ∧
      openSession (lobbyOf "user" ["Charlie Puth", "Ed Sheeran"] []) 0
        (List.range 15) [4, 8] = .ok y₀ ∧
      run stepSession y₀ robbed = .ok y ∧ UserTurn y.game user ∧
      y.game.vc.buttons.steal = true ∧ Usable y.game .steal ∧
      2 ∈ sheetOf y.game .steal ∧
      ¬ Accepts y.game.world y.game.vc.user .steal 2 ∧
      ¬ SameTargets y.game .steal := by
  have hlast : lastStep stepSession
      (openSession (lobbyOf "user" ["Charlie Puth", "Ed Sheeran"] []) 0
        (List.range 15) [4, 8]) robbed .endGame
      (fun y _ => decide (
        UserTurn y.game 0 ∧
        y.game.vc.buttons.steal = true ∧ y.game.vc.isStealPossible = true ∧
        2 ∈ sheetOf y.game .steal ∧
        (y.game.world.player 2).coins < 2)) = true := by
    decide +kernel
  obtain ⟨y₀, y, -, hopen, hrun, -, hP⟩ := exists_of_lastStep hlast
  obtain ⟨hturn, hbutton, husable, hoffered, hpoor⟩ := of_decide_eq_true hP
  have hrefused : ¬ Accepts y.game.world y.game.vc.user .steal 2 := by
    intro haccepts
    have hrich := ((accepts_iff rfl).mp haccepts).pays rfl
    omega
  exact ⟨0, _, y₀, y,
    lobbyOf_two "user" "Charlie Puth" "Ed Sheeran",
    lobbyOf_distinctNames [] (by decide), hopen, hrun, hturn, hbutton, husable,
    hoffered, hrefused,
    fun hsame => hrefused ((hsame 2).mp hoffered)⟩

end Coup
