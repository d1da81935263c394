import Coup.Backend.Shuffle
import Coup.Game.Margin
import Coup.Game.Targets
import Coup.Support.Progress

/-!
# No turn is doomed by its draws

A turn reads draws in three places: the target search of an AI, the shuffle
at the end of an exchange and the one after a won challenge.  Whatever has
been drawn there, and whatever was answered before, more draws bring the turn
to its end, if no answer of the user gets lost.  The only exception is an AI
that has picked a steal when nobody else in the game can pay.
-/

namespace Coup

open Coup.Support

/-! ## Drawing and shuffling -/

section Deck

variable {cards : List CardRef}

theorem faults_giveACard (cardDeck : CardDeck) (draw : ℕ) :
    Faults .trap (giveACard cardDeck draw) := by
  have hindex : Faults .trap (randomIndex cardDeck.length draw) :=
    .ite (fun _ => faults_error) fun _ => faults_ok _
  exact hindex.bind fun _ _ => (faults_orFault _).bind fun _ _ =>
    (faults_orFault _).bind fun _ _ => faults_ok _

theorem faults_give2Cards (cardDeck : CardDeck) (draw1 draw2 : ℕ) :
    Faults .trap (give2Cards cardDeck draw1 draw2) :=
  (faults_giveACard _ _).bind fun _ _ =>
    (faults_giveACard _ _).bind fun _ _ => faults_ok _

theorem completes_get2CardsBackNShuffle (two : CardRef × CardRef) :
    Completes (get2CardsBackNShuffle (cards.map some) two) := by
  intro draws
  have hback : cards.map some ++ [some two.1, some two.2] =
      (cards ++ [two.1, two.2]).map some := by simp
  simp only [get2CardsBackNShuffle, hback]
  exact shuffle_finishes (by simp) draws

theorem completes_get1CardBackNShuffle (w : World) (card : CardRef) :
    Completes (get1CardBackNShuffle w (cards.map some) card) := by
  have hback : cards.map some ++ [some card] = (cards ++ [card]).map some := by
    simp
  have hshuffle : Completes (shuffle (cards.map some ++ [some card])) := by
    intro draws
    rw [hback]
    exact shuffle_finishes (by simp) draws
  exact hshuffle.bind fun _ _ _ => ⟨_, rfl⟩

end Deck

/-! ## Exchange -/

section Exchange

variable {created : List CardRef} {s : State} {parked : List CardRef}
  {b : Board PlayerRef} {p : PlayerRef}

theorem faults_offerExchange (s : State) (i : Slot) (k : ℕ)
    (a : ExchangeAnswer) : Faults .trap (offerExchange s i k a) := by
  refine .ite (fun _ => ?_) fun _ => faults_ok _
  refine (faults_orFault _).bind fun two _ => ?_
  rcases answerDialog_cases s ⟨two, k⟩ a with hanswer | ⟨c, n, -, hanswer⟩
  · rw [hanswer]
    exact faults_ok _
  · rw [hanswer, applyExchange]
    refine (faults_orFault _).bind fun _ _ => ?_
    split <;> exact faults_ok _

theorem faults_exchangeCards (s : State) (p : PlayerRef) (x : ExchangeInput) :
    Faults .trap (exchangeCards s p x) := by
  have hfirst : Faults .trap (swapFirst s p) :=
    .ite (fun _ => (faults_orFault _).bind fun _ _ => faults_ok _)
      fun _ => faults_ok _
  have hsecond (s : State) : Faults .trap (swapSecond s p) :=
    .ite (fun _ => (faults_orFault _).bind fun _ _ => faults_ok _)
      fun _ => faults_ok _
  refine .ite (fun _ => ?_) fun _ => ?_
  · exact (faults_offerExchange _ _ _ _).bind
      fun _ _ => faults_offerExchange _ _ _ _
  · exact hfirst.bind fun _ _ => hsecond _

/-- The shuffle that ends an exchange can be completed. -/
theorem completes_exchange (x : ExchangeInput) (h : Stocked s 2) :
    Completes fun draws => exchange s p { x with shuffle := draws } := by
  obtain ⟨cards, hdeck, hleft⟩ := h
  have hdraw : ∃ r, give2Cards s.vc.cardDeck x.draw1 x.draw2 = .ok r := by
    rw [hdeck]
    exact ((avoids_give2Cards_iff _ _).mpr hleft).succeeds
      (faults_give2Cards _ _ _)
  apply completes_bind hdraw
  rintro ⟨two, deck⟩ hdrawn
  rw [hdeck] at hdrawn
  obtain ⟨cards₁, rfl, -⟩ := give2Cards_spec hdrawn
  have hdrawn : ({ s with
      vc.cardDeck := cards₁.map some
      vc.twoCards := some two } : State).vc.twoCards ≠ none :=
    Option.some_ne_none two
  apply completes_bind ((avoids_exchangeCards hdrawn).succeeds
    (faults_exchangeCards _ p x))
  intro s₂ hs₂
  have hkept := exchangeCards_keepsDrawn hdrawn s₂ hs₂
  apply completes_bind ((avoids_orFault hkept.twoCards).succeeds
    (faults_orFault _))
  intro two' _
  rw [hkept.cardDeck]
  exact (completes_get2CardsBackNShuffle _).bind fun _ _ _ => ⟨_, rfl⟩

end Exchange

/-! ## Playing a move -/

/-- The input with more draws in the three places that read a list. -/
def TurnInput.goOn (i : TurnInput) (seats shuffle reshuffle : List ℕ) :
    TurnInput :=
  { i with
    ai.seats := i.ai.seats ++ seats
    exchange.shuffle := i.exchange.shuffle ++ shuffle
    reshuffle := i.reshuffle ++ reshuffle }

section Play

variable {created : List CardRef} {s : State} {parked : List CardRef}
  {b : Board PlayerRef} {p q : PlayerRef} {m o : Move}

theorem faults_revealCard (w : World) (p : PlayerRef) :
    Faults .trap (w.revealCard p) := by
  rw [World.revealCard]
  refine (faults_orFault _).bind fun _ _ => ?_
  split <;> exact faults_ok _

/-- Only an exchange reads a list of draws. -/
theorem faults_actOnMove (hne : m.name ≠ .exchange) (s : State)
    (x : ExchangeInput) : Faults .trap (actOnMove s m x) := by
  unfold actOnMove
  split
  case h_3 | h_5 => exact (faults_revealCard _ _).bind fun _ _ => faults_ok _
  case h_4 hname => exact absurd hname hne
  all_goals exact faults_ok _

theorem completes_actOnMove (x : ExchangeInput) (h : Stocked s 2)
    (hlog : s.world.moveLog ≠ []) :
    Completes fun draws => actOnMove s m { x with shuffle := draws } := by
  by_cases hname : m.name = .exchange
  · simp only [actOnMove, hname]
    exact completes_exchange x h
  · apply completes_of_succeeds
    intro draws
    exact (avoids_actOnMove h hlog).succeeds (faults_actOnMove hname _ _)

theorem faults_showClaim (s : State) (p q : PlayerRef) (theCard : ℤ)
    (draw : ℕ) : Faults .trap (showClaim s p q theCard draw) := by
  rw [showClaim]
  exact (faults_revealCard _ _).bind fun _ _ =>
    (faults_giveACard _ _).bind fun _ _ => faults_ok _

theorem completes_replaceClaim {n : ℕ} (h : Stocked s n) (p : PlayerRef)
    (theCard : ℤ) (c : CardRef) : Completes (replaceClaim s p theCard c) := by
  obtain ⟨cards, hdeck, -⟩ := h
  unfold replaceClaim
  rw [hdeck]
  exact (completes_get1CardBackNShuffle _ _).bind fun _ _ _ => ⟨_, rfl⟩

/-- The claimed move and the shuffle after it can be completed, one after the
other. -/
theorem winChallenge_finishes (h : Stocked s 3) (hlog : s.world.moveLog ≠ [])
    (i : TurnInput) (seats : List ℕ) :
    ∃ shuffle reshuffle s',
      winChallenge s p m o (i.goOn seats shuffle reshuffle) = .ok s' := by
  obtain ⟨⟨s₁, c⟩, hshow⟩ : ∃ r, showClaim s p o.caller
      (s.world.checkhaveCard p m.name) i.newCard = .ok r :=
    (avoids_showClaim (h.mono (by decide)) hlog).succeeds
      (faults_showClaim _ _ _ _ _)
  have h₁ := showClaim_stocked h _ hshow
  have hlog₁ : s₁.world.moveLog ≠ [] :=
    (showClaim_log _ _ _ _ _ _ hshow).symm ▸ hlog
  obtain ⟨shuffle, s₂, hact⟩ := completes_actOnMove (m := m) i.exchange h₁
    hlog₁ i.exchange.shuffle
  obtain ⟨reshuffle, s₃, hback⟩ := completes_replaceClaim
    (actOnMove_stocked h₁ s₂ hact) p (s.world.checkhaveCard p m.name) c
    i.reshuffle
  refine ⟨shuffle, reshuffle, s₃, ?_⟩
  simp only [winChallenge, TurnInput.goOn, hshow, bind_ok, hact, hback]

theorem resolve_finishes (h : Stocked s 3) (hlog : s.world.moveLog ≠ [])
    (i : TurnInput) (seats : List ℕ) :
    ∃ shuffle reshuffle s',
      resolve s p m o (i.goOn seats shuffle reshuffle) = .ok s' := by
  unfold resolve
  split
  next hchallenge =>
    split
    next hhas => exact winChallenge_finishes h hlog i seats
    next =>
      obtain ⟨w, hreveal⟩ : ∃ w, s.world.revealCard o.target = .ok w :=
        (avoids_revealCard hlog).succeeds (faults_revealCard _ _)
      exact ⟨[], [], _, bind_eq_ok.mpr ⟨w, hreveal, rfl⟩⟩
  next =>
    split
    next =>
      obtain ⟨shuffle, s', hact⟩ := completes_actOnMove i.exchange
        (h.mono (by decide)) hlog i.exchange.shuffle
      exact ⟨shuffle, [], s', hact⟩
    next => exact ⟨[], [], s, rfl⟩

/-- Whoever objects, a move can be played to its end. -/
theorem playMove_finishes (h : Stocked s 3) (hr : Ready s p m)
    (hnames : DistinctNames s.world) (hlog : s.world.moveLog ≠ [])
    (i : TurnInput) (seats : List ℕ) :
    ∃ shuffle reshuffle s',
      playMove s p m (i.goOn seats shuffle reshuffle) = .ok s' := by
  unfold playMove
  split
  next =>
    obtain ⟨s₁, o, hround, -⟩ := anyChallenges_first i.round hnames
      hr.move.caller hr.current hlog
    obtain ⟨hquiet, -⟩ := anyChallenges_spec hround
    obtain ⟨shuffle, reshuffle, s', hresolve⟩ := resolve_finishes
      (h.of_deck hquiet.cardDeck) (hquiet.evolves.moveLog ▸ hlog) i seats
    exact ⟨shuffle, reshuffle, s',
      bind_eq_ok.mpr ⟨(s₁, o), hround, hresolve⟩⟩
  next =>
    obtain ⟨shuffle, s', hact⟩ := completes_actOnMove i.exchange
      (h.mono (by decide)) hlog i.exchange.shuffle
    exact ⟨shuffle, [], s', hact⟩

end Play

/-! ## Choosing a move -/

/-- An AI has picked a steal, and nobody else in the game can pay. -/
def RobsNobody (s : State) (i : AIInput) : Prop :=
  ∃ p ai, AITurn s p ∧ (s.world.player p).ai = some ai ∧
    pickMoveName (s.world.seat p)
        (changeMoveRate (s.world.seat p) s.world.table ai.moveRateDic)
        i.order i.pick = .ok .steal ∧
    ∀ q ∈ s.world.players, q ≠ p → s.world.isPlayerRevealed q = false →
      (s.world.player q).coins < 2

section Choose

variable {created : List CardRef} {w : World} {user : PlayerRef}
  {AIs : List PlayerRef} {s : State} {p q : PlayerRef}
  {accept : PlayerRef → Bool} {name : MoveName}

/-- A search for somebody who is there can be completed. -/
theorem completes_findTarget (hq : q ∈ w.players)
    (hother : (w.player q).name ≠ (w.player p).name)
    (haccept : accept q = true) : Completes (findTarget w p accept) := by
  obtain ⟨k, hk⟩ := List.mem_iff_getElem?.mp hq
  have hpos : 0 < w.players.length := List.length_pos_of_mem hq
  intro draws
  induction draws with
  | nil => exact ⟨[k], q, findTarget_of_accept hk hother haccept⟩
  | cons draw draws ih =>
      obtain ⟨more, q', hmore⟩ := ih
      have hlt := Nat.mod_lt draw hpos
      refine ⟨more, ?_⟩
      rw [List.cons_append, findTarget, findTarget.randomSeat,
        if_neg hpos.ne', bind_ok, List.getElem?_eq_getElem hlt, orFault,
        bind_ok]
      exact ite_succeeds ⟨q', hmore⟩ (ite_succeeds ⟨_, rfl⟩ ⟨q', hmore⟩)

theorem completes_chooseTarget (hplayable : name.playable = true)
    (h : name.aimed = true → ∃ q, Victim w p name q) :
    Completes (chooseTarget w p name) := by
  cases haimed : name.aimed with
  | false =>
      apply completes_of_succeeds
      intro seats
      exact ⟨_, chooseTarget_of_plain hplayable haimed seats⟩
  | true =>
      obtain ⟨q, hq⟩ := h haimed
      have hfind : Completes (findTarget w p (targetTest w name)) :=
        completes_findTarget hq.seated hq.other
          (targetTest_iff.mpr ⟨hq.active, hq.pays⟩)
      simp only [funext (chooseTarget_of_aimed haimed)]
      exact hfind.bind fun _ _ _ => ⟨_, rfl⟩

/-- An AI picks some name. -/
theorem pickMoveName_succeeds (self : Seat) (players : List Seat)
    (dic : MoveName → ℤ) (order : DictOrder) (draw : ℕ) :
    ∃ name, pickMoveName self (changeMoveRate self players dic) order draw =
      .ok name := by
  have htotal := rateTotal_nonneg order
    fun k hk => changeMoveRate_nonneg self players dic hk
  exact ⟨_, pickMoveName_eq_ok.mpr ⟨htotal, rfl⟩⟩

/-- In a game that is going on an AI finds a victim, unless it robs nobody. -/
theorem exists_victim (hin : InPlay created w user AIs s)
    (hnames : DistinctNames s.world) (hgoing : ¬ GameOver s)
    (hp : p ∈ s.world.players)
    (hname : (s.world.player p).name ≠ s.world.username)
    (hpays : name = .steal → ∃ q ∈ s.world.players, q ≠ p ∧
      s.world.isPlayerRevealed q = false ∧ 2 ≤ (s.world.player q).coins) :
    ∃ q, Victim s.world p name q := by
  by_cases hsteal : name = .steal
  · obtain ⟨q, hq, hqp, hactive, hrich⟩ := hpays hsteal
    refine ⟨q, hq, ?_, hactive, fun _ => hrich⟩
    intro hsame
    exact hqp (List.inj_on_of_nodup_map hnames hq hp hsame)
  · obtain ⟨huser, -⟩ := not_not.mp (mt (gameOver_iff hin).mpr hgoing)
    exact ⟨user, user_victim hin hname huser hsteal⟩

theorem completes_getPlayerMove (i : AIInput)
    (hin : InPlay created w user AIs s) (hnames : DistinctNames s.world)
    (hgoing : ¬ GameOver s) (hp : s.world.players[s.vc.turnInd]? = some p)
    (hactive : s.world.isPlayerRevealed p = false)
    (hname : (s.world.player p).name ≠ s.world.username)
    (hrob : ¬ RobsNobody s i) :
    Completes fun draws =>
      getPlayerMove s.world p { i with seats := draws } := by
  have hseated : p ∈ s.world.players := List.mem_of_getElem? hp
  obtain ⟨ai, hai⟩ := Option.isSome_iff_exists.mp (hin.ai_isSome hseated hname)
  simp only [getPlayerMove, hai]
  apply completes_bind (pickMoveName_succeeds ..)
  intro name hpick
  have htarget : Completes (chooseTarget s.world p name) := by
    refine completes_chooseTarget (pickMoveName_playable hpick) fun _ => ?_
    apply exists_victim hin hnames hgoing hseated hname
    rintro rfl
    by_contra hnone
    refine hrob ⟨p, ai, ⟨hp, hactive, ?_⟩, hai, hpick, ?_⟩
    · have hmem := hseated
      rw [hin.players, List.mem_cons] at hmem
      rw [hin.AIs]
      refine hmem.resolve_left ?_
      rintro rfl
      exact hname hin.name_user
    · intro q hq hqp hdown
      by_contra hrich
      exact hnone ⟨q, hq, hqp, hdown, not_lt.mp hrich⟩
  exact htarget.bind fun _ _ _ => ⟨_, rfl⟩

theorem completes_selectMove (i : AIInput)
    (hin : InPlay created w user AIs s) (hnames : DistinctNames s.world)
    (hgoing : ¬ GameOver s) (hrob : ¬ RobsNobody s i) :
    Completes fun draws => selectMove s { i with seats := draws } := by
  have hturn := List.getElem?_eq_getElem hin.turnInd
  apply completes_bind ⟨_, orFault_eq_ok.mpr hturn⟩
  intro p hp
  rw [orFault_eq_ok] at hp
  refine .ite (fun _ => completes_of_succeeds fun _ => ⟨_, rfl⟩) fun hin' => ?_
  have hactive := Bool.eq_false_of_not_eq_true hin'
  have htake : Completes fun draws =>
      takeMove s p { i with seats := draws } := by
    refine .ite (fun _ => completes_of_succeeds fun _ => ?_) fun hname => ?_
    · exact ite_succeeds ⟨_, rfl⟩ ⟨_, rfl⟩
    · exact (completes_getPlayerMove i hin hnames hgoing hp hactive hname
        hrob).bind fun _ _ _ => ⟨_, rfl⟩
  exact htake.bind fun _ _ _ => ⟨_, rfl⟩

end Choose

/-! ## The whole turn -/

section Turn

variable {created : List CardRef} {w : World} {user : PlayerRef}
  {AIs : List PlayerRef} {base : CardRef} {s : State}

/-- An AI that robs nobody draws seats for ever. -/
theorem RobsNobody.spins (i : TurnInput) (hin : InPlay created w user AIs s)
    (hnames : DistinctNames s.world) (h : RobsNobody s i.ai)
    (seats shuffle reshuffle : List ℕ) :
    iterate s (i.goOn seats shuffle reshuffle) = .error .spinning := by
  obtain ⟨p, ai, hturn, hai, hpick, hbroke⟩ := h
  obtain ⟨hseated, hne⟩ := hin.mem_AIs (hin.AIs ▸ hturn.isAI)
  have hname : (s.world.player p).name ≠ s.world.username := by
    rw [← hin.name_user]
    exact fun hsame =>
      hne (List.inj_on_of_nodup_map hnames hseated hin.user_seated hsame)
  have hnone : ∀ q, ¬ Victim s.world p .steal q := by
    intro q hq
    have hqp : q ≠ p := by
      rintro rfl
      exact hq.other rfl
    have hlow := hbroke q hq.seated hqp hq.active
    have hrich := hq.pays rfl
    omega
  have hspins := chooseTarget_spins hin.ne_nil rfl hnone (i.ai.seats ++ seats)
  have hget : getPlayerMove s.world p (i.goOn seats shuffle reshuffle).ai =
      .error .spinning := by
    simp only [getPlayerMove, hai, TurnInput.goOn, hpick, bind_ok, hspins]
    rfl
  simp only [iterate, selectMove, hturn.current, orFault, bind_ok,
    hturn.active, takeMove, if_neg hname, hget]
  rfl

/-- Any other iteration that has begun can be brought to its end. -/
theorem iterate_finishes (i : TurnInput)
    (hin : InPlay (createdCards base) w user AIs s)
    (hmove : s.vc.didPlayerMove = true → Pressed s)
    (hnames : DistinctNames s.world) (hgoing : ¬ GameOver s)
    (hrob : ¬ RobsNobody s i.ai) :
    ∃ seats shuffle reshuffle r,
      iterate s (i.goOn seats shuffle reshuffle) = .ok r := by
  obtain ⟨seats, ⟨s₁, p, selection⟩, hselect⟩ :=
    completes_selectMove i.ai hin hnames hgoing hrob i.ai.seats
  rcases selectMove_cases hselect with
    ⟨rfl, -⟩ | ⟨rfl, -⟩ | ⟨m, rfl, hcurrent, -, hchosen⟩
  · exact ⟨seats, [], [], _, bind_eq_ok.mpr ⟨_, hselect, rfl⟩⟩
  · exact ⟨seats, [], [], _, bind_eq_ok.mpr ⟨_, hselect, rfl⟩⟩
  · have hp : p ∈ s.world.players := List.mem_of_getElem? hcurrent
    have htable : SameTable s.world (logMove s₁ m).world :=
      ((hchosen.quiet (hin.ai_isSome hp) hp).evolves.table).trans
        (.logMove s₁ m)
    have hshows := hchosen.logged_shows hin hp
    have hready := hchosen.ready hin hmove hcurrent
    obtain ⟨shuffle, reshuffle, s₂, hplayed⟩ := playMove_finishes
      (hshows.stocked_three (hin.room htable.players)) hready
      (htable.distinctNames hnames) (by simp [logMove]) i seats
    have hsame := (playMove_spec hshows hready hplayed).1.table.players
    obtain ⟨s₃, hended⟩ : ∃ s₃, endTurn s₂ = .ok s₃ := by
      refine (avoids_endTurn ?_).succeeds ?_
      · rw [hsame, htable.players]
        exact hin.ne_nil
      · have hover : Faults .trap (isGameOver s₂) :=
          .ite (fun _ => (faults_orFault _).bind fun _ _ => faults_ok _)
            fun _ => faults_ok _
        exact hover.bind fun _ _ => faults_ok _
    refine ⟨seats, shuffle, reshuffle, (s₃, .next),
      bind_eq_ok.mpr ⟨_, hselect, bind_eq_ok.mpr ⟨s₂, hplayed, ?_⟩⟩⟩
    exact bind_eq_ok.mpr ⟨s₃, hended, rfl⟩

theorem Running.exists_iterate {y : Session}
    (h : Running (createdCards base) w user AIs y)
    (hnames : DistinctNames w) (hgoing : ¬ GameOver y.game)
    (hlooping : y.thread = .looping) (hon : y.game.vc.gameOn = true)
    (i : TurnInput) (hrob : ¬ RobsNobody y.game i.ai) :
    ∃ seats shuffle reshuffle y',
      stepSession y (.iterate (i.goOn seats shuffle reshuffle)) = .ok y' := by
  obtain ⟨seats, shuffle, reshuffle, ⟨s, exit⟩, hiterate⟩ :=
    iterate_finishes i h.inPlay h.phase.pressed
      (h.inPlay.table.distinctNames hnames) hgoing hrob
  refine ⟨seats, shuffle, reshuffle, ?_⟩
  rw [stepSession, if_pos ⟨hlooping, hon⟩, hiterate, bind_ok]
  cases exit <;> exact ⟨_, rfl⟩

end Turn

/-- In every game that is going on, whoever objects, whatever the user answers
(each dialog once, when it is waited for) and whatever has been drawn, more
draws bring the turn that begins to its end, unless an AI has picked a steal
when nobody else in the game can pay. -/
theorem turn_finishes_iff {w : World} {user : PlayerRef}
    {AIs : List PlayerRef} {base : CardRef} {shuffling dealing : List ℕ}
    {y₀ y : Session} {es : List Event} (hlobby : Lobby w user AIs)
    (hnames : DistinctNames w)
    (hopen : openSession w base shuffling dealing = .ok y₀)
    (hrun : run stepSession y₀ es = .ok y) (hlooping : y.thread = .looping)
    (hon : y.game.vc.gameOn = true) (i : TurnInput) :
    (∃ seats shuffle reshuffle y',
        stepSession y (.iterate (i.goOn seats shuffle reshuffle)) = .ok y') ↔
      ¬ RobsNobody y.game i.ai := by
  have hrunning := Running.of_run hlobby hopen hrun
  have hin := hrunning.inPlay
  have hnames' : DistinctNames y.game.world := hin.table.distinctNames hnames
  have hgoing := going_of_run hlobby hopen hrun hon
  constructor
  · rintro ⟨seats, shuffle, reshuffle, y', hstep⟩ hrob
    obtain ⟨-, -, exit, hiterate⟩ := stepSession_iterate hstep
    rw [hrob.spins i hin hnames'] at hiterate
    cases hiterate
  · exact hrunning.exists_iterate hnames hgoing hlooping hon i

/-- With the pick `40` Ed Sheeran robs nobody, with the pick `0` he takes
income. -/
theorem turn_finishes_iff_robbedUser :
    ∃ y₀ y, openSession (lobbyOf "user" ["Charlie Puth", "Ed Sheeran"] []) 0
        (List.range 15) [1, 0, 0, 0, 3] = .ok y₀ ∧
      run stepSession y₀ robbedUser = .ok y ∧
      (∃ seats shuffle reshuffle y', stepSession y (.iterate
        ((scriptedTurn .allow .greatest 0 [] []).goOn seats shuffle
          reshuffle)) = .ok y') ∧
      ¬ ∃ seats shuffle reshuffle y', stepSession y (.iterate
        ((scriptedTurn .allow .greatest 40 [] []).goOn seats shuffle
          reshuffle)) = .ok y' := by
  have hlast : lastStep stepSession
      (openSession (lobbyOf "user" ["Charlie Puth", "Ed Sheeran"] []) 0
        (List.range 15) [1, 0, 0, 0, 3]) robbedUser .endGame
      (fun y _ => decide (
        y.thread = .looping ∧ y.game.vc.gameOn = true ∧ AITurn y.game 2 ∧
        ([0, 40].map fun pick => (y.game.world.player 2).ai.bind fun ai =>
          (pickMoveName (y.game.world.seat 2)
            (changeMoveRate (y.game.world.seat 2) y.game.world.table
              ai.moveRateDic) .literal pick).toOption) =
          [some .income, some .steal] ∧
        ∀ q ∈ y.game.world.players, q ≠ 2 →
          y.game.world.isPlayerRevealed q = false →
            (y.game.world.player q).coins < 2)) = true := by
    decide +kernel
  obtain ⟨y₀, y, -, hopen, hrun, -, hP⟩ := exists_of_lastStep hlast
  obtain ⟨hlooping, hon, hturn, hpicks, hbroke⟩ := of_decide_eq_true hP
  simp only [List.map_cons, List.map_nil, List.cons.injEq, and_true] at hpicks
  obtain ⟨hincome, hsteal⟩ := hpicks
  have hfinishes := turn_finishes_iff
    (lobbyOf_two "user" "Charlie Puth" "Ed Sheeran")
    (lobbyOf_distinctNames [] (by decide)) hopen hrun hlooping hon
  refine ⟨y₀, y, hopen, hrun, (hfinishes _).mpr ?_,
    mt (hfinishes _).mp (not_not.mpr ?_)⟩
  · rintro ⟨p, ai, hturn', hai, hpick, -⟩
    obtain rfl : 2 = p :=
      Option.some.inj (hturn.current.symm.trans hturn'.current)
    simp only [hai, Option.bind_some] at hincome
    have hpick' := toOption_eq_some.mp hincome
    cases hpick.symm.trans hpick'
  · obtain ⟨ai, hai, hpick⟩ := Option.bind_eq_some_iff.mp hsteal
    exact ⟨2, ai, hturn, hai, toOption_eq_some.mp hpick, hbroke⟩

end Coup
