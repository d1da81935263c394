import Coup.Game.Progress
import Coup.Game.TurnOrder
import Coup.Rules.Replay

/-!
# Every game can be finished

From every state between two iterations of a game that is going on, some
continuation comes to a verdict.  The loop is entered again with the press that
is still waiting, or with a new one; then everybody takes income, and an AI with
seven coins coups.  What is missing until then is measured by the influences
that are left and by the coins that the AIs still need for a coup.
-/

namespace Coup

open Coup.Support

/-! ## The distance to a verdict -/

namespace Board

variable {P : Type*} [DecidableEq P] (b : Board P) {seats savers : Finset P}
  {p q : P}

/-- The influences that are left, and the coins that the savers need until
they can pay for a coup. -/
def distance (b : Board P) (seats savers : Finset P) : ℕ :=
  8 * b.totalInfluence seats + ∑ q ∈ savers, (7 - b.coins q).toNat

omit [DecidableEq P] in
theorem distance_congr {b b' : Board P} (hsub : savers ⊆ seats)
    (hface : ∀ q ∈ seats, b'.face q = b.face q)
    (hcoins : ∀ q ∈ seats, b'.coins q = b.coins q) :
    b'.distance seats savers = b.distance seats savers := by
  have hinfluence : b'.totalInfluence seats = b.totalInfluence seats :=
    Finset.sum_congr rfl fun q hq => influence_congr q (congrFun (hface q hq))
  rw [distance, distance, hinfluence]
  congr 1
  exact Finset.sum_congr rfl fun q hq => by rw [hcoins q (hsub hq)]

theorem totalInfluence_income :
    (b.act .income p p).totalInfluence seats = b.totalInfluence seats := rfl

/-- The income of a saver who is still short of coins. -/
theorem distance_income_lt (hp : p ∈ savers) (hpoor : b.coins p < 7) :
    (b.act .income p p).distance seats savers < b.distance seats savers := by
  have hle : ∀ q ∈ savers, (7 - (b.act .income p p).coins q).toNat ≤
      (7 - b.coins q).toNat := by
    intro q _
    rw [act_coins, coinEffect]
    split <;> omega
  have hlt : (7 - (b.act .income p p).coins p).toNat <
      (7 - b.coins p).toNat := by
    rw [act_coins, coinEffect, if_pos rfl]
    omega
  have hsum := Finset.sum_lt_sum hle ⟨p, hp, hlt⟩
  rw [distance, distance, totalInfluence_income]
  omega

/-- The income of anybody else. -/
theorem distance_income_of_notMem (hp : p ∉ savers) :
    (b.act .income p p).distance seats savers = b.distance seats savers := by
  rw [distance, distance, totalInfluence_income]
  congr 1
  refine Finset.sum_congr rfl fun q hq => ?_
  have hne : q ≠ p := by
    rintro rfl
    exact hp hq
  rw [act_coins, coinEffect, if_neg hne, add_zero]

/-- A coup costs an influence, and at most seven coins to save up again. -/
theorem distance_coup_lt (hq : q ∈ seats) (hin : ¬ b.Out q)
    (hrich : 7 ≤ b.coins p) :
    (b.act .coup p q).distance seats savers < b.distance seats savers := by
  have hless : (b.act .coup p q).totalInfluence seats <
      b.totalInfluence seats := by
    refine Finset.sum_lt_sum (fun r _ => ?_) ⟨q, hq, ?_⟩
    · rw [act_influence]
      omega
    · have hpos := influence_pos hin
      rw [act_influence, if_pos ⟨rfl, rfl⟩]
      omega
  have hmore : ∀ r ∈ savers, (7 - (b.act .coup p q).coins r).toNat ≤
      (7 - b.coins r).toNat + if r = p then 7 else 0 := by
    intro r _
    rw [act_coins, coinEffect]
    by_cases hr : r = p
    · subst hr
      simp only [if_true]
      omega
    · simp [hr]
  have hsum := Finset.sum_le_sum hmore
  have hseven : ∑ r ∈ savers, (if r = p then 7 else 0) ≤ 7 := by
    rw [Finset.sum_ite_eq']
    split <;> omega
  rw [Finset.sum_add_distrib] at hsum
  rw [distance, distance]
  omega

end Board

/-! ## The loop is never left for good -/

/-- Where a session stands whose game is going on. -/
inductive Stage (y : Session) : Prop
  | looping (hthread : y.thread = .looping)
  | queued (hthread : y.thread = .idle) (hpending : y.pending = 1)
  | leaving (hthread : y.thread = .leaving) (hpending : y.pending = 1)
  | asked (hthread : y.thread ≠ .looping) (hpending : y.pending = 0)
      (hbuttons : y.blocks = 1 ∨ y.game.vc.buttons.income = true)

section Stage

variable {created : List CardRef} {w : World} {user : PlayerRef}
  {AIs : List PlayerRef} {y y' : Session} {e : Event}

theorem Stage.step (hrunning : Running created w user AIs y)
    (h : y.game.vc.gameOn = true → Stage y)
    (hstep : stepSession y e = .ok y') (hon : y'.game.vc.gameOn = true) :
    Stage y' := by
  cases stepSession_spec hstep with
  | start => exact .looping rfl
  | skip _ hlooping | turn _ _ _ _ _ _ hlooping => exact .looping hlooping
  | prompt i hlooping =>
      obtain ⟨hpending, hblocks, -⟩ := hrunning.phase.looping hlooping
      exact .asked (by simp) hpending (Or.inl (by simp [hblocks]))
  | finish hlooping hoff =>
      rw [hoff] at hon
      cases hon
  | wake hleaving =>
      cases h hon with
      | looping hthread | queued hthread =>
          rw [hleaving] at hthread
          cases hthread
      | leaving _ hpending => exact .queued rfl hpending
      | asked _ hpending hbuttons => exact .asked (by simp) hpending hbuttons
  | deliver =>
      cases h hon with
      | looping hthread => exact .looping hthread
      | queued hthread hpending => exact .queued hthread hpending
      | leaving hthread hpending => exact .leaving hthread hpending
      | asked hthread hpending => exact .asked hthread hpending (Or.inr rfl)
  | press q caller s henabled =>
      obtain ⟨hthread, hpending, -⟩ := hrunning.phase.enabled henabled
      cases hy : y.thread with
      | idle => exact .queued rfl (by simp [hpending])
      | leaving => exact .leaving rfl (by simp [hpending])
      | looping => exact absurd hy hthread
  | endGame => cases hon

/-- A session whose game is going on, between two events. -/
structure Going (created : List CardRef) (w : World) (user : PlayerRef)
    (AIs : List PlayerRef) (y : Session) : Prop where
  running : Running created w user AIs y
  on : y.game.vc.gameOn = true
  going : ¬ GameOver y.game
  stage : Stage y

/-- The loop has stopped because the game is over. -/
structure Verdict (y : Session) : Prop where
  off : y.game.vc.gameOn = false
  decided : GameOver y.game

/-- The kind of events that finish a game: anything but the End Game button. -/
def PlaysOn (e : Event) : Prop := e ≠ .endGame

theorem Going.step (h : Going created w user AIs y)
    (hstep : stepSession y e = .ok y') (hon : y'.game.vc.gameOn = true) :
    Going created w user AIs y' where
  running := h.running.step hstep
  on := hon
  going := h.running.going_step hstep (fun _ => h.going) hon
  stage := Stage.step h.running (fun _ => h.stage) hstep hon

theorem Going.of_run {base : CardRef} {shuffling dealing : List ℕ}
    {y₀ : Session} {es : List Event} (hlobby : Lobby w user AIs)
    (hopen : openSession w base shuffling dealing = .ok y₀)
    (hrun : run stepSession y₀ es = .ok y) (hon : y.game.vc.gameOn = true) :
    Going (createdCards base) (w.createCards base) user AIs y := by
  have hstart := (openSession_spec hlobby hopen).1
  have hqueued : Stage y₀ := by
    obtain ⟨s, -, h⟩ := bind_eq_ok.mp hopen
    cases h
    exact .queued rfl rfl
  have hinvariant : Running (createdCards base) (w.createCards base) user AIs
      y ∧ (y.game.vc.gameOn = true → Stage y) := by
    refine run_invariant (I := fun y =>
      Running (createdCards base) (w.createCards base) user AIs y ∧
        (y.game.vc.gameOn = true → Stage y)) ?_ hrun ⟨hstart, fun _ => hqueued⟩
    rintro y e y' ⟨hrunning, hstage⟩ hstep
    exact ⟨hrunning.step hstep, Stage.step hrunning hstage hstep⟩
  exact ⟨hinvariant.1, hon, going_of_run hlobby hopen hrun hon,
    hinvariant.2 hon⟩

end Stage

/-! ## Entering the loop -/

section Enter

variable {created : List CardRef} {w : World} {user : PlayerRef}
  {AIs : List PlayerRef} {y y' : Session}

/-- A submitted work item starts the loop with the same game. -/
theorem enter_queued (h : Going created w user AIs y)
    (hthread : y.thread = .idle) (hpending : y.pending = 1) :
    ∃ y', Leads stepSession PlaysOn y y' ∧ Going created w user AIs y' ∧
      y'.thread = .looping ∧ y'.game = y.game := by
  have hstep : stepSession y .start =
      .ok { y with thread := .looping, pending := y.pending - 1 } := by
    rw [stepSession, if_pos ⟨hthread, by omega⟩]
  exact ⟨_, leads_single (by simp [PlaysOn]) hstep, h.step hstep h.on, rfl,
    rfl⟩

/-- The thread that is still leaving the loop comes back to it. -/
theorem enter_leaving (h : Going created w user AIs y)
    (hthread : y.thread = .leaving) (hpending : y.pending = 1) :
    ∃ y', Leads stepSession PlaysOn y y' ∧ Going created w user AIs y' ∧
      y'.thread = .looping ∧ y'.game = y.game := by
  have hstep : stepSession y .wake = .ok { y with thread := .idle } := by
    rw [stepSession, if_pos hthread]
  obtain ⟨y', hleads, hgoing, hlooping, hgame⟩ :=
    enter_queued (h.step hstep h.on) rfl hpending
  exact ⟨y', (leads_single (by simp [PlaysOn]) hstep).trans hleads, hgoing,
    hlooping, hgame⟩

/-- The user presses the button that is enabled. -/
theorem enter_enabled (h : Going created w user AIs y)
    (hbutton : y.game.vc.buttons.income = true) :
    ∃ y' p, Leads stepSession PlaysOn y y' ∧ Going created w user AIs y' ∧
      y'.thread = .looping ∧ UserTurn y.game p ∧
      Submits y.game (Press.income.move p) y'.game := by
  obtain ⟨hthread, hpending, -, -, p, huser⟩ :=
    h.running.phase.enabled (q := .income) hbutton
  obtain ⟨s, hpress⟩ : ∃ s, pressButton y.game .income = .ok s := by
    rw [pressButton, incomeBtnPressed, guardPress, if_pos hbutton, submitMove,
      huser.current]
    exact ⟨_, rfl⟩
  obtain ⟨-, -, caller, hcaller, hsubmits⟩ := pressButton_spec hpress
  obtain rfl := huser.unique hcaller
  have hstep : stepSession y (.press .income) =
      .ok { y with game := s, pending := y.pending + 1 } := by
    rw [stepSession, hpress]
    rfl
  have hon : s.vc.gameOn = true := by
    rw [hsubmits.vc]
    exact h.on
  have hgoing := h.step hstep hon
  have hleads : Leads stepSession PlaysOn y _ :=
    leads_single (by simp [PlaysOn]) hstep
  have hone : y.pending + 1 = 1 := by omega
  cases hy : y.thread with
  | looping => exact absurd hy hthread
  | idle =>
      obtain ⟨y', hleads', hgoing', hlooping, hgame⟩ :=
        enter_queued hgoing hy hone
      exact ⟨y', p, hleads.trans hleads', hgoing', hlooping, huser,
        hgame ▸ hsubmits⟩
  | leaving =>
      obtain ⟨y', hleads', hgoing', hlooping, hgame⟩ :=
        enter_leaving hgoing hy hone
      exact ⟨y', p, hleads.trans hleads', hgoing', hlooping, huser,
        hgame ▸ hsubmits⟩

/-- The main queue enables the buttons first if it has not done so. -/
theorem enter_asked (h : Going created w user AIs y)
    (hbuttons : y.blocks = 1 ∨ y.game.vc.buttons.income = true) :
    ∃ y' p, Leads stepSession PlaysOn y y' ∧ Going created w user AIs y' ∧
      y'.thread = .looping ∧ UserTurn y.game p ∧
      y'.game.world = y.game.world ∧ y'.game.vc.turnInd = y.game.vc.turnInd ∧
      y'.game.vc.didPlayerMove = true ∧
      y'.game.vc.playerMove = Press.income.move p := by
  rcases hbuttons with hblocks | hbutton
  · have hstep : stepSession y .deliver = .ok { y with
        game := enableButtons y.game, blocks := y.blocks - 1 } := by
      rw [stepSession, if_pos (by omega)]
    obtain ⟨y', p, hleads, hgoing, hlooping, huser, hsubmits⟩ :=
      enter_enabled (h.step hstep h.on) rfl
    refine ⟨y', p, (leads_single (by simp [PlaysOn]) hstep).trans hleads,
      hgoing, hlooping, ⟨huser.current, huser.active, huser.name⟩,
      hsubmits.world, ?_, ?_, ?_⟩ <;> rw [hsubmits.vc]
    rfl
  · obtain ⟨y', p, hleads, hgoing, hlooping, huser, hsubmits⟩ :=
      enter_enabled h hbutton
    refine ⟨y', p, hleads, hgoing, hlooping, huser, hsubmits.world, ?_, ?_,
      ?_⟩ <;> rw [hsubmits.vc]

end Enter

/-! ## One turn -/

section Turn

variable {base : CardRef} {w : World} {user : PlayerRef}
  {AIs : List PlayerRef} {y y' : Session} {s s₁ s₂ s' : State}
  {i : TurnInput} {p q : PlayerRef} {m : Move}

/-- An iteration in which nobody challenges and an AI draws the smallest
pick. -/
def smallestPick : TurnInput := scriptedTurn .allow .greatest 0 [] []

/-- The loop runs, and no press is waiting. -/
structure Calm (created : List CardRef) (w : World) (user : PlayerRef)
    (AIs : List PlayerRef) (y : Session) : Prop where
  going : Going created w user AIs y
  looping : y.thread = .looping
  unpressed : y.game.vc.didPlayerMove = false

/-- A turn comes to a verdict or leaves nothing behind. -/
theorem Going.turn {created : List CardRef}
    (h : Going created w user AIs y) (hlooping : y.thread = .looping)
    (hturn : TakesTurn y.game i p m s₁ s₂ s)
    (hstep : stepSession y (.iterate i) = .ok { y with game := s }) :
    Verdict { y with game := s } ∨
      Calm created w user AIs { y with game := s } := by
  have hin := h.running.inPlay
  have hpressed := h.running.phase.pressed
  rcases hturn.verdict hin hpressed with ⟨hyes, hoff, -⟩ | ⟨-, hkeep⟩
  · exact Or.inl ⟨hoff, hyes⟩
  · have hpasses := (hturn.spec hin hpressed).1
    exact Or.inr ⟨h.step hstep (hkeep.trans h.on), hlooping,
      hpasses.didPlayerMove⟩

/-- A move that nobody can challenge has its effect. -/
theorem TakesTurn.unopposed {created : List CardRef}
    (hin : InPlay created w user AIs s)
    (hmove : s.vc.didPlayerMove = true → Pressed s)
    (h : TakesTurn s i p m s₁ s₂ s') (hfree : challengeable m.name = false) :
    Shows created s' [] (s.world.board.act m.name m.caller m.target) := by
  obtain ⟨-, o, hmeets, -, hshows⟩ := h.spec hin hmove
  cases hmeets with
  | none => exact hshows
  | some s' o hopen =>
      rw [hfree] at hopen
      cases hopen

/-- In a seat of the user an iteration asks, or it plays what was pressed. -/
theorem UserTurn.iterates (huser : UserTurn y.game p)
    (h : Going (createdCards base) w user AIs y) (hnames : DistinctNames w)
    (hlooping : y.thread = .looping) :
    ∃ i y', stepSession y (.iterate i) = .ok y' ∧
      ((y.game.vc.didPlayerMove = false ∧
          y' = { y with thread := .leaving, blocks := y.blocks + 1 }) ∨
        (y.game.vc.didPlayerMove = true ∧ ∃ s₁ s₂ s,
          TakesTurn y.game i p y.game.vc.playerMove s₁ s₂ s ∧
          y' = { y with game := s })) := by
  have hin := h.running.inPlay
  have hrob : ¬ RobsNobody y.game smallestPick.ai := by
    rintro ⟨q, -, hturn, -⟩
    obtain rfl := huser.unique hturn.current
    rw [huser.eq_user hin hnames] at hturn
    exact (hin.mem_AIs (hin.AIs ▸ hturn.isAI)).2 rfl
  obtain ⟨seats, shuffle, reshuffle, y', hstep⟩ :=
    h.running.exists_iterate hnames h.going hlooping h.on _ hrob
  refine ⟨_, y', hstep, ?_⟩
  cases stepSession_spec hstep with
  | skip _ _ _ hout =>
      obtain ⟨q, hq, hrevealed⟩ := hout
      obtain rfl := huser.unique hq
      rw [huser.active] at hrevealed
      cases hrevealed
  | prompt _ _ _ hprompt => exact Or.inl ⟨hprompt.1, rfl⟩
  | turn _ q m s₁ s₂ s _ _ hturn =>
      obtain ⟨hcurrent, -, hchosen⟩ := hturn.chosen
      obtain rfl := huser.unique hcurrent
      cases hchosen with
      | user _ hpressed hmove _ =>
          subst hmove
          exact Or.inr ⟨hpressed, s₁, s₂, s, hturn, rfl⟩
      | ai _ hname => exact absurd huser.name hname

/-- The loop is entered, and the press that was waiting is played. -/
theorem Going.settles (h : Going (createdCards base) w user AIs y)
    (hnames : DistinctNames w) :
    ∃ y', Leads stepSession PlaysOn y y' ∧
      (Verdict y' ∨ Calm (createdCards base) w user AIs y') := by
  obtain ⟨y₁, hleads, h₁, hlooping⟩ : ∃ y₁, Leads stepSession PlaysOn y y₁ ∧
      Going (createdCards base) w user AIs y₁ ∧ y₁.thread = .looping := by
    cases h.stage with
    | looping hthread => exact ⟨y, .refl y, h, hthread⟩
    | queued hthread hpending =>
        obtain ⟨y₁, hleads, h₁, hlooping, -⟩ :=
          enter_queued h hthread hpending
        exact ⟨y₁, hleads, h₁, hlooping⟩
    | leaving hthread hpending =>
        obtain ⟨y₁, hleads, h₁, hlooping, -⟩ :=
          enter_leaving h hthread hpending
        exact ⟨y₁, hleads, h₁, hlooping⟩
    | asked _ _ hbuttons =>
        obtain ⟨y₁, -, hleads, h₁, hlooping, -⟩ := enter_asked h hbuttons
        exact ⟨y₁, hleads, h₁, hlooping⟩
  cases hmove : y₁.game.vc.didPlayerMove with
  | false => exact ⟨y₁, hleads, Or.inr ⟨h₁, hlooping, hmove⟩⟩
  | true =>
      obtain ⟨-, p, huser, -⟩ := h₁.running.phase.pressed hmove
      obtain ⟨i, y₂, hstep, ⟨hnone, -⟩ | ⟨-, s₁, s₂, s, hturn, rfl⟩⟩ :=
        huser.iterates h₁ hnames hlooping
      · rw [hmove] at hnone
        cases hnone
      · exact ⟨_, hleads.trans (leads_single (by simp [PlaysOn]) hstep),
          h₁.turn hlooping hturn hstep⟩

/-- What is missing until the verdict. -/
def Session.distance (y : Session) (AIs : List PlayerRef) : ℕ :=
  y.game.world.board.distance y.game.world.players.toFinset AIs.toFinset

/-- An unopposed turn moves the distance as its move does. -/
theorem TakesTurn.distance {created : List CardRef} {y : Session}
    (hin : InPlay created w user AIs y.game)
    (hmove : y.game.vc.didPlayerMove = true → Pressed y.game)
    (h : TakesTurn y.game i p m s₁ s₂ s)
    (hfree : challengeable m.name = false) :
    Session.distance { y with game := s } AIs =
      (y.game.world.board.act m.name m.caller m.target).distance
        y.game.world.players.toFinset AIs.toFinset := by
  have hshows := h.unopposed hin hmove hfree
  have hplayers := (h.spec hin hmove).1.table.players
  rw [Session.distance, hplayers]
  apply Board.distance_congr
  · intro q hq
    rw [List.mem_toFinset] at hq ⊢
    exact (hin.mem_AIs hq).1
  · intro q hq
    rw [List.mem_toFinset, ← hplayers] at hq
    exact hshows.face hq
  · intro q hq
    rw [List.mem_toFinset, ← hplayers] at hq
    exact hshows.coins hq

/-- The smallest pick is income, unless the AI has to coup. -/
theorem pickMoveName_zero (self : Seat) (players : List Seat)
    (dic : MoveName → ℤ) (order : DictOrder) :
    pickMoveName self (changeMoveRate self players dic) order 0 =
      .ok (if 7 ≤ self.coins then .coup else .income) := by
  have hnonneg : ∀ k ∈ order.keys, 0 ≤ changeMoveRate self players dic k :=
    fun k hk => changeMoveRate_nonneg _ _ _ (order.mem_keys.mp hk)
  rw [pickMoveName_eq_ok]
  refine ⟨rateTotal_nonneg order fun k hk => changeMoveRate_nonneg _ _ _ hk, ?_⟩
  rw [Nat.cast_zero, Int.zero_emod, select_of_le hnonneg le_rfl]

/-- The move with the smallest pick takes income or an influence. -/
theorem hunt_move {x : AIInput} {w' : World}
    (hin : InPlay (createdCards base) w user AIs s) (hp : p ∈ AIs)
    (hname : (s.world.player p).name ≠ s.world.username)
    (hpick : x.pick = 0) (h : getPlayerMove s.world p x = .ok (m, w')) :
    m = ⟨.income, p, p⟩ ∧ (s.world.player p).coins < 7 ∨
      m.name = .coup ∧ m.caller = p ∧ m.target ∈ s.world.players ∧
        s.world.isPlayerRevealed m.target = false ∧
        7 ≤ (s.world.player p).coins := by
  have hseated := (hin.mem_AIs hp).1
  obtain ⟨ai, name, -, hname', hm, -⟩ :=
    getPlayerMove_cases (hin.ai_isSome hseated hname) h
  rw [hpick, pickMoveName_zero] at hname'
  cases hname'
  by_cases hrich : 7 ≤ (s.world.seat p).coins
  · rw [if_pos hrich] at hm
    obtain ⟨hcoup, hcaller, htarget, -, hother, -⟩ :=
      chooseTarget_spec hseated rfl hm
    exact Or.inr ⟨hcoup, hcaller, htarget, (hother rfl).2, hrich⟩
  · rw [if_neg hrich] at hm
    cases hm
    exact Or.inl ⟨rfl, not_le.mp hrich⟩

/-- A turn of an AI brings the game nearer to its end. -/
theorem Calm.hunts (h : Calm (createdCards base) w user AIs y)
    (hnames : DistinctNames w) (hturn : AITurn y.game p) :
    ∃ y', Leads stepSession PlaysOn y y' ∧ (Verdict y' ∨
      Calm (createdCards base) w user AIs y' ∧
        y'.distance AIs < y.distance AIs) := by
  have hrunning := h.going.running
  have hin := hrunning.inPlay
  have hp : p ∈ AIs := hin.AIs ▸ hturn.isAI
  obtain ⟨hseated, hne⟩ := hin.mem_AIs hp
  have hname : (y.game.world.player p).name ≠ y.game.world.username := by
    rw [← hin.name_user]
    exact fun hsame => hne (hin.eq_of_name hnames hseated hin.user_seated hsame)
  have hrob : ¬ RobsNobody y.game smallestPick.ai := by
    rintro ⟨q, ai, -, -, hpick, -⟩
    rw [show smallestPick.ai.pick = 0 from rfl, pickMoveName_zero] at hpick
    split at hpick <;> cases hpick
  obtain ⟨seats, shuffle, reshuffle, y', hstep⟩ :=
    hrunning.exists_iterate hnames h.going.going h.looping h.going.on _ hrob
  refine ⟨y', leads_single (by simp [PlaysOn]) hstep, ?_⟩
  cases stepSession_spec hstep with
  | skip _ _ _ hout =>
      obtain ⟨q, hq, hrevealed⟩ := hout
      obtain rfl := Option.some.inj (hturn.current.symm.trans hq)
      rw [hturn.active] at hrevealed
      cases hrevealed
  | prompt _ _ _ hprompt =>
      obtain ⟨-, q, huser⟩ := hprompt
      obtain rfl := huser.unique hturn.current
      exact absurd huser.name hname
  | turn _ q m s₁ s₂ s _ _ htakes =>
      obtain ⟨hcurrent, -, hchosen⟩ := htakes.chosen
      obtain rfl := Option.some.inj (hturn.current.symm.trans hcurrent)
      refine (h.going.turn h.looping htakes hstep).imp id fun hcalm =>
        ⟨hcalm, ?_⟩
      cases hchosen with
      | user hname' => exact absurd hname' hname
      | ai w' _ hmove _ =>
          rcases hunt_move hin hp hname rfl hmove with
            ⟨rfl, hpoor⟩ | ⟨hcoup, hcaller, htarget, hactive, hrich⟩
          · rw [htakes.distance hin hrunning.phase.pressed rfl]
            exact Board.distance_income_lt _ (List.mem_toFinset.mpr hp) hpoor
          · rw [htakes.distance hin hrunning.phase.pressed (by rw [hcoup]; rfl),
              hcoup, hcaller]
            exact Board.distance_coup_lt _ (List.mem_toFinset.mpr htarget)
              ((World.not_out_board _ _).mpr hactive) hrich

/-- What the turns of the others leave as it is. -/
structure Strolls (AIs : List PlayerRef) (y y' : Session) : Prop where
  face : ∀ q ∈ y.game.world.players,
    y'.game.world.isPlayerRevealed q = y.game.world.isPlayerRevealed q
  turnInd : y'.game.vc.turnInd = (incrementInd y.game).vc.turnInd
  distance : y'.distance AIs = y.distance AIs

theorem Calm.skips (h : Calm (createdCards base) w user AIs y)
    (hnames : DistinctNames w) (hout : SeatOut y.game) :
    ∃ y', Leads stepSession PlaysOn y y' ∧
      Calm (createdCards base) w user AIs y' ∧ Strolls AIs y y' := by
  obtain ⟨p, hp, hrevealed⟩ := hout
  have hactive {q : PlayerRef}
      (hq : y.game.world.players[y.game.vc.turnInd]? = some q)
      (hdown : y.game.world.isPlayerRevealed q = false) : False := by
    obtain rfl := Option.some.inj (hp.symm.trans hq)
    rw [hdown] at hrevealed
    cases hrevealed
  have hrob : ¬ RobsNobody y.game smallestPick.ai := by
    rintro ⟨q, -, hturn, -⟩
    exact hactive hturn.current hturn.active
  obtain ⟨seats, shuffle, reshuffle, y', hstep⟩ :=
    h.going.running.exists_iterate hnames h.going.going h.looping h.going.on _
      hrob
  refine ⟨y', leads_single (by simp [PlaysOn]) hstep, ?_⟩
  cases stepSession_spec hstep with
  | skip =>
      exact ⟨⟨h.going.step hstep h.going.on, h.looping, h.unpressed⟩,
        fun _ _ => rfl, rfl, rfl⟩
  | prompt _ _ _ hprompt =>
      obtain ⟨-, q, huser⟩ := hprompt
      exact (hactive huser.current huser.active).elim
  | turn _ q m s₁ s₂ s _ _ htakes =>
      exact (hactive htakes.chosen.1 htakes.active).elim

/-- The user is asked and takes income. -/
theorem Calm.asks (h : Calm (createdCards base) w user AIs y)
    (hnames : DistinctNames w) (huser : UserTurn y.game p) :
    ∃ y', Leads stepSession PlaysOn y y' ∧ (Verdict y' ∨
      Calm (createdCards base) w user AIs y' ∧ Strolls AIs y y') := by
  have hasked := huser.iterates h.going hnames h.looping
  rw [h.unpressed] at hasked
  obtain ⟨i, y₁, hstep, ⟨-, rfl⟩ | ⟨hpressed, -⟩⟩ := hasked
  · have h₁ := h.going.step hstep h.going.on
    have hblocks : y.blocks + 1 = 1 := by
      rw [(h.going.running.phase.looping h.looping).2.1]
    obtain ⟨y₂, p', hleads, h₂, hlooping, huser', hworld, hind, hpressed,
      hmove⟩ := enter_asked h₁ (Or.inl hblocks)
    obtain rfl := huser.unique huser'.current
    have hturn : UserTurn y₂.game p := by
      refine ⟨?_, ?_, ?_⟩ <;> rw [hworld]
      · rw [hind]
        exact huser.current
      · exact huser.active
      · exact huser.name
    obtain ⟨i₂, y₃, hstep₂, ⟨hnone, -⟩ | ⟨-, s₁, s₂, s, htakes, rfl⟩⟩ :=
      hturn.iterates h₂ hnames hlooping
    · rw [hpressed] at hnone
      cases hnone
    rw [hmove] at htakes
    have hin₂ := h₂.running.inPlay
    have hphase₂ := h₂.running.phase.pressed
    have hpasses := (htakes.spec hin₂ hphase₂).1
    refine ⟨_, ((leads_single (by simp [PlaysOn]) hstep).trans hleads).trans
      (leads_single (by simp [PlaysOn]) hstep₂), ?_⟩
    refine (h₂.turn hlooping htakes hstep₂).imp id fun hcalm => ⟨hcalm, ?_⟩
    refine ⟨fun q hq => ?_, ?_, ?_⟩
    · have hq' : q ∈ s.world.players := by
        rw [hpasses.table.players, hworld]
        exact hq
      rw [Bool.eq_iff_iff, ← World.out_board, ← World.out_board, Board.Out,
        (htakes.unopposed hin₂ hphase₂ rfl).influence hq', hworld]
      rfl
    · rw [hpasses.turnInd]
      simp only [incrementInd, hworld, hind]
    · rw [htakes.distance hin₂ hphase₂ rfl]
      have hne : p ∉ AIs.toFinset := by
        rw [List.mem_toFinset, huser.eq_user h.going.running.inPlay hnames]
        exact fun hmem =>
          (h.going.running.inPlay.mem_AIs hmem).2 rfl
      rw [show (Press.income.move p).name = .income from rfl]
      rw [show (Press.income.move p).target = p from rfl,
        show (Press.income.move p).caller = p from rfl,
        Board.distance_income_of_notMem _ hne, hworld]
      rfl
  · cases hpressed

end Turn

/-! ## Towards the verdict -/

section Verdict

variable {base : CardRef} {w : World} {user : PlayerRef}
  {AIs : List PlayerRef} {y : Session} {q : PlayerRef}

/-- The next AI in the game gets its turn. -/
theorem Calm.comes_round (h : Calm (createdCards base) w user AIs y)
    (hnames : DistinctNames w) {k : ℕ}
    (hseat : y.game.world.players[(y.game.vc.turnInd + k) %
      y.game.world.players.length]? = some q)
    (hq : q ∈ AIs) (hactive : y.game.world.isPlayerRevealed q = false) :
    ∃ y', Leads stepSession PlaysOn y y' ∧ (Verdict y' ∨
      Calm (createdCards base) w user AIs y' ∧
        y'.distance AIs < y.distance AIs) := by
  induction k generalizing y with
  | zero =>
      have hin := h.going.running.inPlay
      rw [Nat.add_zero, Nat.mod_eq_of_lt hin.turnInd] at hseat
      exact h.hunts hnames ⟨hseat, hactive, hin.AIs ▸ hq⟩
  | succ k ih =>
      have hin := h.going.running.inPlay
      -- the other turns pass the seat on and keep the distance
      have hnext {y₁ : Session} (hleads : Leads stepSession PlaysOn y y₁)
          (hcalm : Calm (createdCards base) w user AIs y₁)
          (hstrolls : Strolls AIs y y₁) :
          ∃ y', Leads stepSession PlaysOn y y' ∧ (Verdict y' ∨
            Calm (createdCards base) w user AIs y' ∧
              y'.distance AIs < y.distance AIs) := by
        have hplayers : y₁.game.world.players = y.game.world.players := by
          rw [hcalm.going.running.inPlay.players, hin.players]
        obtain ⟨y', hleads', hdone⟩ := ih hcalm
          (by rw [hplayers, hstrolls.turnInd, incrementInd_turnInd hin.turnInd,
                Nat.mod_add_mod, add_assoc, add_comm 1 k]
              exact hseat)
          ((hstrolls.face q (hin.mem_AIs hq).1).trans hactive)
        rw [hstrolls.distance] at hdone
        exact ⟨y', hleads.trans hleads', hdone⟩
      obtain ⟨p, hp⟩ : ∃ p, y.game.world.players[y.game.vc.turnInd]? = some p :=
        ⟨_, List.getElem?_eq_getElem hin.turnInd⟩
      cases hout : y.game.world.isPlayerRevealed p with
      | true =>
          obtain ⟨y₁, hleads, hcalm, hstrolls⟩ := h.skips hnames ⟨p, hp, hout⟩
          exact hnext hleads hcalm hstrolls
      | false =>
          have hseated : p ∈ user :: AIs :=
            hin.players ▸ List.mem_of_getElem? hp
          rcases List.mem_cons.mp hseated with rfl | hAI
          · obtain ⟨y₁, hleads, hover | ⟨hcalm, hstrolls⟩⟩ :=
              h.asks hnames ⟨hp, hout, hin.name_user⟩
            · exact ⟨y₁, hleads, Or.inl hover⟩
            · exact hnext hleads hcalm hstrolls
          · exact h.hunts hnames ⟨hp, hout, hin.AIs ▸ hAI⟩

/-- A calm game comes nearer to its end, or ends. -/
theorem Calm.advances (h : Calm (createdCards base) w user AIs y)
    (hnames : DistinctNames w) :
    ∃ y', Leads stepSession PlaysOn y y' ∧ (Verdict y' ∨
      Calm (createdCards base) w user AIs y' ∧
        y'.distance AIs < y.distance AIs) := by
  have hin := h.going.running.inPlay
  obtain ⟨-, q, hq, hactive⟩ :=
    not_not.mp (mt (gameOver_iff hin).mpr h.going.going)
  obtain ⟨j, hj⟩ := List.mem_iff_getElem?.mp (hin.mem_AIs hq).1
  have hlt : j < y.game.world.players.length :=
    (List.getElem?_eq_some_iff.mp hj).1
  have hturn := hin.turnInd
  refine h.comes_round hnames
    (k := y.game.world.players.length - y.game.vc.turnInd + j) ?_ hq hactive
  rw [← add_assoc, Nat.add_sub_of_le hturn.le, Nat.add_mod_left,
    Nat.mod_eq_of_lt hlt]
  exact hj

/-- A game that is going on is brought to its end. -/
theorem Going.finishes (h : Going (createdCards base) w user AIs y)
    (hnames : DistinctNames w) :
    ∃ y', Leads stepSession PlaysOn y y' ∧ Verdict y' := by
  obtain ⟨y₁, hleads, hover | hcalm⟩ := h.settles hnames
  · exact ⟨y₁, hleads, hover⟩
  · obtain ⟨y', hleads', hover⟩ := leads_of_measure
      (fun y => y.distance AIs) (fun _ h => h.advances hnames) hcalm
    exact ⟨y', hleads.trans hleads', hover⟩

end Verdict

/-- From every state between two iterations of a game that is going on, whatever
happened before, some continuation without the End Game button comes to a
verdict. -/
theorem verdict_reachable {w : World} {user : PlayerRef}
    {AIs : List PlayerRef} {base : CardRef} {shuffling dealing : List ℕ}
    {y₀ y : Session} {es : List Event} (hlobby : Lobby w user AIs)
    (hnames : DistinctNames w)
    (hopen : openSession w base shuffling dealing = .ok y₀)
    (hrun : run stepSession y₀ es = .ok y) (hon : y.game.vc.gameOn = true) :
    ∃ es' y', (∀ e ∈ es', e ≠ .endGame) ∧ run stepSession y es' = .ok y' ∧
      y'.game.vc.gameOn = false ∧ GameOver y'.game := by
  obtain ⟨y', ⟨es', hes, hrun'⟩, hover⟩ :=
    (Going.of_run hlobby hopen hrun hon).finishes hnames
  exact ⟨es', y', hes, hrun', hover.off, hover.decided⟩

/-- Also after Ed Sheeran could have drawn seats for ever. -/
theorem verdict_reachable_robbedUser :
    ∃ y₀ y es' y', openSession
        (lobbyOf "user" ["Charlie Puth", "Ed Sheeran"] []) 0 (List.range 15)
        [1, 0, 0, 0, 3] = .ok y₀ ∧
      run stepSession y₀ robbedUser = .ok y ∧
      run stepSession y es' = .ok y' ∧ GameOver y'.game := by
  have hlast : lastStep stepSession
      (openSession (lobbyOf "user" ["Charlie Puth", "Ed Sheeran"] []) 0
        (List.range 15) [1, 0, 0, 0, 3]) robbedUser .endGame
      (fun y _ => decide (y.game.vc.gameOn = true)) = true := by
    decide +kernel
  obtain ⟨y₀, y, -, hopen, hrun, -, hP⟩ := exists_of_lastStep hlast
  obtain ⟨es', y', -, hrun', -, hover⟩ := verdict_reachable
    (lobbyOf_two "user" "Charlie Puth" "Ed Sheeran")
    (lobbyOf_distinctNames [] (by decide)) hopen hrun (of_decide_eq_true hP)
  exact ⟨y₀, y, es', y', hopen, hrun, hrun', hover⟩

end Coup
