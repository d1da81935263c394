import Coup.Game.Lobby
import Coup.Game.Moves

/-!
# One iteration of the loop

An iteration of `runGame` skips the current seat, prompts the user or takes a
turn.  `TakesTurn` names the states a turn goes through, and `playMove_spec`
and `endTurn_spec` say what happens between them.
-/

namespace Coup

open Coup.Support

/-! ## The three outcomes of an iteration -/

/-- The player `p` finds the move `m`, which leaves the state `s₁`. -/
inductive Chooses (s : State) (i : AIInput) (p : PlayerRef) (m : Move)
    (s₁ : State) : Prop
  | user (hname : (s.world.player p).name = s.world.username)
      (hpressed : s.vc.didPlayerMove = true) (hmove : m = s.vc.playerMove)
      (hstate : s₁ = { s with vc.didPlayerMove := false })
  | ai (w : World) (hname : (s.world.player p).name ≠ s.world.username)
      (hmove : getPlayerMove s.world p i = .ok (m, w))
      (hstate : s₁ = { s with world := w })

/-- The player in the current seat is eliminated. -/
def SeatOut (s : State) : Prop :=
  ∃ p, s.world.players[s.vc.turnInd]? = some p ∧
    s.world.isPlayerRevealed p = true

/-- A player with the name of the user is in the current seat. -/
structure UserTurn (s : State) (p : PlayerRef) : Prop where
  current : s.world.players[s.vc.turnInd]? = some p
  active : s.world.isPlayerRevealed p = false
  name : (s.world.player p).name = s.world.username

instance userTurnDecidable (s : State) (p : PlayerRef) :
    Decidable (UserTurn s p) :=
  decidable_of_iff (s.world.players[s.vc.turnInd]? = some p ∧
      s.world.isPlayerRevealed p = false ∧
      (s.world.player p).name = s.world.username)
    ⟨fun h => ⟨h.1, h.2.1, h.2.2⟩, fun h => ⟨h.current, h.active, h.name⟩⟩

/-- Nobody else is in the current seat. -/
theorem UserTurn.unique {s : State} {p q : PlayerRef} (h : UserTurn s p)
    (hq : s.world.players[s.vc.turnInd]? = some q) : p = q :=
  Option.some.inj (h.current.symm.trans hq)

/-- The user is in the current seat and has not pressed a button yet. -/
def Prompts (s : State) : Prop :=
  s.vc.didPlayerMove = false ∧ ∃ p, UserTurn s p

theorem takeMove_cases {s s₁ : State} {i : AIInput} {p : PlayerRef}
    {selection : Selection} (h : takeMove s p i = .ok (s₁, selection)) :
    (selection = .prompt ∧ (s.world.player p).name = s.world.username ∧
        s.vc.didPlayerMove = false ∧ s₁ = s) ∨
      ∃ m, selection = .move m ∧ Chooses s i p m s₁ := by
  unfold takeMove at h
  split at h
  next huser =>
    split at h
    next hwait =>
      cases h
      exact Or.inl ⟨rfl, huser, hwait, rfl⟩
    next hpressed =>
      cases h
      rw [Bool.not_eq_false] at hpressed
      exact Or.inr ⟨_, rfl, .user huser hpressed rfl rfl⟩
  next hai =>
    rw [bind_eq_ok] at h
    obtain ⟨⟨m, w⟩, hmove, h⟩ := h
    cases h
    exact Or.inr ⟨m, rfl, .ai w hai hmove rfl⟩

theorem selectMove_cases {s s₁ : State} {i : AIInput} {p : PlayerRef}
    {selection : Selection} (h : selectMove s i = .ok (s₁, p, selection)) :
    (selection = .skip ∧ SeatOut s ∧ s₁ = s) ∨
      (selection = .prompt ∧ Prompts s ∧ s₁ = s) ∨
      (∃ m, selection = .move m ∧ s.world.players[s.vc.turnInd]? = some p ∧
        s.world.isPlayerRevealed p = false ∧ Chooses s i p m s₁) := by
  rw [selectMove, bind_eq_ok] at h
  obtain ⟨current, hcurrent, h⟩ := h
  rw [orFault_eq_ok] at hcurrent
  split at h
  next hout =>
    cases h
    exact Or.inl ⟨rfl, ⟨_, hcurrent, hout⟩, rfl⟩
  next hin =>
    have hactive := Bool.eq_false_of_not_eq_true hin
    rw [bind_eq_ok] at h
    obtain ⟨⟨s', selection'⟩, htake, h⟩ := h
    cases h
    rcases takeMove_cases htake with ⟨rfl, huser, hwait, rfl⟩ | ⟨m, rfl, hm⟩
    · exact Or.inr (Or.inl
        ⟨rfl, ⟨hwait, _, hcurrent, hactive, huser⟩, rfl⟩)
    · exact Or.inr (Or.inr ⟨m, rfl, hcurrent, hactive, hm⟩)

/-- The player `p` takes a turn with the move `m`: it is chosen in `s`, played
after it was logged in `s₁`, and the turn ends in `s'`. -/
structure TakesTurn (s : State) (i : TurnInput) (p : PlayerRef) (m : Move)
    (s₁ s₂ s' : State) : Prop where
  selected : selectMove s i.ai = .ok (s₁, p, .move m)
  played : playMove (logMove s₁ m) p m i = .ok s₂
  ended : endTurn s₂ = .ok s'

namespace TakesTurn

variable {s s₁ s₂ s' : State} {i : TurnInput} {p : PlayerRef} {m : Move}

theorem chosen (h : TakesTurn s i p m s₁ s₂ s') :
    s.world.players[s.vc.turnInd]? = some p ∧
      s.world.isPlayerRevealed p = false ∧ Chooses s i.ai p m s₁ := by
  rcases selectMove_cases h.selected with ⟨hne, -⟩ | ⟨hne, -⟩ | ⟨m', hm, h'⟩
  · cases hne
  · cases hne
  · cases hm
    exact h'

theorem seated (h : TakesTurn s i p m s₁ s₂ s') : p ∈ s.world.players :=
  List.mem_of_getElem? h.chosen.1

theorem active (h : TakesTurn s i p m s₁ s₂ s') :
    s.world.isPlayerRevealed p = false :=
  h.chosen.2.1

end TakesTurn

theorem iterate_cases {s s' : State} {i : TurnInput} {exit : Exit}
    (h : iterate s i = .ok (s', exit)) :
    (exit = .next ∧ SeatOut s ∧ s' = incrementInd s) ∨
      (exit = .broke ∧ Prompts s ∧ s' = s) ∨
      (exit = .next ∧ ∃ p m s₁ s₂, TakesTurn s i p m s₁ s₂ s') := by
  rw [iterate, bind_eq_ok] at h
  obtain ⟨⟨s₁, p, selection⟩, hselect, h⟩ := h
  rcases selectMove_cases hselect with
    ⟨rfl, hout, rfl⟩ | ⟨rfl, hprompt, rfl⟩ | ⟨m, rfl, -⟩
  · cases h
    exact Or.inl ⟨rfl, hout, rfl⟩
  · cases h
    exact Or.inr (Or.inl ⟨rfl, hprompt, rfl⟩)
  · simp only [bind_eq_ok] at h
    obtain ⟨s₂, hplayed, s₃, hended, h⟩ := h
    cases h
    exact Or.inr (Or.inr ⟨rfl, p, m, s₁, s₂, hselect, hplayed, hended⟩)

/-! ## Choosing -/

namespace Chooses

variable {s s₁ : State} {i : AIInput} {p : PlayerRef} {m : Move}

/-- Choosing a move changes at most the rates of an AI and the flag of the
press. -/
theorem quiet (h : Chooses s i p m s₁)
    (hai : (s.world.player p).name ≠ s.world.username →
      (s.world.player p).ai.isSome) (hp : p ∈ s.world.players) :
    Quiet { s with vc.didPlayerMove := s₁.vc.didPlayerMove } s₁ := by
  cases h with
  | user hname hpressed hmove hstate =>
      subst hstate
      exact .refl _
  | ai w hname hmove hstate =>
      subst hstate
      obtain ⟨-, -, ai, rfl⟩ := getPlayerMove_spec hp (hai hname) hmove
      exact .setAI (hai hname) ai

end Chooses

/-! ## Playing -/

/-- The objection that a logged move meets; income and coup meet none. -/
inductive Meets (s : State) (m : Move) (i : RoundInput) : Option Move → Prop
  | none (hfree : challengeable m.name = false) : Meets s m i .none
  | some (s' : State) (o : Move) (hopen : challengeable m.name = true)
      (hround : anyChallenges s m i = .ok (s', o)) : Meets s m i (.some o)

/-- The board after the move met the objection. -/
def turnBoard (b : Board PlayerRef) (claim : Option Slot) (p : PlayerRef)
    (m : Move) : Option Move → Board PlayerRef
  | none => b.act m.name m.caller m.target
  | some o => resolveBoard b claim p m o

/-- The users and the AIs that a turn needs. -/
structure Ready (s : State) (p : PlayerRef) (m : Move) : Prop where
  user : s.vc.user ∈ s.world.players
  current : s.world.players[s.vc.turnInd]? = some p
  move : Seated s m
  caller : m.caller = p

theorem Ready.quiet {s s' : State} {p : PlayerRef} {m : Move}
    (h : Ready s p m) (hq : Quiet s s') : Ready s' p m where
  user := by
    rw [hq.evolves.user, hq.evolves.table.players]
    exact h.user
  current := by
    rw [hq.evolves.turnInd, hq.evolves.table.players]
    exact h.current
  move := h.move.evolves hq.evolves
  caller := h.caller

theorem Challenges.target_eq {s : State} {m o : Move} {p : PlayerRef}
    (h : Challenges s m o) (hr : Ready s p m) : o.target = p := by
  rcases h.target with htarget | htarget
  · exact htarget.trans hr.caller
  · rw [hr.current] at htarget
    exact (Option.some.inj htarget).symm

/-- What a logged move does to the board, to the cards and to the rest. -/
theorem playMove_spec {created : List CardRef} {s s' : State}
    {b : Board PlayerRef} {p : PlayerRef} {m : Move} {i : TurnInput}
    (h : Shows created s [] b) (hr : Ready s p m)
    (hplay : playMove s p m i = .ok s') :
    Evolves s s' ∧ ∃ o, Meets s m i.round o ∧
      (∀ o' ∈ o, o'.name = .challenge → Challenges s m o') ∧
      Shows created s' []
        (turnBoard b (slotOf (s.world.checkhaveCard p m.name)) p m o) := by
  have hp : p ∈ s.world.players := List.mem_of_getElem? hr.current
  unfold playMove at hplay
  split at hplay
  next hopen =>
    rw [bind_eq_ok] at hplay
    obtain ⟨⟨s₁, o⟩, hround, hresolve⟩ := hplay
    obtain ⟨hquiet, hchallenges⟩ := anyChallenges_spec hround
    have hr₁ := hr.quiet hquiet
    have ho : o.name = .challenge → Seated s₁ o := by
      intro hname
      have hc := hchallenges hname
      have hseated : Seated s o :=
        ⟨hc.caller.seated, hc.target_eq hr ▸ hp⟩
      exact hseated.evolves hquiet.evolves
    have hp₁ : p ∈ s₁.world.players := List.mem_of_getElem? hr₁.current
    obtain ⟨hshows, hevolves⟩ :=
      resolve_spec (hquiet.shows h) hr₁.user hp₁ hr₁.move ho hresolve
    rw [hquiet.checkhaveCard] at hshows
    refine ⟨hquiet.evolves.trans hevolves, some o, .some s₁ o hopen hround,
      ?_, hshows⟩
    rintro o' ho' hname
    cases ho'
    exact hchallenges hname
  next hfree =>
    obtain ⟨hshows, hevolves⟩ :=
      actOnMove_spec h hr.user hr.move.caller hr.move.target hplay
    refine ⟨hevolves, none, .none (Bool.eq_false_of_not_eq_true hfree), ?_,
      hshows⟩
    rintro o' ⟨⟩

/-! ## The end of a turn -/

/-- The condition in `isGameOver`. -/
def GameOver (s : State) : Prop :=
  countFalse s + 1 = s.world.players.length ∨
    s.world.isPlayerRevealed s.vc.user = true

instance gameOverDecidable (s : State) : Decidable (GameOver s) :=
  inferInstanceAs (Decidable (_ ∨ _))

/-- Either the game ends or nothing changes. -/
theorem isGameOver_cases {s s' : State} (h : isGameOver s = .ok s') :
    (GameOver s ∧ ∃ player0, s.world.players[0]? = some player0 ∧
        s' = { s with
          vc.gameOn := false
          vc.status :=
            if s.world.isPlayerRevealed player0 then .youLose else .youWon }) ∨
      (¬ GameOver s ∧ s' = s) := by
  unfold isGameOver at h
  split at h
  next hyes =>
    obtain ⟨player0, hplayer, h⟩ := bind_eq_ok.mp h
    cases h
    exact .inl ⟨hyes, player0, orFault_eq_ok.mp hplayer, rfl⟩
  next hno =>
    cases h
    exact .inr ⟨hno, rfl⟩

theorem endTurn_spec {s s' : State} (h : endTurn s = .ok s') :
    s'.world = s.world ∧
      s'.vc = { s.vc with
        turnInd := (incrementInd s).vc.turnInd
        gameOn := s'.vc.gameOn
        status := s'.vc.status } ∧
      ((GameOver s ∧ s'.vc.gameOn = false ∧
          ∃ player0, s.world.players[0]? = some player0 ∧
            s'.vc.status = if s.world.isPlayerRevealed player0 then .youLose
              else .youWon) ∨
        (¬ GameOver s ∧ s'.vc.gameOn = s.vc.gameOn ∧
          s'.vc.status = s.vc.status)) := by
  rw [endTurn, bind_eq_ok] at h
  obtain ⟨s₁, hover, h⟩ := h
  cases h
  rcases isGameOver_cases hover with
    ⟨hyes, player0, hplayer, rfl⟩ | ⟨hno, rfl⟩
  · exact ⟨rfl, rfl, .inl ⟨hyes, rfl, player0, hplayer, rfl⟩⟩
  · exact ⟨rfl, rfl, .inr ⟨hno, rfl, rfl⟩⟩

/-! ## The turn -/

/-- What everybody sees of the table. -/
def World.board (w : World) : Board PlayerRef :=
  ⟨fun p i => (w.held p i).revealed, fun p => (w.player p).coins⟩

theorem World.out_board (w : World) (p : PlayerRef) :
    w.board.Out p ↔ w.isPlayerRevealed p = true := by
  rw [Board.out_iff, World.isPlayerRevealed, Bool.and_eq_true]
  constructor
  · intro h
    exact ⟨h .first, h .second⟩
  · rintro ⟨hfirst, hsecond⟩ i
    cases i
    · exact hfirst
    · exact hsecond

theorem World.not_out_board (w : World) (p : PlayerRef) :
    ¬ w.board.Out p ↔ w.isPlayerRevealed p = false := by
  rw [w.out_board, Bool.not_eq_true]

section Board

variable {created parked : List CardRef} {s : State} {b : Board PlayerRef}
  {p : PlayerRef}

theorem Shows.board (h : Shows created s parked b) :
    Shows created s parked s.world.board := by
  obtain ⟨cards, hdeck, htable⟩ := h
  exact ⟨cards, hdeck, { htable with
    face := fun _ _ _ => rfl
    coins := fun _ _ => rfl }⟩

theorem Shows.face (h : Shows created s parked b) (hp : p ∈ s.world.players) :
    s.world.board.face p = b.face p := by
  obtain ⟨cards, -, htable⟩ := h
  exact funext (htable.face p hp)

theorem Shows.coins (h : Shows created s parked b)
    (hp : p ∈ s.world.players) : (s.world.player p).coins = b.coins p := by
  obtain ⟨cards, -, htable⟩ := h
  exact htable.coins p hp

theorem Shows.influence (h : Shows created s parked b)
    (hp : p ∈ s.world.players) :
    s.world.board.influence p = b.influence p :=
  Board.influence_congr p (congrFun (h.face hp))

end Board

/-- A game that was opened from the lobby `w` with the cards `created`. -/
structure InPlay (created : List CardRef) (w : World) (user : PlayerRef)
    (AIs : List PlayerRef) (s : State) : Prop where
  lobby : Lobby w user AIs
  table : SameTable w s.world
  user : s.vc.user = user
  AIs : s.vc.AIs = AIs
  turnInd : s.vc.turnInd < s.world.players.length
  shows : Shows created s [] s.world.board

/-- The move of a press waits to be executed. -/
def Pressed (s : State) : Prop :=
  ∃ (q : Press) (p : PlayerRef), UserTurn s p ∧ q.Offered s ∧
    s.vc.playerMove = q.move p

namespace InPlay

variable {created : List CardRef} {w : World} {user : PlayerRef}
  {AIs : List PlayerRef} {s : State} {p : PlayerRef}

theorem players (h : InPlay created w user AIs s) :
    s.world.players = user :: AIs :=
  h.table.players.trans h.lobby.players

theorem user_mem (h : InPlay created w user AIs s) :
    s.vc.user ∈ s.world.players := by
  rw [h.user, h.players]
  exact List.mem_cons_self

theorem nodup (h : InPlay created w user AIs s) : s.world.players.Nodup :=
  h.table.players ▸ h.lobby.nodup

/-- A seat whose name is not the user's is an AI. -/
theorem ai_isSome (h : InPlay created w user AIs s)
    (hp : p ∈ s.world.players)
    (hname : (s.world.player p).name ≠ s.world.username) :
    (s.world.player p).ai.isSome := by
  rw [h.table.ai]
  rw [h.players, List.mem_cons] at hp
  rcases hp with rfl | hp
  · rw [h.table.name, h.table.username] at hname
    exact absurd h.lobby.userName hname
  · rw [h.lobby.ai p hp]
    rfl

theorem sheet_mem (h : InPlay created w user AIs s) {q : Press}
    (hq : q.Offered s) {target : PlayerRef} (ht : q.target = some target) :
    target ∈ AIs := by
  have hsheet : ∀ {keep : PlayerRef → Bool}, target ∈ s.vc.AIs.filter keep →
      target ∈ AIs := by
    intro keep hmem
    exact h.AIs ▸ List.mem_of_mem_filter hmem
  cases q <;> cases ht
  · exact hsheet hq.2
  · exact hsheet hq
  · exact hsheet hq.2

end InPlay

theorem SameTable.logMove (s : State) (m : Move) :
    SameTable s.world (logMove s m).world :=
  ⟨rfl, rfl, fun _ => rfl, fun _ => rfl, fun _ => rfl⟩

namespace Chooses

variable {created : List CardRef} {w : World} {user : PlayerRef}
  {AIs : List PlayerRef} {s s₁ : State} {i : AIInput} {p : PlayerRef}
  {m : Move}

/-- The pressed move, or the move an AI finds, can be played. -/
theorem ready (hin : InPlay created w user AIs s)
    (hmove : s.vc.didPlayerMove = true → Pressed s)
    (hcurrent : s.world.players[s.vc.turnInd]? = some p)
    (h : Chooses s i p m s₁) : Ready (logMove s₁ m) p m := by
  have hp : p ∈ s.world.players := List.mem_of_getElem? hcurrent
  have hq := h.quiet (hin.ai_isSome hp) hp
  have hseated : Seated s m ∧ m.caller = p := by
    cases h with
    | user hname hpressed hm hstate =>
        obtain ⟨q, caller, hturn, hoffered, hmove⟩ := hmove hpressed
        obtain rfl : p = caller := by
          have hcaller := hturn.current
          rw [hcurrent] at hcaller
          exact Option.some.inj hcaller
        rw [hm, hmove]
        refine ⟨⟨hp, ?_⟩, rfl⟩
        cases ht : q.target with
        | none => simpa [Press.move, ht] using hp
        | some target =>
            have hmem := hin.sheet_mem hoffered ht
            simp [Press.move, ht, hin.players, hmem]
    | ai w hname hget hstate =>
        obtain ⟨hlegal, -⟩ := getPlayerMove_spec hp (hin.ai_isSome hp hname) hget
        exact ⟨⟨hlegal.caller ▸ hp, hlegal.target⟩, hlegal.caller⟩
  obtain ⟨hseated, hcaller⟩ := hseated
  have hready : Ready { s with vc.didPlayerMove := s₁.vc.didPlayerMove } p m :=
    ⟨hin.user_mem, hcurrent, ⟨hseated.caller, hseated.target⟩, hcaller⟩
  have hready₁ := hready.quiet hq
  exact ⟨hready₁.user, hready₁.current, ⟨hready₁.move.caller,
    hready₁.move.target⟩, hcaller⟩

theorem logged_shows (hin : InPlay created w user AIs s)
    (hp : p ∈ s.world.players) (h : Chooses s i p m s₁) :
    Shows created (logMove s₁ m) [] s.world.board := by
  have hshows : Shows created { s with vc.didPlayerMove := s₁.vc.didPlayerMove }
      [] s.world.board := hin.shows
  obtain ⟨cards, hdeck, htable⟩ :=
    (h.quiet (hin.ai_isSome hp) hp).shows hshows
  exact ⟨cards, hdeck, htable.congr rfl (fun _ => rfl) (fun _ _ => rfl)
    (fun _ _ => rfl)⟩

end Chooses

/-- What a turn leaves alone. -/
structure Passes (s : State) (m : Move) (s' : State) : Prop where
  table : SameTable s.world s'.world
  moveLog : s'.world.moveLog = s.world.moveLog ++ [m]
  user : s'.vc.user = s.vc.user
  AIs : s'.vc.AIs = s.vc.AIs
  didPlayerMove : s'.vc.didPlayerMove = false
  turnInd : s'.vc.turnInd = (incrementInd s).vc.turnInd
  buttons : s'.vc.buttons = s.vc.buttons ∨ s'.vc.buttons = disableAllButtons

namespace TakesTurn

variable {created : List CardRef} {w : World} {user : PlayerRef}
  {AIs : List PlayerRef} {s s₁ s₂ s' : State} {i : TurnInput}
  {p : PlayerRef} {m : Move}

theorem quiet (hin : InPlay created w user AIs s)
    (h : TakesTurn s i p m s₁ s₂ s') :
    Quiet { s with vc.didPlayerMove := s₁.vc.didPlayerMove } s₁ :=
  h.chosen.2.2.quiet (hin.ai_isSome h.seated) h.seated

/-- The pressed move, or the move an AI finds. -/
theorem ready (hin : InPlay created w user AIs s)
    (hmove : s.vc.didPlayerMove = true → Pressed s)
    (h : TakesTurn s i p m s₁ s₂ s') : Ready (logMove s₁ m) p m :=
  h.chosen.2.2.ready hin hmove h.chosen.1

theorem checkhaveCard (hin : InPlay created w user AIs s)
    (h : TakesTurn s i p m s₁ s₂ s') :
    (logMove s₁ m).world.checkhaveCard p m.name =
      s.world.checkhaveCard p m.name :=
  (h.quiet hin).checkhaveCard p m.name

theorem chosen_didPlayerMove (hmove : s.vc.didPlayerMove = true → Pressed s)
    (h : TakesTurn s i p m s₁ s₂ s') : s₁.vc.didPlayerMove = false := by
  obtain ⟨hcurrent, -, hchosen⟩ := h.chosen
  cases hchosen with
  | user hname hpressed hm hstate => rw [hstate]
  | ai w hname hget hstate =>
      rw [hstate]
      by_contra hpressed
      obtain ⟨q, caller, hturn, -⟩ :=
        hmove (Bool.eq_true_of_not_eq_false hpressed)
      have hcaller := hturn.current
      rw [hcurrent] at hcaller
      cases hcaller
      exact hname hturn.name

/-- The logged state shows the board of the state before the turn. -/
theorem logged_shows (hin : InPlay created w user AIs s)
    (h : TakesTurn s i p m s₁ s₂ s') :
    Shows created (logMove s₁ m) [] s.world.board :=
  h.chosen.2.2.logged_shows hin h.seated

/-- One turn: the move is logged once, the objection it meets decides what it
does to the board, and everything else stays as it is. -/
theorem spec (hin : InPlay created w user AIs s)
    (hmove : s.vc.didPlayerMove = true → Pressed s)
    (h : TakesTurn s i p m s₁ s₂ s') :
    Passes s m s' ∧ ∃ o, Meets (logMove s₁ m) m i.round o ∧
      (∀ o' ∈ o, o'.name = .challenge → Challenges (logMove s₁ m) m o') ∧
      Shows created s' []
        (turnBoard s.world.board (slotOf (s.world.checkhaveCard p m.name)) p m
          o) := by
  have hq := (h.quiet hin).evolves
  obtain ⟨hevolves, o, hmeets, hchallenges, hshows⟩ :=
    playMove_spec (h.logged_shows hin) (h.ready hin hmove) h.played
  rw [h.checkhaveCard hin] at hshows
  obtain ⟨hworld, hvc, -⟩ := endTurn_spec h.ended
  have hplayers : s₂.world.players = s.world.players :=
    hevolves.table.players.trans hq.table.players
  have hturn : s₂.vc.turnInd = s.vc.turnInd :=
    hevolves.turnInd.trans hq.turnInd
  refine ⟨⟨?_, ?_, ?_, ?_, ?_, ?_, ?_⟩, o, hmeets, hchallenges, ?_⟩
  · rw [hworld]
    exact (hq.table.trans (.logMove s₁ m)).trans hevolves.table
  · rw [hworld, hevolves.moveLog]
    exact congrArg (· ++ [m]) hq.moveLog
  · rw [hvc]
    exact hevolves.user.trans hq.user
  · rw [hvc]
    exact hevolves.AIs.trans hq.AIs
  · rw [hvc]
    have hchosen := h.chosen_didPlayerMove hmove
    exact hevolves.didPlayerMove.trans hchosen
  · rw [hvc]
    simp only [incrementInd, hplayers, hturn]
  · rw [hvc]
    rcases hevolves.buttons with hkeep | hoff
    · rcases hq.buttons with hkeep' | hoff'
      · exact Or.inl (hkeep.trans hkeep')
      · exact Or.inr (hkeep.trans hoff')
    · exact Or.inr hoff
  · obtain ⟨cards, hdeck, htable⟩ := hshows
    refine ⟨cards, ?_, ?_⟩
    · rw [hvc]
      exact hdeck
    · rw [hworld]
      exact htable

end TakesTurn

end Coup
