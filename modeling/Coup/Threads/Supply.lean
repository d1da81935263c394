import Coup.Game.Margin
import Coup.Threads.Cards
import Coup.Threads.MoveLog

/-!
# What the game thread needs

The thread draws cards from the deck, reads the last logged move and looks for
seats in the global `players`.  Whatever is in `players`, a loop keeps enough
cards in its deck, and the move of its turn in the log; so its thread traps at
most at an index.
-/

namespace Coup

open Coup.Support

/-- The move of the turn is in the log. -/
def Place.logged : Place → Bool
  | .idle | .head | .picked _ | .leaving | .chosen _ => false
  | _ => true

/-- The deck has the cards that the thread may still draw, and the log is not
empty where it is read. -/
structure Supplied (y : Loop) : Prop where
  stock : Stocked y.game (3 - y.place.parked.length)
  log : y.place.logged = true → y.game.world.moveLog ≠ []

section Keeps

variable {y y' : Loop} {i : TurnInput} {e : LoopEvent}

/-- The log is empty at most until the first move is chosen. -/
theorem LoopMove.logged (hmove : LoopMove y i y')
    (hlog : y.place.logged = true → y.game.world.moveLog ≠ [])
    (hplace : y'.place.logged = true) : y'.game.world.moveLog ≠ [] := by
  rw [hmove.moveLog]
  by_cases hchosen : ∃ t, y.place = .chosen t
  · obtain ⟨t, ht⟩ := hchosen
    rw [ht]
    exact List.append_ne_nil_of_right_ne_nil _ (List.cons_ne_nil _ _)
  · refine List.append_ne_nil_of_left_ne_nil (hlog ?_) _
    cases hmove with
    | claim t hfrom | log t hfrom => exact absurd ⟨t, hfrom⟩ hchosen
    | skip _ hfrom =>
        rw [hfrom] at hplace
        cases hplace
    | start | pick | quit | prompt | choose | wake | turn => cases hplace
    | act _ _ _ hfrom =>
        rcases hfrom with ⟨⟨_, hfrom, -⟩, -⟩ | ⟨hfrom, -⟩ | ⟨_, _, hfrom, -⟩ <;>
          rw [hfrom] <;> rfl
    | seat _ _ hfrom | round _ _ hfrom | pass _ _ _ hfrom | ask _ _ _ hfrom
    | wait _ _ _ hfrom | answer _ _ _ _ _ hfrom | notice _ _ _ hfrom
    | retry _ _ _ hfrom | send _ _ _ hfrom | object _ _ _ _ hfrom
    | allow _ _ _ _ hfrom | expose _ _ _ _ hfrom | fail _ _ _ hfrom
    | drop _ _ hfrom | replace _ _ _ _ hfrom | judge _ hfrom =>
        rw [hfrom]
        rfl

/-- A card is drawn for the claim that is shown, and comes back. -/
theorem LoopMove.stock (hmove : LoopMove y i y')
    (h : Stocked y.game (3 - y.place.parked.length)) :
    Stocked y'.game (3 - y'.place.parked.length) := by
  cases hmove with
  | start hplace | pick p hplace | quit hplace | prompt p hplace
  | wake hplace | seat t curMove hplace | round t curMove hplace
  | wait t curMove p hplace | notice t curMove p hplace
  | retry t curMove p hplace | send t curMove p hplace
  | object t curMove o p hplace | drop t o hplace =>
      rw [hplace] at h
      exact h
  | skip p hplace => exact h.of_deck rfl
  | turn hplace | pass t curMove p hplace | ask t curMove p hplace
  | allow t curMove o p hplace | claim t hplace | log t hplace
  | answer t curMove o p w hplace | fail t o w hplace =>
      rw [hplace] at h
      exact h.of_deck rfl
  | choose p m s hplace hchosen =>
      rw [hplace] at h
      cases hchosen with
      | user _ _ _ hs =>
          subst hs
          exact h.of_deck rfl
      | ai w _ _ hs =>
          subst hs
          exact h.of_deck rfl
  | expose t o s newCard hplace hname hshow =>
      rw [hplace] at h
      exact showClaim_stocked h _ hshow
  | act t s place hplace hact =>
      rw [parked_act hplace]
      exact actOnMove_stocked h _ hact
  | replace t theCard newCard s hplace hreplace =>
      rw [hplace] at h
      exact replaceClaim_stocked h _ hreplace
  | judge s hplace hjudge =>
      rw [hplace] at h
      rcases isGameOver_cases hjudge with ⟨-, player0, -, rfl⟩ | ⟨-, rfl⟩
      · exact h.of_deck rfl
      · exact h

theorem LoopMove.supplied (hmove : LoopMove y i y') (h : Supplied y) :
    Supplied y' :=
  ⟨hmove.stock h.stock, hmove.logged h.log⟩

theorem Supplied.step (h : Supplied y) (hstep : stepLoop y e = .ok y') :
    Supplied y' := by
  obtain ⟨i, rfl⟩ | hmain := e.thread_or_main
  · exact (stepThread_spec hstep).supplied h
  · obtain ⟨hplace, hworld, -, -⟩ := stepLoop_main hstep hmain
    constructor
    · rw [hplace]
      exact h.stock.of_deck (stepLoop_deck hstep hmain)
    · rw [hplace, hworld]
      exact h.log

/-- The deck does not care about the heap, and the log may grow. -/
theorem Supplied.world {w : World} (h : Supplied y)
    (hlog : y.game.world.moveLog ≠ [] → w.moveLog ≠ []) :
    Supplied { y with game := { y.game with world := w } } :=
  ⟨h.stock.of_deck rfl, fun hlogged => hlog (h.log hlogged)⟩

end Keeps

/-! ## Indexes -/

/-- The indexes into `players` that the next step of the thread uses, as far
as they are its own variables. -/
def Loop.indexes (y : Loop) : List ℕ :=
  match y.place with
  | .head => if y.game.vc.gameOn then [y.game.vc.turnInd] else []
  | .look _ _ => [y.game.vc.challengeTurnInd]
  | .use _ curMove _ =>
      if y.game.vc.didPlayerChallengeOrAllow then []
      else if curMove.name = .challenge then []
      else [y.game.vc.challengeTurnInd, y.game.vc.turnInd]
  | _ => []

section Indexes

variable {y : Loop} {t : Turn} {curMove : Move}

theorem atHead_succeeds (hon : y.game.vc.gameOn = true) :
    (∃ y', atHead y = .ok y') ↔
      y.game.vc.turnInd < y.game.world.players.length := by
  rw [atHead, if_pos hon, bind_succeeds, orFault_getElem?_succeeds]
  intro p
  split <;> exact ⟨_, rfl⟩

theorem atLook_succeeds :
    (∃ y', atLook y t curMove = .ok y') ↔
      y.game.vc.challengeTurnInd < y.game.world.players.length := by
  rw [atLook, bind_succeeds, slotHead, bind_succeeds,
    orFault_getElem?_succeeds]
  · intro p
    split <;> exact ⟨_, rfl⟩
  · rintro ⟨s, player⟩
    cases player <;> exact ⟨_, rfl⟩

theorem atUse_succeeds (hoff : ¬ y.game.vc.didPlayerChallengeOrAllow = true)
    (hcur : curMove.name ≠ .challenge) :
    (∃ y', atUse y t curMove = .ok y') ↔
      y.game.vc.challengeTurnInd < y.game.world.players.length ∧
        y.game.vc.turnInd < y.game.world.players.length := by
  rw [atUse, bind_succeeds]
  · unfold slotUse
    rw [if_neg hoff, if_neg hcur]
    constructor
    · rintro ⟨r, h⟩
      obtain ⟨caller, hcaller, h⟩ := bind_eq_ok.mp h
      obtain ⟨target, htarget, -⟩ := bind_eq_ok.mp h
      exact ⟨orFault_getElem?_succeeds.mp ⟨caller, hcaller⟩,
        orFault_getElem?_succeeds.mp ⟨target, htarget⟩⟩
    · rintro ⟨hslot, hturn⟩
      obtain ⟨caller, hcaller⟩ := orFault_getElem?_succeeds.mpr hslot
      obtain ⟨target, htarget⟩ := orFault_getElem?_succeeds.mpr hturn
      exact ⟨_, bind_eq_ok.mpr ⟨caller, hcaller,
        bind_eq_ok.mpr ⟨target, htarget, rfl⟩⟩⟩
  · rintro ⟨s, result⟩
    cases result <;> exact ⟨_, rfl⟩

/-- At the places that have indexes, the step goes through exactly if all of
them are in range. -/
theorem indexes_in_range {i : TurnInput} (h : y.indexes ≠ []) :
    (∃ y', stepThread y i = .ok y') ↔
      ∀ k ∈ y.indexes, k < y.game.world.players.length := by
  unfold Loop.indexes at h ⊢
  unfold stepThread
  cases hplace : y.place <;> simp only [hplace] at h ⊢ <;>
    try exact absurd rfl h
  case head =>
    split at h
    next hon => rw [atHead_succeeds hon]; simp [hon]
    next => exact absurd rfl h
  case look t curMove =>
    rw [atLook_succeeds]
    simp
  case use t curMove p =>
    split at h
    next => exact absurd rfl h
    next hoff =>
      split at h
      next => exact absurd rfl h
      next hcur => rw [atUse_succeeds hoff hcur]; simp [hoff, hcur]

end Indexes

/-! ## The steps -/

section Avoids

variable {y : Loop} {i : TurnInput} {t : Turn} {curMove : Move}
  {p : PlayerRef}

theorem avoids_takeMove {s : State} {p : PlayerRef} {a : AIInput}
    (h : s.world.players ≠ []) : Avoids .trap (takeMove s p a) := by
  refine .ite (fun _ => .ite (fun _ => avoids_ok _) fun _ => avoids_ok _)
    fun _ => ?_
  exact (avoids_getPlayerMove h).bind fun _ _ => avoids_ok _

theorem avoids_isGameOver {s : State} (h : s.world.players ≠ []) :
    Avoids .trap (isGameOver s) := by
  refine .ite (fun _ => ?_) fun _ => avoids_ok _
  exact (avoids_getElem? (List.length_pos_iff.mpr h)).bind
    fun _ _ => avoids_ok _

theorem avoids_atPicked (h : y.game.world.players ≠ []) :
    Avoids .trap (atPicked y p i) := by
  refine (avoids_takeMove h).bind ?_
  rintro ⟨s, selection⟩ -
  cases selection <;> exact avoids_ok _

/-- An answer at hand is used without an index. -/
theorem avoids_atUse (h : y.game.vc.didPlayerChallengeOrAllow = true ∨
    curMove.name = .challenge) : Avoids .trap (atUse y t curMove) := by
  have huse : Avoids .trap (slotUse y.game curMove) := by
    refine .ite (fun _ => .ite (fun _ => avoids_ok _) fun _ => avoids_ok _)
      fun hoff => .ite (fun _ => avoids_ok _) fun hcur => ?_
    exact absurd h (not_or.mpr ⟨hoff, hcur⟩)
  refine huse.bind ?_
  rintro ⟨s, result⟩ -
  cases result <;> exact avoids_ok _

/-- A step finds a player at each of its indexes. -/
theorem avoids_at_indexes (hindexes : y.indexes ≠ [])
    (hrange : ∀ k ∈ y.indexes, k < y.game.world.players.length) :
    Avoids .trap (stepThread y i) := by
  obtain ⟨y', hstep⟩ := (indexes_in_range hindexes).mpr hrange
  rw [hstep]
  exact avoids_ok y'

namespace Supplied

theorem avoids_atAsk (h : Supplied y) (hplace : y.place = .ask t curMove p) :
    Avoids .trap (atAsk y t curMove p i) := by
  refine .ite (fun _ => avoids_ok _) fun _ => ?_
  have hlog := h.log (by rw [hplace]; rfl)
  obtain ⟨o, w, hget, -⟩ := getChallengeOrAllow_answer p t.curMove.caller
    (i.round.rand y.game.vc.challengeTurnInd)
    (List.getLast?_eq_some_getLast hlog)
  rw [hget]
  exact avoids_ok _

/-- Wherever the thread executes the move, it can. -/
theorem avoids_act (h : Supplied y) (t : Turn)
    (hlogged : y.place.logged = true) (x : ExchangeInput) :
    Avoids .trap (actOnMove y.game t.curMove x) := by
  have hone : y.place.parked.length ≤ 1 := by
    cases y.place <;> simp [Place.parked]
  exact avoids_actOnMove (h.stock.mono (by omega)) (h.log hlogged)

theorem avoids_atObjected (h : Supplied y) {o : Move}
    (hplace : y.place = .objected t o) :
    Avoids .trap (atObjected y t o i) := by
  have hlogged : y.place.logged = true := by rw [hplace]; rfl
  have hlog := h.log hlogged
  have hstock : Stocked y.game 3 := by
    have hparked := h.stock
    rw [hplace] at hparked
    exact hparked
  refine .ite (fun _ => .ite (fun _ => ?_) fun _ => ?_) fun _ =>
    .ite (fun _ => ?_) fun _ => avoids_ok _
  · exact (avoids_showClaim (hstock.mono (by decide)) hlog).bind
      fun _ _ => avoids_ok _
  · exact (avoids_revealCard hlog).bind fun _ _ => avoids_ok _
  · exact (h.avoids_act t hlogged _).bind fun _ _ => avoids_ok _

/-- The game thread traps at most at an index. -/
theorem avoids_stepThread (h : Supplied y)
    (hplayers : y.game.world.players ≠ [])
    (hrange : ∀ k ∈ y.indexes, k < y.game.world.players.length)
    (i : TurnInput) : Avoids .trap (stepThread y i) := by
  by_cases hindexes : y.indexes = []
  · unfold Loop.indexes at hindexes
    unfold stepThread
    cases hplace : y.place <;> simp only [hplace] at hindexes ⊢
    case idle =>
      exact .ite (fun _ => avoids_ok _) fun _ => avoids_error (by decide)
    case head =>
      refine .ite (fun hon => ?_) fun _ => avoids_ok _
      rw [if_pos hon] at hindexes
      cases hindexes
    case picked => exact avoids_atPicked hplayers
    case look => cases hindexes
    case ask => exact h.avoids_atAsk hplace
    case use t curMove p =>
      apply avoids_atUse
      by_contra h
      obtain ⟨hoff, hcur⟩ := not_or.mp h
      rw [if_neg hoff, if_neg hcur] at hindexes
      cases hindexes
    case objected => exact h.avoids_atObjected hplace
    case free t | shown t _ _ =>
      have hact := h.avoids_act t (by rw [hplace]; rfl) i.exchange
      exact hact.bind fun _ _ => avoids_ok _
    case acted =>
      exact (avoids_replaceClaim h.stock).bind fun _ _ => avoids_ok _
    case ending =>
      exact (avoids_isGameOver hplayers).bind fun _ _ => avoids_ok _
    all_goals exact avoids_ok _
  · exact avoids_at_indexes hindexes hrange

end Supplied

end Avoids

/-! ## Every run of the loop -/

section Run

variable {w : World} {user : PlayerRef} {AIs : List PlayerRef}
  {base : CardRef} {shuffling dealing : List ℕ} {y₀ y : Loop}
  {es : List LoopEvent}

theorem openLoop_supplied (hlobby : Lobby w user AIs)
    (hopen : openLoop w base shuffling dealing = .ok y₀) : Supplied y₀ := by
  obtain ⟨s, hload, rfl⟩ := openLoop_eq_ok.mp hopen
  have hin := (viewDidLoad_spec hlobby hload).1
  refine ⟨hin.shows.stocked_three (hin.room rfl), fun hlogged => ?_⟩
  cases hlogged

theorem Supplied.of_run (hlobby : Lobby w user AIs)
    (hopen : openLoop w base shuffling dealing = .ok y₀)
    (hrun : run stepLoop y₀ es = .ok y) : Supplied y :=
  run_invariant (fun _ _ _ h hstep => h.step hstep) hrun
    (openLoop_supplied hlobby hopen)

end Run

end Coup
