import Coup.Threads.Refinement
import Coup.Threads.Rest

/-!
# The loop is a session

Every session is a run of the loop.  Conversely, the threads cannot leave the
sessions as long as no answer of the user overtakes a block that enables the
buttons: whatever the rest of a turn comes to, one iteration of the session
comes to as well.
-/

namespace Coup

open Coup.Support

/-! ## The simulation -/

/-- The loop is where the session is, or it is in an iteration: then whatever
the turn comes to, the session comes to as well. -/
inductive Simulates (z : Session) (y : Loop) : Prop
  | between (hloop : y = z.loop)
  | picked (p : PlayerRef) (hplace : y.place = .picked p)
      (hlooping : z.thread = .looping) (hon : z.game.vc.gameOn = true)
      (hseat : z.game.world.players[z.game.vc.turnInd]? = some p)
      (hin : z.game.world.isPlayerRevealed p = false)
      (hgame : y.game = z.game ∨ y.game = z.game.quit)
      (hqueue : y.queue = []) (hpending : y.pending = z.pending)
  | turn (hturn : y.place.inTurn = true) (hlooping : z.thread = .looping)
      (hbuttons : y.game.vc.buttons = disableAllButtons ∨
        y.game.vc.buttons = enableChallengeButtons)
      (hqueue : ∀ block ∈ y.queue, block = .enableChallengeButtons)
      (hpending : y.pending = z.pending)
      (hrest : ∀ i e, y.rest i = .ok e →
        Reaches stepSession z { z with game := e })

section Iterate

variable {z : Session} {i : TurnInput} {p : PlayerRef} {m : Move}
  {s e : State}

theorem iterate_skips (hlooping : z.thread = .looping)
    (hon : z.game.vc.gameOn = true)
    (hseat : z.game.world.players[z.game.vc.turnInd]? = some p)
    (hout : z.game.world.isPlayerRevealed p = true) :
    stepSession z (.iterate i) =
      .ok { z with game := incrementInd z.game } := by
  have hselect : selectMove z.game i.ai = .ok (z.game, p, .skip) := by
    rw [selectMove, hseat, orFault, bind_ok, if_pos hout]
    rfl
  rw [stepSession, if_pos ⟨hlooping, hon⟩, iterate, hselect]
  rfl

theorem selectMove_takes {selection : Selection}
    (hseat : z.game.world.players[z.game.vc.turnInd]? = some p)
    (hin : z.game.world.isPlayerRevealed p = false)
    (htake : takeMove z.game p i.ai = .ok (s, selection)) :
    selectMove z.game i.ai = .ok (s, p, selection) := by
  rw [selectMove, hseat, orFault, bind_ok, if_neg (by simp [hin]), htake]
  rfl

theorem iterate_prompts (hlooping : z.thread = .looping)
    (hon : z.game.vc.gameOn = true)
    (hselect : selectMove z.game i.ai = .ok (s, p, .prompt)) :
    stepSession z (.iterate i) = .ok { z with
      game := s, thread := .leaving, blocks := z.blocks + 1 } := by
  rw [stepSession, if_pos ⟨hlooping, hon⟩, iterate, hselect]
  rfl

theorem iterate_turns (hlooping : z.thread = .looping)
    (hon : z.game.vc.gameOn = true)
    (hselect : selectMove z.game i.ai = .ok (s, p, .move m))
    (hplay : playMove (logMove s m) p m i >>= endTurn = .ok e) :
    stepSession z (.iterate i) = .ok { z with game := e } := by
  obtain ⟨s₂, hplayed, hended⟩ := bind_eq_ok.mp hplay
  rw [stepSession, if_pos ⟨hlooping, hon⟩, iterate, hselect, bind_ok]
  simp only [hplayed, bind_ok, hended]
  rfl

end Iterate

section Simulation

variable {created : List CardRef} {w : World} {user p : PlayerRef}
  {AIs : List PlayerRef} {z : Session} {y y' : Loop} {j : TurnInput}
  {e : LoopEvent}

/-- The thread moves on from a place between two iterations. -/
theorem between_thread (hrunning : Running created w user AIs z)
    (hstep : stepThread z.loop j = .ok y') :
    ∃ z', Reaches stepSession z z' ∧ Simulates z' y' := by
  cases hthread : z.thread with
  | idle =>
      simp only [stepThread, Session.loop, hthread, Thread.place] at hstep
      split at hstep
      next hpos =>
        cases hstep
        have hstart : stepSession z .start = .ok { z with
            thread := .looping, pending := z.pending - 1 } :=
          if_pos ⟨hthread, hpos⟩
        exact ⟨_, .single hstart, .between rfl⟩
      next => cases hstep
  | leaving =>
      simp only [stepThread, Session.loop, hthread, Thread.place] at hstep
      cases hstep
      have hwake : stepSession z .wake = .ok { z with thread := .idle } :=
        if_pos hthread
      exact ⟨_, .single hwake, .between rfl⟩
  | looping =>
      obtain ⟨-, hblocks, -⟩ := hrunning.phase.looping hthread
      simp only [stepThread, Session.loop, hthread, Thread.place] at hstep
      unfold atHead at hstep
      split at hstep
      next hon =>
        obtain ⟨p, hseat, hstep⟩ := bind_eq_ok.mp hstep
        rw [orFault_eq_ok] at hseat
        split at hstep
        next hout =>
          cases hstep
          refine ⟨_, .single (iterate_skips (i := j) hthread hon hseat hout),
            .between ?_⟩
          simp only [Session.loop, hthread, Thread.place]
        next hin =>
          cases hstep
          exact ⟨z, .refl z, .picked p rfl hthread hon hseat
            (Bool.eq_false_of_not_eq_true hin) (.inl rfl)
            (by simp [hblocks]) rfl⟩
      next hoff =>
        cases hstep
        have hfinish : stepSession z .finish =
            .ok { z with thread := .idle } :=
          if_pos ⟨hthread, Bool.eq_false_of_not_eq_true hoff⟩
        exact ⟨_, .single hfinish, .between rfl⟩

/-- The thread finds a move or prompts the user. -/
theorem picked_thread (hrunning : Running created w user AIs z)
    (hlooping : z.thread = .looping) (hon : z.game.vc.gameOn = true)
    (hseat : z.game.world.players[z.game.vc.turnInd]? = some p)
    (hin : z.game.world.isPlayerRevealed p = false)
    (hgame : y.game = z.game) (hqueue : y.queue = [])
    (hpending : y.pending = z.pending) (hstep : atPicked y p j = .ok y') :
    ∃ z', Reaches stepSession z z' ∧ Simulates z' y' := by
  obtain ⟨-, hblocks, hbuttons⟩ := hrunning.phase.looping hlooping
  obtain ⟨⟨s, selection⟩, htake, hstep⟩ := bind_eq_ok.mp hstep
  rw [hgame] at htake
  have hselect := selectMove_takes hseat hin htake
  rcases takeMove_cases htake with ⟨rfl, -, -, rfl⟩ | ⟨m, rfl, hm⟩
  · cases hstep
    refine ⟨_, .single (iterate_prompts hlooping hon hselect), .between ?_⟩
    simp only [Session.loop, Thread.place, hqueue, hpending, hblocks]
    rfl
  · cases hstep
    have hkept : s.vc.buttons = z.game.vc.buttons := by
      cases hm with
      | user _ _ _ hs => rw [hs]
      | ai w _ _ hs => rw [hs]
    refine ⟨z, .refl z, .turn rfl hlooping (.inl (hkept.trans hbuttons)) ?_
      hpending fun i e hrest => ?_⟩
    · rw [hqueue]
      exact fun block hblock => absurd hblock List.not_mem_nil
    · exact .single (iterate_turns (i := { i with ai := j.ai }) hlooping hon
        hselect hrest)

/-- The End Game button ends the session at the end of the turn. -/
theorem Simulates.quit (h : Simulates z y) :
    ∃ z', Reaches stepSession z z' ∧ Simulates z' y.quit := by
  have hend (z : Session) : Reaches stepSession z
      { z with game := z.game.quit } := .single (e := .endGame) rfl
  cases h with
  | between hloop =>
      refine ⟨_, hend z, .between ?_⟩
      rw [hloop]
      rfl
  | picked p hplace hlooping hon hseat hin hgame hqueue hpending =>
      refine ⟨z, .refl z, .picked p hplace hlooping hon hseat hin (.inr ?_)
        hqueue hpending⟩
      rcases hgame with hgame | hgame
      · exact congrArg State.quit hgame
      · exact (congrArg State.quit hgame).trans (quit_quit _)
  | turn hturn hlooping hbuttons hqueue hpending hrest =>
      refine ⟨z, .refl z, .turn hturn hlooping hbuttons hqueue hpending ?_⟩
      intro i e hquit
      rw [quit_rest] at hquit
      obtain ⟨s, hs, rfl⟩ := map_eq_ok.mp hquit
      exact (hrest i s hs).trans (hend _)

/-- In a turn the thread leaves the buttons alone and sends only blocks that
enable the buttons of the round. -/
theorem LoopMove.turn_kept {F : Footprint} (hmove : LoopMove y j y')
    (hscope : Scoped F y) (hturn : y.place.inTurn = true) :
    y'.game.vc.buttons = y.game.vc.buttons ∧ y'.pending = y.pending ∧
      (y'.queue = y.queue ∨
        y'.queue = y.queue ++ [.enableChallengeButtons]) := by
  obtain ⟨hgame, hplace'⟩ := hscope
  have hstays (s : State) (hs : Stays F y.game s) :
      s.vc.buttons = y.game.vc.buttons := by rw [hs.vc]
  cases hmove with
  | start hplace | pick p hplace | quit hplace | skip p hplace
  | prompt p hplace | choose p m s hplace | wake hplace =>
      rw [hplace] at hturn
      cases hturn
  | expose t o s newCard hplace hname hshow =>
      exact ⟨hstays s (showClaim_stays hgame.owns hshow).1, rfl, .inl rfl⟩
  | act t s place hplace hact =>
      have ht := (within_act hplace hplace').1.curMove
      exact ⟨hstays s (actOnMove_stays hgame.owns (fun _ => hgame.user) ht
        hact), rfl,
        .inl rfl⟩
  | replace t theCard newCard s hplace hreplace =>
      rw [hplace] at hplace'
      exact ⟨hstays s (replaceClaim_stays hgame.owns hplace'.1.currentPlayer
        hplace'.2 hreplace), rfl, .inl rfl⟩
  | judge s hplace hjudge =>
      rcases isGameOver_cases hjudge with ⟨-, player0, -, rfl⟩ | ⟨-, rfl⟩
      all_goals exact ⟨rfl, rfl, .inl rfl⟩
  | send t curMove p hplace => exact ⟨rfl, rfl, .inr rfl⟩
  | _ => exact ⟨rfl, rfl, .inl rfl⟩

/-- At the end of a turn nothing waits in the main queue. -/
theorem Asks.queue_eq_nil (h : Asks user y)
    (hqueue : ∀ block ∈ y.queue, block = .enableChallengeButtons)
    (hplace : ∀ t, ¬ WaitsFor user t y) : y.queue = [] := by
  apply List.eq_nil_iff_forall_not_mem.mpr
  intro block hblock
  obtain rfl := hqueue block hblock
  obtain ⟨-, t, hwaits⟩ := h.offering (.inr (.inr hblock))
  exact hplace t hwaits

/-- Every step of the thread. -/
theorem Simulates.thread {F : Footprint} (h : Simulates z y)
    (hrunning : Running created w user AIs z) (hscope : Scoped F y)
    (hasks : Asks user y) (hstep : stepThread y j = .ok y') :
    ∃ z', Reaches stepSession z z' ∧ Simulates z' y' := by
  cases h with
  | between hloop => exact between_thread hrunning (hloop ▸ hstep)
  | picked p hplace hlooping hon hseat hin hgame hqueue hpending =>
      simp only [stepThread, hplace] at hstep
      rcases hgame with hgame | hgame
      · exact picked_thread hrunning hlooping hon hseat hin hgame hqueue
          hpending hstep
      · let x : Loop := { y with game := z.game }
        have hquit : x.quit = y := by
          rw [Loop.quit, ← hgame]
        rw [← hquit, quit_atPicked] at hstep
        obtain ⟨x', hx, rfl⟩ := map_eq_ok.mp hstep
        obtain ⟨z₁, hreach, hsim⟩ := picked_thread (y := x) hrunning hlooping
          hon hseat hin rfl hqueue hpending hx
        obtain ⟨z₂, hreach', hsim'⟩ := hsim.quit
        exact ⟨z₂, hreach.trans hreach', hsim'⟩
  | turn hturn hlooping hbuttons hqueue hpending hrest =>
      cases hturn' : y'.place.inTurn with
      | true =>
          obtain ⟨hsame, hpending', hsent⟩ :=
            (stepThread_spec hstep).turn_kept hscope hturn
          refine ⟨z, .refl z, .turn hturn' hlooping (hsame ▸ hbuttons) ?_
            (hpending'.trans hpending) fun i e he => ?_⟩
          · intro block hblock
            rcases hsent with hsent | hsent
            · exact hqueue block (hsent ▸ hblock)
            · rw [hsent, List.mem_append, List.mem_singleton] at hblock
              exact hblock.elim (hqueue block) id
          · obtain ⟨i', hi'⟩ :=
              stepThread_rest hstep hturn hturn' hasks.slot he
            exact hrest i' e hi'
      | false =>
          obtain ⟨hhead, hqueue', hpending', hnext, hdone⟩ :=
            stepThread_last hstep hturn hturn'
          obtain ⟨-, hblocks, -⟩ := hrunning.phase.looping hlooping
          have hnone := hasks.queue_eq_nil hqueue fun t ht => by
            obtain ⟨curMove, ht | ht⟩ := ht <;> rw [hnext] at ht <;> cases ht
          refine ⟨_, hrest j y'.game (hdone j), .between ?_⟩
          obtain ⟨game, place, pending, queue⟩ := y'
          simp only at hhead hqueue' hpending'
          simp only [Session.loop, hlooping, Thread.place, hblocks, hhead,
            hqueue', hnone, hpending', hpending]
          rfl

theorem Simulates.deliver (h : Simulates z y) (hasks : Asks user y)
    (hstep : stepLoop y .deliver = .ok y') :
    ∃ z', Reaches stepSession z z' ∧ Simulates z' y' := by
  obtain ⟨block, queue, hblock, rfl⟩ := stepLoop_deliver hstep
  cases h with
  | between hloop =>
      subst hloop
      obtain ⟨n, hn⟩ : ∃ n, z.blocks = n + 1 := by
        cases hblocks : z.blocks with
        | zero =>
            rw [Session.loop, hblocks] at hblock
            cases hblock
        | succ n => exact ⟨n, rfl⟩
      rw [Session.loop, hn, List.replicate_succ] at hblock
      cases hblock
      have hdeliver : stepSession z .deliver = .ok { z with
          game := enableButtons z.game, blocks := z.blocks - 1 } :=
        if_pos (by omega)
      refine ⟨_, .single hdeliver, .between ?_⟩
      simp only [Session.loop, hn, Nat.add_sub_cancel]
      rfl
  | picked p hplace hlooping hon hseat hin hgame hqueue hpending =>
      rw [hqueue] at hblock
      cases hblock
  | turn hturn hlooping hbuttons hqueue hpending hrest =>
      have hmem : block ∈ y.queue := hblock ▸ List.mem_cons_self
      obtain rfl := hqueue block hmem
      obtain ⟨hflag, t, curMove, hplace⟩ := hasks.offering (.inr (.inr hmem))
      refine ⟨z, .refl z, .turn hturn hlooping (.inr rfl) ?_ hpending ?_⟩
      · intro b hb
        exact hqueue b (hblock ▸ List.mem_cons_of_mem _ hb)
      · intro i e he
        exact hrest i e
          ((buttons_rest enableChallengeButtons queue hplace hflag).symm.trans
            he)

theorem Simulates.tap {a : Answer} (h : Simulates z y) (hasks : Asks user y)
    (hone : OneUser user y.game) (hstep : stepLoop y (.tap a) = .ok y') :
    ∃ z', Reaches stepSession z z' ∧ Simulates z' y' := by
  obtain ⟨hflag, ⟨t, curMove, hplace⟩, hslot, -⟩ := hasks.tap hstep
  obtain ⟨s, htap, rfl⟩ : ∃ s, tapAnswer y.game a = .ok s ∧
      y' = { y with game := s } := by
    rw [stepLoop] at hstep
    split at hstep
    next =>
      obtain ⟨s, htap, hstep⟩ := bind_eq_ok.mp hstep
      cases hstep
      exact ⟨s, htap, rfl⟩
    next => cases hstep
  have hoff : s.vc.buttons = disableAllButtons := by
    have hpress : answerBtnPressed y.game a = .ok s := by
      cases a <;> exact htap
    obtain ⟨caller, target, -, -, rfl⟩ := answerBtnPressed_spec hpress
    rfl
  cases h with
  | between hloop =>
      rw [hloop] at hplace
      cases hthread : z.thread <;>
        simp [Session.loop, hthread, Thread.place] at hplace
  | picked p hpicked =>
      rcases hplace with hplace | hplace <;> rw [hpicked] at hplace <;>
        cases hplace
  | turn hturn hlooping hbuttons hqueue hpending hrest =>
      refine ⟨z, .refl z, .turn hturn hlooping (.inl hoff) hqueue hpending ?_⟩
      intro i e he
      obtain ⟨i', hi'⟩ := tap_rest hone hslot hplace hflag htap he
      exact hrest i' e hi'

theorem Simulates.press {q : Press} (h : Simulates z y)
    (hrunning : Running created w user AIs z)
    (hstep : stepLoop y (.press q) = .ok y') :
    ∃ z', Reaches stepSession z z' ∧ Simulates z' y' := by
  obtain ⟨s, hpress, hstep⟩ := bind_eq_ok.mp hstep
  cases hstep
  have henabled := (pressButton_spec hpress).1
  have hoff (hbuttons : y.game.vc.buttons = disableAllButtons ∨
      y.game.vc.buttons = enableChallengeButtons) : False := by
    rcases hbuttons with hbuttons | hbuttons <;> rw [hbuttons] at henabled <;>
      cases q <;> cases henabled
  cases h with
  | between hloop =>
      subst hloop
      have hpressed : stepSession z (.press q) =
          .ok { z with game := s, pending := z.pending + 1 } :=
        bind_eq_ok.mpr ⟨s, hpress, rfl⟩
      exact ⟨_, .single hpressed, .between rfl⟩
  | picked p hplace hlooping hon hseat hin hgame hqueue hpending =>
      obtain ⟨-, -, hbuttons⟩ := hrunning.phase.looping hlooping
      refine (hoff (.inl ?_)).elim
      rcases hgame with hgame | hgame
      · rw [hgame, hbuttons]
      · rw [hgame]
        exact hbuttons
  | turn hturn hlooping hbuttons hqueue hpending hrest =>
      exact (hoff hbuttons).elim

/-- Every event of the loop. -/
theorem Simulates.step {F : Footprint} (h : Simulates z y)
    (hrunning : Running created w user AIs z) (hscope : Scoped F y)
    (hasks : Asks user y) (hone : OneUser user y.game)
    (hstep : stepLoop y e = .ok y') :
    ∃ z', Reaches stepSession z z' ∧ Simulates z' y' := by
  cases e with
  | thread i => exact h.thread hrunning hscope hasks hstep
  | deliver => exact h.deliver hasks hstep
  | tap a => exact h.tap hasks hone hstep
  | press q => exact h.press hrunning hstep
  | endGame =>
      cases hstep
      exact h.quit

end Simulation

/-! ## Runs -/

section Run

variable {w : World} {user : PlayerRef} {AIs : List PlayerRef}
  {base : CardRef} {shuffling dealing : List ℕ} {y₀ y : Loop}
  {es : List LoopEvent}

theorem scoped_run (hlobby : Lobby w user AIs)
    (hopen : openLoop w base shuffling dealing = .ok y₀)
    (hrun : run stepLoop y₀ es = .ok y) :
    Scoped (gameFootprint w.players base) y ∧
      SameTable (w.createCards base) y.game.world := by
  have hscope := openLoop_scoped hlobby hopen
  obtain ⟨s, hload, rfl⟩ := openLoop_eq_ok.mp hopen
  refine run_invariant
    (I := fun z => Scoped (gameFootprint w.players base) z ∧
      SameTable (w.createCards base) z.game.world) ?_ hrun
    ⟨hscope, (viewDidLoad_spec hlobby hload).1.table⟩
  rintro z e z' ⟨hz, htable⟩ hstep
  obtain ⟨hz', hsame⟩ := hz.step hstep
  exact ⟨hz', htable.trans hsame⟩

theorem simulates_run (hlobby : Lobby w user AIs)
    (hname : UserNameUnique w AIs)
    (hopen : openLoop w base shuffling dealing = .ok y₀)
    (hrun : run stepLoop y₀ es = .ok y)
    (hsettled : EachStep stepLoop
      (fun y e _ => ∀ a, e = .tap a → Settled y) y₀ es) :
    ∃ z₀ z, openSession w base shuffling dealing = .ok z₀ ∧
      Reaches stepSession z₀ z ∧ Simulates z y := by
  induction es using List.reverseRecOn generalizing y with
  | nil =>
      cases hrun
      obtain ⟨s, hload, rfl⟩ := openLoop_eq_ok.mp hopen
      exact ⟨_, _, bind_eq_ok.mpr ⟨s, hload, rfl⟩, .refl _, .between rfl⟩
  | append_singleton es e ih =>
      obtain ⟨m, hm, hstep⟩ := run_concat_eq_ok.mp hrun
      have hbefore := eachStep_concat hsettled
      obtain ⟨z₀, z, hstart, ⟨es', hreach⟩, hsim⟩ := ih hm hbefore
      obtain ⟨hscope, htable⟩ := scoped_run hlobby hopen hm
      obtain ⟨z', hreach', hsim'⟩ := hsim.step
        (Running.of_run hlobby hstart hreach) hscope
        (asks_run hlobby hname hopen hm hbefore)
        (oneUser_of_sameTable hlobby hname htable) hstep
      exact ⟨z₀, z', hstart, .trans ⟨es', hreach⟩ hreach', hsim'⟩

/-- If no answer of the user overtakes a block that enables the buttons, then
in every order of the events the threads stay within the sessions: whenever the
game thread is between two iterations of `runGame`, the game, the threads and
the queues are as some session leaves them that deals the same hands. -/
theorem loop_refines_session (hlobby : Lobby w user AIs)
    (hname : UserNameUnique w AIs)
    (hopen : openLoop w base shuffling dealing = .ok y₀)
    (hrun : run stepLoop y₀ es = .ok y)
    (hsettled : EachStep stepLoop
      (fun y e _ => ∀ a, e = .tap a → Settled y) y₀ es)
    (hplace : y.place = .idle ∨ y.place = .head ∨ y.place = .leaving) :
    ∃ z₀ z es', openSession w base shuffling dealing = .ok z₀ ∧
      run stepSession z₀ es' = .ok z ∧ y = z.loop := by
  obtain ⟨z₀, z, hstart, ⟨es', hreach⟩, hsim⟩ :=
    simulates_run hlobby hname hopen hrun hsettled
  refine ⟨z₀, z, es', hstart, hreach, ?_⟩
  cases hsim with
  | between hloop => exact hloop
  | picked p hpicked => simp [hpicked] at hplace
  | turn hturn =>
      rcases hplace with hplace | hplace | hplace <;> rw [hplace] at hturn <;>
        cases hturn

end Run

/-- The user allows the tax, and leaves the game before the turn is over. -/
def leftInTurn : List LoopEvent :=
  calmAnswer ++ .endGame :: List.replicate 11 (calmStep 1)

theorem loop_refines_session_leftInTurn :
    ∃ y z₀ z es', openSession
        (lobbyOf "user" ["Charlie Puth", "Ed Sheeran"] []) 0 (List.range 15)
          [4, 8] = .ok z₀ ∧
      run stepSession z₀ es' = .ok z ∧ y = z.loop ∧ y.place = .head ∧
      y.game.vc.gameOn = false ∧ y.game.vc.turnInd = 2 := by
  have hcheck : checkFrom stepLoop
      (fun y e _ => match e with
        | .tap _ => decide (Settled y)
        | _ => true)
      (fun y => decide (y.place = .head ∧ y.game.vc.gameOn = false ∧
        y.game.vc.turnInd = 2))
      (openLoop (lobbyOf "user" ["Charlie Puth", "Ed Sheeran"] []) 0
        (List.range 15) [4, 8]) leftInTurn = true := by
    decide +kernel
  obtain ⟨y₀, y, hopen, hrun, heach, hend⟩ := exists_of_checkFrom hcheck
  obtain ⟨hhead, hoff, hturn⟩ := of_decide_eq_true hend
  have hsettled : EachStep stepLoop
      (fun y e _ => ∀ a, e = .tap a → Settled y) y₀ leftInTurn := by
    refine heach.imp fun _ _ _ _ _ _ _ h a he => ?_
    subst he
    exact of_decide_eq_true h
  obtain ⟨z₀, z, es', hstart, hrun', hloop⟩ := loop_refines_session
    (lobbyOf_two "user" "Charlie Puth" "Ed Sheeran")
    (lobbyOf_userNameUnique [] (by decide)) hopen hrun hsettled
    (.inr (.inl hhead))
  exact ⟨y, z₀, z, es', hstart, hrun', hloop, hhead, hoff, hturn⟩

end Coup
