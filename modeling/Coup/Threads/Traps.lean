import Coup.Threads.Answers
import Coup.Threads.Highlights
import Coup.Threads.Supply

/-!
# Where the app can crash

The handlers of Allow and Challenge look for the seat at `challengeTurnInd`
without asking whether there is one, and so does the block that paints the seat
that is asked.  In every order of events these are the only traps: whatever
runs between the steps of `runGame`, the game thread finds every seat, every
card and every logged move that it looks for.
-/

namespace Coup

open Coup.Support

/-- What keeps the threads from a trap. -/
structure Sturdy (F : Footprint) (y : Loop) : Prop where
  scope : Scoped F y
  range : InRange y.game
  seat : AtSeat y
  look : ∀ t curMove, y.place = .look t curMove →
    y.game.vc.challengeTurnInd < y.game.world.players.length
  supplied : Supplied y

section Step

variable {F : Footprint} {y y' : Loop} {i : TurnInput} {e : LoopEvent}

/-! ## What a step keeps -/

theorem LoopMove.look (hmove : LoopMove y i y') {t : Turn} {curMove : Move}
    (hplace : y'.place = .look t curMove) :
    y'.game.vc.challengeTurnInd < y'.game.world.players.length := by
  cases hmove with
  | seat _ _ _ hlt => exact hlt
  | skip _ hfrom =>
      rw [hfrom] at hplace
      cases hplace
  | act _ _ _ hfrom =>
      rcases hfrom with ⟨-, rfl⟩ | ⟨-, rfl⟩ | ⟨_, _, -, rfl⟩ <;> cases hplace
  | _ => cases hplace

theorem Sturdy.step (h : Sturdy F y) (hstep : stepLoop y e = .ok y') :
    Sturdy F y' := by
  obtain ⟨hscope, htable⟩ := h.scope.step hstep
  obtain ⟨hseat, hrange⟩ := stepLoop_inRange hstep h.scope h.seat h.range
  refine ⟨hscope, hrange, hseat, ?_, h.supplied.step hstep⟩
  obtain ⟨i, rfl⟩ | hmain := e.thread_or_main
  · exact fun _ _ => (stepThread_spec hstep).look
  · obtain ⟨hplace, -, -, hind⟩ := stepLoop_main hstep hmain
    rw [hplace, hind, htable.players]
    exact h.look

/-! ## The loop -/

namespace Sturdy

/-- The game thread finds a player at each of its indexes. -/
theorem indexes (h : Sturdy F y) :
    ∀ k ∈ y.indexes, k < y.game.world.players.length := by
  intro k hk
  unfold Loop.indexes at hk
  cases hplace : y.place <;> simp only [hplace] at hk
  case head =>
    split at hk
    next =>
      rw [List.mem_singleton.mp hk]
      exact h.range.turnInd
    next => cases hk
  case look t curMove =>
    rw [List.mem_singleton.mp hk]
    exact h.look t curMove hplace
  case use t curMove p =>
    split at hk
    next => cases hk
    next =>
      split at hk
      next => cases hk
      next =>
        have hseat := h.seat p (by rw [hplace]; rfl)
        rcases List.mem_pair.mp hk with rfl | rfl
        · exact (List.getElem?_eq_some_iff.mp hseat).1
        · exact h.range.turnInd
  all_goals cases hk

/-- The game thread does not trap. -/
theorem avoids_stepThread (h : Sturdy F y) (i : TurnInput) :
    Avoids .trap (stepThread y i) := by
  refine h.supplied.avoids_stepThread ?_ h.indexes i
  rw [h.range.players]
  exact List.cons_ne_nil _ _

/-- A tap traps if there is no seat at the index of the challenge round. -/
theorem tap_traps_iff (h : Sturdy F y) (a : Answer) :
    stepLoop y (.tap a) = .error .trap ↔
      a.enabled y.game.vc.buttons = true ∧
        y.game.vc.challengeTurnInd = y.game.world.players.length := by
  have hpress : tapAnswer y.game a = answerBtnPressed y.game a := by
    cases a <;> rfl
  rw [stepLoop, hpress]
  constructor
  · intro htrap
    split at htrap
    next hon =>
      refine ⟨hon, ?_⟩
      by_contra hne
      have hlt := Nat.lt_of_le_of_ne h.range.challengeTurnInd hne
      have havoids : Avoids .trap (answerBtnPressed y.game a) :=
        (avoids_getElem? hlt).bind fun _ _ =>
          (avoids_getElem? h.range.turnInd).bind fun _ _ => avoids_ok _
      exact havoids.bind (fun _ _ => avoids_ok _) htrap
    next => cases htrap
  · rintro ⟨hon, hend⟩
    rw [if_pos hon, answerBtnPressed,
      List.getElem?_eq_none (Nat.le_of_eq hend.symm)]
    rfl

theorem traps_iff (h : Sturdy F y) (e : LoopEvent) :
    stepLoop y e = .error .trap ↔
      ∃ a, e = .tap a ∧ a.enabled y.game.vc.buttons = true ∧
        y.game.vc.challengeTurnInd = y.game.world.players.length := by
  constructor
  · intro htrap
    cases e with
    | thread i => exact absurd htrap (h.avoids_stepThread i)
    | deliver => cases hqueue : y.queue <;> simp [stepLoop, hqueue] at htrap
    | tap a => exact ⟨a, rfl, (h.tap_traps_iff a).mp htrap⟩
    | press q =>
        have havoids : Avoids .trap (stepLoop y (.press q)) :=
          (avoids_pressButton h.range.turnInd q).bind fun _ _ => avoids_ok _
        exact absurd htrap havoids
    | endGame => cases htrap
  · rintro ⟨a, rfl, ha⟩
    exact (h.tap_traps_iff a).mpr ha

end Sturdy

end Step

/-! ## The loop and its screen -/

/-- Answers do not overtake the blocks that enable their buttons, and the
thread does not overtake the block that paints the seat that is asked. -/
def Unhurried (d : Display) (e : DisplayEvent) (_ : Display) : Prop :=
  (∀ a, e = .loop (.tap a) → Settled d.loop) ∧
    ∀ i, e = .loop (.thread i) → .showAsked ∉ d.blocks

def DisplayEvent.ofAnswer : DisplayEvent → Bool
  | .loop (.tap _) => true
  | _ => false

theorem DisplayEvent.ofAnswer_iff {e : DisplayEvent} :
    e.ofAnswer = true ↔ ∃ a, e = .loop (.tap a) := by
  constructor
  · intro h
    unfold DisplayEvent.ofAnswer at h
    split at h
    next a => exact ⟨a, rfl⟩
    next => cases h
  · rintro ⟨a, rfl⟩
    rfl

theorem unhurried_iff {d d' : Display} {e : DisplayEvent} :
    Unhurried d e d' ↔ (e.ofAnswer = true → Settled d.loop) ∧
      (e.ofThread = true → .showAsked ∉ d.blocks) := by
  rw [DisplayEvent.ofAnswer_iff, DisplayEvent.ofThread_iff,
    forall_exists_index, forall_exists_index, Unhurried]

instance (d d' : Display) (e : DisplayEvent) :
    Decidable (Unhurried d e d') :=
  decidable_of_iff _ unhurried_iff.symm

/-- The block that paints the seat that is asked waits only as long as there is
such a seat. -/
def PaintsSeat (d : Display) : Prop :=
  .showAsked ∈ d.blocks →
    d.loop.game.vc.challengeTurnInd < d.loop.game.world.players.length

section Screen

variable {F : Footprint} {d d' : Display} {e : DisplayEvent}

/-- An event of a game and its screen traps exactly if it looks for the seat
that is asked when the challenge round has passed the last one. -/
theorem stepDisplay_traps_iff (hsturdy : Sturdy F d.loop)
    (hmirrors : Mirrors F d) (e : DisplayEvent) :
    stepDisplay d e = .error .trap ↔
      d.loop.game.vc.challengeTurnInd = d.loop.game.world.players.length ∧
        ((∃ a, e = .loop (.tap a) ∧
          a.enabled d.loop.game.vc.buttons = true) ∨
        ∃ early, e = .runBlock early ∧
          d.blocks.head? = some .showAsked) := by
  cases e with
  | loop e =>
      have hloop : stepDisplay d (.loop e) = .error .trap ↔
          stepLoop d.loop e = .error .trap :=
        bind_ok_eq_error
      rw [hloop, hsturdy.traps_iff]
      constructor
      · rintro ⟨a, rfl, hon, hend⟩
        exact ⟨hend, .inl ⟨a, rfl, hon⟩⟩
      · rintro ⟨hend, ⟨a, ha, hon⟩ | ⟨early, hblock, -⟩⟩
        · cases ha
          exact ⟨a, rfl, hon, hend⟩
        · cases hblock
  | runBlock early =>
      rw [hmirrors.runBlock_traps_iff]
      constructor
      · rintro ⟨hhead, hend⟩
        exact ⟨hend, .inr ⟨early, rfl, hhead⟩⟩
      · rintro ⟨hend, ⟨a, ha, -⟩ | ⟨early', -, hhead⟩⟩
        · cases ha
        · exact ⟨hhead, hend⟩
  | willDisplay early row =>
      refine iff_of_false ?_ ?_
      · by_cases hrow : row < d.screen.rows.length
        · obtain ⟨d', hok, -⟩ := hmirrors.willDisplay early hrow
          rw [hok]
          exact avoids_ok d'
        · rw [stepDisplay, if_neg hrow]
          exact avoids_error (by decide)
      · rintro ⟨-, ⟨a, ha, -⟩ | ⟨early', hblock, -⟩⟩
        · cases ha
        · cases hblock

/-- The thread sends the block when it has found somebody to ask. -/
theorem showAsked_sent {y : Loop} {place' : Place}
    (h : .showAsked ∈ y.sends place') : ∃ p, place'.asked = some p := by
  have hreveal : ∀ p, ScreenBlock.showAsked ∉ revealBlocks y.game.world p := by
    simp [revealBlocks]
  have hact : ∀ m, ScreenBlock.showAsked ∉ actBlocks y.game.world m := by
    intro m
    unfold actBlocks
    split
    · exact hreveal _
    · exact hreveal _
    · split <;> simp
    · simp
  unfold Loop.sends at h
  cases hplace : y.place <;> simp only [hplace] at h
  case look =>
    cases place' <;> simp at h
    exact ⟨_, rfl⟩
  case head | use => cases place' <;> simp at h
  case objected t o =>
    split at h
    · split at h <;> exact absurd h (hreveal _)
    · split at h
      · simp [hact] at h
      · cases h
  case free | shown => simp [hact] at h
  all_goals simp at h

theorem PaintsSeat.step (h : PaintsSeat d) (hsturdy : Sturdy F d.loop)
    (hmirrors : Mirrors F d) (htime : Unhurried d e d')
    (hstep : stepDisplay d e = .ok d') : PaintsSeat d' := by
  cases e with
  | loop e =>
      obtain ⟨y, hy, hstep⟩ := bind_eq_ok.mp hstep
      cases hstep
      intro hwaits
      obtain ⟨i, rfl⟩ | hmain := e.thread_or_main
      · have hsent := (List.mem_append.mp hwaits).resolve_left
          (htime.2 i rfl)
        obtain ⟨p, hp⟩ := showAsked_sent hsent
        exact (List.getElem?_eq_some_iff.mp
          ((hsturdy.step hy).seat p hp)).1
      · obtain ⟨-, hworld, -, hind⟩ := stepLoop_main hy hmain
        rw [LoopEvent.sends_main hmain, List.append_nil] at hwaits
        show y.game.vc.challengeTurnInd < y.game.world.players.length
        rw [hind, hworld]
        exact h hwaits
  | runBlock early =>
      obtain ⟨block, blocks, x', more, hblocks, rfl, hmore, -⟩ :=
        hmirrors.runBlock_cases hstep
      intro hwaits
      refine h ?_
      rw [hblocks]
      rcases List.mem_append.mp hwaits with hrest | hnew
      · exact List.mem_cons_of_mem _ hrest
      · obtain ⟨i, hi⟩ := hmore _ hnew
        cases hi
  | willDisplay early row =>
      by_cases hrow : row < d.screen.rows.length
      · obtain ⟨d₁, hd₁, -, hloop, hblocks, -⟩ :=
          hmirrors.willDisplay early hrow
        rw [hd₁] at hstep
        cases hstep
        unfold PaintsSeat
        rw [hloop, hblocks]
        exact h
      · rw [stepDisplay, if_neg hrow] at hstep
        cases hstep

end Screen

/-! ## Every run -/

section Run

variable {w : World} {user : PlayerRef} {AIs : List PlayerRef}
  {base : CardRef} {shuffling dealing : List ℕ} {lightMode : Bool}
  {y₀ y : Loop} {es : List LoopEvent} {d₀ d : Display}
  {fs : List DisplayEvent}

theorem openLoop_sturdy (hlobby : Lobby w user AIs)
    (hopen : openLoop w base shuffling dealing = .ok y₀) :
    Sturdy (gameFootprint w.players base) y₀ := by
  have hscope := openLoop_scoped hlobby hopen
  have hsupplied := openLoop_supplied hlobby hopen
  obtain ⟨s, hload, rfl⟩ := openLoop_eq_ok.mp hopen
  refine ⟨hscope, viewDidLoad_inRange hlobby hload, fun p hasked => ?_,
    fun t curMove hplace => ?_, hsupplied⟩
  · cases hasked
  · cases hplace

theorem Sturdy.of_run (hlobby : Lobby w user AIs)
    (hopen : openLoop w base shuffling dealing = .ok y₀)
    (hrun : run stepLoop y₀ es = .ok y) :
    Sturdy (gameFootprint w.players base) y :=
  run_invariant (fun _ _ _ h hstep => h.step hstep) hrun
    (openLoop_sturdy hlobby hopen)

/-- In every order of events a step traps exactly if the challenge round has
passed the last seat, and it is a tap of Allow or Challenge with the button
still enabled or the block that paints the seat that is asked.  (`incrementInd`
is one step here.) -/
theorem display_traps_iff (hlobby : Lobby w user AIs)
    (hopen : openDisplay w base shuffling dealing lightMode = .ok d₀)
    (hrun : run stepDisplay d₀ fs = .ok d) (e : DisplayEvent) :
    stepDisplay d e = .error .trap ↔
      d.loop.game.vc.challengeTurnInd = d.loop.game.world.players.length ∧
        ((∃ a, e = .loop (.tap a) ∧
          a.enabled d.loop.game.vc.buttons = true) ∨
        ∃ early, e = .runBlock early ∧
          d.blocks.head? = some .showAsked) := by
  obtain ⟨hopen', es, hrun'⟩ := run_loop hlobby hopen hrun
  exact stepDisplay_traps_iff (.of_run hlobby hopen' hrun')
    (.of_run hlobby hopen hrun) e

/-- The buttons are enabled a second time after the user has answered, and the
last player allows the move. -/
def buttonsLeftOn : List DisplayEvent :=
  (hastyAnswer ++ List.replicate 3 (calmStep 1)).map .loop

theorem display_traps_iff_leftOn :
    ∃ d₀ d, openDisplay (lobbyOf "user" ["Charlie Puth", "Ed Sheeran"] []) 0
        (List.range 15) [4, 8] true = .ok d₀ ∧
      run stepDisplay d₀ buttonsLeftOn = .ok d ∧
      stepDisplay d (.loop (.tap .allow)) = .error .trap := by
  have hcheck : checkFrom stepDisplay (fun _ _ _ => true)
      (fun d => decide (d.loop.game.vc.challengeTurnInd =
          d.loop.game.world.players.length ∧
        d.loop.game.vc.buttons.allow = true))
      (openDisplay (lobbyOf "user" ["Charlie Puth", "Ed Sheeran"] []) 0
        (List.range 15) [4, 8] true) buttonsLeftOn = true := by
    decide +kernel
  obtain ⟨d₀, d, hopen, hrun, -, hend⟩ := exists_of_checkFrom hcheck
  obtain ⟨hend, hon⟩ := of_decide_eq_true hend
  exact ⟨d₀, d, hopen, hrun, (display_traps_iff
    (lobbyOf_two "user" "Charlie Puth" "Ed Sheeran") hopen hrun _).mpr
    ⟨hend, .inl ⟨.allow, rfl, hon⟩⟩⟩

/-- What an order of events without haste preserves. -/
structure Sedate (w : World) (base : CardRef) (user : PlayerRef) (d : Display) :
    Prop where
  sturdy : Sturdy (gameFootprint w.players base) d.loop
  mirrors : Mirrors (gameFootprint w.players base) d
  asking : AskingUser w base user d.loop
  paints : PaintsSeat d

theorem Sedate.step {d' : Display} {e : DisplayEvent} (h : Sedate w base user d)
    (hlobby : Lobby w user AIs) (hname : UserNameUnique w AIs)
    (hstep : stepDisplay d e = .ok d') (htime : Unhurried d e d') :
    Sedate w base user d' := by
  have hmirrors := h.mirrors.step hstep
  have hpaints := h.paints.step h.sturdy h.mirrors htime hstep
  rcases h.mirrors.step_loop hstep with hloop | ⟨e', rfl, hstep'⟩
  · exact ⟨hloop ▸ h.sturdy, hmirrors, hloop ▸ h.asking, hpaints⟩
  · refine ⟨h.sturdy.step hstep', hmirrors,
      h.asking.step hlobby hname hstep' fun a ha => ?_, hpaints⟩
    exact htime.1 a (congrArg DisplayEvent.loop ha)

theorem openDisplay_sedate (hlobby : Lobby w user AIs)
    (hopen : openDisplay w base shuffling dealing lightMode = .ok d₀) :
    Sedate w base user d₀ := by
  obtain ⟨hmirrors, -, hblocks, -, hloop⟩ := openDisplay_spec hlobby hopen
  refine ⟨openLoop_sturdy hlobby hloop, hmirrors,
    openLoop_askingUser hlobby hloop, fun hwaits => ?_⟩
  rw [hblocks] at hwaits
  cases hwaits

theorem Sedate.avoids_step (h : Sedate w base user d) (e : DisplayEvent) :
    stepDisplay d e ≠ .error .trap := by
  intro htrap
  obtain ⟨hend, ⟨a, rfl, hon⟩ | ⟨early, rfl, hhead⟩⟩ :=
    (stepDisplay_traps_iff h.sturdy h.mirrors e).mp htrap
  · obtain ⟨-, t, curMove, hwaits⟩ :=
      h.asking.asks.offering (Answer.offering hon)
    have hseat := h.sturdy.seat user (by
      rcases hwaits with hplace | hplace <;> rw [hplace] <;> rfl)
    have hlt := (List.getElem?_eq_some_iff.mp hseat).1
    exact absurd hend (Nat.ne_of_lt hlt)
  · exact absurd hend (Nat.ne_of_lt (h.paints (List.mem_of_head? hhead)))

/-- If no answer overtakes a block that enables the buttons, and the thread
does not overtake a block that paints the seat that is asked, no event
traps. -/
theorem unhurried_never_traps (hlobby : Lobby w user AIs)
    (hname : UserNameUnique w AIs)
    (hopen : openDisplay w base shuffling dealing lightMode = .ok d₀)
    (hrun : run stepDisplay d₀ fs = .ok d)
    (htime : EachStep stepDisplay Unhurried d₀ fs) (e : DisplayEvent) :
    stepDisplay d e ≠ .error .trap :=
  (run_invariant_of_eachStep
    (fun _ _ _ h hstep htime => h.step hlobby hname hstep htime) hrun htime
    (openDisplay_sedate hlobby hopen)).avoids_step e

/-- The user answers once the block has arrived, and the thread waits until its
seat is painted. -/
def calmScreen : List DisplayEvent :=
  (calmAnswer.take 18).map .loop ++ List.replicate 5 (.runBlock false) ++
    (calmAnswer.drop 18).map .loop

theorem unhurried_never_traps_calm :
    ∃ d₀ d, openDisplay (lobbyOf "user" ["Charlie Puth", "Ed Sheeran"] []) 0
        (List.range 15) [4, 8] true = .ok d₀ ∧
      run stepDisplay d₀ calmScreen = .ok d ∧
      d.loop.game.vc.didPlayerChallengeOrAllow = true ∧
      ∀ e, stepDisplay d e ≠ .error .trap := by
  have hcheck : checkFrom stepDisplay
      (fun d e d' => decide (Unhurried d e d'))
      (fun d => d.loop.game.vc.didPlayerChallengeOrAllow)
      (openDisplay (lobbyOf "user" ["Charlie Puth", "Ed Sheeran"] []) 0
        (List.range 15) [4, 8] true) calmScreen = true := by
    decide +kernel
  obtain ⟨d₀, d, hopen, hrun, heach, hend⟩ := exists_of_checkFrom hcheck
  have htime : EachStep stepDisplay Unhurried d₀ calmScreen :=
    heach.imp fun _ _ _ _ _ _ _ h => of_decide_eq_true h
  exact ⟨d₀, d, hopen, hrun, hend, unhurried_never_traps
    (lobbyOf_two "user" "Charlie Puth" "Ed Sheeran")
    (lobbyOf_userNameUnique [] (by decide)) hopen hrun htime⟩

end Run

end Coup
