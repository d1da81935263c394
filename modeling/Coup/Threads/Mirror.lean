import Coup.Threads.Display
import Coup.Threads.Scope

/-!
# The screen follows the table

Whenever the game thread changes something that the screen shows, it sends a
block that copies the table, and one step runs from the change to this block.
So in every order of the events the screen shows the table or such a block
waits, and no block traps but one that paints a seat after the challenge round
has passed the last one.
-/

namespace Coup

open Coup.Support

/-! ## The indexes of the loop -/

/-- The player who is being asked. -/
def Place.asked : Place → Option PlayerRef
  | .ask _ _ p | .test _ _ p | .send _ _ p | .use _ _ p => some p
  | _ => none

/-- Whoever is asked sits at the index of the challenge round. -/
def AtSeat (y : Loop) : Prop :=
  ∀ p ∈ y.place.asked,
    y.game.world.players[y.game.vc.challengeTurnInd]? = some p

section Indexes

variable {F : Footprint} {s s' : State} {y y' : Loop} {i : TurnInput}
  {e : LoopEvent}

theorem InRange.stays (h : InRange s) (hs : Stays F s s') : InRange s' := by
  apply h.congr hs.table.players
  all_goals rw [hs.vc]

theorem LoopMove.atSeat (hmove : LoopMove y i y') (hscope : Scoped F y)
    (h : AtSeat y) : AtSeat y' := by
  have htable := (hmove.scoped hscope).2
  cases hmove with
  | skip _ hplace => rw [AtSeat, hplace]; simp [Place.asked]
  | ask t curMove p hplace hseat hask =>
      rintro q ⟨⟩
      exact hseat
  | wait t curMove p hplace hname | notice t curMove p hplace hon
    | retry t curMove p hplace hoff | send t curMove p hplace =>
      rintro q ⟨⟩
      exact h p (by rw [hplace]; rfl)
  | answer t curMove o p w hplace hname hanswer =>
      rintro q ⟨⟩
      have hseat := h p (by rw [hplace]; rfl)
      rwa [← htable.players] at hseat
  | act t s place hplace hact =>
      rcases hplace with ⟨-, rfl⟩ | ⟨-, rfl⟩ | ⟨_, _, -, rfl⟩
      all_goals rintro q ⟨⟩
  | _ => rintro q ⟨⟩

theorem LoopMove.inRange (hmove : LoopMove y i y') (hscope : Scoped F y)
    (hseat : AtSeat y) (h : InRange y.game) : InRange y'.game := by
  have htable := (hmove.scoped hscope).2
  obtain ⟨hgame, hplace'⟩ := hscope
  cases hmove with
  | start | pick | quit | prompt | wake | seat | round | wait | notice | retry
    | send | object | drop => exact h
  | skip | turn => exact h.incrementInd
  | choose p m s hplace hchosen =>
      cases hchosen with
      | user _ _ _ hs =>
          subst hs
          exact h.congr rfl rfl rfl rfl rfl
      | ai w _ _ hs =>
          subst hs
          exact h.congr htable.players rfl rfl rfl rfl
  | claim t hplace hopen =>
      exact ⟨h.players, h.opponents, h.turnInd, Nat.zero_le _⟩
  | log t hplace hfree => exact h.congr rfl rfl rfl rfl rfl
  | pass t curMove p hplace hget hskip =>
      exact ⟨h.players, h.opponents, h.turnInd,
        (List.getElem?_eq_some_iff.mp hget).1⟩
  | ask t curMove p hplace hget hask => exact h.congr rfl rfl rfl rfl rfl
  | answer => exact h.congr htable.players rfl rfl rfl rfl
  | allow t curMove o p hplace hname hanswer hseats =>
      have hget := hseat p (by rw [hplace]; rfl)
      exact ⟨h.players, h.opponents, h.turnInd,
        (List.getElem?_eq_some_iff.mp hget).1⟩
  | expose t o s newCard hplace hname hshow =>
      exact h.stays (showClaim_stays hgame.owns hshow).1
  | fail t o w hplace hname hreveal =>
      exact h.stays (.revealCard hgame.owns hreveal)
  | act t s place hplace hact =>
      have ht := (within_act hplace hplace').1
      exact h.stays (actOnMove_stays hgame.owns (fun _ => hgame.user)
        ht.curMove hact)
  | replace t theCard newCard s hplace hreplace =>
      rw [hplace] at hplace'
      obtain ⟨ht, hnew⟩ := hplace'
      exact h.stays
        (replaceClaim_stays hgame.owns ht.currentPlayer hnew hreplace)
  | judge s hplace hjudge =>
      rcases isGameOver_cases hjudge with ⟨-, player0, -, rfl⟩ | ⟨-, rfl⟩
      · exact h.congr rfl rfl rfl rfl rfl
      · exact h

theorem stepLoop_inRange (hstep : stepLoop y e = .ok y') (hscope : Scoped F y)
    (hseat : AtSeat y) (h : InRange y.game) :
    AtSeat y' ∧ InRange y'.game := by
  cases e with
  | thread i =>
      have hmove := stepThread_spec hstep
      exact ⟨hmove.atSeat hscope hseat, hmove.inRange hscope hseat h⟩
  | deliver =>
      obtain ⟨block, queue, -, rfl⟩ := stepLoop_deliver hstep
      cases block <;> exact ⟨hseat, h.congr rfl rfl rfl rfl rfl⟩
  | tap a =>
      obtain ⟨-, caller, target, -, -, rfl⟩ := stepLoop_tap hstep
      exact ⟨hseat, h.congr rfl rfl rfl rfl rfl⟩
  | press q =>
      obtain ⟨-, caller, s, -, ⟨hworld, hvc⟩, rfl⟩ := stepLoop_press hstep
      constructor
      · intro p hp
        show s.world.players[s.vc.challengeTurnInd]? = some p
        rw [hworld, hvc]
        exact hseat p hp
      · apply h.congr (congrArg World.players hworld)
        all_goals rw [hvc]
  | endGame =>
      cases hstep
      exact ⟨hseat, h.congr rfl rfl rfl rfl rfl⟩

end Indexes

/-! ## What the thread changes and sends -/

section Sends

variable {F : Footprint} {y y' : Loop} {i : TurnInput} {e : LoopEvent}

theorem refresh_mem_reveal (w : World) (p : PlayerRef) :
    ScreenBlock.refresh ∈ revealBlocks w p :=
  List.mem_append_right _ (List.mem_singleton_self _)

theorem refresh_mem_act (w : World) (m : Move) :
    ScreenBlock.refresh ∈ actBlocks w m ++ [.refresh] :=
  List.mem_append_right _ (List.mem_singleton_self _)

/-- A challenge costs somebody a card. -/
theorem refresh_mem_challenge {t : Turn} {o : Move} {place' : Place}
    (hplace : y.place = .objected t o) (hname : o.name = .challenge) :
    ScreenBlock.refresh ∈ y.sends place' := by
  simp only [Loop.sends, hplace, if_pos hname]
  split <;> exact refresh_mem_reveal _ _

/-- When the thread changes what the screen shows, it sends a block that
copies the table again. -/
theorem stepThread_faces (h : stepThread y i = .ok y') (hscope : Scoped F y) :
    ScreenBlock.refresh ∈ y.sends y'.place ∨ SameFaces y.game y'.game := by
  have hmove := stepThread_spec h
  obtain ⟨hgame, hplace'⟩ := hscope
  cases hmove with
  | start | pick | quit | prompt | wake | seat | round | wait | notice | retry
    | send | object | drop => exact .inr (.refl _)
  | skip | turn | claim | log | pass | ask | allow =>
      exact .inr ⟨rfl, rfl, fun _ => rfl, fun _ => rfl, fun _ _ => rfl⟩
  | choose p m s hplace hchosen =>
      right
      cases hchosen with
      | user _ _ _ hs =>
          subst hs
          exact ⟨rfl, rfl, fun _ => rfl, fun _ => rfl, fun _ _ => rfl⟩
      | ai w hname hget hs =>
          subst hs
          rw [hplace] at hplace'
          obtain ⟨-, -, ai, rfl⟩ := getPlayerMove_spec
            ((hgame.seats p).mpr hplace') (hgame.ai p hplace' hname) hget
          exact .setAI ..
  | answer t curMove o p w hplace hname hanswer =>
      obtain ⟨-, rfl | ⟨-, ai, rfl⟩⟩ := getChallengeOrAllow_spec hanswer
      · exact .inr (.refl _)
      · exact .inr (.setAI ..)
  | expose t o s newCard hplace hname hshow
  | fail t o w hplace hname hreveal =>
      exact .inl (refresh_mem_challenge hplace hname)
  | act t s place hplace hact =>
      left
      rcases hplace with ⟨⟨o, hplace, hallow⟩, rfl⟩ | ⟨hplace, rfl⟩ |
        ⟨theCard, newCard, hplace, rfl⟩
      · have hname : o.name ≠ .challenge := by simp [hallow]
        simp only [Loop.sends, hplace, if_neg hname, if_pos hallow]
        exact refresh_mem_act _ _
      · simp only [Loop.sends, hplace]
        exact refresh_mem_act _ _
      · simp only [Loop.sends, hplace]
        exact refresh_mem_act _ _
  | replace t theCard newCard s hplace hreplace =>
      left
      simp only [Loop.sends, hplace]
      exact List.mem_singleton_self _
  | judge s hplace hjudge =>
      right
      rcases isGameOver_cases hjudge with ⟨-, player0, -, rfl⟩ | ⟨-, rfl⟩
      · exact ⟨rfl, rfl, fun _ => rfl, fun _ => rfl, fun _ _ => rfl⟩
      · exact .refl _

theorem stepLoop_faces (hstep : stepLoop y e = .ok y') (hscope : Scoped F y) :
    ScreenBlock.refresh ∈ e.sends y y' ∨ SameFaces y.game y'.game := by
  cases e with
  | thread i => exact stepThread_faces hstep hscope
  | deliver =>
      right
      obtain ⟨block, queue, -, rfl⟩ := stepLoop_deliver hstep
      cases block <;>
        exact ⟨rfl, rfl, fun _ => rfl, fun _ => rfl, fun _ _ => rfl⟩
  | tap a =>
      right
      obtain ⟨-, caller, target, -, -, rfl⟩ := stepLoop_tap hstep
      exact ⟨rfl, rfl, fun _ => rfl, fun _ => rfl, fun _ _ => rfl⟩
  | press q =>
      right
      obtain ⟨-, caller, s, -, ⟨hworld, hvc⟩, rfl⟩ := stepLoop_press hstep
      constructor
      case user => rw [hvc]
      case AIs => rw [hvc]
      all_goals
        intro p
        rw [hworld]
      exact fun _ => rfl
  | endGame =>
      cases hstep
      exact .inr ⟨rfl, rfl, fun _ => rfl, fun _ => rfl, fun _ _ => rfl⟩

/-- A claimed card is shown until the move is executed, which sends a block
that copies the table. -/
theorem stepLoop_showing (hstep : stepLoop y e = .ok y')
    (hshowing : y.place.showing = true) :
    ScreenBlock.refresh ∈ e.sends y y' ∨ y'.place.showing = true := by
  cases e with
  | thread i =>
      left
      cases hplace : y.place <;> rw [hplace] at hshowing <;>
        try cases hshowing
      simp only [LoopEvent.sends, Loop.sends, hplace]
      exact refresh_mem_act _ _
  | deliver =>
      obtain ⟨block, queue, -, rfl⟩ := stepLoop_deliver hstep
      exact .inr hshowing
  | tap a =>
      obtain ⟨-, caller, target, -, -, rfl⟩ := stepLoop_tap hstep
      exact .inr hshowing
  | press q =>
      obtain ⟨-, caller, s, -, -, rfl⟩ := stepLoop_press hstep
      exact .inr hshowing
  | endGame =>
      cases hstep
      exact .inr hshowing

end Sends

/-! ## Every order of events -/

/-- The screen of a game shows the table, or a block waits that will copy it;
while a claimed card is shown, the thread will send one. -/
structure Mirrors (F : Footprint) (d : Display) : Prop where
  scope : Scoped F d.loop
  seat : AtSeat d.loop
  range : InRange d.loop.game
  painted : GameScreen.Painted d.loop.game d.screen
  unshown : d.unshown.players = d.loop.game.world.players
  current : .refresh ∈ d.blocks ∨ d.loop.place.showing = true ∨
    Current d.loop.game d.screen

theorem viewDidLoad_inRange {w : World} {user : PlayerRef}
    {AIs : List PlayerRef} {base : CardRef} {shuffling dealing : List ℕ}
    {s : State} (hlobby : Lobby w user AIs)
    (hload : viewDidLoad w base shuffling dealing = .ok s) : InRange s := by
  obtain ⟨hin, -, -, -, hturn, -⟩ := viewDidLoad_spec hlobby hload
  have hslot : s.vc.challengeTurnInd = 0 := by
    rw [viewDidLoad, bind_eq_ok] at hload
    obtain ⟨deck, -, hload⟩ := hload
    obtain ⟨⟨w', deck'⟩, -, hload⟩ := bind_eq_ok.mp hload
    obtain ⟨user', -, hload⟩ := bind_eq_ok.mp hload
    cases hload
    rfl
  refine ⟨?_, hin.AIs ▸ hlobby.opponents, hin.turnInd, ?_⟩
  · rw [hin.players, hin.user, hin.AIs]
  · rw [hslot]
    exact Nat.zero_le _

section Mirrors

open GameScreen

variable {F : Footprint} {d d' : Display} {e : DisplayEvent} {early : Bool}

/-- Also a thread that is early reads the same seats and indexes. -/
theorem Mirrors.seen (h : Mirrors F d) (early : Bool) :
    InRange (d.seen early) ∧ Painted (d.seen early) d.screen ∧
      (d.seen early).vc = d.loop.game.vc ∧
      (d.seen early).world.players = d.loop.game.world.players ∧
      (d.loop.place.showing = true ∨ d.seen early = d.loop.game) := by
  rw [Display.seen]
  split
  next hshowing =>
    rw [Bool.and_eq_true] at hshowing
    exact ⟨h.range.congr h.unshown rfl rfl rfl rfl,
      ⟨h.painted.length, h.painted.userStack, h.painted.rows⟩, rfl, h.unshown,
      .inl hshowing.2⟩
  next => exact ⟨h.range, h.painted, rfl, rfl, .inr rfl⟩

/-- A row that scrolls into view is filled with what it shows now. -/
theorem Mirrors.willDisplay (h : Mirrors F d) (early : Bool) {row : ℕ}
    (hrow : row < d.screen.rows.length) :
    ∃ d', stepDisplay d (.willDisplay early row) = .ok d' ∧ Mirrors F d' ∧
      d'.loop = d.loop ∧ d'.blocks = d.blocks ∧ d'.lightMode = d.lightMode ∧
      ∀ k, d'.screen.color k = d.screen.color k := by
  obtain ⟨-, hpainted, -, -, hseen⟩ := h.seen early
  have hlength := hpainted.length
  have hrow' : row < d.screen.AICellColors.length := by
    rw [← h.painted.rows, List.length_map]
    exact hrow
  obtain ⟨cell, hcell⟩ : ∃ cell, (d.seen early).world.cell
      ((d.seen early).vc.AIs.getD row noPlayer)
      (d.screen.AICellColors.getD row .clear) = cell := ⟨_, rfl⟩
  have hbackground : ((d.screen.rows.set row cell).map
      fun cell => cell.backgroundColor) = d.screen.AICellColors := by
    have hcolor : cell.backgroundColor = d.screen.AICellColors[row] := by
      rw [← hcell, ← List.getD_eq_getElem _ .clear hrow']
      rfl
    rw [List.map_set, h.painted.rows, hcolor, List.set_getElem_self]
  have hcells (hsame : d.seen early = d.loop.game)
      (hcur : Current d.loop.game d.screen) :
      d.screen.rows.set row cell = d.screen.rows := by
    have hget : d.screen.rows[row] = cell := by
      have hAI : row < d.loop.game.vc.AIs.length := hsame ▸ hlength ▸ hrow'
      simp only [hcur.rows, State.cells, List.getElem_zipWith, ← hcell, hsame,
        List.getD_eq_getElem _ _ hAI, List.getD_eq_getElem _ _ hrow']
    rw [← hget, List.set_getElem_self]
  refine ⟨{ d with screen.rows := d.screen.rows.set row cell }, ?_,
    ⟨h.scope, h.seat, h.range,
      ⟨h.painted.length, h.painted.userStack, hbackground⟩, h.unshown, ?_⟩,
    rfl, rfl, rfl, fun k => ?_⟩
  · rw [stepDisplay, if_pos hrow, cellForRowAt_eq hlength (hlength ▸ hrow'),
      hcell, bind_ok]
    rfl
  · rcases h.current with hwaits | hshowing | hcur
    · exact .inl hwaits
    · exact .inr (.inl hshowing)
    · refine .inr (hseen.imp id fun hsame => ?_)
      exact { hcur with rows := (hcells hsame hcur).trans hcur.rows }
  · rw [color, color, hbackground, h.painted.rows]

theorem unshown_players (y : Loop) :
    y.unshown.players = y.game.world.players := by
  rw [Loop.unshown]
  split
  next o hplace =>
    cases hreveal : y.game.world.revealCard o.caller with
    | error f => rfl
    | ok w => exact (SameTable.revealCard hreveal).players
  next => rfl

/-- Every event of the loop either leaves the screen current or sends a block
that copies the table. -/
theorem Mirrors.loop {e : LoopEvent} (h : Mirrors F d)
    (hstep : stepDisplay d (.loop e) = .ok d') : Mirrors F d' := by
  obtain ⟨y, hy, hstep⟩ := bind_eq_ok.mp hstep
  cases hstep
  obtain ⟨hscope, htable⟩ := h.scope.step hy
  obtain ⟨hseat, hrange⟩ := stepLoop_inRange hy h.scope h.seat h.range
  have hAIs : y.game.vc.AIs.length = d.loop.game.vc.AIs.length := by
    have hlength := hrange.length
    rw [htable.players, h.range.length] at hlength
    omega
  refine ⟨hscope, hseat, hrange,
    ⟨h.painted.length.trans hAIs.symm, h.painted.userStack, h.painted.rows⟩,
    ?_, ?_⟩
  · rw [htable.players]
    cases e with
    | thread i => exact unshown_players d.loop
    | _ => exact h.unshown
  · rcases stepLoop_faces hy h.scope with hsends | hsame
    · exact .inl (List.mem_append_right _ hsends)
    · rcases h.current with hwaits | hshowing | hcur
      · exact .inl (List.mem_append_left _ hwaits)
      · exact (stepLoop_showing hy hshowing).imp
          (List.mem_append_right _) .inl
      · exact .inr (.inr (hcur.congr hsame))

/-- What a block that does not trap has done. -/
theorem Mirrors.runBlock_cases (h : Mirrors F d)
    (hstep : stepDisplay d (.runBlock early) = .ok d') :
    ∃ block blocks x' more, d.blocks = block :: blocks ∧
      d' = { d with screen := x', blocks := blocks ++ more } ∧
      (∀ b ∈ more, ∃ i, b = .turnOver i) ∧
      Repaints (d.seen early) d.screen x'
        ((d.seen early).tint d.lightMode d.screen.color block) ∧
      (block = .refresh → Current (d.seen early) x') := by
  obtain ⟨hrange, hpainted, hvc, -⟩ := h.seen early
  rw [stepDisplay] at hstep
  split at hstep
  next => cases hstep
  next block blocks hblocks =>
    have hlate : ¬ Late (d.seen early) block := by
      intro hlate
      rw [runBlock_late (d := { d with blocks }) hrange hpainted hlate]
        at hstep
      cases hstep
    obtain ⟨x', more, hrun, hmore, hpaint, hrefresh⟩ :=
      runBlock_spec (d := { d with blocks }) hrange hpainted
        (congrArg GameViewController.user hvc) hlate
    rw [hrun] at hstep
    cases hstep
    exact ⟨block, blocks, x', more, hblocks, rfl, hmore, hpaint, hrefresh⟩

theorem Mirrors.runBlock (h : Mirrors F d)
    (hstep : stepDisplay d (.runBlock early) = .ok d') : Mirrors F d' := by
  obtain ⟨-, -, hvc, -, hseen⟩ := h.seen early
  obtain ⟨block, blocks, x', more, hblocks, rfl, -, hpaint, hrefresh⟩ :=
    h.runBlock_cases hstep
  have hpainted : Painted d.loop.game x' :=
    ⟨hpaint.painted.length.trans (congrArg (fun vc => vc.AIs.length) hvc),
      hpaint.painted.userStack, hpaint.painted.rows⟩
  refine ⟨h.scope, h.seat, h.range, hpainted, h.unshown, ?_⟩
  rcases h.current with hwaits | hshowing | hcur
  · rw [hblocks] at hwaits
    rcases List.mem_cons.mp hwaits with hfirst | hrest
    · refine .inr (hseen.imp id fun hsame => ?_)
      exact hsame ▸ hrefresh hfirst.symm
    · exact .inl (List.mem_append_left _ hrest)
  · exact .inr (.inl hshowing)
  · refine .inr (hseen.imp id fun hsame => ?_)
    exact hsame ▸ hpaint.current (hsame.symm ▸ hcur)

theorem Mirrors.step (h : Mirrors F d) (hstep : stepDisplay d e = .ok d') :
    Mirrors F d' := by
  cases e with
  | loop e => exact h.loop hstep
  | runBlock early => exact h.runBlock hstep
  | willDisplay early row =>
      by_cases hrow : row < d.screen.rows.length
      · obtain ⟨d₁, hd₁, hmirrors, -⟩ := h.willDisplay early hrow
        rw [hd₁] at hstep
        cases hstep
        exact hmirrors
      · rw [stepDisplay, if_neg hrow] at hstep
        cases hstep

/-- The screen that a game starts with. -/
theorem openDisplay_spec {w : World} {user : PlayerRef}
    {AIs : List PlayerRef} {base : CardRef} {shuffling dealing : List ℕ}
    {lightMode : Bool} (hlobby : Lobby w user AIs)
    (hopen : openDisplay w base shuffling dealing lightMode = .ok d) :
    Mirrors (gameFootprint w.players base) d ∧ d.loop.place = .idle ∧
      d.blocks = [] ∧ d.lightMode = lightMode ∧
      openLoop w base shuffling dealing = .ok d.loop := by
  rw [openDisplay, bind_eq_ok] at hopen
  obtain ⟨y, hy, hopen⟩ := hopen
  have hscope := openLoop_scoped hlobby hy
  obtain ⟨s, hload, rfl⟩ := openLoop_eq_ok.mp hy
  have hrange := viewDidLoad_inRange hlobby hload
  have hpos := List.length_pos_iff.mpr hrange.opponents
  rw [addAIColors, if_neg (Nat.not_lt.mpr hpos), bind_ok,
    setupUser_eq hrange, bind_ok] at hopen
  have hlength : (({ GameScreen.init with AICellColors :=
      GameScreen.init.AICellColors ++ List.replicate s.vc.AIs.length .clear }
        : GameScreen).showUser s.world s.vc.user).AICellColors.length =
          s.vc.AIs.length := List.length_replicate
  simp only [reloadData_eq hlength] at hopen
  cases hopen
  refine ⟨⟨hscope, ?_, hrange, ⟨hlength, rfl, map_cells hlength⟩, rfl, ?_⟩,
    rfl, rfl, rfl, hy⟩
  · rintro p ⟨⟩
  · exact .inr (.inr ⟨rfl, rfl, rfl, rfl, rfl⟩)

theorem Mirrors.of_run {w : World} {user : PlayerRef} {AIs : List PlayerRef}
    {base : CardRef} {shuffling dealing : List ℕ} {lightMode : Bool}
    {d₀ : Display} {es : List DisplayEvent} (hlobby : Lobby w user AIs)
    (hopen : openDisplay w base shuffling dealing lightMode = .ok d₀)
    (hrun : run stepDisplay d₀ es = .ok d) :
    Mirrors (gameFootprint w.players base) d :=
  run_invariant (fun _ _ _ h hstep => h.step hstep) hrun
    (openDisplay_spec hlobby hopen).1

/-- An event of the screen that is none of the loop leaves the loop alone. -/
theorem Mirrors.step_loop (h : Mirrors F d)
    (hstep : stepDisplay d e = .ok d') :
    d'.loop = d.loop ∨
      ∃ e', e = .loop e' ∧ stepLoop d.loop e' = .ok d'.loop := by
  cases e with
  | loop e =>
      obtain ⟨y, hy, hstep⟩ := bind_eq_ok.mp hstep
      cases hstep
      exact .inr ⟨e, rfl, hy⟩
  | runBlock early =>
      obtain ⟨block, blocks, x', more, -, rfl, -⟩ := h.runBlock_cases hstep
      exact .inl rfl
  | willDisplay early row =>
      left
      rw [stepDisplay] at hstep
      split at hstep
      next =>
        obtain ⟨cell, -, hstep⟩ := bind_eq_ok.mp hstep
        cases hstep
        rfl
      next => cases hstep

/-- Behind the screen the loop takes its own steps. -/
theorem run_loop {w : World} {user : PlayerRef} {AIs : List PlayerRef}
    {base : CardRef} {shuffling dealing : List ℕ} {lightMode : Bool}
    {d₀ : Display} {es : List DisplayEvent} (hlobby : Lobby w user AIs)
    (hopen : openDisplay w base shuffling dealing lightMode = .ok d₀)
    (hrun : run stepDisplay d₀ es = .ok d) :
    openLoop w base shuffling dealing = .ok d₀.loop ∧
      Reaches stepLoop d₀.loop d.loop := by
  obtain ⟨hmirrors, -, -, -, hloop⟩ := openDisplay_spec hlobby hopen
  refine ⟨hloop, run_reaches (I := Mirrors (gameFootprint w.players base))
    Display.loop (fun _ _ _ h hstep => h.step hstep) ?_ hrun hmirrors⟩
  intro d e d' h hstep
  obtain hsame | ⟨e', -, hstep'⟩ := h.step_loop hstep
  · rw [hsame]
    exact .refl _
  · exact .single hstep'

end Mirrors

/-- In every order of the events, also when blocks run late: between two steps
of the thread, once no block waits that copies the table, the screen shows the
coins of all players, the user's cards and the cards of the AIs that are face
up.  Only while a claimed card is shown the screen may be behind. -/
theorem display_current {w : World} {user : PlayerRef} {AIs : List PlayerRef}
    {base : CardRef} {shuffling dealing : List ℕ} {lightMode : Bool}
    {d₀ d : Display} {es : List DisplayEvent} (hlobby : Lobby w user AIs)
    (hopen : openDisplay w base shuffling dealing lightMode = .ok d₀)
    (hrun : run stepDisplay d₀ es = .ok d) (hcopied : .refresh ∉ d.blocks)
    (hplace : d.loop.place.showing = false) :
    Current d.loop.game d.screen := by
  have hmirrors := Mirrors.of_run hlobby hopen hrun
  rcases hmirrors.current with hwaits | hshowing | hcur
  · exact absurd hwaits hcopied
  · rw [hplace] at hshowing
    cases hshowing
  · exact hcur

/-- A step of the thread, in which an AI challenges only at the rate `1`. -/
def calmBlock : DisplayEvent := .loop (scriptedStep .greatest 1)

/-- The user claims tax, the blocks that paint the turn have run, and the AI is
asked; the block that paints its seat waits. -/
def askedOnScreen : List DisplayEvent :=
  [calmBlock, calmBlock, .runBlock false, calmBlock, .loop .deliver,
      .loop (.press .tax)] ++
    List.replicate 3 calmBlock ++ [.runBlock false] ++
    List.replicate 6 calmBlock

/-- The AI allows the tax, and the other blocks run afterwards. -/
def taxOnScreen : List DisplayEvent :=
  askedOnScreen ++ .runBlock false :: List.replicate 4 calmBlock ++
    [.runBlock false, .runBlock true]

theorem display_current_tax :
    ∃ d₀ d, openDisplay firstLobby 1 (List.range 15) [4, 8] true = .ok d₀ ∧
      run stepDisplay d₀ taxOnScreen = .ok d ∧
      (d.loop.game.world.player 0).coins = 5 ∧
      Current d.loop.game d.screen := by
  have hcheck : checkFrom stepDisplay (fun _ _ _ => true)
      (fun d => decide (ScreenBlock.refresh ∉ d.blocks ∧
        d.loop.place.showing = false ∧
        (d.loop.game.world.player 0).coins = 5))
      (openDisplay firstLobby 1 (List.range 15) [4, 8] true)
      taxOnScreen = true := by
    decide +kernel
  obtain ⟨d₀, d, hopen, hrun, -, hend⟩ := exists_of_checkFrom hcheck
  obtain ⟨hcopied, hplace, hcoins⟩ := of_decide_eq_true hend
  exact ⟨d₀, d, hopen, hrun, hcoins, display_current
    (lobbyOf_one "user" "Charlie Puth") hopen hrun hcopied hplace⟩

/-- The oldest block traps exactly if it looks for a row behind the last
seat. -/
theorem Mirrors.runBlock_traps_iff {F : Footprint} {d : Display}
    (h : Mirrors F d) (early : Bool) :
    stepDisplay d (.runBlock early) = .error .trap ↔
      d.blocks.head? = some .showAsked ∧
        d.loop.game.vc.challengeTurnInd = d.loop.game.world.players.length := by
  obtain ⟨hrange, hpainted, hvc, hplayers, -⟩ := h.seen early
  have hlate (block : ScreenBlock) : Late (d.seen early) block ↔
      block = .showAsked ∧ d.loop.game.vc.challengeTurnInd =
        d.loop.game.world.players.length := by
    rw [Late, hvc, hplayers]
  rw [stepDisplay]
  split
  next hnone => simp [hnone]
  next block blocks hblocks =>
    rw [hblocks, List.head?_cons, Option.some_inj, ← hlate]
    constructor
    · intro htrap
      by_contra hearly
      obtain ⟨x', more, hok, -⟩ := runBlock_spec (d := { d with blocks })
        hrange hpainted (congrArg GameViewController.user hvc) hearly
      rw [hok] at htrap
      cases htrap
    · exact runBlock_late (d := { d with blocks }) hrange hpainted

/-- In every order of the events the main queue traps at a block exactly if
the block looks for the seat that is asked after the challenge round has passed
the last one.  (`incrementInd` is one step here; in the source `turnInd` is
`players.count` for an instant.) -/
theorem highlight_traps_iff {w : World} {user : PlayerRef}
    {AIs : List PlayerRef} {base : CardRef} {shuffling dealing : List ℕ}
    {lightMode : Bool} {d₀ d : Display} {es : List DisplayEvent}
    (hlobby : Lobby w user AIs)
    (hopen : openDisplay w base shuffling dealing lightMode = .ok d₀)
    (hrun : run stepDisplay d₀ es = .ok d) (early : Bool) :
    stepDisplay d (.runBlock early) = .error .trap ↔
      d.blocks.head? = some .showAsked ∧
        d.loop.game.vc.challengeTurnInd = d.loop.game.world.players.length :=
  (Mirrors.of_run hlobby hopen hrun).runBlock_traps_iff early

/-- The AI answers before the block that paints its seat has run. -/
theorem highlight_traps_iff_late :
    ∃ d₀ d, openDisplay firstLobby 1 (List.range 15) [4, 8] true = .ok d₀ ∧
      run stepDisplay d₀ (askedOnScreen ++ List.replicate 2 calmBlock) =
        .ok d ∧
      stepDisplay d (.runBlock false) = .error .trap := by
  have hcheck : checkFrom stepDisplay (fun _ _ _ => true)
      (fun d => decide (d.blocks.head? = some .showAsked ∧
        d.loop.game.vc.challengeTurnInd = d.loop.game.world.players.length))
      (openDisplay firstLobby 1 (List.range 15) [4, 8] true)
      (askedOnScreen ++ List.replicate 2 calmBlock) = true := by
    decide +kernel
  obtain ⟨d₀, d, hopen, hrun, -, hend⟩ := exists_of_checkFrom hcheck
  exact ⟨d₀, d, hopen, hrun, (highlight_traps_iff
    (lobbyOf_one "user" "Charlie Puth") hopen hrun false).mpr
      (of_decide_eq_true hend)⟩

end Coup
