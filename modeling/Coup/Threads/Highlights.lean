import Coup.Threads.Mirror

/-!
# Whose turn it is on the screen

The blocks that paint the seats read the indexes when they run.  If every block
runs before the thread goes on, they find the indexes that they were sent for:
the seat of the current player is gray while a move is chosen, and in a
challenge round the seat of the player who is asked, and no other, is purple.
-/

namespace Coup

open Coup.Support

/-! ## In time -/

/-- The thread goes on only when the main queue has run all its blocks. -/
def Punctual (d : Display) (e : DisplayEvent) (_ : Display) : Prop :=
  ∀ i, e = .loop (.thread i) → d.blocks = []

def LoopEvent.ofThread : LoopEvent → Bool
  | .thread _ => true
  | _ => false

def DisplayEvent.ofThread : DisplayEvent → Bool
  | .loop e => e.ofThread
  | _ => false

theorem DisplayEvent.ofThread_iff {e : DisplayEvent} :
    e.ofThread = true ↔ ∃ i, e = .loop (.thread i) := by
  constructor
  · intro h
    cases e with
    | loop e =>
        cases e with
        | thread i => exact ⟨i, rfl⟩
        | _ => cases h
    | _ => cases h
  · rintro ⟨i, rfl⟩
    rfl

theorem punctual_iff {d d' : Display} {e : DisplayEvent} :
    Punctual d e d' ↔ (e.ofThread = true → d.blocks = []) := by
  rw [DisplayEvent.ofThread_iff, forall_exists_index, Punctual]

instance (d d' : Display) (e : DisplayEvent) : Decidable (Punctual d e d') :=
  decidable_of_iff _ punctual_iff.symm

/-- The colours of the seats once the blocks that wait have run. -/
def Display.finalColor (d : Display) : ℕ → CellColor :=
  d.blocks.foldl (d.loop.game.tint d.lightMode) d.screen.color

/-- The turn of a player has begun, and no move is announced yet or it cannot
be challenged. -/
def Place.choosing : Place → Bool
  | .picked _ | .leaving | .chosen _ | .free _ => true
  | _ => false

/-- The thread looks for the next player to ask. -/
def Place.seeking : Place → Bool
  | .slot _ _ | .look _ _ => true
  | _ => false

/-- No colour, or the colour of the current player. -/
def Plain (s : State) (color : CellColor) (k : ℕ) : Prop :=
  color = .clear ∨ color = .lightGray ∧ k = s.vc.turnInd

/-- The colours that belong to the place of the thread. -/
structure Tinted (y : Loop) (lightMode : Bool) (color : ℕ → CellColor) :
    Prop where
  choosing : y.place.choosing = true → ∀ k, color k =
    if k = y.game.vc.turnInd then .lightGray else .clear
  seeking : y.place.seeking = true → ∀ k, Plain y.game (color k) k
  asked : y.place.asked.isSome = true → ∀ k,
    if k = y.game.vc.challengeTurnInd then
      color k = GameScreen.purple lightMode
    else Plain y.game (color k) k

section Tint

variable {s s' : State} {lightMode : Bool} {color : ℕ → CellColor}
  {y y' : Loop} {i : TurnInput} {e : LoopEvent}

theorem tint_congr (hturn : s'.vc.turnInd = s.vc.turnInd)
    (hslot : s'.vc.challengeTurnInd = s.vc.challengeTurnInd) :
    s'.tint lightMode = s.tint lightMode := by
  funext color block k
  cases block <;> simp only [State.tint, hturn, hslot]

theorem foldl_tint_turnOver {more : List ScreenBlock}
    (h : ∀ b ∈ more, ∃ i, b = .turnOver i) :
    more.foldl (s.tint lightMode) color = color := by
  induction more with
  | nil => rfl
  | cons b more ih =>
      obtain ⟨i, rfl⟩ := h b List.mem_cons_self
      exact ih fun b hb => h b (List.mem_cons_of_mem _ hb)

theorem purple_ne (lightMode : Bool) :
    GameScreen.purple lightMode ≠ .clear ∧
      GameScreen.purple lightMode ≠ .lightGray := by
  cases lightMode <;> decide

/-- At a place that shows nothing any colours will do. -/
theorem tinted_of_place {place : Place} (hplace : y.place = place)
    (hchoosing : place.choosing = false) (hseeking : place.seeking = false)
    (hasked : place.asked = none) : Tinted y lightMode color := by
  constructor
  · rw [hplace, hchoosing]
    exact fun h => by cases h
  · rw [hplace, hseeking]
    exact fun h => by cases h
  · rw [hplace, hasked]
    exact fun h => by cases h

theorem Tinted.of_choosing (hplace : y.place.choosing = true)
    (h : ∀ k, color k =
      if k = y.game.vc.turnInd then .lightGray else .clear) :
    Tinted y lightMode color := by
  refine ⟨fun _ => h, ?_, ?_⟩
  all_goals cases hp : y.place <;> simp_all [Place.choosing, Place.seeking,
    Place.asked]

theorem Tinted.of_seeking (hplace : y.place.seeking = true)
    (h : ∀ k, Plain y.game (color k) k) : Tinted y lightMode color := by
  refine ⟨?_, fun _ => h, ?_⟩
  all_goals cases hp : y.place <;> simp_all [Place.choosing, Place.seeking,
    Place.asked]

theorem Tinted.of_asked {p : PlayerRef} (hplace : y.place.asked = some p)
    (h : ∀ k, if k = y.game.vc.challengeTurnInd then
        color k = GameScreen.purple lightMode
      else Plain y.game (color k) k) : Tinted y lightMode color := by
  refine ⟨?_, ?_, fun _ => h⟩
  all_goals cases hp : y.place <;> simp_all [Place.choosing, Place.seeking,
    Place.asked]

/-- The move of the thread and the block that it sends go together. -/
theorem stepThread_tinted (h : stepThread y i = .ok y')
    (htinted : Tinted y lightMode color) :
    Tinted y' lightMode
      ((y.sends y'.place).foldl (y'.game.tint lightMode) color) := by
  have hmove := stepThread_spec h
  cases hmove with
  | start | quit | wake | round | object | expose | fail | drop | replace
    | judge | turn => exact tinted_of_place rfl rfl rfl rfl
  | skip p hplace => exact tinted_of_place hplace rfl rfl rfl
  | act t s place hplace hact =>
      rcases hplace with ⟨-, rfl⟩ | ⟨-, rfl⟩ | ⟨_, _, -, rfl⟩
      all_goals exact tinted_of_place rfl rfl rfl rfl
  | pick p hplace hon hseat hin =>
      simp only [Loop.sends, hplace]
      exact .of_choosing rfl fun k => rfl
  | prompt p hplace hname hwait =>
      simp only [Loop.sends, hplace, List.foldl_nil]
      exact .of_choosing rfl (htinted.choosing (by rw [hplace]; rfl))
  | choose p m s hplace hchosen =>
      have hturn : s.vc.turnInd = y.game.vc.turnInd := by
        cases hchosen with
        | user _ _ _ hs => rw [hs]
        | ai w _ _ hs => rw [hs]
      simp only [Loop.sends, hplace, List.foldl_nil]
      apply Tinted.of_choosing rfl
      rw [hturn]
      exact htinted.choosing (by rw [hplace]; rfl)
  | claim t hplace hopen =>
      simp only [Loop.sends, hplace, List.foldl_nil]
      refine .of_seeking rfl fun k => ?_
      rw [htinted.choosing (by rw [hplace]; rfl) k]
      split
      next hk => exact .inr ⟨rfl, hk⟩
      next => exact .inl rfl
  | log t hplace hfree =>
      simp only [Loop.sends, hplace, List.foldl_nil]
      exact .of_choosing rfl (htinted.choosing (by rw [hplace]; rfl))
  | seat t curMove hplace hlt =>
      simp only [Loop.sends, hplace, List.foldl_nil]
      exact .of_seeking rfl (htinted.seeking (by rw [hplace]; rfl))
  | pass t curMove p hplace hseat hskip =>
      simp only [Loop.sends, hplace, List.foldl_nil]
      exact .of_seeking rfl (htinted.seeking (by rw [hplace]; rfl))
  | ask t curMove p hplace hseat hask =>
      simp only [Loop.sends, hplace]
      refine .of_asked (p := p) rfl fun k => ?_
      have hplain := htinted.seeking (by rw [hplace]; rfl) k
      split
      next hk => exact if_pos hk
      next hk =>
        show Plain _ (if k = y.game.vc.challengeTurnInd then
          GameScreen.purple lightMode else color k) k
        rw [if_neg hk]
        exact hplain
  | wait t curMove p hplace | notice t curMove p hplace
    | retry t curMove p hplace | send t curMove p hplace
    | answer t curMove o p w hplace =>
      simp only [Loop.sends, hplace, List.foldl_nil]
      exact .of_asked (p := p) rfl (htinted.asked (by rw [hplace]; rfl))
  | allow t curMove o p hplace hname hanswer hseats =>
      simp only [Loop.sends, hplace]
      exact .of_seeking rfl fun k => .inl rfl

/-- The main thread leaves the place and both indexes alone. -/
theorem stepLoop_tinted (hstep : stepLoop y e = .ok y')
    (hthread : ∀ i, e ≠ .thread i) (htinted : Tinted y lightMode color) :
    Tinted y' lightMode color ∧
      y'.game.tint lightMode = y.game.tint lightMode := by
  obtain ⟨hplace, -, hturn, hslot⟩ := stepLoop_main hstep hthread
  refine ⟨⟨?_, ?_, ?_⟩, tint_congr hturn hslot⟩
  · rw [hplace, hturn]
    exact htinted.choosing
  · rw [hplace]
    simp only [Plain, hturn]
    exact htinted.seeking
  · rw [hplace, hslot]
    simp only [Plain, hturn]
    exact htinted.asked

end Tint

/-! ## Every order of events in time -/

section InTime

open GameScreen

variable {F : Footprint} {d d' : Display} {e : DisplayEvent}

/-- A block that runs does not change what the colours will be. -/
theorem Mirrors.finalColor_runBlock {early : Bool} (h : Mirrors F d)
    (hstep : stepDisplay d (.runBlock early) = .ok d') :
    d'.finalColor = d.finalColor ∧ d'.loop = d.loop ∧
      d'.lightMode = d.lightMode := by
  obtain ⟨-, -, hvc, -⟩ := h.seen early
  obtain ⟨block, blocks, x', more, hblocks, rfl, hmore, hpaint, -⟩ :=
    h.runBlock_cases hstep
  have htint : (d.seen early).tint d.lightMode =
      d.loop.game.tint d.lightMode := by
    apply tint_congr <;> rw [hvc]
  have hcolor : x'.color = d.loop.game.tint d.lightMode d.screen.color
      block := by
    rw [← htint]
    exact funext hpaint.color
  refine ⟨?_, rfl, rfl⟩
  show (blocks ++ more).foldl (d.loop.game.tint d.lightMode) x'.color = _
  rw [List.foldl_append, foldl_tint_turnOver hmore, hcolor,
    Display.finalColor, hblocks, List.foldl_cons]

/-- What the punctual order of events preserves. -/
theorem Mirrors.tinted_step (h : Mirrors F d)
    (htinted : Tinted d.loop d.lightMode d.finalColor)
    (hstep : stepDisplay d e = .ok d') (htime : Punctual d e d') :
    Tinted d'.loop d'.lightMode d'.finalColor := by
  cases e with
  | loop e =>
      obtain ⟨y, hy, hstep⟩ := bind_eq_ok.mp hstep
      cases hstep
      obtain ⟨i, rfl⟩ | hmain := e.thread_or_main
      · have hnone : d.blocks = [] := htime i rfl
        rw [Display.finalColor, hnone, List.foldl_nil] at htinted
        have hnext := stepThread_tinted hy htinted
        rw [Display.finalColor]
        simp only [hnone, List.nil_append]
        exact hnext
      · obtain ⟨hnext, htint⟩ := stepLoop_tinted hy hmain htinted
        rw [Display.finalColor]
        simp only [LoopEvent.sends_main hmain, List.append_nil, htint]
        exact hnext
  | runBlock early =>
      obtain ⟨hcolor, hloop, hmode⟩ := h.finalColor_runBlock hstep
      rw [hcolor, hloop, hmode]
      exact htinted
  | willDisplay early row =>
      by_cases hrow : row < d.screen.rows.length
      · obtain ⟨d₁, hd₁, -, hloop, hblocks, hmode, hcolor⟩ :=
          h.willDisplay early hrow
        rw [hd₁] at hstep
        cases hstep
        have hsame : d'.finalColor = d.finalColor := by
          rw [Display.finalColor, Display.finalColor, hloop, hblocks, hmode,
            funext hcolor]
        rw [hsame, hloop, hmode]
        exact htinted
      · rw [stepDisplay, if_neg hrow] at hstep
        cases hstep

end InTime

/-- If every block runs before the thread goes on, then, as soon as the blocks
have run, the screen shows whose turn it is: while a move is chosen the seat of
the current player is gray and the others are clear, and in a challenge round
the seat of the player who is asked is purple, and no other seat is. -/
theorem highlights_in_time {w : World} {user : PlayerRef}
    {AIs : List PlayerRef} {base : CardRef} {shuffling dealing : List ℕ}
    {lightMode : Bool} {d₀ d : Display} {es : List DisplayEvent}
    (hlobby : Lobby w user AIs)
    (hopen : openDisplay w base shuffling dealing lightMode = .ok d₀)
    (hrun : run stepDisplay d₀ es = .ok d)
    (htime : EachStep stepDisplay Punctual d₀ es) (hdone : d.blocks = []) :
    (d.loop.place.choosing = true → ∀ k, d.screen.color k =
      if k = d.loop.game.vc.turnInd then .lightGray else .clear) ∧
    ∀ p ∈ d.loop.place.asked,
      d.loop.game.world.players[d.loop.game.vc.challengeTurnInd]? = some p ∧
      ∀ k, (d.screen.color k = GameScreen.purple d.lightMode ↔
          k = d.loop.game.vc.challengeTurnInd) ∧
        (d.screen.color k = .lightGray → k = d.loop.game.vc.turnInd) := by
  obtain ⟨hstart, hidle, hblocks, -⟩ := openDisplay_spec hlobby hopen
  have hboth : Mirrors (gameFootprint w.players base) d ∧
      Tinted d.loop d.lightMode d.finalColor := by
    refine run_invariant_of_eachStep (P := Punctual)
      (I := fun d => Mirrors (gameFootprint w.players base) d ∧
        Tinted d.loop d.lightMode d.finalColor) ?_ hrun htime
      ⟨hstart, tinted_of_place hidle rfl rfl rfl⟩
    rintro d e d' ⟨hmirrors, htinted⟩ hstep hpunctual
    exact ⟨hmirrors.step hstep, hmirrors.tinted_step htinted hstep hpunctual⟩
  obtain ⟨hmirrors, htinted⟩ := hboth
  rw [Display.finalColor, hdone, List.foldl_nil] at htinted
  refine ⟨htinted.choosing, fun p hp => ⟨hmirrors.seat p hp, fun k => ?_⟩⟩
  have hasked := htinted.asked (Option.isSome_iff_exists.mpr ⟨p, hp⟩) k
  obtain ⟨hclear, hgray⟩ := purple_ne d.lightMode
  split at hasked
  next hk =>
    refine ⟨⟨fun _ => hk, fun _ => hasked⟩, fun h => ?_⟩
    exact absurd (hasked.symm.trans h) hgray
  next hk =>
    rcases hasked with h | ⟨h, hturn⟩ <;> rw [h]
    · exact ⟨⟨fun h' => absurd h'.symm hclear, fun h' => absurd h' hk⟩,
        fun h' => by cases h'⟩
    · exact ⟨⟨fun h' => absurd h'.symm hgray, fun h' => absurd h' hk⟩,
        fun _ => hturn⟩

theorem highlights_in_time_tax :
    ∃ d₀ d, openDisplay firstLobby 1 (List.range 15) [4, 8] true = .ok d₀ ∧
      run stepDisplay d₀ (askedOnScreen ++ [.runBlock false]) = .ok d ∧
      ∀ k, d.screen.color k = .lightPurple ↔ k = 1 := by
  have hcheck : checkFrom stepDisplay
      (fun d e d' => decide (Punctual d e d'))
      (fun d => decide (d.blocks = [] ∧ d.loop.place.asked = some 1 ∧
        d.loop.game.vc.challengeTurnInd = 1 ∧ d.lightMode = true))
      (openDisplay firstLobby 1 (List.range 15) [4, 8] true)
      (askedOnScreen ++ [.runBlock false]) = true := by
    decide +kernel
  obtain ⟨d₀, d, hopen, hrun, heach, hend⟩ := exists_of_checkFrom hcheck
  obtain ⟨hdone, hasked, hslot, hmode⟩ := of_decide_eq_true hend
  have htime : EachStep stepDisplay Punctual d₀
      (askedOnScreen ++ [.runBlock false]) :=
    heach.imp fun _ _ _ _ _ _ _ h => of_decide_eq_true h
  have hcolors := (highlights_in_time (lobbyOf_one "user" "Charlie Puth")
    hopen hrun htime hdone).2 1 (by rw [hasked]; rfl)
  rw [hslot, hmode] at hcolors
  exact ⟨d₀, d, hopen, hrun, fun k => (hcolors.2 k).1⟩

end Coup
