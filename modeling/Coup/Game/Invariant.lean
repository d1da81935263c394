import Coup.Game.Iteration

/-!
# The invariant of a session

A game is opened by dealing from a full deck, which establishes `InPlay`.
`Phase` says how the thread, the queue and the buttons fit together: whether
the loop runs, the user is being asked, or a press waits for its work item.
`Running` is both, and every event of a session preserves it.
-/

namespace Coup

open Coup.Support

/-! ## Opening a game -/

theorem assign2Cards_spec {w w' : World} {cards : List CardRef}
    {deck' : CardDeck} {seats : List PlayerRef} {draws : List ℕ}
    (hnodup : seats.Nodup)
    (h : assign2Cards w (cards.map some) seats draws = .ok (w', deck')) :
    ∃ cards' : List CardRef, deck' = cards'.map some ∧
      (cards' ++ w'.handsOf seats).Perm cards ∧ SameTable w w' ∧
      w'.card = w.card ∧ w'.moveLog = w.moveLog ∧
      (∀ p, (w'.player p).coins = (w.player p).coins) ∧
      ∀ p ∉ seats, ∀ i, w'.slot p i = w.slot p i := by
  induction seats generalizing w cards draws with
  | nil =>
      cases h
      exact ⟨cards, rfl, by simp [World.handsOf], .refl _, rfl, rfl,
        fun _ => rfl, fun _ _ _ => rfl⟩
  | cons p seats ih =>
      obtain ⟨hp, hseats⟩ := List.nodup_cons.mp hnodup
      rw [assign2Cards, bind_eq_ok] at h
      obtain ⟨⟨card1, deck₁⟩, hdraw₁, h⟩ := h
      obtain ⟨cards₁, rfl, hperm₁⟩ := giveACard_spec hdraw₁
      rw [bind_eq_ok] at h
      obtain ⟨⟨card2, deck₂⟩, hdraw₂, h⟩ := h
      obtain ⟨cards₂, rfl, hperm₂⟩ := giveACard_spec hdraw₂
      obtain ⟨cards', hdeck, hperm, htable, hcard, hlog, hcoins, hslot⟩ :=
        ih hseats h
      refine ⟨cards', hdeck, ?_, ?_, hcard, hlog, ?_, ?_⟩
      · have hfirst : w'.slot p .first = card1 := by
          rw [hslot p hp]
          simp [World.setSlot_slot]
        have hsecond : w'.slot p .second = card2 := by
          rw [hslot p hp]
          simp [World.setSlot_slot]
        rw [World.handsOf_cons, hfirst, hsecond]
        have hmiddle : (cards' ++ card1 :: card2 :: w'.handsOf seats).Perm
            (card1 :: card2 :: (cards' ++ w'.handsOf seats)) :=
          List.perm_middle.trans (List.perm_middle.cons card1)
        have hdrawn : (card2 :: (cards' ++ w'.handsOf seats)).Perm cards₁ :=
          (hperm.cons card2).trans hperm₂
        exact hmiddle.trans ((hdrawn.cons card1).trans hperm₁)
      · exact ((SameTable.setSlot w p .first card1).trans
          (.setSlot _ p .second card2)).trans htable
      · intro q
        simp [hcoins]
      · intro q hq i
        rw [List.mem_cons, not_or] at hq
        rw [hslot q hq.2]
        simp [World.setSlot_slot, hq.1]

theorem createCards_revealed (w : World) {base c : CardRef}
    (hc : c ∈ createdCards base) :
    ((w.createCards base).card c).revealed = false := by
  obtain ⟨k, hk, rfl⟩ := List.mem_map.mp hc
  have hlt : k < createdRoles.length := List.mem_range.mp hk
  simp [World.createCards, List.getElem?_eq_getElem hlt]

theorem createCards_role (w : World) (base : CardRef) :
    (createdCards base).map (fun c => ((w.createCards base).card c).role) =
      createdRoles := by
  refine List.ext_getElem rfl fun k hk hk' => ?_
  simp [createdCards, World.createCards, List.getElem?_eq_getElem hk']

/-- A game opens with a full deck, dealt face down, and the fields of the
controller as they are declared. -/
theorem viewDidLoad_spec {w : World} {user : PlayerRef} {AIs : List PlayerRef}
    {base : CardRef} {shuffling dealing : List ℕ} {s : State}
    (hlobby : Lobby w user AIs)
    (h : viewDidLoad w base shuffling dealing = .ok s) :
    InPlay (createdCards base) (w.createCards base) user AIs s ∧
      s.world.moveLog = w.moveLog ∧
      (∀ p ∈ s.world.players, s.world.isPlayerRevealed p = false ∧
        (s.world.player p).coins = 2) ∧
      s.vc.didPlayerMove = false ∧ s.vc.turnInd = 0 ∧ s.vc.gameOn = true ∧
      s.vc.buttons = disableAllButtons := by
  rw [viewDidLoad, bind_eq_ok] at h
  obtain ⟨deck, hdeck, h⟩ := h
  obtain ⟨cards, rfl, hperm⟩ := makeDeck_spec hdeck
  rw [bind_eq_ok] at h
  obtain ⟨⟨w', deck'⟩, hdeal, h⟩ := h
  rw [bind_eq_ok] at h
  obtain ⟨user', huser, h⟩ := h
  rw [orFault_eq_ok] at huser
  cases h
  obtain ⟨cards', rfl, hdealt, htable, hcard, hlog, hcoins, -⟩ :=
    assign2Cards_spec hlobby.nodup hdeal
  have hplayers : w'.players = user :: AIs :=
    htable.players.trans hlobby.players
  have hperm' : (cards' ++ w'.handCards).Perm (createdCards base) := by
    have hsame : w'.players = w.players := htable.players
    rw [World.handCards, hsame]
    exact hdealt.trans hperm
  have hdown : ∀ c ∈ createdCards base, (w'.card c).revealed = false := by
    intro c hc
    rw [hcard]
    exact createCards_revealed w hc
  have hhand : ∀ p ∈ w'.players, ∀ i, (w'.held p i).revealed = false := by
    intro p hp i
    refine hdown _ (hperm'.subset (List.mem_append_right _ ?_))
    exact World.slot_mem_handCards hp i
  refine ⟨⟨?_, htable, ?_, ?_, ?_, cards', rfl, ?_⟩, hlog, ?_, rfl, rfl, rfl,
    rfl⟩
  · exact ⟨hlobby.players, hlobby.nodup, hlobby.opponents, hlobby.atMostSix,
      hlobby.userName, hlobby.userAI, hlobby.ai, hlobby.coins⟩
  · rw [hplayers] at huser
    exact (Option.some.inj huser).symm
  · rw [hplayers]
    rfl
  · rw [hplayers]
    exact Nat.succ_pos _
  · refine ⟨createdCards_nodup base, htable.players ▸ hlobby.nodup, ?_, ?_,
      fun _ _ _ => rfl, fun _ _ => rfl⟩
    · rwa [List.append_nil]
    · intro c hc
      rw [List.append_nil] at hc
      exact hdown c (hperm'.subset (List.mem_append_left _ hc))
  · intro p hp
    refine ⟨?_, (hcoins p).trans (hlobby.coins p ?_)⟩
    · rw [World.isPlayerRevealed_eq_false_iff]
      exact ⟨.first, hhand p hp .first⟩
    · exact htable.players ▸ hp

/-! ## Threads, queues and buttons -/

/-- How the thread, the submitted work items, the blocks in the main queue and
the buttons fit together. -/
inductive Phase (y : Session) : Prop
  /-- The loop runs, is about to be entered, or is over. -/
  | running (hthread : y.thread ≠ .leaving)
      (hpending : y.pending = 0 ∨ y.thread = .idle ∧ y.pending = 1)
      (hblocks : y.blocks = 0) (hbuttons : y.game.vc.buttons = disableAllButtons)
      (hmove : y.game.vc.didPlayerMove = true → Pressed y.game)
      (hlive : y.game.vc.didPlayerMove = true → y.game.vc.gameOn = true →
        y.thread = .looping ∨ y.pending = 1)
  /-- The user was asked and has not pressed a button. -/
  | asked (hthread : y.thread ≠ .looping) (hpending : y.pending = 0)
      (hblocks : y.blocks = 0 ∨
        y.blocks = 1 ∧ y.game.vc.buttons = disableAllButtons)
      (hmove : y.game.vc.didPlayerMove = false)
      (huser : ∃ p, UserTurn y.game p)
  /-- The user pressed a button before the loop was left. -/
  | submitted (hthread : y.thread = .leaving) (hpending : y.pending = 1)
      (hblocks : y.blocks = 0) (hbuttons : y.game.vc.buttons = disableAllButtons)
      (hpressed : y.game.vc.didPlayerMove = true) (hmove : Pressed y.game)

/-- The invariant of a session. -/
structure Running (created : List CardRef) (w : World) (user : PlayerRef)
    (AIs : List PlayerRef) (y : Session) : Prop where
  inPlay : InPlay created w user AIs y.game
  phase : Phase y

theorem openSession_spec {w : World} {user : PlayerRef} {AIs : List PlayerRef}
    {base : CardRef} {shuffling dealing : List ℕ} {y : Session}
    (hlobby : Lobby w user AIs)
    (h : openSession w base shuffling dealing = .ok y) :
    Running (createdCards base) (w.createCards base) user AIs y ∧
      y.game.world.moveLog = w.moveLog ∧
      (∀ p ∈ y.game.world.players,
        y.game.world.isPlayerRevealed p = false ∧
          (y.game.world.player p).coins = 2) ∧
      y.game.vc.didPlayerMove = false ∧ y.game.vc.turnInd = 0 ∧
      y.game.vc.gameOn = true := by
  rw [openSession, bind_eq_ok] at h
  obtain ⟨s, hload, h⟩ := h
  cases h
  obtain ⟨hinPlay, hlog, hplayers, hmove, hturn, hon, hbuttons⟩ :=
    viewDidLoad_spec hlobby hload
  refine ⟨⟨hinPlay, ?_⟩, hlog, hplayers, hmove, hturn, hon⟩
  refine .running (by simp) (Or.inr ⟨rfl, rfl⟩) rfl hbuttons ?_ ?_
  · intro hpressed
    rw [hmove] at hpressed
    cases hpressed
  · intro hpressed
    rw [hmove] at hpressed
    cases hpressed

namespace Phase

variable {y : Session}

/-- A press that was made is executed by the next iteration. -/
theorem pressed (h : Phase y) (hmove : y.game.vc.didPlayerMove = true) :
    Pressed y.game := by
  cases h with
  | running _ _ _ _ hpressed _ => exact hpressed hmove
  | asked _ _ _ hnone _ =>
      rw [hnone] at hmove
      cases hmove
  | submitted _ _ _ _ _ hpressed => exact hpressed

theorem live (h : Phase y) (hmove : y.game.vc.didPlayerMove = true)
    (hon : y.game.vc.gameOn = true) :
    y.thread = .looping ∨ y.pending = 1 := by
  cases h with
  | running _ _ _ _ _ hlive => exact hlive hmove hon
  | asked _ _ _ hnone _ =>
      rw [hnone] at hmove
      cases hmove
  | submitted _ hpending _ _ _ _ => exact Or.inr hpending

/-- While an iteration starts, the buttons are off and nothing is queued. -/
theorem looping (h : Phase y) (hthread : y.thread = .looping) :
    y.pending = 0 ∧ y.blocks = 0 ∧
      y.game.vc.buttons = disableAllButtons := by
  cases h with
  | running _ hpending hblocks hbuttons _ _ =>
      refine ⟨?_, hblocks, hbuttons⟩
      rcases hpending with hzero | ⟨hidle, -⟩
      · exact hzero
      · rw [hthread] at hidle
        cases hidle
  | asked hne _ _ _ _ => exact absurd hthread hne
  | submitted hleaving _ _ _ _ _ =>
      rw [hthread] at hleaving
      cases hleaving

/-- The user can press a button only after being asked, and only once. -/
theorem enabled (h : Phase y) {q : Press}
    (hon : q.enabled y.game.vc.buttons = true) :
    y.thread ≠ .looping ∧ y.pending = 0 ∧ y.blocks = 0 ∧
      y.game.vc.didPlayerMove = false ∧ ∃ p, UserTurn y.game p := by
  have hoff : q.enabled disableAllButtons = false := by cases q <;> rfl
  cases h with
  | running _ _ _ hbuttons _ _ =>
      rw [hbuttons, hoff] at hon
      cases hon
  | asked hthread hpending hblocks hmove huser =>
      rcases hblocks with hzero | ⟨-, hbuttons⟩
      · exact ⟨hthread, hpending, hzero, hmove, huser⟩
      · rw [hbuttons, hoff] at hon
        cases hon
  | submitted _ _ _ hbuttons _ _ =>
      rw [hbuttons, hoff] at hon
      cases hon

end Phase

/-! ## Steps that do not touch the game -/

/-- Only buttons, flags of the sheets and `gameOn` may differ. -/
structure SameGame (s s' : State) : Prop where
  world : s'.world = s.world
  user : s'.vc.user = s.vc.user
  AIs : s'.vc.AIs = s.vc.AIs
  cardDeck : s'.vc.cardDeck = s.vc.cardDeck
  turnInd : s'.vc.turnInd = s.vc.turnInd

namespace SameGame

variable {created : List CardRef} {w : World} {user : PlayerRef}
  {AIs : List PlayerRef} {s s' : State}

theorem inPlay (h : SameGame s s') (hin : InPlay created w user AIs s) :
    InPlay created w user AIs s' where
  lobby := hin.lobby
  table := h.world ▸ hin.table
  user := h.user.trans hin.user
  AIs := h.AIs.trans hin.AIs
  turnInd := by
    rw [h.turnInd, h.world]
    exact hin.turnInd
  shows := by
    obtain ⟨cards, hdeck, htable⟩ := hin.shows
    rw [h.world]
    exact ⟨cards, h.cardDeck.trans hdeck, h.world ▸ htable⟩

theorem offered (h : SameGame s s') {q : Press} (hq : q.Offered s) :
    q.Offered s' := by
  cases q with
  | income | foreignAid | tax | exchange => trivial
  | coup target | steal target | assassinate target =>
      simpa only [Press.Offered, coupSheet, stealSheet, assassinateSheet,
        h.world, h.user, h.AIs] using hq

theorem userTurn (h : SameGame s s') {p : PlayerRef} (hs : UserTurn s p) :
    UserTurn s' p := by
  refine ⟨?_, ?_, ?_⟩
  · rw [h.world, h.turnInd]
    exact hs.current
  · rw [h.world]
    exact hs.active
  · rw [h.world]
    exact hs.name

theorem pressed (h : SameGame s s')
    (hmove : s'.vc.playerMove = s.vc.playerMove) (hs : Pressed s) :
    Pressed s' := by
  obtain ⟨q, p, hturn, hoffered, hpress⟩ := hs
  exact ⟨q, p, h.userTurn hturn, h.offered hoffered, hmove.trans hpress⟩

theorem enableButtons (s : State) : SameGame s (enableButtons s) :=
  ⟨rfl, rfl, rfl, rfl, rfl⟩

end SameGame

theorem Submits.sameGame {s s' : State} {m : Move} (h : Submits s m s') :
    SameGame s s' := by
  refine ⟨h.world, ?_, ?_, ?_, ?_⟩ <;> rw [h.vc]

/-! ## One step -/

theorem stepSession_iterate {y y' : Session} {i : TurnInput}
    (h : stepSession y (.iterate i) = .ok y') :
    y.thread = .looping ∧ y.game.vc.gameOn = true ∧
      ∃ exit, iterate y.game i = .ok (y'.game, exit) := by
  rw [stepSession] at h
  split at h
  next hguard =>
    rw [bind_eq_ok] at h
    obtain ⟨⟨s', exit⟩, hiterate, h⟩ := h
    refine ⟨hguard.1, hguard.2, exit, ?_⟩
    cases exit <;> cases h <;> exact hiterate
  next => cases h

/-- The steps of a session. -/
inductive SessionMove (y : Session) : Event → Session → Prop
  | start (hidle : y.thread = .idle) (hpos : 0 < y.pending) :
      SessionMove y .start
        { y with thread := .looping, pending := y.pending - 1 }
  | skip (i : TurnInput) (hlooping : y.thread = .looping)
      (hon : y.game.vc.gameOn = true) (hout : SeatOut y.game) :
      SessionMove y (.iterate i) { y with game := incrementInd y.game }
  | prompt (i : TurnInput) (hlooping : y.thread = .looping)
      (hon : y.game.vc.gameOn = true) (hprompt : Prompts y.game) :
      SessionMove y (.iterate i)
        { y with thread := .leaving, blocks := y.blocks + 1 }
  | turn (i : TurnInput) (p : PlayerRef) (m : Move) (s₁ s₂ s : State)
      (hlooping : y.thread = .looping) (hon : y.game.vc.gameOn = true)
      (hturn : TakesTurn y.game i p m s₁ s₂ s) :
      SessionMove y (.iterate i) { y with game := s }
  | finish (hlooping : y.thread = .looping)
      (hoff : y.game.vc.gameOn = false) :
      SessionMove y .finish { y with thread := .idle }
  | wake (hleaving : y.thread = .leaving) :
      SessionMove y .wake { y with thread := .idle }
  | deliver (hpos : 0 < y.blocks) :
      SessionMove y .deliver
        { y with game := enableButtons y.game, blocks := y.blocks - 1 }
  | press (q : Press) (caller : PlayerRef) (s : State)
      (hon : q.enabled y.game.vc.buttons = true) (hoffered : q.Offered y.game)
      (hcaller : y.game.world.players[y.game.vc.turnInd]? = some caller)
      (hsubmits : Submits y.game (q.move caller) s) :
      SessionMove y (.press q)
        { y with game := s, pending := y.pending + 1 }
  | endGame : SessionMove y .endGame { y with game.vc.gameOn := false }

theorem stepSession_spec {y y' : Session} {e : Event}
    (h : stepSession y e = .ok y') : SessionMove y e y' := by
  cases e with
  | start =>
      rw [stepSession] at h
      split at h
      next hguard => cases h; exact .start hguard.1 hguard.2
      next => cases h
  | iterate i =>
      rw [stepSession] at h
      split at h
      next hguard =>
        obtain ⟨hlooping, hon⟩ := hguard
        rw [bind_eq_ok] at h
        obtain ⟨⟨s, exit⟩, hiterate, h⟩ := h
        rcases iterate_cases hiterate with
          ⟨rfl, hout, rfl⟩ | ⟨rfl, hprompt, rfl⟩ | ⟨rfl, p, m, s₁, s₂, hturn⟩
        · cases h
          exact .skip i hlooping hon hout
        · cases h
          exact .prompt i hlooping hon hprompt
        · cases h
          exact .turn i p m s₁ s₂ s hlooping hon hturn
      next => cases h
  | finish =>
      rw [stepSession] at h
      split at h
      next hguard => cases h; exact .finish hguard.1 hguard.2
      next => cases h
  | wake =>
      rw [stepSession] at h
      split at h
      next hleaving => cases h; exact .wake hleaving
      next => cases h
  | deliver =>
      rw [stepSession] at h
      split at h
      next hpos => cases h; exact .deliver hpos
      next => cases h
  | press q =>
      rw [stepSession, bind_eq_ok] at h
      obtain ⟨s, hpress, h⟩ := h
      cases h
      obtain ⟨hon, hoffered, caller, hcaller, hsubmits⟩ :=
        pressButton_spec hpress
      exact .press q caller s hon hoffered hcaller hsubmits
  | endGame =>
      cases h
      exact .endGame

/-- A step takes a turn or leaves the heap and the globals as they are. -/
theorem stepSession_cases {y y' : Session} {e : Event}
    (h : stepSession y e = .ok y') :
    y'.game.world = y.game.world ∨
      ∃ i p m s₁ s₂, e = .iterate i ∧
        TakesTurn y.game i p m s₁ s₂ y'.game := by
  cases stepSession_spec h with
  | turn i p m s₁ s₂ s _ _ hturn =>
      exact Or.inr ⟨i, p, m, s₁, s₂, rfl, hturn⟩
  | press q caller s _ _ _ hsubmits => exact Or.inl hsubmits.world
  | start | skip | prompt | finish | wake | deliver | endGame =>
      exact Or.inl rfl

section Step

variable {created : List CardRef} {w : World} {user : PlayerRef}
  {AIs : List PlayerRef} {s s₁ s₂ s' : State}

theorem incrementInd_lt (s : State) (h : s.world.players ≠ []) :
    (incrementInd s).vc.turnInd < s.world.players.length := by
  have hpos := List.length_pos_iff.mpr h
  simp only [incrementInd]
  split <;> omega

theorem InPlay.incrementInd (h : InPlay created w user AIs s) :
    InPlay created w user AIs (incrementInd s) where
  lobby := h.lobby
  table := h.table
  user := h.user
  AIs := h.AIs
  turnInd := incrementInd_lt s (by simp [h.players])
  shows := h.shows

theorem TakesTurn.inPlay {i : TurnInput} {p : PlayerRef} {m : Move}
    (hin : InPlay created w user AIs s)
    (hmove : s.vc.didPlayerMove = true → Pressed s)
    (h : TakesTurn s i p m s₁ s₂ s') : InPlay created w user AIs s' := by
  obtain ⟨hpasses, o, -, -, hshows⟩ := h.spec hin hmove
  refine ⟨hin.lobby, hin.table.trans hpasses.table, hpasses.user.trans hin.user,
    hpasses.AIs.trans hin.AIs, ?_, hshows.board⟩
  rw [hpasses.turnInd, hpasses.table.players]
  exact incrementInd_lt s (by simp [hin.players])

/-- A skipped seat keeps the invariant of the loop: it is not the user's. -/
theorem Running.skip {y : Session} (h : Running created w user AIs y)
    (hlooping : y.thread = .looping) (hout : SeatOut y.game) :
    Running created w user AIs { y with game := incrementInd y.game } := by
  obtain ⟨hpending, hblocks, hbuttons⟩ := h.phase.looping hlooping
  have hnone : ¬ y.game.vc.didPlayerMove = true := by
    intro hmove
    obtain ⟨q, p, hturn, -⟩ := h.phase.pressed hmove
    obtain ⟨p', hp', hrevealed⟩ := hout
    rw [hturn.current] at hp'
    cases hp'
    rw [hturn.active] at hrevealed
    cases hrevealed
  exact ⟨h.inPlay.incrementInd, .running (by simp [hlooping])
    (Or.inl hpending) hblocks hbuttons (fun hmove => absurd hmove hnone)
    (fun hmove => absurd hmove hnone)⟩

theorem Running.turn {y : Session} {i : TurnInput} {p : PlayerRef} {m : Move}
    (h : Running created w user AIs y) (hlooping : y.thread = .looping)
    (hturn : TakesTurn y.game i p m s₁ s₂ s') :
    Running created w user AIs { y with game := s' } := by
  obtain ⟨hpending, hblocks, hbuttons⟩ := h.phase.looping hlooping
  have hpressed := h.phase.pressed
  obtain ⟨hpasses, -⟩ := hturn.spec h.inPlay hpressed
  refine ⟨hturn.inPlay h.inPlay hpressed, .running (by simp [hlooping])
    (Or.inl hpending) hblocks ?_ ?_ ?_⟩
  · rcases hpasses.buttons with hkeep | hoff
    · exact hkeep.trans hbuttons
    · exact hoff
  · intro hmove
    rw [hpasses.didPlayerMove] at hmove
    cases hmove
  · intro hmove
    rw [hpasses.didPlayerMove] at hmove
    cases hmove

/-- Every event of a session keeps its invariant. -/
theorem Running.step {y y' : Session} {e : Event}
    (h : Running created w user AIs y) (hstep : stepSession y e = .ok y') :
    Running created w user AIs y' := by
  have hin := h.inPlay
  cases stepSession_spec hstep with
  | skip i hlooping _ hout => exact h.skip hlooping hout
  | turn i p m s₁ s₂ s hlooping _ hturn => exact h.turn hlooping hturn
  | prompt i hlooping _ hprompt =>
      obtain ⟨hpending, hblocks, hbuttons⟩ := h.phase.looping hlooping
      obtain ⟨hwait, huser⟩ := hprompt
      refine ⟨hin, .asked (by simp) hpending (Or.inr ⟨?_, hbuttons⟩) hwait
        huser⟩
      simp [hblocks]
  | start hidle hpos =>
      refine ⟨hin, ?_⟩
      cases h.phase with
      | running hthread hpending hblocks hbuttons hmove hlive =>
          refine .running (by simp) (Or.inl ?_) hblocks hbuttons hmove
            (fun _ _ => Or.inl rfl)
          rcases hpending with hzero | ⟨-, hone⟩
          · omega
          · simp [hone]
      | asked _ hpending _ _ _ => omega
      | submitted hthread _ _ _ _ _ =>
          rw [hidle] at hthread
          cases hthread
  | finish hlooping hoff =>
      obtain ⟨hpending, hblocks, hbuttons⟩ := h.phase.looping hlooping
      refine ⟨hin, .running (by simp) (Or.inl hpending) hblocks hbuttons
        h.phase.pressed ?_⟩
      intro _ hon
      rw [hoff] at hon
      cases hon
  | wake hleaving =>
      refine ⟨hin, ?_⟩
      cases h.phase with
      | running hthread _ _ _ _ _ => exact absurd hleaving hthread
      | asked _ hpending hblocks hmove huser =>
          exact .asked (by simp) hpending hblocks hmove huser
      | submitted _ hpending hblocks hbuttons _ hmove =>
          exact .running (by simp) (Or.inr ⟨rfl, hpending⟩) hblocks hbuttons
            (fun _ => hmove) (fun _ _ => Or.inr hpending)
  | deliver hpos =>
      have hsame := SameGame.enableButtons y.game
      refine ⟨hsame.inPlay hin, ?_⟩
      cases h.phase with
      | running _ _ hblocks _ _ _ => omega
      | asked hthread hpending hblocks hmove huser =>
          obtain ⟨p, huser⟩ := huser
          refine .asked hthread hpending (Or.inl ?_) hmove
            ⟨p, hsame.userTurn huser⟩
          rcases hblocks with hzero | ⟨hone, -⟩
          · omega
          · simp [hone]
      | submitted _ _ hblocks _ _ _ => omega
  | press q caller s hon hoffered hcaller hsubmits =>
      obtain ⟨hthread, hpending, hblocks, -, p, huser⟩ := h.phase.enabled hon
      obtain rfl := huser.unique hcaller
      have hsame := hsubmits.sameGame
      have hbuttons : s.vc.buttons = disableAllButtons := by
        rw [hsubmits.vc]
      have hflag : s.vc.didPlayerMove = true := by rw [hsubmits.vc]
      have hpressed : Pressed s := by
        refine ⟨q, p, hsame.userTurn huser, hsame.offered hoffered, ?_⟩
        rw [hsubmits.vc]
      have hone : y.pending + 1 = 1 := by omega
      refine ⟨hsame.inPlay hin, ?_⟩
      cases hy : y.thread with
      | idle =>
          exact .running (by simp) (Or.inr ⟨rfl, hone⟩) hblocks hbuttons
            (fun _ => hpressed) (fun _ _ => Or.inr hone)
      | looping => exact absurd hy hthread
      | leaving => exact .submitted rfl hone hblocks hbuttons hflag hpressed
  | endGame =>
      have hsame : SameGame y.game { y.game with vc.gameOn := false } :=
        ⟨rfl, rfl, rfl, rfl, rfl⟩
      refine ⟨hsame.inPlay hin, ?_⟩
      cases h.phase with
      | running hthread hpending hblocks hbuttons hmove hlive =>
          exact .running hthread hpending hblocks hbuttons
            (fun hm => hsame.pressed rfl (hmove hm)) (fun _ hon => by cases hon)
      | asked hthread hpending hblocks hmove huser =>
          obtain ⟨p, huser⟩ := huser
          exact .asked hthread hpending hblocks hmove ⟨p, hsame.userTurn huser⟩
      | submitted hthread hpending hblocks hbuttons hflag hmove =>
          exact .submitted hthread hpending hblocks hbuttons hflag
            (hsame.pressed rfl hmove)

end Step

/-- The invariant holds in every state that a game reaches. -/
theorem Running.of_run {w : World} {user : PlayerRef} {AIs : List PlayerRef}
    {base : CardRef} {shuffling dealing : List ℕ} {y₀ y : Session}
    {es : List Event} (hlobby : Lobby w user AIs)
    (hopen : openSession w base shuffling dealing = .ok y₀)
    (hrun : run stepSession y₀ es = .ok y) :
    Running (createdCards base) (w.createCards base) user AIs y :=
  run_invariant (fun _ _ _ h hstep => h.step hstep) hrun
    (openSession_spec hlobby hopen).1

/-! ## Conservation of the cards -/

/-- There are three cards of each role. -/
theorem createdCards_countP (w : World) (base : CardRef) (role : Role) :
    (createdCards base).countP
        (fun c => decide (((w.createCards base).card c).role = role)) = 3 := by
  have hroles : createdRoles.countP (fun r => decide (r = role)) = 3 := by
    cases role <;> decide
  rw [← createCards_role w base, List.countP_map] at hroles
  exact hroles

/-- Between two iterations every card that was made is in exactly one place,
the deck or a hand, and the cards in the deck are face down. -/
theorem cards_conserved {w : World} {user : PlayerRef} {AIs : List PlayerRef}
    {base : CardRef} {shuffling dealing : List ℕ} {y₀ y : Session}
    {es : List Event} (hlobby : Lobby w user AIs)
    (hopen : openSession w base shuffling dealing = .ok y₀)
    (hrun : run stepSession y₀ es = .ok y) :
    (createdCards base).length = 15 ∧ (createdCards base).Nodup ∧
      (∀ role, (createdCards base).countP
        (fun c => decide ((y.game.world.card c).role = role)) = 3) ∧
      ∃ cards : List CardRef, y.game.vc.cardDeck = cards.map some ∧
        (cards ++ y.game.world.handCards).Perm (createdCards base) ∧
        ∀ c ∈ cards, (y.game.world.card c).revealed = false := by
  have hin := (Running.of_run hlobby hopen hrun).inPlay
  obtain ⟨cards, hdeck, htable⟩ := hin.shows
  refine ⟨rfl, createdCards_nodup base, ?_, cards, hdeck, ?_, ?_⟩
  · intro role
    simpa only [hin.table.role] using createdCards_countP w base role
  · have hpartition := htable.partition
    rwa [List.append_nil] at hpartition
  · intro c hc
    exact htable.faceDown c (List.mem_append_left _ hc)

/-- A game of two players, in which the user takes tax. -/
def taxTurn : List Event :=
  [.start, scripted .allow .least 1 [] [], .deliver, .press .tax, .wake, .start]

theorem cards_conserved_taxTurn :
    ∃ y₀ y, openSession (lobbyOf "user" ["Charlie Puth"] []) 0 (List.range 15)
        [4, 8] = .ok y₀ ∧
      run stepSession y₀ taxTurn = .ok y ∧
      (∀ role, (createdCards 0).countP
        (fun c => decide ((y.game.world.card c).role = role)) = 3) ∧
      ∃ cards : List CardRef, y.game.vc.cardDeck = cards.map some ∧
        (cards ++ y.game.world.handCards).Perm (createdCards 0) := by
  have hlast : lastStep stepSession
      (openSession (lobbyOf "user" ["Charlie Puth"] []) 0 (List.range 15)
        [4, 8]) taxTurn (scripted .allow .least 1 [] (List.range 11))
      (fun _ _ => true) = true := by
    decide +kernel
  obtain ⟨y₀, y, -, hopen, hrun, -⟩ := exists_of_lastStep hlast
  obtain ⟨-, -, hroles, cards, hdeck, hperm, -⟩ := cards_conserved
    (lobbyOf_one "user" "Charlie Puth") hopen hrun
  exact ⟨y₀, y, hopen, hrun, hroles, cards, hdeck, hperm⟩

end Coup
