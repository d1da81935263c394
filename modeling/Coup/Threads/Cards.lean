import Coup.Threads.Scope

/-!
# The cards in every order of events

Between two iterations of `runGame` every card is in the deck or in a hand.
While a claimed card is shown, the card that will replace it is in the local
variable `newCard` of the game thread.  With it, the cards are conserved at
every step of the loop, whatever the main thread does in between.  (An exchange
is within one step; its two cards are in `twoCards` meanwhile.)
-/

namespace Coup

open Coup.Support

/-- The card that the thread keeps in `newCard`. -/
def Place.parked : Place → List CardRef
  | .shown _ _ newCard | .acted _ _ newCard => [newCard]
  | _ => []

/-- Executing the move leaves `newCard` where it is. -/
theorem parked_act {place place' : Place} {t : Turn}
    (hplace : (∃ o, place = .objected t o ∧ o.name = .allow) ∧
        place' = .ending ∨
      place = .free t ∧ place' = .ending ∨
      ∃ theCard newCard, place = .shown t theCard newCard ∧
        place' = .acted t theCard newCard) :
    place'.parked = place.parked := by
  rcases hplace with ⟨⟨o, rfl, -⟩, rfl⟩ | ⟨rfl, rfl⟩ | ⟨_, _, rfl, rfl⟩ <;>
    rfl

/-- A card is shown only if the claim names one. -/
def Place.Claims : Place → Prop
  | .shown _ theCard _ | .acted _ theCard _ => ∃ j, slotOf theCard = some j
  | _ => True

/-- Every card is in the deck, in a hand or with the thread. -/
structure Holding (created : List CardRef) (y : Loop) : Prop where
  claims : y.place.Claims
  shows : Shows created y.game y.place.parked y.game.world.board

section Step

variable {F : Footprint} {created parked : List CardRef} {s s' : State}
  {b : Board PlayerRef} {y y' : Loop} {i : TurnInput} {e : LoopEvent}

theorem Shows.congr (h : Shows created s parked b)
    (hdeck : s'.vc.cardDeck = s.vc.cardDeck)
    (hplayers : s'.world.players = s.world.players)
    (hcard : s'.world.card = s.world.card)
    (hslot : ∀ p i, s'.world.slot p i = s.world.slot p i)
    (hcoins : ∀ p, (s'.world.player p).coins = (s.world.player p).coins) :
    Shows created s' parked b := by
  obtain ⟨cards, hcards, htable⟩ := h
  refine ⟨cards, hdeck.trans hcards, ?_⟩
  exact htable.congr hplayers (fun c => by rw [hcard]) hslot
    fun p _ => hcoins p

/-- A step that touches neither the cards nor the players. -/
theorem Shows.same_cards (h : Shows created s parked b)
    (hdeck : s'.vc.cardDeck = s.vc.cardDeck)
    (hplayers : s'.world.players = s.world.players)
    (hcard : s'.world.card = s.world.card)
    (hplayer : s'.world.player = s.world.player) :
    Shows created s' parked s'.world.board := by
  have hslot : ∀ p i, s'.world.slot p i = s.world.slot p i := by
    intro p i
    unfold World.slot
    rw [hplayer]
  have hcoins : ∀ p, (s'.world.player p).coins = (s.world.player p).coins := by
    intro p
    rw [hplayer]
  exact (h.congr hdeck hplayers hcard hslot hcoins).board

theorem Shows.setAI (h : Shows created s parked b) (p : PlayerRef) (ai : AI) :
    Shows created { s with world := s.world.setAI p ai } parked b :=
  h.congr rfl rfl rfl (fun _ _ => by simp) fun _ => by simp

/-- A claim that is shown names a card of a hand. -/
theorem stepThread_claims (h : stepThread y i = .ok y')
    (hclaims : y.place.Claims) : y'.place.Claims := by
  cases stepThread_spec h with
  | expose t o s newCard hplace hname hshow =>
      simp only [stepThread, hplace, atObjected, if_pos hname] at h
      split at h
      next hclaim =>
        rw [Ne, ← slotOf_checkhaveCard] at hclaim
        exact Option.ne_none_iff_exists'.mp hclaim
      next =>
        obtain ⟨w, -, h⟩ := bind_eq_ok.mp h
        cases h
  | act t s place hplace hact =>
      rcases hplace with ⟨-, rfl⟩ | ⟨-, rfl⟩ | ⟨theCard, newCard, hp, rfl⟩
      · trivial
      · trivial
      · rw [hp] at hclaims
        exact hclaims
  | skip p hplace => rw [hplace]; trivial
  | _ => trivial

theorem Turn.Within.seated {t : Turn} (ht : t.Within F)
    (hgame : InScope F s) :
    t.currentPlayer ∈ s.world.players ∧ Seated s t.curMove :=
  ⟨(hgame.seats _).mpr ht.currentPlayer, (hgame.seats _).mpr ht.curMove.1,
    (hgame.seats _).mpr ht.curMove.2⟩

/-- The thread moves cards only between the deck, the hands and `newCard`. -/
theorem LoopMove.holding (hmove : LoopMove y i y') (hscope : Scoped F y)
    (hclaims : y'.place.Claims) (h : Holding created y) :
    Holding created y' := by
  obtain ⟨hgame, hplace'⟩ := hscope
  have hshows := h.shows
  refine ⟨hclaims, ?_⟩
  cases hmove with
  | start hplace | pick p hplace | quit hplace | prompt p hplace
  | wake hplace | seat t curMove hplace | round t curMove hplace
  | wait t curMove p hplace | notice t curMove p hplace
  | retry t curMove p hplace | send t curMove p hplace
  | object t curMove o p hplace | drop t o hplace =>
      rw [hplace] at hshows
      exact hshows
  | skip p hplace => exact hshows
  | turn hplace | pass t curMove p hplace | ask t curMove p hplace
  | allow t curMove o p hplace =>
      rw [hplace] at hshows
      exact hshows.same_cards rfl rfl rfl rfl
  | claim t hplace | log t hplace =>
      rw [hplace] at hshows
      exact hshows.same_cards rfl rfl rfl rfl
  | choose p m s hplace hchosen =>
      rw [hplace] at hshows hplace'
      cases hchosen with
      | user _ _ _ hs =>
          subst hs
          exact hshows.same_cards rfl rfl rfl rfl
      | ai w hname hget hs =>
          subst hs
          obtain ⟨-, -, ai, rfl⟩ := getPlayerMove_spec
            ((hgame.seats p).mpr hplace') (hgame.ai p hplace' hname) hget
          exact (hshows.setAI p ai).board
  | answer t curMove o p w hplace hname hanswer =>
      rw [hplace] at hshows
      obtain ⟨-, rfl | ⟨-, ai, rfl⟩⟩ := getChallengeOrAllow_spec hanswer
      · exact hshows
      · exact (hshows.setAI p ai).board
  | expose t o s newCard hplace hname hshow =>
      rw [hplace] at hshows hplace'
      obtain ⟨j, hj⟩ := hclaims
      obtain ⟨hp, -⟩ := hplace'.1.seated hgame
      have hq := (hgame.seats _).mpr (hplace'.2 hname).1
      exact (showClaim_spec hshows hp hq hj hshow).1.board
  | fail t o w hplace hname hreveal =>
      rw [hplace] at hshows hplace'
      have hq := (hgame.seats _).mpr (hplace'.2 hname).2
      obtain ⟨cards, hdeck, htable⟩ := hshows
      have hafter : Shows created { y.game with world := w } []
          (y.game.world.board.lose o.target) :=
        ⟨cards, hdeck, htable.revealCard hq hreveal⟩
      exact hafter.board
  | act t s place hplace hact =>
      obtain ⟨-, hm⟩ := (within_act hplace hplace').1.seated hgame
      have huser := (hgame.seats _).mpr hgame.user
      rw [parked_act hplace]
      exact (actOnMove_spec hshows huser hm.caller hm.target hact).1.board
  | replace t theCard newCard s hplace hreplace =>
      have hj := h.claims
      rw [hplace] at hshows hplace' hj
      obtain ⟨j, hj⟩ := hj
      obtain ⟨hp, -⟩ := hplace'.1.seated hgame
      exact (replaceClaim_spec hshows hp hj hreplace).1.board
  | judge s hplace hjudge =>
      rw [hplace] at hshows
      rcases isGameOver_cases hjudge with ⟨-, player0, -, rfl⟩ | ⟨-, rfl⟩
      · exact hshows.same_cards rfl rfl rfl rfl
      · exact hshows

theorem Holding.step (h : Holding created y) (hscope : Scoped F y)
    (hstep : stepLoop y e = .ok y') : Holding created y' := by
  have hshows := h.shows
  cases e with
  | thread i =>
      exact (stepThread_spec hstep).holding hscope
        (stepThread_claims hstep h.claims) h
  | deliver =>
      obtain ⟨block, queue, -, rfl⟩ := stepLoop_deliver hstep
      refine ⟨h.claims, ?_⟩
      cases block <;> exact hshows.same_cards rfl rfl rfl rfl
  | tap a =>
      obtain ⟨-, caller, target, -, -, rfl⟩ := stepLoop_tap hstep
      exact ⟨h.claims, hshows.same_cards rfl rfl rfl rfl⟩
  | press q =>
      obtain ⟨-, caller, s, -, ⟨hworld, hvc⟩, rfl⟩ := stepLoop_press hstep
      refine ⟨h.claims, hshows.same_cards ?_ ?_ ?_ ?_⟩
      · rw [hvc]
      all_goals rw [hworld]
  | endGame =>
      cases hstep
      exact ⟨h.claims, hshows.same_cards rfl rfl rfl rfl⟩

end Step

/-! ## Every run of the loop -/

theorem openLoop_holding {w : World} {user : PlayerRef} {AIs : List PlayerRef}
    {base : CardRef} {shuffling dealing : List ℕ} {y : Loop}
    (hlobby : Lobby w user AIs)
    (h : openLoop w base shuffling dealing = .ok y) :
    Holding (createdCards base) y ∧
      SameTable (w.createCards base) y.game.world := by
  obtain ⟨s, hload, rfl⟩ := openLoop_eq_ok.mp h
  obtain ⟨hin, -⟩ := viewDidLoad_spec hlobby hload
  exact ⟨⟨trivial, hin.shows⟩, hin.table⟩

/-- After every step of the game thread, and of whatever runs next to it, every
card that was made is in the deck, in a hand, or in `newCard` until it replaces
the card that is shown; and the cards that no hand holds are face down. -/
theorem loop_cards_conserved {w : World} {user : PlayerRef}
    {AIs : List PlayerRef} {base : CardRef} {shuffling dealing : List ℕ}
    {y₀ y : Loop} {es : List LoopEvent} (hlobby : Lobby w user AIs)
    (hopen : openLoop w base shuffling dealing = .ok y₀)
    (hrun : run stepLoop y₀ es = .ok y) :
    (createdCards base).Nodup ∧
      (∀ role, (createdCards base).countP
        (fun c => decide ((y.game.world.card c).role = role)) = 3) ∧
      ∃ cards : List CardRef, y.game.vc.cardDeck = cards.map some ∧
        (cards ++ (y.game.world.handCards ++ y.place.parked)).Perm
          (createdCards base) ∧
        ∀ c ∈ cards ++ y.place.parked,
          (y.game.world.card c).revealed = false := by
  have hinv : Scoped (gameFootprint w.players base) y ∧
      Holding (createdCards base) y ∧
      SameTable (w.createCards base) y.game.world := by
    refine run_invariant (I := fun y =>
      Scoped (gameFootprint w.players base) y ∧
        Holding (createdCards base) y ∧
        SameTable (w.createCards base) y.game.world) ?_ hrun
      ⟨openLoop_scoped hlobby hopen, openLoop_holding hlobby hopen⟩
    rintro y e y' ⟨hscope, hholding, htable⟩ hstep
    obtain ⟨hscope', htable'⟩ := hscope.step hstep
    exact ⟨hscope', hholding.step hscope hstep, htable.trans htable'⟩
  obtain ⟨-, hholding, htable⟩ := hinv
  obtain ⟨cards, hdeck, hcards⟩ := hholding.shows
  refine ⟨createdCards_nodup base, fun role => ?_, cards, hdeck,
    hcards.partition, hcards.faceDown⟩
  simpa only [htable.role] using createdCards_countP w base role

/-- A step of the thread in which an AI that is asked challenges. -/
def boldStep : LoopEvent :=
  .thread (scriptedTurn .allow .least 1 [] (List.range 11))

/-- The user claims tax and is challenged; the game is left while the duke is
shown. -/
def leftWithDuke : List LoopEvent :=
  List.replicate 3 boldStep ++ [.deliver, .press .tax] ++
    List.replicate 12 boldStep ++ [.endGame]

theorem loop_cards_conserved_dukeShown :
    ∃ y₀ y newCard, openLoop (lobbyOf "user" ["Charlie Puth"] []) 0
        (List.range 15) [4, 8] = .ok y₀ ∧
      run stepLoop y₀ leftWithDuke = .ok y ∧ y.place.parked = [newCard] ∧
      ∃ cards : List CardRef, y.game.vc.cardDeck = cards.map some ∧
        (cards ++ (y.game.world.handCards ++ [newCard])).Perm
          (createdCards 0) := by
  have hcheck : checkFrom stepLoop (fun _ _ _ => true)
      (fun y => decide (y.place.parked = [6]))
      (openLoop (lobbyOf "user" ["Charlie Puth"] []) 0 (List.range 15) [4, 8])
      leftWithDuke = true := by
    decide +kernel
  obtain ⟨y₀, y, hopen, hrun, -, hend⟩ := exists_of_checkFrom hcheck
  have hparked := of_decide_eq_true hend
  obtain ⟨-, -, cards, hdeck, hperm, -⟩ := loop_cards_conserved
    (lobbyOf_one "user" "Charlie Puth") hopen hrun
  rw [hparked] at hperm
  exact ⟨y₀, y, 6, hopen, hrun, hparked, cards, hdeck, hperm⟩

end Coup
