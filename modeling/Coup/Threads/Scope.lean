import Coup.Game.Invariant
import Coup.Game.Locality
import Coup.Threads.Loop

/-!
# The loop stays within its game

Every object that the game thread or a handler of the main thread gets hold of
belongs to the players and the cards of its game.  So a step of the loop is the
same whatever the rest of the heap is, and leaves the rest alone.
-/

namespace Coup

open Coup.Support

structure Turn.Within (F : Footprint) (t : Turn) : Prop where
  currentPlayer : t.currentPlayer ∈ F.players
  curMove : t.curMove.Within F

/-- A move that counts only if it is a challenge. -/
def Move.Objects (F : Footprint) (m : Move) : Prop :=
  m.name = .challenge → m.Within F

/-- The local variables of the game thread belong to the footprint. -/
def Place.Within (F : Footprint) : Place → Prop
  | .picked p => p ∈ F.players
  | .chosen t | .free t => t.Within F
  | .slot t curMove | .look t curMove | .objected t curMove =>
      t.Within F ∧ curMove.Objects F
  | .ask t curMove p | .test t curMove p | .send t curMove p
  | .use t curMove p =>
      t.Within F ∧ curMove.Objects F ∧ p ∈ F.players
  | .shown t _ newCard | .acted t _ newCard =>
      t.Within F ∧ newCard ∈ F.cards
  | _ => True

/-- A game whose players are those of the footprint. -/
structure InScope (F : Footprint) (s : State) : Prop where
  hands : Hands F s.world
  deck : ∃ cards : List CardRef, s.vc.cardDeck = cards.map some ∧
    ∀ c ∈ cards, c ∈ F.cards
  twoCards : ∀ two ∈ s.vc.twoCards, two.1 ∈ F.cards ∧ two.2 ∈ F.cards
  seats : ∀ p, p ∈ s.world.players ↔ p ∈ F.players
  user : s.vc.user ∈ F.players
  AIs : ∀ p ∈ s.vc.AIs, p ∈ F.players
  ai : ∀ p ∈ F.players, (s.world.player p).name ≠ s.world.username →
    (s.world.player p).ai.isSome
  playerMove : s.vc.didPlayerMove = true → s.vc.playerMove.Within F
  answer : s.vc.didPlayerChallengeOrAllow = true →
    s.vc.challengeMove.Within F

structure Scoped (F : Footprint) (y : Loop) : Prop where
  game : InScope F y.game
  place : y.place.Within F

namespace InScope

variable {F : Footprint} {s s' : State}

theorem owns (h : InScope F s) : Owns F s := ⟨h.hands, h.deck, h.twoCards⟩

theorem mem (h : InScope F s) {k : ℕ} {p : PlayerRef}
    (hp : s.world.players[k]? = some p) : p ∈ F.players :=
  (h.seats p).mp (List.mem_of_getElem? hp)

/-- A change of the heap that keeps hands and table. -/
theorem world (h : InScope F s) {w : World} (htable : SameTable s.world w)
    (hands : Hands F w) : InScope F { s with world := w } where
  hands := hands
  deck := h.deck
  twoCards := h.twoCards
  seats p := by
    rw [← h.seats p, ← htable.players]
  user := h.user
  AIs := h.AIs
  ai p hp hname := by
    rw [htable.ai]
    apply h.ai p hp
    rwa [← htable.name, ← htable.username]
  playerMove := h.playerMove
  answer := h.answer

theorem setAI (h : InScope F s) {p : PlayerRef} (hp : p ∈ F.players)
    (hname : (s.world.player p).name ≠ s.world.username) (ai : AI) :
    InScope F { s with world := s.world.setAI p ai } ∧
      SameTable s.world (s.world.setAI p ai) := by
  have htable := SameTable.setAI (h.ai p hp hname) ai
  refine ⟨h.world htable fun q hq i => ?_, htable⟩
  rw [World.setAI_slot]
  exact h.hands q hq i

theorem stays (h : InScope F s) (hs : Stays F s s') : InScope F s' := by
  obtain ⟨w', vc'⟩ := s'
  obtain ⟨howns, htable, -, hvc⟩ := hs
  have hw := h.world htable howns.hands
  simp only at hvc
  rw [hvc] at howns ⊢
  exact { hw with deck := howns.deck, twoCards := howns.twoCards }

end InScope

/-- Wherever the move is executed, the turn belongs to the game, and so does
what the thread goes on with. -/
theorem within_act {F : Footprint} {place place' : Place} {t : Turn}
    (hplace : (∃ o, place = .objected t o ∧ o.name = .allow) ∧
        place' = .ending ∨
      place = .free t ∧ place' = .ending ∨
      ∃ theCard newCard, place = .shown t theCard newCard ∧
        place' = .acted t theCard newCard)
    (h : place.Within F) : t.Within F ∧ place'.Within F := by
  rcases hplace with
    ⟨⟨o, rfl, -⟩, rfl⟩ | ⟨rfl, rfl⟩ | ⟨theCard, newCard, rfl, rfl⟩
  · exact ⟨h.1, trivial⟩
  · exact ⟨h, trivial⟩
  · exact ⟨h.1, h⟩

/-- The objection is the user's answer or the one the thread has at hand. -/
theorem objects_of_answer {F : Footprint} {flag : Bool}
    {curMove answer o : Move} (hanswer : flag = true → o = answer)
    (hown : flag = false → o = curMove)
    (hkept : flag = true → answer.Within F) (hcur : curMove.Objects F) :
    o.Objects F := by
  intro ho
  cases flag with
  | true => exact hanswer rfl ▸ hkept rfl
  | false => exact hown rfl ▸ hcur (hown rfl ▸ ho)

/-! ## The moves of the thread -/

section Move

variable {F : Footprint} {y y' : Loop} {i : TurnInput}

theorem LoopMove.scoped (hmove : LoopMove y i y') (h : Scoped F y) :
    Scoped F y' ∧ SameTable y.game.world y'.game.world := by
  obtain ⟨hgame, hplace'⟩ := h
  cases hmove with
  | start hplace | quit hplace hoff | prompt p hplace hname hwait
  | wake hplace | drop t o hplace =>
      exact ⟨⟨hgame, trivial⟩, .refl _⟩
  | skip p hplace hon hseat hout =>
      exact ⟨⟨{ hgame with }, hplace'⟩, .refl _⟩
  | pick p hplace hon hseat hin => exact ⟨⟨hgame, hgame.mem hseat⟩, .refl _⟩
  | choose p m s hplace hchosen =>
      have hp : p ∈ F.players := by rw [hplace] at hplace'; exact hplace'
      cases hchosen with
      | user hname hpressed hm hs =>
          subst hm hs
          exact ⟨⟨{ hgame with playerMove := fun h => by cases h },
            ⟨hp, hgame.playerMove hpressed⟩⟩, .refl _⟩
      | ai w hname hget hs =>
          subst hs
          have hseat := (hgame.seats p).mpr hp
          obtain ⟨hlegal, -, ai, rfl⟩ :=
            getPlayerMove_spec hseat (hgame.ai p hp hname) hget
          obtain ⟨hgame', htable⟩ := hgame.setAI hp hname ai
          exact ⟨⟨hgame', hp, hlegal.caller ▸ hp,
            (hgame.seats _).mp hlegal.target⟩, htable⟩
  | claim t hplace hopen =>
      rw [hplace] at hplace'
      exact ⟨⟨{ hgame with }, hplace', fun hname => by cases hname⟩,
        .logMove ..⟩
  | log t hplace hfree =>
      rw [hplace] at hplace'
      exact ⟨⟨{ hgame with }, hplace'⟩, .logMove ..⟩
  | seat t curMove hplace hlt | round t curMove hplace hge =>
      rw [hplace] at hplace'
      exact ⟨⟨hgame, hplace'⟩, .refl _⟩
  | pass t curMove p hplace hseat hskip =>
      rw [hplace] at hplace'
      exact ⟨⟨{ hgame with answer := fun h => by cases h }, hplace'⟩, .refl _⟩
  | ask t curMove p hplace hseat hask =>
      rw [hplace] at hplace'
      exact ⟨⟨{ hgame with answer := fun h => by cases h },
        hplace'.1, hplace'.2, hgame.mem hseat⟩, .refl _⟩
  | wait t curMove p hplace hname | notice t curMove p hplace hon
  | retry t curMove p hplace hoff | send t curMove p hplace =>
      rw [hplace] at hplace'
      exact ⟨⟨hgame, hplace'⟩, .refl _⟩
  | answer t curMove o p w hplace hname hanswer =>
      rw [hplace] at hplace'
      obtain ⟨ht, -, hp⟩ := hplace'
      obtain ⟨hobjects, rfl | ⟨-, ai, rfl⟩⟩ := getChallengeOrAllow_spec hanswer
      · refine ⟨⟨hgame, ht, fun ho => ?_, hp⟩, .refl _⟩
        rw [hobjects ho]
        exact ⟨hp, ht.curMove.caller⟩
      · obtain ⟨hgame', htable⟩ := hgame.setAI hp hname ai
        refine ⟨⟨hgame', ht, fun ho => ?_, hp⟩, htable⟩
        rw [hobjects ho]
        exact ⟨hp, ht.curMove.caller⟩
  | object t curMove o p hplace hname hanswer hown =>
      rw [hplace] at hplace'
      obtain ⟨ht, hcur, -⟩ := hplace'
      exact ⟨⟨hgame, ht, objects_of_answer hanswer hown hgame.answer hcur⟩,
        .refl _⟩
  | allow t curMove o p hplace hname hanswer hseats =>
      rw [hplace] at hplace'
      exact ⟨⟨{ hgame with }, hplace'.1, fun ho => absurd ho hname⟩, .refl _⟩
  | expose t o s newCard hplace hname hshow =>
      rw [hplace] at hplace'
      obtain ⟨hstays, hnew⟩ := showClaim_stays hgame.owns hshow
      exact ⟨⟨hgame.stays hstays, hplace'.1, hnew⟩, hstays.table⟩
  | fail t o w hplace hname hreveal =>
      have hstays := Stays.revealCard hgame.owns hreveal
      exact ⟨⟨hgame.stays hstays, trivial⟩, hstays.table⟩
  | act t s place hplace hact =>
      obtain ⟨ht, hnext⟩ := within_act hplace hplace'
      have hstays :=
        actOnMove_stays hgame.owns (fun _ => hgame.user) ht.curMove hact
      exact ⟨⟨hgame.stays hstays, hnext⟩, hstays.table⟩
  | replace t theCard newCard s hplace hreplace =>
      rw [hplace] at hplace'
      obtain ⟨ht, hnew⟩ := hplace'
      have hstays :=
        replaceClaim_stays hgame.owns ht.currentPlayer hnew hreplace
      exact ⟨⟨hgame.stays hstays, trivial⟩, hstays.table⟩
  | judge s hplace hjudge =>
      rcases isGameOver_cases hjudge with ⟨-, player0, -, rfl⟩ | ⟨-, rfl⟩
      · exact ⟨⟨{ hgame with }, trivial⟩, .refl _⟩
      · exact ⟨⟨hgame, trivial⟩, .refl _⟩
  | turn hplace => exact ⟨⟨{ hgame with }, trivial⟩, .refl _⟩

end Move

/-! ## The whole loop -/

section Loop

variable {F : Footprint} {v : World} {y y' : Loop} {e : LoopEvent}

theorem stepLoop_tap {a : Answer} (h : stepLoop y (.tap a) = .ok y') :
    a.enabled y.game.vc.buttons = true ∧
      ∃ caller target,
        y.game.world.players[y.game.vc.challengeTurnInd]? = some caller ∧
        y.game.world.players[y.game.vc.turnInd]? = some target ∧
        y' = { y with game := { y.game with
          vc.didPlayerChallengeOrAllow := true
          vc.challengeMove := ⟨a.name, caller, target⟩
          vc.buttons := disableAllButtons } } := by
  rw [stepLoop] at h
  split at h
  next hon =>
    rw [bind_eq_ok] at h
    obtain ⟨s, htap, h⟩ := h
    have hpress : answerBtnPressed y.game a = .ok s := by
      cases a <;> exact htap
    obtain ⟨caller, target, hcaller, htarget, rfl⟩ :=
      answerBtnPressed_spec hpress
    cases h
    exact ⟨hon, caller, target, hcaller, htarget, rfl⟩
  next => cases h

theorem stepLoop_press {q : Press} (h : stepLoop y (.press q) = .ok y') :
    q.Offered y.game ∧ ∃ caller s,
      y.game.world.players[y.game.vc.turnInd]? = some caller ∧
        Submits y.game (q.move caller) s ∧
        y' = { y with game := s, pending := y.pending + 1 } := by
  rw [stepLoop, bind_eq_ok] at h
  obtain ⟨s, hpress, h⟩ := h
  cases h
  obtain ⟨-, hoffered, caller, hcaller, hsubmits⟩ := pressButton_spec hpress
  exact ⟨hoffered, caller, s, hcaller, hsubmits, rfl⟩

theorem stepLoop_deliver (h : stepLoop y .deliver = .ok y') :
    ∃ block queue, y.queue = block :: queue ∧
      y' = { y with game := runBlock y.game block, queue } := by
  rw [stepLoop] at h
  split at h
  next => cases h
  next block queue hqueue =>
    cases h
    exact ⟨block, queue, hqueue, rfl⟩

/-- The main thread moves neither the game thread nor what lies on the table,
and leaves both indexes alone. -/
theorem stepLoop_main (hstep : stepLoop y e = .ok y')
    (hmain : ∀ i, e ≠ .thread i) :
    y'.place = y.place ∧ y'.game.world = y.game.world ∧
      y'.game.vc.turnInd = y.game.vc.turnInd ∧
      y'.game.vc.challengeTurnInd = y.game.vc.challengeTurnInd := by
  cases e with
  | thread i => exact absurd rfl (hmain i)
  | deliver =>
      obtain ⟨block, queue, -, rfl⟩ := stepLoop_deliver hstep
      cases block <;> exact ⟨rfl, rfl, rfl, rfl⟩
  | tap a =>
      obtain ⟨-, caller, target, -, -, rfl⟩ := stepLoop_tap hstep
      exact ⟨rfl, rfl, rfl, rfl⟩
  | press q =>
      obtain ⟨-, caller, s, -, ⟨hworld, hvc⟩, rfl⟩ := stepLoop_press hstep
      exact ⟨rfl, hworld, by rw [hvc], by rw [hvc]⟩
  | endGame =>
      cases hstep
      exact ⟨rfl, rfl, rfl, rfl⟩

/-- Only the game thread moves cards. -/
theorem stepLoop_deck (hstep : stepLoop y e = .ok y')
    (hmain : ∀ i, e ≠ .thread i) :
    y'.game.vc.cardDeck = y.game.vc.cardDeck := by
  cases e with
  | thread i => exact absurd rfl (hmain i)
  | deliver =>
      obtain ⟨block, queue, -, rfl⟩ := stepLoop_deliver hstep
      cases block <;> rfl
  | tap a =>
      obtain ⟨-, caller, target, -, -, rfl⟩ := stepLoop_tap hstep
      rfl
  | press q =>
      obtain ⟨-, caller, s, -, ⟨-, hvc⟩, rfl⟩ := stepLoop_press hstep
      show s.vc.cardDeck = _
      rw [hvc]
  | endGame =>
      cases hstep
      rfl

theorem InScope.press_target {s : State} (h : InScope F s) {q : Press}
    (hoffered : q.Offered s) {caller : PlayerRef} (hc : caller ∈ F.players) :
    (q.move caller).Within F := by
  refine ⟨hc, ?_⟩
  cases q with
  | income | foreignAid | tax | exchange => exact hc
  | coup target | assassinate target =>
      exact h.AIs target (List.mem_of_mem_filter hoffered.2)
  | steal target => exact h.AIs target (List.mem_of_mem_filter hoffered)

theorem InScope.submits {s s' : State} {m : Move} (h : InScope F s)
    (hm : m.Within F) (hs : Submits s m s') : InScope F s' := by
  obtain ⟨w', vc'⟩ := s'
  obtain ⟨hworld, hvc⟩ := hs
  simp only at hworld hvc
  subst hworld
  rw [hvc]
  exact { h with playerMove := fun _ => hm }

/-- A step of the loop keeps to the game and changes no name and no seat. -/
theorem Scoped.step (h : Scoped F y) (hstep : stepLoop y e = .ok y') :
    Scoped F y' ∧ SameTable y.game.world y'.game.world := by
  cases e with
  | thread i => exact (stepThread_spec hstep).scoped h
  | deliver =>
      obtain ⟨block, queue, -, rfl⟩ := stepLoop_deliver hstep
      cases block <;> exact ⟨⟨{ h.game with }, h.place⟩, .refl _⟩
  | tap a =>
      obtain ⟨-, caller, target, hcaller, htarget, rfl⟩ := stepLoop_tap hstep
      exact ⟨⟨{ h.game with answer := fun _ =>
        ⟨h.game.mem hcaller, h.game.mem htarget⟩ }, h.place⟩, .refl _⟩
  | press q =>
      obtain ⟨hoffered, caller, s, hcaller, hsubmits, rfl⟩ :=
        stepLoop_press hstep
      have hm := h.game.press_target hoffered (h.game.mem hcaller)
      exact ⟨⟨h.game.submits hm hsubmits, h.place⟩,
        hsubmits.world ▸ .refl _⟩
  | endGame =>
      cases hstep
      exact ⟨⟨{ h.game with }, h.place⟩, .refl _⟩

/-! ## The rest of the heap -/

/-- The loop with the rest of its heap replaced. -/
noncomputable def Loop.over (y : Loop) (F : Footprint) (v : World) : Loop :=
  { y with game := y.game.over F v }

@[simp] theorem over_game : (y.over F v).game = y.game.over F v := rfl

@[simp] theorem over_place : (y.over F v).place = y.place := rfl

theorem Scoped.seats_mem (h : Scoped F y) :
    ∀ p ∈ y.game.world.players, p ∈ F.players :=
  fun p hp => (h.game.seats p).mp hp

theorem Scoped.over_atHead (h : Scoped F y) :
    atHead (y.over F v) = (atHead y).map (·.over F v) := by
  refine ite_map_congr Iff.rfl (fun _ => ?_) fun _ => rfl
  refine bind_congr_map fun p hp => ?_
  have hin := h.game.mem (orFault_eq_ok.mp hp)
  refine ite_map_congr ?_ (fun _ => rfl) fun _ => rfl
  rw [over_game, over_world, over_isPlayerRevealed h.game.hands hin]

theorem Scoped.over_atPicked (h : Scoped F y) {p : PlayerRef}
    (hp : p ∈ F.players) (i : TurnInput) :
    atPicked (y.over F v) p i = (atPicked y p i).map (·.over F v) := by
  refine bind_map_congr (over_takeMove h.seats_mem h.game.hands
    ((h.game.seats p).mpr hp) i.ai) fun r _ => ?_
  obtain ⟨s, selection⟩ := r
  cases selection <;> rfl

theorem Scoped.over_atLook (h : Scoped F y) {t : Turn} (ht : t.Within F)
    (curMove : Move) :
    atLook (y.over F v) t curMove =
      (atLook y t curMove).map (·.over F v) := by
  refine bind_map_congr (over_slotHead h.seats_mem h.game.hands
    ht.curMove.caller) fun r _ => ?_
  obtain ⟨s, asked⟩ := r
  cases asked <;> rfl

theorem Scoped.over_atAsk (h : Scoped F y) (t : Turn) (curMove : Move)
    {p : PlayerRef} (hp : p ∈ F.players) (i : TurnInput) :
    atAsk (y.over F v) t curMove p i =
      (atAsk y t curMove p i).map (·.over F v) := by
  refine ite_map_congr ?_ (fun _ => rfl) fun _ => ?_
  · rw [over_game, over_world, over_player hp, over_username]
  · exact bind_map_congr (over_getChallengeOrAllow h.seats_mem h.game.hands
      ((h.game.seats p).mpr hp) _ _) fun r _ => rfl

theorem over_atChosen (t : Turn) :
    atChosen (y.over F v) t = (atChosen y t).over F v := by
  unfold atChosen
  rw [apply_ite (Loop.over · F v)]
  rfl

theorem over_atSlot (t : Turn) (curMove : Move) :
    atSlot (y.over F v) t curMove = (atSlot y t curMove).over F v := by
  unfold atSlot
  rw [apply_ite (Loop.over · F v)]
  rfl

theorem over_atTest (t : Turn) (curMove : Move) (p : PlayerRef) :
    atTest (y.over F v) t curMove p = (atTest y t curMove p).over F v := by
  unfold atTest
  rw [apply_ite (Loop.over · F v)]
  rfl

theorem over_atUse (t : Turn) (curMove : Move) :
    atUse (y.over F v) t curMove =
      (atUse y t curMove).map (·.over F v) := by
  refine bind_map_congr (over_slotUse curMove) fun r _ => ?_
  obtain ⟨s, result⟩ := r
  cases result <;> rfl

theorem Scoped.over_atObjected (h : Scoped F y) {t : Turn} (ht : t.Within F)
    {o : Move} (ho : o.Objects F) (i : TurnInput) :
    atObjected (y.over F v) t o i =
      (atObjected y t o i).map (·.over F v) := by
  have hclaim : (y.over F v).game.world.checkhaveCard t.currentPlayer
      t.curMove.name =
        y.game.world.checkhaveCard t.currentPlayer t.curMove.name :=
    over_checkhaveCard h.game.hands ht.currentPlayer _
  unfold atObjected
  simp only [hclaim]
  refine ite_map_congr Iff.rfl (fun hname => ?_) fun _ => ?_
  · refine ite_map_congr Iff.rfl (fun _ => ?_) fun _ => ?_
    · exact bind_map_congr (over_showClaim h.game.owns ht.currentPlayer
        (ho hname).caller _ _) fun r _ => rfl
    · exact bind_map_congr (over_revealCard h.game.hands (ho hname).target)
        fun w _ => rfl
  · refine ite_map_congr Iff.rfl (fun _ => ?_) fun _ => rfl
    exact bind_map_congr (over_actOnMove h.game.owns
      (fun _ => h.game.user) ht.curMove _) fun s _ => rfl

theorem Scoped.over_stepThread (h : Scoped F y) (i : TurnInput) :
    stepThread (y.over F v) i = (stepThread y i).map (·.over F v) := by
  have hplace := h.place
  unfold stepThread
  rw [over_place]
  cases hy : y.place <;> rw [hy] at hplace
  case idle => exact ite_map_congr Iff.rfl (fun _ => rfl) fun _ => rfl
  case head => exact h.over_atHead
  case picked p => exact h.over_atPicked hplace i
  case chosen t => exact congrArg Except.ok (over_atChosen t)
  case slot t curMove => exact congrArg Except.ok (over_atSlot t curMove)
  case look t curMove => exact h.over_atLook hplace.1 curMove
  case ask t curMove p => exact h.over_atAsk t curMove hplace.2.2 i
  case test t curMove p => exact congrArg Except.ok (over_atTest t curMove p)
  case use t curMove p => exact over_atUse t curMove
  case objected t o => exact h.over_atObjected hplace.1 hplace.2 i
  case free t =>
    exact bind_map_congr (over_actOnMove h.game.owns
      (fun _ => h.game.user) hplace.curMove _) fun s _ => rfl
  case shown t theCard newCard =>
    exact bind_map_congr (over_actOnMove h.game.owns
      (fun _ => h.game.user) hplace.1.curMove _) fun s _ => rfl
  case acted t theCard newCard =>
    exact bind_map_congr (over_replaceClaim h.game.owns
      hplace.1.currentPlayer hplace.2 theCard _) fun s _ => rfl
  case ending =>
    exact bind_map_congr (over_isGameOver h.seats_mem h.game.hands
      h.game.user) fun s _ => rfl
  all_goals rfl

/-- A step of the loop does not depend on the rest of the heap and does not
change it. -/
theorem Scoped.over_stepLoop (h : Scoped F y) (e : LoopEvent) :
    stepLoop (y.over F v) e = (stepLoop y e).map (·.over F v) := by
  cases e with
  | thread i => exact h.over_stepThread i
  | deliver =>
      unfold stepLoop
      simp only [Loop.over]
      split
      next => rfl
      next block queue hqueue =>
        cases block with
        | enableButtons =>
            simp only [runBlock, over_enableButtons h.game.AIs h.game.hands]
            rfl
        | enableChallengeButtons => rfl
  | tap a =>
      refine ite_map_congr Iff.rfl (fun _ => ?_) fun _ => rfl
      exact bind_map_congr (over_tapAnswer a) fun s _ => rfl
  | press q =>
      exact bind_map_congr (over_pressButton h.game.AIs h.game.hands
        h.game.user q) fun s _ => rfl
  | endGame => rfl

theorem loop_over_self : y.over F y.game.world = y := by
  rw [Loop.over, state_over_self]

theorem Scoped.remains (h : Scoped F y) (hstep : stepLoop y e = .ok y') :
    Remains F y.game.world y'.game.world := by
  have hover := h.over_stepLoop (v := y.game.world) e
  rw [loop_over_self] at hover
  exact .of_map (fun z => z.game.world) hover (fun _ => rfl) hstep

end Loop

/-! ## Opening a game -/

/-- The players at a table and the cards made from `base` on. -/
def gameFootprint (players : List PlayerRef) (base : CardRef) : Footprint :=
  ⟨{p | p ∈ players}, {c | c ∈ createdCards base}⟩

theorem viewDidLoad_vc {w : World} {base : CardRef}
    {shuffling dealing : List ℕ} {s : State}
    (h : viewDidLoad w base shuffling dealing = .ok s) :
    s.vc.twoCards = none ∧ s.vc.didPlayerChallengeOrAllow = false := by
  rw [viewDidLoad, bind_eq_ok] at h
  obtain ⟨deck, -, h⟩ := h
  rw [bind_eq_ok] at h
  obtain ⟨⟨w', deck'⟩, -, h⟩ := h
  rw [bind_eq_ok] at h
  obtain ⟨user, -, h⟩ := h
  cases h
  exact ⟨rfl, rfl⟩

/-- A game opened from the lobby is in the scope of its players and cards. -/
theorem viewDidLoad_inScope {w : World} {user : PlayerRef}
    {AIs : List PlayerRef} {base : CardRef} {shuffling dealing : List ℕ}
    {s : State} (hlobby : Lobby w user AIs)
    (h : viewDidLoad w base shuffling dealing = .ok s) :
    InScope (gameFootprint w.players base) s := by
  obtain ⟨hin, -, -, hmove, -⟩ := viewDidLoad_spec hlobby h
  obtain ⟨htwo, hflag⟩ := viewDidLoad_vc h
  obtain ⟨cards, hdeck, htable⟩ := hin.shows
  have hplayers : s.world.players = w.players := hin.table.players
  have hmem : ∀ c ∈ cards ++ s.world.handCards, c ∈ createdCards base := by
    intro c hc
    apply htable.partition.subset
    rwa [List.append_nil]
  refine ⟨fun p hp i => ?_, ⟨cards, hdeck, fun c hc => ?_⟩, ?_, fun p => ?_,
    ?_, fun p hp => ?_, fun p hp hname => ?_, ?_, ?_⟩
  · have hp' : p ∈ s.world.players := hplayers ▸ hp
    exact hmem _ (List.mem_append_right _ (World.slot_mem_handCards hp' i))
  · exact hmem c (List.mem_append_left _ hc)
  · rw [htwo]
    rintro two ⟨⟩
  · rw [hplayers]
    rfl
  · exact hplayers ▸ hin.user_mem
  · rw [hin.AIs] at hp
    change p ∈ w.players
    rw [hlobby.players]
    exact List.mem_cons_of_mem _ hp
  · exact hin.ai_isSome (hplayers ▸ hp) hname
  · rw [hmove]
    exact fun h => by cases h
  · rw [hflag]
    exact fun h => by cases h

theorem openLoop_eq_ok {w : World} {base : CardRef}
    {shuffling dealing : List ℕ} {y : Loop} :
    openLoop w base shuffling dealing = .ok y ↔
      ∃ s, viewDidLoad w base shuffling dealing = .ok s ∧
        y = { game := s, place := .idle, pending := 1, queue := [] } := by
  rw [openLoop, bind_eq_ok]
  exact exists_congr fun s => and_congr_right fun _ =>
    pure_eq_ok.trans eq_comm

theorem openLoop_scoped {w : World} {user : PlayerRef} {AIs : List PlayerRef}
    {base : CardRef} {shuffling dealing : List ℕ} {y : Loop}
    (hlobby : Lobby w user AIs)
    (h : openLoop w base shuffling dealing = .ok y) :
    Scoped (gameFootprint w.players base) y := by
  obtain ⟨s, hload, rfl⟩ := openLoop_eq_ok.mp h
  exact ⟨viewDidLoad_inScope hlobby hload, trivial⟩

end Coup
