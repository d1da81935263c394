import Coup.Game.Ledger
import Coup.Game.Targets

/-!
# What an AI remembers

The rates of an AI survive from one of its turns to the next, and nothing that
happens in between touches them.  So they are a function of what the AI saw at
its own turns.  A rate that is not backed by a card runs out, which bounds how
long an AI can bluff.
-/

namespace Coup

open Coup.Support

/-! ## Nothing but a turn touches the rates -/

/-- The rates that the AIs have stored. -/
def World.rates (w : World) (p : PlayerRef) : Option (MoveName → ℤ) :=
  (w.player p).ai.map AI.moveRateDic

/-- The computation leaves the rates as they are. -/
def KeepsRates (w : World) (c : Except Fault State) : Prop :=
  Ensures (fun s => s.world.rates = w.rates) c

section Rates

variable {w : World} {s : State} {p q : PlayerRef} {m : Move}

@[simp] theorem setSlot_rates (w : World) (p : PlayerRef) (i : Slot)
    (c : CardRef) : (w.setSlot p i c).rates = w.rates := by
  funext q
  simp [World.rates]

@[simp] theorem addCoins_rates (w : World) (p : PlayerRef) (n : ℤ) :
    (w.addCoins p n).rates = w.rates := by
  funext q
  simp [World.rates]

@[simp] theorem setRevealed_rates (w : World) (c : CardRef) (r : Bool) :
    (w.setRevealed c r).rates = w.rates := rfl

theorem revealCard_rates (w : World) (p : PlayerRef) :
    Ensures (fun w' => w'.rates = w.rates) (w.revealCard p) := by
  apply Ensures.bind
  intro _ _
  split <;> exact ensures_ok (by simp)

theorem offerExchange_rates (s : State) (i : Slot) (n : ℕ)
    (a : ExchangeAnswer) : KeepsRates s.world (offerExchange s i n a) := by
  refine .ite (fun _ => ?_) fun _ => ensures_ok rfl
  apply Ensures.bind
  intro two _
  rcases answerDialog_cases s ⟨two, n⟩ a with hanswer | ⟨c, k, -, hanswer⟩
  · rw [hanswer]
    exact ensures_ok rfl
  · rw [hanswer]
    apply Ensures.bind
    intro _ _
    split <;> exact ensures_ok (by simp)

theorem exchangeCards_rates (s : State) (p : PlayerRef) (x : ExchangeInput) :
    KeepsRates s.world (exchangeCards s p x) := by
  have hfirst : KeepsRates s.world (swapFirst s p) :=
    .ite (fun _ => .bind fun _ _ => ensures_ok (by simp))
      fun _ => ensures_ok rfl
  have hsecond (s : State) : KeepsRates s.world (swapSecond s p) :=
    .ite (fun _ => .bind fun _ _ => ensures_ok (by simp))
      fun _ => ensures_ok rfl
  refine .ite (fun _ => .bind fun s₁ hs₁ => ?_) fun _ => .bind fun s₁ hs₁ => ?_
  · rw [← offerExchange_rates s .first 0 x.answer1 s₁ hs₁]
    exact offerExchange_rates s₁ .second 2 x.answer2
  · rw [← hfirst s₁ hs₁]
    exact hsecond s₁

theorem actOnMove_rates (s : State) (m : Move) (x : ExchangeInput) :
    KeepsRates s.world (actOnMove s m x) := by
  unfold actOnMove
  split
  case h_3 | h_5 =>
    apply Ensures.bind
    intro w hw
    apply ensures_ok
    rw [revealCard_rates _ _ w hw, addCoins_rates]
  case h_4 =>
    refine .bind fun _ _ => .bind fun s₁ hs₁ => .bind fun _ _ =>
      .bind fun _ _ => ensures_ok ?_
    have hcards := exchangeCards_rates _ m.caller x s₁ hs₁
    exact hcards
  all_goals exact ensures_ok (by simp)

theorem resolve_rates (s : State) (p : PlayerRef) (m o : Move)
    (i : TurnInput) : KeepsRates s.world (resolve s p m o i) := by
  refine .ite (fun _ => .ite (fun _ => ?_) fun _ => ?_) fun _ =>
    .ite (fun _ => actOnMove_rates s m i.exchange) fun _ => ensures_ok rfl
  · refine .bind ?_
    rintro ⟨s₁, c⟩ hshow
    obtain ⟨w, hreveal, hshow⟩ := bind_eq_ok.mp hshow
    obtain ⟨⟨c', deck⟩, -, hshow⟩ := bind_eq_ok.mp hshow
    cases hshow
    have hshown : (showCard w p (s.world.checkhaveCard p m.name)).rates =
        s.world.rates := by
      rw [showCard, ← revealCard_rates _ _ w hreveal]
      split <;> simp
    refine .bind fun s₂ hact => .bind ?_
    rintro ⟨w₃, deck₃⟩ hback
    obtain ⟨deck', -, hback⟩ := bind_eq_ok.mp hback
    cases hback
    apply ensures_ok
    have hacted := actOnMove_rates _ m i.exchange s₂ hact
    rw [setRevealed_rates, ← hshown, ← hacted]
    split <;> simp
  · apply Ensures.bind
    intro w hw
    exact ensures_ok (revealCard_rates _ _ w hw)

theorem getChallengeOrAllow_rates (w : World) (q t : PlayerRef)
    (rand : UnitDraw) :
    Ensures (fun r => r.2.rates = w.rates)
      (getChallengeOrAllow w q t rand) := by
  unfold getChallengeOrAllow
  split
  next => exact ensures_ok rfl
  next ai hai =>
    apply Ensures.bind
    intro last _
    apply ensures_ok
    funext r
    by_cases hr : r = q
    · subst hr
      simp [World.rates, World.setAI_ai, hai]
    · simp [World.rates, World.setAI_ai, hr]

theorem slotStep_rates (s : State) (m cur : Move) (i : RoundInput) :
    Ensures (fun r => r.1.world.rates = s.world.rates)
      (slotStep s m cur i) := by
  refine .bind ?_
  rintro ⟨s₁, asked⟩ hhead
  have h₁ : s₁.world = s.world := by
    obtain ⟨player, -, ⟨-, -, rfl⟩ | ⟨-, -, rfl⟩⟩ := slotHead_spec hhead
    · rfl
    · rfl
  cases asked with
  | none => exact ensures_ok (by rw [h₁])
  | some player =>
      refine .bind ?_
      rintro ⟨s₂, cur₂⟩ hask
      have h₂ : s₂.world.rates = s.world.rates := by
        unfold slotAsk at hask
        split at hask
        next =>
          obtain ⟨s', htap, hask⟩ := bind_eq_ok.mp hask
          cases hask
          have hpress : answerBtnPressed s₁ i.answer = .ok s₂ := by
            cases hi : i.answer <;> rw [hi] at htap <;> exact htap
          obtain ⟨-, -, -, -, rfl⟩ := answerBtnPressed_spec hpress
          rw [h₁]
        next =>
          obtain ⟨⟨o, w⟩, hget, hask⟩ := bind_eq_ok.mp hask
          cases hask
          have hkept := getChallengeOrAllow_rates _ _ _ _ _ hget
          rw [← h₁]
          exact hkept
      refine .ite (fun _ => .ite (fun _ => ensures_ok h₂) fun _ =>
        ensures_ok h₂) fun _ => .ite (fun _ => ensures_ok h₂) fun _ => ?_
      exact .bind fun _ _ => .bind fun _ _ => ensures_ok h₂

theorem anyChallengesLoop_rates (m : Move) (i : RoundInput) (bound : ℕ)
    (s : State) (cur : Move) :
    Ensures (fun r => r.1.world.rates = s.world.rates)
      (anyChallengesLoop m i bound s cur) := by
  induction bound generalizing s cur with
  | zero => exact ensures_ok rfl
  | succ bound ih =>
      refine .ite (fun _ => .bind ?_) fun _ => ensures_ok rfl
      rintro ⟨s₁, result⟩ hstep
      have h₁ := slotStep_rates s m cur i _ hstep
      cases result with
      | answered objection => exact ensures_ok h₁
      | next cur₁ =>
          rw [← h₁]
          exact ih s₁ cur₁

/-- Playing a move touches the rates of nobody. -/
theorem playMove_rates (s : State) (p : PlayerRef) (m : Move)
    (i : TurnInput) : KeepsRates s.world (playMove s p m i) := by
  refine .ite (fun _ => .bind ?_) fun _ => actOnMove_rates s m i.exchange
  rintro ⟨s₁, o⟩ hround
  have h₁ := anyChallengesLoop_rates _ _ _ _ _ _ hround
  rw [← show s₁.world.rates = s.world.rates from h₁]
  exact resolve_rates s₁ p m o i

end Rates

/-! ## The turns of an AI -/

/-- What an AI sees at one of its turns, and the move that it announces. -/
structure OwnTurn where
  seat : Seat
  table : List Seat
  name : MoveName

/-- The turns of the AI `p` among the steps of a session. -/
def ownTurns (p : PlayerRef) (y : Session) (e : Event) (y' : Session) :
    List OwnTurn :=
  match e with
  | .iterate _ =>
      if y.game.world.players[y.game.vc.turnInd]? = some p ∧
          y.game.world.isPlayerRevealed p = false then
        y'.game.world.moveLog.getLast?.toList.map fun m =>
          ⟨y.game.world.seat p, y.game.world.table, m.name⟩
      else []
  | _ => []

/-- The rates after some turns of an AI that starts with five everywhere. -/
def remembered (turns : List OwnTurn) : MoveName → ℤ :=
  turns.foldl (fun dic t => changeMoveRate t.seat t.table dic)
    AI.init.moveRateDic

theorem remembered_concat (turns : List OwnTurn) (t : OwnTurn) :
    remembered (turns ++ [t]) =
      changeMoveRate t.seat t.table (remembered turns) := by
  rw [remembered, List.foldl_append]
  rfl

section Step

variable {created : List CardRef} {w : World} {user : PlayerRef}
  {AIs : List PlayerRef} {s s₁ s₂ s' : State} {i : TurnInput}
  {p q : PlayerRef} {m : Move} {y y' : Session} {e : Event}

theorem TakesTurn.rates (h : TakesTurn s i q m s₁ s₂ s') :
    s'.world.rates = s₁.world.rates := by
  rw [(endTurn_spec h.ended).1]
  have hkept := playMove_rates _ _ _ _ _ h.played
  exact hkept

/-- A turn of somebody else. -/
theorem TakesTurn.forgets_nothing (hin : InPlay created w user AIs s)
    (hmove : s.vc.didPlayerMove = true → Pressed s)
    (h : TakesTurn s i q m s₁ s₂ s') (hp : p ∈ s.world.players)
    (hne : p ≠ q) : s'.world.rates p = s.world.rates p ∧
      (s'.world.player p).coins ≤ (s.world.player p).coins := by
  constructor
  · rw [h.rates]
    cases h.chosen.2.2 with
    | user _ _ _ hstate =>
        rw [hstate]
    | ai w' hname hget hstate =>
        obtain ⟨-, -, ai, rfl⟩ :=
          getPlayerMove_spec h.seated (hin.ai_isSome h.seated hname) hget
        rw [hstate]
        simp [World.rates, World.setAI_ai, hne]
  · have hplayers := (h.spec hin hmove).1.table.players
    have hcoins := (h.settle hin hmove).coins (hplayers ▸ hp)
    have hstart : s.world.board.coins p = (s.world.player p).coins := rfl
    have hless := coinEffect_nonpos hne m.name m.target
    rw [hcoins, Board.settle_coins, hstart, Ruling.coins]
    split
    next =>
      simp only [turnRuling]
      omega
    next => omega

/-- A turn of the AI itself: it stores the rates that the table suggests, and
it announces a move that they allow. -/
theorem TakesTurn.remembers (hin : InPlay created w user AIs s)
    (h : TakesTurn s i p m s₁ s₂ s')
    (hname : (s.world.player p).name ≠ s.world.username) :
    ∃ dic, s.world.rates p = some dic ∧
      s'.world.rates p =
        some (changeMoveRate (s.world.seat p) s.world.table dic) ∧
      (m.name = .coup ∨ m.name = .income ∨
        0 < changeMoveRate (s.world.seat p) s.world.table dic m.name) := by
  rw [h.rates]
  cases h.chosen.2.2 with
  | user hsame => exact absurd hsame hname
  | ai w' _ hget hstate =>
      obtain ⟨ai, name, hai, hpick, hm, rfl⟩ :=
        getPlayerMove_cases (hin.ai_isSome h.seated hname) hget
      obtain ⟨rfl, -⟩ :=
        chooseTarget_spec h.seated (pickMoveName_playable hpick) hm
      refine ⟨ai.moveRateDic, by simp [World.rates, hai], ?_, ?_⟩
      · rw [hstate]
        simp [World.rates, World.setAI_ai]
      · rcases pickMoveName_spec hpick with ⟨hcoup, -⟩ | ⟨-, -, hrated⟩
        · exact Or.inl hcoup
        · exact Or.inr hrated

/-- A step is a turn of the AI, or it leaves the rates alone and brings no
coins. -/
theorem Running.own_turn (h : Running created w user AIs y)
    (hstep : stepSession y e = .ok y') (hp : p ∈ y.game.world.players)
    (hname : (y.game.world.player p).name ≠ y.game.world.username) :
    (ownTurns p y e y' = [] ∧
        y'.game.world.rates p = y.game.world.rates p ∧
        (y'.game.world.player p).coins ≤ (y.game.world.player p).coins) ∨
      ∃ t dic, ownTurns p y e y' = [t] ∧ t.seat = y.game.world.seat p ∧
        y.game.world.rates p = some dic ∧
        y'.game.world.rates p = some (changeMoveRate t.seat t.table dic) ∧
        (t.name = .coup ∨ t.name = .income ∨
          0 < changeMoveRate t.seat t.table dic t.name) := by
  cases stepSession_spec hstep with
  | start | finish | wake | deliver | endGame =>
      exact Or.inl ⟨rfl, rfl, le_rfl⟩
  | press q caller s _ _ _ hsubmits =>
      have hworld : s.world = y.game.world := hsubmits.world
      exact Or.inl ⟨rfl, by rw [hworld], by rw [hworld]⟩
  | skip i _ _ hout =>
      refine Or.inl ⟨if_neg ?_, rfl, le_rfl⟩
      rintro ⟨hcurrent, hactive⟩
      obtain ⟨q, hq, hrevealed⟩ := hout
      obtain rfl := Option.some.inj (hcurrent.symm.trans hq)
      rw [hactive] at hrevealed
      cases hrevealed
  | prompt i _ _ hprompt =>
      refine Or.inl ⟨if_neg ?_, rfl, le_rfl⟩
      rintro ⟨hcurrent, -⟩
      obtain ⟨-, q, huser⟩ := hprompt
      obtain rfl := huser.unique hcurrent
      exact hname huser.name
  | turn i q m s₁ s₂ s _ _ hturn =>
      have hmove := h.phase.pressed
      by_cases hpq : p = q
      · subst hpq
        obtain ⟨dic, hdic, hrates, hrated⟩ := hturn.remembers h.inPlay hname
        have hlog := (hturn.spec h.inPlay hmove).1.moveLog
        refine Or.inr ⟨⟨y.game.world.seat p, y.game.world.table, m.name⟩, dic,
          ?_, rfl, hdic, hrates, hrated⟩
        simp [ownTurns, hturn.chosen.1, hturn.active, hlog]
      · obtain ⟨hrates, hcoins⟩ :=
          hturn.forgets_nothing h.inPlay hmove hp hpq
        refine Or.inl ⟨if_neg ?_, hrates, hcoins⟩
        rintro ⟨hcurrent, -⟩
        exact hpq (Option.some.inj (hcurrent.symm.trans hturn.chosen.1))

end Step

/-! ## The rates of a whole run -/

section Run

variable {w : World} {user : PlayerRef} {AIs : List PlayerRef}
  {base : CardRef} {shuffling dealing : List ℕ} {y₀ y : Session}
  {es : List Event} {p : PlayerRef}

/-- The history of an AI in a state of a session. -/
structure Remembers (p : PlayerRef) (turns : List OwnTurn) (w : World) :
    Prop where
  rates : w.rates p = some (remembered turns)
  early : turns = [] → (w.player p).coins ≤ 2
  first : ∀ t ∈ turns.head?, t.seat.coins ≤ 2
  rated : ∀ pre t post, turns = pre ++ t :: post →
    t.name = .coup ∨ t.name = .income ∨ 0 < remembered (pre ++ [t]) t.name

theorem Remembers.concat {turns : List OwnTurn} {t : OwnTurn} {w w' : World}
    (h : Remembers p turns w) (hseat : t.seat = w.seat p)
    (hrates : w'.rates p =
      some (changeMoveRate t.seat t.table (remembered turns)))
    (hrated : t.name = .coup ∨ t.name = .income ∨
      0 < changeMoveRate t.seat t.table (remembered turns) t.name) :
    Remembers p (turns ++ [t]) w' where
  rates := by rw [hrates, remembered_concat]
  early hnil := by simp at hnil
  first := by
    intro t' ht'
    cases turns with
    | nil =>
        obtain rfl : t = t' := by simpa using ht'
        rw [hseat]
        exact h.early rfl
    | cons v turns =>
        exact h.first t' (by simpa using ht')
  rated := by
    intro pre t' post hsplit
    rcases List.eq_nil_or_concat post with rfl | ⟨post, v, rfl⟩
    · obtain ⟨rfl, hlast⟩ := List.append_inj' hsplit rfl
      cases hlast
      rw [remembered_concat]
      exact hrated
    · apply h.rated pre t' post
      have hsplit' : turns ++ [t] = (pre ++ t' :: post) ++ [v] := by
        simpa using hsplit
      exact (List.append_inj' hsplit' rfl).1

theorem assign2Cards_rates {w w' : World} {deck deck' : CardDeck}
    {seats : List PlayerRef} {draws : List ℕ}
    (h : assign2Cards w deck seats draws = .ok (w', deck')) :
    w'.rates = w.rates := by
  induction seats generalizing w deck draws with
  | nil =>
      cases h
      rfl
  | cons p seats ih =>
      rw [assign2Cards, bind_eq_ok] at h
      obtain ⟨⟨card1, deck₁⟩, -, h⟩ := h
      rw [bind_eq_ok] at h
      obtain ⟨⟨card2, deck₂⟩, -, h⟩ := h
      rw [ih h, setSlot_rates, setSlot_rates]

theorem Remembers.of_run (hlobby : Lobby w user AIs)
    (hopen : openSession w base shuffling dealing = .ok y₀)
    (hrun : run stepSession y₀ es = .ok y) (hp : p ∈ AIs)
    (hname : (w.player p).name ≠ w.username) :
    Remembers p (record stepSession (ownTurns p) y₀ es) y.game.world := by
  obtain ⟨hstart, -, hdealt, -⟩ := openSession_spec hlobby hopen
  have hrates₀ : y₀.game.world.rates p = some (remembered []) := by
    obtain ⟨s, hload, hs⟩ := bind_eq_ok.mp hopen
    cases hs
    obtain ⟨deck, -, hload⟩ := bind_eq_ok.mp hload
    obtain ⟨⟨w', deck'⟩, hdeal, hload⟩ := bind_eq_ok.mp hload
    obtain ⟨user', -, hload⟩ := bind_eq_ok.mp hload
    cases hload
    rw [assign2Cards_rates hdeal]
    exact congrArg (Option.map AI.moveRateDic) (hlobby.ai p hp)
  have hboth : Running (createdCards base) (w.createCards base) user AIs y ∧
      Remembers p (record stepSession (ownTurns p) y₀ es) y.game.world := by
    refine record_invariant (I := fun _ turns y =>
      Running (createdCards base) (w.createCards base) user AIs y ∧
        Remembers p turns y.game.world) ?_ hrun ⟨hstart, hrates₀, ?_, ?_, ?_⟩
    · rintro - turns y e y' ⟨hrunning, hremembers⟩ hstep
      refine ⟨hrunning.step hstep, ?_⟩
      have hin := hrunning.inPlay
      have hname' : (y.game.world.player p).name ≠ y.game.world.username := by
        rw [hin.table.name, hin.table.username]
        exact hname
      rcases hrunning.own_turn hstep (hin.mem_AIs hp).1 hname' with
        ⟨hnone, hrates, hcoins⟩ | ⟨t, dic, hone, hseat, hdic, hrates, hrated⟩
      · rw [hnone, List.append_nil]
        exact ⟨hrates.trans hremembers.rates,
          fun hnil => hcoins.trans (hremembers.early hnil),
          hremembers.first, hremembers.rated⟩
      · rw [hremembers.rates] at hdic
        cases hdic
        rw [hone]
        exact hremembers.concat hseat hrates hrated
    · intro _
      exact (hdealt p (hstart.inPlay.mem_AIs hp).1).2.le
    · simp
    · intro pre t post hnil
      cases pre <;> cases hnil
  exact hboth.2

end Run

/-- In every state that a game reaches, what an AI has stored is what
`changeMoveRate` makes of the tables it saw at its own turns, one after the
other; nothing that happened at the turns of the others changed it. -/
theorem rates_remembered {w : World} {user : PlayerRef}
    {AIs : List PlayerRef} {base : CardRef} {shuffling dealing : List ℕ}
    {y₀ y : Session} {es : List Event} {p : PlayerRef}
    (hlobby : Lobby w user AIs)
    (hopen : openSession w base shuffling dealing = .ok y₀)
    (hrun : run stepSession y₀ es = .ok y) (hp : p ∈ AIs)
    (hname : (w.player p).name ≠ w.username) :
    (y.game.world.player p).ai.map AI.moveRateDic =
      some (remembered (record stepSession (ownTurns p) y₀ es)) :=
  (Remembers.of_run hlobby hopen hrun hp hname).rates

theorem rates_remembered_robbedUser :
    ∃ y₀ y, openSession (lobbyOf "user" ["Charlie Puth", "Ed Sheeran"] []) 0
        (List.range 15) [1, 0, 0, 0, 3] = .ok y₀ ∧
      run stepSession y₀ robbedUser = .ok y ∧
      (y.game.world.player 2).ai.map AI.moveRateDic =
        some (remembered (record stepSession (ownTurns 2) y₀ robbedUser)) := by
  have hlast : lastStep stepSession
      (openSession (lobbyOf "user" ["Charlie Puth", "Ed Sheeran"] []) 0
        (List.range 15) [1, 0, 0, 0, 3]) robbedUser .endGame
      (fun _ _ => true) = true := by
    decide +kernel
  obtain ⟨y₀, y, -, hopen, hrun, -⟩ := exists_of_lastStep hlast
  exact ⟨y₀, y, hopen, hrun, rates_remembered
    (lobbyOf_two "user" "Charlie Puth" "Ed Sheeran") hopen hrun (by decide)
    (by decide)⟩

/-! ## Bluffs run out -/

/-- The moves whose rate nothing raises while the AI has no card for it. -/
def fading : List MoveName := [.assassinate, .exchange, .steal]

section Bluff

variable {m : MoveName} {self : Seat} {turns : List OwnTurn}

theorem roleBlock_unheld (start : Option ℤ) (players : List Seat) (rate : ℤ)
    (h : self.copies m = 0) : roleBlock m start self players rate =
      rate - 1 - 2 * ((players.map (Seat.shownCopies m)).sum : ℤ) := by
  rw [roleBlock, if_neg (by simp [copies_eq_zero_iff.mp h]), foldl_lowerShown]

/-- A rate without a card loses at least one. -/
theorem changeMoveRate_unheld (hm : m ∈ fading) (h : self.copies m = 0)
    (players : List Seat) (dic : MoveName → ℤ) :
    changeMoveRate self players dic m ≤ max (dic m - 1) 0 := by
  have hblock := roleBlock_unheld (startRate m) players (dic m) h
  have hrole : m ∈ roleMoves ∧ m ∈ rateKeys ∧
      ¬ (m = .income ∨ m = .tax ∨ m = .foreignAid) := by
    revert hm
    cases m <;> decide
  rw [changeMoveRate, clampRates_apply hrole.2.1, adjustSteal_apply,
    adjustByCoins_apply, roleBlocks_apply, if_neg hrole.2.2, if_pos hrole.1,
    hblock]
  split
  · exact le_max_right _ _
  · split
    · exact le_max_right _ _
    · omega

/-- A rate that starts with five is used up by five turns without a card. -/
theorem remembered_le (hm : m ∈ fading)
    (h : ∀ t ∈ turns, t.seat.copies m = 0) :
    remembered turns m ≤ max (5 - turns.length) 0 := by
  induction turns using List.reverseRecOn with
  | nil => simp [remembered, AI.init]
  | append_singleton turns t ih =>
      have hlast := changeMoveRate_unheld hm (h t (by simp)) t.table
        (remembered turns)
      have hrest := ih fun t' ht' => h t' (by simp [ht'])
      rw [remembered_concat, List.length_append, List.length_singleton]
      omega

/-- The rate of an assassination is zero from the first turn on, at which the
AI cannot pay for it. -/
theorem remembered_assassinate (hne : turns ≠ [])
    (hfirst : ∀ t ∈ turns.head?, t.seat.coins ≤ 2)
    (h : ∀ t ∈ turns, t.seat.copies .assassinate = 0) :
    remembered turns .assassinate ≤ 0 := by
  induction turns using List.reverseRecOn with
  | nil => exact absurd rfl hne
  | append_singleton turns t ih =>
      rw [remembered_concat]
      by_cases hnil : turns = []
      · subst hnil
        have hpoor : t.seat.coins < 3 := by
          have hcoins := hfirst t rfl
          omega
        rw [changeMoveRate_assassinate hpoor]
      · have hlast := changeMoveRate_unheld (by decide) (h t (by simp)) t.table
          (remembered turns)
        have hrest := ih hnil
          (fun v hv => hfirst v (by rw [List.head?_append, hv]; rfl))
          fun t' ht' => h t' (by simp [ht'])
        omega

end Bluff

/-- In no game does an AI announce an assassination if it has held no Assassin
at its turns so far, and it announces an exchange or a steal without having
held the card for it at its first four turns only. -/
theorem bluffs_run_out {w : World} {user : PlayerRef} {AIs : List PlayerRef}
    {base : CardRef} {shuffling dealing : List ℕ} {y₀ y : Session}
    {es : List Event} {p : PlayerRef} {pre post : List OwnTurn} {t : OwnTurn}
    (hlobby : Lobby w user AIs)
    (hopen : openSession w base shuffling dealing = .ok y₀)
    (hrun : run stepSession y₀ es = .ok y) (hp : p ∈ AIs)
    (hname : (w.player p).name ≠ w.username)
    (hturns : record stepSession (ownTurns p) y₀ es = pre ++ t :: post)
    (hbluff : ∀ v ∈ pre ++ [t], v.seat.copies t.name = 0) :
    t.name ≠ .assassinate ∧
      (t.name = .exchange ∨ t.name = .steal → pre.length < 4) := by
  have hremembers := Remembers.of_run hlobby hopen hrun hp hname
  rw [hturns] at hremembers
  have hrated := hremembers.rated pre t post rfl
  constructor
  · intro hkill
    rw [hkill] at hrated hbluff
    have hfirst : ∀ v ∈ (pre ++ [t]).head?, v.seat.coins ≤ 2 := by
      intro v hv
      apply hremembers.first v
      cases pre <;> simpa using hv
    have hzero := remembered_assassinate (by simp) hfirst hbluff
    rcases hrated with hcoup | hincome | hpos
    · cases hcoup
    · cases hincome
    · omega
  · intro hname'
    have hfading : t.name ∈ fading := by
      rcases hname' with h | h <;> rw [h] <;> decide
    have hle := remembered_le hfading hbluff
    rw [List.length_append, List.length_singleton] at hle
    rcases hrated with hcoup | hincome | hpos
    · rw [hcoup] at hname'
      simp at hname'
    · rw [hincome] at hname'
      simp at hname'
    · omega

/-- The user takes income, and Charlie Puth, who holds an Assassin and an
Ambassador, steals. -/
def bluffedSteal : List Event :=
  .start :: userPresses .income ++
    [unchallenged, scripted .allow .greatest 44 [0] []]

theorem bluffs_run_out_bluffedSteal :
    ∃ y₀ y t, openSession (lobbyOf "user" ["Charlie Puth"] []) 0
        (List.range 15) [4, 8] = .ok y₀ ∧
      run stepSession y₀ bluffedSteal = .ok y ∧
      record stepSession (ownTurns 1) y₀ bluffedSteal = [t] ∧
      t.name = .steal ∧ t.seat.copies t.name = 0 ∧
      t.name ≠ .assassinate := by
  have hlast : lastStep stepSession
      (openSession (lobbyOf "user" ["Charlie Puth"] []) 0 (List.range 15)
        [4, 8]) bluffedSteal .endGame (fun _ _ => true) = true := by
    decide +kernel
  have hrecord : (openSession (lobbyOf "user" ["Charlie Puth"] []) 0
      (List.range 15) [4, 8]).toOption.map (fun y₀ =>
        (record stepSession (ownTurns 1) y₀ bluffedSteal).map fun t =>
          (t.name, t.seat.copies t.name)) = some [(.steal, 0)] := by
    decide +kernel
  obtain ⟨y₀, y, -, hopen, hrun, -⟩ := exists_of_lastStep hlast
  rw [hopen] at hrecord
  obtain ⟨t, hturns, ht⟩ := List.map_eq_singleton_iff.mp
    (Option.some.inj hrecord)
  obtain ⟨hsteal, hcopies⟩ := Prod.mk.inj ht
  have hno : t.name ≠ .assassinate ∧ (t.name = .exchange ∨ t.name = .steal →
      ([] : List OwnTurn).length < 4) :=
    bluffs_run_out (p := 1) (lobbyOf_one "user" "Charlie Puth") hopen hrun
      (by decide) (by decide) hturns (by simpa using hcopies)
  exact ⟨y₀, y, t, hopen, hrun, hturns, hsteal, hcopies, hno.1⟩

end Coup
