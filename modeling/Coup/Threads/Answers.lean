import Coup.Threads.Scope

/-!
# The answers of the user in a challenge round

While the game thread waits for the user it sends a block that enables the
buttons of the round again and again.  A block that is delivered after the
answer enables them for whatever the thread does next.  As long as no answer
overtakes such a block, the buttons are enabled only while the user is waited
for, and the wait consumes the answer.
-/

namespace Coup

open Coup.Support

/-- The loop waits for the user in a slot of the challenge round of `t`. -/
def WaitsFor (user : PlayerRef) (t : Turn) (y : Loop) : Prop :=
  ∃ curMove, y.place = .test t curMove user ∨ y.place = .send t curMove user

/-- The flag is set, and the recorded move is the answer of the user. -/
structure Answered (user : PlayerRef) (a : Answer) (s : State) : Prop where
  flag : s.vc.didPlayerChallengeOrAllow = true
  name : s.vc.challengeMove.name = a.name
  caller : s.vc.challengeMove.caller = user
  target : s.world.players[s.vc.turnInd]? = some s.vc.challengeMove.target

/-- The current seat of the challenge round. -/
def InSlot (s : State) (p : PlayerRef) : Prop :=
  s.world.players[s.vc.challengeTurnInd]? = some p

/-- What holds in a slot of the challenge round. -/
def SlotSound (user : PlayerRef) (y : Loop) : Prop :=
  match y.place with
  | .ask _ _ p => InSlot y.game p ∧ y.game.vc.didPlayerChallengeOrAllow = false
  | .test _ _ p =>
      p = user ∧ InSlot y.game user ∧
        (y.game.vc.didPlayerChallengeOrAllow = true →
          ∃ a, Answered user a y.game)
  | .send _ _ p =>
      p = user ∧ InSlot y.game user ∧
        y.game.vc.didPlayerChallengeOrAllow = false
  | .use _ _ p =>
      InSlot y.game p ∧ (y.game.vc.didPlayerChallengeOrAllow = true →
        p = user ∧ ∃ a, Answered user a y.game)
  | _ => True

/-- The buttons of the round are enabled, or a block that enables them is on
its way. -/
def Offering (y : Loop) : Prop :=
  y.game.vc.buttons.allow = true ∨ y.game.vc.buttons.challenge = true ∨
    Block.enableChallengeButtons ∈ y.queue

/-- Buttons are offered only to the user who is waited for. -/
structure Asks (user : PlayerRef) (y : Loop) : Prop where
  slot : SlotSound user y
  offering : Offering y →
    y.game.vc.didPlayerChallengeOrAllow = false ∧ ∃ t, WaitsFor user t y

/-- The thread is about to send a block that enables the buttons. -/
def Place.sending : Place → Bool
  | .send _ _ _ => true
  | _ => false

/-- No block that enables the buttons of the round is on its way or about to
be sent. -/
structure Settled (y : Loop) : Prop where
  queue : Block.enableChallengeButtons ∉ y.queue
  place : y.place.sending = false

instance (y : Loop) : Decidable (Settled y) :=
  decidable_of_iff
    (Block.enableChallengeButtons ∉ y.queue ∧ y.place.sending = false)
    ⟨fun h => ⟨h.1, h.2⟩, fun h => ⟨h.queue, h.place⟩⟩

theorem Answer.offering {y : Loop} {a : Answer}
    (h : a.enabled y.game.vc.buttons = true) : Offering y := by
  cases a with
  | allow => exact Or.inl h
  | challenge => exact Or.inr (Or.inl h)

theorem not_offering {y : Loop}
    (hbuttons : y.game.vc.buttons = disableAllButtons)
    (hqueue : Block.enableChallengeButtons ∉ y.queue) : ¬ Offering y := by
  rintro (h | h | h)
  · rw [hbuttons] at h
    cases h
  · rw [hbuttons] at h
    cases h
  · exact hqueue h

section Step

variable {F : Footprint} {user : PlayerRef} {y y' : Loop} {i : TurnInput}
  {e : LoopEvent}

/-- The thread offers the buttons only by the block it sends while it waits. -/
theorem LoopMove.offering (hmove : LoopMove y i y') (hscope : Scoped F y)
    (h : Offering y') :
    Offering y ∨ ∃ t curMove p, y.place = .send t curMove p := by
  obtain ⟨hgame, hplace'⟩ := hscope
  have hstays : ∀ s, Stays F y.game s →
      s.vc.buttons = y.game.vc.buttons := fun s hs => by rw [hs.vc]
  cases hmove with
  | send t curMove p hplace => exact Or.inr ⟨t, curMove, p, hplace⟩
  | prompt p hplace hname hwait =>
      apply Or.inl
      rcases h with h | h | h
      · exact Or.inl h
      · exact Or.inr (Or.inl h)
      · rcases List.mem_append.mp h with h | h
        · exact Or.inr (Or.inr h)
        · simp at h
  | choose p m s hplace hchosen =>
      cases hchosen with
      | user hname hpressed hm hs => subst hs; exact Or.inl h
      | ai w hname hget hs => subst hs; exact Or.inl h
  | expose t o s newCard hplace hname hshow =>
      have hb := hstays s (showClaim_stays hgame.owns hshow).1
      apply Or.inl
      simpa only [Offering, hb] using h
  | act t s place hplace hact =>
      have ht := (within_act hplace hplace').1.curMove
      have hb := hstays s (actOnMove_stays hgame.owns (fun _ => hgame.user) ht
        hact)
      apply Or.inl
      simpa only [Offering, hb] using h
  | replace t theCard newCard s hplace hreplace =>
      rw [hplace] at hplace'
      have hb := hstays s (replaceClaim_stays hgame.owns
        hplace'.1.currentPlayer hplace'.2 hreplace)
      apply Or.inl
      simpa only [Offering, hb] using h
  | judge s hplace hjudge =>
      rcases isGameOver_cases hjudge with ⟨-, player0, -, rfl⟩ | ⟨-, rfl⟩
      · exact Or.inl h
      · exact Or.inl h
  | _ => exact Or.inl h

theorem LoopMove.asks (hmove : LoopMove y i y') (hscope : Scoped F y)
    (hunique : ∀ p ∈ F.players,
      (y.game.world.player p).name = y.game.world.username → p = user)
    (h : Asks user y) : Asks user y' := by
  have hslot := h.slot
  have hplace' := hscope.place
  unfold SlotSound at hslot
  have hwaits : Offering y' → ∃ t curMove, y.place = .test t curMove user ∧
      y.game.vc.didPlayerChallengeOrAllow = false ∨
        y.place = .send t curMove user := by
    intro hoffers
    rcases hmove.offering hscope hoffers with hy | ⟨t, curMove, p, hplace⟩
    · obtain ⟨hflag, t, curMove, hw | hw⟩ := h.offering hy
      · exact ⟨t, curMove, Or.inl ⟨hw, hflag⟩⟩
      · exact ⟨t, curMove, Or.inr hw⟩
    · rw [hplace] at hslot
      obtain ⟨rfl, -, -⟩ := hslot
      exact ⟨t, curMove, Or.inr hplace⟩
  cases hmove with
  | wait t curMove p hplace hname =>
      rw [hplace] at hslot hplace'
      obtain ⟨hseat, hflag⟩ := hslot
      obtain rfl := hunique p hplace'.2.2 hname
      refine ⟨⟨rfl, hseat, fun hon => ?_⟩, fun _ =>
        ⟨hflag, t, curMove, Or.inl rfl⟩⟩
      cases hflag.symm.trans hon
  | retry t curMove p hplace hoff =>
      rw [hplace] at hslot
      obtain ⟨rfl, hseat, -⟩ := hslot
      exact ⟨⟨rfl, hseat, hoff⟩, fun _ => ⟨hoff, t, curMove, Or.inr rfl⟩⟩
  | send t curMove p hplace =>
      rw [hplace] at hslot
      obtain ⟨rfl, hseat, hoff⟩ := hslot
      refine ⟨⟨rfl, hseat, fun hon => ?_⟩, fun _ =>
        ⟨hoff, t, curMove, Or.inl rfl⟩⟩
      cases hoff.symm.trans hon
  | notice t curMove p hplace hon =>
      rw [hplace] at hslot
      obtain ⟨rfl, hseat, hanswer⟩ := hslot
      refine ⟨⟨hseat, fun _ => ⟨rfl, hanswer hon⟩⟩, fun ho => ?_⟩
      obtain ⟨t', curMove', ⟨-, hoff⟩ | hw⟩ := hwaits ho
      · cases hoff.symm.trans hon
      · rw [hplace] at hw
        cases hw
  | ask t curMove p hplace hseat hask =>
      refine ⟨⟨hseat, rfl⟩, fun ho => ?_⟩
      obtain ⟨t', curMove', ⟨hw, -⟩ | hw⟩ := hwaits ho <;>
        rw [hplace] at hw <;> cases hw
  | answer t curMove o p w hplace hname hanswer =>
      rw [hplace] at hslot
      obtain ⟨hseat, hflag⟩ := hslot
      have hplayers : w.players = y.game.world.players := by
        obtain ⟨-, rfl | ⟨-, ai, rfl⟩⟩ := getChallengeOrAllow_spec hanswer <;>
          rfl
      refine ⟨⟨?_, fun hon => ?_⟩, fun ho => ?_⟩
      · simpa only [InSlot, hplayers] using hseat
      · cases hflag.symm.trans hon
      · obtain ⟨t', curMove', ⟨hw, -⟩ | hw⟩ := hwaits ho <;>
          rw [hplace] at hw <;> cases hw
  | act t s place hplace hact =>
      rcases hplace with ⟨⟨o, hp, -⟩, rfl⟩ | ⟨hp, rfl⟩ |
        ⟨theCard, c, hp, rfl⟩ <;>
        refine ⟨trivial, fun ho => ?_⟩ <;>
        obtain ⟨t', curMove', ⟨hw, -⟩ | hw⟩ := hwaits ho <;>
        rw [hp] at hw <;> cases hw
  | skip p hplace hon hseat hout =>
      refine ⟨?_, fun ho => ?_⟩
      · simp only [SlotSound, hplace]
      · obtain ⟨t', curMove', ⟨hw, -⟩ | hw⟩ := hwaits ho <;>
          rw [hplace] at hw <;> cases hw
  | start hplace | pick p hplace _ _ _ | quit hplace _ | prompt p hplace _ _
  | choose p m s hplace _ | wake hplace | claim t hplace _ | log t hplace _
  | seat t curMove hplace _ | round t curMove hplace _
  | pass t curMove p hplace _ _ | object t curMove o p hplace _ _ _
  | allow t curMove o p hplace _ _ _ | expose t o s c hplace _ _
  | fail t o w hplace _ _ | drop t o hplace | replace t c n s hplace _
  | judge s hplace _ | turn hplace =>
      refine ⟨trivial, fun ho => ?_⟩
      obtain ⟨t', curMove', ⟨hw, -⟩ | hw⟩ := hwaits ho <;>
        rw [hplace] at hw <;> cases hw

/-- The flag and the recorded move of `s` are those of `s'`. -/
structure SameAnswer (s s' : State) : Prop where
  players : s'.world.players = s.world.players
  turnInd : s'.vc.turnInd = s.vc.turnInd
  challengeTurnInd : s'.vc.challengeTurnInd = s.vc.challengeTurnInd
  flag : s'.vc.didPlayerChallengeOrAllow = s.vc.didPlayerChallengeOrAllow
  challengeMove : s'.vc.challengeMove = s.vc.challengeMove

theorem SameAnswer.answered {s s' : State} {a : Answer}
    (h : SameAnswer s s') (ha : Answered user a s) : Answered user a s' where
  flag := h.flag.trans ha.flag
  name := h.challengeMove ▸ ha.name
  caller := h.challengeMove ▸ ha.caller
  target := by
    rw [h.players, h.turnInd, h.challengeMove]
    exact ha.target

theorem SameAnswer.seat {s s' : State} {p : PlayerRef}
    (h : SameAnswer s s') (hp : InSlot s p) : InSlot s' p := by
  rw [InSlot, h.players, h.challengeTurnInd]
  exact hp

theorem SameAnswer.slotSound (h : SameAnswer y.game y'.game)
    (hplace : y'.place = y.place) (hslot : SlotSound user y) :
    SlotSound user y' := by
  unfold SlotSound at hslot ⊢
  rw [hplace]
  cases hp : y.place <;> simp only [hp] at hslot ⊢
  case ask => exact ⟨h.seat hslot.1, h.flag.trans hslot.2⟩
  case test =>
    refine ⟨hslot.1, h.seat hslot.2.1, fun hon => ?_⟩
    obtain ⟨a, ha⟩ := hslot.2.2 (h.flag.symm.trans hon)
    exact ⟨a, h.answered ha⟩
  case send => exact ⟨hslot.1, h.seat hslot.2.1, h.flag.trans hslot.2.2⟩
  case use =>
    refine ⟨h.seat hslot.1, fun hon => ?_⟩
    obtain ⟨hp, a, ha⟩ := hslot.2 (h.flag.symm.trans hon)
    exact ⟨hp, a, h.answered ha⟩

/-- The other events of the main thread leave the answer alone and offer no
button that was not offered. -/
theorem stepLoop_sameAnswer (hstep : stepLoop y e = .ok y')
    (hthread : ∀ i, e ≠ .thread i) (htap : ∀ a, e ≠ .tap a) :
    SameAnswer y.game y'.game ∧ y'.place = y.place ∧
      (Offering y' → Offering y) := by
  cases e with
  | thread i => exact absurd rfl (hthread i)
  | tap a => exact absurd rfl (htap a)
  | deliver =>
      obtain ⟨block, queue, hqueue, rfl⟩ := stepLoop_deliver hstep
      cases block with
      | enableButtons =>
          refine ⟨⟨rfl, rfl, rfl, rfl, rfl⟩, rfl, ?_⟩
          rintro (h | h | h)
          · cases h
          · cases h
          · exact Or.inr (Or.inr (hqueue ▸ List.mem_cons_of_mem _ h))
      | enableChallengeButtons =>
          exact ⟨⟨rfl, rfl, rfl, rfl, rfl⟩, rfl,
            fun _ => Or.inr (Or.inr (hqueue ▸ List.mem_cons_self))⟩
  | press q =>
      obtain ⟨-, caller, s, -, ⟨hworld, hvc⟩, rfl⟩ := stepLoop_press hstep
      refine ⟨⟨congrArg World.players hworld, ?_, ?_, ?_, ?_⟩, rfl, ?_⟩
      · rw [hvc]
      · rw [hvc]
      · rw [hvc]
      · rw [hvc]
      · rintro (h | h | h)
        · rw [hvc] at h; cases h
        · rw [hvc] at h; cases h
        · exact Or.inr (Or.inr h)
  | endGame =>
      cases hstep
      exact ⟨⟨rfl, rfl, rfl, rfl, rfl⟩, rfl, id⟩

/-- A tap that comes while buttons are offered only to the user who is waited
for. -/
theorem Asks.tap {a : Answer} (h : Asks user y)
    (hstep : stepLoop y (.tap a) = .ok y') :
    y.game.vc.didPlayerChallengeOrAllow = false ∧ (∃ t, WaitsFor user t y) ∧
      InSlot y.game user ∧ Answered user a y'.game ∧ y'.place = y.place ∧
      y'.game.vc.buttons = disableAllButtons ∧ y'.queue = y.queue ∧
      y'.game.world = y.game.world ∧
      y'.game.vc.challengeTurnInd = y.game.vc.challengeTurnInd := by
  obtain ⟨hon, caller, target, hcaller, htarget, rfl⟩ := stepLoop_tap hstep
  obtain ⟨hflag, t, curMove, hwaits⟩ := h.offering (Answer.offering hon)
  have hseat : InSlot y.game user := by
    have hslot := h.slot
    unfold SlotSound at hslot
    rcases hwaits with hw | hw <;> rw [hw] at hslot <;> exact hslot.2.1
  obtain rfl : caller = user :=
    Option.some.inj (hcaller.symm.trans hseat)
  exact ⟨hflag, ⟨t, curMove, hwaits⟩, hseat, ⟨rfl, rfl, rfl, htarget⟩, rfl,
    rfl, rfl, rfl, rfl⟩

theorem Asks.step (h : Asks user y) (hscope : Scoped F y)
    (hunique : ∀ p ∈ F.players,
      (y.game.world.player p).name = y.game.world.username → p = user)
    (hstep : stepLoop y e = .ok y')
    (hsettled : ∀ a, e = .tap a → Settled y) : Asks user y' := by
  obtain ⟨i, rfl⟩ | hmain := e.thread_or_main
  · exact (stepThread_spec hstep).asks hscope hunique h
  by_cases htap : ∃ a, e = .tap a
  · obtain ⟨a, rfl⟩ := htap
    obtain ⟨hqueue, hsend⟩ := hsettled a rfl
    obtain ⟨-, ⟨t, curMove, hw⟩, hseat, hanswered, hplace, hbuttons, hqueue',
      hworld, hind⟩ := h.tap hstep
    have htest : y.place = .test t curMove user :=
      hw.resolve_right fun hw => by rw [hw] at hsend; cases hsend
    refine ⟨?_, fun ho => ?_⟩
    · unfold SlotSound
      rw [hplace, htest]
      refine ⟨rfl, ?_, fun _ => ⟨a, hanswered⟩⟩
      rw [InSlot, hworld, hind]
      exact hseat
    · rw [← hqueue'] at hqueue
      exact absurd ho (not_offering hbuttons hqueue)
  · obtain ⟨hsame, hplace, hoffering⟩ := stepLoop_sameAnswer hstep
      hmain (fun a ha => htap ⟨a, ha⟩)
    refine ⟨hsame.slotSound hplace h.slot, fun ho => ?_⟩
    obtain ⟨hflag, t, hw⟩ := h.offering (hoffering ho)
    refine ⟨hsame.flag.trans hflag, t, ?_⟩
    simpa only [WaitsFor, hplace] using hw

/-! ## The answer and its wait -/

/-- The user answered `a` in slot `k` of the challenge round of `t`, and the
wait has not used the answer yet. -/
structure Pending (user : PlayerRef) (t : Turn) (k : ℕ) (a : Answer)
    (y : Loop) : Prop where
  place : ∃ curMove, y.place = .test t curMove user ∨
    y.place = .send t curMove user ∨ y.place = .use t curMove user
  slot : y.game.vc.challengeTurnInd = k
  answered : Answered user a y.game

/-- The wait of slot `k` uses the answer: the round ends with a challenge or
goes on to the next slot. -/
def Uses (user : PlayerRef) (t : Turn) (k : ℕ) (a : Answer) (y y' : Loop) :
    Prop :=
  (∃ curMove, y.place = .use t curMove user) ∧
    match a with
    | .challenge => y'.place = .objected t y.game.vc.challengeMove
    | .allow => y'.place = .slot t y.game.vc.challengeMove ∧
        y'.game.vc.challengeTurnInd = k + 1

theorem Answer.name_eq_challenge {a : Answer} :
    a.name = .challenge ↔ a = .challenge := by
  cases a <;> simp [Answer.name]

theorem Pending.thread {t : Turn} {k : ℕ} {a : Answer}
    (h : Pending user t k a y) (hmove : LoopMove y i y') :
    Pending user t k a y' ∨ Uses user t k a y y' := by
  obtain ⟨⟨curMove, hplace⟩, hslot, hanswered⟩ := h
  have hflag := hanswered.flag
  cases hmove with
  | notice t' curMove' p hp hon =>
      refine Or.inl ⟨⟨curMove, ?_⟩, hslot, hanswered⟩
      rcases hplace with hw | hw | hw <;> rw [hp] at hw <;> cases hw
      exact Or.inr (Or.inr rfl)
  | send t' curMove' p hp =>
      refine Or.inl ⟨⟨curMove, ?_⟩, hslot, hanswered⟩
      rcases hplace with hw | hw | hw <;> rw [hp] at hw <;> cases hw
      exact Or.inl rfl
  | retry t' curMove' p hp hoff => cases hoff.symm.trans hflag
  | object t' curMove' o p hp hname hanswer hown =>
      apply Or.inr
      rcases hplace with hw | hw | hw <;> rw [hp] at hw <;> cases hw
      obtain rfl := hanswer hflag
      rw [hanswered.name, Answer.name_eq_challenge] at hname
      subst hname
      exact ⟨⟨curMove, hp⟩, rfl⟩
  | allow t' curMove' o p hp hname hanswer hseats =>
      apply Or.inr
      rcases hplace with hw | hw | hw <;> rw [hp] at hw <;> cases hw
      obtain rfl := hanswer hflag
      rw [hanswered.name, Ne, Answer.name_eq_challenge] at hname
      cases a with
      | challenge => exact absurd rfl hname
      | allow => exact ⟨⟨curMove, hp⟩, rfl, congrArg (· + 1) hslot⟩
  | act t' s place hp hact =>
      rcases hp with ⟨⟨o, hp, -⟩, -⟩ | ⟨hp, -⟩ | ⟨_, _, hp, -⟩ <;>
        rcases hplace with hw | hw | hw <;> rw [hp] at hw <;> cases hw
  | start hp | skip _ hp _ _ _ | pick _ hp _ _ _ | quit hp _
  | prompt _ hp _ _ | choose _ _ _ hp _ | wake hp | claim _ hp _
  | log _ hp _ | seat _ _ hp _ | round _ _ hp _ | pass _ _ _ hp _ _
  | ask _ _ _ hp _ _ | wait _ _ _ hp _ | answer _ _ _ _ _ hp _ _
  | expose _ _ _ _ hp _ _ | fail _ _ _ hp _ _ | drop _ _ hp
  | replace _ _ _ _ hp _ | judge _ hp _ | turn hp =>
      rcases hplace with hw | hw | hw <;> rw [hp] at hw <;> cases hw

/-- An answer waits until its own slot uses it. -/
theorem Pending.step {t : Turn} {k : ℕ} {a : Answer} (hasks : Asks user y)
    (h : Pending user t k a y) (hstep : stepLoop y e = .ok y') :
    Pending user t k a y' ∨ Uses user t k a y y' := by
  obtain ⟨i, rfl⟩ | hmain := e.thread_or_main
  · exact h.thread (stepThread_spec hstep)
  by_cases htap : ∃ a, e = .tap a
  · obtain ⟨a', rfl⟩ := htap
    cases (hasks.tap hstep).1.symm.trans h.answered.flag
  · obtain ⟨hsame, hplace, -⟩ := stepLoop_sameAnswer hstep
      hmain (fun a ha => htap ⟨a, ha⟩)
    refine Or.inl ⟨?_, hsame.challengeTurnInd.trans h.slot,
      hsame.answered h.answered⟩
    rw [hplace]
    exact h.place

/-! ## What an early answer leads to -/

/-- The main queue comes to the next block that enables the buttons. -/
theorem deliver_offer (h : Block.enableChallengeButtons ∈ y.queue) :
    ∃ n y', run stepLoop y (List.replicate n .deliver) = .ok y' ∧
      y'.place = y.place ∧ y'.game.vc.buttons = enableChallengeButtons := by
  induction hqueue : y.queue generalizing y with
  | nil => rw [hqueue] at h; cases h
  | cons block queue ih =>
      have hstep : stepLoop y .deliver =
          .ok { y with game := runBlock y.game block, queue } := by
        simp only [stepLoop, hqueue]
      cases block with
      | enableChallengeButtons =>
          refine ⟨1, { y with
            game := runBlock y.game .enableChallengeButtons, queue }, ?_, rfl,
            rfl⟩
          rw [List.replicate_one, run_cons, hstep]
          rfl
      | enableButtons =>
          have hrest : Block.enableChallengeButtons ∈ queue := by
            rw [hqueue] at h
            simpa using h
          obtain ⟨n, y', hrun, hplace, hbuttons⟩ :=
            ih (y := { y with
              game := runBlock y.game .enableButtons, queue }) hrest rfl
          refine ⟨n + 1, y', ?_, hplace, hbuttons⟩
          rw [List.replicate_succ, run_cons, hstep]
          exact hrun

/-- After an answer that overtakes a block, the threads can get to a state in
which the buttons are enabled and nobody waits for them. -/
theorem Asks.early_tap {a : Answer} (h : Asks user y)
    (hstep : stepLoop y (.tap a) = .ok y') (hearly : ¬ Settled y)
    (i : TurnInput) :
    ∃ es z, run stepLoop y' es = .ok z ∧
      (∀ e ∈ es, e = .thread i ∨ e = .deliver) ∧
      z.game.vc.buttons = enableChallengeButtons ∧
      ¬ ∃ t, WaitsFor user t z := by
  obtain ⟨-, ⟨t, curMove, hw⟩, -, hanswered, hplace, -, hqueue, -, -⟩ :=
    h.tap hstep
  have hflag := hanswered.flag
  have hoffers : ∀ z : Loop, Block.enableChallengeButtons ∈ z.queue →
      z.place = .use t curMove user →
      ∃ n z', run stepLoop z (List.replicate n .deliver) = .ok z' ∧
        z'.game.vc.buttons = enableChallengeButtons ∧
        ¬ ∃ t, WaitsFor user t z' := by
    intro z hz hp
    obtain ⟨n, z', hrun, hp', hbuttons⟩ := deliver_offer hz
    refine ⟨n, z', hrun, hbuttons, ?_⟩
    rintro ⟨t', curMove', hw' | hw'⟩ <;> rw [hp', hp] at hw' <;> cases hw'
  have hnotice : ∀ z : Loop, z.place = .test t curMove user →
      z.game.vc.didPlayerChallengeOrAllow = true →
      stepLoop z (.thread i) =
        .ok { z with place := .use t curMove user } := by
    intro z hp hon
    simp only [stepLoop, stepThread, hp, atTest, hon, if_true]
  rcases hw with hw | hw
  · have hmem : Block.enableChallengeButtons ∈ y'.queue := by
      rw [hqueue]
      by_contra hmem
      exact hearly ⟨hmem, by rw [hw]; rfl⟩
    obtain ⟨n, z, hrun, hbuttons, hwaits⟩ :=
      hoffers { y' with place := .use t curMove user } hmem rfl
    refine ⟨.thread i :: List.replicate n .deliver, z, ?_, ?_, hbuttons,
      hwaits⟩
    · rw [run_cons, hnotice y' (hplace.trans hw) hflag]
      exact hrun
    · simp
  · have hsend : stepLoop y' (.thread i) = .ok { y' with
        place := .test t curMove user
        queue := y'.queue ++ [.enableChallengeButtons] } := by
      simp only [stepLoop, stepThread, hplace.trans hw]
    obtain ⟨n, z, hrun, hbuttons, hwaits⟩ :=
      hoffers { y' with
        place := .use t curMove user
        queue := y'.queue ++ [.enableChallengeButtons] } (by simp) rfl
    refine ⟨.thread i :: .thread i :: List.replicate n .deliver, z, ?_, ?_,
      hbuttons, hwaits⟩
    · rw [run_cons, hsend, bind_ok, run_cons, hnotice { y' with
        place := .test t curMove user
        queue := y'.queue ++ [.enableChallengeButtons] } rfl hflag]
      exact hrun
    · simp

end Step

/-! ## Runs -/

section Run

variable {w : World} {user : PlayerRef} {AIs : List PlayerRef}
  {base : CardRef} {shuffling dealing : List ℕ} {y₀ y : Loop}
  {es : List LoopEvent}

/-- The loop of a game that asks its user in the user's slot only. -/
structure AskingUser (w : World) (base : CardRef) (user : PlayerRef)
    (y : Loop) : Prop where
  scope : Scoped (gameFootprint w.players base) y
  table : SameTable (w.createCards base) y.game.world
  asks : Asks user y

theorem AskingUser.step {e : LoopEvent} {y' : Loop}
    (h : AskingUser w base user y) (hlobby : Lobby w user AIs)
    (hname : UserNameUnique w AIs)
    (hstep : stepLoop y e = .ok y')
    (hsettled : ∀ a, e = .tap a → Settled y) : AskingUser w base user y' := by
  obtain ⟨hscope, hsame⟩ := h.scope.step hstep
  refine ⟨hscope, h.table.trans hsame,
    h.asks.step h.scope (fun p hp hp' => ?_) hstep hsettled⟩
  rw [h.table.name, h.table.username] at hp'
  change p ∈ w.players at hp
  rw [hlobby.players, List.mem_cons] at hp
  exact hp.resolve_right fun hAI => hname p hAI hp'

theorem openLoop_askingUser (hlobby : Lobby w user AIs)
    (hopen : openLoop w base shuffling dealing = .ok y₀) :
    AskingUser w base user y₀ := by
  have hscope := openLoop_scoped hlobby hopen
  obtain ⟨s, hload, rfl⟩ := openLoop_eq_ok.mp hopen
  obtain ⟨hin, -, -, -, -, -, hbuttons⟩ := viewDidLoad_spec hlobby hload
  exact ⟨hscope, hin.table, trivial, fun ho =>
    absurd ho (not_offering hbuttons List.not_mem_nil)⟩

theorem asks_run (hlobby : Lobby w user AIs) (hname : UserNameUnique w AIs)
    (hopen : openLoop w base shuffling dealing = .ok y₀)
    (hrun : run stepLoop y₀ es = .ok y)
    (hsettled : EachStep stepLoop
      (fun y e _ => ∀ a, e = .tap a → Settled y) y₀ es) :
    Asks user y :=
  (run_invariant_of_eachStep
    (fun _ _ _ h hstep hs => h.step hlobby hname hstep hs) hrun hsettled
    (openLoop_askingUser hlobby hopen)).asks

/-- If no answer overtakes a block that enables the buttons of the round, an
answer is given only in the slot of the user, while the loop waits for it; it
stays until this wait uses it; and nothing else is used as an answer. -/
theorem answers_belong (hlobby : Lobby w user AIs)
    (hname : UserNameUnique w AIs)
    (hopen : openLoop w base shuffling dealing = .ok y₀)
    (hrun : run stepLoop y₀ es = .ok y)
    (hsettled : EachStep stepLoop
      (fun y e _ => ∀ a, e = .tap a → Settled y) y₀ es) :
    (∀ a y', stepLoop y (.tap a) = .ok y' → ∃ t,
      WaitsFor user t y ∧
      y.game.vc.challengeTurnInd < y.game.world.players.length ∧
      y.game.world.players[y.game.vc.challengeTurnInd]? = some user ∧
      Pending user t y.game.vc.challengeTurnInd a y') ∧
    (∀ t k a e y', Pending user t k a y → stepLoop y e = .ok y' →
      Pending user t k a y' ∨ Uses user t k a y y') ∧
    (∀ t curMove p, y.place = .use t curMove p →
      y.game.vc.didPlayerChallengeOrAllow = true →
        p = user ∧ ∃ a, Pending user t y.game.vc.challengeTurnInd a y) := by
  have hasks := asks_run hlobby hname hopen hrun hsettled
  refine ⟨fun a y' hstep => ?_, fun t k a e y' h => h.step hasks,
    fun t curMove p hplace hflag => ?_⟩
  · obtain ⟨-, ⟨t, curMove, hw⟩, hseat, hanswered, hplace, -, -, -, hind⟩ :=
      hasks.tap hstep
    refine ⟨t, ⟨curMove, hw⟩, (List.getElem?_eq_some_iff.mp hseat).1, hseat,
      ⟨curMove, ?_⟩, hind, hanswered⟩
    rw [hplace]
    exact hw.imp_right Or.inl
  · have hslot := hasks.slot
    unfold SlotSound at hslot
    rw [hplace] at hslot
    obtain ⟨rfl, a, ha⟩ := hslot.2 hflag
    exact ⟨rfl, a, ⟨curMove, Or.inr (Or.inr hplace)⟩, rfl, ha⟩

/-- Conversely, after any answer that does overtake such a block, the threads
can get to a state in which the buttons are enabled and nobody waits for
them. -/
theorem early_answer_misplaces {a : Answer} {y' : Loop}
    (hlobby : Lobby w user AIs) (hname : UserNameUnique w AIs)
    (hopen : openLoop w base shuffling dealing = .ok y₀)
    (hrun : run stepLoop y₀ es = .ok y)
    (hsettled : EachStep stepLoop
      (fun y e _ => ∀ a, e = .tap a → Settled y) y₀ es)
    (hstep : stepLoop y (.tap a) = .ok y') (hearly : ¬ Settled y)
    (i : TurnInput) :
    ∃ fs z, run stepLoop y' fs = .ok z ∧
      (∀ e ∈ fs, e = .thread i ∨ e = .deliver) ∧
      z.game.vc.buttons = enableChallengeButtons ∧
      ¬ ∃ t, WaitsFor user t z :=
  (asks_run hlobby hname hopen hrun hsettled).early_tap hstep hearly i

end Run

/-- A step of the thread in which an AI challenges only at the rate `1`. -/
def calmStep (pick : ℕ) : LoopEvent :=
  scriptedStep .greatest pick

/-- The user takes income, the first AI claims tax, and the user is asked. -/
def askedAboutTax : List LoopEvent :=
  List.replicate 3 (calmStep 1) ++ [.deliver, .press .income] ++
    List.replicate 9 (calmStep 1) ++ [calmStep 30] ++
    List.replicate 6 (calmStep 1)

/-- The user answers once the block has arrived. -/
def calmAnswer : List LoopEvent :=
  askedAboutTax ++ [.deliver, .tap .allow, calmStep 1]

theorem answers_belong_calm :
    ∃ y₀ y t curMove,
      openLoop (lobbyOf "user" ["Charlie Puth", "Ed Sheeran"] []) 0
        (List.range 15) [4, 8] = .ok y₀ ∧
      run stepLoop y₀ calmAnswer = .ok y ∧ y.place = .use t curMove 0 ∧
      ∃ a, Pending 0 t y.game.vc.challengeTurnInd a y := by
  have hcheck : checkFrom stepLoop
      (fun y e _ => match e with
        | .tap _ => decide (Settled y)
        | _ => true)
      (fun y => decide (y.place = .use ⟨1, ⟨.tax, 1, 1⟩⟩ .init 0 ∧
        y.game.vc.didPlayerChallengeOrAllow = true))
      (openLoop (lobbyOf "user" ["Charlie Puth", "Ed Sheeran"] []) 0
        (List.range 15) [4, 8]) calmAnswer = true := by
    decide +kernel
  obtain ⟨y₀, y, hopen, hrun, heach, hend⟩ := exists_of_checkFrom hcheck
  obtain ⟨hplace, hflag⟩ := of_decide_eq_true hend
  have hbelong := answers_belong
    (lobbyOf_two "user" "Charlie Puth" "Ed Sheeran")
    (lobbyOf_userNameUnique [] (by decide)) hopen hrun
    (heach.imp fun _ _ _ _ _ _ _ h a he => by
      subst he
      exact of_decide_eq_true h)
  obtain ⟨-, a, ha⟩ := hbelong.2.2 _ _ _ hplace hflag
  exact ⟨y₀, y, _, _, hopen, hrun, hplace, a, ha⟩

/-- The user answers while a second block is on its way, which enables the
buttons again. -/
def hastyAnswer : List LoopEvent :=
  askedAboutTax ++ [calmStep 1, calmStep 1, .deliver, .tap .allow, .deliver] ++
    List.replicate 6 (calmStep 1)

/-- The second AI is about to be asked when the user challenges in its name. -/
theorem answer_for_another :
    ∃ user AIs y₀ y y' t curMove,
      Lobby (lobbyOf "user" ["Charlie Puth", "Ed Sheeran"] []) user AIs ∧
      UserNameUnique (lobbyOf "user" ["Charlie Puth", "Ed Sheeran"] []) AIs ∧
      openLoop (lobbyOf "user" ["Charlie Puth", "Ed Sheeran"] []) 0
        (List.range 15) [4, 8] = .ok y₀ ∧
      run stepLoop y₀ hastyAnswer = .ok y ∧
      stepLoop y (.tap .challenge) = .ok y' ∧
      y.place = .ask t curMove 2 ∧ user ≠ 2 ∧
      y.game.world.players[y.game.vc.challengeTurnInd]? = some 2 ∧
      y'.game.vc.didPlayerChallengeOrAllow = true ∧
      y'.game.vc.challengeMove = ⟨.challenge, 2, 1⟩ := by
  have hlast : lastStep stepLoop
      (openLoop (lobbyOf "user" ["Charlie Puth", "Ed Sheeran"] []) 0
        (List.range 15) [4, 8]) hastyAnswer (.tap .challenge)
      (fun y y' => decide (
        y.place = .ask ⟨1, ⟨.tax, 1, 1⟩⟩ ⟨.allow, 0, 1⟩ 2 ∧ 0 ≠ 2 ∧
        y.game.world.players[y.game.vc.challengeTurnInd]? = some 2 ∧
        y'.game.vc.didPlayerChallengeOrAllow = true ∧
        y'.game.vc.challengeMove = ⟨.challenge, 2, 1⟩)) = true := by
    decide +kernel
  obtain ⟨y₀, y, y', hopen, hrun, hstep, hP⟩ := exists_of_lastStep hlast
  exact ⟨0, _, y₀, y, y', _, _,
    lobbyOf_two "user" "Charlie Puth" "Ed Sheeran",
    lobbyOf_userNameUnique [] (by decide), hopen, hrun, hstep,
    of_decide_eq_true hP⟩

end Coup
