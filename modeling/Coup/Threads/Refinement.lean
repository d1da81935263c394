import Coup.Game.Invariant
import Coup.Threads.Loop

/-!
# A session is a run of the loop

A step of a session runs a whole iteration of `runGame`, with the answer of
the user given when it is needed.  The loop takes the same iteration step by
step: in the slot of the user it sends the block that enables the buttons, the
block is delivered and the user taps one of them.
-/

namespace Coup

open Coup.Support

/-- The loop with an empty main queue. -/
def loopAt (s : State) (place : Place) (pending : ℕ) : Loop :=
  { game := s, place, pending, queue := [] }

/-- Where the round of `t` goes on after a slot. -/
def SlotResult.place (t : Turn) : SlotResult → Place
  | .answered objection => .objected t objection
  | .next curMove => .slot t curMove

section Turn

variable {s s₁ s₂ s' : State} {t : Turn} {i : TurnInput} {n : ℕ}
  {curMove o : Move} {p : PlayerRef} {result : SlotResult}

/-- A tap on an enabled button. -/
theorem stepLoop_tap_ok {place : Place} (htap : tapAnswer s i.round.answer =
    .ok s') :
    stepLoop (loopAt { s with vc.buttons := enableChallengeButtons } place n)
      (.tap i.round.answer) = .ok (loopAt s' place n) := by
  have hpress : answerBtnPressed s i.round.answer = .ok s' := by
    cases h : i.round.answer <;> rw [h] at htap <;> exact htap
  obtain ⟨caller, target, hcaller, htarget, rfl⟩ :=
    answerBtnPressed_spec hpress
  have hon : i.round.answer.enabled enableChallengeButtons = true := by
    cases i.round.answer <;> rfl
  have hpress' : answerBtnPressed
      { s with vc.buttons := enableChallengeButtons } i.round.answer =
        answerBtnPressed s i.round.answer := rfl
  have htap' : tapAnswer { s with vc.buttons := enableChallengeButtons }
      i.round.answer = answerBtnPressed s i.round.answer := by
    cases i.round.answer <;> rfl
  rw [stepLoop]
  simp only [loopAt, hon, if_true]
  rw [htap', hpress]
  rfl

/-- The slot of the user: one block is sent and delivered, and one tap is
noticed. -/
theorem slotAsk_user_reaches
    (hname : (s.world.player p).name = s.world.username)
    (hflag : s.vc.didPlayerChallengeOrAllow = false)
    (htap : tapAnswer s i.round.answer = .ok s') :
    Reaches stepLoop (loopAt s (.ask t curMove p) n)
      (loopAt s' (.use t curMove p) n) := by
  have hwait : stepLoop (loopAt s (.ask t curMove p) n) (.thread i) =
      .ok (loopAt s (.test t curMove p) n) := if_pos hname
  have hretry : stepLoop (loopAt s (.test t curMove p) n) (.thread i) =
      .ok (loopAt s (.send t curMove p) n) := by
    simp [stepLoop, stepThread, loopAt, atTest, hflag]
  have hsend : stepLoop (loopAt s (.send t curMove p) n) (.thread i) =
      .ok { loopAt s (.test t curMove p) n with
        queue := [.enableChallengeButtons] } := rfl
  have hdeliver : stepLoop { loopAt s (.test t curMove p) n with
      queue := [.enableChallengeButtons] } .deliver =
        .ok (loopAt { s with vc.buttons := enableChallengeButtons }
          (.test t curMove p) n) := rfl
  have hanswered : s'.vc.didPlayerChallengeOrAllow = true := by
    cases h : i.round.answer <;> rw [h] at htap <;>
      obtain ⟨_, _, _, _, rfl⟩ := answerBtnPressed_spec htap <;> rfl
  have hnotice : stepLoop (loopAt s' (.test t curMove p) n) (.thread i) =
      .ok (loopAt s' (.use t curMove p) n) := by
    simp [stepLoop, stepThread, loopAt, atTest, hanswered]
  exact .head hwait (.head hretry (.head hsend (.head hdeliver
    (.head (stepLoop_tap_ok htap) (.single hnotice)))))

/-- Asking the user takes several steps, asking an AI takes one. -/
theorem slotAsk_reaches (hflag : s.vc.didPlayerChallengeOrAllow = false)
    (h : slotAsk s t.curMove p curMove i.round = .ok (s', o)) :
    Reaches stepLoop (loopAt s (.ask t curMove p) n)
      (loopAt s' (.use t o p) n) := by
  unfold slotAsk at h
  split at h
  next hname =>
    rw [bind_eq_ok] at h
    obtain ⟨s₁, htap, h⟩ := h
    cases h
    exact slotAsk_user_reaches hname hflag htap
  next hname =>
    rw [bind_eq_ok] at h
    obtain ⟨⟨o', w⟩, hanswer, h⟩ := h
    cases h
    have hasked : stepLoop (loopAt s (.ask t curMove p) n) (.thread i) =
        .ok (loopAt { s with world := w } (.use t o p) n) :=
      (if_neg hname).trans (by simp only [loopAt, hanswer, bind_ok]; rfl)
    exact .single hasked

/-- One slot of the challenge round. -/
theorem slotStep_reaches
    (h : slotStep s t.curMove curMove i.round = .ok (s', result)) :
    Reaches stepLoop (loopAt s (.look t curMove) n)
      (loopAt s' (result.place t) n) := by
  rw [slotStep, bind_eq_ok] at h
  obtain ⟨⟨s₁, asked⟩, hhead, h⟩ := h
  have hlook : stepLoop (loopAt s (.look t curMove) n) (.thread i) =
      .ok (loopAt s₁ (asked.elim (.slot t curMove) (.ask t curMove)) n) := by
    simp only [stepLoop, stepThread, loopAt, atLook, hhead, bind_ok]
    cases asked <;> rfl
  obtain ⟨p, -, ⟨rfl, -, rfl⟩ | ⟨rfl, -, rfl⟩⟩ := slotHead_spec hhead
  · cases h
    exact .single hlook
  · simp only [bind_eq_ok] at h
    obtain ⟨⟨s₂, o⟩, hask, huse⟩ := h
    refine .head hlook ((slotAsk_reaches rfl hask).trans ?_)
    refine .single (e := .thread i) ?_
    simp only [stepLoop, stepThread, loopAt, atUse, huse, bind_ok]
    cases result <;> rfl

/-- The challenge round: each slot that does not end it moves on to the next
seat. -/
theorem anyChallengesLoop_reaches {bound : ℕ}
    (hbound : s.world.players.length ≤ s.vc.challengeTurnInd + bound)
    (h : anyChallengesLoop t.curMove i.round bound s curMove = .ok (s', o)) :
    Reaches stepLoop (loopAt s (.slot t curMove) n)
      (loopAt s' (.objected t o) n) := by
  have hover : ∀ (s : State) (curMove : Move),
      ¬ s.vc.challengeTurnInd < s.world.players.length →
      stepLoop (loopAt s (.slot t curMove) n) (.thread i) =
        .ok (loopAt s (.objected t curMove) n) :=
    fun _ _ hge => congrArg Except.ok (if_neg hge)
  induction bound generalizing s curMove with
  | zero =>
      cases h
      exact .single (hover _ _ (Nat.not_lt_of_le hbound))
  | succ bound ih =>
      unfold anyChallengesLoop at h
      split at h
      next hlt =>
        rw [bind_eq_ok] at h
        obtain ⟨⟨s₁, result⟩, hstep, h⟩ := h
        have hlook : stepLoop (loopAt s (.slot t curMove) n) (.thread i) =
            .ok (loopAt s (.look t curMove) n) :=
          congrArg Except.ok (if_pos hlt)
        refine .head hlook ((slotStep_reaches hstep).trans ?_)
        obtain ⟨hquiet, ⟨o', rfl, -⟩ | ⟨cur', rfl, -, hind⟩⟩ :=
          slotStep_spec hstep
        · cases h
          exact .refl _
        · refine ih ?_ h
          rw [hquiet.evolves.table.players, hind]
          omega
      next hge =>
        cases h
        exact .single (hover _ _ hge)

/-- What follows the challenge round. -/
theorem resolve_reaches
    (h : resolve s t.currentPlayer t.curMove o i = .ok s') :
    Reaches stepLoop (loopAt s (.objected t o) n) (loopAt s' .ending n) := by
  unfold resolve at h
  split at h
  next hname =>
    split at h
    next hclaim =>
      simp only [winChallenge, bind_eq_ok] at h
      obtain ⟨⟨s₁, newCard⟩, hshow, s₂, hact, hreplace⟩ := h
      have hshown : stepLoop (loopAt s (.objected t o) n) (.thread i) =
          .ok (loopAt s₁ (.shown t (s.world.checkhaveCard t.currentPlayer
            t.curMove.name) newCard) n) :=
        (if_pos hname).trans ((if_pos hclaim).trans
          (by simp only [loopAt, hshow, bind_ok]; rfl))
      have hacted : stepLoop (loopAt s₁ (.shown t (s.world.checkhaveCard
          t.currentPlayer t.curMove.name) newCard) n) (.thread i) =
          .ok (loopAt s₂ (.acted t (s.world.checkhaveCard t.currentPlayer
            t.curMove.name) newCard) n) := by
        simp only [stepLoop, stepThread, loopAt, hact, bind_ok]
        rfl
      have hreplaced : stepLoop (loopAt s₂ (.acted t (s.world.checkhaveCard
          t.currentPlayer t.curMove.name) newCard) n) (.thread i) =
          .ok (loopAt s' .ending n) := by
        simp only [stepLoop, stepThread, loopAt, hreplace, bind_ok]
        rfl
      exact .head hshown (.head hacted (.single hreplaced))
    next hclaim =>
      rw [bind_eq_ok] at h
      obtain ⟨w, hreveal, h⟩ := h
      cases h
      have hfailed : stepLoop (loopAt s (.objected t o) n) (.thread i) =
          .ok (loopAt { s with world := w } .ending n) :=
        (if_pos hname).trans ((if_neg hclaim).trans
          (by simp only [loopAt, hreveal, bind_ok]; rfl))
      exact .single hfailed
  next hname =>
    split at h
    next hallow =>
      have hallowed : stepLoop (loopAt s (.objected t o) n) (.thread i) =
          .ok (loopAt s' .ending n) :=
        (if_neg hname).trans ((if_pos hallow).trans
          (by simp only [loopAt, h, bind_ok]; rfl))
      exact .single hallowed
    next hnone =>
      cases h
      have hdropped : stepLoop (loopAt s (.objected t o) n) (.thread i) =
          .ok (loopAt s .ending n) :=
        (if_neg hname).trans (if_neg hnone)
      exact .single hdropped

theorem playMove_reaches
    (h : playMove (logMove s t.curMove) t.currentPlayer t.curMove i = .ok s') :
    Reaches stepLoop (loopAt s (.chosen t) n) (loopAt s' .ending n) := by
  unfold playMove at h
  split at h
  next hopen =>
    rw [bind_eq_ok] at h
    obtain ⟨⟨s₁, o⟩, hround, hresolve⟩ := h
    have hclaim : stepLoop (loopAt s (.chosen t) n) (.thread i) =
        .ok (loopAt { logMove s t.curMove with vc.challengeTurnInd := 0 }
          (.slot t .init) n) := by
      simp only [stepLoop, stepThread, loopAt, atChosen]
      rw [if_pos hopen]
    rw [anyChallenges] at hround
    exact .head hclaim ((anyChallengesLoop_reaches (Nat.le_add_left _ _)
      hround).trans (resolve_reaches hresolve))
  next hfree =>
    have hlog : stepLoop (loopAt s (.chosen t) n) (.thread i) =
        .ok (loopAt (logMove s t.curMove) (.free t) n) := by
      simp only [stepLoop, stepThread, loopAt, atChosen]
      rw [if_neg hfree]
    have hact : stepLoop (loopAt (logMove s t.curMove) (.free t) n)
        (.thread i) = .ok (loopAt s' .ending n) := by
      simp only [stepLoop, stepThread, loopAt, h, bind_ok]
      rfl
    exact .head hlog (.single hact)

theorem endTurn_reaches (i : TurnInput) (h : endTurn s = .ok s') :
    Reaches stepLoop (loopAt s .ending n) (loopAt s' .head n) := by
  rw [endTurn, bind_eq_ok] at h
  obtain ⟨s₁, hjudge, h⟩ := h
  cases h
  have hending : stepLoop (loopAt s .ending n) (.thread i) =
      .ok (loopAt s₁ .next n) := by
    simp only [stepLoop, stepThread, loopAt, hjudge, bind_ok]
    rfl
  have hnext : stepLoop (loopAt s₁ .next n) (.thread i) =
      .ok (loopAt (incrementInd s₁) .head n) := rfl
  exact .head hending (.single hnext)

/-- A turn of the session. -/
theorem TakesTurn.reaches {m : Move} (hon : s.vc.gameOn = true)
    (h : TakesTurn s i p m s₁ s₂ s') :
    Reaches stepLoop (loopAt s .head n) (loopAt s' .head n) := by
  have hselect := h.selected
  rw [selectMove, bind_eq_ok] at hselect
  obtain ⟨current, hcurrent, hselect⟩ := hselect
  split at hselect
  next => cases hselect
  next hin =>
    rw [bind_eq_ok] at hselect
    obtain ⟨⟨s₃, selection⟩, htake, hselect⟩ := hselect
    cases hselect
    have hpick : stepLoop (loopAt s .head n) (.thread i) =
        .ok (loopAt s (.picked p) n) :=
      (if_pos hon).trans
        (by simp only [loopAt, hcurrent, bind_ok]; exact if_neg hin)
    have hchoose : stepLoop (loopAt s (.picked p) n) (.thread i) =
        .ok (loopAt s₁ (.chosen ⟨p, m⟩) n) := by
      simp only [stepLoop, stepThread, loopAt, atPicked, htake, bind_ok]
      rfl
    exact .head hpick (.head hchoose ((playMove_reaches h.played).trans
      (endTurn_reaches i h.ended)))

end Turn

/-! ## Sessions -/

def Thread.place : Thread → Place
  | .idle => .idle
  | .looping => .head
  | .leaving => .leaving

/-- The loop of a session. -/
def Session.loop (y : Session) : Loop :=
  { game := y.game
    place := y.thread.place
    pending := y.pending
    queue := List.replicate y.blocks .enableButtons }

section Session

variable {created : List CardRef} {w : World} {user : PlayerRef}
  {AIs : List PlayerRef} {y y' : Session} {e : Event} {i : TurnInput}

/-- At the head of the loop the main queue is empty. -/
theorem Running.loop_eq (h : Running created w user AIs y)
    (hlooping : y.thread = .looping) :
    y.loop = loopAt y.game .head y.pending := by
  rw [Session.loop, hlooping, (h.phase.looping hlooping).2.1]
  rfl

theorem skip_reaches (i : TurnInput) (hlooping : y.thread = .looping)
    (hon : y.game.vc.gameOn = true) (hout : SeatOut y.game) :
    Reaches stepLoop y.loop
      ({ y with game := incrementInd y.game } : Session).loop := by
  obtain ⟨p, hseat, hrevealed⟩ := hout
  have hskip : stepLoop y.loop (.thread i) =
      .ok ({ y with game := incrementInd y.game } : Session).loop := by
    simp only [Session.loop, hlooping, Thread.place]
    refine (if_pos hon).trans ?_
    simp only [hseat, orFault, bind_ok]
    exact if_pos hrevealed
  exact .single hskip

/-- The prompt: the block that enables the move buttons is sent. -/
theorem Running.prompt_reaches (i : TurnInput)
    (h : Running created w user AIs y) (hlooping : y.thread = .looping)
    (hon : y.game.vc.gameOn = true) (hprompt : Prompts y.game) :
    Reaches stepLoop y.loop
      ({ y with thread := .leaving, blocks := y.blocks + 1 } : Session).loop := by
  obtain ⟨hwait, p, huser⟩ := hprompt
  have hpick : stepLoop (loopAt y.game .head y.pending) (.thread i) =
      .ok (loopAt y.game (.picked p) y.pending) := by
    refine (if_pos hon).trans ?_
    simp only [loopAt, huser.current, orFault, bind_ok]
    exact if_neg (by simp [huser.active])
  have hask : stepLoop (loopAt y.game (.picked p) y.pending) (.thread i) =
      .ok { loopAt y.game .leaving y.pending with
        queue := [.enableButtons] } := by
    have htake : takeMove y.game p i.ai = .ok (y.game, .prompt) :=
      (if_pos huser.name).trans (if_pos hwait)
    simp only [stepLoop, stepThread, loopAt, atPicked, htake, bind_ok]
    rfl
  rw [h.loop_eq hlooping]
  have hloop : ({ y with thread := .leaving, blocks := y.blocks + 1 } :
      Session).loop = { loopAt y.game .leaving y.pending with
        queue := [.enableButtons] } := by
    simp only [Session.loop, (h.phase.looping hlooping).2.1]
    rfl
  rw [hloop]
  exact .head hpick (.single hask)

/-- The steps around the loop need no input. -/
def noInput : TurnInput := scriptedTurn .allow .greatest 1 [] []

theorem deliver_reaches (hpos : 0 < y.blocks) :
    Reaches stepLoop y.loop ({ y with
      game := enableButtons y.game, blocks := y.blocks - 1 } : Session).loop := by
  obtain ⟨k, hk⟩ := Nat.exists_eq_add_one_of_ne_zero hpos.ne'
  have hdeliver : stepLoop y.loop .deliver = .ok ({ y with
      game := enableButtons y.game, blocks := y.blocks - 1 } :
        Session).loop := by
    simp only [stepLoop, Session.loop, hk, List.replicate_succ,
      Nat.add_sub_cancel]
    rfl
  exact .single hdeliver

theorem press_reaches {q : Press} (hstep : stepSession y (.press q) = .ok y') :
    Reaches stepLoop y.loop y'.loop := by
  rw [stepSession, bind_eq_ok] at hstep
  obtain ⟨s, hpress, hstep⟩ := hstep
  cases hstep
  have hpressed : stepLoop y.loop (.press q) = .ok ({ y with
      game := s, pending := y.pending + 1 } : Session).loop :=
    bind_eq_ok.mpr ⟨s, hpress, rfl⟩
  exact .single hpressed

/-- Every step of a session is a run of the loop. -/
theorem Running.reaches (h : Running created w user AIs y)
    (hstep : stepSession y e = .ok y') :
    Reaches stepLoop y.loop y'.loop := by
  cases stepSession_spec hstep with
  | start hidle hpos =>
      have hstart : stepLoop y.loop (.thread noInput) =
          .ok ({ y with thread := .looping, pending := y.pending - 1 } :
            Session).loop := by
        simp only [Session.loop, hidle, Thread.place]
        exact if_pos hpos
      exact .single hstart
  | skip i hlooping hon hout => exact skip_reaches i hlooping hon hout
  | prompt i hlooping hon hprompt =>
      exact h.prompt_reaches i hlooping hon hprompt
  | turn i p m s₁ s₂ s hlooping hon hturn =>
      rw [h.loop_eq hlooping, (h.turn hlooping hturn).loop_eq hlooping]
      exact hturn.reaches hon
  | finish hlooping hoff =>
      have hquit : stepLoop y.loop (.thread noInput) =
          .ok ({ y with thread := .idle } : Session).loop := by
        simp only [Session.loop, hlooping, Thread.place]
        exact if_neg (by simp [hoff])
      exact .single hquit
  | wake hleaving =>
      have hwake : stepLoop y.loop (.thread noInput) =
          .ok ({ y with thread := .idle } : Session).loop := by
        simp only [Session.loop, hleaving, Thread.place]
        rfl
      exact .single hwake
  | deliver hpos => exact deliver_reaches hpos
  | press q caller s _ _ _ _ => exact press_reaches hstep
  | endGame => exact .single (e := .endGame) rfl

end Session

/-- Every run of a session, from the opening of its game on, is a run of the
loop. -/
theorem session_reaches {w : World} {user : PlayerRef} {AIs : List PlayerRef}
    {base : CardRef} {shuffling dealing : List ℕ} {y₀ y : Session}
    {es : List Event} (hlobby : Lobby w user AIs)
    (hopen : openSession w base shuffling dealing = .ok y₀)
    (hrun : run stepSession y₀ es = .ok y) :
    openLoop w base shuffling dealing = .ok y₀.loop ∧
      Reaches stepLoop y₀.loop y.loop := by
  refine ⟨?_, run_reaches Session.loop (fun _ _ _ h hstep => h.step hstep)
    (fun _ _ _ h hstep => h.reaches hstep) hrun
    (openSession_spec hlobby hopen).1⟩
  rw [openSession, bind_eq_ok] at hopen
  obtain ⟨s, hload, hopen⟩ := hopen
  cases hopen
  exact bind_eq_ok.mpr ⟨s, hload, rfl⟩

end Coup
