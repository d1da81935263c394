import Coup.Threads.Answers
import Coup.Threads.Commute

/-!
# The rest of a turn

For every place of the game thread in a turn, `Loop.rest` runs what is left of
the turn in one go, as an iteration of a session does.  A step of the thread
takes the first part of it, with its own draws, and the events of the main
thread in between do not change what the rest can come to.
-/

namespace Coup

open Coup.Support

/-! ## The rest of a turn -/

section Rest

variable (t : Turn) (i : TurnInput)

/-- What is left of a turn when `anyChallenges` has returned. -/
def Turn.afterRound (s : State) (o : Move) : Except Fault State :=
  resolve s t.currentPlayer t.curMove o i >>= endTurn

/-- What is left at the head of the loop of `anyChallenges`. -/
def Turn.afterSeats (s : State) (curMove : Move) : Except Fault State := do
  let (s, o) ← anyChallengesLoop t.curMove i.round
    (s.world.players.length - s.vc.challengeTurnInd) s curMove
  t.afterRound i s o

def Turn.afterSlot (s : State) : SlotResult → Except Fault State
  | .answered o => t.afterRound i s o
  | .next curMove => t.afterSeats i s curMove

/-- What is left at `if (didPlayerChallengeOrAllow)`. -/
def Turn.afterAnswer (s : State) (curMove : Move) : Except Fault State := do
  let (s, result) ← slotUse s curMove
  t.afterSlot i s result

end Rest

/-- The thread has chosen a move and the turn is not over. -/
def Place.inTurn : Place → Bool
  | .idle | .head | .picked _ | .leaving => false
  | _ => true

/-- What is left of the turn. -/
def Loop.rest (y : Loop) (i : TurnInput) : Except Fault State :=
  match y.place with
  | .chosen t =>
      playMove (logMove y.game t.curMove) t.currentPlayer t.curMove i >>=
        endTurn
  | .slot t curMove => t.afterSeats i y.game curMove
  | .look t curMove => do
      let (s, result) ← slotStep y.game t.curMove curMove i.round
      t.afterSlot i s result
  | .ask t curMove player => do
      let (s, curMove) ← slotAsk y.game t.curMove player curMove i.round
      t.afterAnswer i s curMove
  | .test t curMove _ | .send t curMove _ =>
      if y.game.vc.didPlayerChallengeOrAllow then
        t.afterAnswer i y.game curMove
      else do
        let s ← tapAnswer y.game i.round.answer
        t.afterAnswer i s curMove
  | .use t curMove _ => t.afterAnswer i y.game curMove
  | .objected t o => t.afterRound i y.game o
  | .free t => actOnMove y.game t.curMove i.exchange >>= endTurn
  | .shown t theCard newCard => do
      let s ← actOnMove y.game t.curMove i.exchange
      let s ← replaceClaim s t.currentPlayer theCard newCard i.reshuffle
      endTurn s
  | .acted t theCard newCard =>
      replaceClaim y.game t.currentPlayer theCard newCard i.reshuffle >>=
        endTurn
  | .ending => endTurn y.game
  | .next => .ok (incrementInd y.game)
  | _ => .error .refused

/-! ## The draws that are left -/

/-- The user is in none of the seats from `k` on. -/
def NoUserFrom (s : State) (k : ℕ) : Prop :=
  ∀ j p, k ≤ j → s.world.players[j]? = some p →
    (s.world.player p).name ≠ s.world.username

section Draws

variable {s s' : State} {m curMove : Move} {r r' : RoundInput}
  {t : Turn} {i : TurnInput} {bound k : ℕ}

theorem NoUserFrom.congr (h : NoUserFrom s k)
    (htable : SameTable s.world s'.world) : NoUserFrom s' k := by
  intro j p hj hp
  rw [htable.name, htable.username]
  rw [htable.players] at hp
  exact h j p hj hp

/-- A slot reads the draw of its seat, and the answer if it is the user's. -/
theorem slotStep_congr
    (hrand : r'.rand s.vc.challengeTurnInd = r.rand s.vc.challengeTurnInd)
    (hanswer : r'.answer = r.answer ∨ NoUserFrom s s.vc.challengeTurnInd) :
    slotStep s m curMove r' = slotStep s m curMove r := by
  rw [slotStep, slotStep]
  cases hhead : slotHead s m with
  | error f => rfl
  | ok q =>
      obtain ⟨s₁, asked⟩ := q
      obtain ⟨p, hp, ⟨rfl, -, -⟩ | ⟨rfl, -, rfl⟩⟩ := slotHead_spec hhead
      · rfl
      · simp only [bind_ok, slotAsk]
        split
        next huser =>
          rcases hanswer with hsame | hnone
          · rw [hsame]
          · exact absurd huser (hnone _ p le_rfl hp)
        next => rw [hrand]

/-- The challenge round reads only what belongs to the seats that are left. -/
theorem anyChallengesLoop_congr
    (hrand : ∀ k, s.vc.challengeTurnInd ≤ k → r'.rand k = r.rand k)
    (hanswer : r'.answer = r.answer ∨ NoUserFrom s s.vc.challengeTurnInd) :
    anyChallengesLoop m r' bound s curMove =
      anyChallengesLoop m r bound s curMove := by
  induction bound generalizing s curMove with
  | zero => rfl
  | succ bound ih =>
      rw [anyChallengesLoop, anyChallengesLoop,
        slotStep_congr (hrand _ le_rfl) hanswer]
      split
      next =>
        cases hstep : slotStep s m curMove r with
        | error f => rfl
        | ok q =>
            obtain ⟨s₁, result⟩ := q
            obtain ⟨hquiet, hresult⟩ := slotStep_spec hstep
            rcases hresult with ⟨o, rfl, -⟩ | ⟨cur', rfl, -, hind⟩
            · rfl
            · refine ih (fun k hk => hrand k (by omega)) ?_
              refine hanswer.imp id fun hnone j p hj hp => ?_
              exact hnone.congr hquiet.evolves.table j p (by omega) hp
      next => rfl

theorem slotUse_cases {result : SlotResult}
    (h : slotUse s curMove = .ok (s', result)) :
    (∃ o, result = .answered o) ∨
      (∃ cur, result = .next cur) ∧
        s' = { s with vc.challengeTurnInd := s.vc.challengeTurnInd + 1 } := by
  unfold slotUse at h
  split at h
  next =>
    split at h
    next => cases h; exact .inl ⟨_, rfl⟩
    next => cases h; exact .inr ⟨⟨_, rfl⟩, rfl⟩
  next =>
    split at h
    next => cases h; exact .inl ⟨_, rfl⟩
    next =>
      obtain ⟨caller, -, h⟩ := bind_eq_ok.mp h
      obtain ⟨target, -, h⟩ := bind_eq_ok.mp h
      cases h
      exact .inr ⟨⟨_, rfl⟩, rfl⟩

/-- Once a seat has answered, only the draws of the later seats matter. -/
theorem afterAnswer_congr
    (hrand : ∀ k, s.vc.challengeTurnInd < k → r.rand k = i.round.rand k)
    (hanswer : r.answer = i.round.answer ∨
      NoUserFrom s (s.vc.challengeTurnInd + 1)) :
    t.afterAnswer { i with round := r } s curMove =
      t.afterAnswer i s curMove := by
  rw [Turn.afterAnswer, Turn.afterAnswer]
  cases huse : slotUse s curMove with
  | error f => rfl
  | ok q =>
      obtain ⟨s₁, result⟩ := q
      rcases slotUse_cases huse with ⟨o, rfl⟩ | ⟨⟨cur, rfl⟩, rfl⟩
      · rfl
      · let s₁ : State :=
          { s with vc.challengeTurnInd := s.vc.challengeTurnInd + 1 }
        have hloop (bound : ℕ) : anyChallengesLoop t.curMove r bound s₁ cur =
            anyChallengesLoop t.curMove i.round bound s₁ cur :=
          anyChallengesLoop_congr (fun k hk => hrand k hk) hanswer
        simp only [bind_ok, Turn.afterSlot, Turn.afterSeats]
        rw [hloop]
        rfl

end Draws

/-! ## A step of the thread -/

section Step

variable {user : PlayerRef} {s e : State} {y y' : Loop} {t : Turn}
  {i j : TurnInput} {curMove o : Move} {p : PlayerRef}

/-- Nobody but the user has the user's name, and the seats are different. -/
structure OneUser (user : PlayerRef) (s : State) : Prop where
  nodup : s.world.players.Nodup
  unique : ∀ p ∈ s.world.players,
    (s.world.player p).name = s.world.username → p = user

theorem oneUser_of_sameTable {w : World} {AIs : List PlayerRef}
    {base : CardRef} {s : State} (hlobby : Lobby w user AIs)
    (hname : UserNameUnique w AIs)
    (htable : SameTable (w.createCards base) s.world) : OneUser user s := by
  have hplayers : s.world.players = w.players := htable.players
  refine ⟨hplayers ▸ hlobby.nodup, fun p hp huser => ?_⟩
  rw [htable.name, htable.username] at huser
  rw [hplayers, hlobby.players, List.mem_cons] at hp
  exact hp.resolve_right fun hAI => hname p hAI huser

/-- Behind the user's slot nobody is asked by buttons. -/
theorem OneUser.noUserFrom (h : OneUser user s) (hslot : InSlot s user) :
    NoUserFrom s (s.vc.challengeTurnInd + 1) := by
  intro j p hj hp huser
  obtain rfl := h.unique p (List.mem_of_getElem? hp) huser
  have hlt := (List.getElem?_eq_some_iff.mp hp).1
  have hsame : j = s.vc.challengeTurnInd :=
    (List.getElem?_inj hlt h.nodup).mp (hp.trans hslot.symm)
  omega

/-- Up to the answers, a step of the thread computes the first part of what is
left of the turn. -/
theorem claim_rest (hplace : y.place = .chosen t) :
    y.rest i = (atChosen y t).rest i := by
  rw [Loop.rest, hplace]
  simp only [atChosen, playMove]
  split
  next => exact bind_assoc ..
  next => rfl

theorem seat_rest (hplace : y.place = .slot t curMove) :
    y.rest i = (atSlot y t curMove).rest i := by
  rw [Loop.rest, hplace]
  simp only [atSlot, Turn.afterSeats]
  split
  next hlt =>
    obtain ⟨bound, hbound⟩ := Nat.exists_eq_add_one_of_ne_zero
      (Nat.sub_ne_zero_of_lt hlt)
    rw [hbound, anyChallengesLoop, if_pos hlt]
    simp only [Loop.rest]
    cases hstep : slotStep y.game t.curMove curMove i.round with
    | error f => rfl
    | ok q =>
        obtain ⟨s, result⟩ := q
        obtain ⟨hquiet, hresult⟩ := slotStep_spec hstep
        rcases hresult with ⟨o, rfl, -⟩ | ⟨cur, rfl, -, hind⟩
        · rfl
        · have hleft : s.world.players.length - s.vc.challengeTurnInd =
              bound := by
            rw [hquiet.evolves.table.players, hind]
            omega
          simp only [bind_ok, Turn.afterSlot, Turn.afterSeats, hleft]
  next hge =>
    rw [Nat.sub_eq_zero_of_le (Nat.le_of_not_lt hge)]
    rfl

theorem look_rest (hplace : y.place = .look t curMove)
    (hstep : atLook y t curMove = .ok y') : y.rest i = y'.rest i := by
  rw [Loop.rest, hplace]
  simp only [slotStep]
  obtain ⟨⟨s, asked⟩, hhead, hstep⟩ := bind_eq_ok.mp hstep
  rw [hhead, bind_ok]
  cases asked with
  | none => cases hstep; rfl
  | some p => cases hstep; exact bind_assoc ..

/-- The user is waited for, or an AI answers with the draw of its seat. -/
theorem ask_rest (hplace : y.place = .ask t curMove p)
    (hflag : y.game.vc.didPlayerChallengeOrAllow = false)
    (hstep : atAsk y t curMove p j = .ok y') (hrest : y'.rest i = .ok e) :
    ∃ i', y.rest i' = .ok e := by
  unfold atAsk at hstep
  split at hstep
  next huser =>
    cases hstep
    refine ⟨i, ?_⟩
    rw [← hrest, Loop.rest, hplace, Loop.rest]
    simp only [slotAsk, if_pos huser, hflag]
    exact bind_assoc ..
  next huser =>
    obtain ⟨⟨o, w⟩, hanswer, hstep⟩ := bind_eq_ok.mp hstep
    cases hstep
    let r : RoundInput := { i.round with
      rand := Function.update i.round.rand y.game.vc.challengeTurnInd
        (j.round.rand y.game.vc.challengeTurnInd) }
    have hdraw : r.rand y.game.vc.challengeTurnInd =
        j.round.rand y.game.vc.challengeTurnInd := Function.update_self ..
    refine ⟨{ i with round := r }, ?_⟩
    rw [← hrest, Loop.rest, hplace, Loop.rest]
    simp only [slotAsk, if_neg huser, hdraw, hanswer, bind_ok]
    refine afterAnswer_congr (fun k hk => ?_) (.inl rfl)
    exact Function.update_of_ne (Nat.ne_of_gt hk) ..

theorem use_rest (hplace : y.place = .use t curMove p)
    (hstep : atUse y t curMove = .ok y') : y.rest i = y'.rest i := by
  rw [Loop.rest, hplace]
  simp only [Turn.afterAnswer]
  obtain ⟨⟨s, result⟩, huse, hstep⟩ := bind_eq_ok.mp hstep
  rw [huse, bind_ok]
  cases result <;> cases hstep <;> rfl

/-- What follows the challenge round takes its own draws. -/
theorem objected_rest (hplace : y.place = .objected t o)
    (hstep : atObjected y t o j = .ok y') (hrest : y'.rest i = .ok e) :
    ∃ i', y.rest i' = .ok e := by
  unfold atObjected at hstep
  simp only at hstep
  have hresolves (i' : TurnInput) :
      y.rest i' = t.afterRound i' y.game o := by
    rw [Loop.rest, hplace]
  split at hstep
  next hname =>
    split at hstep
    next hclaim =>
      obtain ⟨⟨s, newCard⟩, hshow, hstep⟩ := bind_eq_ok.mp hstep
      cases hstep
      refine ⟨{ i with newCard := j.newCard }, ?_⟩
      rw [← hrest, hresolves, Turn.afterRound, resolve, if_pos hname,
        if_pos hclaim, winChallenge]
      simp only [hshow, bind_ok]
      exact bind_assoc ..
    next hclaim =>
      obtain ⟨w, hreveal, hstep⟩ := bind_eq_ok.mp hstep
      cases hstep
      refine ⟨i, ?_⟩
      rw [← hrest, hresolves, Turn.afterRound, resolve, if_pos hname,
        if_neg hclaim, hreveal]
      rfl
  next hname =>
    split at hstep
    next hallow =>
      obtain ⟨s, hact, hstep⟩ := bind_eq_ok.mp hstep
      cases hstep
      refine ⟨{ i with exchange := j.exchange }, ?_⟩
      rw [← hrest, hresolves, Turn.afterRound, resolve, if_neg hname,
        if_pos hallow, hact]
      rfl
    next hother =>
      cases hstep
      refine ⟨i, ?_⟩
      rw [← hrest, hresolves, Turn.afterRound, resolve, if_neg hname,
        if_neg hother]
      rfl

/-- Whatever the rest of the turn comes to after a step of the thread, it can
come to before the step, with the draws that the step took. -/
theorem stepThread_rest (hstep : stepThread y j = .ok y')
    (hturn : y.place.inTurn = true) (hturn' : y'.place.inTurn = true)
    (hslot : SlotSound user y) (hrest : y'.rest i = .ok e) :
    ∃ i', y.rest i' = .ok e := by
  have hsame (h : y.rest i = y'.rest i) : ∃ i', y.rest i' = .ok e :=
    ⟨i, h.trans hrest⟩
  unfold stepThread at hstep
  cases hplace : y.place <;> simp only [hplace] at hstep
  case idle | head | picked | leaving =>
    rw [hplace] at hturn
    cases hturn
  case chosen t =>
    cases hstep
    exact hsame (claim_rest hplace)
  case slot t curMove =>
    cases hstep
    exact hsame (seat_rest hplace)
  case look t curMove => exact hsame (look_rest hplace hstep)
  case ask t curMove p =>
    unfold SlotSound at hslot
    rw [hplace] at hslot
    exact ask_rest hplace hslot.2 hstep hrest
  case test t curMove p =>
    cases hstep
    apply hsame
    rw [Loop.rest, hplace]
    simp only [atTest]
    split
    next hflag => rfl
    next hflag => exact (if_neg hflag).symm
  case send t curMove p =>
    cases hstep
    apply hsame
    rw [Loop.rest, hplace]
    rfl
  case use t curMove p => exact hsame (use_rest hplace hstep)
  case objected t o => exact objected_rest hplace hstep hrest
  case free t =>
    obtain ⟨s, hact, hstep⟩ := bind_eq_ok.mp hstep
    cases hstep
    refine ⟨{ i with exchange := j.exchange }, ?_⟩
    rw [← hrest, Loop.rest, hplace]
    simp only [hact, bind_ok]
    rfl
  case shown t theCard newCard =>
    obtain ⟨s, hact, hstep⟩ := bind_eq_ok.mp hstep
    cases hstep
    refine ⟨{ i with exchange := j.exchange }, ?_⟩
    rw [← hrest, Loop.rest, hplace]
    simp only [hact, bind_ok]
    rfl
  case acted t theCard newCard =>
    obtain ⟨s, hreplace, hstep⟩ := bind_eq_ok.mp hstep
    cases hstep
    refine ⟨{ i with reshuffle := j.reshuffle }, ?_⟩
    rw [← hrest, Loop.rest, hplace]
    simp only [hreplace, bind_ok]
    rfl
  case ending =>
    obtain ⟨s, hjudge, hstep⟩ := bind_eq_ok.mp hstep
    cases hstep
    apply hsame
    rw [Loop.rest, hplace]
    simp only [endTurn, hjudge, bind_ok]
    rfl
  case next =>
    cases hstep
    cases hturn'

/-- The last step of a turn. -/
theorem stepThread_last (hstep : stepThread y j = .ok y')
    (hturn : y.place.inTurn = true) (hturn' : y'.place.inTurn = false) :
    y'.place = .head ∧ y'.queue = y.queue ∧ y'.pending = y.pending ∧
      y.place = .next ∧ ∀ i, y.rest i = .ok y'.game := by
  cases stepThread_spec hstep with
  | turn hplace =>
      refine ⟨rfl, rfl, rfl, hplace, fun i => ?_⟩
      rw [Loop.rest, hplace]
  | start hplace | skip _ hplace | pick _ hplace | quit hplace
  | prompt _ hplace | choose _ _ _ hplace | wake hplace =>
      rw [hplace] at hturn
      cases hturn
  | act _ _ _ hplace =>
      rcases hplace with ⟨-, rfl⟩ | ⟨-, rfl⟩ | ⟨_, _, -, rfl⟩ <;> cases hturn'
  | _ => cases hturn'

end Step

/-! ## Events in the middle of a turn -/

section Middle

variable {user : PlayerRef} {s e : State} {y y' : Loop} {t : Turn}
  {i : TurnInput} {curMove o : Move} {a : Answer}

theorem quit_afterRound :
    t.afterRound i s.quit o = (t.afterRound i s o).map State.quit :=
  bind_map_congr (quit_resolve s _ _ o i) fun s _ => quit_endTurn s

theorem quit_afterSeats :
    t.afterSeats i s.quit curMove =
      (t.afterSeats i s curMove).map State.quit :=
  bind_map_congr (quit_anyChallengesLoop s _ curMove i.round _)
    fun _ _ => quit_afterRound

theorem quit_afterSlot (result : SlotResult) :
    t.afterSlot i s.quit result = (t.afterSlot i s result).map State.quit := by
  cases result with
  | answered o => exact quit_afterRound
  | next curMove => exact quit_afterSeats

theorem quit_afterAnswer :
    t.afterAnswer i s.quit curMove =
      (t.afterAnswer i s curMove).map State.quit :=
  bind_map_congr (quit_slotUse s curMove) fun _ _ => quit_afterSlot _

/-- The End Game button does not change what is left of a turn. -/
theorem quit_rest (y : Loop) (i : TurnInput) :
    y.quit.rest i = (y.rest i).map State.quit := by
  have hact (t : Turn) := quit_actOnMove y.game t.curMove i.exchange
  unfold Loop.rest
  cases hplace : y.place <;> simp only [Loop.quit, hplace]
  case chosen t =>
    refine bind_map_congr ?_ fun s _ => quit_endTurn s
    refine ite_map_congr Iff.rfl (fun _ => ?_) fun _ =>
      quit_actOnMove (logMove y.game t.curMove) t.curMove i.exchange
    let s : State :=
      { logMove y.game t.curMove with vc.challengeTurnInd := 0 }
    exact bind_map_congr (quit_anyChallengesLoop s t.curMove .init i.round _)
      fun _ _ => quit_resolve _ _ _ _ i
  case slot => exact quit_afterSeats
  case look =>
    exact bind_map_congr (quit_slotStep y.game _ _ _) fun _ _ =>
      quit_afterSlot _
  case ask =>
    exact bind_map_congr (quit_slotAsk y.game _ _ _ _) fun _ _ =>
      quit_afterAnswer
  case test | send =>
    refine ite_map_congr Iff.rfl (fun _ => quit_afterAnswer) fun _ => ?_
    exact bind_map_congr (quit_tapAnswer y.game _) fun _ _ =>
      quit_afterAnswer
  case use => exact quit_afterAnswer
  case objected => exact quit_afterRound
  case free t => exact bind_map_congr (hact t) fun s _ => quit_endTurn s
  case shown t theCard newCard =>
    refine bind_map_congr (hact t) fun s _ => ?_
    exact bind_map_congr (quit_replaceClaim s _ _ _ _) fun s _ =>
      quit_endTurn s
  case acted =>
    exact bind_map_congr (quit_replaceClaim y.game _ _ _ _) fun s _ =>
      quit_endTurn s
  case ending => exact quit_endTurn y.game
  all_goals rfl

/-- A block that enables the buttons does not change what is left, as long as
no answer is recorded. -/
theorem buttons_rest (b : Buttons) (queue : List Block)
    (hplace : y.place = .test t curMove user ∨ y.place = .send t curMove user)
    (hflag : y.game.vc.didPlayerChallengeOrAllow = false) :
    ({ y with game.vc.buttons := b, queue } : Loop).rest i = y.rest i := by
  unfold Loop.rest
  rcases hplace with hplace | hplace
  all_goals
    simp only [hplace, hflag]
    rfl

/-- The tap is the answer that the rest of the turn takes. -/
theorem tap_rest (hone : OneUser user y.game) (hslot : InSlot y.game user)
    (hplace : y.place = .test t curMove user ∨ y.place = .send t curMove user)
    (hflag : y.game.vc.didPlayerChallengeOrAllow = false)
    (htap : tapAnswer y.game a = .ok s)
    (hrest : ({ y with game := s } : Loop).rest i = .ok e) :
    ∃ i', y.rest i' = .ok e := by
  have hpress : answerBtnPressed y.game a = .ok s := by
    cases a <;> exact htap
  obtain ⟨caller, target, -, -, rfl⟩ := answerBtnPressed_spec hpress
  let r : RoundInput := { i.round with answer := a }
  have hsame (s : State) (hworld : s.world = y.game.world)
      (hind : s.vc.challengeTurnInd = y.game.vc.challengeTurnInd) :
      t.afterAnswer { i with round := r } s curMove =
        t.afterAnswer i s curMove := by
    refine afterAnswer_congr (fun _ _ => rfl) (.inr ?_)
    rw [hind]
    exact (hone.noUserFrom hslot).congr (hworld ▸ .refl _)
  refine ⟨{ i with round := r }, ?_⟩
  rw [← hrest]
  unfold Loop.rest
  rcases hplace with hplace | hplace
  all_goals
    simp only [hplace, hflag]
    exact (congrArg (· >>= _) htap).trans (hsame _ rfl rfl)

end Middle

end Coup
