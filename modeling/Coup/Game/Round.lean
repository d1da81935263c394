import Coup.Game.Turn

/-!
# The challenge round and the iteration

`anyChallenges` asks the seats in order and touches nothing but the rates of
the AIs and the fields that carry the user's answer, which is `Quiet`.  Its
result is a challenge by somebody who could be asked, or no challenge.  With
this the iterations of `runGame` are inverted into their four outcomes.
-/

namespace Coup

open Coup.Support

/-- A step that changes no card, no hand, no coins and no deck. -/
structure Quiet (s s' : State) : Prop where
  evolves : Evolves s s'
  card : s'.world.card = s.world.card
  slot : ∀ p i, s'.world.slot p i = s.world.slot p i
  coins : ∀ p, (s'.world.player p).coins = (s.world.player p).coins
  cardDeck : s'.vc.cardDeck = s.vc.cardDeck

namespace Quiet

theorem refl (s : State) : Quiet s s :=
  ⟨.refl s, rfl, fun _ _ => rfl, fun _ => rfl, rfl⟩

theorem trans {s₁ s₂ s₃ : State} (h : Quiet s₁ s₂) (h' : Quiet s₂ s₃) :
    Quiet s₁ s₃ where
  evolves := h.evolves.trans h'.evolves
  card := h'.card.trans h.card
  slot p i := (h'.slot p i).trans (h.slot p i)
  coins p := (h'.coins p).trans (h.coins p)
  cardDeck := h'.cardDeck.trans h.cardDeck

variable {s s' : State}

theorem shows (h : Quiet s s') {created parked : List CardRef}
    {b : Board PlayerRef} (hs : Shows created s parked b) :
    Shows created s' parked b := by
  obtain ⟨cards, hdeck, htable⟩ := hs
  refine ⟨cards, h.cardDeck.trans hdeck, ?_⟩
  exact htable.congr h.evolves.table.players (fun c => by rw [h.card])
    h.slot (fun p _ => h.coins p)

theorem held (h : Quiet s s') (p : PlayerRef) (i : Slot) :
    s'.world.held p i = s.world.held p i := by
  rw [World.held, World.held, h.slot, h.card]

theorem isPlayerRevealed (h : Quiet s s') (p : PlayerRef) :
    s'.world.isPlayerRevealed p = s.world.isPlayerRevealed p := by
  simp [World.isPlayerRevealed, h.held]

theorem checkhaveCard (h : Quiet s s') (p : PlayerRef) (m : MoveName) :
    s'.world.checkhaveCard p m = s.world.checkhaveCard p m := by
  simp [World.checkhaveCard, h.held]

/-- Only the fields of the controller that belong to the round change. -/
theorem of_vc {s : State} {vc : GameViewController}
    (h : vc = { s.vc with
      didPlayerChallengeOrAllow := vc.didPlayerChallengeOrAllow
      challengeTurnInd := vc.challengeTurnInd
      challengeMove := vc.challengeMove }) : Quiet s { s with vc := vc } := by
  refine ⟨⟨.refl _, rfl, ?_, ?_, ?_, ?_, ?_, ?_, ?_, Or.inl ?_⟩, rfl,
    fun _ _ => rfl, fun _ => rfl, ?_⟩ <;> (simp only; rw [h])

theorem setAI {s : State} {p : PlayerRef}
    (h : (s.world.player p).ai.isSome) (ai : AI) :
    Quiet s { s with world := s.world.setAI p ai } where
  evolves := .world (.setAI h ai) rfl
  card := rfl
  slot _ _ := by simp
  coins _ := by simp
  cardDeck := rfl

end Quiet

/-! ## One seat -/

/-- A player whom a challenge round may ask about a move. -/
structure Eligible (s : State) (m : Move) (player : PlayerRef) : Prop where
  seated : player ∈ s.world.players
  other : (s.world.player player).name ≠ (s.world.player m.caller).name
  active : s.world.isPlayerRevealed player = false

/-- A challenge that some eligible player can raise against the move. -/
structure Challenges (s : State) (m o : Move) : Prop where
  name : o.name = .challenge
  caller : Eligible s m o.caller
  target : o.target = m.caller ∨ s.world.players[s.vc.turnInd]? = some o.target

theorem Quiet.eligible {s s' : State} (h : Quiet s s') {m : Move}
    {player : PlayerRef} (he : Eligible s' m player) : Eligible s m player where
  seated := h.evolves.table.players ▸ he.seated
  other := by
    have hne := he.other
    rw [h.evolves.table.name, h.evolves.table.name] at hne
    exact hne
  active := (h.isPlayerRevealed player).symm.trans he.active

theorem Quiet.challenges {s s' : State} (h : Quiet s s') {m o : Move}
    (hc : Challenges s' m o) : Challenges s m o where
  name := hc.name
  caller := h.eligible hc.caller
  target := by
    have htarget := hc.target
    rw [h.evolves.table.players, h.evolves.turnInd] at htarget
    exact htarget

section Seat

variable {s s' : State} {m cur : Move} {i : RoundInput} {player : PlayerRef}

theorem slotHead_spec {asked : Option PlayerRef}
    (h : slotHead s m = .ok (s', asked)) :
    ∃ player, s.world.players[s.vc.challengeTurnInd]? = some player ∧
      ((asked = none ∧ ¬ Eligible s m player ∧
          s' = { s with
            vc.didPlayerChallengeOrAllow := false
            vc.challengeTurnInd := s.vc.challengeTurnInd + 1 }) ∨
        (asked = some player ∧ Eligible s m player ∧
          s' = { s with vc.didPlayerChallengeOrAllow := false })) := by
  rw [slotHead, bind_eq_ok] at h
  obtain ⟨player, hplayer, h⟩ := h
  rw [orFault_eq_ok] at hplayer
  refine ⟨player, hplayer, ?_⟩
  split at h
  next hskip =>
    cases h
    refine Or.inl ⟨rfl, fun he => ?_, rfl⟩
    rcases hskip with hname | hout
    · exact he.other hname
    · have hactive := he.active
      rw [show s.world.isPlayerRevealed player = true from hout] at hactive
      cases hactive
  next hask =>
    cases h
    rw [not_or] at hask
    refine Or.inr ⟨rfl, ⟨List.mem_of_getElem? hplayer, hask.1, ?_⟩, rfl⟩
    exact Bool.eq_false_of_not_eq_true hask.2

theorem answerBtnPressed_spec {answer : Answer}
    (h : answerBtnPressed s answer = .ok s') :
    ∃ caller target, s.world.players[s.vc.challengeTurnInd]? = some caller ∧
      s.world.players[s.vc.turnInd]? = some target ∧
      s' = { s with
        vc.didPlayerChallengeOrAllow := true
        vc.challengeMove := ⟨answer.name, caller, target⟩
        vc.buttons := disableAllButtons } := by
  rw [answerBtnPressed, bind_eq_ok] at h
  obtain ⟨caller, hcaller, h⟩ := h
  rw [bind_eq_ok] at h
  obtain ⟨target, htarget, h⟩ := h
  cases h
  exact ⟨caller, target, orFault_eq_ok.mp hcaller, orFault_eq_ok.mp htarget,
    rfl⟩

theorem getChallengeOrAllow_spec {w w' : World} {self target : PlayerRef}
    {rand : UnitDraw} {o : Move}
    (h : getChallengeOrAllow w self target rand = .ok (o, w')) :
    (o.name = .challenge → o = ⟨.challenge, self, target⟩) ∧
      (w' = w ∨ (w.player self).ai.isSome ∧ ∃ ai, w' = w.setAI self ai) := by
  unfold getChallengeOrAllow at h
  cases hai : (w.player self).ai with
  | none =>
      rw [hai] at h
      cases h
      exact ⟨(fun hname => by cases hname), Or.inl rfl⟩
  | some ai =>
      simp only [hai, bind_eq_ok] at h
      obtain ⟨last, -, h⟩ := h
      cases h
      exact ⟨congrArg (Move.mk · self target), Or.inr ⟨rfl, _, rfl⟩⟩

/-- Asking: the user's answer is left in `challengeMove`, an AI's answer is
returned. -/
theorem slotAsk_spec (hflag : s.vc.didPlayerChallengeOrAllow = false)
    (hplayer : s.world.players[s.vc.challengeTurnInd]? = some player)
    {cur' : Move} (h : slotAsk s m player cur i = .ok (s', cur')) :
    Quiet s s' ∧ s'.vc.challengeTurnInd = s.vc.challengeTurnInd ∧
      ((s'.vc.didPlayerChallengeOrAllow = true ∧
          s'.vc.challengeMove.name = i.answer.name ∧
          s'.vc.challengeMove.caller = player ∧
          s.world.players[s.vc.turnInd]? = some s'.vc.challengeMove.target) ∨
        (s'.vc.didPlayerChallengeOrAllow = false ∧
          (cur'.name = .challenge → cur' = ⟨.challenge, player, m.caller⟩))) := by
  unfold slotAsk at h
  split at h
  next =>
    rw [bind_eq_ok] at h
    obtain ⟨s₁, htap, h⟩ := h
    cases h
    have hpress : answerBtnPressed s i.answer = .ok s' := by
      cases hi : i.answer <;> rw [hi] at htap <;> exact htap
    obtain ⟨caller, target, hcaller, htarget, rfl⟩ :=
      answerBtnPressed_spec hpress
    obtain rfl : caller = player := by
      rw [hplayer] at hcaller
      exact (Option.some.inj hcaller).symm
    refine ⟨?_, rfl, Or.inl ⟨rfl, rfl, rfl, htarget⟩⟩
    exact ⟨⟨.refl _, rfl, rfl, rfl, rfl, rfl, rfl, rfl, rfl, Or.inr rfl⟩, rfl,
      fun _ _ => rfl, fun _ => rfl, rfl⟩
  next =>
    rw [bind_eq_ok] at h
    obtain ⟨⟨o, w⟩, hget, h⟩ := h
    cases h
    obtain ⟨hchallenge, hworld⟩ := getChallengeOrAllow_spec hget
    refine ⟨?_, rfl, Or.inr ⟨hflag, hchallenge⟩⟩
    obtain rfl | ⟨hsome, ai, rfl⟩ := hworld
    · exact .refl s
    · exact .setAI hsome ai

/-- What one iteration of the loop of `anyChallenges` can do. -/
theorem slotStep_spec {result : SlotResult}
    (h : slotStep s m cur i = .ok (s', result)) :
    Quiet s s' ∧
      ((∃ o, result = .answered o ∧ Challenges s m o) ∨
        (∃ cur', result = .next cur' ∧ (cur' = cur ∨ cur'.name ≠ .challenge) ∧
          s'.vc.challengeTurnInd = s.vc.challengeTurnInd + 1)) := by
  rw [slotStep, bind_eq_ok] at h
  obtain ⟨⟨s₁, asked⟩, hhead, h⟩ := h
  obtain ⟨player, hplayer, hskip | hask⟩ := slotHead_spec hhead
  · obtain ⟨rfl, -, rfl⟩ := hskip
    cases h
    exact ⟨.of_vc rfl, Or.inr ⟨cur, rfl, Or.inl rfl, rfl⟩⟩
  obtain ⟨rfl, heligible, rfl⟩ := hask
  simp only [bind_eq_ok] at h
  obtain ⟨⟨s₂, cur₂⟩, hasked, h⟩ := h
  have hquiet₁ : Quiet s { s with vc.didPlayerChallengeOrAllow := false } :=
    .of_vc rfl
  obtain ⟨hquiet₂, hind, hanswer⟩ := slotAsk_spec
    (s := { s with vc.didPlayerChallengeOrAllow := false }) rfl hplayer hasked
  have hquiet := hquiet₁.trans hquiet₂
  have hnext : Quiet s
      { s₂ with vc.challengeTurnInd := s₂.vc.challengeTurnInd + 1 } :=
    hquiet.trans (.of_vc rfl)
  unfold slotUse at h
  rcases hanswer with ⟨hflag, hname, hcaller, htarget⟩ | ⟨hflag, hchallenge⟩
  · rw [if_pos hflag] at h
    split at h
    next hyes =>
      cases h
      refine ⟨hquiet, Or.inl ⟨_, rfl, hyes, ?_, Or.inr htarget⟩⟩
      rw [hcaller]
      exact heligible
    next hno =>
      cases h
      exact ⟨hnext, Or.inr ⟨_, rfl, Or.inr hno, congrArg (· + 1) hind⟩⟩
  · rw [hflag, if_neg Bool.false_ne_true] at h
    split at h
    next hyes =>
      cases h
      have hcur := hchallenge hyes
      refine ⟨hquiet, Or.inl ⟨_, rfl, hyes, ?_, Or.inl (by rw [hcur])⟩⟩
      rw [hcur]
      exact heligible
    next hno =>
      rw [bind_eq_ok] at h
      obtain ⟨caller, -, h⟩ := h
      rw [bind_eq_ok] at h
      obtain ⟨target, -, h⟩ := h
      cases h
      exact ⟨hnext, Or.inr ⟨_, rfl, Or.inr (by simp), congrArg (· + 1) hind⟩⟩

end Seat

/-! ## The whole round -/

theorem anyChallengesLoop_spec {m o : Move} {i : RoundInput} {bound : ℕ}
    {s s' : State} {cur : Move} (hcur : cur.name ≠ .challenge)
    (h : anyChallengesLoop m i bound s cur = .ok (s', o)) :
    Quiet s s' ∧ (o.name = .challenge → Challenges s m o) := by
  induction bound generalizing s cur with
  | zero =>
      cases h
      exact ⟨.refl _, fun ho => absurd ho hcur⟩
  | succ bound ih =>
      rw [anyChallengesLoop] at h
      split at h
      next =>
        rw [bind_eq_ok] at h
        obtain ⟨⟨s₁, result⟩, hstep, h⟩ := h
        obtain ⟨hquiet, hdone | hnext⟩ := slotStep_spec hstep
        · obtain ⟨o', rfl, hchallenges⟩ := hdone
          cases h
          exact ⟨hquiet, fun _ => hchallenges⟩
        · obtain ⟨cur', rfl, hcur', -⟩ := hnext
          have hname : cur'.name ≠ .challenge := by
            rcases hcur' with rfl | hne
            · exact hcur
            · exact hne
          obtain ⟨hrest, hchallenges⟩ := ih hname h
          exact ⟨hquiet.trans hrest,
            fun ho => hquiet.challenges (hchallenges ho)⟩
      next =>
        cases h
        exact ⟨.refl _, fun ho => absurd ho hcur⟩

/-- A challenge round is quiet, and an objection it returns was raised by an
eligible player against the caller or the current seat. -/
theorem anyChallenges_spec {s s' : State} {m o : Move} {i : RoundInput}
    (h : anyChallenges s m i = .ok (s', o)) :
    Quiet s s' ∧ (o.name = .challenge → Challenges s m o) := by
  have hstart : Quiet s { s with vc.challengeTurnInd := 0 } := .of_vc rfl
  obtain ⟨hquiet, hchallenges⟩ := anyChallengesLoop_spec (by simp [Move.init]) h
  exact ⟨hstart.trans hquiet, fun ho => hstart.challenges (hchallenges ho)⟩

/-! ## Resolving the objection -/

theorem slotOf_checkhaveCard (w : World) (p : PlayerRef) (m : MoveName) :
    slotOf (w.checkhaveCard p m) = none ↔ w.checkhaveCard p m = -1 := by
  rcases w.checkhaveCard_cases p m with h | h | h <;> simp [h, slotOf]

/-- The board after an objection is resolved; `claim` is the position of the
card that answers a challenge. -/
def resolveBoard (b : Board PlayerRef) (claim : Option Slot) (p : PlayerRef)
    (m o : Move) : Board PlayerRef :=
  if o.name = .challenge then
    match claim with
    | some j => b.winChallenge p o.caller j m.name m.caller m.target
    | none => b.lose o.target
  else if o.name = .allow then b.act m.name m.caller m.target
  else b

/-- The caller is caught: the target of the challenge turns up a card. -/
theorem resolve_lost {s s' : State} {p : PlayerRef} {m o : Move}
    {i : TurnInput} (hname : o.name = .challenge)
    (hlost : s.world.checkhaveCard p m.name = -1)
    (h : resolve s p m o i = .ok s') :
    ∃ w, s.world.revealCard o.target = .ok w ∧ s' = { s with world := w } := by
  unfold resolve at h
  rw [if_pos hname, if_neg (not_not.mpr hlost), bind_eq_ok] at h
  obtain ⟨w, hreveal, h⟩ := h
  cases h
  exact ⟨w, hreveal, rfl⟩

theorem resolve_spec {created parked : List CardRef} {b : Board PlayerRef}
    {s s' : State} {p : PlayerRef} {m o : Move} {i : TurnInput}
    (h : Shows created s parked b) (huser : s.vc.user ∈ s.world.players)
    (hp : p ∈ s.world.players) (hm : Seated s m)
    (ho : o.name = .challenge → Seated s o)
    (hresolve : resolve s p m o i = .ok s') :
    Shows created s' parked
        (resolveBoard b (slotOf (s.world.checkhaveCard p m.name)) p m o) ∧
      Evolves s s' := by
  unfold resolve at hresolve
  unfold resolveBoard
  split at hresolve
  next hchallenge =>
    rw [if_pos hchallenge]
    have hseated := ho hchallenge
    split at hresolve
    next hhas =>
      obtain ⟨j, hj⟩ : ∃ j, slotOf (s.world.checkhaveCard p m.name) = some j :=
        Option.ne_none_iff_exists'.mp
          (mt (slotOf_checkhaveCard _ _ _).mp hhas)
      rw [hj]
      exact winChallenge_spec h huser hp hm hseated hj hresolve
    next hhas =>
      rw [not_not] at hhas
      rw [(slotOf_checkhaveCard _ _ _).mpr hhas]
      rw [bind_eq_ok] at hresolve
      obtain ⟨w, hreveal, hresolve⟩ := hresolve
      cases hresolve
      obtain ⟨cards, hdeck, htable⟩ := h
      refine ⟨⟨cards, hdeck, htable.revealCard hseated.target hreveal⟩, ?_⟩
      exact .world (.revealCard hreveal) (World.revealCard_moveLog hreveal)
  next hno =>
    rw [if_neg hno]
    split at hresolve
    next hallow =>
      rw [if_pos hallow]
      exact actOnMove_spec h huser hm.caller hm.target hresolve
    next hdrop =>
      rw [if_neg hdrop]
      cases hresolve
      exact ⟨h, .refl s⟩

end Coup
