import Coup.Game.Verdict

/-!
# The first challenger

`anyChallenges` is a search: it asks the players who may object in the order of
their seats and stops at the first challenge.  `askedSeats` records whom the
loop asks on the way.
-/

namespace Coup

open Coup.Support

/-! ## Who is asked, and what they answer -/

/-- Neither the caller nor eliminated. -/
def mayObject (s : State) (m : Move) (q : PlayerRef) : Bool :=
  decide (q ≠ m.caller) && !s.world.isPlayerRevealed q

/-- The players that a round may ask, in the order of their seats. -/
def eligibleSeats (s : State) (m : Move) : List PlayerRef :=
  s.world.players.filter (mayObject s m)

/-- The answer that an AI computes. -/
def aiAnswer (w : World) (q : PlayerRef) (rand : UnitDraw) : Answer :=
  match (w.player q).ai, w.moveLog.getLast? with
  | some ai, some last =>
      if rand.value ≤ adjustChallengeRate (w.seat q) w.table last.name
          ai.challengeRate then .challenge
      else .allow
  | _, _ => .allow

/-- The answer of a player who is asked in the seat `k`. -/
def answerAt (s : State) (i : RoundInput) (k : ℕ) (q : PlayerRef) : Answer :=
  if (s.world.player q).name = s.world.username then i.answer
  else aiAnswer s.world q (i.rand k)

def challengesMove (s : State) (i : RoundInput) (q : PlayerRef) : Bool :=
  decide (answerAt s i (s.world.players.idxOf q) q = .challenge)

/-- The player that one iteration of the loop asks, if there is one. -/
def slotAsked (s : State) (m : Move) : List PlayerRef :=
  match slotHead s m with
  | .ok (_, some q) => [q]
  | _ => []

/-- The players that the iterations of the loop ask. -/
def askedLoop (m : Move) (i : RoundInput) :
    ℕ → State → Move → List PlayerRef
  | 0, _, _ => []
  | bound + 1, s, curMove =>
      if s.vc.challengeTurnInd < s.world.players.length then
        slotAsked s m ++
          match slotStep s m curMove i with
          | .ok (s, .next curMove) => askedLoop m i bound s curMove
          | _ => []
      else []

/-- The players that a round asks, in the order in which it asks them. -/
def askedSeats (s : State) (m : Move) (i : RoundInput) : List PlayerRef :=
  askedLoop m i s.world.players.length
    { s with vc.challengeTurnInd := 0 } .init

/-- The challenge of `q`: the user's names the current player `t` as its
target, an AI's names the caller. -/
def challengeOf (s : State) (m : Move) (t q : PlayerRef) : Move :=
  ⟨.challenge, q,
    if (s.world.player q).name = s.world.username then t else m.caller⟩

theorem challengeOf_caller (s : State) (m : Move) (q : PlayerRef) :
    challengeOf s m m.caller q = ⟨.challenge, q, m.caller⟩ := by
  rw [challengeOf, ite_self]

/-- The round asks up to the first challenger, whose challenge it returns;
without one it returns an allowance of the last player asked, and the empty
move if there is nobody to ask. -/
structure FirstChallenger (s : State) (m : Move) (t : PlayerRef)
    (i : RoundInput) (o : Move) : Prop where
  asked : askedSeats s m i =
    (eligibleSeats s m).takeWhile (fun q => !challengesMove s i q) ++
      ((eligibleSeats s m).find? (challengesMove s i)).toList
  once : (askedSeats s m i).Nodup
  challenge : ∀ c, (eligibleSeats s m).find? (challengesMove s i) = some c →
    o = challengeOf s m t c
  allow : (eligibleSeats s m).find? (challengesMove s i) = none →
    eligibleSeats s m ≠ [] → o.name = .allow
  empty : eligibleSeats s m = [] → o = .init

/-! ## One seat -/

section Seat

variable {w : World} {s s' : State} {m : Move} {i : RoundInput}
  {q t : PlayerRef} {last : Move}

theorem getChallengeOrAllow_answer (q t : PlayerRef) (rand : UnitDraw)
    (hlog : w.moveLog.getLast? = some last) :
    ∃ o w', getChallengeOrAllow w q t rand = .ok (o, w') ∧
      (aiAnswer w q rand = .challenge → o.name = .challenge) ∧
      (aiAnswer w q rand = .allow → o.name ≠ .challenge) ∧
      ∀ p ≠ q, (w'.player p).ai = (w.player p).ai := by
  unfold getChallengeOrAllow aiAnswer
  cases hai : (w.player q).ai with
  | none => exact ⟨.init, w, rfl, by simp, by simp [Move.init], by simp⟩
  | some ai =>
      simp only [hlog, orFault, bind_ok]
      refine ⟨_, _, rfl, ?_, ?_, fun p hp => ?_⟩
      · split <;> simp
      · split <;> simp
      · rw [World.setAI_ai, if_neg hp]

theorem slotHead_skip (hq : s.world.players[s.vc.challengeTurnInd]? = some q)
    (hskip : (s.world.player q).name = (s.world.player m.caller).name ∨
      s.world.isPlayerRevealed q = true) :
    slotHead s m = .ok ({ s with
      vc.didPlayerChallengeOrAllow := false
      vc.challengeTurnInd := s.vc.challengeTurnInd + 1 }, none) := by
  rw [slotHead, hq, orFault, bind_ok, if_pos hskip]
  rfl

theorem slotHead_ask (hq : s.world.players[s.vc.challengeTurnInd]? = some q)
    (hask : ¬ ((s.world.player q).name = (s.world.player m.caller).name ∨
      s.world.isPlayerRevealed q = true)) :
    slotHead s m =
      .ok ({ s with vc.didPlayerChallengeOrAllow := false }, some q) := by
  rw [slotHead, hq, orFault, bind_ok, if_neg hask]
  rfl

theorem tapAnswer_eq (answer : Answer)
    (hq : s.world.players[s.vc.challengeTurnInd]? = some q)
    (ht : s.world.players[s.vc.turnInd]? = some t) :
    tapAnswer s answer = .ok { s with
      vc.didPlayerChallengeOrAllow := true
      vc.challengeMove := ⟨answer.name, q, t⟩
      vc.buttons := disableAllButtons } := by
  have htap : tapAnswer s answer = answerBtnPressed s answer := by
    cases answer <;> rfl
  rw [htap, answerBtnPressed, hq, ht]
  rfl

/-- An asked player who challenges ends the round; after an allowance it goes
on, and the AIs of the other seats are as before. -/
theorem slotStep_ask (cur : Move)
    (hq : s.world.players[s.vc.challengeTurnInd]? = some q)
    (hask : ¬ ((s.world.player q).name = (s.world.player m.caller).name ∨
      s.world.isPlayerRevealed q = true))
    (hcurrent : s.world.players[s.vc.turnInd]? = some t)
    (hlog : s.world.moveLog.getLast? = some last) :
    ∃ s' result, slotStep s m cur i = .ok (s', result) ∧
      (answerAt s i s.vc.challengeTurnInd q = .challenge →
        result = .answered (challengeOf s m t q)) ∧
      (answerAt s i s.vc.challengeTurnInd q = .allow →
        (∃ o, result = .next o ∧ o.name = .allow) ∧
          s'.vc.challengeTurnInd = s.vc.challengeTurnInd + 1 ∧
            ∀ p ≠ q, (s'.world.player p).ai = (s.world.player p).ai) := by
  simp only [slotStep, slotHead_ask hq hask, bind_ok]
  unfold slotAsk answerAt challengeOf
  by_cases huser : (s.world.player q).name = s.world.username
  · have htap := tapAnswer_eq
      (s := { s with vc.didPlayerChallengeOrAllow := false }) i.answer hq
      hcurrent
    simp only [huser, if_true, htap, bind_ok]
    cases i.answer with
    | challenge =>
        exact ⟨_, _, rfl, fun _ => rfl, (fun h => by cases h)⟩
    | allow =>
        exact ⟨_, _, rfl, (fun h => by cases h),
          fun _ => ⟨⟨_, rfl, rfl⟩, rfl, fun _ _ => rfl⟩⟩
  · rw [if_neg huser, if_neg huser, if_neg huser]
    obtain ⟨o, w', hget, hyes, hno, hai⟩ := getChallengeOrAllow_answer q
      m.caller (i.rand s.vc.challengeTurnInd) hlog
    have hmove := (getChallengeOrAllow_spec hget).1
    simp only [hget, bind_ok, pure_bind, slotUse, Bool.false_eq_true, if_false]
    cases hanswer : aiAnswer s.world q (i.rand s.vc.challengeTurnInd) with
    | challenge =>
        have hname := hyes hanswer
        rw [if_pos hname, hmove hname]
        exact ⟨_, _, rfl, fun _ => rfl, (fun h => by cases h)⟩
    | allow =>
        rw [if_neg (hno hanswer)]
        have hworld := (getChallengeOrAllow_spec hget).2
        have hplayers : w'.players = s.world.players := by
          rcases hworld with rfl | ⟨-, ai, rfl⟩ <;> rfl
        rw [hplayers, hq, hcurrent]
        exact ⟨_, _, rfl, (fun h => by cases h),
          fun _ => ⟨⟨_, rfl, rfl⟩, rfl, hai⟩⟩

end Seat

/-! ## The whole round -/

/-- The members up to the first that satisfies the predicate, with it. -/
theorem takeWhile_find_sublist {α : Type*} (p : α → Bool) (l : List α) :
    (l.takeWhile (fun a => !p a) ++ (l.find? p).toList).Sublist l := by
  induction l with
  | nil => exact List.Sublist.refl _
  | cons a l ih => cases ha : p a <;> simp [ha, ih]

/-- Where a member of a list without duplicates is. -/
theorem idxOf_of_split {α : Type*} [DecidableEq α] {l pre rest : List α} {a : α}
    (hnodup : l.Nodup) (hsplit : l = pre ++ a :: rest) :
    l.idxOf a = pre.length ∧ ∀ b ∈ rest, b ≠ a := by
  rw [hsplit] at hnodup ⊢
  obtain ⟨-, hrest, hdisjoint⟩ := List.nodup_append.mp hnodup
  have hpre : a ∉ pre := fun hmem => hdisjoint a hmem a List.mem_cons_self rfl
  constructor
  · rw [List.idxOf_append_of_notMem hpre, List.idxOf_cons_self, Nat.add_zero]
  · rintro b hb rfl
    exact (List.nodup_cons.mp hrest).1 hb

/-- From `s'` on, a round that began in `s` searches the seats `rest`.  The
current move is only returned if nobody there may object. -/
def Searches (s : State) (m : Move) (t : PlayerRef) (i : RoundInput)
    (s' : State) (cur : Move) (rest : List PlayerRef) : Prop :=
  let eligible := rest.filter (mayObject s m)
  ∃ s'' o, anyChallengesLoop m i rest.length s' cur = .ok (s'', o) ∧
    askedLoop m i rest.length s' cur =
      eligible.takeWhile (fun q => !challengesMove s i q) ++
        (eligible.find? (challengesMove s i)).toList ∧
    (∀ c, eligible.find? (challengesMove s i) = some c →
      o = challengeOf s m t c) ∧
    (eligible.find? (challengesMove s i) = none →
      eligible ≠ [] ∧ o.name = .allow ∨ eligible = [] ∧ o = cur)

section Searches

variable {s s' s₀ s₁ : State} {m cur o : Move} {i : RoundInput}
  {q t : PlayerRef} {rest : List PlayerRef}

theorem Searches.skip
    (hlt : s'.vc.challengeTurnInd < s'.world.players.length)
    (hhead : slotHead s' m = .ok (s₀, none)) (hq : mayObject s m q = false)
    (h : Searches s m t i s₀ cur rest) :
    Searches s m t i s' cur (q :: rest) := by
  have hstep : slotStep s' m cur i = .ok (s₀, .next cur) := by
    rw [slotStep, hhead]
    rfl
  unfold Searches
  rw [List.length_cons, anyChallengesLoop, askedLoop, if_pos hlt, if_pos hlt,
    List.filter_cons_of_neg (by simp [hq])]
  simp only [slotAsked, hhead, hstep, bind_ok, List.nil_append]
  exact h

theorem Searches.challenge
    (hlt : s'.vc.challengeTurnInd < s'.world.players.length)
    (hhead : slotHead s' m = .ok (s₀, some q))
    (hstep : slotStep s' m cur i =
      .ok (s₁, .answered (challengeOf s m t q)))
    (hq : mayObject s m q = true) (hyes : challengesMove s i q = true) :
    Searches s m t i s' cur (q :: rest) := by
  unfold Searches
  rw [List.length_cons, anyChallengesLoop, askedLoop, if_pos hlt, if_pos hlt,
    List.filter_cons_of_pos hq]
  simp only [slotAsked, hhead, hstep, bind_ok]
  exact ⟨s₁, _, rfl, by simp [hyes], by simp [hyes], by simp [hyes]⟩

theorem Searches.allow
    (hlt : s'.vc.challengeTurnInd < s'.world.players.length)
    (hhead : slotHead s' m = .ok (s₀, some q))
    (hstep : slotStep s' m cur i = .ok (s₁, .next o)) (ho : o.name = .allow)
    (hq : mayObject s m q = true) (hno : challengesMove s i q = false)
    (h : Searches s m t i s₁ o rest) : Searches s m t i s' cur (q :: rest) := by
  obtain ⟨s₂, o', hloop, hasked, hfirst, hnone⟩ := h
  unfold Searches
  rw [List.length_cons, anyChallengesLoop, askedLoop, if_pos hlt, if_pos hlt,
    List.filter_cons_of_pos hq]
  simp only [slotAsked, hhead, hstep, bind_ok]
  refine ⟨s₂, o', hloop, ?_, ?_, ?_⟩
  · simp [hno, hasked]
  · simpa [hno] using hfirst
  · intro hfind
    rw [List.find?_cons_of_neg (by simp [hno])] at hfind
    refine Or.inl ⟨List.cons_ne_nil _ _, ?_⟩
    rcases hnone hfind with ⟨-, hallow⟩ | ⟨-, rfl⟩
    · exact hallow
    · exact ho

end Searches

/-- A round that began in `s` has come to the seats `rest`, whose AIs have not
been touched. -/
structure Asking (s s' : State) (rest : List PlayerRef) : Prop where
  quiet : Quiet s s'
  ai : ∀ q ∈ rest, (s'.world.player q).ai = (s.world.player q).ai

section Round

variable {s s' : State} {m : Move} {i : RoundInput} {last : Move}
  {pre rest : List PlayerRef} {q t : PlayerRef}

theorem Quiet.seat (h : Quiet s s') (q : PlayerRef) :
    s'.world.seat q = s.world.seat q := by
  simp only [World.seat, h.evolves.table.name, h.held, h.coins]

theorem Quiet.answerAt (h : Quiet s s')
    (hai : (s'.world.player q).ai = (s.world.player q).ai) (k : ℕ) :
    answerAt s' i k q = answerAt s i k q := by
  have htable : s'.world.table = s.world.table := by
    rw [World.table, World.table, h.evolves.table.players, funext h.seat]
  simp only [Coup.answerAt, aiAnswer, h.evolves.table.name,
    h.evolves.table.username, hai, h.evolves.moveLog, h.seat, htable]

/-- With distinct names the loop passes over exactly the seats that are not
eligible. -/
theorem Quiet.skips_iff (h : Quiet s s') (hnames : DistinctNames s.world)
    (hq : q ∈ s.world.players) (hcaller : m.caller ∈ s.world.players) :
    ((s'.world.player q).name = (s'.world.player m.caller).name ∨
        s'.world.isPlayerRevealed q = true) ↔
      mayObject s m q = false := by
  rw [h.evolves.table.name, h.evolves.table.name, h.isPlayerRevealed]
  have hsame : (s.world.player q).name = (s.world.player m.caller).name ↔
      q = m.caller := by
    constructor
    · exact List.inj_on_of_nodup_map hnames hq hcaller
    · rintro rfl
      rfl
  rw [hsame, mayObject]
  cases s.world.isPlayerRevealed q <;> simp

theorem anyChallengesLoop_first (hnames : DistinctNames s.world)
    (hcaller : m.caller ∈ s.world.players)
    (hcurrent : s.world.players[s.vc.turnInd]? = some t)
    (hlog : s.world.moveLog.getLast? = some last)
    (hsplit : s.world.players = pre ++ rest) (h : Asking s s' rest)
    (hind : s'.vc.challengeTurnInd = pre.length) (cur : Move) :
    Searches s m t i s' cur rest := by
  induction rest generalizing pre s' cur with
  | nil => exact ⟨s', cur, rfl, rfl, by simp, fun _ => Or.inr ⟨rfl, rfl⟩⟩
  | cons q rest ih =>
      have hplayers := h.quiet.evolves.table.players
      have hseated : q ∈ s.world.players := by simp [hsplit]
      have hq : s'.world.players[s'.vc.challengeTurnInd]? = some q := by
        rw [hplayers, hind, hsplit]
        simp
      have hlt : s'.vc.challengeTurnInd < s'.world.players.length :=
        (List.getElem?_eq_some_iff.mp hq).1
      obtain ⟨hidx, hrest⟩ := idxOf_of_split (.of_map _ hnames) hsplit
      have hsplit' : s.world.players = (pre ++ [q]) ++ rest := by
        simp [hsplit]
      have hskips := h.quiet.skips_iff hnames hseated hcaller
      cases hel : mayObject s m q with
      | false =>
          refine .skip hlt (slotHead_skip hq (hskips.mpr hel)) hel
            (ih hsplit' ⟨h.quiet.trans (.of_vc rfl), fun p hp => ?_⟩
              (by simp [hind]) cur)
          exact h.ai p (List.mem_cons_of_mem _ hp)
      | true =>
          have hask := mt hskips.mp (by simp [hel])
          have hhead := slotHead_ask hq hask
          obtain ⟨s₁, result, hstep, hyes, hno⟩ := slotStep_ask (i := i) cur
            hq hask (by rwa [hplayers, h.quiet.evolves.turnInd])
            (by rwa [h.quiet.evolves.moveLog])
          rw [h.quiet.answerAt (h.ai q List.mem_cons_self), hind,
            ← hidx] at hyes hno
          cases hanswer : answerAt s i (s.world.players.idxOf q) q with
          | challenge =>
              have hchallenge : challengeOf s' m t q = challengeOf s m t q := by
                rw [challengeOf, challengeOf, h.quiet.evolves.table.name,
                  h.quiet.evolves.table.username]
              obtain rfl := hyes hanswer
              rw [hchallenge] at hstep
              exact .challenge hlt hhead hstep hel (decide_eq_true hanswer)
          | allow =>
              obtain ⟨⟨o, rfl, ho⟩, hind₁, hai⟩ := hno hanswer
              refine .allow hlt hhead hstep ho hel
                (by simp [challengesMove, hanswer]) (ih hsplit'
                  ⟨h.quiet.trans (slotStep_spec hstep).1, fun p hp => ?_⟩
                  (by rw [hind₁, hidx, List.length_append]; rfl) o)
              rw [hai p (hrest p hp)]
              exact h.ai p (List.mem_cons_of_mem _ hp)

theorem mem_eligibleSeats :
    q ∈ eligibleSeats s m ↔ q ∈ s.world.players ∧ q ≠ m.caller ∧
      s.world.isPlayerRevealed q = false := by
  simp [eligibleSeats, mayObject]

/-- While the game is not over, somebody can object to a caller who is still in
it. -/
theorem eligibleSeats_ne_nil (hnodup : s.world.players.Nodup)
    (hcaller : m.caller ∈ s.world.players)
    (hactive : s.world.isPlayerRevealed m.caller = false)
    (hgoing : ¬ GameOver s) : eligibleSeats s m ≠ [] := by
  intro hnone
  refine hgoing (Or.inl ?_)
  obtain ⟨pre, post, hsplit⟩ := List.append_of_mem hcaller
  have hperm : s.world.players.Perm (m.caller :: (pre ++ post)) :=
    hsplit ▸ List.perm_middle
  have hout : ∀ q ∈ pre ++ post, s.world.isPlayerRevealed q = true := by
    intro q hq
    by_contra hin
    have hne : q ≠ m.caller := by
      rintro rfl
      exact (List.nodup_cons.mp (hperm.nodup_iff.mp hnodup)).1 hq
    have hmem : q ∈ eligibleSeats s m := mem_eligibleSeats.mpr
      ⟨hperm.symm.subset (List.mem_cons_of_mem _ hq), hne,
        Bool.eq_false_of_not_eq_true hin⟩
    rw [hnone] at hmem
    cases hmem
  rw [countFalse, hperm.countP_eq, hperm.length_eq,
    List.countP_cons_of_neg (by simp [hactive]), List.countP_eq_length.mpr hout,
    List.length_cons]

/-- A round returns what the first challenger, or else the last player asked,
answers; if nobody may object, it returns the empty move. -/
theorem anyChallenges_first (i : RoundInput) (hnames : DistinctNames s.world)
    (hcaller : m.caller ∈ s.world.players)
    (hcurrent : s.world.players[s.vc.turnInd]? = some t)
    (hlog : s.world.moveLog ≠ []) :
    ∃ s' o, anyChallenges s m i = .ok (s', o) ∧ FirstChallenger s m t i o := by
  have hlast := List.getLast?_eq_some_getLast hlog
  have hstart : Asking s { s with vc.challengeTurnInd := 0 }
      s.world.players := ⟨.of_vc rfl, fun _ _ => rfl⟩
  obtain ⟨s', o, hround, hasked, hfirst, hnone⟩ := anyChallengesLoop_first
    (i := i) hnames hcaller hcurrent hlast (List.nil_append _).symm hstart rfl
    .init
  refine ⟨s', o, hround, hasked, ?_, hfirst, fun hfind hsome => ?_,
    fun hempty => ?_⟩
  · have hnodup : (eligibleSeats s m).Nodup :=
      List.Nodup.filter _ (.of_map _ hnames)
    change (askedLoop m i _ _ _).Nodup
    rw [hasked]
    exact (takeWhile_find_sublist _ (eligibleSeats s m)).nodup hnodup
  · exact ((hnone hfind).resolve_right fun hempty => hsome hempty.1).2
  · have hfind : (eligibleSeats s m).find? (challengesMove s i) = none := by
      simp [hempty]
    exact ((hnone hfind).resolve_left fun hsome => hsome.1 hempty).2

end Round

/-! ## Rounds of a game -/

section Game

variable {created : List CardRef} {w : World} {user : PlayerRef}
  {AIs : List PlayerRef} {s s₁ s₂ s' : State} {i : TurnInput}
  {p : PlayerRef} {m : Move} {y y' : Session} {e : Event}

theorem SameTable.distinctNames {w w' : World} (h : SameTable w w')
    (hnames : DistinctNames w) : DistinctNames w' := by
  rw [DistinctNames, h.players, funext h.name]
  exact hnames

theorem Quiet.gameOver_iff (h : Quiet s s') : GameOver s' ↔ GameOver s := by
  rw [GameOver, GameOver, countFalse, countFalse, h.evolves.table.players,
    h.evolves.user, funext h.isPlayerRevealed]

/-- The loop stops as soon as the game is over. -/
theorem Running.going_step (h : Running created w user AIs y)
    (hstep : stepSession y e = .ok y')
    (hgoing : y.game.vc.gameOn = true → ¬ GameOver y.game)
    (hon : y'.game.vc.gameOn = true) : ¬ GameOver y'.game := by
  cases stepSession_spec hstep with
  | turn i p m s₁ s₂ s _ _ hturn =>
      rcases hturn.verdict h.inPlay h.phase.pressed with ⟨-, hoff, -⟩ | ⟨hno, -⟩
      · rw [hoff] at hon
        cases hon
      · exact hno
  | press q caller s _ _ _ hsubmits =>
      have hsame := GameOver.congr hsubmits.world (by rw [hsubmits.vc])
      rw [hsubmits.vc] at hon
      rw [hsame]
      exact hgoing hon
  | start | skip | prompt | finish | wake | deliver => exact hgoing hon
  | endGame => cases hon

theorem going_of_run {base : CardRef} {shuffling dealing : List ℕ}
    {y₀ : Session} {es : List Event} (hlobby : Lobby w user AIs)
    (hopen : openSession w base shuffling dealing = .ok y₀)
    (hrun : run stepSession y₀ es = .ok y) (hon : y.game.vc.gameOn = true) :
    ¬ GameOver y.game := by
  obtain ⟨hstart, -, hdealt, -⟩ := openSession_spec hlobby hopen
  have hinvariant : Running (createdCards base) (w.createCards base) user AIs y ∧
      (y.game.vc.gameOn = true → ¬ GameOver y.game) := by
    refine run_invariant (I := fun y =>
      Running (createdCards base) (w.createCards base) user AIs y ∧
        (y.game.vc.gameOn = true → ¬ GameOver y.game)) ?_ hrun ⟨hstart, ?_⟩
    · rintro y e y' ⟨hrunning, hgoing⟩ hstep
      exact ⟨hrunning.step hstep, hrunning.going_step hstep hgoing⟩
    · intro _
      rw [gameOver_iff hstart.inPlay, not_not]
      obtain ⟨q, hq⟩ := List.exists_mem_of_ne_nil AIs hlobby.opponents
      exact ⟨(hdealt user hstart.inPlay.user_seated).1, q, hq,
        (hdealt q (hstart.inPlay.mem_AIs hq).1).1⟩
  exact hinvariant.2 hon

end Game

/-- A challenge round is a search for the first challenger, whoever the caller
is.  In a game that is going on somebody may object to every challengeable
move, and the move is resolved by a challenge of its caller or by an
allowance. -/
theorem first_challenger :
    (∀ (s : State) (m : Move) (t : PlayerRef) (i : RoundInput),
      DistinctNames s.world → m.caller ∈ s.world.players →
      s.world.players[s.vc.turnInd]? = some t → s.world.moveLog ≠ [] →
      ∃ s' o, anyChallenges s m i = .ok (s', o) ∧
        FirstChallenger s m t i o) ∧
    ∀ (w : World) (user : PlayerRef) (AIs : List PlayerRef) (base : CardRef)
      (shuffling dealing : List ℕ) (y₀ y : Session) (es : List Event)
      (i : TurnInput) (p : PlayerRef) (m : Move) (s₁ s₂ s' : State),
      Lobby w user AIs → DistinctNames w →
      openSession w base shuffling dealing = .ok y₀ →
      run stepSession y₀ es = .ok y → y.game.vc.gameOn = true →
      TakesTurn y.game i p m s₁ s₂ s' → challengeable m.name = true →
      eligibleSeats (logMove s₁ m) m ≠ [] ∧
        ∃ s₃ o, anyChallenges (logMove s₁ m) m i.round = .ok (s₃, o) ∧
          FirstChallenger (logMove s₁ m) m p i.round o ∧
          (o.name = .challenge ∧ o.target = p ∨ o.name = .allow) ∧
          resolve s₃ p m o i = .ok s₂ := by
  constructor
  · intro s m t i hnames hcaller hcurrent hlog
    exact anyChallenges_first i hnames hcaller hcurrent hlog
  · intro w user AIs base shuffling dealing y₀ y es i p m s₁ s₂ s' hlobby
      hnames hopen hrun hon hturn hopen'
    have hrunning := Running.of_run hlobby hopen hrun
    have hin := hrunning.inPlay
    have hquiet := hturn.quiet hin
    have hready := hturn.ready hin hrunning.phase.pressed
    have hlogged : DistinctNames (logMove s₁ m).world :=
      (hquiet.evolves.table.trans (.logMove s₁ m)).distinctNames
        (hin.table.distinctNames hnames)
    have hsome : eligibleSeats (logMove s₁ m) m ≠ [] := by
      refine eligibleSeats_ne_nil (.of_map _ hlogged) hready.move.caller ?_ ?_
      · rw [hready.caller]
        exact (hquiet.isPlayerRevealed p).trans hturn.active
      · exact mt hquiet.gameOver_iff.mp (going_of_run hlobby hopen hrun hon)
    obtain ⟨s₃, o, hround, hfirst⟩ := anyChallenges_first i.round hlogged
      hready.move.caller hready.current (by simp [logMove])
    refine ⟨hsome, s₃, o, hround, hfirst, ?_, ?_⟩
    · cases hfind : (eligibleSeats (logMove s₁ m) m).find?
          (challengesMove (logMove s₁ m) i.round) with
      | none => exact Or.inr (hfirst.allow hfind hsome)
      | some c =>
          rw [hfirst.challenge c hfind, ← hready.caller, challengeOf_caller]
          exact Or.inl ⟨rfl, rfl⟩
    · have hplayed := hturn.played
      rw [playMove, if_pos hopen', hround] at hplayed
      exact hplayed

/-- Charlie Puth challenges the exchange of the user, and is then the caller of
the next move. -/
theorem first_challenger_exchange :
    ∃ (y₀ y y' : Session) (s₁ : State), openSession
        (lobbyOf "user" ["Charlie Puth", "Ed Sheeran"] []) 0 (List.range 15)
        [1, 0, 0, 0, 3] = .ok y₀ ∧
      run stepSession y₀ (.start :: userPresses .exchange) = .ok y ∧
      (∃ s₃ o, anyChallenges (logMove s₁ ⟨.exchange, 0, 0⟩) ⟨.exchange, 0, 0⟩
          ⟨.allow, fun _ => .least⟩ = .ok (s₃, o) ∧
        FirstChallenger (logMove s₁ ⟨.exchange, 0, 0⟩) ⟨.exchange, 0, 0⟩ 0
          ⟨.allow, fun _ => .least⟩ o) ∧
      ∃ s' o, anyChallenges y'.game ⟨.tax, 1, 1⟩ ⟨.allow, fun _ => .least⟩ =
          .ok (s', o) ∧
        FirstChallenger y'.game ⟨.tax, 1, 1⟩ 1 ⟨.allow, fun _ => .least⟩ o := by
  have hlast : lastStep stepSession
      (openSession (lobbyOf "user" ["Charlie Puth", "Ed Sheeran"] []) 0
        (List.range 15) [1, 0, 0, 0, 3]) (.start :: userPresses .exchange)
      (scripted .allow .least 1 [] (List.range 15))
      (fun y y' => decide (
        (y.game.vc.gameOn = true ∧
          (y.game.world.player 0).name = y.game.world.username ∧
          y.game.world.players[y.game.vc.turnInd]? = some 0 ∧
          y.game.vc.playerMove = ⟨.exchange, 0, 0⟩ ∧
          y'.game.world.moveLog.length ≠ y.game.world.moveLog.length) ∧
        (y'.game.world.players.map fun p =>
          (y'.game.world.player p).name).Nodup ∧
        y'.game.world.players[y'.game.vc.turnInd]? = some 1 ∧
        y'.game.world.moveLog ≠ [])) = true := by
    decide +kernel
  obtain ⟨y₀, y, y', hopen, hrun, hstep, hP⟩ := exists_of_lastStep hlast
  obtain ⟨⟨hon, hname, hseat, hmove, hlog⟩, hnames, hcurrent, hsome⟩ :=
    of_decide_eq_true hP
  rcases stepSession_cases hstep with hworld | ⟨i, p, m, s₁, s₂, hi, hturn⟩
  · exact absurd (by rw [hworld]) hlog
  cases hi
  obtain ⟨hplayer, -, hchosen⟩ := hturn.chosen
  obtain rfl : 0 = p := Option.some.inj (hseat.symm.trans hplayer)
  cases hchosen with
  | ai w hother _ _ => exact absurd hname hother
  | user _ _ hm _ =>
      rw [hmove] at hm
      subst hm
      obtain ⟨-, s₃, o, hround, hfirst, -⟩ := first_challenger.2 _ _ _ _ _ _ _ _
        _ _ _ _ _ _ _
        (lobbyOf_two "user" "Charlie Puth" "Ed Sheeran")
        (lobbyOf_distinctNames [] (by decide)) hopen hrun hon hturn rfl
      exact ⟨y₀, y, y', s₁, hopen, hrun, ⟨s₃, o, hround, hfirst⟩,
        first_challenger.1 y'.game ⟨.tax, 1, 1⟩ 1 _ hnames
          (List.mem_of_getElem? hcurrent) hcurrent hsome⟩

/-- When the only opponent is eliminated nobody is asked, nobody challenges,
and the result is the empty move. -/
theorem nobody_to_ask :
    ∃ (s : State) (m : Move) (i : RoundInput) (s' : State) (o : Move),
      DistinctNames s.world ∧
      s.world.players[s.vc.turnInd]? = some m.caller ∧
      s.world.moveLog ≠ [] ∧ anyChallenges s m i = .ok (s', o) ∧
      (eligibleSeats s m).find? (challengesMove s i) = none ∧
      o.name ≠ .allow := by
  have hlast : lastStep stepSession
      (openSession (lobbyOf "user" ["Charlie Puth"] []) 0 (List.range 15)
        [4, 8]) caughtTwice .endGame
      (fun y _ => decide (
        (y.game.world.players.map fun p =>
          (y.game.world.player p).name).Nodup ∧
        y.game.world.players[y.game.vc.turnInd]? = some 1 ∧
        y.game.world.moveLog ≠ [] ∧
        (anyChallenges y.game ⟨.tax, 1, 1⟩
          ⟨.allow, fun _ => .least⟩).toOption.map Prod.snd = some .init ∧
        eligibleSeats y.game ⟨.tax, 1, 1⟩ = [])) = true := by
    decide +kernel
  obtain ⟨y₀, y, -, -, -, -, hP⟩ := exists_of_lastStep hlast
  obtain ⟨hnames, hcurrent, hlog, hround, hnobody⟩ := of_decide_eq_true hP
  obtain ⟨⟨s', o⟩, hround, ho⟩ := Option.map_eq_some_iff.mp hround
  refine ⟨y.game, ⟨.tax, 1, 1⟩, ⟨.allow, fun _ => .least⟩, s', o, hnames,
    hcurrent, hlog, toOption_eq_some.mp hround, ?_, ?_⟩
  · rw [hnobody]
    rfl
  · rw [show o = .init from ho]
    decide

end Coup
