import Coup.Game.FirstChallenger

/-!
# The margin of the deck

A draw from an empty deck, a draw of a placeholder and a shuffle of an empty
deck are traps.  Six players hold twelve of the fifteen cards, so three are
left: a won challenge parks one of them, and an exchange during the challenge
draws the other two.  Every operation of a step therefore avoids the trap.
-/

namespace Coup

open Coup.Support

/-- Two more cards can be drawn while the parked ones are out of the deck. -/
def Room (created : List CardRef) (s : State) (parked : List CardRef) : Prop :=
  2 * s.world.players.length + parked.length + 2 ≤ created.length

theorem World.length_handsOf (w : World) (seats : List PlayerRef) :
    (w.handsOf seats).length = 2 * seats.length := by
  induction seats with
  | nil => rfl
  | cons p seats ih =>
      rw [handsOf_cons, List.length_cons, List.length_cons, List.length_cons,
        ih]
      omega

/-- The cards in the deck, in the hands and parked are all that were made. -/
theorem OnTable.length {created : List CardRef} {w : World}
    {cards parked : List CardRef} {b : Board PlayerRef}
    (h : OnTable created w cards parked b) :
    cards.length + 2 * w.players.length + parked.length = created.length := by
  have hlength := h.partition.length_eq
  rw [List.length_append, List.length_append, World.handCards,
    World.length_handsOf] at hlength
  omega

/-- The deck has no placeholder and at least `n` cards. -/
def Stocked (s : State) (n : ℕ) : Prop :=
  ∃ cards : List CardRef, s.vc.cardDeck = cards.map some ∧ n ≤ cards.length

theorem Stocked.of_deck {s s' : State} {n : ℕ} (h : Stocked s n)
    (hdeck : s'.vc.cardDeck = s.vc.cardDeck) : Stocked s' n := by
  obtain ⟨cards, hcards, hn⟩ := h
  exact ⟨cards, hdeck.trans hcards, hn⟩

theorem Stocked.mono {s : State} {k n : ℕ} (h : Stocked s n) (hle : k ≤ n) :
    Stocked s k := by
  obtain ⟨cards, hdeck, hn⟩ := h
  exact ⟨cards, hdeck, hle.trans hn⟩

/-- Where there is room for a parked card and none is parked, three are
left. -/
theorem Shows.stocked_three {created : List CardRef} {s : State}
    {b : Board PlayerRef} (h : Shows created s [] b)
    (hroom : ∀ c, Room created s [c]) : Stocked s 3 := by
  obtain ⟨cards, hdeck, htable⟩ := h
  have hlength := htable.length
  have hone := hroom 0
  unfold Room at hone
  rw [List.length_nil] at hlength
  rw [List.length_singleton] at hone
  exact ⟨cards, hdeck, by omega⟩

/-! ## Exchange -/

/-- The two drawn cards are still there, and the deck has not changed. -/
structure KeepsDrawn (s s' : State) : Prop where
  twoCards : s'.vc.twoCards ≠ none
  cardDeck : s'.vc.cardDeck = s.vc.cardDeck

section Exchange

variable {s s' : State} {x : ExchangeInput} {p : PlayerRef} {n : ℕ}

theorem KeepsDrawn.trans {s₁ s₂ : State} (h : KeepsDrawn s s₁)
    (h' : KeepsDrawn s₁ s₂) : KeepsDrawn s s₂ :=
  ⟨h'.twoCards, h'.cardDeck.trans h.cardDeck⟩

theorem answerDialog_keepsDrawn (h : s.vc.twoCards ≠ none) (d : Dialog)
    (a : ExchangeAnswer) : Ensures (KeepsDrawn s) (answerDialog s d a) := by
  rcases answerDialog_cases s d a with hanswer | ⟨c, k, -, hanswer⟩
  · rw [hanswer]
    exact ensures_ok ⟨h, rfl⟩
  · rw [hanswer, applyExchange]
    apply Ensures.bind
    intro two _
    split <;> exact ensures_ok ⟨by simp [h], rfl⟩

theorem offerExchange_keepsDrawn (h : s.vc.twoCards ≠ none) (i : Slot) (k : ℕ)
    (a : ExchangeAnswer) :
    Ensures (KeepsDrawn s) (offerExchange s i k a) := by
  refine .ite (fun _ => ?_) fun _ => ensures_ok ⟨h, rfl⟩
  exact .bind fun _ _ => answerDialog_keepsDrawn h _ _

theorem swapFirst_keepsDrawn (h : s.vc.twoCards ≠ none) :
    Ensures (KeepsDrawn s) (swapFirst s p) := by
  refine .ite (fun _ => ?_) fun _ => ensures_ok ⟨h, rfl⟩
  exact .bind fun _ _ => ensures_ok ⟨Option.some_ne_none _, rfl⟩

theorem swapSecond_keepsDrawn (h : s.vc.twoCards ≠ none) :
    Ensures (KeepsDrawn s) (swapSecond s p) := by
  refine .ite (fun _ => ?_) fun _ => ensures_ok ⟨h, rfl⟩
  exact .bind fun _ _ => ensures_ok ⟨Option.some_ne_none _, rfl⟩

theorem exchangeCards_keepsDrawn (h : s.vc.twoCards ≠ none) :
    Ensures (KeepsDrawn s) (exchangeCards s p x) := by
  refine .ite (fun _ => ?_) fun _ => ?_
  · apply Ensures.bind
    intro s₁ hfirst
    have h₁ := offerExchange_keepsDrawn h _ _ _ s₁ hfirst
    exact fun s₂ hsecond =>
      h₁.trans (offerExchange_keepsDrawn h₁.twoCards _ _ _ s₂ hsecond)
  · apply Ensures.bind
    intro s₁ hfirst
    have h₁ := swapFirst_keepsDrawn h s₁ hfirst
    exact fun s₂ hsecond =>
      h₁.trans (swapSecond_keepsDrawn h₁.twoCards s₂ hsecond)

theorem avoids_answerDialog (h : s.vc.twoCards ≠ none) (d : Dialog)
    (a : ExchangeAnswer) : Avoids .trap (answerDialog s d a) := by
  rcases answerDialog_cases s d a with hanswer | ⟨c, k, -, hanswer⟩
  · rw [hanswer]
    exact avoids_ok s
  · rw [hanswer, applyExchange]
    apply (avoids_orFault h).bind
    intro two _
    split <;> exact avoids_ok _

theorem avoids_offerExchange (h : s.vc.twoCards ≠ none) (i : Slot) (k : ℕ)
    (a : ExchangeAnswer) : Avoids .trap (offerExchange s i k a) := by
  refine .ite (fun _ => ?_) fun _ => avoids_ok s
  exact (avoids_orFault h).bind fun _ _ => avoids_answerDialog h _ _

theorem avoids_swapFirst (h : s.vc.twoCards ≠ none) :
    Avoids .trap (swapFirst s p) := by
  refine .ite (fun _ => ?_) fun _ => avoids_ok s
  exact (avoids_orFault h).bind fun _ _ => avoids_ok _

theorem avoids_swapSecond (h : s.vc.twoCards ≠ none) :
    Avoids .trap (swapSecond s p) := by
  refine .ite (fun _ => ?_) fun _ => avoids_ok s
  exact (avoids_orFault h).bind fun _ _ => avoids_ok _

theorem avoids_exchangeCards (h : s.vc.twoCards ≠ none) :
    Avoids .trap (exchangeCards s p x) := by
  refine .ite (fun _ => ?_) fun _ => ?_
  · apply (avoids_offerExchange h _ _ _).bind
    intro s₁ hfirst
    exact avoids_offerExchange
      (offerExchange_keepsDrawn h _ _ _ s₁ hfirst).twoCards _ _ _
  · apply (avoids_swapFirst h).bind
    intro s₁ hfirst
    exact avoids_swapSecond (swapFirst_keepsDrawn h s₁ hfirst).twoCards

/-- An exchange finds its two cards and gives two cards back. -/
theorem exchange_stocked (h : Stocked s n) :
    Ensures (Stocked · n) (exchange s p x) := by
  obtain ⟨cards, hdeck, hn⟩ := h
  intro s' hexchange
  rw [exchange, hdeck] at hexchange
  obtain ⟨⟨two, deck⟩, hdraw, hexchange⟩ := bind_eq_ok.mp hexchange
  obtain ⟨cards₁, rfl, hdrawn⟩ := give2Cards_spec hdraw
  obtain ⟨s₂, hcards, hexchange⟩ := bind_eq_ok.mp hexchange
  obtain ⟨two', -, hexchange⟩ := bind_eq_ok.mp hexchange
  obtain ⟨deck', hback, hexchange⟩ := bind_eq_ok.mp hexchange
  have hkept := exchangeCards_keepsDrawn (Option.some_ne_none two) s₂ hcards
  rw [hkept.cardDeck] at hback
  obtain ⟨cards₂, rfl, hgiven⟩ := get2CardsBackNShuffle_spec hback
  cases hexchange
  refine ⟨cards₂, rfl, hn.trans (le_of_eq ?_)⟩
  have hlength := hdrawn.length_eq
  have hlength' := hgiven.length_eq
  simp only [List.length_cons] at hlength hlength'
  exact hlength.symm.trans hlength'.symm

theorem avoids_exchange (h : Stocked s 2) :
    Avoids .trap (exchange s p x) := by
  obtain ⟨cards, hdeck, hleft⟩ := h
  rw [exchange, hdeck]
  apply ((avoids_give2Cards_iff _ _).mpr hleft).bind
  rintro ⟨two, deck⟩ hdraw
  obtain ⟨cards₁, rfl, -⟩ := give2Cards_spec hdraw
  apply (avoids_exchangeCards (Option.some_ne_none two)).bind
  intro s₂ hcards
  have hkept := exchangeCards_keepsDrawn (Option.some_ne_none two) s₂ hcards
  apply (avoids_orFault hkept.twoCards).bind
  intro two' _
  rw [hkept.cardDeck]
  exact (avoids_get2CardsBackNShuffle _).bind fun _ _ => avoids_ok _

end Exchange

/-! ## Moves and challenges -/

section Play

variable {created : List CardRef} {s s' : State} {parked : List CardRef}
  {b : Board PlayerRef} {p q : PlayerRef} {m o : Move} {i : TurnInput}
  {n : ℕ}

theorem avoids_revealCard {w : World} (hlog : w.moveLog ≠ []) :
    Avoids .trap (w.revealCard p) := by
  rw [World.revealCard]
  apply (avoids_orFault (by simpa using hlog)).bind
  intro _ _
  split <;> exact avoids_ok _

theorem avoids_actOnMove {x : ExchangeInput} (h : Stocked s 2)
    (hlog : s.world.moveLog ≠ []) : Avoids .trap (actOnMove s m x) := by
  have hreveal : ∀ p n, Avoids .trap
      ((s.world.addCoins p n).revealCard m.target) :=
    fun p n => avoids_revealCard hlog
  unfold actOnMove
  split
  case h_3 | h_5 => exact (hreveal _ _).bind fun _ _ => avoids_ok _
  case h_4 => exact avoids_exchange h
  all_goals exact avoids_ok _

theorem actOnMove_stocked {x : ExchangeInput} (h : Stocked s n) :
    Ensures (Stocked · n) (actOnMove s m x) := by
  unfold actOnMove
  split
  case h_3 | h_5 => exact .bind fun _ _ => ensures_ok (h.of_deck rfl)
  case h_4 => exact exchange_stocked h
  all_goals exact ensures_ok (h.of_deck rfl)

/-- A won challenge finds its card. -/
theorem avoids_showClaim {theCard : ℤ} {draw : ℕ} (h : Stocked s 1)
    (hlog : s.world.moveLog ≠ []) :
    Avoids .trap (showClaim s p q theCard draw) := by
  obtain ⟨cards, hdeck, hleft⟩ := h
  rw [showClaim, hdeck]
  apply (avoids_revealCard hlog).bind
  intro w _
  have hdraw : Avoids .trap (giveACard (cards.map some) draw) :=
    (avoids_giveACard_iff draw).mpr (List.length_pos_iff.mp hleft)
  exact hdraw.bind fun _ _ => avoids_ok _

theorem showClaim_stocked {theCard : ℤ} {draw : ℕ} (h : Stocked s (n + 1)) :
    Ensures (fun r => Stocked r.1 n) (showClaim s p q theCard draw) := by
  obtain ⟨cards, hdeck, hn⟩ := h
  rw [showClaim, hdeck]
  apply Ensures.bind
  intro w _
  apply Ensures.bind
  rintro ⟨newCard, deck⟩ hdraw
  obtain ⟨cards', rfl, hperm⟩ := giveACard_spec hdraw
  have hlength := hperm.length_eq
  rw [List.length_cons] at hlength
  exact ensures_ok ⟨cards', rfl, by omega⟩

theorem avoids_replaceClaim {theCard : ℤ} {c : CardRef} {draws : List ℕ}
    (h : Stocked s n) :
    Avoids .trap (replaceClaim s p theCard c draws) := by
  obtain ⟨cards, hdeck, -⟩ := h
  unfold replaceClaim
  rw [hdeck]
  exact (avoids_get1CardBackNShuffle _ _).bind fun _ _ => avoids_ok _

theorem replaceClaim_stocked {theCard : ℤ} {c : CardRef} {draws : List ℕ}
    (h : Stocked s n) :
    Ensures (Stocked · (n + 1)) (replaceClaim s p theCard c draws) := by
  obtain ⟨cards, hdeck, hn⟩ := h
  intro s' hreplace
  unfold replaceClaim at hreplace
  rw [hdeck] at hreplace
  obtain ⟨⟨w, deck⟩, hback, hreplace⟩ := bind_eq_ok.mp hreplace
  obtain ⟨-, cards', rfl, hperm⟩ := get1CardBackNShuffle_spec hback
  cases hreplace
  have hlength := hperm.length_eq
  rw [List.length_cons] at hlength
  exact ⟨cards', rfl, by omega⟩

/-- The claimed move finds its cards while the replacement card is parked. -/
theorem avoids_winChallenge (h : Stocked s 3) (hlog : s.world.moveLog ≠ []) :
    Avoids .trap (winChallenge s p m o i) := by
  rw [winChallenge]
  refine (avoids_showClaim (h.mono (by decide)) hlog).bind ?_
  rintro ⟨s₁, c⟩ hshow
  have h₁ := showClaim_stocked h _ hshow
  have hlog₁ : s₁.world.moveLog ≠ [] :=
    (showClaim_log _ _ _ _ _ _ hshow).symm ▸ hlog
  apply (avoids_actOnMove h₁ hlog₁).bind
  intro s₂ hacted
  exact avoids_replaceClaim (actOnMove_stocked h₁ s₂ hacted)

theorem avoids_resolve (h : Stocked s 3) (hlog : s.world.moveLog ≠ []) :
    Avoids .trap (resolve s p m o i) := by
  refine .ite (fun _ => .ite (fun _ => ?_) fun _ => ?_)
    fun _ => .ite (fun _ => ?_) fun _ => avoids_ok s
  · exact avoids_winChallenge h hlog
  · exact (avoids_revealCard hlog).bind fun _ _ => avoids_ok _
  · exact avoids_actOnMove (h.mono (by decide)) hlog

end Play

/-! ## The challenge round -/

section Round

variable {s s' : State} {m cur : Move} {i : RoundInput} {q : PlayerRef}

theorem avoids_slotHead
    (hind : s.vc.challengeTurnInd < s.world.players.length) :
    Avoids .trap (slotHead s m) :=
  (avoids_getElem? hind).bind fun _ _ =>
    .ite (fun _ => avoids_ok _) fun _ => avoids_ok _

theorem avoids_slotAsk
    (hind : s.vc.challengeTurnInd < s.world.players.length)
    (hturn : s.vc.turnInd < s.world.players.length)
    (hlog : s.world.moveLog ≠ []) : Avoids .trap (slotAsk s m q cur i) := by
  refine .ite (fun _ => ?_) fun _ => ?_
  · have htap := tapAnswer_eq i.answer (List.getElem?_eq_getElem hind)
      (List.getElem?_eq_getElem hturn)
    rw [htap]
    exact avoids_ok _
  · obtain ⟨o, w', hget, -⟩ := getChallengeOrAllow_answer q m.caller
      (i.rand s.vc.challengeTurnInd) (List.getLast?_eq_some_getLast hlog)
    rw [hget]
    exact avoids_ok _

theorem avoids_slotUse
    (hind : s.vc.challengeTurnInd < s.world.players.length)
    (hturn : s.vc.turnInd < s.world.players.length) :
    Avoids .trap (slotUse s cur) := by
  refine .ite (fun _ => .ite (fun _ => avoids_ok _) fun _ => avoids_ok _)
    fun _ => .ite (fun _ => avoids_ok _) fun _ => ?_
  exact (avoids_getElem? hind).bind fun _ _ =>
    (avoids_getElem? hturn).bind fun _ _ => avoids_ok _

theorem avoids_slotStep
    (hind : s.vc.challengeTurnInd < s.world.players.length)
    (hturn : s.vc.turnInd < s.world.players.length)
    (hlog : s.world.moveLog ≠ []) : Avoids .trap (slotStep s m cur i) := by
  rw [slotStep]
  refine (avoids_slotHead hind).bind ?_
  rintro ⟨s₁, asked⟩ hhead
  obtain ⟨player, hplayer, ⟨rfl, -, -⟩ | ⟨rfl, -, rfl⟩⟩ := slotHead_spec hhead
  · exact avoids_ok _
  · refine (avoids_slotAsk (s := { s with
      vc.didPlayerChallengeOrAllow := false }) hind hturn hlog).bind ?_
    rintro ⟨s₂, cur₂⟩ hask
    obtain ⟨hquiet, hind₂, -⟩ := slotAsk_spec
      (s := { s with vc.didPlayerChallengeOrAllow := false }) rfl hplayer hask
    have hplayers := hquiet.evolves.table.players
    refine avoids_slotUse ?_ ?_
    · rw [hind₂, hplayers]
      exact hind
    · rw [hquiet.evolves.turnInd, hplayers]
      exact hturn

theorem avoids_anyChallengesLoop {bound : ℕ}
    (hturn : s.vc.turnInd < s.world.players.length)
    (hlog : s.world.moveLog ≠ []) :
    Avoids .trap (anyChallengesLoop m i bound s cur) := by
  induction bound generalizing s cur with
  | zero => exact avoids_ok _
  | succ bound ih =>
      refine .ite (fun hind => ?_) fun _ => avoids_ok _
      refine (avoids_slotStep hind hturn hlog).bind ?_
      rintro ⟨s₁, result⟩ hstep
      have hquiet := (slotStep_spec hstep).1.evolves
      cases result with
      | answered objection => exact avoids_ok _
      | next cur₁ =>
          refine ih ?_ (hquiet.moveLog ▸ hlog)
          rw [hquiet.turnInd, hquiet.table.players]
          exact hturn

theorem avoids_playMove {p : PlayerRef} {i : TurnInput} (h : Stocked s 3)
    (hturn : s.vc.turnInd < s.world.players.length)
    (hlog : s.world.moveLog ≠ []) : Avoids .trap (playMove s p m i) := by
  refine .ite (fun _ => ?_) fun _ =>
    avoids_actOnMove (h.mono (by decide)) hlog
  have hround : Avoids .trap (anyChallenges s m i.round) :=
    avoids_anyChallengesLoop (s := { s with vc.challengeTurnInd := 0 }) hturn
      hlog
  apply hround.bind
  rintro ⟨s₁, o⟩ hasked
  obtain ⟨hquiet, -⟩ := anyChallenges_spec hasked
  exact avoids_resolve (h.of_deck hquiet.cardDeck)
    (hquiet.evolves.moveLog ▸ hlog)

end Round

/-! ## Steps of a session -/

section Step

variable {w : World} {user : PlayerRef} {AIs : List PlayerRef}
  {base : CardRef} {s : State} {p : PlayerRef} {y : Session}

theorem avoids_findTarget {w : World} {accept : PlayerRef → Bool}
    {draws : List ℕ} (h : w.players ≠ []) :
    Avoids .trap (findTarget w p accept draws) := by
  have hpos := List.length_pos_iff.mpr h
  induction draws with
  | nil => exact avoids_error (by decide)
  | cons draw draws ih =>
      rw [findTarget, findTarget.randomSeat, if_neg hpos.ne', bind_ok]
      refine (avoids_getElem? (Nat.mod_lt _ hpos)).bind fun _ _ => ?_
      exact .ite (fun _ => ih) fun _ => .ite (fun _ => avoids_ok _) fun _ => ih

theorem avoids_getPlayerMove {w : World} {i : AIInput} (h : w.players ≠ []) :
    Avoids .trap (getPlayerMove w p i) := by
  unfold getPlayerMove
  split
  next => exact avoids_ok _
  next ai _ =>
    have hpick : Avoids .trap (pickMoveName (w.seat p)
        (changeMoveRate (w.seat p) w.table ai.moveRateDic) i.order i.pick) := by
      rw [pickMoveName, if_neg (not_lt.mpr (rateTotal_nonneg _
        fun k hk => changeMoveRate_nonneg _ _ _ hk))]
      exact avoids_ok _
    apply hpick.bind
    intro name _
    have htarget : Avoids .trap (chooseTarget w p name i.seats) := by
      cases name with
      | coup | steal | assassinate =>
          exact (avoids_findTarget h).bind fun _ _ => avoids_ok _
      | unnamed | income | foreignAid | exchange | tax | allow | challenge =>
          exact avoids_ok _
    exact htarget.bind fun _ _ => avoids_ok _

theorem InPlay.ne_nil {created : List CardRef}
    (hin : InPlay created w user AIs s) : s.world.players ≠ [] := by
  rw [hin.players]
  exact List.cons_ne_nil _ _

theorem avoids_selectMove {created : List CardRef} {i : AIInput}
    (hin : InPlay created w user AIs s) : Avoids .trap (selectMove s i) := by
  refine (avoids_getElem? hin.turnInd).bind fun p _ => ?_
  refine .ite (fun _ => avoids_ok _) fun _ => ?_
  have htake : Avoids .trap (takeMove s p i) := by
    refine .ite (fun _ => .ite (fun _ => avoids_ok _) fun _ => avoids_ok _)
      fun _ => ?_
    exact (avoids_getPlayerMove hin.ne_nil).bind fun _ _ => avoids_ok _
  exact htake.bind fun _ _ => avoids_ok _

theorem avoids_endTurn (h : s.world.players ≠ []) :
    Avoids .trap (endTurn s) := by
  have hover : Avoids .trap (isGameOver s) := by
    refine .ite (fun _ => ?_) fun _ => avoids_ok _
    exact (avoids_getElem? (List.length_pos_iff.mpr h)).bind
      fun _ _ => avoids_ok _
  exact hover.bind fun _ _ => avoids_ok _

/-- A game of at most six players has room for a parked card. -/
theorem InPlay.room (hin : InPlay (createdCards base) w user AIs s)
    {s' : State} (hplayers : s'.world.players = s.world.players)
    (c : CardRef) : Room (createdCards base) s' [c] := by
  have hsix := hin.lobby.atMostSix
  have hmade : (createdCards base).length = 15 := rfl
  rw [Room, hplayers, hin.table.players, hmade, List.length_singleton]
  omega

theorem avoids_iterate {i : TurnInput}
    (hin : InPlay (createdCards base) w user AIs s)
    (hmove : s.vc.didPlayerMove = true → Pressed s) :
    Avoids .trap (iterate s i) := by
  rw [iterate]
  refine (avoids_selectMove hin).bind ?_
  rintro ⟨s₁, p, selection⟩ hselect
  rcases selectMove_cases hselect with
    ⟨rfl, -⟩ | ⟨rfl, -⟩ | ⟨m, rfl, hcurrent, -, hchosen⟩
  · exact avoids_ok _
  · exact avoids_ok _
  · have hp : p ∈ s.world.players := List.mem_of_getElem? hcurrent
    have hplayers : (logMove s₁ m).world.players = s.world.players :=
      (hchosen.quiet (hin.ai_isSome hp) hp).evolves.table.players
    have hshows := hchosen.logged_shows hin hp
    have hready := hchosen.ready hin hmove hcurrent
    have hplay : Avoids .trap (playMove (logMove s₁ m) p m i) :=
      avoids_playMove (hshows.stocked_three (hin.room hplayers))
        (List.getElem?_eq_some_iff.mp hready.current).1 (by simp [logMove])
    apply hplay.bind
    intro s₂ hplayed
    have hsame := (playMove_spec hshows hready hplayed).1.table.players
    have hend : Avoids .trap (endTurn s₂) := by
      apply avoids_endTurn
      rw [hsame, hplayers]
      exact hin.ne_nil
    exact hend.bind fun _ _ => avoids_ok _

theorem avoids_pressButton (hturn : s.vc.turnInd < s.world.players.length)
    (q : Press) : Avoids .trap (pressButton s q) := by
  have hguard : ∀ {enabled : Bool} {k : Except Fault State},
      Avoids .trap k → Avoids .trap (guardPress enabled k) :=
    fun hk => .ite (fun _ => hk) fun _ => avoids_error (by decide)
  have hsubmit : ∀ {s' : State} {name : MoveName} {target : Option PlayerRef},
      s'.vc.turnInd < s'.world.players.length →
      Avoids .trap (submitMove s' name target) :=
    fun h => (avoids_getElem? h).bind fun _ _ => avoids_ok _
  have htarget : ∀ {steal kill coup : Bool} {target : PlayerRef},
      Avoids .trap
        (targetDidSet (targetMoveSelected s steal kill coup) target) :=
    .ite (fun _ => hsubmit hturn) fun _ =>
      .ite (fun _ => hsubmit hturn) fun _ => hsubmit hturn
  cases q with
  | income | foreignAid | tax | exchange => exact hguard (hsubmit hturn)
  | coup | steal | assassinate => exact hguard htarget

/-- No step of a running session traps. -/
theorem Running.avoids_step
    (h : Running (createdCards base) w user AIs y) (e : Event) :
    Avoids .trap (stepSession y e) := by
  have hrefused : Avoids .trap (.error .refused : Except Fault Session) :=
    avoids_error (by decide)
  cases e with
  | start | finish | wake | deliver =>
      exact .ite (fun _ => avoids_ok _) fun _ => hrefused
  | iterate i =>
      refine .ite (fun _ => ?_) fun _ => hrefused
      refine (avoids_iterate h.inPlay h.phase.pressed).bind ?_
      rintro ⟨s, exit⟩ -
      cases exit <;> exact avoids_ok _
  | press q =>
      exact (avoids_pressButton h.inPlay.turnInd q).bind fun _ _ => avoids_ok _
  | endGame => exact avoids_ok _

/-- A game can be opened. -/
theorem avoids_openSession {shuffling dealing : List ℕ}
    (hlobby : Lobby w user AIs) :
    Avoids .trap (openSession w base shuffling dealing) := by
  have hload : Avoids .trap (viewDidLoad w base shuffling dealing) := by
    rw [viewDidLoad]
    apply (avoids_makeDeck base).bind
    intro deck hdeck
    obtain ⟨cards, rfl, hperm⟩ := makeDeck_spec hdeck
    have hmade : cards.length = 15 := hperm.length_eq
    have hsix := hlobby.atMostSix
    refine (avoids_assign2Cards (by omega)).bind ?_
    rintro ⟨w', deck'⟩ hdeal
    obtain ⟨-, -, -, htable, -⟩ := assign2Cards_spec hlobby.nodup hdeal
    have hplayers : w'.players = w.players := htable.players
    refine (avoids_getElem? ?_).bind fun _ _ => avoids_ok _
    simp [hplayers, hlobby.players]
  exact hload.bind fun _ _ => avoids_ok _

end Step

/-- No game meets a trap, so every draw finds the cards it needs, no shuffle
meets an empty deck and no draw a placeholder; between two steps the deck holds
the cards that the players do not. -/
theorem deck_never_too_small {w : World} {user : PlayerRef}
    {AIs : List PlayerRef} (hlobby : Lobby w user AIs) (base : CardRef)
    (shuffling dealing : List ℕ) :
    openSession w base shuffling dealing ≠ .error .trap ∧
      ∀ (y₀ y : Session) (es : List Event),
        openSession w base shuffling dealing = .ok y₀ →
        run stepSession y₀ es = .ok y →
        (∃ cards : List CardRef, y.game.vc.cardDeck = cards.map some ∧
          cards.length = 15 - 2 * y.game.world.players.length) ∧
        ∀ e, stepSession y e ≠ .error .trap := by
  refine ⟨avoids_openSession hlobby, fun y₀ y es hopen hrun => ?_⟩
  have hrunning := Running.of_run hlobby hopen hrun
  refine ⟨?_, fun e => hrunning.avoids_step e⟩
  obtain ⟨cards, hdeck, htable⟩ := hrunning.inPlay.shows
  have hlength := htable.length
  have hmade : (createdCards base).length = 15 := rfl
  rw [hmade, List.length_nil] at hlength
  exact ⟨cards, hdeck, by omega⟩

/-- Six players, one of whom challenges the exchange of another. -/
theorem deck_never_too_small_six :
    ∃ y₀ y, openSession (lobbyOf "user"
        ["Charlie Puth", "Ed Sheeran", "Justin Bieber", "Selena Gomez",
          "Taylor Swift"] []) 0 (List.range 15) [1] = .ok y₀ ∧
      run stepSession y₀ (.start :: userPresses .exchange) = .ok y ∧
      y.game.vc.cardDeck.length = 3 ∧
      ∀ i, stepSession y (.iterate i) ≠ .error .trap := by
  have hlast : lastStep stepSession
      (openSession (lobbyOf "user"
        ["Charlie Puth", "Ed Sheeran", "Justin Bieber", "Selena Gomez",
          "Taylor Swift"] []) 0 (List.range 15) [1])
      (.start :: userPresses .exchange) .endGame
      (fun y _ => decide (y.game.world.players.length = 6)) = true := by
    decide +kernel
  obtain ⟨y₀, y, -, hopen, hrun, -, hP⟩ := exists_of_lastStep hlast
  have hsix := of_decide_eq_true hP
  obtain ⟨⟨cards, hdeck, hlength⟩, hstep⟩ := (deck_never_too_small
    (lobbyOf_lobby "user"
      ["Charlie Puth", "Ed Sheeran", "Justin Bieber", "Selena Gomez",
        "Taylor Swift"] [] (by simp) (by simp)) 0 (List.range 15) [1]).2 y₀ y _
    hopen hrun
  refine ⟨y₀, y, hopen, hrun, ?_, fun i => hstep _⟩
  rw [hdeck, List.length_map, hlength, hsix]

end Coup
