import Coup.Threads.Cards
import Coup.Threads.Display

/-!
# What a step does to a position

Outside of a challenge that is won, a card that is face up stays where it is,
and a card that is hidden is turned up by `revealCard` only, which tells the
main queue of it.  A claimed card is turned up without a block, and the card
that replaces it is hidden.  So every step of the game thread makes one of three
moves with each position of each hand.
-/

namespace Coup

open Coup.Support

/-! ## Cards that are face up stay -/

/-- A card that is face up stays in its position, and stays face up. -/
def Stands (w w' : World) : Prop :=
  ∀ p j, (w.held p j).revealed = true →
    w'.slot p j = w.slot p j ∧ (w'.held p j).revealed = true

section Stands

variable {w w₁ w₂ : World} {s s' : State} {p q : PlayerRef} {j : Slot}

theorem Stands.refl (w : World) : Stands w w := fun _ _ h => ⟨rfl, h⟩

theorem Stands.trans (h₁ : Stands w w₁) (h₂ : Stands w₁ w₂) :
    Stands w w₂ := by
  intro p j hup
  obtain ⟨hslot₁, hup₁⟩ := h₁ p j hup
  obtain ⟨hslot₂, hup₂⟩ := h₂ p j hup₁
  exact ⟨hslot₂.trans hslot₁, hup₂⟩

theorem Stands.setSlot (hdown : (w.held p j).revealed = false)
    (c : CardRef) : Stands w (w.setSlot p j c) := by
  intro q k hup
  have hne : ¬ (q = p ∧ k = j) := by
    rintro ⟨rfl, rfl⟩
    rw [hdown] at hup
    cases hup
  have hslot : (w.setSlot p j c).slot q k = w.slot q k := by
    rw [World.setSlot_slot, if_neg hne]
  refine ⟨hslot, ?_⟩
  rw [World.held, hslot]
  exact hup

theorem Stands.setRevealed (w : World) (c : CardRef) :
    Stands w (w.setRevealed c true) := by
  intro q k hup
  refine ⟨rfl, ?_⟩
  rw [World.held, World.setRevealed_slot, World.setRevealed_revealed]
  split
  · rfl
  · exact hup

theorem Stands.revealCard (h : w.revealCard p = .ok w₁) : Stands w w₁ := by
  obtain rfl | ⟨i, -, rfl⟩ := World.revealCard_eq h
  · exact .refl _
  · exact .setRevealed _ _

theorem applyExchange_stands {c : CardRef} {n : ℕ}
    (hcase : n < 2 ∧ j = .first ∨ 2 ≤ n ∧ j = .second)
    (hdown : (s.world.held s.vc.user j).revealed = false) :
    Ensures (fun s' => Stands s.world s'.world) (applyExchange s c n) := by
  apply Ensures.bind
  intro two _
  rcases hcase with ⟨hn, rfl⟩ | ⟨hn, rfl⟩
  all_goals
    split
    all_goals first
      | exact ensures_ok (.setSlot hdown _)
      | exact ensures_ok (.refl _)
      | exact absurd hn (by decide)

theorem answerDialog_stands {d : Dialog} {a : ExchangeAnswer}
    (hcase : d.caseNum = 0 ∧ j = .first ∨ d.caseNum = 2 ∧ j = .second)
    (hdown : (s.world.held s.vc.user j).revealed = false) :
    Ensures (fun s' => Stands s.world s'.world) (answerDialog s d a) := by
  have hgesture (c : CardRef) {n₁ n₂ : ℕ} (hn₁ : n₁ < 2) (hn₂ : 2 ≤ n₂) :
      Ensures (fun s' => Stands s.world s'.world)
        (if d.caseNum = 0 then applyExchange s c n₁
          else if d.caseNum = 2 then applyExchange s c n₂ else .ok s) := by
    refine .ite (fun hzero => ?_) fun _ => .ite (fun htwo => ?_)
      fun _ => ensures_ok (.refl _)
    · refine applyExchange_stands (.inl ⟨hn₁, ?_⟩) hdown
      rcases hcase with ⟨-, hj⟩ | ⟨htwo, -⟩
      · exact hj
      · rw [hzero] at htwo
        cases htwo
    · refine applyExchange_stands (.inr ⟨hn₂, ?_⟩) hdown
      rcases hcase with ⟨hzero, -⟩ | ⟨-, hj⟩
      · rw [htwo] at hzero
        cases hzero
      · exact hj
  cases a with
  | keep => exact ensures_ok (.refl _)
  | first => exact hgesture d.twoCards.1 (by decide) (by decide)
  | second => exact hgesture d.twoCards.2 (by decide) (by decide)

theorem offerExchange_stands {caseNum : ℕ} {a : ExchangeAnswer}
    (hcase : caseNum = 0 ∧ j = .first ∨ caseNum = 2 ∧ j = .second) :
    Ensures (fun s' => Stands s.world s'.world)
      (offerExchange s j caseNum a) := by
  apply Ensures.ite
  · intro hdown
    apply Ensures.bind
    intro two _
    exact answerDialog_stands hcase hdown
  · exact fun _ => ensures_ok (.refl _)

theorem swapFirst_stands :
    Ensures (fun s' => Stands s.world s'.world) (swapFirst s p) := by
  apply Ensures.ite
  · intro hdown
    apply Ensures.bind
    intro two _
    exact ensures_ok (.setSlot hdown _)
  · exact fun _ => ensures_ok (.refl _)

theorem swapSecond_stands :
    Ensures (fun s' => Stands s.world s'.world) (swapSecond s p) := by
  apply Ensures.ite
  · intro hdown
    apply Ensures.bind
    intro two _
    exact ensures_ok (.setSlot hdown _)
  · exact fun _ => ensures_ok (.refl _)

theorem exchangeCards_stands {x : ExchangeInput} :
    Ensures (fun s' => Stands s.world s'.world) (exchangeCards s p x) := by
  apply Ensures.ite
  · intro _
    apply Ensures.bind
    intro s₁ hs₁
    have h₁ := offerExchange_stands (.inl ⟨rfl, rfl⟩) s₁ hs₁
    intro s₂ hs₂
    exact h₁.trans (offerExchange_stands (.inr ⟨rfl, rfl⟩) s₂ hs₂)
  · intro _
    apply Ensures.bind
    intro s₁ hs₁ s₂ hs₂
    exact (swapFirst_stands s₁ hs₁).trans (swapSecond_stands s₂ hs₂)

theorem exchange_stands {x : ExchangeInput} :
    Ensures (fun s' => Stands s.world s'.world) (exchange s p x) := by
  apply Ensures.bind
  rintro ⟨two, cardDeck⟩ _
  apply Ensures.bind
  intro s₁ hs₁
  apply Ensures.bind
  intro two' _
  apply Ensures.bind
  intro cardDeck' _
  exact ensures_ok (exchangeCards_stands (s := { s with
    vc.cardDeck := cardDeck, vc.twoCards := some two }) s₁ hs₁)

end Stands

/-! ## What a step does to one position -/

/-- What an effect does to a position: it leaves it alone, as far as the
position is face up, or it turns up its card and sends a block for it. -/
inductive Turns (w w' : World) (blocks : List ScreenBlock) (p : PlayerRef)
    (j : Slot) : Prop
  | keep (hface : (w'.held p j).revealed = (w.held p j).revealed)
      (hslot : (w.held p j).revealed = true → w'.slot p j = w.slot p j)
      (hsilent : .tellReveal p j ∉ blocks)
  | lose (hdown : (w.held p j).revealed = false)
      (hup : (w'.held p j).revealed = true)
      (htell : .tellReveal p j ∈ blocks)

/-- The thread shows the card in this position, which was claimed. -/
def Place.Shows (p : PlayerRef) (j : Slot) : Place → Prop
  | .shown t theCard _ | .acted t theCard _ =>
      t.currentPlayer = p ∧ slotOf theCard = some j
  | _ => False

instance (p : PlayerRef) (j : Slot) : (place : Place) →
    Decidable (place.Shows p j)
  | .shown t theCard _ | .acted t theCard _ =>
      inferInstanceAs (Decidable (t.currentPlayer = p ∧
        slotOf theCard = some j))
  | .idle | .head | .picked _ | .leaving | .chosen _ | .slot _ _ | .look _ _
  | .ask _ _ _ | .test _ _ _ | .send _ _ _ | .use _ _ _ | .objected _ _
  | .free _ | .ending | .next => inferInstanceAs (Decidable False)

/-- What a step of the thread does to a position of a hand. -/
inductive SlotMove (y y' : Loop) (p : PlayerRef) (j : Slot) : Prop
  | turns (hturns : Turns y.game.world y'.game.world (y.sends y'.place) p j)
      (hshows : y'.place.Shows p j ↔ y.place.Shows p j)
  | show (hshowing : y'.place.showing = true) (hshows : y'.place.Shows p j)
      (hup : (y'.game.world.held p j).revealed = true)
      (hseen : (y.game.world.held p j).revealed = true ∨
        .tellReveal p j ∈ y.sends y'.place →
          (y.unshown.held p j).revealed = true)
  | replace (hshows : y.place.Shows p j) (hgone : ¬ y'.place.Shows p j)
      (hdown : (y'.game.world.held p j).revealed = false)
      (hsilent : .tellReveal p j ∉ y.sends y'.place)

section Turns

variable {created cards parked : List CardRef} {b : Board PlayerRef}
  {w w' : World} {s s' : State} {p q : PlayerRef} {j : Slot} {m : Move}
  {blocks : List ScreenBlock}

theorem Turns.of_same (hslot : w'.slot p j = w.slot p j)
    (hcard : w'.card = w.card) (hsilent : .tellReveal p j ∉ blocks) :
    Turns w w' blocks p j := by
  refine .keep ?_ (fun _ => hslot) hsilent
  rw [World.held, hslot, hcard]
  rfl

/-- `revealCard` turns up the card that its block is about. -/
theorem OnTable.reveal_turns (h : OnTable created w cards parked b)
    (hp : p ∈ w.players) (hq : q ∈ w.players)
    (hreveal : w.revealCard q = .ok w') :
    Turns w w' (revealBlocks w q) p j := by
  have hstands := Stands.revealCard hreveal p j
  have hface := (h.revealCard hq hreveal).face p
    (by rw [(SameTable.revealCard hreveal).players]; exact hp) j
  rw [Board.lose, ← h.firstHidden_eq hq] at hface
  unfold revealBlocks
  cases hhidden : w.firstHidden q with
  | none =>
      rw [hhidden] at hface
      refine .keep (hface.trans (h.face p hp j).symm)
        (fun hup => (hstands hup).1) (by simp)
  | some i =>
      simp only [hhidden, Board.turn_face] at hface
      by_cases hpq : p = q ∧ j = i
      · obtain ⟨rfl, rfl⟩ := hpq
        rw [if_pos ⟨rfl, rfl⟩] at hface
        refine .lose ?_ hface (by simp)
        rw [h.firstHidden_eq hp] at hhidden
        rw [h.face p hp]
        exact Board.firstHidden_eq_some b p j hhidden
      · rw [if_neg hpq] at hface
        refine .keep (hface.trans (h.face p hp j).symm)
          (fun hup => (hstands hup).1) ?_
        simp only [Option.toList_some, List.map_cons, List.map_nil,
          List.mem_append, List.mem_singleton, ScreenBlock.tellReveal.injEq,
          reduceCtorEq, or_false]
        exact hpq

theorem Turns.refresh (h : Turns w w' blocks p j) :
    Turns w w' (blocks ++ [.refresh]) p j := by
  cases h with
  | keep hface hslot hsilent =>
      exact .keep hface hslot (by simpa using hsilent)
  | lose hdown hup htell =>
      exact .lose hdown hup (List.mem_append_left _ htell)

/-- The price of a coup or an assassination, and the card that it costs. -/
theorem Shows.pay_turns {n : ℤ} (h : Shows created s parked b)
    (hp : p ∈ s.world.players) (hq : q ∈ s.world.players)
    (hreveal : (s.world.addCoins m.caller n).revealCard q = .ok w') :
    Turns s.world w' (revealBlocks s.world q) p j := by
  obtain ⟨cards, -, htable⟩ := h
  have hturns := (htable.addCoins m.caller n).reveal_turns (j := j) hp hq
    hreveal
  cases hturns with
  | keep hface hslot hsilent =>
      rw [World.addCoins_held] at hface hslot
      refine .keep hface (fun hup => ?_) ?_
      · rw [hslot hup, World.addCoins_slot]
      · simpa [revealBlocks, World.firstHidden] using hsilent
  | lose hdown hup htell =>
      rw [World.addCoins_held] at hdown
      exact .lose hdown hup
        (by simpa [revealBlocks, World.firstHidden] using htell)

theorem Shows.act_turns {x : ExchangeInput} (h : Shows created s parked b)
    (huser : s.vc.user ∈ s.world.players)
    (hcaller : m.caller ∈ s.world.players)
    (htarget : m.target ∈ s.world.players) (hp : p ∈ s.world.players)
    (hact : actOnMove s m x = .ok s') :
    Turns s.world s'.world (actBlocks s.world m ++ [.refresh]) p j := by
  apply Turns.refresh
  unfold actOnMove at hact
  unfold actBlocks
  split at hact
  case h_3 hname | h_5 hname =>
    simp only [hname]
    obtain ⟨w, hreveal, hact⟩ := bind_eq_ok.mp hact
    cases hact
    exact h.pay_turns hp htarget hreveal
  case h_4 hname =>
    obtain ⟨⟨cards, -, htable⟩, hevolves⟩ :=
      exchange_spec h huser hcaller hact
    obtain ⟨cards₀, -, htable₀⟩ := h
    have hface := htable.face p (by rw [hevolves.table.players]; exact hp) j
    refine .keep (hface.trans (htable₀.face p hp j).symm)
      (fun hup => (exchange_stands _ hact p j hup).1) ?_
    simp only [hname]
    split <;> simp
  all_goals
    cases hact
    exact .of_same (by simp) rfl (by simp_all)

theorem Turns.congr {w₂ : World} (h : Turns w w' blocks p j)
    (hslot : w₂.slot p j = w'.slot p j)
    (hface : (w₂.held p j).revealed = (w'.held p j).revealed) :
    Turns w w₂ blocks p j := by
  cases h with
  | keep hface' hslot' hsilent =>
      exact .keep (hface.trans hface') (fun hup => hslot.trans (hslot' hup))
        hsilent
  | lose hdown hup htell => exact .lose hdown (hface.trans hup) htell

/-- Turning one position leaves the others alone. -/
theorem OnTable.setRevealed_held (h : OnTable created w cards parked b)
    (hp : p ∈ w.players) (hq : q ∈ w.players) {k : Slot}
    (hne : ¬ (q = p ∧ k = j)) (up : Bool) :
    (w.setRevealed (w.slot q k) up).held p j = w.held p j := by
  have hslot : w.slot p j ≠ w.slot q k := by
    intro heq
    obtain ⟨hqp, hkj⟩ := World.slot_injective h.handCards_nodup hq hp heq.symm
    exact hne ⟨hqp, hkj⟩
  rw [World.held, World.held, World.setRevealed_slot, World.setRevealed]
  exact Function.update_of_ne hslot _ _

end Turns

section SlotMove

variable {F : Footprint} {created : List CardRef} {y y' : Loop}
  {i : TurnInput} {p : PlayerRef} {j : Slot}

/-- The challenger turns up a card, and then the claimed card is shown. -/
theorem showClaim_slotMove {t : Turn} {o : Move} {s : State}
    {newCard : CardRef} {draw : ℕ} {theCard : ℤ}
    (hplace : y.place = .objected t o)
    (hsends : y.sends (.shown t theCard newCard) =
      revealBlocks y.game.world o.caller)
    (hshows : Shows created y.game [] y.game.world.board)
    (hp : p ∈ y.game.world.players)
    (hcurrent : t.currentPlayer ∈ y.game.world.players)
    (hcaller : o.caller ∈ y.game.world.players)
    (hshow : showClaim y.game t.currentPlayer o.caller theCard draw =
      .ok (s, newCard)) :
    SlotMove y { y with game := s, place := .shown t theCard newCard } p j := by
  obtain ⟨cards, -, htable⟩ := hshows
  obtain ⟨w, hreveal, hshow⟩ := bind_eq_ok.mp hshow
  obtain ⟨⟨newCard', deck⟩, -, hshow⟩ := bind_eq_ok.mp hshow
  cases hshow
  have hturns := htable.reveal_turns (j := j) hp hcaller hreveal
  by_cases hhere : t.currentPlayer = p ∧ slotOf theCard = some j
  · have hup : ((showCard w t.currentPlayer theCard).held p j).revealed =
        true := by
      rw [showCard, hhere.2, ← hhere.1]
      simp only
      rw [World.held, World.setRevealed_slot, World.setRevealed_revealed,
        if_pos rfl]
    refine .show rfl hhere hup fun hup => ?_
    have hunshown : y.unshown = w := by
      simp only [Loop.unshown, hplace, hreveal, Except.toOption,
        Option.getD_some]
    rw [hunshown]
    rcases hup with hup | htell
    · exact (Stands.revealCard hreveal p j hup).2
    · simp only [hsends] at htell
      cases hturns with
      | keep _ _ hsilent => exact absurd htell hsilent
      | lose _ hup _ => exact hup
  · have hshown : (showCard w t.currentPlayer theCard).slot p j =
        w.slot p j ∧
        (showCard w t.currentPlayer theCard).held p j = w.held p j := by
      rw [showCard]
      split
      next k hk =>
        have hplayers := (SameTable.revealCard hreveal).players
        rw [← hplayers] at hp hcurrent
        refine ⟨rfl, (htable.revealCard ?_ hreveal).setRevealed_held hp hcurrent
          ?_ true⟩
        · exact hcaller
        · rintro ⟨hcp, rfl⟩
          exact hhere ⟨hcp, hk⟩
      next => exact ⟨rfl, rfl⟩
    refine .turns ?_ ⟨fun h => absurd h hhere, ?_⟩
    · simp only [hsends]
      exact hturns.congr hshown.1 (congrArg Card.revealed hshown.2)
    · rw [hplace]
      exact False.elim

theorem stepThread_objected {t : Turn} {o : Move}
    (hplace : y.place = .objected t o) (hstep : stepThread y i = .ok y')
    (hscope : Scoped F y) (hholding : Holding created y)
    (hp : p ∈ y.game.world.players) : SlotMove y y' p j := by
  have hwithin := hscope.place
  have hshows := hholding.shows
  rw [hplace] at hwithin hshows
  obtain ⟨ht, hobjects⟩ := hwithin
  have hseats := hscope.game.seats
  obtain ⟨hcurrent, hm⟩ := ht.seated hscope.game
  have hnone : ¬ y.place.Shows p j := by
    rw [hplace]
    exact id
  simp only [stepThread, hplace, atObjected] at hstep
  split at hstep
  next hname =>
    split at hstep
    next hclaim =>
      obtain ⟨⟨s, newCard⟩, hshow, hstep⟩ := bind_eq_ok.mp hstep
      cases hstep
      refine showClaim_slotMove hplace ?_ hshows hp hcurrent
        ((hseats _).mpr (hobjects hname).1) hshow
      simp only [Loop.sends, hplace, if_pos hname, if_pos hclaim]
    next hclaim =>
      obtain ⟨w, hreveal, hstep⟩ := bind_eq_ok.mp hstep
      cases hstep
      obtain ⟨cards, -, htable⟩ := hshows
      refine .turns ?_ ⟨False.elim, hnone⟩
      simp only [Loop.sends, hplace, if_pos hname, if_neg hclaim]
      exact htable.reveal_turns hp ((hseats _).mpr (hobjects hname).2) hreveal
  next hname =>
    split at hstep
    next hallow =>
      obtain ⟨s, hact, hstep⟩ := bind_eq_ok.mp hstep
      cases hstep
      refine .turns ?_ ⟨False.elim, hnone⟩
      simp only [Loop.sends, hplace, if_neg hname, if_pos hallow]
      exact hshows.act_turns ((hseats _).mpr hscope.game.user) hm.caller
        hm.target hp hact
    next hallow =>
      cases hstep
      refine .turns ?_ ⟨False.elim, hnone⟩
      simp only [Loop.sends, hplace, if_neg hname, if_neg hallow]
      exact .of_same rfl rfl List.not_mem_nil

/-- The card that was shown goes back to the deck; the new one is hidden. -/
theorem replaceClaim_slotMove {t : Turn} {s : State} {theCard : ℤ}
    {newCard : CardRef} {draws : List ℕ}
    (hplace : y.place = .acted t theCard newCard)
    (hclaims : y.place.Claims)
    (hshows : Shows created y.game [newCard] y.game.world.board)
    (hp : p ∈ y.game.world.players)
    (hcurrent : t.currentPlayer ∈ y.game.world.players)
    (hreplace : replaceClaim y.game t.currentPlayer theCard newCard draws =
      .ok s) :
    SlotMove y { y with game := s, place := .ending } p j := by
  have hsilent : .tellReveal p j ∉ y.sends .ending := by
    simp [Loop.sends, hplace]
  rw [hplace] at hclaims
  obtain ⟨k, hk⟩ := hclaims
  obtain ⟨⟨cards', -, htable'⟩, hevolves⟩ :=
    replaceClaim_spec hshows hcurrent hk hreplace
  have hface := htable'.face p (by rw [hevolves.table.players]; exact hp) j
  rw [Board.turn_face] at hface
  by_cases hhere : t.currentPlayer = p ∧ k = j
  · obtain ⟨rfl, rfl⟩ := hhere
    rw [if_pos ⟨rfl, rfl⟩] at hface
    refine .replace ?_ id hface hsilent
    rw [hplace]
    exact ⟨rfl, hk⟩
  · have hne : ¬ (p = t.currentPlayer ∧ j = k) := by
      rintro ⟨rfl, rfl⟩
      exact hhere ⟨rfl, rfl⟩
    rw [if_neg hne] at hface
    refine .turns (.keep hface (fun _ => ?_) hsilent) ⟨False.elim, ?_⟩
    · simp only [replaceClaim, replaceCard, hk, bind_eq_ok] at hreplace
      obtain ⟨⟨w, deck⟩, hback, hreplace⟩ := hreplace
      obtain ⟨deck', -, hback⟩ := bind_eq_ok.mp hback
      cases hback
      cases hreplace
      show (World.setRevealed _ _ _).slot p j = _
      rw [World.setRevealed_slot, World.setSlot_slot, if_neg hne]
    · rw [hplace]
      rintro ⟨hcp, hj⟩
      rw [hk] at hj
      exact hhere ⟨hcp, Option.some.inj hj⟩

/-- A step that neither moves nor turns a card. -/
theorem SlotMove.of_silent {place place' : Place} (hplace : y.place = place)
    (hplace' : y'.place = place') (hshows : ¬ place.Shows p j)
    (hshows' : ¬ place'.Shows p j)
    (hslot : y'.game.world.slot p j = y.game.world.slot p j)
    (hcard : y'.game.world.card = y.game.world.card)
    (hsilent : .tellReveal p j ∉ y.sends y'.place) : SlotMove y y' p j := by
  subst hplace hplace'
  exact .turns (.of_same hslot hcard hsilent)
    ⟨fun h => absurd h hshows', fun h => absurd h hshows⟩

theorem stepThread_slotMove (hstep : stepThread y i = .ok y')
    (hscope : Scoped F y) (hholding : Holding created y)
    (hp : p ∈ y.game.world.players) : SlotMove y y' p j := by
  by_cases hobjected : ∃ t o, y.place = .objected t o
  · obtain ⟨t, o, hplace⟩ := hobjected
    exact stepThread_objected hplace hstep hscope hholding hp
  have hwithin := hscope.place
  have hshows := hholding.shows
  have huser := (hscope.game.seats _).mpr hscope.game.user
  cases stepThread_spec hstep with
  | start hplace | quit hplace | prompt _ hplace | wake hplace
  | pick _ hplace | claim _ hplace | log _ hplace
  | seat _ _ hplace | round _ _ hplace | pass _ _ _ hplace | ask _ _ _ hplace
  | wait _ _ _ hplace | notice _ _ _ hplace | retry _ _ _ hplace
  | send _ _ _ hplace | object _ _ _ _ hplace | allow _ _ _ _ hplace
  | turn hplace =>
      exact .of_silent hplace rfl id id rfl rfl (by simp [Loop.sends, hplace])
  | skip _ hplace =>
      exact .of_silent hplace hplace id id rfl rfl
        (by simp [Loop.sends, hplace])
  | choose q m s hplace hchosen =>
      have hsilent : .tellReveal p j ∉ y.sends (.chosen ⟨q, m⟩) := by
        simp [Loop.sends, hplace]
      cases hchosen with
      | user _ _ _ hs =>
          subst hs
          exact .of_silent hplace rfl id id rfl rfl hsilent
      | ai w hname hget hs =>
          subst hs
          rw [hplace] at hwithin
          obtain ⟨-, -, ai, rfl⟩ := getPlayerMove_spec
            ((hscope.game.seats q).mpr hwithin)
            (hscope.game.ai q hwithin hname) hget
          exact .of_silent hplace rfl id id (World.setAI_slot ..) rfl hsilent
  | answer t curMove o q w hplace hname hanswer =>
      have hsilent : .tellReveal p j ∉ y.sends (.use t o q) := by
        simp [Loop.sends, hplace]
      obtain ⟨-, rfl | ⟨-, ai, rfl⟩⟩ := getChallengeOrAllow_spec hanswer
      · exact .of_silent hplace rfl id id rfl rfl hsilent
      · exact .of_silent hplace rfl id id (World.setAI_slot ..) rfl hsilent
  | judge s hplace hjudge =>
      have hsilent : .tellReveal p j ∉ y.sends .next := by
        simp [Loop.sends, hplace]
      rcases isGameOver_cases hjudge with ⟨-, player0, -, rfl⟩ | ⟨-, rfl⟩ <;>
        exact .of_silent hplace rfl id id rfl rfl hsilent
  | expose t o _ _ hplace | fail t o _ hplace | drop t o hplace =>
      exact absurd ⟨t, o, hplace⟩ hobjected
  | act t s place hplace hact =>
      obtain ⟨-, hm⟩ := (within_act hplace hwithin).1.seated hscope.game
      have hturns := hshows.act_turns huser hm.caller hm.target (j := j) hp hact
      rcases hplace with ⟨⟨o, hplace, -⟩, -⟩ | ⟨hplace, rfl⟩ |
        ⟨theCard, newCard, hplace, rfl⟩
      · exact absurd ⟨t, o, hplace⟩ hobjected
      · refine .turns ?_ ⟨False.elim, ?_⟩
        · simp only [Loop.sends, hplace]
          exact hturns
        · rw [hplace]
          exact id
      · refine .turns ?_ ?_
        · simp only [Loop.sends, hplace]
          exact hturns
        · rw [hplace]
          rfl
  | replace t theCard newCard s hplace hreplace =>
      rw [hplace] at hwithin hshows
      exact replaceClaim_slotMove hplace hholding.claims hshows hp
        (hwithin.1.seated hscope.game).1 hreplace

end SlotMove

end Coup
