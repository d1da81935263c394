import Coup.Backend.Uniform
import Coup.Game.Targets

/-!
# The chances of hands and of targets

`assign2Cards` takes one draw a card, each below the number of cards that are
left.  The draws and the hands correspond one to one, so with uniform draws
all hands are equally likely.  The target loops of `getPlayerMove` draw seats
until one is acceptable, which makes all victims equally likely.
-/

namespace Coup

open Coup.Support
open scoped ENNReal

/-! ## Dealing -/

/-- Every draw is below the number of cards that are left. -/
def Falling : ℕ → List ℕ → Prop
  | _, [] => True
  | n, draw :: draws => draw < n ∧ Falling (n - 1) draws

theorem giveACard_of_lt {cards : List CardRef} {draw : ℕ}
    (h : draw < cards.length) :
    giveACard (cards.map some) draw =
      .ok (cards[draw], (cards.eraseIdx draw).map some) := by
  have hindex : randomIndex (cards.map some).length draw = .ok draw := by
    rw [randomIndex, List.length_map, if_neg (by omega), Nat.mod_eq_of_lt h]
  rw [giveACard, hindex, bind_ok, List.getElem?_map,
    List.getElem?_eq_getElem h, Option.map_some, orFault, bind_ok, orFault,
    bind_ok, List.eraseIdx_map]
  rfl

/-- The first seat gets the first two cards that are drawn. -/
theorem assign2Cards_cons {w : World} {cards : List CardRef} {p : PlayerRef}
    {seats : List PlayerRef} {d₁ d₂ : ℕ} {draws : List ℕ}
    (h₁ : d₁ < cards.length) (h₂ : d₂ < (cards.eraseIdx d₁).length) :
    assign2Cards w (cards.map some) (p :: seats) (d₁ :: d₂ :: draws) =
      assign2Cards
        ((w.setSlot p .first cards[d₁]).setSlot p .second
          (cards.eraseIdx d₁)[d₂])
        (((cards.eraseIdx d₁).eraseIdx d₂).map some) seats draws := by
  simp only [assign2Cards, List.getD_cons_zero, List.getD_cons_succ,
    giveACard_of_lt h₁, giveACard_of_lt h₂, bind_ok]
  rfl

section Deal

variable {w w' : World} {cards hands : List CardRef} {seats : List PlayerRef}
  {p : PlayerRef}

/-- After the deal the first seat holds the cards that it was given first. -/
theorem handsOf_dealt {c₁ c₂ : CardRef} {deck deck' : CardDeck}
    {draws : List ℕ} (hnodup : (p :: seats).Nodup)
    (hdeck : deck = cards.map some)
    (h : assign2Cards ((w.setSlot p .first c₁).setSlot p .second c₂) deck seats
      draws = .ok (w', deck')) :
    w'.handsOf (p :: seats) = c₁ :: c₂ :: w'.handsOf seats := by
  obtain ⟨hp, hseats⟩ := List.nodup_cons.mp hnodup
  subst hdeck
  obtain ⟨-, -, -, -, -, -, -, hslot⟩ := assign2Cards_spec hseats h
  rw [World.handsOf_cons, hslot p hp, hslot p hp]
  simp [World.setSlot_slot]

theorem Falling.split {n : ℕ} {draws : List ℕ} (h : Falling n draws)
    (hlength : 2 ≤ draws.length) :
    ∃ d₁ d₂ more, draws = d₁ :: d₂ :: more ∧ d₁ < n ∧ d₂ < n - 1 ∧
      Falling (n - 1 - 1) more := by
  match draws, hlength with
  | d₁ :: d₂ :: more, _ => exact ⟨d₁, d₂, more, rfl, h.1, h.2.1, h.2.2⟩

/-- Falling draws deal two cards to every seat. -/
theorem deal_succeeds {draws : List ℕ} (hdraws : Falling cards.length draws)
    (hlength : draws.length = 2 * seats.length) :
    ∃ w' deck', assign2Cards w (cards.map some) seats draws =
      .ok (w', deck') := by
  induction seats generalizing w cards draws with
  | nil => exact ⟨w, _, rfl⟩
  | cons p seats ih =>
      rw [List.length_cons] at hlength
      obtain ⟨d₁, d₂, more, rfl, h₁, h₂, hmore⟩ :=
        hdraws.split (by omega)
      have h₂' : d₂ < (cards.eraseIdx d₁).length := by
        rwa [List.length_eraseIdx_of_lt h₁]
      rw [assign2Cards_cons h₁ h₂']
      apply ih
      · rwa [List.length_eraseIdx_of_lt h₂', List.length_eraseIdx_of_lt h₁]
      · simp only [List.length_cons] at hlength
        omega

/-- What is left after a card was drawn. -/
theorem left_after_draw {c : CardRef} {d : ℕ} (hcards : cards.Nodup)
    (h : d < cards.length) (hd : cards[d] = c) :
    (cards.eraseIdx d).Nodup ∧
      ∀ {c'}, c' ∈ cards → c' ≠ c → c' ∈ cards.eraseIdx d := by
  have hperm := List.getElem_cons_eraseIdx_perm h
  rw [hd] at hperm
  refine ⟨(List.nodup_cons.mp (hperm.nodup_iff.mpr hcards)).2, ?_⟩
  intro c' hc' hne
  exact (List.mem_cons.mp (hperm.symm.subset hc')).resolve_left hne

/-- Every choice of hands is dealt by exactly one sequence of draws. -/
theorem exists_unique_deal (hseats : seats.Nodup) (hcards : cards.Nodup)
    (hhands : hands.Nodup) (hsub : hands ⊆ cards)
    (hlength : hands.length = 2 * seats.length) :
    ∃! draws, draws.length = 2 * seats.length ∧ Falling cards.length draws ∧
      ∃ w' deck', assign2Cards w (cards.map some) seats draws =
        .ok (w', deck') ∧ w'.handsOf seats = hands := by
  induction seats generalizing w cards hands with
  | nil =>
      obtain rfl : hands = [] := List.length_eq_zero_iff.mp hlength
      refine ⟨[], ⟨rfl, trivial, w, _, rfl, rfl⟩, ?_⟩
      rintro draws ⟨hdraws, -⟩
      exact List.length_eq_zero_iff.mp hdraws
  | cons p seats ih =>
      rw [List.length_cons] at hlength
      obtain ⟨c₁, c₂, rest, rfl⟩ : ∃ c₁ c₂ rest, hands = c₁ :: c₂ :: rest := by
        match hands, hlength with
        | c₁ :: c₂ :: rest, _ => exact ⟨c₁, c₂, rest, rfl⟩
      obtain ⟨hc₁, hhands'⟩ := List.nodup_cons.mp hhands
      obtain ⟨hc₂, hrest⟩ := List.nodup_cons.mp hhands'
      rw [List.mem_cons, not_or] at hc₁
      obtain ⟨d₁, h₁, hd₁⟩ := List.getElem_of_mem (hsub List.mem_cons_self)
      obtain ⟨hleft₁, hmem₁⟩ := left_after_draw hcards h₁ hd₁
      obtain ⟨d₂, h₂, hd₂⟩ := List.getElem_of_mem
        (hmem₁ (hsub (by simp)) (Ne.symm hc₁.1))
      obtain ⟨hleft₂, hmem₂⟩ := left_after_draw hleft₁ h₂ hd₂
      have hsub' : rest ⊆ (cards.eraseIdx d₁).eraseIdx d₂ := by
        intro c hc
        apply hmem₂ (hmem₁ (hsub (by simp [hc])) ?_)
        · rintro rfl
          exact hc₂ hc
        · rintro rfl
          exact hc₁.2 hc
      have hfewer : ((cards.eraseIdx d₁).eraseIdx d₂).length =
          cards.length - 1 - 1 := by
        rw [List.length_eraseIdx_of_lt h₂, List.length_eraseIdx_of_lt h₁]
      obtain ⟨more, ⟨hmore, hfalling, w', deck', hdeal, hheld⟩, hunique⟩ :=
        ih (w := (w.setSlot p .first c₁).setSlot p .second c₂)
          (List.nodup_cons.mp hseats).2 hleft₂ hrest hsub'
          (by simp only [List.length_cons] at hlength; omega)
      rw [hfewer] at hfalling
      refine ⟨d₁ :: d₂ :: more, ⟨?_, ⟨h₁, ?_, hfalling⟩, w', deck', ?_, ?_⟩, ?_⟩
      · simp only [List.length_cons, hmore]
        omega
      · rwa [List.length_eraseIdx_of_lt h₁] at h₂
      · rw [assign2Cards_cons h₁ h₂, hd₁, hd₂]
        exact hdeal
      · rw [handsOf_dealt hseats rfl hdeal, hheld]
      · rintro draws ⟨hcount, hdraws, w'', deck'', hdeal', hheld'⟩
        rw [List.length_cons] at hcount
        obtain ⟨e₁, e₂, more', rfl, he₁, he₂, hmore'⟩ :=
          hdraws.split (by omega)
        rw [← List.length_eraseIdx_of_lt he₁] at he₂
        rw [assign2Cards_cons he₁ he₂] at hdeal'
        rw [handsOf_dealt hseats rfl hdeal', List.cons.injEq,
          List.cons.injEq] at hheld'
        obtain ⟨hfirst, hsecond, hheld'⟩ := hheld'
        obtain rfl : e₁ = d₁ :=
          hcards.getElem_inj_iff.mp (hfirst.trans hd₁.symm)
        obtain rfl : e₂ = d₂ :=
          hleft₁.getElem_inj_iff.mp (hsecond.trans hd₂.symm)
        rw [hfirst, hsecond] at hdeal'
        rw [hunique more' ⟨?_, hfewer ▸ hmore', w'', deck'', hdeal', hheld'⟩]
        simp only [List.length_cons] at hcount
        omega

end Deal

/-- A deal to some seats out of a deck of distinct cards: every sequence of
draws below the numbers of cards that are left deals some hands, and all hands
are dealt by exactly one of them. -/
theorem deal_exact {w : World} {cards : List CardRef} {seats : List PlayerRef}
    (hseats : seats.Nodup) (hcards : cards.Nodup) :
    (∀ draws, draws.length = 2 * seats.length → Falling cards.length draws →
      ∃ w' deck', assign2Cards w (cards.map some) seats draws =
          .ok (w', deck') ∧ (w'.handsOf seats).Nodup ∧
        w'.handsOf seats ⊆ cards) ∧
    ∀ hands : List CardRef, hands.length = 2 * seats.length → hands.Nodup →
      hands ⊆ cards →
      ∃! draws, draws.length = 2 * seats.length ∧
        Falling cards.length draws ∧ ∃ w' deck',
          assign2Cards w (cards.map some) seats draws = .ok (w', deck') ∧
            w'.handsOf seats = hands := by
  constructor
  · intro draws hlength hdraws
    obtain ⟨w', deck', hdeal⟩ := deal_succeeds (w := w) hdraws hlength
    obtain ⟨cards', -, hperm, -⟩ := assign2Cards_spec hseats hdeal
    have hnodup := hperm.nodup_iff.mpr hcards
    exact ⟨w', deck', hdeal, (List.nodup_append.mp hnodup).2.1,
      fun c hc => hperm.subset (List.mem_append_right _ hc)⟩
  · intro hands hlength hnodup hsub
    exact exists_unique_deal hseats hcards hnodup hsub hlength

/-- The hands of two players out of five cards. -/
theorem deal_exact_two :
    ∃! draws, draws.length = 4 ∧ Falling 5 draws ∧ ∃ w' deck',
      assign2Cards (lobbyOf "user" ["Charlie Puth"] [])
          ([6, 7, 8, 9, 10].map some) [0, 1] draws = .ok (w', deck') ∧
        w'.handsOf [0, 1] = [10, 6, 8, 7] :=
  (@deal_exact (lobbyOf "user" ["Charlie Puth"] []) [6, 7, 8, 9, 10] [0, 1]
    (by decide) (by decide)).2 [10, 6, 8, 7] rfl (by decide) (by decide)

/-! ## Choosing a target -/

/-- The player on whom a draw ends a target loop. -/
def seatHit (w : World) (self : PlayerRef) (accept : PlayerRef → Bool)
    (draw : ℕ) : Option PlayerRef :=
  (w.players[draw % w.players.length]?).filter fun q =>
    decide ((w.player q).name ≠ (w.player self).name) && accept q

theorem findTarget_eq_value {w : World} (h : w.players ≠ [])
    (self : PlayerRef) (accept : PlayerRef → Bool) :
    findTarget w self accept =
      value (retry .spinning (seatHit w self accept)) := by
  funext draws
  induction draws with
  | nil => rfl
  | cons draw draws ih =>
      have hpos := List.length_pos_iff.mpr h
      have hlt := Nat.mod_lt draw hpos
      rw [findTarget, findTarget.randomSeat, if_neg hpos.ne', bind_ok,
        List.getElem?_eq_getElem hlt, orFault, bind_ok, ih, value, value,
        retry, seatHit, List.getElem?_eq_getElem hlt]
      by_cases hself : (w.player w.players[draw % w.players.length]).name =
          (w.player self).name
      · simp [hself, Option.filter]
      · by_cases haccept : accept w.players[draw % w.players.length] = true
        · simp [hself, haccept, Option.filter]
          rfl
        · simp [hself, haccept, Option.filter]

/-- The players whom an AI can aim a move at. -/
def victims (w : World) (self : PlayerRef) (name : MoveName) :
    List PlayerRef :=
  w.players.filter fun q =>
    decide ((w.player q).name ≠ (w.player self).name) && targetTest w name q

section Law

variable {w : World} {self q : PlayerRef} {name : MoveName}

theorem mem_victims : q ∈ victims w self name ↔ Victim w self name q := by
  rw [victims, List.mem_filter, Bool.and_eq_true, decide_eq_true_eq,
    targetTest_iff]
  constructor
  · rintro ⟨hseated, hother, hactive, hpays⟩
    exact ⟨hseated, hother, hactive, hpays⟩
  · intro h
    exact ⟨h.seated, h.other, h.active, h.pays⟩

theorem chooseTarget_eq_map (haimed : name.aimed = true) :
    chooseTarget w self name = fun seats =>
      (findTarget w self (targetTest w name) seats).map
        (Move.mk name self) := by
  funext seats
  rw [chooseTarget_of_aimed haimed]
  cases findTarget w self (targetTest w name) seats <;> rfl

/-- The draws that end the loop are the seats of the victims. -/
theorem favourable_seatHit :
    favourable w.players.length (fun d =>
        (seatHit w self (targetTest w name) d).isSome) =
      (victims w self name).length := by
  rw [victims, ← List.countP_eq_length_filter, ← favourable_any]
  apply congrArg Finset.card
  apply Finset.filter_congr
  intro d hd
  have hlt := Finset.mem_range.mp hd
  rw [seatHit, Nat.mod_eq_of_lt hlt, List.getElem?_eq_getElem hlt,
    Option.isSome_filter]

theorem favourable_seatHit_eq (hnodup : w.players.Nodup)
    (hq : q ∈ victims w self name) :
    favourable w.players.length (fun d =>
      seatHit w self (targetTest w name) d = some q) = 1 := by
  obtain ⟨hmem, htest⟩ := List.mem_filter.mp hq
  rw [favourable, Finset.card_eq_one]
  refine ⟨w.players.idxOf q, Finset.ext fun d => ?_⟩
  rw [Finset.mem_filter, Finset.mem_range, Finset.mem_singleton]
  constructor
  · rintro ⟨hlt, hseat⟩
    rw [seatHit, Nat.mod_eq_of_lt hlt, Option.filter_eq_some_iff] at hseat
    obtain ⟨-, rfl⟩ := List.getElem?_eq_some_iff.mp hseat.1
    exact (hnodup.idxOf_getElem d hlt).symm
  · rintro rfl
    have hlt := List.idxOf_lt_length_iff.mpr hmem
    refine ⟨hlt, ?_⟩
    rw [seatHit, Nat.mod_eq_of_lt hlt, Option.filter_eq_some_iff,
      List.getElem?_eq_getElem hlt, List.getElem_idxOf]
    exact ⟨rfl, htest⟩

/-- An AI aims at each player whom it can aim at with the same probability,
and finds one with probability one if there is any. -/
theorem target_uniform (self : PlayerRef) (hnodup : w.players.Nodup)
    (haimed : name.aimed = true) :
    (∀ q, law (uniform w.players.length) (chooseTarget w self name)
        ⟨name, self, q⟩ =
      if q ∈ victims w self name then
        ((victims w self name).length : ℝ≥0∞)⁻¹ else 0) ∧
    (victims w self name ≠ [] →
      (tsum fun q => law (uniform w.players.length)
        (chooseTarget w self name) ⟨name, self, q⟩) = 1) := by
  have hinj : Function.Injective (Move.mk name self) := by
    intro q q' h
    cases h
    rfl
  have hlaw (q : PlayerRef) : law (uniform w.players.length)
      (chooseTarget w self name) ⟨name, self, q⟩ =
        if q ∈ victims w self name then
          ((victims w self name).length : ℝ≥0∞)⁻¹ else 0 := by
    rw [chooseTarget_eq_map haimed, law_map _ _ hinj]
    split
    next hq =>
      have hplayers : w.players ≠ [] :=
        List.ne_nil_of_mem (mem_victims.mp hq).seated
      rw [findTarget_eq_value hplayers, law_retry_uniform, favourable_seatHit,
        favourable_seatHit_eq hnodup hq, Nat.cast_one, one_div]
    next hq =>
      refine law_eq_zero fun draws h => hq ?_
      obtain ⟨hseated, hother, haccept⟩ := findTarget_spec h
      obtain ⟨hactive, hpays⟩ := targetTest_iff.mp haccept
      exact mem_victims.mpr ⟨hseated, hother, hactive, hpays⟩
  refine ⟨hlaw, fun hne => ?_⟩
  rw [tsum_congr hlaw]
  exact tsum_share (hnodup.filter _) hne

/-- With two opponents an assassin aims at either with the probability one
half. -/
theorem target_uniform_two :
    law (uniform 3)
        (chooseTarget (lobbyOf "user" ["Charlie Puth", "Ed Sheeran"] []) 1
          .assassinate) ⟨.assassinate, 1, 0⟩ = ((2 : ℕ) : ℝ≥0∞)⁻¹ := by
  have hlaw := (target_uniform
    (w := lobbyOf "user" ["Charlie Puth", "Ed Sheeran"] []) 1 (by decide)
    (show MoveName.aimed .assassinate = true from rfl)).1 0
  rwa [if_pos (by decide)] at hlaw

end Law

end Coup
