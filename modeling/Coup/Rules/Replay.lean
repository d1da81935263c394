import Coup.Rules.Turn
import Mathlib.Algebra.BigOperators.Ring.Finset
import Mathlib.Algebra.Order.BigOperators.Group.Finset

/-!
# Replaying a game

What everybody can see of a game is a list of rulings: who made which move, at
whom it was aimed, and how the turn ended.  Replaying the rulings gives the
board.  The players are of an arbitrary type, and the lemmas are about lists of
rulings: what they add up to in coins, and how many influences they cost.
-/

namespace Coup

/-- How a turn ends. -/
inductive Ending (P : Type*)
  /-- Nobody objected, or the move cannot be challenged. -/
  | allowed
  /-- The caller answered a challenge with the card in a position. -/
  | won (challenger : P) (i : Slot)
  /-- The caller could not answer a challenge. -/
  | caught (challenger : P)
  /-- The turn ended without an effect. -/
  | dropped
  deriving DecidableEq, Repr

structure Ruling (P : Type*) where
  name : MoveName
  caller : P
  target : P
  ending : Ending P
  deriving DecidableEq, Repr

namespace Ruling

variable {P : Type*} (r : Ruling P)

/-- The move of the turn takes place. -/
def effective : Bool :=
  match r.ending with
  | .allowed => true
  | .won _ _ => true
  | .caught _ => false
  | .dropped => false

def challenger : Option P :=
  match r.ending with
  | .allowed => none
  | .won c _ => some c
  | .caught c => some c
  | .dropped => none

/-- The player who is due to lose an influence: whoever loses the challenge,
or else the target of a coup or an assassination. -/
def loser : Option P :=
  match r.ending with
  | .allowed => if r.name.hits then some r.target else none
  | .won c _ => some c
  | .caught _ => some r.caller
  | .dropped => none

/-- What the turn does to the coins of a player. -/
def coins [DecidableEq P] (q : P) : ℤ :=
  if r.effective then coinEffect r.name r.caller r.target q else 0

/-- What the bank pays out in the turn, or takes if it is negative. -/
def minted : ℤ :=
  if r.effective then
    match r.name with
    | .income => 1
    | .foreignAid => 2
    | .tax => 3
    | .assassinate => -3
    | .coup => -7
    | _ => 0
  else 0

/-- Everybody a ruling names sits at the table. -/
structure SeatedAt (r : Ruling P) (seats : Finset P) : Prop where
  caller : r.caller ∈ seats
  target : r.target ∈ seats
  challenger : ∀ c ∈ r.challenger, c ∈ seats

theorem SeatedAt.loser {r : Ruling P} {seats : Finset P}
    (h : r.SeatedAt seats) : ∀ q ∈ r.loser, q ∈ seats := by
  intro q hq
  have hchallenger := h.challenger
  unfold Ruling.challenger at hchallenger
  unfold Ruling.loser at hq
  split at hq
  next =>
    split at hq
    next => exact Option.some.inj hq ▸ h.target
    next => cases hq
  next c _ hending =>
    rw [hending] at hchallenger
    exact hchallenger q hq
  next => exact Option.some.inj hq ▸ h.caller
  next => cases hq

end Ruling

namespace Board

variable {P : Type*} [DecidableEq P]

/-- Every player has two hidden cards and two coins. -/
def opening : Board P := ⟨fun _ _ => false, fun _ => 2⟩

/-- The board after a turn. -/
def settle (b : Board P) (r : Ruling P) : Board P :=
  match r.ending with
  | .allowed => b.act r.name r.caller r.target
  | .won c i => b.winChallenge r.caller c i r.name r.caller r.target
  | .caught _ => b.lose r.caller
  | .dropped => b

/-- The board after a list of turns. -/
def replay (b : Board P) (rs : List (Ruling P)) : Board P :=
  rs.foldl settle b

/-- A challenge was answered with a card that had already been lost. -/
def stale (b : Board P) (r : Ruling P) : Bool :=
  match r.ending with
  | .won _ i => b.face r.caller i
  | _ => false

/-- The turns of a replay that answer a challenge with a lost card. -/
def countStale (b : Board P) : List (Ruling P) → ℕ
  | [] => 0
  | r :: rs => (if b.stale r then 1 else 0) + (b.settle r).countStale rs

/-- A turn that the rules know: the caller and the challenger are in the game,
nobody challenges himself, and a hit is aimed at somebody else who is in the
game. -/
structure Fair (b : Board P) (r : Ruling P) : Prop where
  caller : ¬ b.Out r.caller
  challenger : ∀ c ∈ r.challenger, c ≠ r.caller ∧ ¬ b.Out c
  target : r.name.hits = true → r.target ≠ r.caller ∧ ¬ b.Out r.target

/-- Every turn of a replay is one that the rules know. -/
def FairPlay (b : Board P) : List (Ruling P) → Prop
  | [] => True
  | r :: rs => b.Fair r ∧ (b.settle r).FairPlay rs

/-! ## Replays -/

variable (b : Board P) (r : Ruling P) (rs : List (Ruling P)) {q : P}

@[simp] theorem replay_nil : b.replay [] = b := rfl

@[simp] theorem replay_cons :
    b.replay (r :: rs) = (b.settle r).replay rs := rfl

theorem replay_concat : b.replay (rs ++ [r]) = (b.replay rs).settle r := by
  simp [replay]

theorem fairPlay_concat :
    b.FairPlay (rs ++ [r]) ↔ b.FairPlay rs ∧ (b.replay rs).Fair r := by
  induction rs generalizing b with
  | nil => simp [FairPlay]
  | cons r' rs ih =>
      rw [List.cons_append, FairPlay, ih, FairPlay, replay_cons, and_assoc]

/-! ## What a turn does to one player -/

section Congr

variable {b b' : Board P} (p : P)

theorem turn_congr (i : Slot) (up : Bool) (h : b'.face q = b.face q) :
    (b'.turn p i up).face q = (b.turn p i up).face q := by
  funext j
  simp [congrFun h j]

theorem lose_congr (h : b'.face q = b.face q) :
    (b'.lose p).face q = (b.lose p).face q := by
  by_cases hq : q = p
  · subst hq
    have hhidden : b'.firstHidden q = b.firstHidden q := by
      simp [firstHidden, h]
    unfold lose
    rw [hhidden]
    split
    next i _ => exact turn_congr q i true h
    next => exact h
  · funext j
    rw [lose_face_of_ne b' j hq, lose_face_of_ne b j hq, h]

theorem act_congr (name : MoveName) (target : P) (h : b'.face q = b.face q) :
    (b'.act name p target).face q = (b.act name p target).face q := by
  cases hhits : name.hits with
  | false =>
      rw [act_face_of_not_hits b' hhits, act_face_of_not_hits b hhits, h]
  | true =>
      rw [act_face_of_hits b' hhits, act_face_of_hits b hhits]
      exact lose_congr target h

/-- What a turn does to a player depends on this player alone. -/
theorem settle_face_congr (r : Ruling P) (h : b'.face q = b.face q) :
    (b'.settle r).face q = (b.settle r).face q := by
  unfold settle
  split
  next => exact act_congr r.caller r.name r.target h
  next c i _ =>
    apply turn_congr
    apply act_congr
    apply turn_congr
    exact lose_congr c h
  next => exact lose_congr r.caller h
  next => exact h

end Congr

/-! ## Coins -/

/-- A turn changes the coins by the effect of its move, if that takes place. -/
theorem settle_coins : (b.settle r).coins q = b.coins q + r.coins q := by
  unfold settle Ruling.coins Ruling.effective
  split
  next => exact act_coins b
  next => exact winChallenge_coins b
  next => simp
  next => simp

/-- The coins of a player are the sum of all effects. -/
theorem replay_coins : (b.replay rs).coins q =
    b.coins q + (rs.map fun r => r.coins q).sum := by
  induction rs generalizing b with
  | nil => simp
  | cons r rs ih =>
      rw [replay_cons, ih, settle_coins, List.map_cons, List.sum_cons,
        add_assoc]

/-- The effects of a turn on all players add up to what the bank pays. -/
theorem sum_coins {r : Ruling P} {seats : Finset P} (h : r.SeatedAt seats) :
    ∑ q ∈ seats, r.coins q = r.minted := by
  obtain ⟨name, caller, target, ending⟩ := r
  have hcaller := h.caller
  have htarget := h.target
  simp only at hcaller htarget
  simp only [Ruling.coins, Ruling.minted]
  split
  next =>
    cases name <;>
      simp [coinEffect, Finset.sum_sub_distrib, hcaller, htarget]
  next => simp

/-- All coins together change only by what the bank pays and takes. -/
theorem sum_replay_coins {rs : List (Ruling P)} {seats : Finset P}
    (h : ∀ r ∈ rs, r.SeatedAt seats) :
    ∑ q ∈ seats, (b.replay rs).coins q =
      ∑ q ∈ seats, b.coins q + (rs.map Ruling.minted).sum := by
  induction rs generalizing b with
  | nil => simp
  | cons r rs ih =>
      have hfirst : ∑ q ∈ seats, (b.settle r).coins q =
          ∑ q ∈ seats, b.coins q + r.minted := by
        rw [← sum_coins (h r List.mem_cons_self), ← Finset.sum_add_distrib]
        exact Finset.sum_congr rfl fun q _ => settle_coins b r
      rw [replay_cons, ih _ fun r' hr' => h r' (List.mem_cons_of_mem _ hr'),
        hfirst, List.map_cons, List.sum_cons, add_assoc]

/-! ## Influences -/

section Influence

variable {b : Board P} {r : Ruling P}

omit [DecidableEq P] in
theorem influence_pos {p : P} (h : ¬ b.Out p) : 0 < b.influence p :=
  Nat.pos_of_ne_zero h

/-- Nobody gains an influence but a caller who answers a challenge with a lost
card, and whoever is due to lose one does. -/
theorem Fair.influence_le (h : b.Fair r) (q : P) :
    (b.settle r).influence q + (if some q = r.loser then 1 else 0) ≤
      b.influence q + if q = r.caller ∧ b.stale r = true then 1 else 0 := by
  obtain ⟨name, caller, target, ending⟩ := r
  have htarget := h.target
  have hchallenger := h.challenger
  have hcaller := influence_pos h.caller
  simp only at htarget hcaller
  cases ending with
  | allowed =>
      simp only [settle, Ruling.loser, stale, act_influence]
      cases hhits : name.hits with
      | false => simp
      | true =>
          have hpos := influence_pos (htarget hhits).2
          by_cases hq : q = target
          · subst hq
            simp
            omega
          · simp [hq]
  | won c i =>
      obtain ⟨hne, hin⟩ := hchallenger c rfl
      have hpos := influence_pos hin
      simp only [settle, Ruling.loser, stale]
      by_cases hq : q = caller
      · subst hq
        change c ≠ q at hne
        rw [winChallenge_influence_self b hne fun hhits => (htarget hhits).1]
        simp [hne.symm]
      · rw [winChallenge_influence_of_ne b hq]
        by_cases hc : q = c
        · subst hc
          simp [hq]
          omega
        · simp [hq, hc]
  | caught c =>
      simp only [settle, Ruling.loser, stale, influence_lose]
      by_cases hq : q = caller
      · subst hq
        simp
        omega
      · simp [hq]
  | dropped => simp [settle, Ruling.loser, stale]

omit [DecidableEq P] in
/-- Whether the rules know a turn is seen from the hands at the table. -/
theorem Fair.congr {b' : Board P} {seats : Finset P} (h : b.Fair r)
    (hseated : r.SeatedAt seats)
    (hface : ∀ q ∈ seats, b'.face q = b.face q) : b'.Fair r := by
  have hout {q : P} (hq : q ∈ seats) (hin : ¬ b.Out q) : ¬ b'.Out q := by
    rw [Out, influence_congr q (congrFun (hface q hq))]
    exact hin
  constructor
  · exact hout hseated.caller h.caller
  · intro c hc
    exact ⟨(h.challenger c hc).1,
      hout (hseated.challenger c hc) (h.challenger c hc).2⟩
  · intro hhits
    exact ⟨(h.target hhits).1, hout hseated.target (h.target hhits).2⟩

/-- Who is out stays out. -/
theorem Fair.out (h : b.Fair r) {q : P} (hout : b.Out q) :
    (b.settle r).Out q := by
  have hle := h.influence_le q
  have hne : q ≠ r.caller := by
    rintro rfl
    exact h.caller hout
  have hzero : b.influence q = 0 := hout
  have hkeep : ¬ (q = r.caller ∧ b.stale r = true) := fun hq => hne hq.1
  rw [if_neg hkeep, hzero] at hle
  exact Nat.eq_zero_of_le_zero (by omega)

/-- The influences of some players. -/
def totalInfluence (b : Board P) (seats : Finset P) : ℕ :=
  ∑ q ∈ seats, b.influence q

/-- A turn that costs somebody an influence lowers the sum, unless a lost card
comes back. -/
theorem Fair.totalInfluence_le (h : b.Fair r) {seats : Finset P}
    (hseated : r.SeatedAt seats) :
    (b.settle r).totalInfluence seats + (if r.loser.isSome then 1 else 0) ≤
      b.totalInfluence seats + if b.stale r then 1 else 0 := by
  have hsum := Finset.sum_le_sum fun q (_ : q ∈ seats) => h.influence_le q
  rw [Finset.sum_add_distrib, Finset.sum_add_distrib] at hsum
  have hlost : ∑ q ∈ seats, (if some q = r.loser then 1 else 0) =
      if r.loser.isSome then 1 else 0 := by
    cases hr : r.loser with
    | none => simp
    | some p => simp [hseated.loser p hr]
  have hback : ∑ q ∈ seats,
      (if q = r.caller ∧ b.stale r = true then 1 else 0) ≤
        if b.stale r then 1 else 0 := by
    cases b.stale r with
    | false => simp
    | true =>
        simp only [and_true, Finset.sum_ite_eq']
        split <;> simp
  unfold totalInfluence
  omega

/-- The turns that cost somebody an influence. -/
def fights (rs : List (Ruling P)) : ℕ :=
  rs.countP fun r => r.loser.isSome

/-- Every fight of a replay is paid for with an influence, and the influences
are those of the beginning and the ones that came back. -/
theorem FairPlay.fights_le {rs : List (Ruling P)} (h : b.FairPlay rs)
    {seats : Finset P} (hseated : ∀ r ∈ rs, r.SeatedAt seats) :
    (b.replay rs).totalInfluence seats + fights rs ≤
      b.totalInfluence seats + b.countStale rs := by
  induction rs generalizing b with
  | nil => simp [fights, countStale]
  | cons r rs ih =>
      have hfirst := h.1.totalInfluence_le (hseated r List.mem_cons_self)
      have hrest := ih h.2 fun r' hr' =>
        hseated r' (List.mem_cons_of_mem _ hr')
      simp only [fights, List.countP_cons, replay_cons, countStale] at hrest ⊢
      omega

end Influence

end Board

end Coup
