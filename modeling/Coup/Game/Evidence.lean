import Coup.Backend.Deck
import Coup.Backend.Rates
import Coup.Game.Lobby
import Mathlib.Tactic.NormNum

/-!
# The evidence against a claim

An AI that is asked about a move counts the copies of the claimed role that it
can see: its own and those that others have turned up.  `tierRate` is what the
three thresholds of `adjustChallengeRate` are written for.  They test all four
counters with "or", and the counters of the other moves are always zero, so the
first test always succeeds.
-/

namespace Coup

open Coup.Support

/-- The copies that an AI counts; an AI without one does not count. -/
def visibleCopies (m : MoveName) (self : Seat) (players : List Seat) : ℕ :=
  if self.copies m = 0 then 0
  else self.copies m + shownByOthers m self players

/-- The rate for a number of visible copies. -/
def tierRate (k : ℕ) : ℚ :=
  if k ≤ 1 then 30 / 100 else if k = 2 then 45 / 100 else 1

theorem foldl_countShown (m : MoveName) (self : Seat) (count : ℕ)
    (players : List Seat) :
    players.foldl (countShown m self) count =
      count + shownByOthers m self players := by
  induction players generalizing count with
  | nil => rfl
  | cons player players ih =>
      rw [List.foldl_cons, ih]
      by_cases hname : player.name = self.name
      · simp [countShown, shownByOthers, hname]
      · have hstep : countShown m self count player =
            count + player.shownCopies m := by
          simp only [countShown, hname, if_false, Seat.shownCopies]
          split <;> split <;> omega
        rw [hstep]
        simp [shownByOthers, hname, Nat.add_assoc]

theorem copiesSeen_self (m : MoveName) (self : Seat) (players : List Seat) :
    copiesSeen m m self players = visibleCopies m self players := by
  simp only [copiesSeen, if_true, foldl_countShown, visibleCopies, Seat.copies]
  by_cases h1 : self.card1.can m = true <;>
    by_cases h2 : self.card2.can m = true <;> simp [h1, h2]

/-- The counters of the other moves stay zero. -/
theorem copiesSeen_of_ne {m last : MoveName} (h : last ≠ m) (self : Seat)
    (players : List Seat) : copiesSeen m last self players = 0 := by
  rw [copiesSeen, if_neg h]

/-- The first threshold always applies. -/
theorem adjustChallengeRate_eq (self : Seat) (players : List Seat)
    (last : MoveName) (challengeRate : ℚ) :
    adjustChallengeRate self players last challengeRate = 30 / 100 := by
  have hidle : copiesSeen .assassinate last self players ≤ 1 ∨
      copiesSeen .exchange last self players ≤ 1 := by
    by_cases h : last = .assassinate
    · exact Or.inr (by rw [copiesSeen_of_ne (by simp [h])]; omega)
    · exact Or.inl (by rw [copiesSeen_of_ne h]; omega)
  have hfirst : copiesSeen .assassinate last self players ≤ 1 ∨
      copiesSeen .exchange last self players ≤ 1 ∨
      copiesSeen .tax last self players ≤ 1 ∨
      copiesSeen .steal last self players ≤ 1 :=
    hidle.imp_right Or.inl
  rw [adjustChallengeRate, if_pos hfirst]

/-- The moves whose claims are counted. -/
def counted : List MoveName := [.assassinate, .exchange, .tax, .steal]

/-- Together the four counters hold the visible copies of the claimed role. -/
theorem sum_copiesSeen {last : MoveName} (h : last ∈ counted) (self : Seat)
    (players : List Seat) :
    (counted.map fun m => copiesSeen m last self players).sum =
      visibleCopies last self players := by
  simp only [counted, List.mem_cons, List.not_mem_nil, or_false] at h
  simp only [counted, List.map_cons, List.map_nil, List.sum_cons, List.sum_nil]
  rcases h with rfl | rfl | rfl | rfl <;>
    simp [copiesSeen_self, copiesSeen_of_ne]

/-- Whatever is drawn, the AI answers, its rate is the one for the visible
copies, and a claim that must be a bluff is challenged. -/
def FollowsEvidence (w : World) (self : PlayerRef) (last : MoveName) : Prop :=
  ∀ target rand, ∃ answer w' ai,
    getChallengeOrAllow w self target rand = .ok (answer, w') ∧
    (w'.player self).ai = some ai ∧
    ai.challengeRate = tierRate (visibleCopies last (w.seat self) w.table) ∧
    (3 ≤ visibleCopies last (w.seat self) w.table → answer.name = .challenge)

/-- What an AI answers. -/
theorem getChallengeOrAllow_eq {w : World} {self target : PlayerRef} {ai : AI}
    {last : Move} (rand : UnitDraw) (hai : (w.player self).ai = some ai)
    (hlog : w.moveLog.getLast? = some last) :
    getChallengeOrAllow w self target rand =
      .ok (⟨if rand.value ≤ 30 / 100 then .challenge else .allow, self, target⟩,
        w.setAI self { ai with challengeRate := 30 / 100 }) := by
  simp only [getChallengeOrAllow, hai, hlog, orFault, bind_ok,
    adjustChallengeRate_eq]
  rfl

theorem tierRate_eq_iff (k : ℕ) : (30 / 100 : ℚ) = tierRate k ↔ k ≤ 1 := by
  unfold tierRate
  split
  next h => simp [h]
  next h =>
    refine iff_of_false ?_ h
    split <;> norm_num

/-- The rate follows the evidence exactly as long as there is next to none. -/
theorem follows_evidence_iff {w : World} {self : PlayerRef} {ai : AI}
    {last : Move} (hai : (w.player self).ai = some ai)
    (hlog : w.moveLog.getLast? = some last) (hlast : last.name ∈ counted) :
    (counted.map fun m =>
        copiesSeen m last.name (w.seat self) w.table).sum =
      visibleCopies last.name (w.seat self) w.table ∧
    (FollowsEvidence w self last.name ↔
      visibleCopies last.name (w.seat self) w.table ≤ 1) := by
  refine ⟨sum_copiesSeen hlast _ _, ?_⟩
  constructor
  · intro h
    obtain ⟨answer, w', ai', hanswer, hai', hrate, -⟩ := h self .least
    rw [getChallengeOrAllow_eq .least hai hlog] at hanswer
    cases hanswer
    rw [World.setAI_ai, if_pos rfl] at hai'
    cases hai'
    exact (tierRate_eq_iff _).mp hrate
  · intro h target rand
    refine ⟨_, _, { ai with challengeRate := 30 / 100 },
      getChallengeOrAllow_eq rand hai hlog, ?_, (tierRate_eq_iff _).mpr h,
      fun hbluff => by omega⟩
    rw [World.setAI_ai, if_pos rfl]

/-- The user, who has turned up a Duke, claims tax, and Charlie Puth holds the
given cards. -/
def claimsTax (first second : CardRef) : World :=
  let w := (lobbyOf "user" ["Charlie Puth"] [⟨.tax, 0, 0⟩]).createCards 0
  ((((w.setSlot 0 .first 14).setSlot 0 .second 0).setSlot 1 .first
    first).setSlot 1 .second second).setRevealed 14 true

/-- An AI without a Duke does not count the one it sees. -/
theorem follows_evidence_iff_claimsTax :
    FollowsEvidence (claimsTax 6 9) 1 .tax :=
  have hai : ((claimsTax 6 9).player 1).ai = some .init := rfl
  have hlog : (claimsTax 6 9).moveLog.getLast? = some ⟨.tax, 0, 0⟩ := rfl
  (follows_evidence_iff hai hlog (by decide)).2.mpr (by decide)

/-- An AI that holds the other two Dukes sees all three, and still allows the
bluff at the greatest draw. -/
theorem bluff_allowed :
    visibleCopies .tax ((claimsTax 12 13).seat 1) (claimsTax 12 13).table = 3 ∧
      ¬ FollowsEvidence (claimsTax 12 13) 1 .tax ∧
      ∃ w', getChallengeOrAllow (claimsTax 12 13) 1 0 .greatest =
        .ok (⟨.allow, 1, 0⟩, w') := by
  have hanswer : getChallengeOrAllow (claimsTax 12 13) 1 0 .greatest =
      .ok (⟨if (UnitDraw.greatest).value ≤ 30 / 100 then .challenge else .allow,
        1, 0⟩, (claimsTax 12 13).setAI 1
          { AI.init with challengeRate := 30 / 100 }) :=
    getChallengeOrAllow_eq .greatest rfl rfl
  rw [if_neg (by decide +kernel)] at hanswer
  have hcopies : visibleCopies .tax ((claimsTax 12 13).seat 1)
      (claimsTax 12 13).table = 3 := by decide
  refine ⟨hcopies, fun h => ?_, _, hanswer⟩
  obtain ⟨answer, w', ai, hget, -, -, hbluff⟩ := h 0 .greatest
  rw [hanswer] at hget
  cases hget
  cases hbluff hcopies.ge

end Coup
