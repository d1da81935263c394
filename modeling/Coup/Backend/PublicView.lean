import Coup.Backend.AI

/-!
# The AI reads only what is public

Two heaps agree for an AI when they differ at most in the roles of cards that
other players hold face down, and in the deck.  Every read of another player's
card is guarded by its `revealed` flag, so the rates, the move and the answer
of the AI are the same in both.
-/

namespace Coup

open Coup.Support

/-- What an AI may know: its own cards and rates, and for every player the
name, the coins, which cards are revealed, and the roles of these. -/
structure SameView (me : PlayerRef) (w w' : World) : Prop where
  players : w'.players = w.players
  moveLog : w'.moveLog = w.moveLog
  ai : (w'.player me).ai = (w.player me).ai
  own : ∀ i, w'.held me i = w.held me i
  name : ∀ p ∈ w.players, (w'.player p).name = (w.player p).name
  coins : ∀ p ∈ w.players, (w'.player p).coins = (w.player p).coins
  revealed : ∀ p ∈ w.players, ∀ i,
    (w'.held p i).revealed = (w.held p i).revealed
  role : ∀ p ∈ w.players, ∀ i, (w.held p i).revealed = true →
    (w'.held p i).role = (w.held p i).role

namespace SameView

variable {me p : PlayerRef} {w w' : World}

theorem seat_self (h : SameView me w w') (hself : me ∈ w.players) :
    w'.seat me = w.seat me := by
  simp only [World.seat, h.name me hself, h.own, h.coins me hself]

/-- A guarded read: the ability of a card counts only once it is revealed. -/
theorem shown (h : SameView me w w') (hp : p ∈ w.players) (i : Slot)
    (m : MoveName) :
    ((w'.held p i).revealed && (w'.held p i).can m) =
      ((w.held p i).revealed && (w.held p i).can m) := by
  rw [h.revealed p hp]
  cases hup : (w.held p i).revealed with
  | false => rfl
  | true =>
      have hrole := h.role p hp i hup
      rw [Bool.true_and, Bool.true_and]
      cases m <;> simp only [Card.can, hrole]

theorem seat_name (h : SameView me w w') (hp : p ∈ w.players) :
    (w'.seat p).name = (w.seat p).name :=
  h.name p hp

theorem seat_coins (h : SameView me w w') (hp : p ∈ w.players) :
    (w'.seat p).coins = (w.seat p).coins :=
  h.coins p hp

theorem seat_card1 (h : SameView me w w') (hp : p ∈ w.players)
    (m : MoveName) :
    ((w'.seat p).card1.revealed && (w'.seat p).card1.can m) =
      ((w.seat p).card1.revealed && (w.seat p).card1.can m) :=
  h.shown hp .first m

theorem seat_card2 (h : SameView me w w') (hp : p ∈ w.players)
    (m : MoveName) :
    ((w'.seat p).card2.revealed && (w'.seat p).card2.can m) =
      ((w.seat p).card2.revealed && (w.seat p).card2.can m) :=
  h.shown hp .second m

theorem isPlayerRevealed (h : SameView me w w') (hp : p ∈ w.players) :
    w'.isPlayerRevealed p = w.isPlayerRevealed p := by
  simp only [World.isPlayerRevealed, h.revealed p hp]

/-- A loop over the table whose body reads each seat in the same way. -/
theorem foldl_table (h : SameView me w w') {β : Type*}
    {body : β → Seat → β}
    (hbody : ∀ b, ∀ p ∈ w.players, body b (w'.seat p) = body b (w.seat p))
    (b : β) : w'.table.foldl body b = w.table.foldl body b := by
  rw [World.table, World.table, h.players, List.foldl_map, List.foldl_map]
  exact List.foldl_ext _ _ b hbody

/-! ## The loops of `changeMoveRate` -/

theorem raiseShown (h : SameView me w w') (m : MoveName) (own : Seat)
    (rate : ℤ) (hp : p ∈ w.players) :
    Coup.raiseShown m own rate (w'.seat p) =
      Coup.raiseShown m own rate (w.seat p) := by
  unfold Coup.raiseShown
  rw [h.seat_name hp, h.seat_card1 hp, h.seat_card2 hp]

theorem cutShown (h : SameView me w w') (m : MoveName) (own : Seat)
    (rates : ℤ × ℤ) (hp : p ∈ w.players) :
    Coup.cutShown m own rates (w'.seat p) =
      Coup.cutShown m own rates (w.seat p) := by
  unfold Coup.cutShown
  rw [h.seat_name hp, h.seat_card1 hp, h.seat_card2 hp]

theorem lowerShown (h : SameView me w w') (m : MoveName) (rate : ℤ)
    (hp : p ∈ w.players) :
    Coup.lowerShown m rate (w'.seat p) = Coup.lowerShown m rate (w.seat p) := by
  unfold Coup.lowerShown
  rw [h.seat_card1 hp, h.seat_card2 hp]

theorem roleBlock (h : SameView me w w') (m : MoveName) (start : Option ℤ)
    (own : Seat) (rate : ℤ) :
    Coup.roleBlock m start own w'.table rate =
      Coup.roleBlock m start own w.table rate := by
  have hraise := fun rate => h.foldl_table
    (fun rate p hp => h.raiseShown m own rate hp) rate
  have hcut := fun rates => h.foldl_table
    (fun rates p hp => h.cutShown m own rates hp) rates
  have hlower := fun rate => h.foldl_table
    (fun rate p hp => h.lowerShown m rate hp) rate
  simp only [Coup.roleBlock, hraise, hcut, hlower]

theorem poorOthers (h : SameView me w w') (own : Seat) :
    Coup.poorOthers own w'.table = Coup.poorOthers own w.table := by
  rw [Coup.poorOthers, Coup.poorOthers, World.table, World.table, h.players,
    List.countP_map, List.countP_map]
  apply List.countP_congr
  intro p hp
  simp only [Function.comp_apply]
  rw [h.seat_name hp, h.seat_coins hp]

theorem changeMoveRate (h : SameView me w w') (own : Seat)
    (dic : MoveName → ℤ) :
    Coup.changeMoveRate own w'.table dic =
      Coup.changeMoveRate own w.table dic := by
  have hlength : w'.table.length = w.table.length := by
    rw [World.table, World.table, h.players, List.length_map, List.length_map]
  simp only [Coup.changeMoveRate, roleBlocks, h.roleBlock, adjustSteal,
    h.poorOthers, hlength]

/-! ## The counters of `adjustChallengeRate` -/

theorem countShown (h : SameView me w w') (m : MoveName) (own : Seat)
    (count : ℕ) (hp : p ∈ w.players) :
    Coup.countShown m own count (w'.seat p) =
      Coup.countShown m own count (w.seat p) := by
  unfold Coup.countShown
  rw [h.seat_name hp, h.seat_card1 hp, h.seat_card2 hp]

theorem adjustChallengeRate (h : SameView me w w') (own : Seat)
    (last : MoveName) (rate : ℚ) :
    Coup.adjustChallengeRate own w'.table last rate =
      Coup.adjustChallengeRate own w.table last rate := by
  have hcount : ∀ m, copiesSeen m last own w'.table =
      copiesSeen m last own w.table := by
    intro m
    have hfold := fun count => h.foldl_table
      (fun count p hp => h.countShown m own count hp) count
    simp only [copiesSeen, hfold]
  simp only [Coup.adjustChallengeRate, hcount]

/-! ## The move and the answer -/

theorem findTarget (h : SameView me w w') (hself : me ∈ w.players)
    {accept accept' : PlayerRef → Bool}
    (haccept : ∀ p ∈ w.players, accept' p = accept p) (draws : List ℕ) :
    Coup.findTarget w' me accept' draws =
      Coup.findTarget w me accept draws := by
  induction draws with
  | nil => rfl
  | cons draw draws ih =>
      rw [Coup.findTarget, Coup.findTarget, ih]
      simp only [findTarget.randomSeat, h.players]
      split
      next => rfl
      next hsome =>
        have hlt : draw % w.players.length < w.players.length :=
          Nat.mod_lt _ (Nat.pos_of_ne_zero hsome)
        have hmem := List.getElem_mem hlt
        simp only [bind_ok, List.getElem?_eq_getElem hlt, orFault,
          h.name _ hmem, h.name me hself, haccept _ hmem]

theorem chooseTarget (h : SameView me w w') (hself : me ∈ w.players)
    (name : MoveName) (seats : List ℕ) :
    Coup.chooseTarget w' me name seats =
      Coup.chooseTarget w me name seats := by
  have hrob : ∀ p ∈ w.players, canBeRobbed w' p = canBeRobbed w p := by
    intro p hp
    simp only [canBeRobbed, h.isPlayerRevealed hp, h.coins p hp]
  have hhit : ∀ p ∈ w.players, canBeHit w' p = canBeHit w p := by
    intro p hp
    simp only [canBeHit, h.isPlayerRevealed hp]
  cases name <;>
    simp only [Coup.chooseTarget, h.findTarget hself hrob,
      h.findTarget hself hhit]

end SameView

/-- The result of a decision, together with what it leaves in the AI. -/
def decision (me : PlayerRef) (r : Except Fault (Move × World)) :
    Except Fault (Move × Option AI) :=
  r.map fun r => (r.1, (r.2.player me).ai)

theorem decision_ok (me : PlayerRef) (m : Move) (w : World) (ai : AI) :
    decision me (.ok (m, w.setAI me ai)) = .ok (m, some ai) := by
  simp [decision, Except.map, World.setAI_ai]

theorem getPlayerMove_sameView {me : PlayerRef} {w w' : World}
    (h : SameView me w w') (hme : me ∈ w.players) (i : AIInput) :
    decision me (getPlayerMove w' me i) =
      decision me (getPlayerMove w me i) := by
  cases hai : (w.player me).ai with
  | none =>
      have hai' := h.ai.trans hai
      simp only [getPlayerMove, hai, hai', decision, Except.map]
  | some ai =>
      have hai' := h.ai.trans hai
      simp only [getPlayerMove, hai, hai', h.seat_self hme, h.changeMoveRate]
      cases pickMoveName (w.seat me)
          (changeMoveRate (w.seat me) w.table ai.moveRateDic) i.order
          i.pick with
      | error e => rfl
      | ok name =>
          simp only [bind_ok, h.chooseTarget hme]
          cases chooseTarget w me name i.seats with
          | error e => rfl
          | ok m =>
              simp only [bind_ok]
              exact (decision_ok ..).trans (decision_ok ..).symm

theorem getChallengeOrAllow_sameView {me : PlayerRef} {w w' : World}
    (h : SameView me w w') (hme : me ∈ w.players) (target : PlayerRef)
    (rand : UnitDraw) :
    decision me (getChallengeOrAllow w' me target rand) =
      decision me (getChallengeOrAllow w me target rand) := by
  cases hai : (w.player me).ai with
  | none =>
      have hai' := h.ai.trans hai
      simp only [getChallengeOrAllow, hai, hai', decision, Except.map]
  | some ai =>
      have hai' := h.ai.trans hai
      simp only [getChallengeOrAllow, hai, hai', h.moveLog, h.seat_self hme,
        h.adjustChallengeRate]
      cases w.moveLog.getLast? with
      | none => rfl
      | some last =>
          simp only [orFault, bind_ok]
          exact (decision_ok ..).trans (decision_ok ..).symm

/-- An AI decides the same in two heaps that agree for it: the move, its
target, the answer to a move, and the rates it keeps. -/
theorem decisions_sameView {me : PlayerRef} {w w' : World}
    (h : SameView me w w') (hme : me ∈ w.players) (i : AIInput)
    (target : PlayerRef) (rand : UnitDraw) :
    decision me (getPlayerMove w' me i) =
        decision me (getPlayerMove w me i) ∧
      decision me (getChallengeOrAllow w' me target rand) =
        decision me (getChallengeOrAllow w me target rand) :=
  ⟨getPlayerMove_sameView h hme i,
    getChallengeOrAllow_sameView h hme target rand⟩

/-- A table of the user and one AI, who holds two Captains; the user holds a
hidden card of the given role twice. -/
def hiddenRole (role : Role) : World :=
  { card := fun c => if c = 0 then ⟨role, false⟩ else ⟨.captain, false⟩
    player := fun p =>
      if p = 0 then ⟨"user", (0, 0), 2, none⟩
      else ⟨"Charlie Puth", (1, 2), 2, some .init⟩
    players := [0, 1]
    moveLog := [⟨.tax, 0, 0⟩]
    username := "user" }

/-- The AI cannot tell a Duke of the user from an Assassin. -/
theorem decisions_sameView_hiddenRole :
    (hiddenRole .duke).card 0 ≠ (hiddenRole .assassin).card 0 ∧
      decision 1 (getChallengeOrAllow (hiddenRole .assassin) 1 0 .least) =
        decision 1 (getChallengeOrAllow (hiddenRole .duke) 1 0 .least) := by
  have hsame : SameView 1 (hiddenRole .duke) (hiddenRole .assassin) := by
    refine ⟨rfl, rfl, rfl, ?_, fun _ _ => rfl, fun _ _ => rfl, ?_, ?_⟩
    · intro i
      cases i <;> rfl
    · intro p hp i
      have hp' : p = 0 ∨ p = 1 := by simpa [hiddenRole] using hp
      rcases hp' with rfl | rfl <;> cases i <;> rfl
    · intro p hp i hup
      have hp' : p = 0 ∨ p = 1 := by simpa [hiddenRole] using hp
      rcases hp' with rfl | rfl <;> cases i <;> cases hup
  refine ⟨by decide, ?_⟩
  exact (decisions_sameView hsame (by simp [hiddenRole])
    ⟨.literal, 1, []⟩ 0 .least).2

end Coup
