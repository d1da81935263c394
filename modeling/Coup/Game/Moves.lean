import Coup.Backend.Choice
import Coup.Game.Round
import Coup.Game.Session

/-!
# The moves that are chosen

An AI finds its move in `getPlayerMove`, the user through the buttons and the
target sheets.  `Legal` is what both ways have in common: the caller sits in
the current seat, the target of a coup, an assassination or a steal is another
player, and a coup or an assassination can be paid.
-/

namespace Coup

open Coup.Support

/-- The moves that are aimed at another player. -/
def MoveName.aimed : MoveName → Bool
  | .coup | .assassinate | .steal => true
  | _ => false

theorem MoveName.aimed_of_hits {name : MoveName} (h : name.hits = true) :
    name.aimed = true := by
  cases name <;> first | rfl | cases h

/-- The moves a player can make on their own turn. -/
def MoveName.playable : MoveName → Bool
  | .unnamed | .allow | .challenge => false
  | _ => true

/-- A move that `p` may make. -/
structure Legal (w : World) (p : PlayerRef) (m : Move) : Prop where
  playable : m.name.playable = true
  caller : m.caller = p
  target : m.target ∈ w.players
  plain : m.name.aimed = false → m.target = p
  other : m.name.aimed = true → (w.player m.target).name ≠ (w.player p).name
  coup : m.name = .coup → 7 ≤ (w.player p).coins
  assassinate : m.name = .assassinate → 3 ≤ (w.player p).coins

/-- A robbed player can pay. -/
def RobsTheRich (w : World) (m : Move) : Prop :=
  m.name = .steal → 2 ≤ (w.player m.target).coins

namespace Legal

variable {w : World} {p : PlayerRef} {m : Move}

theorem target_ne (h : Legal w p m) (haimed : m.name.aimed = true) :
    m.target ≠ p := by
  intro heq
  have hne := h.other haimed
  rw [heq] at hne
  exact hne rfl

end Legal

/-! ## The target of an AI -/

theorem findTarget_spec {w : World} {self target : PlayerRef}
    {accept : PlayerRef → Bool} {draws : List ℕ}
    (h : findTarget w self accept draws = .ok target) :
    target ∈ w.players ∧ (w.player target).name ≠ (w.player self).name ∧
      accept target = true := by
  induction draws with
  | nil => cases h
  | cons draw draws ih =>
      rw [findTarget, bind_eq_ok] at h
      obtain ⟨rand, -, h⟩ := h
      rw [bind_eq_ok] at h
      obtain ⟨found, hfound, h⟩ := h
      rw [orFault_eq_ok] at hfound
      split at h
      next => exact ih h
      next hother =>
        split at h
        next haccept =>
          cases h
          exact ⟨List.mem_of_getElem? hfound, hother, haccept⟩
        next => exact ih h

section Target

variable {w : World} {self q : PlayerRef} {name : MoveName}

theorem aimed_cases (haimed : name.aimed = true) :
    name = .coup ∨ name = .assassinate ∨ name = .steal := by
  revert haimed
  cases name <;> decide

/-- The condition on a target in the loop for the move. -/
def targetTest (w : World) (name : MoveName) : PlayerRef → Bool :=
  if name = .steal then canBeRobbed w else canBeHit w

theorem targetTest_iff : targetTest w name q = true ↔
    w.isPlayerRevealed q = false ∧
      (name = .steal → 2 ≤ (w.player q).coins) := by
  unfold targetTest canBeRobbed canBeHit
  by_cases hsteal : name = .steal <;> simp [hsteal]

theorem chooseTarget_of_aimed (haimed : name.aimed = true)
    (seats : List ℕ) :
    chooseTarget w self name seats =
      findTarget w self (targetTest w name) seats >>= fun target =>
        pure ⟨name, self, target⟩ := by
  rcases aimed_cases haimed with rfl | rfl | rfl <;> rfl

theorem chooseTarget_of_plain (hplayable : name.playable = true)
    (hplain : name.aimed = false) (seats : List ℕ) :
    chooseTarget w self name seats = .ok ⟨name, self, self⟩ := by
  revert hplayable hplain
  cases name <;> simp [MoveName.playable, MoveName.aimed, chooseTarget]

theorem chooseTarget_spec {seats : List ℕ} {m : Move}
    (hself : self ∈ w.players) (hplayable : name.playable = true)
    (h : chooseTarget w self name seats = .ok m) :
    m.name = name ∧ m.caller = self ∧ m.target ∈ w.players ∧
      (name.aimed = false → m.target = self) ∧
      (name.aimed = true →
        (w.player m.target).name ≠ (w.player self).name ∧
          w.isPlayerRevealed m.target = false) ∧ RobsTheRich w m := by
  cases haimed : name.aimed with
  | false =>
      rw [chooseTarget_of_plain hplayable haimed] at h
      cases h
      refine ⟨rfl, rfl, hself, fun _ => rfl, (fun h => by cases h), ?_⟩
      intro hsteal
      rw [show name = .steal from hsteal] at haimed
      cases haimed
  | true =>
      rw [chooseTarget_of_aimed haimed, bind_eq_ok] at h
      obtain ⟨target, hfind, h⟩ := h
      cases h
      obtain ⟨hmem, hother, haccept⟩ := findTarget_spec hfind
      obtain ⟨hactive, hpays⟩ := targetTest_iff.mp haccept
      exact ⟨rfl, rfl, hmem, (fun h => by cases h),
        fun _ => ⟨hother, hactive⟩, hpays⟩

end Target

theorem pickMoveName_playable {self : Seat} {dic : MoveName → ℤ}
    {order : DictOrder} {draw : ℕ} {name : MoveName}
    (h : pickMoveName self dic order draw = .ok name) :
    name.playable = true := by
  rcases pickMoveName_spec h with ⟨rfl, -⟩ | ⟨-, hmem, -⟩
  · rfl
  · revert hmem
    cases name <;> decide

/-- An AI stores its new rates, picks a name by them and looks for a target. -/
theorem getPlayerMove_cases {w w' : World} {self : PlayerRef} {i : AIInput}
    {m : Move} (hsome : (w.player self).ai.isSome)
    (h : getPlayerMove w self i = .ok (m, w')) :
    ∃ ai name, (w.player self).ai = some ai ∧
      pickMoveName (w.seat self)
        (changeMoveRate (w.seat self) w.table ai.moveRateDic) i.order i.pick =
          .ok name ∧
      chooseTarget w self name i.seats = .ok m ∧
      w' = w.setAI self { ai with
        moveRateDic := changeMoveRate (w.seat self) w.table ai.moveRateDic } := by
  obtain ⟨ai, hai⟩ := Option.isSome_iff_exists.mp hsome
  simp only [getPlayerMove, hai, bind_eq_ok] at h
  obtain ⟨name, hname, m', hm, h⟩ := h
  cases h
  exact ⟨ai, name, hai, hname, hm, rfl⟩

/-- Every move of an AI is legal, and it robs nobody who cannot pay. -/
theorem getPlayerMove_spec {w w' : World} {self : PlayerRef} {i : AIInput}
    {m : Move} (hself : self ∈ w.players)
    (hsome : (w.player self).ai.isSome)
    (h : getPlayerMove w self i = .ok (m, w')) :
    Legal w self m ∧ RobsTheRich w m ∧ ∃ ai, w' = w.setAI self ai := by
  obtain ⟨ai, name, -, hname, hm, hstored⟩ := getPlayerMove_cases hsome h
  have hcases := pickMoveName_spec hname
  have hplayable := pickMoveName_playable hname
  obtain ⟨rfl, hcaller, htarget, hplain, hother, hrob⟩ :=
    chooseTarget_spec hself hplayable hm
  refine ⟨⟨hplayable, hcaller, htarget, hplain, fun ha => (hother ha).1,
    ?_, ?_⟩, hrob, ⟨_, hstored⟩⟩
  · intro hcoup
    rw [hcoup] at hcases
    rcases hcases with ⟨-, hrich⟩ | ⟨-, hmem, -⟩
    · exact hrich
    · simp [rateKeys] at hmem
  · intro hassassinate
    rw [hassassinate] at hcases
    rcases hcases with ⟨hcoup, -⟩ | ⟨-, -, hincome | hpos⟩
    · cases hcoup
    · cases hincome
    · by_contra hpoor
      have hlow : (w.seat self).coins < 3 := not_le.mp hpoor
      have hzero := changeMoveRate_assassinate hlow w.table ai.moveRateDic
      rw [hzero] at hpos
      exact lt_irrefl 0 hpos

/-! ## The moves of the user -/

namespace Press

def name : Press → MoveName
  | .income => .income
  | .foreignAid => .foreignAid
  | .tax => .tax
  | .exchange => .exchange
  | .coup _ => .coup
  | .steal _ => .steal
  | .assassinate _ => .assassinate

def target : Press → Option PlayerRef
  | .coup target | .steal target | .assassinate target => some target
  | _ => none

/-- The move that a press submits for the player in the current seat. -/
def move (q : Press) (caller : PlayerRef) : Move :=
  ⟨q.name, caller, q.target.getD caller⟩

/-- What the alerts and the target sheets let through. -/
def Offered (s : State) : Press → Prop
  | .coup target =>
      7 ≤ (s.world.player s.vc.user).coins ∧ target ∈ coupSheet s
  | .steal target => target ∈ stealSheet s
  | .assassinate target =>
      3 ≤ (s.world.player s.vc.user).coins ∧ target ∈ assassinateSheet s
  | _ => True

/-- The button of a press. -/
def enabled (b : Buttons) : Press → Bool
  | .income => b.income
  | .foreignAid => b.foreignAid
  | .tax => b.tax
  | .exchange => b.exchange
  | .coup _ => b.coup
  | .steal _ => b.steal
  | .assassinate _ => b.assassinate

end Press

/-- The fields that a button handler assigns. -/
structure Submits (s : State) (m : Move) (s' : State) : Prop where
  world : s'.world = s.world
  vc : s'.vc = { s.vc with
    steal := s'.vc.steal
    assassinate := s'.vc.assassinate
    coup := s'.vc.coup
    didPlayerMove := true
    playerMove := m
    buttons := disableAllButtons }

theorem guardPress_eq_ok {enabled : Bool} {k : Except Fault State} {s' : State} :
    guardPress enabled k = .ok s' ↔ enabled = true ∧ k = .ok s' := by
  cases enabled <;> simp [guardPress]

theorem submitMove_spec {s s' : State} {name : MoveName}
    {target : Option PlayerRef} (h : submitMove s name target = .ok s') :
    ∃ caller, s.world.players[s.vc.turnInd]? = some caller ∧
      Submits s ⟨name, caller, target.getD caller⟩ s' := by
  rw [submitMove, bind_eq_ok] at h
  obtain ⟨caller, hcaller, h⟩ := h
  cases h
  exact ⟨caller, orFault_eq_ok.mp hcaller, rfl, rfl⟩

theorem targetDidSet_spec {s s' : State} {steal kill coup : Bool}
    {name : MoveName} {target : PlayerRef}
    (hname : name = if steal then .steal else if coup then .coup
      else .assassinate)
    (h : targetDidSet (targetMoveSelected s steal kill coup) target = .ok s') :
    ∃ caller, s.world.players[s.vc.turnInd]? = some caller ∧
      Submits s ⟨name, caller, target⟩ s' := by
  have hsubmit : submitMove (targetMoveSelected s steal kill coup) name
      (some target) = .ok s' := by
    subst hname
    unfold targetDidSet targetMoveSelected at h
    revert h
    cases steal <;> cases coup <;> exact id
  obtain ⟨caller, hcaller, hworld, hvc⟩ := submitMove_spec hsubmit
  refine ⟨caller, hcaller, hworld, ?_⟩
  rw [hvc]
  rfl

/-- A press that goes through came from an enabled button and an offered row,
and submits its move. -/
theorem pressButton_spec {s s' : State} {q : Press}
    (h : pressButton s q = .ok s') :
    q.enabled s.vc.buttons = true ∧ q.Offered s ∧
      ∃ caller, s.world.players[s.vc.turnInd]? = some caller ∧
        Submits s (q.move caller) s' := by
  cases q with
  | income | foreignAid | tax | exchange =>
      obtain ⟨hon, h⟩ := guardPress_eq_ok.mp h
      exact ⟨hon, trivial, submitMove_spec h⟩
  | steal target =>
      obtain ⟨hguard, h⟩ := guardPress_eq_ok.mp h
      simp only [Bool.and_eq_true, decide_eq_true_eq] at hguard
      obtain ⟨⟨hon, -⟩, hsheet⟩ := hguard
      exact ⟨hon, hsheet, targetDidSet_spec rfl h⟩
  | coup target | assassinate target =>
      obtain ⟨hguard, h⟩ := guardPress_eq_ok.mp h
      simp only [Bool.and_eq_true, Bool.not_eq_true', decide_eq_false_iff_not,
        not_lt, decide_eq_true_eq] at hguard
      obtain ⟨⟨hon, hcoins⟩, hsheet⟩ := hguard
      exact ⟨hon, ⟨hcoins, hsheet⟩, targetDidSet_spec rfl h⟩

end Coup
