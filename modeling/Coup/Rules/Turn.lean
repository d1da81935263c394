import Coup.Rules.Board

/-!
# The effect of a move on the board

`act` and `winChallenge` follow the order in which the program turns cards up
and pays coins.  `coinEffect` and `hits` are what the rules promise: who gets
and pays how much, and whose influence is at stake.  The lemmas say that the
two agree, for every player and every order of the operations.
-/

namespace Coup

/-- The moves that cost their target an influence. -/
def MoveName.hits : MoveName → Bool
  | .coup | .assassinate => true
  | _ => false

/-- What a move does to the coins of the player `q`. -/
def coinEffect {P : Type*} [DecidableEq P] (name : MoveName)
    (caller target q : P) : ℤ :=
  match name with
  | .income => if q = caller then 1 else 0
  | .foreignAid => if q = caller then 2 else 0
  | .tax => if q = caller then 3 else 0
  | .steal => (if q = caller then 2 else 0) - if q = target then 2 else 0
  | .assassinate => if q = caller then -3 else 0
  | .coup => if q = caller then -7 else 0
  | _ => 0

namespace Board

variable {P : Type*} [DecidableEq P]

/-- The effect of a move on coins and influence. -/
def act (b : Board P) (name : MoveName) (caller target : P) : Board P :=
  match name with
  | .income => b.pay caller 1
  | .foreignAid => b.pay caller 2
  | .tax => b.pay caller 3
  | .coup => (b.pay caller (-7)).lose target
  | .assassinate => (b.pay caller (-3)).lose target
  | .steal => (b.pay target (-2)).pay caller 2
  | _ => b

/-- A lost challenge of `challenger` against the card of `player` in position
`i`: the challenger loses an influence, the card is shown, the move takes
place, and a hidden card replaces the shown one. -/
def winChallenge (b : Board P) (player challenger : P) (i : Slot)
    (name : MoveName) (caller target : P) : Board P :=
  ((((b.lose challenger).turn player i true).act name caller target).turn
    player i false)

variable (b : Board P) {name : MoveName}
  {caller target player challenger q : P}
  {i j : Slot}

theorem act_coins : (b.act name caller target).coins q =
    b.coins q + coinEffect name caller target q := by
  cases name <;> simp [act, coinEffect]
  split <;> split <;> omega

theorem act_face_of_not_hits (h : name.hits = false) (caller target : P) :
    (b.act name caller target).face = b.face := by
  cases name <;> first | rfl | cases h

theorem act_face_of_hits (h : name.hits = true) (caller target : P) :
    (b.act name caller target).face = (b.lose target).face := by
  cases name <;> cases h <;> exact lose_face_congr _ rfl

/-- A move costs at most its target one influence. -/
theorem act_influence : (b.act name caller target).influence q =
    b.influence q - if name.hits = true ∧ q = target then 1 else 0 := by
  cases h : name.hits with
  | false =>
      have hface := congrFun (b.act_face_of_not_hits h caller target) q
      simpa using influence_congr q (congrFun hface)
  | true =>
      have hface := congrFun (b.act_face_of_hits h caller target) q
      rw [influence_congr q (congrFun hface), influence_lose]
      simp

theorem act_face_of_ne (h : name.hits = true → q ≠ target) :
    (b.act name caller target).face q = b.face q := by
  cases hname : name.hits with
  | false => rw [b.act_face_of_not_hits hname caller target]
  | true =>
      rw [b.act_face_of_hits hname caller target]
      exact funext fun i => lose_face_of_ne b i (h hname)

@[simp] theorem winChallenge_coins :
    (b.winChallenge player challenger i name caller target).coins q =
      b.coins q + coinEffect name caller target q := by
  rw [winChallenge, turn_coins, act_coins, turn_coins, lose_coins]

/-- Besides the player who won the challenge, the challenger and the target
lose one influence each, and one player can be both. -/
theorem winChallenge_influence_of_ne (h : q ≠ player) :
    (b.winChallenge player challenger i name caller target).influence q =
      b.influence q - (if q = challenger then 1 else 0) -
        if name.hits = true ∧ q = target then 1 else 0 := by
  rw [winChallenge, influence_turn_of_ne _ _ h, act_influence,
    influence_turn_of_ne _ _ h, influence_lose]

/-- The position that answered the challenge ends up hidden, and the other
position of the winner does not change. -/
theorem winChallenge_face_self (hchallenger : challenger ≠ player)
    (htarget : name.hits = true → target ≠ player) :
    (b.winChallenge player challenger i name caller target).face player j =
      if j = i then false else b.face player j := by
  have hact : ((b.lose challenger).turn player i true |>.act name caller
      target).face player = ((b.lose challenger).turn player i true).face
        player :=
    act_face_of_ne _ fun hname => (htarget hname).symm
  rw [winChallenge, turn_face, hact, turn_face,
    lose_face_of_ne b j hchallenger.symm]
  by_cases hji : j = i <;> simp [hji]

/-- The winner of a challenge keeps their influence, unless the card that
answered it had already been lost. -/
theorem winChallenge_influence_self (hchallenger : challenger ≠ player)
    (htarget : name.hits = true → target ≠ player) :
    (b.winChallenge player challenger i name caller target).influence player =
      b.influence player + if b.face player i = true then 1 else 0 := by
  have hface : (b.winChallenge player challenger i name caller target).face
      player = (b.turn player i false).face player := by
    funext j
    rw [winChallenge_face_self b hchallenger htarget]
    simp
  rw [influence_congr player (congrFun hface)]
  cases hi : b.face player i with
  | false => simp [turn_eq_self hi]
  | true => simp [influence_turn_down hi]

/-- A winner who is the target as well ends up with exactly the card that
replaces the shown one: the other card is lost if it was hidden, and the shown
one cannot be lost. -/
theorem winChallenge_influence_self_hit (hhits : name.hits = true) :
    (b.winChallenge player challenger i name caller player).influence player =
      1 := by
  rw [winChallenge]
  have hshown : ((b.lose challenger).turn player i true).influence player ≤
      1 := by
    cases i <;> simp [influence] <;> split <;> simp
  have hout : (((b.lose challenger).turn player i true).act name caller
      player).influence player = 0 := by
    rw [act_influence, if_pos ⟨hhits, rfl⟩]
    omega
  rw [influence_turn_down ((out_iff _ player).mp hout i), hout]

end Board

end Coup
