import Coup.Backend.Symmetry
import Coup.Game.Evidence
import Coup.Game.Table

/-!
# Counting the cards that others have turned up

`otherCardCount` counts by name what `adjustChallengeRate` counts by ability.
Its second test asks whether the second card is revealed, but then reads the
name of the first.
-/

namespace Coup

open Coup.Support

/-! ## The count by name -/

/-- The `name` that the initialiser of a subclass of `Card` sets. -/
def Role.name : Role → String
  | .assassin => "Assassin"
  | .ambassador => "Ambassador"
  | .captain => "Captain"
  | .contessa => "Contessa"
  | .duke => "Duke"

def Card.name (card : Card) : String := card.role.name

/-- The body of the loop of `otherCardCount`. -/
def World.countNamed (w : World) (self : PlayerRef) (cardLookingFor : String)
    (count : ℕ) (current : PlayerRef) : ℕ :=
  if (w.player current).name ≠ (w.player self).name then
    let count :=
      if (w.held current .first).revealed &&
          (w.held current .first).name == cardLookingFor then count + 1
      else count
    -- the name is read from the first card, also here
    if (w.held current .second).revealed &&
        (w.held current .first).name == cardLookingFor then count + 1
    else count
  else count

def World.otherCardCount (w : World) (self : PlayerRef)
    (cardLookingFor : String) : ℕ :=
  w.players.foldl (w.countNamed self cardLookingFor) 0

/-! ## What it is meant to count -/

/-- The other players at the table. -/
def World.others (w : World) (p : PlayerRef) : List PlayerRef :=
  w.players.filter fun q => decide (q ≠ p)

/-- The revealed cards of a name in the hands of all other players. -/
def World.revealedElsewhere (w : World) (p : PlayerRef) (name : String) : ℕ :=
  (w.handsOf (w.others p)).countP fun c =>
    (w.card c).revealed && (w.card c).name == name

/-- The other players who show one of their cards, `i`, and whose card `j` has
the name. -/
def World.showing (w : World) (p : PlayerRef) (i j : Slot) (name : String) :
    ℕ :=
  (w.others p).countP fun q =>
    (w.held q i).revealed && (w.held q j).name == name

/-- Both counts are what they are meant to be: the one by name, and for an AI
that holds the role of the last logged move also the one by ability. -/
structure CountsAgree (w : World) (p : PlayerRef) (name : String) : Prop where
  byName : w.otherCardCount p name = w.revealedElsewhere p name
  byAbility : ∀ last, w.moveLog.getLast? = some last → last.name ∈ counted →
    last.name.role.name = name → (w.player p).ai.isSome = true →
    1 ≤ (w.seat p).copies last.name →
    copiesSeen last.name last.name (w.seat p) w.table =
      (w.seat p).copies last.name + w.otherCardCount p name

/-- Among the other players who show their second card, as many have a first
card of the name as have a second one. -/
def SlotsAgree (w : World) (p : PlayerRef) (name : String) : Prop :=
  w.showing p .second .first name = w.showing p .second .second name

instance instDecidableSlotsAgree (w : World) (p : PlayerRef) (name : String) :
    Decidable (SlotsAgree w p name) :=
  inferInstanceAs (Decidable (_ = _))

/-! ## The loop -/

theorem Role.name_inj {r r' : Role} (h : r.name = r'.name) : r = r' := by
  cases r <;> cases r' <;> first | rfl | exact absurd h (by decide)

/-- With distinct names the name test leaves out exactly one player. -/
theorem DistinctNames.name_eq_iff {w : World} (h : DistinctNames w)
    {p q : PlayerRef} (hp : p ∈ w.players) (hq : q ∈ w.players) :
    (w.player q).name = (w.player p).name ↔ q = p := by
  constructor
  · intro heq
    exact List.inj_on_of_nodup_map h hq hp heq
  · intro heq
    rw [heq]

/-- What a player adds to the count. -/
theorem World.countNamed_other (w : World) {p q : PlayerRef} (name : String)
    (h : (w.player q).name ≠ (w.player p).name) (count : ℕ) :
    w.countNamed p name count q = count +
      ((if (w.held q .first).revealed && (w.held q .first).name == name
        then 1 else 0) +
      if (w.held q .second).revealed && (w.held q .first).name == name
        then 1 else 0) := by
  rw [World.countNamed, if_pos h]
  split <;> split <;> rfl

theorem World.foldl_countNamed (w : World) (p : PlayerRef) (name : String)
    {seats : List PlayerRef}
    (h : ∀ q ∈ seats, (w.player q).name = (w.player p).name ↔ q = p)
    (count : ℕ) :
    seats.foldl (w.countNamed p name) count =
      count +
        ((seats.filter fun q => decide (q ≠ p)).countP (fun q =>
          (w.held q .first).revealed && (w.held q .first).name == name) +
        (seats.filter fun q => decide (q ≠ p)).countP (fun q =>
          (w.held q .second).revealed && (w.held q .first).name == name)) := by
  induction seats generalizing count with
  | nil => rfl
  | cons q seats ih =>
      have hq := h q List.mem_cons_self
      rw [List.foldl_cons, ih fun r hr => h r (List.mem_cons_of_mem q hr)]
      by_cases hqp : q = p
      · have hskip : w.countNamed p name count q = count := by
          rw [World.countNamed, if_neg (not_not.mpr (hq.mpr hqp))]
        rw [hskip, List.filter_cons_of_neg (by simp [hqp])]
      · rw [World.countNamed_other w name fun heq => hqp (hq.mp heq)]
        rw [List.filter_cons_of_pos (by simp [hqp]), List.countP_cons,
          List.countP_cons]
        omega

/-- The count by name adds up the first cards that are shown and the first
cards of the players who show their second. -/
theorem otherCardCount_eq {w : World} (hnames : DistinctNames w)
    {p : PlayerRef} (hp : p ∈ w.players) (name : String) :
    w.otherCardCount p name =
      w.showing p .first .first name + w.showing p .second .first name := by
  have hskips : ∀ q ∈ w.players,
      (w.player q).name = (w.player p).name ↔ q = p :=
    fun q hq => hnames.name_eq_iff hp hq
  rw [World.otherCardCount, w.foldl_countNamed p name hskips, Nat.zero_add]
  rfl

theorem World.countP_handsOf (w : World) (P : CardRef → Bool)
    (seats : List PlayerRef) :
    (w.handsOf seats).countP P =
      seats.countP (fun q => P (w.slot q .first)) +
        seats.countP fun q => P (w.slot q .second) := by
  induction seats with
  | nil => rfl
  | cons q seats ih =>
      rw [handsOf_cons, List.countP_cons, List.countP_cons, List.countP_cons,
        List.countP_cons, ih]
      omega

theorem revealedElsewhere_eq (w : World) (p : PlayerRef) (name : String) :
    w.revealedElsewhere p name =
      w.showing p .first .first name + w.showing p .second .second name :=
  w.countP_handsOf _ _

/-! ## The count by ability -/

theorem counted_subset_roleMoves {m : MoveName} (h : m ∈ counted) :
    m ∈ roleMoves := by
  revert h
  cases m <;> decide

/-- A card has an ability if it has the name that goes with it. -/
theorem Card.can_eq_name {m : MoveName} (h : m ∈ roleMoves) (card : Card) :
    card.can m = (card.name == m.role.name) := by
  rw [Card.can_iff h, beq_eq_decide]
  apply decide_eq_decide.mpr
  exact ⟨fun heq => congrArg Role.name heq, fun heq => Role.name_inj heq⟩

/-- The seats with another name are the hands of the other players. -/
theorem shownByOthers_eq {w : World} (hnames : DistinctNames w)
    {p : PlayerRef} (hp : p ∈ w.players) {m : MoveName} (hm : m ∈ roleMoves) :
    shownByOthers m (w.seat p) w.table =
      w.revealedElsewhere p m.role.name := by
  have hothers : (w.table.filter fun s => decide (s.name ≠ (w.seat p).name)) =
      (w.others p).map w.seat := by
    rw [World.table, List.filter_map, World.others]
    congr 1
    apply List.filter_congr
    intro q hq
    exact decide_eq_decide.mpr (not_congr (hnames.name_eq_iff hp hq))
  have hhand : ∀ q, (w.seat q).shownCopies m =
      [w.slot q .first, w.slot q .second].countP fun c =>
        (w.card c).revealed && (w.card c).name == m.role.name := by
    intro q
    rw [Seat.shownCopies, Card.can_eq_name hm, Card.can_eq_name hm,
      List.countP_cons, List.countP_cons, List.countP_nil, Nat.zero_add,
      Nat.add_comm]
    rfl
  rw [shownByOthers, hothers, List.map_map, World.revealedElsewhere,
    World.handsOf, List.countP_flatMap]
  congr 1
  apply List.map_congr_left
  intro q _
  exact hhand q

/-- The count by ability is the one that both are meant to be. -/
theorem copiesSeen_eq {w : World} (hnames : DistinctNames w) {p : PlayerRef}
    (hp : p ∈ w.players) {m : MoveName} (hm : m ∈ counted)
    (hcopies : 1 ≤ (w.seat p).copies m) :
    copiesSeen m m (w.seat p) w.table =
      (w.seat p).copies m + w.revealedElsewhere p m.role.name := by
  rw [copiesSeen_self, visibleCopies, if_neg (by omega),
    shownByOthers_eq hnames hp (counted_subset_roleMoves hm)]

/-! ## When the counts agree -/

theorem otherCardCount_eq_iff {w : World} (hnames : DistinctNames w)
    {p : PlayerRef} (hp : p ∈ w.players) (name : String) :
    w.otherCardCount p name = w.revealedElsewhere p name ↔
      SlotsAgree w p name := by
  rw [otherCardCount_eq hnames hp, revealedElsewhere_eq, SlotsAgree,
    Nat.add_left_cancel_iff]

/-- An AI that counts by ability is off by as much as the count by name. -/
theorem copiesSeen_eq_iff {w : World} (hnames : DistinctNames w)
    {p : PlayerRef} (hp : p ∈ w.players) {m : MoveName} (hm : m ∈ counted)
    (hcopies : 1 ≤ (w.seat p).copies m) :
    copiesSeen m m (w.seat p) w.table =
        (w.seat p).copies m + w.otherCardCount p m.role.name ↔
      SlotsAgree w p m.role.name := by
  rw [copiesSeen_eq hnames hp hm hcopies, Nat.add_left_cancel_iff, eq_comm,
    otherCardCount_eq_iff hnames hp]

/-- The slot that the second test confuses does not matter exactly as long as
the shown second cards and the first cards beside them balance. -/
theorem counts_agree_iff {w : World} (hnames : DistinctNames w)
    {p : PlayerRef} (hp : p ∈ w.players) (name : String) :
    CountsAgree w p name ↔ SlotsAgree w p name := by
  constructor
  · intro h
    exact (otherCardCount_eq_iff hnames hp name).mp h.byName
  · intro h
    constructor
    · exact (otherCardCount_eq_iff hnames hp name).mpr h
    · intro last _ hlast hname _ hcopies
      subst hname
      exact (copiesSeen_eq_iff hnames hp hlast hcopies).mpr h

/-- The user, who has claimed tax, shows their second card, a Duke, beside a
Contessa; Charlie Puth holds a Duke and an Assassin. -/
def showsSecond : World :=
  let w := (lobbyOf "user" ["Charlie Puth"] [⟨.tax, 0, 0⟩]).createCards 0
  ((((w.setSlot 0 .first 9).setSlot 0 .second 14).setSlot 1 .first
    12).setSlot 1 .second 0).setRevealed 14 true

theorem showsSecond_distinctNames : DistinctNames showsSecond := by
  rw [DistinctNames]
  decide

/-- The shown Duke beside a Contessa makes no difference for the Assassins. -/
theorem counts_agree_iff_showsSecond : CountsAgree showsSecond 1 "Assassin" :=
  (counts_agree_iff showsSecond_distinctNames (by decide) "Assassin").mpr
    (by decide)

/-- Charlie Puth sees two Dukes, one of them the user's; counted by name there
is none but a Contessa that nobody has turned up. -/
theorem shown_second_miscounted :
    showsSecond.otherCardCount 1 "Duke" = 0 ∧
      showsSecond.revealedElsewhere 1 "Duke" = 1 ∧
      showsSecond.otherCardCount 1 "Contessa" = 1 ∧
      (showsSecond.seat 1).copies .tax = 1 ∧
      copiesSeen .tax .tax (showsSecond.seat 1) showsSecond.table = 2 ∧
      ¬ ∀ w : World, DistinctNames w → ∀ p ∈ w.players, ∀ role : Role,
        CountsAgree w p role.name := by
  refine ⟨by decide, by decide, by decide, by decide, by decide, ?_⟩
  intro h
  have hduke := (h showsSecond showsSecond_distinctNames 1 (by decide)
    .duke).byName
  revert hduke
  decide

end Coup
