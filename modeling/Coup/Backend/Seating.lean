import Coup.Backend.Rates
import Mathlib.Algebra.BigOperators.Group.List.Basic
import Mathlib.Logic.Function.Iterate

/-!
# Slots and seats

`changeMoveRate` looks at the two cards of every opponent one after the other
and at the opponents in the order of their seats.  Most of what it does adds up
and does not depend on that order.  The exception is the loop for an AI that
has turned up a copy itself: it halves the rate for a copy in the first slot of
an opponent and takes off a hundred for one in the second.
-/

namespace Coup

/-- The other order of the two cards of a hand. -/
def Seat.swapHand (s : Seat) : Seat :=
  { s with card1 := s.card2, card2 := s.card1 }

/-- Exchange the two cards of the player with the name. -/
def Seat.swapAt (n : String) (s : Seat) : Seat :=
  if s.name = n then s.swapHand else s

/-- If the AI has turned up a copy itself, each other player has turned up no
copy or two. -/
def NoLoneCopyOf (m : MoveName) (self : Seat) (players : List Seat) : Prop :=
  self.shownCopies m ≠ 0 → ∀ player ∈ players,
    player.name ≠ self.name → player.shownCopies m ≠ 1

def NoLoneCopy (self : Seat) (players : List Seat) : Prop :=
  ∀ m ∈ roleMoves, NoLoneCopyOf m self players

/-- Neither exchanging the cards of a hand nor permuting the seats changes a
rate. -/
structure Independent (s : Seat) (players : List Seat)
    (dic : MoveName → ℤ) : Prop where
  slots : ∀ n, changeMoveRate (s.swapAt n) (players.map (Seat.swapAt n)) dic =
    changeMoveRate s players dic
  seats : ∀ players', players'.Perm players →
    changeMoveRate s players' dic = changeMoveRate s players dic

/-! ## One hand -/

section Hand

variable (n : String) (m : MoveName) (s : Seat)

@[simp] theorem swapAt_name : (s.swapAt n).name = s.name := by
  unfold Seat.swapAt
  split <;> rfl

@[simp] theorem swapAt_coins : (s.swapAt n).coins = s.coins := by
  unfold Seat.swapAt
  split <;> rfl

@[simp] theorem copies_swapAt : (s.swapAt n).copies m = s.copies m := by
  unfold Seat.swapAt
  split
  · exact Nat.add_comm _ _
  · rfl

@[simp] theorem shownCopies_swapAt :
    (s.swapAt n).shownCopies m = s.shownCopies m := by
  unfold Seat.swapAt
  split
  · exact Nat.add_comm _ _
  · rfl

variable {m s}

theorem copies_eq_zero_iff :
    s.copies m = 0 ↔ (s.card1.can m || s.card2.can m) = false := by
  unfold Seat.copies
  by_cases h1 : s.card1.can m = true <;>
    by_cases h2 : s.card2.can m = true <;> simp [h1, h2]

theorem copies_eq_two_iff :
    s.copies m = 2 ↔ (s.card1.can m && s.card2.can m) = true := by
  unfold Seat.copies
  by_cases h1 : s.card1.can m = true <;>
    by_cases h2 : s.card2.can m = true <;> simp [h1, h2]

theorem shownCopies_eq_zero_iff :
    s.shownCopies m = 0 ↔ ((s.card1.revealed && s.card1.can m) ||
      (s.card2.revealed && s.card2.can m)) = false := by
  unfold Seat.shownCopies
  by_cases h1 : (s.card1.revealed && s.card1.can m) = true <;>
    by_cases h2 : (s.card2.revealed && s.card2.can m) = true <;> simp [h1, h2]

variable {self : Seat} {rate : ℤ} {rates : ℤ × ℤ}

theorem raiseShown_eq :
    raiseShown m self rate s =
      rate + if s.name = self.name then 0 else 10 * (s.shownCopies m : ℤ) := by
  unfold raiseShown Seat.shownCopies
  split
  · simp
  · split <;> split <;> simp
    omega

theorem lowerShown_eq :
    lowerShown m rate s = rate - 2 * (s.shownCopies m : ℤ) := by
  unfold lowerShown Seat.shownCopies
  split <;> split <;> simp
  omega

/-- What a hand with two copies does to the rate. -/
def cutTwice (rates : ℤ × ℤ) : ℤ × ℤ :=
  (rates.1.tdiv 2 - 100, rates.1.tdiv 2 - 100)

/-- A hand with no copy or two changes the rate in a way that does not depend
on the slots. -/
theorem cutShown_eq (h : s.name ≠ self.name → s.shownCopies m ≠ 1) :
    cutShown m self rates s =
      if s.name ≠ self.name ∧ s.shownCopies m ≠ 0 then cutTwice rates
      else rates := by
  unfold cutShown
  by_cases hname : s.name = self.name
  · simp [hname]
  · have hone := h hname
    rw [if_neg hname]
    unfold Seat.shownCopies at hone ⊢
    by_cases h1 : (s.card1.revealed && s.card1.can m) = true <;>
      by_cases h2 : (s.card2.revealed && s.card2.can m) = true <;>
        simp [h1, h2, hname, cutTwice] at hone ⊢

end Hand

/-! ## The whole table -/

/-- The other players that show a copy. -/
def showingOthers (m : MoveName) (self : Seat) (players : List Seat) : ℕ :=
  players.countP fun player =>
    decide (player.name ≠ self.name ∧ player.shownCopies m ≠ 0)

section Table

variable {m : MoveName} {self player : Seat} {players players' : List Seat}

theorem shownByOthers_cons :
    shownByOthers m self (player :: players) =
      (if player.name = self.name then 0 else player.shownCopies m) +
        shownByOthers m self players := by
  by_cases hname : player.name = self.name <;> simp [shownByOthers, hname]

theorem shownByOthers_append :
    shownByOthers m self (players ++ players') =
      shownByOthers m self players + shownByOthers m self players' := by
  simp [shownByOthers]

theorem exists_of_shownByOthers (h : shownByOthers m self players ≠ 0) :
    ∃ player ∈ players, player.name ≠ self.name ∧
      player.shownCopies m ≠ 0 := by
  induction players with
  | nil => exact absurd rfl h
  | cons player players ih =>
      by_cases hhere : player.name ≠ self.name ∧ player.shownCopies m ≠ 0
      · exact ⟨player, List.mem_cons_self, hhere⟩
      · have hzero : (if player.name = self.name then 0
            else player.shownCopies m) = 0 := by
          split
          · rfl
          next hname => exact not_not.mp fun hsome => hhere ⟨hname, hsome⟩
        rw [shownByOthers_cons, hzero, zero_add] at h
        obtain ⟨q, hq, hshows⟩ := ih h
        exact ⟨q, List.mem_cons_of_mem _ hq, hshows⟩

theorem foldl_raiseShown (rate : ℤ) :
    players.foldl (raiseShown m self) rate =
      rate + 10 * (shownByOthers m self players : ℤ) := by
  induction players generalizing rate with
  | nil => simp [shownByOthers]
  | cons player players ih =>
      rw [List.foldl_cons, ih, raiseShown_eq]
      by_cases hname : player.name = self.name
      · simp [shownByOthers, hname]
      · simp [shownByOthers, hname]
        omega

theorem foldl_lowerShown (rate : ℤ) :
    players.foldl (lowerShown m) rate =
      rate - 2 * ((players.map (Seat.shownCopies m)).sum : ℤ) := by
  induction players generalizing rate with
  | nil => simp
  | cons player players ih =>
      rw [List.foldl_cons, ih, lowerShown_eq]
      simp
      omega

theorem foldl_cutShown (rates : ℤ × ℤ)
    (h : ∀ player ∈ players, player.name ≠ self.name →
      player.shownCopies m ≠ 1) :
    players.foldl (cutShown m self) rates =
      cutTwice^[showingOthers m self players] rates := by
  induction players generalizing rates with
  | nil => rfl
  | cons player players ih =>
      rw [List.foldl_cons, cutShown_eq (h player List.mem_cons_self),
        ih _ fun q hq => h q (List.mem_cons_of_mem _ hq), showingOthers,
        showingOthers, List.countP_cons]
      split
      next hshows => simp [hshows]
      next hnot => simp [hnot]

/-- What a role block adds up, and what it does to the rate afterwards. -/
theorem roleBlock_eq (start : Option ℤ) (rate : ℤ) :
    roleBlock m start self players rate =
      if self.copies m = 0 then
        rate - 1 - 2 * ((players.map (Seat.shownCopies m)).sum : ℤ)
      else
        let raised := start.getD rate +
          (if self.copies m = 2 then 20 else 10) +
          10 * (shownByOthers m self players : ℤ)
        if self.shownCopies m = 0 then raised
        else (players.foldl (cutShown m self) (raised, raised.tdiv 2)).2 := by
  unfold roleBlock
  simp only [foldl_raiseShown, foldl_lowerShown, copies_eq_zero_iff,
    copies_eq_two_iff, shownCopies_eq_zero_iff]
  cases hhas : self.card1.can m || self.card2.can m with
  | false => simp
  | true =>
      by_cases hboth : (self.card1.can m && self.card2.can m) = true <;>
        by_cases hshown : ((self.card1.revealed && self.card1.can m) ||
          (self.card2.revealed && self.card2.can m)) = true <;>
            simp [hboth, hshown]

end Table

/-! ## Two tables with the same sums -/

/-- Two tables that a rate cannot tell apart. -/
structure SameSums (s s' : Seat) (players players' : List Seat) :
    Prop where
  coins : s'.coins = s.coins
  copies : ∀ m, s'.copies m = s.copies m
  shown : ∀ m, s'.shownCopies m = s.shownCopies m
  poor : poorOthers s' players' = poorOthers s players
  length : players'.length = players.length
  all : ∀ m, (players'.map (Seat.shownCopies m)).sum =
    (players.map (Seat.shownCopies m)).sum
  others : ∀ m, shownByOthers m s' players' = shownByOthers m s players
  showing : ∀ m,
    showingOthers m s' players' = showingOthers m s players

section Congr

variable {self self' : Seat} {players players' : List Seat}

theorem roleBlock_congr {m : MoveName} (hm : m ∈ roleMoves)
    (h : SameSums self self' players players')
    (hnone : NoLoneCopy self players) (hnone' : NoLoneCopy self' players')
    (start : Option ℤ) (rate : ℤ) :
    roleBlock m start self' players' rate =
      roleBlock m start self players rate := by
  rw [roleBlock_eq, roleBlock_eq, h.copies, h.shown, h.all, h.others]
  by_cases hshown : self.shownCopies m = 0
  · simp only [hshown, if_true]
  · have hcut : ∀ rates, players'.foldl (cutShown m self') rates =
        players.foldl (cutShown m self) rates := by
      intro rates
      rw [foldl_cutShown rates (hnone m hm hshown),
        foldl_cutShown rates (hnone' m hm (h.shown m ▸ hshown)), h.showing]
    simp only [hshown, if_false, hcut]

theorem changeMoveRate_congr (h : SameSums self self' players players')
    (hnone : NoLoneCopy self players) (hnone' : NoLoneCopy self' players')
    (dic : MoveName → ℤ) :
    changeMoveRate self' players' dic = changeMoveRate self players dic := by
  have hblocks : roleBlocks self' players' dic = roleBlocks self players dic := by
    funext k
    rw [roleBlocks_apply, roleBlocks_apply]
    split
    next hk => rw [roleBlock_congr hk h hnone hnone']
    next => rfl
  have hcoins : adjustByCoins self' (roleBlocks self players dic) =
      adjustByCoins self (roleBlocks self players dic) := by
    funext k
    rw [adjustByCoins_apply, adjustByCoins_apply, h.coins]
  rw [changeMoveRate, changeMoveRate, hblocks, hcoins]
  congr 1
  funext k
  rw [adjustSteal_apply, adjustSteal_apply, h.poor, h.length]

theorem SameSums.swap (n : String) (self : Seat) (players : List Seat) :
    SameSums self (self.swapAt n) players (players.map (Seat.swapAt n)) where
  coins := swapAt_coins n self
  copies m := copies_swapAt n m self
  shown m := shownCopies_swapAt n m self
  poor := by simp [poorOthers, List.countP_map, Function.comp_def]
  length := List.length_map ..
  all _ := by simp [Function.comp_def]
  others _ := by
    simp [shownByOthers, List.filter_map, Function.comp_def]
  showing _ := by simp [showingOthers, List.countP_map, Function.comp_def]

theorem SameSums.perm (self : Seat) (h : players'.Perm players) :
    SameSums self self players players' where
  coins := rfl
  copies _ := rfl
  shown _ := rfl
  poor := h.countP_eq _
  length := h.length_eq
  all _ := (h.map _).sum_eq
  others _ := ((h.filter _).map _).sum_eq
  showing _ := h.countP_eq _

theorem NoLoneCopy.swap (h : NoLoneCopy self players) (n : String) :
    NoLoneCopy (self.swapAt n) (players.map (Seat.swapAt n)) := by
  intro _ hm hshown player hplayer hname
  obtain ⟨q, hq, rfl⟩ := List.mem_map.mp hplayer
  rw [shownCopies_swapAt] at hshown ⊢
  rw [swapAt_name, swapAt_name] at hname
  exact h _ hm hshown q hq hname

theorem NoLoneCopy.perm (h : NoLoneCopy self players)
    (hperm : players'.Perm players) : NoLoneCopy self players' :=
  fun m hm hshown player hplayer => h m hm hshown player (hperm.subset hplayer)

/-- Slots and seats do not matter to an AI that sees no lone copy of a role it
has turned up itself. -/
theorem NoLoneCopy.independent (h : NoLoneCopy self players)
    (dic : MoveName → ℤ) : Independent self players dic :=
  ⟨fun n => changeMoveRate_congr (.swap n self players) h (h.swap n) dic,
    fun _ hperm => changeMoveRate_congr (.perm self hperm) h (h.perm hperm) dic⟩

end Congr

/-! ## A lone copy -/

/-- Far apart arguments have far apart values. -/
def Expands (f : ℤ → ℤ) : Prop :=
  ∀ gap, ∃ dist, 0 ≤ dist ∧ ∀ x y, x + dist ≤ y → f x + gap ≤ f y

theorem Expands.id : Expands fun x => x := by
  intro gap
  refine ⟨max gap 0, le_max_right _ _, fun x y h => ?_⟩
  show x + gap ≤ y
  omega

theorem Expands.comp {f g : ℤ → ℤ} (hf : Expands f) (hg : Expands g) :
    Expands fun x => g (f x) := by
  intro gap
  obtain ⟨dist, -, hdist⟩ := hg gap
  obtain ⟨dist', hpos, hdist'⟩ := hf dist
  exact ⟨dist', hpos, fun x y h => hdist _ _ (hdist' x y h)⟩

theorem tdiv_two_bounds (x : ℤ) :
    x / 2 ≤ x.tdiv 2 ∧ x.tdiv 2 ≤ x / 2 + 1 := by
  have hsign : Int.sign 2 = 1 := rfl
  rw [Int.tdiv_eq_ediv, hsign]
  split <;> omega

theorem Expands.halve : Expands fun x => x.tdiv 2 := by
  intro gap
  refine ⟨max (2 * gap + 4) 0, le_max_right _ _, fun x y h => ?_⟩
  show x.tdiv 2 + gap ≤ y.tdiv 2
  have hx := tdiv_two_bounds x
  have hy := tdiv_two_bounds y
  omega

theorem Expands.sub (n : ℤ) : Expands fun x => x - n := by
  intro gap
  refine ⟨max gap 0, le_max_right _ _, fun x y h => ?_⟩
  show x - n + gap ≤ y - n
  omega

/-- Half of a large rate is much less than the rate less a hundred, and stays
less. -/
theorem Expands.exists_slots_lt {before after : ℤ → ℤ} (hbefore : Expands before)
    (hafter : Expands after) (least : ℤ) :
    ∃ rate, least ≤ rate ∧
      after ((before rate).tdiv 2) < after (before rate - 100) ∧
      10 < after (before rate - 100) := by
  obtain ⟨dist, hpos, hdist⟩ := hafter (max 1 (11 - after 0))
  obtain ⟨dist', -, hdist'⟩ := hbefore (2 * dist + 204 - before 0)
  have hlarge := hdist' 0 (max dist' least) (by omega)
  have hbounds := tdiv_two_bounds (before (max dist' least))
  have hslots := hdist ((before (max dist' least)).tdiv 2)
    (before (max dist' least) - 100) (by omega)
  have hzero := hdist 0 (before (max dist' least) - 100) (by omega)
  exact ⟨max dist' least, le_max_right _ _, by omega, by omega⟩

/-- The stored rate after the loop has looked at one player. -/
def cutRate (m : MoveName) (self : Seat) (rate : ℤ) (player : Seat) : ℤ :=
  (cutShown m self (rate, rate) player).1

section Lone

variable {m : MoveName} {self player : Seat} {players : List Seat}

theorem cutShown_fst (rates : ℤ × ℤ) :
    (cutShown m self rates player).1 = cutRate m self rates.1 player := by
  unfold cutRate cutShown
  split
  · rfl
  · split <;> split <;> rfl

/-- The variable `newRate` holds the stored rate as soon as a copy was seen. -/
theorem cutShown_snd (rates : ℤ × ℤ)
    (h : rates.2 = rates.1 ∨
      player.name ≠ self.name ∧ player.shownCopies m ≠ 0) :
    (cutShown m self rates player).2 = (cutShown m self rates player).1 := by
  unfold cutShown
  split
  next hname => exact h.resolve_right fun hother => hother.1 hname
  next =>
    unfold Seat.shownCopies at h
    by_cases h1 : (player.card1.revealed && player.card1.can m) = true <;>
      by_cases h2 : (player.card2.revealed && player.card2.can m) = true <;>
        simp [h1, h2] at h ⊢
    exact h

theorem foldl_cutShown_fst (rates : ℤ × ℤ) :
    (players.foldl (cutShown m self) rates).1 =
      players.foldl (cutRate m self) rates.1 := by
  induction players generalizing rates with
  | nil => rfl
  | cons player players ih =>
      rw [List.foldl_cons, List.foldl_cons, ih, cutShown_fst]

theorem foldl_cutShown_snd (rates : ℤ × ℤ)
    (h : rates.2 = rates.1 ∨ ∃ player ∈ players,
      player.name ≠ self.name ∧ player.shownCopies m ≠ 0) :
    (players.foldl (cutShown m self) rates).2 =
      players.foldl (cutRate m self) rates.1 := by
  rw [← foldl_cutShown_fst]
  induction players generalizing rates with
  | nil => simpa using h
  | cons player players ih =>
      rw [List.foldl_cons]
      apply ih
      rcases h with hsame | ⟨q, hq, hshows⟩
      · exact Or.inl (cutShown_snd rates (Or.inl hsame))
      · rcases List.mem_cons.mp hq with rfl | hq
        · exact Or.inl (cutShown_snd rates (Or.inr hshows))
        · exact Or.inr ⟨q, hq, hshows⟩

theorem Expands.cutRate : Expands fun rate => cutRate m self rate player := by
  unfold Coup.cutRate cutShown
  split
  · exact .id
  · split <;> split
    · exact Expands.halve.comp (.sub 100)
    · exact .halve
    · exact .sub 100
    · exact .id

theorem Expands.foldl_cutRate :
    Expands fun rate => players.foldl (Coup.cutRate m self) rate := by
  induction players with
  | nil => exact .id
  | cons player players ih => exact Expands.cutRate.comp ih

/-- A lone copy is halved in one slot and costs a hundred in the other. -/
theorem cutRate_lone (hother : player.name ≠ self.name)
    (hlone : player.shownCopies m = 1) (rate : ℤ) :
    (cutRate m self rate player = rate.tdiv 2 ∧
        cutRate m self rate player.swapHand = rate - 100) ∨
      (cutRate m self rate player = rate - 100 ∧
        cutRate m self rate player.swapHand = rate.tdiv 2) := by
  have hname : player.swapHand.name = player.name := rfl
  unfold cutRate cutShown
  rw [hname, if_neg hother, if_neg hother]
  unfold Seat.shownCopies at hlone
  by_cases h1 : (player.card1.revealed && player.card1.can m) = true <;>
    by_cases h2 : (player.card2.revealed && player.card2.can m) = true <;>
      simp [h1, h2, Seat.swapHand] at hlone ⊢

/-- From a rate that is large enough the two slots lead to different rates, one
of which is still more than ten. -/
theorem exists_cutRate_ne (hother : player.name ≠ self.name)
    (hlone : player.shownCopies m = 1) (pre post : List Seat) (least : ℤ) :
    ∃ rate, least ≤ rate ∧
      (pre ++ player :: post).foldl (cutRate m self) rate ≠
        (pre ++ player.swapHand :: post).foldl (cutRate m self) rate ∧
      10 < max ((pre ++ player :: post).foldl (cutRate m self) rate)
        ((pre ++ player.swapHand :: post).foldl (cutRate m self) rate) := by
  have hpre : Expands fun rate => pre.foldl (cutRate m self) rate :=
    .foldl_cutRate
  have hpost : Expands fun rate => post.foldl (cutRate m self) rate :=
    .foldl_cutRate
  obtain ⟨rate, hrate, hlt, hlarge⟩ := hpre.exists_slots_lt hpost least
  refine ⟨rate, hrate, ?_⟩
  simp only [List.foldl_append, List.foldl_cons]
  rcases cutRate_lone hother hlone (pre.foldl (cutRate m self) rate) with
    ⟨h1, h2⟩ | ⟨h1, h2⟩
  · rw [h1, h2]
    exact ⟨hlt.ne, lt_max_of_lt_right hlarge⟩
  · rw [h1, h2]
    exact ⟨hlt.ne', lt_max_of_lt_left hlarge⟩

/-- The rates of these moves are the stored ones, changed by their blocks and
by at most ten for the AI's coins. -/
theorem changeMoveRate_stored (hm : m ∈ [.exchange, .tax, .foreignAid])
    (self : Seat) : ∃ shift, -10 ≤ shift ∧ ∀ (s : Seat) players dic,
      s.coins = self.coins → changeMoveRate s players dic m =
        max (roleBlock m none s players (dic m) + shift) 0 := by
  have hrate : m ∈ rateKeys := by
    revert hm
    cases m <;> decide
  have hsteal : m ≠ .steal := by
    rintro rfl
    simp at hm
  refine ⟨if m = .exchange then 0 else if self.coins < 3 then 10 else -10,
    by split <;> [skip; split] <;> omega, fun s players dic hcoins => ?_⟩
  rw [changeMoveRate, clampRates_apply hrate, adjustSteal_apply,
    adjustByCoins_apply, roleBlocks_apply, hcoins]
  simp only [List.mem_cons, List.not_mem_nil, or_false] at hm
  rcases hm with rfl | rfl | rfl <;> simp [roleMoves, startRate]

/-- What is added to the rate of a move the AI has. -/
def heldBonus (m : MoveName) (self : Seat) (players : List Seat) : ℤ :=
  (if self.copies m = 2 then 20 else 10) +
    10 * (shownByOthers m self players : ℤ)

/-- An AI that has turned up a copy and sees another one. -/
theorem roleBlock_of_shown (hshown : self.shownCopies m ≠ 0)
    (hsome : ∃ player ∈ players, player.name ≠ self.name ∧
      player.shownCopies m ≠ 0) (start : Option ℤ) (rate : ℤ) :
    roleBlock m start self players rate =
      players.foldl (cutRate m self)
        (start.getD rate + heldBonus m self players) := by
  have hcopies : self.copies m ≠ 0 := by
    intro hzero
    rw [copies_eq_zero_iff, Bool.or_eq_false_iff] at hzero
    rw [Ne, shownCopies_eq_zero_iff] at hshown
    simp [hzero] at hshown
  rw [roleBlock_eq, if_neg hcopies]
  simp only [hshown, if_false]
  rw [foldl_cutShown_snd _ (Or.inr hsome), add_assoc]
  rfl

theorem map_swapAt_middle (pre post : List Seat)
    (hnames : ((pre ++ player :: post).map Seat.name).Nodup) :
    (pre ++ player :: post).map (Seat.swapAt player.name) =
      pre ++ player.swapHand :: post := by
  rw [List.map_append, List.map_cons,
    List.perm_middle.nodup_iff] at hnames
  have hother := (List.nodup_cons.mp hnames).1
  rw [← List.map_append] at hother
  have hkeep : ∀ q ∈ pre ++ post, q.swapAt player.name = q := fun q hq =>
    if_neg fun hname => hother (List.mem_map.mpr ⟨q, hq, hname⟩)
  have hpre : pre.map (Seat.swapAt player.name) = pre.map id :=
    List.map_congr_left fun q hq => hkeep q (List.mem_append_left _ hq)
  have hpost : post.map (Seat.swapAt player.name) = post.map id :=
    List.map_congr_left fun q hq => hkeep q (List.mem_append_right _ hq)
  rw [List.map_append, List.map_cons, hpre, hpost, List.map_id, List.map_id]
  simp [Seat.swapAt]

/-- A lone copy of a role whose rate is kept matters for some stored rates. -/
theorem lone_copy_matters (hm : m ∈ [.exchange, .tax, .foreignAid])
    (hnames : (players.map Seat.name).Nodup) (hshown : self.shownCopies m ≠ 0)
    (hplayer : player ∈ players) (hother : player.name ≠ self.name)
    (hlone : player.shownCopies m = 1) :
    ∃ dic : MoveName → ℤ, (∀ k, 0 ≤ dic k) ∧
      changeMoveRate (self.swapAt player.name)
          (players.map (Seat.swapAt player.name)) dic m ≠
        changeMoveRate self players dic m := by
  obtain ⟨pre, post, rfl⟩ := List.append_of_mem hplayer
  have hself : self.swapAt player.name = self := if_neg hother.symm
  have hsums := (SameSums.swap player.name self (pre ++ player :: post)).others m
  rw [hself, map_swapAt_middle pre post hnames] at hsums ⊢
  have hbonus : heldBonus m self (pre ++ player.swapHand :: post) =
      heldBonus m self (pre ++ player :: post) := by
    rw [heldBonus, heldBonus, hsums]
  obtain ⟨rate, hleast, hne, hlarge⟩ := exists_cutRate_ne hother hlone pre
    post (heldBonus m self (pre ++ player :: post))
  obtain ⟨shift, hshift, hrates⟩ := changeMoveRate_stored hm self
  have hcopies : player.swapHand.shownCopies m = player.shownCopies m :=
    Nat.add_comm _ _
  refine ⟨fun _ => rate - heldBonus m self (pre ++ player :: post),
    fun _ => sub_nonneg.mpr hleast, ?_⟩
  rw [hrates _ _ _ rfl, hrates _ _ _ rfl,
    roleBlock_of_shown hshown ⟨player, hplayer, hother, by omega⟩,
    roleBlock_of_shown hshown ⟨player.swapHand, by simp, hother, by omega⟩,
    hbonus, Option.getD_none, sub_add_cancel]
  omega

/-- The coins of the AI or of the others set the rate to zero. -/
def ZeroedByCoins (m : MoveName) (self : Seat) (players : List Seat) : Prop :=
  m = .assassinate ∧ self.coins < 3 ∨
    m = .steal ∧ (poorOthers self players : ℤ) = (players.length : ℤ) - 1

/-- The rates of the other two moves with a block start over. -/
theorem changeMoveRate_restarted (hm : m ∈ [.assassinate, .steal])
    (hkept : ¬ ZeroedByCoins m self players) (dic : MoveName → ℤ) :
    changeMoveRate self players dic m =
      max (roleBlock m (some 5) self players (dic m)) 0 := by
  rw [ZeroedByCoins, not_or] at hkept
  simp only [List.mem_cons, List.not_mem_nil, or_false] at hm
  rcases hm with rfl | rfl
  · have hcoins : ¬ self.coins < 3 := fun hpoor => hkept.1 ⟨rfl, hpoor⟩
    rw [changeMoveRate, clampRates_apply (by simp [rateKeys]),
      adjustSteal_apply, adjustByCoins_apply, roleBlocks_apply]
    simp [hcoins, roleMoves, startRate]
  · rw [changeMoveRate_steal, if_neg fun hnone => hkept.2 ⟨rfl, hnone⟩]

theorem foldl_cutRate_of_none (h : shownByOthers m self players = 0)
    (rate : ℤ) : players.foldl (cutRate m self) rate = rate := by
  induction players with
  | nil => rfl
  | cons player players ih =>
      rw [shownByOthers_cons, Nat.add_eq_zero_iff] at h
      have hsame : cutRate m self rate player = rate := by
        unfold cutRate
        rw [cutShown_eq]
        · split
          next hshows =>
            rw [if_neg hshows.1] at h
            exact absurd h.1 hshows.2
          next => rfl
        · intro hname hone
          rw [if_neg hname, hone] at h
          exact absurd h.1 one_ne_zero
      rw [List.foldl_cons, hsame, ih h.2]

/-- The only copy that others show costs the whole rate in one slot and half of
it in the other. -/
theorem only_copy_matters (hm : m ∈ [.assassinate, .steal])
    (hnames : (players.map Seat.name).Nodup) (hshown : self.shownCopies m ≠ 0)
    (hone : shownByOthers m self players = 1)
    (hkept : ¬ ZeroedByCoins m self players) (dic : MoveName → ℤ) :
    ∃ n, changeMoveRate (self.swapAt n) (players.map (Seat.swapAt n)) dic m ≠
      changeMoveRate self players dic m := by
  obtain ⟨player, hplayer, hother, hsome⟩ :=
    exists_of_shownByOthers (by omega : shownByOthers m self players ≠ 0)
  obtain ⟨pre, post, rfl⟩ := List.append_of_mem hplayer
  refine ⟨player.name, ?_⟩
  have hself : self.swapAt player.name = self := if_neg hother.symm
  have hsums := SameSums.swap player.name self (pre ++ player :: post)
  have hrest := hone
  rw [shownByOthers_append, shownByOthers_cons, if_neg hother] at hrest
  have hlone : player.shownCopies m = 1 := by omega
  have hpre : shownByOthers m self pre = 0 := by omega
  have hpost : shownByOthers m self post = 0 := by omega
  rw [hself, map_swapAt_middle pre post hnames] at hsums ⊢
  have hkept' : ¬ ZeroedByCoins m self (pre ++ player.swapHand :: post) := by
    rw [ZeroedByCoins, hsums.poor, hsums.length]
    exact hkept
  have hbonus : heldBonus m self (pre ++ player.swapHand :: post) =
      heldBonus m self (pre ++ player :: post) := by
    rw [heldBonus, heldBonus, hsums.others]
  have hraised : heldBonus m self (pre ++ player :: post) = 20 ∨
      heldBonus m self (pre ++ player :: post) = 30 := by
    rw [heldBonus, hone]
    split
    · exact Or.inr rfl
    · exact Or.inl rfl
  have hcopies : player.swapHand.shownCopies m = player.shownCopies m :=
    Nat.add_comm _ _
  rw [changeMoveRate_restarted hm hkept', changeMoveRate_restarted hm hkept,
    roleBlock_of_shown hshown ⟨player, hplayer, hother, by omega⟩,
    roleBlock_of_shown hshown ⟨player.swapHand, by simp, hother, by omega⟩,
    hbonus, Option.getD_some, List.foldl_append, List.foldl_append,
    List.foldl_cons, List.foldl_cons, foldl_cutRate_of_none hpre,
    foldl_cutRate_of_none hpost, foldl_cutRate_of_none hpost]
  have hhalf := tdiv_two_bounds (5 + heldBonus m self (pre ++ player :: post))
  rcases cutRate_lone hother hlone
      (5 + heldBonus m self (pre ++ player :: post)) with
    ⟨h1, h2⟩ | ⟨h1, h2⟩ <;> rw [h1, h2] <;> omega

end Lone

/-- Slots and seats do not matter to an AI that sees no lone copy of a role it
has turned up itself.  Where a lone copy bears on a rate that is kept, they do
for some stored rates; where the only copy that others show bears on a rate that
starts over, they do for all stored rates, unless coins set that rate to
zero. -/
theorem rates_independent {self : Seat} {players : List Seat}
    (hnames : (players.map Seat.name).Nodup) :
    (NoLoneCopy self players → ∀ dic, Independent self players dic) ∧
      ((∀ dic, (∀ k, 0 ≤ dic k) → Independent self players dic) →
        ∀ m ∈ [.exchange, .tax, .foreignAid], NoLoneCopyOf m self players) ∧
      ∀ dic, Independent self players dic → ∀ m ∈ [.assassinate, .steal],
        self.shownCopies m ≠ 0 → shownByOthers m self players = 1 →
          ZeroedByCoins m self players := by
  refine ⟨NoLoneCopy.independent, ?_, ?_⟩
  · intro h m hm hshown player hplayer hother hlone
    obtain ⟨dic, hdic, hne⟩ :=
      lone_copy_matters hm hnames hshown hplayer hother hlone
    exact hne (congrFun ((h dic hdic).slots player.name) m)
  · intro dic h m hm hshown hone
    by_contra hkept
    obtain ⟨n, hne⟩ := only_copy_matters hm hnames hshown hone hkept dic
    exact hne (congrFun (h.slots n) m)

/-- The AI has turned up a Duke, and the user has turned up `card1`. -/
def dukeShown (card1 : Card) : List Seat :=
  [⟨"user", card1, ⟨.contessa, false⟩, 2⟩,
    ⟨"Charlie Puth", ⟨.duke, true⟩, ⟨.captain, false⟩, 2⟩]

theorem rates_independent_dukeShown :
    Independent ⟨"Charlie Puth", ⟨.duke, true⟩, ⟨.captain, false⟩, 2⟩
      (dukeShown ⟨.assassin, true⟩) (fun _ => 5) := by
  have hnames : ((dukeShown ⟨.assassin, true⟩).map Seat.name).Nodup := by
    decide
  refine (rates_independent hnames).1 ?_ _
  unfold NoLoneCopy NoLoneCopyOf
  decide

/-- With a Duke turned up by the user as well, the rate of tax is `22` or `0`,
depending on the slot the user's Duke is in. -/
theorem slots_matter :
    ¬ ∀ (self : Seat) (players : List Seat) (dic : MoveName → ℤ),
      (players.map Seat.name).Nodup → self ∈ players →
        Independent self players dic := by
  intro h
  have hslots := (h ⟨"Charlie Puth", ⟨.duke, true⟩, ⟨.captain, false⟩, 2⟩
    (dukeShown ⟨.duke, true⟩) (fun _ => 5) (by decide)
    (List.mem_cons_of_mem _ List.mem_cons_self)).slots "user"
  have htax := congrFun hslots .tax
  revert htax
  decide

end Coup
