import Coup.Backend.Seating

/-!
# The rate of a steal

`changeMoveRate` sets the rate of a steal to zero when no other player has two
coins.  Otherwise it stays positive unless the AI has turned up a Captain and
another player shows one as the second card, or the AI has no Captain and its
stored rate is used up.
-/

namespace Coup

/-- Whether the second card of a hand is a copy that everybody can see. -/
def Seat.showsSecond (m : MoveName) (s : Seat) : Bool :=
  s.card2.revealed && s.card2.can m

/-- What the role block for a steal needs to leave a positive rate. -/
def RatesSteal (self : Seat) (players : List Seat) (stored : ℤ) : Prop :=
  if self.copies .steal = 0 then
    1 + 2 * ((players.map (Seat.shownCopies .steal)).sum : ℤ) < stored
  else self.shownCopies .steal = 0 ∨ ∀ player ∈ players,
    player.name ≠ self.name → player.showsSecond .steal = false

/-! ## Counting copies -/

section Copies

variable {m : MoveName} {self player : Seat} {players : List Seat}

theorem shownCopies_le_copies (s : Seat) : s.shownCopies m ≤ s.copies m := by
  unfold Seat.shownCopies Seat.copies
  cases s.card1.revealed <;> cases s.card2.revealed <;> simp

theorem shownByOthers_le :
    shownByOthers m self players ≤ (players.map (Seat.copies m)).sum := by
  induction players with
  | nil => simp [shownByOthers]
  | cons player players ih =>
      have hle := shownCopies_le_copies (m := m) player
      rw [shownByOthers_cons, List.map_cons, List.sum_cons]
      split <;> omega

/-- An AI's own copies and those it sees are different cards. -/
theorem shownByOthers_add_copies_le (h : self ∈ players) :
    shownByOthers m self players + self.copies m ≤
      (players.map (Seat.copies m)).sum := by
  induction players with
  | nil => cases h
  | cons player players ih =>
      rw [shownByOthers_cons, List.map_cons, List.sum_cons]
      rcases List.mem_cons.mp h with rfl | h
      · have hle : ∀ s, shownByOthers m s players ≤
            (players.map (Seat.copies m)).sum := fun _ => shownByOthers_le
        have hrest := hle self
        rw [if_pos rfl]
        omega
      · have hle := shownCopies_le_copies (m := m) player
        have hrest := ih h
        split <;> omega

end Copies

/-! ## Copies the AI has turned up itself -/

section Cut

variable {m : MoveName} {self player : Seat} {players : List Seat} {rate : ℤ}

theorem cutRate_eq :
    cutRate m self rate player =
      if player.name = self.name then rate
      else (if player.card1.revealed && player.card1.can m then rate.tdiv 2
        else rate) - if player.showsSecond m then 100 else 0 := by
  unfold cutRate cutShown Seat.showsSecond
  split
  · rfl
  · split <;> split <;> simp

/-- As long as no second card shows a copy, each copy halves the rate. -/
theorem foldl_cutRate_pos
    (hsecond : ∀ player ∈ players, player.name ≠ self.name →
      player.showsSecond m = false)
    (hrate : 2 ^ shownByOthers m self players ≤ rate) :
    0 < players.foldl (cutRate m self) rate := by
  induction players generalizing rate with
  | nil =>
      rw [shownByOthers, List.filter_nil, List.map_nil, List.sum_nil,
        pow_zero] at hrate
      exact hrate
  | cons player players ih =>
      rw [List.foldl_cons]
      refine ih (fun q hq => hsecond q (List.mem_cons_of_mem _ hq)) ?_
      rw [shownByOthers_cons] at hrate
      rw [cutRate_eq]
      by_cases hname : player.name = self.name
      · simpa [hname] using hrate
      · have hno := hsecond player List.mem_cons_self hname
        rw [if_neg hname] at hrate ⊢
        rw [hno, if_neg Bool.false_ne_true, sub_zero]
        have hcopies : player.shownCopies m =
            if player.card1.revealed && player.card1.can m then 1 else 0 := by
          unfold Seat.showsSecond at hno
          simp [Seat.shownCopies, hno]
        rw [hcopies] at hrate
        split
        next hfirst =>
          rw [if_pos hfirst, pow_add, pow_one] at hrate
          have hbounds := tdiv_two_bounds rate
          omega
        next hfirst =>
          rwa [if_neg hfirst, zero_add] at hrate

theorem tdiv_two_nonpos (hrate : rate ≤ 0) : rate.tdiv 2 ≤ 0 := by
  have hneg := Int.neg_tdiv rate 2
  have hnonneg := Int.tdiv_nonneg (a := -rate) (b := 2) (by omega) (by decide)
  omega

theorem foldl_cutRate_nonpos (hrate : rate ≤ 0) :
    players.foldl (cutRate m self) rate ≤ 0 := by
  induction players generalizing rate with
  | nil => exact hrate
  | cons player players ih =>
      rw [List.foldl_cons]
      apply ih
      have hhalf : rate.tdiv 2 ≤ 0 := tdiv_two_nonpos hrate
      rw [cutRate_eq]
      split
      · exact hrate
      · split <;> split <;> omega

/-- A copy shown as a second card costs more than the rate of a steal. -/
theorem foldl_cutRate_of_second (hpos : 0 ≤ rate) (hrate : rate ≤ 100)
    (hsecond : ∃ player ∈ players, player.name ≠ self.name ∧
      player.showsSecond m = true) :
    players.foldl (cutRate m self) rate ≤ 0 := by
  induction players generalizing rate with
  | nil => simp at hsecond
  | cons player players ih =>
      rw [List.foldl_cons]
      have hbounds := tdiv_two_bounds rate
      by_cases hhere : player.name ≠ self.name ∧ player.showsSecond m = true
      · apply foldl_cutRate_nonpos
        rw [cutRate_eq, if_neg hhere.1, if_pos hhere.2]
        split <;> omega
      · have hstep : cutRate m self rate player = rate ∨
            cutRate m self rate player = rate.tdiv 2 := by
          rw [cutRate_eq]
          by_cases hname : player.name = self.name
          · exact Or.inl (if_pos hname)
          · have hno : ¬ player.showsSecond m = true := fun h => hhere ⟨hname, h⟩
            rw [if_neg hname, if_neg hno, sub_zero]
            split
            · exact Or.inr rfl
            · exact Or.inl rfl
        obtain ⟨q, hq, hshows⟩ := hsecond
        have hrest : ∃ q ∈ players, q.name ≠ self.name ∧
            q.showsSecond m = true := by
          rcases List.mem_cons.mp hq with rfl | hq
          · exact absurd hshows hhere
          · exact ⟨q, hq, hshows⟩
        rcases hstep with h | h <;> rw [h] <;>
          exact ih (by omega) (by omega) hrest

/-- A rate of a few dozen outlives two copies exactly if none of them is a
second card. -/
theorem foldl_cutRate_pos_iff (hleast : 4 ≤ rate) (hmost : rate ≤ 100)
    (htwo : shownByOthers m self players ≤ 2) :
    0 < players.foldl (cutRate m self) rate ↔
      ∀ player ∈ players, player.name ≠ self.name →
        player.showsSecond m = false := by
  constructor
  · intro hpos
    by_contra hsecond
    have hcost : players.foldl (cutRate m self) rate ≤ 0 :=
      foldl_cutRate_of_second (by omega) hmost (by simpa using hsecond)
    omega
  · intro hsecond
    apply foldl_cutRate_pos hsecond
    have hpow : 2 ^ shownByOthers m self players ≤ 2 ^ 2 :=
      Nat.pow_le_pow_right (by decide) htwo
    have hcast : ((2 ^ shownByOthers m self players : ℕ) : ℤ) ≤ 4 := by
      exact_mod_cast hpow
    push_cast at hcast
    exact hcast.trans hleast

end Cut

/-! ## The rate -/

section Steal

variable {self : Seat} {players : List Seat}

theorem showsSecond_of_none {m : MoveName}
    (h : ∀ player ∈ players, player.name ≠ self.name →
      player.shownCopies m = 0) :
    ∀ player ∈ players, player.name ≠ self.name →
      player.showsSecond m = false := by
  intro player hplayer hname
  have hzero := shownCopies_eq_zero_iff.mp (h player hplayer hname)
  exact (Bool.or_eq_false_iff.mp hzero).2

theorem roleBlock_steal_pos (hthree : self.shownCopies .steal ≠ 0 →
      shownByOthers .steal self players ≤ 2) (rate : ℤ) :
    0 < roleBlock .steal (some 5) self players rate ↔
      RatesSteal self players rate := by
  rw [roleBlock_eq, RatesSteal]
  split
  next => omega
  next =>
    simp only [Option.getD_some]
    split
    next hshown => exact ⟨fun _ => Or.inl hshown, fun _ => by split <;> omega⟩
    next hshown =>
      have htwo := hthree hshown
      have hraised : ∃ raised : ℤ, raised = 5 +
          (if self.copies .steal = 2 then 20 else 10) +
          10 * (shownByOthers .steal self players : ℤ) ∧ 15 ≤ raised ∧
            raised ≤ 100 := by
        refine ⟨_, rfl, ?_, ?_⟩ <;> split <;> omega
      obtain ⟨raised, heq, hleast, hmost⟩ := hraised
      rw [← heq]
      by_cases hnone : ∀ player ∈ players, player.name ≠ self.name →
          player.shownCopies .steal = 0
      · have hcount : showingOthers .steal self players = 0 := by
          rw [showingOthers, List.countP_eq_zero]
          intro player hplayer
          simpa using hnone player hplayer
        rw [foldl_cutShown _ fun player hplayer hname => by
          simp [hnone player hplayer hname], hcount]
        have hhalf := tdiv_two_bounds raised
        refine iff_of_true ?_ (Or.inr (showsSecond_of_none hnone))
        show 0 < raised.tdiv 2
        omega
      · have hsome : ∃ player ∈ players, player.name ≠ self.name ∧
            player.shownCopies .steal ≠ 0 := by
          simpa using hnone
        rw [foldl_cutShown_snd _ (Or.inr hsome), or_iff_right hshown]
        exact foldl_cutRate_pos_iff (by omega) hmost htwo

/-- If one seat only has the AI's name, then nobody else can be robbed exactly
if nobody else has two coins. -/
theorem poorOthers_eq_iff
    (hnames : (players.map Seat.name).count self.name = 1) :
    (poorOthers self players : ℤ) = (players.length : ℤ) - 1 ↔
      ∀ player ∈ players, player.name ≠ self.name → player.coins < 2 := by
  have hsplit : players.length =
      (players.filter fun q => decide (q.name ≠ self.name)).length + 1 := by
    rw [List.length_eq_countP_add_countP fun q => decide (q.name ≠ self.name),
      List.countP_eq_length_filter, ← hnames, List.count_eq_countP,
      List.countP_map]
    congr 2
    funext q
    by_cases hq : q.name = self.name <;> simp [hq]
  have hpoor : poorOthers self players =
      (players.filter fun q => decide (q.name ≠ self.name)).countP
        fun q => decide (q.coins < 2) := by
    rw [poorOthers, List.countP_filter]
    apply List.countP_congr
    intro q _
    by_cases hq : q.name = self.name <;> simp [hq]
  rw [hpoor, hsplit]
  have hall : (players.filter fun q => decide (q.name ≠ self.name)).countP
        (fun q => decide (q.coins < 2)) =
      (players.filter fun q => decide (q.name ≠ self.name)).length ↔
        ∀ player ∈ players, player.name ≠ self.name → player.coins < 2 := by
    rw [List.countP_eq_length]
    simp
  rw [← hall]
  push_cast
  omega

end Steal

end Coup
